import Sqry.Edge.Sweep
import Sqry.Lib.Worklist
import Sqry.Query.Join

/-!
The search for a container with a matching name. It follows one container from each node, the
first that it has not visited, so the containers it meets form a chain.
-/

namespace Sqry

namespace GraphSnapshot

/-- What the search reads: the graph, the order in which the edges of a node are met, and the
compiled form of a regular expression, if it compiles. -/
structure AncestorSearch where
  graph : GraphSnapshot
  orders : HashOrders
  compileRegex : RegexValue → Option (String → Bool)

end GraphSnapshot

namespace GraphSnapshot.AncestorSearch
variable (search : AncestorSearch)

def nameMatches (operator : Operator) (value : Value) (name : String) : Bool :=
  match operator, value with
  | .equal, .string expected => segmentsMatch name expected
  | .regex, .regex pattern =>
    match search.compileRegex pattern with
    | some isMatch => isMatch name
    | none => false
  | _, _ => false

def nodeMatches (operator : Operator) (value : Value) (node : NodeId) : Bool :=
  match search.graph.nodes.get node with
  | none => false
  | some entry =>
    match search.graph.resolve entry.name with
    | none => false
    | some name => search.nameMatches operator value name

def isContains : EdgeKind → Bool
  | .contains => true
  | _ => false

def edgesTo (node : NodeId) : List StoreEdgeRef :=
  search.orders.edges node (search.graph.edges.edgesTo node)

/-- The inner loop: the source of the first `Contains` edge that was not visited. -/
def nextContainer (current : NodeId) (visited : List NodeId) : Option NodeId :=
  ((search.edgesTo current).find? fun edge =>
    isContains edge.kind && !visited.contains edge.source).map StoreEdgeRef.source

/-- The outer loop; `none` when the steps run out. -/
def climb (operator : Operator) (value : Value) : Nat → NodeId → List NodeId → Option Bool
  | 0, _, _ => none
  | steps + 1, current, visited =>
    match search.nextContainer current visited with
    | none => some false
    | some container =>
      if search.nodeMatches operator value container then some true
      else climb operator value steps container (container :: visited)

def matchScopeAncestorName (steps : Nat) (node : NodeId) (operator : Operator) (value : Value) :
    Option Bool :=
  search.climb operator value steps node [node]

def ContainedIn (node container : NodeId) : Prop :=
  ∃ edge ∈ search.graph.edges.edgesTo node, edge.source = container ∧ isContains edge.kind = true

def Ancestor (node ancestor : NodeId) : Prop :=
  ancestor ≠ node ∧ Relation.TransGen search.ContainedIn node ancestor

def FindsAncestors (node : NodeId) (operator : Operator) (value : Value) : Prop :=
  ∃ steps found, search.matchScopeAncestorName steps node operator value = some found ∧
    (found = true ↔
      ∃ ancestor, search.Ancestor node ancestor ∧ search.nodeMatches operator value ancestor = true)

/-- The nodes over the current one when the first container that was not visited is taken each
time. -/
inductive OnChain : NodeId → List NodeId → NodeId → Prop where
  | first {current : NodeId} {visited : List NodeId} {container : NodeId} :
      search.nextContainer current visited = some container → OnChain current visited container
  | above {current : NodeId} {visited : List NodeId} {container node : NodeId} :
      search.nextContainer current visited = some container →
        OnChain container (container :: visited) node → OnChain current visited node

def MatchesOnChain (node : NodeId) (operator : Operator) (value : Value) : Prop :=
  (∃ ancestor, search.Ancestor node ancestor ∧
    search.nodeMatches operator value ancestor = true) →
  ∃ ancestor, search.OnChain node [node] ancestor ∧
    search.nodeMatches operator value ancestor = true

variable {search}

section Next
variable {current container : NodeId} {visited : List NodeId}

theorem containedIn_of_nextContainer (h : search.nextContainer current visited = some container) :
    search.ContainedIn current container ∧ container ∉ visited := by
  rw [nextContainer, Option.map_eq_some_iff] at h
  obtain ⟨edge, hfind, hsource⟩ := h
  have hfound := List.find?_some hfind
  have hedge := (search.orders.edges_perm _ _).mem_iff.mp (List.mem_of_find?_eq_some hfind)
  rw [Bool.and_eq_true, Bool.not_eq_true', hsource] at hfound
  refine ⟨⟨edge, hedge, hsource, hfound.1⟩, fun hmem => ?_⟩
  rw [List.contains_iff_mem.mpr hmem] at hfound
  cases hfound.2

end Next

section Ends

def reportedTargets (st : EdgeStore) : List NodeId :=
  ((List.range st.csrNodeCount).flatMap st.csrEdgesOf).map EdgeRef.target ++
    st.delta.iter.map DeltaEdge.target

theorem target_mem_reportedTargets {st : EdgeStore} {source : NodeId} {edge : StoreEdgeRef}
    (h : edge ∈ st.edgesFrom source) : edge.target ∈ reportedTargets st := by
  rw [reportedTargets, List.mem_append, List.mem_map, List.mem_map]
  cases EdgeStore.mem_edgesFrom.mp h with
  | inl hrow =>
    obtain ⟨r, hr, _, heq⟩ := hrow
    refine .inl ⟨r, List.mem_flatMap.mpr ⟨source.index, ?_, hr⟩, ?_⟩
    · cases Nat.lt_or_ge source.index st.csrNodeCount with
      | inl hlt => exact List.mem_range.mpr hlt
      | inr hge =>
        rw [EdgeStore.csrEdgesOf_of_le hge] at hr
        cases hr
    · rw [heq]
      rfl
  | inr hdelta =>
    obtain ⟨w, _, hlatest, _, _, heq⟩ := hdelta
    exact .inr ⟨w, (latest_spec hlatest).1, by rw [heq]; rfl⟩

theorem container_mem_reportedTargets {node container : NodeId}
    (h : search.ContainedIn node container) :
    container ∈ reportedTargets search.graph.edges.reverse := by
  obtain ⟨edge, hedge, hsource, _⟩ := h
  obtain ⟨e, he, heq⟩ := List.mem_map.mp hedge
  rw [← hsource, ← heq]
  exact target_mem_reportedTargets he

theorem exists_climb (operator : Operator) (value : Value) {steps : Nat} {current : NodeId}
    {visited : List NodeId}
    (h : Worklist.missing (reportedTargets search.graph.edges.reverse) visited < steps) :
    ∃ found, search.climb operator value steps current visited = some found := by
  induction steps generalizing current visited with
  | zero => cases h
  | succ steps ih =>
    rw [climb]
    cases hnext : search.nextContainer current visited with
    | none => exact ⟨false, rfl⟩
    | some container =>
      obtain ⟨hin, hnew⟩ := containedIn_of_nextContainer hnext
      have hless := Worklist.missing_cons_lt (container_mem_reportedTargets hin) hnew
      by_cases hmatch : search.nodeMatches operator value container = true
      · exact ⟨true, if_pos hmatch⟩
      · obtain ⟨found, hfound⟩ := @ih container (container :: visited) (by omega)
        exact ⟨found, (if_neg hmatch).trans hfound⟩

end Ends

theorem climb_eq_true_iff {operator : Operator} {value : Value} {steps : Nat} {current : NodeId}
    {visited : List NodeId} {found : Bool}
    (h : search.climb operator value steps current visited = some found) :
    found = true ↔ ∃ ancestor, search.OnChain current visited ancestor ∧
      search.nodeMatches operator value ancestor = true := by
  induction steps generalizing current visited with
  | zero => cases h
  | succ steps ih =>
    rw [climb] at h
    cases hnext : search.nextContainer current visited with
    | none =>
      rw [hnext] at h
      cases h
      refine ⟨fun hfalse => Bool.noConfusion hfalse, fun hchain => ?_⟩
      obtain ⟨ancestor, hon, _⟩ := hchain
      cases hon with
      | first hfirst => rw [hnext] at hfirst; cases hfirst
      | above hfirst _ => rw [hnext] at hfirst; cases hfirst
    | some container =>
      rw [hnext] at h
      by_cases hmatch : search.nodeMatches operator value container = true
      · simp only [if_pos hmatch] at h
        cases h
        exact ⟨fun _ => ⟨container, .first hnext, hmatch⟩, fun _ => rfl⟩
      · simp only [if_neg hmatch] at h
        refine (ih h).trans ⟨fun hchain => ?_, fun hchain => ?_⟩
        · obtain ⟨ancestor, hon, hmatches⟩ := hchain
          exact ⟨ancestor, .above hnext hon, hmatches⟩
        · obtain ⟨ancestor, hon, hmatches⟩ := hchain
          refine ⟨ancestor, ?_, hmatches⟩
          cases hon with
          | first hfirst =>
            rw [hnext] at hfirst
            cases hfirst
            exact absurd hmatches hmatch
          | above hfirst habove =>
            rw [hnext] at hfirst
            cases hfirst
            exact habove

theorem OnChain.transGen {current node : NodeId} {visited : List NodeId}
    (h : search.OnChain current visited node) :
    Relation.TransGen search.ContainedIn current node ∧ node ∉ visited := by
  induction h with
  | first hnext =>
    obtain ⟨hin, hnew⟩ := containedIn_of_nextContainer hnext
    exact ⟨.single hin, hnew⟩
  | above hnext _ ih =>
    obtain ⟨hin, _⟩ := containedIn_of_nextContainer hnext
    exact ⟨.head hin ih.1, fun hmem => ih.2 (List.mem_cons_of_mem _ hmem)⟩

theorem ancestor_of_onChain {node ancestor : NodeId} (h : search.OnChain node [node] ancestor) :
    search.Ancestor node ancestor := by
  obtain ⟨hpath, hnew⟩ := h.transGen
  exact ⟨fun heq => hnew (List.mem_singleton.mpr heq), hpath⟩

/-- The search is right just when no ancestor that matches is hidden by the chain. -/
theorem matchScopeAncestorName_iff (search : AncestorSearch) (node : NodeId) (operator : Operator)
    (value : Value) :
    search.FindsAncestors node operator value ↔ search.MatchesOnChain node operator value := by
  constructor
  · intro h hancestor
    obtain ⟨steps, found, hclimb, hfound⟩ := h
    exact (climb_eq_true_iff hclimb).mp (hfound.mpr hancestor)
  · intro h
    have hlt := Nat.lt_succ_self
      (Worklist.missing (reportedTargets search.graph.edges.reverse) [node])
    obtain ⟨found, hclimb⟩ := @exists_climb search operator value _ node [node] hlt
    refine ⟨_, found, hclimb, (climb_eq_true_iff hclimb).trans ⟨fun hchain => ?_, h⟩⟩
    obtain ⟨ancestor, hon, hmatches⟩ := hchain
    exact ⟨ancestor, ancestor_of_onChain hon, hmatches⟩

section Example

def twoContainers : AncestorSearch where
  graph :=
    { nodes := ⟨[⟨1, .occupied (.new .function (.ofUInt8 1) 1)⟩,
        ⟨1, .occupied (.new .class (.ofUInt8 2) 1)⟩,
        ⟨1, .occupied (.new .class (.ofUInt8 3) 1)⟩], none, 3⟩
      strings := ⟨[none, some "f", some "A", some "B"], ∅, [0, 1, 1, 1], [], none, true⟩
      files := ⟨[none, some ⟨none⟩]⟩
      edges := (BidirectionalEdgeStore.new.addEdge ⟨1, 1⟩ ⟨0, 1⟩ .contains 1).addEdge
        ⟨2, 1⟩ ⟨0, 1⟩ .contains 1 }
  orders := .listed
  compileRegex := fun _ => none

/-- The container that is met second is not found. -/
theorem second_container_missed :
    ¬ ∀ (search : AncestorSearch) (node : NodeId) (operator : Operator) (value : Value),
      search.FindsAncestors node operator value := by
  intro h
  obtain ⟨steps, found, hclimb, hfound⟩ := h twoContainers ⟨0, 1⟩ .equal (.string "A")
  have hancestor : twoContainers.Ancestor ⟨0, 1⟩ ⟨1, 1⟩ :=
    ⟨by decide, .single ⟨⟨⟨1, 1⟩, ⟨0, 1⟩, .contains, 0, 1, []⟩, by decide, rfl, rfl⟩⟩
  obtain ⟨ancestor, hon, hmatches⟩ :=
    (climb_eq_true_iff hclimb).mp (hfound.mpr ⟨⟨1, 1⟩, hancestor, by decide⟩)
  have hfirst : twoContainers.nextContainer ⟨0, 1⟩ [⟨0, 1⟩] = some ⟨2, 1⟩ := by decide
  have hsecond : twoContainers.nextContainer ⟨2, 1⟩ [⟨2, 1⟩, ⟨0, 1⟩] = none := by decide
  have hother : twoContainers.nodeMatches .equal (.string "A") ⟨2, 1⟩ = false := by decide
  cases hon with
  | first hnext =>
    cases hfirst.symm.trans hnext
    cases hother.symm.trans hmatches
  | above hnext habove =>
    cases hfirst.symm.trans hnext
    cases habove with
    | first hlast => cases hsecond.symm.trans hlast
    | above hlast _ => cases hsecond.symm.trans hlast

end Example

end GraphSnapshot.AncestorSearch
end Sqry
