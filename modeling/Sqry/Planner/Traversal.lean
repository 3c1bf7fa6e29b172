import Sqry.Lib.LevelSearch
import Sqry.Planner.Execute

/-!
A traversal of a plan as the executor runs it, with its queue. On nodes where the forward and the
reverse lists of edges mirror each other, it is an exact search for what lies within the depth.
-/

namespace Sqry
open LevelSearch (Search Within Steps)

theorem newNodes_eq_fresh (visited l : List NodeId) :
    newNodes visited l = LevelSearch.fresh visited l := by
  induction l generalizing visited with
  | nil => rfl
  | cons next rest ih => rw [newNodes, LevelSearch.fresh, ih, ih]

theorem traverseLevels_eq_levels (next : NodeId → List NodeId) (depth : Nat)
    (frontier visited : List NodeId) :
    traverseLevels next depth frontier visited =
      LevelSearch.levels next depth frontier visited := by
  induction depth generalizing frontier visited with
  | zero => rfl
  | succ depth ih =>
    rw [traverseLevels, LevelSearch.levels, newNodes_eq_fresh]
    cases hfound : LevelSearch.fresh visited (frontier.flatMap next) with
    | nil => rw [LevelSearch.levels_nil, List.append_nil]
    | cons a found =>
      rw [← ih]

/-- Whether an edge of that kind is followed: its variant is the one that is wanted, and a call
was resolved in the way that is wanted. -/
def Admissible (edgeKind : Option EdgeKind) (resolvedVia : Option ResolvedVia)
    (kind : EdgeKind) : Prop :=
  (∀ want, edgeKind = some want → kind.ctorIdx = want.ctorIdx) ∧
    ∀ want argumentCount isAsync edgeVia, resolvedVia = some want →
      kind = .calls argumentCount isAsync edgeVia → edgeVia = want

theorem followsEdge_iff {edgeKind : Option EdgeKind} {resolvedVia : Option ResolvedVia}
    {kind : EdgeKind} :
    PlannerDb.followsEdge edgeKind resolvedVia kind = true ↔
      Admissible edgeKind resolvedVia kind := by
  rw [PlannerDb.followsEdge.eq_def, Bool.and_eq_true]
  refine and_congr ?_ ?_
  · cases edgeKind with
    | none => simp
    | some want => simp [EdgeKind.sameDiscriminant]
  · cases resolvedVia with
    | none => simp
    | some want =>
      cases kind with
      | calls argumentCount isAsync edgeVia =>
        refine ⟨fun h want' _ _ _ hwant hcalls => ?_, fun h => ?_⟩
        · cases hwant
          cases hcalls
          exact of_decide_eq_true h
        · exact decide_eq_true (h want argumentCount isAsync edgeVia rfl rfl)
      | _ => simp

namespace PlannerSnapshot
variable (s : PlannerSnapshot)

/-- On these nodes the lists mirror each other: the forward list of a node holds the edges that
start there, each is in the reverse list of its end, and conversely. -/
structure MirrorsOn (nodes : NodeId → Prop) : Prop where
  forward : ∀ a, nodes a → ∀ e ∈ s.edges.edgesFrom a, e.source = a ∧ nodes e.target ∧
    ∃ e' ∈ s.edges.edgesTo e.target, e'.source = a ∧ e'.kind = e.kind
  reverse : ∀ b, nodes b → ∀ e ∈ s.edges.edgesTo b, nodes e.source ∧
    ∃ e' ∈ s.edges.edgesFrom e.source, e'.target = b ∧ e'.kind = e.kind

/-- An admissible edge leads from the node `a` to `b`. -/
def Joins (nodes : NodeId → Prop) (edgeKind : Option EdgeKind) (resolvedVia : Option ResolvedVia)
    (a b : NodeId) : Prop :=
  nodes a ∧ ∃ e ∈ s.edges.edgesFrom a, e.source = a ∧ e.target = b ∧
    Admissible edgeKind resolvedVia e.kind

def Follows (nodes : NodeId → Prop) (edgeKind : Option EdgeKind)
    (resolvedVia : Option ResolvedVia) : PlanDirection → NodeId → NodeId → Prop
  | .forward, a, b => s.Joins nodes edgeKind resolvedVia a b
  | .reverse, a, b => s.Joins nodes edgeKind resolvedVia b a
  | .both, a, b => s.Joins nodes edgeKind resolvedVia a b ∨ s.Joins nodes edgeKind resolvedVia b a

end PlannerSnapshot

namespace PlannerDb
variable (db : PlannerDb)

/-- The traversal with its queue and its marked nodes; `none` when the fuel runs out. -/
def runTraversalQueue (fuel : Nat) (input : List NodeId) (direction : PlanDirection)
    (edgeKind : Option EdgeKind) (maxDepth : Nat) (resolvedVia : Option ResolvedVia) :
    Option (List NodeId) :=
  if maxDepth = 0 ∨ input.isEmpty = true then some []
  else
    (Search.run (db.nextNodes direction edgeKind resolvedVia) maxDepth fuel
      (Search.start input)).map dedupSort

variable {db} {direction : PlanDirection} {edgeKind : Option EdgeKind}
  {resolvedVia : Option ResolvedVia} {nodes : NodeId → Prop} {a b : NodeId}

theorem mem_nextNodes : b ∈ db.nextNodes direction edgeKind resolvedVia a ↔
    ∃ e ∈ db.snapshot.neighbours a direction, Admissible edgeKind resolvedVia e.kind ∧
      nextNode direction a e = b := by
  simp only [nextNodes, List.mem_map, List.mem_filter, followsEdge_iff, and_assoc]

theorem exists_edgesFrom (h : db.snapshot.MirrorsOn nodes) (ha : nodes a) :
    (∃ e ∈ db.snapshot.edges.edgesFrom a, Admissible edgeKind resolvedVia e.kind ∧
      e.target = b) ↔ db.snapshot.Joins nodes edgeKind resolvedVia a b := by
  constructor
  · intro hex
    obtain ⟨e, he, hadm, htarget⟩ := hex
    exact ⟨ha, e, he, (h.forward a ha e he).1, htarget, hadm⟩
  · intro hjoins
    obtain ⟨_, e, he, _, htarget, hadm⟩ := hjoins
    exact ⟨e, he, hadm, htarget⟩

theorem exists_edgesTo (h : db.snapshot.MirrorsOn nodes) (ha : nodes a) :
    (∃ e ∈ db.snapshot.edges.edgesTo a, Admissible edgeKind resolvedVia e.kind ∧
      e.source = b) ↔ db.snapshot.Joins nodes edgeKind resolvedVia b a := by
  constructor
  · intro hex
    obtain ⟨e, he, hadm, hsource⟩ := hex
    obtain ⟨hnode, e', he', htarget, hkind⟩ := h.reverse a ha e he
    rw [hsource] at hnode he'
    rw [← hkind] at hadm
    exact ⟨hnode, e', he', (h.forward b hnode e' he').1, htarget, hadm⟩
  · intro hjoins
    obtain ⟨hnode, e, he, _, htarget, hadm⟩ := hjoins
    obtain ⟨_, _, e', he', hsource, hkind⟩ := h.forward b hnode e he
    rw [htarget] at he'
    rw [← hkind] at hadm
    exact ⟨e', he', hadm, hsource⟩

theorem nodes_of_joins (h : db.snapshot.MirrorsOn nodes)
    (hjoins : db.snapshot.Joins nodes edgeKind resolvedVia a b) : nodes b := by
  obtain ⟨ha, e, he, _, htarget, _⟩ := hjoins
  exact htarget ▸ (h.forward a ha e he).2.1

theorem target_of_mem_edgesTo {e : StoreEdgeRef} (he : e ∈ db.snapshot.edges.edgesTo a) :
    e.target = a := by
  rw [BidirectionalEdgeStore.edgesTo] at he
  obtain ⟨r, _, rfl⟩ := List.mem_map.mp he
  rfl

theorem mem_nextNodes_both (h : db.snapshot.MirrorsOn nodes) (ha : nodes a) :
    b ∈ db.nextNodes .both edgeKind resolvedVia a ↔
      (∃ e ∈ db.snapshot.edges.edgesFrom a, Admissible edgeKind resolvedVia e.kind ∧
        e.target = b) ∨
      ∃ e ∈ db.snapshot.edges.edgesTo a, Admissible edgeKind resolvedVia e.kind ∧
        e.source = b := by
  rw [mem_nextNodes]
  constructor
  · intro hex
    obtain ⟨e, he, hadm, hnext⟩ := hex
    cases List.mem_append.mp he with
    | inl hfrom =>
      rw [nextNode, if_pos (h.forward a ha e hfrom).1] at hnext
      exact .inl ⟨e, hfrom, hadm, hnext⟩
    | inr hto =>
      refine .inr ⟨e, hto, hadm, ?_⟩
      rw [nextNode, target_of_mem_edgesTo hto] at hnext
      by_cases hself : e.source = a
      · rw [if_pos hself] at hnext
        rw [hself, hnext]
      · rw [if_neg hself] at hnext
        exact hnext
  · intro hor
    cases hor with
    | inl hex =>
      obtain ⟨e, he, hadm, htarget⟩ := hex
      refine ⟨e, List.mem_append_left _ he, hadm, ?_⟩
      rw [nextNode, if_pos (h.forward a ha e he).1, htarget]
    | inr hex =>
      obtain ⟨e, he, hadm, hsource⟩ := hex
      refine ⟨e, List.mem_append_right _ he, hadm, ?_⟩
      rw [nextNode, target_of_mem_edgesTo he, hsource]
      exact ite_eq_right_iff.mpr Eq.symm

theorem mem_nextNodes_iff (h : db.snapshot.MirrorsOn nodes) (ha : nodes a) :
    b ∈ db.nextNodes direction edgeKind resolvedVia a ↔
      db.snapshot.Follows nodes edgeKind resolvedVia direction a b := by
  cases direction with
  | forward => exact mem_nextNodes.trans (exists_edgesFrom h ha)
  | reverse => exact mem_nextNodes.trans (exists_edgesTo h ha)
  | both => rw [mem_nextNodes_both h ha, exists_edgesFrom h ha, exists_edgesTo h ha]; rfl

theorem nodes_of_follows (h : db.snapshot.MirrorsOn nodes)
    (hfollows : db.snapshot.Follows nodes edgeKind resolvedVia direction a b) : nodes b := by
  cases direction with
  | forward => exact nodes_of_joins h hfollows
  | reverse => exact hfollows.1
  | both => exact hfollows.elim (nodes_of_joins h) And.left

theorem runTraversalQueue_eq (db : PlannerDb) (input : List NodeId) (direction : PlanDirection)
    (edgeKind : Option EdgeKind) (maxDepth : Nat) (resolvedVia : Option ResolvedVia) :
    ∃ least, ∀ fuel, least ≤ fuel →
      db.runTraversalQueue fuel input direction edgeKind maxDepth resolvedVia =
        some (db.runTraversal input direction edgeKind maxDepth resolvedVia) := by
  obtain ⟨least, hleast⟩ :=
    Search.run_start (db.nextNodes direction edgeKind resolvedVia) maxDepth input
  refine ⟨least, fun fuel hfuel => ?_⟩
  rw [runTraversalQueue, runTraversal, traverseLevels_eq_levels]
  by_cases hempty : maxDepth = 0 ∨ input.isEmpty = true
  · rw [if_pos hempty]
    cases hempty with
    | inl hdepth => rw [hdepth]; rfl
    | inr hinput => rw [List.isEmpty_iff.mp hinput, LevelSearch.levels_nil]; rfl
  · rw [if_neg hempty, hleast fuel hfuel, Option.map_some]

/-- Where the lists of edges mirror each other, a traversal comes to an end, and its result is
sorted, without repetitions, and has just the nodes outside the input within the depth. -/
theorem runTraversal_exact (db : PlannerDb) (nodes : NodeId → Prop)
    (h : db.snapshot.MirrorsOn nodes) (input : List NodeId) (hinput : ∀ a ∈ input, nodes a)
    (direction : PlanDirection) (edgeKind : Option EdgeKind) (maxDepth : Nat)
    (resolvedVia : Option ResolvedVia) : ∃ result,
    (∃ least, ∀ fuel, least ≤ fuel →
      db.runTraversalQueue fuel input direction edgeKind maxDepth resolvedVia = some result) ∧
    (result.Pairwise fun a b => GraphSnapshot.compareById a b = .lt) ∧
    ∀ node, node ∈ result ↔ node ∉ input ∧
      Within (db.snapshot.Follows nodes edgeKind resolvedVia direction) input maxDepth node := by
  refine ⟨_, runTraversalQueue_eq db input direction edgeKind maxDepth resolvedVia,
    SortedGroups.strict_heads_sortBy _, fun node => ?_⟩
  rw [runTraversal, mem_dedupSort, traverseLevels_eq_levels, LevelSearch.mem_levels_start]
  refine and_congr_right fun _ => ⟨fun hwithin => ?_, fun hwithin => ?_⟩
  · obtain ⟨a, ha, n, hpos, hle, hsteps⟩ := hwithin
    refine ⟨a, ha, n, hpos, hle, hsteps.mono (hinput a ha) fun a b hnode hb => ?_⟩
    have hfollows := (mem_nextNodes_iff h hnode).mp hb
    exact ⟨hfollows, nodes_of_follows h hfollows⟩
  · obtain ⟨a, ha, n, hpos, hle, hsteps⟩ := hwithin
    refine ⟨a, ha, n, hpos, hle, hsteps.mono (hinput a ha) fun a b hnode hb => ?_⟩
    exact ⟨(mem_nextNodes_iff h hnode).mpr hb, nodes_of_follows h hb⟩

section OneCall

def plainEntry (kind : NodeKind) : NodeEntry where
  kind := kind
  name := .ofUInt8 1
  file := 1
  qualifiedName := none
  visibility := none
  startByte := 0
  endByte := 0
  isStatic := false
  isUnsafe := false
  isDefinition := true

def oneCall : PlannerDb where
  snapshot :=
    { nodes := ⟨[⟨1, .occupied (plainEntry .function)⟩, ⟨1, .occupied (plainEntry .function)⟩],
        none, 2⟩
      strings := ⟨[none, some "f"], ∅, [0, 1], [], none, true⟩
      files := ⟨[none, some ⟨none⟩]⟩
      edges := BidirectionalEdgeStore.new.addEdge ⟨0, 1⟩ ⟨1, 1⟩ (.calls 0 false .direct) 1
      byKind := fun _ => []
      byKind_kind := fun _ _ hmem => absurd hmem List.not_mem_nil
      filePath := fun _ => none
      metadata := ⟨fun _ => false, fun _ => false, fun _ => false, fun _ => none, fun _ => none,
        fun _ => false⟩
      scopes := [] }
  engines := ⟨fun _ _ => none, id, fun _ _ => false⟩
  get := fun _ _ => []
  structuralNeighbors := fun _ => []

def isOfOneCall (node : NodeId) : Prop := node = ⟨0, 1⟩ ∨ node = ⟨1, 1⟩

instance : DecidablePred isOfOneCall :=
  fun node => inferInstanceAs (Decidable (node = ⟨0, 1⟩ ∨ node = ⟨1, 1⟩))

theorem oneCall_mirrors : oneCall.snapshot.MirrorsOn isOfOneCall := by
  refine ⟨?_, ?_⟩
  · intro a ha
    cases ha with
    | inl heq => rw [heq]; decide
    | inr heq => rw [heq]; decide
  · intro b hb
    cases hb with
    | inl heq => rw [heq]; decide
    | inr heq => rw [heq]; decide

theorem runTraversal_exact_oneCall : ∃ result,
    (∃ least, ∀ fuel, least ≤ fuel →
      oneCall.runTraversalQueue fuel [⟨1, 1⟩] .both none 1 none = some result) ∧
    (result.Pairwise fun a b => GraphSnapshot.compareById a b = .lt) ∧
    ∀ node, node ∈ result ↔ node ∉ [(⟨1, 1⟩ : NodeId)] ∧
      Within (oneCall.snapshot.Follows isOfOneCall none none .both) [⟨1, 1⟩] 1 node :=
  runTraversal_exact oneCall isOfOneCall oneCall_mirrors [⟨1, 1⟩] (by decide) .both none 1 none

example : oneCall.runTraversalQueue 4 [⟨1, 1⟩] .both none 1 none = some [⟨0, 1⟩] := by decide

end OneCall

end PlannerDb
end Sqry
