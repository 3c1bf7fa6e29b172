import Mathlib.Data.Set.Card
import Sqry.Edge.Sweep
import Sqry.Lib.Worklist
import Sqry.Query.SccQuery

/-!
The cycle queries and the queries for unused nodes. A list query and a query for one node share
the components or the reachable nodes that the database holds, and each tests them in its own way.
-/

namespace Sqry

open Components (Reaches Mutual)

inductive CircularType where
  | calls | imports | modules
  deriving DecidableEq, Repr

structure CycleBounds where
  minDepth : Nat
  maxDepth : Option Nat
  maxResults : Nat
  shouldIncludeSelfLoops : Bool
  deriving DecidableEq, Repr

def CycleBounds.default : CycleBounds := ⟨2, none, 100, false⟩

inductive UnusedScope where
  | all | «public» | «private» | function | struct
  deriving DecidableEq, Repr

def edgeProbeFor : CircularType → EdgeKind
  | .calls => .calls 0 false .direct
  | .imports | .modules => .imports none false

def matchesCircularType : CircularType → EdgeKind → Bool
  | .calls, .calls _ _ _ => true
  | .imports, .imports _ _ | .modules, .imports _ _ => true
  | _, _ => false

def nodeHasSelfLoop (edgesFrom : NodeId → List StoreEdgeRef) (node : NodeId)
    (circularType : CircularType) : Bool :=
  (edgesFrom node).any fun edge =>
    if edge.target ≠ node then false else matchesCircularType circularType edge.kind

def shouldInclude (size : Nat) (isSelfLoop : Bool) (bounds : CycleBounds) : Bool :=
  if isSelfLoop then bounds.shouldIncludeSelfLoops
  else if size = 1 then false
  else if size < bounds.minDepth then false
  else if bounds.maxDepth.any fun max => decide (size > max) then false
  else true

def isSelfLoopComponent (edgesFrom : NodeId → List StoreEdgeRef) (circularType : CircularType) :
    List NodeId → Bool
  | [node] => nodeHasSelfLoop edgesFrom node circularType
  | _ => false

/-- The loop of `CyclesQuery` over the components. -/
def collectCycles (edgesFrom : NodeId → List StoreEdgeRef) (circularType : CircularType)
    (bounds : CycleBounds) (cycles : List (List NodeId)) :
    List (List NodeId) → List (List NodeId)
  | [] => cycles
  | component :: components =>
    if cycles.length ≥ bounds.maxResults then cycles
    else if !shouldInclude component.length
        (isSelfLoopComponent edgesFrom circularType component) bounds then
      collectCycles edgesFrom circularType bounds cycles components
    else collectCycles edgesFrom circularType bounds (cycles ++ [component]) components

/-- `scc` is what the database holds for the probe of the circular type. -/
def cyclesQuery (edgesFrom : NodeId → List StoreEdgeRef) (scc : CachedSccData)
    (circularType : CircularType) (bounds : CycleBounds) : List (List NodeId) :=
  collectCycles edgesFrom circularType bounds [] scc.components

def isInCycleQuery (edgesFrom : NodeId → List StoreEdgeRef) (scc : CachedSccData) (node : NodeId)
    (circularType : CircularType) (bounds : CycleBounds) : Bool :=
  if nodeHasSelfLoop edgesFrom node circularType && bounds.shouldIncludeSelfLoops then true
  else
    match scc.componentOf node with
    | none => false
    | some componentIdx =>
      match scc.components[componentIdx]? with
      | none => false
      | some component =>
        let size := component.length
        if size < 2 then false
        else if size < bounds.minDepth then false
        else if bounds.maxDepth.any fun max => decide (size > max) then false
        else true

namespace GraphSnapshot

section Unused
variable (s : GraphSnapshot)

def visibilityText (entry : NodeEntry) : Option String := entry.visibility.bind s.resolve

def isPublicText (v : String) : Bool := v = "public" || v = "pub"

def isMainOrTest (entry : NodeEntry) : Bool :=
  (s.resolve entry.name).any fun n =>
    n = "main" || "test_".toList.isPrefixOf n.toList || "_test".toList.isSuffixOf n.toList

def isEntryPoint (entry : NodeEntry) : Bool :=
  (s.visibilityText entry).any isPublicText || s.isMainOrTest entry || entry.kind = .export ||
    entry.kind = .test

def entryPointsQuery : List NodeId :=
  (s.nodes.iter.filter fun node => !node.2.isUnifiedLoser && s.isEntryPoint node.2).map Prod.fst

def isReachabilityEdge : EdgeKind → Bool
  | .calls _ _ _ | .references | .imports _ _ | .inherits | .implements | .typeOf _ _ _ => true
  | _ => false

def reachabilityTargets (edgesFrom : NodeId → List StoreEdgeRef) (node : NodeId) : List NodeId :=
  ((edgesFrom node).filter fun edge => isReachabilityEdge edge.kind).map StoreEdgeRef.target

/-- `roots` are the entry points in the order in which a hash set yields them; `none` when the
steps run out. -/
def reachableFromEntryPointsQuery (edgesFrom : NodeId → List StoreEdgeRef) (roots : List NodeId)
    (steps : Nat) : Option (List NodeId) :=
  Worklist.drain (reachabilityTargets edgesFrom) steps roots roots.reverse

def scopeMatches (entry : NodeEntry) : UnusedScope → Bool
  | .all => true
  | .public => (s.visibilityText entry).any isPublicText
  | .private =>
    let vis := s.visibilityText entry
    vis.isNone || vis.any fun v => v ≠ "public" && v ≠ "pub"
  | .function => entry.kind = .function || entry.kind = .method
  | .struct => entry.kind = .struct || entry.kind = .class

def isAlwaysEntryPoint (entry : NodeEntry) : Bool :=
  s.isMainOrTest entry || entry.kind = .export || entry.kind = .test

/-- The loop of `UnusedQuery` over the nodes. -/
def collectUnused (reachable : List NodeId) (scope : UnusedScope) (maxResults : Nat)
    (unused : List NodeId) : List (NodeId × NodeEntry) → List NodeId
  | [] => unused
  | (node, entry) :: nodes =>
    if unused.length ≥ maxResults then unused
    else if entry.isUnifiedLoser then collectUnused reachable scope maxResults unused nodes
    else if !s.scopeMatches entry scope then
      collectUnused reachable scope maxResults unused nodes
    else if s.isAlwaysEntryPoint entry then
      collectUnused reachable scope maxResults unused nodes
    else if node ∉ reachable then
      collectUnused reachable scope maxResults (unused ++ [node]) nodes
    else collectUnused reachable scope maxResults unused nodes

def unusedQuery (reachable : List NodeId) (scope : UnusedScope) (maxResults : Nat) : List NodeId :=
  SortedGroups.sortBy compareById (s.collectUnused reachable scope maxResults [] s.nodes.iter)

def isNodeUnusedQuery (reachable : List NodeId) (node : NodeId) (scope : UnusedScope) : Bool :=
  match s.nodes.get node with
  | none => false
  | some entry =>
    if !s.scopeMatches entry scope then false
    else if s.isAlwaysEntryPoint entry then false
    else decide (node ∉ reachable)

end Unused

end GraphSnapshot

def CycleBounds.Admits (bounds : CycleBounds) (size : Nat) : Prop :=
  2 ≤ size ∧ bounds.minDepth ≤ size ∧ ∀ max, bounds.maxDepth = some max → size ≤ max

namespace GraphSnapshot

section Agreement
variable (s : GraphSnapshot)

def SelfEdge (circularType : CircularType) (node : NodeId) : Prop :=
  node ∈ s.successorsBy (edgeProbeFor circularType) node

noncomputable def classSize (circularType : CircularType) (node : NodeId) : Nat :=
  {v | Mutual (s.successorsBy (edgeProbeFor circularType)) node v}.ncard

/-- The list of cycles has the components that the bounds ask for, and a node is in a cycle when
its component is in the list. The list is not cut. -/
def CyclesAgree (circularType : CircularType) (bounds : CycleBounds) (scc : CachedSccData)
    (edgesFrom edgesFrom' : NodeId → List StoreEdgeRef) : Prop :=
  let cycles := cyclesQuery edgesFrom scc circularType bounds
  (cycles.Nodup ∧ ∀ component, component ∈ cycles ↔ component ∈ scc.components ∧
    (bounds.Admits component.length ∨ bounds.shouldIncludeSelfLoops = true ∧
      ∃ node, component = [node] ∧ s.SelfEdge circularType node)) ∧
  ∀ node ∈ s.nonLosers, isInCycleQuery edgesFrom' scc node circularType bounds = true ↔
    ∃ component ∈ cycles, node ∈ component

def UnusedAgree (scope : UnusedScope) (reachable : List NodeId) (maxResults : Nat) : Prop :=
  ∀ node, node.isInvalid = false → (∃ entry, (node, entry) ∈ s.nodes.iter) →
    (s.isNodeUnusedQuery reachable node scope = true ↔
      node ∈ s.unusedQuery reachable scope maxResults)

/-- With enough passes both searches end, whatever order edges and entry points are read in; the
components are exact and the queries agree. -/
def CycleQueriesExact (circularType : CircularType) (bounds : CycleBounds) (scope : UnusedScope) :
    Prop :=
  ∃ passes, ∀ fuel ≥ passes, ∀ sccOrder cycleOrder pointOrder reachOrder, s.Reads sccOrder →
    s.Reads cycleOrder → s.Reads pointOrder → s.Reads reachOrder →
    ∀ roots : List NodeId, roots.Perm s.entryPointsQuery →
    (∃ scc, s.sccQuery sccOrder (edgeProbeFor circularType) fuel = some scc ∧
      s.SccExact (edgeProbeFor circularType) scc ∧
      ∀ maxResults ≥ scc.components.length,
        s.CyclesAgree circularType { bounds with maxResults := maxResults } scc cycleOrder
          pointOrder) ∧
    ∃ reachable, reachableFromEntryPointsQuery reachOrder roots fuel = some reachable ∧
      ∀ maxResults ≥ s.nodes.iter.length, s.UnusedAgree scope reachable maxResults

end Agreement

variable {s : GraphSnapshot}

section Cycles
variable {circularType : CircularType} {bounds : CycleBounds} {scc : CachedSccData}
  {edgesFrom : NodeId → List StoreEdgeRef}

theorem matchesCircularType_iff {kind : EdgeKind} :
    matchesCircularType circularType kind = true ↔
      kind.ctorIdx = (edgeProbeFor circularType).ctorIdx := by
  cases circularType <;> cases kind <;> simp [matchesCircularType, edgeProbeFor, EdgeKind.ctorIdx]

theorem nodeHasSelfLoop_iff (h : s.Reads edgesFrom) {node : NodeId} :
    nodeHasSelfLoop edgesFrom node circularType = true ↔ s.SelfEdge circularType node := by
  rw [nodeHasSelfLoop, List.any_eq_true, SelfEdge, successorsBy, List.mem_map]
  constructor
  · rintro ⟨edge, hedge, hmatch⟩
    by_cases htarget : edge.target = node
    · rw [if_neg (not_not.mpr htarget), matchesCircularType_iff] at hmatch
      exact ⟨edge, List.mem_filter.mpr ⟨(h node).mem_iff.mp hedge, decide_eq_true hmatch⟩, htarget⟩
    · rw [if_pos htarget] at hmatch
      cases hmatch
  · rintro ⟨edge, hedge, htarget⟩
    obtain ⟨hmem, hmatch⟩ := List.mem_filter.mp hedge
    refine ⟨edge, (h node).mem_iff.mpr hmem, ?_⟩
    rw [if_neg (not_not.mpr htarget), matchesCircularType_iff]
    exact of_decide_eq_true hmatch

theorem depth_tests {size : Nat} :
    (if size < bounds.minDepth then false
      else if bounds.maxDepth.any fun max => decide (size > max) then false
      else true) = true ↔
      bounds.minDepth ≤ size ∧ ∀ max, bounds.maxDepth = some max → size ≤ max := by
  by_cases hmin : size < bounds.minDepth
  · rw [if_pos hmin]
    exact ⟨fun h => (by cases h), fun h => absurd hmin (Nat.not_lt_of_le h.1)⟩
  · rw [if_neg hmin]
    cases hmax : bounds.maxDepth with
    | none => simp [Nat.le_of_not_lt hmin]
    | some max => simp [Nat.le_of_not_lt hmin]

theorem shouldInclude_iff {size : Nat} {isSelfLoop : Bool} (hloop : isSelfLoop = true → size = 1)
    (hpos : 0 < size) :
    shouldInclude size isSelfLoop bounds = true ↔
      bounds.Admits size ∨ bounds.shouldIncludeSelfLoops = true ∧ isSelfLoop = true := by
  rw [shouldInclude]
  cases isSelfLoop with
  | true =>
    have hone := hloop rfl
    simp [hone, CycleBounds.Admits]
  | false =>
    rw [if_neg Bool.false_ne_true]
    by_cases hone : size = 1
    · simp [hone, CycleBounds.Admits]
    · rw [if_neg hone, depth_tests, CycleBounds.Admits]
      constructor
      · intro h
        exact Or.inl ⟨by omega, h⟩
      · intro h
        cases h with
        | inl h => exact h.2
        | inr h => cases h.2

theorem isSelfLoopComponent_iff (h : s.Reads edgesFrom) {component : List NodeId} :
    isSelfLoopComponent edgesFrom circularType component = true ↔
      ∃ node, component = [node] ∧ s.SelfEdge circularType node := by
  constructor
  · intro hloop
    match component, hloop with
    | [node], hloop => exact ⟨node, rfl, (nodeHasSelfLoop_iff h).mp hloop⟩
  · intro ⟨node, heq, hself⟩
    rw [heq]
    exact (nodeHasSelfLoop_iff h).mpr hself

theorem collectCycles_eq {cycles components : List (List NodeId)}
    (h : cycles.length + components.length ≤ bounds.maxResults) :
    collectCycles edgesFrom circularType bounds cycles components =
      cycles ++ components.filter fun component => shouldInclude component.length
        (isSelfLoopComponent edgesFrom circularType component) bounds := by
  induction components generalizing cycles with
  | nil => rw [collectCycles, List.filter_nil, List.append_nil]
  | cons component components ih =>
    rw [List.length_cons] at h
    rw [collectCycles, if_neg (by omega), List.filter_cons]
    cases shouldInclude component.length
        (isSelfLoopComponent edgesFrom circularType component) bounds with
    | false => exact ih (by omega)
    | true =>
      refine (ih (by rw [List.length_append, List.length_singleton]; omega)).trans ?_
      rw [List.append_assoc]
      rfl

theorem mem_cyclesQuery (h : s.Reads edgesFrom)
    (hexact : s.SccExact (edgeProbeFor circularType) scc)
    (hmax : scc.components.length ≤ bounds.maxResults) {component : List NodeId} :
    component ∈ cyclesQuery edgesFrom scc circularType bounds ↔ component ∈ scc.components ∧
      (bounds.Admits component.length ∨ bounds.shouldIncludeSelfLoops = true ∧
        ∃ node, component = [node] ∧ s.SelfEdge circularType node) := by
  rw [cyclesQuery, collectCycles_eq (by simpa using hmax), List.nil_append, List.mem_filter,
    ← isSelfLoopComponent_iff h]
  refine and_congr_right fun hc => shouldInclude_iff (fun hloop => ?_)
    (List.length_pos_of_ne_nil (hexact.nonempty component hc))
  obtain ⟨node, heq, -⟩ := (isSelfLoopComponent_iff h).mp hloop
  rw [heq]
  rfl

theorem nodup_components (hexact : s.SccExact (edgeProbeFor circularType) scc) :
    scc.components.Nodup := by
  refine (List.nodup_flatten.mp hexact.nodup).2.imp_of_mem fun {c c'} hc _ hdisjoint heq => ?_
  obtain ⟨node, hnode⟩ := List.exists_mem_of_ne_nil c (hexact.nonempty c hc)
  exact hdisjoint hnode (heq ▸ hnode)

theorem isInCycleQuery_iff (h : s.Reads edgesFrom)
    (hexact : s.SccExact (edgeProbeFor circularType) scc) {component : List NodeId} {node : NodeId}
    (hc : component ∈ scc.components) (hnode : node ∈ component) :
    isInCycleQuery edgesFrom scc node circularType bounds = true ↔
      bounds.Admits component.length ∨
        bounds.shouldIncludeSelfLoops = true ∧ s.SelfEdge circularType node := by
  obtain ⟨i, hi⟩ := List.mem_iff_getElem?.mp hc
  have hplace := (hexact.componentOf node i).mpr ⟨component, hi, hnode⟩
  rw [isInCycleQuery, ← nodeHasSelfLoop_iff h]
  cases hloop : nodeHasSelfLoop edgesFrom node circularType && bounds.shouldIncludeSelfLoops with
  | true =>
    rw [Bool.and_eq_true] at hloop
    rw [if_pos rfl]
    exact ⟨fun _ => Or.inr hloop.symm, fun _ => rfl⟩
  | false =>
    have hno : ¬ (bounds.shouldIncludeSelfLoops = true ∧
        nodeHasSelfLoop edgesFrom node circularType = true) := by
      intro hboth
      rw [hboth.1, hboth.2] at hloop
      cases hloop
    rw [or_iff_left hno, if_neg Bool.false_ne_true, hplace]
    simp only [hi]
    by_cases hsize : component.length < 2
    · rw [if_pos hsize]
      exact ⟨fun hfalse => (by cases hfalse), fun hadmits => absurd hadmits.1 (by omega)⟩
    · rw [if_neg hsize, depth_tests]
      exact ⟨fun hdepth => ⟨by omega, hdepth⟩, fun hadmits => hadmits.2⟩

theorem classSize_eq (hexact : s.SccExact (edgeProbeFor circularType) scc)
    {component : List NodeId} {node : NodeId} (hc : component ∈ scc.components)
    (hnode : node ∈ component) : s.classSize circularType node = component.length := by
  have hset : {v | Mutual (s.successorsBy (edgeProbeFor circularType)) node v} =
      (component.toFinset : Set NodeId) := by
    ext v
    rw [Set.mem_ofPred_eq, Finset.mem_coe, List.mem_toFinset]
    exact (hexact.classes component hc node hnode v).symm
  rw [classSize, hset, Set.ncard_coe_finset,
    List.toFinset_card_of_nodup ((List.nodup_flatten.mp hexact.nodup).1 component hc)]

theorem component_unique (hexact : s.SccExact (edgeProbeFor circularType) scc)
    {component component' : List NodeId} {node : NodeId} (hc : component ∈ scc.components)
    (hnode : node ∈ component) (hc' : component' ∈ scc.components) (hnode' : node ∈ component') :
    component = component' := by
  obtain ⟨i, hi⟩ := List.mem_iff_getElem?.mp hc
  obtain ⟨j, hj⟩ := List.mem_iff_getElem?.mp hc'
  have hplace := (hexact.componentOf node i).mpr ⟨component, hi, hnode⟩
  rw [(hexact.componentOf node j).mpr ⟨component', hj, hnode'⟩] at hplace
  cases hplace
  rw [hi] at hj
  exact Option.some.inj hj

theorem agree_at_iff (h : s.Reads edgesFrom) {edgesFrom' : NodeId → List StoreEdgeRef}
    (h' : s.Reads edgesFrom') (hexact : s.SccExact (edgeProbeFor circularType) scc)
    (hmax : scc.components.length ≤ bounds.maxResults) {node : NodeId}
    (hnode : node ∈ s.nonLosers) :
    (isInCycleQuery edgesFrom' scc node circularType bounds = true ↔
        ∃ component ∈ cyclesQuery edgesFrom scc circularType bounds, node ∈ component) ↔
      (bounds.shouldIncludeSelfLoops = true → s.SelfEdge circularType node →
        s.classSize circularType node = 1 ∨ bounds.Admits (s.classSize circularType node)) := by
  obtain ⟨component, hc, hin⟩ := List.mem_flatten.mp ((hexact.covers node).mpr hnode)
  have hlist : (∃ c ∈ cyclesQuery edgesFrom scc circularType bounds, node ∈ c) ↔
      bounds.Admits component.length ∨ bounds.shouldIncludeSelfLoops = true ∧
        component = [node] ∧ s.SelfEdge circularType node := by
    constructor
    · intro ⟨c, hcycle, hmem⟩
      obtain ⟨hcomp, hwanted⟩ := (mem_cyclesQuery h hexact hmax).mp hcycle
      have hsame := component_unique hexact hcomp hmem hc hin
      subst hsame
      refine hwanted.imp_right fun ⟨hflag, n, heq, hself⟩ => ?_
      rw [heq, List.mem_singleton] at hin
      rw [hin]
      exact ⟨hflag, heq, hself⟩
    · intro hwanted
      refine ⟨component, (mem_cyclesQuery h hexact hmax).mpr ⟨hc, ?_⟩, hin⟩
      exact hwanted.imp_right fun ⟨hflag, heq, hself⟩ => ⟨hflag, node, heq, hself⟩
  have hone : component = [node] ↔ component.length = 1 := by
    constructor
    · intro heq
      rw [heq]
      rfl
    · intro hlength
      obtain ⟨n, heq⟩ := List.length_eq_one_iff.mp hlength
      rw [heq, List.mem_singleton] at hin
      rw [heq, hin]
  rw [isInCycleQuery_iff h' hexact hc hin, hlist, hone, classSize_eq hexact hc hin]
  tauto

theorem cyclesAgree_iff (h : s.Reads edgesFrom) {edgesFrom' : NodeId → List StoreEdgeRef}
    (h' : s.Reads edgesFrom') (hexact : s.SccExact (edgeProbeFor circularType) scc)
    (hmax : scc.components.length ≤ bounds.maxResults) :
    s.CyclesAgree circularType bounds scc edgesFrom edgesFrom' ↔
      ∀ node ∈ s.nonLosers, bounds.shouldIncludeSelfLoops = true → s.SelfEdge circularType node →
        s.classSize circularType node = 1 ∨ bounds.Admits (s.classSize circularType node) := by
  have hnodup : (cyclesQuery edgesFrom scc circularType bounds).Nodup := by
    rw [cyclesQuery, collectCycles_eq (by simpa using hmax), List.nil_append]
    exact (nodup_components hexact).filter _
  constructor
  · intro hagree node hnode
    exact (agree_at_iff h h' hexact hmax hnode).mp (hagree.2 node hnode)
  · intro hcond
    exact ⟨⟨hnodup, fun component => mem_cyclesQuery h hexact hmax⟩, fun node hnode =>
      (agree_at_iff h h' hexact hmax hnode).mpr (hcond node hnode)⟩

end Cycles

section Unused
variable {reachable : List NodeId} {scope : UnusedScope} {maxResults : Nat}

theorem collectUnused_eq {unused : List NodeId} {nodes : List (NodeId × NodeEntry)}
    (h : unused.length + nodes.length ≤ maxResults) :
    s.collectUnused reachable scope maxResults unused nodes =
      unused ++ (nodes.filter fun node => !node.2.isUnifiedLoser && s.scopeMatches node.2 scope &&
        !s.isAlwaysEntryPoint node.2 && decide (node.1 ∉ reachable)).map Prod.fst := by
  induction nodes generalizing unused with
  | nil => simp [collectUnused]
  | cons node nodes ih =>
    obtain ⟨id, entry⟩ := node
    rw [List.length_cons] at h
    have hskip := @ih unused (by omega)
    have htake := @ih (unused ++ [id]) (by
      rw [List.length_append, List.length_singleton]
      omega)
    rw [collectUnused, if_neg (by omega), hskip, htake, List.filter_cons]
    cases entry.isUnifiedLoser with
    | true => simp
    | false =>
      cases s.scopeMatches entry scope with
      | false => simp
      | true =>
        cases s.isAlwaysEntryPoint entry with
        | true => simp
        | false =>
          by_cases hin : id ∈ reachable
          · simp [hin]
          · simp [hin]

theorem mem_unusedQuery (hmax : s.nodes.iter.length ≤ maxResults) {node : NodeId}
    {entry : NodeEntry} (hnode : (node, entry) ∈ s.nodes.iter) :
    node ∈ s.unusedQuery reachable scope maxResults ↔ entry.isUnifiedLoser = false ∧
      s.scopeMatches entry scope = true ∧ s.isAlwaysEntryPoint entry = false ∧
        node ∉ reachable := by
  rw [unusedQuery, SortedGroups.mem_sortBy, collectUnused_eq (by simpa using hmax),
    List.nil_append, List.mem_map]
  constructor
  · intro ⟨other, hother, heq⟩
    obtain ⟨hmem, htests⟩ := List.mem_filter.mp hother
    have hsame := (NodeArena.iter_inj hmem hnode (by rw [heq])).2
    rw [hsame, heq] at htests
    simpa [and_assoc] using htests
  · intro htests
    exact ⟨(node, entry), List.mem_filter.mpr ⟨hnode, by simpa [and_assoc] using htests⟩, rfl⟩

theorem isNodeUnusedQuery_iff {node : NodeId} {entry : NodeEntry}
    (hvalid : node.isInvalid = false) (hnode : (node, entry) ∈ s.nodes.iter) :
    s.isNodeUnusedQuery reachable node scope = true ↔
      s.scopeMatches entry scope = true ∧ s.isAlwaysEntryPoint entry = false ∧
        node ∉ reachable := by
  have hget : s.nodes.get node = some entry := by
    refine NodeArena.get_eq_some_iff.mpr ⟨?_, (NodeArena.mem_iter.mp hnode).2⟩
    simpa [NodeId.isInvalid] using hvalid
  rw [isNodeUnusedQuery, hget]
  cases hscope : s.scopeMatches entry scope with
  | false => simp [hscope]
  | true =>
    cases halways : s.isAlwaysEntryPoint entry with
    | true => simp [halways]
    | false => simp [hscope, halways]

theorem mem_nonLosers {node : NodeId} :
    node ∈ s.nonLosers ↔ ∃ entry, (node, entry) ∈ s.nodes.iter ∧ entry.isUnifiedLoser = false := by
  rw [nonLosers, List.mem_map]
  constructor
  · rintro ⟨p, hp, heq⟩
    obtain ⟨hmem, hloser⟩ := List.mem_filter.mp hp
    exact ⟨p.2, heq ▸ hmem, by simpa using hloser⟩
  · rintro ⟨entry, hmem, hloser⟩
    exact ⟨(node, entry), List.mem_filter.mpr ⟨hmem, by simpa using hloser⟩, rfl⟩

theorem mem_reachabilityTargets {edgesFrom : NodeId → List StoreEdgeRef} (h : s.Reads edgesFrom)
    (hjoined : s.Joined) {u v : NodeId} (hv : v ∈ reachabilityTargets edgesFrom u) :
    v ∈ s.nonLosers := by
  obtain ⟨edge, hedge, htarget⟩ := List.mem_map.mp hv
  rw [← htarget]
  exact hjoined u edge ((h u).mem_iff.mp (List.mem_filter.mp hedge).1)

theorem entryPointsQuery_subset {node : NodeId} (h : node ∈ s.entryPointsQuery) :
    node ∈ s.nonLosers := by
  obtain ⟨p, hp, heq⟩ := List.mem_map.mp h
  obtain ⟨hmem, htests⟩ := List.mem_filter.mp hp
  rw [Bool.and_eq_true] at htests
  exact mem_nonLosers.mpr ⟨p.2, heq ▸ hmem, by simpa using htests.1⟩

theorem exists_reachable {edgesFrom : NodeId → List StoreEdgeRef} (h : s.Reads edgesFrom)
    (hjoined : s.Joined) {roots : List NodeId} (hroots : roots.Perm s.entryPointsQuery)
    {steps : Nat} (hsteps : s.entryPointsQuery.length + s.nonLosers.length ≤ steps) :
    ∃ reachable, reachableFromEntryPointsQuery edgesFrom roots steps = some reachable ∧
      (∀ node, node ∈ reachable ↔
        Worklist.Reached (reachabilityTargets edgesFrom) roots node) ∧
      ∀ node ∈ reachable, node ∈ s.nonLosers := by
  have hmissing : Worklist.missing s.nonLosers roots ≤ s.nonLosers.length := List.countP_le_length
  obtain ⟨reachable, hrun⟩ := @Worklist.exists_drain _ _ (reachabilityTargets edgesFrom) s.nonLosers
    (fun _ _ hv => mem_reachabilityTargets h hjoined hv) steps roots roots.reverse (by
      rw [List.length_reverse, hroots.length_eq]
      omega)
  have hfrontier := (Worklist.frontier_start (reachabilityTargets edgesFrom) roots).of_perm
    (List.reverse_perm roots)
  have hmem := fun node => Worklist.mem_drain_iff (x := node) hfrontier hrun
  refine ⟨reachable, hrun, hmem, fun node hnode => ?_⟩
  refine ((hmem node).mp hnode).mem_of_closed (fun v hv => ?_) fun u _ v hv =>
    mem_reachabilityTargets h hjoined hv
  exact entryPointsQuery_subset (hroots.mem_iff.mp hv)

theorem unusedAgree_iff (hmax : s.nodes.iter.length ≤ maxResults)
    (hreachable : ∀ node ∈ reachable, node ∈ s.nonLosers) :
    s.UnusedAgree scope reachable maxResults ↔
      ∀ node entry, node.isInvalid = false → (node, entry) ∈ s.nodes.iter →
        entry.isUnifiedLoser = true → s.scopeMatches entry scope = true →
        s.isAlwaysEntryPoint entry = true := by
  have hunreached : ∀ node entry, (node, entry) ∈ s.nodes.iter → entry.isUnifiedLoser = true →
      node ∉ reachable := by
    intro node entry hnode hloser hin
    obtain ⟨other, hother, hwinner⟩ := mem_nonLosers.mp (hreachable node hin)
    rw [(NodeArena.iter_inj hother hnode rfl).2, hloser] at hwinner
    cases hwinner
  constructor
  · intro hagree node entry hvalid hnode hloser hscope
    have hat := hagree node hvalid ⟨entry, hnode⟩
    rw [isNodeUnusedQuery_iff hvalid hnode, mem_unusedQuery hmax hnode, hloser] at hat
    cases halways : s.isAlwaysEntryPoint entry with
    | true => rfl
    | false => cases (hat.mp ⟨hscope, halways, hunreached node entry hnode hloser⟩).1
  · intro hcond node hvalid ⟨entry, hnode⟩
    rw [isNodeUnusedQuery_iff hvalid hnode, mem_unusedQuery hmax hnode]
    cases hloser : entry.isUnifiedLoser with
    | false => simp
    | true =>
      constructor
      · intro htests
        rw [hcond node entry hvalid hnode hloser htests.1] at htests
        cases htests.2.1
      · intro htests
        cases htests.1

end Unused

/-- The cycle queries and the queries for unused nodes are exact and agree exactly when no node
with an edge to itself lies in a larger component outside the depths, while such edges count, and
no absorbed node that the scope takes in could be reported. -/
theorem cycle_queries_exact_iff (hjoined : s.Joined) (circularType : CircularType)
    (bounds : CycleBounds) (scope : UnusedScope) :
    s.CycleQueriesExact circularType bounds scope ↔
      (∀ node ∈ s.nonLosers, bounds.shouldIncludeSelfLoops = true → s.SelfEdge circularType node →
        s.classSize circularType node = 1 ∨ bounds.Admits (s.classSize circularType node)) ∧
      ∀ node entry, node.isInvalid = false → (node, entry) ∈ s.nodes.iter →
        entry.isUnifiedLoser = true → s.scopeMatches entry scope = true →
        s.isAlwaysEntryPoint entry = true := by
  constructor
  · intro ⟨passes, hexact⟩
    obtain ⟨⟨scc, -, hscc, hcycles⟩, reachable, hrun, hunused⟩ :=
      hexact (max passes (s.entryPointsQuery.length + s.nonLosers.length)) (Nat.le_max_left _ _)
        _ _ _ _ reads_self reads_self reads_self reads_self _ (List.Perm.refl _)
    obtain ⟨reachable', hrun', -, hreachable⟩ := exists_reachable reads_self hjoined
      (List.Perm.refl s.entryPointsQuery)
      (Nat.le_max_right passes (s.entryPointsQuery.length + s.nonLosers.length))
    rw [hrun] at hrun'
    cases hrun'
    have hagree := hcycles scc.components.length (Nat.le_refl _)
    exact ⟨(@cyclesAgree_iff s circularType { bounds with maxResults := scc.components.length } scc
        s.edges.edgesFrom reads_self _ reads_self hscc (Nat.le_refl _)).mp hagree,
      (unusedAgree_iff (Nat.le_refl _) hreachable).mp (hunused _ (Nat.le_refl _))⟩
  · intro ⟨hself, hlosers⟩
    refine ⟨max (s.sccPasses (edgeProbeFor circularType))
      (s.entryPointsQuery.length + s.nonLosers.length), fun fuel hfuel sccOrder cycleOrder
      pointOrder reachOrder hscc hcycle hpoint hreach roots hroots => ⟨?_, ?_⟩⟩
    · obtain ⟨scc, hrun, hexact⟩ := sccQuery_exact hjoined (edgeProbeFor circularType) hscc
        (Nat.le_trans (Nat.le_max_left _ _) hfuel)
      exact ⟨scc, hrun, hexact, fun maxResults hmax =>
        (@cyclesAgree_iff s circularType { bounds with maxResults := maxResults } scc cycleOrder
          hcycle pointOrder hpoint hexact hmax).mpr hself⟩
    · obtain ⟨reachable, hrun, -, hreachable⟩ := exists_reachable hreach hjoined hroots
        (Nat.le_trans (Nat.le_max_right _ _) hfuel)
      exact ⟨reachable, hrun, fun maxResults hmax =>
        (unusedAgree_iff hmax hreachable).mpr hlosers⟩

section SelfLoopPair

theorem joined_of_delta (hcsr : s.edges.forward.csr = none)
    (h : ∀ w ∈ s.edges.forward.delta.iter, w.target ∈ s.nonLosers) : s.Joined := by
  intro node edge hedge
  cases EdgeStore.mem_edgesFrom.mp hedge with
  | inl hrow =>
    obtain ⟨r, hr, -⟩ := hrow
    rw [EdgeStore.csrEdgesOf, hcsr] at hr
    cases hr
  | inr hdelta =>
    obtain ⟨w, -, hlatest, -, -, heq⟩ := hdelta
    rw [heq]
    exact h w (LastWriter.winner_spec hlatest).1

def selfLoopPair : GraphSnapshot where
  nodes := ⟨List.replicate 2 ⟨1, .occupied (.new .function (.ofUInt8 1) 1)⟩, none, 2⟩
  strings := ⟨[none, some "f"], ∅, [0, 1], [], none, true⟩
  files := ⟨[none, some ⟨none⟩]⟩
  edges := ((BidirectionalEdgeStore.new.addEdge ⟨0, 1⟩ ⟨0, 1⟩ (.calls 0 false .direct) 1).addEdge
    ⟨0, 1⟩ ⟨1, 1⟩ (.calls 0 false .direct) 1).addEdge ⟨1, 1⟩ ⟨0, 1⟩ (.calls 0 false .direct) 1

theorem joined_selfLoopPair : selfLoopPair.Joined :=
  joined_of_delta rfl (by decide +kernel)

theorem cycle_queries_exact_selfLoopPair :
    selfLoopPair.CycleQueriesExact .calls .default .all := by
  refine (cycle_queries_exact_iff joined_selfLoopPair .calls .default .all).mpr
    ⟨fun node _ hflag => (by cases hflag), fun node entry _ hnode hloser => ?_⟩
  have hwinners : ∀ p ∈ selfLoopPair.nodes.iter, p.2.isUnifiedLoser = false := by decide +kernel
  rw [hwinners (node, entry) hnode] at hloser
  cases hloser

/-- With cycles of at least three nodes asked for and edges of a node to itself counted, the first
function is in a cycle that the list does not have. -/
theorem selfLoopPair_disagrees :
    ¬ selfLoopPair.CycleQueriesExact .calls ⟨3, none, 100, true⟩ .all := by
  intro ⟨passes, hexact⟩
  obtain ⟨⟨scc, -, hscc, hcycles⟩, -⟩ := hexact passes (Nat.le_refl _) _ _ _ _ reads_self
    reads_self reads_self reads_self _ (List.Perm.refl _)
  have hnode : (⟨0, 1⟩ : NodeId) ∈ selfLoopPair.nonLosers := by decide +kernel
  obtain ⟨component, hc, hin⟩ := List.mem_flatten.mp ((hscc.covers _).mpr hnode)
  have hagree := (hcycles scc.components.length (Nat.le_refl _)).2 ⟨0, 1⟩ hnode
  have hclass := (@agree_at_iff selfLoopPair .calls ⟨3, none, scc.components.length, true⟩ scc _
    reads_self _ reads_self hscc (Nat.le_refl _) _ hnode).mp hagree rfl
    (show _ ∈ selfLoopPair.successorsBy _ _ by decide +kernel)
  rw [classSize_eq hscc hc hin] at hclass
  have hlength : component.length ≤ selfLoopPair.nonLosers.length :=
    (List.subperm_of_subset ((List.nodup_flatten.mp hscc.nodup).1 component hc) fun v hv =>
      (hscc.covers v).mp (List.mem_flatten_of_mem hc hv)).length_le
  have htwo : selfLoopPair.nonLosers.length = 2 := by decide +kernel
  cases hclass with
  | inl hone =>
    obtain ⟨node, heq⟩ := List.length_eq_one_iff.mp hone
    have hother : (⟨1, 1⟩ : NodeId) ∈ component :=
      (hscc.classes component hc _ hin ⟨1, 1⟩).mpr
        ⟨Reaches.edge (by decide +kernel), Reaches.edge (by decide +kernel)⟩
    rw [heq, List.mem_singleton] at hin hother
    rw [← hin] at hother
    cases hother
  | inr hadmits =>
    have hthree : 3 ≤ component.length := hadmits.2.1
    omega

end SelfLoopPair

end GraphSnapshot
end Sqry
