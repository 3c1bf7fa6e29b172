import Sqry.Analysis.Condensation
import Sqry.Compaction.Merge
import Sqry.Traverse.SimplePaths

/-!
Path enumeration pruned by the condensation for one edge kind. A path is lost just when a node
behind its seed does not pass; the others stay in their order.
-/

namespace Sqry
namespace Kernel

open TreeSearch (limitReached)

/-- The components let a node through when it or the target has none, or when its component reaches
that of the target. -/
def sccKeeps (sccData : SccData) (condDag : CondensationDag) (target node : NodeId) : Bool :=
  match sccData.sccOf target with
  | none => true
  | some targetScc =>
    match sccData.sccOf node with
    | none => true
    | some nodeScc => condDag.canReach nodeScc targetScc

def sccPathStrategy (sccData : SccData) (condDag : CondensationDag) (target : NodeId)
    (minConfidence : Threshold) (allowCrossLanguage : Bool) : TraversalStrategy where
  acceptEdge := fun edge _ => followsKind minConfidence allowCrossLanguage edge.kind
  shouldEnqueue := fun node _ _ _ => sccKeeps sccData condDag target node
  onPathComplete := fun _ => false
  frontierMode := .pathEnumeration
  visitedPolicy := .pathLocal
  pathTarget := some target

theorem sccPathStrategy_isPathStrategy (sccData : SccData) (condDag : CondensationDag)
    (target : NodeId) (minConfidence : Threshold) (allowCrossLanguage : Bool) :
    IsPathStrategy (sccPathStrategy sccData condDag target minConfidence allowCrossLanguage) target
      (followsKind minConfidence allowCrossLanguage) (sccKeeps sccData condDag target) :=
  ⟨fun _ _ => rfl, fun _ _ _ _ => rfl, fun _ => rfl, rfl, rfl, rfl⟩

def TraversalResult.nodePaths (result : TraversalResult) : List (List NodeId) :=
  (result.paths.getD []).map fun path => path.filterMap fun i => result.nodes[i]?

section Returned
variable {s : PlannerSnapshot}

theorem mem_materializeNodes {discoveredOrder : List NodeId} {node : NodeId} :
    node ∈ materializeNodes s discoveredOrder ↔
      node ∈ discoveredOrder ∧ s.materializes node = true := by
  have hfold : ∀ nodes, node ∈ discoveredOrder.foldl (fun nodes node =>
      if node ∈ nodes then nodes else if s.materializes node then nodes ++ [node] else nodes)
      nodes ↔ node ∈ nodes ∨ (node ∈ discoveredOrder ∧ s.materializes node = true) := by
    induction discoveredOrder with
    | nil => simp
    | cons first rest ih =>
      intro nodes
      rw [List.foldl_cons, ih, List.mem_cons]
      by_cases hin : first ∈ nodes
      · rw [if_pos hin]
        constructor
        · exact fun h => h.imp id fun h => ⟨.inr h.1, h.2⟩
        · rintro (h | ⟨rfl | h, hshown⟩)
          · exact .inl h
          · exact .inl hin
          · exact .inr ⟨h, hshown⟩
      · rw [if_neg hin]
        by_cases hshown : s.materializes first = true
        · rw [if_pos hshown, List.mem_append, List.mem_singleton, or_assoc]
          refine or_congr_right ?_
          constructor
          · rintro (rfl | h)
            · exact ⟨.inl rfl, hshown⟩
            · exact ⟨.inr h.1, h.2⟩
          · rintro ⟨rfl | h, hnode⟩
            · exact .inl rfl
            · exact .inr ⟨h, hnode⟩
        · rw [if_neg hshown]
          refine or_congr_right ⟨fun h => ⟨.inr h.1, h.2⟩, ?_⟩
          rintro ⟨rfl | h, hnode⟩
          · exact absurd hnode hshown
          · exact ⟨h, hnode⟩
  refine (hfold []).trans ?_
  simp

theorem convertPath_eq (nodes path : List NodeId) :
    (convertPath nodes path).map (fun converted => converted.filterMap fun i => nodes[i]?) =
      if ∀ node ∈ path, node ∈ nodes then some path else none := by
  rw [convertPath]
  by_cases hall : ∀ node ∈ path, node ∈ nodes
  · have hback : (path.filterMap fun node => nodes.idxOf? node).length = path.length ∧
        (path.filterMap fun node => nodes.idxOf? node).filterMap (fun i => nodes[i]?) = path := by
      induction path with
      | nil => exact ⟨rfl, rfl⟩
      | cons first path ih =>
        obtain ⟨hlength, hpath⟩ := ih fun node hnode => hall node (List.mem_cons_of_mem first hnode)
        obtain ⟨i, hi⟩ := Option.isSome_iff_exists.mp
          (List.isSome_idxOf?.mpr (hall first List.mem_cons_self))
        simp only [List.filterMap_cons, hi, getElem?_of_idxOf? hi, List.length_cons, hlength,
          hpath, and_self]
    simp only [hback.1, if_true, Option.map_some, hback.2, if_pos hall]
  · rw [if_neg hall]
    have hshort : (path.filterMap fun node => nodes.idxOf? node).length ≠ path.length := by
      intro hlength
      refine hall fun node hnode => ?_
      have hsome := List.filterMap_length_eq_length.mp hlength node hnode
      exact List.isSome_idxOf?.mp hsome
    simp only [if_neg hshort, Option.map_none]

theorem nodePaths_materializeResult {discoveredOrder : List NodeId} {paths : List (List NodeId)}
    (hdiscovered : ∀ path ∈ paths, ∀ node ∈ path, node ∈ discoveredOrder)
    (rawEdges : List RawEdge) (truncation : Option TruncationReason) (maxDepthReached : Bool)
    (seedCount nodesVisited : Nat) :
    (materializeResult s discoveredOrder rawEdges (some paths) truncation maxDepthReached seedCount
      nodesVisited).nodePaths = paths.filter fun path => path.all s.materializes := by
  simp only [TraversalResult.nodePaths, materializeResult, Option.map_some, Option.getD_some]
  induction paths with
  | nil => rfl
  | cons path paths ih =>
    have hrest := ih fun other hother => hdiscovered other (List.mem_cons_of_mem path hother)
    have hall : (∀ node ∈ path, node ∈ materializeNodes s discoveredOrder) ↔
        path.all s.materializes = true := by
      rw [List.all_eq_true]
      refine forall₂_congr fun node hnode => mem_materializeNodes.trans ?_
      exact and_iff_right (hdiscovered path List.mem_cons_self node hnode)
    have hconvert := convertPath_eq (materializeNodes s discoveredOrder) path
    rw [List.filter_cons]
    by_cases hshown : path.all s.materializes = true
    · rw [if_pos (hall.mpr hshown)] at hconvert
      obtain ⟨converted, hsome, hback⟩ := Option.map_eq_some_iff.mp hconvert
      rw [List.filterMap_cons_some hsome, List.map_cons, hback, hrest, if_pos hshown]
    · rw [if_neg fun h => hshown (hall.mp h)] at hconvert
      rw [List.filterMap_cons_none (Option.map_eq_none_iff.mp hconvert), hrest, if_neg hshown]

end Returned

section Pruned
variable {s : PlannerSnapshot} {direction : TraversalDirection} {filter : EdgeFilter}
  {accept : EdgeKind → Bool} {keep : NodeId → Bool}

def passes (keep : NodeId → Bool) (path : List NodeId) : Bool := path.tail.all keep

theorem nextNodes_keep (path : List NodeId) :
    nextNodes s direction filter accept keep path =
      (nextNodes s direction filter accept (fun _ => true) path).filter keep := by
  rw [nextNodes, nextNodes]
  cases path.getLast? with
  | none => rfl
  | some current =>
    simp only [List.filter_map, List.filter_filter]
    refine congrArg _ (List.filter_congr fun edge _ => ?_)
    simp only [follows, Function.comp_apply, Bool.and_true]
    cases keep (PlannerSnapshot.neighborOf edge current) <;> simp

theorem passes_concat {path : List NodeId} {next : NodeId} (hne : path ≠ []) :
    passes keep (path ++ [next]) = (passes keep path && keep next) := by
  rw [passes, passes, List.tail_append_of_ne_nil hne, List.all_append]
  simp

theorem collected_keep (target : NodeId) (seeds : List NodeId) (maxDepth : Nat) :
    collected s direction filter accept keep target seeds maxDepth =
      (collected s direction filter accept (fun _ => true) target seeds maxDepth).filter
        (passes keep) := by
  have hne : ∀ path next, next ∈ nextNodes s direction filter accept (fun _ => true) path →
      path ≠ [] := by
    rintro path next hnext rfl
    cases hnext
  refine TreeSearch.harvest_prune (fun path hpath => ?_) (fun path hpath longer hlonger => ?_)
    maxDepth fun path hpath => ?_
  · rw [extensions, extensions, TreeSearch.grow, TreeSearch.grow, nextNodes_keep, List.filter_map]
    refine congrArg _ (List.filter_congr fun next hnext => ?_)
    rw [Function.comp_apply, passes_concat (hne path next hnext), hpath, Bool.true_and]
  · obtain ⟨next, hnext, rfl⟩ := TreeSearch.mem_grow.mp hlonger
    rw [passes_concat (hne path next hnext), hpath, Bool.false_and]
  · obtain ⟨seed, -, rfl⟩ := List.mem_map.mp hpath
    rfl

end Pruned

def returnedPaths (s : PlannerSnapshot) (config : TraversalConfig) (strategy : TraversalStrategy)
    (seeds : List NodeId) (fuel : Nat) : Option (List (List NodeId)) :=
  (traverse s fuel seeds config (some strategy)).map TraversalResult.nodePaths

def isShown (s : PlannerSnapshot) (path : List NodeId) : Bool := path.all s.materializes

def shownPaths (s : PlannerSnapshot) (direction : TraversalDirection) (filter : EdgeFilter)
    (accept : EdgeKind → Bool) (keep : NodeId → Bool) (target : NodeId) (seeds : List NodeId)
    (maxDepth : Nat) (maxPaths : Option Nat) : List (List NodeId) :=
  (firstPaths maxPaths (collected s direction filter accept keep target seeds maxDepth)).filter
    (isShown s)

theorem returnedPaths_eq {s : PlannerSnapshot} {strategy : TraversalStrategy} {target : NodeId}
    {accept : EdgeKind → Bool} {keep : NodeId → Bool}
    (h : IsPathStrategy strategy target accept keep) (direction : TraversalDirection)
    (filter : EdgeFilter) (maxDepth : Nat) (maxPaths : Option Nat) (seeds : List NodeId) :
    ∃ least, ∀ fuel, least ≤ fuel →
      returnedPaths s ⟨direction, filter, maxDepth, none, none, maxPaths⟩ strategy seeds fuel =
        some (shownPaths s direction filter accept keep target seeds maxDepth maxPaths) := by
  obtain ⟨least, hleast⟩ := @run_collects s strategy target accept keep h direction filter maxDepth
    maxPaths seeds
  refine ⟨least, fun fuel hfuel => ?_⟩
  obtain ⟨st, heq, hpaths, hconsistent⟩ := hleast fuel hfuel
  rw [returnedPaths, traverse]
  simp only [Option.getD_some, h.frontierMode]
  rw [runPathBfs, heq, Option.map_some, Option.map_some,
    nodePaths_materializeResult hconsistent.discovered, hpaths]
  rfl

/-- The simple paths to the target, in breadth-first order and with their repetitions, from which
the pruning loses some: from the first one that it loses on, none has all its nodes shown. -/
def PruningUnseen (s : PlannerSnapshot) (direction : TraversalDirection) (filter : EdgeFilter)
    (accept : EdgeKind → Bool) (keep : NodeId → Bool) (target : NodeId) (seeds : List NodeId)
    (maxDepth : Nat) : Prop :=
  TreeSearch.LostLast (passes keep) (isShown s)
    (collected s direction filter accept (fun _ => true) target seeds maxDepth)

/-- The pruned traversal returns the paths of the plain one, without a limit on them and under every
limit, just when what the pruning loses is not seen. -/
theorem traverse_scc_eq_simple_iff (s : PlannerSnapshot) (sccData : SccData)
    (condDag : CondensationDag) (seeds : List NodeId) (target : NodeId)
    (direction : TraversalDirection) (filter : EdgeFilter) (maxDepth : Nat)
    (minConfidence : Threshold) (allowCrossLanguage : Bool) :
    ∃ simple pruned : Option Nat → List (List NodeId),
      (∀ maxPaths, ∃ least, ∀ fuel, least ≤ fuel →
        returnedPaths s ⟨direction, filter, maxDepth, none, none, maxPaths⟩
            (simplePathStrategy target minConfidence allowCrossLanguage) seeds fuel =
          some (simple maxPaths) ∧
        returnedPaths s ⟨direction, filter, maxDepth, none, none, maxPaths⟩
            (sccPathStrategy sccData condDag target minConfidence allowCrossLanguage) seeds fuel =
          some (pruned maxPaths)) ∧
      ((∀ maxPaths, pruned maxPaths = simple maxPaths) ↔
        PruningUnseen s direction filter (followsKind minConfidence allowCrossLanguage)
          (sccKeeps sccData condDag target) target seeds maxDepth) := by
  have hsimple := simplePathStrategy_isPathStrategy target minConfidence allowCrossLanguage
  have hscc := sccPathStrategy_isPathStrategy sccData condDag target minConfidence
    allowCrossLanguage
  refine ⟨shownPaths s direction filter (followsKind minConfidence allowCrossLanguage)
      (fun _ => true) target seeds maxDepth,
    shownPaths s direction filter (followsKind minConfidence allowCrossLanguage)
      (sccKeeps sccData condDag target) target seeds maxDepth, fun maxPaths => ?_, ?_⟩
  · obtain ⟨least, hleast⟩ := @returnedPaths_eq s _ _ _ _ hsimple direction filter maxDepth
      maxPaths seeds
    obtain ⟨least', hleast'⟩ := @returnedPaths_eq s _ _ _ _ hscc direction filter maxDepth
      maxPaths seeds
    refine ⟨max least least', fun fuel hfuel => ⟨?_, ?_⟩⟩
    · exact hleast fuel (Nat.le_trans (Nat.le_max_left _ _) hfuel)
    · exact hleast' fuel (Nat.le_trans (Nat.le_max_right _ _) hfuel)
  · rw [PruningUnseen, ← TreeSearch.shown_filter_iff]
    simp only [shownPaths, @collected_keep s direction filter _ (sccKeeps sccData condDag target)]
    constructor
    · refine fun h => ⟨h none, fun n => ?_⟩
      cases n with
      | zero => rfl
      | succ n =>
        have hcut := h (some (n + 1))
        rw [firstPaths, firstPaths, Nat.max_eq_left (Nat.le_add_left 1 n)] at hcut
        exact hcut
    · rintro ⟨hall, hcut⟩ maxPaths
      cases maxPaths with
      | none => exact hall
      | some k => exact hcut (max k 1)

section TraitBinding

/-- The analysis of one kind as the build makes it, from the compacted forward edges; `none` is an
error, a panic, or a search that the fuel does not finish. -/
def buildAnalysis (computeLabels : CondensationDag → Option Nat → Option ReachabilityLabels)
    (config : LabelBudgetConfig) (edges : BidirectionalEdgeStore) (nodeCount : Nat)
    (kind : EdgeKind) (fuel : Nat) : Option (SccData × CondensationDag) :=
  match (edges.forward.compact nodeCount .forward).bind EdgeStore.csr with
  | none => none
  | some csr =>
    let adjacency := CsrAdjacency.fromCsrGraph csr
    match SccData.computeTarjan adjacency kind fuel with
    | none => none
    | some sccData =>
      (CondensationDag.buildWithBudget computeLabels sccData adjacency config).map fun condDag =>
        (sccData, condDag)

def callsOnly : EdgeFilter := ⟨true, false, false, false, false, false, false, false, none⟩

def noLabels : LabelBudgetConfig := { LabelBudgetConfig.default with skipLabels := true }

def traitBinding : PlannerSnapshot :=
  functionGraph 3 [(0, 1, .calls 0 false .direct),
    (1, 2, .traitMethodBinding (.ofUInt8 1) (.ofUInt8 1) false)]

/-- The binding is followed as a call, and the condensation for calls does not have it. -/
theorem traitBinding_pruned : ∃ sccData condDag,
    buildAnalysis (fun _ _ => none) noLabels traitBinding.edges 3 (.calls 0 false .direct) 9 =
      some (sccData, condDag) ∧
    returnedPaths traitBinding ⟨.outgoing, callsOnly, 5, none, none, none⟩
      (simplePathStrategy (function 2) (.finite 0) true) [function 0] 4 =
        some [[function 0, function 1, function 2]] ∧
    returnedPaths traitBinding ⟨.outgoing, callsOnly, 5, none, none, none⟩
      (sccPathStrategy sccData condDag (function 2) (.finite 0) true) [function 0] 4 =
        some [] := by
  have hbuilt : ((buildAnalysis (fun _ _ => none) noLabels traitBinding.edges 3
      (.calls 0 false .direct) 9).bind fun analysis =>
        returnedPaths traitBinding ⟨.outgoing, callsOnly, 5, none, none, none⟩
          (sccPathStrategy analysis.1 analysis.2 (function 2) (.finite 0) true) [function 0] 4) =
      some [] := by decide +kernel
  obtain ⟨analysis, hanalysis, hpruned⟩ := Option.bind_eq_some_iff.mp hbuilt
  exact ⟨analysis.1, analysis.2, hanalysis, by decide +kernel, hpruned⟩

end TraitBinding

end Kernel
end Sqry
