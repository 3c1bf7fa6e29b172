import Mathlib.Algebra.Order.Ring.Rat
import Sqry.Traverse.Kernel

/-!
Path enumeration without limits on nodes or edges, under a strategy that looks at the kinds of
edges and at the nodes they lead to. The queue is a search over the tree of paths.
-/

namespace Sqry
namespace Kernel

open TreeSearch (level harvest search limitReached)

/-- A 64-bit float as a comparison with a constant sees it. -/
inductive Threshold where
  | nan
  | negInfinity
  | finite (value : ℚ)
  | infinity

/-- `confidence >= min_confidence` -/
def Threshold.isMetBy (confidence : ℚ) : Threshold → Bool
  | .nan | .infinity => false
  | .negInfinity => true
  | .finite value => confidence ≥ value

def edgeConfidence : EdgeKind → ℚ
  | .calls .. | .traitMethodBinding .. => 1
  | .inherits | .implements | .sealedPermit => 8106479329266893 / 9007199254740992
  | .imports .. | .exports .. => 3602879701896397 / 4503599627370496
  | .references => 3152519739159347 / 4503599627370496
  | .ffiCall _ | .httpRequest .. | .grpcCall .. | .webAssemblyCall =>
    5404319552844595 / 9007199254740992
  | .macroExpansion .. => 1 / 2
  | _ => 5404319552844595 / 18014398509481984

def isFollowableEdge (kind : EdgeKind) (minConfidence : Threshold) : Bool :=
  minConfidence.isMetBy (edgeConfidence kind)

def followsKind (minConfidence : Threshold) (allowCrossLanguage : Bool) (kind : EdgeKind) :
    Bool :=
  isFollowableEdge kind minConfidence && (allowCrossLanguage || !kind.isCrossBoundary)

def simplePathStrategy (target : NodeId) (minConfidence : Threshold)
    (allowCrossLanguage : Bool) : TraversalStrategy where
  acceptEdge := fun edge _ => followsKind minConfidence allowCrossLanguage edge.kind
  shouldEnqueue := fun _ _ _ _ => true
  onPathComplete := fun _ => false
  frontierMode := .pathEnumeration
  visitedPolicy := .pathLocal
  pathTarget := some target

structure IsPathStrategy (strategy : TraversalStrategy) (target : NodeId)
    (accept : EdgeKind → Bool) (keep : NodeId → Bool) : Prop where
  acceptEdge : ∀ edge depth, strategy.acceptEdge edge depth = accept edge.kind
  shouldEnqueue : ∀ next current kind depth,
    strategy.shouldEnqueue next current kind depth = keep next
  onPathComplete : ∀ path, strategy.onPathComplete path = false
  frontierMode : strategy.frontierMode = .pathEnumeration
  visitedPolicy : strategy.visitedPolicy = .pathLocal
  pathTarget : strategy.pathTarget = some target

theorem simplePathStrategy_isPathStrategy (target : NodeId) (minConfidence : Threshold)
    (allowCrossLanguage : Bool) :
    IsPathStrategy (simplePathStrategy target minConfidence allowCrossLanguage) target
      (followsKind minConfidence allowCrossLanguage) (fun _ => true) :=
  ⟨fun _ _ => rfl, fun _ _ _ _ => rfl, fun _ => rfl, rfl, rfl, rfl⟩

section Tree
variable (s : PlannerSnapshot) (direction : TraversalDirection) (filter : EdgeFilter)
  (accept : EdgeKind → Bool) (keep : NodeId → Bool) (target : NodeId)

def follows (path : List NodeId) (current : NodeId) (edge : StoreEdgeRef) : Bool :=
  filter.acceptsKind edge.kind && accept edge.kind &&
    (decide (PlannerSnapshot.neighborOf edge current ∉ path) &&
      keep (PlannerSnapshot.neighborOf edge current))

def nextNodes (path : List NodeId) : List NodeId :=
  match path.getLast? with
  | none => []
  | some current =>
    ((s.collectEdges current direction).filter (follows filter accept keep path current)).map
      fun edge => PlannerSnapshot.neighborOf edge current

def extensions : List NodeId → List (List NodeId) :=
  TreeSearch.grow (nextNodes s direction filter accept keep)

def isComplete (path : List NodeId) : Bool :=
  path.getLast? = some target && decide (path.length > 1)

end Tree

namespace PathBfs
variable {s : PlannerSnapshot} {config : TraversalConfig} {strategy : TraversalStrategy}
  {target : NodeId} {accept : EdgeKind → Bool} {keep : NodeId → Bool}

theorem collectedPaths_discover (st : PathBfs) (node : NodeId) :
    (st.discover node).collectedPaths = st.collectedPaths := by
  rw [discover]
  split <;> rfl

theorem mem_discover {st : PathBfs} {node other : NodeId} (h : other ∈ st.discoveredOrder) :
    other ∈ (st.discover node).discoveredOrder := by
  rw [discover]
  split
  · exact h
  · exact List.mem_append_left _ h

theorem foldl_discover (path : List NodeId) (st : PathBfs) : ∃ order,
    path.foldl discover st = { st with discoveredOrder := order } ∧
      ∀ node, node ∈ order ↔ node ∈ st.discoveredOrder ∨ node ∈ path := by
  induction path generalizing st with
  | nil => exact ⟨st.discoveredOrder, rfl, fun node => by simp⟩
  | cons first path ih =>
    rw [List.foldl_cons, discover]
    by_cases hseen : first ∈ st.discoveredOrder
    · rw [if_pos hseen]
      obtain ⟨order, heq, hmem⟩ := ih st
      refine ⟨order, heq, fun node => (hmem node).trans ?_⟩
      rw [List.mem_cons]
      constructor
      · exact fun h => h.imp id Or.inr
      · rintro (h | rfl | h)
        · exact .inl h
        · exact .inl hseen
        · exact .inr h
    · rw [if_neg hseen]
      obtain ⟨order, heq, hmem⟩ := ih
        { st with discoveredOrder := st.discoveredOrder ++ [first] }
      refine ⟨order, heq, fun node => (hmem node).trans ?_⟩
      rw [List.mem_append, List.mem_singleton, List.mem_cons, or_assoc]

theorem complete_eq (h : IsPathStrategy strategy target accept keep) (path : List NodeId)
    (st : PathBfs) : ∃ st', complete config strategy path st =
        (if limitReached config.limits.maxPaths st'.collectedPaths.length then
          .error { st' with truncation := some .pathLimit } else .ok st') ∧
      st'.collectedPaths = st.collectedPaths ++ [path] ∧ st'.queue = st.queue ∧
      ∀ node, node ∈ st'.discoveredOrder ↔ node ∈ st.discoveredOrder ∨ node ∈ path := by
  obtain ⟨order, heq, hmem⟩ := foldl_discover path st
  refine ⟨{ st with
    discoveredOrder := order, collectedPaths := st.collectedPaths ++ [path] }, ?_, rfl, rfl, hmem⟩
  rw [complete, heq]
  simp only [h.onPathComplete, Bool.false_eq_true, if_false]

structure Advances (st st' : PathBfs) (items : List (NodeId × List NodeId × Nat)) : Prop where
  collectedPaths : st'.collectedPaths = st.collectedPaths
  queue : st'.queue = st.queue ++ items
  discovered : ∀ node ∈ st.discoveredOrder, node ∈ st'.discoveredOrder

theorem Advances.trans {st st' st'' : PathBfs} {items items' : List (NodeId × List NodeId × Nat)}
    (h : Advances st st' items) (h' : Advances st' st'' items') :
    Advances st st'' (items ++ items') where
  collectedPaths := h'.collectedPaths.trans h.collectedPaths
  queue := by rw [h'.queue, h.queue, List.append_assoc]
  discovered := fun node hnode => h'.discovered node (h.discovered node hnode)

theorem visitEdge_eq (h : IsPathStrategy strategy target accept keep)
    (hnodes : config.limits.maxNodes = none) (hedges : config.limits.maxEdges = none)
    (current : NodeId) (path : List NodeId) (depth : Nat) (edge : StoreEdgeRef) (st : PathBfs)
    (flag : Bool) : ∃ st' flag',
    visitEdge config strategy current path depth (st, flag) edge = .ok (st', flag') ∧
      Advances st st' (if follows config.edgeFilter accept keep path current edge then
        [(PlannerSnapshot.neighborOf edge current,
          path ++ [PlannerSnapshot.neighborOf edge current], depth + 1)] else []) := by
  have hstay : Advances st st [] := ⟨rfl, (List.append_nil _).symm, fun _ hnode => hnode⟩
  by_cases hkind : config.edgeFilter.acceptsKind edge.kind = true
  · by_cases haccept : accept edge.kind = true
    · by_cases hpath : PlannerSnapshot.neighborOf edge current ∈ path
      · refine ⟨st, flag, ?_, ?_⟩
        · simp [visitEdge, limitReached, hedges, hkind, h.acceptEdge, haccept, h.visitedPolicy,
            hpath]
        · simpa [follows, hpath] using hstay
      · by_cases hkeep : keep (PlannerSnapshot.neighborOf edge current) = true
        · have hfollows : follows config.edgeFilter accept keep path current edge = true := by
            simp [follows, hkind, haccept, hpath, hkeep]
          rw [if_pos hfollows]
          refine ⟨{ discover { st with
              rawEdges := st.rawEdges ++ [⟨edge.source, edge.target, edge.kind, depth + 1⟩] }
              (PlannerSnapshot.neighborOf edge current) with
            queue := st.queue ++ [(PlannerSnapshot.neighborOf edge current,
              path ++ [PlannerSnapshot.neighborOf edge current], depth + 1)] }, true, ?_, ?_⟩
          · simp [visitEdge, limitReached, hnodes, hedges, hkind, h.acceptEdge, haccept,
              h.visitedPolicy, hpath, h.shouldEnqueue, hkeep]
          · exact ⟨collectedPaths_discover _ _, rfl, fun node hnode => mem_discover hnode⟩
        · refine ⟨st, flag, ?_, ?_⟩
          · simp [visitEdge, limitReached, hedges, hkind, h.acceptEdge, haccept, h.visitedPolicy,
              hpath, h.shouldEnqueue, hkeep]
          · simpa [follows, hkeep] using hstay
    · refine ⟨st, flag, ?_, ?_⟩
      · simp [visitEdge, limitReached, hedges, hkind, h.acceptEdge, haccept]
      · simpa [follows, haccept] using hstay
  · refine ⟨st, flag, ?_, ?_⟩
    · simp [visitEdge, limitReached, hedges, hkind]
    · simpa [follows, hkind] using hstay

theorem foldlM_visitEdge (h : IsPathStrategy strategy target accept keep)
    (hnodes : config.limits.maxNodes = none) (hedges : config.limits.maxEdges = none)
    (current : NodeId) (path : List NodeId) (depth : Nat) (edges : List StoreEdgeRef)
    (st : PathBfs) (flag : Bool) : ∃ st' flag',
    edges.foldlM (visitEdge config strategy current path depth) (st, flag) = .ok (st', flag') ∧
      Advances st st' (((edges.filter (follows config.edgeFilter accept keep path current)).map
        fun edge => PlannerSnapshot.neighborOf edge current).map fun next =>
          (next, path ++ [next], depth + 1)) := by
  induction edges generalizing st flag with
  | nil => exact ⟨st, flag, rfl, rfl, (List.append_nil _).symm, fun _ hnode => hnode⟩
  | cons edge edges ih =>
    obtain ⟨st₁, flag₁, hvisit, hadvances₁⟩ :=
      @visitEdge_eq config strategy target accept keep h hnodes hedges current path depth edge st
        flag
    obtain ⟨st₂, flag₂, hrest, hadvances₂⟩ := ih st₁ flag₁
    refine ⟨st₂, flag₂, ?_, ?_⟩
    · rw [List.foldlM_cons, hvisit]
      exact hrest
    · have hboth := hadvances₁.trans hadvances₂
      rw [List.filter_cons]
      split
      · next hfollows =>
          rw [if_pos hfollows] at hboth
          exact hboth
      · next hfollows =>
          rw [if_neg hfollows] at hboth
          exact hboth

def pathQueue (st : PathBfs) : List (List NodeId × Nat) := st.queue.map fun item => item.2

/-- Every path of the queue ends at the node it is queued for, and the nodes of the paths that are
collected are discovered. -/
structure Consistent (st : PathBfs) : Prop where
  last : ∀ item ∈ st.queue, item.2.1.getLast? = some item.1
  discovered : ∀ path ∈ st.collectedPaths, ∀ node ∈ path, node ∈ st.discoveredOrder

theorem popItem_spec (h : IsPathStrategy strategy target accept keep)
    (hnodes : config.limits.maxNodes = none) (hedges : config.limits.maxEdges = none)
    {current : NodeId} {path : List NodeId} (hlast : path.getLast? = some current) (depth : Nat)
    (st : PathBfs) : ∃ st', popItem s config strategy current path depth st =
        (if isComplete target path && limitReached config.limits.maxPaths
            st'.collectedPaths.length then
          .error { st' with truncation := some .pathLimit } else .ok st') ∧
      (∀ node ∈ st.discoveredOrder, node ∈ st'.discoveredOrder) ∧
      if isComplete target path then
        st'.collectedPaths = st.collectedPaths ++ [path] ∧ st'.queue = st.queue ∧
          ∀ node ∈ path, node ∈ st'.discoveredOrder
      else st'.collectedPaths = st.collectedPaths ∧
        st'.queue = st.queue ++ if depth ≥ config.limits.maxDepth then [] else
          (nextNodes s config.direction config.edgeFilter accept keep path).map fun next =>
            (next, path ++ [next], depth + 1) := by
  have hcomplete : (strategy.pathTarget = some current ∧ path.length > 1) ↔
      isComplete target path = true := by
    rw [h.pathTarget, isComplete, hlast, Bool.and_eq_true, decide_eq_true_iff, decide_eq_true_iff,
      eq_comm]
  rw [popItem]
  by_cases hdone : isComplete target path = true
  · obtain ⟨st', heq, hcollected, hqueue, hmem⟩ := @complete_eq config strategy target accept keep h path st
    refine ⟨st', ?_, fun node hnode => (hmem node).mpr (.inl hnode), ?_⟩
    · rw [if_pos (hcomplete.mpr hdone), heq, hdone, Bool.true_and]
    · rw [if_pos hdone]
      exact ⟨hcollected, hqueue, fun node hnode => (hmem node).mpr (.inr hnode)⟩
  · rw [if_neg fun hand => hdone (hcomplete.mp hand)]
    have hnot : isComplete target path = false := eq_false_of_ne_true hdone
    by_cases hdepth : depth ≥ config.limits.maxDepth
    · refine ⟨{ st with maxDepthReached := true }, ?_, fun _ hnode => hnode, ?_⟩
      · rw [if_pos hdepth, hnot]
        rfl
      · rw [if_neg hdone, if_pos hdepth, List.append_nil]
        exact ⟨rfl, rfl⟩
    · obtain ⟨st', flag, hfold, hadvances⟩ := @foldlM_visitEdge config strategy target accept keep
        h hnodes hedges current path depth (s.collectEdges current config.direction) st false
      refine ⟨st', ?_, hadvances.discovered, ?_⟩
      · rw [if_neg hdepth, hnodes, limitReached, if_neg Bool.false_ne_true, hfold, hnot]
        simp [finishLeaf, h.pathTarget]
      · rw [if_neg hdone, if_neg hdepth, nextNodes, hlast]
        exact ⟨hadvances.collectedPaths, hadvances.queue⟩

theorem run_search (h : IsPathStrategy strategy target accept keep)
    (hnodes : config.limits.maxNodes = none) (hedges : config.limits.maxEdges = none)
    (fuel : Nat) (st : PathBfs) (hst : Consistent st) :
    (run s config strategy fuel st).map collectedPaths =
        search (extensions s config.direction config.edgeFilter accept keep) (isComplete target)
          config.limits.maxPaths config.limits.maxDepth fuel (pathQueue st) st.collectedPaths ∧
      ∀ st', run s config strategy fuel st = some st' → Consistent st' := by
  induction fuel generalizing st with
  | zero =>
    rw [run, search, pathQueue, List.isEmpty_map]
    by_cases hempty : st.queue.isEmpty = true
    · rw [if_pos hempty, if_pos hempty]
      refine ⟨rfl, fun st' heq => ?_⟩
      cases heq
      exact hst
    · rw [if_neg hempty, if_neg hempty]
      exact ⟨rfl, fun st' heq => by cases heq⟩
  | succ fuel ih =>
    cases hqueue : st.queue with
    | nil =>
      rw [run, pathQueue, hqueue]
      refine ⟨rfl, fun st' heq => ?_⟩
      cases heq
      exact hst
    | cons item queue =>
      obtain ⟨current, path, depth⟩ := item
      have hlast : path.getLast? = some current :=
        hst.last _ (hqueue ▸ List.mem_cons_self)
      obtain ⟨st₁, hpop, hdiscovered, hspec⟩ := @popItem_spec s config strategy target accept
        keep h hnodes hedges current path hlast depth
        { st with queue := queue, nodesVisited := st.nodesVisited + 1 }
      have hlater : ∀ item ∈ queue, item.2.1.getLast? = some item.1 := fun item hitem =>
        hst.last item (hqueue ▸ List.mem_cons_of_mem _ hitem)
      rw [run, pathQueue, hqueue, List.map_cons, search]
      simp only [hpop]
      by_cases hdone : isComplete target path = true
      · rw [if_pos hdone] at hspec
        obtain ⟨hcollected, hrest, hpath⟩ := hspec
        have hst₁ : Consistent st₁ := by
          refine ⟨fun item hitem => ?_, fun other hother => ?_⟩
          · rw [hrest] at hitem
            exact hlater item hitem
          rw [hcollected] at hother
          cases List.mem_append.mp hother with
          | inl hold => exact fun node hnode => hdiscovered node (hst.discovered _ hold _ hnode)
          | inr hnew => exact List.mem_singleton.mp hnew ▸ hpath
        rw [if_pos hdone, hdone, Bool.true_and]
        by_cases hlimit : limitReached config.limits.maxPaths st₁.collectedPaths.length = true
        · rw [if_pos hlimit]
          rw [hcollected] at hlimit
          rw [if_pos hlimit]
          refine ⟨congrArg some hcollected, fun st' heq => ?_⟩
          cases heq
          exact ⟨hst₁.last, hst₁.discovered⟩
        · rw [if_neg hlimit]
          rw [hcollected] at hlimit
          rw [if_neg hlimit]
          have hih := ih st₁ hst₁
          rw [pathQueue, hrest, hcollected] at hih
          exact hih
      · rw [if_neg hdone] at hspec
        obtain ⟨hcollected, hrest⟩ := hspec
        have hst₁ : Consistent st₁ := by
          refine ⟨fun item hitem => ?_, fun other hother node hnode => ?_⟩
          · rw [hrest] at hitem
            cases List.mem_append.mp hitem with
            | inl hold => exact hlater item hold
            | inr hnew =>
              by_cases hdepth : depth ≥ config.limits.maxDepth
              · rw [if_pos hdepth] at hnew
                cases hnew
              · rw [if_neg hdepth] at hnew
                obtain ⟨next, -, rfl⟩ := List.mem_map.mp hnew
                exact List.getLast?_concat
          · rw [hcollected] at hother
            exact hdiscovered node (hst.discovered other hother node hnode)
        have hih := ih st₁ hst₁
        rw [pathQueue, hrest, hcollected] at hih
        rw [if_neg hdone, eq_false_of_ne_true hdone, Bool.false_and,
          if_neg Bool.false_ne_true]
        by_cases hdepth : depth ≥ config.limits.maxDepth
        · rw [if_pos hdepth, List.append_nil] at hih
          rw [if_pos hdepth]
          exact hih
        · rw [if_neg hdepth, List.map_append, List.map_map] at hih
          rw [if_neg hdepth, extensions, TreeSearch.grow, List.map_map]
          exact hih

theorem foldl_seedNode (seeds : List NodeId) (st : PathBfs) : ∃ order,
    seeds.foldl seedNode st = { st with
      discoveredOrder := order
      queue := st.queue ++ seeds.map fun node => (node, [node], 0) } := by
  induction seeds generalizing st with
  | nil => exact ⟨st.discoveredOrder, by simp⟩
  | cons seed seeds ih =>
    obtain ⟨order, heq⟩ := ih (st.seedNode seed)
    refine ⟨order, ?_⟩
    rw [List.foldl_cons, heq, seedNode, discover]
    split
    · simp
    · simp

end PathBfs

section Collects
variable {s : PlannerSnapshot} {strategy : TraversalStrategy} {target : NodeId}
  {accept : EdgeKind → Bool} {keep : NodeId → Bool}

def collected (s : PlannerSnapshot) (direction : TraversalDirection) (filter : EdgeFilter)
    (accept : EdgeKind → Bool) (keep : NodeId → Bool) (target : NodeId) (seeds : List NodeId)
    (maxDepth : Nat) : List (List NodeId) :=
  harvest (extensions s direction filter accept keep) (isComplete target) maxDepth
    (seeds.map fun node => [node])

def pathsOf (s : PlannerSnapshot) (config : TraversalConfig) (strategy : TraversalStrategy)
    (seeds : List NodeId) (fuel : Nat) : Option (List (List NodeId)) :=
  (PathBfs.run s config strategy fuel (.seed strategy seeds)).map PathBfs.collectedPaths

def firstPaths (maxPaths : Option Nat) (paths : List (List NodeId)) : List (List NodeId) :=
  match maxPaths with
  | none => paths
  | some k => paths.take (max k 1)

theorem run_collects (h : IsPathStrategy strategy target accept keep)
    (direction : TraversalDirection) (filter : EdgeFilter) (maxDepth : Nat)
    (maxPaths : Option Nat) (seeds : List NodeId) : ∃ least, ∀ fuel, least ≤ fuel → ∃ st,
      PathBfs.run s ⟨direction, filter, maxDepth, none, none, maxPaths⟩ strategy fuel
          (.seed strategy seeds) = some st ∧
        st.collectedPaths = firstPaths maxPaths
          (collected s direction filter accept keep target seeds maxDepth) ∧
        st.Consistent := by
  obtain ⟨order, hseed⟩ := PathBfs.foldl_seedNode seeds ⟨[], [], [], none, false, 0, [],
    if strategy.visitedPolicy = .global then seeds else []⟩
  have hseeded : PathBfs.seed strategy seeds = _ := hseed
  have hconsistent : (PathBfs.seed strategy seeds).Consistent := by
    rw [hseeded]
    refine ⟨fun item hitem => ?_, fun path hpath => nomatch hpath⟩
    obtain ⟨node, -, rfl⟩ := List.mem_map.mp hitem
    rfl
  obtain ⟨least, hleast⟩ := @TreeSearch.search_none _
    (extensions s direction filter accept keep) (isComplete target) maxDepth maxDepth 0
    (Nat.zero_add _) (seeds.map fun node => [node]) []
  refine ⟨least, fun fuel hfuel => ?_⟩
  obtain ⟨hrun, hinv⟩ := @PathBfs.run_search s
    ⟨direction, filter, maxDepth, none, none, maxPaths⟩ strategy target accept keep h rfl rfl fuel
    (.seed strategy seeds) hconsistent
  have hqueue : (PathBfs.seed strategy seeds).pathQueue =
      (seeds.map fun node => [node]).map fun path => (path, 0) := by
    rw [hseeded, PathBfs.pathQueue]
    simp
  have hempty : (PathBfs.seed strategy seeds).collectedPaths = [] := by rw [hseeded]
  have hall := hleast fuel hfuel
  rw [hqueue, hempty] at hrun
  have hsearch : (PathBfs.run s ⟨direction, filter, maxDepth, none, none, maxPaths⟩ strategy fuel
      (.seed strategy seeds)).map PathBfs.collectedPaths =
      some (firstPaths maxPaths
        (collected s direction filter accept keep target seeds maxDepth)) := by
    rw [hrun]
    cases maxPaths with
    | none => exact hall
    | some k =>
      have hpos : 0 < max k 1 := Nat.lt_of_lt_of_le Nat.zero_lt_one (Nat.le_max_right k 1)
      exact TreeSearch.search_some hpos hall
  obtain ⟨st, heq, hcollected⟩ := Option.map_eq_some_iff.mp hsearch
  exact ⟨st, heq, hcollected, hinv st heq⟩

end Collects

end Kernel
end Sqry
