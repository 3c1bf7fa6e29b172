import Sqry.Planner.Traversal
import Sqry.Traverse.Standard

/-!
The default traversal without limits against its reference. The edges are deduplicated in a row
only, so an edge that is met again later stays twice.
-/

namespace Sqry
namespace Kernel

open LevelSearch (fresh levels layer before Closer)

section Materialized
variable {s : PlannerSnapshot}

theorem materializeNodes_eq {discoveredOrder : List NodeId} (h : discoveredOrder.Nodup) :
    materializeNodes s discoveredOrder = discoveredOrder.filter s.materializes := by
  have hfold : ∀ nodes, (∀ node ∈ discoveredOrder, node ∉ nodes) →
      discoveredOrder.foldl (fun nodes node =>
        if node ∈ nodes then nodes else if s.materializes node then nodes ++ [node] else nodes)
        nodes = nodes ++ discoveredOrder.filter s.materializes := by
    induction discoveredOrder with
    | nil => exact fun nodes _ => (List.append_nil nodes).symm
    | cons node rest ih =>
      intro nodes hnew
      obtain ⟨hnot, hrest⟩ := List.nodup_cons.mp h
      have hlater : ∀ other ∈ rest, other ∉ nodes := fun other hother =>
        hnew other (List.mem_cons_of_mem node hother)
      rw [List.foldl_cons, if_neg (hnew node List.mem_cons_self), List.filter_cons]
      by_cases hshown : s.materializes node = true
      · rw [if_pos hshown, if_pos hshown, ih hrest, List.append_assoc]
        · rfl
        · intro other hother hmem
          cases List.mem_append.mp hmem with
          | inl hold => exact hlater other hother hold
          | inr hsame => exact hnot (List.mem_singleton.mp hsame ▸ hother)
      · rw [if_neg hshown, if_neg hshown, ih hrest nodes hlater]
  exact (hfold [] fun node _ => List.not_mem_nil).trans (List.nil_append _)

def convertEdge (nodes : List NodeId) (raw : RawEdge) : Option MaterializedEdge :=
  match nodes.idxOf? raw.source, nodes.idxOf? raw.target with
  | some sourceIdx, some targetIdx =>
    some ⟨sourceIdx, targetIdx, .of raw.kind, raw.kind, raw.depth⟩
  | _, _ => none

def edgeKey (edge : MaterializedEdge) : Nat × Nat × EdgeClassification :=
  (edge.sourceIdx, edge.targetIdx, edge.classification)

theorem materializeEdges_eq (nodes : List NodeId) (rawEdges : List RawEdge) :
    PlannerSnapshot.materializeEdges nodes rawEdges =
      SortedGroups.heads edgeKey (rawEdges.filterMap (convertEdge nodes)) := rfl

theorem convertEdge_eq_some {nodes : List NodeId} {raw : RawEdge} {edge : MaterializedEdge} :
    convertEdge nodes raw = some edge ↔
      nodes.idxOf? raw.source = some edge.sourceIdx ∧
        nodes.idxOf? raw.target = some edge.targetIdx ∧ edge.classification = .of raw.kind ∧
          edge.rawKind = raw.kind ∧ edge.depth = raw.depth := by
  rw [convertEdge]
  cases hsource : nodes.idxOf? raw.source with
  | none => simp
  | some sourceIdx =>
    cases htarget : nodes.idxOf? raw.target with
    | none => simp
    | some targetIdx =>
      obtain ⟨i, j, classification, rawKind, depth⟩ := edge
      simp only [Option.some.injEq, MaterializedEdge.mk.injEq]
      constructor
      · rintro ⟨rfl, rfl, rfl, rfl, rfl⟩
        exact ⟨rfl, rfl, rfl, rfl, rfl⟩
      · rintro ⟨rfl, rfl, rfl, rfl, rfl⟩
        exact ⟨rfl, rfl, rfl, rfl, rfl⟩

end Materialized

section Reference
variable (s : PlannerSnapshot) (config : TraversalConfig) (seeds : List NodeId)

def IsLive (node : NodeId) : Prop := (s.nodes.get node).isSome = true

instance (node : NodeId) : Decidable (IsLive s node) := inferInstanceAs (Decidable (_ = true))

/-- Fewer than `bound` accepted edges lead to the node from a seed. -/
def CloserThan (bound : Nat) (node : NodeId) : Prop := Closer (Joined s config) seeds bound node

def InReach (node : NodeId) : Prop :=
  IsLive s node ∧ CloserThan s config seeds (config.limits.maxDepth + 1) node

/-- An accepted edge, listed in the direction of the traversal for a node that is closer than the
depth, with both ends among the nodes the traversal is for. -/
def InReachEdge (edge : StoreEdgeRef) : Prop :=
  (∃ node, CloserThan s config seeds config.limits.maxDepth node ∧
    edge ∈ s.collectEdges node config.direction) ∧
  config.edgeFilter.acceptsKind edge.kind = true ∧ InReach s config seeds edge.source ∧
    InReach s config seeds edge.target

structure IsReference (result : TraversalResult) : Prop where
  nodes_iff : ∀ node, node ∈ result.nodes ↔ InReach s config seeds node
  nodes_once : result.nodes.Nodup
  nodes_ordered : result.nodes.Pairwise fun a b => ∀ bound,
    CloserThan s config seeds bound b → CloserThan s config seeds bound a
  edges_sound : ∀ edge ∈ result.edges, ∃ listed, InReachEdge s config seeds listed ∧
    result.nodes[edge.sourceIdx]? = some listed.source ∧
    result.nodes[edge.targetIdx]? = some listed.target ∧
    edge.classification = .of listed.kind ∧ edge.rawKind = listed.kind
  edges_complete : ∀ listed, InReachEdge s config seeds listed → ∃ edge ∈ result.edges,
    result.nodes[edge.sourceIdx]? = some listed.source ∧
    result.nodes[edge.targetIdx]? = some listed.target ∧ edge.classification = .of listed.kind
  edges_once : (result.edges.map edgeKey).Nodup
  maxDepthReached_iff : result.metadata.maxDepthReached = true ↔
    ∃ node, CloserThan s config seeds (config.limits.maxDepth + 1) node ∧
      ¬CloserThan s config seeds config.limits.maxDepth node
  edges_lt : ∀ edge ∈ result.edges,
    edge.sourceIdx < result.nodes.length ∧ edge.targetIdx < result.nodes.length
  paths_lt : ∀ paths ∈ result.paths, ∀ path ∈ paths, ∀ i ∈ path, i < result.nodes.length

def listedKey (edge : StoreEdgeRef) : NodeId × NodeId × EdgeClassification :=
  (edge.source, edge.target, .of edge.kind)

def listedKeys : List (NodeId × NodeId × EdgeClassification) :=
  (before (nexts s config) seeds config.limits.maxDepth).flatMap fun node =>
    (s.acceptedEdges config.direction config.edgeFilter node).map listedKey

end Reference

section Exact
variable {s : PlannerSnapshot} {config : TraversalConfig} {seeds : List NodeId}

theorem step_eq_joined : (fun a b => b ∈ nexts s config a) = Joined s config := by
  funext a b
  exact propext mem_nexts

theorem mem_before_iff {bound : Nat} {node : NodeId} :
    node ∈ before (nexts s config) seeds bound ↔ CloserThan s config seeds bound node := by
  rw [LevelSearch.mem_before, step_eq_joined]
  rfl

theorem before_pairwise (bound : Nat) :
    (before (nexts s config) seeds bound).Pairwise fun a b => ∀ k,
      CloserThan s config seeds k b → CloserThan s config seeds k a := by
  have hordered := @LevelSearch.before_ordered _ _ (nexts s config) seeds bound
  rw [step_eq_joined] at hordered
  exact hordered

instance (bound : Nat) (node : NodeId) : Decidable (CloserThan s config seeds bound node) :=
  decidable_of_iff _ mem_before_iff

instance (node : NodeId) : Decidable (InReach s config seeds node) :=
  inferInstanceAs (Decidable (_ ∧ _))

/-- Every live node in reach has a name to show, and the edges in reach with the same ends and
the same class are listed one after the other. -/
def ListedInRuns (s : PlannerSnapshot) (config : TraversalConfig) (seeds : List NodeId) : Prop :=
  (∀ node, InReach s config seeds node → s.materializes node = true) ∧
    SortedGroups.InRuns ((listedKeys s config seeds).filter fun key =>
      InReach s config seeds key.1 ∧ InReach s config seeds key.2.1)

theorem isLive_of_materializes {node : NodeId} (h : s.materializes node = true) :
    IsLive s node := by
  rw [PlannerSnapshot.materializes] at h
  rw [IsLive]
  cases hget : s.nodes.get node with
  | none =>
    rw [hget] at h
    cases h
  | some entry => rfl

def shown (s : PlannerSnapshot) (config : TraversalConfig) (seeds : List NodeId) : List NodeId :=
  (before (nexts s config) seeds (config.limits.maxDepth + 1)).filter s.materializes

theorem nodup_shown : (shown s config seeds).Nodup :=
  (LevelSearch.nodup_before seeds _).filter _

theorem mem_shown {node : NodeId} :
    node ∈ shown s config seeds ↔ InReach s config seeds node ∧ s.materializes node = true := by
  rw [shown, List.mem_filter, mem_before_iff]
  constructor
  · exact fun h => ⟨⟨isLive_of_materializes h.2, h.1⟩, h.2⟩
  · exact fun h => ⟨h.1.2, h.2⟩

def met (s : PlannerSnapshot) (config : TraversalConfig) (seeds : List NodeId) : List RawEdge :=
  layerEdges s config config.limits.maxDepth 0 (fresh [] seeds) (fresh [] seeds)

def rawKey (raw : RawEdge) : NodeId × NodeId × EdgeClassification :=
  (raw.source, raw.target, .of raw.kind)

theorem map_rawKey_met : (met s config seeds).map rawKey = listedKeys s config seeds := by
  rw [met, layerEdges, listedKeys, before, List.map_flatMap, List.flatMap_assoc]
  refine List.flatMap_congr fun k _ => ?_
  rw [edgesMet, List.map_flatMap]
  refine List.flatMap_congr fun node _ => ?_
  rw [List.map_map]
  rfl

theorem mem_met {raw : RawEdge} (h : raw ∈ met s config seeds) : ∃ node listed,
    CloserThan s config seeds config.limits.maxDepth node ∧
      listed ∈ s.acceptedEdges config.direction config.edgeFilter node ∧
        raw.source = listed.source ∧ raw.target = listed.target ∧ raw.kind = listed.kind := by
  obtain ⟨k, hk, hraw⟩ := List.mem_flatMap.mp h
  obtain ⟨node, hnode, hraw⟩ := List.mem_flatMap.mp hraw
  obtain ⟨listed, hlisted, rfl⟩ := List.mem_map.mp hraw
  refine ⟨node, listed, mem_before_iff.mp ?_, hlisted, rfl, rfl, rfl⟩
  exact List.mem_flatMap.mpr ⟨k, hk, hnode⟩

theorem exists_mem_met {node : NodeId} {listed : StoreEdgeRef}
    (hnode : CloserThan s config seeds config.limits.maxDepth node)
    (hlisted : listed ∈ s.acceptedEdges config.direction config.edgeFilter node) :
    ∃ raw ∈ met s config seeds,
      raw.source = listed.source ∧ raw.target = listed.target ∧ raw.kind = listed.kind := by
  obtain ⟨k, hk, hmem⟩ := List.mem_flatMap.mp (mem_before_iff.mpr hnode)
  refine ⟨rawEdge (0 + k) listed, ?_, rfl, rfl, rfl⟩
  exact List.mem_flatMap.mpr ⟨k, hk, List.mem_flatMap.mpr
    ⟨node, hmem, List.mem_map.mpr ⟨listed, hlisted, rfl⟩⟩⟩

def indexKey (nodes : List NodeId) (key : NodeId × NodeId × EdgeClassification) :
    Option (Nat × Nat × EdgeClassification) :=
  match nodes.idxOf? key.1, nodes.idxOf? key.2.1 with
  | some sourceIdx, some targetIdx => some (sourceIdx, targetIdx, key.2.2)
  | _, _ => none

theorem map_edgeKey_convertEdge (nodes : List NodeId) (rawEdges : List RawEdge) :
    (rawEdges.filterMap (convertEdge nodes)).map edgeKey =
      (rawEdges.map rawKey).filterMap (indexKey nodes) := by
  rw [List.map_filterMap, List.filterMap_map]
  refine List.filterMap_congr fun raw _ => ?_
  simp only [Function.comp_apply, convertEdge, indexKey, rawKey]
  cases nodes.idxOf? raw.source with
  | none => rfl
  | some sourceIdx =>
    cases nodes.idxOf? raw.target with
    | none => rfl
    | some targetIdx => rfl

theorem isSome_indexKey {nodes : List NodeId} {key : NodeId × NodeId × EdgeClassification} :
    (indexKey nodes key).isSome = true ↔ key.1 ∈ nodes ∧ key.2.1 ∈ nodes := by
  have hsource := @List.isSome_idxOf? _ _ _ nodes key.1
  have htarget := @List.isSome_idxOf? _ _ _ nodes key.2.1
  rw [← hsource, ← htarget, indexKey]
  cases nodes.idxOf? key.1 with
  | none => simp
  | some sourceIdx =>
    cases nodes.idxOf? key.2.1 with
    | none => simp
    | some targetIdx => simp

theorem indexKey_inj {nodes : List NodeId} {key key' : NodeId × NodeId × EdgeClassification}
    {index : Nat × Nat × EdgeClassification} (h : indexKey nodes key = some index)
    (h' : indexKey nodes key' = some index) : key = key' := by
  have hparts : ∀ k, indexKey nodes k = some index → nodes[index.1]? = some k.1 ∧
      nodes[index.2.1]? = some k.2.1 ∧ index.2.2 = k.2.2 := by
    intro k hk
    rw [indexKey] at hk
    cases hsource : nodes.idxOf? k.1 with
    | none => simp [hsource] at hk
    | some i =>
      cases htarget : nodes.idxOf? k.2.1 with
      | none => simp [hsource, htarget] at hk
      | some j =>
        simp only [hsource, htarget, Option.some.injEq] at hk
        subst hk
        exact ⟨getElem?_of_idxOf? hsource, getElem?_of_idxOf? htarget, rfl⟩
  obtain ⟨hsource, htarget, hclass⟩ := hparts key h
  obtain ⟨hsource', htarget', hclass'⟩ := hparts key' h'
  refine Prod.ext ?_ (Prod.ext ?_ (hclass.symm.trans hclass'))
  · exact Option.some.inj (hsource.symm.trans hsource')
  · exact Option.some.inj (htarget.symm.trans htarget')

theorem edges_once_iff :
    ((PlannerSnapshot.materializeEdges (shown s config seeds) (met s config seeds)).map
        edgeKey).Nodup ↔
      SortedGroups.InRuns ((listedKeys s config seeds).filter fun key =>
        key.1 ∈ shown s config seeds ∧ key.2.1 ∈ shown s config seeds) := by
  rw [materializeEdges_eq, SortedGroups.nodup_heads_iff, map_edgeKey_convertEdge, map_rawKey_met,
    SortedGroups.inRuns_filterMap fun a b c => indexKey_inj]
  refine Eq.to_iff (congrArg _ (List.filter_congr fun key _ => ?_))
  rw [Bool.eq_iff_iff, isSome_indexKey, decide_eq_true_iff]

def outcome (s : PlannerSnapshot) (config : TraversalConfig) (seeds : List NodeId) :
    TraversalResult :=
  materializeResult s (before (nexts s config) seeds (config.limits.maxDepth + 1))
    (met s config seeds) none none
    (!(layer (nexts s config) config.limits.maxDepth (fresh [] seeds) (fresh [] seeds)).isEmpty)
    seeds.length (before (nexts s config) seeds (config.limits.maxDepth + 1)).length

theorem nodes_outcome : (outcome s config seeds).nodes = shown s config seeds :=
  materializeNodes_eq (LevelSearch.nodup_before seeds _)

theorem edges_outcome : (outcome s config seeds).edges =
    PlannerSnapshot.materializeEdges (shown s config seeds) (met s config seeds) := by
  rw [← nodes_outcome]
  rfl

theorem listed_of_mem_edges {edge : MaterializedEdge}
    (h : edge ∈ (outcome s config seeds).edges) : ∃ listed, InReachEdge s config seeds listed ∧
      (shown s config seeds)[edge.sourceIdx]? = some listed.source ∧
      (shown s config seeds)[edge.targetIdx]? = some listed.target ∧
      edge.classification = .of listed.kind ∧ edge.rawKind = listed.kind := by
  rw [edges_outcome, materializeEdges_eq] at h
  obtain ⟨raw, hraw, hconvert⟩ :=
    List.mem_filterMap.mp ((SortedGroups.heads_sublist _).subset h)
  obtain ⟨hsource, htarget, hclass, hkind, -⟩ := convertEdge_eq_some.mp hconvert
  obtain ⟨node, listed, hnode, hlisted, heqSource, heqTarget, heqKind⟩ := mem_met hraw
  obtain ⟨hmem, haccept⟩ := List.mem_filter.mp hlisted
  have hsource' := getElem?_of_idxOf? hsource
  have htarget' := getElem?_of_idxOf? htarget
  rw [heqSource] at hsource'
  rw [heqTarget] at htarget'
  refine ⟨listed, ⟨⟨node, hnode, hmem⟩, haccept, ?_, ?_⟩, hsource', htarget', ?_, ?_⟩
  · exact (mem_shown.mp (List.mem_of_getElem? hsource')).1
  · exact (mem_shown.mp (List.mem_of_getElem? htarget')).1
  · rw [hclass, heqKind]
  · rw [hkind, heqKind]

theorem exists_mem_edges {listed : StoreEdgeRef} (h : InReachEdge s config seeds listed)
    (hsource : listed.source ∈ shown s config seeds)
    (htarget : listed.target ∈ shown s config seeds) :
    ∃ edge ∈ (outcome s config seeds).edges,
      (shown s config seeds)[edge.sourceIdx]? = some listed.source ∧
      (shown s config seeds)[edge.targetIdx]? = some listed.target ∧
      edge.classification = .of listed.kind := by
  obtain ⟨⟨node, hnode, hmem⟩, haccept, -, -⟩ := h
  obtain ⟨raw, hraw, heqSource, heqTarget, heqKind⟩ :=
    exists_mem_met hnode (List.mem_filter.mpr ⟨hmem, haccept⟩)
  obtain ⟨i, hi⟩ := Option.isSome_iff_exists.mp (List.isSome_idxOf?.mpr hsource)
  obtain ⟨j, hj⟩ := Option.isSome_iff_exists.mp (List.isSome_idxOf?.mpr htarget)
  have hconvert : convertEdge (shown s config seeds) raw =
      some ⟨i, j, .of raw.kind, raw.kind, raw.depth⟩ :=
    convertEdge_eq_some.mpr ⟨heqSource ▸ hi, heqTarget ▸ hj, rfl, rfl, rfl⟩
  obtain ⟨edge, hedge, hkey⟩ := @SortedGroups.exists_mem_heads _ _ _ edgeKey _ _
    (List.mem_filterMap.mpr ⟨raw, hraw, hconvert⟩)
  simp only [edgeKey, Prod.mk.injEq] at hkey
  obtain ⟨hi', hj', hclass⟩ := hkey
  refine ⟨edge, ?_, ?_, ?_, ?_⟩
  · rw [edges_outcome]
    exact hedge
  · rw [hi']
    exact getElem?_of_idxOf? hi
  · rw [hj']
    exact getElem?_of_idxOf? hj
  · rw [hclass, heqKind]

theorem maxDepthReached_outcome : (outcome s config seeds).metadata.maxDepthReached = true ↔
    ∃ node, CloserThan s config seeds (config.limits.maxDepth + 1) node ∧
      ¬CloserThan s config seeds config.limits.maxDepth node := by
  have hlayer : ∀ node, node ∈ layer (nexts s config) config.limits.maxDepth (fresh [] seeds)
      (fresh [] seeds) ↔ CloserThan s config seeds (config.limits.maxDepth + 1) node ∧
        ¬CloserThan s config seeds config.limits.maxDepth node := by
    intro node
    rw [LevelSearch.mem_layer, step_eq_joined]
    rfl
  simp only [outcome, materializeResult, Bool.not_eq_true', List.isEmpty_eq_false_iff_exists_mem,
    hlayer]

/-- The search equals its reference just when every node in reach has a name and the keys of the
edges in reach are listed in runs. -/
theorem isReference_outcome :
    IsReference s config seeds (outcome s config seeds) ↔ ListedInRuns s config seeds := by
  have hfilter : (∀ node, InReach s config seeds node → s.materializes node = true) →
      ((listedKeys s config seeds).filter fun key =>
        key.1 ∈ shown s config seeds ∧ key.2.1 ∈ shown s config seeds) =
      (listedKeys s config seeds).filter fun key =>
        InReach s config seeds key.1 ∧ InReach s config seeds key.2.1 := by
    intro hnames
    have hiff : ∀ node, node ∈ shown s config seeds ↔ InReach s config seeds node := fun node =>
      mem_shown.trans ⟨fun h => h.1, fun h => ⟨h, hnames node h⟩⟩
    exact List.filter_congr fun key _ => by simp only [hiff]
  constructor
  · intro h
    have hnames : ∀ node, InReach s config seeds node → s.materializes node = true := by
      intro node hnode
      have hmem := (h.nodes_iff node).mpr hnode
      rw [nodes_outcome] at hmem
      exact (mem_shown.mp hmem).2
    refine ⟨hnames, ?_⟩
    have honce := h.edges_once
    rw [edges_outcome, edges_once_iff, hfilter hnames] at honce
    exact honce
  · rintro ⟨hnames, hruns⟩
    have hiff : ∀ node, node ∈ shown s config seeds ↔ InReach s config seeds node := fun node =>
      mem_shown.trans ⟨fun h => h.1, fun h => ⟨h, hnames node h⟩⟩
    refine
      { nodes_iff := fun node => ?_
        nodes_once := ?_
        nodes_ordered := ?_
        edges_sound := fun edge hedge => ?_
        edges_complete := fun listed hlisted => ?_
        edges_once := ?_
        maxDepthReached_iff := maxDepthReached_outcome
        edges_lt := fun edge hedge => ?_
        paths_lt := fun paths hpaths => ?_ }
    · rw [nodes_outcome, hiff]
    · rw [nodes_outcome]
      exact nodup_shown
    · rw [nodes_outcome]
      exact (before_pairwise _).filter _
    · rw [nodes_outcome]
      exact listed_of_mem_edges hedge
    · rw [nodes_outcome]
      exact exists_mem_edges hlisted ((hiff _).mpr hlisted.2.2.1) ((hiff _).mpr hlisted.2.2.2)
    · rw [edges_outcome, edges_once_iff, hfilter hnames]
      exact hruns
    · obtain ⟨listed, -, hsource, htarget, -⟩ := listed_of_mem_edges hedge
      rw [nodes_outcome]
      exact ⟨(List.getElem?_eq_some_iff.mp hsource).1, (List.getElem?_eq_some_iff.mp htarget).1⟩
    · cases hpaths

end Exact

/-- With enough fuel the default traversal answers, and it equals its reference just when the
edges are listed in runs of equal keys, and every node in reach has a name. -/
theorem traverse_isReference_iff (s : PlannerSnapshot) (seeds : List NodeId)
    (direction : TraversalDirection) (edgeFilter : EdgeFilter) (maxDepth : Nat)
    (maxPaths : Option Nat) : ∃ result,
      (∃ least, ∀ fuel, least ≤ fuel →
        traverse s fuel seeds ⟨direction, edgeFilter, maxDepth, none, none, maxPaths⟩ none =
          some result) ∧
      (IsReference s ⟨direction, edgeFilter, maxDepth, none, none, maxPaths⟩ seeds result ↔
        ListedInRuns s ⟨direction, edgeFilter, maxDepth, none, none, maxPaths⟩ seeds) := by
  refine ⟨outcome s ⟨direction, edgeFilter, maxDepth, none, none, maxPaths⟩ seeds, ?_,
    isReference_outcome⟩
  exact @runStandardBfs_eq s ⟨direction, edgeFilter, maxDepth, none, none, maxPaths⟩ ⟨rfl, rfl⟩
    seeds

section Rules
variable {s : PlannerSnapshot} {config : TraversalConfig}

theorem layerEdges_nil (left depth : Nat) (marked : List NodeId) :
    layerEdges s config left depth [] marked = [] := by
  induction left generalizing depth marked with
  | zero => rfl
  | succ left ih =>
    rw [layerEdges_succ]
    exact ih (depth + 1) _

theorem levelEdges_eq (left depth : Nat) (frontier visited : List NodeId) :
    s.levelEdges config.direction config.edgeFilter left depth frontier visited =
      layerEdges s config left depth frontier visited := by
  induction left generalizing depth frontier visited with
  | zero => rfl
  | succ left ih =>
    have hnexts : s.acceptedNeighbors config.direction config.edgeFilter = nexts s config := rfl
    rw [PlannerSnapshot.levelEdges, layerEdges_succ, newNodes_eq_fresh, hnexts]
    cases hfound : fresh visited (frontier.flatMap (nexts s config)) with
    | nil =>
      rw [layerEdges_nil, List.append_nil]
      rfl
    | cons node found => exact congrArg _ (ih (depth + 1) (node :: found) _)

theorem engine_traverse_eq (seeds : List NodeId) :
    s.traverse seeds config.direction config.edgeFilter config.limits.maxDepth =
      ⟨(outcome s config seeds).nodes, (outcome s config seeds).edges⟩ := by
  rw [edges_outcome, nodes_outcome, PlannerSnapshot.traverse, PlannerSnapshot.discovered,
    newNodes_eq_fresh, traverseLevels_eq_levels, levelEdges_eq]
  rw [shown, LevelSearch.before_eq_levels]
  rfl

end Rules

def twoCallees : PlannerSnapshot :=
  functionGraph 3 [(0, 1, .calls 0 false .direct), (0, 2, .calls 0 false .direct)]

/-- Both calls are met again at the callees, so both stay twice. -/
theorem twoCallees_duplicates : ∃ result,
    traverse twoCallees 3 [function 0] ⟨.both, EdgeFilter.all, 2, none, none, none⟩ none =
      some result ∧
    ¬IsReference twoCallees ⟨.both, EdgeFilter.all, 2, none, none, none⟩ [function 0] result := by
  have hkeys : (traverse twoCallees 3 [function 0] ⟨.both, EdgeFilter.all, 2, none, none, none⟩
      none).map (fun result => result.edges.map edgeKey) =
        some [(0, 1, .call false false), (0, 2, .call false false), (0, 1, .call false false),
          (0, 2, .call false false)] := by
    decide +kernel
  obtain ⟨result, hresult, hedges⟩ := Option.map_eq_some_iff.mp hkeys
  refine ⟨result, hresult, fun h => ?_⟩
  have honce := h.edges_once
  rw [hedges] at honce
  exact absurd honce (by decide)

end Kernel
end Sqry
