import Sqry.Traverse.Kernel

/-!
The breadth-first search without limits. It goes through the layers of the graph, and meets the
edges of every node above the last layer.
-/

namespace Sqry
namespace Kernel

open LevelSearch (fresh levels layer before Closer)
open TreeSearch (limitReached)

def Joined (s : PlannerSnapshot) (config : TraversalConfig) (a b : NodeId) : Prop :=
  ∃ edge ∈ s.collectEdges a config.direction, config.edgeFilter.acceptsKind edge.kind = true ∧
    PlannerSnapshot.neighborOf edge a = b

section Loop
variable {s : PlannerSnapshot} {config : TraversalConfig}

def nexts (s : PlannerSnapshot) (config : TraversalConfig) (node : NodeId) : List NodeId :=
  s.acceptedNeighbors config.direction config.edgeFilter node

theorem mem_nexts {a b : NodeId} : b ∈ nexts s config a ↔ Joined s config a b := by
  simp only [nexts, PlannerSnapshot.acceptedNeighbors, PlannerSnapshot.acceptedEdges,
    List.mem_map, List.mem_filter, Joined]
  exact exists_congr fun edge => and_assoc

def rawEdge (depth : Nat) (edge : StoreEdgeRef) : RawEdge :=
  ⟨edge.source, edge.target, edge.kind, depth + 1⟩

def edgesMet (s : PlannerSnapshot) (config : TraversalConfig) (depth : Nat)
    (nodes : List NodeId) : List RawEdge :=
  nodes.flatMap fun node =>
    (s.acceptedEdges config.direction config.edgeFilter node).map (rawEdge depth)

def layerEdges (s : PlannerSnapshot) (config : TraversalConfig) (left depth : Nat)
    (frontier marked : List NodeId) : List RawEdge :=
  (List.range left).flatMap fun k =>
    edgesMet s config (depth + k) (layer (nexts s config) k frontier marked)

theorem layerEdges_succ (left depth : Nat) (frontier marked : List NodeId) :
    layerEdges s config (left + 1) depth frontier marked =
      edgesMet s config depth frontier ++
        layerEdges s config left (depth + 1)
          (fresh marked (frontier.flatMap (nexts s config)))
          (fresh marked (frontier.flatMap (nexts s config)) ++ marked) := by
  rw [layerEdges, List.range_succ_eq_map, List.flatMap_cons, List.flatMap_map]
  refine congrArg (edgesMet s config depth frontier ++ ·) (List.flatMap_congr fun k _ => ?_)
  rw [Nat.succ_eq_add_one, Nat.add_right_comm, Nat.add_assoc]
  rfl

theorem layerEdges_congr {left depth : Nat} {frontier marked marked' : List NodeId}
    (h : ∀ node, node ∈ marked ↔ node ∈ marked') :
    layerEdges s config left depth frontier marked =
      layerEdges s config left depth frontier marked' :=
  List.flatMap_congr fun k _ =>
    congrArg (edgesMet s config (depth + k)) (LevelSearch.layer_congr h)

def Unlimited (config : TraversalConfig) : Prop :=
  config.limits.maxNodes = none ∧ config.limits.maxEdges = none

namespace StandardBfs

def found (st : StandardBfs) (visited : List NodeId) (depth : Nat) (raws : List RawEdge)
    (nodes : List NodeId) : StandardBfs :=
  { st with
    visited := visited
    queue := st.queue ++ nodes.map fun node => (node, depth + 1)
    rawEdges := st.rawEdges ++ raws
    discoveredOrder := st.discoveredOrder ++ nodes }

def popped (st : StandardBfs) (queue : List (NodeId × Nat)) (count : Nat) : StandardBfs :=
  { st with queue := queue, nodesVisited := st.nodesVisited + count }

theorem found_found (st : StandardBfs) (visited visited' : List NodeId) (depth : Nat)
    (raws raws' : List RawEdge) (nodes nodes' : List NodeId) :
    (st.found visited depth raws nodes).found visited' depth raws' nodes' =
      st.found visited' depth (raws ++ raws') (nodes ++ nodes') := by
  simp only [found, List.map_append, List.append_assoc]

theorem visitEdge_rejected (hlimits : Unlimited config) {edge : StoreEdgeRef}
    (h : ¬config.edgeFilter.acceptsKind edge.kind = true) (current : NodeId) (depth : Nat)
    (st : StandardBfs) :
    visitEdge config defaultStrategy current depth st edge = .ok st := by
  simp [visitEdge, limitReached, hlimits.2, h]

theorem visitEdge_accepted (hlimits : Unlimited config) {edge : StoreEdgeRef}
    (h : config.edgeFilter.acceptsKind edge.kind = true) (current : NodeId) (depth : Nat)
    (st : StandardBfs) :
    visitEdge config defaultStrategy current depth st edge =
      .ok (if PlannerSnapshot.neighborOf edge current ∈ st.visited then
          st.found st.visited depth [rawEdge depth edge] []
        else
          st.found (PlannerSnapshot.neighborOf edge current :: st.visited) depth
            [rawEdge depth edge] [PlannerSnapshot.neighborOf edge current]) := by
  by_cases hvisited : PlannerSnapshot.neighborOf edge current ∈ st.visited
  · simp [visitEdge, limitReached, hlimits.2, h, defaultStrategy, hvisited, rawEdge, found]
  · simp [visitEdge, limitReached, hlimits.1, hlimits.2, h, defaultStrategy, hvisited, rawEdge,
      found]

theorem foldlM_visitEdge (hlimits : Unlimited config) (current : NodeId) (depth : Nat)
    (edges : List StoreEdgeRef) (st : StandardBfs) : ∃ visited,
    edges.foldlM (visitEdge config defaultStrategy current depth) st =
      .ok (st.found visited depth
        ((edges.filter fun edge => config.edgeFilter.acceptsKind edge.kind).map (rawEdge depth))
        (fresh st.visited
          ((edges.filter fun edge => config.edgeFilter.acceptsKind edge.kind).map fun edge =>
            PlannerSnapshot.neighborOf edge current))) ∧
      ∀ node, node ∈ visited ↔ node ∈ fresh st.visited
          ((edges.filter fun edge => config.edgeFilter.acceptsKind edge.kind).map fun edge =>
            PlannerSnapshot.neighborOf edge current) ++ st.visited := by
  induction edges generalizing st with
  | nil =>
    refine ⟨st.visited, ?_, fun node => Iff.rfl⟩
    simp [found, fresh, pure, Except.pure]
  | cons edge edges ih =>
    rw [List.foldlM_cons, List.filter_cons]
    by_cases haccept : config.edgeFilter.acceptsKind edge.kind = true
    · rw [visitEdge_accepted hlimits haccept, if_pos haccept, List.map_cons, List.map_cons,
        fresh]
      by_cases hvisited : PlannerSnapshot.neighborOf edge current ∈ st.visited
      · rw [if_pos hvisited, if_pos hvisited]
        obtain ⟨visited, heq, hmem⟩ := ih (st.found st.visited depth [rawEdge depth edge] [])
        rw [found_found] at heq
        exact ⟨visited, heq, hmem⟩
      · rw [if_neg hvisited, if_neg hvisited]
        obtain ⟨visited, heq, hmem⟩ := ih (st.found
          (PlannerSnapshot.neighborOf edge current :: st.visited) depth [rawEdge depth edge]
          [PlannerSnapshot.neighborOf edge current])
        rw [found_found] at heq
        refine ⟨visited, heq, fun node => ?_⟩
        rw [hmem]
        simp only [found, List.mem_append, List.mem_cons]
        exact or_left_comm.trans or_assoc.symm
    · rw [visitEdge_rejected hlimits haccept, if_neg haccept]
      exact ih st

theorem run_pop (hlimits : Unlimited config) {depth : Nat}
    (hdepth : depth < config.limits.maxDepth) (current : NodeId) (queue : List (NodeId × Nat))
    (st : StandardBfs) (fuel : Nat) :
    run s config defaultStrategy (fuel + 1) (st.popped ((current, depth) :: queue) 0) =
      match (s.collectEdges current config.direction).foldlM
          (visitEdge config defaultStrategy current depth) (st.popped queue 1) with
      | .error st => some st
      | .ok st => run s config defaultStrategy fuel st := by
  rw [run]
  simp only [popped]
  rw [if_neg (Nat.not_le.mpr hdepth), hlimits.1]
  rfl

theorem run_frontier (hlimits : Unlimited config) {depth : Nat}
    (hdepth : depth < config.limits.maxDepth) (frontier : List NodeId)
    (later : List (NodeId × Nat)) (st : StandardBfs) : ∃ visited,
    (∀ fuel, run s config defaultStrategy (frontier.length + fuel)
        (st.popped (frontier.map (fun a => (a, depth)) ++ later) 0) =
      run s config defaultStrategy fuel ((st.popped later frontier.length).found visited depth
        (edgesMet s config depth frontier)
        (fresh st.visited (frontier.flatMap (nexts s config))))) ∧
      ∀ node, node ∈ visited ↔
        node ∈ fresh st.visited (frontier.flatMap (nexts s config)) ++ st.visited := by
  induction frontier generalizing later st with
  | nil =>
    refine ⟨st.visited, fun fuel => ?_, fun node => Iff.rfl⟩
    simp [found, popped, fresh, edgesMet]
  | cons current frontier ih =>
    obtain ⟨visited₁, hvisit, hmem₁⟩ := @foldlM_visitEdge config hlimits current depth
      (s.collectEdges current config.direction)
      (st.popped (frontier.map (fun a => (a, depth)) ++ later) 1)
    obtain ⟨visited₂, hrun, hmem₂⟩ := ih
      (later ++ (fresh st.visited (nexts s config current)).map fun a => (a, depth + 1))
      ((st.popped [] 1).found visited₁ depth (edgesMet s config depth [current])
        (fresh st.visited (nexts s config current)))
    have hfresh : fresh st.visited ((current :: frontier).flatMap (nexts s config)) =
        fresh st.visited (nexts s config current) ++
          fresh visited₁ (frontier.flatMap (nexts s config)) := by
      rw [List.flatMap_cons, LevelSearch.fresh_append]
      exact congrArg _ (LevelSearch.fresh_congr (fun a => (hmem₁ a).symm) _)
    refine ⟨visited₂, fun fuel => ?_, fun node => ?_⟩
    · have hstep := @run_pop s config hlimits depth hdepth current
        (frontier.map (fun a => (a, depth)) ++ later) st (frontier.length + fuel)
      rw [hvisit] at hstep
      rw [List.length_cons, Nat.add_right_comm]
      refine hstep.trans (Eq.trans (congrArg (run s config defaultStrategy _) ?_)
        ((hrun fuel).trans (congrArg (run s config defaultStrategy fuel) ?_)))
      · simp [found, popped, edgesMet, nexts, PlannerSnapshot.acceptedNeighbors,
          PlannerSnapshot.acceptedEdges]
      · rw [hfresh]
        simp [found, popped, edgesMet, Nat.add_comm, Nat.add_left_comm]
    · have hvisited : ∀ a, a ∈ visited₁ ↔
          a ∈ fresh st.visited (nexts s config current) ++ st.visited := hmem₁
      rw [hmem₂, hfresh]
      simp only [found, List.mem_append, hvisited]
      exact or_left_comm.trans or_assoc.symm

theorem run_bottom {depth : Nat} (hdepth : config.limits.maxDepth ≤ depth)
    (frontier : List NodeId) (st : StandardBfs) (fuel : Nat) :
    run s config defaultStrategy (frontier.length + fuel)
        (st.popped (frontier.map fun a => (a, depth)) 0) =
      some { st.popped [] frontier.length with
        maxDepthReached := st.maxDepthReached || !frontier.isEmpty } := by
  induction frontier generalizing st with
  | nil => cases fuel <;> simp [run, popped]
  | cons current frontier ih =>
    have hrest := ih { st.popped [] 1 with maxDepthReached := true }
    rw [List.length_cons, Nat.add_right_comm, run]
    simp only [popped, List.map_cons]
    rw [if_pos hdepth]
    refine Eq.trans ?_ (hrest.trans (congrArg some ?_))
    · simp [popped]
    · simp [popped, Nat.add_comm, Nat.add_left_comm]

theorem run_layers (hlimits : Unlimited config) (left depth : Nat)
    (hdepth : depth + left = config.limits.maxDepth) (frontier : List NodeId) (st : StandardBfs) :
    ∃ visited least, ∀ fuel, least ≤ fuel →
      run s config defaultStrategy fuel (st.popped (frontier.map fun a => (a, depth)) 0) =
        some
          { visited := visited
            queue := []
            rawEdges := st.rawEdges ++ layerEdges s config left depth frontier st.visited
            discoveredOrder := st.discoveredOrder ++
              levels (nexts s config) left frontier st.visited
            truncation := st.truncation
            maxDepthReached := st.maxDepthReached ||
              !(layer (nexts s config) left frontier st.visited).isEmpty
            nodesVisited := st.nodesVisited + frontier.length +
              (levels (nexts s config) left frontier st.visited).length } := by
  induction left generalizing depth frontier st with
  | zero =>
    refine ⟨st.visited, frontier.length, fun fuel hfuel => ?_⟩
    obtain ⟨more, rfl⟩ := Nat.exists_eq_add_of_le hfuel
    have hbottom : config.limits.maxDepth ≤ depth := Nat.le_of_eq hdepth.symm
    rw [run_bottom hbottom]
    simp [popped, layerEdges, levels, layer]
  | succ left ih =>
    obtain ⟨visited₁, hrun, hmem⟩ := @run_frontier s config hlimits depth (by omega) frontier []
      st
    obtain ⟨visited₂, least, hleast⟩ := ih (depth + 1) (by omega)
      (fresh st.visited (frontier.flatMap (nexts s config)))
      ((st.popped [] frontier.length).found visited₁ depth (edgesMet s config depth frontier)
        (fresh st.visited (frontier.flatMap (nexts s config))))
    refine ⟨visited₂, frontier.length + least, fun fuel hfuel => ?_⟩
    obtain ⟨more, rfl⟩ := Nat.exists_eq_add_of_le (Nat.le_of_add_right_le hfuel)
    have hstep := hrun more
    rw [List.append_nil] at hstep
    rw [hstep]
    have hmarked : ∀ node, node ∈ visited₁ ↔
        node ∈ fresh st.visited (frontier.flatMap (nexts s config)) ++ st.visited := hmem
    refine Eq.trans (congrArg (run s config defaultStrategy more) ?_)
      ((hleast more (by omega)).trans (congrArg some ?_))
    · simp [found, popped]
    · rw [layerEdges_succ, levels, layer]
      simp only [found, popped, LevelSearch.levels_congr hmarked,
        LevelSearch.layer_congr hmarked, layerEdges_congr hmarked, List.append_assoc,
        List.length_append, Nat.add_assoc]

theorem foldl_seedNode (seeds : List NodeId) (st : StandardBfs) : ∃ visited,
    seeds.foldl seedNode st =
      { st with
        visited := visited
        discoveredOrder := st.discoveredOrder ++ fresh st.visited seeds
        queue := st.queue ++ (fresh st.visited seeds).map fun node => (node, 0) } ∧
      ∀ node, node ∈ visited ↔ node ∈ fresh st.visited seeds ++ st.visited := by
  induction seeds generalizing st with
  | nil =>
    refine ⟨st.visited, ?_, fun node => Iff.rfl⟩
    simp [fresh]
  | cons seed seeds ih =>
    rw [List.foldl_cons, fresh, seedNode]
    by_cases hvisited : seed ∈ st.visited
    · rw [if_pos hvisited, if_pos hvisited]
      exact ih st
    · rw [if_neg hvisited, if_neg hvisited]
      obtain ⟨visited, heq, hmem⟩ := ih { st with
        visited := seed :: st.visited
        discoveredOrder := st.discoveredOrder ++ [seed]
        queue := st.queue ++ [(seed, 0)] }
      refine ⟨visited, heq.trans ?_, fun node => ?_⟩
      · simp only [List.append_assoc, List.singleton_append, List.map_cons]
      · rw [hmem]
        simp only [List.mem_append, List.mem_cons]
        exact or_left_comm.trans or_assoc.symm

end StandardBfs

theorem runStandardBfs_eq (hlimits : Unlimited config) (seeds : List NodeId) :
    ∃ least, ∀ fuel, least ≤ fuel →
      runStandardBfs s config defaultStrategy fuel seeds =
        some (materializeResult s
          (before (nexts s config) seeds (config.limits.maxDepth + 1))
          (layerEdges s config config.limits.maxDepth 0 (fresh [] seeds) (fresh [] seeds)) none none
          (!(layer (nexts s config) config.limits.maxDepth (fresh [] seeds)
            (fresh [] seeds)).isEmpty)
          seeds.length (before (nexts s config) seeds (config.limits.maxDepth + 1)).length) := by
  obtain ⟨visited, hseed, hmem⟩ := StandardBfs.foldl_seedNode seeds ⟨[], [], [], [], none, false, 0⟩
  have hmarked : ∀ node, node ∈ visited ↔ node ∈ fresh [] seeds := by
    intro node
    rw [hmem, List.append_nil]
  obtain ⟨visited', least, hrun⟩ := @StandardBfs.run_layers s config hlimits config.limits.maxDepth
    0 (Nat.zero_add _) (fresh [] seeds) ⟨visited, [], [], fresh [] seeds, none, false, 0⟩
  refine ⟨least, fun fuel hfuel => ?_⟩
  have hseeded : StandardBfs.seed seeds =
      (⟨visited, [], [], fresh [] seeds, none, false, 0⟩ : StandardBfs).popped
        ((fresh [] seeds).map fun node => (node, 0)) 0 := hseed
  rw [runStandardBfs, hseeded, hrun fuel hfuel, LevelSearch.before_eq_levels]
  simp only [Option.map_some, LevelSearch.levels_congr hmarked, LevelSearch.layer_congr hmarked,
    layerEdges_congr hmarked, List.nil_append, Bool.false_or, Nat.zero_add, List.length_append]

end Loop

end Kernel
end Sqry
