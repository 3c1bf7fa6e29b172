import Mathlib.Data.Rat.Init
import Sqry.Lib.LevelSearch
import Sqry.Lib.TreeSearch
import Sqry.Rules.Engine

/-!
The traversal kernel with its limits and strategies. The queue loops run on fuel; they answer
`none` when it runs out. The strategies of the kernel keep no state, so their callbacks are
functions. Of a materialized node only its id is kept.
-/

namespace Sqry
namespace Kernel

open TreeSearch (limitReached)

structure TraversalLimits where
  maxDepth : Nat
  maxNodes : Option Nat
  maxEdges : Option Nat
  maxPaths : Option Nat
  deriving DecidableEq, Repr

structure TraversalConfig where
  direction : TraversalDirection
  edgeFilter : EdgeFilter
  limits : TraversalLimits
  deriving DecidableEq, Repr

inductive FrontierMode where
  | standard | pathEnumeration
  deriving DecidableEq, Repr

inductive VisitedPolicy where
  | global | pathLocal
  deriving DecidableEq, Repr

/-- `onPathComplete` tells whether to break off. -/
structure TraversalStrategy where
  acceptEdge : StoreEdgeRef → Nat → Bool
  shouldEnqueue : NodeId → NodeId → EdgeKind → Nat → Bool
  onPathComplete : List NodeId → Bool
  frontierMode : FrontierMode
  visitedPolicy : VisitedPolicy
  pathTarget : Option NodeId

def defaultStrategy : TraversalStrategy where
  acceptEdge := fun _ _ => true
  shouldEnqueue := fun _ _ _ _ => true
  onPathComplete := fun _ => false
  frontierMode := .standard
  visitedPolicy := .global
  pathTarget := none

inductive TruncationReason where
  | depthLimit | nodeLimit | edgeLimit | pathLimit
  deriving DecidableEq, Repr

structure TraversalMetadata where
  truncation : Option TruncationReason
  maxDepthReached : Bool
  seedCount : Nat
  nodesVisited : Nat
  totalNodes : Nat
  totalEdges : Nat
  deriving DecidableEq, Repr

structure TraversalResult where
  nodes : List NodeId
  edges : List MaterializedEdge
  paths : Option (List (List Nat))
  metadata : TraversalMetadata
  deriving DecidableEq, Repr

theorem getElem?_of_idxOf? {nodes : List NodeId} {node : NodeId} {i : Nat}
    (h : nodes.idxOf? node = some i) : nodes[i]? = some node := by
  obtain ⟨hlt, hget, -⟩ := List.idxOf?_eq_some_iff.mp h
  rw [List.getElem?_eq_getElem hlt, hget]

section Materialize
variable (s : PlannerSnapshot)

def materializeNodes (discoveredOrder : List NodeId) : List NodeId :=
  discoveredOrder.foldl (fun nodes node =>
    if node ∈ nodes then nodes else if s.materializes node then nodes ++ [node] else nodes) []

def convertPath (nodes path : List NodeId) : Option (List Nat) :=
  let converted := path.filterMap fun node => nodes.idxOf? node
  if converted.length = path.length then some converted else none

def materializeResult (discoveredOrder : List NodeId) (rawEdges : List RawEdge)
    (rawPaths : Option (List (List NodeId))) (truncation : Option TruncationReason)
    (maxDepthReached : Bool) (seedCount nodesVisited : Nat) : TraversalResult :=
  let nodes := materializeNodes s discoveredOrder
  let edges := PlannerSnapshot.materializeEdges nodes rawEdges
  { nodes := nodes
    edges := edges
    paths := rawPaths.map fun paths => paths.filterMap (convertPath nodes)
    metadata := ⟨truncation, maxDepthReached, seedCount, nodesVisited, nodes.length,
      edges.length⟩ }

end Materialize

section Standard
variable (s : PlannerSnapshot) (config : TraversalConfig) (strategy : TraversalStrategy)

structure StandardBfs where
  visited : List NodeId
  queue : List (NodeId × Nat)
  rawEdges : List RawEdge
  discoveredOrder : List NodeId
  truncation : Option TruncationReason
  maxDepthReached : Bool
  nodesVisited : Nat

namespace StandardBfs

def seedNode (st : StandardBfs) (node : NodeId) : StandardBfs :=
  if node ∈ st.visited then st
  else
    { st with
      visited := node :: st.visited
      discoveredOrder := st.discoveredOrder ++ [node]
      queue := st.queue ++ [(node, 0)] }

def seed (seeds : List NodeId) : StandardBfs :=
  seeds.foldl seedNode ⟨[], [], [], [], none, false, 0⟩

def visitEdge (current : NodeId) (depth : Nat) (st : StandardBfs) (edge : StoreEdgeRef) :
    Except StandardBfs StandardBfs :=
  if limitReached config.limits.maxEdges st.rawEdges.length then
    .error { st with truncation := some .edgeLimit }
  else if !config.edgeFilter.acceptsKind edge.kind then .ok st
  else if !strategy.acceptEdge edge depth then .ok st
  else
    let next := PlannerSnapshot.neighborOf edge current
    let st := { st with
      rawEdges := st.rawEdges ++ [⟨edge.source, edge.target, edge.kind, depth + 1⟩] }
    if next ∈ st.visited then .ok st
    else
      let st := { st with visited := next :: st.visited }
      if !strategy.shouldEnqueue next current edge.kind (depth + 1) then .ok st
      else if limitReached config.limits.maxNodes st.discoveredOrder.length then
        .error { st with truncation := some .nodeLimit }
      else
        .ok { st with
          discoveredOrder := st.discoveredOrder ++ [next]
          queue := st.queue ++ [(next, depth + 1)] }

def run : Nat → StandardBfs → Option StandardBfs
  | 0, st => if st.queue.isEmpty then some st else none
  | fuel + 1, st =>
    match st.queue with
    | [] => some st
    | (current, depth) :: queue =>
      let st := { st with queue := queue, nodesVisited := st.nodesVisited + 1 }
      if depth ≥ config.limits.maxDepth then run fuel { st with maxDepthReached := true }
      else if limitReached config.limits.maxNodes st.discoveredOrder.length then
        some { st with truncation := some .nodeLimit }
      else
        match (s.collectEdges current config.direction).foldlM
            (visitEdge config strategy current depth) st with
        | .error st => some st
        | .ok st => run fuel st

end StandardBfs

def runStandardBfs (fuel : Nat) (seeds : List NodeId) : Option TraversalResult :=
  (StandardBfs.run s config strategy fuel (.seed seeds)).map fun st =>
    materializeResult s st.discoveredOrder st.rawEdges none st.truncation st.maxDepthReached
      seeds.length st.nodesVisited

end Standard

section Paths
variable (s : PlannerSnapshot) (config : TraversalConfig) (strategy : TraversalStrategy)

structure PathBfs where
  collectedPaths : List (List NodeId)
  discoveredOrder : List NodeId
  rawEdges : List RawEdge
  truncation : Option TruncationReason
  maxDepthReached : Bool
  nodesVisited : Nat
  queue : List (NodeId × List NodeId × Nat)
  globalVisited : List NodeId

namespace PathBfs

/-- `seen` holds just the nodes of `discovered_order`. -/
def discover (st : PathBfs) (node : NodeId) : PathBfs :=
  if node ∈ st.discoveredOrder then st
  else { st with discoveredOrder := st.discoveredOrder ++ [node] }

def seedNode (st : PathBfs) (node : NodeId) : PathBfs :=
  { st.discover node with queue := st.queue ++ [(node, [node], 0)] }

def seed (seeds : List NodeId) : PathBfs :=
  seeds.foldl seedNode
    ⟨[], [], [], none, false, 0, [], if strategy.visitedPolicy = .global then seeds else []⟩

def complete (path : List NodeId) (st : PathBfs) : Except PathBfs PathBfs :=
  let st := path.foldl discover st
  let st := { st with collectedPaths := st.collectedPaths ++ [path] }
  if limitReached config.limits.maxPaths st.collectedPaths.length then
    .error { st with truncation := some .pathLimit }
  else if strategy.onPathComplete path then .error st
  else .ok st

def visitEdge (current : NodeId) (path : List NodeId) (depth : Nat) (st : PathBfs × Bool)
    (edge : StoreEdgeRef) : Except PathBfs (PathBfs × Bool) :=
  let (st, followed) := st
  if limitReached config.limits.maxEdges st.rawEdges.length then
    .error { st with truncation := some .edgeLimit }
  else if !config.edgeFilter.acceptsKind edge.kind then .ok (st, followed)
  else if !strategy.acceptEdge edge depth then .ok (st, followed)
  else
    let next := PlannerSnapshot.neighborOf edge current
    let isGlobal : Bool := strategy.visitedPolicy = .global
    if next ∈ (if isGlobal then st.globalVisited else path) then .ok (st, followed)
    else
      let st : PathBfs :=
        if isGlobal then { st with globalVisited := next :: st.globalVisited } else st
      if !strategy.shouldEnqueue next current edge.kind (depth + 1) then .ok (st, followed)
      else
        let raw : RawEdge := ⟨edge.source, edge.target, edge.kind, depth + 1⟩
        let st : PathBfs := { st with rawEdges := st.rawEdges ++ [raw] }
        if limitReached config.limits.maxNodes st.discoveredOrder.length then
          .error { st with truncation := some .nodeLimit }
        else
          .ok ({ st.discover next with
            queue := st.queue ++ [(next, path ++ [next], depth + 1)] }, true)

def finishLeaf (path : List NodeId) (st : PathBfs) (followed : Bool) : Except PathBfs PathBfs :=
  if strategy.pathTarget = none ∧ !followed ∧ path.length > 1 then
    complete config strategy path st
  else .ok st

def popItem (current : NodeId) (path : List NodeId) (depth : Nat) (st : PathBfs) :
    Except PathBfs PathBfs :=
  if strategy.pathTarget = some current ∧ path.length > 1 then complete config strategy path st
  else if depth ≥ config.limits.maxDepth then .ok { st with maxDepthReached := true }
  else if limitReached config.limits.maxNodes st.discoveredOrder.length then
    .error { st with truncation := some .nodeLimit }
  else
    match (s.collectEdges current config.direction).foldlM
        (visitEdge config strategy current path depth) (st, false) with
    | .error st => .error st
    | .ok (st, followed) => finishLeaf config strategy path st followed

def run : Nat → PathBfs → Option PathBfs
  | 0, st => if st.queue.isEmpty then some st else none
  | fuel + 1, st =>
    match st.queue with
    | [] => some st
    | (current, path, depth) :: queue =>
      match popItem s config strategy current path depth
          { st with queue := queue, nodesVisited := st.nodesVisited + 1 } with
      | .error st => some st
      | .ok st => run fuel st

end PathBfs

def runPathBfs (fuel : Nat) (seeds : List NodeId) : Option TraversalResult :=
  (PathBfs.run s config strategy fuel (.seed strategy seeds)).map fun st =>
    materializeResult s st.discoveredOrder st.rawEdges (some st.collectedPaths) st.truncation
      st.maxDepthReached seeds.length st.nodesVisited

end Paths

def traverse (s : PlannerSnapshot) (fuel : Nat) (seeds : List NodeId) (config : TraversalConfig)
    (strategy : Option TraversalStrategy) : Option TraversalResult :=
  let strategy := strategy.getD defaultStrategy
  match strategy.frontierMode with
  | .standard => runStandardBfs s config strategy fuel seeds
  | .pathEnumeration => runPathBfs s config strategy fuel seeds

section FunctionGraph

/-- A function of a graph that `functionGraph` builds, by its slot. -/
def function (slot : Nat) : NodeId := ⟨slot, 1⟩

def functionEntry : NodeEntry where
  kind := .function
  name := .ofUInt8 1
  file := 1
  qualifiedName := none
  visibility := none
  startByte := 0
  endByte := 0
  isStatic := false
  isUnsafe := false
  isDefinition := true

def functionGraph (count : Nat) (edges : List (Nat × Nat × EdgeKind)) : PlannerSnapshot where
  nodes := ⟨List.replicate count ⟨1, .occupied functionEntry⟩, none, count⟩
  strings := ⟨[none, some "f"], ∅, [0, 1], [], none, true⟩
  files := ⟨[none, some ⟨none⟩]⟩
  edges := edges.foldl (fun store edge =>
    store.addEdge (function edge.1) (function edge.2.1) edge.2.2 1) BidirectionalEdgeStore.new
  byKind := fun _ => []
  byKind_kind := fun _ _ hmem => absurd hmem List.not_mem_nil
  filePath := fun _ => none
  metadata :=
    { isSynthetic := fun _ => false
      isAddressTaken := fun _ => false
      isCallsitePromiscuous := fun _ => false
      frameworkRoute := fun _ => none
      cfgCondition := fun _ => none
      hasShapeDescriptor := fun _ => false }
  scopes := []

end FunctionGraph

end Kernel
end Sqry
