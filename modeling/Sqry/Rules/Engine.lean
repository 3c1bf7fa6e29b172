import Sqry.Planner.Meaning
import Sqry.Rules.Ir

/-!
The traversal kernel as the rules call it: breadth first from all seeds, with no limit but
the depth. Of a materialized node only its id is kept.
-/

namespace Sqry

inductive TraversalDirection where
  | outgoing | incoming | both
  deriving DecidableEq, Repr

structure EdgeFilter where
  includeCalls : Bool
  includeImports : Bool
  includeReferences : Bool
  includeInheritance : Bool
  includeStructural : Bool
  includeTypeEdges : Bool
  includeDatabase : Bool
  includeService : Bool
  crossBoundary : Option Bool
  deriving DecidableEq, Repr

def EdgeKind.isCrossBoundary : EdgeKind → Bool
  | .ffiCall _ | .httpRequest .. | .grpcCall .. | .webAssemblyCall | .dbQuery .. | .tableRead ..
  | .tableWrite .. | .triggeredBy .. | .messageQueue .. | .webSocket _ | .graphQLOperation _
  | .processExec _ | .fileIpc _ | .protocolCall .. => true
  | _ => false

namespace EdgeFilter

def all : EdgeFilter := ⟨true, true, true, true, true, true, true, true, none⟩

def accepts (filter : EdgeFilter) : EdgeClassification → Bool
  | .call .. => filter.includeCalls
  | .import _ | .export _ => filter.includeImports
  | .reference => filter.includeReferences
  | .inherits | .implements => filter.includeInheritance
  | .contains | .defines => filter.includeStructural
  | .typeOf => filter.includeTypeEdges
  | .databaseAccess => filter.includeDatabase
  | .serviceInteraction => filter.includeService

def acceptsKind (filter : EdgeFilter) (kind : EdgeKind) : Bool :=
  filter.accepts (.of kind) &&
    match filter.crossBoundary with
    | none => true
    | some want => kind.isCrossBoundary = want

end EdgeFilter

structure RawEdge where
  source : NodeId
  target : NodeId
  kind : EdgeKind
  depth : Nat
  deriving DecidableEq, Repr

structure MaterializedEdge where
  sourceIdx : Nat
  targetIdx : Nat
  classification : EdgeClassification
  rawKind : EdgeKind
  depth : Nat
  deriving DecidableEq, Repr

structure TraversalResult where
  nodes : List NodeId
  edges : List MaterializedEdge
  deriving DecidableEq, Repr

namespace PlannerSnapshot
variable (s : PlannerSnapshot)

def collectEdges (node : NodeId) : TraversalDirection → List StoreEdgeRef
  | .outgoing => s.edges.edgesFrom node
  | .incoming => s.edges.edgesTo node
  | .both => s.edges.edgesFrom node ++ s.edges.edgesTo node

def neighborOf (edge : StoreEdgeRef) (current : NodeId) : NodeId :=
  if edge.source = current then edge.target else edge.source

def materializes (node : NodeId) : Bool :=
  match s.nodes.get node with
  | none => false
  | some entry => s.displayEntryQualifiedName entry ((s.resolve entry.name).getD "") ≠ ""

section Bfs
variable (direction : TraversalDirection) (filter : EdgeFilter)

def acceptedEdges (current : NodeId) : List StoreEdgeRef :=
  (s.collectEdges current direction).filter fun edge => filter.acceptsKind edge.kind

def acceptedNeighbors (current : NodeId) : List NodeId :=
  (s.acceptedEdges direction filter current).map fun edge => neighborOf edge current

/-- The edges that are met, depth by depth as `traverseLevels` takes the nodes. -/
def levelEdges : Nat → Nat → List NodeId → List NodeId → List RawEdge
  | 0, _, _, _ => []
  | left + 1, depth, frontier, visited =>
    let met := frontier.flatMap fun current =>
      (s.acceptedEdges direction filter current).map fun edge =>
        ⟨edge.source, edge.target, edge.kind, depth + 1⟩
    match newNodes visited (frontier.flatMap (s.acceptedNeighbors direction filter)) with
    | [] => met
    | found => met ++ levelEdges left (depth + 1) found (found ++ visited)

end Bfs

def materializeEdges (nodes : List NodeId) (rawEdges : List RawEdge) : List MaterializedEdge :=
  let edges := rawEdges.filterMap fun raw =>
    match nodes.idxOf? raw.source, nodes.idxOf? raw.target with
    | some sourceIdx, some targetIdx =>
      some ⟨sourceIdx, targetIdx, .of raw.kind, raw.kind, raw.depth⟩
    | _, _ => none
  SortedGroups.heads (fun edge => (edge.sourceIdx, edge.targetIdx, edge.classification)) edges

def discovered (seeds : List NodeId) (direction : TraversalDirection) (filter : EdgeFilter)
    (maxDepth : Nat) : List NodeId :=
  let seeded := newNodes [] seeds
  seeded ++ traverseLevels (s.acceptedNeighbors direction filter) maxDepth seeded seeded

def traverse (seeds : List NodeId) (direction : TraversalDirection) (filter : EdgeFilter)
    (maxDepth : Nat) : TraversalResult :=
  let seeded := newNodes [] seeds
  let nodes := (s.discovered seeds direction filter maxDepth).filter s.materializes
  ⟨nodes, materializeEdges nodes (s.levelEdges direction filter maxDepth 0 seeded seeded)⟩

end PlannerSnapshot

section Levels

theorem mem_newNodes {visited l : List NodeId} {node : NodeId} :
    node ∈ newNodes visited l ↔ node ∈ l ∧ node ∉ visited := by
  induction l generalizing visited with
  | nil => simp [newNodes]
  | cons a l ih =>
    rw [newNodes]
    by_cases ha : a ∈ visited
    · rw [if_pos ha, ih]
      constructor
      · intro h
        exact ⟨List.mem_cons_of_mem a h.1, h.2⟩
      · intro h
        refine ⟨(List.mem_cons.mp h.1).resolve_left fun heq => h.2 ?_, h.2⟩
        rw [heq]
        exact ha
    · rw [if_neg ha, List.mem_cons, ih]
      constructor
      · intro h
        cases h with
        | inl heq =>
          rw [heq]
          exact ⟨List.mem_cons_self, ha⟩
        | inr h =>
          exact ⟨List.mem_cons_of_mem a h.1, fun hmem => h.2 (List.mem_cons_of_mem a hmem)⟩
      · intro h
        by_cases heq : node = a
        · exact Or.inl heq
        · refine Or.inr ⟨(List.mem_cons.mp h.1).resolve_left heq, fun hmem => ?_⟩
          exact (List.mem_cons.mp hmem).elim heq h.2

variable {next next' : NodeId → List NodeId}

theorem traverseLevels_nil (next : NodeId → List NodeId) (depth : Nat) (visited : List NodeId) :
    traverseLevels next depth [] visited = [] := by
  cases depth <;> rfl

theorem traverseLevels_succ (next : NodeId → List NodeId) (depth : Nat)
    (frontier visited : List NodeId) :
    traverseLevels next (depth + 1) frontier visited =
      newNodes visited (frontier.flatMap next) ++
        traverseLevels next depth (newNodes visited (frontier.flatMap next))
          (newNodes visited (frontier.flatMap next) ++ visited) := by
  rw [traverseLevels]
  split
  · next hnil => rw [hnil, traverseLevels_nil, List.append_nil]
  · rfl

theorem traverseLevels_new {depth : Nat} {frontier visited : List NodeId} {node : NodeId}
    (h : node ∈ traverseLevels next depth frontier visited) :
    node ∉ visited ∧ ∃ current, node ∈ next current := by
  induction depth generalizing frontier visited with
  | zero => cases h
  | succ depth ih =>
    rw [traverseLevels_succ] at h
    cases List.mem_append.mp h with
    | inl h =>
      obtain ⟨hmem, hnew⟩ := mem_newNodes.mp h
      obtain ⟨current, -, hnext⟩ := List.mem_flatMap.mp hmem
      exact ⟨hnew, current, hnext⟩
    | inr h =>
      obtain ⟨hnew, hnext⟩ := ih h
      exact ⟨fun hmem => hnew (List.mem_append_right _ hmem), hnext⟩

theorem traverseLevels_mono (hnext : ∀ current node, node ∈ next current → node ∈ next' current)
    {depth : Nat} {frontier visited frontier' visited' : List NodeId}
    (hfrontier : ∀ node ∈ frontier, node ∈ visited')
    (hfrontier' : ∀ node ∈ frontier', node ∈ visited')
    (hclosed : ∀ node ∈ visited', node ∉ frontier' → ∀ after ∈ next' node, after ∈ visited')
    {node : NodeId} (h : node ∈ traverseLevels next depth frontier visited) :
    node ∈ visited' ∨ node ∈ traverseLevels next' depth frontier' visited' := by
  induction depth generalizing frontier visited frontier' visited' with
  | zero => cases h
  | succ depth ih =>
    rw [traverseLevels_succ] at h
    generalize hfound : newNodes visited (frontier.flatMap next) = found at h
    have hstep : ∀ after ∈ found, after ∈ visited' ∨
        after ∈ newNodes visited' (frontier'.flatMap next') := by
      intro after hafter
      rw [← hfound] at hafter
      obtain ⟨hmem, -⟩ := mem_newNodes.mp hafter
      obtain ⟨current, hcurrent, hafter⟩ := List.mem_flatMap.mp hmem
      by_cases hvisited : after ∈ visited'
      · exact Or.inl hvisited
      · refine Or.inr (mem_newNodes.mpr ⟨List.mem_flatMap.mpr ⟨current, ?_, ?_⟩, hvisited⟩)
        · by_contra hnot
          exact hvisited
            (hclosed current (hfrontier current hcurrent) hnot after (hnext _ _ hafter))
        · exact hnext _ _ hafter
    rw [traverseLevels_succ]
    generalize hfound₂ : newNodes visited' (frontier'.flatMap next') = found' at hstep ⊢
    have hlater : node ∈ found' ++ visited' ∨
        node ∈ traverseLevels next' depth found' (found' ++ visited') := by
      cases List.mem_append.mp h with
      | inl h => exact Or.inl (List.mem_append.mpr (hstep node h).symm)
      | inr h =>
        refine ih (fun after hafter => ?_) (fun after hafter => ?_)
          (fun current hcurrent hnot after hafter => ?_) h
        · exact List.mem_append.mpr (hstep after hafter).symm
        · exact List.mem_append_left _ hafter
        · have hcurrent' := (List.mem_append.mp hcurrent).resolve_left hnot
          by_cases hin : current ∈ frontier'
          · by_cases hvisited : after ∈ visited'
            · exact List.mem_append_right _ hvisited
            · refine List.mem_append_left _ ?_
              rw [← hfound₂]
              exact mem_newNodes.mpr
                ⟨List.mem_flatMap.mpr ⟨current, hin, hafter⟩, hvisited⟩
          · exact List.mem_append_right _ (hclosed current hcurrent' hin after hafter)
    cases hlater with
    | inl hlater =>
      cases List.mem_append.mp hlater with
      | inl hmem => exact Or.inr (List.mem_append_left _ hmem)
      | inr hmem => exact Or.inl hmem
    | inr hlater => exact Or.inr (List.mem_append_right _ hlater)

end Levels

end Sqry

/-!
The rule engine over the backend of one database. A rule without classes goes back to the
planner; a chain of traversals behind a first step runs on the kernel; any other chain runs
step by step. The witness of a run is left out.
-/

namespace Sqry

/-- The errors that the modelled rules can raise; the last one is a panic. -/
inductive RuleError where
  | unsupportedPrimitive (backend primitive reason : String)
  | invalidRuleSource (reason : String)
  | unreachable (text : String)
  deriving DecidableEq, Repr

inductive RuleOutput where
  | nodes (nodes : List NodeId)
  | sequence (outputs : List RuleOutput)

def traversalDirection : PlanDirection → TraversalDirection
  | .forward => .outgoing
  | .reverse => .incoming
  | .both => .both

def edgeFilterForClasses (edgeClasses : List RuleEdgeClass) : EdgeFilter :=
  if edgeClasses.isEmpty then EdgeFilter.all
  else
    { includeCalls := edgeClasses.contains .call
      includeImports := edgeClasses.contains .import
      includeReferences := edgeClasses.contains .reference
      includeInheritance := edgeClasses.contains .inheritance
      includeStructural := edgeClasses.contains .structural
      includeTypeEdges := edgeClasses.contains .type
      includeDatabase := edgeClasses.contains .database
      includeService := edgeClasses.contains .service
      crossBoundary := none }

def edgeFilterForClass (edgeClass : RuleEdgeClass) : EdgeFilter :=
  edgeFilterForClasses [edgeClass]

def collectEdgeEndpoints (result : TraversalResult) (sources : Bool) : List NodeId :=
  newNodes [] (result.edges.filterMap fun edge =>
    result.nodes[if sources then edge.sourceIdx else edge.targetIdx]?)

def emitTraversalNodes (result : TraversalResult) : TraversalEmit → List NodeId
  | .reachedNodes => result.nodes
  | .edgeSources => collectEdgeEndpoints result true
  | .edgeTargets => collectEdgeEndpoints result false

section Execute
variable (db : PlannerDb)

def lowerContextFreePlan (node : RuleNode) : Except RuleError QueryPlan :=
  match node.lowerPlanNode with
  | none =>
    .error (.unsupportedPrimitive "rule-engine" "rule_edge_class_to_planner_edge_kind"
      "rule-edge-class traversals must dispatch through RuleBackend::traverse")
  | some plan =>
    if plan.isContextFree then .ok ⟨plan⟩
    else .error (.invalidRuleSource "planner-compatible rule root must be context-free")

def executePlannerNode (node : RuleNode) : Except RuleError RuleOutput :=
  match lowerContextFreePlan node with
  | .error e => .error e
  | .ok plan => .ok (.nodes (executePlan db plan))

def executeTraversals : List RuleNode → List NodeId → Except RuleError (List NodeId)
  | [], current => .ok current
  | .edgeTraversal direction edgeClass maxDepth _ crossBoundary emit :: rest, current =>
    if maxDepth = 0 then
      .error (.invalidRuleSource "edge traversal max_depth must be greater than zero")
    else
      let filter : EdgeFilter := { edgeClass.elim EdgeFilter.all edgeFilterForClass with
        crossBoundary := crossBoundary }
      let result := db.snapshot.traverse current (traversalDirection direction) filter maxDepth
      executeTraversals rest (emitTraversalNodes result emit)
  | _ :: _, _ =>
    .error (.unreachable "non-edge traversal steps are handled by sequence mode")

mutual

def executeNode : RuleNode → Except RuleError RuleOutput
  | .nodeScan kind visibility namePattern =>
    executePlannerNode db (.nodeScan kind visibility namePattern)
  | .setOp op left right => executePlannerNode db (.setOp op left right)
  | .filter _ | .edgeTraversal .. =>
    .error (.invalidRuleSource "filter and edge traversal nodes require chain input")
  | .chain [] => .ok (.nodes [])
  | .chain (first :: rest) =>
    match RuleNode.lowerPlanNode (.chain (first :: rest)) with
    | some plan => .ok (.nodes (executePlan db ⟨plan⟩))
    | none =>
      if !rest.all RuleNode.isEdgeTraversal then
        match executeNode first with
        | .error e => .error e
        | .ok output =>
          match executeInOrder rest with
          | .error e => .error e
          | .ok outputs => .ok (.sequence (output :: outputs))
      else
        match executeNode first with
        | .error e => .error e
        | .ok (.sequence _) =>
          .error (.invalidRuleSource
            "edge-traversal chains require a node-producing first step")
        | .ok (.nodes current) =>
          match executeTraversals db rest current with
          | .error e => .error e
          | .ok nodes => .ok (.nodes nodes)

def executeInOrder : List RuleNode → Except RuleError (List RuleOutput)
  | [] => .ok []
  | step :: steps =>
    match executeNode step with
    | .error e => .error e
    | .ok output =>
      match executeInOrder steps with
      | .error e => .error e
      | .ok outputs => .ok (output :: outputs)

end

/-- `RuleEngine::run` over the backend of the database. -/
def RulePlan.run (plan : RulePlan) : Except RuleError RuleOutput := executeNode db plan.root

end Execute
end Sqry
