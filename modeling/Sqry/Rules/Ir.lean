import Sqry.Planner.Builder

/-!
The part of the rule language that plans of the planner are converted to, and the way back.
The variants of a rule node that no plan has are left out: nothing converts to them, and
none of them lowers.
-/

namespace Sqry

inductive EdgeClassification where
  | call (isAsync isCrossBoundary : Bool)
  | «import» (isWildcard : Bool)
  | «export» (isReexport : Bool)
  | reference
  | inherits
  | implements
  | contains
  | defines
  | typeOf
  | databaseAccess
  | serviceInteraction
  deriving DecidableEq, Repr

def EdgeClassification.of : EdgeKind → EdgeClassification
  | .calls _ isAsync _ => .call isAsync false
  | .traitMethodBinding .. => .call false false
  | .ffiCall _ | .httpRequest .. | .grpcCall .. | .webAssemblyCall => .call false true
  | .imports _ isWildcard => .import isWildcard
  | .exports kind _ => .export (kind = .reexport)
  | .references => .reference
  | .inherits | .sealedPermit => .inherits
  | .implements => .implements
  | .contains | .companionOf => .contains
  | .defines => .defines
  | .typeOf .. => .typeOf
  | .dbQuery .. | .tableRead .. | .tableWrite .. | .triggeredBy .. => .databaseAccess
  | .messageQueue .. | .webSocket _ | .graphQLOperation _ | .processExec _ | .fileIpc _
  | .protocolCall .. => .serviceInteraction
  | .genericBound | .typeArgument => .typeOf
  | .annotatedWith | .annotationParam => .reference
  | .lambdaCaptures | .extensionReceiver => .reference
  | .moduleExports | .moduleOpens => .export false
  | .moduleRequires | .moduleProvides => .import false
  | .macroExpansion .. => .reference
  | .lifetimeConstraint _ => .reference
  | .wraps .. => .reference
  | .channelPeer .. | .instantiates .. => .reference

inductive RuleEdgeClass where
  | call | «import» | reference | inheritance | structural | type | database | service
  deriving DecidableEq, Repr

def RuleEdgeClass.of : EdgeClassification → RuleEdgeClass
  | .call .. => .call
  | .import _ | .export _ => .import
  | .reference => .reference
  | .inherits | .implements => .inheritance
  | .contains | .defines => .structural
  | .typeOf => .type
  | .databaseAccess => .database
  | .serviceInteraction => .service

inductive TraversalEmit where
  | reachedNodes | edgeSources | edgeTargets
  deriving DecidableEq, Repr

inductive RuleNode where
  | nodeScan (kind : Option NodeKind) (visibility : Option Visibility)
      (namePattern : Option StringPattern)
  | edgeTraversal (direction : PlanDirection) (edgeClass : Option RuleEdgeClass)
      (maxDepth : Nat) (resolvedVia : Option ResolvedVia) (crossBoundary : Option Bool)
      (emit : TraversalEmit)
  | filter (predicate : Predicate)
  | setOp (op : SetOperation) (left right : RuleNode)
  | chain (steps : List RuleNode)

namespace RuleNode

mutual

/-- `From<PlanNode>`: the kind of an edge becomes its class. -/
def ofPlan : PlanNode → RuleNode
  | .nodeScan kind visibility namePattern => .nodeScan kind visibility namePattern
  | .edgeTraversal direction edgeKind maxDepth resolvedVia =>
    .edgeTraversal direction (edgeKind.map fun kind => .of (.of kind)) maxDepth resolvedVia none
      .reachedNodes
  | .filter predicate => .filter predicate
  | .setOp op left right => .setOp op (ofPlan left) (ofPlan right)
  | .chain steps => .chain (ofPlans steps)

def ofPlans : List PlanNode → List RuleNode
  | [] => []
  | step :: steps => ofPlan step :: ofPlans steps

end

mutual

def lowerPlanNode : RuleNode → Option PlanNode
  | .nodeScan kind visibility namePattern => some (.nodeScan kind visibility namePattern)
  | .edgeTraversal direction edgeClass maxDepth resolvedVia crossBoundary emit =>
    if edgeClass.isSome || crossBoundary.isSome || emit ≠ .reachedNodes then none
    else some (.edgeTraversal direction none maxDepth resolvedVia)
  | .filter predicate => some (.filter predicate)
  | .setOp op left right =>
    match lowerPlanNode left with
    | none => none
    | some left =>
      match lowerPlanNode right with
      | none => none
      | some right => some (.setOp op left right)
  | .chain steps =>
    match lowerPlanNodes steps with
    | none => none
    | some steps => some (.chain steps)

def lowerPlanNodes : List RuleNode → Option (List PlanNode)
  | [] => some []
  | step :: steps =>
    match lowerPlanNode step with
    | none => none
    | some step =>
      match lowerPlanNodes steps with
      | none => none
      | some steps => some (step :: steps)

end

def isEdgeTraversal : RuleNode → Bool
  | .edgeTraversal .. => true
  | _ => false

end RuleNode

structure RulePlan where
  root : RuleNode

def RulePlan.fromQueryPlan (plan : QueryPlan) : RulePlan := ⟨RuleNode.ofPlan plan.root⟩

namespace PlanNode

mutual

def kindFree : PlanNode → Bool
  | .nodeScan .. | .filter _ => true
  | .edgeTraversal _ edgeKind _ _ => edgeKind.isNone
  | .setOp _ left right => kindFree left && kindFree right
  | .chain steps => kindFreeSteps steps

def kindFreeSteps : List PlanNode → Bool
  | [] => true
  | step :: steps => kindFree step && kindFreeSteps steps

end

def isEdgeTraversal : PlanNode → Bool
  | .edgeTraversal .. => true
  | _ => false

end PlanNode

namespace RuleNode

theorem isEdgeTraversal_ofPlan (node : PlanNode) :
    (ofPlan node).isEdgeTraversal = node.isEdgeTraversal := by
  cases node <;> rfl

theorem ofPlans_eq_map (steps : List PlanNode) : ofPlans steps = steps.map ofPlan := by
  induction steps with
  | nil => rfl
  | cons step steps ih => rw [ofPlans, ih, List.map_cons]

theorem lowerPlanNodes_ofPlans {steps : List PlanNode}
    (h : ∀ step ∈ steps,
      lowerPlanNode (ofPlan step) = if step.kindFree then some step else none) :
    lowerPlanNodes (ofPlans steps) =
      if PlanNode.kindFreeSteps steps then some steps else none := by
  induction steps with
  | nil => rfl
  | cons step steps ih =>
    rw [ofPlans, lowerPlanNodes, h step List.mem_cons_self,
      ih fun other hother => h other (List.mem_cons_of_mem step hother),
      PlanNode.kindFreeSteps]
    cases step.kindFree <;> cases PlanNode.kindFreeSteps steps <;> rfl

/-- A plan comes back from its rule exactly where no traversal in it names an edge kind. -/
theorem lowerPlanNode_ofPlan (node : PlanNode) :
    lowerPlanNode (ofPlan node) = if node.kindFree then some node else none := by
  refine @PlanNode.inductOn
    (fun node => lowerPlanNode (ofPlan node) = if node.kindFree then some node else none)
    (fun _ => True) ?_ ?_ ?_ ?_ ?_ ?_ ?_ ?_ ?_ ?_ node
  · intro kind visibility namePattern
    rfl
  · intro direction edgeKind maxDepth resolvedVia
    cases edgeKind <;> rfl
  · intro predicate _
    rfl
  · intro op left right hleft hright
    rw [ofPlan, lowerPlanNode, hleft, hright, PlanNode.kindFree]
    cases left.kindFree <;> cases right.kindFree <;> rfl
  · intro steps ih
    rw [ofPlan, lowerPlanNode, lowerPlanNodes_ofPlans ih, PlanNode.kindFree]
    cases PlanNode.kindFreeSteps steps <;> rfl
  · intro p
    trivial
  · intro kind value _
    trivial
  · intro list _
    trivial
  · intro list _
    trivial
  · intro inner _
    trivial

end RuleNode
end Sqry
