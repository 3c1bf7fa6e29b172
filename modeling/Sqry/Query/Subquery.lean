import Sqry.Graph.Snapshot
import Sqry.Query.Ast

/-!
The evaluator of queries over a graph. Subqueries are evaluated first and kept under the
span of the condition they stand in; then each node is tested. The matchers of conditions
that read no subquery are a parameter, and so is what is seen of the cancellation token,
which others set.
-/

namespace Sqry

inductive EvalError where
  | cancelled
  | budgetExceeded (examined limit : Nat)
  | depthLimitExceeded (current limit : Nat)
  | message (text : String)
  deriving DecidableEq, Repr

abbrev SpanKey := Nat × Nat

def QuerySpan.key (span : QuerySpan) : SpanKey := (span.start, span.stop)

abbrev SubqueryCache := AList fun _ : SpanKey => List NodeId

/-- What the test of one node reads of the context besides the cache. `matchPlain` tests a
node against a field, an operator and a value. -/
structure NodeTests where
  graph : GraphSnapshot
  matchPlain : NodeId → NodeEntry → String → Operator → Value → Except EvalError Bool

/-- `exprDepth` is the configured depth, or why there is none; `cancelled i` is what the
poll number `i` of the token sees. -/
structure GraphEvalContext extends NodeTests where
  exprDepth : Except EvalError Nat
  disableParallel : Bool
  cancelled : Nat → Bool
  examined : Nat
  maxRows : Nat
  subqueryCache : SubqueryCache

mutual

def collectSubqueryExprs : Expr → List (SpanKey × Expr)
  | .condition _ _ value span =>
    match value with
    | .subquery inner => collectSubqueryExprs inner ++ [(span.key, inner)]
    | _ => []
  | .and operands => collectSubqueryOperands operands
  | .or operands => collectSubqueryOperands operands
  | .not operand => collectSubqueryExprs operand
  | .join left _ right _ => collectSubqueryExprs left ++ collectSubqueryExprs right

def collectSubqueryOperands : List Expr → List (SpanKey × Expr)
  | [] => []
  | operand :: operands => collectSubqueryExprs operand ++ collectSubqueryOperands operands

end

section Relations
variable (s : GraphSnapshot)

def matchRelationSubquery (edges : List StoreEdgeRef) (follows : EdgeKind → Bool)
    (endpoint : StoreEdgeRef → NodeId) (subqueryMatches : Option (List NodeId)) :
    Except EvalError Bool :=
  match subqueryMatches with
  | none => .error (.message ("subquery cache miss: precompute_subqueries did not populate " ++
      "cache for this relation predicate"))
  | some found => .ok (edges.any fun edge => follows edge.kind && found.contains (endpoint edge))

def matchCallersSubquery (node : NodeId) : Option (List NodeId) → Except EvalError Bool :=
  matchRelationSubquery (s.edges.edgesFrom node)
    (fun kind => match kind with | .calls .. => true | _ => false) StoreEdgeRef.target

def matchCalleesSubquery (node : NodeId) : Option (List NodeId) → Except EvalError Bool :=
  matchRelationSubquery (s.edges.edgesTo node)
    (fun kind => match kind with | .calls .. => true | _ => false) StoreEdgeRef.source

def matchImportsSubquery (node : NodeId) : Option (List NodeId) → Except EvalError Bool :=
  matchRelationSubquery (s.edges.edgesFrom node)
    (fun kind => match kind with | .imports .. => true | _ => false) StoreEdgeRef.target

def matchExportsSubquery (node : NodeId) : Option (List NodeId) → Except EvalError Bool :=
  matchRelationSubquery (s.edges.edgesFrom node)
    (fun kind => match kind with | .exports .. => true | _ => false) StoreEdgeRef.target

def matchImplementsSubquery (node : NodeId) : Option (List NodeId) → Except EvalError Bool :=
  matchRelationSubquery (s.edges.edgesFrom node)
    (fun kind => match kind with | .implements => true | _ => false) StoreEdgeRef.target

def matchReferencesSubquery (node : NodeId) : Option (List NodeId) → Except EvalError Bool :=
  matchRelationSubquery (s.edges.edgesTo node)
    (fun kind => match kind with
      | .references | .calls .. | .imports .. | .ffiCall .. => true
      | _ => false) StoreEdgeRef.source

def matchFieldSubquery (field : String) (node : NodeId) (found : Option (List NodeId)) :
    Option (Except EvalError Bool) :=
  match field with
  | "callers" => some (matchCallersSubquery s node found)
  | "callees" => some (matchCalleesSubquery s node found)
  | "imports" => some (matchImportsSubquery s node found)
  | "exports" => some (matchExportsSubquery s node found)
  | "references" => some (matchReferencesSubquery s node found)
  | "impl" | "implements" => some (matchImplementsSubquery s node found)
  | _ => none

end Relations

namespace NodeTests
variable (tests : NodeTests) (lookup : QuerySpan → Expr → Option (List NodeId))

/-- `evaluate_condition`, for any way to come by the nodes of a subquery. -/
def evaluateConditionWith (node : NodeId) (field : String) (operator : Operator)
    (value : Value) (span : QuerySpan) : Except EvalError Bool :=
  match tests.graph.nodes.get node with
  | none => .ok false
  | some entry =>
    match value with
    | .subquery inner =>
      match matchFieldSubquery tests.graph field node (lookup span inner) with
      | some verdict => verdict
      | none => tests.matchPlain node entry field operator value
    | _ => tests.matchPlain node entry field operator value

def guarded (limit depth : Nat) (verdict : Except EvalError Bool) : Except EvalError Bool :=
  if depth + 1 > limit then .error (.depthLimitExceeded (depth + 1) limit) else verdict

mutual

def evaluateNodeWith (limit depth : Nat) (node : NodeId) : Expr → Except EvalError Bool
  | .condition field operator value span =>
    guarded limit depth (tests.evaluateConditionWith lookup node field operator value span)
  | .and operands => guarded limit depth (evaluateAndWith limit (depth + 1) node operands)
  | .or operands => guarded limit depth (evaluateOrWith limit (depth + 1) node operands)
  | .not operand =>
    guarded limit depth
      (match evaluateNodeWith limit (depth + 1) node operand with
      | .error e => .error e
      | .ok verdict => .ok (!verdict))
  | .join .. =>
    guarded limit depth (.error (.message
      "Join expressions cannot be evaluated per-node; use execute_join instead"))

def evaluateAndWith (limit depth : Nat) (node : NodeId) : List Expr → Except EvalError Bool
  | [] => .ok true
  | operand :: operands =>
    match evaluateNodeWith limit depth node operand with
    | .error e => .error e
    | .ok false => .ok false
    | .ok true => evaluateAndWith limit depth node operands

def evaluateOrWith (limit depth : Nat) (node : NodeId) : List Expr → Except EvalError Bool
  | [] => .ok false
  | operand :: operands =>
    match evaluateNodeWith limit depth node operand with
    | .error e => .error e
    | .ok true => .ok true
    | .ok false => evaluateOrWith limit depth node operands

end

end NodeTests

namespace GraphEvalContext
variable (ctx : GraphEvalContext)

def cached (span : QuerySpan) (_ : Expr) : Option (List NodeId) :=
  ctx.subqueryCache.lookup span.key

def evaluateNode (limit depth : Nat) (node : NodeId) (expr : Expr) : Except EvalError Bool :=
  ctx.toNodeTests.evaluateNodeWith ctx.cached limit depth node expr

/-- The matches among the nodes, or the first error. The parallel scan examines every node
and then reports the first error in the order of the nodes, which comes to the same. -/
def scanFrom (examine : Nat → NodeId → Except EvalError Bool) :
    Nat → List NodeId → Except EvalError (List NodeId)
  | _, [] => .ok []
  | i, node :: nodes =>
    match examine i node with
    | .error e => .error e
    | .ok verdict =>
      match scanFrom examine (i + 1) nodes with
      | .error e => .error e
      | .ok found => .ok (if verdict then node :: found else found)

def evaluateSubquery (expr : Expr) : Except EvalError (List NodeId) :=
  match ctx.exprDepth with
  | .error e => .error e
  | .ok limit =>
    scanFrom (fun _ node => ctx.evaluateNode limit 0 node expr) 0
      (ctx.graph.nodes.iter.map Prod.fst)

/-- The loop of `precompute_subqueries`. -/
def precomputeFrom :
    List (SpanKey × Expr) → SubqueryCache → Except EvalError SubqueryCache
  | [], cache => .ok cache
  | (key, inner) :: rest, cache =>
    if (cache.lookup key).isSome then precomputeFrom rest cache
    else
      match evaluateSubquery { ctx with subqueryCache := cache } inner with
      | .error e => .error e
      | .ok found => precomputeFrom rest (cache.insert key found)

def precomputeSubqueries (expr : Expr) : Except EvalError SubqueryCache :=
  ctx.precomputeFrom (collectSubqueryExprs expr) ctx.subqueryCache

def CANCELLATION_POLL_BATCH : Nat := 1024

/-- What stops the scan before it examines node number `i`. The sequential scan polls the
token once in a batch. -/
def stopBefore (i : Nat) : Option EvalError :=
  if (!ctx.disableParallel || (i + 1) % CANCELLATION_POLL_BATCH = 0) && ctx.cancelled (i + 2) then
    some .cancelled
  else if ctx.examined + i + 1 ≥ ctx.maxRows then
    some (.budgetExceeded (ctx.examined + i + 1) ctx.maxRows)
  else none

def examineNode (limit : Nat) (expr : Expr) (i : Nat) (node : NodeId) : Except EvalError Bool :=
  match ctx.stopBefore i with
  | some e => .error e
  | none => ctx.evaluateNode limit 0 node expr

def candidates : List NodeId :=
  (ctx.graph.nodes.iter.filter fun node => !node.2.isUnifiedLoser).map Prod.fst

def evaluateAll (expr : Expr) : Except EvalError (List NodeId) :=
  if ctx.cancelled 0 then .error .cancelled
  else
    match ctx.precomputeSubqueries expr with
    | .error e => .error e
    | .ok cache =>
      match ctx.exprDepth with
      | .error e => .error e
      | .ok limit =>
        if ctx.cancelled 1 then .error .cancelled
        else
          scanFrom (examineNode { ctx with subqueryCache := cache } limit expr) 0
            ctx.candidates

end GraphEvalContext
end Sqry
