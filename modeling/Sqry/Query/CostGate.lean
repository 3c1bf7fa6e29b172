import Sqry.Query.ParsedQuery

/-!
The gate before the evaluator. It refuses a query over a large arena when a regex that is not
selective stands in no conjunction with a scope filter. The parser of regexes is a parameter.
-/

namespace Sqry

/-- What the gate reads of a parsed regex: the lengths of the literals it can start with, when
there are finitely many, and the least length of a match. -/
structure Hir where
  prefixes : Option (List Nat)
  minimumLen : Option Nat
  deriving DecidableEq, Repr

structure CostGateConfig where
  minPrefixLen : Nat
  minLiteralLen : Nat
  nodeCountThreshold : Option Nat
  deriving DecidableEq, Repr

def CostGateConfig.default : CostGateConfig := ⟨3, 4, some 50000⟩

structure CostGateError where
  field : String
  op : String
  pattern : String
  nodeCount : Nat
  nodeLimit : Nat
  scopeHint : String
  minPrefixLen : Nat
  docUrl : String
  deriving DecidableEq, Repr

inductive CostClass where
  | cheap | medium | prohibitive
  deriving DecidableEq, Repr

def SCOPE_FILTER_FIELDS : List String := ["kind", "lang", "language", "path", "file"]

def QUERY_TOO_BROAD_DOC_URL : String := "https://docs.verivus.dev/sqry/query-cost-gate"

/-- The gate with its configuration and the parser of regexes. -/
structure CostGate where
  cfg : CostGateConfig
  parse : String → Option Hir

namespace CostGate
variable (gate : CostGate)

def capEngaged (nodeCount : Nat) : Bool :=
  match gate.cfg.nodeCountThreshold with
  | none | some 0 => false
  | some threshold => nodeCount > threshold

def regexShapeIsAcceptable (pattern : String) : Bool :=
  match gate.parse pattern with
  | none => true
  | some hir =>
    let longestPrefix := match hir.prefixes with
      | none => 0
      | some lengths => lengths.foldl max 0
    longestPrefix > gate.cfg.minPrefixLen ||
      match hir.minimumLen with
      | some minLen => minLen > gate.cfg.minLiteralLen
      | none => false

def regexClass (field pattern : String) : CostClass :=
  if field = "kind" || field = "lang" || field = "language" then .medium
  else if gate.regexShapeIsAcceptable pattern then .medium
  else .prohibitive

def classifyCondition (field : String) (operator : Operator) (value : Value) : CostClass :=
  match value, operator with
  | .string _, .equal | .boolean _, .equal | .number _, .equal | .variable _, _ => .cheap
  | .regex r, .regex => gate.regexClass field r.pattern
  | _, _ => .medium

def valueText : Value → String
  | .string s => s
  | .regex r => "/" ++ r.pattern ++ "/"
  | .number n => toString n
  | .boolean b => toString b
  | .variable name => "$" ++ name
  | .subquery _ => "(<subquery>)"

def buildQueryTooBroad (field : String) (operator : Operator) (value : Value)
    (nodeCount : Nat) : CostGateError where
  field := field
  op := operator.text
  pattern := valueText value
  nodeCount := nodeCount
  nodeLimit := gate.cfg.nodeCountThreshold.getD 0
  scopeHint := joinParts ", " SCOPE_FILTER_FIELDS
  minPrefixLen := gate.cfg.minPrefixLen
  docUrl := QUERY_TOO_BROAD_DOC_URL

/-- The part of `walk_condition` after the walk of a subquery. -/
def walkClass (scopeInScope : Bool) (nodeCount : Nat) (field : String) (operator : Operator)
    (value : Value) : Except CostGateError Unit :=
  match value with
  | .variable _ => .ok ()
  | _ =>
    match gate.classifyCondition field operator value with
    | .cheap | .medium => .ok ()
    | .prohibitive =>
      if !gate.capEngaged nodeCount then .ok ()
      else if scopeInScope then .ok ()
      else .error (gate.buildQueryTooBroad field operator value nodeCount)

def isScopeFilterAt : Expr → Bool
  | .condition field _ _ _ => SCOPE_FILTER_FIELDS.contains field
  | _ => false

mutual

def walkExpr (scopeInScope : Bool) (nodeCount : Nat) : Expr → Except CostGateError Unit
  | .condition field operator value _ =>
    match walkSubquery scopeInScope nodeCount value with
    | .error e => .error e
    | .ok () => gate.walkClass scopeInScope nodeCount field operator value
  | .and operands => walkOperands (scopeInScope || operands.any isScopeFilterAt) nodeCount operands
  | .or branches => walkOperands scopeInScope nodeCount branches
  | .not inner => walkExpr scopeInScope nodeCount inner
  | .join left _ right _ =>
    match walkExpr scopeInScope nodeCount left with
    | .error e => .error e
    | .ok () => walkExpr scopeInScope nodeCount right

def walkSubquery (scopeInScope : Bool) (nodeCount : Nat) : Value → Except CostGateError Unit
  | .subquery inner => walkExpr scopeInScope nodeCount inner
  | _ => .ok ()

def walkOperands (scopeInScope : Bool) (nodeCount : Nat) : List Expr → Except CostGateError Unit
  | [] => .ok ()
  | operand :: operands =>
    match walkExpr scopeInScope nodeCount operand with
    | .error e => .error e
    | .ok () => walkOperands scopeInScope nodeCount operands

end

def checkQuery (expr : Expr) (nodeCount : Nat) : Except CostGateError Unit :=
  gate.walkExpr false nodeCount expr

def isProhibitive : Expr → Bool
  | .condition field operator value _ =>
    match gate.classifyCondition field operator value with
    | .cheap | .medium => false
    | .prohibitive => true
  | _ => false

def narrows (expr : Expr) : Bool := isScopeFilterAt expr && !gate.isProhibitive expr

end CostGate

abbrev OperandPath := List Nat

def Expr.operands : Expr → List Expr
  | .or operands | .and operands => operands
  | .not operand => [operand]
  | .condition .. => []
  | .join left _ right _ => [left, right]

def Expr.at : Expr → OperandPath → Option Expr
  | e, [] => some e
  | e, i :: p =>
    match e.operands[i]? with
    | none => none
    | some operand => operand.at p

namespace CostGate
variable {gate : CostGate}

end CostGate

end Sqry
