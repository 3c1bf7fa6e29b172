import Sqry.Planner.Ir

/-!
The builder of plans: it collects steps and checks them when the plan is built.
-/

namespace Sqry

inductive PlanNodeKind where
  | nodeScan | edgeTraversal | filter | setOp | chain
  deriving DecidableEq, Repr

namespace PlanNodeKind

def of : PlanNode → PlanNodeKind
  | .nodeScan .. => nodeScan
  | .edgeTraversal .. => edgeTraversal
  | .filter _ => filter
  | .setOp .. => setOp
  | .chain _ => chain

def debug : PlanNodeKind → String
  | nodeScan => "NodeScan"
  | edgeTraversal => "EdgeTraversal"
  | filter => "Filter"
  | setOp => "SetOp"
  | chain => "Chain"

end PlanNodeKind

inductive BuildError where
  | emptyBuilder
  | firstStepNotContextFree (firstKind : PlanNodeKind)
  | zeroDepth
  | invalidSetOpOperand (reason : String)
  deriving DecidableEq, Repr

def normalizeEdgeKind : EdgeKind → EdgeKind
  | .calls _ _ resolvedVia => .calls 0 false resolvedVia
  | .imports _ isWildcard => .imports none isWildcard
  | .exports kind _ => .exports kind none
  | .typeOf context _ _ => .typeOf context none none
  | .macroExpansion expansionKind _ => .macroExpansion expansionKind false
  | .httpRequest method _ => .httpRequest method none
  | .dbQuery queryType _ => .dbQuery queryType none
  | .tableWrite _ _ operation => .tableWrite StringId.INVALID none operation
  | .messageQueue protocol _ => .messageQueue protocol none
  | .traitMethodBinding _ _ _ => .traitMethodBinding StringId.INVALID StringId.INVALID false
  | .grpcCall _ _ => .grpcCall StringId.INVALID StringId.INVALID
  | .tableRead _ _ => .tableRead StringId.INVALID none
  | .triggeredBy _ _ => .triggeredBy StringId.INVALID none
  | .webSocket _ => .webSocket none
  | .graphQLOperation _ => .graphQLOperation StringId.INVALID
  | .processExec _ => .processExec StringId.INVALID
  | .fileIpc _ => .fileIpc none
  | .protocolCall _ _ => .protocolCall StringId.INVALID none
  | .wraps kind _ => .wraps kind none
  | .channelPeer direction _ => .channelPeer direction .unknown
  | .instantiates _ inferenceKind => .instantiates [] inferenceKind
  | kind => kind

structure ScanFilters where
  kind : Option NodeKind
  visibility : Option Visibility
  namePattern : Option StringPattern

structure QueryBuilder where
  steps : List PlanNode

namespace QueryBuilder

def new : QueryBuilder := ⟨[]⟩

def push (b : QueryBuilder) (step : PlanNode) : QueryBuilder := ⟨b.steps ++ [step]⟩

def scan (b : QueryBuilder) (kind : NodeKind) : QueryBuilder :=
  b.push (.nodeScan (some kind) none none)

def scanWith (b : QueryBuilder) (filters : ScanFilters) : QueryBuilder :=
  b.push (.nodeScan filters.kind filters.visibility filters.namePattern)

def filter (b : QueryBuilder) (predicate : Predicate) : QueryBuilder :=
  b.push (.filter predicate)

def traverseWithResolvedVia (b : QueryBuilder) (direction : PlanDirection) (edgeKind : EdgeKind)
    (resolvedVia : Option ResolvedVia) (maxDepth : Nat) : QueryBuilder :=
  b.push (.edgeTraversal direction (some (normalizeEdgeKind edgeKind)) maxDepth resolvedVia)

def traverse (b : QueryBuilder) (direction : PlanDirection) (edgeKind : EdgeKind)
    (maxDepth : Nat) : QueryBuilder :=
  b.traverseWithResolvedVia direction edgeKind none maxDepth

def traverseAny (b : QueryBuilder) (direction : PlanDirection) (maxDepth : Nat) : QueryBuilder :=
  b.push (.edgeTraversal direction none maxDepth none)

def tryFoldResolvedVia (b : QueryBuilder) (via : ResolvedVia) : Option QueryBuilder :=
  match b.steps.getLast? with
  | some (.edgeTraversal direction (some (.calls argumentCount isAsync edgeVia)) maxDepth none) =>
    some ⟨b.steps.dropLast ++
      [.edgeTraversal direction (some (.calls argumentCount isAsync edgeVia)) maxDepth
        (some via)]⟩
  | _ => none

end QueryBuilder

section Validation

def ensureContextFree (node : PlanNode) : Except BuildError Unit :=
  match node with
  | .nodeScan .. | .setOp .. => .ok ()
  | .chain (first :: _) =>
    if first.isContextFree then .ok () else .error (.invalidSetOpOperand "operand root is Chain")
  | other =>
    .error (.invalidSetOpOperand ("operand root is " ++ (PlanNodeKind.of other).debug))

mutual

def validateSubtree : PlanNode → Except BuildError Unit
  | .nodeScan .. => .ok ()
  | .edgeTraversal _ _ maxDepth _ => if maxDepth = 0 then .error .zeroDepth else .ok ()
  | .filter predicate => validatePredicate predicate
  | .setOp _ left right => do
    ensureContextFree left
    ensureContextFree right
    validateSubtree left
    validateSubtree right
  | .chain steps =>
    match steps with
    | [] => .ok ()
    | first :: rest =>
      if first.isContextFree then do
        validateSubtree first
        validateSteps rest
      else .error (.firstStepNotContextFree (PlanNodeKind.of first))

def validateSteps : List PlanNode → Except BuildError Unit
  | [] => .ok ()
  | step :: steps => do
    validateSubtree step
    validateSteps steps

def validatePredicate : Predicate → Except BuildError Unit
  | .leaf _ => .ok ()
  | .relation _ value => validateValue value
  | .and list => validatePredicates list
  | .or list => validatePredicates list
  | .not inner => validatePredicate inner

def validatePredicates : List Predicate → Except BuildError Unit
  | [] => .ok ()
  | inner :: list => do
    validatePredicate inner
    validatePredicates list

def validateValue : PredicateValue → Except BuildError Unit
  | .subquery plan => do
    ensureContextFree plan
    validateSubtree plan
  | _ => .ok ()

end

def QueryBuilder.build (b : QueryBuilder) : Except BuildError QueryPlan :=
  match b.steps with
  | [] => .error .emptyBuilder
  | first :: _ =>
    if first.isContextFree then do
      validateSteps b.steps
      .ok ⟨.chain b.steps⟩
    else .error (.firstStepNotContextFree (PlanNodeKind.of first))

theorem validateSteps_eq_ok {steps : List PlanNode} :
    validateSteps steps = .ok () ↔ ∀ step ∈ steps, validateSubtree step = .ok () := by
  induction steps with
  | nil => simp [validateSteps]
  | cons step steps ih =>
    rw [validateSteps, List.forall_mem_cons, ← ih]
    cases validateSubtree step with
    | error e =>
      constructor
      · intro h
        cases h
      · intro h
        cases h.1
    | ok u =>
      constructor
      · intro h
        exact ⟨rfl, h⟩
      · intro h
        exact h.2

structure QueryBuilder.Builds (b : QueryBuilder) : Prop where
  starts : ∃ first, b.steps.head? = some first ∧ first.isContextFree = true
  valid : ∀ step ∈ b.steps, validateSubtree step = .ok ()

theorem QueryBuilder.build_eq_ok_iff {b : QueryBuilder} {plan : QueryPlan} :
    b.build = .ok plan ↔ b.Builds ∧ plan = ⟨.chain b.steps⟩ := by
  obtain ⟨steps⟩ := b
  rw [QueryBuilder.build]
  cases steps with
  | nil =>
    constructor
    · intro h
      cases h
    · intro h
      obtain ⟨first, hfirst, _⟩ := h.1.starts
      cases hfirst
  | cons first rest =>
    cases hfree : first.isContextFree with
    | false =>
      constructor
      · intro h
        dsimp only at h
        rw [if_neg (by rw [hfree]; exact Bool.false_ne_true)] at h
        cases h
      · intro h
        obtain ⟨first', hfirst, hfree'⟩ := h.1.starts
        cases hfirst
        rw [hfree] at hfree'
        cases hfree'
    | true =>
      dsimp only
      rw [if_pos hfree]
      cases hvalid : validateSteps (first :: rest) with
      | error e =>
        constructor
        · intro h
          cases h
        · intro h
          have hok := validateSteps_eq_ok.mpr h.1.valid
          rw [hvalid] at hok
          cases hok
      | ok u =>
        constructor
        · intro h
          cases h
          exact ⟨⟨⟨first, rfl, hfree⟩, validateSteps_eq_ok.mp hvalid⟩, rfl⟩
        · intro h
          rw [h.2]
          rfl

theorem QueryBuilder.build_error_of_not {b : QueryBuilder} (h : ¬ b.Builds) :
    ∃ e, b.build = .error e := by
  cases hbuild : b.build with
  | error e => exact ⟨e, rfl⟩
  | ok plan => exact absurd (build_eq_ok_iff.mp hbuild).1 h

end Validation
end Sqry
