import Mathlib.Data.List.Basic

/-!
The syntax of queries. The fields of a condition and of a join stand in their
constructors.
-/

namespace Sqry

structure QuerySpan where
  start : Nat
  stop : Nat
  line : Nat
  column : Nat
  deriving DecidableEq, Repr

namespace QuerySpan

def new (start stop : Nat) : QuerySpan := ⟨start, stop, 1, 1⟩

def synthetic : QuerySpan := ⟨0, 0, 1, 1⟩

end QuerySpan

inductive Operator where
  | equal | regex | greater | less | greaterEq | lessEq
  deriving DecidableEq, Repr

inductive JoinEdgeKind where
  | calls | imports | inherits | implements
  deriving DecidableEq, Repr

structure RegexFlags where
  caseInsensitive : Bool
  multiline : Bool
  dotAll : Bool
  deriving DecidableEq, Repr

structure RegexValue where
  pattern : String
  flags : RegexFlags
  deriving DecidableEq, Repr

mutual

inductive Expr where
  | or (operands : List Expr)
  | and (operands : List Expr)
  | not (operand : Expr)
  | condition (field : String) (operator : Operator) (value : Value) (span : QuerySpan)
  | join (left : Expr) (edge : JoinEdgeKind) (right : Expr) (span : QuerySpan)

inductive Value where
  | string (s : String)
  | regex (r : RegexValue)
  | number (n : Int)
  | boolean (b : Bool)
  | variable (name : String)
  | subquery (e : Expr)

end

/-- The expression of a query; its span plays no part in what follows. -/
structure Query where
  root : Expr
  span : QuerySpan

/-- Induction over expressions, with a hypothesis for every operand and for the expression
of a subquery. -/
@[elab_as_elim]
theorem Expr.inductOn {motive : Expr → Prop} (e : Expr)
    (or : ∀ es, (∀ e ∈ es, motive e) → motive (.or es))
    (and : ∀ es, (∀ e ∈ es, motive e) → motive (.and es))
    (not : ∀ e, motive e → motive (.not e))
    (condition : ∀ field operator value span, (∀ e, value = .subquery e → motive e) →
      motive (.condition field operator value span))
    (join : ∀ left edge right span, motive left → motive right →
      motive (.join left edge right span)) : motive e := by
  refine @Expr.rec motive (fun v => ∀ e, v = .subquery e → motive e)
    (fun es => ∀ e ∈ es, motive e) or and not condition
    (fun l k r s hl hr => join l k r s hl hr) ?_ ?_ ?_ ?_ ?_ ?_ ?_ ?_ e
  · intro s e h
    cases h
  · intro r e h
    cases h
  · intro n e h
    cases h
  · intro b e h
    cases h
  · intro name e h
    cases h
  · intro e he e' h
    cases h
    exact he
  · intro e h
    cases h
  · intro e es he hes e' h
    cases List.mem_cons.mp h with
    | inl heq => rw [heq]; exact he
    | inr hmem => exact hes e' hmem

end Sqry
