import Sqry.Query.SubqueryTransparent

/-!
The number of tests of a node against a root expression that a query makes, on the sequential
path, and the number it would make without a row budget. The counts follow the loops of the
evaluator; the budget is only asked in the last of them.
-/

namespace Sqry
namespace GraphEvalContext

section Counts
variable (ctx : GraphEvalContext)

def countFrom (stop : Nat → Option EvalError) (evaluate : NodeId → Except EvalError Bool) :
    Nat → List NodeId → Nat
  | _, [] => 0
  | i, node :: nodes =>
    match stop i with
    | some _ => 0
    | none =>
      match evaluate node with
      | .error _ => 1
      | .ok _ => countFrom stop evaluate (i + 1) nodes + 1

def subqueryCount (expr : Expr) : Nat :=
  match ctx.exprDepth with
  | .error _ => 0
  | .ok limit =>
    countFrom (fun _ => none) (fun node => ctx.evaluateNode limit 0 node expr) 0
      (ctx.graph.nodes.iter.map Prod.fst)

def precomputeCount : List (SpanKey × Expr) → SubqueryCache → Nat
  | [], _ => 0
  | (key, inner) :: rest, cache =>
    if (cache.lookup key).isSome then precomputeCount rest cache
    else
      subqueryCount { ctx with subqueryCache := cache } inner +
        match evaluateSubquery { ctx with subqueryCache := cache } inner with
        | .error _ => 0
        | .ok found => precomputeCount rest (cache.insert key found)

def subqueryEvaluations (expr : Expr) : Nat :=
  if ctx.cancelled 0 then 0
  else ctx.precomputeCount (collectSubqueryExprs expr) ctx.subqueryCache

/-- The tests that the main scan makes, where `stop` tells what stops it. -/
def scanEvaluationsWith (stop : Nat → Option EvalError) (expr : Expr) : Nat :=
  if ctx.cancelled 0 then 0
  else
    match ctx.precomputeSubqueries expr with
    | .error _ => 0
    | .ok cache =>
      match ctx.exprDepth with
      | .error _ => 0
      | .ok limit =>
        if ctx.cancelled 1 then 0
        else
          countFrom stop
            (fun node => evaluateNode { ctx with subqueryCache := cache } limit 0 node expr) 0
            ctx.candidates

/-- All tests of one call of `evaluateAll`. -/
def evaluations (expr : Expr) : Nat :=
  ctx.subqueryEvaluations expr + ctx.scanEvaluationsWith ctx.stopBefore expr

def stopCancelled (i : Nat) : Option EvalError :=
  if (!ctx.disableParallel || (i + 1) % CANCELLATION_POLL_BATCH = 0) && ctx.cancelled (i + 2) then
    some .cancelled
  else none

def scanEvaluations (expr : Expr) : Nat := ctx.scanEvaluationsWith ctx.stopCancelled expr

def sequential : GraphEvalContext := { ctx with disableParallel := true }

def unbudgeted : GraphEvalContext :=
  { ctx with maxRows := ctx.examined + ctx.candidates.length + 1 }

structure RowsBounded (expr : Expr) : Prop where
  bounded : ctx.evaluations expr ≤ ctx.maxRows
  exceeded : ctx.maxRows < ctx.unbudgeted.evaluations expr →
    ∃ examined limit, ctx.evaluateAll expr = .error (.budgetExceeded examined limit)

end Counts

variable {ctx : GraphEvalContext}

theorem countFrom_le (stop : Nat → Option EvalError) (evaluate : NodeId → Except EvalError Bool)
    (i : Nat) (nodes : List NodeId) : countFrom stop evaluate i nodes ≤ nodes.length := by
  induction nodes generalizing i with
  | nil => exact Nat.le_refl 0
  | cons node nodes ih =>
    rw [countFrom, List.length_cons]
    cases stop i with
    | some e => exact Nat.zero_le _
    | none =>
      cases evaluate node with
      | error e => exact Nat.le_add_left 1 _
      | ok verdict => exact Nat.succ_le_succ (ih (i + 1))

theorem stopBefore_of_cancelled {i : Nat} {e : EvalError} (h : ctx.stopCancelled i = some e) :
    ctx.stopBefore i = some .cancelled := by
  rw [stopCancelled] at h
  rw [stopBefore]
  split at h
  · rename_i hcancelled
    rw [if_pos hcancelled]
  · cases h

theorem stopBefore_of_not_cancelled {i : Nat} (h : ctx.stopCancelled i = none) :
    ctx.stopBefore i = if ctx.examined + i + 1 ≥ ctx.maxRows then
      some (.budgetExceeded (ctx.examined + i + 1) ctx.maxRows) else none := by
  rw [stopCancelled] at h
  rw [stopBefore]
  split at h
  · cases h
  · rename_i hcancelled
    rw [if_neg hcancelled]

theorem countFrom_stopBefore (limit : Nat) (expr : Expr) (nodes : List NodeId) (i : Nat) :
    countFrom ctx.stopBefore (fun node => ctx.evaluateNode limit 0 node expr) i nodes =
      min (countFrom ctx.stopCancelled (fun node => ctx.evaluateNode limit 0 node expr) i nodes)
        (ctx.maxRows - 1 - ctx.examined - i) ∧
    (ctx.maxRows - 1 - ctx.examined - i <
        countFrom ctx.stopCancelled (fun node => ctx.evaluateNode limit 0 node expr) i nodes →
      ∃ examined rows, scanFrom (ctx.examineNode limit expr) i nodes =
        .error (.budgetExceeded examined rows)) := by
  induction nodes generalizing i with
  | nil =>
    refine ⟨(Nat.zero_min _).symm, fun h => ?_⟩
    cases h
  | cons node nodes ih =>
    simp only [countFrom, scanFrom, examineNode]
    cases hcancelled : ctx.stopCancelled i with
    | some e =>
      simp only [stopBefore_of_cancelled hcancelled]
      refine ⟨(Nat.zero_min _).symm, fun h => ?_⟩
      cases h
    | none =>
      by_cases hrows : ctx.examined + i + 1 ≥ ctx.maxRows
      · -- the budget is used up before this node
        have hleft : ctx.maxRows - 1 - ctx.examined - i = 0 := by omega
        simp only [stopBefore_of_not_cancelled hcancelled, if_pos hrows, hleft]
        exact ⟨(Nat.min_zero _).symm, fun _ => ⟨_, _, rfl⟩⟩
      · have hleft : ctx.maxRows - 1 - ctx.examined - i =
            ctx.maxRows - 1 - ctx.examined - (i + 1) + 1 := by omega
        simp only [stopBefore_of_not_cancelled hcancelled, if_neg hrows]
        cases hverdict : ctx.evaluateNode limit 0 node expr with
        | error e =>
          simp only
          refine ⟨by omega, fun h => ?_⟩
          omega
        | ok verdict =>
          obtain ⟨hcount, hexceeded⟩ := ih (i + 1)
          simp only
          refine ⟨by rw [hcount]; omega, fun h => ?_⟩
          obtain ⟨examined, rows, hscan⟩ := hexceeded (by omega)
          exact ⟨examined, rows, by simp only [hscan]⟩

theorem precomputeCount_maxRows (rows : Nat) (l : List (SpanKey × Expr)) (cache : SubqueryCache) :
    precomputeCount { ctx with maxRows := rows } l cache = ctx.precomputeCount l cache := by
  induction l generalizing cache with
  | nil => rfl
  | cons p l ih =>
    simp only [precomputeCount, ih]
    rfl

theorem precomputeFrom_maxRows (rows : Nat) (l : List (SpanKey × Expr)) (cache : SubqueryCache) :
    precomputeFrom { ctx with maxRows := rows } l cache = ctx.precomputeFrom l cache := by
  induction l generalizing cache with
  | nil => rfl
  | cons p l ih =>
    simp only [precomputeFrom, ih]
    rfl

theorem scanEvaluationsWith_eq_min (expr : Expr) :
    ctx.scanEvaluationsWith ctx.stopBefore expr =
      min (ctx.scanEvaluations expr) (ctx.maxRows - 1 - ctx.examined) := by
  simp only [scanEvaluations, scanEvaluationsWith]
  split
  · exact (Nat.zero_min _).symm
  · cases ctx.precomputeSubqueries expr with
    | error e => exact (Nat.zero_min _).symm
    | ok cache =>
      cases ctx.exprDepth with
      | error e => exact (Nat.zero_min _).symm
      | ok limit =>
        simp only
        split
        · exact (Nat.zero_min _).symm
        · have hscan := @countFrom_stopBefore { ctx with subqueryCache := cache }
            limit expr ctx.candidates 0
          exact hscan.1

theorem evaluateAll_of_exhausted {expr : Expr}
    (h : ctx.maxRows - 1 - ctx.examined < ctx.scanEvaluations expr) :
    ∃ examined limit, ctx.evaluateAll expr = .error (.budgetExceeded examined limit) := by
  simp only [scanEvaluations, scanEvaluationsWith] at h
  rw [evaluateAll]
  split at h
  · cases h
  · rename_i hpoll
    rw [if_neg hpoll]
    cases hcache : ctx.precomputeSubqueries expr with
    | error e =>
      rw [hcache] at h
      cases h
    | ok cache =>
      cases hdepth : ctx.exprDepth with
      | error e =>
        rw [hcache, hdepth] at h
        cases h
      | ok limit =>
        simp only [hcache, hdepth] at h ⊢
        split at h
        · cases h
        · rename_i hpoll'
          rw [if_neg hpoll']
          have hscan := @countFrom_stopBefore { ctx with subqueryCache := cache }
            limit expr ctx.candidates 0
          exact hscan.2 h

theorem scanEvaluations_le (expr : Expr) :
    ctx.scanEvaluations expr ≤ ctx.candidates.length := by
  simp only [scanEvaluations, scanEvaluationsWith]
  split
  · exact Nat.zero_le _
  · split
    · exact Nat.zero_le _
    · split
      · exact Nat.zero_le _
      · split
        · exact Nat.zero_le _
        · exact countFrom_le _ _ 0 _

theorem scanEvaluations_maxRows (rows : Nat) (expr : Expr) :
    scanEvaluations { ctx with maxRows := rows } expr = ctx.scanEvaluations expr := by
  simp only [scanEvaluations, scanEvaluationsWith, precomputeSubqueries, precomputeFrom_maxRows]
  rfl

theorem subqueryEvaluations_maxRows (rows : Nat) (expr : Expr) :
    subqueryEvaluations { ctx with maxRows := rows } expr = ctx.subqueryEvaluations expr := by
  simp only [subqueryEvaluations, precomputeCount_maxRows]

theorem unbudgeted_evaluations (expr : Expr) :
    ctx.unbudgeted.evaluations expr =
      ctx.subqueryEvaluations expr + ctx.scanEvaluations expr := by
  have hmin := @scanEvaluationsWith_eq_min ctx.unbudgeted expr
  have hle := ctx.scanEvaluations_le expr
  simp only [unbudgeted, scanEvaluations_maxRows] at hmin
  simp only [evaluations, unbudgeted, subqueryEvaluations_maxRows, hmin]
  omega

theorem rowsBounded_iff (expr : Expr) :
    ctx.RowsBounded expr ↔
      ctx.subqueryEvaluations expr + ctx.scanEvaluations expr ≤ ctx.maxRows ∨
        ctx.subqueryEvaluations expr ≤ min (ctx.examined + 1) ctx.maxRows := by
  have htests : ctx.evaluations expr = ctx.subqueryEvaluations expr +
      min (ctx.scanEvaluations expr) (ctx.maxRows - 1 - ctx.examined) := by
    rw [evaluations, scanEvaluationsWith_eq_min]
  constructor
  · intro h
    have hbounded := h.bounded
    rw [htests] at hbounded
    omega
  · intro h
    refine ⟨?_, fun hneeded => ?_⟩
    · rw [htests]
      omega
    · rw [unbudgeted_evaluations] at hneeded
      exact evaluateAll_of_exhausted (by omega)

/-- The budget of the sequential path bounds all tests of a query exactly when the query needs no
more tests than it allows, or its subqueries make at most one test more than was counted
before. -/
theorem row_budget_iff (ctx : GraphEvalContext) (expr : Expr) :
    ctx.sequential.RowsBounded expr ↔
      ctx.sequential.subqueryEvaluations expr + ctx.sequential.scanEvaluations expr ≤
          ctx.maxRows ∨
        ctx.sequential.subqueryEvaluations expr ≤ min (ctx.examined + 1) ctx.maxRows :=
  rowsBounded_iff expr

/-- The subquery alone is tested against both nodes of the graph. -/
theorem one_row_two_tests :
    ¬ ({ oneCall with maxRows := 1 } : GraphEvalContext).sequential.RowsBounded
      (callersOfKind "function" .synthetic) := by
  intro h
  have htests := h.bounded
  revert htests
  decide

end GraphEvalContext
end Sqry
