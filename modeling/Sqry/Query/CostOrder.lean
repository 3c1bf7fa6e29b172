import Sqry.Query.CostGate
import Sqry.Query.RowBudget

/-!
The order of work of the evaluator. A test of a node leaves a log of the conditions evaluated,
with their positions and verdicts. A prohibitive condition comes after a narrowing operand of an
enclosing conjunction exactly when that operand stands before it; whatever stands around the
subquery that is being scanned has not been evaluated.
-/

namespace Sqry

def Precedes : OperandPath → OperandPath → Prop
  | i :: p, j :: q => i < j ∨ i = j ∧ Precedes p q
  | _, _ => False

theorem precedes_of_append {outer p q : OperandPath} (h : Precedes (outer ++ p) (outer ++ q)) :
    Precedes p q := by
  induction outer with
  | nil => exact h
  | cons k outer ih =>
    cases h with
    | inl hlt => exact absurd hlt (Nat.lt_irrefl k)
    | inr hrest => exact ih hrest.2

theorem lt_of_precedes_sibling {outer rest : OperandPath} {i j : Nat}
    (h : Precedes (outer ++ [j]) (outer ++ i :: rest)) : j < i := by
  cases precedes_of_append h with
  | inl hlt => exact hlt
  | inr hsame =>
    cases rest with
    | nil => cases hsame.2
    | cons k rest => cases hsame.2

theorem lt_of_sibling_precedes {outer rest : OperandPath} {i j : Nat}
    (h : Precedes (outer ++ i :: rest) (outer ++ [j])) : i < j := by
  cases precedes_of_append h with
  | inl hlt => exact hlt
  | inr hsame =>
    cases rest with
    | nil => cases hsame.2
    | cons k rest => cases hsame.2

def Expr.isJoin : Expr → Bool
  | .join .. => true
  | _ => false

abbrev ConditionLog := List (OperandPath × Except EvalError Bool)

def ConditionLog.under (i : Nat) (log : ConditionLog) : ConditionLog :=
  log.map fun entry => (i :: entry.1, entry.2)

namespace NodeTests
variable (tests : NodeTests) (lookup : QuerySpan → Expr → Option (List NodeId))

mutual

/-- What `evaluateNodeWith` evaluates of an expression. -/
def logWith (limit depth : Nat) (node : NodeId) : Expr → ConditionLog
  | .condition field operator value span =>
    if depth + 1 > limit then []
    else [([], tests.evaluateConditionWith lookup node field operator value span)]
  | .and operands =>
    if depth + 1 > limit then [] else logOperandsWith limit (depth + 1) node true 0 operands
  | .or operands =>
    if depth + 1 > limit then [] else logOperandsWith limit (depth + 1) node false 0 operands
  | .not operand =>
    if depth + 1 > limit then []
    else ConditionLog.under 0 (logWith limit (depth + 1) node operand)
  | .join .. => []

/-- Operands are evaluated as long as they come to `goOn`. -/
def logOperandsWith (limit depth : Nat) (node : NodeId) (goOn : Bool) (i : Nat) :
    List Expr → ConditionLog
  | [] => []
  | operand :: operands =>
    ConditionLog.under i (logWith limit depth node operand) ++
      match tests.evaluateNodeWith lookup limit depth node operand with
      | .error _ => []
      | .ok verdict =>
        if verdict = goOn then logOperandsWith limit depth node goOn (i + 1) operands else []

end

def goesOn : Expr → Bool
  | .and _ => true
  | _ => false

/-- The operands before `p` let the evaluation through to it. -/
def Reaches (limit : Nat) (node : NodeId) : Nat → OperandPath → Expr → Prop
  | depth, [], e => depth + 1 ≤ limit ∧ ∃ field operator value span,
      e = .condition field operator value span
  | depth, i :: p, e => depth + 1 ≤ limit ∧ e.isJoin = false ∧
      (∀ j operand, j < i → e.operands[j]? = some operand →
        tests.evaluateNodeWith lookup limit (depth + 1) node operand = .ok (goesOn e)) ∧
      ∃ operand, e.operands[i]? = some operand ∧ Reaches limit node (depth + 1) p operand

end NodeTests

theorem ConditionLog.mem_under {i : Nat} {log : ConditionLog} {p : OperandPath}
    {v : Except EvalError Bool} : (p, v) ∈ log.under i ↔ ∃ q, p = i :: q ∧ (q, v) ∈ log := by
  simp only [under, List.mem_map]
  constructor
  · intro h
    obtain ⟨entry, hmem, heq⟩ := h
    cases heq
    exact ⟨entry.1, rfl, hmem⟩
  · intro h
    obtain ⟨q, hp, hmem⟩ := h
    exact ⟨(q, v), hmem, by rw [hp]⟩

namespace NodeTests
variable {tests : NodeTests} {lookup : QuerySpan → Expr → Option (List NodeId)}
variable {limit depth : Nat} {node : NodeId}
variable {v : Except EvalError Bool} {p : OperandPath} {es : List Expr} {e : Expr} {goOn : Bool}
  {i : Nat}

theorem mem_logOperands :
    (p, v) ∈ tests.logOperandsWith lookup limit depth node goOn i es ↔
      ∃ k operand q, p = (i + k) :: q ∧ es[k]? = some operand ∧
        (∀ j o, j < k → es[j]? = some o →
          tests.evaluateNodeWith lookup limit depth node o = .ok goOn) ∧
        (q, v) ∈ tests.logWith lookup limit depth node operand := by
  induction es generalizing i with
  | nil =>
    simp only [logOperandsWith]
    constructor
    · intro h
      cases h
    · intro h
      obtain ⟨k, operand, q, _, hoperand, _⟩ := h
      cases hoperand
  | cons e es ih =>
    rw [logOperandsWith, List.mem_append, ConditionLog.mem_under]
    constructor
    · intro h
      cases h with
      | inl hfirst =>
        obtain ⟨q, hp, hmem⟩ := hfirst
        exact ⟨0, e, q, hp, rfl, fun j o hj => absurd hj (Nat.not_lt_zero j), hmem⟩
      | inr hrest =>
        cases hverdict : tests.evaluateNodeWith lookup limit depth node e with
        | error err =>
          rw [hverdict] at hrest
          cases hrest
        | ok verdict =>
          simp only [hverdict] at hrest
          split at hrest
          · rename_i hgo
            obtain ⟨k, operand, q, hp, hoperand, hbefore, hmem⟩ := ih.mp hrest
            refine ⟨k + 1, operand, q, ?_, hoperand, fun j o hj ho => ?_, hmem⟩
            · rw [hp]
              congr 1
              omega
            · cases j with
              | zero =>
                cases ho
                rw [hverdict, hgo]
              | succ j => exact hbefore j o (Nat.lt_of_succ_lt_succ hj) ho
          · cases hrest
    · intro h
      obtain ⟨k, operand, q, hp, hoperand, hbefore, hmem⟩ := h
      cases k with
      | zero =>
        cases hoperand
        exact .inl ⟨q, hp, hmem⟩
      | succ k =>
        have hverdict := hbefore 0 e (Nat.succ_pos k) rfl
        simp only [hverdict, if_true]
        refine .inr (ih.mpr ⟨k, operand, q, ?_, hoperand, fun j o hj ho => ?_, hmem⟩)
        · rw [hp]
          congr 1
          omega
        · exact hbefore (j + 1) o (Nat.succ_lt_succ hj) ho

theorem nil_not_mem_logOperands :
    ([], v) ∉ tests.logOperandsWith lookup limit depth node goOn i es := by
  intro h
  obtain ⟨k, operand, q, hp, _⟩ := mem_logOperands.mp h
  cases hp

theorem mem_log_nil :
    ([], v) ∈ tests.logWith lookup limit depth node e ↔
      depth + 1 ≤ limit ∧ ∃ field operator value span, e = .condition field operator value span ∧
        v = tests.evaluateConditionWith lookup node field operator value span := by
  by_cases hdepth : depth + 1 > limit
  · constructor
    · intro h
      cases e <;> simp [logWith, hdepth] at h
    · intro h
      exact absurd h.1 (Nat.not_le.mpr hdepth)
  · have hle : depth + 1 ≤ limit := Nat.le_of_not_lt hdepth
    cases e with
    | condition field operator value span =>
      simp only [logWith, if_neg hdepth, List.mem_singleton]
      constructor
      · intro h
        cases h
        exact ⟨hle, field, operator, value, span, rfl, rfl⟩
      · intro h
        obtain ⟨_, _, _, _, _, he, hv⟩ := h
        cases he
        rw [hv]
    | or es | and es =>
      simp only [logWith, if_neg hdepth]
      constructor
      · intro h
        exact absurd h nil_not_mem_logOperands
      · intro h
        obtain ⟨_, _, _, _, _, he, _⟩ := h
        cases he
    | not inner =>
      simp only [logWith, if_neg hdepth, ConditionLog.mem_under]
      constructor
      · intro h
        obtain ⟨q, hp, _⟩ := h
        cases hp
      · intro h
        obtain ⟨_, _, _, _, _, he, _⟩ := h
        cases he
    | join left edge right span =>
      constructor
      · intro h
        cases h
      · intro h
        obtain ⟨_, _, _, _, _, he, _⟩ := h
        cases he

theorem mem_log_cons :
    (i :: p, v) ∈ tests.logWith lookup limit depth node e ↔
      depth + 1 ≤ limit ∧ e.isJoin = false ∧
        (∀ j o, j < i → e.operands[j]? = some o →
          tests.evaluateNodeWith lookup limit (depth + 1) node o = .ok (goesOn e)) ∧
        ∃ operand, e.operands[i]? = some operand ∧
          (p, v) ∈ tests.logWith lookup limit (depth + 1) node operand := by
  by_cases hdepth : depth + 1 > limit
  · constructor
    · intro h
      cases e <;> simp [logWith, hdepth] at h
    · intro h
      exact absurd h.1 (Nat.not_le.mpr hdepth)
  · have hle : depth + 1 ≤ limit := Nat.le_of_not_lt hdepth
    cases e with
    | or es =>
      simp only [logWith, if_neg hdepth, mem_logOperands]
      constructor
      · intro h
        obtain ⟨k, operand, q, hp, hoperand, hbefore, hmem⟩ := h
        rw [Nat.zero_add] at hp
        cases hp
        exact ⟨hle, rfl, hbefore, operand, hoperand, hmem⟩
      · intro h
        obtain ⟨_, _, hbefore, operand, hoperand, hmem⟩ := h
        exact ⟨i, operand, p, by rw [Nat.zero_add], hoperand, hbefore, hmem⟩
    | and es =>
      simp only [logWith, if_neg hdepth, mem_logOperands]
      constructor
      · intro h
        obtain ⟨k, operand, q, hp, hoperand, hbefore, hmem⟩ := h
        rw [Nat.zero_add] at hp
        cases hp
        exact ⟨hle, rfl, hbefore, operand, hoperand, hmem⟩
      · intro h
        obtain ⟨_, _, hbefore, operand, hoperand, hmem⟩ := h
        exact ⟨i, operand, p, by rw [Nat.zero_add], hoperand, hbefore, hmem⟩
    | not inner =>
      simp only [logWith, if_neg hdepth, ConditionLog.mem_under]
      constructor
      · intro h
        obtain ⟨q, hp, hmem⟩ := h
        cases hp
        exact ⟨hle, rfl, fun j o hj => absurd hj (Nat.not_lt_zero j),
          inner, rfl, hmem⟩
      · intro h
        obtain ⟨_, _, _, operand, hoperand, hmem⟩ := h
        cases i with
        | zero =>
          cases hoperand
          exact ⟨p, rfl, hmem⟩
        | succ i => cases hoperand
    | condition field operator value span =>
      simp only [logWith, if_neg hdepth, List.mem_singleton]
      constructor
      · intro h
        cases h
      · intro h
        obtain ⟨_, _, _, operand, hoperand, _⟩ := h
        cases hoperand
    | join left edge right span =>
      constructor
      · intro h
        cases h
      · intro h
        cases h.2.1

theorem mem_log_iff_reaches :
    (∃ v, (p, v) ∈ tests.logWith lookup limit depth node e) ↔
      tests.Reaches lookup limit node depth p e := by
  induction p generalizing e depth with
  | nil =>
    simp only [mem_log_nil, Reaches]
    constructor
    · intro h
      obtain ⟨v, hdepth, field, operator, value, span, he, _⟩ := h
      exact ⟨hdepth, field, operator, value, span, he⟩
    · intro h
      obtain ⟨hdepth, field, operator, value, span, he⟩ := h
      exact ⟨_, hdepth, field, operator, value, span, he, rfl⟩
  | cons i p ih =>
    simp only [mem_log_cons, Reaches]
    constructor
    · intro h
      obtain ⟨v, hdepth, hjoin, hbefore, operand, hoperand, hmem⟩ := h
      exact ⟨hdepth, hjoin, hbefore, operand, hoperand, ih.mp ⟨v, hmem⟩⟩
    · intro h
      obtain ⟨hdepth, hjoin, hbefore, operand, hoperand, hreaches⟩ := h
      obtain ⟨v, hmem⟩ := ih.mpr hreaches
      exact ⟨v, hdepth, hjoin, hbefore, operand, hoperand, hmem⟩

theorem logOperands_ordered
    (h : ∀ e ∈ es, (tests.logWith lookup limit depth node e).Pairwise fun a b => Precedes a.1 b.1) :
    (tests.logOperandsWith lookup limit depth node goOn i es).Pairwise
      fun a b => Precedes a.1 b.1 := by
  induction es generalizing i with
  | nil => exact List.Pairwise.nil
  | cons e es ih =>
    have hfirst : (ConditionLog.under i (tests.logWith lookup limit depth node e)).Pairwise
        fun a b => Precedes a.1 b.1 :=
      List.pairwise_map.mpr ((h e List.mem_cons_self).imp fun hab => .inr ⟨rfl, hab⟩)
    have hrest := ih (i := i + 1) fun e' he' => h e' (List.mem_cons_of_mem e he')
    rw [logOperandsWith]
    refine List.pairwise_append.mpr ⟨hfirst, ?_, fun a ha b hb => ?_⟩
    · split
      · exact List.Pairwise.nil
      · split
        · exact hrest
        · exact List.Pairwise.nil
    · obtain ⟨pa, va⟩ := a
      obtain ⟨pb, vb⟩ := b
      obtain ⟨q, hpa, _⟩ := ConditionLog.mem_under.mp ha
      split at hb
      · cases hb
      · split at hb
        · obtain ⟨k, operand, q', hpb, _⟩ := mem_logOperands.mp hb
          simp only [hpa, hpb]
          exact .inl (by omega)
        · cases hb

theorem log_ordered :
    (tests.logWith lookup limit depth node e).Pairwise fun a b => Precedes a.1 b.1 := by
  induction e using Expr.inductOn generalizing depth with
  | or es ih | and es ih =>
    rw [logWith]
    split
    · exact List.Pairwise.nil
    · exact logOperands_ordered fun e he => ih e he
  | not e ih =>
    rw [logWith]
    split
    · exact List.Pairwise.nil
    · exact List.pairwise_map.mpr (ih.imp fun hab => .inr ⟨rfl, hab⟩)
  | condition field operator value span ih =>
    rw [logWith]
    split
    · exact List.Pairwise.nil
    · exact List.pairwise_singleton _ _
  | join left edge right span ihl ihr =>
    rw [logWith]
    exact List.Pairwise.nil

/-- When the evaluation has come to an operand of a conjunction, the conditions before it have come
to true. -/
theorem sibling_mem {root filter : Expr} {conj : List Expr} {outer rest : OperandPath} {i j : Nat}
    (h : (outer ++ i :: rest, v) ∈ tests.logWith lookup limit depth node root)
    (hat : root.at outer = some (.and conj)) (hj : j < i) (hget : conj[j]? = some filter)
    (hfilter : CostGate.isScopeFilterAt filter) :
    (outer ++ [j], .ok true) ∈ tests.logWith lookup limit depth node root := by
  induction outer generalizing root depth with
  | nil =>
    cases hat
    obtain ⟨hdepth, _, hbefore, _⟩ := mem_log_cons.mp h
    have hverdict := hbefore j filter hj hget
    refine mem_log_cons.mpr ⟨hdepth, rfl, fun k o hk => hbefore k o (hk.trans hj), filter, hget,
      mem_log_nil.mpr ?_⟩
    cases filter with
    | condition field operator value span =>
      simp only [evaluateNodeWith, guarded, goesOn] at hverdict
      split at hverdict
      · cases hverdict
      · rename_i hlimit
        exact ⟨Nat.le_of_not_lt hlimit, field, operator, value, span, rfl, hverdict.symm⟩
    | _ => cases hfilter
  | cons k outer ih =>
    obtain ⟨hdepth, hjoin, hbefore, operand, hoperand, hmem⟩ := mem_log_cons.mp h
    simp only [Expr.at, hoperand] at hat
    exact mem_log_cons.mpr ⟨hdepth, hjoin, hbefore, operand, hoperand, ih hmem hat⟩

end NodeTests

namespace CostGate
variable (gate : CostGate)

/-- Every prohibitive condition in the log comes after a narrowing operand of an enclosing
conjunction that has come to true. -/
def InOrder (root : Expr) (log : ConditionLog) : Prop :=
  ∀ before p verdict after c, log = before ++ (p, verdict) :: after → root.at p = some c →
    gate.isProhibitive c → ∃ outer i rest conj j filter, p = outer ++ i :: rest ∧
      root.at outer = some (.and conj) ∧ conj[j]? = some filter ∧ gate.narrows filter ∧
      (outer ++ [j], .ok true) ∈ before

/-- A narrowing operand of an enclosing conjunction stands before `p`. -/
def NarrowedBefore (root : Expr) (p : OperandPath) : Prop :=
  ∃ outer i rest conj j filter, p = outer ++ i :: rest ∧ root.at outer = some (.and conj) ∧
    j < i ∧ conj[j]? = some filter ∧ gate.narrows filter

variable {gate}

theorem inOrder_iff {tests : NodeTests} {lookup : QuerySpan → Expr → Option (List NodeId)}
    {limit depth : Nat} {node : NodeId} {root : Expr} :
    gate.InOrder root (tests.logWith lookup limit depth node root) ↔
      ∀ p c, root.at p = some c → gate.isProhibitive c →
        tests.Reaches lookup limit node depth p root → gate.NarrowedBefore root p := by
  have hordered := @NodeTests.log_ordered tests lookup limit depth node root
  constructor
  · intro h p c hat hprohibitive hreaches
    obtain ⟨v, hmem⟩ := NodeTests.mem_log_iff_reaches.mpr hreaches
    obtain ⟨before, after, hlog⟩ := List.append_of_mem hmem
    obtain ⟨outer, i, rest, conj, j, filter, hp, hconj, hget, hnarrows, hbefore⟩ :=
      h before p v after c hlog hat hprohibitive
    rw [hlog] at hordered
    have hprecedes := (List.pairwise_append.mp hordered).2.2 _ hbefore _ List.mem_cons_self
    rw [hp] at hprecedes
    exact ⟨outer, i, rest, conj, j, filter, hp, hconj, lt_of_precedes_sibling hprecedes, hget,
      hnarrows⟩
  · intro h before p v after c hlog hat hprohibitive
    have hmem : (p, v) ∈ tests.logWith lookup limit depth node root := by
      rw [hlog]
      exact List.mem_append_right _ List.mem_cons_self
    obtain ⟨outer, i, rest, conj, j, filter, hp, hconj, hj, hget, hnarrows⟩ :=
      h p c hat hprohibitive (NodeTests.mem_log_iff_reaches.mp ⟨v, hmem⟩)
    have hfilter : isScopeFilterAt filter := ((Bool.and_eq_true _ _).mp hnarrows).1
    rw [hp] at hmem
    have hsibling := NodeTests.sibling_mem hmem hconj hj hget hfilter
    refine ⟨outer, i, rest, conj, j, filter, hp, hconj, hget, hnarrows, ?_⟩
    rw [hlog] at hsibling hordered
    cases List.mem_append.mp hsibling with
    | inl hbefore => exact hbefore
    | inr hafter =>
      -- nothing after an operand comes from an operand before it
      exfalso
      cases hafter with
      | head =>
        have hsame := List.append_cancel_left hp
        cases hsame
        exact Nat.lt_irrefl _ hj
      | tail _ hlater =>
        have hpair := (List.pairwise_append.mp hordered).2.1
        have hprecedes := (List.pairwise_cons.mp hpair).1 _ hlater
        rw [hp] at hprecedes
        exact Nat.lt_asymm hj (lt_of_sibling_precedes hprecedes)

end CostGate

/-- One test of a node against the root of a scan, with the subqueries known by then. -/
structure NodeTest where
  limit : Nat
  cache : SubqueryCache
  root : Expr
  node : NodeId

namespace GraphEvalContext
variable (ctx : GraphEvalContext)

def testedFrom (stop : Nat → Option EvalError) (evaluate : NodeId → Except EvalError Bool) :
    Nat → List NodeId → List NodeId
  | _, [] => []
  | i, node :: nodes =>
    match stop i with
    | some _ => []
    | none =>
      match evaluate node with
      | .error _ => [node]
      | .ok _ => node :: testedFrom stop evaluate (i + 1) nodes

def scanned (evaluate : NodeId → Except EvalError Bool) : List NodeId :=
  if ctx.disableParallel then testedFrom ctx.stopBefore evaluate 0 ctx.candidates
  else (ctx.candidates.zipIdx.filter fun node => (ctx.stopBefore node.2).isNone).map Prod.fst

def subqueryTests (expr : Expr) : List NodeTest :=
  match ctx.exprDepth with
  | .error _ => []
  | .ok limit =>
    (testedFrom (fun _ => none) (fun node => ctx.evaluateNode limit 0 node expr) 0
      (ctx.graph.nodes.iter.map Prod.fst)).map fun node =>
        ⟨limit, ctx.subqueryCache, expr, node⟩

def precomputeTests : List (SpanKey × Expr) → SubqueryCache → List NodeTest
  | [], _ => []
  | (key, inner) :: rest, cache =>
    if (cache.lookup key).isSome then precomputeTests rest cache
    else
      subqueryTests { ctx with subqueryCache := cache } inner ++
        match evaluateSubquery { ctx with subqueryCache := cache } inner with
        | .error _ => []
        | .ok found => precomputeTests rest (cache.insert key found)

def scanTests (expr : Expr) : List NodeTest :=
  match ctx.precomputeSubqueries expr with
  | .error _ => []
  | .ok cache =>
    match ctx.exprDepth with
    | .error _ => []
    | .ok limit =>
      if ctx.cancelled 1 then []
      else
        (ctx.scanned fun node =>
          evaluateNode { ctx with subqueryCache := cache } limit 0 node expr).map fun node =>
            ⟨limit, cache, expr, node⟩

/-- All tests of one call of `evaluateAll`. -/
def tests (expr : Expr) : List NodeTest :=
  if ctx.cancelled 0 then []
  else ctx.precomputeTests (collectSubqueryExprs expr) ctx.subqueryCache ++ ctx.scanTests expr

def log (t : NodeTest) : ConditionLog :=
  ctx.toNodeTests.logWith (cached { ctx with subqueryCache := t.cache }) t.limit 0 t.node t.root

def TestReaches (t : NodeTest) (p : OperandPath) : Prop :=
  ctx.toNodeTests.Reaches (cached { ctx with subqueryCache := t.cache }) t.limit t.node 0 p t.root

variable {ctx}

end GraphEvalContext

namespace CostGate
variable (gate : CostGate)

def Accepts (ctx : GraphEvalContext) (expr : Expr) : Prop :=
  gate.capEngaged ctx.graph.nodes.len ∧ gate.checkQuery expr ctx.graph.nodes.len = .ok ()

def SoundFor (ctx : GraphEvalContext) (expr : Expr) : Prop :=
  gate.Accepts ctx expr → ∀ t ∈ ctx.tests expr, gate.InOrder t.root (ctx.log t)

/-- What the gate does not ask of a query it accepts: in the expression that is scanned, a
narrowing operand of an enclosing conjunction stands before every prohibitive condition that the
operands before it let the evaluation through to. -/
def FiltersFirst (ctx : GraphEvalContext) (expr : Expr) : Prop :=
  gate.Accepts ctx expr → ∀ t ∈ ctx.tests expr, ∀ p c, t.root.at p = some c →
    gate.isProhibitive c → ctx.TestReaches t p → gate.NarrowedBefore t.root p

/-- The gate is sound for a run of the evaluator exactly when filters stand first. -/
theorem cost_gate_sound_iff (gate : CostGate) (ctx : GraphEvalContext) (expr : Expr) :
    gate.SoundFor ctx expr ↔ gate.FiltersFirst ctx expr := by
  constructor
  · intro h haccepts t ht
    exact inOrder_iff.mp (h haccepts t ht)
  · intro h haccepts t ht
    exact inOrder_iff.mpr (h haccepts t ht)

section Example

def smallGate : CostGate where
  cfg := { CostGateConfig.default with nodeCountThreshold := some 1 }
  parse := fun pattern => if pattern = ".*x" then some ⟨none, some 1⟩ else none

def nameEndsInX : Expr :=
  .condition "name" .regex (.regex ⟨".*x", ⟨false, false, false⟩⟩) .synthetic

/-- `name~=/.*x/ AND kind:function` -/
def regexFirst : Expr :=
  .and [nameEndsInX, .condition "kind" .equal (.string "function") .synthetic]

/-- The filter couples the regex, but the regex is evaluated first, on every node. -/
theorem regex_runs_before_filter :
    ¬ ∀ (gate : CostGate) (ctx : GraphEvalContext) (expr : Expr), gate.SoundFor ctx expr := by
  intro h
  have htests : GraphEvalContext.oneCall.tests regexFirst =
      [⟨100, ∅, regexFirst, ⟨0, 1⟩⟩, ⟨100, ∅, regexFirst, ⟨1, 1⟩⟩] := rfl
  have hsound := h smallGate GraphEvalContext.oneCall regexFirst ⟨by decide, by decide⟩
    ⟨100, ∅, regexFirst, ⟨0, 1⟩⟩ (by rw [htests]; exact List.mem_cons_self)
  obtain ⟨_, _, _, _, _, _, _, _, _, _, hbefore⟩ :=
    hsound [] [0] (.ok false) [] nameEndsInX rfl rfl (by decide)
  cases hbefore

end Example

end CostGate

end Sqry
