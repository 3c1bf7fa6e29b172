import Sqry.Query.Subquery

/-!
When the cache of subqueries is transparent. The reference meaning of a query gives every
subquery the nodes that its own expression returns when it is evaluated alone. The cache
is found by span, and the scan that fills it visits absorbed nodes too; the evaluation
agrees with the reference when spans tell subqueries apart and no absorbed node satisfies
one.
-/

namespace Sqry

def SpansTell (expr : Expr) : Prop :=
  ∀ p ∈ collectSubqueryExprs expr, ∀ q ∈ collectSubqueryExprs expr, p.1 = q.1 → p.2 = q.2

section Collect

theorem collectSubqueryOperands_eq (es : List Expr) :
    collectSubqueryOperands es = es.flatMap collectSubqueryExprs := by
  induction es with
  | nil => rfl
  | cons e es ih => rw [collectSubqueryOperands, ih, List.flatMap_cons]

def InnerFirst (l : List (SpanKey × Expr)) : Prop :=
  ∀ before key inner after, l = before ++ (key, inner) :: after →
    ∀ p ∈ collectSubqueryExprs inner, p ∈ before

theorem innerFirst_append {l l' : List (SpanKey × Expr)} (h : InnerFirst l)
    (h' : InnerFirst l') : InnerFirst (l ++ l') := by
  intro before key inner after heq p hp
  rcases List.append_eq_append_iff.mp heq with ⟨rest, hbefore, hrest⟩ | ⟨rest, hl, hrest⟩
  · rw [hbefore]
    exact List.mem_append_right l (h' rest key inner after hrest p hp)
  · cases rest with
    | nil =>
      rw [List.append_nil] at hl
      rw [List.nil_append] at hrest
      exact absurd (h' [] key inner after hrest.symm p hp) List.not_mem_nil
    | cons first rest =>
      rw [List.cons_append] at hrest
      obtain ⟨hfirst, _⟩ := List.cons.inj hrest
      rw [← hfirst] at hl
      exact h before key inner rest hl p hp

theorem innerFirst_concat {l : List (SpanKey × Expr)} {key : SpanKey} {inner : Expr}
    (h : InnerFirst l) (hinner : ∀ p ∈ collectSubqueryExprs inner, p ∈ l) :
    InnerFirst (l ++ [(key, inner)]) := by
  intro before key' inner' after heq p hp
  rcases List.append_eq_append_iff.mp heq with ⟨rest, hbefore, hrest⟩ | ⟨rest, hl, hrest⟩
  · cases rest with
    | nil =>
      cases hrest
      rw [hbefore, List.append_nil]
      exact hinner p hp
    | cons first rest =>
      have hlen := congrArg List.length hrest
      simp at hlen
  · cases rest with
    | nil =>
      cases hrest
      rw [List.append_nil] at hl
      rw [← hl]
      exact hinner p hp
    | cons first rest =>
      rw [List.cons_append] at hrest
      obtain ⟨hfirst, _⟩ := List.cons.inj hrest
      rw [← hfirst] at hl
      exact h before key' inner' rest hl p hp

theorem innerFirst_flatMap {es : List Expr}
    (h : ∀ e ∈ es, InnerFirst (collectSubqueryExprs e)) :
    InnerFirst (es.flatMap collectSubqueryExprs) := by
  induction es with
  | nil =>
    intro before key inner after heq
    cases before <;> cases heq
  | cons e es ih =>
    rw [List.flatMap_cons]
    exact innerFirst_append (h e List.mem_cons_self)
      (ih fun e' he' => h e' (List.mem_cons_of_mem e he'))

theorem innerFirst_collect (expr : Expr) : InnerFirst (collectSubqueryExprs expr) := by
  induction expr using Expr.inductOn with
  | or es ih =>
    rw [collectSubqueryExprs, collectSubqueryOperands_eq]
    exact innerFirst_flatMap ih
  | and es ih =>
    rw [collectSubqueryExprs, collectSubqueryOperands_eq]
    exact innerFirst_flatMap ih
  | not e ih =>
    rw [collectSubqueryExprs]
    exact ih
  | condition field operator value span ih =>
    cases value with
    | subquery inner =>
      rw [collectSubqueryExprs]
      exact innerFirst_concat (ih inner rfl) fun p hp => hp
    | _ =>
      intro before key inner after heq
      cases before <;> cases heq
  | join left edge right span ihl ihr =>
    rw [collectSubqueryExprs]
    exact innerFirst_append ihl ihr

end Collect

namespace NodeTests
variable (tests : NodeTests) (lookup : QuerySpan → Expr → Option (List NodeId))

mutual

/-- What an expression says of a node, when `lookup` gives the nodes of the subqueries. -/
def satisfies (node : NodeId) : Expr → Bool
  | .condition field operator value span =>
    match tests.evaluateConditionWith lookup node field operator value span with
    | .ok verdict => verdict
    | .error _ => false
  | .and operands => satisfiesAll node operands
  | .or operands => satisfiesAny node operands
  | .not operand => !satisfies node operand
  | .join .. => false

def satisfiesAll (node : NodeId) : List Expr → Bool
  | [] => true
  | operand :: operands => satisfies node operand && satisfiesAll node operands

def satisfiesAny (node : NodeId) : List Expr → Bool
  | [] => false
  | operand :: operands => satisfies node operand || satisfiesAny node operands

end

variable {tests lookup}

theorem matchFieldSubquery_congr {s : GraphSnapshot} {field : String} {node : NodeId}
    {found found' : List NodeId} (h : ∀ n, n ∈ found ↔ n ∈ found') :
    matchFieldSubquery s field node (some found) =
      matchFieldSubquery s field node (some found') := by
  have hcontains : ∀ n, found.contains n = found'.contains n := by
    intro n
    rw [Bool.eq_iff_iff, List.contains_iff_mem, List.contains_iff_mem]
    exact h n
  simp only [matchFieldSubquery, matchCallersSubquery, matchCalleesSubquery,
    matchImportsSubquery, matchExportsSubquery, matchReferencesSubquery,
    matchImplementsSubquery, matchRelationSubquery, hcontains]

def SameNodes (lookup lookup' : QuerySpan → Expr → Option (List NodeId)) (expr : Expr) : Prop :=
  ∀ span inner, (span.key, inner) ∈ collectSubqueryExprs expr →
    ∃ found found', lookup span inner = some found ∧ lookup' span inner = some found' ∧
      ∀ n, n ∈ found ↔ n ∈ found'

theorem evaluateNodeWith_congr {lookup lookup' : QuerySpan → Expr → Option (List NodeId)}
    {limit depth : Nat} {node : NodeId} {expr : Expr} (h : SameNodes lookup lookup' expr) :
    tests.evaluateNodeWith lookup limit depth node expr =
      tests.evaluateNodeWith lookup' limit depth node expr := by
  induction expr using Expr.inductOn generalizing depth with
  | or es ih =>
    rw [evaluateNodeWith, evaluateNodeWith]
    congr 1
    rw [SameNodes, collectSubqueryExprs, collectSubqueryOperands_eq] at h
    induction es with
    | nil => rfl
    | cons e es ihes =>
      have he : tests.evaluateNodeWith lookup limit (depth + 1) node e =
          tests.evaluateNodeWith lookup' limit (depth + 1) node e :=
        ih e List.mem_cons_self fun span inner hmem =>
          h span inner (List.mem_append_left _ hmem)
      have hes := ihes (fun e' he' => ih e' (List.mem_cons_of_mem e he'))
        fun span inner hmem => h span inner (List.mem_append_right _ hmem)
      rw [evaluateOrWith, evaluateOrWith, he, hes]
  | and es ih =>
    rw [evaluateNodeWith, evaluateNodeWith]
    congr 1
    rw [SameNodes, collectSubqueryExprs, collectSubqueryOperands_eq] at h
    induction es with
    | nil => rfl
    | cons e es ihes =>
      have he : tests.evaluateNodeWith lookup limit (depth + 1) node e =
          tests.evaluateNodeWith lookup' limit (depth + 1) node e :=
        ih e List.mem_cons_self fun span inner hmem =>
          h span inner (List.mem_append_left _ hmem)
      have hes := ihes (fun e' he' => ih e' (List.mem_cons_of_mem e he'))
        fun span inner hmem => h span inner (List.mem_append_right _ hmem)
      rw [evaluateAndWith, evaluateAndWith, he, hes]
  | not e ih =>
    rw [SameNodes, collectSubqueryExprs] at h
    rw [evaluateNodeWith, evaluateNodeWith, ih h]
  | condition field operator value span ih =>
    rw [evaluateNodeWith, evaluateNodeWith]
    congr 1
    cases value with
    | subquery inner =>
      rw [SameNodes, collectSubqueryExprs] at h
      obtain ⟨found, found', hfound, hfound', hsame⟩ :=
        h span inner (List.mem_append_right _ List.mem_cons_self)
      rw [evaluateConditionWith, evaluateConditionWith]
      cases tests.graph.nodes.get node with
      | none => rfl
      | some entry =>
        simp only [hfound, hfound', matchFieldSubquery_congr hsame]
    | _ => rfl
  | join left edge right span ihl ihr => rw [evaluateNodeWith, evaluateNodeWith]

theorem eq_of_guarded {limit depth : Nat} {verdict : Except EvalError Bool} {b : Bool}
    (h : guarded limit depth verdict = .ok b) : verdict = .ok b := by
  rw [guarded] at h
  by_cases hdepth : depth + 1 > limit
  · rw [if_pos hdepth] at h
    cases h
  · rw [if_neg hdepth] at h
    exact h

theorem satisfies_of_evaluate {limit depth : Nat} {node : NodeId} {expr : Expr} {b : Bool}
    (h : tests.evaluateNodeWith lookup limit depth node expr = .ok b) :
    tests.satisfies lookup node expr = b := by
  induction expr using Expr.inductOn generalizing depth b with
  | or es ih =>
    rw [evaluateNodeWith] at h
    have hany := eq_of_guarded h
    rw [satisfies]
    clear h
    induction es with
    | nil =>
      cases hany
      rfl
    | cons e es ihes =>
      rw [evaluateOrWith] at hany
      rw [satisfiesAny]
      cases he : tests.evaluateNodeWith lookup limit (depth + 1) node e with
      | error err =>
        rw [he] at hany
        cases hany
      | ok verdict =>
        rw [he] at hany
        rw [ih e List.mem_cons_self he]
        cases verdict with
        | true =>
          cases hany
          rfl
        | false =>
          rw [Bool.false_or]
          exact ihes (fun e' he' => ih e' (List.mem_cons_of_mem e he')) hany
  | and es ih =>
    rw [evaluateNodeWith] at h
    have hall := eq_of_guarded h
    rw [satisfies]
    clear h
    induction es with
    | nil =>
      cases hall
      rfl
    | cons e es ihes =>
      rw [evaluateAndWith] at hall
      rw [satisfiesAll]
      cases he : tests.evaluateNodeWith lookup limit (depth + 1) node e with
      | error err =>
        rw [he] at hall
        cases hall
      | ok verdict =>
        rw [he] at hall
        rw [ih e List.mem_cons_self he]
        cases verdict with
        | false =>
          cases hall
          rfl
        | true =>
          rw [Bool.true_and]
          exact ihes (fun e' he' => ih e' (List.mem_cons_of_mem e he')) hall
  | not e ih =>
    rw [evaluateNodeWith] at h
    have hnot := eq_of_guarded h
    rw [satisfies]
    cases he : tests.evaluateNodeWith lookup limit (depth + 1) node e with
    | error err =>
      rw [he] at hnot
      cases hnot
    | ok verdict =>
      rw [he] at hnot
      cases hnot
      rw [ih he]
  | condition field operator value span ih =>
    rw [evaluateNodeWith] at h
    rw [satisfies, eq_of_guarded h]
  | join left edge right span ihl ihr =>
    rw [evaluateNodeWith] at h
    cases eq_of_guarded h

end NodeTests

namespace GraphEvalContext
variable (ctx : GraphEvalContext)

/-- The context for an evaluation on its own: nothing cached, nobody to cancel it and no
budget to speak of. -/
def alone : GraphEvalContext :=
  { ctx with cancelled := fun _ => false, examined := 0, maxRows := u64Max, subqueryCache := ∅ }

def aloneNodes (_ : QuerySpan) (inner : Expr) : Option (List NodeId) :=
  match ctx.alone.evaluateAll inner with
  | .ok found => some found
  | .error _ => none

def satisfies : NodeId → Expr → Bool := ctx.toNodeTests.satisfies ctx.aloneNodes

def Absorbed (node : NodeId) : Prop :=
  ∃ entry, (node, entry) ∈ ctx.graph.nodes.iter ∧ entry.isUnifiedLoser = true

def AbsorbedFail (expr : Expr) : Prop :=
  ∀ p ∈ collectSubqueryExprs expr, ∀ node, ctx.Absorbed node → ctx.satisfies node p.2 = false

section Scan

/-- A scan whose verdicts are right returns the right nodes, and it saw a verdict for each
node. -/
theorem scanFrom_eq_ok {examine : Nat → NodeId → Except EvalError Bool} {p : NodeId → Bool}
    (hright : ∀ j node b, examine j node = .ok b → p node = b) {i : Nat} {nodes found : List NodeId}
    (h : scanFrom examine i nodes = .ok found) :
    found = nodes.filter p ∧ ∀ node ∈ nodes, ∃ j b, examine j node = .ok b := by
  induction nodes generalizing i found with
  | nil =>
    cases h
    exact ⟨rfl, fun node hnode => absurd hnode List.not_mem_nil⟩
  | cons node nodes ih =>
    rw [scanFrom] at h
    cases hnode : examine i node with
    | error e =>
      rw [hnode] at h
      cases h
    | ok verdict =>
      rw [hnode] at h
      cases hrest : scanFrom examine (i + 1) nodes with
      | error e =>
        rw [hrest] at h
        cases h
      | ok rest =>
        rw [hrest] at h
        cases h
        obtain ⟨hfilter, hall⟩ := ih hrest
        refine ⟨?_, ?_⟩
        · rw [List.filter_cons, hright i node verdict hnode, ← hfilter]
        · intro n hn
          cases List.mem_cons.mp hn with
          | inl heq => exact ⟨i, verdict, heq ▸ hnode⟩
          | inr hmem => exact hall n hmem

theorem scanFrom_of_ok {examine : Nat → NodeId → Except EvalError Bool} {p : NodeId → Bool}
    {i : Nat} {nodes : List NodeId}
    (h : ∀ j node, j < i + nodes.length → node ∈ nodes → examine j node = .ok (p node)) :
    scanFrom examine i nodes = .ok (nodes.filter p) := by
  induction nodes generalizing i with
  | nil => rfl
  | cons node nodes ih =>
    have hlen : (node :: nodes).length = nodes.length + 1 := rfl
    have hnode := h i node (by omega) List.mem_cons_self
    have hrest : scanFrom examine (i + 1) nodes = .ok (nodes.filter p) :=
      ih fun j n hj hn => h j n (by omega) (List.mem_cons_of_mem node hn)
    rw [scanFrom, hnode, hrest, List.filter_cons]

end Scan

section Cache

def allNodes : List NodeId := ctx.graph.nodes.iter.map Prod.fst

/-- Every node has a verdict on the subquery, and evaluated alone the subquery returns the
nodes that satisfy it, absorbed or not. -/
structure Settled (inner : Expr) : Prop where
  verdict : ∀ limit, ctx.exprDepth = .ok limit → ∀ node ∈ ctx.allNodes,
    ctx.toNodeTests.evaluateNodeWith ctx.aloneNodes limit 0 node inner =
      .ok (ctx.satisfies node inner)
  returns : ∃ found, ctx.alone.evaluateAll inner = .ok found ∧
    ∀ node, node ∈ found ↔ node ∈ ctx.allNodes ∧ ctx.satisfies node inner = true

def CachedRight (cache : SubqueryCache) (l : List (SpanKey × Expr)) : Prop :=
  ∀ p ∈ l, ctx.Settled p.2 ∧ ∃ found, cache.lookup p.1 = some found ∧
    ∀ node, node ∈ found ↔ node ∈ ctx.allNodes ∧ ctx.satisfies node p.2 = true

def KeysTell (l : List (SpanKey × Expr)) : Prop := ∀ p ∈ l, ∀ q ∈ l, p.1 = q.1 → p.2 = q.2

def KeysFrom (cache : SubqueryCache) (l : List (SpanKey × Expr)) : Prop :=
  ∀ key found, cache.lookup key = some found → ∃ inner, (key, inner) ∈ l

variable {ctx}

theorem Settled.alone {inner : Expr} (h : ctx.Settled inner) : ctx.alone.Settled inner :=
  ⟨h.verdict, h.returns⟩

theorem evaluateNode_of_cachedRight {cache : SubqueryCache} {limit : Nat} {node : NodeId}
    {expr : Expr} (h : ctx.CachedRight cache (collectSubqueryExprs expr)) :
    evaluateNode { ctx with subqueryCache := cache } limit 0 node expr =
      ctx.toNodeTests.evaluateNodeWith ctx.aloneNodes limit 0 node expr := by
  refine NodeTests.evaluateNodeWith_congr fun span inner hmem => ?_
  obtain ⟨hsettled, found, hlookup, hfound⟩ := h (span.key, inner) hmem
  obtain ⟨found', hreturns, hfound'⟩ := hsettled.returns
  refine ⟨found, found', hlookup, ?_, fun n => (hfound n).trans (hfound' n).symm⟩
  rw [aloneNodes, hreturns]

theorem evaluateSubquery_eq {limit : Nat} (hdepth : ctx.exprDepth = .ok limit) (expr : Expr) :
    ctx.evaluateSubquery expr =
      scanFrom (fun _ node => ctx.evaluateNode limit 0 node expr) 0 ctx.allNodes := by
  rw [evaluateSubquery, hdepth]
  rfl

theorem exists_depth {cache : SubqueryCache} {expr : Expr} {found : List NodeId}
    (h : evaluateSubquery { ctx with subqueryCache := cache } expr = .ok found) :
    ∃ limit, ctx.exprDepth = .ok limit := by
  rw [evaluateSubquery] at h
  cases hdepth : ctx.exprDepth with
  | error e =>
    simp only [hdepth] at h
    cases h
  | ok limit => exact ⟨limit, rfl⟩

theorem lookup_precomputeFrom {l : List (SpanKey × Expr)} {cache cache' : SubqueryCache}
    (h : ctx.precomputeFrom l cache = .ok cache') {key : SpanKey} {found : List NodeId}
    (hlookup : cache.lookup key = some found) : cache'.lookup key = some found := by
  induction l generalizing cache with
  | nil =>
    cases h
    exact hlookup
  | cons p l ih =>
    rw [precomputeFrom] at h
    by_cases hkey : (cache.lookup p.1).isSome = true
    · rw [if_pos hkey] at h
      exact ih h hlookup
    · rw [if_neg hkey] at h
      cases heval : evaluateSubquery { ctx with subqueryCache := cache } p.2 with
      | error e =>
        rw [heval] at h
        cases h
      | ok nodes =>
        rw [heval] at h
        refine ih h ?_
        have hne : key ≠ p.1 := by
          intro heq
          rw [← heq, hlookup] at hkey
          exact hkey rfl
        rw [AList.lookup_insert_ne hne]
        exact hlookup

theorem keysFrom_insert {cache : SubqueryCache} {l : List (SpanKey × Expr)} {key : SpanKey}
    {inner : Expr} {found : List NodeId} (h : KeysFrom cache l) :
    KeysFrom (cache.insert key found) (l ++ [(key, inner)]) := by
  intro key' found' hlookup
  by_cases heq : key' = key
  · rw [heq]
    exact ⟨inner, List.mem_append_right l List.mem_cons_self⟩
  · rw [AList.lookup_insert_ne heq] at hlookup
    obtain ⟨inner', hmem⟩ := h key' found' hlookup
    exact ⟨inner', List.mem_append_left _ hmem⟩

theorem cachedRight_insert {cache : SubqueryCache} {l : List (SpanKey × Expr)} {key : SpanKey}
    {inner : Expr} {found : List NodeId} (h : ctx.CachedRight cache l)
    (hnew : (cache.lookup key).isSome ≠ true) (hsettled : ctx.Settled inner)
    (hfound : ∀ node, node ∈ found ↔ node ∈ ctx.allNodes ∧ ctx.satisfies node inner = true) :
    ctx.CachedRight (cache.insert key found) (l ++ [(key, inner)]) := by
  intro p hp
  cases List.mem_append.mp hp with
  | inl hmem =>
    obtain ⟨hsettledp, foundp, hlookup, hfoundp⟩ := h p hmem
    have hne : p.1 ≠ key := by
      intro heq
      rw [← heq, hlookup] at hnew
      exact hnew rfl
    exact ⟨hsettledp, foundp, by rw [AList.lookup_insert_ne hne, hlookup], hfoundp⟩
  | inr hmem =>
    cases List.mem_singleton.mp hmem
    exact ⟨hsettled, found, AList.lookup_insert cache, hfound⟩

theorem cachedRight_hit {cache : SubqueryCache} {before after : List (SpanKey × Expr)}
    {key : SpanKey} {inner : Expr} (htell : KeysTell (before ++ (key, inner) :: after))
    (hfrom : KeysFrom cache before) (h : ctx.CachedRight cache before)
    (hkey : (cache.lookup key).isSome = true) :
    (key, inner) ∈ before ∧ ctx.CachedRight cache (before ++ [(key, inner)]) := by
  obtain ⟨found, hfound⟩ := Option.isSome_iff_exists.mp hkey
  obtain ⟨inner', hmem⟩ := hfrom key found hfound
  have hsame : inner' = inner := htell (key, inner') (List.mem_append_left _ hmem) (key, inner)
    (List.mem_append_right before List.mem_cons_self) rfl
  rw [hsame] at hmem
  refine ⟨hmem, ?_⟩
  intro p hp
  cases List.mem_append.mp hp with
  | inl hp => exact h p hp
  | inr hp =>
    rw [List.mem_singleton.mp hp]
    exact h (key, inner) hmem

theorem precomputeFrom_of_settled {limit : Nat} (hdepth : ctx.exprDepth = .ok limit)
    {before l : List (SpanKey × Expr)} {cache : SubqueryCache}
    (hinner : InnerFirst (before ++ l)) (htell : KeysTell (before ++ l))
    (hsettled : ∀ p ∈ l, ctx.Settled p.2) (hfrom : KeysFrom cache before)
    (hright : ctx.CachedRight cache before) :
    ∃ cache', ctx.precomputeFrom l cache = .ok cache' ∧
      ctx.CachedRight cache' (before ++ l) := by
  induction l generalizing before cache with
  | nil =>
    rw [List.append_nil]
    exact ⟨cache, rfl, hright⟩
  | cons p l ih =>
    obtain ⟨key, inner⟩ := p
    have hsplit : before ++ (key, inner) :: l = (before ++ [(key, inner)]) ++ l := by
      rw [List.append_assoc, List.singleton_append]
    have hrest : ∀ q ∈ l, ctx.Settled q.2 := fun q hq =>
      hsettled q (List.mem_cons_of_mem _ hq)
    rw [precomputeFrom]
    by_cases hkey : (cache.lookup key).isSome = true
    · rw [if_pos hkey]
      obtain ⟨_, hright'⟩ := cachedRight_hit htell hfrom hright hkey
      have hfrom' : KeysFrom cache (before ++ [(key, inner)]) := fun key' found hlookup =>
        (hfrom key' found hlookup).imp fun _ hmem => List.mem_append_left _ hmem
      rw [hsplit] at hinner htell ⊢
      exact ih hinner htell hrest hfrom' hright'
    · rw [if_neg hkey]
      have hown := hsettled (key, inner) List.mem_cons_self
      have hneeds : ctx.CachedRight cache (collectSubqueryExprs inner) := fun q hq =>
        hright q (hinner before key inner l rfl q hq)
      have hscan : evaluateSubquery { ctx with subqueryCache := cache } inner =
          .ok (ctx.allNodes.filter fun node => ctx.satisfies node inner) := by
        rw [@evaluateSubquery_eq { ctx with subqueryCache := cache } limit hdepth]
        refine scanFrom_of_ok fun _ node _ hnode => ?_
        rw [evaluateNode_of_cachedRight hneeds]
        exact hown.verdict limit hdepth node hnode
      rw [hscan]
      have hright' := cachedRight_insert hright hkey hown fun node => List.mem_filter
      rw [hsplit] at hinner htell ⊢
      exact ih hinner htell hrest (keysFrom_insert hfrom) hright'

theorem mem_candidates {node : NodeId} :
    node ∈ ctx.candidates ↔
      ∃ entry, (node, entry) ∈ ctx.graph.nodes.iter ∧ entry.isUnifiedLoser = false := by
  rw [candidates, List.mem_map]
  constructor
  · intro ⟨p, hp, hnode⟩
    obtain ⟨hmem, hkept⟩ := List.mem_filter.mp hp
    cases hnode
    exact ⟨p.2, hmem, by simpa using hkept⟩
  · intro ⟨entry, hmem, hkept⟩
    exact ⟨(node, entry), List.mem_filter.mpr ⟨hmem, by simpa using hkept⟩, rfl⟩

theorem mem_allNodes {node : NodeId} :
    node ∈ ctx.allNodes ↔ ∃ entry, (node, entry) ∈ ctx.graph.nodes.iter := by
  rw [allNodes, List.mem_map]
  constructor
  · intro ⟨p, hp, hnode⟩
    cases hnode
    exact ⟨p.2, hp⟩
  · intro ⟨entry, hmem⟩
    exact ⟨(node, entry), hmem, rfl⟩

theorem mem_filter_candidates {expr : Expr}
    (hfail : ∀ node, ctx.Absorbed node → ctx.satisfies node expr = false) (node : NodeId) :
    (node ∈ ctx.candidates.filter fun node => ctx.satisfies node expr) ↔
      node ∈ ctx.allNodes ∧ ctx.satisfies node expr = true := by
  rw [List.mem_filter, mem_candidates, mem_allNodes]
  constructor
  · intro ⟨⟨entry, hmem, _⟩, hsat⟩
    exact ⟨⟨entry, hmem⟩, hsat⟩
  · intro ⟨⟨entry, hmem⟩, hsat⟩
    cases hloser : entry.isUnifiedLoser with
    | false => exact ⟨⟨entry, hmem, hloser⟩, hsat⟩
    | true =>
      rw [hfail node ⟨entry, hmem, hloser⟩] at hsat
      cases hsat

theorem stopBefore_alone {i : Nat} (h : i < ctx.candidates.length) (cache : SubqueryCache) :
    stopBefore { ctx.alone with subqueryCache := cache } i = none := by
  have hlen : ctx.candidates.length ≤ u32Max + 1 := by
    rw [candidates, List.length_map]
    exact Nat.le_trans (List.length_filter_le _ _) (NodeArena.length_iter _)
  have hrows : ¬ 0 + i + 1 ≥ u64Max := by
    simp only [u32Max, u64Max] at *
    omega
  have hpoll : ¬ ((!ctx.disableParallel || (i + 1) % CANCELLATION_POLL_BATCH = 0) &&
      false) = true := by simp
  exact (if_neg hpoll).trans (if_neg hrows)

/-- A subquery whose inner subqueries are settled, and on which every node has a verdict and
the absorbed ones a negative one, is settled. -/
theorem settled_of_verdict {inner : Expr} {limit : Nat} (hdepth : ctx.exprDepth = .ok limit)
    (htell : SpansTell inner) (hinner : ∀ p ∈ collectSubqueryExprs inner, ctx.Settled p.2)
    (hverdict : ∀ node ∈ ctx.allNodes,
      ctx.toNodeTests.evaluateNodeWith ctx.aloneNodes limit 0 node inner =
        .ok (ctx.satisfies node inner))
    (hfail : ∀ node, ctx.Absorbed node → ctx.satisfies node inner = false) :
    ctx.Settled inner := by
  refine ⟨?_, ctx.candidates.filter fun node => ctx.satisfies node inner, ?_,
    mem_filter_candidates hfail⟩
  · intro limit' hdepth' node hnode
    rw [hdepth] at hdepth'
    cases hdepth'
    exact hverdict node hnode
  · obtain ⟨cache, hcache, hright⟩ := @precomputeFrom_of_settled ctx.alone limit hdepth []
      (collectSubqueryExprs inner) ∅ (innerFirst_collect inner) htell
      (fun p hp => (hinner p hp).alone)
      (fun key found h => by rw [AList.lookup_empty] at h; cases h)
      (fun p hp => absurd hp List.not_mem_nil)
    have hprecompute : ctx.alone.precomputeSubqueries inner = .ok cache := hcache
    have hscan : scanFrom
        (examineNode { ctx.alone with subqueryCache := cache } limit inner) 0
          ctx.alone.candidates =
        .ok (ctx.candidates.filter fun node => ctx.satisfies node inner) := by
      refine scanFrom_of_ok fun i node hi hnode => ?_
      rw [Nat.zero_add] at hi
      have hstop := @stopBefore_alone ctx i hi cache
      rw [examineNode, hstop]
      obtain ⟨entry, hmem, _⟩ := mem_candidates.mp hnode
      have hsame := @evaluateNode_of_cachedRight ctx.alone cache limit node inner hright
      exact hsame.trans (hverdict node (mem_allNodes.mpr ⟨entry, hmem⟩))
    rw [evaluateAll, hprecompute]
    rw [show ctx.alone.exprDepth = .ok limit from hdepth]
    exact hscan

/-- Filling the cache settles the subqueries, if every subquery whose cached nodes are the
ones that satisfy it is failed by the absorbed nodes. -/
theorem settled_of_precomputeFrom {before l : List (SpanKey × Expr)}
    {cache cache' : SubqueryCache} (h : ctx.precomputeFrom l cache = .ok cache')
    (hinner : InnerFirst (before ++ l)) (htell : KeysTell (before ++ l))
    (hfrom : KeysFrom cache before) (hright : ctx.CachedRight cache before)
    (hbefore : ∀ p ∈ before, ∀ node, ctx.Absorbed node → ctx.satisfies node p.2 = false)
    (hfail : ∀ p ∈ l, ∀ found, cache'.lookup p.1 = some found →
      (∀ node, node ∈ found ↔ node ∈ ctx.allNodes ∧ ctx.satisfies node p.2 = true) →
      ∀ node, ctx.Absorbed node → ctx.satisfies node p.2 = false) :
    ctx.CachedRight cache' (before ++ l) ∧ KeysFrom cache' (before ++ l) ∧
      ∀ p ∈ before ++ l, ∀ node, ctx.Absorbed node → ctx.satisfies node p.2 = false := by
  induction l generalizing before cache with
  | nil =>
    cases h
    rw [List.append_nil]
    exact ⟨hright, hfrom, hbefore⟩
  | cons p l ih =>
    obtain ⟨key, inner⟩ := p
    have hsplit : before ++ (key, inner) :: l = (before ++ [(key, inner)]) ++ l := by
      rw [List.append_assoc, List.singleton_append]
    have hrest : ∀ q ∈ l, ∀ found, cache'.lookup q.1 = some found →
        (∀ node, node ∈ found ↔ node ∈ ctx.allNodes ∧ ctx.satisfies node q.2 = true) →
        ∀ node, ctx.Absorbed node → ctx.satisfies node q.2 = false := fun q hq =>
      hfail q (List.mem_cons_of_mem _ hq)
    have hneeds : ∀ q ∈ collectSubqueryExprs inner, q ∈ before := hinner before key inner l rfl
    rw [precomputeFrom] at h
    by_cases hkey : (cache.lookup key).isSome = true
    · rw [if_pos hkey] at h
      obtain ⟨hmem, hright'⟩ := cachedRight_hit htell hfrom hright hkey
      have hfrom' : KeysFrom cache (before ++ [(key, inner)]) := fun key' found hlookup =>
        (hfrom key' found hlookup).imp fun _ hmem => List.mem_append_left _ hmem
      rw [hsplit] at hinner htell ⊢
      refine ih h hinner htell hfrom' hright' ?_ hrest
      intro q hq
      cases List.mem_append.mp hq with
      | inl hq => exact hbefore q hq
      | inr hq =>
        rw [List.mem_singleton.mp hq]
        exact hbefore (key, inner) hmem
    · rw [if_neg hkey] at h
      cases heval : evaluateSubquery { ctx with subqueryCache := cache } inner with
      | error e =>
        rw [heval] at h
        cases h
      | ok found =>
        rw [heval] at h
        have hlookup : cache'.lookup key = some found :=
          lookup_precomputeFrom h (AList.lookup_insert cache)
        obtain ⟨hfound, hsettled, hnot⟩ : (∀ node, node ∈ found ↔
            node ∈ ctx.allNodes ∧ ctx.satisfies node inner = true) ∧ ctx.Settled inner ∧
            ∀ node, ctx.Absorbed node → ctx.satisfies node inner = false := by
          obtain ⟨limit, hdepth⟩ := exists_depth heval
          have hcached : ctx.CachedRight cache (collectSubqueryExprs inner) := fun q hq =>
            hright q (hneeds q hq)
          rw [@evaluateSubquery_eq { ctx with subqueryCache := cache } limit hdepth] at heval
          have hsound : ∀ (j : Nat) (node : NodeId) (b : Bool),
              evaluateNode { ctx with subqueryCache := cache } limit 0 node inner = .ok b →
                ctx.satisfies node inner = b := by
            intro _ node b hnode
            rw [evaluateNode_of_cachedRight hcached] at hnode
            exact NodeTests.satisfies_of_evaluate hnode
          obtain ⟨hfilter, hall⟩ := scanFrom_eq_ok hsound heval
          have hfound : ∀ node, node ∈ found ↔
              node ∈ ctx.allNodes ∧ ctx.satisfies node inner = true := by
            intro node
            rw [hfilter]
            exact List.mem_filter
          have hnot := hfail (key, inner) List.mem_cons_self found hlookup hfound
          have htells : SpansTell inner := fun q hq r hr =>
            htell q (List.mem_append_left _ (hneeds q hq)) r
              (List.mem_append_left _ (hneeds r hr))
          refine ⟨hfound, ?_, hnot⟩
          refine settled_of_verdict hdepth htells (fun q hq => (hcached q hq).1) ?_ hnot
          intro node hnode
          obtain ⟨_, b, hb⟩ := hall node hnode
          have hsat := hsound 0 node b hb
          rw [← evaluateNode_of_cachedRight hcached, hb, hsat]
        rw [hsplit] at hinner htell ⊢
        refine ih h hinner htell (keysFrom_insert hfrom)
          (cachedRight_insert hright hkey hsettled hfound) ?_ hrest
        intro q hq
        cases List.mem_append.mp hq with
        | inl hq => exact hbefore q hq
        | inr hq =>
          rw [List.mem_singleton.mp hq]
          exact hnot

end Cache

section Transparent
variable {ctx}

theorem evaluateAll_eq_ok {expr : Expr} {found : List NodeId}
    (h : ctx.evaluateAll expr = .ok found) :
    ∃ cache limit, ctx.precomputeSubqueries expr = .ok cache ∧ ctx.exprDepth = .ok limit ∧
      scanFrom (examineNode { ctx with subqueryCache := cache } limit expr) 0 ctx.candidates =
        .ok found := by
  rw [evaluateAll] at h
  by_cases hstart : ctx.cancelled 0 = true
  · rw [if_pos hstart] at h
    cases h
  · rw [if_neg hstart] at h
    cases hcache : ctx.precomputeSubqueries expr with
    | error e =>
      simp only [hcache] at h
      cases h
    | ok cache =>
      cases hdepth : ctx.exprDepth with
      | error e =>
        simp only [hcache, hdepth] at h
        cases h
      | ok limit =>
        simp only [hcache, hdepth] at h
        by_cases hscan : ctx.cancelled 1 = true
        · rw [if_pos hscan] at h
          cases h
        · rw [if_neg hscan] at h
          exact ⟨cache, limit, rfl, rfl, hdepth ▸ h⟩

/-- The subqueries were transparent to an evaluation that returned `found`: the candidates
that satisfy the expression were returned, no two subqueries shared an entry of the cache,
and no absorbed node was in one. -/
structure Transparent (ctx : GraphEvalContext) (expr : Expr) (found : List NodeId) : Prop where
  result : found = ctx.candidates.filter fun node => ctx.satisfies node expr
  entries : ∀ p ∈ collectSubqueryExprs expr, ∀ q ∈ collectSubqueryExprs expr,
    p.2 ≠ q.2 → p.1 ≠ q.1
  nodes : ∀ cache, ctx.precomputeSubqueries expr = .ok cache →
    ∀ key found, cache.lookup key = some found → ∀ node, ctx.Absorbed node → node ∉ found

theorem settled_of_precompute {expr : Expr} {cache : SubqueryCache}
    (hfresh : ctx.subqueryCache = ∅) (h : ctx.precomputeSubqueries expr = .ok cache)
    (htell : SpansTell expr)
    (hfail : ∀ p ∈ collectSubqueryExprs expr, ∀ found, cache.lookup p.1 = some found →
      (∀ node, node ∈ found ↔ node ∈ ctx.allNodes ∧ ctx.satisfies node p.2 = true) →
      ∀ node, ctx.Absorbed node → ctx.satisfies node p.2 = false) :
    ctx.CachedRight cache (collectSubqueryExprs expr) ∧
      KeysFrom cache (collectSubqueryExprs expr) ∧ ctx.AbsorbedFail expr := by
  rw [precomputeSubqueries, hfresh] at h
  exact @settled_of_precomputeFrom ctx [] (collectSubqueryExprs expr) ∅ cache h
    (innerFirst_collect expr) htell
    (fun key found hlookup => by rw [AList.lookup_empty] at hlookup; cases hlookup)
    (fun p hp => absurd hp List.not_mem_nil) (fun p hp => absurd hp List.not_mem_nil) hfail

/-- Precomputed subqueries are transparent exactly when different subqueries stand under
different spans and no absorbed node satisfies one of them. -/
theorem precomputed_subqueries_transparent_iff (ctx : GraphEvalContext) (expr : Expr)
    (found : List NodeId) (hfresh : ctx.subqueryCache = ∅)
    (hok : ctx.evaluateAll expr = .ok found) :
    ctx.Transparent expr found ↔ SpansTell expr ∧ ctx.AbsorbedFail expr := by
  obtain ⟨cache, limit, hcache, hdepth, hscan⟩ := evaluateAll_eq_ok hok
  constructor
  · intro h
    have htell : SpansTell expr := fun p hp q hq hkey =>
      Classical.byContradiction fun hne => h.entries p hp q hq hne hkey
    refine ⟨htell, (settled_of_precompute hfresh hcache htell ?_).2.2⟩
    intro p _ nodes hlookup hnodes node habsorbed
    have hnot := h.nodes cache hcache p.1 nodes hlookup node habsorbed
    obtain ⟨entry, hmem, _⟩ := habsorbed
    rw [hnodes node, not_and, Bool.not_eq_true] at hnot
    exact hnot (mem_allNodes.mpr ⟨entry, hmem⟩)
  · intro ⟨htell, hfail⟩
    obtain ⟨hright, hfrom, _⟩ := settled_of_precompute hfresh hcache htell
      fun p hp _ _ _ => hfail p hp
    refine ⟨?_, ?_, ?_⟩
    · refine (scanFrom_eq_ok ?_ hscan).1
      intro i node b hnode
      rw [examineNode] at hnode
      cases hstop : stopBefore { ctx with subqueryCache := cache } i with
      | some e =>
        rw [hstop] at hnode
        cases hnode
      | none =>
        rw [hstop] at hnode
        have hnode := (evaluateNode_of_cachedRight hright).symm.trans hnode
        exact NodeTests.satisfies_of_evaluate hnode
    · intro p hp q hq hne hkey
      exact hne (htell p hp q hq hkey)
    · intro cache' hcache' key nodes hlookup node habsorbed hmem
      rw [hcache] at hcache'
      cases hcache'
      obtain ⟨inner, hinner⟩ := hfrom key nodes hlookup
      obtain ⟨_, nodes', hlookup', hnodes'⟩ := hright (key, inner) hinner
      rw [hlookup] at hlookup'
      cases hlookup'
      have hsat := ((hnodes' node).mp hmem).2
      rw [hfail (key, inner) hinner node habsorbed] at hsat
      cases hsat

end Transparent

section Agree
variable {ctx : GraphEvalContext} {cache cache' : SubqueryCache}

/-- The entry of a subquery is what the rest of the cache makes of it. -/
def Own (ctx : GraphEvalContext) (cache : SubqueryCache) (p : SpanKey × Expr) : Prop :=
  ∃ found, cache.lookup p.1 = some found ∧
    evaluateSubquery { ctx with subqueryCache := cache } p.2 = .ok found

def Agree (cache cache' : SubqueryCache) (expr : Expr) : Prop :=
  ∀ p ∈ collectSubqueryExprs expr, ∃ found,
    cache.lookup p.1 = some found ∧ cache'.lookup p.1 = some found

theorem evaluateNode_congr {limit depth : Nat} {node : NodeId} {expr : Expr}
    (h : Agree cache cache' expr) :
    evaluateNode { ctx with subqueryCache := cache } limit depth node expr =
      evaluateNode { ctx with subqueryCache := cache' } limit depth node expr := by
  refine NodeTests.evaluateNodeWith_congr fun span inner hmem => ?_
  obtain ⟨found, hfound, hfound'⟩ := h _ hmem
  exact ⟨found, found, hfound, hfound', fun _ => .rfl⟩

theorem evaluateSubquery_congr {inner : Expr} (h : Agree cache cache' inner) :
    evaluateSubquery { ctx with subqueryCache := cache } inner =
      evaluateSubquery { ctx with subqueryCache := cache' } inner := by
  simp only [evaluateSubquery, evaluateNode_congr h]

/-- Filling the cache gives every subquery its own entry. -/
theorem own_of_precomputeFrom {before l : List (SpanKey × Expr)}
    (h : ctx.precomputeFrom l cache = .ok cache') (hinner : InnerFirst (before ++ l))
    (htell : KeysTell (before ++ l)) (hfrom : KeysFrom cache before)
    (hbefore : ∀ p ∈ before, ctx.Own cache' p ∧ ∃ found, cache.lookup p.1 = some found) :
    ∀ p ∈ before ++ l, ctx.Own cache' p := by
  induction l generalizing before cache with
  | nil => exact fun p hp => (hbefore p (List.append_nil before ▸ hp)).1
  | cons p l ih =>
    obtain ⟨key, inner⟩ := p
    have hsplit : before ++ (key, inner) :: l = (before ++ [(key, inner)]) ++ l := by
      rw [List.append_assoc, List.singleton_append]
    rw [precomputeFrom] at h
    by_cases hkey : (cache.lookup key).isSome = true
    · rw [if_pos hkey] at h
      obtain ⟨found, hfound⟩ := Option.isSome_iff_exists.mp hkey
      obtain ⟨inner', hmem⟩ := hfrom key found hfound
      cases htell _ (List.mem_append_left _ hmem) _ (List.mem_append_right before List.mem_cons_self)
        rfl
      rw [hsplit] at hinner htell ⊢
      exact ih h hinner htell (fun key' found' hlookup =>
        (hfrom key' found' hlookup).imp fun _ hmem => List.mem_append_left _ hmem) fun q hq =>
        hbefore q ((List.mem_append.mp hq).elim id fun hq => List.mem_singleton.mp hq ▸ hmem)
    · rw [if_neg hkey] at h
      cases heval : evaluateSubquery { ctx with subqueryCache := cache } inner with
      | error e =>
        rw [heval] at h
        cases h
      | ok found =>
        rw [heval] at h
        have hkept : ∀ q ∈ before, ∃ nodes, (cache.insert key found).lookup q.1 = some nodes ∧
            cache.lookup q.1 = some nodes := by
          intro q hq
          obtain ⟨nodes, hnodes⟩ := (hbefore q hq).2
          have hne : q.1 ≠ key := fun heq => hkey (heq ▸ hnodes ▸ rfl)
          exact ⟨nodes, (AList.lookup_insert_ne hne).trans hnodes, hnodes⟩
        have hagree : Agree cache cache' inner := fun q hq =>
          (hkept q (hinner before key inner l rfl q hq)).imp fun _ hnodes =>
            ⟨hnodes.2, lookup_precomputeFrom h hnodes.1⟩
        rw [hsplit] at hinner htell ⊢
        refine ih h hinner htell (keysFrom_insert hfrom) fun q hq => ?_
        cases List.mem_append.mp hq with
        | inl hq => exact ⟨(hbefore q hq).1, (hkept q hq).imp fun _ hnodes => hnodes.1⟩
        | inr hq =>
          cases List.mem_singleton.mp hq
          exact ⟨⟨found, lookup_precomputeFrom h (AList.lookup_insert cache),
            evaluateSubquery_congr hagree ▸ heval⟩, found, AList.lookup_insert cache⟩

/-- Two caches in which every subquery has its own entry have the same entries. -/
theorem agree_of_own {l : List (SpanKey × Expr)} (hinner : InnerFirst l)
    (h : ∀ p ∈ l, ctx.Own cache p) (h' : ∀ p ∈ l, ctx.Own cache' p) {p : SpanKey × Expr}
    (hp : p ∈ l) : ∃ found, cache.lookup p.1 = some found ∧ cache'.lookup p.1 = some found := by
  obtain ⟨before, after, hl⟩ := List.append_of_mem hp
  -- the subqueries of a subquery stand before it
  induction hn : before.length using Nat.strongRecOn generalizing p before after with
  | ind n ih =>
    have hagree : Agree cache cache' p.2 := by
      intro q hq
      obtain ⟨first, rest, rfl⟩ := List.append_of_mem (hinner before p.1 p.2 after hl q hq)
      refine ih first.length ?_ (hl ▸ by simp) first (rest ++ p :: after) (by simpa using hl) rfl
      rw [← hn, List.length_append, List.length_cons]
      omega
    obtain ⟨found, hfound, heval⟩ := h p hp
    obtain ⟨found', hfound', heval'⟩ := h' p hp
    cases heval.symm.trans ((evaluateSubquery_congr hagree).trans heval')
    exact ⟨found, hfound, hfound'⟩

theorem evaluateAll_satisfying {expr : Expr} {found : List NodeId}
    (hfresh : ctx.subqueryCache = ∅) (htell : SpansTell expr)
    (h : ctx.evaluateAll expr = .ok found) :
    ∃ cache, (∀ p ∈ collectSubqueryExprs expr, ctx.Own cache p) ∧
      ∀ cache', (∀ p ∈ collectSubqueryExprs expr, ctx.Own cache' p) →
        found = ctx.candidates.filter fun node =>
          ctx.toNodeTests.satisfies (cached { ctx with subqueryCache := cache' }) node expr := by
  obtain ⟨cache, limit, hcache, hdepth, hscan⟩ := evaluateAll_eq_ok h
  rw [precomputeSubqueries, hfresh] at hcache
  have hown := @own_of_precomputeFrom ctx ∅ cache [] _ hcache (innerFirst_collect expr) htell
    (fun key found hlookup => by rw [AList.lookup_empty] at hlookup; cases hlookup)
    (List.forall_mem_nil _)
  refine ⟨cache, hown, fun cache' hown' => (scanFrom_eq_ok ?_ hscan).1⟩
  intro i node b hnode
  rw [examineNode] at hnode
  split at hnode
  · cases hnode
  · exact NodeTests.satisfies_of_evaluate ((evaluateNode_congr fun p hp =>
      agree_of_own (innerFirst_collect expr) hown' hown hp).trans hnode)

end Agree

section Example

/-- `kind:function` and `kind:class`, the only conditions below that read no subquery. -/
def matchFunctionOrClass (_ : NodeId) (entry : NodeEntry) (field : String)
    (operator : Operator) (value : Value) : Except EvalError Bool :=
  match field, operator, value with
  | "kind", .equal, .string kind =>
    .ok ((kind = "function" && entry.kind = .function) ||
      (kind = "class" && entry.kind = .class))
  | _, _, _ => .ok false

def oneCall : GraphEvalContext where
  graph :=
    { nodes := ⟨[⟨1, .occupied (.new .function (.ofUInt8 1) 1)⟩,
        ⟨1, .occupied (.new .function (.ofUInt8 2) 1)⟩], none, 2⟩
      strings := ⟨[none, some "f", some "g"], ∅, [0, 1, 1], [], none, true⟩
      files := ⟨[none, some ⟨none⟩]⟩
      edges := BidirectionalEdgeStore.new.addEdge ⟨0, 1⟩ ⟨1, 1⟩ (.calls 0 false .direct) 1 }
  matchPlain := matchFunctionOrClass
  exprDepth := .ok 100
  disableParallel := false
  cancelled := fun _ => false
  examined := 0
  maxRows := u64Max
  subqueryCache := ∅

def ofKind (kind : String) : Expr := .condition "kind" .equal (.string kind) .synthetic

/-- `callers:(kind:…)` -/
def callersOfKind (kind : String) (span : QuerySpan) : Expr :=
  .condition "callers" .equal (.subquery (ofKind kind)) span

theorem precomputed_subqueries_transparent_oneSubquery :
    oneCall.Transparent (callersOfKind "function" .synthetic) [⟨0, 1⟩] := by
  refine (precomputed_subqueries_transparent_iff oneCall (callersOfKind "function" .synthetic)
    [⟨0, 1⟩] rfl (by decide)).mpr ⟨?_, ?_⟩
  · intro p hp q hq _
    rw [List.mem_singleton.mp hp, List.mem_singleton.mp hq]
  · intro p _ node habsorbed
    obtain ⟨entry, hmem, hloser⟩ := habsorbed
    have hkept : ∀ q ∈ oneCall.graph.nodes.iter, q.2.isUnifiedLoser = false := by decide
    rw [hkept (node, entry) hmem] at hloser
    cases hloser

/-- Built without spans, the second subquery is answered with the nodes of the first: a
function that calls no class is found. -/
theorem subqueries_share_synthetic_span :
    ¬ ∀ (ctx : GraphEvalContext) (expr : Expr) (found : List NodeId),
      ctx.subqueryCache = ∅ → ctx.evaluateAll expr = .ok found → ctx.Transparent expr found := by
  intro h
  have hresult := (h oneCall
    (.and [callersOfKind "function" .synthetic, callersOfKind "class" .synthetic]) [⟨0, 1⟩] rfl
    (by decide)).result
  revert hresult
  decide

end Example

end GraphEvalContext
end Sqry
