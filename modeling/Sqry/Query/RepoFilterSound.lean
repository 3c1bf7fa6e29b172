import Sqry.Query.ParsedQuery

/-!
When scoping loses no result. Taking a repo predicate out of a conjunction weakens the
query, but taking it out of a disjunction, or of a conjunction under a negation, makes it
stronger; and a pattern may select the repositories only if no result can do without it.
-/

namespace Sqry

section Shape

def patternOf : Operator → Value → Option String
  | .equal, .string pattern => some pattern
  | _, _ => none

mutual

/-- The repo predicates, each with whether it stands under an even number of negations and
with its pattern. -/
def Expr.repoPredicates : Expr → Bool → List (Bool × Option String)
  | .and operands, positive => Expr.repoPredicatesAll operands positive
  | .or operands, positive => Expr.repoPredicatesAll operands positive
  | .not operand, positive => operand.repoPredicates (!positive)
  | .condition field operator value _, positive =>
    if field = "repo" then [(positive, patternOf operator value)] else []
  | .join left _ right _, positive =>
    left.repoPredicates positive ++ right.repoPredicates positive

def Expr.repoPredicatesAll : List Expr → Bool → List (Bool × Option String)
  | [], _ => []
  | e :: es, positive => e.repoPredicates positive ++ Expr.repoPredicatesAll es positive

end

def Expr.hasNegatedRepo (e : Expr) (positive : Bool) : Bool :=
  (e.repoPredicates positive).any fun p => !p.1

def Expr.repoPatterns (e : Expr) (positive : Bool) : List String :=
  (e.repoPredicates positive).filterMap fun p => if p.1 then p.2 else none

mutual

def Expr.onlyRepo : Expr → Bool
  | .and operands => Expr.onlyRepoAll operands
  | .or operands => Expr.onlyRepoAll operands
  | .not operand => operand.onlyRepo
  | .condition field _ _ _ => field = "repo"
  | .join left _ right _ => left.onlyRepo || right.onlyRepo

def Expr.onlyRepoAll : List Expr → Bool
  | [] => true
  | e :: es => e.onlyRepo && Expr.onlyRepoAll es

end

def Expr.unmixed (es : List Expr) : Bool :=
  (es.all fun e => e.onlyRepo) || es.all fun e => !e.onlyRepo

mutual

def Expr.widens : Expr → Bool → Bool
  | .and operands, positive =>
    (positive || Expr.unmixed operands) && Expr.widensAll operands positive
  | .or operands, positive =>
    (!positive || Expr.unmixed operands) && Expr.widensAll operands positive
  | .not operand, positive => operand.widens (!positive)
  | .condition _ _ _ _, _ => true
  | .join left _ right _, positive =>
    left.onlyRepo || right.onlyRepo || (left.widens positive && right.widens positive)

def Expr.widensAll : List Expr → Bool → Bool
  | [], _ => true
  | e :: es, positive => (e.onlyRepo || e.widens positive) && Expr.widensAll es positive

end

mutual

/-- The expression, or in a negated position its negation, only holds in a repository that
one of its patterns matches. -/
def Expr.requiresPattern : Expr → Bool → Bool
  | .and operands, positive =>
    if positive then Expr.anyRequiresPattern operands positive
    else Expr.allRequirePattern operands positive
  | .or operands, positive =>
    if positive then Expr.allRequirePattern operands positive
    else Expr.anyRequiresPattern operands positive
  | .not operand, positive => operand.requiresPattern (!positive)
  | .condition field operator value _, positive =>
    positive && decide (field = "repo") && (patternOf operator value).isSome
  | .join left _ right _, positive =>
    positive && (left.requiresPattern positive || right.requiresPattern positive)

def Expr.anyRequiresPattern : List Expr → Bool → Bool
  | [], _ => false
  | e :: es, positive => e.requiresPattern positive || Expr.anyRequiresPattern es positive

def Expr.allRequirePattern : List Expr → Bool → Bool
  | [], _ => true
  | e :: es, positive => e.requiresPattern positive && Expr.allRequirePattern es positive

end

/-- No disjunction, and no negated conjunction, mixes repo predicates with others; and if
patterns select the repositories, no result can do without them. -/
structure Expr.FilterSafe (e : Expr) : Prop where
  widens : e.widens true = true
  selects : e.hasNegatedRepo true = true ∨ e.repoPatterns true = [] ∨
    e.requiresPattern true = true

variable {es : List Expr} {positive : Bool}

theorem Expr.repoPredicatesAll_eq :
    Expr.repoPredicatesAll es positive = es.flatMap fun e => e.repoPredicates positive := by
  induction es with
  | nil => rfl
  | cons e es ih => rw [Expr.repoPredicatesAll, ih, List.flatMap_cons]

theorem Expr.onlyRepoAll_eq : Expr.onlyRepoAll es = es.all fun e => e.onlyRepo := by
  induction es with
  | nil => rfl
  | cons e es ih => rw [Expr.onlyRepoAll, ih, List.all_cons]

theorem Expr.widensAll_eq : Expr.widensAll es positive =
    es.all fun e => e.onlyRepo || e.widens positive := by
  induction es with
  | nil => rfl
  | cons e es ih => rw [Expr.widensAll, ih, List.all_cons]

theorem Expr.anyRequiresPattern_eq : Expr.anyRequiresPattern es positive =
    es.any fun e => e.requiresPattern positive := by
  induction es with
  | nil => rfl
  | cons e es ih => rw [Expr.anyRequiresPattern, ih, List.any_cons]

theorem Expr.allRequirePattern_eq : Expr.allRequirePattern es positive =
    es.all fun e => e.requiresPattern positive := by
  induction es with
  | nil => rfl
  | cons e es ih => rw [Expr.allRequirePattern, ih, List.all_cons]

end Shape

section Extract

theorem collectRepoOperands_eq {es : List Expr}
    (ih : ∀ e ∈ es, ∀ patterns isNegated, collectRepoPatterns e patterns isNegated =
      (e.hasNegatedRepo (!isNegated), patterns ++ e.repoPatterns (!isNegated)))
    (patterns : List String) (isNegated : Bool) :
    collectRepoOperands es patterns isNegated =
      ((Expr.repoPredicatesAll es (!isNegated)).any fun p => !p.1,
        patterns ++ (Expr.repoPredicatesAll es (!isNegated)).filterMap fun p =>
          if p.1 then p.2 else none) := by
  induction es generalizing patterns with
  | nil => simp [collectRepoOperands, Expr.repoPredicatesAll]
  | cons e es ihes =>
    rw [collectRepoOperands, ih e List.mem_cons_self]
    simp only [ihes (fun e' h => ih e' (List.mem_cons_of_mem e h)), Expr.repoPredicatesAll,
      List.any_append, List.filterMap_append, List.append_assoc, Expr.hasNegatedRepo,
      Expr.repoPatterns]

theorem collectRepoPatterns_eq (e : Expr) (patterns : List String) (isNegated : Bool) :
    collectRepoPatterns e patterns isNegated =
      (e.hasNegatedRepo (!isNegated), patterns ++ e.repoPatterns (!isNegated)) := by
  induction e using Expr.inductOn generalizing patterns isNegated with
  | or es ih => exact collectRepoOperands_eq ih patterns isNegated
  | and es ih => exact collectRepoOperands_eq ih patterns isNegated
  | not e ih => exact ih patterns (!isNegated)
  | condition field operator value span ih =>
    rw [Expr.hasNegatedRepo, Expr.repoPatterns, Expr.repoPredicates]
    by_cases hfield : field = "repo"
    · cases isNegated with
      | true => simp [collectRepoPatterns, hfield]
      | false =>
        cases operator <;> cases value <;> simp [collectRepoPatterns, patternOf, hfield]
    · cases operator <;> cases value <;> simp [collectRepoPatterns, hfield]
  | join left edge right span ihl ihr =>
    rw [collectRepoPatterns, ihl]
    simp only [ihr, Expr.hasNegatedRepo, Expr.repoPatterns, Expr.repoPredicates,
      List.any_append, List.filterMap_append, List.append_assoc]

theorem isMatch_extractRepoFilter {globs : Globset} {ast : Query} {filter : RepoFilter}
    (h : extractRepoFilter globs ast = some filter) (name : String) :
    filter.isMatch name = (ast.root.hasNegatedRepo true || (ast.root.repoPatterns true).isEmpty ||
      (ast.root.repoPatterns true).any fun p => globs.isMatch p name) := by
  rw [extractRepoFilter, collectRepoPatterns_eq] at h
  simp only [Bool.not_false, List.nil_append] at h
  cases hneg : ast.root.hasNegatedRepo true with
  | true =>
    rw [hneg, if_pos rfl] at h
    rw [RepoFilter.isMatch_of_new h]
    rfl
  | false =>
    rw [hneg, if_neg Bool.false_ne_true] at h
    rw [RepoFilter.isMatch_of_new h, Bool.false_or]

end Extract

section Strip

theorem isNone_stripRepoFromExpr (e : Expr) :
    (stripRepoFromExpr e).isNone = e.onlyRepo := by
  have hnary : ∀ es : List Expr,
      (∀ e ∈ es, (stripRepoFromExpr e).isNone = e.onlyRepo) →
      ((stripRepoOperands es).isEmpty = es.all fun e => e.onlyRepo) := by
    intro es ih
    rw [stripRepoOperands_eq, Bool.eq_iff_iff, List.isEmpty_iff, List.filterMap_eq_nil_iff,
      List.all_eq_true]
    exact forall₂_congr fun e he => by rw [← ih e he, Option.isNone_iff_eq_none]
  induction e using Expr.inductOn with
  | or es ih =>
    rw [Expr.onlyRepo, Expr.onlyRepoAll_eq, ← hnary es ih, stripRepoFromExpr]
    cases stripRepoOperands es with
    | nil => rfl
    | cons e rest => cases rest <;> rfl
  | and es ih =>
    rw [Expr.onlyRepo, Expr.onlyRepoAll_eq, ← hnary es ih, stripRepoFromExpr]
    cases stripRepoOperands es with
    | nil => rfl
    | cons e rest => cases rest <;> rfl
  | not e ih => rw [stripRepoFromExpr, Option.isNone_map, ih, Expr.onlyRepo]
  | condition field operator value span ih =>
    rw [stripRepoFromExpr, Expr.onlyRepo]
    by_cases hfield : field = "repo"
    · simp [hfield]
    · simp [hfield]
  | join left edge right span ihl ihr =>
    rw [stripRepoFromExpr, Expr.onlyRepo, ← ihl, ← ihr]
    cases stripRepoFromExpr left with
    | none => rfl
    | some l => cases stripRepoFromExpr right <;> rfl

variable {Node : Type} {globs : Globset} {repo : RepoGraph Node} {n : Node}

theorem sat_strip_and {es : List Expr} {s : Expr}
    (h : stripRepoFromExpr (.and es) = some s) :
    s.Sat globs repo n ↔
      ∀ e ∈ es, ∀ s, stripRepoFromExpr e = some s → s.Sat globs repo n := by
  have hsat : s.Sat globs repo n ↔ ∀ s ∈ stripRepoOperands es, s.Sat globs repo n := by
    rw [stripRepoFromExpr] at h
    cases hstrip : stripRepoOperands es with
    | nil => simp [hstrip] at h
    | cons e rest =>
      cases rest with
      | nil =>
        rw [hstrip] at h
        cases h
        simp
      | cons e' rest =>
        rw [hstrip] at h
        cases h
        exact Expr.satAll_iff
  rw [hsat, stripRepoOperands_eq]
  simp only [List.mem_filterMap]
  grind

theorem sat_strip_or {es : List Expr} {s : Expr}
    (h : stripRepoFromExpr (.or es) = some s) :
    s.Sat globs repo n ↔
      ∃ e ∈ es, ∃ s, stripRepoFromExpr e = some s ∧ s.Sat globs repo n := by
  have hsat : s.Sat globs repo n ↔ ∃ s ∈ stripRepoOperands es, s.Sat globs repo n := by
    rw [stripRepoFromExpr] at h
    cases hstrip : stripRepoOperands es with
    | nil => simp [hstrip] at h
    | cons e rest =>
      cases rest with
      | nil =>
        rw [hstrip] at h
        cases h
        simp
      | cons e' rest =>
        rw [hstrip] at h
        cases h
        exact Expr.satAny_iff
  rw [hsat, stripRepoOperands_eq]
  simp only [List.mem_filterMap]
  grind

theorem exists_stripped {e : Expr} (h : e.onlyRepo = false) :
    ∃ s, stripRepoFromExpr e = some s := by
  rw [← isNone_stripRepoFromExpr, Option.isNone_eq_false_iff] at h
  exact Option.isSome_iff_exists.mp h

theorem onlyRepo_of_stripped {e s : Expr} (h : stripRepoFromExpr e = some s) :
    e.onlyRepo = false := by
  rw [← isNone_stripRepoFromExpr, h]
  rfl

theorem stripped_of_join {left right s : Expr} {edge : JoinEdgeKind} {span : QuerySpan}
    (h : stripRepoFromExpr (.join left edge right span) = some s) :
    ∃ l r, stripRepoFromExpr left = some l ∧ stripRepoFromExpr right = some r ∧
      s = .join l edge r span := by
  rw [stripRepoFromExpr] at h
  cases hl : stripRepoFromExpr left with
  | none => simp [hl] at h
  | some l =>
    cases hr : stripRepoFromExpr right with
    | none => simp [hl, hr] at h
    | some r =>
      simp only [hl, hr, Option.some.injEq] at h
      exact ⟨l, r, rfl, rfl, h.symm⟩

theorem onlyRepo_of_unmixed {es : List Expr} {e : Expr} (hunmixed : Expr.unmixed es = true)
    (hkept : Expr.onlyRepoAll es = false) (he : e ∈ es) : e.onlyRepo = false := by
  rw [Expr.onlyRepoAll_eq] at hkept
  rw [Expr.unmixed, hkept, Bool.false_or, List.all_eq_true] at hunmixed
  exact Bool.not_eq_true _ |>.mp (by simpa using hunmixed e he)

def Expr.Weakens (positive : Bool) (p q : Prop) : Prop := if positive then p → q else q → p

/-- One case for each constructor; in a negated position the implication turns around. -/
theorem weakens_of_widens (e : Expr) (positive : Bool) (h : e.widens positive = true)
    (s : Expr) (hs : stripRepoFromExpr e = some s) (n : Node) :
    Expr.Weakens positive (e.Sat globs repo n) (s.Sat globs repo n) := by
  induction e using Expr.inductOn generalizing positive s n with
  | and es ih =>
    rw [Expr.widens, Expr.widensAll_eq, Bool.and_eq_true, List.all_eq_true] at h
    have hstep : ∀ e ∈ es, ∀ s, stripRepoFromExpr e = some s → ∀ n,
        Expr.Weakens positive (e.Sat globs repo n) (s.Sat globs repo n) := by
      intro e he s hs n
      have hkeeps := h.2 e he
      rw [onlyRepo_of_stripped hs, Bool.false_or] at hkeeps
      exact ih e he positive hkeeps s hs n
    cases positive with
    | true =>
      intro hsat
      rw [sat_strip_and hs]
      intro e he s hs
      exact hstep e he s hs n (Expr.satAll_iff.mp hsat e he)
    | false =>
      intro hsat
      rw [sat_strip_and hs] at hsat
      refine Expr.satAll_iff.mpr ?_
      intro e he
      obtain ⟨s', hs'⟩ := exists_stripped
        (onlyRepo_of_unmixed (by simpa using h.1) (onlyRepo_of_stripped hs) he)
      exact hstep e he s' hs' n (hsat e he s' hs')
  | or es ih =>
    rw [Expr.widens, Expr.widensAll_eq, Bool.and_eq_true, List.all_eq_true] at h
    have hstep : ∀ e ∈ es, ∀ s, stripRepoFromExpr e = some s → ∀ n,
        Expr.Weakens positive (e.Sat globs repo n) (s.Sat globs repo n) := by
      intro e he s hs n
      have hkeeps := h.2 e he
      rw [onlyRepo_of_stripped hs, Bool.false_or] at hkeeps
      exact ih e he positive hkeeps s hs n
    cases positive with
    | true =>
      intro hsat
      rw [sat_strip_or hs]
      obtain ⟨e, he, hsate⟩ := Expr.satAny_iff.mp hsat
      obtain ⟨s', hs'⟩ := exists_stripped
        (onlyRepo_of_unmixed (by simpa using h.1) (onlyRepo_of_stripped hs) he)
      exact ⟨e, he, s', hs', hstep e he s' hs' n hsate⟩
    | false =>
      intro hsat
      rw [sat_strip_or hs] at hsat
      obtain ⟨e, he, s', hs', hsats⟩ := hsat
      exact Expr.satAny_iff.mpr ⟨e, he, hstep e he s' hs' n hsats⟩
  | not e ih =>
    rw [stripRepoFromExpr] at hs
    obtain ⟨s', hs', rfl⟩ := Option.map_eq_some_iff.mp hs
    have hinner := ih (!positive) h s' hs' n
    cases positive with
    | true =>
      intro hsat hkept
      exact hsat (hinner hkept)
    | false =>
      intro hsat hkept
      exact hsat (hinner hkept)
  | condition field operator value span ih =>
    rw [stripRepoFromExpr] at hs
    split at hs
    · cases hs
    · cases hs
      cases positive with
      | true => exact fun hsat => hsat
      | false => exact fun hsat => hsat
  | join left edge right span ihl ihr =>
    obtain ⟨l, r, hl, hr, rfl⟩ := stripped_of_join hs
    rw [Expr.widens, onlyRepo_of_stripped hl, onlyRepo_of_stripped hr, Bool.false_or,
      Bool.false_or, Bool.and_eq_true] at h
    have hleft := ihl positive h.1 l hl
    have hright := ihr positive h.2 r hr
    cases positive with
    | true =>
      intro hsat
      cases hsat with
      | inl hsource =>
        obtain ⟨hn, m, hedge, hm⟩ := hsource
        exact Or.inl ⟨hleft n hn, m, hedge, hright m hm⟩
      | inr htarget =>
        obtain ⟨hn, m, hedge, hm⟩ := htarget
        exact Or.inr ⟨hright n hn, m, hedge, hleft m hm⟩
    | false =>
      intro hsat
      cases hsat with
      | inl hsource =>
        obtain ⟨hn, m, hedge, hm⟩ := hsource
        exact Or.inl ⟨hleft n hn, m, hedge, hright m hm⟩
      | inr htarget =>
        obtain ⟨hn, m, hedge, hm⟩ := htarget
        exact Or.inr ⟨hright n hn, m, hedge, hleft m hm⟩

end Strip

section Selects

variable {Node : Type} {globs : Globset} {repo : RepoGraph Node}

def Expr.Holds (positive : Bool) (p : Prop) : Prop := if positive then p else ¬ p

theorem mem_repoPatterns_operand {es : List Expr} {e : Expr} {p : String} {positive : Bool}
    (he : e ∈ es) (hp : p ∈ e.repoPatterns positive) :
    p ∈ (Expr.repoPredicatesAll es positive).filterMap fun o => if o.1 then o.2 else none := by
  rw [Expr.repoPredicatesAll_eq, List.filterMap_flatMap]
  exact List.mem_flatMap.mpr ⟨e, he, hp⟩

theorem meets_of_pattern {field pattern : String} {operator : Operator} {value : Value}
    {n : Node} (hfield : field = "repo") (hpattern : patternOf operator value = some pattern) :
    repo.Meets globs field operator value n ↔ globs.isMatch pattern repo.name = true := by
  cases operator <;> cases value <;> simp [patternOf] at hpattern
  rw [hfield, hpattern]
  exact Iff.rfl

theorem meets_of_no_pattern {field : String} {operator : Operator} {value : Value} {n : Node}
    (h : field = "repo" → patternOf operator value = none) :
    repo.Meets globs field operator value n ↔ repo.holds field operator value n := by
  rw [RepoGraph.Meets]
  intro pattern hfield hoperator hvalue
  rw [hoperator, hvalue] at h
  cases h hfield

theorem matches_of_requiresPattern (e : Expr) (positive : Bool)
    (h : e.requiresPattern positive = true) (n : Node)
    (hsat : Expr.Holds positive (e.Sat globs repo n)) :
    ∃ p ∈ e.repoPatterns positive, globs.isMatch p repo.name = true := by
  induction e using Expr.inductOn generalizing positive n with
  | and es ih =>
    have hfound : ∃ e ∈ es, e.requiresPattern positive = true ∧
        Expr.Holds positive (e.Sat globs repo n) := by
      rw [Expr.requiresPattern] at h
      cases positive with
      | true =>
        rw [if_pos rfl, Expr.anyRequiresPattern_eq, List.any_eq_true] at h
        obtain ⟨e, he, hreq⟩ := h
        exact ⟨e, he, hreq, Expr.satAll_iff.mp hsat e he⟩
      | false =>
        rw [if_neg Bool.false_ne_true, Expr.allRequirePattern_eq, List.all_eq_true] at h
        have hfail : ¬ ∀ e ∈ es, e.Sat globs repo n := fun hall =>
          hsat (Expr.satAll_iff.mpr hall)
        push Not at hfail
        obtain ⟨e, he, hunsat⟩ := hfail
        exact ⟨e, he, h e he, hunsat⟩
    obtain ⟨e, he, hreq, hholds⟩ := hfound
    obtain ⟨p, hp, hmatch⟩ := ih e he positive hreq n hholds
    exact ⟨p, mem_repoPatterns_operand he hp, hmatch⟩
  | or es ih =>
    have hfound : ∃ e ∈ es, e.requiresPattern positive = true ∧
        Expr.Holds positive (e.Sat globs repo n) := by
      rw [Expr.requiresPattern] at h
      cases positive with
      | true =>
        rw [if_pos rfl, Expr.allRequirePattern_eq, List.all_eq_true] at h
        obtain ⟨e, he, hsate⟩ := Expr.satAny_iff.mp hsat
        exact ⟨e, he, h e he, hsate⟩
      | false =>
        rw [if_neg Bool.false_ne_true, Expr.anyRequiresPattern_eq, List.any_eq_true] at h
        obtain ⟨e, he, hreq⟩ := h
        exact ⟨e, he, hreq, fun hsate => hsat (Expr.satAny_iff.mpr ⟨e, he, hsate⟩)⟩
    obtain ⟨e, he, hreq, hholds⟩ := hfound
    obtain ⟨p, hp, hmatch⟩ := ih e he positive hreq n hholds
    exact ⟨p, mem_repoPatterns_operand he hp, hmatch⟩
  | not e ih =>
    refine ih (!positive) h n ?_
    cases positive with
    | true => exact hsat
    | false => exact not_not.mp hsat
  | condition field operator value span ih =>
    rw [Expr.requiresPattern, Bool.and_eq_true, Bool.and_eq_true, decide_eq_true_eq] at h
    obtain ⟨⟨rfl, hfield⟩, hsome⟩ := h
    obtain ⟨pattern, hpattern⟩ := Option.isSome_iff_exists.mp hsome
    refine ⟨pattern, ?_, (meets_of_pattern hfield hpattern).mp hsat⟩
    rw [Expr.repoPatterns, Expr.repoPredicates, if_pos hfield, hpattern]
    exact List.mem_singleton_self pattern
  | join left edge right span ihl ihr =>
    rw [Expr.requiresPattern, Bool.and_eq_true, Bool.or_eq_true] at h
    obtain ⟨rfl, hside⟩ := h
    have hends : (∃ m, left.Sat globs repo m) ∧ ∃ m, right.Sat globs repo m := by
      cases hsat with
      | inl hsource =>
        obtain ⟨hn, m, _, hm⟩ := hsource
        exact ⟨⟨n, hn⟩, m, hm⟩
      | inr htarget =>
        obtain ⟨hn, m, _, hm⟩ := htarget
        exact ⟨⟨m, hm⟩, n, hn⟩
    have happend : (Expr.join left edge right span).repoPatterns true =
        left.repoPatterns true ++ right.repoPatterns true := List.filterMap_append
    rw [happend]
    cases hside with
    | inl hleft =>
      obtain ⟨m, hm⟩ := hends.1
      obtain ⟨p, hp, hmatch⟩ := ihl true hleft m hm
      exact ⟨p, List.mem_append_left _ hp, hmatch⟩
    | inr hright =>
      obtain ⟨m, hm⟩ := hends.2
      obtain ⟨p, hp, hmatch⟩ := ihr true hright m hm
      exact ⟨p, List.mem_append_right _ hp, hmatch⟩

end Selects

theorem losesNothing_of_filterSafe {ast : Query} (h : ast.root.FilterSafe) :
    ast.LosesNothing := by
  intro globs Node repo n filter hfilter hsat
  constructor
  · rw [isMatch_extractRepoFilter hfilter]
    rcases h.selects with hneg | hnone | hreq
    · simp [hneg]
    · simp [hnone]
    · obtain ⟨p, hp, hmatch⟩ := matches_of_requiresPattern ast.root true hreq n hsat
      have hany : ((ast.root.repoPatterns true).any fun p => globs.isMatch p repo.name) = true :=
        List.any_eq_true.mpr ⟨p, hp, hmatch⟩
      rw [hany, Bool.or_true]
  · rw [stripRepoPredicates]
    cases hs : stripRepoFromExpr ast.root with
    | none => trivial
    | some s => exact weakens_of_widens ast.root true h.widens s hs n hsat

end Sqry
