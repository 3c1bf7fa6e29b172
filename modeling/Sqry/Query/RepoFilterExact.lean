import Sqry.Query.RepoFilterSound

/-!
The condition under which scoping loses nothing is exact for the shape of a query: an
expression that violates it has, with other values in its conditions, a result that is
lost.
-/

namespace Sqry

section Shape

def Value.relabel (label : String) : Value → Value
  | .string _ => .string label
  | _ => .variable label

mutual

def Expr.blank : Expr → Expr
  | .and operands => .and (Expr.blankAll operands)
  | .or operands => .or (Expr.blankAll operands)
  | .not operand => .not operand.blank
  | .condition field operator value span => .condition field operator (value.relabel "") span
  | .join left edge right span => .join left.blank edge right.blank span

def Expr.blankAll : List Expr → List Expr
  | [] => []
  | e :: es => e.blank :: Expr.blankAll es

end

theorem Expr.blankAll_eq (es : List Expr) : Expr.blankAll es = es.map Expr.blank := by
  induction es with
  | nil => rfl
  | cons e es ih => rw [Expr.blankAll, ih, List.map_cons]

def Expr.nary (conj : Bool) (es : List Expr) : Expr := if conj then .and es else .or es

mutual

def Expr.plain : Expr → Bool → Bool
  | .and operands, positive => !operands.isEmpty && Expr.plainAll operands positive
  | .or operands, positive => !operands.isEmpty && Expr.plainAll operands positive
  | .not operand, positive => operand.plain (!positive)
  | .condition _ _ _ _, _ => true
  | .join left _ right _, positive => positive && left.plain positive && right.plain positive

def Expr.plainAll : List Expr → Bool → Bool
  | [], _ => true
  | e :: es, positive => e.plain positive && Expr.plainAll es positive

end

theorem Expr.plainAll_eq {es : List Expr} {positive : Bool} :
    Expr.plainAll es positive = es.all fun e => e.plain positive := by
  induction es with
  | nil => rfl
  | cons e es ih => rw [Expr.plainAll, ih, List.all_cons]

@[elab_as_elim]
theorem Expr.inductNary {motive : Expr → Prop} (e : Expr)
    (nary : ∀ conj es, (∀ e ∈ es, motive e) → motive (.nary conj es))
    (not : ∀ e, motive e → motive (.not e))
    (condition : ∀ field operator value span, motive (.condition field operator value span))
    (join : ∀ left edge right span, motive left → motive right →
      motive (.join left edge right span)) : motive e := by
  induction e using Expr.inductOn with
  | or es ih => exact nary false es ih
  | and es ih => exact nary true es ih
  | not e ih => exact not e ih
  | condition field operator value span _ => exact condition field operator value span
  | join left edge right span ihl ihr => exact join left edge right span ihl ihr

variable {es : List Expr} {conj positive : Bool}

theorem Expr.blank_nary : (Expr.nary conj es).blank = .nary conj (es.map Expr.blank) := by
  rw [← Expr.blankAll_eq]
  cases conj <;> rfl

theorem Expr.onlyRepo_nary :
    (Expr.nary conj es).onlyRepo = es.all fun e => e.onlyRepo := by
  rw [← Expr.onlyRepoAll_eq]
  cases conj <;> rfl

theorem Expr.repoPredicates_nary : (Expr.nary conj es).repoPredicates positive =
    es.flatMap fun e => e.repoPredicates positive := by
  rw [← Expr.repoPredicatesAll_eq]
  cases conj <;> rfl

theorem Expr.widens_nary : (Expr.nary conj es).widens positive =
    ((positive == conj || Expr.unmixed es) &&
      es.all fun e => e.onlyRepo || e.widens positive) := by
  rw [← Expr.widensAll_eq]
  cases conj <;> cases positive <;> rfl

theorem Expr.requiresPattern_nary : (Expr.nary conj es).requiresPattern positive =
    if positive == conj then es.any fun e => e.requiresPattern positive
    else es.all fun e => e.requiresPattern positive := by
  rw [← Expr.anyRequiresPattern_eq, ← Expr.allRequirePattern_eq]
  cases conj <;> cases positive <;> rfl

theorem Expr.plain_nary : (Expr.nary conj es).plain positive =
    (!es.isEmpty && es.all fun e => e.plain positive) := by
  rw [← Expr.plainAll_eq]
  cases conj <;> rfl

end Shape

section Blank
variable (e : Expr) (positive : Bool)

theorem Expr.blank_blank : e.blank.blank = e.blank := by
  induction e using Expr.inductNary with
  | nary conj es ih =>
    rw [Expr.blank_nary, Expr.blank_nary, List.map_map]
    exact congrArg (Expr.nary conj) (List.map_congr_left ih)
  | not e ih => rw [Expr.blank, Expr.blank, ih]
  | condition field operator value span => cases value <;> rfl
  | join left edge right span ihl ihr => rw [Expr.blank, Expr.blank, ihl, ihr]

theorem Expr.all_map_blank {p : Expr → Bool} {es : List Expr}
    (h : ∀ e ∈ es, p e.blank = p e) : ((es.map Expr.blank).all p) = es.all p := by
  rw [List.all_map, Bool.eq_iff_iff, List.all_eq_true, List.all_eq_true]
  exact forall₂_congr fun e he => by rw [Function.comp_apply, h e he]

theorem Expr.any_map_blank {p : Expr → Bool} {es : List Expr}
    (h : ∀ e ∈ es, p e.blank = p e) : ((es.map Expr.blank).any p) = es.any p := by
  rw [List.any_map, Bool.eq_iff_iff, List.any_eq_true, List.any_eq_true]
  exact exists_congr fun e => and_congr_right fun he => by rw [Function.comp_apply, h e he]

theorem Expr.onlyRepo_blank : e.blank.onlyRepo = e.onlyRepo := by
  induction e using Expr.inductNary with
  | nary conj es ih =>
    rw [Expr.blank_nary, Expr.onlyRepo_nary, Expr.onlyRepo_nary, Expr.all_map_blank ih]
  | not e ih => exact ih
  | condition field operator value span => rfl
  | join left edge right span ihl ihr =>
    rw [Expr.blank, Expr.onlyRepo, Expr.onlyRepo, ihl, ihr]

theorem Expr.unmixed_blank (es : List Expr) :
    Expr.unmixed (es.map Expr.blank) = Expr.unmixed es := by
  rw [Expr.unmixed, Expr.unmixed, Expr.all_map_blank fun e _ => e.onlyRepo_blank,
    Expr.all_map_blank fun e _ => congrArg Bool.not e.onlyRepo_blank]

theorem Expr.widens_blank :
    e.blank.widens positive = e.widens positive := by
  induction e using Expr.inductNary generalizing positive with
  | nary conj es ih =>
    rw [Expr.blank_nary, Expr.widens_nary, Expr.widens_nary, Expr.unmixed_blank,
      Expr.all_map_blank fun e he => by rw [e.onlyRepo_blank, ih e he]]
  | not e ih => exact ih (!positive)
  | condition field operator value span => rfl
  | join left edge right span ihl ihr =>
    rw [Expr.blank, Expr.widens, Expr.widens, Expr.onlyRepo_blank, Expr.onlyRepo_blank, ihl,
      ihr]

theorem isSome_patternOf_relabel (operator : Operator) (value : Value) (label : String) :
    (patternOf operator (value.relabel label)).isSome = (patternOf operator value).isSome := by
  cases operator <;> cases value <;> rfl

theorem Expr.requiresPattern_blank :
    e.blank.requiresPattern positive = e.requiresPattern positive := by
  induction e using Expr.inductNary generalizing positive with
  | nary conj es ih =>
    rw [Expr.blank_nary, Expr.requiresPattern_nary, Expr.requiresPattern_nary,
      Expr.any_map_blank fun e he => ih e he positive,
      Expr.all_map_blank fun e he => ih e he positive]
  | not e ih => exact ih (!positive)
  | condition field operator value span =>
    rw [Expr.blank, Expr.requiresPattern, Expr.requiresPattern, isSome_patternOf_relabel]
  | join left edge right span ihl ihr =>
    rw [Expr.blank, Expr.requiresPattern, Expr.requiresPattern, ihl, ihr]

def repoFlag (p : Bool × Option String) : Bool × Bool := (p.1, p.2.isSome)

theorem Expr.repoFlags_blank :
    (e.blank.repoPredicates positive).map repoFlag =
      (e.repoPredicates positive).map repoFlag := by
  induction e using Expr.inductNary generalizing positive with
  | nary conj es ih =>
    rw [Expr.blank_nary, Expr.repoPredicates_nary, Expr.repoPredicates_nary,
      List.flatMap_map, List.map_flatMap, List.map_flatMap]
    exact List.flatMap_congr fun e he => ih e he positive
  | not e ih => exact ih (!positive)
  | condition field operator value span =>
    rw [Expr.blank, Expr.repoPredicates, Expr.repoPredicates]
    split
    · simp only [List.map_cons, List.map_nil, repoFlag, isSome_patternOf_relabel]
    · rfl
  | join left edge right span ihl ihr =>
    rw [Expr.blank, Expr.repoPredicates, Expr.repoPredicates, List.map_append,
      List.map_append, ihl, ihr]

theorem hasNegatedRepo_eq : e.hasNegatedRepo positive =
    ((e.repoPredicates positive).map repoFlag).any fun f => !f.1 := by
  rw [Expr.hasNegatedRepo, List.any_map]
  rfl

theorem isEmpty_repoPatterns_eq :
    (e.repoPatterns positive).isEmpty =
      ((e.repoPredicates positive).map repoFlag).all fun f => !(f.1 && f.2) := by
  rw [Expr.repoPatterns, List.all_map, Bool.eq_iff_iff, List.isEmpty_iff,
    List.filterMap_eq_nil_iff, List.all_eq_true]
  refine forall₂_congr fun p _ => ?_
  obtain ⟨polarity, pattern⟩ := p
  cases polarity <;> cases pattern <;> simp [repoFlag]

theorem filterSafe_of_blank_eq {e e' : Expr} (h : e'.blank = e.blank) (hsafe : e.FilterSafe) :
    e'.FilterSafe := by
  have hflags : (e'.repoPredicates true).map repoFlag =
      (e.repoPredicates true).map repoFlag := by
    rw [← e'.repoFlags_blank, h, e.repoFlags_blank]
  refine ⟨?_, ?_⟩
  · rw [← e'.widens_blank, h, e.widens_blank]
    exact hsafe.widens
  · rcases hsafe.selects with hneg | hnone | hreq
    · refine Or.inl ?_
      rw [hasNegatedRepo_eq, hflags, ← hasNegatedRepo_eq]
      exact hneg
    · refine Or.inr (Or.inl ?_)
      rw [← List.isEmpty_iff, isEmpty_repoPatterns_eq, hflags, ← isEmpty_repoPatterns_eq,
        List.isEmpty_iff]
      exact hnone
    · refine Or.inr (Or.inr ?_)
      rw [← e'.requiresPattern_blank, h, e.requiresPattern_blank]
      exact hreq

end Blank

section Marked

def markGlobs : Globset where
  isMatch := fun p _ => p == "t"
  build := fun patterns => some fun _ => patterns.any fun p => p == "t"
  build_eq := by
    intro patterns matcher h name
    cases h
    rfl

def markRepo : RepoGraph Unit where
  name := "r"
  holds := fun _ _ value _ => value = .string "t" ∨ value = .variable "t"
  joined := fun _ _ _ => True

def markOf (b : Bool) : String := if b then "t" else ""

def Expr.HasValue (e : Expr) (b : Bool) : Prop := e.Sat markGlobs markRepo () ↔ b = true

def Expr.KeepsValue (e : Expr) (b : Bool) : Prop :=
  ∀ s, stripRepoFromExpr e = some s → s.HasValue b

def Expr.Unmarked (e : Expr) (positive : Bool) : Prop :=
  ∀ p ∈ e.repoPredicates positive, p.2 ≠ some "t"

variable {es : List Expr} {conj : Bool}

theorem hasValue_nary_same (h : ∀ e ∈ es, e.HasValue conj) :
    (Expr.nary conj es).HasValue conj := by
  cases conj with
  | true => exact iff_of_true (Expr.satAll_iff.mpr fun e he => (h e he).mpr rfl) rfl
  | false =>
    refine iff_of_false ?_ Bool.false_ne_true
    intro hsat
    obtain ⟨e, he, hsate⟩ := Expr.satAny_iff.mp hsat
    exact Bool.false_ne_true ((h e he).mp hsate)

variable {edge : JoinEdgeKind} {left right : Expr} {span : QuerySpan} {e : Expr}

theorem hasValue_nary_diff (he : e ∈ es) (h : e.HasValue (!conj)) :
    (Expr.nary conj es).HasValue (!conj) := by
  cases conj with
  | true =>
    refine iff_of_false ?_ Bool.false_ne_true
    intro hsat
    exact Bool.false_ne_true (h.mp (Expr.satAll_iff.mp hsat e he))
  | false => exact iff_of_true (Expr.satAny_iff.mpr ⟨e, he, h.mpr rfl⟩) rfl

theorem keepsValue_nary_same (h : ∀ e ∈ es, e.KeepsValue conj) :
    (Expr.nary conj es).KeepsValue conj := by
  intro s hs
  cases conj with
  | true =>
    refine iff_of_true ((sat_strip_and hs).mpr ?_) rfl
    intro e he s hs
    exact (h e he s hs).mpr rfl
  | false =>
    refine iff_of_false ?_ Bool.false_ne_true
    intro hsat
    obtain ⟨e, he, s', hs', hsate⟩ := (sat_strip_or hs).mp hsat
    exact Bool.false_ne_true ((h e he s' hs').mp hsate)

theorem keepsValue_nary_diff (he : e ∈ es) (hkept : e.onlyRepo = false) (h : e.KeepsValue (!conj))
    : (Expr.nary conj es).KeepsValue (!conj) := by
  intro s hs
  obtain ⟨s', hs'⟩ := exists_stripped hkept
  cases conj with
  | true =>
    refine iff_of_false ?_ Bool.false_ne_true
    intro hsat
    exact Bool.false_ne_true ((h s' hs').mp ((sat_strip_and hs).mp hsat e he s' hs'))
  | false =>
    exact iff_of_true ((sat_strip_or hs).mpr ⟨e, he, s', hs', (h s' hs').mpr rfl⟩) rfl

theorem hasValue_not {b : Bool} (h : e.HasValue b) : (Expr.not e).HasValue (!b) := by
  cases b with
  | true => exact iff_of_false (fun hsat => hsat (h.mpr rfl)) Bool.false_ne_true
  | false => exact iff_of_true (fun hsat => Bool.false_ne_true (h.mp hsat)) rfl

theorem keepsValue_not {b : Bool} (h : e.KeepsValue b) :
    (Expr.not e).KeepsValue (!b) := by
  intro s hs
  rw [stripRepoFromExpr] at hs
  obtain ⟨s', hs', rfl⟩ := Option.map_eq_some_iff.mp hs
  exact hasValue_not (h s' hs')

theorem sat_join_mark :
    (Expr.join left edge right span).Sat markGlobs markRepo () ↔
      left.Sat markGlobs markRepo () ∧ right.Sat markGlobs markRepo () := by
  constructor
  · intro h
    cases h with
    | inl hsource =>
      obtain ⟨hl, m, _, hr⟩ := hsource
      exact ⟨hl, hr⟩
    | inr htarget =>
      obtain ⟨hr, m, _, hl⟩ := htarget
      exact ⟨hl, hr⟩
  · intro h
    exact Or.inl ⟨h.1, (), trivial, h.2⟩

theorem hasValue_join {a b : Bool} (hl : left.HasValue a) (hr : right.HasValue b) :
    (Expr.join left edge right span).HasValue (a && b) := by
  rw [Expr.HasValue, sat_join_mark, Bool.and_eq_true]
  exact and_congr hl hr

theorem keepsValue_join {a b : Bool} (hl : left.KeepsValue a) (hr : right.KeepsValue b) :
    (Expr.join left edge right span).KeepsValue (a && b) := by
  intro s hs
  obtain ⟨l, r, hl', hr', rfl⟩ := stripped_of_join hs
  exact hasValue_join (hl l hl') (hr r hr')

theorem hasValue_condition (field : String) (operator : Operator) (value : Value)
    (span : QuerySpan) (b : Bool) :
    (Expr.condition field operator (value.relabel (markOf b)) span).HasValue b := by
  have hlabel : markGlobs.isMatch (markOf b) markRepo.name = b := by
    cases b <;> rfl
  have hholds : ∀ f op, markRepo.holds f op (value.relabel (markOf b)) () ↔ b = true := by
    intro f op
    cases b <;> cases value <;> simp [markRepo, Value.relabel, markOf]
  rw [Expr.HasValue, Expr.Sat]
  by_cases hfield : field = "repo"
  · cases hpattern : patternOf operator (value.relabel (markOf b)) with
    | none =>
      rw [meets_of_no_pattern fun _ => hpattern]
      exact hholds field operator
    | some pattern =>
      have hmark : pattern = markOf b := by
        cases operator <;> cases value <;> cases hpattern
        rfl
      rw [meets_of_pattern hfield hpattern, hmark, hlabel]
  · rw [meets_of_no_pattern fun h => absurd h hfield]
    exact hholds field operator

theorem keepsValue_condition (field : String) (operator : Operator) (value : Value)
    (span : QuerySpan) (b : Bool) :
    (Expr.condition field operator (value.relabel (markOf b)) span).KeepsValue b := by
  intro s hs
  rw [stripRepoFromExpr] at hs
  split at hs
  · cases hs
  · cases hs
    exact hasValue_condition field operator value span b

end Marked

section Construct

variable {es : List Expr} {conj : Bool}

theorem onlyRepo_of_blank_eq {e e' : Expr} (h : e'.blank = e.blank) :
    e'.onlyRepo = e.onlyRepo := by
  rw [← e'.onlyRepo_blank, h, e.onlyRepo_blank]

theorem blank_nary_map {f : Expr → Expr} (h : ∀ e ∈ es, (f e).blank = e.blank) :
    (Expr.nary conj (es.map f)).blank = (Expr.nary conj es).blank := by
  rw [Expr.blank_nary, Expr.blank_nary, List.map_map]
  exact congrArg (Expr.nary conj) (List.map_congr_left h)

theorem exists_operands {Q : Expr → Expr → Prop} (h : ∀ e ∈ es, ∃ e', Q e e') :
    ∃ f : Expr → Expr, ∀ e ∈ es, Q e (f e) := by
  classical
  choose! f hf using h
  exact ⟨f, hf⟩

variable (e : Expr)

theorem widens_of_onlyRepo (positive : Bool) (h : e.onlyRepo = true) :
    e.widens positive = true := by
  induction e using Expr.inductNary generalizing positive with
  | nary conj es ih =>
    rw [Expr.onlyRepo_nary] at h
    rw [Expr.widens_nary, Expr.unmixed, h, Bool.true_or, Bool.or_true, Bool.true_and,
      List.all_eq_true]
    intro e he
    rw [List.all_eq_true.mp h e he, Bool.true_or]
  | not e ih => exact ih (!positive) h
  | condition field operator value span => rfl
  | join left edge right span ihl ihr =>
    rw [Expr.onlyRepo] at h
    rw [Expr.widens, h, Bool.true_or]

variable {positive : Bool}

theorem plain_operand (h : (Expr.nary conj es).plain positive = true) :
    ∀ e ∈ es, e.plain positive = true := by
  rw [Expr.plain_nary, Bool.and_eq_true, List.all_eq_true] at h
  exact h.2

theorem exists_mem_of_plain (h : (Expr.nary conj es).plain positive = true) :
    ∃ e, e ∈ es := by
  rw [Expr.plain_nary, Bool.and_eq_true, Bool.not_eq_true', List.isEmpty_eq_false_iff] at h
  exact List.exists_mem_of_ne_nil es h.1

theorem exists_constant (positive : Bool) (h : e.plain positive = true) (b : Bool) :
    ∃ e' : Expr, e'.blank = e.blank ∧ e'.HasValue b ∧ e'.KeepsValue b := by
  induction e using Expr.inductNary generalizing positive b with
  | nary conj es ih =>
    obtain ⟨f, hf⟩ := exists_operands fun e he =>
      ih e he positive (plain_operand h e he) b
    refine ⟨.nary conj (es.map f), blank_nary_map fun e he => (hf e he).1, ?_⟩
    by_cases hb : b = conj
    · rw [hb] at hf ⊢
      exact ⟨hasValue_nary_same (List.forall_mem_map.mpr fun e he => (hf e he).2.1),
        keepsValue_nary_same (List.forall_mem_map.mpr fun e he => (hf e he).2.2)⟩
    · rw [Bool.eq_not_of_ne hb] at hf ⊢
      obtain ⟨e, he⟩ := exists_mem_of_plain h
      refine ⟨hasValue_nary_diff (List.mem_map_of_mem he) (hf e he).2.1, ?_⟩
      intro s hs
      have hkept := onlyRepo_of_stripped hs
      rw [Expr.onlyRepo_nary, List.all_eq_false] at hkept
      obtain ⟨e', he', hkept⟩ := hkept
      obtain ⟨e, he, rfl⟩ := List.mem_map.mp he'
      exact keepsValue_nary_diff he' (by simpa using hkept) (hf e he).2.2 s hs
  | not e ih =>
    obtain ⟨e', hblank, hvalue, hkeeps⟩ := ih (!positive) h (!b)
    have hnot := hasValue_not hvalue
    have hnot' := keepsValue_not hkeeps
    rw [Bool.not_not] at hnot hnot'
    exact ⟨.not e', congrArg Expr.not hblank, hnot, hnot'⟩
  | condition field operator value span =>
    refine ⟨.condition field operator (value.relabel (markOf b)) span, ?_,
      hasValue_condition field operator value span b,
      keepsValue_condition field operator value span b⟩
    cases value <;> rfl
  | join left edge right span ihl ihr =>
    rw [Expr.plain, Bool.and_eq_true, Bool.and_eq_true] at h
    obtain ⟨l, hl, hlvalue, hlkeeps⟩ := ihl positive h.1.2 b
    obtain ⟨r, hr, hrvalue, hrkeeps⟩ := ihr positive h.2 b
    have hvalue : (Expr.join l edge r span).HasValue (b && b) := hasValue_join hlvalue hrvalue
    have hkeeps : (Expr.join l edge r span).KeepsValue (b && b) :=
      keepsValue_join hlkeeps hrkeeps
    rw [Bool.and_self] at hvalue hkeeps
    exact ⟨.join l edge r span, by rw [Expr.blank, Expr.blank, hl, hr], hvalue, hkeeps⟩

theorem exists_stronger (positive : Bool) (h : e.plain positive = true)
    (hwidens : e.widens positive = false) :
    ∃ e' : Expr, e'.blank = e.blank ∧ e'.HasValue positive ∧ e'.KeepsValue (!positive) := by
  induction e using Expr.inductNary generalizing positive with
  | nary conj es ih =>
    have hplain := plain_operand h
    rw [Expr.widens_nary, Bool.and_eq_false_iff] at hwidens
    cases hwidens with
    | inr hoperand =>
      rw [List.all_eq_false] at hoperand
      obtain ⟨o, ho, hbad⟩ := hoperand
      rw [Bool.or_eq_true, not_or, Bool.not_eq_true, Bool.not_eq_true] at hbad
      have hlabels : ∀ e ∈ es, ∃ e' : Expr, e'.blank = e.blank ∧
          (e = o → e'.HasValue positive ∧ e'.KeepsValue (!positive)) ∧
          (e ≠ o → e'.HasValue conj ∧ e'.KeepsValue conj) := by
        intro e he
        by_cases heo : e = o
        · obtain ⟨e', hblank, hvalues⟩ := ih o ho positive (hplain o ho) hbad.2
          exact ⟨e', by rw [hblank, heo], fun _ => hvalues, fun hne => absurd heo hne⟩
        · obtain ⟨e', hblank, hvalues⟩ := exists_constant e positive (hplain e he) conj
          exact ⟨e', hblank, fun heq => absurd heq heo, fun _ => hvalues⟩
      obtain ⟨f, hf⟩ := exists_operands hlabels
      obtain ⟨hoblank, hspecial, _⟩ := hf o ho
      obtain ⟨hovalue, hokeeps⟩ := hspecial rfl
      have hokept : (f o).onlyRepo = false := by
        rw [onlyRepo_of_blank_eq hoblank, hbad.1]
      refine ⟨.nary conj (es.map f), blank_nary_map fun e he => (hf e he).1, ?_⟩
      by_cases hconj : positive = conj
      · rw [hconj] at hf hokeeps ⊢
        refine ⟨hasValue_nary_same (List.forall_mem_map.mpr ?_),
          keepsValue_nary_diff (List.mem_map_of_mem ho) hokept hokeeps⟩
        intro e he
        by_cases heo : e = o
        · exact ((hf e he).2.1 heo).1
        · exact ((hf e he).2.2 heo).1
      · rw [Bool.eq_not_of_ne hconj] at hf hovalue ⊢
        rw [Bool.not_not] at hf ⊢
        refine ⟨hasValue_nary_diff (List.mem_map_of_mem ho) hovalue,
          keepsValue_nary_same (List.forall_mem_map.mpr ?_)⟩
        intro e he
        by_cases heo : e = o
        · exact ((hf e he).2.1 heo).2
        · exact ((hf e he).2.2 heo).2
    | inl hmixed =>
      rw [Bool.or_eq_false_iff, beq_eq_false_iff_ne] at hmixed
      have hdropped : ∃ d ∈ es, d.onlyRepo = true := by
        have hsome := (Bool.or_eq_false_iff.mp hmixed.2).2
        rw [List.all_eq_false] at hsome
        obtain ⟨d, hd, hdrop⟩ := hsome
        exact ⟨d, hd, by simpa using hdrop⟩
      have hlabels : ∀ e ∈ es, ∃ e' : Expr, e'.blank = e.blank ∧
          (e.onlyRepo = true → e'.HasValue (!conj)) ∧
          (e.onlyRepo = false → e'.KeepsValue conj) := by
        intro e he
        cases hdrop : e.onlyRepo with
        | true =>
          obtain ⟨e', hblank, hvalue, _⟩ :=
            exists_constant e positive (hplain e he) (!conj)
          exact ⟨e', hblank, fun _ => hvalue, fun hf => Bool.noConfusion hf⟩
        | false =>
          obtain ⟨e', hblank, _, hkeeps⟩ :=
            exists_constant e positive (hplain e he) conj
          exact ⟨e', hblank, fun ht => Bool.noConfusion ht, fun _ => hkeeps⟩
      obtain ⟨f, hf⟩ := exists_operands hlabels
      obtain ⟨d, hd, hdrop⟩ := hdropped
      refine ⟨.nary conj (es.map f), blank_nary_map fun e he => (hf e he).1, ?_⟩
      rw [Bool.eq_not_of_ne hmixed.1, Bool.not_not]
      refine ⟨hasValue_nary_diff (List.mem_map_of_mem hd) ((hf d hd).2.1 hdrop),
        keepsValue_nary_same (List.forall_mem_map.mpr ?_)⟩
      intro e he s hs
      have hkept := onlyRepo_of_stripped hs
      rw [onlyRepo_of_blank_eq (hf e he).1] at hkept
      exact (hf e he).2.2 hkept s hs
  | not e ih =>
    obtain ⟨e', hblank, hvalue, hkeeps⟩ := ih (!positive) h hwidens
    have hnot := hasValue_not hvalue
    rw [Bool.not_not] at hnot hkeeps
    exact ⟨.not e', congrArg Expr.not hblank, hnot, keepsValue_not hkeeps⟩
  | condition field operator value span => cases hwidens
  | join left edge right span ihl ihr =>
    rw [Expr.plain, Bool.and_eq_true, Bool.and_eq_true] at h
    obtain ⟨⟨rfl, hl⟩, hr⟩ := h
    rw [Expr.widens, Bool.or_eq_false_iff, Bool.and_eq_false_iff] at hwidens
    cases hwidens.2 with
    | inl hleft =>
      obtain ⟨l, hlblank, hlvalue, hlkeeps⟩ := ihl true hl hleft
      obtain ⟨r, hrblank, hrvalue, hrkeeps⟩ := exists_constant right true hr true
      exact ⟨.join l edge r span, by rw [Expr.blank, Expr.blank, hlblank, hrblank],
        hasValue_join hlvalue hrvalue, keepsValue_join hlkeeps hrkeeps⟩
    | inr hright =>
      obtain ⟨l, hlblank, hlvalue, hlkeeps⟩ := exists_constant left true hl true
      obtain ⟨r, hrblank, hrvalue, hrkeeps⟩ := ihr true hr hright
      exact ⟨.join l edge r span, by rw [Expr.blank, Expr.blank, hlblank, hrblank],
        hasValue_join hlvalue hrvalue, keepsValue_join hlkeeps hrkeeps⟩

theorem patternOf_relabel_blank (operator : Operator) (value : Value) :
    patternOf operator (value.relabel "") ≠ some "t" := by
  cases operator <;> cases value <;> simp [patternOf, Value.relabel]

theorem unmarked_blank (positive : Bool) : e.blank.Unmarked positive := by
  induction e using Expr.inductNary generalizing positive with
  | nary conj es ih =>
    intro p hp
    rw [Expr.blank_nary, Expr.repoPredicates_nary, List.flatMap_map, List.mem_flatMap] at hp
    obtain ⟨e, he, hp⟩ := hp
    exact ih e he positive p hp
  | not e ih => exact ih (!positive)
  | condition field operator value span =>
    intro p hp
    rw [Expr.blank, Expr.repoPredicates] at hp
    split at hp
    · rw [List.mem_singleton.mp hp]
      exact patternOf_relabel_blank operator value
    · cases hp
  | join left edge right span ihl ihr =>
    intro p hp
    rw [Expr.blank, Expr.repoPredicates, List.mem_append] at hp
    cases hp with
    | inl hl => exact ihl positive p hl
    | inr hr => exact ihr positive p hr

theorem unmarked_nary (h : ∀ e ∈ es, e.Unmarked positive) :
    (Expr.nary conj es).Unmarked positive := by
  intro p hp
  rw [Expr.repoPredicates_nary, List.mem_flatMap] at hp
  obtain ⟨e, he, hp⟩ := hp
  exact h e he p hp

theorem exists_unmatched (positive : Bool) (h : e.plain positive = true)
    (hrequires : e.requiresPattern positive = false) :
    ∃ e' : Expr, e'.blank = e.blank ∧ e'.HasValue positive ∧ e'.Unmarked positive := by
  induction e using Expr.inductNary generalizing positive with
  | nary conj es ih =>
    have hplain := plain_operand h
    rw [Expr.requiresPattern_nary] at hrequires
    by_cases hconj : positive = conj
    · rw [hconj] at hplain hrequires ⊢
      rw [if_pos (beq_self_eq_true conj), List.any_eq_false] at hrequires
      obtain ⟨f, hf⟩ := exists_operands fun e he =>
        ih e he conj (hplain e he) (by simpa using hrequires e he)
      exact ⟨.nary conj (es.map f), blank_nary_map fun e he => (hf e he).1,
        hasValue_nary_same (List.forall_mem_map.mpr fun e he => (hf e he).2.1),
        unmarked_nary (List.forall_mem_map.mpr fun e he => (hf e he).2.2)⟩
    · rw [if_neg (by simpa using hconj), List.all_eq_false] at hrequires
      obtain ⟨o, ho, hfree⟩ := hrequires
      have hlabels : ∀ e ∈ es, ∃ e' : Expr, e'.blank = e.blank ∧ e'.Unmarked positive ∧
          (e = o → e'.HasValue positive) := by
        intro e he
        by_cases heo : e = o
        · obtain ⟨e', hblank, hvalue, hunmarked⟩ :=
            ih o ho positive (hplain o ho) (by simpa using hfree)
          exact ⟨e', by rw [hblank, heo], hunmarked, fun _ => hvalue⟩
        · exact ⟨e.blank, e.blank_blank, unmarked_blank e positive,
            fun heq => absurd heq heo⟩
      obtain ⟨f, hf⟩ := exists_operands hlabels
      have hvalue := (hf o ho).2.2 rfl
      refine ⟨.nary conj (es.map f), blank_nary_map fun e he => (hf e he).1, ?_,
        unmarked_nary (List.forall_mem_map.mpr fun e he => (hf e he).2.1)⟩
      rw [Bool.eq_not_of_ne hconj] at hvalue ⊢
      exact hasValue_nary_diff (List.mem_map_of_mem ho) hvalue
  | not e ih =>
    obtain ⟨e', hblank, hvalue, hunmarked⟩ := ih (!positive) h hrequires
    have hnot := hasValue_not hvalue
    rw [Bool.not_not] at hnot
    exact ⟨.not e', congrArg Expr.not hblank, hnot, hunmarked⟩
  | condition field operator value span =>
    refine ⟨.condition field operator (value.relabel (markOf positive)) span, ?_,
      hasValue_condition field operator value span positive, ?_⟩
    · cases value <;> rfl
    · intro p hp
      rw [Expr.repoPredicates] at hp
      split at hp
      · rename_i hfield
        rw [List.mem_singleton.mp hp]
        cases positive with
        | false => exact patternOf_relabel_blank operator value
        | true =>
          rw [Expr.requiresPattern, Bool.true_and, decide_eq_true hfield, Bool.true_and,
            ← isSome_patternOf_relabel _ _ (markOf true)] at hrequires
          rw [Option.isSome_eq_false_iff, Option.isNone_iff_eq_none] at hrequires
          intro hmark
          rw [hrequires] at hmark
          cases hmark
      · cases hp
  | join left edge right span ihl ihr =>
    rw [Expr.plain, Bool.and_eq_true, Bool.and_eq_true] at h
    obtain ⟨⟨rfl, hl⟩, hr⟩ := h
    rw [Expr.requiresPattern, Bool.true_and, Bool.or_eq_false_iff] at hrequires
    obtain ⟨l, hlblank, hlvalue, hlunmarked⟩ := ihl true hl hrequires.1
    obtain ⟨r, hrblank, hrvalue, hrunmarked⟩ := ihr true hr hrequires.2
    refine ⟨.join l edge r span, by rw [Expr.blank, Expr.blank, hlblank, hrblank],
      hasValue_join hlvalue hrvalue, ?_⟩
    intro p hp
    rw [Expr.repoPredicates, List.mem_append] at hp
    cases hp with
    | inl hleft => exact hlunmarked p hleft
    | inr hright => exact hrunmarked p hright

end Construct

section Exact

variable {e : Expr} {span : QuerySpan}

theorem exists_extractRepoFilter (ast : Query) :
    ∃ filter, extractRepoFilter markGlobs ast = some filter := by
  have hnew : ∀ patterns, ∃ filter, RepoFilter.new markGlobs patterns = some filter := by
    intro patterns
    rw [RepoFilter.new]
    split
    · exact ⟨_, rfl⟩
    · exact ⟨_, rfl⟩
  rw [extractRepoFilter]
  dsimp only
  split
  · exact hnew []
  · exact hnew _

theorem exists_loses (h : e.plain true = true) (hfails : ¬ e.FilterSafe) :
    ∃ e' : Expr, e'.blank = e.blank ∧ ¬ (Query.mk e' span).LosesNothing := by
  by_cases hwidens : e.widens true = true
  · have hselects : ¬ (e.hasNegatedRepo true = true ∨ e.repoPatterns true = [] ∨
        e.requiresPattern true = true) := fun hsel => hfails ⟨hwidens, hsel⟩
    obtain ⟨hneg, hsome, hreq⟩ : e.hasNegatedRepo true = false ∧ e.repoPatterns true ≠ [] ∧
        e.requiresPattern true = false := by
      rw [not_or, not_or, Bool.not_eq_true, Bool.not_eq_true] at hselects
      exact hselects
    obtain ⟨e', hblank, hvalue, hunmarked⟩ := exists_unmatched e true h hreq
    refine ⟨e', hblank, fun hloses => ?_⟩
    have hflags : (e'.repoPredicates true).map repoFlag =
        (e.repoPredicates true).map repoFlag := by
      rw [← e'.repoFlags_blank, hblank, e.repoFlags_blank]
    obtain ⟨filter, hfilter⟩ := exists_extractRepoFilter ⟨e', span⟩
    have hadmits := (hloses markGlobs Unit markRepo () filter hfilter (hvalue.mpr rfl)).1
    have hneg' : e'.hasNegatedRepo true = false := by
      rw [hasNegatedRepo_eq, hflags, ← hasNegatedRepo_eq, hneg]
    have hsome' : (e'.repoPatterns true).isEmpty = false := by
      rw [isEmpty_repoPatterns_eq, hflags, ← isEmpty_repoPatterns_eq,
        List.isEmpty_eq_false_iff]
      exact hsome
    have hnone : ((e'.repoPatterns true).any fun p =>
        markGlobs.isMatch p markRepo.name) = false := by
      rw [List.any_eq_false]
      intro p hp hmark
      rw [Expr.repoPatterns, List.mem_filterMap] at hp
      obtain ⟨o, ho, hop⟩ := hp
      split at hop
      · have hmarked : p = "t" := by simpa [markGlobs] using hmark
        exact hunmarked o ho (by rw [hop, hmarked])
      · cases hop
    rw [isMatch_extractRepoFilter hfilter, hneg', hsome', hnone] at hadmits
    cases hadmits
  · rw [Bool.not_eq_true] at hwidens
    obtain ⟨e', hblank, hvalue, hkeeps⟩ := exists_stronger e true h hwidens
    refine ⟨e', hblank, fun hloses => ?_⟩
    have hkept : e'.onlyRepo = false := by
      rw [onlyRepo_of_blank_eq hblank, Bool.eq_false_iff]
      intro honly
      rw [widens_of_onlyRepo e true honly] at hwidens
      cases hwidens
    obtain ⟨s, hs⟩ := exists_stripped hkept
    obtain ⟨filter, hfilter⟩ := exists_extractRepoFilter ⟨e', span⟩
    have hstripped := (hloses markGlobs Unit markRepo () filter hfilter (hvalue.mpr rfl)).2
    rw [stripRepoPredicates, hs] at hstripped
    exact Bool.false_ne_true ((hkeeps s hs).mp hstripped)

/-- Scoping a safe query loses nothing. Without empty operand lists and without joins under
a negation only the queries of a safe shape are sure to lose nothing. -/
theorem repo_scoping_loses_nothing (ast : Query) :
    (ast.root.FilterSafe → ast.LosesNothing) ∧
      (ast.root.plain true = true →
        ((∀ e' : Expr, e'.blank = ast.root.blank → (Query.mk e' ast.span).LosesNothing) ↔
          ast.root.FilterSafe)) := by
  refine ⟨losesNothing_of_filterSafe, ?_⟩
  intro hplain
  constructor
  · intro hloses
    by_contra hfails
    obtain ⟨e', hblank, hlost⟩ : ∃ e' : Expr, e'.blank = ast.root.blank ∧
        ¬ (Query.mk e' ast.span).LosesNothing := exists_loses hplain hfails
    exact hlost (hloses e' hblank)
  · intro hsafe e' hblank
    exact losesNothing_of_filterSafe (filterSafe_of_blank_eq hblank hsafe)

/-- `repo:a AND kind:function` -/
def scopedFunctions : Expr :=
  .and [.condition "repo" .equal (.string "a") (.new 0 6),
    .condition "kind" .equal (.string "function") (.new 11 24)]

theorem repo_scoping_loses_nothing_scoped :
    (Query.mk scopedFunctions (.new 0 24)).LosesNothing ∧
      ∀ e' : Expr, e'.blank = scopedFunctions.blank →
        (Query.mk e' (.new 0 24)).LosesNothing := by
  have hsafe : scopedFunctions.FilterSafe := ⟨by decide, Or.inr (Or.inr (by decide))⟩
  have hscoped := repo_scoping_loses_nothing ⟨scopedFunctions, .new 0 24⟩
  exact ⟨hscoped.1 hsafe, (hscoped.2 (by decide)).mpr hsafe⟩

/-- `repo:a OR kind:function` -/
def scopedOrFunctions : Expr :=
  .or [.condition "repo" .equal (.string "a") (.new 0 6),
    .condition "kind" .equal (.string "function") (.new 10 23)]

/-- A function of a repository `b` is a result, and only repositories `a` are searched. -/
theorem repo_or_kind_loses :
    ¬ ∀ ast : Query, ast.LosesNothing := by
  intro h
  have hlost := h ⟨scopedOrFunctions, .new 0 23⟩
    ⟨fun p name => p == name, fun ps => some fun name => ps.any fun p => p == name,
      fun hbuild name => by cases hbuild; rfl⟩
    Unit ⟨"b", fun field _ value _ => field = "kind" ∧ value = .string "function",
      fun _ _ _ => False⟩ () _ rfl (Or.inr (Or.inl ⟨rfl, rfl⟩))
  have hadmits := hlost.1
  revert hadmits
  decide

end Exact

end Sqry
