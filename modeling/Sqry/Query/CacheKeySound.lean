import Sqry.Query.RepoFilterSound

/-!
Which queries have a cache key of their own. The canonical text does not say where the
operand of a negation ends, what kind of value stands after an operator, or which operator
is meant, so that a query whose text can be read in a second way shares its key with a
query of another meaning.
-/

namespace Sqry

section Meaning

def SameMeaning (s₁ s₂ : Option Expr) : Prop :=
  ∀ (globs : Globset) (Node : Type) (repo : RepoGraph Node) (n : Node),
    Expr.KeptBy globs repo s₁ n ↔ Expr.KeptBy globs repo s₂ n

mutual

def Expr.solid : Expr → Bool
  | .and operands => decide (2 ≤ operands.length) && Expr.solidAll operands
  | .or operands => decide (2 ≤ operands.length) && Expr.solidAll operands
  | .not operand => operand.solid
  | .condition field _ _ _ => decide (field ≠ "repo")
  | .join left _ right _ => left.solid && right.solid

def Expr.solidAll : List Expr → Bool
  | [] => true
  | e :: es => e.solid && Expr.solidAll es

end

mutual

def Expr.conditions : Expr → List (String × Operator × Value)
  | .and operands => Expr.conditionsAll operands
  | .or operands => Expr.conditionsAll operands
  | .not operand => operand.conditions
  | .condition field operator value _ => [(field, operator, value)]
  | .join left _ right _ => left.conditions ++ right.conditions

def Expr.conditionsAll : List Expr → List (String × Operator × Value)
  | [] => []
  | e :: es => e.conditions ++ Expr.conditionsAll es

end

variable {es : List Expr}

theorem Expr.solidAll_eq : Expr.solidAll es = es.all fun e => e.solid := by
  induction es with
  | nil => rfl
  | cons e es ih => rw [Expr.solidAll, ih, List.all_cons]

theorem Expr.conditionsAll_eq : Expr.conditionsAll es = es.flatMap fun e => e.conditions := by
  induction es with
  | nil => rfl
  | cons e es ih => rw [Expr.conditionsAll, ih, List.flatMap_cons]

theorem serializeAll_eq : serializeAll es = es.map serializeExpr := by
  induction es with
  | nil => rfl
  | cons e es ih => rw [serializeAll, ih, List.map_cons]

theorem solid_operands (ih : ∀ e ∈ es, ∀ s, stripRepoFromExpr e = some s → s.solid = true) :
    Expr.solidAll (stripRepoOperands es) = true := by
  rw [Expr.solidAll_eq, stripRepoOperands_eq, List.all_eq_true]
  intro s hs
  obtain ⟨e, he, hstrip⟩ := List.mem_filterMap.mp hs
  exact ih e he s hstrip

theorem solid_of_strip (e s : Expr) (h : stripRepoFromExpr e = some s) : s.solid = true := by
  induction e using Expr.inductOn generalizing s with
  | or es ih =>
    have hsolid := solid_operands ih
    rw [stripRepoFromExpr] at h
    cases hstrip : stripRepoOperands es with
    | nil => simp [hstrip] at h
    | cons a rest =>
      cases rest with
      | nil =>
        rw [hstrip] at h hsolid
        cases h
        simpa [Expr.solidAll] using hsolid
      | cons b rest =>
        rw [hstrip] at h hsolid
        cases h
        rw [Expr.solid, hsolid, Bool.and_true]
        simp
  | and es ih =>
    have hsolid := solid_operands ih
    rw [stripRepoFromExpr] at h
    cases hstrip : stripRepoOperands es with
    | nil => simp [hstrip] at h
    | cons a rest =>
      cases rest with
      | nil =>
        rw [hstrip] at h hsolid
        cases h
        simpa [Expr.solidAll] using hsolid
      | cons b rest =>
        rw [hstrip] at h hsolid
        cases h
        rw [Expr.solid, hsolid, Bool.and_true]
        simp
  | not e ih =>
    rw [stripRepoFromExpr] at h
    obtain ⟨s', hs', rfl⟩ := Option.map_eq_some_iff.mp h
    exact ih s' hs'
  | condition field operator value span ih =>
    rw [stripRepoFromExpr] at h
    split at h
    · cases h
    · rename_i hfield
      cases h
      exact decide_eq_true hfield
  | join left edge right span ihl ihr =>
    obtain ⟨l, r, hl, hr, rfl⟩ := stripped_of_join h
    rw [Expr.solid, ihl l hl, ihr r hr, Bool.and_true]

variable {Node : Type} {globs : Globset}

theorem sat_congr {name : String} {joined : JoinEdgeKind → Node → Node → Prop}
    {holds holds' : String → Operator → Value → Node → Prop} (e : Expr)
    (h : ∀ c ∈ e.conditions, ∀ n, holds c.1 c.2.1 c.2.2 n ↔ holds' c.1 c.2.1 c.2.2 n)
    (n : Node) :
    e.Sat globs ⟨name, holds, joined⟩ n ↔ e.Sat globs ⟨name, holds', joined⟩ n := by
  induction e using Expr.inductOn generalizing n with
  | or es ih =>
    rw [Expr.conditions, Expr.conditionsAll_eq] at h
    rw [Expr.Sat, Expr.Sat, Expr.satAny_iff, Expr.satAny_iff]
    exact exists_congr fun e => and_congr_right fun he =>
      ih e he (fun c hc => h c (List.mem_flatMap.mpr ⟨e, he, hc⟩)) n
  | and es ih =>
    rw [Expr.conditions, Expr.conditionsAll_eq] at h
    rw [Expr.Sat, Expr.Sat, Expr.satAll_iff, Expr.satAll_iff]
    exact forall₂_congr fun e he =>
      ih e he (fun c hc => h c (List.mem_flatMap.mpr ⟨e, he, hc⟩)) n
  | not e ih => exact not_congr (ih h n)
  | condition field operator value span ih =>
    have hcond := h (field, operator, value) (List.mem_singleton_self _) n
    by_cases hpattern : field = "repo" → patternOf operator value = none
    · rw [Expr.Sat, Expr.Sat, meets_of_no_pattern hpattern, meets_of_no_pattern hpattern]
      exact hcond
    · rw [Classical.not_imp] at hpattern
      obtain ⟨pattern, hsome⟩ := Option.ne_none_iff_exists'.mp hpattern.2
      rw [Expr.Sat, Expr.Sat, meets_of_pattern hpattern.1 hsome,
        meets_of_pattern hpattern.1 hsome]
  | join left edge right span ihl ihr =>
    rw [Expr.conditions] at h
    have hl := ihl fun c hc => h c (List.mem_append_left _ hc)
    have hr := ihr fun c hc => h c (List.mem_append_right _ hc)
    rw [Expr.Sat, Expr.Sat]
    simp only [hl, hr]

end Meaning

section Text

theorem text_ne_empty (operator : Operator) : 0 < operator.text.length := by
  cases operator <;> decide

/-- The text is a field, an operator and more, and the field is not `repo`. -/
def SplitsAt (t field : String) : Prop :=
  field ≠ "repo" ∧ ∃ (operator : Operator) (rest : String), t = field ++ operator.text ++ rest

theorem splitsAt_append {t field : String} (h : SplitsAt t field) (u : String) :
    SplitsAt (t ++ u) field := by
  obtain ⟨hfield, operator, rest, rfl⟩ := h
  exact ⟨hfield, operator, rest ++ u, by rw [String.append_assoc]⟩

theorem splitsAt_prepend {t field u : String} (h : SplitsAt t field)
    (hfield : u ++ field ≠ "repo") : SplitsAt (u ++ t) (u ++ field) := by
  obtain ⟨_, operator, rest, rfl⟩ := h
  exact ⟨hfield, operator, rest, by rw [String.append_assoc, String.append_assoc,
    String.append_assoc]⟩

theorem length_of_splitsAt {t field : String} (h : SplitsAt t field) :
    field.length < t.length := by
  obtain ⟨_, operator, rest, rfl⟩ := h
  have hop := text_ne_empty operator
  rw [String.length_append, String.length_append]
  omega

theorem ne_repo_of_length {field : String} (h : 4 < field.length) : field ≠ "repo" := by
  intro heq
  rw [heq] at h
  exact absurd h (by decide)

theorem paren_ne_repo (field : String) : "(" ++ field ≠ "repo" := by
  intro h
  have hlist := congrArg String.toList h
  rw [String.toList_append] at hlist
  exact absurd (List.cons.inj hlist).1 (by decide)

theorem not_ne_repo (field : String) : "NOT " ++ field ≠ "repo" := by
  intro h
  have hlist := congrArg String.toList h
  rw [String.toList_append] at hlist
  exact absurd (List.cons.inj hlist).1 (by decide)

theorem joinParts_cons_cons (separator a b : String) (rest : List String) :
    ∃ more, joinParts separator (a :: b :: rest) = a ++ (separator ++ (b ++ more)) := by
  cases rest with
  | nil =>
    refine ⟨"", ?_⟩
    rw [joinParts, joinParts, String.append_empty, String.append_assoc]
  | cons c rest =>
    refine ⟨separator ++ joinParts separator (c :: rest), ?_⟩
    rw [joinParts, joinParts, String.append_assoc, String.append_assoc]

theorem splitsAt_twice {a b separator : String} {f g : String} (hsep : 4 ≤ separator.length)
    (ha : SplitsAt a f) (hb : SplitsAt b g) (more : String) :
    ∃ f g, f.length < g.length ∧ SplitsAt (a ++ (separator ++ (b ++ more))) f ∧
      SplitsAt (a ++ (separator ++ (b ++ more))) g := by
  have hlen := length_of_splitsAt ha
  have hlong : 4 < (a ++ (separator ++ g)).length := by
    rw [String.length_append, String.length_append]
    omega
  refine ⟨f, a ++ (separator ++ g), ?_, splitsAt_append ha _, ?_⟩
  · rw [String.length_append]
    omega
  · have hinner : SplitsAt ((a ++ separator) ++ (b ++ more)) ((a ++ separator) ++ g) := by
      refine splitsAt_prepend (splitsAt_append hb more) ?_
      rw [String.append_assoc]
      exact ne_repo_of_length hlong
    rw [String.append_assoc, String.append_assoc] at hinner
    exact hinner

variable {es : List Expr}

theorem solid_cons_cons (h : decide (2 ≤ es.length) = true) (hall : Expr.solidAll es = true) :
    ∃ a b rest, es = a :: b :: rest ∧ a.solid = true ∧ b.solid = true := by
  match es with
  | [] => cases h
  | [a] => cases h
  | a :: b :: rest =>
    rw [Expr.solidAll_eq, List.all_cons, List.all_cons, Bool.and_eq_true,
      Bool.and_eq_true] at hall
    exact ⟨a, b, rest, rfl, hall.1, hall.2.1⟩

def SplitsTwice (t : String) : Prop :=
  ∃ f g : String, f.length < g.length ∧ SplitsAt t f ∧ SplitsAt t g

theorem splitsTwice_paren {t : String} (h : SplitsTwice t) : SplitsTwice ("(" ++ t) := by
  obtain ⟨f, g, hlt, hf, hg⟩ := h
  refine ⟨"(" ++ f, "(" ++ g, ?_, splitsAt_prepend hf (paren_ne_repo f),
    splitsAt_prepend hg (paren_ne_repo g)⟩
  rw [String.length_append, String.length_append]
  exact Nat.add_lt_add_left hlt _

theorem splitsTwice_append {t : String} (h : SplitsTwice t) (u : String) :
    SplitsTwice (t ++ u) := by
  obtain ⟨f, g, hlt, hf, hg⟩ := h
  exact ⟨f, g, hlt, splitsAt_append hf u, splitsAt_append hg u⟩

theorem splitsTwice_joinParts {separator : String} (hsep : 4 ≤ separator.length)
    (hlen : decide (2 ≤ es.length) = true) (hall : Expr.solidAll es = true)
    (ih : ∀ e ∈ es, e.solid = true → ∃ f, SplitsAt (serializeExpr e) f) :
    SplitsTwice (joinParts separator (serializeAll es)) := by
  obtain ⟨a, b, rest, rfl, ha, hb⟩ := solid_cons_cons hlen hall
  obtain ⟨f, hf⟩ := ih a List.mem_cons_self ha
  obtain ⟨g, hg⟩ := ih b (List.mem_cons_of_mem a List.mem_cons_self) hb
  obtain ⟨more, hmore⟩ := joinParts_cons_cons separator (serializeExpr a) (serializeExpr b)
    (serializeAll rest)
  rw [serializeAll, serializeAll, hmore]
  exact splitsAt_twice hsep hf hg more

theorem serialize_join (left right : Expr) (edge : JoinEdgeKind) (span : QuerySpan) :
    serializeExpr (.join left edge right span) =
      "(" ++ (serializeExpr left ++ ((") " ++ edge.text ++ " (") ++
        (serializeExpr right ++ ")"))) := by
  rw [serializeExpr]
  simp only [String.append_assoc]

theorem splits_of_solid (e : Expr) (h : e.solid = true) :
    ∃ f, SplitsAt (serializeExpr e) f := by
  induction e using Expr.inductOn with
  | or es ih =>
    rw [Expr.solid, Bool.and_eq_true] at h
    have hsep : 4 ≤ " OR ".length := by decide
    obtain ⟨f, g, _, hf, _⟩ := splitsTwice_joinParts hsep h.1 h.2 ih
    rw [serializeExpr]
    exact ⟨"(" ++ f, splitsAt_append (splitsAt_prepend hf (paren_ne_repo f)) ")"⟩
  | and es ih =>
    rw [Expr.solid, Bool.and_eq_true] at h
    have hsep : 4 ≤ " AND ".length := by decide
    obtain ⟨f, g, _, hf, _⟩ := splitsTwice_joinParts hsep h.1 h.2 ih
    exact ⟨f, hf⟩
  | not e ih =>
    obtain ⟨f, hf⟩ := ih h
    exact ⟨"NOT " ++ f, splitsAt_prepend hf (not_ne_repo f)⟩
  | condition field operator value span ih =>
    exact ⟨field, of_decide_eq_true h, operator, serializeValue value, rfl⟩
  | join left edge right span ihl ihr =>
    rw [Expr.solid, Bool.and_eq_true] at h
    obtain ⟨f, hf⟩ := ihl h.1
    rw [serialize_join]
    exact ⟨"(" ++ f, splitsAt_prepend (splitsAt_append hf _) (paren_ne_repo f)⟩

theorem splitsTwice_or (h : (Expr.or es).solid = true) :
    SplitsTwice (serializeExpr (.or es)) := by
  rw [Expr.solid, Bool.and_eq_true] at h
  rw [serializeExpr]
  exact splitsTwice_append (splitsTwice_paren
    (splitsTwice_joinParts (by decide) h.1 h.2 fun e _ => splits_of_solid e)) ")"

theorem splitsTwice_and (h : (Expr.and es).solid = true) :
    SplitsTwice (serializeExpr (.and es)) := by
  rw [Expr.solid, Bool.and_eq_true] at h
  exact splitsTwice_joinParts (by decide) h.1 h.2 fun e _ => splits_of_solid e

theorem splitsTwice_join {left right : Expr} {edge : JoinEdgeKind} {span : QuerySpan}
    (h : (Expr.join left edge right span).solid = true) :
    SplitsTwice (serializeExpr (.join left edge right span)) := by
  rw [Expr.solid, Bool.and_eq_true] at h
  obtain ⟨f, hf⟩ := splits_of_solid left h.1
  obtain ⟨g, hg⟩ := splits_of_solid right h.2
  have hsep : 4 ≤ (") " ++ edge.text ++ " (").length := by
    cases edge <;> decide
  rw [serialize_join]
  exact splitsTwice_paren (splitsAt_twice hsep hf hg ")")

theorem length_le_joinParts {separator part : String} {parts : List String}
    (h : part ∈ parts) : part.length ≤ (joinParts separator parts).length := by
  induction parts with
  | nil => cases h
  | cons p rest ih =>
    cases rest with
    | nil =>
      rw [List.mem_singleton.mp h]
      exact Nat.le_refl _
    | cons q rest =>
      rw [joinParts, String.length_append, String.length_append]
      cases List.mem_cons.mp h with
      | inl heq =>
        rw [heq]
        omega
      | inr hmem =>
        have hle := ih hmem
        omega

theorem length_lt_joinParts {separator part : String} {parts : List String}
    (hsep : 0 < separator.length) (hlen : 2 ≤ parts.length) (h : part ∈ parts) :
    part.length < (joinParts separator parts).length := by
  match parts with
  | [] => cases h
  | [p] => exact absurd hlen (Nat.not_succ_le_self 1)
  | p :: q :: rest =>
    rw [joinParts, String.length_append, String.length_append]
    cases List.mem_cons.mp h with
    | inl heq =>
      rw [heq]
      omega
    | inr hmem =>
      have hle := @length_le_joinParts separator _ _ hmem
      omega

def conditionText (c : String × Operator × Value) : String :=
  c.1 ++ c.2.1.text ++ serializeValue c.2.2

theorem length_condition (e : Expr) (h : e.solid = true) (c : String × Operator × Value)
    (hc : c ∈ e.conditions) :
    (∃ span, e = .condition c.1 c.2.1 c.2.2 span) ∨
      (conditionText c).length < (serializeExpr e).length := by
  have hle : ∀ e : Expr, ((∃ span, e = .condition c.1 c.2.1 c.2.2 span) ∨
      (conditionText c).length < (serializeExpr e).length) →
      (conditionText c).length ≤ (serializeExpr e).length := by
    intro e he
    cases he with
    | inl hcond =>
      obtain ⟨span, rfl⟩ := hcond
      exact Nat.le_refl _
    | inr hlt => exact Nat.le_of_lt hlt
  have hparts : ∀ {es : List Expr} {separator : String}, 4 ≤ separator.length →
      decide (2 ≤ es.length) = true → Expr.solidAll es = true → c ∈ Expr.conditionsAll es →
      (∀ e ∈ es, e.solid = true → c ∈ e.conditions →
        (∃ span, e = .condition c.1 c.2.1 c.2.2 span) ∨
          (conditionText c).length < (serializeExpr e).length) →
      (conditionText c).length < (joinParts separator (serializeAll es)).length := by
    intro es separator hsep hlen hall hmem ih
    rw [Expr.conditionsAll_eq, List.mem_flatMap] at hmem
    obtain ⟨e, he, hce⟩ := hmem
    rw [Expr.solidAll_eq, List.all_eq_true] at hall
    have hshort := hle e (ih e he (hall e he) hce)
    rw [serializeAll_eq]
    refine Nat.lt_of_le_of_lt hshort (length_lt_joinParts (by omega) ?_
      (List.mem_map_of_mem he))
    rw [List.length_map]
    exact of_decide_eq_true hlen
  induction e using Expr.inductOn with
  | or es ih =>
    rw [Expr.solid, Bool.and_eq_true] at h
    have hsep : 4 ≤ " OR ".length := by decide
    have hlt := hparts hsep h.1 h.2 hc ih
    refine Or.inr (Nat.lt_of_lt_of_le hlt ?_)
    rw [serializeExpr, String.length_append, String.length_append]
    omega
  | and es ih =>
    rw [Expr.solid, Bool.and_eq_true] at h
    have hsep : 4 ≤ " AND ".length := by decide
    exact Or.inr (hparts hsep h.1 h.2 hc ih)
  | not e ih =>
    have hshort := hle e (ih h hc)
    refine Or.inr (Nat.lt_of_le_of_lt hshort ?_)
    rw [serializeExpr, String.length_append]
    exact Nat.lt_add_of_pos_left (by decide)
  | condition field operator value span ih =>
    rw [List.mem_singleton.mp hc]
    exact Or.inl ⟨span, rfl⟩
  | join left edge right span ihl ihr =>
    rw [Expr.solid, Bool.and_eq_true] at h
    have hlong : (serializeExpr left).length < (serializeExpr (.join left edge right span)).length
        ∧ (serializeExpr right).length <
          (serializeExpr (.join left edge right span)).length := by
      have hparen : "(".length = 1 := rfl
      rw [serialize_join]
      simp only [String.length_append, hparen]
      omega
    cases List.mem_append.mp hc with
    | inl hcl => exact Or.inr (Nat.lt_of_le_of_lt (hle left (ihl h.1 hcl)) hlong.1)
    | inr hcr => exact Or.inr (Nat.lt_of_le_of_lt (hle right (ihr h.2 hcr)) hlong.2)

end Text

section Distinctive

/-- The text of a condition with a string has no second reading. -/
structure Distinctive (field : String) (operator : Operator) (v : String) : Prop where
  splitsOnce : ∀ (f : String) (op : Operator) (rest : String), f ≠ "repo" →
    f ++ op.text ++ rest = field ++ operator.text ++ v → f = field ∧ op = operator ∧ rest = v
  onlyString : ∀ w : Value, serializeValue w = v → w = .string v
  notNegated : ∀ f : String, f ≠ "repo" → field ≠ "NOT " ++ f

def DistinctiveQuery (stripped : Option Expr) : Prop :=
  ∀ e, stripped = some e → ∃ field operator v span,
    e = .condition field operator (.string v) span ∧ Distinctive field operator v

theorem eq_condition_of_sameMeaning {e : Expr} {field : String} {operator : Operator}
    {value : Value} {span : QuerySpan} (hsolid : e.solid = true) (hfield : field ≠ "repo")
    (htext : field ++ operator.text ++ serializeValue value = serializeExpr e)
    (hsame : SameMeaning (some e) (some (.condition field operator value span))) :
    ∃ span, e = .condition field operator value span := by
  by_contra hne
  have hother : ∀ c ∈ e.conditions, c ≠ (field, operator, value) := by
    intro c hc heq
    rw [heq] at hc
    cases length_condition e hsolid _ hc with
    | inl hcond => exact hne hcond
    | inr hlt =>
      rw [conditionText, htext] at hlt
      exact Nat.lt_irrefl _ hlt
  let globs : Globset := ⟨fun _ _ => false, fun _ => none, fun h => by cases h⟩
  let none' : RepoGraph Unit := ⟨"", fun _ _ _ _ => False, fun _ _ _ => True⟩
  let only : RepoGraph Unit :=
    ⟨"", fun f op v _ => (f, op, v) = (field, operator, value), fun _ _ _ => True⟩
  have hagree : e.Sat globs none' () ↔ e.Sat globs only () := by
    refine sat_congr e ?_ ()
    intro c hc n
    exact iff_of_false (fun h => h) (hother c hc)
  have hnone := hsame globs Unit none' ()
  have honly := hsame globs Unit only ()
  have hmeets : ∀ repo : RepoGraph Unit,
      Expr.KeptBy globs repo (some (.condition field operator value span)) () ↔
        repo.holds field operator value () := fun repo =>
    meets_of_no_pattern fun h => absurd h hfield
  rw [hmeets] at hnone honly
  exact hnone.mp (hagree.mpr (honly.mpr rfl))

def withPatterns (patterns : List String) (e : Expr) : Query :=
  ⟨.and ((patterns.map fun p => .condition "repo" .equal (.string p) .synthetic) ++ [e]),
    .synthetic⟩

variable {globs : Globset}

theorem patterns_of_new {patterns : List String} {filter : RepoFilter}
    (h : RepoFilter.new globs patterns = some filter) : filter.patterns = patterns := by
  rw [RepoFilter.new] at h
  split at h
  · cases h
    rfl
  · split at h
    · cases h
    · cases h
      rfl

theorem new_of_fromAst {ast : Query} {p : ParsedQuery}
    (h : ParsedQuery.fromAst globs ast = some p) :
    RepoFilter.new globs p.repoFilter.patterns = some p.repoFilter := by
  rw [ParsedQuery.fromAst] at h
  cases hfilter : extractRepoFilter globs ast with
  | none => simp [hfilter] at h
  | some filter =>
    simp only [hfilter, Option.some.injEq] at h
    rw [← h]
    rw [extractRepoFilter] at hfilter
    dsimp only at hfilter
    split at hfilter
    · rw [patterns_of_new hfilter, hfilter]
    · rw [patterns_of_new hfilter, hfilter]

theorem normalized_of_fromAst {ast : Query} {p : ParsedQuery}
    (h : ParsedQuery.fromAst globs ast = some p) :
    p.normalized =
      match stripRepoFromExpr ast.root with
      | some e => serializeExpr e
      | none => "" := by
  rw [ParsedQuery.fromAst] at h
  cases hfilter : extractRepoFilter globs ast with
  | none => simp [hfilter] at h
  | some filter =>
    simp only [hfilter, Option.some.injEq] at h
    rw [← h, stripRepoPredicates]
    cases stripRepoFromExpr ast.root <;> rfl

theorem fromAst_withPatterns {filter : RepoFilter} {e : Expr}
    (hnew : RepoFilter.new globs filter.patterns = some filter)
    (hstrip : stripRepoFromExpr e = some e) (hrepo : e.repoPredicates true = []) :
    stripRepoFromExpr (withPatterns filter.patterns e).root = some e ∧
      ParsedQuery.fromAst globs (withPatterns filter.patterns e) =
        some ⟨withPatterns filter.patterns e, filter, serializeExpr e⟩ := by
  have hroot : stripRepoFromExpr (withPatterns filter.patterns e).root = some e := by
    have hnone : (filter.patterns.map fun p =>
        Expr.condition "repo" .equal (.string p) .synthetic).filterMap stripRepoFromExpr =
          [] := by
      rw [List.filterMap_eq_nil_iff]
      intro c hc
      obtain ⟨p, _, rfl⟩ := List.mem_map.mp hc
      rfl
    rw [withPatterns, stripRepoFromExpr, stripRepoOperands_eq, List.filterMap_append, hnone,
      List.nil_append, List.filterMap_cons, hstrip]
    rfl
  have hpredicates : (withPatterns filter.patterns e).root.repoPredicates true =
      filter.patterns.map fun p => (true, some p) := by
    rw [withPatterns, Expr.repoPredicates, Expr.repoPredicatesAll_eq, List.flatMap_append,
      List.flatMap_singleton, hrepo, List.append_nil, List.flatMap_map,
      List.map_eq_flatMap]
    rfl
  have hcollect : extractRepoFilter globs (withPatterns filter.patterns e) = some filter := by
    have hneg : (withPatterns filter.patterns e).root.hasNegatedRepo true = false := by
      rw [Expr.hasNegatedRepo, hpredicates]
      simp
    have hpatterns : (withPatterns filter.patterns e).root.repoPatterns true =
        filter.patterns := by
      rw [Expr.repoPatterns, hpredicates, List.filterMap_map]
      exact List.filterMap_some
    rw [extractRepoFilter, collectRepoPatterns_eq]
    simp only [Bool.not_false, List.nil_append, hneg, hpatterns, Bool.false_eq_true, if_false]
    exact hnew
  refine ⟨hroot, ?_⟩
  rw [ParsedQuery.fromAst, hcollect, stripRepoPredicates, hroot]
  rfl

end Distinctive

section Key

variable {globs : Globset} {ast : Query} {p : ParsedQuery}

def OwnKey (globs : Globset) (ast : Query) (p : ParsedQuery) : Prop :=
  ∀ ast' p', ParsedQuery.fromAst globs ast' = some p' → p'.normalized = p.normalized →
    p'.repoFilter.patterns = p.repoFilter.patterns →
      SameMeaning (stripRepoFromExpr ast.root) (stripRepoFromExpr ast'.root)

theorem sameMeaning_of_text (h : ParsedQuery.fromAst globs ast = some p)
    (hown : OwnKey globs ast p) {e e' : Expr} (hstrip : stripRepoFromExpr ast.root = some e)
    (hstrip' : stripRepoFromExpr e' = some e') (hrepo : e'.repoPredicates true = [])
    (htext : serializeExpr e' = serializeExpr e) : SameMeaning (some e) (some e') := by
  obtain ⟨hroot, hfrom⟩ := fromAst_withPatterns (new_of_fromAst h) hstrip' hrepo
  have hnorm := normalized_of_fromAst h
  rw [hstrip] at hnorm
  have hsame := hown _ _ hfrom (htext.trans hnorm.symm) rfl
  rwa [hstrip, hroot] at hsame

theorem distinctive_of_ownKey (h : ParsedQuery.fromAst globs ast = some p)
    (hown : OwnKey globs ast p) : DistinctiveQuery (stripRepoFromExpr ast.root) := by
  intro e hstrip
  have hsolid := solid_of_strip ast.root e hstrip
  have hread : ∀ (f : String) (op : Operator) (w : Value), f ≠ "repo" →
      f ++ op.text ++ serializeValue w = serializeExpr e →
        ∃ span, e = .condition f op w span := by
    intro f op w hf htext
    refine @eq_condition_of_sameMeaning e f op w .synthetic hsolid hf htext ?_
    refine sameMeaning_of_text h hown hstrip ?_ ?_ htext
    · exact if_neg hf
    · exact if_neg hf
  obtain ⟨field, hfield, operator, v, htext⟩ := splits_of_solid e hsolid
  obtain ⟨span, rfl⟩ := hread field operator (.string v) hfield htext.symm
  refine ⟨field, operator, v, span, rfl, ?_, ?_, ?_⟩
  · intro f op rest hf hrest
    obtain ⟨span', heq⟩ := hread f op (.string rest) hf hrest
    injection heq with hfeq hopeq hveq
    injection hveq with hveq
    exact ⟨hfeq.symm, hopeq.symm, hveq.symm⟩
  · intro w hw
    obtain ⟨span', heq⟩ := hread field operator w hfield (by rw [hw, htext])
    injection heq with _ _ hweq
    exact hweq.symm
  · intro f hf hnot
    have hsame : SameMeaning (some (.condition field operator (.string v) span))
        (some (.not (.condition f operator (.string v) .synthetic))) := sameMeaning_of_text
      h hown hstrip
      (by rw [stripRepoFromExpr, stripRepoFromExpr, if_neg hf]; rfl)
      (if_neg hf)
      (by rw [serializeExpr, serializeExpr, serializeExpr, hnot]; simp only [String.append_assoc])
    let all : RepoGraph Unit := ⟨"", fun _ _ _ _ => True, fun _ _ _ => True⟩
    have hall := hsame ⟨fun _ _ => false, fun _ => none, fun h => by cases h⟩ Unit all ()
    have hkept : Expr.KeptBy ⟨fun _ _ => false, fun _ => none, fun h => by cases h⟩ all
        (some (.condition field operator (.string v) span)) () :=
      (meets_of_no_pattern fun h => absurd h hfield).mpr trivial
    exact hall.mp hkept ((meets_of_no_pattern fun h => absurd h hf).mpr trivial)

theorem ownKey_of_distinctive (h : ParsedQuery.fromAst globs ast = some p)
    (hdist : DistinctiveQuery (stripRepoFromExpr ast.root)) : OwnKey globs ast p := by
  intro ast' p' h' hnorm _
  rw [normalized_of_fromAst h, normalized_of_fromAst h'] at hnorm
  have hnonempty : ∀ {ast : Query} {e : Expr}, stripRepoFromExpr ast.root = some e →
      serializeExpr e ≠ "" := by
    intro ast e hstrip hempty
    obtain ⟨f, hf⟩ := splits_of_solid e (solid_of_strip ast.root e hstrip)
    have hlt := length_of_splitsAt hf
    rw [hempty] at hlt
    exact absurd hlt (Nat.not_lt_zero _)
  cases hstrip : stripRepoFromExpr ast.root with
  | none =>
    cases hstrip' : stripRepoFromExpr ast'.root with
    | none => exact fun _ _ _ _ => Iff.rfl
    | some e' =>
      rw [hstrip, hstrip'] at hnorm
      exact absurd hnorm (hnonempty hstrip')
  | some e =>
    obtain ⟨field, operator, v, span, rfl, hone⟩ := hdist e hstrip
    cases hstrip' : stripRepoFromExpr ast'.root with
    | none =>
      rw [hstrip, hstrip'] at hnorm
      exact absurd hnorm.symm (hnonempty hstrip)
    | some e' =>
      rw [hstrip, hstrip'] at hnorm
      have hsolid := solid_of_strip ast'.root e' hstrip'
      have htwice : ¬ SplitsTwice (serializeExpr e') := by
        intro hsplits
        obtain ⟨f, g, hlt, hf, hg⟩ := hsplits
        obtain ⟨hfrepo, op, rest, htext⟩ := hf
        obtain ⟨hgrepo, op', rest', htext'⟩ := hg
        have hfe := (hone.splitsOnce f op rest hfrepo (htext.symm.trans hnorm)).1
        have hge := (hone.splitsOnce g op' rest' hgrepo (htext'.symm.trans hnorm)).1
        rw [hfe, hge] at hlt
        exact Nat.lt_irrefl _ hlt
      cases e' with
      | or es => exact absurd (splitsTwice_or hsolid) htwice
      | and es => exact absurd (splitsTwice_and hsolid) htwice
      | join left edge right span' => exact absurd (splitsTwice_join hsolid) htwice
      | not e' =>
        obtain ⟨f, hf, op, rest, htext⟩ := splits_of_solid e' hsolid
        have hwhole : serializeExpr (.not e') = field ++ operator.text ++ v := hnorm
        rw [serializeExpr, htext, ← String.append_assoc, ← String.append_assoc] at hwhole
        have hfield := hone.splitsOnce ("NOT " ++ f) op rest (not_ne_repo f) hwhole
        exact absurd hfield.1.symm (hone.notNegated f hf)
      | condition f op w span' =>
        have hf : f ≠ "repo" := of_decide_eq_true hsolid
        obtain ⟨rfl, rfl, hw⟩ := hone.splitsOnce f op (serializeValue w) hf hnorm
        rw [hone.onlyString w hw]
        exact fun _ _ _ _ => Iff.rfl

theorem queryStream_injective : Function.Injective CacheKey.queryStream := by
  intro s s' h
  rw [CacheKey.queryStream, CacheKey.queryStream, CacheKey.utf8, CacheKey.utf8] at h
  have hdata : s.toByteArray.data = s'.toByteArray.data := Array.toList_inj.mp h
  exact String.toByteArray_inj.mp (ByteArray.ext hdata)

theorem isLE_compare_empty (s : String) : (compare "" s).isLE = true := by
  have hlt : ¬ s < "" := by
    rw [String.lt_iff]
    exact List.not_lt_nil s.toList
  change (compareOfLessAndEq "" s).isLE = true
  rw [compareOfLessAndEq]
  split
  · rfl
  · split
    · rfl
    · rename_i hnlt hne
      exact absurd (String.le_antisymm (String.not_lt.mp hlt) (String.not_lt.mp hnlt)) hne

theorem repoStream_empty_pattern {patterns : List String} (h : patterns ≠ []) :
    CacheKey.repoStream ("" :: patterns) = CacheKey.repoStream patterns := by
  have hsort : SortedGroups.sortBy compare ("" :: patterns) =
      "" :: SortedGroups.sortBy compare patterns := by
    rw [SortedGroups.sortBy_cons]
    cases SortedGroups.sortBy compare patterns with
    | nil => rfl
    | cons q qs => exact List.orderedInsert_cons_of_le _ _ (isLE_compare_empty q)
  have htail : patterns.isEmpty = false := List.isEmpty_eq_false_iff.mpr h
  rw [CacheKey.repoStream, CacheKey.repoStream, List.isEmpty_cons, htail, hsort,
    List.flatMap_cons]
  rfl

theorem repoStream_own_iff (patterns : List String) :
    (∀ patterns', CacheKey.repoStream patterns' = CacheKey.repoStream patterns →
      patterns'.Perm patterns) ↔ patterns = [] := by
  constructor
  · intro hown
    by_contra hne
    have hlen := (hown _ (repoStream_empty_pattern hne)).length_eq
    rw [List.length_cons] at hlen
    exact absurd hlen (Nat.succ_ne_self _)
  · intro hnil patterns' h
    rw [hnil] at h ⊢
    rw [CacheKey.repoStream, CacheKey.repoStream] at h
    split at h
    · rename_i hempty
      rw [List.isEmpty_iff.mp hempty]
    · cases h

/-- A query has a text and patterns of its own exactly when nothing or one unambiguous
condition is left of it. Texts are written as different bytes; only the empty list of
patterns is told from every other one. -/
theorem cache_key_own (globs : Globset) (ast : Query) (p : ParsedQuery)
    (h : ParsedQuery.fromAst globs ast = some p) :
    (OwnKey globs ast p ↔ DistinctiveQuery (stripRepoFromExpr ast.root)) ∧
      (∀ s s', CacheKey.queryStream s = CacheKey.queryStream s' → s = s') ∧
      ∀ patterns, (∀ patterns', CacheKey.repoStream patterns' = CacheKey.repoStream patterns →
        patterns'.Perm patterns) ↔ patterns = [] :=
  ⟨⟨distinctive_of_ownKey h, ownKey_of_distinctive h⟩,
    fun _ _ h => queryStream_injective h, repoStream_own_iff⟩

end Key

section Example

/-- `repo:a AND kind:function` -/
def kindFunction : Query :=
  ⟨.and [.condition "repo" .equal (.string "a") (.new 0 6),
    .condition "kind" .equal (.string "function") (.new 11 24)], .new 0 24⟩

def literalGlobs : Globset where
  isMatch := fun p name => p == name
  build := fun patterns => some fun name => patterns.any fun p => p == name
  build_eq := by
    intro patterns matcher h name
    cases h
    rfl

theorem distinctive_kindFunction : Distinctive "kind" .equal "function" where
  splitsOnce := by
    intro f op rest _ h
    have hlist := congrArg String.toList h
    simp only [String.toList_append] at hlist
    have hop : ∃ c cs, op.text.toList = c :: cs ∧
        (c = ':' || c = '~' || c = '>' || c = '<') = true := by
      cases op
      · exact ⟨':', [], rfl, rfl⟩
      · exact ⟨'~', ['='], rfl, rfl⟩
      · exact ⟨'>', [], rfl, rfl⟩
      · exact ⟨'<', [], rfl, rfl⟩
      · exact ⟨'>', ['='], rfl, rfl⟩
      · exact ⟨'<', ['='], rfl, rfl⟩
    obtain ⟨c, cs, htext, hc⟩ := hop
    have hat : (f.toList ++ op.text.toList ++ rest.toList)[f.toList.length]? = some c := by
      rw [htext]
      simp
    -- the only character of the text that can begin an operator is the colon
    have hfind : ∀ i < 14,
        (("kind".toList ++ ":".toList ++ "function".toList)[i]?.any fun c =>
          c = ':' || c = '~' || c = '>' || c = '<') = true →
        i = 4 ∧ ("kind".toList ++ ":".toList ++ "function".toList)[i]? = some ':' := by
      decide
    have hbound : f.toList.length < 14 := by
      have hlen := congrArg List.length hlist
      have htarget : ("kind".toList ++ ":".toList ++ "function".toList).length = 13 := rfl
      rw [show Operator.equal.text = ":" from rfl, htarget] at hlen
      simp only [List.length_append] at hlen
      omega
    rw [hlist] at hat
    obtain ⟨hfour, hcolon⟩ := hfind f.toList.length hbound
      ((congrArg (Option.any _) hat).trans hc)
    have hcolon : c = ':' := Option.some.inj (hat.symm.trans hcolon)
    have hequal : op = .equal := by
      rw [hcolon] at htext
      cases op
      · rfl
      all_goals exact absurd (List.cons.inj htext).1 (by decide)
    subst hequal
    have hsplit := List.append_inj hlist (by
      rw [List.length_append, List.length_append, hfour]
      rfl)
    exact ⟨String.toList_inj.mp (List.append_inj hsplit.1 hfour).1, rfl,
      String.toList_inj.mp hsplit.2⟩
  onlyString := by
    intro w h
    match w with
    | .string s => rw [← h, serializeValue]
    | .number n =>
      cases n with
      | ofNat n =>
        have hmem : 'f' ∈ (Nat.repr n).toList := by
          rw [show Nat.repr n = "function" from h]
          decide
        rw [Nat.toList_repr] at hmem
        exact absurd (Nat.isDigit_of_mem_toDigits (by decide) (by decide) hmem) (by decide)
      | negSucc n =>
        have hlist := congrArg String.toList h
        rw [show serializeValue (.number (Int.negSucc n)) = "-" ++ Nat.repr (n + 1) from rfl,
          String.toList_append] at hlist
        exact absurd (List.cons.inj hlist).1 (by decide)
    | .boolean b => cases b <;> exact absurd h (by decide)
    | .regex r =>
      have hlist := congrArg String.toList h
      rw [serializeValue, String.append_assoc, String.append_assoc, String.toList_append] at hlist
      exact absurd (List.cons.inj hlist).1 (by decide)
    | .variable name =>
      have hlist := congrArg String.toList h
      rw [serializeValue, String.toList_append] at hlist
      exact absurd (List.cons.inj hlist).1 (by decide)
    | .subquery e =>
      have hlist := congrArg String.toList h
      rw [serializeValue, String.append_assoc, String.toList_append] at hlist
      exact absurd (List.cons.inj hlist).1 (by decide)
  notNegated := by
    intro f _ h
    have hlist := congrArg String.toList h
    rw [String.toList_append] at hlist
    exact absurd (List.cons.inj hlist).1 (by decide)

theorem cache_key_own_kindFunction :
    ∃ p, ParsedQuery.fromAst literalGlobs kindFunction = some p ∧
      OwnKey literalGlobs kindFunction p := by
  refine ⟨_, rfl, (cache_key_own literalGlobs kindFunction _ rfl).1.mpr ?_⟩
  intro e he
  cases he
  exact ⟨"kind", .equal, "function", _, rfl, distinctive_kindFunction⟩

def isFunction : Expr := .condition "kind" .equal (.string "function") .synthetic

def isNamedF : Expr := .condition "name" .equal (.string "f") .synthetic

def kindAndName : RepoGraph (String × String) where
  name := "r"
  holds := fun field _ value n =>
    (field = "kind" ∧ value = .string n.1) ∨ (field = "name" ∧ value = .string n.2)
  joined := fun _ _ _ => False

/-- `NOT (kind:function AND name:f)` and `(NOT kind:function) AND name:f` have one text, and
the patterns `ab`, `c` are written as the same bytes as `a`, `bc`. -/
theorem negated_conjunction_shares_key :
    ¬ ((∀ ast ast' p p', ParsedQuery.fromAst literalGlobs ast = some p →
        ParsedQuery.fromAst literalGlobs ast' = some p' → p.normalized = p'.normalized →
          p.repoFilter.patterns = p'.repoFilter.patterns →
            SameMeaning (stripRepoFromExpr ast.root) (stripRepoFromExpr ast'.root)) ∧
      ∀ patterns patterns', CacheKey.repoStream patterns = CacheKey.repoStream patterns' →
        patterns.Perm patterns') := by
  intro h
  have hsame := h.1 ⟨.not (.and [isFunction, isNamedF]), .synthetic⟩
    ⟨.and [.not isFunction, isNamedF], .synthetic⟩ _ _ rfl rfl (by decide) rfl
  have hnode := hsame literalGlobs _ kindAndName ("class", "g")
  have hnot : Expr.KeptBy literalGlobs kindAndName
      (stripRepoFromExpr (.not (.and [isFunction, isNamedF]))) ("class", "g") := by
    intro hboth
    cases hboth.1 with
    | inl hkind => exact absurd hkind.2 (by simp)
    | inr hname => exact absurd hname.1 (by decide)
  cases (hnode.mp hnot).2.1 with
  | inl hkind => exact absurd hkind.1 (by decide)
  | inr hname => exact absurd hname.2 (by simp)

example : CacheKey.repoStream ["ab", "c"] = CacheKey.repoStream ["a", "bc"] := by decide

end Example

end Sqry
