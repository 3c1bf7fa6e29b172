import Sqry.Query.Grammar

/-!
The parser on tokens with one end of input, at their end. From any position it stays inside the
vector, comes to an end, and what it accepts is derived by the rule of the function.
-/

namespace Sqry
namespace QueryParser
open Cursor (Reading Slice)

namespace TokenStream
variable (s : TokenStream)

def Yields (rule : List Token → Expr → Prop) (p : Nat) (e : Expr) (q : Nat) : Prop :=
  ∃ ts, Slice s.tokens p ts q ∧ rule ts e ∧ p < q ∧ q ≤ s.body.length

def StopsAt (q : Nat) : Prop :=
  ∃ t, s.tokens[q]? = some t ∧ andStops t.tokenType = true

def YieldsTail (rule : List Token → List Expr → Prop) (combine : List Expr → Expr)
    (acc : List Expr) (p : Nat) (e : Expr) (q : Nat) : Prop :=
  ∃ ts es, Slice s.tokens p ts q ∧ rule ts es ∧ e = combine (acc ++ es) ∧ p ≤ q ∧
    q ≤ s.body.length

variable {s} {p q : Nat}

section Positions

theorem at_position (h : p ≤ s.body.length) : ∃ t, s.tokens[p]? = some t ∧
    (t.tokenType = .eof ∧ p = s.body.length ∨ t.tokenType ≠ .eof ∧ p < s.body.length) := by
  cases Nat.lt_or_eq_of_le h with
  | inl hlt =>
    refine ⟨s.body[p], ?_, .inr ⟨s.noEof _ (List.getElem_mem hlt), hlt⟩⟩
    rw [tokens, List.getElem?_append_left hlt, List.getElem?_eq_getElem hlt]
  | inr heq =>
    refine ⟨s.eof, ?_, .inl ⟨s.eof_isEof, heq⟩⟩
    rw [tokens, heq, List.getElem?_concat_length]

theorem lt_of_ne_eof {t : Token} (h : p ≤ s.body.length) (ht : s.tokens[p]? = some t)
    (hne : t.tokenType ≠ .eof) : p < s.body.length := by
  obtain ⟨t', ht', hcase⟩ := at_position h
  cases Option.some.inj (ht.symm.trans ht')
  cases hcase with
  | inl heof => exact absurd heof.1 hne
  | inr hlt => exact hlt.2

theorem advance_meets (h : p ≤ s.body.length) (hpos : 0 < s.body.length) :
    (advance s.tokens p).Meets fun t q =>
      s.tokens[p]? = some t ∧ p < s.body.length ∧ q = p + 1 ∨
        p = s.body.length ∧ q = p ∧ s.tokens[p - 1]? = some t := by
  obtain ⟨t, ht, hcase⟩ := at_position h
  cases hcase with
  | inr hne =>
    rw [advance_eq ht hne.1]
    exact .inl ⟨ht, hne.2, rfl⟩
  | inl heof =>
    cases p with
    | zero => exact absurd heof.2 (Nat.ne_of_lt hpos)
    | succ before =>
      obtain ⟨t', ht', _⟩ := at_position (Nat.le_of_succ_le h)
      rw [advance_end ht heof.1 ht']
      exact .inr ⟨heof.2, rfl, ht'⟩

theorem matchToken_meets {k : TokenType} (hk : k ∈ marks) (h : p ≤ s.body.length) :
    (matchToken s.tokens k p).Meets fun found q =>
      found = true ∧ q = p + 1 ∧ p < s.body.length ∧
          (∃ t, s.tokens[p]? = some t ∧ t.tokenType = k) ∨
        found = false ∧ q = p := by
  obtain ⟨t, ht, hcase⟩ := at_position h
  rw [matchToken_eq hk ht]
  by_cases heq : t.tokenType = k
  · have hne : t.tokenType ≠ .eof := fun heof => absurd (heof ▸ heq ▸ hk) (by decide)
    rw [if_pos heq]
    exact .inl ⟨rfl, rfl, lt_of_ne_eof h ht hne, t, ht, heq⟩
  · rw [if_neg heq]
    exact .inr ⟨rfl, rfl⟩

theorem closeParen_meets {span : QuerySpan} (h : p ≤ s.body.length) :
    (closeParen s.tokens span p).Meets fun r q =>
      q = p + 1 ∧ p < s.body.length ∧ s.tokens[p]? = some r ∧ r.tokenType = .rParen := by
  obtain ⟨t, ht, _⟩ := at_position h
  refine (matchToken_meets (by decide) h).andThen fun found q hfound => ?_
  cases hfound with
  | inl hit =>
    obtain ⟨rfl, rfl, hlt, r, hr, hparen⟩ := hit
    rw [if_pos rfl, previous_eq hr]
    exact ⟨rfl, hlt, hr, hparen⟩
  | inr miss =>
    obtain ⟨rfl, rfl⟩ := miss
    rw [if_neg Bool.false_ne_true, isAtEnd_eq ht]
    trivial

end Positions

section Conditions

theorem operatorOf_identifier {t : Token} {field : String} (h : t.tokenType = .identifier field) :
    operatorOf t.tokenType = none := by
  rw [h]
  rfl

theorem valueOf_operator {t : TokenType} {operator : Operator}
    (h : operatorOf t = some operator) : valueOf t = none := by
  cases t with
  | colon | regexOp | greater | less | greaterEq | lessEq => rfl
  | _ => cases h

theorem conditionHead_meets (h : p ≤ s.body.length) (hpos : 0 < s.body.length) :
    (conditionHead s.tokens p).Meets fun head q =>
      q = p + 2 ∧ q ≤ s.body.length ∧ s.tokens[p]? = some head.1 ∧
        head.1.tokenType = .identifier head.2.1 ∧
        ∃ o, s.tokens[p + 1]? = some o ∧ operatorOf o.tokenType = some head.2.2 := by
  refine (advance_meets h hpos).andThen fun f q hf => ?_
  cases hfield : f.tokenType with
  | identifier field =>
    have hq : q ≤ s.body.length := by
      cases hf with
      | inl hnext => rw [hnext.2.2]; exact hnext.2.1
      | inr hend => rw [hend.2.1]; exact h
    refine (advance_meets hq hpos).andThen fun o r ho => ?_
    cases hop : operatorOf o.tokenType with
    | none => trivial
    | some operator =>
      cases hf with
      | inl hnext =>
        obtain ⟨hread, hlt, rfl⟩ := hnext
        cases ho with
        | inl hnext' =>
          obtain ⟨hread', hlt', rfl⟩ := hnext'
          exact ⟨rfl, hlt', hread, hfield, o, hread', hop⟩
        | inr hend =>
          rw [Nat.add_sub_cancel, hread] at hend
          rw [← Option.some.inj hend.2.2, operatorOf_identifier hfield] at hop
          cases hop
      | inr hend =>
        obtain ⟨hp, rfl, hread⟩ := hend
        cases ho with
        | inl hnext' => exact absurd hp (Nat.ne_of_lt hnext'.2.1)
        | inr hend' =>
          rw [hread] at hend'
          rw [← Option.some.inj hend'.2.2, operatorOf_identifier hfield] at hop
          cases hop
  | _ => trivial

theorem subqueryAhead_meets {field : String} {operator : Operator} (h : p ≤ s.body.length) :
    (subqueryAhead s.tokens field operator p).Meets fun ahead q =>
      q = p ∧ ∀ l, ahead = some l → s.tokens[p]? = some l ∧ l.tokenType = .lParen ∧
        isRelationField field = true ∧ operator = .equal := by
  obtain ⟨t, ht, _⟩ := at_position h
  rw [subqueryAhead, peek_eq ht]
  cases hcond : isRelationField field && operator == .equal with
  | false =>
    refine ⟨rfl, fun l hl => ?_⟩
    cases hl
  | true =>
    refine ⟨rfl, fun l hl => ?_⟩
    rw [Bool.and_eq_true, beq_iff_eq] at hcond
    by_cases hparen : t.tokenType = .lParen
    · rw [hparen, beq_self_eq_true, if_pos rfl] at hl
      rw [← Option.some.inj hl]
      exact ⟨ht, hparen, hcond⟩
    · rw [beq_eq_false_iff_ne.mpr hparen, if_neg Bool.false_ne_true] at hl
      cases hl

theorem conditionValue_meets {f o : Token} {field : String} {operator : Operator}
    (h : p + 1 ≤ s.body.length) (ho : s.tokens[p]? = some o)
    (hop : operatorOf o.tokenType = some operator) :
    (conditionValue s.tokens f field operator (p + 1)).Meets fun e q =>
      q = p + 2 ∧ q ≤ s.body.length ∧ ∃ v value, s.tokens[p + 1]? = some v ∧
        valueOf v.tokenType = some value ∧ e = valueCondition f field operator v value := by
  refine (advance_meets h (Nat.lt_of_lt_of_le p.succ_pos h)).andThen fun v q hv => ?_
  cases hvalue : valueOf v.tokenType with
  | none => trivial
  | some value =>
    cases hv with
    | inl hnext =>
      obtain ⟨hread, hlt, rfl⟩ := hnext
      exact ⟨rfl, hlt, v, value, hread, hvalue, rfl⟩
    | inr hend =>
      rw [Nat.add_sub_cancel, ho] at hend
      rw [← Option.some.inj hend.2.2, valueOf_operator hop] at hvalue
      cases hvalue

end Conditions

section Functions

/-- With this much fuel every function reads what its rule derives, wherever it starts. -/
structure Sound (s : TokenStream) (fuel : Nat) : Prop where
  or : ∀ p ≤ s.body.length, 4 * (s.body.length - p) + 5 ≤ fuel →
    (parseOr s.tokens fuel p).Meets fun e q => s.Yields OrRule p e q ∧ s.StopsAt q
  orLoop : ∀ acc, ∀ p ≤ s.body.length, 4 * (s.body.length - p) + 1 ≤ fuel → s.StopsAt p →
    (orLoop s.tokens fuel acc p).Meets fun e q =>
      s.YieldsTail OrTail orOf acc p e q ∧ s.StopsAt q
  and : ∀ p ≤ s.body.length, 4 * (s.body.length - p) + 4 ≤ fuel →
    (parseAnd s.tokens fuel p).Meets fun e q => s.Yields AndRule p e q ∧ s.StopsAt q
  andLoop : ∀ acc, ∀ p ≤ s.body.length, 4 * (s.body.length - p) + 4 ≤ fuel →
    (andLoop s.tokens fuel acc p).Meets fun e q =>
      s.YieldsTail AndTail andOf acc p e q ∧ s.StopsAt q
  not : ∀ p ≤ s.body.length, 4 * (s.body.length - p) + 3 ≤ fuel →
    (parseNot s.tokens fuel p).Meets (s.Yields NotRule p)
  primary : ∀ p ≤ s.body.length, 4 * (s.body.length - p) + 2 ≤ fuel →
    (parsePrimary s.tokens fuel p).Meets (s.Yields PrimaryRule p)
  condition : ∀ p ≤ s.body.length, 4 * (s.body.length - p) + 1 ≤ fuel →
    (parseCondition s.tokens fuel p).Meets (s.Yields PrimaryRule p)

variable {fuel : Nat}

theorem yields_mk {first : List Token → Expr → Prop} {tail : List Token → List Expr → Prop}
    {rule : List Token → Expr → Prop} {combine : List Expr → Expr} {e e' : Expr} {r : Nat}
    (hmk : ∀ ts rest e es, first ts e → tail rest es → rule (ts ++ rest) (combine (e :: es)))
    (hfirst : s.Yields first p e q) (htail : s.YieldsTail tail combine [e] q e' r) :
    s.Yields rule p e' r := by
  obtain ⟨ts, hslice, hrule, hlt, _⟩ := hfirst
  obtain ⟨rest, es, hslice', hrule', heq, hle, hstop⟩ := htail
  exact ⟨ts ++ rest, hslice.append hslice', heq ▸ hmk ts rest e es hrule hrule',
    Nat.lt_of_lt_of_le hlt hle, hstop⟩

theorem yieldsTail_cons {first : List Token → Expr → Prop}
    {tail : List Token → List Expr → Prop} {combine : List Expr → Expr} {acc : List Expr}
    {e e' : Expr} {before r : Nat} {lead : List Token} (hlead : Slice s.tokens before lead p)
    (hcons : ∀ ts rest e es, first ts e → tail rest es → tail (lead ++ (ts ++ rest)) (e :: es))
    (hfirst : s.Yields first p e q)
    (htail : s.YieldsTail tail combine (acc ++ [e]) q e' r) :
    s.YieldsTail tail combine acc before e' r := by
  obtain ⟨ts, hslice, hrule, hlt, _⟩ := hfirst
  obtain ⟨rest, es, hslice', hrule', heq, hle, hstop⟩ := htail
  have hbefore : before ≤ p := by
    rw [hlead.stop]
    exact Nat.le_add_right _ _
  refine ⟨lead ++ (ts ++ rest), e :: es, hlead.append (hslice.append hslice'),
    hcons ts rest e es hrule hrule', ?_, ?_, hstop⟩
  · rw [heq, List.append_assoc]
    rfl
  · exact Nat.le_trans hbefore (Nat.le_trans (Nat.le_of_lt hlt) hle)

theorem orLoop_sound (ih : s.Sound fuel) (acc : List Expr) (hp : p ≤ s.body.length)
    (hfuel : 4 * (s.body.length - p) + 1 ≤ fuel + 1) (hstop : s.StopsAt p) :
    (orLoop s.tokens (fuel + 1) acc p).Meets fun e q =>
      s.YieldsTail OrTail orOf acc p e q ∧ s.StopsAt q := by
  rw [QueryParser.orLoop]
  refine (matchToken_meets (by decide) hp).andThen fun found q hfound => ?_
  cases hfound with
  | inr miss =>
    obtain ⟨rfl, rfl⟩ := miss
    refine ⟨⟨[], [], .nil _, .nil, ?_, Nat.le_refl _, hp⟩, hstop⟩
    rw [List.append_nil]
  | inl hit =>
    obtain ⟨rfl, rfl, hlt, t, ht, hor⟩ := hit
    rw [if_pos rfl]
    refine (ih.and (p + 1) hlt (by omega)).andThen fun e q he => ?_
    obtain ⟨hyields, hstop'⟩ := he
    obtain ⟨_, _, _, hadvanced, hle⟩ := id hyields
    refine (ih.orLoop _ q hle (by omega) hstop').mono fun e' r he' => ⟨?_, he'.2⟩
    have hcons : ∀ ts rest e es, AndRule ts e → OrTail rest es →
        OrTail (t :: (ts ++ rest)) (e :: es) := fun _ _ _ _ h h' => .cons hor h h'
    exact yieldsTail_cons (.single ht) hcons hyields he'.1

theorem yields_head {t : Token} {e : Expr} (ht : s.tokens[p]? = some t)
    (h : s.Yields NotRule p e q) :
    s.Yields (fun ts e => NotRule ts e ∧ ts.head? = some t) p e q := by
  obtain ⟨ts, hslice, hrule, hle⟩ := h
  refine ⟨ts, hslice, ⟨hrule, ?_⟩, hle⟩
  obtain ⟨t', rest, heq, _⟩ := hrule.starts
  have hdrop := hslice.drop_eq
  rw [heq, List.cons_append] at hdrop
  rw [heq, ← ht, Cursor.getElem?_of_drop hdrop]
  rfl

theorem andTail_cons {t : Token} (hjoin : joinKeyword t.tokenType = none) (ts rest : List Token)
    (e : Expr) (es : List Expr) (h : NotRule ts e ∧ ts.head? = some t) (h' : AndTail rest es) :
    AndTail (ts ++ rest) (e :: es) := by
  obtain ⟨ts', rfl⟩ := List.head?_eq_some_iff.mp h.2
  exact .implicit hjoin h.1 h'

theorem andLoop_sound (ih : s.Sound fuel) (acc : List Expr) (hp : p ≤ s.body.length)
    (hfuel : 4 * (s.body.length - p) + 4 ≤ fuel + 1) :
    (andLoop s.tokens (fuel + 1) acc p).Meets fun e q =>
      s.YieldsTail AndTail andOf acc p e q ∧ s.StopsAt q := by
  obtain ⟨t, ht, hcase⟩ := at_position hp
  rw [QueryParser.andLoop]
  refine (matchToken_meets (by decide) hp).andThen fun found q hfound => ?_
  cases hfound with
  | inl hit =>
    obtain ⟨rfl, rfl, hlt, t, ht, hand⟩ := hit
    rw [if_pos rfl]
    refine (ih.not (p + 1) hlt (by omega)).andThen fun e q he => ?_
    obtain ⟨_, _, _, hadvanced, hle⟩ := id he
    refine (ih.andLoop _ q hle (by omega)).mono fun e' r he' => ⟨?_, he'.2⟩
    have hcons : ∀ ts rest e es, NotRule ts e → AndTail rest es →
        AndTail (t :: (ts ++ rest)) (e :: es) := fun _ _ _ _ h h' => .keyword hand h h'
    exact yieldsTail_cons (.single ht) hcons he he'.1
  | inr miss =>
    obtain ⟨rfl, rfl⟩ := miss
    rw [if_neg Bool.false_ne_true, implicitAnd_eq ht, Reading.andThen_ok]
    cases hstop : andStops t.tokenType with
    | true =>
      refine ⟨⟨[], [], .nil _, .nil, ?_, Nat.le_refl _, hp⟩, t, ht, hstop⟩
      rw [List.append_nil]
    | false =>
      have hne : t.tokenType ≠ .eof := by
        intro heof
        rw [heof] at hstop
        exact absurd hstop (by decide)
      have hlt := lt_of_ne_eof hp ht hne
      have hjoin : joinKeyword t.tokenType = none := by
        rw [andStops, isJoinKeyword_eq] at hstop
        exact Option.not_isSome_iff_eq_none.mp
          (Bool.not_eq_true _ ▸ (Bool.or_eq_false_iff.mp hstop).2)
      rw [Bool.not_false, if_pos rfl]
      refine (ih.not q hp (by omega)).andThen fun e r he => ?_
      obtain ⟨_, _, _, hadvanced, hle⟩ := id he
      refine (ih.andLoop _ r hle (by omega)).mono fun e' r' he' => ⟨?_, he'.2⟩
      exact yieldsTail_cons (.nil q) (andTail_cons hjoin) (yields_head ht he) he'.1

theorem orAnd_sound (ih : s.Sound fuel) (hp : p ≤ s.body.length) :
    (4 * (s.body.length - p) + 5 ≤ fuel + 1 → (parseOr s.tokens (fuel + 1) p).Meets fun e q =>
      s.Yields OrRule p e q ∧ s.StopsAt q) ∧
    (4 * (s.body.length - p) + 4 ≤ fuel + 1 → (parseAnd s.tokens (fuel + 1) p).Meets fun e q =>
      s.Yields AndRule p e q ∧ s.StopsAt q) := by
  refine ⟨fun hfuel => ?_, fun hfuel => ?_⟩
  · rw [parseOr]
    refine (ih.and p hp (by omega)).andThen fun e q he => ?_
    obtain ⟨_, _, _, hadvanced, hle⟩ := id he.1
    refine (ih.orLoop _ q hle (by omega) he.2).mono fun e' r he' => ⟨?_, he'.2⟩
    exact yields_mk (fun _ _ _ _ h h' => .mk h h') he.1 he'.1
  · rw [parseAnd]
    refine (ih.not p hp (by omega)).andThen fun e q he => ?_
    obtain ⟨_, _, _, hadvanced, hle⟩ := id he
    refine (ih.andLoop _ q hle (by omega)).mono fun e' r he' => ⟨?_, he'.2⟩
    exact yields_mk (fun _ _ _ _ h h' => .mk h h') he he'.1

theorem parseNot_sound (ih : s.Sound fuel) (hp : p ≤ s.body.length)
    (hfuel : 4 * (s.body.length - p) + 3 ≤ fuel + 1) :
    (parseNot s.tokens (fuel + 1) p).Meets (s.Yields NotRule p) := by
  rw [parseNot]
  refine (matchToken_meets (by decide) hp).andThen fun found q hfound => ?_
  cases hfound with
  | inl hit =>
    obtain ⟨rfl, rfl, hlt, t, ht, hnot⟩ := hit
    rw [if_pos rfl]
    refine (ih.not (p + 1) hlt (by omega)).andThen fun e q he => ?_
    obtain ⟨ts, hslice, hrule, hadvanced, hle⟩ := he
    exact ⟨t :: ts, .cons ht hslice, .not hnot hrule, Nat.lt_of_succ_lt hadvanced, hle⟩
  | inr miss =>
    obtain ⟨rfl, rfl⟩ := miss
    rw [if_neg Bool.false_ne_true]
    refine (ih.primary q hp (by omega)).mono fun e r he => ?_
    obtain ⟨ts, hslice, hrule, hle⟩ := he
    exact ⟨ts, hslice, .primary hrule, hle⟩

theorem parsePrimary_sound (ih : s.Sound fuel)
    (hp : p ≤ s.body.length) (hfuel : 4 * (s.body.length - p) + 2 ≤ fuel + 1) :
    (parsePrimary s.tokens (fuel + 1) p).Meets (s.Yields PrimaryRule p) := by
  rw [parsePrimary]
  refine (matchToken_meets (by decide) hp).andThen fun found q hfound => ?_
  cases hfound with
  | inl hit =>
    obtain ⟨rfl, rfl, hlt, l, hl, hparen⟩ := hit
    rw [if_pos rfl, previous_eq hl, Reading.andThen_ok]
    refine (ih.or (p + 1) hlt (by omega)).andThen fun e q he => ?_
    obtain ⟨ts, hslice, hrule, hadvanced, hle⟩ := he.1
    refine (closeParen_meets hle).andThen fun r q' hr => ?_
    obtain ⟨rfl, hlt', hr, hclose⟩ := hr
    exact ⟨l :: (ts ++ [r]), .cons hl (hslice.concat hr), .paren hparen hrule hclose,
      by omega, hlt'⟩
  | inr miss =>
    obtain ⟨rfl, rfl⟩ := miss
    obtain ⟨t, ht, _⟩ := at_position hp
    rw [if_neg Bool.false_ne_true, peek_eq ht, Reading.andThen_ok]
    cases hname : bareName t with
    | none => exact ih.condition q hp (by omega)
    | some e =>
      have hne : t.tokenType ≠ .eof := by
        intro heof
        have hstart := startsOperand_of_bareName hname
        rw [heof] at hstart
        cases hstart
      dsimp only
      rw [advance_eq ht hne]
      exact ⟨[t], .single ht, .name hname, Nat.lt_succ_self q, lt_of_ne_eof hp ht hne⟩

theorem parseCondition_sound (ih : s.Sound fuel) (hpos : 0 < s.body.length)
    (hp : p ≤ s.body.length) (hfuel : 4 * (s.body.length - p) + 1 ≤ fuel + 1) :
    (parseCondition s.tokens (fuel + 1) p).Meets (s.Yields PrimaryRule p) := by
  rw [parseCondition]
  refine (conditionHead_meets hp hpos).andThen fun head q hhead => ?_
  obtain ⟨rfl, hle, hf, hfield, o, ho, hop⟩ := hhead
  refine (subqueryAhead_meets hle).andThen fun ahead q hahead => ?_
  obtain ⟨rfl, hl⟩ := hahead
  cases ahead with
  | none =>
    refine (@conditionValue_meets s (p + 1) head.1 o head.2.1 head.2.2 hle ho hop).mono fun e q he => ?_
    obtain ⟨rfl, hle', v, value, hv, hvalue, rfl⟩ := he
    exact ⟨[head.1, o, v], .cons hf (.cons ho (.single hv)), .condition hfield hop hvalue,
      by omega, hle'⟩
  | some l =>
    obtain ⟨hparen, hlparen, hrelation, hequal⟩ := hl l rfl
    have hcolon : o.tokenType = .colon := by
      rw [hequal] at hop
      cases htype : o.tokenType <;> rw [htype] at hop <;> first | rfl | cases hop
    have hne : l.tokenType ≠ .eof := by
      rw [hlparen]
      exact TokenType.noConfusion
    have hlt := lt_of_ne_eof hle hparen hne
    dsimp only
    rw [advance_eq hparen hne, Reading.andThen_ok]
    refine (ih.or (p + 3) hlt (by omega)).andThen fun e q he => ?_
    obtain ⟨ts, hslice, hrule, hadvanced, hle'⟩ := he.1
    refine (closeParen_meets hle').andThen fun r q' hr => ?_
    obtain ⟨rfl, hlt', hr, hclose⟩ := hr
    refine ⟨head.1 :: o :: l :: (ts ++ [r]),
      .cons hf (.cons ho (.cons hparen (hslice.concat hr))), ?_, by omega, hlt'⟩
    rw [hequal]
    exact .subquery hfield hrelation hcolon hlparen hrule hclose

theorem sound (hpos : 0 < s.body.length) : s.Sound fuel := by
  induction fuel with
  | zero =>
    refine ⟨?_, ?_, ?_, ?_, ?_, ?_, ?_⟩
    · intro p _ hfuel
      cases hfuel
    · intro acc p _ hfuel
      cases hfuel
    · intro p _ hfuel
      cases hfuel
    · intro acc p _ hfuel
      cases hfuel
    · intro p _ hfuel
      cases hfuel
    · intro p _ hfuel
      cases hfuel
    · intro p _ hfuel
      cases hfuel
  | succ fuel ih =>
    exact {
      or := fun p hp hfuel => (orAnd_sound ih hp).1 hfuel
      orLoop := fun acc p hp hfuel hstop => orLoop_sound ih acc hp hfuel hstop
      and := fun p hp hfuel => (orAnd_sound ih hp).2 hfuel
      andLoop := fun acc p hp hfuel => andLoop_sound ih acc hp hfuel
      not := fun p hp hfuel => parseNot_sound ih hp hfuel
      primary := fun p hp hfuel => parsePrimary_sound ih hp hfuel
      condition := fun p hp hfuel => parseCondition_sound ih hpos hp hfuel }

end Functions

end TokenStream

end QueryParser
end Sqry
