import Sqry.Query.ParserComplete
import Sqry.Query.ParserSound

/-!
The parser decides the grammar of queries: it accepts just what derives, with the expression that
the derivation denotes.
-/

namespace Sqry
namespace QueryParser
open Cursor (Reading Slice getElem?_of_drop drop_after drop_succ)

namespace TokenStream
variable {s : TokenStream} {upper : Char → List Char} {fuel : Nat}

section Whole

theorem tokens_length_body : s.tokens[s.body.length]? = some s.eof := by
  rw [tokens, List.getElem?_concat_length]

theorem slice_unique {ts : List Token} {p : Nat} (h : Slice s.tokens p ts s.body.length)
    (hp : p ≤ s.body.length) : s.body.drop p = ts := by
  have hdrop := h.drop_eq
  rw [tokens, List.drop_append_of_le_length hp, List.drop_left] at hdrop
  exact List.append_cancel_right hdrop

theorem parseJoin_meets (hpos : 0 < s.body.length) (hfuel : s.fuel ≤ fuel) :
    (parseJoin upper s.tokens fuel 0).Meets (s.Yields QueryRule 0) := by
  rw [TokenStream.fuel] at hfuel
  rw [parseJoin]
  refine ((sound hpos).or 0 (Nat.zero_le _) hfuel).andThen fun left q hleft => ?_
  obtain ⟨⟨ts, hslice, hrule, hlt, hle⟩, t, ht, hstop⟩ := hleft
  rw [peek_eq ht, Reading.andThen_ok]
  cases hedge : joinEdge upper t.tokenType with
  | none => exact ⟨ts, hslice, .or hrule, hlt, hle⟩
  | some edge =>
    have hne : t.tokenType ≠ .eof := by
      intro heof
      rw [heof] at hedge
      cases hedge
    have hlt' := lt_of_ne_eof hle ht hne
    -- where an OR ends before a word, the word is a join keyword
    have hjoin : joinKeyword t.tokenType = some edge := by
      cases hword : joinKeyword t.tokenType with
      | some edge' => rw [← hedge, joinEdge_of_joinKeyword hword]
      | none =>
        rw [andStops, isJoinKeyword_eq, hword] at hstop
        cases htype : t.tokenType with
        | word w => rw [htype] at hstop; cases hstop
        | _ => rw [htype] at hedge; cases hedge
    dsimp only
    rw [advance_eq ht hne, Reading.andThen_ok]
    refine ((sound hpos).or (q + 1) hlt' (by omega)).andThen fun right r hright => ?_
    obtain ⟨⟨ts', hslice', hrule', hlt'', hle'⟩, _⟩ := hright
    exact ⟨ts ++ t :: ts', hslice.append (.cons ht hslice'), .join hrule hjoin hrule',
      by omega, hle'⟩

theorem parseJoin_of_queryRule {root : Expr} (h : QueryRule s.body root)
    (hfuel : s.fuel ≤ fuel) :
    parseJoin upper s.tokens fuel 0 = .ok root s.body.length := by
  have heof : andStops s.eof.tokenType = true ∧ s.eof.tokenType ≠ .or := by
    rw [s.eof_isEof]
    exact ⟨rfl, TokenType.noConfusion⟩
  rw [TokenStream.fuel] at hfuel
  have hdrop : s.tokens.drop 0 = s.body ++ s.eof :: [] := rfl
  have hend : s.tokens[s.body.length]? = some s.eof := tokens_length_body
  generalize hbody : s.body = body at h hdrop hend hfuel ⊢
  cases h with
  | or hrule =>
    rw [parseJoin, takesOr hrule fuel 0 s.eof [] hdrop heof.1 heof.2 hfuel, Reading.andThen_ok,
      Nat.zero_add, peek_eq hend, Reading.andThen_ok, s.eof_isEof]
    rfl
  | @join left a k edge right b hleft hjoin hright =>
    rw [List.append_assoc, List.cons_append] at hdrop
    rw [List.length_append, List.length_cons] at hfuel ⊢
    have hk := drop_after hdrop
    have hread := getElem?_of_drop hk
    have hstop := andStops_of_joinKeyword hjoin
    have hne : k.tokenType ≠ .eof := by
      intro heq
      rw [heq] at hjoin
      cases hjoin
    rw [parseJoin, takesOr hleft fuel 0 k _ hdrop hstop.1 hstop.2 (by omega),
      Reading.andThen_ok, peek_eq hread, Reading.andThen_ok, joinEdge_of_joinKeyword hjoin]
    dsimp only
    rw [advance_eq hread hne, Reading.andThen_ok,
      takesOr hright fuel _ s.eof [] (drop_succ hk) heof.1 heof.2 (by omega),
      Reading.andThen_ok]
    congr 1
    omega

theorem parse_empty (h : s.body = []) : parse upper s.tokens fuel = .error .emptyQuery := by
  have hend : s.tokens[0]? = some s.eof := by
    rw [tokens, h]
    rfl
  rw [parse, isAtEnd_eq hend, Reading.andThen_ok, s.eof_isEof]
  rfl

theorem parse_eq {first : Token} (hfirst : s.body.head? = some first) :
    parse upper s.tokens fuel =
      (parseJoin upper s.tokens fuel 0).andThen fun root position =>
        (isAtEnd s.tokens position).andThen fun atEnd position =>
          (peek s.tokens position).andThen fun token position =>
            if !atEnd && !(token.tokenType == .pipe) then
              .error (.unexpectedToken token "end of query")
            else
              (previous s.tokens position).andThen fun stop position =>
                .ok ⟨root, first.span.merge stop.span⟩ position := by
  obtain ⟨rest, hbody⟩ := List.head?_eq_some_iff.mp hfirst
  have hread : s.tokens[0]? = some first := by
    rw [tokens, hbody]
    rfl
  have hne : first.tokenType ≠ .eof := s.noEof first (List.mem_of_mem_head? hfirst)
  rw [parse, isAtEnd_eq hread, Reading.andThen_ok, beq_eq_false_iff_ne.mpr hne,
    if_neg Bool.false_ne_true, peek_eq hread, Reading.andThen_ok]

theorem parse_of_parseJoin {first : Token} {root : Expr} {q : Nat}
    (hfirst : s.body.head? = some first)
    (hjoin : parseJoin upper s.tokens fuel 0 = .ok root q) (hpos : 0 < q)
    (hq : q ≤ s.body.length) :
    (q < s.body.length ∧ ∃ e, parse upper s.tokens fuel = .error e) ∨
      q = s.body.length ∧ ∃ last, s.body.getLast? = some last ∧
        parse upper s.tokens fuel = .ok ⟨root, first.span.merge last.span⟩ q := by
  obtain ⟨t, ht, hcase⟩ := at_position hq
  have hparse : parse upper s.tokens fuel =
      if !(t.tokenType == .eof) && !(t.tokenType == .pipe) then
        .error (.unexpectedToken t "end of query")
      else
        (previous s.tokens q).andThen fun stop position =>
          .ok ⟨root, first.span.merge stop.span⟩ position := by
    rw [parse_eq hfirst, hjoin, Reading.andThen_ok, isAtEnd_eq ht, Reading.andThen_ok,
      peek_eq ht, Reading.andThen_ok]
  cases hcase with
  | inl hend =>
    obtain ⟨heof, rfl⟩ := hend
    obtain ⟨before, hbefore⟩ := Nat.exists_eq_succ_of_ne_zero (Nat.ne_of_gt hpos)
    have hlt : before < s.body.length := hbefore ▸ Nat.lt_succ_self before
    have hlast : s.tokens[before]? = some s.body[before] := by
      rw [tokens, List.getElem?_append_left hlt, List.getElem?_eq_getElem hlt]
    refine .inr ⟨rfl, s.body[before], ?_, ?_⟩
    · rw [List.getLast?_eq_getElem?, hbefore, Nat.succ_sub_one, List.getElem?_eq_getElem hlt]
    · rw [hparse, heof, beq_self_eq_true, Bool.not_true, Bool.false_and,
        if_neg Bool.false_ne_true, hbefore, previous_eq hlast, Reading.andThen_ok]
  | inr hinside =>
    obtain ⟨hne', hlt⟩ := hinside
    have hpipe : t.tokenType ≠ .pipe := by
      refine s.noPipe t ?_
      rw [tokens, List.getElem?_append_left hlt] at ht
      exact List.mem_of_getElem? ht
    refine .inl ⟨hlt, .unexpectedToken t "end of query", ?_⟩
    rw [hparse, beq_eq_false_iff_ne.mpr hne', beq_eq_false_iff_ne.mpr hpipe]
    rfl

theorem parse_of_denotes {query : Query} (h : s.Denotes query) (hfuel : s.fuel ≤ fuel) :
    parse upper s.tokens fuel = .ok query s.body.length := by
  obtain ⟨hrule, first, last, hfirst, hlast, hspan⟩ := h
  have hpos : 0 < s.body.length := List.length_pos_of_mem (List.mem_of_mem_head? hfirst)
  cases parse_of_parseJoin hfirst (parseJoin_of_queryRule hrule hfuel) hpos (Nat.le_refl _) with
  | inl hshort => exact absurd hshort.1 (Nat.lt_irrefl _)
  | inr hend =>
    obtain ⟨_, last', hlast', hparse⟩ := hend
    cases Option.some.inj (hlast.symm.trans hlast')
    rw [hparse, ← hspan]

theorem parse_meets (hfuel : s.fuel ≤ fuel) :
    (parse upper s.tokens fuel).Meets fun query q => q = s.body.length ∧ s.Denotes query := by
  cases hbody : s.body with
  | nil =>
    rw [parse_empty hbody]
    trivial
  | cons first rest =>
    have hpos : 0 < s.body.length := by
      rw [hbody]
      exact Nat.succ_pos _
    have hfirst : s.body.head? = some first := by rw [hbody]; rfl
    cases (@parseJoin_meets s upper fuel hpos hfuel).ok_or_error with
    | inl hok =>
      obtain ⟨root, q, hjoin, ts, hslice, hrule, hlt, hle⟩ := hok
      cases parse_of_parseJoin hfirst hjoin hlt hle with
      | inl hshort =>
        obtain ⟨_, e, herror⟩ := hshort
        rw [herror]
        trivial
      | inr hend =>
        obtain ⟨rfl, last, hlast, hparse⟩ := hend
        rw [hparse, ← hbody]
        refine ⟨rfl, ?_, first, last, hfirst, hlast, rfl⟩
        rw [← slice_unique hslice (Nat.zero_le _), List.drop_zero] at hrule
        exact hrule
    | inr herror =>
      obtain ⟨e, herror⟩ := herror
      rw [parse_eq hfirst, herror]
      trivial

end Whole

/-- On tokens with one end of input and no pipe the parser stays inside the vector and comes to
an end. It accepts just when the tokens derive from the grammar, with what they denote. -/
theorem parse_decides_grammar (s : TokenStream) (upper : Char → List Char) (more : Nat) :
    (∃ query, parse upper s.tokens (s.fuel + more) = .ok query s.body.length ∧
        s.Denotes query ∧ ∀ other, s.Denotes other → other = query) ∨
      (∃ e, parse upper s.tokens (s.fuel + more) = .error e) ∧ ∀ query, ¬ s.Denotes query := by
  have hfuel : s.fuel ≤ s.fuel + more := Nat.le_add_right _ _
  cases (@parse_meets s upper _ hfuel).ok_or_error with
  | inl hok =>
    obtain ⟨query, q, hparse, rfl, hdenotes⟩ := hok
    refine .inl ⟨query, hparse, hdenotes, fun other hother => ?_⟩
    have hsame := hparse.symm.trans (parse_of_denotes hother hfuel)
    cases hsame
    rfl
  | inr herror =>
    obtain ⟨e, herror⟩ := herror
    refine .inr ⟨⟨e, herror⟩, fun query hdenotes => ?_⟩
    have hsame := herror.symm.trans (parse_of_denotes hdenotes hfuel)
    cases hsame

end TokenStream

end QueryParser
end Sqry
