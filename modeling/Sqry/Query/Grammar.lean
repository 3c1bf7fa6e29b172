import Mathlib
import Sqry.Query.Parser

/-!
The grammar of queries: which tokens derive an expression. An operand that follows another one
without AND does not start with a join keyword.
-/

namespace Sqry
namespace QueryParser
open Cursor (Reading Slice)

def joinKeyword : TokenType → Option JoinEdgeKind
  | .word w =>
    if eqIgnoreAsciiCase w "CALLS" then some .calls
    else if eqIgnoreAsciiCase w "IMPORTS" then some .imports
    else if eqIgnoreAsciiCase w "INHERITS" then some .inherits
    else if eqIgnoreAsciiCase w "IMPLEMENTS" then some .implements
    else none
  | _ => none

mutual

/-- `or ::= and (OR and)*` -/
inductive OrRule : List Token → Expr → Prop where
  | mk {first rest e es} : AndRule first e → OrTail rest es →
      OrRule (first ++ rest) (orOf (e :: es))

inductive OrTail : List Token → List Expr → Prop where
  | nil : OrTail [] []
  | cons {t ts rest e es} : t.tokenType = .or → AndRule ts e → OrTail rest es →
      OrTail (t :: (ts ++ rest)) (e :: es)

/-- `and ::= not ([AND] not)*` -/
inductive AndRule : List Token → Expr → Prop where
  | mk {first rest e es} : NotRule first e → AndTail rest es →
      AndRule (first ++ rest) (andOf (e :: es))

inductive AndTail : List Token → List Expr → Prop where
  | nil : AndTail [] []
  | keyword {t ts rest e es} : t.tokenType = .and → NotRule ts e → AndTail rest es →
      AndTail (t :: (ts ++ rest)) (e :: es)
  | implicit {t ts rest e es} : joinKeyword t.tokenType = none → NotRule (t :: ts) e →
      AndTail rest es → AndTail (t :: (ts ++ rest)) (e :: es)

/-- `not ::= NOT not | primary` -/
inductive NotRule : List Token → Expr → Prop where
  | not {t ts e} : t.tokenType = .not → NotRule ts e → NotRule (t :: ts) (.not e)
  | primary {ts e} : PrimaryRule ts e → NotRule ts e

/-- `primary ::= ( or ) | bare name | field op value | relation:( or )` -/
inductive PrimaryRule : List Token → Expr → Prop where
  | paren {l ts r e} : l.tokenType = .lParen → OrRule ts e → r.tokenType = .rParen →
      PrimaryRule (l :: (ts ++ [r])) e
  | name {t e} : bareName t = some e → PrimaryRule [t] e
  | condition {f o v field operator value} : f.tokenType = .identifier field →
      operatorOf o.tokenType = some operator → valueOf v.tokenType = some value →
      PrimaryRule [f, o, v] (valueCondition f field operator v value)
  | subquery {f o l ts r field e} : f.tokenType = .identifier field →
      isRelationField field = true → o.tokenType = .colon → l.tokenType = .lParen →
      OrRule ts e → r.tokenType = .rParen →
      PrimaryRule (f :: o :: l :: (ts ++ [r]))
        (.condition field .equal (.subquery e) (f.span.merge r.span))

end

/-- `query ::= or [(CALLS | IMPORTS | INHERITS | IMPLEMENTS) or]` -/
inductive QueryRule : List Token → Expr → Prop where
  | or {ts e} : OrRule ts e → QueryRule ts e
  | join {left a k edge right b} : OrRule left a → joinKeyword k.tokenType = some edge →
      OrRule right b → QueryRule (left ++ k :: right) (.join a edge b (joinSpan a k))

/-- The tokens of a query without a pipe: one end of input, behind all others. -/
structure TokenStream where
  body : List Token
  eof : Token
  eof_isEof : eof.tokenType = .eof
  noEof : ∀ token ∈ body, token.tokenType ≠ .eof
  noPipe : ∀ token ∈ body, token.tokenType ≠ .pipe

namespace TokenStream
variable (s : TokenStream)

def tokens : List Token := s.body ++ [s.eof]

def fuel : Nat := 4 * s.body.length + 5

def Denotes (query : Query) : Prop :=
  QueryRule s.body query.root ∧ ∃ first last, s.body.head? = some first ∧
    s.body.getLast? = some last ∧ query.span = first.span.merge last.span

end TokenStream

section Words
variable {upper : Char → List Char} {w name : String}

theorem toNat_lt_of_isAlpha {c : Char} (h : c.isAlpha = true) : c.toNat < 128 := by
  simp only [Char.isAlpha, Char.isUpper, Char.isLower, Bool.or_eq_true, Bool.and_eq_true,
    decide_eq_true_eq, ge_iff_le, UInt32.le_iff_toNat_le] at h
  change c.val.toNat < 128
  cases h with
  | inl h => exact Nat.lt_of_le_of_lt h.2 (by decide)
  | inr h => exact Nat.lt_of_le_of_lt h.2 (by decide)

theorem toUppercase_eq (h : eqIgnoreAsciiCase w name = true)
    (halpha : name.toList.all Char.isAlpha = true) :
    toUppercase upper w = String.ofList (name.toList.map Char.toUpper) := by
  have hlower : w.toList.map Char.toLower = name.toList.map Char.toLower := eq_of_beq h
  have hascii : ∀ c ∈ w.toList, c.toNat < 128 := by
    intro c hc
    have hmem : c.toLower ∈ name.toList.map Char.toLower := hlower ▸ List.mem_map_of_mem hc
    obtain ⟨d, hd, heq⟩ := List.mem_map.mp hmem
    have hdc : d.toLower.isAlpha = c.toLower.isAlpha := congrArg Char.isAlpha heq
    rw [Char.isAlpha_toLower_eq_isAlpha, Char.isAlpha_toLower_eq_isAlpha,
      List.all_eq_true.mp halpha d hd] at hdc
    exact toNat_lt_of_isAlpha hdc.symm
  have hupper : w.toList.map Char.toUpper = name.toList.map Char.toUpper := by
    have hmap := congrArg (List.map Char.toUpper) hlower
    simpa only [List.map_map, Function.comp_def, Char.toUpper_toLower_eq_toUpper] using hmap
  rw [toUppercase, ← hupper, List.map_eq_flatMap]
  exact congrArg String.ofList (List.flatMap_congr fun c hc => if_pos (hascii c hc))

theorem joinEdge_of_joinKeyword {t : TokenType} {edge : JoinEdgeKind}
    (h : joinKeyword t = some edge) : joinEdge upper t = some edge := by
  cases t with
  | word w =>
    simp only [joinKeyword] at h
    split_ifs at h with h1 h2 h3 h4
    · rw [joinEdge, (toUppercase_eq h1 (by decide)).trans (by decide : _ = "CALLS")]
      exact h
    · rw [joinEdge, (toUppercase_eq h2 (by decide)).trans (by decide : _ = "IMPORTS")]
      exact h
    · rw [joinEdge, (toUppercase_eq h3 (by decide)).trans (by decide : _ = "INHERITS")]
      exact h
    · rw [joinEdge, (toUppercase_eq h4 (by decide)).trans (by decide : _ = "IMPLEMENTS")]
      exact h
  | _ => cases h

theorem isJoinKeyword_eq (t : TokenType) : isJoinKeyword t = (joinKeyword t).isSome := by
  cases t with
  | word w =>
    simp only [isJoinKeyword, joinKeyword]
    split_ifs <;> simp [*]
  | _ => rfl

end Words

section Starts

def startsOperand : TokenType → Bool
  | .not | .lParen | .identifier _ | .word _ | .stringLiteral _ | .regexLiteral _ _
  | .variable _ => true
  | _ => false

theorem startsOperand_of_bareName {t : Token} {e : Expr} (h : bareName t = some e) :
    startsOperand t.tokenType = true := by
  cases ht : t.tokenType <;> simp only [bareName, ht, reduceCtorEq] at h <;> rfl

theorem PrimaryRule.starts {ts : List Token} {e : Expr} (h : PrimaryRule ts e) :
    ∃ t rest, ts = t :: rest ∧ startsOperand t.tokenType = true ∧ t.tokenType ≠ .not := by
  cases h with
  | paren hl _ _ => exact ⟨_, _, rfl, by rw [hl]; rfl, by rw [hl]; exact TokenType.noConfusion⟩
  | @name t e hname =>
    refine ⟨_, _, rfl, startsOperand_of_bareName hname, fun hnot => ?_⟩
    rw [bareName, hnot] at hname
    cases hname
  | condition hf _ _ => exact ⟨_, _, rfl, by rw [hf]; rfl, by rw [hf]; exact TokenType.noConfusion⟩
  | subquery hf _ _ _ _ _ =>
    exact ⟨_, _, rfl, by rw [hf]; rfl, by rw [hf]; exact TokenType.noConfusion⟩

theorem NotRule.starts {ts : List Token} {e : Expr} (h : NotRule ts e) :
    ∃ t rest, ts = t :: rest ∧ startsOperand t.tokenType = true := by
  cases h with
  | not ht _ => exact ⟨_, _, rfl, by rw [ht]; rfl⟩
  | primary hp =>
    obtain ⟨t, rest, heq, hstart, _⟩ := hp.starts
    exact ⟨t, rest, heq, hstart⟩

end Starts

end QueryParser
end Sqry
