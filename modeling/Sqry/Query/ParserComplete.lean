import Sqry.Query.Grammar

/-!
What the grammar derives, the parser accepts: at the start of tokens that a rule derives, the
function for the rule gives their expression and stops behind them. Every token allows four steps.
-/

namespace Sqry
namespace QueryParser
open Cursor (Reading Slice getElem?_of_drop drop_after drop_succ)

section Takes
variable (tokens : List Token)

def TakesOr (ts : List Token) (e : Expr) : Prop :=
  ∀ fuel p next rest, tokens.drop p = ts ++ next :: rest → andStops next.tokenType = true →
    next.tokenType ≠ .or → 4 * ts.length + 5 ≤ fuel →
    parseOr tokens fuel p = .ok e (p + ts.length)

def TakesOrTail (ts : List Token) (es : List Expr) : Prop :=
  ∀ acc fuel p next rest, tokens.drop p = ts ++ next :: rest → andStops next.tokenType = true →
    next.tokenType ≠ .or → 4 * ts.length + 1 ≤ fuel →
    orLoop tokens fuel acc p = .ok (orOf (acc ++ es)) (p + ts.length)

def TakesAnd (ts : List Token) (e : Expr) : Prop :=
  ∀ fuel p next rest, tokens.drop p = ts ++ next :: rest → andStops next.tokenType = true →
    4 * ts.length + 4 ≤ fuel → parseAnd tokens fuel p = .ok e (p + ts.length)

def TakesAndTail (ts : List Token) (es : List Expr) : Prop :=
  ∀ acc fuel p next rest, tokens.drop p = ts ++ next :: rest → andStops next.tokenType = true →
    4 * ts.length + 4 ≤ fuel →
    andLoop tokens fuel acc p = .ok (andOf (acc ++ es)) (p + ts.length)

def TakesNot (ts : List Token) (e : Expr) : Prop :=
  ∀ fuel p rest, tokens.drop p = ts ++ rest → 4 * ts.length + 3 ≤ fuel →
    parseNot tokens fuel p = .ok e (p + ts.length)

def TakesPrimary (ts : List Token) (e : Expr) : Prop :=
  ∀ fuel p rest, tokens.drop p = ts ++ rest → 4 * ts.length + 2 ≤ fuel →
    parsePrimary tokens fuel p = .ok e (p + ts.length)

end Takes

section Stops
variable {t : TokenType}

theorem ne_and_of_andStops (h : andStops t = true) : t ≠ .and := by
  intro heq
  rw [heq] at h
  exact absurd h (by decide)

theorem andStops_of_joinKeyword {edge : JoinEdgeKind} (h : joinKeyword t = some edge) :
    andStops t = true ∧ t ≠ .or := by
  refine ⟨?_, fun heq => ?_⟩
  · rw [andStops, isJoinKeyword_eq, h, Option.isSome_some, Bool.or_true]
  · rw [heq] at h
    cases h

/-- A token that starts an operand and is no join keyword stands for an implicit AND. -/
theorem implicit_of_startsOperand (h : startsOperand t = true) (hjoin : joinKeyword t = none) :
    andStops t = false ∧ t ≠ .and := by
  rw [andStops, isJoinKeyword_eq, hjoin]
  cases t with
  | and | or | eof | rParen | pipe => cases h
  | _ => exact ⟨rfl, TokenType.noConfusion⟩

end Stops

section Rules
variable {tokens : List Token}

theorem takesOrTail_nil : TakesOrTail tokens [] [] := by
  intro acc fuel p next rest hdrop _ hor hfuel
  cases fuel with
  | zero => cases hfuel
  | succ fuel =>
    rw [orLoop, matchToken_eq (by decide) (getElem?_of_drop hdrop), if_neg hor,
      Reading.andThen_ok, if_neg Bool.false_ne_true, List.append_nil]
    rfl

variable {e : Expr} {es : List Expr} {ts : List Token} {t : Token}

theorem takesOrTail_cons {ts rest : List Token} (ht : t.tokenType = .or)
    (hand : TakesAnd tokens ts e) (htail : OrTail rest es) (ih : TakesOrTail tokens rest es) :
    TakesOrTail tokens (t :: (ts ++ rest)) (e :: es) := by
  intro acc fuel p next after hdrop hstop hor hfuel
  have hlen : (t :: (ts ++ rest)).length = 1 + ts.length + rest.length := by
    simp only [List.length_cons, List.length_append]
    omega
  have hdrop1 : tokens.drop (p + 1) = ts ++ (rest ++ next :: after) := by
    rw [← List.append_assoc]
    exact drop_succ hdrop
  have hdrop2 := drop_after hdrop1
  rw [hlen] at hfuel
  cases fuel with
  | zero => omega
  | succ fuel =>
    -- behind the AND stands another OR or what stands behind the whole
    have hparse : parseAnd tokens fuel (p + 1) = .ok e (p + 1 + ts.length) := by
      cases htail with
      | nil => exact hand fuel (p + 1) next after hdrop1 hstop (by omega)
      | @cons t' _ _ _ _ ht' _ _ =>
        exact hand fuel (p + 1) t' _ hdrop1 (by rw [ht']; rfl) (by omega)
    rw [orLoop, matchToken_eq (by decide) (getElem?_of_drop hdrop), if_pos ht,
      Reading.andThen_ok, if_pos rfl, hparse, Reading.andThen_ok,
      ih _ fuel _ next after hdrop2 hstop hor (by omega), hlen, List.append_assoc]
    congr 1
    omega

theorem takesOr_mk {first rest : List Token} (hand : TakesAnd tokens first e)
    (htail : OrTail rest es) (ih : TakesOrTail tokens rest es)
    : TakesOr tokens (first ++ rest) (orOf (e :: es)) := by
  intro fuel p next after hdrop hstop hor hfuel
  rw [List.append_assoc] at hdrop
  have hdrop2 := drop_after hdrop
  rw [List.length_append] at hfuel ⊢
  cases fuel with
  | zero => omega
  | succ fuel =>
    have hparse : parseAnd tokens fuel p = .ok e (p + first.length) := by
      cases htail with
      | nil => exact hand fuel p next after hdrop hstop (by omega)
      | @cons t' _ _ _ _ ht' _ _ =>
        exact hand fuel p t' _ hdrop (by rw [ht']; rfl) (by omega)
    rw [parseOr, hparse, Reading.andThen_ok,
      ih _ fuel _ next after hdrop2 hstop hor (by omega), Nat.add_assoc]
    rfl

theorem takesAndTail_nil : TakesAndTail tokens [] [] := by
  intro acc fuel p next rest hdrop hstop hfuel
  have hnext := getElem?_of_drop hdrop
  cases fuel with
  | zero => cases hfuel
  | succ fuel =>
    rw [andLoop, matchToken_eq (by decide) hnext, if_neg (ne_and_of_andStops hstop),
      Reading.andThen_ok, if_neg Bool.false_ne_true, implicitAnd_eq hnext, hstop,
      Reading.andThen_ok, Bool.not_true, if_neg Bool.false_ne_true, List.append_nil]
    rfl

theorem takesAndTail_keyword {ts rest : List Token} (ht : t.tokenType = .and)
    (hnot : TakesNot tokens ts e) (ih : TakesAndTail tokens rest es)
    : TakesAndTail tokens (t :: (ts ++ rest)) (e :: es) := by
  intro acc fuel p next after hdrop hstop hfuel
  have hlen : (t :: (ts ++ rest)).length = 1 + ts.length + rest.length := by
    simp only [List.length_cons, List.length_append]
    omega
  have hdrop1 : tokens.drop (p + 1) = ts ++ (rest ++ next :: after) := by
    rw [← List.append_assoc]
    exact drop_succ hdrop
  have hdrop2 := drop_after hdrop1
  rw [hlen] at hfuel
  cases fuel with
  | zero => omega
  | succ fuel =>
    rw [andLoop, matchToken_eq (by decide) (getElem?_of_drop hdrop), if_pos ht,
      Reading.andThen_ok, if_pos rfl, hnot fuel (p + 1) _ hdrop1 (by omega),
      Reading.andThen_ok, ih _ fuel _ next after hdrop2 hstop (by omega), hlen,
      List.append_assoc]
    congr 1
    omega

theorem takesAndTail_implicit {ts rest : List Token} (hjoin : joinKeyword t.tokenType = none)
    (hrule : NotRule (t :: ts) e) (hnot : TakesNot tokens (t :: ts) e)
    (ih : TakesAndTail tokens rest es) :
    TakesAndTail tokens (t :: (ts ++ rest)) (e :: es) := by
  intro acc fuel p next after hdrop hstop hfuel
  have hlen : (t :: (ts ++ rest)).length = (t :: ts).length + rest.length := by
    rw [← List.cons_append, List.length_append]
  have hdrop1 : tokens.drop p = (t :: ts) ++ (rest ++ next :: after) := by
    rw [hdrop, List.cons_append, List.cons_append, List.append_assoc]
  have hdrop2 := drop_after hdrop1
  have hhead := getElem?_of_drop hdrop
  have himplicit : andStops t.tokenType = false ∧ t.tokenType ≠ .and := by
    obtain ⟨t', rest', heq, hstart⟩ := hrule.starts
    cases heq
    exact implicit_of_startsOperand hstart hjoin
  have hpos : 0 < (t :: ts).length := Nat.succ_pos _
  rw [hlen] at hfuel
  cases fuel with
  | zero => omega
  | succ fuel =>
    rw [andLoop, matchToken_eq (by decide) hhead, if_neg himplicit.2, Reading.andThen_ok,
      if_neg Bool.false_ne_true, implicitAnd_eq hhead, himplicit.1, Reading.andThen_ok,
      Bool.not_false, if_pos rfl, hnot fuel p _ hdrop1 (by omega), Reading.andThen_ok,
      ih _ fuel _ next after hdrop2 hstop (by omega), hlen, List.append_assoc, Nat.add_assoc]
    rfl

theorem takesAnd_mk {first rest : List Token} (hfirst : NotRule first e)
    (hnot : TakesNot tokens first e) (ih : TakesAndTail tokens rest es)
    : TakesAnd tokens (first ++ rest) (andOf (e :: es)) := by
  intro fuel p next after hdrop hstop hfuel
  rw [List.append_assoc] at hdrop
  have hdrop2 := drop_after hdrop
  have hpos : 0 < first.length := by
    obtain ⟨t, ts, heq, _⟩ := hfirst.starts
    rw [heq]
    exact Nat.succ_pos _
  rw [List.length_append] at hfuel ⊢
  cases fuel with
  | zero => omega
  | succ fuel =>
    rw [parseAnd, hnot fuel p _ hdrop (by omega), Reading.andThen_ok,
      ih _ fuel _ next after hdrop2 hstop (by omega), Nat.add_assoc]
    rfl

theorem takesNot_not (ht : t.tokenType = .not) (ih : TakesNot tokens ts e)
    : TakesNot tokens (t :: ts) (.not e) := by
  intro fuel p rest hdrop hfuel
  rw [List.length_cons] at hfuel ⊢
  cases fuel with
  | zero => omega
  | succ fuel =>
    rw [parseNot, matchToken_eq (by decide) (getElem?_of_drop hdrop), if_pos ht,
      Reading.andThen_ok, if_pos rfl, ih fuel (p + 1) rest (drop_succ hdrop) (by omega),
      Reading.andThen_ok]
    congr 1
    omega

theorem takesNot_primary (hrule : PrimaryRule ts e) (ih : TakesPrimary tokens ts e)
    : TakesNot tokens ts e := by
  intro fuel p rest hdrop hfuel
  obtain ⟨t, ts', heq, _, hnot⟩ := hrule.starts
  have hhead : tokens[p]? = some t := by
    rw [heq] at hdrop
    exact getElem?_of_drop hdrop
  cases fuel with
  | zero => omega
  | succ fuel =>
    rw [parseNot, matchToken_eq (by decide) hhead, if_neg hnot, Reading.andThen_ok,
      if_neg Bool.false_ne_true]
    exact ih fuel p rest hdrop (by omega)

theorem closeParen_eq {span : QuerySpan} {q : Nat} {r : Token} (h : tokens[q]? = some r)
    (hr : r.tokenType = .rParen) : closeParen tokens span q = .ok r (q + 1) := by
  rw [closeParen, matchToken_eq (by decide) h, if_pos hr, Reading.andThen_ok, if_pos rfl,
    previous_eq h]

theorem takesPrimary_paren {l r : Token} (hl : l.tokenType = .lParen) (ih : TakesOr tokens ts e)
    (hr : r.tokenType = .rParen) :
    TakesPrimary tokens (l :: (ts ++ [r])) e := by
  intro fuel p rest hdrop hfuel
  have hlen : (l :: (ts ++ [r])).length = ts.length + 2 := by
    rw [List.length_cons, List.length_append]
    rfl
  have hdrop1 : tokens.drop (p + 1) = ts ++ r :: rest :=
    (drop_succ hdrop).trans (List.append_assoc ts [r] rest)
  have hhead := getElem?_of_drop hdrop
  have hclose := getElem?_of_drop (drop_after hdrop1)
  have hnext : andStops r.tokenType = true ∧ r.tokenType ≠ .or := by
    rw [hr]
    exact ⟨rfl, TokenType.noConfusion⟩
  rw [hlen] at hfuel
  cases fuel with
  | zero => omega
  | succ fuel =>
    rw [parsePrimary, matchToken_eq (by decide) hhead, if_pos hl, Reading.andThen_ok,
      if_pos rfl, previous_eq hhead, Reading.andThen_ok,
      ih fuel (p + 1) r rest hdrop1 hnext.1 hnext.2 (by omega), Reading.andThen_ok,
      closeParen_eq hclose hr, Reading.andThen_ok, hlen]
    congr 1
    omega

theorem takesPrimary_name (hname : bareName t = some e) :
    TakesPrimary tokens [t] e := by
  intro fuel p rest hdrop hfuel
  have hhead := getElem?_of_drop hdrop
  have hstart := startsOperand_of_bareName hname
  have hparen : t.tokenType ≠ .lParen := by
    intro h
    rw [bareName, h] at hname
    cases hname
  have heof : t.tokenType ≠ .eof := by
    intro h
    rw [h] at hstart
    cases hstart
  cases fuel with
  | zero => omega
  | succ fuel =>
    rw [parsePrimary, matchToken_eq (by decide) hhead, if_neg hparen, Reading.andThen_ok,
      if_neg Bool.false_ne_true, peek_eq hhead, Reading.andThen_ok, hname,
      advance_eq hhead heof]
    rfl

section Condition
variable {f o : Token} {field : String} {operator : Operator} {p : Nat}

theorem ne_eof_of_operatorOf (h : operatorOf o.tokenType = some operator) :
    o.tokenType ≠ .eof := by
  intro heq
  rw [heq] at h
  cases h

theorem conditionHead_eq (hf : tokens[p]? = some f) (hfield : f.tokenType = .identifier field)
    (ho : tokens[p + 1]? = some o) (hop : operatorOf o.tokenType = some operator) :
    conditionHead tokens p = .ok (f, field, operator) (p + 2) := by
  have hne : f.tokenType ≠ .eof := by
    rw [hfield]
    exact TokenType.noConfusion
  rw [conditionHead, advance_eq hf hne, Reading.andThen_ok, hfield,
    advance_eq ho (ne_eof_of_operatorOf hop)]
  dsimp only [Reading.andThen_ok]
  rw [hop]

theorem parsePrimary_field (hf : tokens[p]? = some f) (hfield : f.tokenType = .identifier field)
    (fuel : Nat) : parsePrimary tokens (fuel + 1) p = parseCondition tokens fuel p := by
  have hparen : f.tokenType ≠ .lParen := by
    rw [hfield]
    exact TokenType.noConfusion
  have hname : bareName f = none := by rw [bareName, hfield]
  rw [parsePrimary, matchToken_eq (by decide) hf, if_neg hparen, Reading.andThen_ok,
    if_neg Bool.false_ne_true, peek_eq hf, Reading.andThen_ok, hname]

theorem subqueryAhead_value {v : Token} {value : Value} (hv : tokens[p]? = some v)
    (hvalue : valueOf v.tokenType = some value) :
    subqueryAhead tokens field operator p = .ok none p := by
  have hparen : v.tokenType ≠ .lParen := by
    intro heq
    rw [heq] at hvalue
    cases hvalue
  rw [subqueryAhead, peek_eq hv, Reading.andThen_ok, beq_eq_false_iff_ne.mpr hparen,
    if_neg Bool.false_ne_true, ite_self]

theorem subqueryAhead_paren {l : Token} (h : tokens[p]? = some l) (hl : l.tokenType = .lParen)
    (hrelation : isRelationField field = true) :
    subqueryAhead tokens field .equal p = .ok (some l) p := by
  rw [subqueryAhead, hrelation, peek_eq h, Reading.andThen_ok, hl]
  rfl

theorem takesPrimary_condition {v : Token} {value : Value}
    (hfield : f.tokenType = .identifier field) (hop : operatorOf o.tokenType = some operator)
    (hvalue : valueOf v.tokenType = some value) :
    TakesPrimary tokens [f, o, v] (valueCondition f field operator v value) := by
  intro fuel p rest hdrop hfuel
  have hf := getElem?_of_drop hdrop
  have ho := getElem?_of_drop (drop_succ hdrop)
  have hv := getElem?_of_drop (drop_succ (drop_succ hdrop))
  have hne : v.tokenType ≠ .eof := by
    intro heq
    rw [heq] at hvalue
    cases hvalue
  cases fuel with
  | zero => omega
  | succ fuel =>
    cases fuel with
    | zero =>
      have hlt : 14 ≤ 1 := hfuel
      omega
    | succ fuel =>
      rw [parsePrimary_field hf hfield, parseCondition, conditionHead_eq hf hfield ho hop,
        Reading.andThen_ok, subqueryAhead_value hv hvalue, Reading.andThen_ok,
        conditionValue, advance_eq hv hne, Reading.andThen_ok, hvalue]
      rfl

theorem takesPrimary_subquery {l r : Token} {ts : List Token} {e : Expr}
    (hfield : f.tokenType = .identifier field) (hrelation : isRelationField field = true)
    (ho : o.tokenType = .colon) (hl : l.tokenType = .lParen) (ih : TakesOr tokens ts e)
    (hr : r.tokenType = .rParen) :
    TakesPrimary tokens (f :: o :: l :: (ts ++ [r]))
      (.condition field .equal (.subquery e) (f.span.merge r.span)) := by
  intro fuel p rest hdrop hfuel
  have hlen : (f :: o :: l :: (ts ++ [r])).length = ts.length + 4 := by
    simp only [List.length_cons, List.length_append, List.length_nil]
  have hf := getElem?_of_drop hdrop
  have hdrop2 := drop_succ (drop_succ hdrop)
  have hop : operatorOf o.tokenType = some .equal := by
    rw [ho]
    rfl
  have hlne : l.tokenType ≠ .eof := by
    rw [hl]
    exact TokenType.noConfusion
  have hparen := getElem?_of_drop hdrop2
  have hdrop3 : tokens.drop (p + 3) = ts ++ r :: rest :=
    (drop_succ hdrop2).trans (List.append_assoc ts [r] rest)
  have hclose := getElem?_of_drop (drop_after hdrop3)
  have hnext : andStops r.tokenType = true ∧ r.tokenType ≠ .or := by
    rw [hr]
    exact ⟨rfl, TokenType.noConfusion⟩
  rw [hlen] at hfuel
  cases fuel with
  | zero => omega
  | succ fuel =>
    cases fuel with
    | zero => omega
    | succ fuel =>
      rw [parsePrimary_field hf hfield, parseCondition,
        conditionHead_eq hf hfield (getElem?_of_drop (drop_succ hdrop)) hop,
        Reading.andThen_ok, subqueryAhead_paren hparen hl hrelation, Reading.andThen_ok]
      dsimp only
      rw [advance_eq hparen hlne, Reading.andThen_ok,
        ih fuel (p + 3) r rest hdrop3 hnext.1 hnext.2 (by omega), Reading.andThen_ok,
        closeParen_eq hclose hr, Reading.andThen_ok, hlen]
      congr 1
      omega

end Condition

theorem takesOr (h : OrRule ts e) : TakesOr tokens ts e := by
  refine @OrRule.rec (fun ts e _ => TakesOr tokens ts e) (fun ts es _ => TakesOrTail tokens ts es)
    (fun ts e _ => TakesAnd tokens ts e) (fun ts es _ => TakesAndTail tokens ts es)
    (fun ts e _ => TakesNot tokens ts e) (fun ts e _ => TakesPrimary tokens ts e)
    ?_ ?_ ?_ ?_ ?_ ?_ ?_ ?_ ?_ ?_ ?_ ?_ ?_ ts e h
  · exact fun _ htail hand ih => takesOr_mk hand htail ih
  · exact takesOrTail_nil
  · exact fun ht _ htail hand ih => takesOrTail_cons ht hand htail ih
  · exact fun hrule _ hnot ih => takesAnd_mk hrule hnot ih
  · exact takesAndTail_nil
  · exact fun ht _ _ hnot ih => takesAndTail_keyword ht hnot ih
  · exact fun hjoin hrule _ hnot ih => takesAndTail_implicit hjoin hrule hnot ih
  · exact fun ht _ ih => takesNot_not ht ih
  · exact fun hrule ih => takesNot_primary hrule ih
  · exact fun hl _ hr ih => takesPrimary_paren hl ih hr
  · exact takesPrimary_name
  · exact takesPrimary_condition
  · exact fun hf hrel ho hl _ hr ih => takesPrimary_subquery hf hrel ho hl ih hr

end Rules

end QueryParser
end Sqry
