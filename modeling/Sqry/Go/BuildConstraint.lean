import Mathlib.Data.List.DropRight

/-!
The build constraints of Go files: the canonical text of an expression and the parser of
`//go:build` lines. Text is a list of characters; where the parser looks at a byte it tests for
ASCII, so that positions count characters. The depth that remains stands for the depth counter.
-/

namespace Sqry
namespace BuildConstraint

def MAX_PARSE_DEPTH : Nat := 128

inductive ParseError where
  | empty
  | unexpectedChar (c : Char)
  | unclosedParen
  | danglingOperator
  | depthExceeded
  deriving DecidableEq, Repr

inductive NormalisedExpr where
  | flag (name : List Char)
  | not (inner : NormalisedExpr)
  | all (items : List NormalisedExpr)
  | any (items : List NormalisedExpr)

section Print

def PREC_ANY : Nat := 0
def PREC_ALL : Nat := 1
def PREC_NOT : Nat := 2
def PREC_FLAG : Nat := 3

def parens (needsParens : Bool) (text : List Char) : List Char :=
  if needsParens then '(' :: (text ++ [')']) else text

mutual

def writeCanonical : NormalisedExpr → Nat → List Char
  | .flag s, parentPrec => parens (PREC_FLAG < parentPrec) s
  | .not inner, parentPrec => parens (PREC_NOT < parentPrec) ('!' :: writeCanonical inner PREC_NOT)
  | .all items, parentPrec =>
    parens (PREC_ALL < parentPrec) (writeItems [' ', '&', '&', ' '] PREC_ALL true items)
  | .any items, parentPrec =>
    parens (PREC_ANY < parentPrec) (writeItems [' ', '|', '|', ' '] PREC_ANY true items)

def writeItems (separator : List Char) (prec : Nat) : Bool → List NormalisedExpr → List Char
  | _, [] => []
  | first, item :: items =>
    (if first then [] else separator) ++
      (writeCanonical item prec ++ writeItems separator prec false items)

end

def toConditionString (e : NormalisedExpr) : List Char := writeCanonical e 0

end Print

def collapse (node : List NormalisedExpr → NormalisedExpr) : List NormalisedExpr → NormalisedExpr
  | [term] => term
  | terms => node terms

def isIdentStart (c : Char) : Bool := c.isAlpha || c = '_'

def isBlank (c : Char) : Bool := c = ' ' || c = '\t'

def isIdentCont (c : Char) : Bool := c.isAlphanum || c = '_' || c = '.'

theorem isBlank_of_start {c : Char} (h : isIdentStart c = true) : isBlank c = false := by
  by_contra hblank
  simp only [isBlank, Bool.not_eq_false, Bool.or_eq_true, decide_eq_true_iff] at hblank
  rcases hblank with rfl | rfl
  · revert h; decide
  · revert h; decide

theorem isIdentCont_of_blank {c : Char} (h : isBlank c = true) : isIdentCont c = false := by
  simp only [isBlank, Bool.or_eq_true, decide_eq_true_iff] at h
  rcases h with rfl | rfl <;> rfl

theorem isIdentCont_of_start {c : Char} (h : isIdentStart c = true) : isIdentCont c = true := by
  simp only [isIdentStart, isIdentCont, Char.isAlphanum, Bool.or_eq_true] at h ⊢
  exact .inl (h.imp .inl id)

/-- The Unicode property `White_Space`. -/
def isWhitespace (c : Char) : Bool :=
  (9 ≤ c.toNat && c.toNat ≤ 13) || (0x2000 ≤ c.toNat && c.toNat ≤ 0x200A) ||
    c.toNat ∈ [0x20, 0x85, 0xA0, 0x1680, 0x2028, 0x2029, 0x202F, 0x205F, 0x3000]

def trim (s : List Char) : List Char :=
  ((s.dropWhile isWhitespace).reverse.dropWhile isWhitespace).reverse

def firstByte (c : Char) : Char :=
  if c.toNat < 0x80 then c
  else if c.toNat < 0x800 then .ofNat (0xC0 + c.toNat / 64)
  else if c.toNat < 0x10000 then .ofNat (0xE0 + c.toNat / 4096)
  else .ofNat (0xF0 + c.toNat / 262144)

section Parser

/-- `none` is a panic, or a loop that does not end. -/
abbrev Outcome (α : Type) : Type := Option (Except ParseError (α × Nat))

variable (bytes : List Char)

def skipWs (pos : Nat) : Nat := pos + ((bytes.drop pos).takeWhile isBlank).length

def peek2 (a b : Char) (pos : Nat) : Bool := bytes[pos]? = some a ∧ bytes[pos + 1]? = some b

/-- The loop of `parse_or` and of `parse_and`. -/
def chainLoop (op : Char) (operand : Nat → Outcome NormalisedExpr) :
    Nat → Nat → List NormalisedExpr → Outcome (List NormalisedExpr)
  | 0, _, _ => none
  | fuel + 1, pos, terms =>
    let pos := skipWs bytes pos
    if peek2 bytes op op pos then
      let pos := skipWs bytes (pos + 2)
      if pos ≥ bytes.length then some (.error .danglingOperator)
      else
        match operand pos with
        | none => none
        | some (.error e) => some (.error e)
        | some (.ok (next, pos)) => chainLoop op operand fuel pos (terms ++ [next])
    else some (.ok (terms, pos))

def parseChain (op : Char) (node : List NormalisedExpr → NormalisedExpr)
    (operand : Nat → Outcome NormalisedExpr) (pos : Nat) : Outcome NormalisedExpr :=
  match operand pos with
  | none => none
  | some (.error e) => some (.error e)
  | some (.ok (first, pos)) =>
    match chainLoop bytes op operand (bytes.length + 1) pos [first] with
    | none => none
    | some (.error e) => some (.error e)
    | some (.ok (terms, pos)) => some (.ok (collapse node terms, pos))

/-- `or` is `parse_or`. -/
def parsePrimary (or : Nat → Outcome NormalisedExpr) (pos : Nat) : Outcome NormalisedExpr :=
  let pos := skipWs bytes pos
  match bytes[pos]? with
  | none => some (.error .empty)
  | some c =>
    if c = '(' then
      match or (pos + 1) with
      | none => none
      | some (.error e) => some (.error e)
      | some (.ok (inner, pos)) =>
        let pos := skipWs bytes pos
        if bytes[pos]? = some ')' then some (.ok (inner, pos + 1))
        else some (.error .unclosedParen)
    else if isIdentStart c = false then some (.error (.unexpectedChar (firstByte c)))
    else
      let ident := (bytes.drop pos).takeWhile isIdentCont
      some (.ok (.flag ident, pos + ident.length))

mutual

def parseOr : Nat → Nat → Outcome NormalisedExpr
  | 0, _ => some (.error .depthExceeded)
  | left + 1, pos => parseChain bytes '|' .any (parseAnd left) pos

def parseAnd : Nat → Nat → Outcome NormalisedExpr
  | 0, _ => some (.error .depthExceeded)
  | left + 1, pos => parseChain bytes '&' .all (parseUnary left) pos

def parseUnary : Nat → Nat → Outcome NormalisedExpr
  | 0, _ => some (.error .depthExceeded)
  | left + 1, pos =>
    let pos := skipWs bytes pos
    if bytes[pos]? = some '!' then
      let pos := skipWs bytes (pos + 1)
      if pos ≥ bytes.length then some (.error .danglingOperator)
      else (parseUnary left pos).map fun out => out.map fun r => (.not r.1, r.2)
    else parsePrimary bytes (parseOr left) pos

end

end Parser

def parseGobuildExpr (src : List Char) : Option (Except ParseError NormalisedExpr) :=
  let trimmed := trim src
  if trimmed.isEmpty then some (.error .empty)
  else
    match parseOr trimmed MAX_PARSE_DEPTH 0 with
    | none => none
    | some (.error e) => some (.error e)
    | some (.ok (expr, pos)) =>
      let pos := skipWs trimmed pos
      if pos ≠ trimmed.length then
        trimmed[pos]?.map fun c => .error (.unexpectedChar (firstByte c))
      else some (.ok expr)

section Meaning
variable (tags : List Char → Bool)

mutual

def holds : NormalisedExpr → Bool
  | .flag s => tags s
  | .not inner => !holds inner
  | .all items => holdsAll items
  | .any items => holdsAny items

def holdsAll : List NormalisedExpr → Bool
  | [] => true
  | item :: items => holds item && holdsAll items

def holdsAny : List NormalisedExpr → Bool
  | [] => false
  | item :: items => holds item || holdsAny items

end

inductive Op where
  | and | or

namespace Op

def char : Op → Char
  | and => '&'
  | or => '|'

def prec : Op → Nat
  | and => PREC_ALL
  | or => PREC_ANY

def node : Op → List NormalisedExpr → NormalisedExpr
  | and => .all
  | or => .any

def separator (op : Op) : List Char := [' ', op.char, op.char, ' ']

def combine {α : Type} (op : Op) (f : α → Bool) (items : List α) : Bool :=
  match op with
  | and => items.all f
  | or => items.any f

end Op

inductive Nonterminal where
  | primary
  | unary
  | chain (op : Op)
  | tail (op : Op)

def Op.operand : Op → Nonterminal
  | .and => .unary
  | .or => .chain .and

def Blank (s : List Char) : Prop := ∀ c ∈ s, isBlank c = true

def IsIdent (s : List Char) : Prop :=
  ∃ c cs, s = c :: cs ∧ isIdentStart c = true ∧ ∀ x ∈ s, isIdentCont x = true

/-- The grammar of the lines: `!` over `&&` over `||`. A chain yields its operands. -/
inductive Derives : Nonterminal → List Char → List NormalisedExpr → Prop
  | ident {s : List Char} (h : IsIdent s) : Derives .primary s [.flag s]
  | parens {t : List Char} {es : List NormalisedExpr} (h : Derives (.chain .or) t es) :
      Derives .primary ('(' :: (t ++ [')'])) [collapse .any es]
  | primary {w t : List Char} {es : List NormalisedExpr} (hw : Blank w)
      (h : Derives .primary t es) : Derives .unary (w ++ t) es
  | not {w t : List Char} {es : List NormalisedExpr} (hw : Blank w) (h : Derives .unary t es) :
      Derives .unary (w ++ '!' :: t) [.not (collapse .all es)]
  | chain {op : Op} {t t' : List Char} {es es' : List NormalisedExpr}
      (h : Derives op.operand t es) (h' : Derives (.tail op) t' es') :
      Derives (.chain op) (t ++ t') (collapse .all es :: es')
  | done {op : Op} {w : List Char} (hw : Blank w) : Derives (.tail op) w []
  | more {op : Op} {w t t' : List Char} {es es' : List NormalisedExpr} (hw : Blank w)
      (h : Derives op.operand t es) (h' : Derives (.tail op) t' es') :
      Derives (.tail op) (w ++ op.char :: op.char :: (t ++ t')) (collapse .all es :: es')

def Spells (src : List Char) (e : NormalisedExpr) : Prop :=
  ∃ es, Derives (.chain .or) (trim src) es ∧ e = collapse .any es

end Meaning

section Positions
variable {bytes : List Char} {pos : Nat}

def skip (s : List Char) : List Char := s.dropWhile isBlank

theorem exists_blank_skip (s : List Char) : ∃ w, Blank w ∧ s = w ++ skip s :=
  ⟨s.takeWhile isBlank, List.all_eq_true.mp List.all_takeWhile,
    List.takeWhile_append_dropWhile.symm⟩

theorem skip_blank_append {w : List Char} (hw : Blank w) (s : List Char) :
    skip (w ++ s) = skip s := List.dropWhile_append_of_pos hw

variable {c : Char} {s : List Char}

theorem skip_cons (hc : isBlank c = false) (s : List Char) : skip (c :: s) = c :: s := by
  rw [skip, List.dropWhile_cons, if_neg (by simp [hc])]

theorem skip_skip (s : List Char) : skip (skip s) = skip s := List.dropWhile_idempotent isBlank s

theorem drop_takeWhile (p : Char → Bool) (bytes : List Char) (pos : Nat) :
    bytes.drop (pos + ((bytes.drop pos).takeWhile p).length) = (bytes.drop pos).dropWhile p := by
  rw [← List.drop_drop]
  generalize bytes.drop pos = s
  have hsplit : s.takeWhile p ++ s.dropWhile p = s := List.takeWhile_append_dropWhile
  exact (congrArg (List.drop (s.takeWhile p).length) hsplit.symm).trans List.drop_left

theorem takeWhile_le (p : Char → Bool) (h : pos ≤ bytes.length) :
    pos + ((bytes.drop pos).takeWhile p).length ≤ bytes.length := by
  have hle := (List.takeWhile_prefix (l := bytes.drop pos) p).length_le
  rw [List.length_drop] at hle
  omega

theorem drop_skipWs (bytes : List Char) (pos : Nat) :
    bytes.drop (skipWs bytes pos) = skip (bytes.drop pos) := drop_takeWhile isBlank bytes pos

theorem skipWs_le (h : pos ≤ bytes.length) : skipWs bytes pos ≤ bytes.length :=
  takeWhile_le isBlank h

theorem getElem?_of_drop (h : bytes.drop pos = c :: s) :
    bytes[pos]? = some c := by
  rw [← List.head?_drop, h, List.head?_cons]

theorem drop_of_getElem? (h : bytes[pos]? = some c) :
    bytes.drop pos = c :: bytes.drop (pos + 1) := by
  obtain ⟨hlt, rfl⟩ := List.getElem?_eq_some_iff.mp h
  exact List.drop_eq_getElem_cons hlt

theorem lt_of_drop (h : bytes.drop pos = c :: s) :
    pos < bytes.length := by
  refine Nat.lt_of_not_le fun hle => ?_
  rw [List.drop_eq_nil_of_le hle] at h
  cases h

theorem drop_succ (h : bytes.drop pos = c :: s) :
    bytes.drop (pos + 1) = s := by
  rw [← List.drop_drop, h, List.drop_one, List.tail_cons]

theorem peek2_iff {a b : Char} : peek2 bytes a b pos = true ↔
    ∃ s, bytes.drop pos = a :: b :: s := by
  rw [peek2, decide_eq_true_iff]
  constructor
  · rintro ⟨ha, hb⟩
    rw [drop_of_getElem? ha, drop_of_getElem? hb]
    exact ⟨_, rfl⟩
  · rintro ⟨s, hs⟩
    exact ⟨getElem?_of_drop hs, getElem?_of_drop (drop_succ hs)⟩

end Positions

section Sound
variable {bytes : List Char}

def Nonterminal.node : Nonterminal → List NormalisedExpr → NormalisedExpr
  | .chain op => op.node
  | _ => .all

def Sound (bytes : List Char) (nt : Nonterminal) (pos : Nat) (out : Outcome NormalisedExpr) :
    Prop :=
  ∃ r, out = some r ∧ ∀ e pos', r = .ok (e, pos') → pos' ≤ bytes.length ∧
    ∃ t es, bytes.drop pos = t ++ bytes.drop pos' ∧ Derives nt t es ∧ e = collapse nt.node es

theorem sound_error {nt : Nonterminal} {pos : Nat} {err : ParseError} :
    Sound bytes nt pos (some (.error err)) := ⟨_, rfl, fun _ _ h => by cases h⟩

variable {es : List NormalisedExpr} {op : Op} {w t : List Char}

theorem Derives.unary_blank (hw : Blank w) (h : Derives .unary t es)
    : Derives .unary (w ++ t) es := by
  have happend : ∀ {w'}, Blank w' → Blank (w ++ w') := fun hw' =>
    List.forall_mem_append.mpr ⟨hw, hw'⟩
  cases h with
  | primary hw' h => exact List.append_assoc .. ▸ .primary (happend hw') h
  | not hw' h => exact List.append_assoc .. ▸ .not (happend hw') h

theorem Derives.operand_blank (hw : Blank w) (h : Derives op.operand t es)
    : Derives op.operand (w ++ t) es := by
  cases op with
  | and => exact h.unary_blank hw
  | or =>
    cases h with
    | chain h h' =>
      exact List.append_assoc .. ▸ @Derives.chain .and _ _ _ _ (h.unary_blank hw) h'

theorem Derives.tail_blank (hw : Blank w) (h : Derives (.tail op) t es)
    : Derives (.tail op) (w ++ t) es := by
  cases h with
  | done hw' => exact .done (List.forall_mem_append.mpr ⟨hw, hw'⟩)
  | more hw' h h' =>
    exact List.append_assoc .. ▸ .more (List.forall_mem_append.mpr ⟨hw, hw'⟩) h h'

theorem Derives.tail_append {t t' : List Char} {es es' : List NormalisedExpr} :
    Derives (.tail op) t es → Derives (.tail op) t' es' →
      Derives (.tail op) (t ++ t') (es ++ es')
  | .done hw, h' => h'.tail_blank hw
  | .more hw h hrest, h' => by
    simpa only [List.append_assoc, List.cons_append] using .more hw h (hrest.tail_append h')

theorem Derives.chain_append {t t' : List Char} {es es' : List NormalisedExpr}
    (h : Derives (.chain op) t es) (h' : Derives (.tail op) t' es') :
    Derives (.chain op) (t ++ t') (es ++ es') := by
  cases h with
  | chain h hrest => exact List.append_assoc .. ▸ .chain h (hrest.tail_append h')

theorem chainLoop_sound {operand : Nat → Outcome NormalisedExpr}
    (hoperand : ∀ pos ≤ bytes.length, Sound bytes op.operand pos (operand pos)) {fuel pos : Nat}
    {terms : List NormalisedExpr} (hpos : pos ≤ bytes.length) (hfuel : bytes.length - pos < fuel) :
    ∃ r, chainLoop bytes op.char operand fuel pos terms = some r ∧
      ∀ out pos', r = .ok (out, pos') → pos' ≤ bytes.length ∧
        ∃ t es, bytes.drop pos = t ++ bytes.drop pos' ∧ Derives (.tail op) t es ∧
          out = terms ++ es := by
  induction fuel generalizing pos terms with
  | zero => exact absurd hfuel (Nat.not_lt_zero _)
  | succ fuel ih =>
    obtain ⟨w, hw, hskip⟩ := exists_blank_skip (bytes.drop pos)
    rw [← drop_skipWs] at hskip
    rw [chainLoop]
    by_cases hpeek : peek2 bytes op.char op.char (skipWs bytes pos) = true
    · obtain ⟨s, hs⟩ := peek2_iff.mp hpeek
      obtain ⟨w', hw', hskip'⟩ := exists_blank_skip (bytes.drop (skipWs bytes pos + 2))
      rw [← drop_skipWs] at hskip'
      simp only [if_pos hpeek]
      split
      · exact ⟨_, rfl, fun _ _ h => by cases h⟩
      · rename_i hmore
        obtain ⟨r, hr, hok⟩ := hoperand _ (Nat.le_of_not_le hmore)
        rw [hr]
        cases r with
        | error e => exact ⟨_, rfl, fun _ _ h => by cases h⟩
        | ok found =>
          obtain ⟨next, after⟩ := found
          obtain ⟨hafter, t, es, htext, hderives, hnext⟩ := hok next after rfl
          have hlengths := congrArg List.length htext
          have hlengths' := congrArg List.length hskip'
          have hlengths'' := congrArg List.length hskip
          simp only [List.length_append, List.length_drop] at hlengths hlengths' hlengths''
          have hlt := lt_of_drop hs
          obtain ⟨r, hr, hok⟩ := @ih after (terms ++ [next]) hafter (by omega)
          refine ⟨r, hr, fun out pos' heq => ?_⟩
          obtain ⟨hpos', t', es', htext', htail, hout⟩ := hok out pos' heq
          refine ⟨hpos', _, _, ?_, .more hw (hderives.operand_blank hw') htail, ?_⟩
          · have hs' : bytes.drop (skipWs bytes pos + 2) = s := drop_succ (drop_succ hs)
            rw [hskip, hs, ← hs', hskip', htext, htext']
            simp only [List.append_assoc, List.cons_append]
          · have hnode : op.operand.node = .all := by cases op <;> rfl
            rw [hout, hnext, hnode, List.append_assoc, List.singleton_append]
    · simp only [if_neg hpeek]
      refine ⟨_, rfl, fun out pos' heq => ?_⟩
      cases heq
      exact ⟨skipWs_le hpos, w, [], hskip, .done hw, (List.append_nil _).symm⟩

theorem parseChain_sound {operand : Nat → Outcome NormalisedExpr}
    (hoperand : ∀ pos ≤ bytes.length, Sound bytes op.operand pos (operand pos)) {pos : Nat}
    (hpos : pos ≤ bytes.length) :
    Sound bytes (.chain op) pos (parseChain bytes op.char op.node operand pos) := by
  obtain ⟨r, hr, hok⟩ := hoperand pos hpos
  rw [parseChain, hr]
  cases r with
  | error e => exact sound_error
  | ok found =>
    obtain ⟨first, after⟩ := found
    obtain ⟨hafter, t, es, htext, hderives, hfirst⟩ := hok first after rfl
    obtain ⟨r, hr, hok⟩ := @chainLoop_sound bytes op operand hoperand (bytes.length + 1) after
      [first] hafter (by omega)
    simp only [hr]
    cases r with
    | error e => exact sound_error
    | ok found =>
      obtain ⟨terms, pos'⟩ := found
      obtain ⟨hpos', t', es', htext', htail, hterms⟩ := hok terms pos' rfl
      refine ⟨_, rfl, fun e last heq => ?_⟩
      cases heq
      have hnode : op.operand.node = .all := by cases op <;> rfl
      refine ⟨hpos', _, _, ?_, .chain hderives htail, ?_⟩
      · rw [htext, htext', List.append_assoc]
      · rw [hterms, hfirst, hnode, List.singleton_append]
        rfl

theorem parsePrimary_sound {or : Nat → Outcome NormalisedExpr}
    (hor : ∀ pos ≤ bytes.length, Sound bytes (.chain .or) pos (or pos)) (pos : Nat) :
    Sound bytes .unary pos (parsePrimary bytes or pos) := by
  obtain ⟨w, hw, hskip⟩ := exists_blank_skip (bytes.drop pos)
  rw [← drop_skipWs] at hskip
  simp only [parsePrimary]
  cases hc : bytes[skipWs bytes pos]? with
  | none => exact sound_error
  | some c =>
    have hdrop := drop_of_getElem? hc
    dsimp only
    split
    · rename_i hopen
      obtain ⟨r, hr, hok⟩ := hor _ (lt_of_drop hdrop)
      rw [hr]
      cases r with
      | error e => exact sound_error
      | ok found =>
        obtain ⟨inner, after⟩ := found
        obtain ⟨hafter, t, es, htext, hderives, hinner⟩ := hok inner after rfl
        dsimp only
        split
        · rename_i hclose
          obtain ⟨w', hw', hskip'⟩ := exists_blank_skip (bytes.drop after)
          rw [← drop_skipWs] at hskip'
          refine ⟨_, rfl, fun e last heq => ?_⟩
          cases heq
          have hdrop' := drop_of_getElem? hclose
          refine ⟨lt_of_drop hdrop', _, _, ?_, .primary hw (.parens (hderives.chain_append (.done hw'))),
            (List.append_nil es).symm ▸ hinner⟩
          rw [hskip, hdrop, hopen, htext, hskip', hdrop']
          simp only [List.append_assoc, List.cons_append, List.nil_append]
        · exact sound_error
    · split
      · exact sound_error
      · rename_i hstart
        refine ⟨_, rfl, fun e last heq => ?_⟩
        cases heq
        refine ⟨takeWhile_le _ (Nat.le_of_lt (lt_of_drop hdrop)), _, _, ?_,
          .primary hw (.ident ⟨c, (bytes.drop (skipWs bytes pos + 1)).takeWhile isIdentCont, ?_,
            by simpa using hstart, List.all_eq_true.mp List.all_takeWhile⟩), rfl⟩
        · rw [drop_takeWhile, List.append_assoc, List.takeWhile_append_dropWhile]
          exact hskip
        · rw [hdrop, List.takeWhile_cons, if_pos (isIdentCont_of_start (by simpa using hstart))]

theorem parse_sound (bytes : List Char) (left : Nat) :
    (∀ pos ≤ bytes.length, Sound bytes (.chain .or) pos (parseOr bytes left pos)) ∧
      (∀ pos ≤ bytes.length, Sound bytes (.chain .and) pos (parseAnd bytes left pos)) ∧
        ∀ pos ≤ bytes.length, Sound bytes .unary pos (parseUnary bytes left pos) := by
  induction left with
  | zero =>
    refine ⟨fun pos _ => ?_, fun pos _ => ?_, fun pos _ => ?_⟩
    · exact parseOr.eq_1 bytes pos ▸ sound_error
    · exact parseAnd.eq_1 bytes pos ▸ sound_error
    · exact parseUnary.eq_1 bytes pos ▸ sound_error
  | succ left ih =>
    obtain ⟨hor, hand, hunary⟩ := ih
    refine ⟨fun pos hpos => ?_, fun pos hpos => ?_, fun pos hpos => ?_⟩
    · rw [parseOr]
      exact @parseChain_sound bytes .or _ hand pos hpos
    · rw [parseAnd]
      exact @parseChain_sound bytes .and _ hunary pos hpos
    · obtain ⟨w, hw, hskip⟩ := exists_blank_skip (bytes.drop pos)
      rw [← drop_skipWs] at hskip
      simp only [parseUnary]
      split
      · rename_i hbang
        have hdrop := drop_of_getElem? hbang
        split
        · exact sound_error
        · rename_i hmore
          obtain ⟨r, hr, hok⟩ := hunary _ (Nat.le_of_not_le hmore)
          rw [hr]
          cases r with
          | error e => exact sound_error
          | ok found =>
            obtain ⟨inner, after⟩ := found
            obtain ⟨hafter, t, es, htext, hderives, hinner⟩ := hok inner after rfl
            obtain ⟨w', hw', hskip'⟩ := exists_blank_skip (bytes.drop (skipWs bytes pos + 1))
            rw [← drop_skipWs] at hskip'
            refine ⟨_, rfl, fun e last heq => ?_⟩
            cases heq
            refine ⟨hafter, _, _, ?_, .not hw (hderives.unary_blank hw'), congrArg _ hinner⟩
            rw [hskip, hdrop, hskip', htext]
            simp only [List.append_assoc, List.cons_append]
      · obtain ⟨r, hr, hok⟩ := parsePrimary_sound hor (skipWs bytes pos)
        refine ⟨r, hr, fun e after heq => ?_⟩
        obtain ⟨hafter, t, es, htext, hderives, he⟩ := hok e after heq
        refine ⟨hafter, w ++ t, es, ?_, hderives.unary_blank hw, he⟩
        rw [hskip, htext, List.append_assoc]

end Sound

section Complete
variable {bytes : List Char}

def Follows : Nonterminal → List Char → Prop
  | .chain .or, rest => ∀ op : Op, ¬[op.char, op.char] <+: skip rest
  | .chain .and, rest => ¬['&', '&'] <+: skip rest
  | _, _ => True

def Stops (rest : List Char) : Prop := ∀ c, rest.head? = some c → isIdentCont c = false

def Reads {α : Type} (bytes : List Char) (out : Outcome α) (value : α) (rest : List Char) : Prop :=
  out = some (.error .depthExceeded) ∨
    ∃ pos, out = some (.ok (value, pos)) ∧ skip (bytes.drop pos) = skip rest

def parseNonterminal (bytes : List Char) : Nonterminal → Nat → Nat → Outcome NormalisedExpr
  | .chain .or => parseOr bytes
  | .chain .and => parseAnd bytes
  | .unary => parseUnary bytes
  | _ => fun left => parsePrimary bytes (parseOr bytes left)

def Completes (bytes : List Char) : Nonterminal → List Char → List NormalisedExpr → Prop
  | .tail op, t, es => ∀ left fuel pos rest terms,
      skip (bytes.drop pos) = skip (t ++ rest) → Follows (.chain op) rest → Stops rest →
      (skip (bytes.drop pos)).length < fuel →
      Reads bytes (chainLoop bytes op.char (parseNonterminal bytes op.operand left) fuel pos terms)
        (terms ++ es) rest
  | nt, t, es => ∀ left pos rest,
      skip (bytes.drop pos) = skip (t ++ rest) → Follows nt rest → Stops rest →
      Reads bytes (parseNonterminal bytes nt left pos) (collapse nt.node es) rest

variable {es : List NormalisedExpr}

theorem Derives.starts {nt : Nonterminal} {t : List Char} (h : Derives nt t es)
    (hnt : ∀ op, nt ≠ .tail op) :
    ∃ c s, ∀ rest, skip (t ++ rest) = c :: (s ++ rest) := by
  induction h with
  | ident h =>
    obtain ⟨c, s, rfl, hstart, -⟩ := h
    exact ⟨c, s, fun rest => skip_cons (isBlank_of_start hstart) (s ++ rest)⟩
  | @parens t => exact ⟨'(', t ++ [')'], fun rest => skip_cons rfl _⟩
  | primary hw _ ih =>
    obtain ⟨c, s, hs⟩ := ih fun _ h => by cases h
    exact ⟨c, s, fun rest => by rw [List.append_assoc, skip_blank_append hw, hs]⟩
  | @not w t _ hw =>
    exact ⟨'!', t, fun rest => by
      rw [List.append_assoc, skip_blank_append hw, List.cons_append, skip_cons rfl]⟩
  | @chain op t t' _ _ _ _ ih =>
    obtain ⟨c, s, hs⟩ := ih fun op' h => by cases op <;> cases h
    exact ⟨c, s ++ t', fun rest => by rw [List.append_assoc, hs, List.append_assoc]⟩
  | done | more => exact absurd rfl (hnt _)

theorem length_skip_le (s : List Char) : (skip s).length ≤ s.length :=
  (List.dropWhile_suffix isBlank).length_le

theorem skip_op {op : Op} (s : List Char) : skip (op.char :: s) = op.char :: s :=
  skip_cons (by cases op <;> rfl) s

theorem stops_blank_append {w rest : List Char} (hw : Blank w) (h : Stops rest) :
    Stops (w ++ rest) := by
  cases w with
  | nil => exact h
  | cons b w =>
    intro c hc
    cases hc
    exact isIdentCont_of_blank (hw b List.mem_cons_self)

theorem Derives.tail_follows {op : Op} {t rest : List Char} (h : Derives (.tail op) t es)
    (hfollows : Follows (.chain op) rest) (hstops : Stops rest) :
    Follows op.operand (t ++ rest) ∧ Stops (t ++ rest) := by
  cases h with
  | done hw =>
    refine ⟨?_, stops_blank_append hw hstops⟩
    cases op with
    | and => trivial
    | or =>
      show ¬['&', '&'] <+: skip (t ++ rest)
      rw [skip_blank_append hw]
      exact hfollows .and
  | @more _ w t t' _ _ hw =>
    rw [List.append_assoc, List.cons_append]
    refine ⟨?_, stops_blank_append hw fun c hc => ?_⟩
    · cases op with
      | and => trivial
      | or =>
        show ¬['&', '&'] <+: skip (w ++ '|' :: _)
        rw [skip_blank_append hw, skip_cons rfl]
        intro h
        obtain ⟨s, hs⟩ := h
        cases hs
    · cases hc
      cases op <;> rfl

theorem parsePrimary_ident {or : Nat → Outcome NormalisedExpr} {pos : Nat} {s rest : List Char}
    (h : IsIdent s) (hskip : skip (bytes.drop pos) = s ++ rest) (hstops : Stops rest) :
    ∃ after, parsePrimary bytes or pos = some (.ok (.flag s, after)) ∧
      bytes.drop after = rest := by
  obtain ⟨c, cs, rfl, hstart, hcont⟩ := h
  rw [← drop_skipWs] at hskip
  have hopen : c ≠ '(' := by
    rintro rfl
    cases hstart
  have hword : (bytes.drop (skipWs bytes pos)).takeWhile isIdentCont = c :: cs := by
    rw [hskip, List.takeWhile_append_of_pos hcont]
    cases rest with
    | nil => rw [List.takeWhile_nil, List.append_nil]
    | cons d rest => simp [hstops d rfl]
  refine ⟨skipWs bytes pos + (c :: cs).length, ?_, ?_⟩
  · simp only [parsePrimary, getElem?_of_drop hskip, if_neg hopen, hstart, hword]
    rfl
  · rw [← List.drop_drop, hskip, List.drop_left]

theorem parseNonterminal_chain (op : Op) (left pos : Nat) :
    parseNonterminal bytes (.chain op) (left + 1) pos =
      parseChain bytes op.char op.node (parseNonterminal bytes op.operand left) pos := by
  cases op
  · exact parseAnd.eq_2 ..
  · exact parseOr.eq_2 ..

theorem parseNonterminal_zero (op : Op) (pos : Nat) :
    parseNonterminal bytes (.chain op) 0 pos = some (.error .depthExceeded) := by
  cases op
  · exact parseAnd.eq_1 bytes pos
  · exact parseOr.eq_1 bytes pos

theorem parse_complete {nt : Nonterminal} {t : List Char} (h : Derives nt t es)
    : Completes bytes nt t es := by
  induction h with
  | @ident s h =>
    intro left pos rest hskip _ hstops
    obtain ⟨c, cs, hs, hstart, -⟩ := id h
    have hskip' : skip (s ++ rest) = s ++ rest := by
      rw [hs, List.cons_append, skip_cons (isBlank_of_start hstart)]
    obtain ⟨after, hparse, hdrop⟩ := parsePrimary_ident h (hskip.trans hskip') hstops
    exact .inr ⟨after, hparse, congrArg skip hdrop⟩
  | @parens t es _ ih =>
    intro left pos rest hskip _ _
    rw [List.cons_append, skip_cons rfl, ← drop_skipWs, List.append_assoc] at hskip
    have hclose : skip (')' :: rest) = ')' :: rest := skip_cons rfl rest
    have hread := ih left (skipWs bytes pos + 1) (')' :: rest)
      (congrArg skip (drop_succ hskip)) (fun op hop => by
        rw [hclose] at hop
        obtain ⟨s, hs⟩ := hop
        cases op <;> cases hs) fun c hc => by cases hc; rfl
    show Reads bytes (parsePrimary bytes (parseOr bytes left) pos) _ rest
    simp only [parsePrimary, getElem?_of_drop hskip, if_true]
    cases hread with
    | inl hdeep =>
      rw [show parseOr bytes left _ = _ from hdeep]
      exact .inl rfl
    | inr hok =>
      obtain ⟨after, hok, hafter⟩ := hok
      rw [show parseOr bytes left _ = _ from hok]
      rw [hclose, ← drop_skipWs] at hafter
      refine .inr ⟨skipWs bytes after + 1, ?_, congrArg skip (drop_succ hafter)⟩
      simp only [getElem?_of_drop hafter, if_true]
      rfl
  | @primary w t es hw h ih =>
    intro left pos rest hskip _ hstops
    rw [List.append_assoc, skip_blank_append hw] at hskip
    cases left with
    | zero => exact .inl (parseUnary.eq_1 bytes pos)
    | succ left =>
      have hfirst : ∃ c s, t ++ rest = c :: s ∧ c ≠ '!' ∧ isBlank c = false := by
        cases h with
        | ident h =>
          obtain ⟨c, cs, rfl, hstart, -⟩ := h
          refine ⟨c, cs ++ rest, rfl, ?_, isBlank_of_start hstart⟩
          rintro rfl
          cases hstart
        | parens => exact ⟨'(', _, rfl, by decide, rfl⟩
      obtain ⟨c, s, hcons, hne, hblank⟩ := hfirst
      have hdrop : bytes.drop (skipWs bytes pos) = c :: s := by
        rw [drop_skipWs, hskip, hcons, skip_cons hblank]
      have hread := ih left (skipWs bytes pos) rest
        (by rw [drop_skipWs, skip_skip, hskip]) trivial hstops
      show Reads bytes (parseUnary bytes (left + 1) pos) _ rest
      rw [parseUnary]
      simp only [getElem?_of_drop hdrop, Option.some.injEq, if_neg hne]
      exact hread
  | @not w t es hw h ih =>
    intro left pos rest hskip _ hstops
    rw [List.append_assoc, skip_blank_append hw, List.cons_append, skip_cons rfl,
      ← drop_skipWs] at hskip
    cases left with
    | zero => exact .inl (parseUnary.eq_1 bytes pos)
    | succ left =>
      obtain ⟨c, s, hstarts⟩ := h.starts fun _ h => by cases h
      have hdrop : bytes.drop (skipWs bytes (skipWs bytes pos + 1)) = skip (t ++ rest) := by
        rw [drop_skipWs, drop_succ hskip]
      have hmore := Nat.not_le.mpr (lt_of_drop (hdrop.trans (hstarts rest)))
      show Reads bytes (parseUnary bytes (left + 1) pos) _ rest
      rw [parseUnary]
      simp only [getElem?_of_drop hskip, if_true, ge_iff_le, if_neg hmore]
      cases ih left _ rest (by rw [hdrop, skip_skip]) trivial hstops with
      | inl hdeep =>
        rw [show parseUnary bytes left _ = _ from hdeep]
        exact .inl rfl
      | inr hok =>
        obtain ⟨after, hok, hafter⟩ := hok
        rw [show parseUnary bytes left _ = _ from hok]
        exact .inr ⟨after, rfl, hafter⟩
  | @chain op t t' es es' h h' ih ih' =>
    intro left pos rest hskip hfollows hstops
    cases left with
    | zero => exact .inl (parseNonterminal_zero op pos)
    | succ left =>
      obtain ⟨hnext, hstop⟩ := h'.tail_follows hfollows hstops
      rw [parseNonterminal_chain, parseChain]
      rw [List.append_assoc] at hskip
      have hall : collapse op.operand.node es = collapse .all es := by cases op <;> rfl
      have hoperand : Reads bytes (parseNonterminal bytes op.operand left pos)
          (collapse .all es) (t' ++ rest) := by
        cases op with
        | and => exact ih left pos _ hskip hnext hstop
        | or => exact ih left pos _ hskip hnext hstop
      cases hoperand with
      | inl hdeep =>
        rw [hdeep]
        exact .inl rfl
      | inr hok =>
        obtain ⟨after, hok, hafter⟩ := hok
        have hfuel : (skip (bytes.drop after)).length < bytes.length + 1 := by
          have hle := length_skip_le (bytes.drop after)
          rw [List.length_drop] at hle
          omega
        simp only [hok]
        cases ih' left _ after rest [collapse .all es] hafter hfollows hstops hfuel with
        | inl hdeep =>
          rw [hdeep]
          exact .inl rfl
        | inr hok =>
          obtain ⟨last, hok, hlast⟩ := hok
          rw [hok]
          exact .inr ⟨last, rfl, hlast⟩
  | @done op w hw =>
    intro left fuel pos rest terms hskip hfollows _ hfuel
    cases fuel with
    | zero => exact absurd hfuel (Nat.not_lt_zero _)
    | succ fuel =>
      rw [skip_blank_append hw, ← drop_skipWs] at hskip
      have hpeek : ¬peek2 bytes op.char op.char (skipWs bytes pos) = true := by
        intro hpeek
        obtain ⟨s, hs⟩ := peek2_iff.mp hpeek
        have hop : [op.char, op.char] <+: skip rest := ⟨s, by rw [← hskip, hs]; rfl⟩
        cases op with
        | and => exact hfollows hop
        | or => exact hfollows .or hop
      simp only [chainLoop, if_neg hpeek]
      exact .inr ⟨_, by rw [List.append_nil], by rw [hskip, skip_skip]⟩
  | @more op w t t' es es' hw h h' ih ih' =>
    intro left fuel pos rest terms hskip hfollows hstops hfuel
    rw [List.append_assoc, skip_blank_append hw, List.cons_append, skip_op] at hskip
    cases fuel with
    | zero => exact absurd hfuel (Nat.not_lt_zero _)
    | succ fuel =>
      obtain ⟨hnext, hstop⟩ := h'.tail_follows hfollows hstops
      rw [hskip] at hfuel
      rw [← drop_skipWs, List.cons_append, List.append_assoc] at hskip
      have hpeek : peek2 bytes op.char op.char (skipWs bytes pos) = true := peek2_iff.mpr ⟨_, hskip⟩
      obtain ⟨c, s, hstarts⟩ := h.starts fun op' hop => by cases op <;> cases hop
      have hdrop : bytes.drop (skipWs bytes (skipWs bytes pos + 2)) = skip (t ++ (t' ++ rest)) :=
        (drop_skipWs bytes _).trans (congrArg skip (drop_succ (drop_succ hskip)))
      have hmore := Nat.not_le.mpr (lt_of_drop (hdrop.trans (hstarts _)))
      have hoperand : Reads bytes (parseNonterminal bytes op.operand left
          (skipWs bytes (skipWs bytes pos + 2))) (collapse .all es) (t' ++ rest) := by
        cases op with
        | and => exact ih left _ _ (by rw [hdrop, skip_skip]) hnext hstop
        | or => exact ih left _ _ (by rw [hdrop, skip_skip]) hnext hstop
      simp only [chainLoop, if_pos hpeek, ge_iff_le, if_neg hmore]
      cases hoperand with
      | inl hdeep =>
        rw [hdeep]
        exact .inl rfl
      | inr hok =>
        obtain ⟨after, hok, hafter⟩ := hok
        have hless : (skip (bytes.drop after)).length < fuel := by
          have hle := length_skip_le (t' ++ rest)
          rw [hafter]
          simp only [List.length_cons, List.length_append] at hfuel hle
          omega
        simp only [hok]
        have hread := ih' left fuel after rest (terms ++ [collapse .all es]) hafter hfollows hstops
          hless
        rwa [List.append_assoc] at hread

end Complete

section RoundTrip

/-- What the recognisers build: names under connectives of two or more. -/
inductive WellBuilt : NormalisedExpr → Prop
  | flag {s : List Char} (h : IsIdent s) : WellBuilt (.flag s)
  | not {e : NormalisedExpr} (h : WellBuilt e) : WellBuilt (.not e)
  | node {op : Op} {items : List NormalisedExpr} (hlen : 2 ≤ items.length)
      (h : ∀ e ∈ items, WellBuilt e) : WellBuilt (op.node items)

variable {es : List NormalisedExpr} {e e' : NormalisedExpr}

theorem wellBuilt_collapse (op : Op) (hne : es ≠ []) (h : ∀ e ∈ es, WellBuilt e)
    : WellBuilt (collapse op.node es) := by
  match es, hne, h with
  | [e], _, h => exact h e (List.mem_singleton_self e)
  | _ :: _ :: es, _, h => exact .node (Nat.le_add_left 2 es.length) h

theorem Derives.wellBuilt {nt : Nonterminal} {t : List Char} (h : Derives nt t es) :
    (∀ e ∈ es, WellBuilt e) ∧ ((∀ op, nt ≠ .tail op) → es ≠ []) := by
  induction h with
  | ident h => exact ⟨List.forall_mem_singleton.mpr (.flag h), fun _ => List.cons_ne_nil _ _⟩
  | parens _ ih =>
    exact ⟨List.forall_mem_singleton.mpr (wellBuilt_collapse .or (ih.2 fun _ h => by cases h) ih.1),
      fun _ => List.cons_ne_nil _ _⟩
  | primary _ _ ih => exact ⟨ih.1, fun _ => ih.2 fun _ h => by cases h⟩
  | not _ _ ih =>
    exact ⟨List.forall_mem_singleton.mpr
      (.not (wellBuilt_collapse .and (ih.2 fun _ h => by cases h) ih.1)),
      fun _ => List.cons_ne_nil _ _⟩
  | @chain op _ _ _ _ _ _ ih ih' =>
    refine ⟨List.forall_mem_cons.mpr ⟨wellBuilt_collapse .and (ih.2 fun _ h => ?_) ih.1, ih'.1⟩,
      fun _ => List.cons_ne_nil _ _⟩
    cases op <;> cases h
  | done => exact ⟨List.forall_mem_nil _, fun h => absurd rfl (h _)⟩
  | @more op _ _ _ _ _ _ _ _ ih ih' =>
    refine ⟨List.forall_mem_cons.mpr ⟨wellBuilt_collapse .and (ih.2 fun _ h => ?_) ih.1, ih'.1⟩,
      fun h => absurd rfl (h _)⟩
    cases op <;> cases h

theorem Spells.wellBuilt {src : List Char} {e : NormalisedExpr} (h : Spells src e) :
    WellBuilt e := by
  obtain ⟨es, hderives, rfl⟩ := h
  exact wellBuilt_collapse .or (hderives.wellBuilt.2 fun _ h => by cases h) hderives.wellBuilt.1

section Terms
variable {op : Op} {tags : List Char → Bool} {es : List NormalisedExpr}

theorem holds_node : holds tags (op.node es) = op.combine (holds tags) es := by
  cases op with
  | and =>
    show holdsAll tags es = es.all (holds tags)
    induction es with
    | nil => rfl
    | cons e es ih => rw [holdsAll, ih, List.all_cons]
  | or =>
    show holdsAny tags es = es.any (holds tags)
    induction es with
    | nil => rfl
    | cons e es ih => rw [holdsAny, ih, List.any_cons]

theorem holds_collapse : holds tags (collapse op.node es) = op.combine (holds tags) es := by
  match es with
  | [] => exact holds_node
  | [e] => cases op <;> simp [collapse, Op.combine]
  | _ :: _ :: _ => exact holds_node

theorem combine_append {α : Type} {f : α → Bool} {xs ys zs ws : List α} (h : op.combine f xs = op.combine f zs)
    (h' : op.combine f ys = op.combine f ws) : op.combine f (xs ++ ys) = op.combine f (zs ++ ws) := by
  cases op with
  | and => simpa only [Op.combine, List.all_append] using congr (congrArg and h) h'
  | or => simpa only [Op.combine, List.any_append] using congr (congrArg or h) h'

theorem writeCanonical_node (prec : Nat) : writeCanonical (op.node es) prec =
    parens (op.prec < prec) (writeItems op.separator op.prec true es) := by
  cases op <;> exact writeCanonical.eq_def ..

theorem writeCanonical_collapse :
    writeCanonical (collapse op.node es) op.prec = writeItems op.separator op.prec true es := by
  have hself : ∀ es, writeCanonical (op.node es) op.prec =
      writeItems op.separator op.prec true es := fun es => by
    rw [writeCanonical_node, decide_eq_false (Nat.lt_irrefl op.prec), parens]
    rfl
  match es with
  | [] => exact hself []
  | [e] => simp [collapse, writeItems]
  | _ :: _ :: _ => exact hself _

theorem writeItems_append {separator : List Char} {prec : Nat} (es' : List NormalisedExpr)
    (hne : es ≠ []) (first : Bool) : writeItems separator prec first (es ++ es') =
      writeItems separator prec first es ++ writeItems separator prec false es' := by
  induction es generalizing first with
  | nil => exact absurd rfl hne
  | cons e es ih =>
    rw [List.cons_append, writeItems, writeItems]
    cases es with
    | nil => simp [writeItems]
    | cons e' es => simp only [ih (List.cons_ne_nil e' es), List.append_assoc]

theorem writeItems_separated {separator : List Char} {prec : Nat} (hne : es ≠ []) :
    writeItems separator prec false es = separator ++ writeItems separator prec true es := by
  cases es with
  | nil => exact absurd rfl hne
  | cons e es => simp [writeItems]

theorem Derives.separated {t : List Char} (h : Derives (.chain op) t es) :
    Derives (.tail op) (op.separator ++ t) es := by
  have hblank : Blank [' '] := List.forall_mem_singleton.mpr rfl
  cases h with
  | @chain _ t t' es es' h h' =>
    exact @Derives.more op [' '] (' ' :: t) t' es es' hblank (h.operand_blank hblank) h'

end Terms

def Same (e' e : NormalisedExpr) : Prop :=
  (∀ tags, holds tags e' = holds tags e) ∧ ∀ prec, writeCanonical e' prec = writeCanonical e prec

/-- The text of `e` under `op` derives terms that come to `e`. -/
structure Spelled (op : Op) (e : NormalisedExpr) (es : List NormalisedExpr) : Prop where
  derives : Derives (.chain op) (writeCanonical e op.prec) es
  ne_nil : es ≠ []
  holds_eq (tags : List Char → Bool) : op.combine (holds tags) es = holds tags e
  text : writeItems op.separator op.prec true es = writeCanonical e op.prec

theorem spelled_items {op : Op} {items : List NormalisedExpr}
    (h : ∀ e ∈ items, ∃ es, Spelled op e es) :
    ∃ es, Derives (.tail op) (writeItems op.separator op.prec false items) es ∧
      items.length ≤ es.length ∧
      (∀ tags, op.combine (holds tags) es = op.combine (holds tags) items) ∧
      writeItems op.separator op.prec false es =
        writeItems op.separator op.prec false items := by
  induction items with
  | nil => exact ⟨[], .done (List.forall_mem_nil _), Nat.le_refl 0, fun _ => rfl, rfl⟩
  | cons e items ih =>
    obtain ⟨he, hitems⟩ := List.forall_mem_cons.mp h
    obtain ⟨es, hes⟩ := he
    obtain ⟨es', hderives, hlen, hholds, htext⟩ := ih hitems
    refine ⟨es ++ es', ?_, ?_, fun tags => ?_, ?_⟩
    · rw [writeItems, ← List.append_assoc]
      exact hes.derives.separated.tail_append hderives
    · have hpos := List.length_pos_of_ne_nil hes.ne_nil
      rw [List.length_append, List.length_cons]
      omega
    · refine @combine_append op NormalisedExpr _ _ _ [e] items ?_ (hholds tags)
      rw [hes.holds_eq tags, ← holds_collapse]
      rfl
    · rw [writeItems_append _ hes.ne_nil, writeItems_separated hes.ne_nil, hes.text, htext,
        writeItems, List.append_assoc]
      rfl

theorem spelled_one {op : Op} (hsame : Same e' e)
    (h : Derives op.operand (writeCanonical e op.prec) es) (he' : collapse .all es = e') :
    Spelled op e [e'] where
  derives := he' ▸ List.append_nil (writeCanonical e op.prec) ▸
    .chain h (.done (List.forall_mem_nil _))
  ne_nil := List.cons_ne_nil _ _
  holds_eq tags := (@holds_collapse op tags [e']).symm.trans (hsame.1 tags)
  text := (@writeCanonical_collapse op [e']).symm.trans (hsame.2 op.prec)

theorem Spelled.and_as_or (h : Spelled .and e es) (hsame : Same e' e) (he' : collapse .all es = e')
    (htext : writeCanonical e PREC_ALL = writeCanonical e PREC_ANY) : Spelled .or e [e'] :=
  spelled_one hsame (htext ▸ h.derives) he'

/-- An expression as an operand of `!`. -/
def SpelledUnary (e : NormalisedExpr) : Prop :=
  ∃ e' es, Same e' e ∧ Derives .unary (writeCanonical e PREC_NOT) es ∧ collapse .all es = e'

theorem Spelled.or_in_parens (h : Spelled .or e es) (hsame : Same e' e)
    (he' : collapse .any es = e')
    (htext : writeCanonical e PREC_NOT = parens true (writeCanonical e PREC_ANY)) :
    SpelledUnary e := by
  refine ⟨e', [e'], hsame, ?_, rfl⟩
  rw [htext, ← he']
  exact @Derives.primary [] _ _ (List.forall_mem_nil _) (.parens h.derives)

theorem WellBuilt.spelled {e : NormalisedExpr} (h : WellBuilt e) :
    (∀ op, ∃ es, Spelled op e es) ∧ SpelledUnary e := by
  have hunary : ∀ e, (∀ prec ≤ PREC_NOT, writeCanonical e prec = writeCanonical e PREC_NOT) →
      SpelledUnary e → (∀ op, ∃ es, Spelled op e es) ∧ SpelledUnary e := by
    intro e htext hspelled
    obtain ⟨e', es, hsame, hderives, he'⟩ := id hspelled
    have hall := htext PREC_ALL (by decide)
    have hand : Spelled .and e [e'] := spelled_one hsame (hall ▸ hderives) he'
    refine ⟨fun op => ?_, hspelled⟩
    cases op with
    | and => exact ⟨_, hand⟩
    | or => exact ⟨_, hand.and_as_or hsame rfl (hall.trans (htext PREC_ANY (by decide)).symm)⟩
  have hparens : ∀ {n prec : Nat} {text : List Char}, prec ≤ n →
      parens (decide (n < prec)) text = text := fun hle => by
    rw [decide_eq_false (Nat.not_lt.mpr hle)]
    rfl
  induction h with
  | @flag s h =>
    have htext : ∀ prec ≤ PREC_NOT, writeCanonical (.flag s) prec = s := fun prec hle => by
      exact hparens (Nat.le_succ_of_le hle)
    refine hunary _ (fun prec hle => (htext prec hle).trans (htext _ (Nat.le_refl _)).symm)
      ⟨.flag s, [.flag s], ⟨fun _ => rfl, fun _ => rfl⟩, ?_, rfl⟩
    rw [htext _ (Nat.le_refl _)]
    exact @Derives.primary [] s _ (List.forall_mem_nil _) (.ident h)
  | @not e _ ih =>
    obtain ⟨e', es, hsame, hderives, he'⟩ := ih.2
    have htext : ∀ prec ≤ PREC_NOT,
        writeCanonical (.not e) prec = '!' :: writeCanonical e PREC_NOT := fun prec hle => by
      rw [writeCanonical, hparens hle]
    refine hunary _ (fun prec hle => (htext prec hle).trans (htext _ (Nat.le_refl _)).symm)
      ⟨.not e', [.not e'], ⟨fun tags => ?_, fun prec => ?_⟩, ?_, rfl⟩
    · rw [holds, holds, hsame.1]
    · rw [writeCanonical, writeCanonical, hsame.2]
    · rw [htext _ (Nat.le_refl _), ← he']
      exact @Derives.not [] _ es (List.forall_mem_nil _) hderives
  | @node op items hlen _ ih =>
    match items, hlen, ih with
    | e :: items, hlen, ih =>
      obtain ⟨he, hitems⟩ := List.forall_mem_cons.mp ih
      obtain ⟨es, hes⟩ := he.1 op
      obtain ⟨es', hderives, hlen', hholds, htext⟩ := spelled_items fun e he => (hitems e he).1 op
      have hlong : 2 ≤ (es ++ es').length := by
        have hpos := List.length_pos_of_ne_nil hes.ne_nil
        rw [List.length_append]
        rw [List.length_cons] at hlen
        omega
      have hitems_text : writeItems op.separator op.prec true (es ++ es') =
          writeItems op.separator op.prec true (e :: items) := by
        rw [writeItems_append _ hes.ne_nil, hes.text, htext, writeItems]
        rfl
      have hitems_holds : ∀ tags, op.combine (holds tags) (es ++ es') =
          op.combine (holds tags) (e :: items) := fun tags => by
        refine @combine_append op NormalisedExpr _ _ _ [e] items ?_ (hholds tags)
        rw [hes.holds_eq tags, ← holds_collapse]
        rfl
      have hsame : Same (op.node (es ++ es')) (op.node (e :: items)) :=
        ⟨fun tags => by rw [holds_node, holds_node, hitems_holds],
          fun prec => by rw [writeCanonical_node, writeCanonical_node, hitems_text]⟩
      have hown : ∀ prec ≤ op.prec, writeCanonical (op.node (e :: items)) prec =
          writeItems op.separator op.prec true (e :: items) := fun prec hle => by
        rw [writeCanonical_node, hparens hle]
      have hspelled : Spelled op (op.node (e :: items)) (es ++ es') := by
        refine ⟨?_, fun hnil => ?_, fun tags => ?_, ?_⟩
        · rw [hown _ (Nat.le_refl _), writeItems]
          exact hes.derives.chain_append hderives
        · rw [hnil] at hlong
          exact absurd hlong (by decide)
        · rw [hitems_holds, holds_node]
        · rw [hitems_text, hown _ (Nat.le_refl _)]
      have hcollapse : collapse op.node (es ++ es') = op.node (es ++ es') := by
        match es ++ es', hlong with
        | _ :: _ :: _, _ => rfl
      cases op with
      | and =>
        have hany := (hown PREC_ALL (Nat.le_refl _)).trans (hown PREC_ANY (by decide)).symm
        have hor := hspelled.and_as_or hsame hcollapse hany
        refine ⟨fun op => ?_, hor.or_in_parens hsame rfl ?_⟩
        · cases op with
          | and => exact ⟨_, hspelled⟩
          | or => exact ⟨_, hor⟩
        · rw [hown PREC_ANY (by decide)]
          exact @writeCanonical_node .and _ PREC_NOT
      | or =>
        have hparen : writeCanonical (Op.or.node (e :: items)) PREC_NOT =
            parens true (writeCanonical (Op.or.node (e :: items)) PREC_ANY) := by
          rw [hown PREC_ANY (by decide)]
          exact @writeCanonical_node .or _ PREC_NOT
        have hnot := hspelled.or_in_parens hsame hcollapse hparen
        obtain ⟨e', es, hsame', hunary', he'⟩ := id hnot
        refine ⟨fun op => ?_, hnot⟩
        cases op with
        | and =>
          have heq := (@writeCanonical_node .or (e :: items) PREC_NOT).trans
            (@writeCanonical_node .or _ PREC_ALL).symm
          exact ⟨_, spelled_one hsame' (heq ▸ hunary') he'⟩
        | or => exact ⟨_, hspelled⟩

end RoundTrip

section Reparse

theorem isWhitespace_of_identCont {c : Char} (h : isIdentCont c = true) :
    isWhitespace c = false := by
  have hcode : c.toNat = 46 ∨ (48 ≤ c.toNat ∧ c.toNat ≤ 57) ∨ (65 ≤ c.toNat ∧ c.toNat ≤ 90) ∨
      c.toNat = 95 ∨ (97 ≤ c.toNat ∧ c.toNat ≤ 122) := by
    have halpha : c.isAlpha =
        (decide (c.val ≥ 65 ∧ c.val ≤ 90) || (c.val ≥ 97 && c.val ≤ 122)) := rfl
    simp only [isIdentCont, Char.isAlphanum, halpha, Char.isDigit, Bool.or_eq_true,
      Bool.and_eq_true, decide_eq_true_iff, ge_iff_le, UInt32.le_iff_toNat_le] at h
    rcases h with (((h | h) | h) | rfl) | rfl
    · exact .inr (.inr (.inl h))
    · exact .inr (.inr (.inr (.inr h)))
    · exact .inr (.inl h)
    · exact .inr (.inr (.inr (.inl rfl)))
    · exact .inl rfl
  simp only [isWhitespace, List.mem_cons, List.not_mem_nil, or_false, Bool.or_eq_false_iff,
    Bool.and_eq_false_iff, decide_eq_false_iff_not]
  omega

structure Solid (s : List Char) : Prop where
  first : ∃ c cs, s = c :: cs ∧ isWhitespace c = false
  last : ∃ cs c, s = cs ++ [c] ∧ isWhitespace c = false

theorem Solid.trim_eq {s : List Char} (h : Solid s) : trim s = s := by
  obtain ⟨⟨c, cs, hfirst, hc⟩, ds, d, hlast, hd⟩ := h
  have hdrop : s.dropWhile isWhitespace = s := by simp [hfirst, hc]
  rw [trim, hdrop, hlast]
  simp [hd]

theorem Solid.append {a c : List Char} (ha : Solid a) (b : List Char) (hc : Solid c) :
    Solid (a ++ (b ++ c)) := by
  obtain ⟨x, xs, rfl, hx⟩ := ha.first
  obtain ⟨ys, y, rfl, hy⟩ := hc.last
  exact ⟨⟨x, _, rfl, hx⟩, ⟨x :: (xs ++ (b ++ ys)), y, by simp, hy⟩⟩

theorem solid_singleton {c : Char} (h : isWhitespace c = false) : Solid [c] :=
  ⟨⟨c, [], rfl, h⟩, ⟨[], c, rfl, h⟩⟩

theorem Solid.parens {t : List Char} (h : Solid t) (needsParens : Bool) :
    Solid (parens needsParens t) := by
  cases needsParens with
  | false => exact h
  | true => exact (solid_singleton (by decide)).append t (solid_singleton (by decide))

theorem IsIdent.solid {s : List Char} (h : IsIdent s) : Solid s := by
  obtain ⟨c, cs, rfl, hstart, hcont⟩ := h
  refine ⟨⟨c, cs, rfl, isWhitespace_of_identCont (isIdentCont_of_start hstart)⟩,
    ⟨_, _, (List.dropLast_append_getLast (List.cons_ne_nil c cs)).symm, ?_⟩⟩
  exact isWhitespace_of_identCont (hcont _ (List.getLast_mem _))

theorem solid_writeItems {separator : List Char} {prec : Nat} {items : List NormalisedExpr}
    (hne : items ≠ []) (h : ∀ e ∈ items, Solid (writeCanonical e prec)) :
    Solid (writeItems separator prec true items) := by
  induction items with
  | nil => exact absurd rfl hne
  | cons e items ih =>
    obtain ⟨he, hitems⟩ := List.forall_mem_cons.mp h
    cases items with
    | nil => simpa [writeItems] using he
    | cons e' items =>
      rw [writeItems, writeItems_separated (List.cons_ne_nil e' items)]
      exact he.append separator (ih (List.cons_ne_nil e' items) hitems)

variable {e : NormalisedExpr}

theorem WellBuilt.solid (h : WellBuilt e) (prec : Nat) :
    Solid (writeCanonical e prec) := by
  induction h generalizing prec with
  | flag h => exact h.solid.parens _
  | @not e _ ih =>
    obtain ⟨ys, y, hlast, hy⟩ := (ih PREC_NOT).last
    have hsolid : Solid ('!' :: writeCanonical e PREC_NOT) :=
      ⟨⟨_, _, rfl, by decide⟩, ⟨'!' :: ys, y, by rw [hlast, List.cons_append], hy⟩⟩
    exact hsolid.parens _
  | @node op items hlen _ ih =>
    rw [writeCanonical_node]
    refine (solid_writeItems (fun hnil => ?_) fun e he => ih e he op.prec).parens _
    rw [hnil] at hlen
    exact absurd hlen (by decide)

theorem parseGobuildExpr_sound (src : List Char) :
    ∃ r, parseGobuildExpr src = some r ∧ ∀ e, r = .ok e → Spells src e := by
  rw [parseGobuildExpr]
  dsimp only
  split
  · exact ⟨_, rfl, fun _ h => by cases h⟩
  · obtain ⟨r, hr, hok⟩ := (parse_sound (trim src) MAX_PARSE_DEPTH).1 0 (Nat.zero_le _)
    rw [hr]
    cases r with
    | error e => exact ⟨_, rfl, fun _ h => by cases h⟩
    | ok found =>
      obtain ⟨expr, pos⟩ := found
      obtain ⟨hpos, t, es, htext, hderives, hexpr⟩ := hok expr pos rfl
      dsimp only
      split
      · rename_i hne
        have hlt := Nat.lt_of_le_of_ne (skipWs_le hpos) hne
        rw [List.getElem?_eq_getElem hlt]
        exact ⟨_, rfl, fun _ h => by cases h⟩
      · rename_i heq
        obtain ⟨w, hw, hskip⟩ := exists_blank_skip ((trim src).drop pos)
        rw [← drop_skipWs, not_ne_iff.mp heq, List.drop_length, List.append_nil] at hskip
        refine ⟨_, rfl, fun e he => ?_⟩
        cases he
        refine ⟨es, ?_, hexpr⟩
        have hall := hderives.chain_append (.done hw)
        rwa [← hskip, ← htext, List.drop_zero, List.append_nil] at hall

theorem Spells.parsed {src : List Char} (h : Spells src e) :
    parseGobuildExpr src = some (.error .depthExceeded) ∨ parseGobuildExpr src = some (.ok e) := by
  obtain ⟨es, hderives, rfl⟩ := h
  obtain ⟨c, s, hstarts⟩ := hderives.starts fun _ h => by cases h
  have hne : (trim src).isEmpty = false := by
    cases htrim : trim src with
    | nil => simpa [htrim, skip] using hstarts []
    | cons => rfl
  have hread : Reads (trim src) (parseOr (trim src) MAX_PARSE_DEPTH 0) (collapse .any es) [] :=
    parse_complete hderives MAX_PARSE_DEPTH 0 [] (by rw [List.append_nil, List.drop_zero])
      (fun op hop => by cases op <;> exact absurd hop (by decide)) fun c hc => by cases hc
  simp only [parseGobuildExpr, hne]
  cases hread with
  | inl hdeep => exact .inl (by rw [hdeep]; rfl)
  | inr hok =>
    obtain ⟨pos, hok, hpos⟩ := hok
    obtain ⟨r, hr, hsound⟩ := (parse_sound (trim src) MAX_PARSE_DEPTH).1 0 (Nat.zero_le _)
    rw [hok] at hr
    cases hr
    rw [← drop_skipWs] at hpos
    have hend : skipWs (trim src) pos = (trim src).length :=
      Nat.le_antisymm (skipWs_le (hsound _ pos rfl).1) (List.drop_eq_nil_iff.mp hpos)
    exact .inr (by simp [hok, hend])

theorem WellBuilt.reparses (h : WellBuilt e) :
    parseGobuildExpr (toConditionString e) = some (.error .depthExceeded) ∨
      ∃ e', parseGobuildExpr (toConditionString e) = some (.ok e') ∧
        (∀ tags, holds tags e' = holds tags e) ∧ toConditionString e' = toConditionString e := by
  obtain ⟨es, hspelled⟩ := h.spelled.1 .or
  have hspells : Spells (toConditionString e) (collapse .any es) :=
    ⟨es, (h.solid 0).trim_eq.symm ▸ hspelled.derives, rfl⟩
  refine hspells.parsed.imp id fun hok => ⟨_, hok, fun tags => ?_, ?_⟩
  · exact (@holds_collapse .or tags es).trans (hspelled.holds_eq tags)
  · exact (@writeCanonical_collapse .or es).trans hspelled.text

end Reparse

section Refused
variable {bytes s : List Char} {pos : Nat}

theorem trim_keeps {a : List Char} {c d : Char} (hfirst : (a ++ [d]).head? = some c)
    (hc : isWhitespace c = false) (hd : isWhitespace d = false) :
    ∃ s', trim (a ++ d :: s) = a ++ d :: s' := by
  have hdrop : (a ++ d :: s).dropWhile isWhitespace = a ++ d :: s := by
    cases a with
    | nil => simp [hd]
    | cons c' a =>
      cases hfirst
      simp [hc]
  have hrest : (d :: a.reverse).dropWhile isWhitespace = d :: a.reverse := by simp [hd]
  rw [trim, hdrop, List.reverse_append, List.reverse_cons, List.append_assoc, List.dropWhile_append,
    List.singleton_append, hrest]
  split
  · exact ⟨[], by simp⟩
  · exact ⟨(s.reverse.dropWhile isWhitespace).reverse, by simp⟩

theorem parseUnary_digit {left : Nat} (h : bytes.drop pos = '3' :: s) :
    parseUnary bytes (left + 1) pos = some (.error (.unexpectedChar '3')) := by
  have hdrop : bytes.drop (skipWs bytes pos) = '3' :: s := by rw [drop_skipWs, h, skip_cons rfl]
  have hdrop' : bytes.drop (skipWs bytes (skipWs bytes pos)) = '3' :: s := by
    rw [drop_skipWs, hdrop, skip_cons rfl]
  rw [parseUnary]
  simp only [getElem?_of_drop hdrop, parsePrimary, getElem?_of_drop hdrop']
  rfl

theorem parseAnd_digit {a : List Char} {left : Nat}
    (ha : a = [] ∨ ∃ goos, IsIdent goos ∧ a = goos ++ [' ', '&', '&', ' '])
    (h : bytes = a ++ '3' :: s) :
    parseAnd bytes (left + 2) 0 = some (.error (.unexpectedChar '3')) := by
  rw [parseAnd, parseChain]
  rcases ha with rfl | ⟨goos, hgoos, rfl⟩
  · rw [@parseUnary_digit bytes s 0 left h]
  · have htext : bytes = goos ++ ' ' :: '&' :: '&' :: ' ' :: '3' :: s := by simp [h]
    obtain ⟨c, cs, hcons, hstart, -⟩ := id hgoos
    have hskip : skip bytes = bytes := by
      rw [htext, hcons, List.cons_append, skip_cons (isBlank_of_start hstart)]
    have hdrop : bytes.drop (skipWs bytes 0) = bytes := by rw [drop_skipWs]; exact hskip
    have hbang : bytes[skipWs bytes 0]? ≠ some '!' := by
      rw [hcons, List.cons_append] at htext
      rw [getElem?_of_drop (hdrop.trans htext)]
      intro hc
      cases hc
      cases hstart
    obtain ⟨after, hparse, hafter⟩ := @parsePrimary_ident bytes (parseOr bytes left)
      (skipWs bytes 0) goos _ hgoos (by rw [hdrop, hskip]; exact htext) fun d hd => by
        cases hd
        rfl
    have hops : bytes.drop (skipWs bytes after) = '&' :: '&' :: ' ' :: '3' :: s := by
      rw [drop_skipWs, hafter]
      rfl
    have hdigit : bytes.drop (skipWs bytes (skipWs bytes after + 2)) = '3' :: s := by
      rw [drop_skipWs, drop_succ (drop_succ hops)]
      rfl
    have hmore := Nat.not_le.mpr (lt_of_drop hdigit)
    rw [parseUnary]
    simp only [if_neg hbang, hparse, chainLoop, if_pos (peek2_iff.mpr ⟨_, hops⟩), ge_iff_le,
      if_neg hmore, parseUnary_digit hdigit]

theorem parseGobuildExpr_digit {text a : List Char}
    (ha : a = [] ∨ ∃ goos, IsIdent goos ∧ a = goos ++ [' ', '&', '&', ' '])
    (h : trim text = a ++ '3' :: s) :
    parseGobuildExpr text = some (.error (.unexpectedChar '3')) := by
  have hne : (trim text).isEmpty = false := by
    rw [h]
    cases a <;> rfl
  rw [parseGobuildExpr]
  simp only [hne, MAX_PARSE_DEPTH, parseOr, parseChain, parseAnd_digit ha h]
  rfl

end Refused

end BuildConstraint
end Sqry
