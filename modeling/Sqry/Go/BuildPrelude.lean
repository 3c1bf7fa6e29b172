import Sqry.Go.BuildConstraint

/-!
The prelude of a Go file: its `//go:build` and `// +build` lines, the constraint that its name
makes, and what they come to together. The canonical text of the result is parsed to an expression
of the same meaning and text, as long as every tag is a name to the parser.
-/

namespace Sqry
namespace BuildConstraint

section Plusbuild

def parseIdent (ident : List Char) : Except ParseError NormalisedExpr :=
  if ident.isEmpty then .error .danglingOperator
  else if !ident.head?.any isIdentStart || !ident.all isIdentCont then
    .error (.unexpectedChar (ident.headD ' '))
  else .ok (.flag ident)

def parseAtom (atom : List Char) : Except ParseError NormalisedExpr :=
  match trim atom with
  | '!' :: ident => (parseIdent ident).map .not
  | ident => parseIdent ident

def isAsciiWhitespace (c : Char) : Bool := c ∈ [' ', '\t', '\n', '\r', '\x0C']

/-- The words of a text, the first of which goes on from `word`. -/
def words : List Char → List Char → List (List Char)
  | [], word => if word.isEmpty then [] else [word]
  | c :: s, word =>
    if isAsciiWhitespace c then
      if word.isEmpty then words s [] else word :: words s []
    else words s (word ++ [c])

def splitAsciiWhitespace (s : List Char) : List (List Char) := words s []

def parseTerm (term : List Char) : Except ParseError NormalisedExpr :=
  ((term.splitOn ',').mapM parseAtom).map (collapse .all)

def parsePlusbuildExpr (src : List Char) : Except ParseError NormalisedExpr :=
  let trimmed := trim src
  if trimmed.isEmpty then .error .empty
  else ((splitAsciiWhitespace trimmed).mapM parseTerm).map (collapse .any)

end Plusbuild

section Filename

def KNOWN_GOOS : List String :=
  ["aix", "android", "darwin", "dragonfly", "freebsd", "illumos", "ios", "js", "linux", "netbsd",
    "openbsd", "plan9", "solaris", "wasip1", "windows"]

def KNOWN_GOARCH : List String :=
  ["386", "amd64", "arm", "arm64", "loong64", "mips", "mips64", "mips64le", "mipsle", "ppc64",
    "ppc64le", "riscv64", "s390x", "sparc64", "wasm"]

def isKnownGoos (s : List Char) : Bool := s ∈ KNOWN_GOOS.map String.toList

def isKnownGoarch (s : List Char) : Bool := s ∈ KNOWN_GOARCH.map String.toList

/-- The last component of a path, unless it is `..`. -/
def fileName (path : List Char) : Option (List Char) :=
  match ((path.splitOn '/').filter fun part => part ≠ [] ∧ part ≠ ['.']).getLast? with
  | some ['.', '.'] => none
  | part => part

def stripSuffix (suffix s : List Char) : Option (List Char) :=
  if suffix <:+ s then some (s.take (s.length - suffix.length)) else none

def parseFilenameSuffix (path : List Char) : Option NormalisedExpr :=
  match (fileName path).bind (stripSuffix ['.', 'g', 'o']) with
  | none => none
  | some name =>
    let name := (stripSuffix ['_', 't', 'e', 's', 't'] name).getD name
    let trailing := (name.splitOn '_').tail
    match trailing.getLast?, trailing.dropLast.getLast? with
    | none, _ => none
    | some last, some secondLast =>
      if isKnownGoos secondLast && isKnownGoarch last then
        some (.all [.flag secondLast, .flag last])
      else if isKnownGoos last || isKnownGoarch last then some (.flag last)
      else none
    | some last, none => if isKnownGoos last || isKnownGoarch last then some (.flag last) else none

end Filename

section Prelude

/-- A line ends before `\n` or `\r\n`; nothing comes after the last one. -/
def lines (text : List Char) : List (List Char) :=
  let parts := text.splitOn '\n'
  parts.dropLast.map (fun line => (stripSuffix ['\r'] line).getD line) ++
    parts.getLast?.toList.filter fun line => line ≠ []

def stripPrefix (start s : List Char) : Option (List Char) :=
  if start <+: s then some (s.drop start.length) else none

def directiveBody (directive line : List Char) : Option (List Char) :=
  (stripPrefix directive line).filter fun rest => rest.head?.all isBlank

def gobuildBody (line : List Char) : Option (List Char) :=
  directiveBody ['/', '/', 'g', 'o', ':', 'b', 'u', 'i', 'l', 'd'] line

def plusbuildBody (line : List Char) : Option (List Char) :=
  (directiveBody ['/', '/', ' ', '+', 'b', 'u', 'i', 'l', 'd'] line).or
    (directiveBody ['/', '/', '+', 'b', 'u', 'i', 'l', 'd'] line)

/-- The loop over the lines; `none` is a panic of the parser. -/
def scanLines : List (List Char) → Option NormalisedExpr → List NormalisedExpr →
    Option (Option NormalisedExpr × List NormalisedExpr)
  | [], fromGobuild, plusbuildLines => some (fromGobuild, plusbuildLines)
  | rawLine :: rest, fromGobuild, plusbuildLines =>
    let line := rawLine.dropWhile isBlank
    if line.isEmpty then scanLines rest fromGobuild plusbuildLines
    else if ¬['/', '/'] <+: line then some (fromGobuild, plusbuildLines)
    else
      match gobuildBody line with
      | some body =>
        match parseGobuildExpr body with
        | none => none
        | some (.ok expr) => scanLines rest (fromGobuild.or (some expr)) plusbuildLines
        | some (.error _) => scanLines rest fromGobuild plusbuildLines
      | none =>
        match (plusbuildBody line).map parsePlusbuildExpr with
        | some (.ok expr) => scanLines rest fromGobuild (plusbuildLines ++ [expr])
        | _ => scanLines rest fromGobuild plusbuildLines

def conjuncts : NormalisedExpr → List NormalisedExpr
  | .all items => items
  | other => [other]

def conjoin (terms : List (Option NormalisedExpr)) : Option NormalisedExpr :=
  let collected := (terms.filterMap id).flatMap conjuncts
  match collected with
  | [] => none
  | _ => some (collapse .all collected)

def fromPlusbuild : List NormalisedExpr → Option NormalisedExpr
  | [] => none
  | lines => some (collapse .all lines)

def parseFilePrelude (fileText : ByteArray) (filename : String) (usesCgo : Bool) :
    Option (Option NormalisedExpr) :=
  match String.fromUTF8? fileText with
  | none => some none
  | some text =>
    let text := (stripPrefix ['\uFEFF'] text.toList).getD text.toList
    (scanLines (lines text) none []).map fun found =>
      conjoin [parseFilenameSuffix filename.toList, found.1.or (fromPlusbuild found.2),
        if usesCgo then some (.flag ['c', 'g', 'o']) else none]

end Prelude

section Meaning

def WellFormed (body : List Char) : Prop :=
  (∃ e, Spells body e) ∧ parseGobuildExpr body ≠ some (.error .depthExceeded)

def IsAtom (atom : List Char) : Prop :=
  ∃ ident, IsIdent ident ∧ (atom = ident ∨ atom = '!' :: ident)

def atoms (term : List Char) : List (List Char) := (term.splitOn ',').map trim

def WellFormedPlus (body : List Char) : Prop :=
  trim body ≠ [] ∧ ∀ term ∈ splitAsciiWhitespace (trim body), ∀ atom ∈ atoms term, IsAtom atom

def atomHolds (tags : List Char → Bool) : List Char → Bool
  | '!' :: ident => !tags ident
  | ident => tags ident

def plusHolds (tags : List Char → Bool) (body : List Char) : Bool :=
  (splitAsciiWhitespace (trim body)).any fun term => (atoms term).all (atomHolds tags)

def leadingBlock (lines : List (List Char)) : List (List Char) :=
  (lines.map fun line => line.dropWhile isBlank).takeWhile fun line =>
    line.isEmpty || ['/', '/'].isPrefixOf line

def BlockHolds (block : List (List Char)) (tags : List Char → Bool) : Prop :=
  (∃ before body after e, block.filterMap gobuildBody = before ++ body :: after ∧
    (∀ b ∈ before, ¬WellFormed b) ∧ WellFormed body ∧ Spells body e ∧ holds tags e = true) ∨
  ((∀ body ∈ block.filterMap gobuildBody, ¬WellFormed body) ∧
    ∀ body ∈ block.filterMap plusbuildBody, WellFormedPlus body → plusHolds tags body = true)

structure KeepsMeaning (text : List Char) (filename : String) (usesCgo : Bool)
    (e : NormalisedExpr) : Prop where
  denotes : ∀ tags, holds tags e = true ↔
    (∀ c, parseFilenameSuffix filename.toList = some c → holds tags c = true) ∧
      BlockHolds (leadingBlock (lines ((stripPrefix ['\uFEFF'] text).getD text))) tags ∧
      (usesCgo = true → tags ['c', 'g', 'o'] = true)
  reparses : parseGobuildExpr (toConditionString e) = some (.error .depthExceeded) ∨
    ∃ e', parseGobuildExpr (toConditionString e) = some (.ok e') ∧
      (∀ tags, holds tags e' = holds tags e) ∧ toConditionString e' = toConditionString e

def Names386 (filename : String) : Prop :=
  parseFilenameSuffix filename.toList = some (.flag ['3', '8', '6']) ∨
    ∃ goos, parseFilenameSuffix filename.toList = some (.all [.flag goos, .flag ['3', '8', '6']])

end Meaning


section Recognised

def Takes (r : Except ParseError NormalisedExpr) (ok : Prop)
    (meaning : (List Char → Bool) → Bool) : Prop :=
  match r with
  | .ok e => ok ∧ WellBuilt e ∧ ∀ tags, holds tags e = meaning tags
  | .error _ => ¬ok

theorem isIdent_iff {s : List Char} :
    IsIdent s ↔ s.head?.any isIdentStart = true ∧ s.all isIdentCont = true := by
  cases s with
  | nil =>
    refine iff_of_false ?_ fun h => by cases h.1
    rintro ⟨c, cs, h, -⟩
    cases h
  | cons c cs =>
    rw [List.all_eq_true]
    constructor
    · rintro ⟨c', cs', h, hstart, hcont⟩
      cases h
      exact ⟨hstart, hcont⟩
    · rintro ⟨hstart, hcont⟩
      exact ⟨c, cs, rfl, hstart, hcont⟩

theorem not_isIdent_bang (ident : List Char) : ¬IsIdent ('!' :: ident) := fun h =>
  by cases (isIdent_iff.mp h).1

theorem parseIdent_takes (ident : List Char) :
    Takes (parseIdent ident) (IsIdent ident) fun tags => tags ident := by
  by_cases h : IsIdent ident
  · obtain ⟨hstart, hcont⟩ := isIdent_iff.mp h
    have hne : ident.isEmpty = false := by
      obtain ⟨c, cs, rfl, -⟩ := h
      rfl
    simp only [parseIdent, hne, hstart, hcont]
    exact ⟨h, .flag h, fun _ => rfl⟩
  · rw [parseIdent]
    split
    · exact h
    · split
      · exact h
      · rename_i hok
        simp only [Bool.or_eq_true, Bool.not_eq_true', not_or, Bool.not_eq_false] at hok
        exact absurd (isIdent_iff.mpr hok) h

theorem parseAtom_takes (atom : List Char) :
    Takes (parseAtom atom) (IsAtom (trim atom)) fun tags => atomHolds tags (trim atom) := by
  rw [parseAtom]
  split
  · rename_i ident htrim
    rw [htrim]
    have hatom : IsAtom ('!' :: ident) ↔ IsIdent ident := by
      refine ⟨?_, fun h => ⟨ident, h, .inr rfl⟩⟩
      rintro ⟨ident', h, rfl | heq⟩
      · exact absurd h (not_isIdent_bang ident)
      · cases heq
        exact h
    have htakes := parseIdent_takes ident
    cases hparse : parseIdent ident with
    | error err =>
      rw [hparse] at htakes
      exact fun h => htakes (hatom.mp h)
    | ok e =>
      rw [hparse] at htakes
      exact ⟨hatom.mpr htakes.1, .not htakes.2.1, fun tags => congrArg not (htakes.2.2 tags)⟩
  · rename_i hbang
    have hatom : IsAtom (trim atom) ↔ IsIdent (trim atom) := by
      refine ⟨?_, fun h => ⟨_, h, .inl rfl⟩⟩
      rintro ⟨ident, h, heq | heq⟩
      · exact heq ▸ h
      · exact absurd heq (hbang ident)
    have hholds : ∀ tags, atomHolds tags (trim atom) = tags (trim atom) := fun tags => by
      rw [atomHolds]
      exact hbang
    simp only [hatom, hholds]
    exact parseIdent_takes _

section Sequence
variable {α : Type} {parse : α → Except ParseError NormalisedExpr} {ok : α → Prop}
  {meaning : α → (List Char → Bool) → Bool}

theorem mapM_takes (op : Op) {xs : List α} (h : ∀ x ∈ xs, Takes (parse x) (ok x) (meaning x)) :
    (∃ err, xs.mapM parse = .error err ∧ ¬∀ x ∈ xs, ok x) ∨
      ∃ es, xs.mapM parse = .ok es ∧ (∀ x ∈ xs, ok x) ∧ es.length = xs.length ∧
        (∀ e ∈ es, WellBuilt e) ∧
        ∀ tags, op.combine (holds tags) es = op.combine (fun x => meaning x tags) xs := by
  induction xs with
  | nil =>
    exact .inr ⟨[], rfl, List.forall_mem_nil _, rfl, List.forall_mem_nil _, fun _ => by cases op <;> rfl⟩
  | cons x xs ih =>
    obtain ⟨hx, hxs⟩ := List.forall_mem_cons.mp h
    rw [List.mapM_cons]
    cases hparse : parse x with
    | error err =>
      rw [hparse] at hx
      exact .inl ⟨err, rfl, fun hall => hx (hall x List.mem_cons_self)⟩
    | ok e =>
      rw [hparse] at hx
      obtain ⟨hok, hwell, hmeaning⟩ := hx
      rcases ih hxs with ⟨err, hmap, hnot⟩ | ⟨es, hmap, hall, hlen, hes, hholds⟩
      · rw [hmap]
        exact .inl ⟨err, rfl, fun hall => hnot (List.forall_mem_cons.mp hall).2⟩
      · rw [hmap]
        refine .inr ⟨e :: es, rfl, List.forall_mem_cons.mpr ⟨hok, hall⟩, congrArg (· + 1) hlen,
          List.forall_mem_cons.mpr ⟨hwell, hes⟩, fun tags => ?_⟩
        have hrest := hholds tags
        cases op with
        | and => exact congr (congrArg and (hmeaning tags)) hrest
        | or => exact congr (congrArg or (hmeaning tags)) hrest

theorem takes_collapse (op : Op) {xs : List α} (hne : xs ≠ [])
    (h : ∀ x ∈ xs, Takes (parse x) (ok x) (meaning x)) :
    Takes ((xs.mapM parse).map (collapse op.node)) (∀ x ∈ xs, ok x)
      fun tags => op.combine (fun x => meaning x tags) xs := by
  rcases mapM_takes op h with ⟨err, hmap, hnot⟩ | ⟨es, hmap, hall, hlen, hes, hholds⟩
  · rw [hmap]
    exact hnot
  · rw [hmap]
    refine ⟨hall, wellBuilt_collapse op (fun hnil => hne ?_) hes, fun tags =>
      holds_collapse.trans (hholds tags)⟩
    rw [hnil] at hlen
    exact List.eq_nil_of_length_eq_zero hlen.symm

end Sequence

theorem parseTerm_takes (term : List Char) :
    Takes (parseTerm term) (∀ atom ∈ atoms term, IsAtom atom)
      fun tags => (atoms term).all (atomHolds tags) := by
  simp only [atoms, List.forall_mem_map, List.all_map]
  exact takes_collapse .and (List.splitOn_ne_nil _ _) fun atom _ => parseAtom_takes atom

theorem blank_of_words_nil {s word : List Char} (h : words s word = []) :
    word = [] ∧ ∀ c ∈ s, isAsciiWhitespace c = true := by
  induction s generalizing word with
  | nil =>
    rw [words] at h
    split at h
    · exact ⟨List.isEmpty_iff.mp ‹_›, List.forall_mem_nil _⟩
    · cases h
  | cons c s ih =>
    rw [words] at h
    split at h
    · split at h
      · exact ⟨List.isEmpty_iff.mp ‹_›, List.forall_mem_cons.mpr ⟨‹_›, (ih h).2⟩⟩
      · cases h
    · exact absurd (ih h).1 (List.append_ne_nil_of_right_ne_nil word (List.cons_ne_nil c []))

theorem splitAsciiWhitespace_ne_nil {s : List Char} (hne : trim s ≠ []) :
    splitAsciiWhitespace (trim s) ≠ [] := by
  intro h
  obtain ⟨c, cs, hcons⟩ := List.exists_cons_of_ne_nil hne
  have hspace := (blank_of_words_nil h).2 c (hcons ▸ List.mem_cons_self)
  obtain ⟨rest, hrest⟩ : trim s <+: s.dropWhile isWhitespace :=
    List.rdropWhile_prefix isWhitespace _
  have hfirst := List.head?_dropWhile_not isWhitespace s
  rw [← hrest, hcons] at hfirst
  simp only [isAsciiWhitespace, List.mem_cons, List.not_mem_nil, or_false,
    decide_eq_true_iff] at hspace
  rcases hspace with rfl | rfl | rfl | rfl | rfl <;> cases hfirst

theorem parsePlusbuildExpr_takes (body : List Char) :
    Takes (parsePlusbuildExpr body) (WellFormedPlus body) fun tags => plusHolds tags body := by
  rw [parsePlusbuildExpr]
  split
  · rename_i hempty
    exact fun h => h.1 (List.isEmpty_iff.mp hempty)
  · rename_i hne
    have hne' : trim body ≠ [] := fun h => hne (List.isEmpty_iff.mpr h)
    have htakes := takes_collapse .or (splitAsciiWhitespace_ne_nil hne') fun term _ =>
      parseTerm_takes term
    simp only [WellFormedPlus, ne_eq, hne', not_false_eq_true, true_and]
    exact htakes

end Recognised

section Shallow
variable {bytes : List Char} {n pos : Nat} {op : Op} {operand : Nat → Outcome NormalisedExpr}

/-- What the parentheses and negations of a text can take of the depth together. -/
def nesting (s : List Char) : Nat := 3 * s.count '(' + s.count '!'

def Shallow (bytes : List Char) (n : Nat) (parse : Nat → Outcome NormalisedExpr) : Prop :=
  ∀ pos ≤ bytes.length, nesting (bytes.drop pos) ≤ n → parse pos ≠ some (.error .depthExceeded)

theorem nesting_suffix {s t : List Char} (h : s <:+ t) (hn : nesting t ≤ n) : nesting s ≤ n := by
  have hopen := h.sublist.count_le '('
  have hnot := h.sublist.count_le '!'
  rw [nesting] at hn ⊢
  omega

theorem nesting_skip (k : Nat) (hn : nesting (bytes.drop pos) ≤ n) :
    nesting (bytes.drop (pos + k)) ≤ n :=
  nesting_suffix (List.drop_suffix_drop_left bytes (Nat.le_add_right pos k)) hn

theorem nesting_open (s : List Char) : nesting ('(' :: s) = nesting s + 3 := by
  simp [nesting]
  omega

theorem nesting_not (s : List Char) : nesting ('!' :: s) = nesting s + 1 := by
  simp [nesting]
  omega

theorem chainLoop_shallow
    (hsound : ∀ pos ≤ bytes.length, Sound bytes op.operand pos (operand pos))
    (h : Shallow bytes n operand) {fuel : Nat} {terms : List NormalisedExpr}
    (hn : nesting (bytes.drop pos) ≤ n) :
    chainLoop bytes op.char operand fuel pos terms ≠ some (.error .depthExceeded) := by
  induction fuel generalizing pos terms with
  | zero => simp [chainLoop]
  | succ fuel ih =>
    rw [chainLoop]
    dsimp only
    split
    · split
      · simp
      · rename_i hmore
        have hrest : nesting (bytes.drop (skipWs bytes (skipWs bytes pos + 2))) ≤ n :=
          nesting_skip _ (nesting_skip _ (nesting_skip _ hn))
        have hoperand := h _ (Nat.le_of_not_le hmore) hrest
        obtain ⟨r, hr, hok⟩ := hsound _ (Nat.le_of_not_le hmore)
        rw [hr] at hoperand ⊢
        cases r with
        | error e => simpa using hoperand
        | ok found =>
          obtain ⟨-, t, -, htext, -⟩ := hok found.1 found.2 rfl
          exact ih (nesting_suffix ⟨t, htext.symm⟩ hrest)
    · simp

theorem parseChain_shallow
    (hsound : ∀ pos ≤ bytes.length, Sound bytes op.operand pos (operand pos))
    (h : Shallow bytes n operand) :
    Shallow bytes n (parseChain bytes op.char op.node operand) := by
  intro pos hpos hn
  have hoperand := h pos hpos hn
  obtain ⟨r, hr, hok⟩ := hsound pos hpos
  rw [parseChain]
  rw [hr] at hoperand ⊢
  cases r with
  | error e => simpa using hoperand
  | ok found =>
    obtain ⟨-, t, -, htext, -⟩ := hok found.1 found.2 rfl
    have hloop := @chainLoop_shallow bytes n _ op operand hsound h (bytes.length + 1) [found.1]
      (nesting_suffix ⟨t, htext.symm⟩ hn)
    dsimp only
    split
    · simp
    · rename_i heq
      rw [heq] at hloop
      simpa using hloop
    · simp

theorem parsePrimary_shallow {or : Nat → Outcome NormalisedExpr}
    (hor : ∀ pos ≤ bytes.length, nesting (bytes.drop pos) + 3 ≤ n →
      or pos ≠ some (.error .depthExceeded)) (hn : nesting (bytes.drop pos) ≤ n) :
    parsePrimary bytes or pos ≠ some (.error .depthExceeded) := by
  have hskip : nesting (bytes.drop (skipWs bytes pos)) ≤ n := nesting_skip _ hn
  simp only [parsePrimary]
  cases hc : bytes[skipWs bytes pos]? with
  | none => simp
  | some c =>
    have hdrop := drop_of_getElem? hc
    dsimp only
    split
    · rename_i hopen
      rw [hdrop, hopen, nesting_open] at hskip
      have hinner := hor _ (lt_of_drop hdrop) hskip
      split
      · simp
      · rename_i heq
        rw [heq] at hinner
        simpa using hinner
      · split <;> simp
    · split <;> simp

/-- Parentheses take three levels and a negation takes one. -/
theorem parse_shallow (bytes : List Char) (n : Nat) :
    Shallow bytes n (parseOr bytes (n + 3)) ∧ Shallow bytes n (parseUnary bytes (n + 1)) := by
  induction n using Nat.strongRecOn with
  | ind n ih =>
    have hunary : Shallow bytes n (parseUnary bytes (n + 1)) := by
      intro pos hpos hn
      have hskip : nesting (bytes.drop (skipWs bytes pos)) ≤ n := nesting_skip _ hn
      simp only [parseUnary]
      split
      · rename_i hbang
        have hdrop := drop_of_getElem? hbang
        rw [hdrop, nesting_not] at hskip
        split
        · simp
        · rename_i hmore
          cases n with
          | zero => exact absurd hskip (Nat.not_succ_le_zero _)
          | succ n =>
            have hinner := (ih n (Nat.lt_succ_self n)).2 _ (Nat.le_of_not_le hmore)
              (nesting_skip _ (Nat.le_of_succ_le_succ hskip))
            intro hdeep
            rw [Option.map_eq_some_iff] at hdeep
            obtain ⟨r, hr, hdeep⟩ := hdeep
            cases r with
            | error e =>
              cases hdeep
              exact hinner hr
            | ok found => cases hdeep
      · refine parsePrimary_shallow (fun pos hpos hn => ?_) hskip
        obtain ⟨m, rfl⟩ : ∃ m, n = m + 3 := ⟨n - 3, by omega⟩
        exact (ih m (by omega)).1 pos hpos (Nat.le_of_add_le_add_right hn)
    have hand := @parseChain_shallow bytes n .and _ (parse_sound bytes (n + 1)).2.2 hunary
    exact ⟨@parseChain_shallow bytes n .or _ (parse_sound bytes (n + 2)).2.1 hand, hunary⟩

theorem not_depthExceeded {src : List Char} (h : nesting (trim src) + 3 ≤ MAX_PARSE_DEPTH) :
    parseGobuildExpr src ≠ some (.error .depthExceeded) := by
  obtain ⟨n, hn⟩ := Nat.exists_eq_add_of_le h
  have hshallow := (parse_shallow (trim src) (nesting (trim src) + n)).1 0 (Nat.zero_le _)
    (Nat.le_add_right _ _)
  rw [Nat.add_right_comm, ← hn] at hshallow
  intro hdeep
  simp only [parseGobuildExpr] at hdeep
  split at hdeep
  · cases hdeep
  · split at hdeep
    · cases hdeep
    · rename_i heq
      cases hdeep
      exact hshallow heq
    · split at hdeep
      · rw [Option.map_eq_some_iff] at hdeep
        obtain ⟨c, -, hdeep⟩ := hdeep
        cases hdeep
      · cases hdeep

/-- The parser of the `//go:build` lines takes exactly what its grammar derives, unless parentheses
and negations exceed the depth it allows. -/
theorem parseGobuildExpr_exact (src : List Char)
    (hnesting : nesting (trim src) + 3 ≤ MAX_PARSE_DEPTH) (e : NormalisedExpr) :
    parseGobuildExpr src = some (.ok e) ↔ Spells src e := by
  refine ⟨fun hok => ?_, fun h => h.parsed.resolve_left (not_depthExceeded hnesting)⟩
  obtain ⟨r, hr, hspells⟩ := parseGobuildExpr_sound src
  exact hspells e (Option.some.inj (hr.symm.trans hok))

theorem parseGobuildExpr_exact_twoTags :
    Spells ['!', 'a', ' ', '&', '&', 'b'] (.all [.not (.flag ['a']), .flag ['b']]) :=
  (parseGobuildExpr_exact _ (by decide) _).mp rfl

/-- The parser of the `// +build` lines takes just the well-formed ones, each with its meaning, and
the text that it becomes is a `//go:build` line of that meaning. -/
theorem parsePlusbuildExpr_translates (body : List Char) :
    (WellFormedPlus body ↔ ∃ e, parsePlusbuildExpr body = .ok e) ∧
      ∀ e, parsePlusbuildExpr body = .ok e → (∀ tags, holds tags e = plusHolds tags body) ∧
        (nesting (trim (toConditionString e)) + 3 ≤ MAX_PARSE_DEPTH →
          ∃ e', parseGobuildExpr (toConditionString e) = some (.ok e') ∧
            ∀ tags, holds tags e' = plusHolds tags body) := by
  have htakes := parsePlusbuildExpr_takes body
  cases hparse : parsePlusbuildExpr body with
  | error err =>
    rw [hparse] at htakes
    exact ⟨iff_of_false htakes fun ⟨e, he⟩ => (by cases he), fun e he => by cases he⟩
  | ok e =>
    rw [hparse] at htakes
    obtain ⟨hwell, hbuilt, hholds⟩ := htakes
    refine ⟨iff_of_true hwell ⟨e, rfl⟩, fun e' he => ?_⟩
    cases he
    refine ⟨hholds, fun hnesting => ?_⟩
    obtain ⟨e', hok, hsame, -⟩ := hbuilt.reparses.resolve_left (not_depthExceeded hnesting)
    exact ⟨e', hok, fun tags => (hsame tags).trans (hholds tags)⟩

end Shallow

section Lines

def gobuildOf (body : List Char) : Option NormalisedExpr :=
  (parseGobuildExpr body).bind Except.toOption

def plusbuildOf (body : List Char) : Option NormalisedExpr := (parsePlusbuildExpr body).toOption

variable {body : List Char}

theorem gobuildOf_eq_some {e : NormalisedExpr} :
    gobuildOf body = some e ↔ parseGobuildExpr body = some (.ok e) := by
  obtain ⟨r, hr, -⟩ := parseGobuildExpr_sound body
  rw [gobuildOf, hr]
  cases r <;> simp [Except.toOption]

theorem wellFormed_iff : WellFormed body ↔ ∃ e, gobuildOf body = some e := by
  constructor
  · rintro ⟨⟨e, he⟩, hdepth⟩
    exact ⟨e, gobuildOf_eq_some.mpr (he.parsed.resolve_left hdepth)⟩
  · rintro ⟨e, he⟩
    rw [gobuildOf_eq_some] at he
    obtain ⟨r, hr, hspells⟩ := parseGobuildExpr_sound body
    rw [he] at hr
    cases hr
    refine ⟨⟨e, hspells e rfl⟩, ?_⟩
    rw [he]
    intro h
    cases h

theorem spells_gobuildOf {e : NormalisedExpr} (h : gobuildOf body = some e) :
    Spells body e := by
  obtain ⟨r, hr, hspells⟩ := parseGobuildExpr_sound body
  rw [gobuildOf_eq_some.mp h] at hr
  cases hr
  exact hspells e rfl

theorem directiveBody_prefix {directive line body : List Char}
    (h : directiveBody directive line = some body) : directive <+: line := by
  by_contra hnot
  rw [directiveBody, stripPrefix, if_neg hnot] at h
  cases h

theorem plusbuildBody_of_gobuildBody {line body : List Char} (h : gobuildBody line = some body) :
    plusbuildBody line = none := by
  cases hplus : plusbuildBody line with
  | none => rfl
  | some rest =>
    obtain ⟨s, rfl⟩ := directiveBody_prefix h
    rw [plusbuildBody, Option.or_eq_some_iff] at hplus
    rcases hplus with hplus | ⟨-, hplus⟩ <;>
    · obtain ⟨t, ht⟩ := directiveBody_prefix hplus
      cases ht

theorem scanLines_eq (ls : List (List Char)) (fromGobuild : Option NormalisedExpr)
    (plusbuildLines : List NormalisedExpr) :
    scanLines ls fromGobuild plusbuildLines =
      some (fromGobuild.or (((leadingBlock ls).filterMap gobuildBody).findSome? gobuildOf),
        plusbuildLines ++ ((leadingBlock ls).filterMap plusbuildBody).filterMap plusbuildOf) := by
  induction ls generalizing fromGobuild plusbuildLines with
  | nil => simp [scanLines, leadingBlock]
  | cons rawLine rest ih =>
    rw [scanLines, leadingBlock, List.map_cons, List.takeWhile_cons]
    generalize rawLine.dropWhile isBlank = line
    rw [← leadingBlock]
    split
    · rename_i hempty
      rw [List.isEmpty_iff.mp hempty, ih]
      rfl
    · rename_i hempty
      split
      · rename_i hslash
        have hcond : (line.isEmpty || ['/', '/'].isPrefixOf line) = false := by
          rw [Bool.or_eq_false_iff]
          exact ⟨by simpa using hempty, Bool.eq_false_iff.mpr fun h =>
            hslash (List.isPrefixOf_iff_prefix.mp h)⟩
        rw [hcond]
        simp
      · rename_i hslash
        have hcond : (line.isEmpty || ['/', '/'].isPrefixOf line) = true := by
          rw [Bool.or_eq_true]
          exact .inr (List.isPrefixOf_iff_prefix.mpr (not_not.mp hslash))
        rw [if_pos hcond, List.filterMap_cons, List.filterMap_cons]
        cases hgo : gobuildBody line with
        | some body =>
          obtain ⟨r, hr, -⟩ := parseGobuildExpr_sound body
          rw [plusbuildBody_of_gobuildBody hgo]
          dsimp only
          rw [List.findSome?_cons, gobuildOf, hr]
          cases r with
          | error err => exact ih fromGobuild plusbuildLines
          | ok expr => exact (ih _ _).trans (by rw [Option.or_assoc]; rfl)
        | none =>
          dsimp only
          cases hplus : plusbuildBody line with
          | none => exact ih fromGobuild plusbuildLines
          | some body =>
            rw [Option.map_some]
            dsimp only
            rw [List.filterMap_cons, plusbuildOf]
            cases parsePlusbuildExpr body with
            | error err => exact ih fromGobuild plusbuildLines
            | ok expr => exact (ih _ _).trans (by rw [List.append_assoc]; rfl)

theorem fromPlusbuild_spec {es : List NormalisedExpr} (hes : ∀ e ∈ es, WellBuilt e) :
    (∀ c, fromPlusbuild es = some c → WellBuilt c) ∧
      ∀ tags, (∀ c, fromPlusbuild es = some c → holds tags c = true) ↔
        ∀ e ∈ es, holds tags e = true := by
  cases es with
  | nil =>
    have hnone : ∀ c, ¬fromPlusbuild [] = some c := fun c h => by cases h
    exact ⟨fun c h => absurd h (hnone c), fun tags =>
      iff_of_true (fun c h => absurd h (hnone c)) (List.forall_mem_nil _)⟩
  | cons e es =>
    refine ⟨fun c h => ?_, fun tags => ?_⟩
    · cases h
      exact wellBuilt_collapse .and (List.cons_ne_nil e es) hes
    · rw [← List.all_eq_true]
      have hall := @holds_collapse .and tags (e :: es)
      refine ⟨fun h => hall.symm.trans (h _ rfl), fun h c hc => ?_⟩
      cases hc
      exact hall.trans h

variable (block : List (List Char))

def blockConstraint : Option NormalisedExpr :=
  ((block.filterMap gobuildBody).findSome? gobuildOf).or
    (fromPlusbuild ((block.filterMap plusbuildBody).filterMap plusbuildOf))

theorem wellBuilt_plusbuilds :
    ∀ e ∈ (block.filterMap plusbuildBody).filterMap plusbuildOf, WellBuilt e := by
  intro e he
  obtain ⟨body, -, he⟩ := List.mem_filterMap.mp he
  have htakes := parsePlusbuildExpr_takes body
  rw [plusbuildOf] at he
  cases hparse : parsePlusbuildExpr body with
  | error err =>
    rw [hparse] at he
    cases he
  | ok found =>
    rw [hparse] at he htakes
    cases he
    exact htakes.2.1

theorem wellBuilt_blockConstraint {c : NormalisedExpr} (h : blockConstraint block = some c) :
    WellBuilt c := by
  rw [blockConstraint, Option.or_eq_some_iff] at h
  rcases h with h | ⟨-, h⟩
  · obtain ⟨before, body, after, -, hbody, -⟩ := List.findSome?_eq_some_iff.mp h
    exact (spells_gobuildOf hbody).wellBuilt
  · exact (fromPlusbuild_spec (wellBuilt_plusbuilds block)).1 c h

theorem plusbuilds_hold_iff (tags : List Char → Bool) :
    (∀ e ∈ (block.filterMap plusbuildBody).filterMap plusbuildOf, holds tags e = true) ↔
      ∀ body ∈ block.filterMap plusbuildBody, WellFormedPlus body → plusHolds tags body = true := by
  simp only [List.mem_filterMap (f := plusbuildOf), forall_exists_index, and_imp]
  rw [forall_comm]
  refine forall_congr' fun body => ?_
  rw [forall_comm]
  refine forall_congr' fun _ => ?_
  have htakes := parsePlusbuildExpr_takes body
  rw [plusbuildOf]
  cases hparse : parsePlusbuildExpr body with
  | error err =>
    rw [hparse] at htakes
    exact iff_of_true (fun _ h => by cases h) fun h => absurd h htakes
  | ok found =>
    rw [hparse] at htakes
    obtain ⟨hok, -, hholds⟩ := htakes
    rw [← show holds tags found = plusHolds tags body from hholds tags]
    refine ⟨fun h _ => h found rfl, fun h e he => ?_⟩
    cases he
    exact h hok

theorem blockHolds_iff (tags : List Char → Bool) :
    BlockHolds block tags ↔ ∀ c, blockConstraint block = some c → holds tags c = true := by
  rw [blockConstraint, BlockHolds]
  cases hfind : (block.filterMap gobuildBody).findSome? gobuildOf with
  | none =>
    have hnone : ∀ body ∈ block.filterMap gobuildBody, ¬WellFormed body := fun body hbody h => by
      obtain ⟨e, he⟩ := wellFormed_iff.mp h
      rw [List.findSome?_eq_none_iff.mp hfind body hbody] at he
      cases he
    rw [Option.none_or, (fromPlusbuild_spec (wellBuilt_plusbuilds block)).2, plusbuilds_hold_iff]
    refine ⟨fun h => ?_, fun h => .inr ⟨hnone, h⟩⟩
    rcases h with ⟨before, body, after, e, hsplit, -, hbody, -⟩ | ⟨-, h⟩
    · exact absurd hbody (hnone body (hsplit ▸ by simp))
    · exact h
  | some e =>
    obtain ⟨before, body, after, hsplit, hbody, hbefore⟩ := List.findSome?_eq_some_iff.mp hfind
    have hwell := wellFormed_iff.mpr ⟨e, hbody⟩
    constructor
    · rintro (⟨before', body', after', e', hsplit', hbefore', hbody', hspells, hholds⟩ | ⟨hnone, -⟩)
      · have hbody'' := gobuildOf_eq_some.mpr (hspells.parsed.resolve_left hbody'.2)
        have hfind' : (block.filterMap gobuildBody).findSome? gobuildOf = some e' := by
          refine List.findSome?_eq_some_iff.mpr
            ⟨before', body', after', hsplit', hbody'', fun b hb => ?_⟩
          cases hof : gobuildOf b with
          | none => rfl
          | some other => exact absurd (wellFormed_iff.mpr ⟨other, hof⟩) (hbefore' b hb)
        intro c hc
        cases hc
        rw [hfind] at hfind'
        cases hfind'
        exact hholds
      · exact absurd hwell (hnone body (hsplit ▸ by simp))
    · intro h
      refine .inl ⟨before, body, after, e, hsplit, fun b hb hb' => ?_, hwell,
        spells_gobuildOf hbody, h e rfl⟩
      obtain ⟨other, hother⟩ := wellFormed_iff.mp hb'
      rw [hbefore b hb] at hother
      cases hother

end Lines

section Conjoined
variable {tags : List Char → Bool}

theorem isIdent_goos {s : List Char} (h : isKnownGoos s = true) : IsIdent s := by
  have hall : ∀ s ∈ KNOWN_GOOS.map String.toList,
      s.head?.any isIdentStart = true ∧ s.all isIdentCont = true := by decide
  exact isIdent_iff.mpr (hall s (by simpa [isKnownGoos] using h))

theorem isIdent_goarch {s : List Char} (h : isKnownGoarch s = true) :
    s = ['3', '8', '6'] ∨ IsIdent s := by
  have hall : ∀ s ∈ KNOWN_GOARCH.map String.toList,
      s = ['3', '8', '6'] ∨ s.head?.any isIdentStart = true ∧ s.all isIdentCont = true := by decide
  exact (hall s (by simpa [isKnownGoarch] using h)).imp id isIdent_iff.mpr

theorem parseFilenameSuffix_cases {path : List Char} {c : NormalisedExpr}
    (h : parseFilenameSuffix path = some c) :
    WellBuilt c ∨ c = .flag ['3', '8', '6'] ∨
      ∃ goos, IsIdent goos ∧ c = .all [.flag goos, .flag ['3', '8', '6']] := by
  have hlast : ∀ {last}, (if isKnownGoos last || isKnownGoarch last then some (.flag last)
      else none) = some c → WellBuilt c ∨ c = .flag ['3', '8', '6'] := by
    intro last h
    rw [Option.ite_none_right_eq_some, Bool.or_eq_true] at h
    obtain ⟨hknown, heq⟩ := h
    cases heq
    rcases hknown with hknown | hknown
    · exact .inl (.flag (isIdent_goos hknown))
    · exact (isIdent_goarch hknown).symm.imp .flag (congrArg _)
  rw [parseFilenameSuffix] at h
  split at h
  · cases h
  · dsimp only at h
    split at h
    · cases h
    · split at h
      · rename_i hknown
        rw [Bool.and_eq_true] at hknown
        cases h
        have hgoos := isIdent_goos hknown.1
        rcases isIdent_goarch hknown.2 with rfl | hgoarch
        · exact .inr (.inr ⟨_, hgoos, rfl⟩)
        · exact .inl (@WellBuilt.node .and _ (Nat.le_refl 2) (by simp [WellBuilt.flag, *]))
      · exact (hlast h).imp id .inl
    · exact (hlast h).imp id .inl

theorem holds_conjuncts (e : NormalisedExpr) : (conjuncts e).all (holds tags) = holds tags e := by
  cases e with
  | all items => exact (@holds_node .and tags items).symm
  | flag | not | any => exact Bool.and_true _

variable {terms : List (Option NormalisedExpr)} {e : NormalisedExpr}

theorem WellBuilt.conjuncts (h : WellBuilt e) :
    ∀ x ∈ conjuncts e, WellBuilt x := by
  cases h with
  | flag h => exact List.forall_mem_singleton.mpr (.flag h)
  | not h => exact List.forall_mem_singleton.mpr (.not h)
  | @node op items hlen h =>
    cases op with
    | and => exact h
    | or => exact List.forall_mem_singleton.mpr (@WellBuilt.node .or items hlen h)

theorem conjoin_spec (h : conjoin terms = some e) :
    (terms.filterMap id).flatMap conjuncts ≠ [] ∧
      e = collapse .all ((terms.filterMap id).flatMap conjuncts) := by
  rw [conjoin] at h
  split at h
  · cases h
  · rename_i hne
    cases h
    exact ⟨hne, rfl⟩

theorem holds_conjoin (h : conjoin terms = some e) :
    holds tags e = true ↔ ∀ c, some c ∈ terms → holds tags c = true := by
  rw [(conjoin_spec h).2]
  refine (Bool.eq_iff_iff.mp (@holds_collapse .and tags _)).trans ?_
  simp only [Op.combine, List.all_flatMap, List.all_eq_true, holds_conjuncts, List.mem_filterMap, id,
    exists_eq_right]

theorem wellBuilt_conjoin (h : conjoin terms = some e) (hterms : ∀ c, some c ∈ terms → WellBuilt c)
    : WellBuilt e := by
  obtain ⟨hne, rfl⟩ := conjoin_spec h
  refine wellBuilt_collapse .and hne fun x hx => ?_
  obtain ⟨c, hc, hx⟩ := List.mem_flatMap.mp hx
  exact (hterms c (by simpa using hc)).conjuncts x hx

theorem refused_386 {filename : String} {rest : List (Option NormalisedExpr)}
    (hnames : Names386 filename)
    (h : conjoin (parseFilenameSuffix filename.toList :: rest) = some e) :
    parseGobuildExpr (toConditionString e) = some (.error (.unexpectedChar '3')) := by
  obtain ⟨-, rfl⟩ := conjoin_spec h
  obtain ⟨more, hmore⟩ : ∃ more, ∀ c, ((some c :: rest).filterMap id).flatMap conjuncts =
      conjuncts c ++ more := ⟨_, fun _ => rfl⟩
  have htext : ∃ a s, toConditionString (collapse .all
      (((parseFilenameSuffix filename.toList :: rest).filterMap id).flatMap conjuncts)) =
        a ++ '3' :: s ∧ (a = [] ∨ ∃ goos, IsIdent goos ∧ a = goos ++ [' ', '&', '&', ' ']) := by
    rcases hnames with hname | ⟨goos, hname⟩
    · rw [hname, hmore]
      refine ⟨[], ?_, ?_, .inl rfl⟩
      · exact ['8', '6'] ++ writeItems [' ', '&', '&', ' '] PREC_ALL false more
      · cases more with
        | nil => rfl
        | cons => rfl
    · rw [hname, hmore]
      refine ⟨goos ++ [' ', '&', '&', ' '], ?_, ?_, .inr ⟨goos, ?_, rfl⟩⟩
      · exact ['8', '6'] ++ writeItems [' ', '&', '&', ' '] PREC_ALL false more
      · simp [conjuncts, collapse, toConditionString, writeCanonical, writeItems, parens, PREC_ALL, PREC_FLAG]
      · rcases parseFilenameSuffix_cases hname with hwell | heq | ⟨goos', hgoos, heq⟩
        · have hflag := hwell.conjuncts (.flag goos) List.mem_cons_self
          generalize heq : NormalisedExpr.flag goos = e at hflag
          cases hflag with
          | flag h => exact NormalisedExpr.flag.inj heq ▸ h
          | not => cases heq
          | @node op => cases op <;> cases heq
        · cases heq
        · cases heq
          exact hgoos
  obtain ⟨a, s, htext, ha⟩ := htext
  have hfirst : ∃ c, (a ++ ['3']).head? = some c ∧ isWhitespace c = false := by
    rcases ha with rfl | ⟨goos, hgoos, rfl⟩
    · exact ⟨'3', rfl, by decide⟩
    · obtain ⟨c, cs, rfl, hc⟩ := hgoos.solid.first
      exact ⟨c, rfl, hc⟩
  obtain ⟨c, hc, hspace⟩ := hfirst
  obtain ⟨s', htrim⟩ := trim_keeps hc hspace (show isWhitespace '3' = false by decide)
  exact parseGobuildExpr_digit ha (htext ▸ htrim)

/-- Meaning and text survive unless the name of the file asks for the architecture `386`, which
the lines' parser takes for no identifier. -/
theorem parseFilePrelude_keepsMeaning_iff (fileText : ByteArray) (filename : String)
    (usesCgo : Bool) :
    (∀ src, (parseGobuildExpr src).isSome = true) ∧
      ∃ r, parseFilePrelude fileText filename usesCgo = some r ∧ ∀ e, r = some e →
        ∃ text, String.fromUTF8? fileText = some text ∧
          (KeepsMeaning text.toList filename usesCgo e ↔ ¬Names386 filename) := by
  refine ⟨fun src => ?_, ?_⟩
  · obtain ⟨r, hr, -⟩ := parseGobuildExpr_sound src
    rw [hr]
    rfl
  · rw [parseFilePrelude]
    cases htext : String.fromUTF8? fileText with
    | none => exact ⟨none, rfl, fun _ h => by cases h⟩
    | some text =>
      dsimp only
      rw [scanLines_eq, Option.map_some, Option.none_or, List.nil_append]
      refine ⟨_, rfl, fun e he => ⟨text, rfl, fun hkeeps hnames => ?_, fun hnames => ⟨?_, ?_⟩⟩⟩
      · have hrefused := refused_386 hnames he
        rcases hkeeps.reparses with h | ⟨e', h, -⟩ <;>
        · rw [hrefused] at h
          cases h
      · intro tags
        rw [holds_conjoin he, blockHolds_iff, blockConstraint]
        simp only [List.mem_cons, List.not_mem_nil, or_false, or_imp, forall_and,
          eq_comm (a := some _)]
        refine and_congr_right fun _ => and_congr_right fun _ => ?_
        cases usesCgo <;> simp [holds]
      · refine (wellBuilt_conjoin he fun c hc => ?_).reparses
        simp only [List.mem_cons, List.not_mem_nil, or_false] at hc
        rcases hc with hc | hc | hc
        · rcases parseFilenameSuffix_cases hc.symm with h | rfl | ⟨goos, -, rfl⟩
          · exact h
          · exact absurd (.inl hc.symm) hnames
          · exact absurd (.inr ⟨goos, hc.symm⟩) hnames
        · exact wellBuilt_blockConstraint _ hc.symm
        · split at hc
          · cases hc
            exact .flag (isIdent_iff.mpr ⟨by decide, by decide⟩)
          · cases hc

theorem foo386_loses_meaning :
    parseFilePrelude .empty "foo_386.go" false = some (some (.flag ['3', '8', '6'])) ∧
      ¬KeepsMeaning [] "foo_386.go" false (.flag ['3', '8', '6']) := by
  refine ⟨rfl, fun h => ?_⟩
  rcases h.reparses with h | ⟨e, h, -⟩ <;> cases h

end Conjoined
end BuildConstraint
end Sqry
