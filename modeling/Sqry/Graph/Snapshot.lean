import Mathlib.Data.List.Infix
import Sqry.Graph.Node

/-!
Names across languages: the form the graph keeps them in, the form a language shows, and
comparison by segments.
-/

namespace Sqry

def textContains (text pattern : String) : Bool := decide (pattern.toList <:+: text.toList)

def textStartsWith (text start : String) : Bool := start.toList.isPrefixOf text.toList

/-- What is left to do of `text.replace(pattern, by)`, after `skip` more characters of the
last occurrence found. -/
def replaceFrom (pattern replacement : List Char) : Nat → List Char → List Char
  | _, [] => []
  | skip + 1, _ :: text => replaceFrom pattern replacement skip text
  | 0, c :: text =>
    if pattern.isPrefixOf (c :: text) then
      replacement ++ replaceFrom pattern replacement (pattern.length - 1) text
    else c :: replaceFrom pattern replacement 0 text

def textReplace (text pattern replacement : String) : String :=
  String.ofList (replaceFrom pattern.toList replacement.toList 0 text.toList)

/-- What is left to do of `text.split(separator)`, after `skip` more characters of the separator
found last. -/
def splitFrom (separator : List Char) : Nat → List Char → List (List Char)
  | _, [] => [[]]
  | skip + 1, _ :: text => splitFrom separator skip text
  | 0, c :: text =>
    if separator.isPrefixOf (c :: text) then [] :: splitFrom separator (separator.length - 1) text
    else
      match splitFrom separator 0 text with
      | segment :: segments => (c :: segment) :: segments
      | [] => [[c]]

def rsplitOnceChars (separator : List Char) : List Char → Option (List Char × List Char)
  | [] => none
  | c :: text =>
    match rsplitOnceChars separator text with
    | some (before, after) => some (c :: before, after)
    | none =>
      if separator.isPrefixOf (c :: text) then some ([], (c :: text).drop separator.length)
      else none

/-- `text.rsplit_once(separator)`, the split at the last occurrence. -/
def rsplitOnce (text separator : String) : Option (String × String) :=
  (rsplitOnceChars separator.toList text.toList).map fun split =>
    (String.ofList split.1, String.ofList split.2)

inductive Language where
  | c | cpp | cSharp | css | javaScript | python | typeScript | rust | go | java | ruby | php
  | swift | kotlin | scala | sql | dart | lua | perl | shell | groovy | elixir | r | haskell
  | html | svelte | vue | zig | terraform | puppet | pulumi | http | plsql | apex | abap
  | serviceNow | json
  deriving DecidableEq, Repr

namespace Language

def nativeDelimiters : Language → List String
  | ruby => ["#", "."]
  | php => ["\\", "->"]
  | c | cpp | rust | shell => []
  | _ => ["."]

def nativeDisplaySeparator : Language → Option String
  | c | cpp | rust | shell | php | ruby => none
  | _ => some "."

end Language

section Canonical

def shouldSkipQualifiedNameNormalization (symbol : String) : Bool :=
  textStartsWith symbol "<" || textContains symbol "/" || textStartsWith symbol "wasm::" ||
    textStartsWith symbol "ffi::" || textStartsWith symbol "extern::" ||
    textStartsWith symbol "native::"

def canonicalizeRQualifiedName (symbol : String) : String :=
  let (lead, searched) :=
    match symbol.toList with
    | '.' :: rest => (['.'], rest)
    | chars => ([], chars)
  match rsplitOnceChars ['.'] searched with
  | none => symbol
  | some (before, suffix) =>
    if suffix.isEmpty then symbol
    else String.ofList (lead ++ before ++ [':', ':'] ++ suffix)

def canonicalizeGraphQualifiedName (language : Language) (symbol : String) : String :=
  if shouldSkipQualifiedNameNormalization symbol then symbol
  else if language = .r then canonicalizeRQualifiedName symbol
  else
    language.nativeDelimiters.foldl
      (fun normalized delimiter =>
        if textContains normalized delimiter then textReplace normalized delimiter "::"
        else normalized)
      symbol

def replaceLastSeparator (qualified finalSeparator : String) (preservePrefix : Bool) : String :=
  match rsplitOnce qualified "::" with
  | none => qualified
  | some (before, suffix) =>
    let displayPrefix := if preservePrefix then textReplace before "::" "\\" else before
    if displayPrefix.isEmpty then suffix else displayPrefix ++ finalSeparator ++ suffix

def shouldDisplayRubyMemberVariable (qualified : String) : Bool :=
  match rsplitOnce qualified "::" with
  | none => false
  | some (_, suffix) =>
    match suffix.toList with
    | '@' :: '@' :: _ => false
    | '@' :: _ => true
    | c :: _ => !c.isUpper && (c.isLower || c = '_')
    | [] => false

def displayRubyQualifiedName (qualified : String) (kind : NodeKind) (isStatic : Bool) : String :=
  if textContains qualified "#" || textContains qualified "." || !textContains qualified "::" then
    qualified
  else
    match kind with
    | .method => replaceLastSeparator qualified (if isStatic then "." else "#") false
    | .variable =>
      if shouldDisplayRubyMemberVariable qualified then replaceLastSeparator qualified "#" false
      else qualified
    | .property | .constant =>
      if !isStatic && shouldDisplayRubyMemberVariable qualified then
        replaceLastSeparator qualified "#" false
      else qualified
    | _ => qualified

def displayPhpQualifiedName (qualified : String) (kind : NodeKind) : String :=
  if !textContains qualified "::" then qualified
  else if kind = .method ∨ kind = .property then replaceLastSeparator qualified "::" true
  else textReplace qualified "::" "\\"

def displayGraphQualifiedName (language : Language) (qualified : String) (kind : NodeKind)
    (isStatic : Bool) : String :=
  if shouldSkipQualifiedNameNormalization qualified then qualified
  else
    match language with
    | .ruby => displayRubyQualifiedName qualified kind isStatic
    | .php => displayPhpQualifiedName qualified kind
    | _ =>
      match language.nativeDisplaySeparator with
      | none => qualified
      | some separator => textReplace qualified "::" separator

end Canonical

section Segments

def isSeparator (c : Char) : Bool :=
  c = '.' || c = ':' || c = '#' || c = '$' || c = '/' || c = '\\'

def containsSeparator (value : String) : Bool := value.toList.any isSeparator

def suffixMatch (long short : String) : Bool :=
  if long.toList.length ≤ short.toList.length then false
  else if !short.toList.isSuffixOf long.toList then false
  else
    match (long.toList.take (long.toList.length - short.toList.length)).getLast? with
    | none => true
    | some c => isSeparator c

def segmentsMatch (a b : String) : Bool :=
  if a = b then true
  else
    match containsSeparator a, containsSeparator b with
    | false, true => suffixMatch b a
    | true, false => suffixMatch a b
    | true, true => suffixMatch a b || suffixMatch b a
    | false, false => false

/-- The separators that `extract_method_name` looks for, in its order. -/
def methodSeparators : List String := ["::", ".", "#", ":", "/"]

def extractMethodName (qualified : String) : Option String :=
  methodSeparators.findSome? fun separator =>
    match rsplitOnce qualified separator with
    | none => none
    | some (_, method) => if method.isEmpty then none else some method

/-- `short` is the last segments of `long`, and `long` has more. -/
def LastSegments (long short : List Char) : Prop :=
  ∃ front c, isSeparator c = true ∧ long = front ++ c :: short

theorem suffixMatch_iff {long short : String} :
    suffixMatch long short = true ↔ LastSegments long.toList short.toList := by
  rw [suffixMatch]
  constructor
  · intro h
    by_cases hlen : long.toList.length ≤ short.toList.length
    · rw [if_pos hlen] at h
      cases h
    · rw [if_neg hlen] at h
      cases hsuffix : short.toList.isSuffixOf long.toList with
      | false =>
        rw [hsuffix] at h
        cases h
      | true =>
        rw [hsuffix] at h
        obtain ⟨front, hfront⟩ := List.isSuffixOf_iff_suffix.mp hsuffix
        rw [← hfront, List.length_append, Nat.add_sub_cancel, List.take_left] at h
        cases hlast : front.getLast? with
        | none =>
          rw [List.getLast?_eq_none_iff.mp hlast] at hfront
          rw [← hfront] at hlen
          exact absurd (Nat.le_refl _) hlen
        | some c =>
          rw [hlast] at h
          obtain ⟨before, hbefore⟩ := List.getLast?_eq_some_iff.mp hlast
          refine ⟨before, c, h, ?_⟩
          rw [← hfront, hbefore, List.append_assoc]
          rfl
  · intro ⟨front, c, hc, hlong⟩
    have hsplit : long.toList = (front ++ [c]) ++ short.toList := by
      rw [hlong, List.append_assoc]
      rfl
    have hlen : ¬ long.toList.length ≤ short.toList.length := by
      rw [hsplit, List.length_append, List.length_append, List.length_singleton]
      omega
    have hsuffix : short.toList.isSuffixOf long.toList = true :=
      List.isSuffixOf_iff_suffix.mpr ⟨front ++ [c], hsplit.symm⟩
    rw [if_neg hlen, hsuffix, hsplit, List.length_append, Nat.add_sub_cancel, List.take_left,
      List.getLast?_concat]
    exact hc

theorem containsSeparator_of_lastSegments {long : String} {short : List Char}
    (h : LastSegments long.toList short) : containsSeparator long = true := by
  obtain ⟨front, c, hc, hlong⟩ := h
  rw [containsSeparator, hlong]
  exact List.any_eq_true.mpr
    ⟨c, List.mem_append_right front List.mem_cons_self, hc⟩

theorem segmentsMatch_iff {a b : String} :
    segmentsMatch a b = true ↔
      a = b ∨ LastSegments a.toList b.toList ∨ LastSegments b.toList a.toList := by
  have hab : suffixMatch a b = true → containsSeparator a = true := fun h =>
    containsSeparator_of_lastSegments (suffixMatch_iff.mp h)
  have hba : suffixMatch b a = true → containsSeparator b = true := fun h =>
    containsSeparator_of_lastSegments (suffixMatch_iff.mp h)
  rw [← suffixMatch_iff, ← suffixMatch_iff, segmentsMatch]
  by_cases heq : a = b
  · simp [heq]
  · rw [if_neg heq]
    cases ha : containsSeparator a with
    | false =>
      cases hb : containsSeparator b with
      | false => simp_all
      | true => simp_all
    | true =>
      cases hb : containsSeparator b with
      | false => simp_all
      | true => simp [heq]

end Segments
end Sqry

/-!
A graph as the readers see it, and the texts under which an entry can be asked for.
-/

namespace Sqry

structure FileEntry where
  language : Option Language
  deriving DecidableEq, Repr

structure FileRegistry where
  entries : List (Option FileEntry)
  deriving DecidableEq, Repr

def FileRegistry.languageForFile (files : FileRegistry) (file : FileId) : Option Language :=
  if file = FileId.INVALID then none
  else
    match files.entries[file]? with
    | some (some entry) => entry.language
    | _ => none

structure GraphSnapshot where
  nodes : NodeArena NodeEntry
  strings : StringInterner
  files : FileRegistry
  edges : BidirectionalEdgeStore

namespace GraphSnapshot
variable (s : GraphSnapshot)

def resolve (id : StringId) : Option String := s.strings.resolve id.index

def pushUniqueQueryText (texts : List String) (candidate : String) : List String :=
  if candidate ∈ texts then texts else texts ++ [candidate]

def entryQueryTexts (entry : NodeEntry) : List String :=
  let texts :=
    match s.resolve entry.name with
    | none => []
    | some name => pushUniqueQueryText [] name
  match entry.qualifiedName.bind s.resolve with
  | none => texts
  | some qualified =>
    let texts := pushUniqueQueryText texts qualified
    match s.files.languageForFile entry.file with
    | none => texts
    | some language =>
      pushUniqueQueryText texts
        (displayGraphQualifiedName language qualified entry.kind entry.isStatic)

def languageAwareSegmentsMatch (file : FileId) (candidate expected : String) : Bool :=
  if segmentsMatch candidate expected then true
  else
    match s.files.languageForFile file with
    | none => false
    | some language =>
      let canonicalExpected := canonicalizeGraphQualifiedName language expected
      canonicalExpected != expected && segmentsMatch candidate canonicalExpected

def importTextMatches (file : FileId) (candidate targetModule : String) : Bool :=
  if textContains candidate targetModule then true
  else
    match s.files.languageForFile file with
    | none => false
    | some language =>
      let canonicalTarget := canonicalizeGraphQualifiedName language targetModule
      canonicalTarget != targetModule && textContains candidate canonicalTarget

def importEntryMatches (entry : NodeEntry) (targetModule : String) : Bool :=
  (s.entryQueryTexts entry).any fun candidate =>
    s.importTextMatches entry.file candidate targetModule

/-- What a reader compares with when asked for `asked` in a file: the text as given and its
canonical form in the language of the file. -/
def askedForms (file : FileId) (asked : String) : List String :=
  match s.files.languageForFile file with
  | none => [asked]
  | some language => [asked, canonicalizeGraphQualifiedName language asked]

variable {s}

theorem languageAwareSegmentsMatch_iff {file : FileId} {candidate expected : String} :
    s.languageAwareSegmentsMatch file candidate expected = true ↔
      ∃ form ∈ s.askedForms file expected, segmentsMatch candidate form = true := by
  rw [languageAwareSegmentsMatch, askedForms]
  cases s.files.languageForFile file with
  | none => simp
  | some language =>
    by_cases hsame : canonicalizeGraphQualifiedName language expected = expected
    · simp [hsame]
    · simp [hsame]

theorem importTextMatches_iff {file : FileId} {candidate targetModule : String} :
    s.importTextMatches file candidate targetModule = true ↔
      ∃ form ∈ s.askedForms file targetModule, form.toList <:+: candidate.toList := by
  rw [importTextMatches, askedForms]
  cases s.files.languageForFile file with
  | none => simp [textContains]
  | some language =>
    by_cases hsame : canonicalizeGraphQualifiedName language targetModule = targetModule
    · simp [hsame, textContains]
    · simp [hsame, textContains]

end GraphSnapshot
end Sqry
