import Sqry.Graph.TextReplace

/-!
Canonical names, what a language shows for them, and when the canonical form of what is shown is
the name again.
-/

namespace Sqry

def isCanonicalGraphQualifiedName (language : Language) (symbol : String) : Bool :=
  shouldSkipQualifiedNameNormalization symbol ||
    decide (canonicalizeGraphQualifiedName language symbol = symbol)

def rLead (symbol : List Char) : List Char :=
  match symbol with
  | '.' :: _ => ['.']
  | _ => []

def rSearched (symbol : List Char) : List Char :=
  match symbol with
  | '.' :: rest => rest
  | chars => chars

def LeavesNoDot (language : Language) (symbol : String) : Prop :=
  language = .r → shouldSkipQualifiedNameNormalization symbol = false →
    (rSearched symbol.toList).count '.' ≤ 1 ∨ (rSearched symbol.toList).getLast? = some '.'

def showsLastSeparator (language : Language) (symbol : String) (kind : NodeKind)
    (isStatic : Bool) : Bool :=
  match language, kind with
  | .ruby, .method | .php, .method | .php, .property => true
  | .ruby, .variable => shouldDisplayRubyMemberVariable symbol
  | .ruby, .property | .ruby, .constant => !isStatic && shouldDisplayRubyMemberVariable symbol
  | _, _ => false

def DotShowsParts : List (List Char) → Prop
  | [_] => True
  | [first, last] => first ≠ [] ∧ last ≠ [] ∧ last.getLast? ≠ some '.'
  | _ => False

def ShowsSeparators (language : Language) (symbol : String) (kind : NodeKind) (isStatic : Bool) :
    Prop :=
  shouldSkipQualifiedNameNormalization symbol = false →
    (language = .r → DotShowsParts (splitFrom [':', ':'] 0 symbol.toList)) ∧
      (showsLastSeparator language symbol kind isStatic = true →
        ∀ suffix, rsplitOnce symbol "::" ≠ some ("", suffix))

section Skip

def reservedPrefixes : List (List Char) :=
  ["wasm".toList, "ffi".toList, "extern".toList, "native".toList]

def Skipped (symbol : List Char) : Prop :=
  symbol.head? = some '<' ∨ '/' ∈ symbol ∨
    ∃ word ∈ reservedPrefixes, word ++ [':', ':'] <+: symbol

theorem reserved_chars : ∀ word ∈ reservedPrefixes, word ≠ [] ∧ ∀ c ∈ word,
    c ≠ ':' ∧ c ≠ '.' ∧ c ≠ '#' ∧ c ≠ '\\' := by
  simp [reservedPrefixes]

theorem textStartsWith_iff {text start : String} :
    textStartsWith text start = true ↔ start.toList <+: text.toList :=
  List.isPrefixOf_iff_prefix

theorem shouldSkip_iff {symbol : String} :
    shouldSkipQualifiedNameNormalization symbol = true ↔ Skipped symbol.toList := by
  have hslash : textContains symbol "/" = true ↔ '/' ∈ symbol.toList := by
    rw [textContains, decide_eq_true_eq]
    exact singleton_infix_iff
  have hangle : textStartsWith symbol "<" = true ↔ symbol.toList.head? = some '<' := by
    rw [textStartsWith_iff]
    cases symbol.toList with
    | nil => simp
    | cons c text => simp [List.cons_prefix_cons, eq_comm]
  rw [shouldSkipQualifiedNameNormalization, Skipped]
  simp only [Bool.or_eq_true, hslash, hangle, textStartsWith_iff, or_assoc]
  simp [reservedPrefixes]

theorem shouldSkip_eq_false_iff {symbol : String} :
    shouldSkipQualifiedNameNormalization symbol = false ↔ ¬ Skipped symbol.toList := by
  rw [← shouldSkip_iff, Bool.not_eq_true]

theorem not_skipped_replaceFrom {c : Char} (hangle : c ≠ '<') (hslash : c ≠ '/') (hcolon : c ≠ ':')
    {text : List Char} (h : ¬ Skipped text) :
    ¬ Skipped (replaceFrom [':', ':'] [c] 0 text) := by
  intro hskip
  rcases hskip with hhead | hmem | ⟨word, hword, hprefix⟩
  · cases @head?_replaceFrom_pair ':' ':' [c] text with
    | inl hsame => exact h (.inl (hsame.symm.trans hhead))
    | inr hreplaced =>
      rw [hreplaced.2] at hhead
      exact hangle (Option.some.inj hhead)
  · cases mem_of_mem_replaceFrom_pair hmem with
    | inl hnew => exact hslash (List.mem_singleton.mp hnew).symm
    | inr hold => exact h (.inr (.inl hold))
  · have hnone : ∀ x ∈ [c], x ≠ ':' ∧ x ≠ ':' := by
      intro x hx
      rw [List.mem_singleton.mp hx]
      exact ⟨hcolon, hcolon⟩
    exact not_infix_replaceFrom_pair (List.cons_ne_nil c []) hnone text
      ((List.infix_append word [':', ':'] []).trans ((List.append_nil _).symm ▸ hprefix.isInfix))

end Skip

section Canonical
variable {language : Language} {symbol : String}

theorem canonicalize_of_skip (h : shouldSkipQualifiedNameNormalization symbol = true) :
    canonicalizeGraphQualifiedName language symbol = symbol := by
  rw [canonicalizeGraphQualifiedName, if_pos h]

theorem isCanonical_iff : isCanonicalGraphQualifiedName language symbol = true ↔
    canonicalizeGraphQualifiedName language symbol = symbol := by
  rw [isCanonicalGraphQualifiedName, Bool.or_eq_true, decide_eq_true_eq]
  exact ⟨fun h => h.elim canonicalize_of_skip id, .inr⟩

def replaceDelimiters (delimiters : List String) (text : List Char) : List Char :=
  delimiters.foldl (fun text delimiter => replaceFrom delimiter.toList [':', ':'] 0 text) text

theorem toList_foldl_replace (delimiters : List String) (symbol : String) :
    (delimiters.foldl (fun normalized delimiter =>
      if textContains normalized delimiter then textReplace normalized delimiter "::"
      else normalized) symbol).toList = replaceDelimiters delimiters symbol.toList := by
  induction delimiters generalizing symbol with
  | nil => rfl
  | cons delimiter delimiters ih =>
    have hstep : (if textContains symbol delimiter then textReplace symbol delimiter "::"
        else symbol).toList = replaceFrom delimiter.toList [':', ':'] 0 symbol.toList := by
      by_cases hin : textContains symbol delimiter = true
      · rw [if_pos hin, textReplace, String.toList_ofList]
        rfl
      · rw [if_neg hin, replaceFrom_of_not_infix]
        simpa [textContains] using hin
    rw [List.foldl_cons, ih, hstep]
    rfl

theorem toList_canonicalize (h : shouldSkipQualifiedNameNormalization symbol = false)
    (hlanguage : language ≠ .r) :
    (canonicalizeGraphQualifiedName language symbol).toList =
      replaceDelimiters language.nativeDelimiters symbol.toList := by
  rw [canonicalizeGraphQualifiedName, h, if_neg Bool.false_ne_true, if_neg hlanguage]
  exact toList_foldl_replace _ symbol

theorem delimiters_cases (hruby : language ≠ .ruby) (hphp : language ≠ .php) :
    (language.nativeDelimiters = [] ∧ language.nativeDisplaySeparator = none) ∨
      (language.nativeDelimiters = ["."] ∧ language.nativeDisplaySeparator = some ".") := by
  cases language with
  | ruby => exact absurd rfl hruby
  | php => exact absurd rfl hphp
  | c | cpp | rust | shell => exact .inl ⟨rfl, rfl⟩
  | _ => exact .inr ⟨rfl, rfl⟩

def Free (delimiters : List String) (text : List Char) : Prop :=
  ∀ delimiter ∈ delimiters, ¬ delimiter.toList <:+: text

theorem replaceDelimiters_of_free {delimiters : List String} {text : List Char}
    (h : Free delimiters text) : replaceDelimiters delimiters text = text := by
  induction delimiters with
  | nil => rfl
  | cons delimiter delimiters ih =>
    rw [replaceDelimiters, List.foldl_cons,
      replaceFrom_of_not_infix (h delimiter List.mem_cons_self)]
    exact ih fun d hd => h d (List.mem_cons_of_mem delimiter hd)

theorem not_dot_mem_replace (text : List Char) :
    '.' ∉ replaceFrom ['.'] [':', ':'] 0 text :=
  not_mem_replaceFrom_one (by decide) text

theorem not_mem_replaceFrom {c d : Char} (hcolon : d ≠ ':') {text : List Char} (h : d ∉ text) :
    d ∉ replaceFrom [c] [':', ':'] 0 text := by
  rw [replaceFrom_one, List.mem_flatMap]
  intro hmem
  obtain ⟨x, hx, hd⟩ := hmem
  by_cases heq : x = c
  · rw [if_pos heq] at hd
    exact hcolon (by simpa using hd)
  · rw [if_neg heq, List.mem_singleton] at hd
    exact h (hd ▸ hx)

theorem free_replaceDelimiters (language : Language) (text : List Char) :
    Free language.nativeDelimiters (replaceDelimiters language.nativeDelimiters text) := by
  by_cases hruby : language = .ruby
  · rw [hruby]
    intro delimiter hdelimiter hinfix
    have hhash : '#' ∉ replaceFrom ['#'] [':', ':'] 0 text :=
      not_mem_replaceFrom_one (by decide) text
    simp only [Language.nativeDelimiters, List.mem_cons, List.not_mem_nil, or_false] at hdelimiter
    cases hdelimiter with
    | inl heq =>
      rw [heq] at hinfix
      exact not_mem_replaceFrom (by decide) hhash (singleton_infix_iff.mp hinfix)
    | inr heq =>
      rw [heq] at hinfix
      exact not_dot_mem_replace _ (singleton_infix_iff.mp hinfix)
  · by_cases hphp : language = .php
    · rw [hphp]
      intro delimiter hdelimiter hinfix
      have hslash : '\\' ∉ replaceFrom ['\\'] [':', ':'] 0 text :=
        not_mem_replaceFrom_one (by decide) text
      simp only [Language.nativeDelimiters, List.mem_cons, List.not_mem_nil, or_false] at hdelimiter
      cases hdelimiter with
      | inl heq =>
        rw [heq] at hinfix
        cases mem_of_mem_replaceFrom_pair (singleton_infix_iff.mp hinfix) with
        | inl hnew => exact absurd hnew (by decide)
        | inr hold => exact hslash hold
      | inr heq =>
        rw [heq] at hinfix
        have hnone : ∀ x ∈ [':', ':'], x ≠ '-' ∧ x ≠ '>' := by simp
        exact not_infix_replaceFrom_pair (List.cons_ne_nil _ _) hnone _ hinfix
    · cases delimiters_cases hruby hphp with
      | inl hnone =>
        rw [hnone.1]
        intro delimiter hdelimiter
        cases hdelimiter
      | inr hdot =>
        rw [hdot.1]
        intro delimiter hdelimiter hinfix
        rw [List.mem_singleton.mp hdelimiter] at hinfix
        exact not_dot_mem_replace _ (singleton_infix_iff.mp hinfix)

theorem canonicalize_eq_iff_free (h : shouldSkipQualifiedNameNormalization symbol = false)
    (hlanguage : language ≠ .r) : canonicalizeGraphQualifiedName language symbol = symbol ↔
      Free language.nativeDelimiters symbol.toList := by
  rw [← String.toList_inj, toList_canonicalize h hlanguage]
  constructor
  · intro heq
    rw [← heq]
    exact free_replaceDelimiters language symbol.toList
  · exact replaceDelimiters_of_free

theorem canonicalize_canonicalize (hlanguage : language ≠ .r) (symbol : String) :
    canonicalizeGraphQualifiedName language (canonicalizeGraphQualifiedName language symbol) =
      canonicalizeGraphQualifiedName language symbol := by
  cases hskip : shouldSkipQualifiedNameNormalization symbol with
  | true =>
    have heq : canonicalizeGraphQualifiedName language symbol = symbol :=
      canonicalize_of_skip hskip
    rw [heq, heq]
  | false =>
    cases hskip' : shouldSkipQualifiedNameNormalization
        (canonicalizeGraphQualifiedName language symbol) with
    | true => exact canonicalize_of_skip hskip'
    | false =>
      rw [canonicalize_eq_iff_free hskip' hlanguage, toList_canonicalize hskip hlanguage]
      exact free_replaceDelimiters language symbol.toList

end Canonical

end Sqry
