import Sqry.Graph.DisplayNames

/-!
The names of R, of which only the last dot separates, and the round trip through what is shown for
all languages.
-/

namespace Sqry

section R
variable {symbol : String}

theorem rLead_append_rSearched (text : List Char) : rLead text ++ rSearched text = text := by
  rw [rLead.eq_def, rSearched.eq_def]
  split
  · rfl
  · rfl

def LeadsTo (lead body : List Char) : Prop := lead = ['.'] ∨ lead = [] ∧ body.head? ≠ some '.'

theorem leadsTo_rLead (text : List Char) : LeadsTo (rLead text) (rSearched text) := by
  cases text with
  | nil => exact .inr ⟨rfl, by simp [rSearched]⟩
  | cons c text =>
    by_cases hc : c = '.'
    · rw [hc]
      exact .inl rfl
    · refine .inr ⟨?_, ?_⟩
      · rw [rLead.eq_def]
        split
        · rename_i heq
          exact absurd (List.cons.inj heq).1 hc
        · rfl
      · rw [rSearched.eq_def]
        split
        · rename_i heq
          exact absurd (List.cons.inj heq).1 hc
        · simpa using hc

theorem LeadsTo.split {lead body : List Char} (h : LeadsTo lead body) :
    rLead (lead ++ body) = lead ∧ rSearched (lead ++ body) = body := by
  cases h with
  | inl hdot =>
    rw [hdot]
    exact ⟨rfl, rfl⟩
  | inr hnone =>
    rw [hnone.1, List.nil_append]
    cases leadsTo_rLead body with
    | inl hlead =>
      have hbody := rLead_append_rSearched body
      rw [hlead] at hbody
      rw [← hbody] at hnone
      exact absurd rfl hnone.2
    | inr hlead =>
      have hbody := rLead_append_rSearched body
      rw [hlead.1, List.nil_append] at hbody
      exact ⟨hlead.1, hbody⟩

def KeepsDots (body : List Char) : Prop := '.' ∉ body ∨ body.getLast? = some '.'

theorem canonicalizeR_eq (symbol : String) : canonicalizeRQualifiedName symbol =
    match rsplitOnceChars ['.'] (rSearched symbol.toList) with
    | none => symbol
    | some (before, suffix) =>
      if suffix.isEmpty then symbol
      else String.ofList (rLead symbol.toList ++ before ++ [':', ':'] ++ suffix) := by
  rw [canonicalizeRQualifiedName, rLead.eq_def, rSearched.eq_def]
  cases symbol.toList with
  | nil => rfl
  | cons c text =>
    by_cases hc : c = '.'
    · rw [hc]
      rfl
    · have hne : ∀ rest, c :: text ≠ '.' :: rest := fun rest heq => hc (List.cons.inj heq).1
      simp only <;> rfl

theorem canonicalizeR_cases (symbol : String) :
    (KeepsDots (rSearched symbol.toList) ∧ canonicalizeRQualifiedName symbol = symbol) ∨
      ∃ before after, rSearched symbol.toList = before ++ '.' :: after ∧ '.' ∉ after ∧
        after ≠ [] ∧ (canonicalizeRQualifiedName symbol).toList =
          rLead symbol.toList ++ (before ++ [':', ':'] ++ after) := by
  rw [canonicalizeR_eq]
  cases hsplit : rsplitOnceChars ['.'] (rSearched symbol.toList) with
  | none => exact .inl ⟨.inl (rsplitOnceChars_one_eq_none.mp hsplit), rfl⟩
  | some split =>
    obtain ⟨before, after⟩ := split
    have htext : rSearched symbol.toList = before ++ '.' :: after := by
      rw [eq_append_of_rsplitOnceChars hsplit, List.append_assoc]
      rfl
    cases after with
    | nil =>
      refine .inl ⟨.inr ?_, rfl⟩
      rw [htext, List.getLast?_concat]
    | cons c after =>
      refine .inr ⟨before, c :: after, htext, not_mem_of_rsplitOnceChars_one hsplit,
        List.cons_ne_nil c after, ?_⟩
      simp

theorem getLast?_append_of_ne_nil {front last : List Char} (h : last ≠ []) :
    (front ++ last).getLast? = last.getLast? := by
  rw [List.getLast?_append]
  cases hlast : last.getLast? with
  | none => exact absurd (List.getLast?_eq_none_iff.mp hlast) h
  | some c => rfl

theorem not_getLast?_of_not_mem {text : List Char} (h : '.' ∉ text) :
    text.getLast? ≠ some '.' := fun hlast => h (List.mem_of_getLast? hlast)

theorem canonicalizeR_eq_iff : canonicalizeRQualifiedName symbol = symbol ↔
    KeepsDots (rSearched symbol.toList) := by
  cases canonicalizeR_cases symbol with
  | inl hkeeps => exact iff_of_true hkeeps.2 hkeeps.1
  | inr hreplaced =>
    obtain ⟨before, after, hbody, hafter, hne, hresult⟩ := hreplaced
    refine iff_of_false (fun heq => ?_) fun hkeeps => ?_
    · have hlength := congrArg List.length hresult
      rw [heq, ← rLead_append_rSearched symbol.toList, hbody] at hlength
      simp only [List.length_append, List.length_cons, List.length_nil] at hlength
      have hlead : (rLead (rLead symbol.toList ++ (before ++ '.' :: after))).length =
          (rLead symbol.toList).length := by
        rw [← hbody, rLead_append_rSearched]
      omega
    · rw [hbody] at hkeeps
      cases hkeeps with
      | inl hnone => exact hnone (List.mem_append_right before List.mem_cons_self)
      | inr hlast =>
        have hsplit : before ++ '.' :: after = (before ++ ['.']) ++ after := by simp
        rw [hsplit, getLast?_append_of_ne_nil hne] at hlast
        exact not_getLast?_of_not_mem hafter hlast

theorem not_dot_mem_of_skipped {front after : List Char} (hfront : front ≠ [])
    (h : ¬ Skipped (front ++ '.' :: after)) (hskip : Skipped (front ++ ([':', ':'] ++ after))) :
    '.' ∉ front := by
  rcases hskip with hhead | hmem | ⟨word, hword, hprefix⟩
  · obtain ⟨x, rest, hrest⟩ := List.exists_cons_of_ne_nil hfront
    rw [hrest] at h hhead
    exact absurd (.inl hhead) h
  · refine absurd (.inr (.inl ?_)) h
    simp only [List.mem_append, List.mem_cons] at hmem ⊢
    rcases hmem with hin | hcolon | hin
    · exact .inl hin
    · simp at hcolon
    · exact .inr (.inr hin)
  · by_cases hlonger : front.length ≤ (word ++ [':', ':']).length
    · -- all of the front belongs to the reserved prefix
      have hsub := List.prefix_of_prefix_length_le (List.prefix_append front _) hprefix hlonger
      intro hin
      cases List.mem_append.mp (hsub.subset hin) with
      | inl hmem => exact ((reserved_chars word hword).2 '.' hmem).2.1 rfl
      | inr hmem => exact absurd hmem (by decide)
    · have hsub := List.prefix_of_prefix_length_le hprefix (List.prefix_append front _)
        (Nat.le_of_not_le hlonger)
      exact absurd (.inr (.inr ⟨word, hword, hsub.trans (List.prefix_append _ _)⟩)) h

theorem canonicalize_r (h : shouldSkipQualifiedNameNormalization symbol = false) :
    canonicalizeGraphQualifiedName .r symbol = canonicalizeRQualifiedName symbol := by
  rw [canonicalizeGraphQualifiedName, h, if_neg Bool.false_ne_true, if_pos rfl]

/-- In R the canonical form is canonical when at most the last dot was there to be replaced. -/
theorem canonicalize_r_canonicalize_iff
    (h : shouldSkipQualifiedNameNormalization symbol = false) :
    canonicalizeGraphQualifiedName .r (canonicalizeGraphQualifiedName .r symbol) =
        canonicalizeGraphQualifiedName .r symbol ↔
      (rSearched symbol.toList).count '.' ≤ 1 ∨ (rSearched symbol.toList).getLast? = some '.' := by
  rw [canonicalize_r h]
  cases canonicalizeR_cases symbol with
  | inl hkeeps =>
    rw [hkeeps.2, canonicalize_r h]
    refine iff_of_true hkeeps.2 (hkeeps.1.imp_left fun hnone => ?_)
    rw [List.count_eq_zero.mpr hnone]
    exact Nat.zero_le 1
  | inr hreplaced =>
    obtain ⟨before, after, hbody, hafter, hne, hresult⟩ := hreplaced
    have hsymbol : symbol.toList = (rLead symbol.toList ++ before) ++ '.' :: after := by
      rw [List.append_assoc, ← hbody, rLead_append_rSearched]
    have hfront : rLead symbol.toList ++ before ≠ [] ∧
        LeadsTo (rLead symbol.toList) (before ++ ([':', ':'] ++ after)) := by
      cases leadsTo_rLead symbol.toList with
      | inl hlead =>
        rw [hlead]
        exact ⟨List.cons_ne_nil _ _, .inl rfl⟩
      | inr hlead =>
        rw [hbody] at hlead
        cases before with
        | nil => exact absurd rfl hlead.2
        | cons c before =>
          refine ⟨?_, .inr ⟨hlead.1, by simpa using hlead.2⟩⟩
          rw [hlead.1]
          exact List.cons_ne_nil c before
    have hcount : (rSearched symbol.toList).count '.' ≤ 1 ∨
        (rSearched symbol.toList).getLast? = some '.' ↔ '.' ∉ before := by
      have hsplit : before ++ '.' :: after = (before ++ ['.']) ++ after := by simp
      rw [hbody, or_iff_left, List.count_append, List.count_cons_self,
        List.count_eq_zero.mpr hafter, ← List.count_eq_zero]
      · omega
      · rw [hsplit, getLast?_append_of_ne_nil hne]
        exact not_getLast?_of_not_mem hafter
    rw [hcount]
    have hskipped := shouldSkip_eq_false_iff.mp h
    rw [hsymbol] at hskipped
    cases hskip : shouldSkipQualifiedNameNormalization (canonicalizeRQualifiedName symbol) with
    | true =>
      have hin := shouldSkip_iff.mp hskip
      rw [hresult, List.append_assoc, ← List.append_assoc] at hin
      have hnone := not_dot_mem_of_skipped hfront.1 hskipped hin
      exact iff_of_true (canonicalize_of_skip hskip) fun hmem =>
        hnone (List.mem_append_right _ hmem)
    | false =>
      rw [canonicalize_r hskip, canonicalizeR_eq_iff, hresult, List.append_assoc,
        hfront.2.split.2, KeepsDots, or_iff_left]
      · simp [hafter]
      · rw [← List.append_assoc, getLast?_append_of_ne_nil hne]
        exact not_getLast?_of_not_mem hafter

theorem length_canonicalizeR_le (symbol : String) :
    (canonicalizeRQualifiedName symbol).toList.length ≤ symbol.toList.length + 1 := by
  cases canonicalizeR_cases symbol with
  | inl hkeeps =>
    rw [hkeeps.2]
    exact Nat.le_succ _
  | inr hreplaced =>
    obtain ⟨before, after, hbody, _, _, hresult⟩ := hreplaced
    have hlength := congrArg List.length (rLead_append_rSearched symbol.toList)
    rw [hbody] at hlength
    rw [hresult]
    simp only [List.length_append, List.length_cons, List.length_nil] at hlength ⊢
    omega

theorem canonicalizeR_joined_iff {display : String} {first last : List Char}
    (htext : symbol.toList = first ++ ([':', ':'] ++ last))
    (hdisplay : display.toList = first ++ '.' :: last)
    (hcanonical : canonicalizeRQualifiedName symbol = symbol) :
    canonicalizeRQualifiedName display = symbol ↔ DotShowsParts [first, last] := by
  have hlonger : symbol.toList.length = display.toList.length + 1 := by
    rw [htext, hdisplay]
    simp only [List.length_append, List.length_cons, List.length_nil]
    omega
  have hne : canonicalizeRQualifiedName display = display →
      canonicalizeRQualifiedName display ≠ symbol := by
    intro hsame heq
    rw [← heq, hsame] at hlonger
    omega
  by_cases hfirst : first = []
  · refine iff_of_false (fun heq => ?_) fun hparts => hparts.1 hfirst
    rw [hfirst, List.nil_append] at htext hdisplay
    cases canonicalizeR_cases display with
    | inl hkeeps => exact hne hkeeps.2 heq
    | inr hreplaced =>
      obtain ⟨before, after, _, _, _, hresult⟩ := hreplaced
      rw [heq, htext, hdisplay] at hresult
      exact absurd (List.cons.inj hresult).1 (by decide)
  · have hleads : ∀ c more, LeadsTo (rLead first) (rSearched first ++ c :: more) := by
      intro c more
      cases leadsTo_rLead first with
      | inl hlead => exact .inl hlead
      | inr hlead =>
        refine .inr ⟨hlead.1, ?_⟩
        have hsame := rLead_append_rSearched first
        rw [hlead.1, List.nil_append] at hsame
        have hne' : rSearched first ≠ [] := by
          rw [hsame]
          exact hfirst
        rw [List.head?_append_of_ne_nil _ hne']
        exact hlead.2
    have hbody : rSearched symbol.toList = rSearched first ++ ([':', ':'] ++ last) := by
      have hsplit := (hleads ':' (':' :: last)).split.2
      rw [← List.append_assoc, rLead_append_rSearched] at hsplit
      rw [htext]
      exact hsplit
    have hbody' : rLead display.toList = rLead first ∧
        rSearched display.toList = rSearched first ++ '.' :: last := by
      have hsplit := (hleads '.' last).split
      rw [← List.append_assoc, rLead_append_rSearched] at hsplit
      rw [hdisplay]
      exact hsplit
    by_cases hgood : last ≠ [] ∧ last.getLast? ≠ some '.'
    · refine iff_of_true ?_ ⟨hfirst, hgood.1, hgood.2⟩
      have hnone : '.' ∉ last := by
        have hkeeps := canonicalizeR_eq_iff.mp hcanonical
        rw [hbody, KeepsDots, ← List.append_assoc, getLast?_append_of_ne_nil hgood.1] at hkeeps
        cases hkeeps with
        | inl hnone => exact fun hin => hnone (List.mem_append_right _ hin)
        | inr hlast => exact absurd hlast hgood.2
      have hempty : last.isEmpty = false := by
        rw [← Bool.not_eq_true, List.isEmpty_iff]
        exact hgood.1
      rw [canonicalizeR_eq, hbody'.2, rsplitOnceChars_one _ hnone, hbody'.1]
      simp only [hempty, Bool.false_eq_true, if_false]
      rw [← String.toList_inj, String.toList_ofList, rLead_append_rSearched, htext,
        List.append_assoc]
    · refine iff_of_false (hne (canonicalizeR_eq_iff.mpr ?_)) fun hparts => hgood hparts.2
      rw [hbody'.2]
      refine .inr ?_
      by_cases hlast : last = []
      · rw [hlast, List.getLast?_concat]
      · have hsplit : rSearched first ++ '.' :: last = (rSearched first ++ ['.']) ++ last := by simp
        rw [hsplit, getLast?_append_of_ne_nil hlast]
        by_contra hdot
        exact hgood ⟨hlast, hdot⟩

theorem canonicalize_display_r_iff {kind : NodeKind} {isStatic : Bool}
    (h : shouldSkipQualifiedNameNormalization symbol = false)
    (hcanonical : canonicalizeGraphQualifiedName .r symbol = symbol) :
    canonicalizeGraphQualifiedName .r (displayGraphQualifiedName .r symbol kind isStatic) =
        symbol ↔
      DotShowsParts (splitFrom [':', ':'] 0 symbol.toList) := by
  have hdisplay : displayGraphQualifiedName .r symbol kind isStatic =
      textReplace symbol "::" "." := display_other h (by decide) (by decide)
  have hshown : (textReplace symbol "::" ".").toList =
      replaceFrom [':', ':'] ['.'] 0 symbol.toList := String.toList_ofList
  have hskip : shouldSkipQualifiedNameNormalization (textReplace symbol "::" ".") = false := by
    rw [shouldSkip_eq_false_iff, hshown]
    exact not_skipped_replaceFrom (by decide) (by decide) (by decide) (shouldSkip_eq_false_iff.mp h)
  rw [hdisplay, canonicalize_r hskip]
  rw [canonicalize_r h] at hcanonical
  obtain ⟨first, rest, hsplit, htext, hreplaced⟩ := splitFrom_spec ':' ':' ['.'] symbol.toList
  rw [hreplaced] at hshown
  rw [hsplit]
  match rest with
  | [] =>
    have hsame : textReplace symbol "::" "." = symbol := by
      rw [← String.toList_inj, hshown, htext]
      rfl
    rw [hsame]
    exact iff_of_true hcanonical trivial
  | [last] =>
    refine canonicalizeR_joined_iff ?_ ?_ hcanonical
    · rw [htext]
      simp
    · rw [hshown]
      simp
  | second :: third :: rest =>
    refine iff_of_false (fun heq => ?_) id
    -- one separator comes back, and there were more
    have hle := length_canonicalizeR_le (textReplace symbol "::" ".")
    have hparts : ∀ parts : List (List Char),
        (parts.flatMap fun part => ['.'] ++ part).length + parts.length =
          (parts.flatMap fun part => [':', ':'] ++ part).length := by
      intro parts
      induction parts with
      | nil => rfl
      | cons part parts ih =>
        simp only [List.flatMap_cons, List.length_append, List.length_cons,
          List.length_nil] at ih ⊢
        omega
    have hcount := hparts (second :: third :: rest)
    rw [heq, htext, hshown, List.length_append, List.length_append] at hle
    simp only [List.length_cons] at hcount
    omega

end R

section Main

/-- The canonical form of a name is canonical exactly when no dot is left behind, and the display
of a canonical name gives it back exactly when its separators can be read off the display. -/
theorem canonicalNames_iff (language : Language) (symbol : String) (kind : NodeKind)
    (isStatic : Bool) :
    (canonicalizeGraphQualifiedName language (canonicalizeGraphQualifiedName language symbol) =
          canonicalizeGraphQualifiedName language symbol ∧
        isCanonicalGraphQualifiedName language
          (canonicalizeGraphQualifiedName language symbol) = true ↔
      LeavesNoDot language symbol) ∧
    (isCanonicalGraphQualifiedName language symbol = true →
      (canonicalizeGraphQualifiedName language
          (displayGraphQualifiedName language symbol kind isStatic) = symbol ↔
        ShowsSeparators language symbol kind isStatic)) := by
  refine ⟨?_, fun hcanonical => ?_⟩
  · rw [isCanonical_iff, and_self]
    by_cases hr : language = .r
    · rw [hr]
      cases hskip : shouldSkipQualifiedNameNormalization symbol with
      | true =>
        have hsame : canonicalizeGraphQualifiedName .r symbol = symbol :=
          canonicalize_of_skip hskip
        rw [hsame]
        refine iff_of_true hsame fun _ hfalse => ?_
        rw [hskip] at hfalse
        cases hfalse
      | false =>
        rw [canonicalize_r_canonicalize_iff hskip]
        exact ⟨fun hdots _ _ => hdots, fun hleaves => hleaves rfl hskip⟩
    · exact iff_of_true (canonicalize_canonicalize hr symbol) fun heq => absurd heq hr
  · rw [isCanonical_iff] at hcanonical
    cases hskip : shouldSkipQualifiedNameNormalization symbol with
    | true =>
      rw [display_of_skip hskip]
      refine iff_of_true hcanonical fun hfalse => ?_
      rw [hskip] at hfalse
      cases hfalse
    | false =>
      have hshows : ShowsSeparators language symbol kind isStatic ↔
          (language = .r → DotShowsParts (splitFrom [':', ':'] 0 symbol.toList)) ∧
            (showsLastSeparator language symbol kind isStatic = true →
              ∀ suffix, rsplitOnce symbol "::" ≠ some ("", suffix)) :=
        ⟨fun h => h hskip, fun h _ => h⟩
      rw [hshows]
      by_cases hruby : language = .ruby
      · rw [hruby] at hcanonical ⊢
        rw [canonicalize_display_ruby_iff hskip hcanonical, and_iff_right]
        exact fun heq => by cases heq
      · by_cases hphp : language = .php
        · rw [hphp] at hcanonical ⊢
          rw [canonicalize_display_php_iff hskip hcanonical, and_iff_right]
          exact fun heq => by cases heq
        · have hlast : showsLastSeparator language symbol kind isStatic = false := by
            cases language with
            | ruby => exact absurd rfl hruby
            | php => exact absurd rfl hphp
            | _ => rfl
          rw [hlast, and_iff_left fun hfalse => absurd hfalse Bool.false_ne_true]
          by_cases hr : language = .r
          · rw [hr] at hcanonical ⊢
            rw [canonicalize_display_r_iff hskip hcanonical]
            exact ⟨fun hparts _ => hparts, fun hparts => hparts rfl⟩
          · exact iff_of_true (canonicalize_display_other hruby hphp hr hskip hcanonical)
              fun heq => absurd heq hr

/-- An S3 method of R. -/
theorem canonicalNames_iff_print_myclass :
    isCanonicalGraphQualifiedName .r "print::myclass" = true ∧
      (canonicalizeGraphQualifiedName .r
          (displayGraphQualifiedName .r "print::myclass" .function false) = "print::myclass" ↔
        ShowsSeparators .r "print::myclass" .function false) :=
  have h : isCanonicalGraphQualifiedName .r "print::myclass" = true := by decide
  ⟨h, (canonicalNames_iff .r "print::myclass" .function false).2 h⟩

/-- The canonical form of `as.data.frame.myclass` has dots left, and so has another canonical
form. -/
theorem dotted_generic_not_canonical : ¬ ∀ (language : Language) (symbol : String)
    (kind : NodeKind) (isStatic : Bool),
    (canonicalizeGraphQualifiedName language (canonicalizeGraphQualifiedName language symbol) =
          canonicalizeGraphQualifiedName language symbol ∧
        isCanonicalGraphQualifiedName language
          (canonicalizeGraphQualifiedName language symbol) = true) ∧
      (isCanonicalGraphQualifiedName language symbol = true →
        canonicalizeGraphQualifiedName language
          (displayGraphQualifiedName language symbol kind isStatic) = symbol) := by
  intro h
  have hform : canonicalizeGraphQualifiedName .r "as.data.frame.myclass" =
      "as.data.frame::myclass" := by decide
  have hcanonical := (h .r "as.data.frame.myclass" .function false).1.2
  rw [hform] at hcanonical
  exact absurd hcanonical (by decide)

end Main

end Sqry
