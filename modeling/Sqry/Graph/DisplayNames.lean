import Sqry.Graph.CanonicalNames

/-!
What a language shows for a canonical name. The separators are shown as those of the language, and
members of Ruby and PHP have one of their own in front of the last part.
-/

namespace Sqry

section Display
variable {language : Language} {symbol : String} {kind : NodeKind} {isStatic : Bool}

theorem display_of_skip (h : shouldSkipQualifiedNameNormalization symbol = true) :
    displayGraphQualifiedName language symbol kind isStatic = symbol := by
  simp only [displayGraphQualifiedName, h, if_true]

theorem display_other (h : shouldSkipQualifiedNameNormalization symbol = false)
    (hruby : language ≠ .ruby) (hphp : language ≠ .php) :
    displayGraphQualifiedName language symbol kind isStatic =
      match language.nativeDisplaySeparator with
      | none => symbol
      | some separator => textReplace symbol "::" separator := by
  cases language with
  | ruby => exact absurd rfl hruby
  | php => exact absurd rfl hphp
  | _ =>
    simp only [displayGraphQualifiedName, h, Bool.false_eq_true, if_false] <;> rfl

theorem canonicalize_display_other (hruby : language ≠ .ruby) (hphp : language ≠ .php)
    (hr : language ≠ .r) (h : shouldSkipQualifiedNameNormalization symbol = false)
    (hcanonical : canonicalizeGraphQualifiedName language symbol = symbol) :
    canonicalizeGraphQualifiedName language
      (displayGraphQualifiedName language symbol kind isStatic) = symbol := by
  rw [display_other h hruby hphp]
  have hfree := (canonicalize_eq_iff_free h hr).mp hcanonical
  cases delimiters_cases hruby hphp with
  | inl hnone =>
    rw [hnone.2]
    exact hcanonical
  | inr hdot =>
    have hmem : '.' ∉ symbol.toList := by
      rw [hdot.1] at hfree
      exact fun hin => hfree "." List.mem_cons_self (singleton_infix_iff.mpr hin)
    have hshown : (textReplace symbol "::" ".").toList =
        replaceFrom [':', ':'] ['.'] 0 symbol.toList := String.toList_ofList
    have hskip : shouldSkipQualifiedNameNormalization (textReplace symbol "::" ".") = false := by
      rw [shouldSkip_eq_false_iff, hshown]
      exact not_skipped_replaceFrom (by decide) (by decide) (by decide)
        (shouldSkip_eq_false_iff.mp h)
    rw [hdot.2, ← String.toList_inj]
    simp only
    rw [toList_canonicalize hskip hr, hdot.1, hshown]
    exact replaceFrom_one_pair hmem

theorem rsplitOnce_eq {before after : List Char}
    (h : rsplitOnceChars [':', ':'] symbol.toList = some (before, after)) :
    rsplitOnce symbol "::" = some (String.ofList before, String.ofList after) := by
  have hsplit : rsplitOnceChars "::".toList symbol.toList = some (before, after) := h
  rw [rsplitOnce, hsplit]
  rfl

theorem rsplitOnce_eq_none (h : rsplitOnceChars [':', ':'] symbol.toList = none) :
    rsplitOnce symbol "::" = none := by
  have hsplit : rsplitOnceChars "::".toList symbol.toList = none := h
  rw [rsplitOnce, hsplit]
  rfl

theorem rsplitOnceChars_of_not_contains (h : textContains symbol "::" = false) :
    rsplitOnceChars [':', ':'] symbol.toList = none := by
  cases hsplit : rsplitOnceChars [':', ':'] symbol.toList with
  | none => rfl
  | some split =>
    obtain ⟨before, after⟩ := split
    have hinfix : [':', ':'] <:+: symbol.toList :=
      ⟨before, after, (eq_append_of_rsplitOnceChars hsplit).symm⟩
    rw [textContains, decide_eq_false_iff_not] at h
    exact absurd hinfix h

theorem toList_replaceLastSeparator {before after : List Char}
    (h : rsplitOnceChars [':', ':'] symbol.toList = some (before, after)) (separator : String)
    (preservePrefix : Bool) :
    (replaceLastSeparator symbol separator preservePrefix).toList =
      if before = [] then after
      else (if preservePrefix then replaceFrom [':', ':'] ['\\'] 0 before else before) ++
        separator.toList ++ after := by
  rw [replaceLastSeparator, rsplitOnce_eq h]
  have hshown : ∀ text : List Char, text ≠ [] → (String.ofList text).isEmpty = false := by
    intro text htext
    rw [← Bool.not_eq_true, String.isEmpty_iff, ← String.toList_inj, String.toList_ofList]
    exact htext
  cases before with
  | nil => cases preservePrefix <;> simp [textReplace, replaceFrom_nil]
  | cons c before =>
    rw [if_neg (List.cons_ne_nil c before)]
    cases preservePrefix with
    | false =>
      simp only [Bool.false_eq_true, if_false, hshown _ (List.cons_ne_nil c before),
        String.toList_append, String.toList_ofList]
    | true =>
      have hne : replaceFrom "::".toList "\\".toList 0 (c :: before) ≠ [] := by
        intro hnil
        cases @head?_replaceFrom_pair ':' ':' ['\\'] (c :: before) with
        | inl hsame =>
          have hhead := hsame.symm.trans (congrArg List.head? hnil)
          cases hhead
        | inr hreplaced => exact List.cons_ne_nil _ _ (hreplaced.2.symm.trans hnil)
      simp only [if_true, textReplace, String.toList_ofList, hshown _ hne,
        Bool.false_eq_true, if_false, String.toList_append]
      rfl

theorem canonicalize_suffix_ne (hr : language ≠ .r)
    (hfree : Free language.nativeDelimiters symbol.toList) {after : List Char}
    (h : symbol.toList = [':', ':'] ++ after) :
    canonicalizeGraphQualifiedName language (String.ofList after) ≠ symbol := by
  have hsame : canonicalizeGraphQualifiedName language (String.ofList after) =
      String.ofList after := by
    cases hskip : shouldSkipQualifiedNameNormalization (String.ofList after) with
    | true => exact canonicalize_of_skip hskip
    | false =>
      rw [canonicalize_eq_iff_free hskip hr, String.toList_ofList]
      intro delimiter hdelimiter hinfix
      refine hfree delimiter hdelimiter ?_
      rw [h]
      exact hinfix.trans (List.suffix_append _ _).isInfix
  rw [hsame]
  intro heq
  have hlength := congrArg List.length h
  rw [← heq, String.toList_ofList, List.length_append] at hlength
  simp only [List.length_cons, List.length_nil] at hlength
  omega

end Display

section LastSeparator
variable {symbol : String} {kind : NodeKind} {isStatic : Bool} {before after : List Char}

theorem not_skipped_joined {c : Char} (hslash : c ≠ '/') (hcolon : c ≠ ':')
    (hreserved : ∀ word ∈ reservedPrefixes, c ∉ word) (hbefore : before ≠ [])
    (h : ¬ Skipped (before ++ [':', ':'] ++ after)) : ¬ Skipped (before ++ [c] ++ after) := by
  intro hskip
  rcases hskip with hhead | hmem | ⟨word, hword, hprefix⟩
  · obtain ⟨x, rest, hrest⟩ := List.exists_cons_of_ne_nil hbefore
    rw [hrest] at h hhead
    exact h (.inl hhead)
  · simp only [List.append_assoc, List.mem_append, List.mem_singleton] at hmem
    refine h (.inr (.inl ?_))
    simp only [List.append_assoc, List.mem_append]
    rcases hmem with hin | heq | hin
    · exact .inl hin
    · exact absurd heq.symm hslash
    · exact .inr (.inr hin)
  · have hlonger : ¬ before.length < (word ++ [':', ':']).length := by
      intro hlt
      have hsub : before ++ [c] <+: word ++ [':', ':'] := by
        refine List.prefix_of_prefix_length_le (List.prefix_append _ after) hprefix ?_
        rw [List.length_append, List.length_singleton]
        exact hlt
      have hin := hsub.subset (List.mem_append_right before List.mem_cons_self)
      cases List.mem_append.mp hin with
      | inl hmem => exact hreserved word hword hmem
      | inr hmem => exact hcolon (by simpa using hmem)
    have hsub : word ++ [':', ':'] <+: before := by
      rw [List.append_assoc] at hprefix
      exact List.prefix_of_prefix_length_le hprefix (List.prefix_append _ _)
        (Nat.le_of_not_lt hlonger)
    rw [List.append_assoc] at h
    exact h (.inr (.inr ⟨word, hword, hsub.trans (List.prefix_append _ _)⟩))

theorem word_prefix_of_replaced {word : List Char} (hword : ∀ c ∈ word, c ≠ ':' ∧ c ≠ '\\')
    (h : word ++ [':', ':'] <+: replaceFrom [':', ':'] ['\\'] 0 before ++ [':', ':'] ++ after) :
    word ++ [':', ':'] <+: before ++ [':', ':'] ++ after := by
  induction before using @pair_induction ':' ':' generalizing word with
  | nil => exact h
  | pair text ih =>
    rw [replaceFrom_pair] at h
    cases word with
    | nil =>
      have hhead := (List.cons_prefix_cons.mp h).1
      exact absurd hhead (by decide)
    | cons c word =>
      have hhead := (List.cons_prefix_cons.mp h).1
      exact absurd hhead (hword c List.mem_cons_self).2
  | other x text hprefix ih =>
    rw [replaceFrom_other hprefix] at h
    cases word with
    | nil =>
      rw [List.cons_append, List.cons_append, List.append_assoc] at h ⊢
      obtain ⟨hx, hhead⟩ := pair_prefix_cons.mp h
      refine pair_prefix_cons.mpr ⟨hx, ?_⟩
      rw [List.head?_append] at hhead ⊢
      cases @head?_replaceFrom_pair ':' ':' ['\\'] text with
      | inl hsame =>
        rw [hsame] at hhead
        exact hhead
      | inr hreplaced =>
        rw [hreplaced.2] at hhead
        simp at hhead
    | cons c word =>
      obtain ⟨hhead, htail⟩ := List.cons_prefix_cons.mp h
      refine List.cons_prefix_cons.mpr ⟨hhead, ?_⟩
      exact ih (fun d hd => hword d (List.mem_cons_of_mem c hd)) htail

theorem not_skipped_shown (hbefore : before ≠ [])
    (h : ¬ Skipped (before ++ [':', ':'] ++ after)) :
    ¬ Skipped (replaceFrom [':', ':'] ['\\'] 0 before ++ [':', ':'] ++ after) := by
  intro hskip
  rcases hskip with hhead | hmem | ⟨word, hword, hprefix⟩
  · obtain ⟨x, rest, hrest⟩ := List.exists_cons_of_ne_nil hbefore
    cases @head?_replaceFrom_pair ':' ':' ['\\'] before with
    | inl hsame =>
      rw [List.append_assoc, List.head?_append, hsame, ← List.head?_append,
        ← List.append_assoc] at hhead
      exact h (.inl hhead)
    | inr hreplaced =>
      rw [hreplaced.2] at hhead
      simp at hhead
  · simp only [List.append_assoc, List.mem_append] at hmem
    refine h (.inr (.inl ?_))
    simp only [List.append_assoc, List.mem_append]
    refine hmem.imp_left fun hin => ?_
    cases mem_of_mem_replaceFrom_pair hin with
    | inl hnew => exact absurd hnew (by decide)
    | inr hold => exact hold
  · have hchars : ∀ c ∈ word, c ≠ ':' ∧ c ≠ '\\' := fun c hc =>
      ⟨((reserved_chars word hword).2 c hc).1, ((reserved_chars word hword).2 c hc).2.2.2⟩
    exact h (.inr (.inr ⟨word, hword, word_prefix_of_replaced hchars hprefix⟩))

theorem display_ruby (h : shouldSkipQualifiedNameNormalization symbol = false)
    (hfree : Free Language.ruby.nativeDelimiters symbol.toList) :
    displayGraphQualifiedName .ruby symbol kind isStatic =
      if textContains symbol "::" && showsLastSeparator .ruby symbol kind isStatic then
        replaceLastSeparator symbol (if kind = .method && isStatic then "." else "#") false
      else symbol := by
  have hhash : textContains symbol "#" = false :=
    decide_eq_false (hfree "#" List.mem_cons_self)
  have hdot : textContains symbol "." = false :=
    decide_eq_false (hfree "." (List.mem_cons_of_mem _ List.mem_cons_self))
  simp only [displayGraphQualifiedName, h, Bool.false_eq_true, if_false, displayRubyQualifiedName,
    hhash, hdot, Bool.false_or]
  cases textContains symbol "::" with
  | false => simp
  | true =>
    cases kind with
    | method => simp [showsLastSeparator]
    | _ => simp [showsLastSeparator]

theorem display_php (h : shouldSkipQualifiedNameNormalization symbol = false) :
    displayGraphQualifiedName .php symbol kind isStatic =
      if !textContains symbol "::" then symbol
      else if showsLastSeparator .php symbol kind isStatic then
        replaceLastSeparator symbol "::" true
      else textReplace symbol "::" "\\" := by
  simp only [displayGraphQualifiedName, h, Bool.false_eq_true, if_false, displayPhpQualifiedName]
  cases kind with
  | method | property => simp [showsLastSeparator]
  | _ => simp [showsLastSeparator]

theorem replaceFrom_joined {c : Char} (hbefore : c ∉ before) (hafter : c ∉ after) :
    replaceFrom [c] [':', ':'] 0 (before ++ [c] ++ after) = before ++ [':', ':'] ++ after := by
  rw [replaceFrom_one_append, replaceFrom_one_append, replaceFrom_one_of_not_mem hbefore,
    replaceFrom_one_of_not_mem hafter, replaceFrom_one_cons, if_pos rfl]
  rfl

theorem canonicalize_replaceLast_iff {language : Language} (hr : language ≠ .r)
    (hfree : Free language.nativeDelimiters symbol.toList)
    (hcanonical : canonicalizeGraphQualifiedName language symbol = symbol) (separator : String)
    (preservePrefix : Bool)
    (hshown : ∀ before after, rsplitOnceChars [':', ':'] symbol.toList = some (before, after) →
      before ≠ [] → canonicalizeGraphQualifiedName language
        (replaceLastSeparator symbol separator preservePrefix) = symbol) :
    canonicalizeGraphQualifiedName language
        (replaceLastSeparator symbol separator preservePrefix) = symbol ↔
      ∀ suffix, rsplitOnce symbol "::" ≠ some ("", suffix) := by
  cases hsplit : rsplitOnceChars [':', ':'] symbol.toList with
  | none =>
    have hnone := rsplitOnce_eq_none hsplit
    have hsame : replaceLastSeparator symbol separator preservePrefix = symbol := by
      rw [replaceLastSeparator, hnone]
    rw [hsame, hnone]
    exact ⟨fun _ suffix hsome => Option.some_ne_none _ hsome.symm, fun _ => hcanonical⟩
  | some split =>
    obtain ⟨before, after⟩ := split
    rw [rsplitOnce_eq hsplit]
    by_cases hbefore : before = []
    · have hshow : replaceLastSeparator symbol separator preservePrefix =
          String.ofList after := by
        rw [← String.toList_inj, toList_replaceLastSeparator hsplit, if_pos hbefore,
          String.toList_ofList]
      have htext := eq_append_of_rsplitOnceChars hsplit
      rw [hbefore, List.nil_append] at htext
      rw [hshow]
      refine iff_of_false (canonicalize_suffix_ne hr hfree htext) fun hall => ?_
      exact hall (String.ofList after) (by rw [hbefore])
    · refine iff_of_true (hshown before after hsplit hbefore) fun suffix heq => hbefore ?_
      have hempty := congrArg (fun p => p.1.toList) (Option.some.inj heq)
      simpa using hempty

theorem canonicalize_display_ruby_iff (h : shouldSkipQualifiedNameNormalization symbol = false)
    (hcanonical : canonicalizeGraphQualifiedName .ruby symbol = symbol) :
    canonicalizeGraphQualifiedName .ruby (displayGraphQualifiedName .ruby symbol kind isStatic) =
        symbol ↔
      (showsLastSeparator .ruby symbol kind isStatic = true →
        ∀ suffix, rsplitOnce symbol "::" ≠ some ("", suffix)) := by
  have hr : Language.ruby ≠ .r := by decide
  have hfree := (canonicalize_eq_iff_free h hr).mp hcanonical
  have hhash : '#' ∉ symbol.toList := fun hin =>
    hfree "#" List.mem_cons_self (singleton_infix_iff.mpr hin)
  have hdot : '.' ∉ symbol.toList := fun hin =>
    hfree "." (List.mem_cons_of_mem _ List.mem_cons_self) (singleton_infix_iff.mpr hin)
  rw [display_ruby h hfree]
  cases hcontains : textContains symbol "::" with
  | false =>
    have hnone := rsplitOnce_eq_none (rsplitOnceChars_of_not_contains hcontains)
    rw [Bool.false_and, if_neg Bool.false_ne_true, hnone]
    exact ⟨fun _ _ suffix hsome => Option.some_ne_none _ hsome.symm, fun _ => hcanonical⟩
  | true =>
    rw [Bool.true_and]
    cases hshows : showsLastSeparator .ruby symbol kind isStatic with
    | false =>
      rw [if_neg Bool.false_ne_true]
      exact ⟨fun _ hfalse => absurd hfalse Bool.false_ne_true, fun _ => hcanonical⟩
    | true =>
      rw [if_pos rfl]
      refine Iff.trans ?_ ⟨fun hall _ => hall, fun hall => hall rfl⟩
      refine canonicalize_replaceLast_iff hr hfree hcanonical _ _ ?_
      intro before after hsplit hbefore
      have htext := eq_append_of_rsplitOnceChars hsplit
      have hparts : ∀ c, c ∉ symbol.toList → c ∉ before ∧ c ∉ after := by
        intro c hc
        rw [htext, List.append_assoc] at hc
        simp only [List.mem_append, not_or] at hc
        exact ⟨hc.1, hc.2.2⟩
      have hskipped : ¬ Skipped (before ++ [':', ':'] ++ after) :=
        htext ▸ shouldSkip_eq_false_iff.mp h
      have hjoined : ∀ c : Char, c ≠ '/' → c ≠ ':' → (∀ word ∈ reservedPrefixes, c ∉ word) →
          ∀ display : String, display.toList = before ++ [c] ++ after →
            (canonicalizeGraphQualifiedName .ruby display).toList =
              replaceFrom ['.'] [':', ':'] 0
                (replaceFrom ['#'] [':', ':'] 0 (before ++ [c] ++ after)) := by
        intro c hslash hcolon hreserved display hdisplay
        rw [toList_canonicalize (shouldSkip_eq_false_iff.mpr ?_) hr, hdisplay]
        · rfl
        · rw [hdisplay]
          exact not_skipped_joined hslash hcolon hreserved hbefore hskipped
      have hshown := toList_replaceLastSeparator hsplit
        (if kind = .method && isStatic then "." else "#") false
      rw [if_neg hbefore, if_neg Bool.false_ne_true] at hshown
      rw [← String.toList_inj]
      cases hstatic : (kind = .method && isStatic : Bool) with
      | true =>
        rw [hstatic, if_pos rfl] at hshown
        have hnone : '#' ∉ before ++ ['.'] ++ after := by
          simp only [List.mem_append, not_or]
          exact ⟨⟨(hparts '#' hhash).1, by decide⟩, (hparts '#' hhash).2⟩
        rw [if_pos rfl, hjoined '.' (by decide) (by decide) (by decide) _ hshown,
          replaceFrom_one_of_not_mem hnone,
          replaceFrom_joined (hparts '.' hdot).1 (hparts '.' hdot).2, htext]
      | false =>
        rw [hstatic, if_neg Bool.false_ne_true] at hshown
        rw [if_neg Bool.false_ne_true,
          hjoined '#' (by decide) (by decide) (by decide) _ hshown,
          replaceFrom_joined (hparts '#' hhash).1 (hparts '#' hhash).2, ← htext,
          replaceFrom_one_of_not_mem hdot]

theorem canonicalize_display_php_iff (h : shouldSkipQualifiedNameNormalization symbol = false)
    (hcanonical : canonicalizeGraphQualifiedName .php symbol = symbol) :
    canonicalizeGraphQualifiedName .php (displayGraphQualifiedName .php symbol kind isStatic) =
        symbol ↔
      (showsLastSeparator .php symbol kind isStatic = true →
        ∀ suffix, rsplitOnce symbol "::" ≠ some ("", suffix)) := by
  have hr : Language.php ≠ .r := by decide
  have hfree := (canonicalize_eq_iff_free h hr).mp hcanonical
  have hslash : '\\' ∉ symbol.toList := fun hin =>
    hfree "\\" List.mem_cons_self (singleton_infix_iff.mpr hin)
  have harrow : ¬ ['-', '>'] <:+: symbol.toList :=
    hfree "->" (List.mem_cons_of_mem _ List.mem_cons_self)
  have hskipped := shouldSkip_eq_false_iff.mp h
  have hback : ∀ display : String, ¬ Skipped display.toList →
      replaceFrom ['\\'] [':', ':'] 0 display.toList = symbol.toList →
        canonicalizeGraphQualifiedName .php display = symbol := by
    intro display hskip hreplaced
    rw [← String.toList_inj, toList_canonicalize (shouldSkip_eq_false_iff.mpr hskip) hr]
    have htwice : replaceDelimiters Language.php.nativeDelimiters display.toList =
        replaceFrom ['-', '>'] [':', ':'] 0 (replaceFrom ['\\'] [':', ':'] 0 display.toList) := rfl
    rw [htwice, hreplaced]
    exact replaceFrom_of_not_infix harrow
  rw [display_php h]
  cases hcontains : textContains symbol "::" with
  | false =>
    have hnone := rsplitOnce_eq_none (rsplitOnceChars_of_not_contains hcontains)
    rw [Bool.not_false, if_pos rfl, hnone]
    exact ⟨fun _ _ suffix hsome => Option.some_ne_none _ hsome.symm, fun _ => hcanonical⟩
  | true =>
    rw [Bool.not_true, if_neg Bool.false_ne_true]
    cases hshows : showsLastSeparator .php symbol kind isStatic with
    | false =>
      have hshown : (textReplace symbol "::" "\\").toList =
          replaceFrom [':', ':'] ['\\'] 0 symbol.toList := String.toList_ofList
      rw [if_neg Bool.false_ne_true]
      refine ⟨fun _ hfalse => absurd hfalse Bool.false_ne_true, fun _ => hback _ ?_ ?_⟩
      · rw [hshown]
        exact not_skipped_replaceFrom (by decide) (by decide) (by decide) hskipped
      · rw [hshown]
        exact replaceFrom_one_pair hslash
    | true =>
      rw [if_pos rfl]
      refine Iff.trans ?_ ⟨fun hall _ => hall, fun hall => hall rfl⟩
      refine canonicalize_replaceLast_iff hr hfree hcanonical _ _ ?_
      intro before after hsplit hbefore
      have htext := eq_append_of_rsplitOnceChars hsplit
      have hshown := toList_replaceLastSeparator hsplit "::" true
      rw [if_neg hbefore, if_pos rfl] at hshown
      have hparts : '\\' ∉ before ∧ '\\' ∉ after := by
        rw [htext, List.append_assoc] at hslash
        simp only [List.mem_append, not_or] at hslash
        exact ⟨hslash.1, hslash.2.2⟩
      have hcolons : '\\' ∉ "::".toList := by decide
      refine hback _ ?_ ?_
      · rw [hshown]
        exact not_skipped_shown hbefore (htext ▸ hskipped)
      · rw [hshown, replaceFrom_one_append, replaceFrom_one_append,
          replaceFrom_one_pair hparts.1, replaceFrom_one_of_not_mem hparts.2,
          replaceFrom_one_of_not_mem hcolons, htext]
        rfl

end LastSeparator

end Sqry
