import Sqry.Graph.Snapshot

/-!
Replacing a delimiter in a text: what the result holds, and when another replacement gives the
text back. The delimiters are one character or two.
-/

namespace Sqry

theorem replaceFrom_of_not_infix {pattern replacement text : List Char}
    (h : ¬ pattern <:+: text) : replaceFrom pattern replacement 0 text = text := by
  induction text with
  | nil => rfl
  | cons x text ih =>
    rw [List.infix_cons_iff, not_or] at h
    rw [replaceFrom, if_neg fun hprefix => h.1 (List.isPrefixOf_iff_prefix.mp hprefix), ih h.2]

theorem singleton_infix_iff {c : Char} {text : List Char} : [c] <:+: text ↔ c ∈ text := by
  constructor
  · intro h
    exact h.subset List.mem_cons_self
  · intro h
    obtain ⟨before, after, heq⟩ := List.append_of_mem h
    rw [heq]
    exact ⟨before, after, by simp⟩

section One
variable {c : Char} {replacement : List Char}

theorem replaceFrom_one (c : Char) (replacement text : List Char) :
    replaceFrom [c] replacement 0 text =
      text.flatMap fun x => if x = c then replacement else [x] := by
  induction text with
  | nil => rfl
  | cons x text ih =>
    rw [replaceFrom, List.flatMap_cons, ← ih]
    by_cases hx : x = c
    · simp [hx]
    · have hne : ¬ c = x := fun h => hx h.symm
      simp [hx, hne]

theorem replaceFrom_one_append (text more : List Char) :
    replaceFrom [c] replacement 0 (text ++ more) =
      replaceFrom [c] replacement 0 text ++ replaceFrom [c] replacement 0 more := by
  simp only [replaceFrom_one, List.flatMap_append]

theorem replaceFrom_one_cons (x : Char) (text : List Char) :
    replaceFrom [c] replacement 0 (x :: text) =
      (if x = c then replacement else [x]) ++ replaceFrom [c] replacement 0 text := by
  simp only [replaceFrom_one, List.flatMap_cons]

theorem replaceFrom_one_of_not_mem {text : List Char} (h : c ∉ text) :
    replaceFrom [c] replacement 0 text = text :=
  replaceFrom_of_not_infix fun hinfix => h (singleton_infix_iff.mp hinfix)

theorem not_mem_replaceFrom_one (h : c ∉ replacement) (text : List Char) :
    c ∉ replaceFrom [c] replacement 0 text := by
  rw [replaceFrom_one, List.mem_flatMap]
  intro hmem
  obtain ⟨x, _, hx⟩ := hmem
  by_cases heq : x = c
  · rw [if_pos heq] at hx
    exact h hx
  · rw [if_neg heq, List.mem_singleton] at hx
    exact heq hx.symm

end One

section Pair
variable {a b : Char} {replacement : List Char}

theorem replaceFrom_nil (pattern replacement : List Char) (skip : Nat) :
    replaceFrom pattern replacement skip [] = [] := by
  cases skip with
  | zero => rfl
  | succ skip => rfl

theorem replaceFrom_pair (text : List Char) :
    replaceFrom [a, b] replacement 0 (a :: b :: text) =
      replacement ++ replaceFrom [a, b] replacement 0 text := by
  have hprefix : [a, b].isPrefixOf (a :: b :: text) = true := by simp
  rw [replaceFrom, if_pos hprefix]
  rfl

variable {text : List Char}

theorem replaceFrom_other {x : Char} (h : ¬ [a, b] <+: x :: text) :
    replaceFrom [a, b] replacement 0 (x :: text) = x :: replaceFrom [a, b] replacement 0 text := by
  rw [replaceFrom, if_neg fun hprefix => h (List.isPrefixOf_iff_prefix.mp hprefix)]

@[elab_as_elim]
theorem pair_induction {motive : List Char → Prop} (nil : motive [])
    (pair : ∀ text, motive text → motive (a :: b :: text))
    (other : ∀ x text, ¬ [a, b] <+: x :: text → motive text → motive (x :: text)) :
    ∀ text, motive text
  | [] => nil
  | x :: text => by
    by_cases hprefix : [a, b] <+: x :: text
    · obtain ⟨rest, hrest⟩ := hprefix
      cases hrest
      exact pair rest (pair_induction nil pair other rest)
    · exact other x text hprefix (pair_induction nil pair other text)
termination_by text => text.length

theorem pair_prefix_cons {x : Char} :
    [a, b] <+: x :: text ↔ a = x ∧ text.head? = some b := by
  rw [List.cons_prefix_cons]
  refine and_congr_right fun _ => ?_
  cases text with
  | nil => simp
  | cons y text => simp [eq_comm]

theorem head?_replaceFrom_pair (text : List Char) :
    (replaceFrom [a, b] replacement 0 text).head? = text.head? ∨
      [a, b] <+: text ∧ (replaceFrom [a, b] replacement 0 text) =
        replacement ++ replaceFrom [a, b] replacement 0 (text.drop 2) := by
  cases text with
  | nil => exact .inl rfl
  | cons x text =>
    by_cases hpair : [a, b] <+: x :: text
    · refine .inr ⟨hpair, ?_⟩
      obtain ⟨rest, hrest⟩ := hpair
      cases hrest
      exact replaceFrom_pair rest
    · rw [replaceFrom_other hpair]
      exact .inl rfl

theorem mem_of_mem_replaceFrom_pair {x : Char} (h : x ∈ replaceFrom [a, b] replacement 0 text)
    : x ∈ replacement ∨ x ∈ text := by
  induction text using @pair_induction a b with
  | nil => cases h
  | pair text ih =>
    rw [replaceFrom_pair] at h
    cases List.mem_append.mp h with
    | inl hnew => exact .inl hnew
    | inr hold =>
      exact (ih hold).imp_right fun hmem =>
        List.mem_cons_of_mem _ (List.mem_cons_of_mem _ hmem)
  | other y text hprefix ih =>
    rw [replaceFrom_other hprefix] at h
    cases List.mem_cons.mp h with
    | inl heq => exact .inr (heq ▸ List.mem_cons_self)
    | inr hold => exact (ih hold).imp_right fun hmem => List.mem_cons_of_mem _ hmem

theorem not_pair_infix_append (hnone : ∀ x ∈ replacement, x ≠ a) (h : ¬ [a, b] <:+: text)
    : ¬ [a, b] <:+: replacement ++ text := by
  induction replacement with
  | nil => exact h
  | cons x replacement ih =>
    rw [List.cons_append, List.infix_cons_iff, not_or]
    refine ⟨fun hprefix => ?_, ih fun y hy => hnone y (List.mem_cons_of_mem x hy)⟩
    exact hnone x List.mem_cons_self (List.cons_prefix_cons.mp hprefix).1.symm

theorem not_infix_replaceFrom_pair (hne : replacement ≠ [])
    (hnone : ∀ x ∈ replacement, x ≠ a ∧ x ≠ b) (text : List Char) :
    ¬ [a, b] <:+: replaceFrom [a, b] replacement 0 text := by
  induction text using @pair_induction a b with
  | nil => simp [replaceFrom_nil]
  | pair text ih =>
    rw [replaceFrom_pair]
    exact not_pair_infix_append (fun x hx => (hnone x hx).1) ih
  | other x text hprefix ih =>
    rw [replaceFrom_other hprefix, List.infix_cons_iff, not_or]
    refine ⟨fun hnew => ?_, ih⟩
    obtain ⟨hx, hhead⟩ := pair_prefix_cons.mp hnew
    cases @head?_replaceFrom_pair a b replacement text with
    | inl hsame => exact hprefix (pair_prefix_cons.mpr ⟨hx, hsame.symm.trans hhead⟩)
    | inr hreplaced =>
      obtain ⟨y, rest, hy⟩ := List.exists_cons_of_ne_nil hne
      rw [hreplaced.2, hy] at hhead
      refine (hnone y ?_).2 (Option.some.inj hhead)
      rw [hy]
      exact List.mem_cons_self

theorem replaceFrom_one_pair {c : Char} (h : c ∉ text) :
    replaceFrom [c] [a, b] 0 (replaceFrom [a, b] [c] 0 text) = text := by
  induction text using @pair_induction a b with
  | nil => rfl
  | pair text ih =>
    simp only [List.mem_cons, not_or] at h
    rw [replaceFrom_pair, List.singleton_append, replaceFrom_one_cons, if_pos rfl, ih h.2.2]
    rfl
  | other x text hprefix ih =>
    rw [List.mem_cons, not_or] at h
    rw [replaceFrom_other hprefix, replaceFrom_one_cons, if_neg fun heq => h.1 heq.symm, ih h.2]
    rfl

theorem splitFrom_pair (text : List Char) :
    splitFrom [a, b] 0 (a :: b :: text) = [] :: splitFrom [a, b] 0 text := by
  have hprefix : [a, b].isPrefixOf (a :: b :: text) = true := by simp
  rw [splitFrom, if_pos hprefix]
  rfl

theorem splitFrom_spec (a b : Char) (replacement text : List Char) :
    ∃ first rest, splitFrom [a, b] 0 text = first :: rest ∧
      text = first ++ rest.flatMap (fun part => [a, b] ++ part) ∧
      replaceFrom [a, b] replacement 0 text =
        first ++ rest.flatMap fun part => replacement ++ part := by
  induction text using @pair_induction a b with
  | nil => exact ⟨[], [], rfl, rfl, rfl⟩
  | pair text ih =>
    obtain ⟨first, rest, hsplit, htext, hreplace⟩ := ih
    refine ⟨[], first :: rest, by rw [splitFrom_pair, hsplit], ?_, ?_⟩
    · rw [List.nil_append, List.flatMap_cons, List.append_assoc, ← htext]
      rfl
    · rw [replaceFrom_pair, hreplace, List.nil_append, List.flatMap_cons, List.append_assoc]
  | other x text hprefix ih =>
    obtain ⟨first, rest, hsplit, htext, hreplace⟩ := ih
    refine ⟨x :: first, rest, ?_, ?_, ?_⟩
    · rw [splitFrom, if_neg fun h => hprefix (List.isPrefixOf_iff_prefix.mp h), hsplit]
    · rw [List.cons_append, ← htext]
    · rw [replaceFrom_other hprefix, hreplace, List.cons_append]

end Pair

section LastSplit
variable {separator text before after : List Char}

theorem eq_append_of_rsplitOnceChars (h : rsplitOnceChars separator text = some (before, after)) :
    text = before ++ separator ++ after := by
  induction text generalizing before with
  | nil => cases h
  | cons c text ih =>
    rw [rsplitOnceChars] at h
    cases hsplit : rsplitOnceChars separator text with
    | some split =>
      rw [hsplit] at h
      cases h
      rw [ih hsplit]
      simp
    | none =>
      rw [hsplit] at h
      by_cases hprefix : separator.isPrefixOf (c :: text) = true
      · rw [if_pos hprefix] at h
        cases h
        rw [List.nil_append]
        exact (List.prefix_iff_eq_append.mp (List.isPrefixOf_iff_prefix.mp hprefix)).symm
      · rw [if_neg hprefix] at h
        cases h

theorem rsplitOnceChars_one_eq_none {c : Char} :
    rsplitOnceChars [c] text = none ↔ c ∉ text := by
  induction text with
  | nil => simp [rsplitOnceChars]
  | cons x text ih =>
    rw [rsplitOnceChars, List.mem_cons, not_or]
    cases hsplit : rsplitOnceChars [c] text with
    | some split =>
      rw [hsplit] at ih
      simp only [reduceCtorEq, false_iff, not_and]
      exact fun _ hnot => absurd (ih.mpr hnot) (Option.some_ne_none split)
    | none =>
      rw [hsplit] at ih
      by_cases hx : c = x
      · simp [hx]
      · simpa [hx] using ih.mp rfl

theorem rsplitOnceChars_one {c : Char} (before : List Char) (h : c ∉ after) :
    rsplitOnceChars [c] (before ++ c :: after) = some (before, after) := by
  induction before with
  | nil =>
    rw [List.nil_append, rsplitOnceChars, rsplitOnceChars_one_eq_none.mpr h]
    simp
  | cons x before ih => rw [List.cons_append, rsplitOnceChars, ih]

theorem not_mem_of_rsplitOnceChars_one {c : Char}
    (h : rsplitOnceChars [c] text = some (before, after)) : c ∉ after := by
  induction text generalizing before with
  | nil => cases h
  | cons x text ih =>
    rw [rsplitOnceChars] at h
    cases hsplit : rsplitOnceChars [c] text with
    | some split =>
      rw [hsplit] at h
      cases h
      exact ih hsplit
    | none =>
      rw [hsplit] at h
      by_cases hprefix : [c].isPrefixOf (x :: text) = true
      · rw [if_pos hprefix] at h
        cases h
        exact rsplitOnceChars_one_eq_none.mp hsplit
      · rw [if_neg hprefix] at h
        cases h

end LastSplit

end Sqry
