import Sqry.Lib.SortedGroups

/-!
A sorted list together with the range that each key occupies in it, and what a binary search
promises. The range of a key holds all elements with that key. Of several that compare equal a
search may return any.
-/

namespace RangeIndex

universe u v
variable {α : Type u} {κ : Type v} [DecidableEq κ]

section Build
variable (key : α → κ)

def file (state : Nat × AList fun _ : κ => Nat × Nat) :
    List α → Nat × AList fun _ : κ => Nat × Nat
  | [] => state
  | a :: run =>
    (state.1 + (run.length + 1),
      state.2.insert (key a) (state.1, state.1 + (run.length + 1)))

def build (l : List α) : AList fun _ : κ => Nat × Nat :=
  ((SortedGroups.groups key l).foldl (file key) (0, ∅)).2

end Build

def slice (l : List α) (index : AList fun _ : κ => Nat × Nat) (k : κ) : List α :=
  match index.lookup k with
  | some range => (l.drop range.1).take (range.2 - range.1)
  | none => []

variable {key : α → κ}

theorem lookup_foldl_of_absent {runs : List (List α)} {k : κ}
    (h : ∀ run ∈ runs, ∀ a ∈ run, key a ≠ k) (state : Nat × AList fun _ : κ => Nat × Nat) :
    (runs.foldl (file key) state).2.lookup k = state.2.lookup k := by
  induction runs generalizing state with
  | nil => rfl
  | cons run runs ih =>
    rw [List.foldl_cons, ih fun other hother => h other (List.mem_cons_of_mem run hother)]
    cases run with
    | nil => rfl
    | cons a run =>
      exact AList.lookup_insert_ne (Ne.symm (h _ List.mem_cons_self a List.mem_cons_self))

theorem fst_foldl (runs : List (List α)) (state : Nat × AList fun _ : κ => Nat × Nat) :
    (runs.foldl (file key) state).1 = state.1 + runs.flatten.length := by
  induction runs generalizing state with
  | nil => rfl
  | cons run runs ih =>
    rw [List.foldl_cons, ih, List.flatten_cons, List.length_append]
    cases run with
    | nil => simp [file]
    | cons a run => simp [file, Nat.add_assoc]

theorem lookup_build {before after : List (List α)} {a : α} {run : List α}
    (h : ∀ other ∈ after, ∀ b ∈ other, key b ≠ key a) :
    ((before ++ (a :: run) :: after).foldl (file key) (0, ∅)).2.lookup (key a) =
      some (before.flatten.length, before.flatten.length + (run.length + 1)) := by
  rw [List.foldl_append, List.foldl_cons, lookup_foldl_of_absent h, file]
  simp only [AList.lookup_insert, fst_foldl, Nat.zero_add]

theorem slice_build {rel : κ → κ → Prop} (hanti : ∀ k k', rel k k' → rel k' k → k = k')
    {l : List α} (hl : l.Pairwise fun a b => rel (key a) (key b)) (k : κ) :
    slice l (build key l) k = l.filter fun a => decide (key a = k) := by
  obtain ⟨hnodup, hmem⟩ := SortedGroups.heads_spec hanti hl
  have hruns := SortedGroups.groups_eq_map_heads hanti hl
  cases hfind : l.find? fun b => decide (key b = k) with
  | none =>
    have habsent : ∀ a ∈ l, key a ≠ k := fun a ha => by
      simpa using List.find?_eq_none.mp hfind a ha
    have hfilter : (l.filter fun a => decide (key a = k)) = [] :=
      List.filter_eq_nil_iff.mpr fun a ha => by simpa using habsent a ha
    have hlookup : (build key l).lookup k = none := by
      rw [build, lookup_foldl_of_absent fun run hrun a ha => habsent a ?_]
      · rfl
      · rw [← @SortedGroups.flatten_groups α κ _ key l]
        exact List.mem_flatten.mpr ⟨run, hrun, ha⟩
    rw [slice, hlookup, hfilter]
  | some x =>
    have hxk : key x = k := by simpa using List.find?_some hfind
    have hx : x ∈ SortedGroups.heads key l := (hmem x).mpr (by rw [hxk]; exact hfind)
    obtain ⟨front, back, hsplit⟩ := List.append_of_mem hx
    have hgroups : SortedGroups.groups key l =
        front.map (fun y => l.filter fun b => decide (key b = key y)) ++
          (l.filter fun b => decide (key b = k)) ::
            back.map fun y => l.filter fun b => decide (key b = key y) := by
      rw [hruns, hsplit, List.map_append, List.map_cons, hxk]
    have hlater : ∀ y ∈ back, key y ≠ k := by
      rw [hsplit, List.map_append, List.map_cons] at hnodup
      obtain ⟨-, htail, -⟩ := List.nodup_append.mp hnodup
      intro y hy heq
      exact (List.nodup_cons.mp htail).1 (hxk ▸ heq ▸ List.mem_map_of_mem hy)
    have hflat := @SortedGroups.flatten_groups α κ _ key l
    generalize hrun : (l.filter fun b => decide (key b = k)) = run at hgroups ⊢
    cases run with
    | nil =>
      have hin : x ∈ l.filter fun b => decide (key b = k) :=
        List.mem_filter.mpr ⟨List.mem_of_find?_eq_some hfind, decide_eq_true hxk⟩
      rw [hrun] at hin
      cases hin
    | cons a run =>
      have hak : key a = k := by
        have hin : a ∈ l.filter fun b => decide (key b = k) := hrun ▸ List.mem_cons_self
        exact of_decide_eq_true (List.mem_filter.mp hin).2
      have hlookup : (build key l).lookup k = some
          ((front.map fun y => l.filter fun b => decide (key b = key y)).flatten.length,
            (front.map fun y => l.filter fun b => decide (key b = key y)).flatten.length +
              (run.length + 1)) := by
        rw [build, hgroups, ← hak]
        refine lookup_build fun other hother b hb => ?_
        obtain ⟨y, hy, heq⟩ := List.mem_map.mp hother
        rw [← heq] at hb
        rw [of_decide_eq_true (List.mem_filter.mp hb).2, hak]
        exact hlater y hy
      rw [hgroups, List.flatten_append, List.flatten_cons] at hflat
      rw [slice, hlookup]
      generalize (front.map fun y => l.filter fun b => decide (key b = key y)).flatten = before
        at hflat
      simp only [Nat.add_sub_cancel_left]
      rw [← hflat, List.drop_left, List.take_left' List.length_cons]

theorem find?_reverse_spec {f : α → Nat} {p : α → Bool} {l : List α}
    (hl : l.Pairwise fun a b => f a ≤ f b) {a : α} (h : l.reverse.find? p = some a) :
    a ∈ l ∧ p a = true ∧ ∀ b ∈ l, p b = true → f b ≤ f a := by
  obtain ⟨hp, behind, before, hsplit, hbehind⟩ := List.find?_eq_some_iff_append.mp h
  have heq : l = before.reverse ++ a :: behind.reverse := by
    rw [← List.reverse_reverse l, hsplit]
    simp
  rw [heq] at hl ⊢
  obtain ⟨-, -, hbefore⟩ := List.pairwise_append.mp hl
  refine ⟨List.mem_append_right _ List.mem_cons_self, hp, fun b hb hpb => ?_⟩
  cases List.mem_append.mp hb with
  | inl hin => exact hbefore b hin a List.mem_cons_self
  | inr hin =>
    cases List.mem_cons.mp hin with
    | inl hsame => rw [hsame]
    | inr hin =>
      have hnot := hbehind b (List.mem_reverse.mp hin)
      rw [hpb] at hnot
      cases hnot

section Search

def Ascending (probe : α → Ordering) (l : List α) : Prop :=
  l.Pairwise fun a b => (probe a = .gt → probe b = .gt) ∧ (probe b = .lt → probe a = .lt)

/-- The promise of `binary_search_by`: any of the matching positions, and none if there is none. -/
structure IsBinarySearch (search : List α → (α → Ordering) → Option Nat) : Prop where
  found : ∀ l probe i, Ascending probe l → search l probe = some i →
    ∃ a, l[i]? = some a ∧ probe a = .eq
  missed : ∀ l probe, Ascending probe l → search l probe = none → ∀ a ∈ l, probe a ≠ .eq

def rightmost : List α → (α → Ordering) → Option Nat
  | [], _ => none
  | a :: l, probe =>
    match rightmost l probe with
    | some i => some (i + 1)
    | none => if probe a = .eq then some 0 else none

theorem isBinarySearch_rightmost : IsBinarySearch (@rightmost α) where
  found l probe i hascending h := by
    clear hascending
    induction l generalizing i with
    | nil => cases h
    | cons a l ih =>
      rw [rightmost] at h
      cases hrest : rightmost l probe with
      | some j =>
        rw [hrest] at h
        cases h
        exact ih j hrest
      | none =>
        simp only [hrest] at h
        split at h
        · rename_i hprobe
          cases h
          exact ⟨a, rfl, hprobe⟩
        · cases h
  missed l probe hascending h := by
    clear hascending
    induction l with
    | nil => exact fun a ha => absurd ha List.not_mem_nil
    | cons a l ih =>
      rw [rightmost] at h
      cases hrest : rightmost l probe with
      | some j =>
        rw [hrest] at h
        cases h
      | none =>
        simp only [hrest] at h
        split at h
        · cases h
        · rename_i hprobe
          exact List.forall_mem_cons.mpr ⟨hprobe, ih hrest⟩

def preferring (prefer : α → Bool) (l : List α) (probe : α → Ordering) : Option Nat :=
  (l.findIdx? fun a => decide (probe a = .eq) && prefer a).or
    (l.findIdx? fun a => decide (probe a = .eq))

theorem isBinarySearch_preferring (prefer : α → Bool) : IsBinarySearch (preferring prefer) where
  found l probe i _ h := by
    rw [preferring, Option.or_eq_some_iff] at h
    cases h with
    | inl hfirst =>
      obtain ⟨hlt, hprobe, -⟩ := List.findIdx?_eq_some_iff_getElem.mp hfirst
      rw [Bool.and_eq_true, decide_eq_true_iff] at hprobe
      exact ⟨l[i], List.getElem?_eq_getElem hlt, hprobe.1⟩
    | inr hsecond =>
      obtain ⟨hlt, hprobe, -⟩ := List.findIdx?_eq_some_iff_getElem.mp hsecond.2
      exact ⟨l[i], List.getElem?_eq_getElem hlt, of_decide_eq_true hprobe⟩
  missed l probe _ h a ha := by
    rw [preferring, Option.or_eq_none_iff] at h
    simpa using List.findIdx?_eq_none_iff.mp h.2 a ha

theorem preferring_spec {prefer : α → Bool} {l : List α} {probe : α → Ordering} {a : α}
    (ha : a ∈ l) (hprobe : probe a = .eq) (hprefer : prefer a = true) :
    ∃ i b, preferring prefer l probe = some i ∧ l[i]? = some b ∧ prefer b = true := by
  cases hfirst : l.findIdx? fun a => decide (probe a = .eq) && prefer a with
  | none =>
    have hnot := List.findIdx?_eq_none_iff.mp hfirst a ha
    simp [hprobe, hprefer] at hnot
  | some i =>
    obtain ⟨hlt, hboth, -⟩ := List.findIdx?_eq_some_iff_getElem.mp hfirst
    rw [Bool.and_eq_true] at hboth
    refine ⟨i, l[i], ?_, List.getElem?_eq_getElem hlt, hboth.2⟩
    rw [preferring, hfirst, Option.some_or]

end Search

end RangeIndex
