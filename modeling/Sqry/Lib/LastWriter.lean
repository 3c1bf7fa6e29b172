import Mathlib.Data.List.AList

/-!
Last-writer-wins over a log of writes. The winner of a key is the first write to it
with the largest sequence number. Replaying the log into a map that keeps, for every
key, the first write that no later one outranks computes the winners of all keys.
-/

namespace LastWriter

universe u v w
variable {α : Type u} {κ : Type v} [DecidableEq κ]

section Winner
variable (key : α → κ) (seq : α → Nat)

/-- The first write to `k` among those with the largest sequence number. -/
def winner (k : κ) : List α → Option α
  | [] => none
  | a :: l =>
    if key a = k then
      match winner k l with
      | none => some a
      | some b => if seq b ≤ seq a then some a else some b
    else winner k l

variable {key seq}
variable {k : κ} {l : List α}

theorem winner_cons_of_ne {a : α} (h : key a ≠ k) (l : List α) :
    winner key seq k (a :: l) = winner key seq k l := by
  simp only [winner, if_neg h]

theorem winner_eq_none_iff :
    winner key seq k l = none ↔ ∀ a ∈ l, key a ≠ k := by
  induction l with
  | nil => simp [winner]
  | cons a l ih =>
    by_cases hk : key a = k
    · have hsome : winner key seq k (a :: l) ≠ none := by
        simp only [winner, if_pos hk]
        split
        · simp
        · split <;> simp
      constructor
      · intro hnone
        exact absurd hnone hsome
      · intro hall
        exact absurd hk (hall a List.mem_cons_self)
    · rw [winner_cons_of_ne hk, ih]
      simp [hk]

theorem winner_spec {b : α} (h : winner key seq k l = some b) :
    b ∈ l ∧ key b = k ∧ ∀ a ∈ l, key a = k → seq a ≤ seq b := by
  induction l generalizing b with
  | nil => cases h
  | cons a l ih =>
    by_cases hk : key a = k
    · simp only [winner, if_pos hk] at h
      split at h
      · rename_i hnone
        cases h
        refine ⟨List.mem_cons_self, hk, fun c hc hck => ?_⟩
        cases List.mem_cons.mp hc with
        | inl heq => exact Nat.le_of_eq (heq ▸ rfl)
        | inr hin => exact absurd hck (winner_eq_none_iff.mp hnone c hin)
      · rename_i c hc
        obtain ⟨hmem, hkey, hmax⟩ := ih hc
        split at h
        · rename_i hle
          cases h
          refine ⟨List.mem_cons_self, hk, fun d hd hdk => ?_⟩
          cases List.mem_cons.mp hd with
          | inl heq => exact Nat.le_of_eq (heq ▸ rfl)
          | inr hin => exact Nat.le_trans (hmax d hin hdk) hle
        · rename_i hlt
          cases h
          refine ⟨List.mem_cons_of_mem a hmem, hkey, fun d hd hdk => ?_⟩
          cases List.mem_cons.mp hd with
          | inl heq => exact heq ▸ Nat.le_of_not_le hlt
          | inr hin => exact hmax d hin hdk
    · rw [winner_cons_of_ne hk] at h
      obtain ⟨hmem, hkey, hmax⟩ := ih h
      refine ⟨List.mem_cons_of_mem a hmem, hkey, fun d hd hdk => ?_⟩
      cases List.mem_cons.mp hd with
      | inl heq => exact absurd (heq ▸ hdk) hk
      | inr hin => exact hmax d hin hdk

theorem exists_winner {a : α} (ha : a ∈ l) (hk : key a = k) :
    ∃ b, winner key seq k l = some b := by
  cases h : winner key seq k l with
  | none => exact absurd hk (winner_eq_none_iff.mp h a ha)
  | some b => exact ⟨b, rfl⟩

theorem winner_filter {p : α → Bool} (hp : ∀ a, key a = k → p a = true) (l : List α) :
    winner key seq k (l.filter p) = winner key seq k l := by
  induction l with
  | nil => rfl
  | cons a l ih =>
    by_cases hk : key a = k
    · rw [List.filter_cons_of_pos (hp a hk)]
      simp only [winner, if_pos hk, ih]
    · rw [winner_cons_of_ne hk, ← ih]
      by_cases hpa : p a = true
      · rw [List.filter_cons_of_pos hpa, winner_cons_of_ne hk]
      · rw [List.filter_cons_of_neg hpa]

theorem winner_append_of_ne (h : ∀ a ∈ l, key a ≠ k) (m : List α) :
    winner key seq k (l ++ m) = winner key seq k m := by
  induction l with
  | nil => rfl
  | cons a l ih =>
    rw [List.cons_append, winner_cons_of_ne (h a List.mem_cons_self)]
    exact ih fun b hb => h b (List.mem_cons_of_mem a hb)

theorem winner_append_left_of_ne {m : List α} (h : ∀ a ∈ m, key a ≠ k) (l : List α) :
    winner key seq k (l ++ m) = winner key seq k l := by
  induction l with
  | nil => exact winner_eq_none_iff.mpr h
  | cons a l ih => simp only [List.cons_append, winner, ih]

theorem winner_eq_of_lt {b : α} (hb : b ∈ l) (hk : key b = k)
    (hmax : ∀ a ∈ l, key a = k → a = b ∨ seq a < seq b) : winner key seq k l = some b := by
  have hexists : ∃ c, winner key seq k l = some c := exists_winner hb hk
  obtain ⟨c, hc⟩ := hexists
  obtain ⟨hmem, hkey, hle⟩ := winner_spec hc
  cases hmax c hmem hkey with
  | inl heq => rw [hc, heq]
  | inr hlt => exact absurd (hle b hb hk) (Nat.not_le_of_lt hlt)

/-- Where the writes to a key have distinct numbers, the order of the log is irrelevant. -/
theorem winner_perm {l m : List α} (h : l.Perm m)
    (hinj : ∀ a ∈ l, ∀ b ∈ l, key a = k → key b = k → seq a = seq b → a = b) :
    winner key seq k l = winner key seq k m := by
  cases hl : winner key seq k l with
  | none =>
    have hm : winner key seq k m = none := by
      rw [winner_eq_none_iff] at hl ⊢
      exact fun a ha => hl a (h.mem_iff.mpr ha)
    rw [hm]
  | some b =>
    obtain ⟨hmem, hkey, hmax⟩ := winner_spec hl
    apply Eq.symm
    apply winner_eq_of_lt (h.mem_iff.mp hmem) hkey
    intro a ha hka
    have hal := h.mem_iff.mpr ha
    cases Nat.lt_or_eq_of_le (hmax a hal hka) with
    | inl hlt => exact .inr hlt
    | inr heq => exact .inl (hinj a hal b hmem hka hkey heq)

end Winner

section Table
variable {β : Type w} (key : α → κ) (seq : α → Nat) (rank : β → Nat) (entry : α → β)

/-- One write replayed into the map: it is kept unless the map has a write to the key
whose sequence number is at least as large. -/
def record (m : AList fun _ : κ => β) (a : α) : AList fun _ : κ => β :=
  match m.lookup (key a) with
  | some b => if rank b ≥ seq a then m else m.insert (key a) (entry a)
  | none => m.insert (key a) (entry a)

def table (l : List α) : AList fun _ : κ => β := l.foldl (record key seq rank entry) ∅

variable {key seq rank entry}

theorem lookup_record_ne (m : AList fun _ : κ => β) {a : α} {k : κ} (h : key a ≠ k) :
    (record key seq rank entry m a).lookup k = m.lookup k := by
  unfold record
  split
  · split
    · rfl
    · rw [AList.lookup_insert_ne (Ne.symm h)]
  · rw [AList.lookup_insert_ne (Ne.symm h)]

theorem lookup_foldl_record (hrank : ∀ a, rank (entry a) = seq a) (k : κ) (l : List α)
    (m : AList fun _ : κ => β) :
    (l.foldl (record key seq rank entry) m).lookup k =
      match m.lookup k, winner key seq k l with
      | none, found => found.map entry
      | some b, none => some b
      | some b, some a => if rank b ≥ seq a then some b else some (entry a) := by
  induction l generalizing m with
  | nil =>
    simp only [List.foldl_nil, winner]
    cases m.lookup k <;> rfl
  | cons a l ih =>
    rw [List.foldl_cons, ih]
    by_cases hk : key a = k
    · subst hk
      simp only [winner, if_true]
      cases hm : m.lookup (key a) with
      | none =>
        simp only [record, hm, AList.lookup_insert]
        cases hw : winner key seq (key a) l with
        | none => rfl
        | some c =>
          simp only [hrank, ge_iff_le]
          by_cases hle : seq c ≤ seq a <;> simp [hle]
      | some b =>
        simp only [record, hm]
        by_cases hb : rank b ≥ seq a
        · simp only [if_pos hb, hm]
          cases hw : winner key seq (key a) l with
          | none => simp [hb]
          | some c =>
            by_cases hle : seq c ≤ seq a
            · simp [hle, hb, Nat.le_trans hle hb]
            · simp [hle]
        · simp only [if_neg hb, AList.lookup_insert]
          cases hw : winner key seq (key a) l with
          | none => simp [hb]
          | some c =>
            simp only [hrank, ge_iff_le]
            by_cases hle : seq c ≤ seq a
            · simp [hle, hb]
            · have hbc : ¬ seq c ≤ rank b := by omega
              simp [hle, hbc]
    · rw [lookup_record_ne m hk, winner_cons_of_ne hk]

theorem lookup_table (hrank : ∀ a, rank (entry a) = seq a) (k : κ) (l : List α) :
    (table key seq rank entry l).lookup k = (winner key seq k l).map entry := by
  rw [table, lookup_foldl_record hrank]
  rfl

end Table
end LastWriter
