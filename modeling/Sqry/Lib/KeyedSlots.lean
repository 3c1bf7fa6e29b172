import Mathlib.Data.List.AList

/-!
A table of slots with an index from the keys of the stored items to their slots, and a
list of the vacant slots that may be used again. Slot 0 is reserved and stays vacant.
-/

namespace KeyedSlots

universe u v
variable {κ : Type u} {α : Type v} [DecidableEq κ] {key : α → κ}

/-- The index finds an item by its key exactly where it is stored, and the free list holds
the vacant slots but the reserved one. -/
structure Consistent (key : α → κ) (slots : List (Option α)) (index : AList fun _ : κ => Nat)
    (free : List Nat) : Prop where
  reserved : slots[0]? = some none
  lookup_iff : ∀ k i, index.lookup k = some i ↔ ∃ a, slots[i]? = some (some a) ∧ key a = k
  free_nodup : free.Nodup
  mem_free : ∀ i, i ∈ free ↔ i ≠ 0 ∧ slots[i]? = some none

theorem consistent_new : Consistent key [none] ∅ [] where
  reserved := rfl
  lookup_iff := by
    intro k i
    rw [AList.lookup_empty]
    constructor
    · intro h
      cases h
    · intro ⟨a, hslot, _⟩
      cases i with
      | zero => cases hslot
      | succ i => cases hslot
  free_nodup := List.nodup_nil
  mem_free := by
    intro i
    cases i with
    | zero => simp
    | succ i => simp

variable {slots : List (Option α)} {index : AList fun _ : κ => Nat} {free : List Nat}

theorem Consistent.slot_inj (h : Consistent key slots index free) {i j : Nat} {a b : α}
    (hi : slots[i]? = some (some a)) (hj : slots[j]? = some (some b)) (hkey : key a = key b) :
    i = j := by
  have hfirst := (h.lookup_iff (key a) i).mpr ⟨a, hi, rfl⟩
  have hsecond := (h.lookup_iff (key a) j).mpr ⟨b, hj, hkey.symm⟩
  rw [hfirst] at hsecond
  exact Option.some.inj hsecond

theorem Consistent.fill {i : Nat} {a : α} (h : Consistent key slots index free)
    {slots' : List (Option α)} {free' : List Nat} (hnew : index.lookup (key a) = none)
    (hzero : i ≠ 0) (hvacant : ∀ b, slots[i]? ≠ some (some b))
    (hset : ∀ j, slots'[j]? = if j = i then some (some a) else slots[j]?)
    (hnodup : free'.Nodup) (hfree : ∀ j, j ∈ free' ↔ j ∈ free ∧ j ≠ i) :
    Consistent key slots' (index.insert (key a) i) free' where
  reserved := by rw [hset, if_neg (Ne.symm hzero)]; exact h.reserved
  lookup_iff := by
    intro k j
    by_cases hk : k = key a
    · rw [hk, AList.lookup_insert]
      constructor
      · intro hj
        cases hj
        exact ⟨a, by rw [hset, if_pos rfl], rfl⟩
      · intro ⟨b, hb, hkey⟩
        by_cases hji : j = i
        · rw [hji]
        · rw [hset, if_neg hji] at hb
          have hfound := (h.lookup_iff (key a) j).mpr ⟨b, hb, hkey⟩
          rw [hnew] at hfound
          cases hfound
    · rw [AList.lookup_insert_ne hk, h.lookup_iff]
      by_cases hji : j = i
      · constructor
        · intro ⟨b, hb, _⟩
          rw [hji] at hb
          exact absurd hb (hvacant b)
        · intro ⟨b, hb, hkey⟩
          rw [hset, if_pos hji] at hb
          cases hb
          exact absurd hkey.symm hk
      · rw [hset, if_neg hji]
  free_nodup := hnodup
  mem_free := by
    intro j
    rw [hfree, h.mem_free, hset]
    by_cases hji : j = i
    · simp [hji]
    · simp [hji]

theorem Consistent.reuse {i : Nat} {a : α} (h : Consistent key slots index (i :: free))
    (hnew : index.lookup (key a) = none) :
    Consistent key (slots.set i (some a)) (index.insert (key a) i) free := by
  obtain ⟨hzero, hslot⟩ := (h.mem_free i).mp List.mem_cons_self
  obtain ⟨hnot, hnodup⟩ := List.nodup_cons.mp h.free_nodup
  refine h.fill hnew hzero ?_ ?_ hnodup ?_
  · intro b hb
    rw [hslot] at hb
    cases hb
  · intro j
    have hlt : i < slots.length := (List.getElem?_eq_some_iff.mp hslot).1
    rw [List.getElem?_set]
    by_cases hji : i = j
    · rw [if_pos hji, if_pos hji.symm, if_pos (hji ▸ hlt)]
    · rw [if_neg hji, if_neg (Ne.symm hji)]
  · intro j
    rw [List.mem_cons]
    constructor
    · intro hj
      exact ⟨Or.inr hj, fun hji => hnot (hji ▸ hj)⟩
    · intro ⟨hj, hji⟩
      exact hj.resolve_left hji

theorem Consistent.append {a : α} (h : Consistent key slots index free)
    (hnew : index.lookup (key a) = none) :
    Consistent key (slots ++ [some a]) (index.insert (key a) slots.length) free := by
  have hlength : 0 < slots.length := (List.getElem?_eq_some_iff.mp h.reserved).1
  refine h.fill hnew (Nat.pos_iff_ne_zero.mp hlength) ?_ ?_ h.free_nodup ?_
  · intro b hb
    rw [List.getElem?_eq_none (Nat.le_refl _)] at hb
    cases hb
  · intro j
    by_cases hj : j = slots.length
    · rw [if_pos hj, hj, List.getElem?_concat_length]
    · rw [if_neg hj]
      by_cases hlt : j < slots.length
      · rw [List.getElem?_append_left hlt]
      · rw [List.getElem?_eq_none (by rw [List.length_append, List.length_singleton]; omega),
          List.getElem?_eq_none (Nat.le_of_not_lt hlt)]
  · intro j
    constructor
    · intro hj
      refine ⟨hj, fun heq => ?_⟩
      have hslot := ((h.mem_free j).mp hj).2
      rw [heq, List.getElem?_eq_none (Nat.le_refl _)] at hslot
      cases hslot
    · intro hj
      exact hj.1

theorem Consistent.release {i : Nat} {a : α} (h : Consistent key slots index free)
    (hslot : slots[i]? = some (some a)) :
    Consistent key (slots.set i none) (index.erase (key a)) (i :: free) := by
  have hlt : i < slots.length := (List.getElem?_eq_some_iff.mp hslot).1
  have hzero : i ≠ 0 := by
    intro heq
    rw [heq, h.reserved] at hslot
    cases hslot
  have hset : ∀ j, (slots.set i none)[j]? = if j = i then some none else slots[j]? := by
    intro j
    rw [List.getElem?_set]
    by_cases hji : i = j
    · rw [if_pos hji, if_pos hji.symm, if_pos (hji ▸ hlt)]
    · rw [if_neg hji, if_neg (Ne.symm hji)]
  refine ⟨?_, ?_, ?_, ?_⟩
  · rw [hset, if_neg (Ne.symm hzero)]
    exact h.reserved
  · intro k j
    by_cases hk : k = key a
    · rw [hk, AList.lookup_erase]
      constructor
      · intro hj
        cases hj
      · intro ⟨b, hb, hkey⟩
        rw [hset] at hb
        by_cases hji : j = i
        · rw [if_pos hji] at hb
          cases hb
        · rw [if_neg hji] at hb
          exact absurd (h.slot_inj hb hslot hkey) hji
    · rw [AList.lookup_erase_ne hk, h.lookup_iff]
      by_cases hji : j = i
      · rw [hji]
        constructor
        · intro ⟨b, hb, hkey⟩
          rw [hslot] at hb
          cases hb
          exact absurd hkey.symm hk
        · intro ⟨b, hb, _⟩
          rw [hset, if_pos rfl] at hb
          cases hb
      · rw [hset, if_neg hji]
  · refine List.nodup_cons.mpr ⟨fun hmem => ?_, h.free_nodup⟩
    have hvacant := ((h.mem_free i).mp hmem).2
    rw [hslot] at hvacant
    cases hvacant
  · intro j
    rw [List.mem_cons, h.mem_free, hset]
    by_cases hji : j = i
    · simp [hji, hzero]
    · simp [hji]

theorem Consistent.update {i : Nat} {a b : α} (h : Consistent key slots index free)
    (hslot : slots[i]? = some (some a)) (hkey : key b = key a) :
    Consistent key (slots.set i (some b)) index free := by
  have hlt : i < slots.length := (List.getElem?_eq_some_iff.mp hslot).1
  have hset : ∀ j, (slots.set i (some b))[j]? = if j = i then some (some b) else slots[j]? := by
    intro j
    rw [List.getElem?_set]
    by_cases hji : i = j
    · rw [if_pos hji, if_pos hji.symm, if_pos (hji ▸ hlt)]
    · rw [if_neg hji, if_neg (Ne.symm hji)]
  have hzero : i ≠ 0 := by
    intro heq
    rw [heq, h.reserved] at hslot
    cases hslot
  refine ⟨?_, ?_, h.free_nodup, ?_⟩
  · rw [hset, if_neg (Ne.symm hzero)]
    exact h.reserved
  · intro k j
    rw [h.lookup_iff, hset]
    by_cases hji : j = i
    · rw [if_pos hji, hji, hslot]
      constructor
      · intro ⟨c, hc, hk⟩
        cases hc
        exact ⟨b, rfl, hkey.trans hk⟩
      · intro ⟨c, hc, hk⟩
        cases hc
        exact ⟨a, rfl, hkey.symm.trans hk⟩
    · rw [if_neg hji]
  · intro j
    rw [h.mem_free, hset]
    by_cases hji : j = i
    · simp [hji, hslot]
    · simp [hji]

end KeyedSlots
