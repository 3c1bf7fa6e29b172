import Mathlib.Data.List.Basic

/-!
Lists in which at most one position has a property, and the element there. A step that
changes one position keeps this if the position had the property before, or if none had.
-/

namespace Sole

universe u
variable {α : Type u} {p : α → Bool} {l : List α} {i : Nat} {a b : α}

def AtMostOne (p : α → Bool) (l : List α) : Prop :=
  ∀ (i j : Nat) (a b : α), l[i]? = some a → l[j]? = some b → p a = true → p b = true → i = j

def sole (p : α → Bool) (l : List α) : Option α := l.find? p

theorem atMostOne_nil (p : α → Bool) : AtMostOne p [] := by
  intro i j a b ha
  simp at ha

theorem sole_eq_none_iff : sole p l = none ↔ ∀ a ∈ l, p a = false := by
  simp [sole]

theorem sole_mem (h : sole p l = some a) : a ∈ l ∧ p a = true :=
  ⟨List.mem_of_find?_eq_some h, List.find?_some h⟩

theorem AtMostOne.eq_of_mem (h : AtMostOne p l) (ha : a ∈ l) (hb : b ∈ l) (hpa : p a = true)
    (hpb : p b = true) : a = b := by
  obtain ⟨i, hi⟩ := List.mem_iff_getElem?.mp ha
  obtain ⟨j, hj⟩ := List.mem_iff_getElem?.mp hb
  have hij := h i j a b hi hj hpa hpb
  rw [hij, hj] at hi
  exact (Option.some.inj hi).symm

theorem AtMostOne.sole_eq (h : AtMostOne p l) (ha : a ∈ l) (hpa : p a = true) :
    sole p l = some a := by
  cases hsole : sole p l with
  | none =>
    rw [sole_eq_none_iff.mp hsole a ha] at hpa
    cases hpa
  | some c =>
    obtain ⟨hc, hpc⟩ := sole_mem hsole
    rw [h.eq_of_mem hc ha hpc hpa]

section Set

theorem getElem?_set_cases {j : Nat} (h : (l.set i b)[j]? = some a) :
    (j = i ∧ a = b) ∨ (j ≠ i ∧ l[j]? = some a) := by
  rw [List.getElem?_set] at h
  split at h
  next hij =>
    split at h
    · exact Or.inl ⟨hij.symm, (Option.some.inj h).symm⟩
    · cases h
  next hij => exact Or.inr ⟨fun heq => hij heq.symm, h⟩

theorem mem_set_of_sole (h : AtMostOne p l) (hi : l[i]? = some a) (hpa : p a = true) {c : α}
    (hc : c ∈ l.set i b) (hpc : p c = true) : c = b := by
  obtain ⟨j, hj⟩ := List.mem_iff_getElem?.mp hc
  obtain ⟨-, hcb⟩ | ⟨hji, hj⟩ := getElem?_set_cases hj
  · exact hcb
  · exact absurd (h j i c a hj hi hpc hpa) hji

theorem mem_set_of_none (hnone : ∀ c ∈ l, p c = false) {c : α} (hc : c ∈ l.set i b)
    (hpc : p c = true) : c = b := by
  obtain ⟨j, hj⟩ := List.mem_iff_getElem?.mp hc
  obtain ⟨-, hcb⟩ | ⟨-, hj⟩ := getElem?_set_cases hj
  · exact hcb
  · rw [hnone c (List.mem_of_getElem? hj)] at hpc
    cases hpc

theorem AtMostOne.set (h : AtMostOne p l) (hi : l[i]? = some a)
    (hkeep : p b = true → p a = true ∨ ∀ c ∈ l, p c = false) : AtMostOne p (l.set i b) := by
  intro j k c d hj hk hpc hpd
  obtain ⟨hj, hcb⟩ | ⟨hji, hj⟩ := getElem?_set_cases hj
  · obtain ⟨hk, -⟩ | ⟨hki, hk⟩ := getElem?_set_cases hk
    · rw [hj, hk]
    · rw [hcb] at hpc
      obtain hpa | hnone := hkeep hpc
      · exact hj.trans (h i k a d hi hk hpa hpd)
      · rw [hnone d (List.mem_of_getElem? hk)] at hpd
        cases hpd
  · obtain ⟨hk, hdb⟩ | ⟨hki, hk⟩ := getElem?_set_cases hk
    · rw [hdb] at hpd
      obtain hpa | hnone := hkeep hpd
      · exact (h j i c a hj hi hpc hpa).trans hk.symm
      · rw [hnone c (List.mem_of_getElem? hj)] at hpc
        cases hpc
    · exact h j k c d hj hk hpc hpd

theorem mem_set_self (hi : l[i]? = some a) : b ∈ l.set i b := by
  obtain ⟨hlt, -⟩ := List.getElem?_eq_some_iff.mp hi
  exact List.mem_set hlt b

theorem sole_set (h : AtMostOne p l) (hi : l[i]? = some a)
    (hone : p a = true ∨ ∀ c ∈ l, p c = false) :
    sole p (l.set i b) = if p b = true then some b else none := by
  have honly : ∀ c ∈ l.set i b, p c = true → c = b := by
    intro c hc hpc
    cases hone with
    | inl hpa => exact mem_set_of_sole h hi hpa hc hpc
    | inr hnone => exact mem_set_of_none hnone hc hpc
  split
  next hpb => exact (h.set hi fun _ => hone).sole_eq (mem_set_self hi) hpb
  next hpb =>
    refine sole_eq_none_iff.mpr fun c hc => Bool.eq_false_iff.mpr fun hpc => hpb ?_
    rw [← honly c hc hpc]
    exact hpc

theorem sole_set_of_not (h : AtMostOne p l) (hi : l[i]? = some a) (hpa : p a = false)
    (hpb : p b = false) : sole p (l.set i b) = sole p l := by
  have hset : AtMostOne p (l.set i b) := h.set hi fun hb => absurd hb (by simp [hpb])
  cases hsole : sole p l with
  | none =>
    refine sole_eq_none_iff.mpr fun c hc => Bool.eq_false_iff.mpr fun hpc => ?_
    rw [mem_set_of_none (sole_eq_none_iff.mp hsole) hc hpc, hpb] at hpc
    cases hpc
  | some c =>
    obtain ⟨hc, hpc⟩ := sole_mem hsole
    obtain ⟨j, hj⟩ := List.mem_iff_getElem?.mp hc
    refine hset.sole_eq (List.mem_iff_getElem?.mpr ⟨j, ?_⟩) hpc
    rw [List.getElem?_set_ne, hj]
    intro hij
    rw [← hij, hi] at hj
    rw [Option.some.inj hj, hpc] at hpa
    cases hpa

end Set

section Append

theorem AtMostOne.append (h : AtMostOne p l)
    (hkeep : p b = true → ∀ c ∈ l, p c = false) : AtMostOne p (l ++ [b]) := by
  have hcases : ∀ {j c}, (l ++ [b])[j]? = some c → l[j]? = some c ∨ (j = l.length ∧ c = b) := by
    intro j c hj
    rw [List.getElem?_append] at hj
    split at hj
    · exact Or.inl hj
    next hlt =>
      rw [List.getElem?_singleton] at hj
      split at hj
      next hzero => exact Or.inr ⟨by omega, (Option.some.inj hj).symm⟩
      · cases hj
  intro j k c d hj hk hpc hpd
  obtain hj | ⟨hj, hcb⟩ := hcases hj
  · obtain hk | ⟨-, hdb⟩ := hcases hk
    · exact h j k c d hj hk hpc hpd
    · rw [hdb] at hpd
      rw [hkeep hpd c (List.mem_of_getElem? hj)] at hpc
      cases hpc
  · obtain hk | ⟨hk, -⟩ := hcases hk
    · rw [hcb] at hpc
      rw [hkeep hpc d (List.mem_of_getElem? hk)] at hpd
      cases hpd
    · rw [hj, hk]

theorem sole_append_of_not (hpb : p b = false) : sole p (l ++ [b]) = sole p l := by
  simp [sole, List.find?_append, hpb]

theorem sole_append_of_none (hnone : sole p l = none) (hpb : p b = true) :
    sole p (l ++ [b]) = some b := by
  have hnone : l.find? p = none := hnone
  rw [sole, List.find?_append, hnone]
  simp [hpb]

end Append

end Sole
