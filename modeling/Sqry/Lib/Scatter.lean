import Mathlib.Data.List.Basic

/-!
Writing values to the places they belong. Writes that are, in some order, the numbered
elements of a list turn any list of that length into it.
-/

namespace Scatter

universe u
variable {α : Type u}

def scatter (writes : List (Nat × α)) (out : List α) : List α :=
  writes.foldl (fun out w => out.set w.1 w.2) out

def numberFrom : Nat → List α → List (Nat × α)
  | _, [] => []
  | i, a :: l => (i, a) :: numberFrom (i + 1) l

theorem scatter_cons (w : Nat × α) (writes : List (Nat × α)) (out : List α) :
    scatter (w :: writes) out = scatter writes (out.set w.1 w.2) := rfl

theorem scatter_append (writes more : List (Nat × α)) (out : List α) :
    scatter (writes ++ more) out = scatter more (scatter writes out) := List.foldl_append

theorem length_scatter (writes : List (Nat × α)) (out : List α) :
    (scatter writes out).length = out.length := by
  induction writes generalizing out with
  | nil => rfl
  | cons w writes ih => rw [scatter_cons, ih, List.length_set]

theorem length_numberFrom (i : Nat) (l : List α) : (numberFrom i l).length = l.length := by
  induction l generalizing i with
  | nil => rfl
  | cons a l ih => rw [numberFrom, List.length_cons, List.length_cons, ih]

theorem mem_numberFrom {start i : Nat} {a : α} {l : List α} :
    (i, a) ∈ numberFrom start l ↔ start ≤ i ∧ l[i - start]? = some a := by
  induction l generalizing start with
  | nil => simp [numberFrom]
  | cons b l ih =>
    rw [numberFrom, List.mem_cons, ih]
    by_cases hstart : i = start
    · rw [hstart, Nat.sub_self, List.getElem?_cons_zero]
      constructor
      · intro h
        cases h with
        | inl heq => exact ⟨Nat.le_refl start, by rw [(Prod.mk.inj heq).2]⟩
        | inr hlater => exact absurd hlater.1 (Nat.not_succ_le_self start)
      · intro h
        exact Or.inl (by rw [Option.some.inj h.2])
    · by_cases hle : start + 1 ≤ i
      · rw [show i - start = (i - (start + 1)) + 1 by omega, List.getElem?_cons_succ]
        simp [hstart, hle, Nat.le_of_succ_le hle]
      · simp [hstart, hle, show ¬ start ≤ i by omega]

theorem getElem?_scatter {writes : List (Nat × α)} {out : List α} {i : Nat} {a : α}
    (hi : i < out.length) (hright : ∀ w ∈ writes, w.1 = i → w.2 = a)
    (h : out[i]? = some a ∨ ∃ w ∈ writes, w.1 = i) : (scatter writes out)[i]? = some a := by
  induction writes generalizing out with
  | nil =>
    cases h with
    | inl h => exact h
    | inr h =>
      obtain ⟨w, hw, _⟩ := h
      cases hw
  | cons w writes ih =>
    rw [scatter_cons]
    refine ih (by rw [List.length_set]; exact hi)
      (fun w' hw' => hright w' (List.mem_cons_of_mem w hw')) ?_
    by_cases hwi : w.1 = i
    · rw [hwi, List.getElem?_set_self hi, hright w List.mem_cons_self hwi]
      exact Or.inl rfl
    · cases h with
      | inl h =>
        rw [List.getElem?_set_ne hwi]
        exact Or.inl h
      | inr h =>
        obtain ⟨w', hw', hi'⟩ := h
        cases List.mem_cons.mp hw' with
        | inl heq => exact absurd (heq ▸ hi') hwi
        | inr hmem => exact Or.inr ⟨w', hmem, hi'⟩

theorem scatter_eq_of_perm {writes : List (Nat × α)} {out target : List α}
    (hlen : out.length = target.length) (hperm : writes.Perm (numberFrom 0 target)) :
    scatter writes out = target := by
  apply List.ext_getElem?
  intro i
  by_cases hi : i < target.length
  · rw [List.getElem?_eq_getElem hi]
    refine getElem?_scatter (by omega) ?_ (Or.inr ⟨(i, target[i]), ?_, rfl⟩)
    · intro w hw hwi
      obtain ⟨_, hget⟩ := mem_numberFrom.mp (hperm.mem_iff.mp hw)
      rw [hwi, Nat.sub_zero, List.getElem?_eq_getElem hi] at hget
      exact (Option.some.inj hget).symm
    · exact hperm.mem_iff.mpr (mem_numberFrom.mpr ⟨Nat.zero_le i, List.getElem?_eq_getElem hi⟩)
  · rw [List.getElem?_eq_none (by rw [length_scatter]; omega), List.getElem?_eq_none (by omega)]

end Scatter
