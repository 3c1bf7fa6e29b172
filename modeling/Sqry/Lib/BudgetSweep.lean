import Mathlib.Algebra.Order.BigOperators.Group.List
import Mathlib.Algebra.Order.Ring.Nat

/-!
Removing entries until every budget is met. A budget limits the total weight of the entries it
covers, and an entry may be under several of them. One pass over the entries removes those that
are not held and that a budget in excess covers at that moment.
-/

namespace BudgetSweep

universe u v
variable {α : Type u} {ι : Type v}

structure Budgets (α : Type u) (ι : Type v) where
  weight : α → Nat
  covers : ι → α → Bool
  limit : ι → Nat

namespace Budgets
variable (B : Budgets α ι)

def total (i : ι) (present : List α) : Nat := ((present.filter (B.covers i)).map B.weight).sum

def Fits (present : List α) : Prop := ∀ i, B.total i present ≤ B.limit i

def Due (present : List α) (a : α) : Prop :=
  ∃ i, B.covers i a = true ∧ B.limit i < B.total i present

variable {less more : List α}

theorem total_mono (h : less.Sublist more) (i : ι) :
    B.total i less ≤ B.total i more :=
  ((h.filter _).map _).sum_le_sum fun _ _ => Nat.zero_le _

theorem total_perm {l m : List α} (h : l.Perm m) (i : ι) : B.total i l = B.total i m :=
  ((h.filter _).map _).sum_nat

theorem total_append (i : ι) (l : List α) (a : α) :
    B.total i (l ++ [a]) = B.total i l + if B.covers i a then B.weight a else 0 := by
  cases h : B.covers i a with
  | true => simp [total, h]
  | false => simp [total, h]

theorem total_filter_ne [DecidableEq α] {l : List α} (hnodup : l.Nodup) {a : α} (ha : a ∈ l)
    (i : ι) : B.total i (l.filter (· ≠ a)) + (if B.covers i a then B.weight a else 0) =
      B.total i l := by
  have hperm : (l.filter (· ≠ a) ++ [a]).Perm l := by
    have herase : l.filter (· ≠ a) = l.erase a := by
      rw [hnodup.erase_eq_filter a]
      exact List.filter_congr fun b _ => Bool.eq_iff_iff.mpr (by simp)
    rw [herase]
    exact List.perm_append_comm.trans (List.perm_cons_erase ha).symm
  rw [← B.total_perm hperm i, B.total_append]

variable {B}

theorem fits_mono (h : less.Sublist more) (hfits : B.Fits more) :
    B.Fits less :=
  fun i => Nat.le_trans (B.total_mono h i) (hfits i)

theorem due_mono (h : less.Sublist more) {a : α} (hdue : B.Due less a) :
    B.Due more a := by
  obtain ⟨i, hcovers, hlt⟩ := hdue
  exact ⟨i, hcovers, Nat.lt_of_lt_of_le hlt (B.total_mono h i)⟩

theorem not_due_of_fits {present : List α} (h : B.Fits present) (a : α) : ¬ B.Due present a := by
  intro hdue
  obtain ⟨i, _, hlt⟩ := hdue
  exact Nat.not_lt_of_le (h i) hlt

end Budgets

section Sweep
variable [DecidableEq α] {B : Budgets α ι} {held : α → Bool}

def left (present removed : List α) : List α := present.filter (· ∉ removed)

theorem left_sublist (present removed : List α) : (left present removed).Sublist present :=
  List.filter_sublist

theorem left_nil (present : List α) : left present [] = present := by
  simp [left]

theorem left_cons (present : List α) (a : α) (removed : List α) :
    left present (a :: removed) = left (present.filter (· ≠ a)) removed := by
  rw [left, left, List.filter_filter]
  refine List.filter_congr fun b _ => ?_
  simp [Bool.and_comm]

/-- `Sweeps B held present rest removed`: the pass over `rest` removes `removed`, in this order. -/
inductive Sweeps (B : Budgets α ι) (held : α → Bool) : List α → List α → List α → Prop
  | done {present : List α} : Sweeps B held present [] []
  | skip {present rest removed : List α} {a : α} (hdue : ¬ B.Due present a)
      (hrest : Sweeps B held present rest removed) : Sweeps B held present (a :: rest) removed
  | hold {present rest removed : List α} {a : α} (hheld : held a = true)
      (hrest : Sweeps B held present rest removed) : Sweeps B held present (a :: rest) removed
  | remove {present rest removed : List α} {a : α} (hheld : held a = false)
      (hdue : B.Due present a) (hrest : Sweeps B held (present.filter (· ≠ a)) rest removed) :
      Sweeps B held present (a :: rest) (a :: removed)

theorem sweeps_of_fits {present : List α} (h : B.Fits present) (rest : List α) :
    Sweeps B held present rest [] := by
  induction rest with
  | nil => exact .done
  | cons a rest ih => exact .skip (Budgets.not_due_of_fits h a) ih

variable {present rest removed : List α} {a : α}

theorem held_of_mem_removed (h : Sweeps B held present rest removed) (ha : a ∈ removed)
    : held a = false := by
  induction h with
  | done => cases ha
  | skip _ _ ih => exact ih ha
  | hold _ _ ih => exact ih ha
  | remove hheld _ _ ih =>
    cases ha with
    | head => exact hheld
    | tail _ ha => exact ih ha

theorem due_of_removed (h : Sweeps B held present rest removed) {before later : List α}
    (hsplit : removed = before ++ a :: later) :
    B.Due (left present before) a := by
  induction h generalizing before with
  | done => simp at hsplit
  | skip _ _ ih => exact ih hsplit
  | hold _ _ ih => exact ih hsplit
  | remove _ hdue _ ih =>
    cases before with
    | nil =>
      cases hsplit
      rw [left_nil]
      exact hdue
    | cons b before =>
      cases hsplit
      rw [left_cons]
      exact ih rfl

theorem due_of_mem_removed (h : Sweeps B held present rest removed) (ha : a ∈ removed)
    : B.Due present a := by
  obtain ⟨before, later, hsplit⟩ := List.append_of_mem ha
  exact Budgets.due_mono (left_sublist present before) (due_of_removed h hsplit)

theorem not_due_of_kept (h : Sweeps B held present rest removed) (ha : a ∈ rest)
    (hkept : a ∉ removed) (hfree : held a = false) :
    ¬ B.Due (left present removed) a := by
  induction h with
  | done => cases ha
  | skip hdue _ ih =>
    cases ha with
    | head => exact fun h => hdue (Budgets.due_mono (left_sublist _ _) h)
    | tail _ ha => exact ih ha hkept
  | hold hheld _ ih =>
    cases ha with
    | head => exact absurd (hheld.symm.trans hfree) (by decide)
    | tail _ ha => exact ih ha hkept
  | remove _ _ _ ih =>
    rw [List.mem_cons, not_or] at hkept
    rw [left_cons]
    cases ha with
    | head => exact absurd rfl hkept.1
    | tail _ ha => exact ih ha hkept.2

theorem rel_of_kept {R : α → α → Prop} (h : Sweeps B held present rest removed)
    (horder : rest.Pairwise R) {a b : α} (ha : a ∈ removed) (hb : b ∈ rest) (hkept : b ∉ removed)
    (hfree : held b = false) (hcovers : ∀ i, B.covers i a = true → B.covers i b = true)
    : R a b := by
  induction h with
  | done => cases ha
  | skip hdue hrest ih =>
    cases hb with
    | head =>
      obtain ⟨i, hcovered, hlt⟩ := due_of_mem_removed hrest ha
      exact absurd ⟨i, hcovers i hcovered, hlt⟩ hdue
    | tail _ hb => exact ih (List.pairwise_cons.mp horder).2 ha hb hkept
  | hold hheld _ ih =>
    cases hb with
    | head => exact absurd (hheld.symm.trans hfree) (by decide)
    | tail _ hb => exact ih (List.pairwise_cons.mp horder).2 ha hb hkept
  | remove _ _ _ ih =>
    rw [List.mem_cons, not_or] at hkept
    have hlater := (List.mem_cons.mp hb).resolve_left hkept.1
    have horder := List.pairwise_cons.mp horder
    cases ha with
    | head => exact horder.1 b hlater
    | tail _ ha => exact ih horder.2 ha hlater hkept.2

theorem fits_left_iff (h : Sweeps B held present rest removed) (hall : ∀ a ∈ present, a ∈ rest) :
    B.Fits (left present removed) ↔ B.Fits (present.filter held) := by
  constructor
  · intro hfits
    refine Budgets.fits_mono ?_ hfits
    have hsub : present.filter held = (left present removed).filter held := by
      rw [left, List.filter_filter]
      refine List.filter_congr fun a _ => ?_
      by_cases ha : a ∈ removed
      · simp [held_of_mem_removed h ha]
      · simp [ha]
    rw [hsub]
    exact List.filter_sublist
  · intro hfits i
    by_contra hlt
    have hlt := Nat.lt_of_not_le hlt
    -- every entry under the budget in excess is held
    have hheld : (left present removed).filter (B.covers i) =
        ((left present removed).filter held).filter (B.covers i) := by
      rw [List.filter_filter]
      refine List.filter_congr fun a ha => ?_
      cases hcovers : B.covers i a with
      | false => rfl
      | true =>
        obtain ⟨hpresent, hkept⟩ := List.mem_filter.mp ha
        have hnot := not_due_of_kept h (hall a hpresent) (of_decide_eq_true hkept)
        cases hfree : held a with
        | true => rfl
        | false => exact absurd ⟨i, hcovers, hlt⟩ (hnot hfree)
    have hle : B.total i (left present removed) ≤ B.total i (present.filter held) := by
      rw [Budgets.total, hheld]
      exact B.total_mono ((left_sublist present removed).filter held) i
    exact Nat.not_lt_of_le (Nat.le_trans hle (hfits i)) hlt

end Sweep

end BudgetSweep
