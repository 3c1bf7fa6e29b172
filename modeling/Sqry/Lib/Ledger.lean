import Mathlib.Data.List.Basic

/-!
Totals over a list of holders. What a counter should show is the total of what every
holder owes to it; a step replaces one holder, drops one, or adds one.
-/

namespace Ledger

universe u
variable {α : Type u}

def total (f : α → Nat) : List α → Nat
  | [] => 0
  | a :: l => f a + total f l

variable {f : α → Nat} {l : List α}

@[simp] theorem total_nil (f : α → Nat) : total f [] = 0 := rfl

@[simp] theorem total_cons (f : α → Nat) (a : α) (l : List α) :
    total f (a :: l) = f a + total f l := rfl

theorem total_set {i : Nat} {a : α} (h : l[i]? = some a) (b : α) :
    total f (l.set i b) + f a = total f l + f b := by
  induction l generalizing i with
  | nil => cases h
  | cons c l ih =>
    cases i with
    | zero =>
      cases h
      simp only [List.set_cons_zero, total_cons]
      omega
    | succ i =>
      have := ih (i := i) h
      simp only [List.set_cons_succ, total_cons]
      omega

theorem total_eraseIdx {i : Nat} {a : α} (h : l[i]? = some a) :
    total f (l.eraseIdx i) + f a = total f l := by
  induction l generalizing i with
  | nil => cases h
  | cons c l ih =>
    cases i with
    | zero =>
      cases h
      simp only [List.eraseIdx_cons_zero, total_cons]
      omega
    | succ i =>
      have := ih (i := i) h
      simp only [List.eraseIdx_cons_succ, total_cons]
      omega

theorem le_total {a : α} (h : a ∈ l) : f a ≤ total f l := by
  induction l with
  | nil => cases h
  | cons c l ih =>
    rw [total_cons]
    cases h with
    | head => exact Nat.le_add_right _ _
    | tail _ h => exact Nat.le_trans (ih h) (Nat.le_add_left _ _)

theorem total_perm {l l' : List α} (h : l.Perm l') : total f l = total f l' := by
  induction h with
  | nil => rfl
  | cons a _ ih => rw [total_cons, total_cons, ih]
  | swap a b l =>
    simp only [total_cons]
    omega
  | trans _ _ ih ih' => exact ih.trans ih'

theorem total_append (f : α → Nat) (l l' : List α) :
    total f (l ++ l') = total f l + total f l' := by
  induction l with
  | nil => simp
  | cons a l ih =>
    rw [List.cons_append, total_cons, total_cons, ih]
    omega

theorem total_filter_add_filter_not (f : α → Nat) (p : α → Bool) (l : List α) :
    total f (l.filter p) + total f (l.filter fun a => !p a) = total f l := by
  induction l with
  | nil => rfl
  | cons a l ih =>
    rw [List.filter_cons, List.filter_cons]
    cases p a with
    | true => simp [← ih, Nat.add_assoc]
    | false =>
      simp [← ih]
      omega

theorem total_filter_le (f : α → Nat) (p : α → Bool) (l : List α) :
    total f (l.filter p) ≤ total f l :=
  total_filter_add_filter_not f p l ▸ Nat.le_add_right _ _

end Ledger
