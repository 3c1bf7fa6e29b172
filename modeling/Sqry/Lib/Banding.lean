import Mathlib.Data.List.TakeDrop

/-!
Banding. Two sequences are cut into bands of the same width. If they differ in fewer places of
the bands than there are bands, then some band of theirs is the same.
-/

namespace Banding

universe u
variable {α : Type u}

def slice (width : Nat) (l : List α) (band : Nat) : List α := (l.drop (band * width)).take width

variable [DecidableEq α]

def agreeing (l m : List α) : Nat := (l.zip m).countP fun p => p.1 = p.2

def differing (l m : List α) : Nat := (l.zip m).countP fun p => p.1 ≠ p.2

theorem agreeing_comm (l m : List α) : agreeing l m = agreeing m l := by
  induction l generalizing m with
  | nil => simp [agreeing]
  | cons a l ih =>
    cases m with
    | nil => rfl
    | cons b m =>
      have hswap : decide (a = b) = decide (b = a) := decide_eq_decide.mpr eq_comm
      have hrest : (l.zip m).countP (fun p => p.1 = p.2) =
          (m.zip l).countP fun p => p.1 = p.2 := ih m
      simp only [agreeing, List.zip_cons_cons, List.countP_cons, hswap, hrest]

theorem agreeing_add_differing {l m : List α} (h : l.length = m.length) :
    agreeing l m + differing l m = l.length := by
  have hcount := List.length_eq_countP_add_countP (fun p : α × α => p.1 = p.2) (l := l.zip m)
  rw [List.length_zip, ← h, Nat.min_self] at hcount
  rw [hcount]
  congr 1
  exact List.countP_congr fun p _ => by simp

theorem differing_append {l l' m m' : List α} (h : l.length = m.length) :
    differing (l ++ l') (m ++ m') = differing l m + differing l' m' := by
  rw [differing, List.zip_append h, List.countP_append]
  rfl

theorem eq_of_differing_eq_zero {l m : List α} (h : l.length = m.length)
    (hzero : differing l m = 0) : l = m := by
  induction l generalizing m with
  | nil => exact (List.length_eq_zero_iff.mp h.symm).symm
  | cons a l ih =>
    cases m with
    | nil => cases h
    | cons b m =>
      rw [differing, List.zip_cons_cons, List.countP_cons] at hzero
      have hrest := ih (Nat.succ.inj h) (Nat.eq_zero_of_add_eq_zero_right hzero)
      by_cases hab : a = b
      · rw [hab, hrest]
      · rw [if_pos (decide_eq_true hab)] at hzero
        cases hzero

theorem exists_slice_eq {width bands : Nat} {l m : List α} (h : l.length = m.length)
    (hfew : differing (l.take (bands * width)) (m.take (bands * width)) < bands) :
    ∃ band, band < bands ∧ slice width l band = slice width m band := by
  induction bands with
  | zero => exact absurd hfew (Nat.not_lt_zero _)
  | succ bands ih =>
    by_cases hsame : slice width l bands = slice width m bands
    · exact ⟨bands, Nat.lt_succ_self bands, hsame⟩
    · have hslice : (slice width l bands).length = (slice width m bands).length := by
        simp only [slice, List.length_take, List.length_drop, h]
      have hpos : 0 < differing (slice width l bands) (slice width m bands) :=
        Nat.pos_of_ne_zero fun hzero => hsame (eq_of_differing_eq_zero hslice hzero)
      have hprefix : (l.take (bands * width)).length = (m.take (bands * width)).length := by
        simp only [List.length_take, h]
      rw [Nat.succ_mul, List.take_add, List.take_add, differing_append hprefix] at hfew
      have hlast : differing ((l.drop (bands * width)).take width)
          ((m.drop (bands * width)).take width) =
          differing (slice width l bands) (slice width m bands) := rfl
      obtain ⟨band, hlt, heq⟩ := ih (by omega)
      exact ⟨band, Nat.lt_succ_of_lt hlt, heq⟩

theorem differing_take_le {l m : List α} (h : l.length = m.length) (n : Nat) :
    differing (l.take n) (m.take n) ≤ differing l m := by
  have htake : (l.take n).length = (m.take n).length := by
    simp only [List.length_take, h]
  calc differing (l.take n) (m.take n)
      ≤ differing (l.take n) (m.take n) + differing (l.drop n) (m.drop n) := Nat.le_add_right _ _
    _ = differing l m := by
      rw [← differing_append htake, List.take_append_drop, List.take_append_drop]

end Banding
