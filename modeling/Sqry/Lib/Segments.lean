import Mathlib.Data.List.Count
import Mathlib.Data.List.Basic

/-!
Compressed rows. Counting the keys of a list and summing the counts gives offsets; when
the list is sorted by key, the stretch between two consecutive offsets holds exactly the
elements with that key.
-/

namespace Segments

universe u
variable {α : Type u}

/-- How often each key below `n` occurs; larger keys are not counted. -/
def tally (n : Nat) (keys : List Nat) : List Nat :=
  keys.foldl (fun counts k => if k < n then counts.modify k (· + 1) else counts)
    (List.replicate n 0)

/-- The running sums of the counts, from `acc` on. -/
def offsets : Nat → List Nat → List Nat
  | acc, [] => [acc]
  | acc, c :: cs => acc :: offsets (acc + c) cs

theorem getElem?_foldl_modify {n : Nat} (keys counts : List Nat) (hlen : counts.length = n)
    (i : Nat) :
    (keys.foldl (fun counts k => if k < n then counts.modify k (· + 1) else counts) counts)[i]? =
      counts[i]?.map (· + keys.count i) := by
  induction keys generalizing counts with
  | nil => simp
  | cons k keys ih =>
    rw [List.foldl_cons, ih _ (by split <;> simp [hlen])]
    by_cases hk : k < n
    · rw [if_pos hk, List.getElem?_modify, List.count_cons]
      by_cases hki : k = i
      · subst hki
        simp only [if_true, beq_self_eq_true, Option.map_eq_map, Option.map_map]
        congr 1
        funext c
        show c + 1 + keys.count k = c + (keys.count k + 1)
        omega
      · simp [hki]
    · rw [if_neg hk, List.count_cons]
      by_cases hki : k = i
      · subst hki
        have hnone : counts[k]? = none := List.getElem?_eq_none (by omega)
        simp [hnone]
      · simp [hki]

theorem getElem?_tally {n i : Nat} (hi : i < n) (keys : List Nat) :
    (tally n keys)[i]? = some (keys.count i) := by
  rw [tally, getElem?_foldl_modify keys _ List.length_replicate]
  simp [hi]

theorem length_tally (n : Nat) (keys : List Nat) : (tally n keys).length = n := by
  have hlen : ∀ (counts : List Nat), (keys.foldl
      (fun counts k => if k < n then counts.modify k (· + 1) else counts) counts).length =
        counts.length := by
    induction keys with
    | nil => exact fun _ => rfl
    | cons k keys ih =>
      intro counts
      rw [List.foldl_cons, ih]
      split <;> simp
  rw [tally, hlen, List.length_replicate]

variable (acc : Nat) (cs : List Nat)

theorem length_offsets : (offsets acc cs).length = cs.length + 1 := by
  induction cs generalizing acc with
  | nil => rfl
  | cons c cs ih => simp [offsets, ih]

theorem getElem?_offsets_zero : (offsets acc cs)[0]? = some acc := by
  cases cs <;> rfl

theorem getElem?_offsets_succ {acc i v c : Nat} {cs : List Nat}
    (hv : (offsets acc cs)[i]? = some v) (hc : cs[i]? = some c) :
    (offsets acc cs)[i + 1]? = some (v + c) := by
  induction cs generalizing acc i with
  | nil => cases hc
  | cons d cs ih =>
    cases i with
    | zero =>
      cases hc
      cases hv
      simp only [offsets, List.getElem?_cons_succ, getElem?_offsets_zero]
    | succ i => exact @ih (acc + d) i hv hc

theorem countP_lt_succ (keys : List Nat) (i : Nat) :
    keys.countP (· < i + 1) = keys.countP (· < i) + keys.count i := by
  induction keys with
  | nil => rfl
  | cons k keys ih =>
    rw [List.countP_cons, List.countP_cons, List.count_cons, ih]
    by_cases hlt : k < i
    · simp [hlt, Nat.lt_succ_of_lt hlt, Nat.ne_of_lt hlt]
      omega
    · by_cases heq : k = i
      · simp [heq]
        omega
      · have hgt : ¬ k < i + 1 := by omega
        simp [hlt, heq, hgt]

theorem getElem?_offsets_tally {n i : Nat} (hi : i ≤ n) (keys : List Nat) :
    (offsets 0 (tally n keys))[i]? = some (keys.countP (· < i)) := by
  induction i with
  | zero => simp [getElem?_offsets_zero]
  | succ i ih =>
    rw [getElem?_offsets_succ (ih (by omega)) (getElem?_tally (by omega) keys), countP_lt_succ]

theorem le_of_mem_offsets {acc : Nat} {cs : List Nat} {v : Nat} (h : v ∈ offsets acc cs) :
    acc ≤ v := by
  induction cs generalizing acc with
  | nil => exact Nat.le_of_eq (List.mem_singleton.mp h).symm
  | cons c cs ih =>
    cases List.mem_cons.mp h with
    | inl heq => exact Nat.le_of_eq heq.symm
    | inr hin => exact Nat.le_trans (Nat.le_add_right acc c) (ih hin)

theorem pairwise_offsets : (offsets acc cs).Pairwise (· ≤ ·) := by
  induction cs generalizing acc with
  | nil => exact List.pairwise_singleton _ _
  | cons c cs ih =>
    rw [offsets, List.pairwise_cons]
    exact ⟨fun v hv => Nat.le_trans (Nat.le_add_right acc c) (le_of_mem_offsets hv), ih _⟩

theorem headD_offsets : (offsets acc cs).headD 0 = acc := by
  cases cs <;> rfl

theorem le_getLastD_offsets : acc ≤ (offsets acc cs).getLastD 0 := by
  have hne : offsets acc cs ≠ [] := by cases cs <;> simp [offsets]
  apply le_of_mem_offsets
  rw [List.getLastD_eq_getLast?, List.getLast?_eq_getLast_of_ne_nil hne, Option.getD_some]
  exact List.getLast_mem hne

theorem getLastD_offsets_tally (n : Nat) (keys : List Nat) :
    (offsets 0 (tally n keys)).getLastD 0 = keys.countP (· < n) := by
  have hlast := @getElem?_offsets_tally n n (Nat.le_refl n) keys
  have hlen : (offsets 0 (tally n keys)).length - 1 = n := by
    rw [length_offsets, length_tally, Nat.add_sub_cancel]
  rw [List.getLastD_eq_getLast?, List.getLast?_eq_getElem?, hlen, hlast, Option.getD_some]

/-- In a list sorted by `f`, the elements with `f a = i` follow those below `i`. -/
theorem filter_eq_take_drop {f : α → Nat} {l : List α} (hl : l.Pairwise fun a b => f a ≤ f b)
    (i : Nat) :
    l.filter (fun a => f a = i) =
      (l.drop (l.countP fun a => f a < i)).take (l.countP fun a => f a = i) := by
  induction l with
  | nil => rfl
  | cons a l ih =>
    obtain ⟨ha, htail⟩ := List.pairwise_cons.mp hl
    rw [List.countP_cons, List.countP_cons]
    rcases Nat.lt_trichotomy (f a) i with hlt | heq | hgt
    · simp [hlt, Nat.ne_of_lt hlt, ih htail]
    · have hnone : (l.countP fun b => decide (f b < i)) = 0 := by
        rw [List.countP_eq_zero]
        intro b hb
        have := ha b hb
        simp only [decide_eq_true_eq]
        omega
      have hrest := ih htail
      rw [hnone] at hrest
      simp [heq, hnone, hrest]
    · have hnone : (l.countP fun b => decide (f b = i)) = 0 := by
        rw [List.countP_eq_zero]
        intro b hb
        have := ha b hb
        simp only [decide_eq_true_eq]
        omega
      have hne : f a ≠ i := Nat.ne_of_gt hgt
      have hfilter : l.filter (fun b => decide (f b = i)) = [] := by
        rw [List.filter_eq_nil_iff]
        intro b hb
        have := ha b hb
        simp only [decide_eq_true_eq]
        omega
      simp [hne, hnone, hfilter]

theorem map_range'_getD (l : List α) (d : α) (start count : Nat)
    (h : start + count ≤ l.length) :
    (List.range' start count).map (fun i => l.getD i d) = (l.drop start).take count := by
  apply List.ext_getElem?
  intro i
  by_cases hi : i < count
  · have hlt : start + i < l.length := by omega
    simp [hi, hlt]
  · simp [List.getElem?_take, hi]

end Segments
