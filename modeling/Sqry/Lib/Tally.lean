import Mathlib.Algebra.BigOperators.Ring.Finset
import Mathlib.Data.List.AList

/-!
Counting how often keys occur. The keys that occur at least twice are the repeated ones, and
what is saved when each of them is paid for once is the sum of the weights of their later
occurrences. A table that lists under each key the values it came with has these counts as
the lengths of its lists.
-/

namespace Tally

variable {κ ω : Type} [DecidableEq κ]

def repeated (skip keys : List κ) : Finset κ :=
  keys.toFinset.filter fun a => 2 ≤ keys.count a ∧ a ∉ skip

def savings (weight : κ → Nat) (skip keys : List κ) : Nat :=
  ∑ a ∈ repeated skip keys, weight a * (keys.count a - 1)

section Counts
variable {skip extra keys : List κ}

theorem mem_repeated {a : κ} : a ∈ repeated skip keys ↔ 2 ≤ keys.count a ∧ a ∉ skip := by
  rw [repeated, Finset.mem_filter, List.mem_toFinset, ← List.count_pos_iff]
  constructor
  · intro h
    exact h.2
  · intro h
    exact ⟨Nat.lt_of_lt_of_le Nat.zero_lt_two h.1, h⟩

theorem repeated_eq_of_perm {keys' : List κ} (h : keys.Perm keys') :
    repeated skip keys = repeated skip keys' := by
  ext a
  rw [mem_repeated, mem_repeated, h.count_eq]

theorem savings_eq_of_perm (weight : κ → Nat) {keys' : List κ} (h : keys.Perm keys') :
    savings weight skip keys = savings weight skip keys' := by
  rw [savings, savings, repeated_eq_of_perm h]
  refine Finset.sum_congr rfl fun a _ => ?_
  rw [h.count_eq]

theorem repeated_subset_append : repeated skip keys ⊆ repeated skip (extra ++ keys) := by
  intro a ha
  obtain ⟨hcount, hskip⟩ := mem_repeated.mp ha
  refine mem_repeated.mpr ⟨?_, hskip⟩
  rw [List.count_append]
  omega

def Absorbed (skip extra keys : List κ) : Prop :=
  ∀ a ∈ extra, a ∉ skip → 2 ≤ (extra ++ keys).count a → 2 ≤ keys.count a

theorem repeated_append_eq_iff :
    repeated skip (extra ++ keys) = repeated skip keys ↔ Absorbed skip extra keys := by
  constructor
  · intro h a _ hskip hcount
    exact (mem_repeated.mp (h ▸ mem_repeated.mpr ⟨hcount, hskip⟩)).1
  · intro h
    refine Finset.Subset.antisymm ?_ repeated_subset_append
    intro a ha
    obtain ⟨hcount, hskip⟩ := mem_repeated.mp ha
    refine mem_repeated.mpr ⟨?_, hskip⟩
    by_cases hextra : a ∈ extra
    · exact h a hextra hskip hcount
    · rw [List.count_append, List.count_eq_zero_of_not_mem hextra, Nat.zero_add] at hcount
      exact hcount

theorem card_repeated_append_eq_iff :
    (repeated skip (extra ++ keys)).card = (repeated skip keys).card ↔
      Absorbed skip extra keys := by
  rw [← repeated_append_eq_iff]
  constructor
  · intro h
    exact (Finset.eq_of_subset_of_card_le repeated_subset_append (Nat.le_of_eq h)).symm
  · intro h
    rw [h]

theorem savings_append (weight : κ → Nat) (h : Absorbed skip extra keys) :
    savings weight skip (extra ++ keys) =
      savings weight skip keys +
        ((extra.filter fun a => a ∈ repeated skip (extra ++ keys)).map weight).sum := by
  have hextra : ((extra.filter fun a => a ∈ repeated skip (extra ++ keys)).map weight).sum =
      ∑ a ∈ repeated skip keys, extra.count a * weight a := by
    rw [Finset.sum_list_map_count, repeated_append_eq_iff.mpr h]
    refine Finset.sum_subset_zero_on_sdiff ?_ ?_ ?_
    · intro a ha
      exact of_decide_eq_true (List.mem_filter.mp (List.mem_toFinset.mp ha)).2
    · intro a ha
      obtain ⟨hmem, hnot⟩ := Finset.mem_sdiff.mp ha
      have hzero : extra.count a = 0 := by
        refine List.count_eq_zero_of_not_mem fun hin => hnot ?_
        exact List.mem_toFinset.mpr (List.mem_filter.mpr ⟨hin, decide_eq_true hmem⟩)
      rw [hzero, Nat.zero_mul]
    · intro a ha
      have hin := of_decide_eq_true (List.mem_filter.mp (List.mem_toFinset.mp ha)).2
      rw [@List.count_filter _ _ _ (fun a => decide (a ∈ repeated skip keys)) _ _
        (decide_eq_true hin)]
      rfl
  rw [hextra, savings, savings, repeated_append_eq_iff.mpr h, ← Finset.sum_add_distrib]
  refine Finset.sum_congr rfl fun a ha => ?_
  have hcount := (mem_repeated.mp ha).1
  rw [List.count_append, Nat.mul_comm (extra.count a), ← Nat.mul_add]
  congr 1
  omega

end Counts

section Tables

abbrev Table (κ ω : Type) := AList fun _ : κ => List ω

def collect (table : Table κ ω) (found : κ × ω) : Table κ ω :=
  table.insert found.1 (((table.lookup found.1).getD []) ++ [found.2])

def valuesOf (found : List (κ × ω)) (a : κ) : List ω :=
  (found.filter fun f => f.1 = a).map Prod.snd

variable (found : List (κ × ω))

theorem length_valuesOf (a : κ) :
    (valuesOf found a).length = (found.map Prod.fst).count a := by
  rw [valuesOf, List.length_map, List.count, List.countP_map, List.countP_eq_length_filter]
  rfl

theorem lookup_foldl_collect (table : Table κ ω) (a : κ) :
    ((found.foldl collect table).lookup a).getD [] =
      (table.lookup a).getD [] ++ valuesOf found a := by
  induction found generalizing table with
  | nil => simp [valuesOf]
  | cons f found ih =>
    rw [List.foldl_cons, ih, collect, valuesOf, valuesOf, List.filter_cons]
    by_cases hkey : a = f.1
    · rw [hkey, AList.lookup_insert, if_pos (by simp), List.map_cons, Option.getD_some,
        List.append_assoc]
      rfl
    · rw [AList.lookup_insert_ne hkey, if_neg (by simpa using Ne.symm hkey)]

theorem mem_foldl_collect (table : Table κ ω) (a : κ) :
    a ∈ found.foldl collect table ↔ a ∈ table ∨ a ∈ found.map Prod.fst := by
  induction found generalizing table with
  | nil => simp
  | cons f found ih =>
    rw [List.foldl_cons, ih, collect, AList.mem_insert, List.map_cons, List.mem_cons]
    tauto

theorem sum_entries_collect (measure : κ → List ω → Nat) :
    (((found.foldl collect ∅).entries.map fun entry => measure entry.1 entry.2).sum) =
      ∑ a ∈ (found.map Prod.fst).toFinset, measure a (valuesOf found a) := by
  have hkeys : (found.foldl collect ∅).keys.toFinset = (found.map Prod.fst).toFinset := by
    ext a
    rw [List.mem_toFinset, List.mem_toFinset, ← AList.mem_keys, mem_foldl_collect]
    simp [AList.notMem_empty]
  have hentries : ∀ entry ∈ (found.foldl collect ∅).entries,
      measure entry.1 entry.2 = measure entry.1 (valuesOf found entry.1) := by
    intro entry hentry
    have hlookup := lookup_foldl_collect found ∅ entry.1
    rw [AList.mem_lookup_iff.mpr hentry, AList.lookup_empty] at hlookup
    exact congrArg (measure entry.1) hlookup
  rw [← hkeys, List.sum_toFinset _ (AList.keys_nodup _), AList.keys, List.keys, List.map_map,
    List.map_congr_left hentries]
  rfl

end Tables
end Tally
