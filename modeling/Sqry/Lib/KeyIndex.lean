import Mathlib.Data.List.Induction
import Sqry.Lib.Buckets

/-!
An index of items by a key that an item may lack. Each change of one item's key has an
operation on the buckets, and the index stays the one the keys determine.
-/

namespace KeyIndex

universe u v
variable {κ : Type u} {ι : Type v} [DecidableEq κ]

section Lists

variable {α : Type v}

/-- The last element takes the place of the one at `i`. -/
def swapRemove (xs : List α) (i : Nat) : List α :=
  match xs.getLast? with
  | none => []
  | some last => (xs.set i last).dropLast

theorem cons_set_perm {xs : List α} {i : Nat} (hi : i < xs.length) (a : α) :
    (xs[i] :: xs.set i a).Perm (a :: xs) := by
  induction xs generalizing i with
  | nil => cases hi
  | cons x xs ih =>
    cases i with
    | zero => exact List.Perm.swap a x xs
    | succ i =>
      have hrest := (ih (Nat.lt_of_succ_lt_succ hi)).cons x
      exact (List.Perm.swap x _ _).trans (hrest.trans (List.Perm.swap a x xs))

theorem cons_swapRemove_perm {xs : List α} {i : Nat} (hi : i < xs.length) :
    (xs[i] :: swapRemove xs i).Perm xs := by
  induction xs using List.reverseRecOn with
  | nil => cases hi
  | append_singleton xs last _ =>
    simp only [swapRemove, List.getLast?_append, List.getLast?_singleton, Option.some_or]
    by_cases hlast : i < xs.length
    · rw [List.set_append_left _ _ hlast, List.dropLast_concat, List.getElem_append_left hlast]
      exact (cons_set_perm hlast last).trans (List.perm_append_singleton last xs).symm
    · have heq : i = xs.length := by
        rw [List.length_append, List.length_singleton] at hi
        omega
      have hset : (xs ++ [last]).set i last = xs ++ [last] := by simp [heq]
      rw [hset, List.dropLast_concat]
      simpa [heq] using (List.perm_append_singleton last xs).symm

theorem nodup_eraseDups [DecidableEq α] (xs : List α) : xs.eraseDups.Nodup := by
  induction hn : xs.length using Nat.strong_induction_on generalizing xs with
  | _ n ih =>
    cases xs with
    | nil => exact List.nodup_nil
    | cons x xs =>
      rw [List.eraseDups_cons]
      have hlt : (xs.filter fun y => !y == x).length < n := by
        have hle := List.length_filter_le (fun y => !y == x) xs
        rw [List.length_cons] at hn
        omega
      refine List.nodup_cons.mpr ⟨?_, ih _ hlt _ rfl⟩
      simp

end Lists

structure Indexed (key : ι → Option κ) (m : AList fun _ : κ => List ι) : Prop where
  mem_iff : ∀ k i, i ∈ Buckets.bucket m k ↔ key i = some k
  nodup : ∀ k, (Buckets.bucket m k).Nodup
  nonempty : ∀ k b, m.lookup k = some b → b ≠ []

section Operations

variable [DecidableEq ι]

def removeItem (m : AList fun _ : κ => List ι) (k : κ) (i : ι) :
    (AList fun _ : κ => List ι) × Bool :=
  match m.lookup k with
  | none => (m, false)
  | some ids =>
    match ids.findIdx? fun x => x = i with
    | none => (m, false)
    | some pos =>
      let ids := swapRemove ids pos
      (if ids.isEmpty then m.erase k else m.insert k ids, true)

def mergeKey (m : AList fun _ : κ => List ι) (old canon : κ) : AList fun _ : κ => List ι :=
  match m.lookup old with
  | none => m
  | some bucket =>
    (m.erase old).insert canon (Buckets.bucket (m.erase old) canon ++ bucket).eraseDups

end Operations

variable {key : ι → Option κ} {m : AList fun _ : κ => List ι}

theorem indexed_empty : Indexed (fun _ : ι => (none : Option κ)) ∅ where
  mem_iff := by simp
  nodup := by simp
  nonempty := by simp

theorem Indexed.congr {key' : ι → Option κ} (h : Indexed key m) (hkey : ∀ i, key' i = key i) :
    Indexed key' m := by
  have heq : key' = key := funext hkey
  rw [heq]
  exact h

variable [DecidableEq ι]

theorem Indexed.push {i : ι} {k : κ} (h : Indexed key m) (hi : key i = none) :
    Indexed (Function.update key i (some k)) (Buckets.push m k i) where
  mem_iff := by
    intro k' j
    rw [Buckets.bucket_push]
    by_cases hj : j = i
    · rw [hj, Function.update_self]
      by_cases hk : k' = k
      · simp [hk]
      · simp [hk, h.mem_iff, hi, Ne.symm hk]
    · rw [Function.update_of_ne hj, ← h.mem_iff]
      by_cases hk : k' = k
      · simp [hk, hj]
      · simp [hk]
  nodup := by
    intro k'
    rw [Buckets.bucket_push]
    by_cases hk : k' = k
    · rw [if_pos hk, List.nodup_append]
      refine ⟨h.nodup k, List.nodup_singleton i, ?_⟩
      intro a ha b hb heq
      rw [List.mem_singleton] at hb
      rw [heq, hb, h.mem_iff, hi] at ha
      cases ha
    · rw [if_neg hk]
      exact h.nodup k'
  nonempty := by
    intro k' b hb
    by_cases hk : k' = k
    · rw [hk, Buckets.push, AList.lookup_insert] at hb
      cases hb
      simp
    · rw [Buckets.push, AList.lookup_insert_ne hk] at hb
      exact h.nonempty k' b hb

omit [DecidableEq ι] in
theorem erase_erase_self (m : AList fun _ : κ => List ι) (k : κ) :
    (m.erase k).erase k = m.erase k :=
  AList.ext (List.kerase_of_notMem_keys (List.notMem_keys_kerase k m.nodupKeys))

omit [DecidableEq ι] in
theorem erase_insert_self (m : AList fun _ : κ => List ι) (k : κ) (b : List ι) :
    (m.insert k b).erase k = m.erase k := by
  apply AList.ext
  have hentries : (m.insert k b).entries = ⟨k, b⟩ :: m.entries.kerase k := AList.entries_insert
  have herase : ((m.insert k b).erase k).entries = (m.insert k b).entries.kerase k := rfl
  rw [herase, hentries]
  exact List.kerase_cons_eq rfl

/-- What `removeItem` does: the item is found and taken out, or it is not there. -/
theorem removeItem_cases (m : AList fun _ : κ => List ι) (k : κ) (i : ι) :
    (removeItem m k i = (m, false) ∧ i ∉ Buckets.bucket m k) ∨
    ((removeItem m k i).2 = true ∧
      (i :: Buckets.bucket (removeItem m k i).1 k).Perm (Buckets.bucket m k) ∧
      (removeItem m k i).1.erase k = m.erase k ∧
      ∀ b, (removeItem m k i).1.lookup k = some b → b ≠ []) := by
  cases hlookup : m.lookup k with
  | none => exact Or.inl (by simp [removeItem, Buckets.bucket, hlookup])
  | some ids =>
    have hbucket : Buckets.bucket m k = ids := by rw [Buckets.bucket, hlookup]; rfl
    cases hfind : ids.findIdx? fun x => x = i with
    | none =>
      left
      refine ⟨by simp only [removeItem, hlookup, hfind], ?_⟩
      rw [hbucket]
      intro hmem
      simpa using List.findIdx?_eq_none_iff.mp hfind i hmem
    | some pos =>
      right
      obtain ⟨hpos, hitem, _⟩ := List.findIdx?_eq_some_iff_getElem.mp hfind
      have hitem : ids[pos] = i := of_decide_eq_true hitem
      have hperm := cons_swapRemove_perm hpos
      rw [hitem] at hperm
      rw [hbucket]
      by_cases hempty : swapRemove ids pos = []
      · have hresult : removeItem m k i = (m.erase k, true) := by
          simp [removeItem, hlookup, hfind, hempty]
        rw [hempty] at hperm
        rw [hresult]
        refine ⟨rfl, ?_, ?_, ?_⟩
        · rw [Buckets.bucket_erase, if_pos rfl]
          exact hperm
        · exact erase_erase_self m k
        · intro b hb
          rw [AList.lookup_erase] at hb
          cases hb
      · have hresult : removeItem m k i = (m.insert k (swapRemove ids pos), true) := by
          simp [removeItem, hlookup, hfind, hempty]
        rw [hresult]
        refine ⟨rfl, ?_, ?_, ?_⟩
        · rw [Buckets.bucket, AList.lookup_insert]
          exact hperm
        · exact erase_insert_self m k _
        · intro b hb
          rw [AList.lookup_insert] at hb
          cases hb
          exact hempty

omit [DecidableEq ι] in
theorem lookup_eq_of_erase_eq {m' : AList fun _ : κ => List ι} {k k' : κ}
    (herase : m'.erase k = m.erase k) (hne : k' ≠ k) : m'.lookup k' = m.lookup k' := by
  rw [← AList.lookup_erase_ne hne, herase, AList.lookup_erase_ne hne]

theorem Indexed.removeItem {i : ι} {k : κ} (h : Indexed key m)
    (hi : ∀ k', key i = some k' → k' = k) :
    Indexed (Function.update key i none) (removeItem m k i).1 := by
  cases removeItem_cases m k i with
  | inl hsame =>
    obtain ⟨heq, hnot⟩ := hsame
    rw [heq]
    apply h.congr
    intro j
    by_cases hj : j = i
    · rw [hj, Function.update_self]
      cases hkey : key i with
      | none => rfl
      | some k' =>
        cases hi k' hkey
        exact absurd ((h.mem_iff k i).mpr hkey) hnot
    · rw [Function.update_of_ne hj]
  | inr htaken =>
    obtain ⟨_, hperm, herase, hne⟩ := htaken
    have hother : ∀ k', k' ≠ k → Buckets.bucket (KeyIndex.removeItem m k i).1 k' =
        Buckets.bucket m k' := by
      intro k' hk
      rw [Buckets.bucket, lookup_eq_of_erase_eq herase hk]
      rfl
    have hnodup := hperm.nodup_iff.mpr (h.nodup k)
    have hkey : key i = some k := (h.mem_iff k i).mp (hperm.subset List.mem_cons_self)
    refine ⟨?_, ?_, ?_⟩
    · intro k' j
      by_cases hj : j = i
      · rw [hj, Function.update_self]
        by_cases hk : k' = k
        · rw [hk]
          simpa using (List.nodup_cons.mp hnodup).1
        · rw [hother k' hk, h.mem_iff, hkey]
          simp [Ne.symm hk]
      · rw [Function.update_of_ne hj, ← h.mem_iff]
        by_cases hk : k' = k
        · rw [hk, ← hperm.mem_iff, List.mem_cons]
          simp [hj]
        · rw [hother k' hk]
    · intro k'
      by_cases hk : k' = k
      · rw [hk]
        exact (List.nodup_cons.mp hnodup).2
      · rw [hother k' hk]
        exact h.nodup k'
    · intro k' b hb
      by_cases hk : k' = k
      · exact hne b (hk ▸ hb)
      · rw [lookup_eq_of_erase_eq herase hk] at hb
        exact h.nonempty k' b hb

theorem length_removeItem (m : AList fun _ : κ => List ι) (k : κ) (i : ι) :
    (Buckets.all (KeyIndex.removeItem m k i).1).length +
      (if (KeyIndex.removeItem m k i).2 then 1 else 0) = (Buckets.all m).length := by
  cases removeItem_cases m k i with
  | inl hsame =>
    rw [hsame.1]
    rfl
  | inr htaken =>
    obtain ⟨hfound, hperm, herase, _⟩ := htaken
    rw [(Buckets.all_split m k).length_eq, (Buckets.all_split _ k).length_eq, hfound, herase]
    have hlength := hperm.length_eq
    simp only [List.length_cons, List.length_append, if_true] at hlength ⊢
    omega

omit [DecidableEq ι] in
theorem length_push (m : AList fun _ : κ => List ι) (k : κ) (i : ι) :
    (Buckets.all (Buckets.push m k i)).length = (Buckets.all m).length + 1 := by
  rw [(Buckets.all_push m k i).length_eq, List.length_cons]

omit [DecidableEq ι] in
theorem Indexed.retain (h : Indexed key m) (keep : ι → Bool) :
    Indexed (fun i => if keep i then key i else none) (Buckets.retain keep m) where
  mem_iff := by
    intro k i
    rw [Buckets.bucket_retain, List.mem_filter, h.mem_iff]
    cases keep i with
    | true => simp
    | false => simp
  nodup := by
    intro k
    rw [Buckets.bucket_retain]
    exact (h.nodup k).filter _
  nonempty := fun k b hb => Buckets.ne_nil_of_lookup_rebucket hb

omit [DecidableEq ι] in
theorem Indexed.rebucket_id (h : Indexed key m) : Indexed key (Buckets.rebucket id m) where
  mem_iff := by
    intro k i
    rw [Buckets.bucket_rebucket rfl]
    exact h.mem_iff k i
  nodup := by
    intro k
    rw [Buckets.bucket_rebucket rfl]
    exact h.nodup k
  nonempty := fun k b hb => Buckets.ne_nil_of_lookup_rebucket hb

omit [DecidableEq ι] in
theorem Indexed.erase (h : Indexed key m) (k : κ) :
    Indexed (fun i => if key i = some k then none else key i) (m.erase k) where
  mem_iff := by
    intro k' i
    rw [Buckets.bucket_erase]
    by_cases hk : k' = k
    · rw [if_pos hk, hk]
      by_cases hi : key i = some k
      · simp [hi]
      · simp [hi]
    · rw [if_neg hk, h.mem_iff]
      by_cases hi : key i = some k
      · simp [hi, Ne.symm hk]
      · simp [hi]
  nodup := by
    intro k'
    rw [Buckets.bucket_erase]
    by_cases hk : k' = k
    · rw [if_pos hk]
      exact List.nodup_nil
    · rw [if_neg hk]
      exact h.nodup k'
  nonempty := by
    intro k' b hb
    by_cases hk : k' = k
    · rw [hk, AList.lookup_erase] at hb
      cases hb
    · rw [AList.lookup_erase_ne hk] at hb
      exact h.nonempty k' b hb

omit [DecidableEq ι] in
theorem Indexed.mem_keys {i : ι} {k : κ} (h : Indexed key m) (hi : key i = some k) :
    k ∈ m.keys := by
  rw [← AList.mem_keys, ← AList.lookup_isSome]
  have hmem := (h.mem_iff k i).mpr hi
  cases hlookup : m.lookup k with
  | some b => rfl
  | none =>
    rw [Buckets.bucket, hlookup] at hmem
    cases hmem

theorem Indexed.mergeKey {old canon : κ} (h : Indexed key m) (hne : old ≠ canon) :
    Indexed (fun i => if key i = some old then some canon else key i)
      (mergeKey m old canon) := by
  cases hlookup : m.lookup old with
  | none =>
    simp only [KeyIndex.mergeKey, hlookup]
    apply h.congr
    intro i
    refine if_neg fun hi => ?_
    have hkeys := h.mem_keys hi
    rw [← AList.mem_keys, ← AList.lookup_isSome, hlookup] at hkeys
    cases hkeys
  | some ids =>
    have hbucket : Buckets.bucket m old = ids := by rw [Buckets.bucket, hlookup]; rfl
    simp only [KeyIndex.mergeKey, hlookup]
    rw [Buckets.bucket_erase, if_neg (Ne.symm hne)]
    have hself : ∀ b, Buckets.bucket ((m.erase old).insert canon b) canon = b := by
      intro b
      rw [Buckets.bucket, AList.lookup_insert]
      rfl
    have hother : ∀ b k, k ≠ canon → Buckets.bucket ((m.erase old).insert canon b) k =
        if k = old then [] else Buckets.bucket m k := by
      intro b k hk
      rw [← Buckets.bucket_erase, Buckets.bucket, AList.lookup_insert_ne hk]
      rfl
    refine ⟨?_, ?_, ?_⟩
    · intro k i
      by_cases hk : k = canon
      · rw [hk, hself, List.mem_eraseDups, List.mem_append, ← hbucket, h.mem_iff, h.mem_iff]
        by_cases hi : key i = some old
        · simp [hi]
        · simp [hi]
      · rw [hother _ k hk]
        by_cases hold : k = old
        · by_cases hi : key i = some old
          · simp [hold, hi, Ne.symm hne]
          · simp [hold, hi]
        · rw [if_neg hold, h.mem_iff]
          by_cases hi : key i = some old
          · simp [hi, Ne.symm hold, Ne.symm hk]
          · simp [hi]
    · intro k
      by_cases hk : k = canon
      · rw [hk, hself]
        exact nodup_eraseDups _
      · rw [hother _ k hk]
        by_cases hold : k = old
        · rw [if_pos hold]
          exact List.nodup_nil
        · rw [if_neg hold]
          exact h.nodup k
    · intro k b hb
      by_cases hk : k = canon
      · rw [hk, AList.lookup_insert] at hb
        cases hb
        obtain ⟨i, hi⟩ := List.exists_mem_of_ne_nil ids (h.nonempty old ids hlookup)
        apply List.ne_nil_of_mem (a := i)
        rw [List.mem_eraseDups]
        exact List.mem_append_right _ hi
      · rw [AList.lookup_insert_ne hk] at hb
        by_cases hold : k = old
        · rw [hold, AList.lookup_erase] at hb
          cases hb
        · rw [AList.lookup_erase_ne hold] at hb
          exact h.nonempty k b hb

theorem Indexed.mergeKeys (olds : List κ) (target : κ → κ) (h : Indexed key m)
    (hstay : ∀ old ∈ olds, target old ∉ olds) :
    Indexed (fun i => (key i).map fun k => if k ∈ olds then target k else k)
      (olds.foldl (fun m old => KeyIndex.mergeKey m old (target old)) m) := by
  induction olds generalizing key m with
  | nil =>
    apply h.congr
    intro i
    simp
  | cons old olds ih =>
    have hne : old ≠ target old := by
      intro heq
      have hnot := hstay old List.mem_cons_self
      rw [← heq] at hnot
      exact hnot List.mem_cons_self
    have hrest := ih (h.mergeKey hne) fun k hk hmem =>
      hstay k (List.mem_cons_of_mem old hk) (List.mem_cons_of_mem old hmem)
    apply hrest.congr
    intro i
    have hfirst : target old ∉ olds := fun hmem =>
      hstay old List.mem_cons_self (List.mem_cons_of_mem old hmem)
    cases hi : key i with
    | none => simp
    | some k =>
      by_cases hk : k = old
      · simp [hk, hfirst]
      · simp [hk]

section Total

omit [DecidableEq ι]

theorem Indexed.mem_all {i : ι} (h : Indexed key m) :
    i ∈ Buckets.all m ↔ ∃ k, key i = some k := by
  constructor
  · intro hi
    obtain ⟨k, hk⟩ := Buckets.exists_bucket_of_mem_all hi
    exact ⟨k, (h.mem_iff k i).mp hk⟩
  · intro ⟨k, hk⟩
    exact Buckets.mem_all_of_bucket ((h.mem_iff k i).mpr hk)

theorem Indexed.nodup_all (h : Indexed key m) : (Buckets.all m).Nodup := by
  have hbucket : ∀ b ∈ m.entries, Buckets.bucket m b.1 = b.2 := by
    intro b hb
    rw [Buckets.bucket, AList.mem_lookup_iff.mpr hb]
    rfl
  have hkeys : m.entries.Pairwise fun b c => b.1 ≠ c.1 := List.pairwise_map.mp m.nodupKeys
  rw [Buckets.all, List.nodup_flatMap]
  constructor
  · intro b hb
    rw [← hbucket b hb]
    exact h.nodup b.1
  · apply hkeys.imp_of_mem
    intro b c hb hc hne
    change List.Disjoint b.2 c.2
    rw [List.disjoint_left]
    intro i hi hi'
    rw [← hbucket b hb, h.mem_iff] at hi
    rw [← hbucket c hc, h.mem_iff, hi] at hi'
    exact hne (Option.some.inj hi')

theorem Indexed.length_all {m' : AList fun _ : κ => List ι} (h : Indexed key m)
    (h' : Indexed key m') : (Buckets.all m).length = (Buckets.all m').length := by
  apply List.Perm.length_eq
  rw [List.perm_ext_iff_of_nodup h.nodup_all h'.nodup_all]
  intro i
  rw [h.mem_all, h'.mem_all]

end Total

end KeyIndex
