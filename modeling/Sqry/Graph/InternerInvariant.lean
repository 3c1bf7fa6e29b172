import Mathlib.Data.Nat.Bitwise
import Sqry.Graph.Interner

/-!
What the operations of the interner preserve. While the map is stale it still describes
the slots below the point where it became stale; `Consistent x bound` says so for the
slots below `bound`, and `bound` is the number of slots when the map is not stale.
-/

namespace Sqry.StringInterner

variable {x : StringInterner} {d : DedupState} {s : String} {index : Nat} {bound : Nat}

theorem hasLocalTag_of_lt (h : index < LOCAL_TAG_BIT) :
    hasLocalTag index = false := by
  have hand : index &&& LOCAL_TAG_BIT = 0 := by
    have htwo : LOCAL_TAG_BIT = 2 ^ 31 := by decide
    rw [htwo] at h ⊢
    rw [Nat.and_two_pow, Nat.testBit_lt_two_pow h]
    rfl
  simp [hasLocalTag, hand]

theorem lt_of_hasLocalTag (hmax : index ≤ u32Max) (h : ¬ hasLocalTag index) :
    index < LOCAL_TAG_BIT := by
  have htwo : LOCAL_TAG_BIT = 2 ^ 31 := by decide
  by_contra hge
  apply h
  have hbit : index.testBit 31 = true := by
    simp only [Nat.testBit_eq_decide_div_mod_eq, decide_eq_true_eq]
    simp only [LOCAL_TAG_BIT, u32Max] at hge hmax
    omega
  have hand : index &&& 2 ^ 31 = 2 ^ 31 := by
    rw [Nat.and_two_pow, hbit]
    rfl
  rw [hasLocalTag, htwo, hand]
  decide

structure Consistent (x : StringInterner) (bound : Nat) : Prop where
  refCounts_length : x.refCounts.length = x.strings.length
  length_le : x.strings.length ≤ LOCAL_TAG_BIT
  bound_pos : 1 ≤ bound
  bound_le : bound ≤ x.strings.length
  sentinel : x.strings[0]? = some none
  lookup_iff : ∀ s i, x.lookup.lookup s = some i ↔ i < bound ∧ x.strings[i]? = some (some s)
  free_nodup : x.freeList.Nodup
  free_empty : ∀ i ∈ x.freeList, 0 < i ∧ i < bound ∧ x.strings[i]? = some none

theorem consistent_new : Consistent new 1 := by
  refine ⟨rfl, by decide, Nat.le_refl 1, Nat.le_refl 1, rfl, ?_, List.nodup_nil, ?_⟩
  · intro s i
    constructor
    · intro h
      cases h
    · rintro ⟨hi, hs⟩
      have hzero : i = 0 := by omega
      subst hzero
      cases hs
  · intro i hi
    cases hi

theorem consistent_refCounts (h : Consistent x bound) (refCounts : List Nat)
    (hlen : refCounts.length = x.refCounts.length) :
    Consistent { x with refCounts := refCounts } bound :=
  { h with refCounts_length := hlen.trans h.refCounts_length }

theorem consistent_updateRef {change : Nat → Nat} {x y : StringInterner} {bound id : Nat}
    {r : Option Nat} (h : Consistent x bound) (heq : updateRef change x id = some (y, r)) :
    Consistent y bound := by
  unfold updateRef at heq
  split at heq
  · cases heq
    exact h
  · split at heq
    · cases heq
      exact h
    · split at heq
      · cases heq
      · cases heq
        exact h
      · cases heq
        exact consistent_refCounts h _ (List.length_set ..)

theorem consistent_reuse {bound i refCount : Nat} {rest : List Nat} (h : Consistent x bound)
    (hfree : x.freeList = i :: rest) (hnew : x.lookup.lookup s = none) :
    Consistent { x with
      strings := x.strings.set i (some s)
      refCounts := x.refCounts.set i refCount
      freeList := rest
      lookup := x.lookup.insert s i } bound := by
  obtain ⟨hpos, hlt, hempty⟩ := h.free_empty i (hfree ▸ List.mem_cons_self)
  have hnodup := hfree ▸ h.free_nodup
  have hile : i < x.strings.length := Nat.lt_of_lt_of_le hlt h.bound_le
  refine ⟨by simpa using h.refCounts_length, by simpa using h.length_le, h.bound_pos,
    by simpa using h.bound_le, ?_, ?_, (List.nodup_cons.mp hnodup).2, ?_⟩
  · simpa only [List.getElem?_set_ne (Nat.ne_of_gt hpos)] using h.sentinel
  · intro t j
    by_cases hts : t = s
    · subst hts
      simp only [AList.lookup_insert, Option.some.injEq]
      constructor
      · rintro rfl
        exact ⟨hlt, by simp [hile]⟩
      · rintro ⟨hj, hget⟩
        by_contra hne
        rw [List.getElem?_set_ne hne] at hget
        have := (h.lookup_iff t j).mpr ⟨hj, hget⟩
        simp [hnew] at this
    · rw [AList.lookup_insert_ne hts, h.lookup_iff]
      by_cases hij : i = j
      · subst hij
        rw [hempty, List.getElem?_set_self hile]
        simp [Ne.symm hts]
      · rw [List.getElem?_set_ne hij]
  · intro j hj
    obtain ⟨hjpos, hjlt, hjempty⟩ := h.free_empty j (hfree ▸ List.mem_cons_of_mem i hj)
    have hij : i ≠ j := fun hij => (List.nodup_cons.mp hnodup).1 (hij ▸ hj)
    exact ⟨hjpos, hjlt, by rw [List.getElem?_set_ne hij, hjempty]⟩

theorem consistent_append {refCount : Nat} (h : Consistent x x.strings.length)
    (hroom : x.strings.length < LOCAL_TAG_BIT) (hnew : x.lookup.lookup s = none) :
    Consistent { x with
      strings := x.strings ++ [some s]
      refCounts := x.refCounts ++ [refCount]
      lookup := x.lookup.insert s x.strings.length } (x.strings.length + 1) := by
  have hold : ∀ j, j < x.strings.length → (x.strings ++ [some s])[j]? = x.strings[j]? :=
    fun j hj => List.getElem?_append_left hj
  refine ⟨by simp [h.refCounts_length], by simp; omega, by omega, by simp, ?_, ?_,
    h.free_nodup, ?_⟩
  · rw [hold 0 h.bound_pos, h.sentinel]
  · intro t j
    have hlast : (x.strings ++ [some s])[x.strings.length]? = some (some s) := by simp
    by_cases hts : t = s
    · subst hts
      simp only [AList.lookup_insert, Option.some.injEq]
      constructor
      · rintro rfl
        exact ⟨Nat.lt_succ_self _, hlast⟩
      · rintro ⟨hj, hget⟩
        by_contra hne
        have hlt : j < x.strings.length := by omega
        rw [hold j hlt] at hget
        have := (h.lookup_iff t j).mpr ⟨hlt, hget⟩
        simp [hnew] at this
    · rw [AList.lookup_insert_ne hts, h.lookup_iff]
      by_cases hlt : j < x.strings.length
      · simp [hlt, Nat.lt_succ_of_lt hlt]
      · constructor
        · intro hj
          exact absurd hj.1 hlt
        · rintro ⟨hj, hget⟩
          have hjl : j = x.strings.length := by omega
          rw [hjl, hlast] at hget
          cases hget
          exact absurd rfl hts
  · intro j hj
    obtain ⟨hjpos, hjlt, hjempty⟩ := h.free_empty j hj
    exact ⟨hjpos, Nat.lt_succ_of_lt hjlt, by rw [hold j hjlt, hjempty]⟩

def InternSpec (x : StringInterner) (s : String)
    (result : Option (StringInterner × Except InternError Nat)) : Prop :=
  ∃ (y : StringInterner) (r : Except InternError Nat), result = some (y, r) ∧
    Consistent y y.strings.length ∧ y.lookupStale = x.lookupStale ∧
    (∀ (i : Nat) (t : String), x.strings[i]? = some (some t) → y.strings[i]? = some (some t)) ∧
    ∀ i, r = .ok i → y.strings[i]? = some (some s)

theorem exists_refCount {bound index : Nat} (h : Consistent x bound)
    (hlt : index < x.strings.length) : ∃ count, x.refCounts[index]? = some count := by
  rw [← h.refCounts_length] at hlt
  exact ⟨x.refCounts[index], List.getElem?_eq_getElem hlt⟩

theorem allocate_spec (refCount : Nat) (h : Consistent x x.strings.length)
    (hnew : x.lookup.lookup s = none) :
    InternSpec x s (x.allocate s refCount) := by
  unfold allocate
  split
  · rename_i i rest hfree
    obtain ⟨-, hlt, hempty⟩ := h.free_empty i (hfree ▸ List.mem_cons_self)
    rw [if_pos ⟨hlt, h.refCounts_length ▸ hlt⟩]
    refine ⟨_, _, rfl, ?_, rfl, ?_, ?_⟩
    · simpa using consistent_reuse h hfree hnew
    · intro j t ht
      have hij : i ≠ j := by
        rintro rfl
        rw [hempty] at ht
        cases ht
      simpa only [List.getElem?_set_ne hij] using ht
    · intro j hj
      cases hj
      exact List.getElem?_set_self hlt
  · split
    · exact ⟨x, _, rfl, h, rfl, fun _ _ ht => ht, fun i hi => by cases hi⟩
    · rename_i hcap
      have hmax : x.strings.length ≤ u32Max := by
        have hle := h.length_le
        have hlim : LOCAL_TAG_BIT ≤ u32Max := by decide
        omega
      have hroom := lt_of_hasLocalTag hmax fun htag => hcap (Or.inr (Or.inr htag))
      refine ⟨_, _, rfl, ?_, rfl, ?_, ?_⟩
      · simpa using consistent_append h hroom hnew
      · intro j t ht
        have hj := (List.getElem?_eq_some_iff.mp ht).1
        simpa only [List.getElem?_append_left hj] using ht
      · intro j hj
        cases hj
        simp

theorem intern_spec (s : String) (h : Consistent x x.strings.length)
    (hfresh : x.lookupStale = false) : InternSpec x s (x.intern s) := by
  unfold intern
  rw [if_neg (by simp [hfresh])]
  split
  · rename_i index hget
    obtain ⟨hlt, hslot⟩ := (h.lookup_iff s index).mp hget
    obtain ⟨count, hcount⟩ := exists_refCount h hlt
    rw [hcount]
    refine ⟨_, _, rfl, consistent_refCounts h _ (List.length_set ..), rfl, fun _ _ ht => ht, ?_⟩
    intro i hi
    cases hi
    exact hslot
  · rename_i hnew
    split
    · exact ⟨x, _, rfl, h, rfl, fun _ _ ht => ht, fun i hi => by cases hi⟩
    · exact allocate_spec 1 h hnew

theorem internWithoutRef_spec (s : String) (h : Consistent x x.strings.length)
    (hfresh : x.lookupStale = false) :
    InternSpec x s (x.internWithoutRef s) := by
  unfold internWithoutRef
  rw [if_neg (by simp [hfresh])]
  split
  · rename_i index hget
    refine ⟨_, _, rfl, h, rfl, fun _ _ ht => ht, ?_⟩
    intro i hi
    cases hi
    exact ((h.lookup_iff s index).mp hget).2
  · rename_i hnew
    split
    · exact ⟨x, _, rfl, h, rfl, fun _ _ ht => ht, fun i hi => by cases hi⟩
    · exact allocate_spec 0 h hnew

theorem consistent_vacate (h : Consistent x x.strings.length) (hpos : 0 < index)
    (hslot : x.strings[index]? = some (some s)) :
    Consistent { x with
      strings := x.strings.set index none
      lookup := x.lookup.erase s
      freeList := index :: x.freeList } x.strings.length := by
  have hlt := (List.getElem?_eq_some_iff.mp hslot).1
  have hnotfree : index ∉ x.freeList := fun hin => by
    have := (h.free_empty index hin).2.2
    rw [hslot] at this
    cases this
  refine ⟨by simpa using h.refCounts_length, by simpa using h.length_le, h.bound_pos,
    by simp, ?_, ?_, List.nodup_cons.mpr ⟨hnotfree, h.free_nodup⟩, ?_⟩
  · simpa only [List.getElem?_set_ne (Nat.ne_of_gt hpos)] using h.sentinel
  · intro t j
    have hindex := (h.lookup_iff s index).mpr ⟨hlt, hslot⟩
    by_cases hij : index = j
    · subst hij
      rw [List.getElem?_set_self hlt]
      constructor
      · intro hget
        by_cases hts : t = s
        · rw [hts, AList.lookup_erase] at hget
          cases hget
        · rw [AList.lookup_erase_ne hts] at hget
          have := ((h.lookup_iff t index).mp hget).2
          rw [hslot] at this
          cases this
          exact absurd rfl hts
      · rintro ⟨-, hnone⟩
        cases hnone
    · rw [List.getElem?_set_ne hij]
      by_cases hts : t = s
      · subst hts
        rw [AList.lookup_erase]
        constructor
        · intro hnone
          cases hnone
        · intro hj
          have := (h.lookup_iff t j).mpr hj
          rw [hindex] at this
          exact absurd (Option.some.inj this) hij
      · rw [AList.lookup_erase_ne hts, h.lookup_iff]
  · intro j hj
    cases List.mem_cons.mp hj with
    | inl heq =>
      subst heq
      exact ⟨hpos, hlt, List.getElem?_set_self hlt⟩
    | inr hold =>
      obtain ⟨hjpos, hjlt, hjempty⟩ := h.free_empty j hold
      have hij : index ≠ j := fun hij => hnotfree (hij ▸ hold)
      exact ⟨hjpos, hjlt, by simpa only [List.getElem?_set_ne hij] using hjempty⟩

theorem recycleAt_spec (recycled : Nat) (h : Consistent x x.strings.length) (hpos : 0 < index)
    (hlt : index < x.strings.length) :
    ∃ y n, recycleAt x recycled index = some (y, n) ∧ Consistent y y.strings.length ∧
      y.strings.length = x.strings.length ∧ y.lookupStale = x.lookupStale := by
  obtain ⟨count, hcount⟩ := exists_refCount h hlt
  unfold recycleAt
  rw [hcount]
  split
  · rename_i hnone
    cases hnone
  · split
    · rename_i s hslot
      have hmax : index ≤ u32Max := by
        have hle := h.length_le
        have hlim : LOCAL_TAG_BIT ≤ u32Max := by decide
        omega
      refine ⟨_, _, rfl, ?_, List.length_set .., rfl⟩
      rw [if_pos hmax]
      simpa using consistent_vacate h hpos hslot
    · exact ⟨x, recycled, rfl, h, rfl, rfl⟩
  · exact ⟨x, recycled, rfl, h, rfl, rfl⟩

theorem recycleFrom_spec {indices : List Nat} (recycled : Nat) (h : Consistent x x.strings.length)
    (hindices : ∀ i ∈ indices, 0 < i ∧ i < x.strings.length) :
    ∃ y n, recycleFrom indices x recycled = some (y, n) ∧ Consistent y y.strings.length ∧
      y.lookupStale = x.lookupStale := by
  induction indices generalizing x recycled with
  | nil => exact ⟨x, recycled, rfl, h, rfl⟩
  | cons index rest ih =>
    obtain ⟨hpos, hlt⟩ := hindices index List.mem_cons_self
    obtain ⟨y, n, hy, hcons, hlen, hstale⟩ := recycleAt_spec recycled h hpos hlt
    have hrest : ∀ i ∈ rest, 0 < i ∧ i < y.strings.length := fun i hi =>
      hlen ▸ hindices i (List.mem_cons_of_mem index hi)
    obtain ⟨z, m, hz, hzcons, hzstale⟩ := ih n hcons hrest
    exact ⟨z, m, by simp only [recycleFrom, hy, hz], hzcons, hzstale.trans hstale⟩

theorem mem_indices {i : Nat} (hi : i ∈ List.range' 1 (x.strings.length - 1))
    : 0 < i ∧ i < x.strings.length := by
  rw [List.mem_range'_1] at hi
  omega

theorem consistent_recycleUnreferenced {x y : StringInterner} {n : Nat}
    (h : Consistent x x.strings.length) (heq : x.recycleUnreferenced = some (y, n)) :
    Consistent y y.strings.length ∧ y.lookupStale = false := by
  unfold recycleUnreferenced at heq
  split at heq
  · cases heq
  · rename_i hfresh
    obtain ⟨z, m, hz, hcons, hstale⟩ := recycleFrom_spec 0 h fun i hi => mem_indices hi
    rw [hz] at heq
    cases heq
    exact ⟨hcons, by simpa using hstale.trans (by simpa using hfresh)⟩

theorem consistent_clear (h : Consistent x bound) :
    Consistent x.clear x.clear.strings.length := by
  have hstrings : x.clear.strings = [none] := by
    have hpos : 0 < x.strings.length := Nat.lt_of_lt_of_le h.bound_pos h.bound_le
    cases hx : x.strings with
    | nil => simp [hx] at hpos
    | cons s rest => simp [clear, hx]
  have hrefs : x.clear.refCounts.length = x.clear.strings.length := by
    simp [clear, h.refCounts_length]
  have hlen : x.clear.strings.length = 1 := by rw [hstrings]; rfl
  refine ⟨hrefs, by rw [hlen]; decide, by rw [hlen], Nat.le_refl _, by rw [hstrings]; rfl,
    ?_, List.nodup_nil, ?_⟩
  · intro s i
    rw [hlen, hstrings]
    constructor
    · intro hget
      cases hget
    · rintro ⟨hi, hget⟩
      have hzero : i = 0 := by omega
      subst hzero
      cases hget
  · intro i hi
    cases hi

theorem allocRange_spec (h : Consistent x bound) (count : Nat) :
    (x.allocRange count).1 = x ∨
    ((x.allocRange count).1.lookupStale = true ∧ Consistent (x.allocRange count).1 bound) := by
  unfold allocRange
  split
  · exact Or.inl rfl
  · split
    · exact Or.inl rfl
    · rename_i hcount
      split
      · exact Or.inl rfl
      · rename_i hmax
        split
        · exact Or.inl rfl
        · rename_i htag
          have hroom := lt_of_hasLocalTag (by omega) htag
          have hle := h.bound_le
          have hold : ∀ i, i < x.strings.length →
              (x.strings ++ List.replicate count none)[i]? = x.strings[i]? :=
            fun i hi => List.getElem?_append_left hi
          refine Or.inr ⟨rfl, ?_, ?_, h.bound_pos, ?_, ?_, ?_, h.free_nodup, ?_⟩
          · simp [h.refCounts_length]
          · simp only [List.length_append, List.length_replicate]
            omega
          · simp only [List.length_append, List.length_replicate]
            omega
          · rw [hold 0 (Nat.lt_of_lt_of_le h.bound_pos hle), h.sentinel]
          · intro s i
            rw [h.lookup_iff]
            by_cases hi : i < bound
            · rw [hold i (Nat.lt_of_lt_of_le hi hle)]
            · simp [hi]
          · intro i hi
            obtain ⟨hpos, hlt, hempty⟩ := h.free_empty i hi
            exact ⟨hpos, hlt, by rw [hold i (Nat.lt_of_lt_of_le hlt hle), hempty]⟩

theorem consistent_bulkWrite {x y : StringInterner} {bound start : Nat}
    {values : List (Option String × Nat)} (h : Consistent x bound) (hstart : bound ≤ start)
    (heq : x.bulkWrite start values = some y) : Consistent y bound := by
  unfold bulkWrite at heq
  split at heq
  · rename_i hrange
    cases heq
    have hlen := h.refCounts_length
    have hold : ∀ i, i < bound → (x.strings.take start ++ values.map Prod.fst ++
        x.strings.drop (start + values.length))[i]? = x.strings[i]? := fun i hi => by
      have htake : i < (x.strings.take start).length := by
        simp only [List.length_take]
        omega
      rw [List.append_assoc, List.getElem?_append_left htake,
        List.getElem?_take_of_lt (by omega)]
    have hsame : (x.strings.take start ++ values.map Prod.fst ++
        x.strings.drop (start + values.length)).length = x.strings.length := by
      simp only [List.length_append, List.length_take, List.length_map, List.length_drop]
      omega
    refine ⟨?_, ?_, h.bound_pos, ?_, ?_, ?_, h.free_nodup, ?_⟩
    · simp only [List.length_append, List.length_take, List.length_map, List.length_drop]
      omega
    · rw [hsame]
      exact h.length_le
    · rw [hsame]
      exact h.bound_le
    · rw [hold 0 h.bound_pos, h.sentinel]
    · intro s i
      rw [h.lookup_iff]
      by_cases hi : i < bound
      · rw [hold i hi]
      · simp [hi]
    · intro i hi
      obtain ⟨hpos, hlt, hempty⟩ := h.free_empty i hi
      exact ⟨hpos, hlt, by rw [hold i hlt, hempty]⟩
  · cases heq

/-- What a truncation must not drop or uncover: it takes the map to be up to date
afterwards, and leaves the free list as it is. -/
structure Covers (x : StringInterner) (savedLen : Nat) : Prop where
  lookup_lt : ∀ s i, x.lookup.lookup s = some i → i < savedLen
  free_lt : ∀ i ∈ x.freeList, i < savedLen
  occupied_known : ∀ i s, i < savedLen → x.strings[i]? = some (some s) →
    x.lookup.lookup s = some i

theorem consistent_truncateTo {x y : StringInterner} {bound savedLen : Nat}
    (h : Consistent x bound) (hcovers : Covers x savedLen)
    (heq : x.truncateTo savedLen = some y) :
    Consistent y y.strings.length ∧ y.lookupStale = false := by
  unfold truncateTo at heq
  split at heq
  · rename_i hpos
    cases heq
    have hlen := h.refCounts_length
    have hle := h.length_le
    have hbpos := h.bound_pos
    have hble := h.bound_le
    have hold : ∀ i, i < savedLen → (x.strings.take savedLen)[i]? = x.strings[i]? :=
      fun i hi => List.getElem?_take_of_lt hi
    refine ⟨⟨?_, ?_, ?_, Nat.le_refl _, ?_, ?_, h.free_nodup, ?_⟩, rfl⟩
    · simp [hlen]
    · simp only [List.length_take]
      omega
    · simp only [List.length_take]
      omega
    · rw [hold 0 hpos, h.sentinel]
    · intro s i
      constructor
      · intro hget
        have hlt := hcovers.lookup_lt s i hget
        obtain ⟨hb, hslot⟩ := (h.lookup_iff s i).mp hget
        refine ⟨?_, by rw [hold i hlt, hslot]⟩
        simp only [List.length_take]
        omega
      · rintro ⟨hi, hslot⟩
        simp only [List.length_take] at hi
        have hlt : i < savedLen := by omega
        rw [hold i hlt] at hslot
        exact hcovers.occupied_known i s hlt hslot
    · intro i hi
      obtain ⟨hipos, hb, hempty⟩ := h.free_empty i hi
      have hlt := hcovers.free_lt i hi
      refine ⟨hipos, ?_, by rw [hold i hlt, hempty]⟩
      simp only [List.length_take]
      omega
  · cases heq

/-- The dedup loop after the slots below `k`: the new map describes exactly these. -/
structure DedupInvariant (d : DedupState) (k : Nat) : Prop where
  refCounts_length : d.interner.refCounts.length = d.interner.strings.length
  length_le : d.interner.strings.length ≤ LOCAL_TAG_BIT
  sentinel : d.interner.strings[0]? = some none
  canonical_iff : ∀ s i, d.canonical.lookup s = some i ↔
    i < k ∧ d.interner.strings[i]? = some (some s)
  free_nodup : d.interner.freeList.Nodup
  free_empty : ∀ i ∈ d.interner.freeList,
    0 < i ∧ i < d.interner.strings.length ∧ d.interner.strings[i]? = some none

theorem dedupInvariant_duplicate {k canonIdx count : Nat} {remap : AList fun _ : Nat => Nat}
    (h : DedupInvariant d k) (hpos : 0 < k) (hslot : d.interner.strings[k]? = some (some s)) :
    DedupInvariant ⟨{ d.interner with
      strings := d.interner.strings.set k none
      refCounts := (d.interner.refCounts.set canonIdx count).set k 0
      freeList := k :: d.interner.freeList }, d.canonical, remap⟩ (k + 1) := by
  have hlt := (List.getElem?_eq_some_iff.mp hslot).1
  have hnotfree : k ∉ d.interner.freeList := fun hin => by
    have := (h.free_empty k hin).2.2
    rw [hslot] at this
    cases this
  refine ⟨by simpa using h.refCounts_length, by simpa using h.length_le, ?_, ?_,
    List.nodup_cons.mpr ⟨hnotfree, h.free_nodup⟩, ?_⟩
  · simpa only [List.getElem?_set_ne (Nat.ne_of_gt hpos)] using h.sentinel
  · intro t i
    rw [h.canonical_iff]
    by_cases hik : k = i
    · subst hik
      simp [hlt]
    · rw [List.getElem?_set_ne hik]
      exact and_congr_left fun _ => by omega
  · intro i hi
    cases List.mem_cons.mp hi with
    | inl heq =>
      subst heq
      exact ⟨hpos, by simpa using hlt, List.getElem?_set_self hlt⟩
    | inr hold =>
      obtain ⟨hipos, hilt, hempty⟩ := h.free_empty i hold
      have hki : k ≠ i := fun hki => hnotfree (hki ▸ hold)
      exact ⟨hipos, by simpa using hilt, by simpa only [List.getElem?_set_ne hki] using hempty⟩

theorem dedupInvariant_canonical {k : Nat} (h : DedupInvariant d k)
    (hslot : d.interner.strings[k]? = some (some s)) (hnew : d.canonical.lookup s = none) :
    DedupInvariant { d with canonical := d.canonical.insert s k } (k + 1) := by
  refine { h with canonical_iff := fun t i => ?_ }
  by_cases hts : t = s
  · subst hts
    simp only [AList.lookup_insert, Option.some.injEq]
    constructor
    · rintro rfl
      exact ⟨Nat.lt_succ_self _, hslot⟩
    · rintro ⟨hi, hget⟩
      by_contra hne
      have := (h.canonical_iff t i).mpr ⟨by omega, hget⟩
      simp [hnew] at this
  · rw [AList.lookup_insert_ne hts, h.canonical_iff]
    constructor
    · rintro ⟨hi, hget⟩
      exact ⟨Nat.lt_succ_of_lt hi, hget⟩
    · rintro ⟨hi, hget⟩
      refine ⟨?_, hget⟩
      by_contra hge
      have hik : i = k := by omega
      rw [hik, hslot] at hget
      cases hget
      exact hts rfl

theorem dedupInvariant_skip {k : Nat} (h : DedupInvariant d k)
    (hslot : ∀ s, d.interner.strings[k]? ≠ some (some s)) : DedupInvariant d (k + 1) := by
  refine { h with canonical_iff := fun t i => ?_ }
  rw [h.canonical_iff]
  constructor
  · rintro ⟨hi, hget⟩
    exact ⟨Nat.lt_succ_of_lt hi, hget⟩
  · rintro ⟨hi, hget⟩
    have hik : i ≠ k := fun hik => hslot t (hik ▸ hget)
    exact ⟨by omega, hget⟩

theorem dedupInvariant_at {k : Nat} (h : DedupInvariant d k) (hpos : 0 < k)
    (hlt : k < d.interner.strings.length) :
    ∃ e, dedupAt d k = some e ∧ DedupInvariant e (k + 1) ∧
      e.interner.strings.length = d.interner.strings.length := by
  have hmax : ¬ k > u32Max := by
    have hle := h.length_le
    have hlim : LOCAL_TAG_BIT ≤ u32Max := by decide
    omega
  unfold dedupAt
  split
  · rename_i s hslot
    split
    · rename_i canonIdx hcanon
      have hcanonlt : canonIdx < d.interner.refCounts.length := by
        rw [h.refCounts_length]
        exact Nat.lt_trans ((h.canonical_iff s canonIdx).mp hcanon).1 hlt
      have hklt : k < d.interner.refCounts.length := h.refCounts_length ▸ hlt
      rw [List.getElem?_eq_getElem hcanonlt, List.getElem?_eq_getElem hklt]
      simp only [if_neg hmax]
      exact ⟨_, rfl, dedupInvariant_duplicate h hpos hslot, List.length_set ..⟩
    · rename_i hnew
      rw [if_neg hmax]
      exact ⟨_, rfl, dedupInvariant_canonical h hslot hnew, rfl⟩
  · rename_i hslot
    exact ⟨d, rfl, dedupInvariant_skip h fun s hs => hslot s hs, rfl⟩

theorem dedupInvariant_from {n k : Nat} (h : DedupInvariant d k) (hpos : 0 < k)
    (hend : k + n = d.interner.strings.length) :
    ∃ e, dedupFrom (List.range' k n) d = some e ∧
      DedupInvariant e e.interner.strings.length := by
  induction n generalizing k d with
  | zero => exact ⟨d, rfl, by simpa using hend ▸ h⟩
  | succ n ih =>
    obtain ⟨e, he, hinv, hlen⟩ := dedupInvariant_at h hpos (by omega)
    obtain ⟨f, hf, hfinv⟩ := ih hinv (Nat.succ_pos k) (by omega)
    exact ⟨f, by simp only [List.range'_succ, dedupFrom, he, hf], hfinv⟩

theorem buildDedupTable_spec (h : Consistent x bound) :
    ∃ y remap, x.buildDedupTable = some (y, remap) ∧ Consistent y y.strings.length ∧
      y.lookupStale = false := by
  have hpos : 0 < x.strings.length := Nat.lt_of_lt_of_le h.bound_pos h.bound_le
  have hstart : DedupInvariant ⟨x, ∅, ∅⟩ 1 := by
    refine ⟨h.refCounts_length, h.length_le, h.sentinel, ?_, h.free_nodup, ?_⟩
    · intro s i
      constructor
      · intro hget
        cases hget
      · rintro ⟨hi, hget⟩
        have hzero : i = 0 := by omega
        rw [hzero, h.sentinel] at hget
        cases hget
    · intro i hi
      obtain ⟨hipos, hlt, hempty⟩ := h.free_empty i hi
      exact ⟨hipos, Nat.lt_of_lt_of_le hlt h.bound_le, hempty⟩
  obtain ⟨d, hd, hinv⟩ := dedupInvariant_from hstart (n := x.strings.length - 1)
    Nat.one_pos (by simp only; omega)
  refine ⟨_, _, by simp only [buildDedupTable, hd]; rfl, ?_, rfl⟩
  have hdpos : 0 < d.interner.strings.length :=
    (List.getElem?_eq_some_iff.mp hinv.sentinel).1
  exact ⟨hinv.refCounts_length, hinv.length_le, hdpos, Nat.le_refl _, hinv.sentinel,
    hinv.canonical_iff, hinv.free_nodup, hinv.free_empty⟩

end Sqry.StringInterner
