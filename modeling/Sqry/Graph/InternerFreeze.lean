import Sqry.Graph.InternerRuns

/-!
What the deduplication and the recycling of an interner do to the texts of its slots. A text stays
in the first slot that holds it, when one of the slots that hold it has a reference.
-/

namespace Sqry.StringInterner

structure First (x : StringInterner) (s : String) (index : Nat) : Prop where
  holds : x.strings[index]? = some (some s)
  before : ∀ j < index, x.strings[j]? ≠ some (some s)

def CountedBelow (x : StringInterner) (s : String) (bound : Nat) : Prop :=
  ∃ i n : Nat, i < bound ∧ x.strings[i]? = some (some s) ∧ x.refCounts[i]? = some n ∧ 0 < n

def Counted (x : StringInterner) (s : String) : Prop :=
  ∃ i n : Nat, x.strings[i]? = some (some s) ∧ x.refCounts[i]? = some n ∧ 0 < n

variable {x : StringInterner} {s : String} {d : DedupState} {k : Nat}

theorem First.inj {i j : Nat} (hi : First x s i) (hj : First x s j) : i = j := by
  cases Nat.lt_trichotomy i j with
  | inl hlt => exact absurd hi.holds (hj.before i hlt)
  | inr hrest =>
    cases hrest with
    | inl heq => exact heq
    | inr hgt => exact absurd hj.holds (hi.before j hgt)

theorem First.text_inj {s t : String} {i : Nat} (hs : First x s i)
    (ht : x.strings[i]? = some (some t)) : s = t :=
  Option.some.inj (Option.some.inj (hs.holds.symm.trans ht))

theorem exists_first {i : Nat} (h : x.strings[i]? = some (some s)) : ∃ c, c ≤ i ∧ First x s c := by
  induction i using Nat.strong_induction_on with
  | _ i ih =>
    by_cases hearlier : ∃ j, j < i ∧ x.strings[j]? = some (some s)
    · obtain ⟨j, hj, hslot⟩ := hearlier
      obtain ⟨c, hc, hfirst⟩ := ih j hj hslot
      exact ⟨c, hc.trans (Nat.le_of_lt hj), hfirst⟩
    · exact ⟨i, Nat.le_refl i, h, fun j hj hslot => hearlier ⟨j, hj, hslot⟩⟩

theorem countedBelow_succ_of_ne (h : x.strings[k]? ≠ some (some s))
    : CountedBelow x s (k + 1) ↔ CountedBelow x s k := by
  constructor
  · intro hcounted
    obtain ⟨i, n, hi, hslot, hcount⟩ := hcounted
    have hne : i ≠ k := fun heq => h (heq ▸ hslot)
    exact ⟨i, n, by omega, hslot, hcount⟩
  · intro hcounted
    obtain ⟨i, n, hi, hrest⟩ := hcounted
    exact ⟨i, n, Nat.lt_succ_of_lt hi, hrest⟩

theorem countedBelow_succ {k n : Nat} (h : x.strings[k]? = some (some s))
    (hcount : x.refCounts[k]? = some n) :
    CountedBelow x s (k + 1) ↔ CountedBelow x s k ∨ 0 < n := by
  constructor
  · intro hcounted
    obtain ⟨i, m, hi, hslot, hm, hpos⟩ := hcounted
    by_cases heq : i = k
    · rw [heq, hcount] at hm
      cases hm
      exact .inr hpos
    · exact .inl ⟨i, m, by omega, hslot, hm, hpos⟩
  · intro hcounted
    cases hcounted with
    | inl hbelow =>
      obtain ⟨i, m, hi, hrest⟩ := hbelow
      exact ⟨i, m, Nat.lt_succ_of_lt hi, hrest⟩
    | inr hpos => exact ⟨k, n, Nat.lt_succ_self k, h, hcount, hpos⟩

theorem saturatingAdd_pos {m n : Nat} : 0 < saturatingAdd m n ↔ 0 < m ∨ 0 < n := by
  have hmax : 0 < u32Max := by decide
  rw [saturatingAdd]
  omega

/-- The state of the dedup loop after the slots below `k`, in terms of the interner it began with. -/
structure Deduplicated (x : StringInterner) (d : DedupState) (k : Nat) : Prop where
  strings_iff : ∀ i s, d.interner.strings[i]? = some (some s) ↔
    x.strings[i]? = some (some s) ∧ (i < k → First x s i)
  canonical_iff : ∀ s c, d.canonical.lookup s = some c ↔ c < k ∧ First x s c
  remap_iff : ∀ i c, d.remap.lookup i = some c ↔
    i < k ∧ c < i ∧ ∃ s, x.strings[i]? = some (some s) ∧ First x s c
  rest : ∀ i, k ≤ i → d.interner.refCounts[i]? = x.refCounts[i]?
  counts : ∀ s c n, c < k → First x s c → d.interner.refCounts[c]? = some n →
    (0 < n ↔ CountedBelow x s k)

theorem Deduplicated.start (hsentinel : x.strings[0]? = some none) :
    Deduplicated x ⟨x, ∅, ∅⟩ 1 := by
  have hnot : ∀ i s, i < 1 → ¬ x.strings[i]? = some (some s) := by
    intro i s hi hslot
    have hzero : i = 0 := by omega
    rw [hzero, hsentinel] at hslot
    cases hslot
  refine ⟨fun i s => ?_, fun s c => ?_, fun i c => ?_, fun _ _ => rfl, ?_⟩
  · constructor
    · intro h
      exact ⟨h, fun hi => absurd h (hnot i s hi)⟩
    · intro h
      exact h.1
  · constructor
    · intro h
      cases h
    · intro h
      exact absurd h.2.holds (hnot c s h.1)
  · constructor
    · intro h
      cases h
    · intro h
      obtain ⟨hi, _, s, hslot, _⟩ := h
      exact absurd hslot (hnot i s hi)
  · intro s c n hc hfirst
    exact absurd hfirst.holds (hnot c s hc)

theorem Deduplicated.skip (h : Deduplicated x d k)
    (hslot : ∀ s, d.interner.strings[k]? ≠ some (some s)) :
    Deduplicated x d (k + 1) := by
  have hempty : ∀ s, x.strings[k]? ≠ some (some s) := by
    intro s hs
    exact hslot s ((h.strings_iff k s).mpr ⟨hs, fun hlt => absurd hlt (Nat.lt_irrefl k)⟩)
  have hlt : ∀ {i s}, x.strings[i]? = some (some s) → (i < k + 1 ↔ i < k) := by
    intro i s hs
    have hne : i ≠ k := fun heq => hempty s (heq ▸ hs)
    omega
  refine ⟨fun i s => ?_, fun s c => ?_, fun i c => ?_, fun i hi => h.rest i (by omega),
    fun s c n hc hfirst hcount => ?_⟩
  · rw [h.strings_iff]
    exact and_congr_right fun hs => by rw [hlt hs]
  · rw [h.canonical_iff]
    exact and_congr_left fun hfirst => (hlt hfirst.holds).symm
  · rw [h.remap_iff]
    refine and_congr_left fun hrest => ?_
    obtain ⟨_, s, hs, _⟩ := hrest
    exact (hlt hs).symm
  · rw [countedBelow_succ_of_ne (hempty s)]
    exact h.counts s c n ((hlt hfirst.holds).mp hc) hfirst hcount

theorem Deduplicated.first (h : Deduplicated x d k) (hslot : x.strings[k]? = some (some s))
    (hnew : d.canonical.lookup s = none) :
    Deduplicated x { d with canonical := d.canonical.insert s k } (k + 1) := by
  have hfirst : First x s k := by
    obtain ⟨c, hc, hfirst⟩ := exists_first hslot
    cases Nat.lt_or_eq_of_le hc with
    | inl hlt =>
      rw [(h.canonical_iff s c).mpr ⟨hlt, hfirst⟩] at hnew
      cases hnew
    | inr heq => exact heq ▸ hfirst
  refine ⟨fun i t => ?_, fun t c => ?_, fun i c => ?_, fun i hi => h.rest i (by omega),
    fun t c n hc hcfirst hcount => ?_⟩
  · rw [h.strings_iff]
    refine and_congr_right fun ht => ?_
    constructor
    · intro himp hi
      by_cases heq : i = k
      · subst heq
        rw [← hfirst.text_inj ht]
        exact hfirst
      · exact himp (by omega)
    · intro himp hi
      exact himp (Nat.lt_succ_of_lt hi)
  · by_cases hts : t = s
    · subst hts
      rw [AList.lookup_insert, Option.some.injEq]
      constructor
      · intro heq
        rw [← heq]
        exact ⟨Nat.lt_succ_self k, hfirst⟩
      · intro hc
        exact hfirst.inj hc.2
    · rw [AList.lookup_insert_ne hts, h.canonical_iff]
      refine and_congr_left fun hcfirst => ?_
      have hne : c ≠ k := fun heq => hts (hcfirst.text_inj (heq ▸ hslot))
      omega
  · rw [h.remap_iff]
    refine and_congr_left fun hrest => ?_
    obtain ⟨hci, t, ht, hcfirst⟩ := hrest
    have hne : i ≠ k := by
      intro heq
      subst heq
      rw [← hfirst.text_inj ht] at hcfirst
      exact absurd (hcfirst.inj hfirst) (Nat.ne_of_lt hci)
    omega
  · by_cases hts : t = s
    · subst hts
      have hck := hcfirst.inj hfirst
      subst hck
      have hstored : x.refCounts[c]? = some n := (h.rest c (Nat.le_refl c)).symm.trans hcount
      rw [countedBelow_succ hslot hstored]
      refine (or_iff_right fun hbelow => ?_).symm
      obtain ⟨i, _, hi, hold, _⟩ := hbelow
      exact hfirst.before i hi hold
    · have hne : x.strings[k]? ≠ some (some t) := fun ht => hts (hfirst.text_inj ht).symm
      have hck : c ≠ k := fun heq => hne (heq ▸ hcfirst.holds)
      rw [countedBelow_succ_of_ne hne]
      exact h.counts t c n (by omega) hcfirst hcount

theorem Deduplicated.duplicate {k c dupCount canonCount : Nat} (h : Deduplicated x d k)
    (hslot : x.strings[k]? = some (some s)) (hcanon : d.canonical.lookup s = some c)
    (hdup : d.interner.refCounts[k]? = some dupCount)
    (hcount : d.interner.refCounts[c]? = some canonCount) :
    Deduplicated x ⟨{ d.interner with
      strings := d.interner.strings.set k none
      refCounts := (d.interner.refCounts.set c (saturatingAdd canonCount dupCount)).set k 0
      freeList := k :: d.interner.freeList }, d.canonical, d.remap.insert k c⟩ (k + 1) := by
  obtain ⟨hck, hfirst⟩ := (h.canonical_iff s c).mp hcanon
  -- no text has slot `k` as its first one
  have hlater : ∀ t, ¬ First x t k := by
    intro t ht
    have hts := ht.text_inj hslot
    rw [hts] at ht
    exact Nat.ne_of_lt hck (hfirst.inj ht)
  refine ⟨fun i t => ?_, fun t c' => ?_, fun i c' => ?_, fun i hi => ?_,
    fun t c' n hc' hcfirst hn => ?_⟩
  · by_cases hik : i = k
    · subst hik
      rw [List.getElem?_set_self' ]
      constructor
      · intro hbad
        cases hstored : d.interner.strings[i]? with
        | none => rw [hstored] at hbad; cases hbad
        | some slot => rw [hstored] at hbad; cases hbad
      · intro hbad
        exact absurd (hbad.2 (Nat.lt_succ_self i)) (hlater t)
    · rw [List.getElem?_set_ne (Ne.symm hik), h.strings_iff]
      refine and_congr_right fun _ => ?_
      have hiff : i < k + 1 ↔ i < k := by omega
      rw [hiff]
  · rw [h.canonical_iff]
    refine and_congr_left fun hcfirst => ?_
    have hne : c' ≠ k := fun heq => hlater t (heq ▸ hcfirst)
    omega
  · by_cases hik : i = k
    · subst hik
      rw [AList.lookup_insert, Option.some.injEq]
      constructor
      · intro heq
        subst heq
        exact ⟨Nat.lt_succ_self i, hck, s, hslot, hfirst⟩
      · intro hrest
        obtain ⟨_, _, t, ht, hcfirst⟩ := hrest
        rw [hslot] at ht
        cases ht
        exact hfirst.inj hcfirst
    · rw [AList.lookup_insert_ne hik, h.remap_iff]
      refine and_congr_left fun _ => ?_
      omega
  · rw [List.getElem?_set_ne (by omega), List.getElem?_set_ne (by omega)]
    exact h.rest i (by omega)
  · have hc'k : c' ≠ k := fun heq => hlater t (heq ▸ hcfirst)
    rw [List.getElem?_set_ne (Ne.symm hc'k)] at hn
    by_cases hts : t = s
    · subst hts
      have hsame := hcfirst.inj hfirst
      subst hsame
      have hlt : c' < d.interner.refCounts.length := (List.getElem?_eq_some_iff.mp hcount).1
      rw [List.getElem?_set_self hlt] at hn
      cases hn
      have hstored : x.refCounts[k]? = some dupCount :=
        (h.rest k (Nat.le_refl k)).symm.trans hdup
      rw [saturatingAdd_pos, countedBelow_succ hslot hstored,
        h.counts t c' canonCount hck hfirst hcount]
    · have hne : c ≠ c' := by
        intro heq
        subst heq
        exact hts (hcfirst.text_inj hfirst.holds)
      have htk : x.strings[k]? ≠ some (some t) := by
        intro ht
        rw [hslot] at ht
        cases ht
        exact hts rfl
      rw [List.getElem?_set_ne hne] at hn
      rw [countedBelow_succ_of_ne htk]
      exact h.counts t c' n (by omega) hcfirst hn

theorem Deduplicated.at {d e : DedupState} (h : Deduplicated x d k) (heq : dedupAt d k = some e)
    : Deduplicated x e (k + 1) := by
  rw [dedupAt] at heq
  split at heq
  · rename_i s hslot
    have hold := ((h.strings_iff k s).mp hslot).1
    split at heq
    · rename_i c hcanon
      split at heq
      · rename_i dupCount canonCount hdup hcount
        split at heq
        · cases heq
        · cases heq
          exact h.duplicate hold hcanon hdup hcount
      · cases heq
    · rename_i hnew
      split at heq
      · cases heq
      · cases heq
        exact h.first hold hnew
  · rename_i hslot
    cases heq
    exact h.skip fun s hs => hslot s hs

theorem Deduplicated.from {n k : Nat} {d e : DedupState} (h : Deduplicated x d k)
    (heq : dedupFrom (List.range' k n) d = some e) :
    Deduplicated x e (k + n) := by
  induction n generalizing k d with
  | zero =>
    cases heq
    exact h
  | succ n ih =>
    rw [List.range'_succ, dedupFrom] at heq
    cases hnext : dedupAt d k with
    | none =>
      rw [hnext] at heq
      cases heq
    | some d' =>
      rw [hnext] at heq
      have hrest := ih (h.at hnext) heq
      rwa [Nat.add_right_comm] at hrest

theorem recycleFrom_strings {indices : List Nat} {x y : StringInterner} {recycled n : Nat}
    (heq : recycleFrom indices x recycled = some (y, n)) :
    (∀ i s, y.strings[i]? = some (some s) ↔
      x.strings[i]? = some (some s) ∧ ¬ (i ∈ indices ∧ x.refCounts[i]? = some 0)) ∧
      y.refCounts = x.refCounts := by
  induction indices generalizing x recycled with
  | nil =>
    cases heq
    exact ⟨fun i s => by simp, rfl⟩
  | cons index rest ih =>
    rw [recycleFrom] at heq
    cases hnext : recycleAt x recycled index with
    | none =>
      rw [hnext] at heq
      cases heq
    | some next =>
      rw [hnext] at heq
      obtain ⟨hstrings, hcounts⟩ := ih heq
      have hstep : (∀ i s, next.1.strings[i]? = some (some s) ↔
          x.strings[i]? = some (some s) ∧ ¬ (i = index ∧ x.refCounts[i]? = some 0)) ∧
            next.1.refCounts = x.refCounts := by
        rw [recycleAt] at hnext
        split at hnext
        · cases hnext
        · rename_i hzero
          split at hnext
          · rename_i t hslot
            cases hnext
            refine ⟨fun i s => ?_, rfl⟩
            by_cases hi : i = index
            · subst hi
              rw [List.getElem?_set_self (List.getElem?_eq_some_iff.mp hslot).1]
              simp [hzero]
            · rw [List.getElem?_set_ne (Ne.symm hi)]
              simp [hi]
          · rename_i hempty
            cases hnext
            refine ⟨fun i s => (and_iff_left_of_imp fun hs hbad => ?_).symm, rfl⟩
            exact hempty s (hbad.1 ▸ hs)
        · rename_i m hpos
          cases hnext
          refine ⟨fun i s => (and_iff_left_of_imp fun _ hbad => ?_).symm, rfl⟩
          rw [hbad.1, hpos] at hbad
          cases hbad.2
      refine ⟨fun i s => ?_, hcounts.trans hstep.2⟩
      rw [hstrings, hstep.1, hstep.2, List.mem_cons, or_and_right, not_or, and_assoc]

theorem counted_iff :
    CountedBelow x s x.strings.length ↔ Counted x s := by
  constructor
  · intro h
    obtain ⟨i, n, _, hrest⟩ := h
    exact ⟨i, n, hrest⟩
  · intro h
    obtain ⟨i, n, hslot, hrest⟩ := h
    exact ⟨i, n, (List.getElem?_eq_some_iff.mp hslot).1, hslot, hrest⟩

theorem freeze_spec {bound : Nat} (h : Consistent x bound) :
    ∃ y table z n, x.buildDedupTable = some (y, table) ∧ y.recycleUnreferenced = some (z, n) ∧
      (∀ i c, table.lookup i = some c ↔
        c < i ∧ ∃ s, x.strings[i]? = some (some s) ∧ First x s c) ∧
      ∀ i s, z.strings[i]? = some (some s) ↔ First x s i ∧ Counted x s := by
  obtain ⟨y, table, hdedup, hcons, hfresh⟩ := buildDedupTable_spec h
  have hrecycle : y.recycleUnreferenced =
      recycleFrom (List.range' 1 (y.strings.length - 1)) y 0 := by
    rw [recycleUnreferenced, hfresh]
    rfl
  obtain ⟨z, n, hz, _⟩ := recycleFrom_spec 0 hcons fun i hi => mem_indices hi
  obtain ⟨d, hd, hyd⟩ := Option.map_eq_some_iff.mp hdedup
  have hspec := (Deduplicated.start h.sentinel).from hd
  have hlength : 1 + (x.strings.length - 1) = x.strings.length := by
    have hpos := (List.getElem?_eq_some_iff.mp h.sentinel).1
    omega
  rw [hlength] at hspec
  cases hyd
  have hlt : ∀ {i s}, x.strings[i]? = some (some s) → i < x.strings.length :=
    fun hs => (List.getElem?_eq_some_iff.mp hs).1
  refine ⟨_, d.remap, z, n, hdedup, hrecycle.trans hz, fun i c => ?_, fun i s => ?_⟩
  · rw [hspec.remap_iff]
    refine and_iff_right_of_imp fun hrest => ?_
    obtain ⟨_, s, hs, _⟩ := hrest
    exact hlt hs
  · rw [(recycleFrom_strings hz).1]
    have hfirst : d.interner.strings[i]? = some (some s) ↔ First x s i := by
      rw [hspec.strings_iff]
      constructor
      · intro hs
        exact hs.2 (hlt hs.1)
      · intro hs
        exact ⟨hs.holds, fun _ => hs⟩
    rw [hfirst]
    refine and_congr_right fun hs => ?_
    obtain ⟨count, hcount⟩ := exists_refCount hcons
      (List.getElem?_eq_some_iff.mp (hfirst.mpr hs)).1
    have hcounts := hspec.counts s i count (hlt hs.holds) hs hcount
    have hpos : 0 < i := by
      refine Nat.pos_of_ne_zero fun hzero => ?_
      have hslot := hs.holds
      rw [hzero, h.sentinel] at hslot
      cases hslot
    have hmem : i ∈ List.range' 1 (d.interner.strings.length - 1) := by
      have hi := (List.getElem?_eq_some_iff.mp (hfirst.mpr hs)).1
      rw [List.mem_range'_1]
      omega
    rw [← counted_iff, ← hcounts]
    constructor
    · intro hnot
      refine Nat.pos_of_ne_zero fun hzero => hnot ⟨hmem, ?_⟩
      rw [← hzero]
      exact hcount
    · intro hcountPos hbad
      have hsame := hcount.symm.trans hbad.2
      cases hsame
      exact Nat.lt_irrefl 0 hcountPos

end Sqry.StringInterner
