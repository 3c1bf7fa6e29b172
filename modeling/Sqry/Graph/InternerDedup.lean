import Sqry.Graph.InternerFreeze

/-!
What the deduplication returns, for slots with any contents: the remap table and the new slots
resolve as the old slots did, each text has one slot and the sum of the references, and a second
deduplication finds nothing to do.
-/

namespace Sqry.StringInterner

/-- What holds of the slots whatever bulk writes did: slot 0 is reserved, every slot has a count,
slots have identifiers, and counts are `u32`s. Nothing is said of the map and the free list. -/
structure Slotted (x : StringInterner) : Prop where
  sentinel : x.strings[0]? = some none
  refCounts_length : x.refCounts.length = x.strings.length
  length_le : x.strings.length ≤ u32Max
  counts_le : ∀ n ∈ x.refCounts, n ≤ u32Max

def saturatingSum (counts : List Nat) : Nat := min counts.sum u32Max

def countsBelow (x : StringInterner) (s : String) (bound : Nat) : List Nat :=
  (List.range bound).filterMap fun i =>
    if x.strings[i]? = some (some s) then x.refCounts[i]? else none

def slotCounts (x : StringInterner) (s : String) : List Nat := x.countsBelow s x.strings.length

def Distinct (x : StringInterner) : Prop :=
  ∀ (i j : Nat) (s : String),
    x.strings[i]? = some (some s) → x.strings[j]? = some (some s) → i = j

structure Canonicalised (x y : StringInterner) (remap : AList fun _ : Nat => Nat) : Prop where
  resolves : ∀ (i : Nat) (s : String), x.strings[i]? = some (some s) →
    y.resolve ((remap.lookup i).getD i) = some s
  range_disjoint : ∀ i c, remap.lookup i = some c → remap.lookup c = none
  distinct : y.Distinct
  lookup_iff : ∀ (s : String) (i : Nat), y.lookup.lookup s = some i ↔ y.strings[i]? = some (some s)
  counts : ∀ (i : Nat) (s : String), y.strings[i]? = some (some s) →
    y.refCounts[i]? = some (saturatingSum (x.slotCounts s))
  idempotent : ∃ z, y.buildDedupTable = some (z, ∅) ∧ z = { y with lookup := z.lookup } ∧
    ∀ s, z.lookup.lookup s = y.lookup.lookup s

section Counts
variable {x : StringInterner} {s : String} {k n : Nat}

theorem countsBelow_succ (hslot : x.strings[k]? = some (some s)) (hcount : x.refCounts[k]? = some n) :
    x.countsBelow s (k + 1) = x.countsBelow s k ++ [n] := by
  rw [countsBelow, List.range_succ, List.filterMap_append, countsBelow]
  simp [hslot, hcount]

theorem countsBelow_succ_of_ne (hslot : x.strings[k]? ≠ some (some s)) :
    x.countsBelow s (k + 1) = x.countsBelow s k := by
  rw [countsBelow, List.range_succ, List.filterMap_append, countsBelow]
  simp [hslot]

theorem countsBelow_eq_nil (h : ∀ j < k, x.strings[j]? ≠ some (some s)) :
    x.countsBelow s k = [] := by
  rw [countsBelow, List.filterMap_eq_nil_iff]
  intro i hi
  exact if_neg (h i (List.mem_range.mp hi))

theorem saturatingSum_append (counts : List Nat) (n : Nat) :
    saturatingSum (counts ++ [n]) = saturatingAdd (saturatingSum counts) n := by
  simp only [saturatingSum, saturatingAdd, List.sum_append, List.sum_singleton]
  omega

theorem saturatingSum_singleton (hn : n ≤ u32Max) : saturatingSum [n] = n := by
  rw [saturatingSum, List.sum_singleton]
  exact Nat.min_eq_left hn

end Counts

/-- The canonical slots of the loop have the sums of the counts below `k`. -/
structure Summed (x : StringInterner) (d : DedupState) (k : Nat) : Prop where
  deduplicated : Deduplicated x d k
  strings_length : d.interner.strings.length = x.strings.length
  refCounts_length : d.interner.refCounts.length = x.refCounts.length
  counts_le : ∀ n ∈ d.interner.refCounts, n ≤ u32Max
  sums : ∀ s c, c < k → First x s c →
    d.interner.refCounts[c]? = some (saturatingSum (x.countsBelow s k))

section Loop
variable {x : StringInterner}

theorem Summed.start (h : x.Slotted) : Summed x ⟨x, ∅, ∅⟩ 1 := by
  refine ⟨.start h.sentinel, rfl, rfl, h.counts_le, fun s c hc hfirst => ?_⟩
  have hzero : c = 0 := by omega
  have hholds := hfirst.holds
  rw [hzero, h.sentinel] at hholds
  cases hholds

variable {d : DedupState} {s : String} {k : Nat}

theorem Summed.sums_of_ne (h : Summed x d k) (hslot : x.strings[k]? ≠ some (some s)) {c : Nat}
    (hc : c < k + 1) (hfirst : First x s c) :
    d.interner.refCounts[c]? = some (saturatingSum (x.countsBelow s (k + 1))) := by
  have hck : c ≠ k := fun heq => hslot (heq ▸ hfirst.holds)
  rw [countsBelow_succ_of_ne hslot]
  exact h.sums s c (by omega) hfirst

theorem Summed.duplicate (hx : x.Slotted) {k c : Nat} (h : Summed x d k) (hk : k < x.strings.length)
    (hslot : d.interner.strings[k]? = some (some s)) (hcanon : d.canonical.lookup s = some c) :
    ∃ e, dedupAt d k = some e ∧ Summed x e (k + 1) := by
  obtain ⟨hck, hfirst⟩ := (h.deduplicated.canonical_iff s c).mp hcanon
  have hmax := hx.length_le
  have hstored : k < x.refCounts.length := by rw [hx.refCounts_length]; exact hk
  have hdup : d.interner.refCounts[k]? = some (x.refCounts.get ⟨k, hstored⟩) := by
    rw [h.deduplicated.rest k (Nat.le_refl k)]
    exact List.getElem?_eq_getElem hstored
  have hcount := h.sums s c hck hfirst
  refine ⟨⟨{ d.interner with
    strings := d.interner.strings.set k none
    refCounts := (d.interner.refCounts.set c (saturatingAdd (saturatingSum (x.countsBelow s k))
      (x.refCounts.get ⟨k, hstored⟩))).set k 0
    freeList := k :: d.interner.freeList }, d.canonical, d.remap.insert k c⟩, ?_, ?_⟩
  · simp only [dedupAt, hslot, hcanon, hdup, hcount]
    rw [if_neg (by omega)]
  · have hold := ((h.deduplicated.strings_iff k s).mp hslot).1
    refine ⟨h.deduplicated.duplicate hold hcanon hdup hcount, ?_, ?_, fun n hn => ?_,
      fun t c' hc' hfirst' => ?_⟩
    · rw [List.length_set, h.strings_length]
    · rw [List.length_set, List.length_set, h.refCounts_length]
    · cases List.mem_or_eq_of_mem_set hn with
      | inr hzero => exact hzero ▸ Nat.zero_le u32Max
      | inl hmem =>
        cases List.mem_or_eq_of_mem_set hmem with
        | inr hsum => exact hsum ▸ Nat.min_le_right _ _
        | inl hold => exact h.counts_le n hold
    · have hc'k : c' ≠ k := by
        intro heq
        rw [heq] at hfirst'
        have hts := hfirst'.text_inj hold
        exact hfirst'.before c hck (hts ▸ hfirst.holds)
      rw [List.getElem?_set_ne (Ne.symm hc'k)]
      by_cases hts : t = s
      · have hsame : c' = c := by
          rw [hts] at hfirst'
          exact hfirst'.inj hfirst
        have hlt : c < d.interner.refCounts.length := (List.getElem?_eq_some_iff.mp hcount).1
        rw [hsame, List.getElem?_set_self hlt, hts,
          countsBelow_succ hold (List.getElem?_eq_getElem hstored), saturatingSum_append]
        rfl
      · have hne : c ≠ c' := fun heq => hts (hfirst'.text_inj (heq ▸ hfirst.holds))
        have hother : x.strings[k]? ≠ some (some t) := by
          intro ht
          rw [hold] at ht
          cases ht
          exact hts rfl
        rw [List.getElem?_set_ne hne]
        exact h.sums_of_ne hother hc' hfirst'

theorem Summed.first (hx : x.Slotted) (h : Summed x d k) (hk : k < x.strings.length)
    (hslot : d.interner.strings[k]? = some (some s)) (hnew : d.canonical.lookup s = none)
    : ∃ e, dedupAt d k = some e ∧ Summed x e (k + 1) := by
  have hmax := hx.length_le
  have hold := ((h.deduplicated.strings_iff k s).mp hslot).1
  have hstored : k < x.refCounts.length := by rw [hx.refCounts_length]; exact hk
  refine ⟨{ d with canonical := d.canonical.insert s k }, ?_,
    h.deduplicated.first hold hnew, h.strings_length, h.refCounts_length, h.counts_le,
    fun t c hc hfirst => ?_⟩
  · simp only [dedupAt, hslot, hnew]
    rw [if_neg (by omega)]
  · by_cases hts : t = s
    · have hbefore : ∀ j < k, x.strings[j]? ≠ some (some s) := by
        intro j hj ht
        obtain ⟨c', hc', hfirst'⟩ := exists_first ht
        have hsome := (h.deduplicated.canonical_iff s c').mpr ⟨by omega, hfirst'⟩
        rw [hnew] at hsome
        cases hsome
      have hkc : c = k := by
        rw [hts] at hfirst
        exact hfirst.inj ⟨hold, hbefore⟩
      have hn : x.refCounts.get ⟨k, hstored⟩ ≤ u32Max := hx.counts_le _ (List.get_mem ..)
      rw [hkc, hts, countsBelow_succ hold (List.getElem?_eq_getElem hstored),
        countsBelow_eq_nil hbefore, List.nil_append, h.deduplicated.rest k (Nat.le_refl k)]
      exact (List.getElem?_eq_getElem hstored).trans
        (congrArg some (saturatingSum_singleton hn).symm)
    · have hother : x.strings[k]? ≠ some (some t) := by
        intro ht
        rw [hold] at ht
        cases ht
        exact hts rfl
      exact h.sums_of_ne hother hc hfirst

theorem Summed.at (hx : x.Slotted) (h : Summed x d k) (hk : k < x.strings.length)
    : ∃ e, dedupAt d k = some e ∧ Summed x e (k + 1) := by
  cases hslot : d.interner.strings[k]? with
  | none =>
    have hnot : ∀ s, d.interner.strings[k]? ≠ some (some s) := by simp [hslot]
    refine ⟨d, by simp only [dedupAt, hslot], h.deduplicated.skip hnot, h.strings_length,
      h.refCounts_length, h.counts_le, fun s c hc hfirst => ?_⟩
    rw [List.getElem?_eq_none_iff, h.strings_length] at hslot
    omega
  | some held =>
    cases held with
    | none =>
      have hnot : ∀ s, d.interner.strings[k]? ≠ some (some s) := by simp [hslot]
      refine ⟨d, by simp only [dedupAt, hslot], h.deduplicated.skip hnot, h.strings_length,
        h.refCounts_length, h.counts_le, fun s c hc hfirst => ?_⟩
      refine h.sums_of_ne (fun hs => hnot s ?_) hc hfirst
      exact (h.deduplicated.strings_iff k s).mpr ⟨hs, fun hkk => absurd hkk (Nat.lt_irrefl k)⟩
    | some s =>
      cases hcanon : d.canonical.lookup s with
      | some c => exact h.duplicate hx hk hslot hcanon
      | none => exact h.first hx hk hslot hcanon

theorem Summed.from (hx : x.Slotted) {n k : Nat} (h : Summed x d k)
    (hn : k + n = x.strings.length) :
    ∃ e, dedupFrom (List.range' k n) d = some e ∧ Summed x e x.strings.length := by
  induction n generalizing k d with
  | zero =>
    rw [← hn]
    exact ⟨d, rfl, h⟩
  | succ n ih =>
    obtain ⟨d', hd', hat⟩ := h.at hx (by omega)
    obtain ⟨e, he, hend⟩ := ih hat (by omega)
    exact ⟨e, by rw [List.range'_succ, dedupFrom, hd']; exact he, hend⟩

theorem Slotted.length_pos (h : x.Slotted) : 0 < x.strings.length :=
  (List.getElem?_eq_some_iff.mp h.sentinel).1

theorem exists_dedupFrom (h : x.Slotted) :
    ∃ d, dedupFrom (List.range' 1 (x.strings.length - 1)) ⟨x, ∅, ∅⟩ = some d ∧
      Summed x d x.strings.length := by
  have hpos := h.length_pos
  have hend : 1 + (x.strings.length - 1) = x.strings.length := by omega
  exact (Summed.start h).from h hend

theorem buildDedupTable_of_dedupFrom
    (h : dedupFrom (List.range' 1 (x.strings.length - 1)) ⟨x, ∅, ∅⟩ = some d) :
    x.buildDedupTable =
      some ({ d.interner with lookup := d.canonical, lookupStale := false }, d.remap) := by
  rw [buildDedupTable, h]
  rfl

theorem dedupAt_of_distinct (hdistinct : x.Distinct) {d e : DedupState} (h : Deduplicated x d k)
    (hd : d.interner = x) (hremap : d.remap = ∅) (heq : dedupAt d k = some e)
    : e.interner = x ∧ e.remap = ∅ := by
  rw [dedupAt] at heq
  cases hslot : d.interner.strings[k]? with
  | none =>
    rw [hslot] at heq
    cases heq
    exact ⟨hd, hremap⟩
  | some held =>
    cases held with
    | none =>
      rw [hslot] at heq
      cases heq
      exact ⟨hd, hremap⟩
    | some s =>
      cases hcanon : d.canonical.lookup s with
      | some c =>
        obtain ⟨hck, hfirst⟩ := (h.canonical_iff s c).mp hcanon
        have hold := ((h.strings_iff k s).mp hslot).1
        exact absurd (hdistinct c k s hfirst.holds hold) (Nat.ne_of_lt hck)
      | none =>
        simp only [hslot, hcanon] at heq
        by_cases hmax : k > u32Max
        · rw [if_pos hmax] at heq
          cases heq
        · rw [if_neg hmax] at heq
          cases heq
          exact ⟨hd, hremap⟩

theorem dedupFrom_of_distinct
    (hdistinct : x.Distinct)
    {n k : Nat} {d e : DedupState} (h : Deduplicated x d k) (hd : d.interner = x)
    (hremap : d.remap = ∅) (heq : dedupFrom (List.range' k n) d = some e) :
    e.interner = x ∧ e.remap = ∅ := by
  induction n generalizing k d with
  | zero =>
    cases heq
    exact ⟨hd, hremap⟩
  | succ n ih =>
    rw [List.range'_succ, dedupFrom] at heq
    cases hnext : dedupAt d k with
    | none =>
      rw [hnext] at heq
      cases heq
    | some d' =>
      rw [hnext] at heq
      obtain ⟨hd', hremap'⟩ := dedupAt_of_distinct hdistinct h hd hremap hnext
      exact ih (h.at hnext) hd' hremap' heq

theorem Summed.canonical_iff (h : Summed x d x.strings.length) {i : Nat} :
    d.canonical.lookup s = some i ↔ d.interner.strings[i]? = some (some s) := by
  rw [h.deduplicated.canonical_iff, h.deduplicated.strings_iff]
  constructor
  · intro ⟨_, hfirst⟩
    exact ⟨hfirst.holds, fun _ => hfirst⟩
  · intro ⟨hslot, hfirst⟩
    have hlt := (List.getElem?_eq_some_iff.mp hslot).1
    exact ⟨hlt, hfirst hlt⟩

theorem Summed.first_of_holds (h : Summed x d x.strings.length) {i : Nat}
    (hslot : d.interner.strings[i]? = some (some s)) :
    i < x.strings.length ∧ First x s i := by
  obtain ⟨hold, hfirst⟩ := (h.deduplicated.strings_iff i s).mp hslot
  have hlt := (List.getElem?_eq_some_iff.mp hold).1
  exact ⟨hlt, hfirst hlt⟩

theorem Summed.distinct (h : Summed x d x.strings.length) :
    d.interner.Distinct := by
  intro i j s hi hj
  exact (h.first_of_holds hi).2.inj (h.first_of_holds hj).2

theorem buildDedupTable_of_distinct (h : x.Slotted) (hdistinct : x.Distinct) :
    ∃ z, x.buildDedupTable = some (z, ∅) ∧
      z = { x with lookup := z.lookup, lookupStale := false } ∧
      ∀ s i, z.lookup.lookup s = some i ↔ x.strings[i]? = some (some s) := by
  obtain ⟨d, hloop, hsummed⟩ := exists_dedupFrom h
  obtain ⟨hd, hremap⟩ := dedupFrom_of_distinct hdistinct (.start h.sentinel) rfl rfl hloop
  have hbuild := buildDedupTable_of_dedupFrom hloop
  rw [hremap, hd] at hbuild
  refine ⟨_, hbuild, rfl, fun s i => ?_⟩
  rw [← hd]
  exact hsummed.canonical_iff

end Loop

section Result
variable {x : StringInterner} {d : DedupState}

theorem Summed.slotted (hx : x.Slotted) (h : Summed x d x.strings.length) :
    d.interner.Slotted := by
  refine ⟨?_, ?_, ?_, h.counts_le⟩
  · cases hslot : d.interner.strings[0]? with
    | none =>
      have hpos := hx.length_pos
      rw [List.getElem?_eq_none_iff, h.strings_length] at hslot
      omega
    | some held =>
      cases held with
      | none => rfl
      | some s =>
        have hold := ((h.deduplicated.strings_iff 0 s).mp hslot).1
        rw [hx.sentinel] at hold
        cases hold
  · rw [h.refCounts_length, h.strings_length, hx.refCounts_length]
  · rw [h.strings_length]
    exact hx.length_le

theorem Summed.resolves (hx : x.Slotted) (h : Summed x d x.strings.length) {i : Nat} {s : String}
    (hslot : x.strings[i]? = some (some s)) :
    d.interner.resolve ((d.remap.lookup i).getD i) = some s := by
  obtain ⟨c, hci, hfirst⟩ := exists_first hslot
  have hilt := (List.getElem?_eq_some_iff.mp hslot).1
  have hmax := hx.length_le
  have htarget : (d.remap.lookup i).getD i = c := by
    cases hremap : d.remap.lookup i with
    | some c' =>
      obtain ⟨_, _, t, ht, hfirst'⟩ := (h.deduplicated.remap_iff i c').mp hremap
      rw [hslot] at ht
      cases ht
      exact hfirst'.inj hfirst
    | none =>
      refine (Nat.le_antisymm hci (Nat.not_lt.mp fun hlt => ?_)).symm
      have hsome := (h.deduplicated.remap_iff i c).mpr ⟨hilt, hlt, s, hslot, hfirst⟩
      rw [hremap] at hsome
      cases hsome
  have hheld := (h.deduplicated.strings_iff c s).mpr ⟨hfirst.holds, fun _ => hfirst⟩
  rw [htarget, resolve, if_neg (by omega), hheld]
  rfl

theorem Summed.range_disjoint (h : Summed x d x.strings.length) {i c : Nat}
    (hremap : d.remap.lookup i = some c) : d.remap.lookup c = none := by
  obtain ⟨_, _, s, _, hfirst⟩ := (h.deduplicated.remap_iff i c).mp hremap
  cases hagain : d.remap.lookup c with
  | none => rfl
  | some c' =>
    obtain ⟨_, hlt, t, ht, hfirst'⟩ := (h.deduplicated.remap_iff c c').mp hagain
    have hts := hfirst.text_inj ht
    exact absurd hfirst'.holds (hts ▸ hfirst.before c' hlt)

/-- The deduplication of any slots succeeds and keeps what they mean. -/
theorem buildDedupTable_canonicalised (h : x.Slotted) :
    ∃ y remap, x.buildDedupTable = some (y, remap) ∧ x.Canonicalised y remap := by
  obtain ⟨d, hloop, hsummed⟩ := exists_dedupFrom h
  refine ⟨_, _, buildDedupTable_of_dedupFrom hloop, ?_⟩
  have hslotted : Slotted { d.interner with lookup := d.canonical, lookupStale := false } := by
    obtain ⟨hsentinel, hlength, hle, hcounts⟩ := hsummed.slotted h
    exact ⟨hsentinel, hlength, hle, hcounts⟩
  refine ⟨fun i s hslot => hsummed.resolves h hslot, fun i c => hsummed.range_disjoint,
    hsummed.distinct, fun s i => hsummed.canonical_iff, fun i s hslot => ?_, ?_⟩
  · obtain ⟨hlt, hfirst⟩ := hsummed.first_of_holds hslot
    exact hsummed.sums s i hlt hfirst
  · obtain ⟨z, hz, heq, hlookup⟩ := buildDedupTable_of_distinct hslotted hsummed.distinct
    refine ⟨z, hz, heq, fun s => Option.ext fun i => ?_⟩
    rw [hlookup]
    exact hsummed.canonical_iff.symm

/-- Three workers wrote into their slots, two of them the same text. -/
theorem buildDedupTable_canonicalised_three :
    ∃ y remap, buildDedupTable ⟨[none, some "f", some "g", some "f"], ∅, [0, 2, 1, 3], [], none,
        true⟩ = some (y, remap) ∧
      Canonicalised ⟨[none, some "f", some "g", some "f"], ∅, [0, 2, 1, 3], [], none, true⟩ y
        remap :=
  buildDedupTable_canonicalised ⟨rfl, rfl, by decide, by decide⟩

end Result

end Sqry.StringInterner
