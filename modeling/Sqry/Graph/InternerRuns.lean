import Sqry.Graph.InternerInvariant

/-!
Runs of interner operations, with the start of the region that bulk allocation has
opened since the map became stale. Bulk writes go into that region.
-/

namespace Sqry

inductive InternerOp where
  | intern (s : String)
  | internWithoutRef (s : String)
  | incRef (id : Nat)
  | decRef (id : Nat)
  | recycleUnreferenced
  | allocRange (count : Nat)
  | bulkWrite (start : Nat) (values : List (Option String × Nat))
  | buildDedupTable
  | clear
  | truncateTo (savedLen : Nat)

structure InternerHistory where
  interner : StringInterner
  freshStart : Option Nat

namespace InternerHistory

def start : InternerHistory := ⟨StringInterner.new, none⟩

def step (h : InternerHistory) : InternerOp → Option InternerHistory
  | .intern s => (h.interner.intern s).map fun r => { h with interner := r.1 }
  | .internWithoutRef s =>
    (h.interner.internWithoutRef s).map fun r => { h with interner := r.1 }
  | .incRef id => (h.interner.incRef id).map fun r => { h with interner := r.1 }
  | .decRef id => (h.interner.decRef id).map fun r => { h with interner := r.1 }
  | .recycleUnreferenced =>
    h.interner.recycleUnreferenced.map fun r => { h with interner := r.1 }
  | .allocRange count =>
    some ⟨(h.interner.allocRange count).1,
      if (h.interner.allocRange count).1.lookupStale then
        some (h.freshStart.getD h.interner.strings.length)
      else none⟩
  | .bulkWrite start values =>
    (h.interner.bulkWrite start values).map fun x => { h with interner := x }
  | .buildDedupTable => h.interner.buildDedupTable.map fun r => ⟨r.1, none⟩
  | .clear => some ⟨h.interner.clear, none⟩
  | .truncateTo savedLen => (h.interner.truncateTo savedLen).map fun x => ⟨x, none⟩

/-- What callers promise: bulk writes stay in the fresh region, and a truncation keeps
every slot of the map. -/
def Admissible (h : InternerHistory) : InternerOp → Prop
  | .bulkWrite start values =>
    values ≠ [] → ∃ fresh, h.freshStart = some fresh ∧ fresh ≤ start
  | .truncateTo savedLen => ∀ s i, h.interner.lookup.lookup s = some i → i < savedLen
  | _ => True

def Fits (h : InternerHistory) (op : InternerOp) : Prop :=
  Admissible h op ∧ ∀ savedLen, op = .truncateTo savedLen → h.interner.Covers savedLen

structure Invariant (h : InternerHistory) : Prop where
  consistent : h.interner.Consistent (h.freshStart.getD h.interner.strings.length)
  stale : h.interner.lookupStale = h.freshStart.isSome

theorem invariant_start : Invariant start := ⟨StringInterner.consistent_new, rfl⟩

theorem invariant_fresh {h : InternerHistory} (hinv : Invariant h)
    (hfresh : h.interner.lookupStale = false) :
    h.freshStart = none ∧ h.interner.Consistent h.interner.strings.length := by
  have hstale := hinv.stale
  have hcons := hinv.consistent
  rw [hfresh] at hstale
  cases hs : h.freshStart with
  | none =>
    rw [hs] at hcons
    exact ⟨rfl, hcons⟩
  | some fresh =>
    rw [hs] at hstale
    cases hstale

theorem invariant_of_consistent {x : StringInterner}
    (h : x.Consistent x.strings.length ∧ x.lookupStale = false) : Invariant ⟨x, none⟩ :=
  ⟨h.1, h.2⟩

theorem invariant_internSpec {h : InternerHistory} (hinv : Invariant h) {s : String}
    {result : Option (StringInterner × Except InternError Nat)}
    (hspec : h.interner.lookupStale = false → StringInterner.InternSpec h.interner s result)
    (hstale : h.interner.lookupStale = true → result = none) {h' : InternerHistory}
    (hstep : (result.map fun r => { h with interner := r.1 }) = some h') : Invariant h' := by
  cases hb : h.interner.lookupStale with
  | true =>
    rw [hstale hb] at hstep
    cases hstep
  | false =>
    obtain ⟨y, r, hr, hcons, hkeep, -⟩ := hspec hb
    obtain ⟨hnone, -⟩ := invariant_fresh hinv hb
    rw [hr] at hstep
    cases hstep
    exact ⟨by simpa only [hnone, Option.getD_none] using hcons, by rw [hnone, hkeep, hb]; rfl⟩

theorem updateRef_frame {change : Nat → Nat} {x y : StringInterner} {id : Nat} {r : Option Nat}
    (heq : StringInterner.updateRef change x id = some (y, r)) :
    y.strings = x.strings ∧ y.lookupStale = x.lookupStale := by
  unfold StringInterner.updateRef at heq
  split at heq
  · cases heq
    exact ⟨rfl, rfl⟩
  · split at heq
    · cases heq
      exact ⟨rfl, rfl⟩
    · split at heq
      · cases heq
      · cases heq
        exact ⟨rfl, rfl⟩
      · cases heq
        exact ⟨rfl, rfl⟩

theorem invariant_updateRef {h : InternerHistory} (hinv : Invariant h) {change : Nat → Nat}
    {id : Nat} {h' : InternerHistory}
    (hstep : ((StringInterner.updateRef change h.interner id).map
      fun r => { h with interner := r.1 }) = some h') : Invariant h' := by
  obtain ⟨⟨y, r⟩, heq, rfl⟩ := Option.map_eq_some_iff.mp hstep
  obtain ⟨hstrings, hstale⟩ := updateRef_frame heq
  have hcons := StringInterner.consistent_updateRef hinv.consistent heq
  exact ⟨by simpa only [hstrings] using hcons, by simpa only [hstale] using hinv.stale⟩

theorem invariant_allocRange {h : InternerHistory} (hinv : Invariant h) (count : Nat) :
    Invariant ⟨(h.interner.allocRange count).1,
      if (h.interner.allocRange count).1.lookupStale then
        some (h.freshStart.getD h.interner.strings.length)
      else none⟩ := by
  rcases StringInterner.allocRange_spec hinv.consistent count with hsame | ⟨hstale, hcons⟩
  · rw [hsame]
    have hkeep := hinv.stale
    cases hs : h.freshStart with
    | none =>
      rw [hs] at hkeep
      have hcons := hinv.consistent
      rw [hs] at hcons
      simp only [hkeep, Option.isSome_none, Bool.false_eq_true, if_false]
      exact ⟨hcons, hkeep⟩
    | some fresh =>
      rw [hs] at hkeep
      have hcons := hinv.consistent
      rw [hs] at hcons
      simp only [hkeep, Option.isSome_some, if_true]
      exact ⟨hcons, hkeep⟩
  · rw [hstale, if_pos rfl]
    exact ⟨hcons, hstale⟩

theorem invariant_bulkWrite {h : InternerHistory} (hinv : Invariant h) {start : Nat}
    {values : List (Option String × Nat)} (hadm : Admissible h (.bulkWrite start values))
    {h' : InternerHistory} (hstep : step h (.bulkWrite start values) = some h') :
    Invariant h' := by
  obtain ⟨y, heq, rfl⟩ := Option.map_eq_some_iff.mp hstep
  by_cases hvalues : values = []
  · subst hvalues
    have hy : y = h.interner := by
      unfold StringInterner.bulkWrite at heq
      split at heq
      · cases heq
        simp
      · cases heq
    rw [hy]
    exact hinv
  · obtain ⟨fresh, hfresh, hle⟩ := hadm hvalues
    have hcons := hinv.consistent
    have hstale := hinv.stale
    rw [hfresh] at hcons hstale
    have hystale : y.lookupStale = true := by
      unfold StringInterner.bulkWrite at heq
      split at heq
      · cases heq
        simp [hstale]
      · cases heq
    refine ⟨?_, ?_⟩
    · simpa only [hfresh, Option.getD_some] using
        StringInterner.consistent_bulkWrite hcons hle heq
    · simp only [hystale, hfresh, Option.isSome_some]

theorem invariant_step (h : InternerHistory) (op : InternerOp) (h' : InternerHistory)
    (hinv : Invariant h) (hfits : Fits h op) (hstep : step h op = some h') : Invariant h' := by
  cases op with
  | intern s =>
    apply invariant_internSpec hinv (s := s) (fun hb => ?_) (fun hb => ?_) hstep
    · exact StringInterner.intern_spec s (invariant_fresh hinv hb).2 hb
    · simp [StringInterner.intern, hb]
  | internWithoutRef s =>
    apply invariant_internSpec hinv (s := s) (fun hb => ?_) (fun hb => ?_) hstep
    · exact StringInterner.internWithoutRef_spec s (invariant_fresh hinv hb).2 hb
    · simp [StringInterner.internWithoutRef, hb]
  | incRef id => exact invariant_updateRef hinv hstep
  | decRef id => exact invariant_updateRef hinv hstep
  | recycleUnreferenced =>
    obtain ⟨⟨y, n⟩, heq, rfl⟩ := Option.map_eq_some_iff.mp hstep
    cases hb : h.interner.lookupStale with
    | true => simp [StringInterner.recycleUnreferenced, hb] at heq
    | false =>
      obtain ⟨hnone, hcons⟩ := invariant_fresh hinv hb
      have hy := StringInterner.consistent_recycleUnreferenced hcons heq
      exact ⟨by simpa only [hnone, Option.getD_none] using hy.1, by rw [hnone]; exact hy.2⟩
  | allocRange count =>
    cases hstep
    exact invariant_allocRange hinv count
  | bulkWrite start values => exact invariant_bulkWrite hinv hfits.1 hstep
  | buildDedupTable =>
    obtain ⟨y, remap, heq, hy⟩ := StringInterner.buildDedupTable_spec hinv.consistent
    simp only [step, heq] at hstep
    cases hstep
    exact invariant_of_consistent hy
  | clear =>
    cases hstep
    exact invariant_of_consistent ⟨StringInterner.consistent_clear hinv.consistent, rfl⟩
  | truncateTo savedLen =>
    obtain ⟨y, heq, rfl⟩ := Option.map_eq_some_iff.mp hstep
    exact invariant_of_consistent
      (StringInterner.consistent_truncateTo hinv.consistent (hfits.2 savedLen rfl) heq)

def Harmless (x : StringInterner) (result : Option (StringInterner × Except InternError Nat)) :
    Prop :=
  ∃ y r, result = some (y, r) ∧
    ∀ (i : Nat) (t : String), x.strings[i]? = some (some t) → y.strings[i]? = some (some t)

def Sound (x : StringInterner) : Prop :=
  x.lookupStale = false →
    (∀ s i, x.lookup.lookup s = some i ↔ x.strings[i]? = some (some s)) ∧
    (∀ s i, x.lookup.lookup s = some i → x.resolve i = some s) ∧
    x.freeList.Nodup ∧ (∀ i ∈ x.freeList, x.strings[i]? = some none) ∧
    ∀ s, Harmless x (x.intern s) ∧ Harmless x (x.internWithoutRef s)

theorem harmless_of_spec {x : StringInterner} {s : String}
    {result : Option (StringInterner × Except InternError Nat)}
    (h : StringInterner.InternSpec x s result) : Harmless x result := by
  obtain ⟨y, r, hr, -, -, hkeep, -⟩ := h
  exact ⟨y, r, hr, hkeep⟩

theorem interner_sound_of_run {ops : List InternerOp} {h : InternerHistory}
    (hfits : StepSystem.RunOk step Fits start ops)
    (hrun : StepSystem.run step start ops = some h) : Sound h.interner := by
  have hinv := StepSystem.invariant_of_runOk invariant_step invariant_start hfits hrun
  intro hfresh
  obtain ⟨-, hcons⟩ := invariant_fresh hinv hfresh
  refine ⟨fun s i => ?_, fun s i hget => ?_, hcons.free_nodup,
    fun i hi => (hcons.free_empty i hi).2.2, fun s => ⟨?_, ?_⟩⟩
  · rw [hcons.lookup_iff]
    exact and_iff_right_of_imp fun hs => (List.getElem?_eq_some_iff.mp hs).1
  · obtain ⟨hlt, hslot⟩ := (hcons.lookup_iff s i).mp hget
    have hne : i ≠ u32Max := by
      have hle := hcons.length_le
      have hlim : LOCAL_TAG_BIT ≤ u32Max := by decide
      omega
    simp [StringInterner.resolve, hne, hslot]
  · exact harmless_of_spec (StringInterner.intern_spec s hcons hfresh)
  · exact harmless_of_spec (StringInterner.internWithoutRef_spec s hcons hfresh)

/-- A bulk allocation is rolled back between two calls of `intern`. -/
theorem interner_sound_after_rollback :
    Sound ⟨[none, some "a", some "b"], (∅ : AList fun _ : String => Nat).insert "a" 1 |>.insert "b" 2,
      [0, 1, 1], [], none, false⟩ := by
  refine @interner_sound_of_run
    [.intern "a", .allocRange 2, .bulkWrite 2 [(some "a", 1)], .truncateTo 2, .intern "b"]
    ⟨_, none⟩ ?_ rfl
  refine StepSystem.runOk_cons_of_step ⟨trivial, fun _ h => by cases h⟩ rfl ?_
  refine StepSystem.runOk_cons_of_step ⟨trivial, fun _ h => by cases h⟩ rfl ?_
  refine StepSystem.runOk_cons_of_step
    ⟨fun _ => ⟨2, rfl, Nat.le_refl 2⟩, fun _ h => by cases h⟩ rfl ?_
  have hcovers : ∀ s i, ((∅ : AList fun _ : String => Nat).insert "a" 1).lookup s = some i →
      s = "a" ∧ i = 1 := by
    intro s i hget
    by_cases hs : s = "a"
    · subst hs
      rw [AList.lookup_insert] at hget
      cases hget
      exact ⟨rfl, rfl⟩
    · rw [AList.lookup_insert_ne hs] at hget
      cases hget
  refine StepSystem.runOk_cons_of_step ⟨?_, ?_⟩ rfl ?_
  · intro s i hget
    rw [(hcovers s i hget).2]
    decide
  · intro savedLen heq
    cases heq
    refine ⟨fun s i hget => ?_, fun i hi => absurd hi List.not_mem_nil, fun i s hi hs => ?_⟩
    · rw [(hcovers s i hget).2]
      decide
    · match i, hi with
      | 0, _ => cases hs
      | 1, _ =>
        cases hs
        rfl
  exact StepSystem.runOk_cons_of_step ⟨trivial, fun _ h => by cases h⟩ rfl trivial

/-- Deduplication recycles slot 2, the truncation drops it and keeps it on the free list. -/
theorem free_list_survives_rollback :
    StepSystem.RunOk step Admissible start
      [.allocRange 2, .bulkWrite 1 [(some "a", 1), (some "a", 1)], .buildDedupTable,
        .truncateTo 2] ∧
    ∃ h, StepSystem.run step start
      [.allocRange 2, .bulkWrite 1 [(some "a", 1), (some "a", 1)], .buildDedupTable,
        .truncateTo 2] = some h ∧ ¬ Sound h.interner := by
  refine ⟨?_, _, rfl, ?_⟩
  · refine StepSystem.runOk_cons_of_step trivial rfl ?_
    refine StepSystem.runOk_cons_of_step (fun _ => ⟨1, rfl, Nat.le_refl 1⟩) rfl ?_
    refine StepSystem.runOk_cons_of_step trivial rfl ?_
    refine StepSystem.runOk_cons_of_step ?_ rfl trivial
    intro s i hget
    by_cases hs : s = "a"
    · subst hs
      cases hget
      decide
    · have hnone : ((∅ : AList fun _ : String => Nat).insert "a" 1).lookup s = none := by
        rw [AList.lookup_insert_ne hs]
        rfl
      have hsame := hnone.symm.trans hget
      cases hsame
  · intro hsound
    have hempty := (hsound rfl).2.2.2.1 2 List.mem_cons_self
    cases hempty

end InternerHistory
end Sqry
