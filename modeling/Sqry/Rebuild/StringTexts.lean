import Sqry.Graph.InternerFreeze
import Sqry.Rebuild.HeldStrings

/-!
The texts of the held strings across the freeze of the interner. A text is lost when no slot that
holds it has a reference, and when the tables for C hold it under another slot than its first.
-/

namespace Sqry

open AuxiliaryIndices (canonicalName)

section Remap

def remapStep (remap : StringRemap) : (Sigma fun _ : Nat => Nat) → StringRemap
  | ⟨old, canon⟩ =>
    if h : old ≤ u32Max ∧ canon ≤ u32Max then remap.insert ⟨old, h.1⟩ ⟨canon, h.2⟩ else remap

theorem lookup_foldl_remapStep (entries : List (Sigma fun _ : Nat => Nat)) (remap : StringRemap)
    (hkeys : entries.NodupKeys) (hbound : ∀ entry ∈ entries, entry.1 ≤ u32Max ∧ entry.2 ≤ u32Max)
    (id canon : StringId) :
    (entries.foldl remapStep remap).lookup id = some canon ↔
      ⟨id.index, canon.index⟩ ∈ entries ∨
        id.index ∉ entries.keys ∧ remap.lookup id = some canon := by
  induction entries generalizing remap with
  | nil => simp
  | cons entry entries ih =>
    obtain ⟨old, target⟩ := entry
    obtain ⟨hnew, hrest⟩ := List.nodupKeys_cons.mp hkeys
    have hb := hbound ⟨old, target⟩ List.mem_cons_self
    have hstep : remapStep remap ⟨old, target⟩ =
        remap.insert ⟨old, hb.1⟩ ⟨target, hb.2⟩ := dif_pos hb
    rw [List.foldl_cons, ih _ hrest fun e he => hbound e (List.mem_cons_of_mem _ he), hstep]
    obtain ⟨index, hindex⟩ := id
    obtain ⟨canonIndex, hcanon⟩ := canon
    simp only [List.mem_cons, List.keys_cons, not_or]
    by_cases heq : index = old
    · subst heq
      have hnone : (⟨index, canonIndex⟩ : Sigma fun _ : Nat => Nat) ∉ entries := by
        intro hmem
        have hkey : index ∈ entries.keys := List.mem_keys_of_mem hmem
        exact hnew hkey
      simp [hnew, hnone, eq_comm]
    · rw [AList.lookup_insert_ne (by simpa using heq)]
      simp [heq]

theorem lookup_stringRemap {table : AList fun _ : Nat => Nat}
    (hbound : ∀ i c, table.lookup i = some c → i ≤ u32Max ∧ c ≤ u32Max) (id canon : StringId) :
    (stringRemap table).lookup id = some canon ↔ table.lookup id.index = some canon.index := by
  refine (lookup_foldl_remapStep table.entries ∅ table.nodupKeys
    (fun entry hentry => hbound entry.1 entry.2 (AList.mem_lookup_iff.mpr hentry)) id canon).trans ?_
  have hentries : table.lookup id.index = some canon.index ↔
      ⟨id.index, canon.index⟩ ∈ table.entries := AList.mem_lookup_iff
  rw [hentries]
  exact or_iff_left fun h => by cases h.2

end Remap

section Frozen
variable {x z : StringInterner} {bound : Nat} {table : AList fun _ : Nat => Nat}

theorem StringInterner.resolve_eq_some {x : StringInterner} (hlen : x.strings.length ≤ u32Max)
    {i : Nat} {s : String} : x.resolve i = some s ↔ x.strings[i]? = some (some s) := by
  rw [resolve]
  by_cases hmax : i = u32Max
  · rw [if_pos hmax]
    constructor
    · intro h
      cases h
    · intro h
      have hlt := (List.getElem?_eq_some_iff.mp h).1
      omega
  · rw [if_neg hmax, Option.join_eq_some_iff]

structure Frozen (x z : StringInterner) (remap : StringRemap) : Prop where
  length_le : x.strings.length ≤ u32Max
  remap_iff : ∀ id canon, remap.lookup id = some canon ↔ canon.index < id.index ∧
    ∃ s, x.strings[id.index]? = some (some s) ∧ x.First s canon.index
  kept_iff : ∀ i s, z.resolve i = some s ↔ x.First s i ∧ x.Counted s

variable {remap : StringRemap}

theorem Frozen.first (h : Frozen x z remap) {id : StringId} {s : String}
    (hs : x.strings[id.index]? = some (some s)) : x.First s (canonicalName remap id).index := by
  obtain ⟨c, hc, hfirst⟩ := StringInterner.exists_first hs
  have hle : c ≤ u32Max := hc.trans id.index_le
  rw [canonicalName]
  cases Nat.lt_or_eq_of_le hc with
  | inl hlt =>
    rw [(h.remap_iff id ⟨c, hle⟩).mpr ⟨hlt, s, hs, hfirst⟩]
    exact hfirst
  | inr heq =>
    cases hlookup : remap.lookup id with
    | none =>
      rw [Option.getD_none, ← heq]
      exact hfirst
    | some canon =>
      obtain ⟨hlt, t, ht, hcanon⟩ := (h.remap_iff id canon).mp hlookup
      rw [hs] at ht
      cases ht
      exact absurd (hcanon.inj hfirst) (by omega)

theorem Frozen.canonicalName_of_empty (h : Frozen x z remap) {id : StringId}
    (hnone : ∀ s, x.strings[id.index]? ≠ some (some s)) : canonicalName remap id = id := by
  refine AuxiliaryIndices.canonicalName_of_notMem fun hmem => ?_
  obtain ⟨canon, hcanon⟩ := Option.isSome_iff_exists.mp (AList.lookup_isSome.mpr hmem)
  obtain ⟨_, s, hs, _⟩ := (h.remap_iff id canon).mp hcanon
  exact hnone s hs

theorem Frozen.stays (h : Frozen x z remap) :
    AuxiliaryIndices.RemapStays remap := by
  intro old canon hcanon
  obtain ⟨_, s, _, hfirst⟩ := (h.remap_iff old canon).mp hcanon
  refine Option.eq_none_iff_forall_ne_some.mpr fun next hnext => ?_
  obtain ⟨hlt, t, ht, hnextFirst⟩ := (h.remap_iff canon next).mp hnext
  rw [← hfirst.text_inj ht] at hnextFirst
  exact absurd (hnextFirst.inj hfirst) (by omega)

theorem Frozen.resolve_of_empty (h : Frozen x z remap) {i : Nat}
    (hnone : ∀ s, x.strings[i]? ≠ some (some s)) : z.resolve i = none :=
  Option.eq_none_iff_forall_ne_some.mpr fun s hs => hnone s ((h.kept_iff i s).mp hs).1.holds

theorem Frozen.resolve_before (h : Frozen x z remap) {i : Nat}
    (hnone : ∀ s, x.strings[i]? ≠ some (some s)) : x.resolve i = none :=
  Option.eq_none_iff_forall_ne_some.mpr fun s hs =>
    hnone s ((StringInterner.resolve_eq_some h.length_le).mp hs)

theorem Frozen.keeps_iff (h : Frozen x z remap) (i : Nat) :
    z.resolve i = x.resolve i ↔ ∀ s, x.resolve i = some s → x.First s i ∧ x.Counted s := by
  by_cases hempty : ∀ s, x.strings[i]? ≠ some (some s)
  · rw [h.resolve_of_empty hempty, h.resolve_before hempty]
    simp
  · obtain ⟨s, hs⟩ := not_forall.mp hempty
    have hresolve : x.resolve i = some s :=
      (StringInterner.resolve_eq_some h.length_le).mpr (Classical.not_not.mp hs)
    rw [hresolve, h.kept_iff]
    constructor
    · intro hkept t ht
      cases ht
      exact hkept
    · intro hall
      exact hall s rfl

theorem Frozen.canonical_keeps_iff (h : Frozen x z remap) (id : StringId) :
    z.resolve (canonicalName remap id).index = x.resolve (canonicalName remap id).index ↔
      ∀ s, x.resolve id.index = some s → x.Counted s := by
  rw [h.keeps_iff]
  by_cases hempty : ∀ s, x.strings[id.index]? ≠ some (some s)
  · rw [h.canonicalName_of_empty hempty, h.resolve_before hempty]
    simp
  · obtain ⟨s, hs⟩ := not_forall.mp hempty
    have hslot := Classical.not_not.mp hs
    have hfirst := h.first hslot
    rw [(StringInterner.resolve_eq_some h.length_le).mpr hslot,
      (StringInterner.resolve_eq_some h.length_le).mpr hfirst.holds]
    constructor
    · intro hall t ht
      exact (hall t ht).2
    · intro hall t ht
      cases ht
      exact ⟨hfirst, hall s rfl⟩

end Frozen

section Main
variable {π μ δ : Type} [DecidableEq π]

def KeepsTexts (g frozen : CodeGraph π μ δ) : Prop :=
  ∀ id ∈ frozen.stringIds ++ frozen.cStringIds,
    frozen.strings.resolve id.index = g.strings.resolve id.index

theorem exists_frozen (g : CodeGraph π μ δ) {bound : Nat} (h : g.strings.Consistent bound) :
    ∃ frozen remap, g.freezeStrings = some frozen ∧ Frozen g.strings frozen.strings remap ∧
      Maps (canonicalName remap) g.stringIds frozen.stringIds ∧
        frozen.cStringIds = g.cStringIds := by
  obtain ⟨strings, table, z, recycled, htable, hrecycled, hremap, hkept⟩ :=
    StringInterner.freeze_spec h
  have hlen : g.strings.strings.length ≤ u32Max := h.length_le.trans (by decide)
  have hbound : ∀ i c, table.lookup i = some c → i ≤ u32Max ∧ c ≤ u32Max := by
    intro i c hlookup
    obtain ⟨hlt, s, hs, _⟩ := (hremap i c).mp hlookup
    have hi := (List.getElem?_eq_some_iff.mp hs).1
    omega
  have hfrozen : Frozen g.strings z (stringRemap table) := by
    refine ⟨hlen, fun id canon => ?_, fun i s => ?_⟩
    · rw [lookup_stringRemap hbound, hremap]
    · have hzlen : ∀ s, z.strings[i]? = some (some s) → i ≠ u32Max := by
        intro s hs
        have hi := (List.getElem?_eq_some_iff.mp ((hkept i s).mp hs).1.holds).1
        omega
      rw [← hkept, StringInterner.resolve]
      by_cases hmax : i = u32Max
      · rw [if_pos hmax]
        constructor
        · intro hs
          cases hs
        · intro hs
          exact absurd hmax (hzlen s hs)
      · rw [if_neg hmax, Option.join_eq_some_iff]
  refine ⟨{ g.rewriteStringIds (stringRemap table) with strings := z }, stringRemap table, ?_,
    hfrozen, g.stringIds_rewrite hfrozen.stays, rfl⟩
  simp only [CodeGraph.freezeStrings, htable, hrecycled]

/-- The freeze succeeds, and every held string keeps its text exactly when all of them have a text
that is counted, and the tables for C hold texts under their first slots only. -/
theorem freeze_keeps_texts_iff (ops : List InternerOp) (history : InternerHistory)
    (hfits : StepSystem.RunOk InternerHistory.step InternerHistory.Fits InternerHistory.start ops)
    (hrun : StepSystem.run InternerHistory.step InternerHistory.start ops = some history)
    (r : RebuildGraph π μ δ) (hstrings : r.strings = history.interner) :
    ∃ frozen, r.toCodeGraph.freezeStrings = some frozen ∧
      (KeepsTexts r.toCodeGraph frozen ↔
        (∀ id ∈ r.stringIds ++ r.cStringIds, ∀ s,
          r.strings.resolve id.index = some s → r.strings.Counted s) ∧
        ∀ id ∈ r.cStringIds, ∀ s,
          r.strings.resolve id.index = some s → r.strings.First s id.index) := by
  have hinv := StepSystem.invariant_of_runOk InternerHistory.invariant_step
    InternerHistory.invariant_start hfits hrun
  have hcons := hinv.consistent
  rw [← hstrings] at hcons
  obtain ⟨frozen, remap, hfreeze, hfrozen, hmaps, htables⟩ := exists_frozen r.toCodeGraph hcons
  refine ⟨frozen, hfreeze, ?_⟩
  simp only [KeepsTexts, List.forall_mem_append, htables]
  constructor
  · intro h
    refine ⟨⟨fun id hid => ?_, fun id hid s hs => ?_⟩, fun id hid s hs => ?_⟩
    · exact (hfrozen.canonical_keeps_iff id).mp
        (h.1 _ ((hmaps _).mpr (List.mem_map_of_mem hid)))
    · exact ((hfrozen.keeps_iff id.index).mp (h.2 id hid) s hs).2
    · exact ((hfrozen.keeps_iff id.index).mp (h.2 id hid) s hs).1
  · intro h
    refine ⟨fun id hid => ?_, fun id hid => ?_⟩
    · obtain ⟨old, hold, heq⟩ := List.mem_map.mp ((hmaps id).mp hid)
      rw [← heq]
      exact (hfrozen.canonical_keeps_iff old).mpr (h.1.1 old hold)
    · exact (hfrozen.keeps_iff id.index).mpr fun s hs => ⟨h.2 id hid s hs, h.1.2 id hid s hs⟩

end Main

section Example

def committedTwice : RebuildGraph String Unit Unit :=
  { (CodeGraph.new : CodeGraph String Unit Unit) with
    strings := ⟨[none, some "void(int)", some "void(int)"], ∅, [0, 1, 1], [], none, true⟩
    tombstones := [] }

def signatureTwice : RebuildGraph String Unit Unit :=
  { committedTwice with
    cIndirectTables := some
      { fnSignature := (∅ : AList fun _ : NodeId => StringId).insert ⟨0, 1⟩ (.ofUInt8 2)
        structFieldFnptr := ∅
        localVarType := ∅
        bindingsByField := ∅
        pendingCallsites := [] } }

theorem committedTwice_run :
    StepSystem.RunOk InternerHistory.step InternerHistory.Fits InternerHistory.start
      [.allocRange 2, .bulkWrite 1 [(some "void(int)", 1), (some "void(int)", 1)]] ∧
    StepSystem.run InternerHistory.step InternerHistory.start
      [.allocRange 2, .bulkWrite 1 [(some "void(int)", 1), (some "void(int)", 1)]] =
        some ⟨committedTwice.strings, some 1⟩ := by
  refine ⟨?_, rfl⟩
  refine StepSystem.runOk_cons_of_step ⟨trivial, fun _ h => by cases h⟩ rfl ?_
  exact StepSystem.runOk_cons_of_step
    ⟨fun _ => ⟨1, rfl, Nat.le_refl 1⟩, fun _ h => by cases h⟩ rfl trivial

/-- The second slot is emptied, and the signature goes with it. -/
theorem signatureTwice_lost : ¬ ∀ (ops : List InternerOp) (history : InternerHistory)
    (r : RebuildGraph String Unit Unit),
    StepSystem.RunOk InternerHistory.step InternerHistory.Fits InternerHistory.start ops →
      StepSystem.run InternerHistory.step InternerHistory.start ops = some history →
      r.strings = history.interner →
        ∃ frozen, r.toCodeGraph.freezeStrings = some frozen ∧
          KeepsTexts r.toCodeGraph frozen := by
  intro h
  obtain ⟨frozen, hfreeze, hkeeps⟩ := h _ _ signatureTwice committedTwice_run.1
    committedTwice_run.2 rfl
  have hlost : ∀ frozen, signatureTwice.toCodeGraph.freezeStrings = some frozen →
      frozen.cStringIds = [.ofUInt8 2] ∧ frozen.strings.resolve 2 = none := by
    intro frozen hfrozen
    cases hfrozen
    exact ⟨rfl, rfl⟩
  obtain ⟨hids, hnone⟩ := hlost frozen hfreeze
  have hsame := hkeeps (.ofUInt8 2) (List.mem_append_right _ (by rw [hids]; decide))
  have hbefore : signatureTwice.strings.resolve 2 = some "void(int)" := rfl
  have hindex : (StringId.ofUInt8 2).index = 2 := rfl
  rw [hindex, hnone, hbefore] at hsame
  cases hsame

/-- Without the tables for C the two slots collapse into one. -/
theorem freeze_keeps_texts_committedTwice :
    ∃ frozen, committedTwice.toCodeGraph.freezeStrings = some frozen ∧
      (KeepsTexts committedTwice.toCodeGraph frozen ↔
        (∀ id ∈ committedTwice.stringIds ++ committedTwice.cStringIds, ∀ s,
          committedTwice.strings.resolve id.index = some s → committedTwice.strings.Counted s) ∧
        ∀ id ∈ committedTwice.cStringIds, ∀ s,
          committedTwice.strings.resolve id.index = some s →
            committedTwice.strings.First s id.index) :=
  freeze_keeps_texts_iff _ _ committedTwice_run.1 committedTwice_run.2 committedTwice rfl

end Example

end Sqry
