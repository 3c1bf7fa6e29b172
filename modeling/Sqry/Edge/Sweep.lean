import Sqry.Edge.Fingerprint

/-!
What a reader sees after the edges of dead nodes were swept: the edges that touch a slot of one of
them are gone from the row entries and from the buffer, and every other edge is as it was.
-/

namespace Sqry.EdgeStore

/-- An edge that `edges_from` reports. -/
def Sees (st : EdgeStore) (source target : NodeId) (kind : EdgeKind) : Prop :=
  ∃ e ∈ st.edgesFrom source, e.target = target ∧ e.kind = kind

instance (st : EdgeStore) (source target : NodeId) (kind : EdgeKind) :
    Decidable (st.Sees source target kind) :=
  inferInstanceAs (Decidable (∃ e ∈ st.edgesFrom source, e.target = target ∧ e.kind = kind))

theorem mem_edgesFrom {st : EdgeStore} {source : NodeId} {x : StoreEdgeRef} :
    x ∈ st.edgesFrom source ↔
      (∃ r ∈ st.csrEdgesOf source.index, st.Reported source r ∧ x = csrEdgeRef source r) ∨
      ∃ w, w.source.index = source.index ∧ latest st.delta.iter w.edgeKey = some w ∧
        w.isAdd = true ∧ (∀ r ∈ st.csrEdgesOf source.index, r.target = w.target →
          r.kind = w.kind → r.seq < w.seq) ∧ x = w.toRef := by
  rw [edgesFrom_eq, List.mem_append, mem_deltaPart]
  refine or_congr_left ?_
  simp only [List.mem_map, List.mem_filter, decide_eq_true_eq, and_assoc]
  exact exists_congr fun r => and_congr_right fun _ => and_congr_right fun _ => eq_comm

/-- The rows are valid and their slots are `u32`s, and every row entry has a tombstone bit. -/
structure Fitted (st : EdgeStore) : Prop where
  wellFormed : ∀ csr, st.csr = some csr → csr.WellFormed
  nodeCount_le : st.csrNodeCount ≤ u32Max + 1
  covered : ∀ csr, st.csr = some csr → csr.edgeCount ≤ st.csrTombstones.length

section Bits

def Bitten (slots : List Nat) (entries : List (Nat × EdgeRef)) (before after : List Bool) : Prop :=
  after.length = before.length ∧ ∀ i, after.getD i false = true ↔ before.getD i false = true ∨
    i < before.length ∧ ∃ p ∈ entries, p.2.index = i ∧
      (slots.contains p.1 || slots.contains p.2.target.index) = true

theorem bitten_nil (slots : List Nat) (before : List Bool) : Bitten slots [] before before :=
  ⟨rfl, fun i => ⟨.inl, fun h => h.resolve_right fun hright => by
    obtain ⟨_, p, hp, _⟩ := hright
    cases hp⟩⟩

theorem Bitten.trans {slots : List Nat} {first second : List (Nat × EdgeRef)}
    {before middle after : List Bool} (h : Bitten slots first before middle)
    (h' : Bitten slots second middle after) : Bitten slots (first ++ second) before after := by
  refine ⟨h'.1.trans h.1, fun i => ?_⟩
  rw [h'.2, h.2, h.1]
  constructor
  · intro hi
    cases hi with
    | inl hfirst =>
      refine hfirst.imp_right fun hbit => ?_
      obtain ⟨hlt, p, hp, hrest⟩ := hbit
      exact ⟨hlt, p, List.mem_append_left second hp, hrest⟩
    | inr hsecond =>
      obtain ⟨hlt, p, hp, hrest⟩ := hsecond
      exact .inr ⟨hlt, p, List.mem_append_right first hp, hrest⟩
  · intro hi
    cases hi with
    | inl hbefore => exact .inl (.inl hbefore)
    | inr hbit =>
      obtain ⟨hlt, p, hp, hrest⟩ := hbit
      cases List.mem_append.mp hp with
      | inl hfirst => exact .inl (.inr ⟨hlt, p, hfirst, hrest⟩)
      | inr hsecond => exact .inr ⟨hlt, p, hsecond, hrest⟩

theorem bitten_ifDead (slots : List Nat) (slot : Nat) (acc : List Bool × Nat) (r : EdgeRef) :
    Bitten slots [(slot, r)] acc.1 (tombstoneIfDead slots (slots.contains slot) acc r).1 := by
  rw [tombstoneIfDead]
  by_cases hlt : r.index < acc.1.length
  · rw [if_neg (Nat.not_le_of_lt hlt)]
    by_cases hset : acc.1.getD r.index false = true
    · rw [if_pos hset]
      refine ⟨rfl, fun i => ⟨.inl, fun h => ?_⟩⟩
      cases h with
      | inl hbefore => exact hbefore
      | inr hbit =>
        obtain ⟨_, p, hp, hindex, _⟩ := hbit
        rw [List.mem_singleton.mp hp] at hindex
        rw [← hindex]
        exact hset
    · rw [if_neg hset]
      by_cases hdead : (slots.contains slot || slots.contains r.target.index) = true
      · rw [if_pos hdead]
        refine ⟨List.length_set, fun i => ?_⟩
        simp only [List.getD_eq_getElem?_getD, List.getElem?_set]
        by_cases hindex : r.index = i
        · rw [if_pos hindex, if_pos (hindex ▸ hlt)]
          simp only [Option.getD_some, true_iff]
          exact .inr ⟨hindex ▸ hlt, (slot, r), List.mem_singleton_self _, hindex, hdead⟩
        · rw [if_neg hindex]
          refine ⟨.inl, fun h => h.resolve_right fun hbit => ?_⟩
          obtain ⟨_, p, hp, hpindex, _⟩ := hbit
          rw [List.mem_singleton.mp hp] at hpindex
          exact hindex hpindex
      · rw [if_neg hdead]
        refine ⟨rfl, fun i => ⟨.inl, fun h => h.resolve_right fun hbit => ?_⟩⟩
        obtain ⟨_, p, hp, _, hpdead⟩ := hbit
        rw [List.mem_singleton.mp hp] at hpdead
        exact hdead hpdead
  · rw [if_pos (Nat.le_of_not_lt hlt)]
    refine ⟨rfl, fun i => ⟨.inl, fun h => h.resolve_right fun hbit => ?_⟩⟩
    obtain ⟨hi, p, hp, hindex, _⟩ := hbit
    rw [List.mem_singleton.mp hp] at hindex
    exact hlt (hindex ▸ hi)

theorem bitten_row (slots : List Nat) (csr : CsrGraph) (acc : List Bool × Nat) {slot : Nat}
    (hslot : slot ≤ u32Max) : Bitten slots ((csr.edgesOf slot).map fun r => (slot, r)) acc.1
      (tombstoneRow slots csr acc slot).1 := by
  rw [tombstoneRow, if_neg (Nat.not_lt_of_le hslot)]
  have hfold : ∀ (rows : List EdgeRef) (acc : List Bool × Nat),
      Bitten slots (rows.map fun r => (slot, r)) acc.1
        (rows.foldl (tombstoneIfDead slots (slots.contains slot)) acc).1 := by
    intro rows
    induction rows with
    | nil =>
      intro acc
      exact bitten_nil slots acc.1
    | cons r rows ih =>
      intro acc
      exact (bitten_ifDead slots slot acc r).trans (ih _)
  exact hfold (csr.edgesOf slot) acc

theorem bitten_sweep (slots : List Nat) (csr : CsrGraph) (before : List Bool)
    (hcount : csr.nodeCount ≤ u32Max + 1) :
    Bitten slots ((List.range csr.nodeCount).flatMap fun slot =>
      (csr.edgesOf slot).map fun r => (slot, r)) before (tombstoneSweep slots csr before).1 := by
  have hfold : ∀ (rows : List Nat) (acc : List Bool × Nat), (∀ slot ∈ rows, slot ≤ u32Max) →
      Bitten slots (rows.flatMap fun slot => (csr.edgesOf slot).map fun r => (slot, r)) acc.1
        (rows.foldl (tombstoneRow slots csr) acc).1 := by
    intro rows
    induction rows with
    | nil =>
      intro acc _
      exact bitten_nil slots acc.1
    | cons slot rows ih =>
      intro acc hrows
      exact (bitten_row slots csr acc (hrows slot List.mem_cons_self)).trans
        (ih _ fun other hother => hrows other (List.mem_cons_of_mem slot hother))
  refine hfold _ _ fun slot hslot => ?_
  have hlt := List.mem_range.mp hslot
  omega

end Bits

section Rows

theorem row_eq_of_index_eq {csr : CsrGraph} (hcsr : csr.WellFormed) {i j : Nat} {r r' : EdgeRef}
    (hr : r ∈ csr.edgesOf i) (hr' : r' ∈ csr.edgesOf j) (hindex : r.index = r'.index) :
    i = j ∧ r = r' := by
  obtain ⟨hi, hlow, hhigh, heq⟩ := CsrGraph.mem_edgesOf.mp hr
  obtain ⟨hj, hlow', hhigh', heq'⟩ := CsrGraph.mem_edgesOf.mp hr'
  have hle : ∀ a b, a ≤ b → b ≤ csr.nodeCount → csr.rowPtr.getD a 0 ≤ csr.rowPtr.getD b 0 := by
    intro a b hab hb
    have hlen := hcsr.rowPtr_length
    rw [List.getD_eq_getElem _ _ (by omega), List.getD_eq_getElem _ _ (by omega)]
    cases Nat.lt_or_eq_of_le hab with
    | inl hlt => exact List.pairwise_iff_getElem.mp hcsr.rowPtr_sorted a b _ _ hlt
    | inr hsame =>
      subst hsame
      exact Nat.le_refl _
  refine ⟨?_, by rw [← heq, ← heq', hindex]⟩
  cases Nat.lt_trichotomy i j with
  | inl hlt =>
    have hbound := hle (i + 1) j hlt (Nat.le_of_lt hj)
    omega
  | inr hrest =>
    cases hrest with
    | inl heq => exact heq
    | inr hgt =>
      have hbound := hle (j + 1) i hgt (Nat.le_of_lt hi)
      omega

def Touched (slots : List Nat) (source target : NodeId) : Prop :=
  source.index ∈ slots ∨ target.index ∈ slots

theorem touchesDead_iff {slots : List Nat} {e : DeltaEdge} :
    touchesDead slots e = true ↔ Touched slots e.source e.target := by
  rw [touchesDead, Bool.or_eq_true, List.contains_iff_mem, List.contains_iff_mem, Touched]

theorem isEdgeTombstoned_swept {st : EdgeStore} (h : st.Fitted) (slots : List Nat)
    {source : NodeId} {r : EdgeRef} (hr : r ∈ st.csrEdgesOf source.index) :
    (st.swept slots).1.getD r.index false = false ↔
      st.isEdgeTombstoned r.index = false ∧ ¬ Touched slots source r.target := by
  rw [csrEdgesOf] at hr
  cases hcsr : st.csr with
  | none =>
    rw [hcsr] at hr
    cases hr
  | some csr =>
    simp only [hcsr] at hr
    have hwell := h.wellFormed csr hcsr
    have hcount : csr.nodeCount ≤ u32Max + 1 := by
      have hle := h.nodeCount_le
      rw [csrNodeCount, hcsr] at hle
      exact hle
    have hlt : r.index < st.csrTombstones.length :=
      Nat.lt_of_lt_of_le (hwell.index_lt hr) (h.covered csr hcsr)
    have hswept : st.swept slots = tombstoneSweep slots csr st.csrTombstones := by
      rw [swept, hcsr]
    have hbit := (bitten_sweep slots csr st.csrTombstones hcount).2 r.index
    have hreach : (∃ p ∈ (List.range csr.nodeCount).flatMap fun slot =>
        (csr.edgesOf slot).map fun r => (slot, r), p.2.index = r.index ∧
          (slots.contains p.1 || slots.contains p.2.target.index) = true) ↔
        Touched slots source r.target := by
      constructor
      · intro hp
        obtain ⟨p, hp, hindex, hdead⟩ := hp
        obtain ⟨slot, _, hp⟩ := List.mem_flatMap.mp hp
        obtain ⟨r', hr', heq⟩ := List.mem_map.mp hp
        rw [← heq] at hindex hdead
        obtain ⟨hslot, hrow⟩ := row_eq_of_index_eq hwell hr' hr hindex
        rw [hslot, hrow, Bool.or_eq_true, List.contains_iff_mem,
          List.contains_iff_mem] at hdead
        exact hdead
      · intro htouched
        refine ⟨(source.index, r), List.mem_flatMap.mpr ⟨source.index, ?_, ?_⟩, rfl, ?_⟩
        · exact List.mem_range.mpr (CsrGraph.mem_edgesOf.mp hr).1
        · exact List.mem_map.mpr ⟨r, hr, rfl⟩
        · rw [Bool.or_eq_true, List.contains_iff_mem, List.contains_iff_mem]
          exact htouched
    rw [hreach] at hbit
    rw [hswept, ← Bool.not_eq_true, hbit, isEdgeTombstoned, ← Bool.not_eq_true, not_or]
    exact and_congr_right fun _ => not_congr (and_iff_right hlt)

end Rows

section Sees

theorem mem_edgesFrom_sweep {st : EdgeStore} (h : st.Fitted) (dead : List NodeId)
    {source : NodeId} {x : StoreEdgeRef} :
    x ∈ (st.tombstoneEdgesForNodes dead).1.edgesFrom source ↔
      x ∈ st.edgesFrom source ∧ ¬ Touched (deadSlotIndices dead) source x.target := by
  cases hdead : dead.isEmpty with
  | true =>
    rw [tombstoneEdgesForNodes_nil st hdead, List.isEmpty_iff.mp hdead]
    simp [Touched, deadSlotIndices]
  | false =>
    have hrows : ∀ i, (st.tombstoneEdgesForNodes dead).1.csrEdgesOf i = st.csrEdgesOf i := by
      intro i
      rw [tombstoneEdgesForNodes_eq st hdead]
      rfl
    have hiter : (st.tombstoneEdgesForNodes dead).1.delta.iter =
        st.delta.iter.filter fun e => !touchesDead (deadSlotIndices dead) e := by
      rw [tombstoneEdgesForNodes_eq st hdead]
      exact st.delta.iter_retainIf _
    have hbit : ∀ i, (st.tombstoneEdgesForNodes dead).1.isEdgeTombstoned i =
        (st.swept (deadSlotIndices dead)).1.getD i false := by
      intro i
      rw [tombstoneEdgesForNodes_eq st hdead]
      rfl
    -- the buffer keeps all operations on a key that touches no swept slot
    have hkept : ∀ {s t : NodeId}, ¬ Touched (deadSlotIndices dead) s t → ∀ d : DeltaEdge,
        d.source = s → d.target = t → (!touchesDead (deadSlotIndices dead) d) = true := by
      intro s t huntouched d hsource htarget
      rw [Bool.not_eq_true', ← Bool.not_eq_true, touchesDead_iff, hsource, htarget]
      exact huntouched
    rw [mem_edgesFrom, mem_edgesFrom, or_and_right]
    refine or_congr ?_ ?_
    · rw [exists_and_right.symm]
      refine exists_congr fun r => ?_
      rw [hrows, and_assoc]
      refine and_congr_right fun hr => ?_
      rw [Reported, Reported, hbit, isEdgeTombstoned_swept h _ hr, hiter]
      constructor
      · intro hreported
        obtain ⟨⟨⟨hlive, huntouched⟩, hnone⟩, heq⟩ := hreported
        refine ⟨⟨⟨hlive, fun hshadow => ?_⟩, heq⟩, heq ▸ huntouched⟩
        obtain ⟨d, hd, hkey, hlt⟩ := hshadow
        refine hnone ⟨d, List.mem_filter.mpr ⟨hd, ?_⟩, hkey, hlt⟩
        exact hkept huntouched d (congrArg EdgeKey.source hkey) (congrArg EdgeKey.target hkey)
      · intro hreported
        obtain ⟨⟨⟨hlive, hnone⟩, heq⟩, huntouched⟩ := hreported
        rw [heq] at huntouched
        refine ⟨⟨⟨hlive, huntouched⟩, fun hshadow => ?_⟩, heq⟩
        obtain ⟨d, hd, hkey, hlt⟩ := hshadow
        exact hnone ⟨d, (List.mem_filter.mp hd).1, hkey, hlt⟩
    · rw [exists_and_right.symm]
      refine exists_congr fun w => ?_
      rw [hrows, hiter]
      constructor
      · intro hw
        obtain ⟨hsource, hlatest, hadd, hrow, heq⟩ := hw
        have hmem := List.mem_filter.mp (latest_spec hlatest).1
        have huntouched : ¬ Touched (deadSlotIndices dead) w.source w.target := by
          rw [← touchesDead_iff, Bool.not_eq_true]
          exact (Bool.not_eq_true' _).mp hmem.2
        rw [latest, LastWriter.winner_filter fun d hd => hkept huntouched d
          (congrArg EdgeKey.source hd) (congrArg EdgeKey.target hd)] at hlatest
        refine ⟨⟨hsource, hlatest, hadd, hrow, heq⟩, ?_⟩
        rw [Touched, ← hsource, heq]
        exact huntouched
      · intro hw
        obtain ⟨⟨hsource, hlatest, hadd, hrow, heq⟩, huntouched⟩ := hw
        rw [Touched, ← hsource, heq] at huntouched
        refine ⟨hsource, ?_, hadd, hrow, heq⟩
        rw [latest, LastWriter.winner_filter fun d hd => hkept huntouched d
          (congrArg EdgeKey.source hd) (congrArg EdgeKey.target hd)]
        exact hlatest

theorem sees_sweep_iff {st : EdgeStore} (h : st.Fitted) (dead : List NodeId)
    {source target : NodeId} {kind : EdgeKind} :
    (st.tombstoneEdgesForNodes dead).1.Sees source target kind ↔
      st.Sees source target kind ∧ ¬ Touched (deadSlotIndices dead) source target := by
  constructor
  · intro hsees
    obtain ⟨e, he, htarget, hkind⟩ := hsees
    have hkept := (mem_edgesFrom_sweep h dead).mp he
    exact ⟨⟨e, hkept.1, htarget, hkind⟩, htarget ▸ hkept.2⟩
  · intro hsees
    obtain ⟨⟨e, he, htarget, hkind⟩, huntouched⟩ := hsees
    exact ⟨e, (mem_edgesFrom_sweep h dead).mpr ⟨he, htarget.symm ▸ huntouched⟩, htarget, hkind⟩

theorem Fitted.sweep {st : EdgeStore} (h : st.Fitted) (dead : List NodeId) :
    (st.tombstoneEdgesForNodes dead).1.Fitted := by
  cases hdead : dead.isEmpty with
  | true =>
    rw [tombstoneEdgesForNodes_nil st hdead]
    exact h
  | false =>
    rw [tombstoneEdgesForNodes_eq st hdead]
    refine ⟨h.wellFormed, h.nodeCount_le, fun csr hcsr => ?_⟩
    exact (h.covered csr hcsr).trans_eq (st.swept_spec (deadSlotIndices dead)).length_eq.symm

end Sees

end Sqry.EdgeStore
