import Sqry.Edge.Writers

/-!
The single-pass reader against the per-source reader. Both report the same additions from
the delta buffer. The single pass never lets a delta operation shadow a row entry, because
it looks for the operation under a source of generation 0, so the two readers agree when
no live row entry is shadowed.
-/

namespace Sqry.EdgeStore

/-- The store speaks of an arena whose live slots are `live`, in generation `g`. -/
structure OverArena (st : EdgeStore) (live : List Nat) (g : Nat → Nat) : Prop where
  live_nodup : live.Nodup
  generation_pos : ∀ i ∈ live, 1 ≤ g i
  delta_sources : ∀ d ∈ st.delta.iter, d.source.index ∈ live ∧
    d.source.generation = g d.source.index
  csr_rows : ∀ i, st.csrEdgesOf i ≠ [] → i ∈ live

structure ReportedEdge where
  sourceIndex : Nat
  target : NodeId
  kind : EdgeKind
  seq : Nat
  deriving DecidableEq

def ReportedEdge.ofRef (x : StoreEdgeRef) : ReportedEdge :=
  ⟨x.source.index, x.target, x.kind, x.seq⟩

def rowEntries (st : EdgeStore) (slots : List Nat) : List (Nat × EdgeRef) :=
  slots.flatMap fun i => (st.csrEdgesOf i).map fun r => (i, r)

theorem mem_rowEntries {st : EdgeStore} {slots : List Nat} {p : Nat × EdgeRef} :
    p ∈ st.rowEntries slots ↔ p.1 ∈ slots ∧ p.2 ∈ st.csrEdgesOf p.1 := by
  rw [rowEntries, List.mem_flatMap]
  constructor
  · rintro ⟨i, hi, hp⟩
    obtain ⟨r, hr, rfl⟩ := List.mem_map.mp hp
    exact ⟨hi, hr⟩
  · rintro ⟨hi, hr⟩
    exact ⟨p.1, hi, List.mem_map.mpr ⟨p.2, hr, rfl⟩⟩

section MaxSeq

def csrKey (p : Nat × EdgeRef) : CsrKey := ⟨p.1, p.2.target, p.2.kind⟩

theorem updateCsrMaxSeq_eq (m : AList fun _ : CsrKey => Nat) (p : Nat × EdgeRef) :
    updateCsrMaxSeq p.1 m p.2 =
      LastWriter.record csrKey (fun q : Nat × EdgeRef => q.2.seq) id (fun q => q.2.seq) m p := by
  have hkey : csrKey p = ⟨p.1, p.2.target, p.2.kind⟩ := rfl
  rw [updateCsrMaxSeq, LastWriter.record, hkey]
  cases m.lookup ⟨p.1, p.2.target, p.2.kind⟩ with
  | none => rfl
  | some s =>
    by_cases hlt : p.2.seq > s
    · have hnot : ¬ (id s ≥ p.2.seq) := Nat.not_le_of_lt hlt
      simp only [if_pos hlt, if_neg hnot]
    · have hle : id s ≥ p.2.seq := Nat.le_of_not_lt hlt
      simp only [if_neg hlt, if_pos hle]

theorem csrMaxSeqByKey_eq (st : EdgeStore) :
    st.csrMaxSeqByKey = LastWriter.table csrKey (fun q : Nat × EdgeRef => q.2.seq) id
      (fun q => q.2.seq) (st.rowEntries (List.range st.csrNodeCount)) := by
  rw [csrMaxSeqByKey, LastWriter.table, rowEntries, List.foldl_flatMap]
  congr 1
  funext m i
  rw [List.foldl_map]
  congr 1
  funext m r
  exact updateCsrMaxSeq_eq m (i, r)

theorem exists_maxSeq_iff (st : EdgeStore) (i : Nat) (target : NodeId) (kind : EdgeKind)
    (seq : Nat) :
    (∃ s, st.csrMaxSeqByKey.lookup ⟨i, target, kind⟩ = some s ∧ seq ≤ s) ↔
      ∃ r ∈ st.csrEdgesOf i, r.target = target ∧ r.kind = kind ∧ seq ≤ r.seq := by
  have hrank : ∀ q : Nat × EdgeRef, id ((fun q : Nat × EdgeRef => q.2.seq) q) = q.2.seq :=
    fun _ => rfl
  have hmem : ∀ r, r ∈ st.csrEdgesOf i →
      (i, r) ∈ st.rowEntries (List.range st.csrNodeCount) := by
    intro r hr
    rw [mem_rowEntries, List.mem_range]
    refine ⟨Nat.lt_of_not_le fun hle => ?_, hr⟩
    rw [csrEdgesOf_of_le hle] at hr
    cases hr
  rw [csrMaxSeqByKey_eq, LastWriter.lookup_table hrank]
  constructor
  · rintro ⟨s, hs, hle⟩
    obtain ⟨p, hp, rfl⟩ := Option.map_eq_some_iff.mp hs
    obtain ⟨hin, hkey, -⟩ := LastWriter.winner_spec hp
    have hrow := (mem_rowEntries.mp hin).2
    cases hkey
    exact ⟨p.2, hrow, rfl, rfl, hle⟩
  · rintro ⟨r, hr, rfl, rfl, hle⟩
    have hkey : csrKey (i, r) = ⟨i, r.target, r.kind⟩ := rfl
    have hexists : ∃ p, LastWriter.winner csrKey (fun q : Nat × EdgeRef => q.2.seq)
        ⟨i, r.target, r.kind⟩ (st.rowEntries (List.range st.csrNodeCount)) = some p :=
      LastWriter.exists_winner (hmem r hr) hkey
    obtain ⟨p, hp⟩ := hexists
    obtain ⟨-, -, hmax⟩ := LastWriter.winner_spec hp
    rw [hp]
    exact ⟨p.2.seq, rfl, Nat.le_trans hle (hmax (i, r) (hmem r hr) hkey)⟩

end MaxSeq

section DeltaAdds

def allDeltaPart (st : EdgeStore) : List StoreEdgeRef :=
  ((st.delta.iter.foldl updateDeltaLwwFromEdge ∅).entries.filter fun b =>
    b.2.isAdd &&
      match st.csrMaxSeqByKey.lookup ⟨b.1.source.index, b.2.target, b.2.kind⟩ with
      | none => true
      | some csrSeq => !(csrSeq ≥ b.2.seq)).map fun b => deltaEdgeRef b.1 b.2

theorem suppressed_iff (st : EdgeStore) (i : Nat) (target : NodeId) (kind : EdgeKind)
    (seq : Nat) :
    (match st.csrMaxSeqByKey.lookup ⟨i, target, kind⟩ with
      | none => true
      | some csrSeq => !(csrSeq ≥ seq : Bool)) = true ↔
      ∀ r ∈ st.csrEdgesOf i, r.target = target → r.kind = kind → r.seq < seq := by
  have hiff := st.exists_maxSeq_iff i target kind seq
  constructor
  · intro h r hr ht hk
    refine Nat.lt_of_not_le fun hle => ?_
    obtain ⟨s, hs, hseq⟩ := hiff.mpr ⟨r, hr, ht, hk, hle⟩
    rw [hs] at h
    simp [hseq] at h
  · intro h
    cases hlookup : st.csrMaxSeqByKey.lookup ⟨i, target, kind⟩ with
    | none => rfl
    | some s =>
      have hnot : ¬ seq ≤ s := fun hle => by
        obtain ⟨r, hr, ht, hk, hseq⟩ := hiff.mp ⟨s, hlookup, hle⟩
        exact Nat.not_lt_of_le hseq (h r hr ht hk)
      simp [hnot]

theorem mem_allDeltaPart {st : EdgeStore} {x : StoreEdgeRef} :
    x ∈ st.allDeltaPart ↔ x ∈ st.deltaPart x.source.index := by
  rw [allDeltaPart, mem_liveAdds (describes_lww st.delta.iter), mem_deltaPart]
  apply exists_congr
  intro w
  have hadd : (DeltaFromEntry.ofEdge w).isAdd = w.isAdd := rfl
  have hsuppressed := st.suppressed_iff w.source.index w.target w.kind w.seq
  rw [true_and, Bool.and_eq_true, hadd]
  constructor
  · rintro ⟨hw, ⟨hisAdd, hkeep⟩, rfl⟩
    exact ⟨rfl, hw, hisAdd, hsuppressed.mp hkeep, rfl⟩
  · rintro ⟨-, hw, hisAdd, hkeep, rfl⟩
    exact ⟨hw, ⟨hisAdd, hsuppressed.mpr hkeep⟩, rfl⟩

theorem source_of_mem_deltaPart {st : EdgeStore} {i : Nat} {x : StoreEdgeRef}
    (h : x ∈ st.deltaPart i) : x.source.index = i := by
  obtain ⟨w, hsource, -, -, -, rfl⟩ := mem_deltaPart.mp h
  exact hsource

theorem allDeltaPart_perm {st : EdgeStore} {live : List Nat} {g : Nat → Nat}
    (h : st.OverArena live g) : st.allDeltaPart.Perm (live.flatMap st.deltaPart) := by
  have hnodup : st.allDeltaPart.Nodup :=
    (nodup_keys_liveAdds (describes_lww st.delta.iter) _).of_map _
  have hparts : (live.flatMap st.deltaPart).Nodup := by
    rw [List.nodup_flatMap]
    refine ⟨fun i _ => (st.nodup_keys_deltaPart i).of_map _, h.live_nodup.imp fun hne => ?_⟩
    intro x hx hy
    exact hne ((source_of_mem_deltaPart hx).symm.trans (source_of_mem_deltaPart hy))
  rw [List.perm_ext_iff_of_nodup hnodup hparts]
  intro x
  rw [mem_allDeltaPart, List.mem_flatMap]
  constructor
  · intro hx
    refine ⟨x.source.index, ?_, hx⟩
    obtain ⟨w, -, hw, -, -, rfl⟩ := mem_deltaPart.mp hx
    exact (h.delta_sources w (latest_spec hw).1).1
  · rintro ⟨i, -, hx⟩
    rw [source_of_mem_deltaPart hx]
    exact hx

end DeltaAdds

section Rows

def entryEdge (p : Nat × EdgeRef) : ReportedEdge := ⟨p.1, p.2.target, p.2.kind, p.2.seq⟩

theorem flatMap_rows_perm {β : Type} {st : EdgeStore} {live : List Nat} {g : Nat → Nat}
    (h : st.OverArena live g) (f : Nat → List β) (hf : ∀ i, st.csrEdgesOf i = [] → f i = []) :
    ((List.range st.csrNodeCount).flatMap f).Perm (live.flatMap f) := by
  have hdrop : ∀ slots : List Nat,
      slots.flatMap f = (slots.filter fun i => !(st.csrEdgesOf i).isEmpty).flatMap f := by
    intro slots
    induction slots with
    | nil => rfl
    | cons i slots ih =>
      rw [List.flatMap_cons, ih]
      by_cases hi : st.csrEdgesOf i = []
      · rw [List.filter_cons_of_neg (by simp [hi]), hf i hi]
        rfl
      · rw [List.filter_cons_of_pos (by simpa using hi)]
        rfl
  rw [hdrop, hdrop live]
  apply List.Perm.flatMap_right
  rw [List.perm_ext_iff_of_nodup (List.nodup_range.filter _) (h.live_nodup.filter _)]
  intro i
  simp only [List.mem_filter, List.mem_range, Bool.not_eq_true', List.isEmpty_eq_false_iff]
  constructor
  · rintro ⟨-, hi⟩
    exact ⟨h.csr_rows i hi, hi⟩
  · rintro ⟨-, hi⟩
    exact ⟨Nat.lt_of_not_le fun hle => hi (csrEdgesOf_of_le hle), hi⟩

theorem csrEdgesFrom_generation_zero {st : EdgeStore} {live : List Nat} {g : Nat → Nat}
    (h : st.OverArena live g) (i : Nat) :
    st.csrEdgesFrom ⟨i, 0⟩ i (st.delta.iter.foldl updateDeltaLwwFromEdge ∅) =
      (st.liveRow i).map (csrEdgeRef ⟨i, 0⟩) := by
  rw [csrEdgesFrom, liveRow]
  congr 1
  apply List.filter_congr
  intro r _
  have hshadow : csrEdgeShadowedByDelta ⟨i, 0⟩ r
      (st.delta.iter.foldl updateDeltaLwwFromEdge ∅) = false := by
    rw [← Bool.not_eq_true, shadowed_iff (describes_lww st.delta.iter) trivial]
    rintro ⟨d, hd, hkey, -⟩
    obtain ⟨hlive, hgen⟩ := h.delta_sources d hd
    have hpos := h.generation_pos _ hlive
    have hsource : d.source = ⟨i, 0⟩ := congrArg EdgeKey.source hkey
    rw [hsource] at hgen hpos
    rw [← hgen] at hpos
    exact Nat.not_succ_le_zero 0 hpos
  rw [hshadow, Bool.not_false, Bool.and_true]

theorem perm_filter_map_iff {α β : Type} (f : α → β) (p : α → Bool) (l : List α) :
    (l.map f).Perm ((l.filter p).map f) ↔ ∀ a ∈ l, p a = true := by
  constructor
  · intro h
    have hlen := h.length_eq
    rw [List.length_map, List.length_map] at hlen
    exact List.length_filter_eq_length_iff.mp hlen.symm
  · intro h
    rw [List.filter_eq_self.mpr h]

end Rows

def NothingShadowed (st : EdgeStore) (live : List Nat) (g : Nat → Nat) : Prop :=
  ∀ i ∈ live, ∀ r ∈ st.liveRow i, ∀ d ∈ st.delta.iter,
    d.edgeKey = ⟨⟨i, g i⟩, r.target, r.kind⟩ → d.seq ≤ r.seq

theorem rows_perm_iff {st : EdgeStore} {live : List Nat} {g : Nat → Nat}
    (h : st.OverArena live g) :
    (((List.range st.csrNodeCount).flatMap fun i =>
        (st.liveRow i).map (csrEdgeRef ⟨i, 0⟩)).map ReportedEdge.ofRef).Perm
      ((live.flatMap fun i => ((st.csrEdgesOf i).filter fun r =>
        st.Reported ⟨i, g i⟩ r).map (csrEdgeRef ⟨i, g i⟩)).map ReportedEdge.ofRef) ↔
      st.NothingShadowed live g := by
  let entries := live.flatMap fun i => (st.liveRow i).map fun r => (i, r)
  let shown : Nat × EdgeRef → Bool := fun p => st.Reported ⟨p.1, g p.1⟩ p.2
  have hall : (((List.range st.csrNodeCount).flatMap fun i =>
      (st.liveRow i).map (csrEdgeRef ⟨i, 0⟩)).map ReportedEdge.ofRef).Perm
        (entries.map entryEdge) := by
    have hperm := (flatMap_rows_perm h (fun i => (st.liveRow i).map (csrEdgeRef ⟨i, 0⟩))
      (fun i hi => by rw [liveRow, hi]; rfl)).map ReportedEdge.ofRef
    have heq : (live.flatMap fun i => (st.liveRow i).map (csrEdgeRef ⟨i, 0⟩)).map
        ReportedEdge.ofRef = entries.map entryEdge := by
      simp only [entries, List.map_flatMap, List.map_map]
      rfl
    rw [heq] at hperm
    exact hperm
  have hshown : (live.flatMap fun i => ((st.csrEdgesOf i).filter fun r =>
      st.Reported ⟨i, g i⟩ r).map (csrEdgeRef ⟨i, g i⟩)).map ReportedEdge.ofRef =
        (entries.filter shown).map entryEdge := by
    simp only [entries, List.filter_flatMap, List.map_flatMap, List.filter_map, List.map_map]
    congr 1
    funext i
    rw [liveRow, List.filter_filter]
    have hfilter : ((st.csrEdgesOf i).filter fun r => decide (st.Reported ⟨i, g i⟩ r)) =
        (st.csrEdgesOf i).filter fun r =>
          (shown ∘ fun r => (i, r)) r && !st.isEdgeTombstoned r.index := by
      apply List.filter_congr
      intro r _
      rw [Bool.eq_iff_iff, Bool.and_eq_true]
      exact ⟨fun hr => ⟨hr, by simpa using (of_decide_eq_true hr).1⟩, fun hr => hr.1⟩
    rw [hfilter]
    rfl
  rw [hshown]
  have hcancel : (((List.range st.csrNodeCount).flatMap fun i =>
      (st.liveRow i).map (csrEdgeRef ⟨i, 0⟩)).map ReportedEdge.ofRef).Perm
        ((entries.filter shown).map entryEdge) ↔
      (entries.map entryEdge).Perm ((entries.filter shown).map entryEdge) :=
    ⟨fun hp => hall.symm.trans hp, fun hp => hall.trans hp⟩
  rw [hcancel, perm_filter_map_iff]
  constructor
  · intro hp i hi r hr d hd hkey
    have hin : (i, r) ∈ entries := List.mem_flatMap.mpr ⟨i, hi, List.mem_map.mpr ⟨r, hr, rfl⟩⟩
    have hrep : st.Reported ⟨i, g i⟩ r := of_decide_eq_true (hp _ hin)
    exact Nat.le_of_not_lt fun hlt => hrep.2 ⟨d, hd, hkey, hlt⟩
  · intro hp p hmem
    obtain ⟨i, hi, hin⟩ := List.mem_flatMap.mp hmem
    obtain ⟨r, hr, rfl⟩ := List.mem_map.mp hin
    have hlive : st.isEdgeTombstoned r.index = false := by
      simpa using (List.mem_filter.mp hr).2
    refine decide_eq_true ⟨hlive, ?_⟩
    rintro ⟨d, hd, hkey, hlt⟩
    exact Nat.not_lt_of_le (hp i hi r hr d hd hkey) hlt

/-- The two readers report the same edges exactly when no live row entry is shadowed by a
later delta operation and every row index fits 32 bits. -/
theorem allLiveForwardEdges_agrees_iff (st : EdgeStore) (live : List Nat) (g : Nat → Nat)
    (h : st.OverArena live g) :
    (∃ all, st.allLiveForwardEdges = some all ∧
      (all.map ReportedEdge.ofRef).Perm
        ((live.flatMap fun i => st.edgesFrom ⟨i, g i⟩).map ReportedEdge.ofRef)) ↔
      st.csrNodeCount ≤ u32Max + 1 ∧ st.NothingShadowed live g := by
  have hrows := rows_perm_iff h
  have hdelta := (allDeltaPart_perm h).map ReportedEdge.ofRef
  have hsources : ((live.flatMap fun i => st.edgesFrom ⟨i, g i⟩).map ReportedEdge.ofRef).Perm
      ((live.flatMap fun i => ((st.csrEdgesOf i).filter fun r =>
        st.Reported ⟨i, g i⟩ r).map (csrEdgeRef ⟨i, g i⟩)).map ReportedEdge.ofRef ++
        (live.flatMap st.deltaPart).map ReportedEdge.ofRef) := by
    simp only [edgesFrom_eq]
    rw [← List.map_append]
    exact (List.flatMap_append_perm _ _ _).symm.map _
  rw [allLiveForwardEdges]
  by_cases hcount : st.csrNodeCount > u32Max + 1
  · rw [if_pos hcount]
    constructor
    · rintro ⟨all, hall, -⟩
      cases hall
    · rintro ⟨hle, -⟩
      exact absurd hle (Nat.not_le_of_lt hcount)
  · rw [if_neg hcount]
    have hle : st.csrNodeCount ≤ u32Max + 1 := Nat.le_of_not_lt hcount
    simp only [csrEdgesFrom_generation_zero h, Option.some.injEq, exists_eq_left', hle, true_and]
    rw [← hrows, List.map_append]
    constructor
    · intro hperm
      have hboth := hperm.trans (hsources.trans (hdelta.symm.append_left _))
      exact (List.perm_append_right_iff _).mp hboth
    · intro hperm
      exact ((hperm.append_right _).trans (hdelta.append_left _)).trans hsources.symm

def addedBeside (kind : EdgeKind) : EdgeStore :=
  EdgeStore.addEdge
    ⟨some ⟨2, [0, 1, 1], [⟨1, 1⟩], [.references], [0], [[]]⟩, [false], 1, ⟨∅, 0, 0, 1⟩⟩
    ⟨0, 1⟩ ⟨1, 1⟩ kind 0

theorem overArena_addedBeside (kind : EdgeKind) :
    (addedBeside kind).OverArena [0, 1] fun _ => 1 := by
  have hiter : (addedBeside kind).delta.iter =
      [⟨⟨0, 1⟩, ⟨1, 1⟩, kind, 1, .add, 0, []⟩] := rfl
  refine ⟨by decide, by decide, fun d hd => ?_, fun i hi => ?_⟩
  · rw [hiter, List.mem_singleton] at hd
    rw [hd]
    exact ⟨List.mem_cons_self, rfl⟩
  · match i with
    | 0 => decide
    | 1 => decide
    | i + 2 => exact absurd (csrEdgesOf_of_le (by show 2 ≤ i + 2; omega)) hi

theorem allLiveForwardEdges_addedBeside :
    (addedBeside .defines).OverArena [0, 1] (fun _ => 1) ∧
      ∃ all, (addedBeside .defines).allLiveForwardEdges = some all ∧
        (all.map ReportedEdge.ofRef).Perm
          (([0, 1].flatMap fun i => (addedBeside .defines).edgesFrom ⟨i, 1⟩).map
            ReportedEdge.ofRef) := by
  have harena := overArena_addedBeside .defines
  refine ⟨harena, (allLiveForwardEdges_agrees_iff _ _ _ harena).mpr ⟨by decide, ?_⟩⟩
  show ∀ i ∈ [0, 1], ∀ r ∈ (addedBeside .defines).liveRow i,
    ∀ d ∈ (addedBeside .defines).delta.iter, _ → _
  decide

/-- Adding the edge of the compressed graph again: the per-source reader reports it once
and the single pass twice. -/
theorem addedBeside_reported_twice :
    (addedBeside .references).OverArena [0, 1] (fun _ => 1) ∧
      ¬ ∃ all, (addedBeside .references).allLiveForwardEdges = some all ∧
        (all.map ReportedEdge.ofRef).Perm
          (([0, 1].flatMap fun i => (addedBeside .references).edgesFrom ⟨i, 1⟩).map
            ReportedEdge.ofRef) := by
  refine ⟨overArena_addedBeside .references, ?_⟩
  intro ⟨all, hall, hperm⟩
  have htwo : (addedBeside .references).allLiveForwardEdges.map List.length = some 2 := by
    decide
  have hone : (([0, 1].flatMap fun i => (addedBeside .references).edgesFrom ⟨i, 1⟩).map
    ReportedEdge.ofRef).length = 1 := by decide
  have hlen := hperm.length_eq
  rw [hall] at htwo
  rw [hone, List.length_map, Option.some.inj htwo] at hlen
  cases hlen

end Sqry.EdgeStore
