import Sqry.Edge.Sweep

/-!
What a reader sees after edges were removed one by one: the edges with the removed keys are gone,
and every other edge is as it was.
-/

namespace Sqry.EdgeStore

/-- The rows and bits fit, the numbers of the buffer are its own, and the row entries have smaller
ones than the next that is issued. -/
structure Sequenced (st : EdgeStore) : Prop where
  fitted : st.Fitted
  numbered : st.delta.Numbered
  row_lt_counter : ∀ i, ∀ r ∈ st.csrEdgesOf i, r.seq < st.delta.seqCounter

theorem sequenced_buffered {st : EdgeStore} (hcsr : st.csr = none)
    (hnumbered : st.delta.Numbered) : st.Sequenced := by
  have hnone : ∀ csr, st.csr ≠ some csr := by
    intro csr h
    rw [hcsr] at h
    cases h
  refine ⟨⟨fun csr h => absurd h (hnone csr), ?_, fun csr h => absurd h (hnone csr)⟩,
    hnumbered, ?_⟩
  · rw [csrNodeCount, hcsr]
    exact Nat.zero_le _
  · intro i r hr
    rw [csrEdgesOf, hcsr] at hr
    cases hr

theorem Sequenced.removeEdge {st : EdgeStore} (h : st.Sequenced) (source target : NodeId)
    (kind : EdgeKind) (file : FileId) : (st.removeEdge source target kind file).Sequenced := by
  have hcsr := st.csr_removeEdge source target kind file
  have hlength : (st.removeEdge source target kind file).csrTombstones.length =
      st.csrTombstones.length := st.tombstoneCsrEdge_length source target kind
  refine ⟨⟨?_, ?_, ?_⟩, ?_, ?_⟩
  · rw [hcsr]
    exact h.fitted.wellFormed
  · rw [csrNodeCount, hcsr]
    exact h.fitted.nodeCount_le
  · rw [hcsr, hlength]
    exact h.fitted.covered
  · rw [delta_removeEdge]
    exact h.numbered.issue rfl
  · intro i r hr
    rw [csrEdgesOf_removeEdge] at hr
    rw [delta_removeEdge, DeltaBuffer.seqCounter_issue]
    exact Nat.lt_succ_of_lt (h.row_lt_counter i r hr)

theorem Fitted.row_eq {st : EdgeStore} (h : st.Fitted) {i j : Nat} {r r' : EdgeRef}
    (hr : r ∈ st.csrEdgesOf i) (hr' : r' ∈ st.csrEdgesOf j) (hindex : r.index = r'.index) :
    i = j ∧ r = r' := by
  rw [csrEdgesOf] at hr hr'
  cases hcsr : st.csr with
  | none =>
    rw [hcsr] at hr
    cases hr
  | some csr =>
    simp only [hcsr] at hr hr'
    exact row_eq_of_index_eq (h.wellFormed csr hcsr) hr hr' hindex

section One
variable {st : EdgeStore} {source target : NodeId} {kind : EdgeKind} {file : FileId}

theorem reported_removeEdge_iff (h : st.Sequenced) {asked : NodeId}
    (hsame : asked.index = source.index → asked = source) {r : EdgeRef}
    (hr : r ∈ st.csrEdgesOf asked.index) :
    (st.removeEdge source target kind file).Reported asked r ↔
      st.Reported asked r ∧ ¬ (asked = source ∧ r.target = target ∧ r.kind = kind) := by
  have hissued : ∀ d, d ∈ (st.removeEdge source target kind file).delta.iter ↔
      d = DeltaEdge.new source target kind st.delta.seqCounter .remove file ∨
        d ∈ st.delta.iter := by
    intro d
    rw [delta_removeEdge]
    exact DeltaBuffer.mem_iter_issue
  have hbit : (st.removeEdge source target kind file).isEdgeTombstoned r.index = true ↔ _ :=
    st.isEdgeTombstoned_tombstoneCsrEdge source target kind r.index
  constructor
  · intro hreported
    refine ⟨⟨?_, fun hshadow => ?_⟩, fun hkey => ?_⟩
    · rw [← Bool.not_eq_true]
      intro hold
      have hnew := hbit.mpr (.inl hold)
      rw [hreported.1] at hnew
      cases hnew
    · obtain ⟨d, hd, hrest⟩ := hshadow
      exact hreported.2 ⟨d, (hissued d).mpr (.inr hd), hrest⟩
    · obtain ⟨hasked, htarget, hkind⟩ := hkey
      refine hreported.2 ⟨_, (hissued _).mpr (.inl rfl), ?_, h.row_lt_counter _ r hr⟩
      rw [hasked, htarget, hkind]
      rfl
  · intro hreported
    obtain ⟨⟨hlive, hnone⟩, hkey⟩ := hreported
    refine ⟨?_, fun hshadow => ?_⟩
    · rw [← Bool.not_eq_true, hbit, not_or, Bool.not_eq_true]
      refine ⟨hlive, fun hhead => hkey ?_⟩
      -- the first match of the removal is this entry
      obtain ⟨first, hfirst, hindex⟩ := Option.map_eq_some_iff.mp hhead.2
      obtain ⟨hrow, htarget, hkind⟩ := mem_rowMatches.mp (List.mem_of_head? hfirst)
      obtain ⟨hslot, heq⟩ := h.fitted.row_eq hr hrow hindex.symm
      rw [heq]
      exact ⟨hsame hslot, htarget, hkind⟩
    · obtain ⟨d, hd, hdkey, hlt⟩ := hshadow
      cases (hissued d).mp hd with
      | inl hnew =>
        rw [hnew] at hdkey
        exact hkey ⟨(congrArg EdgeKey.source hdkey).symm, (congrArg EdgeKey.target hdkey).symm,
          (congrArg EdgeKey.kind hdkey).symm⟩
      | inr hold => exact hnone ⟨d, hold, hdkey, hlt⟩

theorem mem_edgesFrom_removeEdge (h : st.Sequenced) {asked : NodeId}
    (hsame : asked.index = source.index → asked = source) {x : StoreEdgeRef} :
    x ∈ (st.removeEdge source target kind file).edgesFrom asked ↔
      x ∈ st.edgesFrom asked ∧
        ¬ (x.source = source ∧ x.target = target ∧ x.kind = kind) := by
  rw [mem_edgesFrom, mem_edgesFrom, or_and_right]
  refine or_congr ?_ ?_
  · rw [exists_and_right.symm]
    refine exists_congr fun r => ?_
    rw [csrEdgesOf_removeEdge, and_assoc]
    refine and_congr_right fun hr => ?_
    rw [reported_removeEdge_iff h hsame hr, and_right_comm]
    refine and_congr_right fun hreported => ?_
    rw [hreported.2]
    rfl
  · rw [exists_and_right.symm]
    refine exists_congr fun w => ?_
    have hissue : latest (st.delta.issue fun seq =>
          DeltaEdge.new source target kind seq .remove file).iter w.edgeKey =
        if (DeltaEdge.new source target kind st.delta.seqCounter .remove file).edgeKey = w.edgeKey
        then some (DeltaEdge.new source target kind st.delta.seqCounter .remove file)
        else latest st.delta.iter w.edgeKey := h.numbered.latest_issue rfl w.edgeKey
    rw [csrEdgesOf_removeEdge, delta_removeEdge, hissue]
    by_cases hkey : (DeltaEdge.new source target kind st.delta.seqCounter .remove file).edgeKey =
        w.edgeKey
    · rw [if_pos hkey]
      constructor
      · intro hw
        obtain ⟨_, heq, hadd, _⟩ := hw
        cases heq
        cases hadd
      · intro hw
        obtain ⟨⟨_, _, _, _, heq⟩, hnot⟩ := hw
        rw [heq] at hnot
        exact absurd ⟨(congrArg EdgeKey.source hkey).symm, (congrArg EdgeKey.target hkey).symm,
          (congrArg EdgeKey.kind hkey).symm⟩ hnot
    · rw [if_neg hkey]
      refine (and_iff_left_of_imp fun hw hx => hkey ?_).symm
      obtain ⟨_, _, _, _, heq⟩ := hw
      rw [heq] at hx
      obtain ⟨hsource, htarget, hkind⟩ := hx
      rw [← hsource, ← htarget, ← hkind]
      rfl

end One

section Many

def removeEdges (st : EdgeStore) (edges : List StoreEdgeRef) : EdgeStore :=
  edges.foldl (fun st e => st.removeEdge e.source e.target e.kind e.file) st

theorem Sequenced.removeEdges {st : EdgeStore} (h : st.Sequenced) (edges : List StoreEdgeRef) :
    (st.removeEdges edges).Sequenced := by
  induction edges generalizing st with
  | nil => exact h
  | cons e edges ih => exact ih (h.removeEdge e.source e.target e.kind e.file)

theorem mem_edgesFrom_removeEdges {st : EdgeStore} (h : st.Sequenced) {edges : List StoreEdgeRef}
    {asked : NodeId} (hsame : ∀ e ∈ edges, asked.index = e.source.index → asked = e.source)
    {x : StoreEdgeRef} :
    x ∈ (st.removeEdges edges).edgesFrom asked ↔
      x ∈ st.edgesFrom asked ∧ x.key ∉ edges.map StoreEdgeRef.key := by
  induction edges generalizing st with
  | nil => simp [removeEdges]
  | cons e edges ih =>
    have hfirst := hsame e List.mem_cons_self
    have hrest := ih (h.removeEdge e.source e.target e.kind e.file)
      fun e' he' => hsame e' (List.mem_cons_of_mem e he')
    have hkey : x.key = e.key ↔ x.source = e.source ∧ x.target = e.target ∧ x.kind = e.kind :=
      EdgeKey.mk.injEq .. ▸ Iff.rfl
    refine hrest.trans ?_
    rw [mem_edgesFrom_removeEdge h hfirst, List.map_cons, List.mem_cons, not_or, hkey, and_assoc]

end Many

def Buffered (st : EdgeStore) (source target : NodeId) (kind : EdgeKind) : Prop :=
  ∃ w, latest st.delta.iter ⟨source, target, kind⟩ = some w ∧ w.isAdd = true ∧
    ∀ r ∈ st.csrEdgesOf source.index, r.target = target → r.kind = kind → r.seq < w.seq

theorem buffered_iff {st : EdgeStore} {source target : NodeId} {kind : EdgeKind} :
    st.Buffered source target kind ↔
      ∃ x ∈ st.deltaPart source.index, x.key = ⟨source, target, kind⟩ := by
  constructor
  · intro h
    obtain ⟨w, hlatest, hadd, hrow⟩ := h
    have hkey : w.edgeKey = ⟨source, target, kind⟩ := (latest_spec hlatest).2.1
    refine ⟨w.toRef, mem_deltaPart.mpr ⟨w, ?_, hkey.symm ▸ hlatest, hadd, ?_, rfl⟩, hkey⟩
    · exact congrArg (fun key => key.source.index) hkey
    · intro r hr htarget hkind
      exact hrow r hr (htarget.trans (congrArg EdgeKey.target hkey))
        (hkind.trans (congrArg EdgeKey.kind hkey))
  · intro h
    obtain ⟨x, hx, hkey⟩ := h
    obtain ⟨w, _, hlatest, hadd, hrow, heq⟩ := mem_deltaPart.mp hx
    rw [heq, DeltaEdge.key_toRef] at hkey
    rw [hkey] at hlatest
    refine ⟨w, hlatest, hadd, fun r hr htarget hkind => ?_⟩
    exact hrow r hr (htarget.trans (congrArg EdgeKey.target hkey).symm)
      (hkind.trans (congrArg EdgeKey.kind hkey).symm)

end Sqry.EdgeStore

namespace Sqry.BidirectionalEdgeStore

def removeEdges (b : BidirectionalEdgeStore) (edges : List StoreEdgeRef) :
    BidirectionalEdgeStore :=
  edges.foldl (fun b e => b.removeEdge e.source e.target e.kind e.file) b

def turned (x : StoreEdgeRef) : StoreEdgeRef := { x with source := x.target, target := x.source }

theorem removeEdges_eq (b : BidirectionalEdgeStore) (edges : List StoreEdgeRef) :
    b.removeEdges edges =
      ⟨b.forward.removeEdges edges, b.reverse.removeEdges (edges.map turned)⟩ := by
  induction edges generalizing b with
  | nil => rfl
  | cons e edges ih => exact ih (b.removeEdge e.source e.target e.kind e.file)

theorem tombstoneEdgesForNodes_eq (b : BidirectionalEdgeStore) (dead : List NodeId) :
    (b.tombstoneEdgesForNodes dead).1 =
      ⟨(b.forward.tombstoneEdgesForNodes dead).1, (b.reverse.tombstoneEdgesForNodes dead).1⟩ := by
  rw [tombstoneEdgesForNodes]
  cases hempty : dead.isEmpty with
  | true =>
    rw [EdgeStore.tombstoneEdgesForNodes_nil _ hempty,
      EdgeStore.tombstoneEdgesForNodes_nil _ hempty]
    rfl
  | false => rfl

theorem mem_edgesTo {b : BidirectionalEdgeStore} {target : NodeId} {x : StoreEdgeRef} :
    x ∈ b.edgesTo target ↔
      ∃ e ∈ b.reverse.edgesFrom target, x = { e with source := e.target, target := target } := by
  rw [edgesTo, List.mem_map]
  exact exists_congr fun e => and_congr_right fun _ => eq_comm

end Sqry.BidirectionalEdgeStore
