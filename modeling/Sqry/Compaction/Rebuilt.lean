import Sqry.Compaction.Merge

/-!
What a compaction leaves behind: for every slot a row with the keys that the merge of the
snapshot keeps, no tombstones and an empty buffer.
-/

namespace Sqry

open SortedGroups (sortBy)

structure RowEntry where
  target : NodeId
  kind : EdgeKind
  seq : Nat
  deriving DecidableEq

def EdgeRef.entry (r : EdgeRef) : RowEntry := ⟨r.target, r.kind, r.seq⟩

def MergedEdge.entry (e : MergedEdge) : RowEntry := ⟨e.target, e.kind, e.seq⟩

def Verdict.entry (v : Verdict) : RowEntry := ⟨v.key.target, v.key.kind, v.seq⟩

section RowPtr
variable {cumulative : Nat}

theorem rowPtrFrom_eq {counts rowPtr : List Nat} (h : rowPtrFrom cumulative counts = some rowPtr) :
    rowPtr = Segments.offsets cumulative counts := by
  induction counts generalizing cumulative rowPtr with
  | nil =>
    cases h
    rfl
  | cons count counts ih =>
    rw [rowPtrFrom] at h
    split at h
    · cases h
    · obtain ⟨rest, hrest, rfl⟩ := Option.map_eq_some_iff.mp h
      rw [ih hrest, Segments.offsets]

theorem exists_rowPtrFrom {counts : List Nat}
    (h : (Segments.offsets cumulative counts).getLastD 0 ≤ u32Max) :
    ∃ rowPtr, rowPtrFrom cumulative counts = some rowPtr := by
  induction counts generalizing cumulative with
  | nil => exact ⟨_, rfl⟩
  | cons count counts ih =>
    have hlast : (Segments.offsets cumulative (count :: counts)).getLastD 0 =
        (Segments.offsets (cumulative + count) counts).getLastD 0 := by
      rw [Segments.offsets]
      cases counts <;> rfl
    rw [hlast] at h
    have hle : cumulative + count ≤ (Segments.offsets (cumulative + count) counts).getLastD 0 :=
      Segments.le_getLastD_offsets _ _
    obtain ⟨rest, hrest⟩ := ih h
    refine ⟨cumulative :: rest, ?_⟩
    rw [rowPtrFrom, if_neg (by omega), hrest]
    rfl

theorem getLastD_rowPtrFrom_le {counts rowPtr : List Nat} (hfits : cumulative ≤ u32Max)
    (h : rowPtrFrom cumulative counts = some rowPtr) (d : Nat) :
    rowPtr.getLastD d ≤ u32Max := by
  induction counts generalizing cumulative rowPtr d with
  | nil =>
    cases h
    exact hfits
  | cons count counts ih =>
    rw [rowPtrFrom] at h
    split at h
    · cases h
    · rename_i hsum
      obtain ⟨rest, hrest, rfl⟩ := Option.map_eq_some_iff.mp h
      rw [List.getLastD_cons]
      exact ih (Nat.le_of_not_lt fun hlt => hsum (.inr hlt)) hrest cumulative

end RowPtr

section Arrays

theorem perm_sortBySource (edges : List MergedEdge) : (sortBySource edges).Perm edges :=
  SortedGroups.perm_sortBy _ edges

theorem sortBySource_sorted (edges : List MergedEdge) :
    (sortBySource edges).Pairwise fun a b => a.source.index ≤ b.source.index :=
  SortedGroups.pairwise_sortBy_compare (fun e : MergedEdge => e.source.index) edges

def defaultEdge : MergedEdge := ⟨NodeId.INVALID, NodeId.INVALID, .defines, 0, 0, []⟩

theorem entry_edgeRefAt (nodeCount : Nat) (rowPtr : List Nat) (sorted : List MergedEdge)
    (i : Nat) :
    ((csrOfSorted nodeCount rowPtr sorted).edgeRefAt i).entry =
      (sorted.getD i defaultEdge).entry := by
  simp only [CsrGraph.edgeRefAt, csrOfSorted, EdgeRef.entry, MergedEdge.entry,
    List.getD_eq_getElem?_getD, List.getElem?_map]
  cases sorted[i]? <;> rfl

def sourceIndices (edges : List MergedEdge) : List Nat := edges.map fun e => e.source.index

theorem countP_sourceIndices (edges : List MergedEdge) (p : Nat → Bool) :
    (sourceIndices edges).countP p = edges.countP fun e => p e.source.index := by
  rw [sourceIndices, List.countP_map]
  rfl

theorem entries_edgesOf {nodeCount i : Nat} (hi : i < nodeCount) (edges : List MergedEdge)
    {g : CsrGraph} (hg : g = csrOfSorted nodeCount
      (Segments.offsets 0 (Segments.tally nodeCount (sourceIndices (sortBySource edges))))
      (sortBySource edges)) :
    (g.edgesOf i).map EdgeRef.entry =
      ((sortBySource edges).filter fun e => e.source.index = i).map MergedEdge.entry := by
  let sorted := sortBySource edges
  have hstart : g.rowPtr.getD i 0 = sorted.countP fun e => e.source.index < i := by
    rw [hg, csrOfSorted, List.getD_eq_getElem?_getD,
      Segments.getElem?_offsets_tally (Nat.le_of_lt hi), Option.getD_some, countP_sourceIndices]
  have hstop : g.rowPtr.getD (i + 1) 0 = sorted.countP fun e => e.source.index < i + 1 := by
    rw [hg, csrOfSorted, List.getD_eq_getElem?_getD, Segments.getElem?_offsets_tally hi,
      Option.getD_some, countP_sourceIndices]
  have hsplit : (sorted.countP fun e => decide (e.source.index < i + 1)) =
      (sorted.countP fun e => decide (e.source.index < i)) +
        sorted.countP fun e => decide (e.source.index = i) := by
    have hcount := Segments.countP_lt_succ (sourceIndices sorted) i
    rw [countP_sourceIndices, countP_sourceIndices] at hcount
    rw [hcount, sourceIndices, List.count, List.countP_map]
    rfl
  have hbound : (sorted.countP fun e => decide (e.source.index < i + 1)) ≤ sorted.length :=
    List.countP_le_length
  have hnode : ¬ i ≥ g.nodeCount := by
    rw [hg]
    exact Nat.not_le_of_lt hi
  rw [CsrGraph.edgesOf, if_neg hnode, hstart, hstop, hsplit, Nat.add_sub_cancel_left, List.map_map]
  have hread : EdgeRef.entry ∘ g.edgeRefAt =
      MergedEdge.entry ∘ fun j => sorted.getD j defaultEdge := by
    funext j
    rw [hg]
    exact entry_edgeRefAt nodeCount _ sorted j
  rw [hread, ← List.map_map, Segments.map_range'_getD sorted defaultEdge _ _ (by omega),
    ← Segments.filter_eq_take_drop (sortBySource_sorted edges)]

end Arrays

variable {edges : List MergedEdge} {nodeCount : Nat} {g : CsrGraph}

theorem buildCsrFromEdges_spec (hcount : nodeCount ≠ 0)
    (h : buildCsrFromEdges edges nodeCount = some (.ok g)) :
    (∀ i, ((g.edgesOf i).map EdgeRef.entry).Perm
      ((edges.filter fun e => e.source.index = i).map MergedEdge.entry)) ∧ g.WellFormed := by
  rw [buildCsrFromEdges, if_neg hcount] at h
  simp only [] at h
  split at h
  · cases h
  · rename_i rowPtr hrowPtr
    split at h
    · cases h
    · rename_i hvalid
      have hg : csrOfSorted nodeCount rowPtr (sortBySource edges) = g :=
        Except.ok.inj (Option.some.inj h)
      rw [rowPtrFrom_eq hrowPtr] at hg
      rw [rowPtrFrom_eq hrowPtr, CsrGraph.validate_eq_ok_iff] at hvalid
      have hwell : g.WellFormed := hg ▸ hvalid
      -- a source beyond the rows would make the last row pointer too small
      have hall : ∀ e ∈ edges, e.source.index < nodeCount := by
        have hlast := hwell.rowPtr_last
        rw [← hg] at hlast
        simp only [csrOfSorted, Segments.getLastD_offsets_tally, List.length_map] at hlast
        have hcountP : (sourceIndices (sortBySource edges)).countP (· < nodeCount) =
            (sourceIndices (sortBySource edges)).length :=
          hlast.trans (List.length_map _).symm
        intro e he
        have hmem : e.source.index ∈ sourceIndices (sortBySource edges) :=
          List.mem_map.mpr ⟨e, (perm_sortBySource edges).mem_iff.mpr he, rfl⟩
        exact of_decide_eq_true (List.countP_eq_length.mp hcountP _ hmem)
      refine ⟨fun i => ?_, hwell⟩
      have hperm : (((sortBySource edges).filter fun e => e.source.index = i).map
          MergedEdge.entry).Perm
            ((edges.filter fun e => e.source.index = i).map MergedEdge.entry) :=
        ((perm_sortBySource edges).filter _).map _
      by_cases hi : i < nodeCount
      · rw [entries_edgesOf hi edges hg.symm]
        exact hperm
      · have hempty : g.edgesOf i = [] := by
          have hnode : i ≥ g.nodeCount := by
            rw [← hg]
            exact Nat.le_of_not_lt hi
          rw [CsrGraph.edgesOf, if_pos hnode]
        have hnone : (edges.filter fun e => decide (e.source.index = i)) = [] := by
          rw [List.filter_eq_nil_iff]
          intro e he heq
          have hlt := hall e he
          rw [of_decide_eq_true heq] at hlt
          exact hi hlt
        rw [hempty, hnone]
        exact List.Perm.refl _

theorem edgeCount_le_of_build (h : buildCsrFromEdges edges nodeCount = some (.ok g))
    : g.edgeCount ≤ u32Max := by
  by_cases hcount : nodeCount = 0
  · rw [buildCsrFromEdges, if_pos hcount] at h
    cases h
    exact Nat.zero_le _
  · have hwell := (buildCsrFromEdges_spec hcount h).2
    rw [buildCsrFromEdges, if_neg hcount] at h
    simp only [] at h
    split at h
    · cases h
    · rename_i rowPtr hrowPtr
      split at h
      · cases h
      · have hg : csrOfSorted nodeCount rowPtr (sortBySource edges) = g :=
          Except.ok.inj (Option.some.inj h)
        rw [CsrGraph.edgeCount, ← hwell.rowPtr_last, ← hg]
        exact getLastD_rowPtrFrom_le (Nat.zero_le _) hrowPtr 0

theorem edgeCount_le_of_buildCompactedCsr {s : CompactionSnapshot} {direction : Direction}
    {stats : BuildStats} (h : buildCompactedCsr s direction = some (.ok (g, stats)))
    : g.edgeCount ≤ u32Max := by
  rw [buildCompactedCsr] at h
  split at h
  · cases h
    exact Nat.zero_le _
  · simp only [] at h
    split at h
    · cases h
    · cases h
    · rename_i csr hcsr
      cases h
      exact edgeCount_le_of_build hcsr

theorem exists_buildCsrFromEdges (hsource : ∀ e ∈ edges, e.source.index < nodeCount)
    (htarget : ∀ e ∈ edges, e.target.index < CsrGraph.nodeCountU32 nodeCount)
    (hlen : edges.length ≤ u32Max) : ∃ g, buildCsrFromEdges edges nodeCount = some (.ok g) := by
  by_cases hcount : nodeCount = 0
  · exact ⟨CsrGraph.empty 0, by rw [buildCsrFromEdges, if_pos hcount]⟩
  · have hlast : (Segments.offsets 0 (Segments.tally nodeCount
        (sourceIndices (sortBySource edges)))).getLastD 0 = edges.length := by
      rw [Segments.getLastD_offsets_tally, countP_sourceIndices,
        ← (perm_sortBySource edges).length_eq, List.countP_eq_length]
      intro e he
      exact decide_eq_true (hsource e ((perm_sortBySource edges).mem_iff.mp he))
    obtain ⟨rowPtr, hrowPtr⟩ := exists_rowPtrFrom (hlast.trans_le hlen)
    have hoffsets := rowPtrFrom_eq hrowPtr
    have hvalid : (csrOfSorted nodeCount rowPtr (sortBySource edges)).validate = .ok () := by
      rw [CsrGraph.validate_eq_ok_iff]
      refine ⟨?_, ?_, ?_, ?_, ?_, ?_, ?_, ?_⟩
      · simp only [csrOfSorted, hoffsets, Segments.length_offsets, Segments.length_tally]
      · simp only [csrOfSorted, hoffsets, Segments.headD_offsets]
      · simp only [csrOfSorted, hoffsets]
        exact Segments.pairwise_offsets _ _
      · simp only [csrOfSorted, hoffsets, hlast, List.length_map]
        exact (perm_sortBySource edges).length_eq.symm
      · simp only [csrOfSorted, List.length_map]
      · simp only [csrOfSorted, List.length_map]
      · simp only [csrOfSorted, List.length_map]
      · intro col hcol
        obtain ⟨e, he, rfl⟩ := List.mem_map.mp hcol
        exact htarget e ((perm_sortBySource edges).mem_iff.mp he)
    refine ⟨csrOfSorted nodeCount rowPtr (sortBySource edges), ?_⟩
    rw [buildCsrFromEdges, if_neg hcount]
    have hrow : rowPtrFrom 0 (Segments.tally nodeCount
        ((sortBySource edges).map fun e => e.source.index)) = some rowPtr := hrowPtr
    simp only [hrow, hvalid]

section Compact

def csrLog (st : EdgeStore) : List DeltaEdge :=
  ((List.range st.csrNodeCount).flatMap (snapshotRow st)).map MergedEdge.toDelta

def compactionLog (st : EdgeStore) : List DeltaEdge := csrLog st ++ st.delta.iter

variable {st : EdgeStore}

theorem mem_csrLog {d : DeltaEdge} :
    d ∈ csrLog st ↔ ∃ i, ∃ r ∈ st.liveRow i,
      d = ⟨⟨i, 0⟩, r.target, r.kind, r.seq, .add, 0, r.spans⟩ := by
  rw [csrLog, List.mem_map]
  constructor
  · intro ⟨e, he, hd⟩
    obtain ⟨i, -, hrow⟩ := List.mem_flatMap.mp he
    obtain ⟨r, hr, rfl⟩ := List.mem_map.mp hrow
    exact ⟨i, r, hr, hd.symm⟩
  · intro ⟨i, r, hr, hd⟩
    have hrow := (EdgeStore.mem_liveRow.mp hr).1
    have hi : i < st.csrNodeCount := Nat.lt_of_not_le fun hle => by
      rw [EdgeStore.csrEdgesOf_of_le hle] at hrow
      cases hrow
    refine ⟨_, List.mem_flatMap.mpr ⟨i, List.mem_range.mpr hi, List.mem_map.mpr ⟨r, hr, rfl⟩⟩,
      hd.symm⟩

def compactedEdges (st : EdgeStore) : List MergedEdge := (mergeDeltaEdges (compactionLog st)).1

def Covers (st : EdgeStore) (nodeCount : Nat) : Prop :=
  ∀ d ∈ compactionLog st, d.source.index < nodeCount ∧ d.target.index < nodeCount

structure Compacted (st st' : EdgeStore) : Prop where
  rows : ∀ i, ((st'.csrEdgesOf i).map EdgeRef.entry).Perm
    (((compactedEdges st).filter fun e => e.source.index = i).map MergedEdge.entry)
  not_tombstoned : ∀ i, st'.isEdgeTombstoned i = false
  delta_eq : st'.delta = st.delta.clear

theorem isEdgeTombstoned_swapCsr (st : EdgeStore) (g : CsrGraph) (i : Nat) :
    (st.swapCsr g).isEdgeTombstoned i = false := by
  show (List.replicate g.edgeCount false).getD i false = false
  rw [List.getD_eq_getElem?_getD, List.getElem?_replicate]
  split <;> rfl

theorem exists_op_of_mem_compactedEdges {e : MergedEdge} (he : e ∈ compactedEdges st)
    : ∃ d ∈ compactionLog st, d.edgeKey = e.edgeKey := by
  have hverdict : e.verdict ∈ (mergeDeltaEdges (compactionLog st)).1.map MergedEdge.verdict :=
    List.mem_map_of_mem he
  obtain ⟨w, hlatest, -, -⟩ := mem_merged_verdicts.mp hverdict
  obtain ⟨hmem, hkey, -⟩ := latest_spec hlatest
  exact ⟨w, hmem, hkey⟩

theorem compact_spec {st st' : EdgeStore} {nodeCount : Nat} {direction : Direction}
    (hcovers : Covers st nodeCount) (h : st.compact nodeCount direction = some st') :
    Compacted st st' := by
  rw [EdgeStore.compact] at h
  split at h
  · cases h
  · rename_i s hs
    split at h
    · rename_i g stats hbuild
      cases h
      rw [snapshotEdges] at hs
      split at hs
      · cases hs
      · cases hs
        rw [buildCompactedCsr] at hbuild
        refine ⟨?_, isEdgeTombstoned_swapCsr st g, rfl⟩
        split at hbuild
        · rename_i hzero
          cases hbuild
          intro i
          have hempty : compactedEdges st = [] := by
            rw [List.eq_nil_iff_forall_not_mem]
            intro e he
            obtain ⟨d, hd, -⟩ := exists_op_of_mem_compactedEdges he
            have hlt := (hcovers d hd).1
            rw [show nodeCount = 0 from hzero] at hlt
            exact Nat.not_lt_zero _ hlt
          have hrow : ((st.swapCsr (CsrGraph.empty 0)).clearDelta).csrEdgesOf i = [] := rfl
          rw [hempty, hrow]
          exact List.Perm.refl _
        · rename_i hcount
          simp only [] at hbuild
          split at hbuild
          · cases hbuild
          · cases hbuild
          · rename_i csr hcsr
            cases hbuild
            exact (buildCsrFromEdges_spec hcount hcsr).1
    · cases h

theorem length_compactedEdges_le (st : EdgeStore) :
    (compactedEdges st).length ≤ (compactionLog st).length := by
  have hsubset : (compactedEdges st).map MergedEdge.edgeKey ⊆
      (compactionLog st).map DeltaEdge.edgeKey := by
    intro key hkey
    obtain ⟨e, he, rfl⟩ := List.mem_map.mp hkey
    obtain ⟨d, hd, heq⟩ := exists_op_of_mem_compactedEdges he
    exact List.mem_map.mpr ⟨d, hd, heq⟩
  have hle := (List.subperm_of_subset (nodup_merged_keys (compactionLog st)) hsubset).length_le
  rw [List.length_map, List.length_map] at hle
  exact hle

structure Compactable (st : EdgeStore) (nodeCount : Nat) : Prop where
  covers : Covers st nodeCount
  targets_valid : ∀ d ∈ compactionLog st, d.target.index < u32Max
  rows_fit : st.csrNodeCount ≤ u32Max + 1
  edges_fit : (compactionLog st).length ≤ u32Max

theorem exists_compact {nodeCount : Nat} (h : Compactable st nodeCount) (direction : Direction)
    : ∃ st', st.compact nodeCount direction = some st' := by
  have hindex : ∀ e ∈ compactedEdges st, e.source.index < nodeCount ∧
      e.target.index < CsrGraph.nodeCountU32 nodeCount := by
    intro e he
    obtain ⟨d, hd, hkey⟩ := exists_op_of_mem_compactedEdges he
    have hsource : d.source = e.source := congrArg EdgeKey.source hkey
    have htarget : d.target = e.target := congrArg EdgeKey.target hkey
    have hcovers := h.covers d hd
    have hvalid := h.targets_valid d hd
    rw [hsource, htarget] at hcovers
    rw [htarget] at hvalid
    refine ⟨hcovers.1, ?_⟩
    rw [CsrGraph.nodeCountU32]
    split
    · exact hcovers.2
    · exact hvalid
  rw [EdgeStore.compact, snapshotEdges, if_neg (Nat.not_lt_of_le h.rows_fit)]
  simp only [buildCompactedCsr]
  by_cases hcount : nodeCount = 0
  · rw [if_pos hcount]
    exact ⟨_, rfl⟩
  · rw [if_neg hcount]
    obtain ⟨g, hg⟩ := exists_buildCsrFromEdges (fun e he => (hindex e he).1)
      (fun e he => (hindex e he).2) (Nat.le_trans (length_compactedEdges_le st) h.edges_fit)
    have hbuild : buildCsrFromEdges (mergeDeltaEdges (CompactionSnapshot.allDeltaEdges
        ⟨(List.range st.csrNodeCount).flatMap (snapshotRow st), st.delta.iter, nodeCount,
          st.csrVersion⟩)).1 nodeCount = some (.ok g) := hg
    simp only [hbuild]
    exact ⟨_, rfl⟩

theorem latest_compactionLog (hgen : ∀ d ∈ st.delta.iter, 1 ≤ d.source.generation) (key : EdgeKey) :
    latest (compactionLog st) key =
      if key.source.generation = 0 then latest (csrLog st) key else latest st.delta.iter key := by
  by_cases hzero : key.source.generation = 0
  · rw [if_pos hzero]
    apply LastWriter.winner_append_left_of_ne
    intro d hd heq
    have hsource : d.source = key.source := congrArg EdgeKey.source heq
    have hpos := hgen d hd
    rw [hsource, hzero] at hpos
    exact Nat.not_succ_le_zero 0 hpos
  · rw [if_neg hzero]
    apply LastWriter.winner_append_of_ne
    intro d hd heq
    obtain ⟨i, r, -, rfl⟩ := mem_csrLog.mp hd
    exact hzero (congrArg (fun k : EdgeKey => k.source.generation) heq).symm

end Compact

end Sqry
