import Sqry.Compaction.MergeSpec

/-!
The interruptible merge. A large log is cut into chunks, every chunk is reduced to the
operations that decide its keys, and the deciding operations of all chunks are merged. No
key is decided differently and no count changes, but the spans of an addition that does not
decide its key within its chunk are lost.
-/

namespace Sqry

open SortedGroups (sortBy byKeyThenSeq heads)

structure InterruptibleConfig where
  chunkSize : Nat
  checkCancellation : Bool

structure CompactionProgress where
  totalEdges : Nat
  edgesProcessed : Nat
  currentChunk : Nat
  totalChunks : Nat
  deriving DecidableEq, Repr

/-- `CompactionError::Interrupted` for a requested cancellation. -/
structure Interrupted where
  edgesProcessed : Nat
  edgesTotal : Nat
  deriving DecidableEq, Repr

structure InterruptibleResult where
  mergedEdges : List MergedEdge
  mergeStats : MergeStats
  chunksProcessed : Nat
  wasCancelled : Bool
  deriving DecidableEq, Repr

def chunks (size : Nat) : List DeltaEdge → List (List DeltaEdge)
  | [] => []
  | e :: edges => (e :: edges.take (size - 1)) :: chunks size (edges.drop (size - 1))
termination_by edges => edges.length
decreasing_by
  rw [List.length_drop, List.length_cons]
  omega

def compareKeyTexts (a b : EdgeKey) : Ordering :=
  match compareNodeIds a.source b.source with
  | .eq =>
    match compareNodeIds a.target b.target with
    | .eq => compare a.kind.debug b.kind.debug
    | other => other
  | other => other

def dedupeChunkPreservingOps (edges : List DeltaEdge) : List DeltaEdge :=
  if edges.isEmpty then []
  else
    heads DeltaEdge.edgeKey
      (sortBy (byKeyThenSeq compareKeyTexts DeltaEdge.edgeKey DeltaEdge.seq) edges)

def mergeWinnersGlobal (allWinners : List DeltaEdge) : List MergedEdge × MergeStats :=
  mergeDeltaEdges allWinners

structure ChunkLoop where
  allWinners : List DeltaEdge
  edgesProcessed : Nat
  chunkDedupCount : Nat
  yielded : List CompactionProgress

def ChunkLoop.next (st : ChunkLoop) (totalEdges totalChunks chunkIdx : Nat)
    (chunk : List DeltaEdge) : ChunkLoop :=
  let chunkWinners := dedupeChunkPreservingOps chunk
  { allWinners := st.allWinners ++ chunkWinners
    edgesProcessed := st.edgesProcessed + chunk.length
    chunkDedupCount := st.chunkDedupCount + (chunk.length - chunkWinners.length)
    yielded := st.yielded ++
      [⟨totalEdges, st.edgesProcessed + chunk.length, chunkIdx + 1, totalChunks⟩] }

/-- The loop, and whether it ran through; `isCancelled n` is what the token says when it is
read for the `n`-th time. -/
def processChunks (isCancelled : Nat → Bool) (config : InterruptibleConfig)
    (totalEdges totalChunks : Nat) : Nat → ChunkLoop → List (List DeltaEdge) → ChunkLoop × Bool
  | _, st, [] => (st, true)
  | chunkIdx, st, chunk :: rest =>
    if config.checkCancellation && isCancelled (chunkIdx + 1) then (st, false)
    else
      processChunks isCancelled config totalEdges totalChunks (chunkIdx + 1)
        (st.next totalEdges totalChunks chunkIdx chunk) rest

/-- What was passed to `on_yield`, and the result; `none` when the number of chunks of size
zero is computed. -/
def compactInterruptible (snapshot : CompactionSnapshot) (isCancelled : Nat → Bool)
    (config : InterruptibleConfig) :
    Option (List CompactionProgress × Except Interrupted InterruptibleResult) :=
  let totalEdges := snapshot.deltaEdges.length
  let totalChunks :=
    if totalEdges = 0 then 0 else (totalEdges + config.chunkSize - 1) / config.chunkSize
  if totalEdges ≠ 0 ∧ config.chunkSize = 0 then none
  else if config.checkCancellation && isCancelled 0 then some ([], .error ⟨0, totalEdges⟩)
  else if totalEdges ≤ config.chunkSize then
    let (mergedEdges, mergeStats) := mergeDeltaEdges snapshot.deltaEdges
    some ([⟨totalEdges, totalEdges, 1, max 1 totalChunks⟩],
      .ok ⟨mergedEdges, mergeStats, 1, false⟩)
  else
    let cut := chunks config.chunkSize snapshot.deltaEdges
    let (st, complete) :=
      processChunks isCancelled config totalEdges totalChunks 0 ⟨[], 0, 0, []⟩ cut
    if !complete || (config.checkCancellation && isCancelled (cut.length + 1)) then
      some (st.yielded, .error ⟨st.edgesProcessed, totalEdges⟩)
    else
      let (finalMerged, finalStats) := mergeWinnersGlobal st.allWinners
      some (st.yielded, .ok ⟨finalMerged, ⟨totalEdges, finalStats.outputCount,
        st.chunkDedupCount + finalStats.deduplicatedCount, finalStats.removedCount⟩,
        totalChunks, false⟩)

section Chunks

theorem flatten_chunks (size : Nat) (edges : List DeltaEdge) :
    (chunks size edges).flatten = edges := by
  induction edges using chunks.induct size with
  | case1 => rw [chunks]; rfl
  | case2 e edges ih =>
    rw [chunks, List.flatten_cons, ih, List.cons_append, List.take_append_drop]

theorem compareKeyTexts_eq :
    compareKeyTexts = compareLex (onField compareNodeIds EdgeKey.source)
      (compareLex (onField compareNodeIds EdgeKey.target)
        (onField (compareOn EdgeKind.debug) EdgeKey.kind)) := by
  funext a b
  rw [compareKeyTexts, compareLex, compareLex, onField, onField, onField]
  cases compareNodeIds a.source b.source with
  | lt => rfl
  | gt => rfl
  | eq => cases compareNodeIds a.target b.target <;> rfl

instance : Std.TransCmp compareKeyTexts := by
  rw [compareKeyTexts_eq]
  infer_instance

instance : Std.LawfulEqCmp compareKeyTexts where
  compare_self := Std.ReflCmp.compare_self
  eq_of_compare := by
    intro a b h
    rw [compareKeyTexts_eq, compareLex_eq_eq, compareLex_eq_eq] at h
    have hsource : a.source = b.source := Std.LawfulEqCmp.eq_of_compare h.1
    have htarget : a.target = b.target := Std.LawfulEqCmp.eq_of_compare h.2.1
    have htext : a.kind.debug = b.kind.debug := Std.LawfulEqCmp.eq_of_compare h.2.2
    have hkind := EdgeKind.debug_injective htext
    cases a
    cases b
    cases hsource
    cases htarget
    cases hkind
    rfl

theorem mem_dedupeChunk (chunk : List DeltaEdge) :
    ((dedupeChunkPreservingOps chunk).map DeltaEdge.edgeKey).Nodup ∧
      ∀ w, w ∈ dedupeChunkPreservingOps chunk ↔ latest chunk w.edgeKey = some w := by
  rw [dedupeChunkPreservingOps]
  cases chunk with
  | nil => exact ⟨List.nodup_nil, fun w => ⟨fun h => (by cases h), fun h => by cases h⟩⟩
  | cons e chunk => exact SortedGroups.mem_heads_sortBy (e :: chunk)

theorem length_dedupeChunk_le (chunk : List DeltaEdge) :
    (dedupeChunkPreservingOps chunk).length ≤ chunk.length := by
  rw [dedupeChunkPreservingOps]
  split
  · exact Nat.zero_le _
  · refine (SortedGroups.heads_sublist _).length_le.trans_eq ?_
    exact (SortedGroups.perm_sortBy _ _).length_eq

end Chunks
section Winners

def chunkWinners (size : Nat) (edges : List DeltaEdge) : List DeltaEdge :=
  (chunks size edges).flatMap dedupeChunkPreservingOps

def DecidesInChunk (size : Nat) (edges : List DeltaEdge) (w : DeltaEdge) : Prop :=
  ∃ chunk ∈ chunks size edges, latest chunk w.edgeKey = some w

variable {edges : List DeltaEdge} {size : Nat}

theorem mem_chunkWinners {w : DeltaEdge} :
    w ∈ chunkWinners size edges ↔ DecidesInChunk size edges w := by
  rw [chunkWinners, List.mem_flatMap]
  constructor
  · intro ⟨chunk, hchunk, hw⟩
    exact ⟨chunk, hchunk, ((mem_dedupeChunk chunk).2 w).mp hw⟩
  · intro ⟨chunk, hchunk, hw⟩
    exact ⟨chunk, hchunk, ((mem_dedupeChunk chunk).2 w).mpr hw⟩

theorem mem_of_mem_chunk {edges chunk : List DeltaEdge} {e : DeltaEdge}
    (hchunk : chunk ∈ chunks size edges) (he : e ∈ chunk) : e ∈ edges := by
  rw [← flatten_chunks size edges]
  exact List.mem_flatten_of_mem hchunk he

theorem mem_of_decidesInChunk {w : DeltaEdge} (h : DecidesInChunk size edges w) : w ∈ edges := by
  obtain ⟨chunk, hchunk, hw⟩ := h
  exact mem_of_mem_chunk hchunk (latest_spec hw).1

theorem exists_decidesInChunk (size : Nat) {e : DeltaEdge} (he : e ∈ edges) :
    ∃ d, DecidesInChunk size edges d ∧ d.edgeKey = e.edgeKey ∧ e.seq ≤ d.seq := by
  rw [← flatten_chunks size edges] at he
  obtain ⟨chunk, hchunk, hmem⟩ := List.mem_flatten.mp he
  obtain ⟨d, hd⟩ := exists_latest hmem
  obtain ⟨-, hkey, hmax⟩ := latest_spec hd
  refine ⟨d, ⟨chunk, hchunk, ?_⟩, hkey, hmax e hmem rfl⟩
  rw [hkey]
  exact hd

theorem latest_chunkWinners (h : DistinctSeqs edges) (size : Nat) (key : EdgeKey)
    : latest (chunkWinners size edges) key = latest edges key := by
  cases hv : latest (chunkWinners size edges) key with
  | none =>
    apply Eq.symm
    rw [latest_eq_none_iff] at hv ⊢
    intro e he hkey
    obtain ⟨d, hd, hdkey, -⟩ := exists_decidesInChunk size he
    exact hv d (mem_chunkWinners.mpr hd) (hdkey.trans hkey)
  | some v =>
    obtain ⟨hmem, hkey, hmax⟩ := latest_spec hv
    have hvmem := mem_of_decidesInChunk (mem_chunkWinners.mp hmem)
    apply Eq.symm
    refine (latest_eq_some_iff h).mpr ⟨⟨hvmem, fun e he hek => ?_⟩, hkey⟩
    obtain ⟨d, hd, hdkey, hle⟩ := exists_decidesInChunk size he
    exact Nat.le_trans hle (hmax d (mem_chunkWinners.mpr hd) (hdkey.trans (hek.trans hkey)))

theorem keyCount_chunkWinners (size : Nat) (edges : List DeltaEdge) :
    keyCount (chunkWinners size edges) = keyCount edges := by
  refine keyCount_congr fun key => ?_
  constructor
  · intro ⟨w, hw, hkey⟩
    exact ⟨w, mem_of_decidesInChunk (mem_chunkWinners.mp hw), hkey⟩
  · intro ⟨e, he, hkey⟩
    obtain ⟨d, hd, hdkey, -⟩ := exists_decidesInChunk size he
    exact ⟨d, mem_chunkWinners.mpr hd, hdkey.trans hkey⟩

/-- Every span of an addition to a key that an addition decides is also a span of an addition
that decides the key within its chunk. -/
def SpansKept (size : Nat) (edges : List DeltaEdge) : Prop :=
  ∀ w, latest edges w.edgeKey = some w → w.op = .add →
    ∀ e ∈ edges, e.edgeKey = w.edgeKey → e.op = .add → ∀ s ∈ e.spans,
      ∃ d, DecidesInChunk size edges d ∧ d.edgeKey = w.edgeKey ∧ d.op = .add ∧ s ∈ d.spans

theorem spans_chunkWinners_iff {key : EdgeKey} :
    accumulateAndDeduplicateSpans (opsOn (chunkWinners size edges) key) =
        accumulateAndDeduplicateSpans (opsOn edges key) ↔
      ∀ e ∈ edges, e.edgeKey = key → e.op = .add → ∀ s ∈ e.spans,
        ∃ d, DecidesInChunk size edges d ∧ d.edgeKey = key ∧ d.op = .add ∧ s ∈ d.spans := by
  rw [accumulate_eq_iff]
  constructor
  · intro h e he hkey hadd s hs
    obtain ⟨d, hd, hdadd, hds⟩ := (h s).mpr ⟨e, mem_opsOn.mpr ⟨he, hkey⟩, hadd, hs⟩
    obtain ⟨hdmem, hdkey⟩ := mem_opsOn.mp hd
    exact ⟨d, mem_chunkWinners.mp hdmem, hdkey, hdadd, hds⟩
  · intro h s
    constructor
    · intro ⟨d, hd, hadd, hs⟩
      obtain ⟨hdmem, hdkey⟩ := mem_opsOn.mp hd
      have hmem := mem_of_decidesInChunk (mem_chunkWinners.mp hdmem)
      exact ⟨d, mem_opsOn.mpr ⟨hmem, hdkey⟩, hadd, hs⟩
    · intro ⟨e, he, hadd, hs⟩
      obtain ⟨hmem, hkey⟩ := mem_opsOn.mp he
      obtain ⟨d, hd, hdkey, hdadd, hds⟩ := h e hmem hkey hadd s hs
      exact ⟨d, mem_opsOn.mpr ⟨mem_chunkWinners.mpr hd, hdkey⟩, hdadd, hds⟩

theorem merged_chunkWinners_iff (h : DistinctSeqs edges) (size : Nat) :
    (mergeDeltaEdges (chunkWinners size edges)).1 = (mergeDeltaEdges edges).1 ↔
      SpansKept size edges := by
  rw [merged_eq_iff]
  constructor
  · intro hout w hlatest hadd
    have hleft := outcome_eq_some_iff.mpr
      ⟨w, (latest_chunkWinners h size _).trans hlatest, hadd, rfl⟩
    have hright := outcome_eq_some_iff.mpr ⟨w, hlatest, hadd, rfl⟩
    rw [hout, hright] at hleft
    exact spans_chunkWinners_iff.mp (congrArg MergedEdge.spans (Option.some.inj hleft)).symm
  · intro hkept key
    refine Option.ext fun m => ?_
    rw [outcome_eq_some_iff, outcome_eq_some_iff, latest_chunkWinners h]
    refine exists_congr fun w => and_congr_right fun hlatest => and_congr_right fun hadd => ?_
    have hkey : w.edgeKey = key := (latest_spec hlatest).2.1
    subst hkey
    rw [spans_chunkWinners_iff.mpr (hkept w hlatest hadd)]

theorem mem_mergedKeys {key : EdgeKey} :
    key ∈ (mergeDeltaEdges edges).1.map MergedEdge.edgeKey ↔
      ∃ w, latest edges key = some w ∧ w.op = .add := by
  rw [List.mem_map]
  constructor
  · intro ⟨m, hm, hkey⟩
    obtain ⟨w, hlatest, hadd, -⟩ := outcome_eq_some_iff.mp (mem_merged_iff.mp hm)
    rw [hkey] at hlatest
    exact ⟨w, hlatest, hadd⟩
  · intro ⟨w, hlatest, hadd⟩
    have hout := outcome_eq_some_iff.mpr ⟨w, hlatest, hadd, rfl⟩
    have hkey := edgeKey_outcome hout
    refine ⟨_, mem_merged_iff.mpr ?_, hkey⟩
    rw [hkey]
    exact hout

theorem length_merged_chunkWinners (h : DistinctSeqs edges) (size : Nat) :
    (mergeDeltaEdges (chunkWinners size edges)).1.length = (mergeDeltaEdges edges).1.length := by
  have hperm : ((mergeDeltaEdges (chunkWinners size edges)).1.map MergedEdge.edgeKey).Perm
      ((mergeDeltaEdges edges).1.map MergedEdge.edgeKey) := by
    refine (List.perm_ext_iff_of_nodup (nodup_merged_keys _) (nodup_merged_keys _)).mpr
      fun key => ?_
    rw [mem_mergedKeys, mem_mergedKeys, latest_chunkWinners h]
  have hlen := hperm.length_eq
  rw [List.length_map, List.length_map] at hlen
  exact hlen

end Winners

section OneShot
variable {isCancelled : Nat → Bool} {config : InterruptibleConfig}

theorem processChunks_complete (hnot : ∀ n, (config.checkCancellation && isCancelled n) = false)
    (totalEdges totalChunks : Nat) (cut : List (List DeltaEdge)) (chunkIdx : Nat)
    (st : ChunkLoop) :
    ∃ st', processChunks isCancelled config totalEdges totalChunks chunkIdx st cut = (st', true) ∧
      st'.allWinners = st.allWinners ++ cut.flatMap dedupeChunkPreservingOps ∧
      st'.chunkDedupCount + (cut.flatMap dedupeChunkPreservingOps).length =
        st.chunkDedupCount + cut.flatten.length := by
  induction cut generalizing chunkIdx st with
  | nil => exact ⟨st, rfl, (List.append_nil _).symm, rfl⟩
  | cons chunk rest ih =>
    obtain ⟨st', hrun, hwinners, hcount⟩ :=
      ih (chunkIdx + 1) (st.next totalEdges totalChunks chunkIdx chunk)
    refine ⟨st', ?_, ?_, ?_⟩
    · rw [processChunks, hnot]
      exact hrun
    · rw [hwinners, ChunkLoop.next, List.flatMap_cons, List.append_assoc]
    · have hle := length_dedupeChunk_le chunk
      rw [ChunkLoop.next] at hcount
      simp only [List.flatMap_cons, List.flatten_cons, List.length_append] at hcount ⊢
      omega

theorem compactInterruptible_chunked {snapshot : CompactionSnapshot}
    (hseq : DistinctSeqs snapshot.deltaEdges)
    (hnot : ∀ n, (config.checkCancellation && isCancelled n) = false)
    (hsize : 1 ≤ config.chunkSize) (hlarge : config.chunkSize < snapshot.deltaEdges.length) :
    ∃ yielded r, compactInterruptible snapshot isCancelled config = some (yielded, .ok r) ∧
      r.mergedEdges = (mergeDeltaEdges (chunkWinners config.chunkSize snapshot.deltaEdges)).1 ∧
      r.mergeStats = (mergeDeltaEdges snapshot.deltaEdges).2 := by
  obtain ⟨st, hrun, hwinners, hcount⟩ := processChunks_complete hnot snapshot.deltaEdges.length
    (if snapshot.deltaEdges.length = 0 then 0
      else (snapshot.deltaEdges.length + config.chunkSize - 1) / config.chunkSize)
    (chunks config.chunkSize snapshot.deltaEdges) 0 ⟨[], 0, 0, []⟩
  rw [List.nil_append] at hwinners
  rw [flatten_chunks, Nat.zero_add] at hcount
  have hpanic : ¬ (snapshot.deltaEdges.length ≠ 0 ∧ config.chunkSize = 0) := by omega
  rw [compactInterruptible]
  simp only [if_neg hpanic, hnot, Bool.false_eq_true, if_false, if_neg (Nat.not_le_of_lt hlarge),
    hrun, Bool.not_true, Bool.or_self]
  refine ⟨_, _, rfl, ?_, ?_⟩
  · rw [mergeWinnersGlobal, hwinners, chunkWinners]
  · have hkeys := keyCount_chunkWinners config.chunkSize snapshot.deltaEdges
    have hlen := length_merged_chunkWinners hseq config.chunkSize
    have hle := keyCount_le (chunkWinners config.chunkSize snapshot.deltaEdges)
    rw [hkeys, chunkWinners] at hle
    rw [chunkWinners] at hkeys hlen
    rw [mergeWinnersGlobal, hwinners, stats_mergeDeltaEdges, stats_mergeDeltaEdges, hlen, hkeys]
    show MergeStats.mk _ _ _ _ = MergeStats.mk _ _ _ _
    congr 1
    show st.chunkDedupCount + (_ - _) = _ - _
    omega

/-- Cutting into chunks changes nothing exactly when no span is lost with an addition that
does not decide its key within its chunk. -/
theorem compact_interruptible_eq_one_shot_iff {snapshot : CompactionSnapshot}
    (hseq : DistinctSeqs snapshot.deltaEdges) (hsize : 1 ≤ config.chunkSize)
    (hnot : ∀ n, (config.checkCancellation && isCancelled n) = false) :
    (∃ yielded r, compactInterruptible snapshot isCancelled config = some (yielded, .ok r) ∧
        (r.mergedEdges, r.mergeStats) = mergeDeltaEdges snapshot.deltaEdges) ↔
      snapshot.deltaEdges.length ≤ config.chunkSize ∨
        SpansKept config.chunkSize snapshot.deltaEdges := by
  by_cases hsmall : snapshot.deltaEdges.length ≤ config.chunkSize
  · refine ⟨fun _ => Or.inl hsmall, fun _ => ?_⟩
    have hpanic : ¬ (snapshot.deltaEdges.length ≠ 0 ∧ config.chunkSize = 0) := by omega
    rw [compactInterruptible]
    simp only [if_neg hpanic, hnot, Bool.false_eq_true, if_false, if_pos hsmall]
    exact ⟨_, _, rfl, rfl⟩
  · obtain ⟨yielded, r, hr, hmerged, hstats⟩ :=
      compactInterruptible_chunked hseq hnot hsize (Nat.lt_of_not_le hsmall)
    constructor
    · intro ⟨yielded', r', hr', heq⟩
      rw [hr] at hr'
      cases hr'
      refine Or.inr ((merged_chunkWinners_iff hseq _).mp ?_)
      rw [← hmerged]
      exact congrArg Prod.fst heq
    · intro h
      cases h with
      | inl hle => exact absurd hle hsmall
      | inr hkept =>
        refine ⟨yielded, r, hr, Prod.ext ?_ hstats⟩
        exact hmerged.trans ((merged_chunkWinners_iff hseq _).mpr hkept)

def twoCallSites : CompactionSnapshot :=
  ⟨[], [⟨⟨0, 1⟩, ⟨1, 1⟩, .references, 1, .add, 0, [⟨⟨1, 0⟩, ⟨1, 5⟩⟩]⟩,
    ⟨⟨0, 1⟩, ⟨1, 1⟩, .references, 2, .add, 0, [⟨⟨2, 0⟩, ⟨2, 5⟩⟩]⟩,
    ⟨⟨0, 1⟩, ⟨2, 1⟩, .references, 3, .add, 0, []⟩], 3, 0⟩

theorem compact_interruptible_eq_one_shot_small :
    ∃ yielded r, compactInterruptible twoCallSites (fun _ => false) ⟨3, true⟩ =
        some (yielded, .ok r) ∧
      (r.mergedEdges, r.mergeStats) = mergeDeltaEdges twoCallSites.deltaEdges :=
  (compact_interruptible_eq_one_shot_iff (by decide) (by decide) fun _ => rfl).mpr
    (Or.inl (by decide))

theorem compact_interruptible_loses_span :
    DistinctSeqs twoCallSites.deltaEdges ∧
      ∃ yielded r, compactInterruptible twoCallSites (fun _ => false) ⟨2, true⟩ =
          some (yielded, .ok r) ∧
        r.mergedEdges.map MergedEdge.spans = [[⟨⟨2, 0⟩, ⟨2, 5⟩⟩], []] ∧
        (mergeDeltaEdges twoCallSites.deltaEdges).1.map MergedEdge.spans =
          [[⟨⟨1, 0⟩, ⟨1, 5⟩⟩, ⟨⟨2, 0⟩, ⟨2, 5⟩⟩], []] := by
  have hrun : ∃ yielded r, compactInterruptible twoCallSites (fun _ => false) ⟨2, true⟩ =
      some (yielded, .ok r) ∧
        r.mergedEdges = (mergeDeltaEdges (chunkWinners 2 twoCallSites.deltaEdges)).1 ∧
        r.mergeStats = (mergeDeltaEdges twoCallSites.deltaEdges).2 :=
    compactInterruptible_chunked (by decide) (fun _ => rfl) (by decide) (by decide)
  obtain ⟨yielded, r, hr, hmerged, -⟩ := hrun
  have hcut : chunks 2 twoCallSites.deltaEdges =
      [twoCallSites.deltaEdges.take 2, twoCallSites.deltaEdges.drop 2] := by
    rw [twoCallSites, chunks, List.drop, List.drop, chunks, List.drop_nil, chunks]
    rfl
  refine ⟨by decide, yielded, r, hr, ?_, by decide +kernel⟩
  rw [hmerged, chunkWinners, hcut]
  decide +kernel

end OneShot
end Sqry
