import Sqry.Compaction.Swap

/-!
Whether a swap can lose an update. Between the snapshot and the swap the writers of both
stores may run. The fingerprint of a store gives them away when one of them moved a
sequence counter, and also when the buffer of each store was only filled or only emptied.
Committing edges whose numbers the counter has passed, and clearing as many others, is
what it misses.
-/

namespace Sqry

open StepSystem (run RunOk)

inductive BiUpdate where
  | addEdgeWithSpans (source target : NodeId) (kind : EdgeKind) (file : FileId)
      (spans : List Span)
  | removeEdge (source target : NodeId) (kind : EdgeKind) (file : FileId)
  /-- `push_committed` on the forward store. -/
  | pushForward (edges : List DeltaEdge) (reservationBytes : Nat)
  /-- `push_committed` on the reverse store. -/
  | pushReverse (edges : List DeltaEdge) (reservationBytes : Nat)
  | clearFile (file : FileId)
  | tombstoneEdgesForNodes (dead : List NodeId)

namespace BiUpdate

def onForward : BiUpdate → StoreUpdate
  | addEdgeWithSpans source target kind file spans =>
    .addEdgeWithSpans source target kind file spans
  | removeEdge source target kind file => .removeEdge source target kind file
  | pushForward edges reservationBytes => .pushCommitted edges reservationBytes
  | pushReverse _ _ => .keep
  | clearFile file => .clearFile file
  | tombstoneEdgesForNodes dead => .tombstoneEdgesForNodes dead

def onReverse : BiUpdate → StoreUpdate
  | addEdgeWithSpans source target kind file spans =>
    .addEdgeWithSpans target source kind file spans
  | removeEdge source target kind file => .removeEdge target source kind file
  | pushForward _ _ => .keep
  | pushReverse edges reservationBytes => .pushCommitted edges reservationBytes
  | clearFile file => .clearFile file
  | tombstoneEdgesForNodes dead => .tombstoneEdgesForNodes dead

def Issues : BiUpdate → Prop
  | addEdgeWithSpans _ _ _ _ _ => True
  | removeEdge _ _ _ _ => True
  | _ => False

end BiUpdate

inductive BiOp where
  | update (u : BiUpdate)
  | addEdgesBulkOrdered (fileEdgeVecs : List (List DeltaEdge)) (expectedTotal : Nat)
  | clearDelta
  | compact (nodeCount : Nat)
  /-- The hash maps of the buffers list their files in another order. -/
  | relist (forward reverse : AList fun _ : FileId => List DeltaEdge)

namespace BidirectionalEdgeStore

def update (b : BidirectionalEdgeStore) : BiUpdate → BidirectionalEdgeStore
  | .addEdgeWithSpans source target kind file spans =>
    b.addEdgeWithSpans source target kind file spans
  | .removeEdge source target kind file => b.removeEdge source target kind file
  | .pushForward edges reservationBytes =>
    { b with forward := (b.forward.pushCommitted edges reservationBytes).1 }
  | .pushReverse edges reservationBytes =>
    { b with reverse := (b.reverse.pushCommitted edges reservationBytes).1 }
  | .clearFile file => (b.clearFile file).1
  | .tombstoneEdgesForNodes dead => (b.tombstoneEdgesForNodes dead).1

def updateStep (b : BidirectionalEdgeStore) (u : BiUpdate) : Option BidirectionalEdgeStore :=
  some (b.update u)

/-- Snapshots of both stores, both builds and `swap_csrs_and_clear_deltas`; `none` when a
build does not succeed. -/
def compact (b : BidirectionalEdgeStore) (nodeCount : Nat) : Option BidirectionalEdgeStore :=
  match snapshotEdges b.forward nodeCount, snapshotEdges b.reverse nodeCount with
  | some forward, some reverse =>
    match buildCompactedCsr forward .forward, buildCompactedCsr reverse .reverse with
    | some (.ok (forwardCsr, _)), some (.ok (reverseCsr, _)) =>
      some (b.swapCsrsAndClearDeltas forwardCsr reverseCsr)
    | _, _ => none
  | _, _ => none

def step (b : BidirectionalEdgeStore) : BiOp → Option BidirectionalEdgeStore
  | .update u => b.updateStep u
  | .addEdgesBulkOrdered fileEdgeVecs expectedTotal =>
    b.addEdgesBulkOrdered fileEdgeVecs expectedTotal
  | .clearDelta => some b.clearDelta
  | .compact nodeCount => b.compact nodeCount
  | .relist forward reverse =>
    if forward.entries.Perm b.forward.delta.edges.entries ∧
        reverse.entries.Perm b.reverse.delta.edges.entries then
      some ⟨b.forward.relist forward, b.reverse.relist reverse⟩
    else none

structure Sound (b : BidirectionalEdgeStore) : Prop where
  forward : b.forward.Sound
  reverse : b.reverse.Sound

section Sound

theorem forward_update (b : BidirectionalEdgeStore) (u : BiUpdate) :
    (b.update u).forward = b.forward.update u.onForward := by
  cases u with
  | tombstoneEdgesForNodes dead =>
    rw [update, tombstoneEdgesForNodes, BiUpdate.onForward, EdgeStore.update]
    cases hdead : dead.isEmpty with
    | true => exact (b.forward.tombstoneEdgesForNodes_nil hdead).symm
    | false => rfl
  | _ => rfl

theorem reverse_update (b : BidirectionalEdgeStore) (u : BiUpdate) :
    (b.update u).reverse = b.reverse.update u.onReverse := by
  cases u with
  | tombstoneEdgesForNodes dead =>
    rw [update, tombstoneEdgesForNodes, BiUpdate.onReverse, EdgeStore.update]
    cases hdead : dead.isEmpty with
    | true => exact (b.reverse.tombstoneEdgesForNodes_nil hdead).symm
    | false => rfl
  | _ => rfl

theorem forward_run {b b' : BidirectionalEdgeStore} {us : List BiUpdate}
    (h : run updateStep b us = some b') :
    run EdgeStore.updateStep b.forward (us.map BiUpdate.onForward) = some b'.forward := by
  refine StepSystem.run_map (fun b u b' hstep => ?_) h
  cases hstep
  exact congrArg some (b.forward_update u).symm

theorem reverse_run {b b' : BidirectionalEdgeStore} {us : List BiUpdate}
    (h : run updateStep b us = some b') :
    run EdgeStore.updateStep b.reverse (us.map BiUpdate.onReverse) = some b'.reverse := by
  refine StepSystem.run_map (fun b u b' hstep => ?_) h
  cases hstep
  exact congrArg some (b.reverse_update u).symm

end Sound

section Reachable

theorem sound_new : Sound new :=
  ⟨⟨DeltaBuffer.counted_new, Nat.zero_le _, Nat.zero_le _⟩,
    ⟨DeltaBuffer.counted_new, Nat.zero_le _, Nat.zero_le _⟩⟩

variable {b : BidirectionalEdgeStore}

theorem Sound.update (h : b.Sound) (u : BiUpdate) :
    (b.update u).Sound := by
  refine ⟨?_, ?_⟩
  · rw [forward_update]
    exact h.forward.update _
  · rw [reverse_update]
    exact h.reverse.update _

theorem Sound.pushBoth (h : b.Sound) (e : DeltaEdge) :
    (b.pushBoth e).Sound :=
  ⟨⟨h.forward.counted.push e, h.forward.version_le, h.forward.tombstones_le⟩,
    ⟨h.reverse.counted.push e.reversed, h.reverse.version_le, h.reverse.tombstones_le⟩⟩

theorem Sound.advanceSeqTo (h : b.Sound) (n : Nat) :
    (b.advanceSeqTo n).Sound :=
  ⟨⟨h.forward.counted.advanceSeqTo n, h.forward.version_le, h.forward.tombstones_le⟩,
    ⟨h.reverse.counted.advanceSeqTo n, h.reverse.version_le, h.reverse.tombstones_le⟩⟩

theorem foldlM_bulkPush {P : BidirectionalEdgeStore → Prop} {forwardSeq reverseSeq : Nat}
    {edges : List DeltaEdge} (hpush : ∀ b, ∀ e ∈ edges, P b → P (b.pushBoth e))
    {acc acc' : Option Nat × BidirectionalEdgeStore} (hacc : P acc.2)
    (h : edges.foldlM (bulkPush forwardSeq reverseSeq) acc = some acc') : P acc'.2 := by
  induction edges generalizing acc with
  | nil =>
    cases h
    exact hacc
  | cons e edges ih =>
    rw [List.foldlM_cons] at h
    obtain ⟨next, hnext, hrest⟩ := Option.bind_eq_some_iff.mp h
    rw [bulkPush] at hnext
    split at hnext
    · cases hnext
    · cases hnext
      exact ih (fun b d hd => hpush b d (List.mem_cons_of_mem e hd))
        (hpush _ e List.mem_cons_self hacc) hrest

theorem Sound.addEdgesBulkOrdered {b b' : BidirectionalEdgeStore} (h : b.Sound)
    {fileEdgeVecs : List (List DeltaEdge)} {expectedTotal : Nat}
    (hbulk : b.addEdgesBulkOrdered fileEdgeVecs expectedTotal = some b') : b'.Sound := by
  have hpush : ∀ c, ∀ e ∈ fileEdgeVecs.flatten, Sound c → Sound (c.pushBoth e) :=
    fun c e _ hc => hc.pushBoth e
  rw [BidirectionalEdgeStore.addEdgesBulkOrdered] at hbulk
  split at hbulk
  · cases hbulk
  · split at hbulk
    · cases hbulk
    · rename_i hfold
      cases hbulk
      exact foldlM_bulkPush hpush h hfold
    · rename_i hfold
      cases hbulk
      exact (foldlM_bulkPush hpush h hfold).advanceSeqTo _

theorem sound_swap {st : EdgeStore} {g : CsrGraph} (hg : g.edgeCount ≤ u32Max) :
    ((st.swapCsr g).clearDelta).Sound := by
  refine ⟨DeltaBuffer.Counted.clear, Nat.le_of_lt_succ (Nat.mod_lt _ (Nat.succ_pos _)), ?_⟩
  exact List.length_replicate.trans_le hg

theorem Sound.compact {b b' : BidirectionalEdgeStore} {nodeCount : Nat}
    (h : b.compact nodeCount = some b') : b'.Sound := by
  rw [BidirectionalEdgeStore.compact] at h
  split at h
  · split at h
    · rename_i hforward hreverse
      cases h
      exact ⟨sound_swap (edgeCount_le_of_buildCompactedCsr hforward),
        sound_swap (edgeCount_le_of_buildCompactedCsr hreverse)⟩
    · cases h
  · cases h

theorem sound_relist {st : EdgeStore} (h : st.Sound)
    {edges : AList fun _ : FileId => List DeltaEdge}
    (hperm : edges.entries.Perm st.delta.edges.entries) : (st.relist edges).Sound := by
  have hiter : (st.relist edges).delta.iter.Perm st.delta.iter := Buckets.all_perm hperm
  refine ⟨⟨?_, ?_, ?_⟩, h.version_le, h.tombstones_le⟩
  · rw [hiter.length_eq]
    exact h.counted.edgeCount_eq
  · rw [bytesOf_perm hiter]
    exact h.counted.byteSize_eq
  · intro f e he
    have hbucket : (st.relist edges).delta.edgesForFile f = st.delta.edgesForFile f :=
      Buckets.bucket_perm hperm f
    rw [hbucket] at he
    exact h.counted.file_eq f e he

theorem Sound.step {b b' : BidirectionalEdgeStore} (h : b.Sound) {op : BiOp}
    (hstep : b.step op = some b') : b'.Sound := by
  cases op with
  | update u =>
    cases hstep
    exact h.update u
  | addEdgesBulkOrdered fileEdgeVecs expectedTotal => exact h.addEdgesBulkOrdered hstep
  | clearDelta =>
    cases hstep
    exact ⟨⟨DeltaBuffer.Counted.clear, h.forward.version_le, h.forward.tombstones_le⟩,
      ⟨DeltaBuffer.Counted.clear, h.reverse.version_le, h.reverse.tombstones_le⟩⟩
  | compact nodeCount => exact Sound.compact hstep
  | relist forward reverse =>
    rw [BidirectionalEdgeStore.step] at hstep
    split at hstep
    · rename_i hperm
      cases hstep
      exact ⟨sound_relist h.forward hperm.1, sound_relist h.reverse hperm.2⟩
    · cases hstep

theorem sound_of_run {ops : List BiOp} (hrun : run step new ops = some b) : b.Sound :=
  StepSystem.invariant_of_run (fun _ _ _ h hstep => Sound.step h hstep) sound_new hrun

end Reachable

section Detection

def SameContents (b b' : BidirectionalEdgeStore) : Prop :=
  b.forward.SameContents b'.forward ∧ b.reverse.SameContents b'.reverse

def Raises (b : BidirectionalEdgeStore) (u : BiUpdate) : Prop :=
  b.forward.Raises u.onForward ∨ b.reverse.Raises u.onReverse

/-- The counters are `u64`: a call that issues a number finds them below the last one. -/
def NumberLeft (b : BidirectionalEdgeStore) (u : BiUpdate) : Prop :=
  u.Issues → b.forward.seqCounter < u64Max ∧ b.reverse.seqCounter < u64Max

/-- When the fingerprints tell: some call moves a sequence counter, or the buffer of each
store is only filled or only emptied. -/
structure Detectable (b : BidirectionalEdgeStore) (us : List BiUpdate) : Prop where
  numbers_left : RunOk updateStep NumberLeft b us
  told_apart : ¬ RunOk updateStep (fun b u => ¬ b.Raises u) b us ∨
    (b.forward.OneWay (us.map BiUpdate.onForward) ∧
      b.reverse.OneWay (us.map BiUpdate.onReverse))

theorem seqCounter_le_update (st : EdgeStore) (u : StoreUpdate) :
    st.seqCounter ≤ (st.update u).seqCounter := by
  by_cases h : st.Raises u
  · exact Nat.le_of_lt (EdgeStore.seqCounter_lt_update h)
  · exact (EdgeStore.seqCounter_update h).ge

def seqTotal (b : BidirectionalEdgeStore) : Nat := b.forward.seqCounter + b.reverse.seqCounter

theorem seqTotal_le_step {b b' : BidirectionalEdgeStore} {u : BiUpdate}
    (h : b.updateStep u = some b') : b.seqTotal ≤ b'.seqTotal := by
  cases h
  rw [seqTotal, seqTotal, forward_update, reverse_update]
  exact Nat.add_le_add (seqCounter_le_update _ _) (seqCounter_le_update _ _)

theorem seqTotal_lt_step {b b' : BidirectionalEdgeStore} {u : BiUpdate} (hraises : b.Raises u)
    (h : b.updateStep u = some b') : b.seqTotal < b'.seqTotal := by
  cases h
  rw [seqTotal, seqTotal, forward_update, reverse_update]
  cases hraises with
  | inl hf =>
    exact Nat.add_lt_add_of_lt_of_le (EdgeStore.seqCounter_lt_update hf)
      (seqCounter_le_update _ _)
  | inr hr =>
    exact Nat.add_lt_add_of_le_of_lt (seqCounter_le_update _ _)
      (EdgeStore.seqCounter_lt_update hr)

theorem forward_quiet {b : BidirectionalEdgeStore} {us : List BiUpdate}
    (h : RunOk updateStep (fun b u => ¬ b.Raises u) b us) :
    RunOk EdgeStore.updateStep (fun s u => ¬ s.Raises u) b.forward
      (us.map BiUpdate.onForward) := by
  induction us generalizing b with
  | nil => trivial
  | cons u us ih =>
    refine ⟨fun hraises => h.1 (.inl hraises), fun s hs => ?_⟩
    cases hs
    rw [← forward_update]
    exact ih (h.2 _ rfl)

theorem reverse_quiet {b : BidirectionalEdgeStore} {us : List BiUpdate}
    (h : RunOk updateStep (fun b u => ¬ b.Raises u) b us) :
    RunOk EdgeStore.updateStep (fun s u => ¬ s.Raises u) b.reverse
      (us.map BiUpdate.onReverse) := by
  induction us generalizing b with
  | nil => trivial
  | cons u us ih =>
    refine ⟨fun hraises => h.1 (.inr hraises), fun s hs => ?_⟩
    cases hs
    rw [← reverse_update]
    exact ih (h.2 _ rfl)

theorem sameContents_of_unchanged {b mid b' : BidirectionalEdgeStore} (hs : b.Sound)
    {us vs : List BiUpdate} (hok : b.Detectable (us ++ vs)) (hfirst : run updateStep b us = some mid)
    (hlast : run updateStep mid vs = some b') {counters : CounterCheckpoint}
    (hsame : (b.checkpoint counters).hasConcurrentModification
      b'.forward.csrVersion b'.forward.deltaCount b'.forward.seqCounter
      b'.reverse.csrVersion b'.reverse.deltaCount b'.reverse.seqCounter = false) :
    b.SameContents mid := by
  obtain ⟨hf, hr⟩ := Bool.or_eq_false_iff.mp hsame
  obtain ⟨hfversion, hfcount, hfseq⟩ := hasChanged_checkpoint_eq_false_iff.mp hf
  obtain ⟨hrversion, hrcount, hrseq⟩ := hasChanged_checkpoint_eq_false_iff.mp hr
  have hrun : run updateStep b (us ++ vs) = some b' := by
    rw [StepSystem.run_append, hfirst]
    exact hlast
  have htotal : b'.seqTotal ≤ b.seqTotal := by
    rw [seqTotal, seqTotal, hfseq, hrseq]
  have hquiet : RunOk updateStep (fun b u => ¬ b.Raises u) b (us ++ vs) :=
    StepSystem.runOk_of_measure_le (fun _ _ _ => seqTotal_le_step)
      (fun _ _ _ => seqTotal_lt_step) hrun htotal
  have hways := hok.told_apart.resolve_left fun hnot => hnot hquiet
  have hfquiet := forward_quiet hquiet
  have hrquiet := reverse_quiet hquiet
  rw [List.map_append] at hfquiet hrquiet hways
  rw [List.map_append] at hways
  exact ⟨EdgeStore.sameContents_of_fingerprint hs.forward hfquiet hways.1
      (forward_run hfirst) (forward_run hlast) hfversion hfcount,
    EdgeStore.sameContents_of_fingerprint hs.reverse hrquiet hways.2
      (reverse_run hfirst) (reverse_run hlast) hrversion hrcount⟩

end Detection

/-- A swap after a detectable run loses no update: a change by any call of the run is
reported and the stores stay as they are, and a swap that goes ahead clears what was in the
snapshots and nothing else. -/
theorem swap_loses_no_update {start : List BiOp} {us : List BiUpdate}
    {b b' : BidirectionalEdgeStore} (hstart : run step new start = some b)
    (hrun : run updateStep b us = some b') (hok : b.Detectable us)
    {nodeCount : Nat} {forward reverse : CompactionSnapshot}
    (hforward : snapshotEdges b.forward nodeCount = some forward)
    (hreverse : snapshotEdges b.reverse nodeCount = some reverse)
    (counters : CounterCheckpoint) (forwardCsr reverseCsr : CsrGraph)
    (bufferState : SharedBufferState) :
    let outcome := swapBidirectionalCsr b' bufferState
      ⟨forwardCsr, reverseCsr, b.checkpoint counters⟩
    ((∃ vs ws mid, us = vs ++ ws ∧ run updateStep b vs = some mid ∧ ¬ b.SameContents mid) →
      outcome.Refused ∧ outcome.store = b') ∧
    (¬ outcome.Refused →
      b'.forward.delta.iter.Perm forward.deltaEdges ∧
      b'.reverse.delta.iter.Perm reverse.deltaEdges ∧
      outcome.store = b'.swapCsrsAndClearDeltas forwardCsr reverseCsr) := by
  have hs := sound_of_run hstart
  intro outcome
  cases swapBidirectionalCsr_cases b' bufferState
      ⟨forwardCsr, reverseCsr, b.checkpoint counters⟩ with
  | inl hrefused =>
    exact ⟨fun _ => ⟨hrefused.2.1, hrefused.2.2.1⟩, fun hnot => absurd hrefused.2.1 hnot⟩
  | inr hswapped =>
    obtain ⟨hsame, hnot, hstore⟩ := hswapped
    refine ⟨?_, fun _ => ?_⟩
    · intro hchanged
      obtain ⟨vs, ws, mid, rfl, hfirst, hdiffer⟩ := hchanged
      have hlast : run updateStep mid ws = some b' := by
        rw [StepSystem.run_append, hfirst] at hrun
        exact hrun
      exact absurd (sameContents_of_unchanged hs hok hfirst hlast hsame) hdiffer
    · have hnil : us ++ [] = us := List.append_nil us
      have hcontents : b.SameContents b' :=
        sameContents_of_unchanged hs (hnil.symm ▸ hok) hrun rfl hsame
      have hs' : b'.Sound :=
        ⟨hs.forward.run (forward_run hrun), hs.reverse.run (reverse_run hrun)⟩
      rw [deltaEdges_snapshotEdges hforward, deltaEdges_snapshotEdges hreverse]
      exact ⟨EdgeStore.iter_perm_of_edgesForFile_eq hs.forward hs'.forward hcontents.1.edges_eq,
        EdgeStore.iter_perm_of_edgesForFile_eq hs.reverse hs'.reverse hcontents.2.edges_eq,
        hstore⟩

section Example

def source : NodeId := ⟨0, 1⟩

def target : NodeId := ⟨1, 1⟩

def buffered : BidirectionalEdgeStore := new.addEdgeWithSpans source target .defines 0 []

def stale : DeltaEdge := DeltaEdge.new source target .defines 0 .add 1

def staleCommit : List BiUpdate :=
  [.pushForward [stale] 1000, .pushReverse [stale.reversed] 1000, .clearFile 0]

def afterStaleCommit : BidirectionalEdgeStore :=
  ⟨⟨none, [], 0, ⟨⟨[⟨1, [stale]⟩], List.nodupKeys_singleton _⟩, 1, stale.byteSize, 1⟩⟩,
    ⟨none, [], 0, ⟨⟨[⟨1, [stale.reversed]⟩], List.nodupKeys_singleton _⟩, 1, stale.byteSize, 1⟩⟩⟩

end Example

theorem run_staleCommit : run updateStep buffered staleCommit = some afterStaleCommit := rfl

theorem snapshotEdges_buffered :
    snapshotEdges buffered.forward 2 = some ⟨[], buffered.forward.delta.iter, 2, 0⟩ ∧
      snapshotEdges buffered.reverse 2 = some ⟨[], buffered.reverse.delta.iter, 2, 0⟩ :=
  ⟨rfl, rfl⟩

/-- Clearing the only buffered file is detectable, and the swap reports it. -/
theorem swap_loses_no_update_clearFile :
    let outcome := swapBidirectionalCsr (buffered.clearFile 0).1 SharedBufferState.new
      ⟨CsrGraph.empty 2, CsrGraph.empty 2, buffered.checkpoint ⟨0, 0, 0, 0⟩⟩
    outcome.Refused ∧ outcome.store = (buffered.clearFile 0).1 := by
  have hstart : run step new [.update (.addEdgeWithSpans source target .defines 0 [])] =
      some buffered := rfl
  have hrun : run updateStep buffered [.clearFile 0] = some (buffered.clearFile 0).1 := rfl
  have hok : buffered.Detectable [.clearFile 0] :=
    ⟨⟨fun hissues => hissues.elim, fun _ _ => trivial⟩,
      .inr ⟨.inl ⟨fun hcommits => hcommits, fun _ _ => trivial⟩,
        .inl ⟨fun hcommits => hcommits, fun _ _ => trivial⟩⟩⟩
  have hchanged : ¬ buffered.SameContents (buffered.clearFile 0).1 := by
    intro h
    exact absurd (h.1.edges_eq 0) (by decide)
  exact (swap_loses_no_update hstart hrun hok snapshotEdges_buffered.1 snapshotEdges_buffered.2
    ⟨0, 0, 0, 0⟩ _ _ SharedBufferState.new).1 ⟨[.clearFile 0], [], _, rfl, hrun, hchanged⟩

/-- Both buffers change and the swap goes ahead, whatever graphs were built, so the committed
edge is cleared without having been in a snapshot. -/
theorem stale_commit_lost :
    run step new [.update (.addEdgeWithSpans source target .defines 0 [])] = some buffered ∧
      run updateStep buffered staleCommit = some afterStaleCommit ∧
      (buffered.compact 2).isSome = true ∧
      ¬ buffered.SameContents afterStaleCommit ∧
      (∃ forward, snapshotEdges buffered.forward 2 = some forward ∧
        ¬ afterStaleCommit.forward.delta.iter.Perm forward.deltaEdges) ∧
      ∀ forwardCsr reverseCsr counters bufferState,
        ¬ (swapBidirectionalCsr afterStaleCommit bufferState
          ⟨forwardCsr, reverseCsr, buffered.checkpoint counters⟩).Refused := by
  refine ⟨rfl, run_staleCommit, by decide, ?_, ?_, ?_⟩
  · intro h
    exact absurd (h.1.edges_eq 0) (by decide)
  · refine ⟨_, snapshotEdges_buffered.1, ?_⟩
    intro hperm
    exact absurd (List.perm_singleton.mp hperm) (by decide)
  · intro forwardCsr reverseCsr counters bufferState
    cases swapBidirectionalCsr_cases afterStaleCommit bufferState
        ⟨forwardCsr, reverseCsr, buffered.checkpoint counters⟩ with
    | inl hrefused => exact absurd hrefused.1 Bool.false_ne_true
    | inr hswapped => exact hswapped.2.1

end BidirectionalEdgeStore
end Sqry
