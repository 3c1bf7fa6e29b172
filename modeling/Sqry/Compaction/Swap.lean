import Sqry.Admission.Controller
import Sqry.Compaction.Rebuilt
import Sqry.Edge.Fingerprint

/-!
Phase two of compaction: the swap. It refuses when the fingerprint of either store is not
the one of the checkpoint, and otherwise puts in both graphs and clears both buffers.
-/

namespace Sqry

structure CounterCheckpoint where
  committedBytes : Nat
  committedOps : Nat
  reservedBytes : Nat
  reservedOps : Nat
  deriving DecidableEq, Repr

structure EdgeStoreCheckpoint where
  csrVersion : Nat
  deltaEdgeCount : Nat
  deltaByteSize : Nat
  seqCounter : Nat
  tombstoneCount : Nat
  deriving DecidableEq, Repr

def EdgeStoreCheckpoint.hasChanged (c : EdgeStoreCheckpoint)
    (currentCsrVersion currentDeltaCount currentSeq : Nat) : Bool :=
  c.csrVersion ≠ currentCsrVersion || c.deltaEdgeCount ≠ currentDeltaCount ||
    c.seqCounter ≠ currentSeq

structure CheckpointStats where
  forwardDeltaCount : Nat
  forwardDeltaBytes : Nat
  forwardTombstones : Nat
  reverseDeltaCount : Nat
  reverseDeltaBytes : Nat
  reverseTombstones : Nat
  totalCommittedBytes : Nat
  totalCommittedOps : Nat
  totalReservedBytes : Nat
  totalReservedOps : Nat
  deriving DecidableEq, Repr

structure CompactionCheckpoint where
  forward : EdgeStoreCheckpoint
  reverse : EdgeStoreCheckpoint
  counters : CounterCheckpoint
  deriving DecidableEq, Repr

namespace CompactionCheckpoint

def hasConcurrentModification (c : CompactionCheckpoint)
    (forwardCsrVersion forwardDeltaCount forwardSeq : Nat)
    (reverseCsrVersion reverseDeltaCount reverseSeq : Nat) : Bool :=
  c.forward.hasChanged forwardCsrVersion forwardDeltaCount forwardSeq ||
    c.reverse.hasChanged reverseCsrVersion reverseDeltaCount reverseSeq

def stats (c : CompactionCheckpoint) : CheckpointStats :=
  ⟨c.forward.deltaEdgeCount, c.forward.deltaByteSize, c.forward.tombstoneCount,
    c.reverse.deltaEdgeCount, c.reverse.deltaByteSize, c.reverse.tombstoneCount,
    c.counters.committedBytes, c.counters.committedOps,
    c.counters.reservedBytes, c.counters.reservedOps⟩

end CompactionCheckpoint

def EdgeStore.checkpoint (st : EdgeStore) : EdgeStoreCheckpoint :=
  ⟨st.csrVersion, st.deltaCount, st.delta.byteSize, st.seqCounter, st.tombstoneCount⟩

/-- `from_components` on the current values of both stores. -/
def BidirectionalEdgeStore.checkpoint (b : BidirectionalEdgeStore)
    (counters : CounterCheckpoint) : CompactionCheckpoint :=
  ⟨b.forward.checkpoint, b.reverse.checkpoint, counters⟩

/-- The load and the stores of `try_reset_to_zero`, taken together. -/
def SharedBufferState.tryResetToZero (s : SharedBufferState) :
    SharedBufferState × Except Nat Unit :=
  if s.activeGuards > 0 then (s, .error s.activeGuards)
  else (⟨0, 0, 0, 0, s.activeGuards⟩, .ok ())

structure SwapInput where
  forwardCsr : CsrGraph
  reverseCsr : CsrGraph
  checkpoint : CompactionCheckpoint

structure SwapResult where
  preSwapStats : CheckpointStats
  forwardEdgeCount : Nat
  forwardNodeCount : Nat
  reverseEdgeCount : Nat
  reverseNodeCount : Nat
  forwardCsrVersion : Nat
  reverseCsrVersion : Nat
  deriving DecidableEq, Repr

/-- What a call of `swap_bidirectional_csr` leaves behind and returns. -/
structure SwapOutcome where
  store : BidirectionalEdgeStore
  bufferState : SharedBufferState
  result : Except CompactionError SwapResult

def concurrentModificationError (b : BidirectionalEdgeStore) (c : CompactionCheckpoint) :
    CompactionError :=
  if c.forward.hasChanged b.forward.csrVersion b.forward.deltaCount b.forward.seqCounter then
    .concurrentModification c.forward.seqCounter b.forward.seqCounter .forward
  else .concurrentModification c.reverse.seqCounter b.reverse.seqCounter .reverse

def swapBidirectionalCsr (b : BidirectionalEdgeStore) (bufferState : SharedBufferState)
    (input : SwapInput) : SwapOutcome :=
  if input.checkpoint.hasConcurrentModification
      b.forward.csrVersion b.forward.deltaCount b.forward.seqCounter
      b.reverse.csrVersion b.reverse.deltaCount b.reverse.seqCounter then
    ⟨b, bufferState, .error (concurrentModificationError b input.checkpoint)⟩
  else
    let b' := b.swapCsrsAndClearDeltas input.forwardCsr input.reverseCsr
    match bufferState.tryResetToZero with
    | (bufferState, .error activeGuards) =>
      ⟨b', bufferState, .error (.counterReconcileFailed activeGuards true true)⟩
    | (bufferState, .ok ()) =>
      ⟨b', bufferState, .ok ⟨input.checkpoint.stats,
        input.forwardCsr.edgeCount, input.forwardCsr.nodeCount,
        input.reverseCsr.edgeCount, input.reverseCsr.nodeCount,
        b'.forward.csrVersion, b'.reverse.csrVersion⟩⟩

def CompactionError.IsConcurrentModification : CompactionError → Prop
  | .concurrentModification _ _ _ => True
  | _ => False

def SwapOutcome.Refused (o : SwapOutcome) : Prop :=
  ∃ e, o.result = .error e ∧ e.IsConcurrentModification

theorem hasChanged_checkpoint_eq_false_iff {st st' : EdgeStore} :
    st.checkpoint.hasChanged st'.csrVersion st'.deltaCount st'.seqCounter = false ↔
      st'.csrVersion = st.csrVersion ∧ st'.deltaCount = st.deltaCount ∧
        st'.seqCounter = st.seqCounter := by
  rw [EdgeStoreCheckpoint.hasChanged, Bool.or_eq_false_iff, Bool.or_eq_false_iff,
    decide_eq_false_iff_not, decide_eq_false_iff_not, decide_eq_false_iff_not,
    not_ne_iff, not_ne_iff, not_ne_iff, and_assoc]
  exact and_congr eq_comm (and_congr eq_comm eq_comm)

theorem concurrentModificationError_spec (b : BidirectionalEdgeStore)
    (c : CompactionCheckpoint) : (concurrentModificationError b c).IsConcurrentModification := by
  rw [concurrentModificationError]
  split <;> trivial

theorem swapBidirectionalCsr_cases (b : BidirectionalEdgeStore) (bufferState : SharedBufferState)
    (input : SwapInput) :
    (input.checkpoint.hasConcurrentModification
        b.forward.csrVersion b.forward.deltaCount b.forward.seqCounter
        b.reverse.csrVersion b.reverse.deltaCount b.reverse.seqCounter = true ∧
      (swapBidirectionalCsr b bufferState input).Refused ∧
      (swapBidirectionalCsr b bufferState input).store = b ∧
      (swapBidirectionalCsr b bufferState input).bufferState = bufferState) ∨
    (input.checkpoint.hasConcurrentModification
        b.forward.csrVersion b.forward.deltaCount b.forward.seqCounter
        b.reverse.csrVersion b.reverse.deltaCount b.reverse.seqCounter = false ∧
      ¬ (swapBidirectionalCsr b bufferState input).Refused ∧
      (swapBidirectionalCsr b bufferState input).store =
        b.swapCsrsAndClearDeltas input.forwardCsr input.reverseCsr) := by
  rw [swapBidirectionalCsr]
  cases hchanged : input.checkpoint.hasConcurrentModification
      b.forward.csrVersion b.forward.deltaCount b.forward.seqCounter
      b.reverse.csrVersion b.reverse.deltaCount b.reverse.seqCounter with
  | true =>
    exact .inl ⟨rfl, ⟨_, rfl, concurrentModificationError_spec b input.checkpoint⟩, rfl, rfl⟩
  | false =>
    right
    refine ⟨rfl, ?_⟩
    rw [SharedBufferState.tryResetToZero]
    by_cases hactive : bufferState.activeGuards > 0
    · rw [if_pos hactive]
      refine ⟨?_, rfl⟩
      intro h
      obtain ⟨e, he, hkind⟩ := h
      cases he
      exact hkind
    · rw [if_neg hactive]
      refine ⟨?_, rfl⟩
      intro h
      obtain ⟨e, he, -⟩ := h
      cases he

end Sqry
