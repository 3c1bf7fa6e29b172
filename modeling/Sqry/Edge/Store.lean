import Sqry.Edge.Csr
import Sqry.Lib.LastWriter

/-!
The edge store: a compressed graph with a tombstone bitmap, and a delta buffer in front
of it. Readers merge the two by sequence number.
-/

namespace Sqry

structure StoreEdgeRef where
  source : NodeId
  target : NodeId
  kind : EdgeKind
  seq : Nat
  file : FileId
  spans : List Span
  deriving DecidableEq, Repr

inductive EdgeStoreError where
  | edgeSizeExceeded (edgeBytes reservationBytes : Nat)
  deriving DecidableEq, Repr

/-- What the merge map of `edges_from` keeps for a key. -/
structure DeltaFromEntry where
  seq : Nat
  isAdd : Bool
  target : NodeId
  kind : EdgeKind
  file : FileId
  spans : List Span

def DeltaFromEntry.ofEdge (e : DeltaEdge) : DeltaFromEntry :=
  ⟨e.seq, e.isAdd, e.target, e.kind, e.file, e.spans⟩

structure EdgeStore where
  csr : Option CsrGraph
  csrTombstones : List Bool
  csrVersion : Nat
  delta : DeltaBuffer

/-- An increment of a `u64` that wraps. -/
def wrappingSucc (n : Nat) : Nat := (n + 1) % (u64Max + 1)

namespace EdgeStore

def new : EdgeStore := ⟨none, [], 0, DeltaBuffer.new⟩

def withCsr (csr : CsrGraph) : EdgeStore :=
  ⟨some csr, List.replicate csr.edgeCount false, 1, DeltaBuffer.new⟩

def deltaCount (st : EdgeStore) : Nat := st.delta.edgeCount

def seqCounter (st : EdgeStore) : Nat := st.delta.seqCounter

section Writers

def addEdgeWithSpans (st : EdgeStore) (source target : NodeId) (kind : EdgeKind) (file : FileId)
    (spans : List Span) : EdgeStore :=
  let (seq, delta) := st.delta.nextSeq
  { st with delta := delta.push ⟨source, target, kind, seq, .add, file, spans⟩ }

def addEdge (st : EdgeStore) (source target : NodeId) (kind : EdgeKind) (file : FileId) :
    EdgeStore := st.addEdgeWithSpans source target kind file []

def firstMatch (csr : CsrGraph) (source target : NodeId) (kind : EdgeKind) : Option EdgeRef :=
  (csr.edgesOf source.index).find? fun r => r.target = target && r.kind = kind

def tombstoneCsrEdge (st : EdgeStore) (source target : NodeId) (kind : EdgeKind) : EdgeStore :=
  match st.csr with
  | none => st
  | some csr =>
    match firstMatch csr source target kind with
    | none => st
    | some r =>
      if r.index < st.csrTombstones.length then
        { st with csrTombstones := st.csrTombstones.set r.index true }
      else st

def removeEdge (st : EdgeStore) (source target : NodeId) (kind : EdgeKind) (file : FileId) :
    EdgeStore :=
  let st := st.tombstoneCsrEdge source target kind
  let (seq, delta) := st.delta.nextSeq
  { st with delta := delta.push (DeltaEdge.new source target kind seq .remove file) }

def deadSlotIndices (dead : List NodeId) : List Nat := dead.map NodeId.index

def tombstoneIfDead (slots : List Nat) (sourceSlotDead : Bool) (acc : List Bool × Nat)
    (r : EdgeRef) : List Bool × Nat :=
  if r.index ≥ acc.1.length then acc
  else if acc.1.getD r.index false then acc
  else if sourceSlotDead || slots.contains r.target.index then
    (acc.1.set r.index true, acc.2 + 1)
  else acc

def tombstoneRow (slots : List Nat) (csr : CsrGraph) (acc : List Bool × Nat) (slot : Nat) :
    List Bool × Nat :=
  if slot > u32Max then acc
  else (csr.edgesOf slot).foldl (tombstoneIfDead slots (slots.contains slot)) acc

def tombstoneSweep (slots : List Nat) (csr : CsrGraph) (tombstones : List Bool) :
    List Bool × Nat :=
  (List.range csr.nodeCount).foldl (tombstoneRow slots csr) (tombstones, 0)

def touchesDead (slots : List Nat) (e : DeltaEdge) : Bool :=
  slots.contains e.source.index || slots.contains e.target.index

def tombstoneEdgesForNodes (st : EdgeStore) (dead : List NodeId) : EdgeStore × Nat :=
  if dead.isEmpty then (st, 0)
  else
    let slots := deadSlotIndices dead
    let (tombstones, newlyTombstoned) :=
      match st.csr with
      | none => (st.csrTombstones, 0)
      | some csr => tombstoneSweep slots csr st.csrTombstones
    ({ st with
      csrTombstones := tombstones
      csrVersion := if newlyTombstoned > 0 then wrappingSucc st.csrVersion else st.csrVersion
      delta := st.delta.retainIf fun e => !touchesDead slots e }, newlyTombstoned)

def maxSeq : List DeltaEdge → Option Nat
  | [] => none
  | e :: es =>
    match maxSeq es with
    | none => some e.seq
    | some m => some (max e.seq m)

def pushCommitted (st : EdgeStore) (edges : List DeltaEdge) (reservationBytes : Nat) :
    EdgeStore × Except EdgeStoreError Nat :=
  if bytesOf edges > reservationBytes then
    (st, .error (.edgeSizeExceeded (bytesOf edges) reservationBytes))
  else
    let delta := edges.foldl DeltaBuffer.push st.delta
    let delta :=
      match maxSeq edges with
      | none => delta
      | some m => delta.advanceSeqTo (wrappingSucc m)
    ({ st with delta := delta }, .ok (bytesOf edges))

def clearFile (st : EdgeStore) (file : FileId) : EdgeStore × Nat :=
  let (delta, count) := st.delta.clearFile file
  ({ st with delta := delta }, count)

def swapCsr (st : EdgeStore) (newCsr : CsrGraph) : EdgeStore :=
  { st with
    csr := some newCsr
    csrTombstones := List.replicate newCsr.edgeCount false
    csrVersion := wrappingSucc st.csrVersion }

def clearDelta (st : EdgeStore) : EdgeStore := { st with delta := st.delta.clear }

end Writers

section Readers

def isEdgeTombstoned (st : EdgeStore) (edgeIndex : Nat) : Bool :=
  st.csrTombstones.getD edgeIndex false

/-- `update_delta_lww_from_edge`: a later or equal sequence number is kept. -/
def updateDeltaLwwFromEdge (m : AList fun _ : EdgeKey => DeltaFromEntry) (e : DeltaEdge) :
    AList fun _ : EdgeKey => DeltaFromEntry :=
  LastWriter.record DeltaEdge.edgeKey DeltaEdge.seq DeltaFromEntry.seq DeltaFromEntry.ofEdge m e

def buildDeltaLwwFromSource (st : EdgeStore) (sourceIdx : Nat) :
    AList fun _ : EdgeKey => DeltaFromEntry :=
  (st.delta.iter.filter fun e => e.source.index = sourceIdx).foldl updateDeltaLwwFromEdge ∅

def csrEdgeShadowedByDelta (source : NodeId) (r : EdgeRef)
    (deltaLww : AList fun _ : EdgeKey => DeltaFromEntry) : Bool :=
  match deltaLww.lookup ⟨source, r.target, r.kind⟩ with
  | none => false
  | some entry => entry.seq > r.seq

def csrEdgesOf (st : EdgeStore) (sourceIdx : Nat) : List EdgeRef :=
  match st.csr with
  | none => []
  | some csr => csr.edgesOf sourceIdx

def csrHasEdgeWithSeqAtLeast (st : EdgeStore) (sourceIdx : Nat) (target : NodeId)
    (kind : EdgeKind) (seq : Nat) : Bool :=
  (st.csrEdgesOf sourceIdx).any fun r => r.target = target && r.kind = kind && r.seq ≥ seq

def csrEdgeRef (source : NodeId) (r : EdgeRef) : StoreEdgeRef :=
  ⟨source, r.target, r.kind, r.seq, FileId.INVALID, r.spans⟩

def csrEdgesFrom (st : EdgeStore) (source : NodeId) (sourceIdx : Nat)
    (deltaLww : AList fun _ : EdgeKey => DeltaFromEntry) : List StoreEdgeRef :=
  ((st.csrEdgesOf sourceIdx).filter fun r =>
    !st.isEdgeTombstoned r.index && !csrEdgeShadowedByDelta source r deltaLww).map
      (csrEdgeRef source)

def deltaEdgeRef (key : EdgeKey) (entry : DeltaFromEntry) : StoreEdgeRef :=
  ⟨key.source, entry.target, entry.kind, entry.seq, entry.file, entry.spans⟩

def deltaEdgesFrom (st : EdgeStore) (deltaLww : AList fun _ : EdgeKey => DeltaFromEntry) :
    List StoreEdgeRef :=
  (deltaLww.entries.filter fun b =>
    b.2.isAdd && !st.csrHasEdgeWithSeqAtLeast b.1.source.index b.2.target b.2.kind b.2.seq).map
      fun b => deltaEdgeRef b.1 b.2

def edgesFrom (st : EdgeStore) (source : NodeId) : List StoreEdgeRef :=
  let deltaLww := st.buildDeltaLwwFromSource source.index
  st.csrEdgesFrom source source.index deltaLww ++ st.deltaEdgesFrom deltaLww

structure CsrKey where
  sourceIdx : Nat
  target : NodeId
  kind : EdgeKind
  deriving DecidableEq

/-- One raw row entry counted into `csr_max_seq_by_key`. -/
def updateCsrMaxSeq (nodeIdx : Nat) (m : AList fun _ : CsrKey => Nat) (r : EdgeRef) :
    AList fun _ : CsrKey => Nat :=
  match m.lookup ⟨nodeIdx, r.target, r.kind⟩ with
  | some s => if r.seq > s then m.insert ⟨nodeIdx, r.target, r.kind⟩ r.seq else m
  | none => m.insert ⟨nodeIdx, r.target, r.kind⟩ r.seq

def csrNodeCount (st : EdgeStore) : Nat :=
  match st.csr with
  | none => 0
  | some csr => csr.nodeCount

def csrMaxSeqByKey (st : EdgeStore) : AList fun _ : CsrKey => Nat :=
  (List.range st.csrNodeCount).foldl
    (fun m nodeIdx => (st.csrEdgesOf nodeIdx).foldl (updateCsrMaxSeq nodeIdx) m) ∅

/-- `none` when a row index does not fit `u32`. Sources of row entries get generation 0. -/
def allLiveForwardEdges (st : EdgeStore) : Option (List StoreEdgeRef) :=
  if st.csrNodeCount > u32Max + 1 then none
  else
    let deltaLww := st.delta.iter.foldl updateDeltaLwwFromEdge ∅
    let csrMaxSeq := st.csrMaxSeqByKey
    let csrEdges := (List.range st.csrNodeCount).flatMap fun nodeIdx =>
      st.csrEdgesFrom ⟨nodeIdx, 0⟩ nodeIdx deltaLww
    let deltaEdges := (deltaLww.entries.filter fun b =>
      b.2.isAdd &&
        match csrMaxSeq.lookup ⟨b.1.source.index, b.2.target, b.2.kind⟩ with
        | none => true
        | some csrSeq => !(csrSeq ≥ b.2.seq)).map fun b => deltaEdgeRef b.1 b.2
    some (csrEdges ++ deltaEdges)

/-- The scan state of `check_delta_for_edge`: the latest sequence number and its operation. -/
def checkDeltaStep (source target : NodeId) (kind : EdgeKind) (acc : Option Nat × Bool)
    (e : DeltaEdge) : Option Nat × Bool :=
  if e.source = source ∧ e.target = target ∧ e.kind = kind then
    match acc.1 with
    | none => (some e.seq, e.isAdd)
    | some latest => if e.seq > latest then (some e.seq, e.isAdd) else acc
  else acc

def checkDeltaForEdge (st : EdgeStore) (source target : NodeId) (kind : EdgeKind) :
    Option Bool :=
  let (latestSeq, latestIsAdd) :=
    st.delta.iter.foldl (checkDeltaStep source target kind) (none, false)
  latestSeq.map fun _ => latestIsAdd

def csrEdgeIsLive (st : EdgeStore) (r : EdgeRef) : Bool :=
  r.index < st.csrTombstones.length && !st.csrTombstones.getD r.index false

def checkCsrForEdge (st : EdgeStore) (source target : NodeId) (kind : EdgeKind) : Bool :=
  (st.csrEdgesOf source.index).any fun r =>
    (r.target = target && r.kind = kind) && st.csrEdgeIsLive r

def hasEdge (st : EdgeStore) (source target : NodeId) (kind : EdgeKind) : Bool :=
  match st.checkDeltaForEdge source target kind with
  | some present => present
  | none => st.checkCsrForEdge source target kind

end Readers
end EdgeStore
end Sqry

/-!
The bidirectional store: a forward store, and a reverse store that holds the same edges
with source and target exchanged. Each has its own sequence counter.
-/

namespace Sqry

def DeltaEdge.reversed (e : DeltaEdge) : DeltaEdge :=
  ⟨e.target, e.source, e.kind, e.seq, e.op, e.file, e.spans⟩

structure BidirectionalEdgeStore where
  forward : EdgeStore
  reverse : EdgeStore

namespace BidirectionalEdgeStore

def new : BidirectionalEdgeStore := ⟨EdgeStore.new, EdgeStore.new⟩

def addEdgeWithSpans (b : BidirectionalEdgeStore) (source target : NodeId) (kind : EdgeKind)
    (file : FileId) (spans : List Span) : BidirectionalEdgeStore :=
  ⟨b.forward.addEdgeWithSpans source target kind file spans,
    b.reverse.addEdgeWithSpans target source kind file spans⟩

def addEdge (b : BidirectionalEdgeStore) (source target : NodeId) (kind : EdgeKind)
    (file : FileId) : BidirectionalEdgeStore := b.addEdgeWithSpans source target kind file []

def removeEdge (b : BidirectionalEdgeStore) (source target : NodeId) (kind : EdgeKind)
    (file : FileId) : BidirectionalEdgeStore :=
  ⟨b.forward.removeEdge source target kind file, b.reverse.removeEdge target source kind file⟩

def edgesFrom (b : BidirectionalEdgeStore) (source : NodeId) : List StoreEdgeRef :=
  b.forward.edgesFrom source

def edgesTo (b : BidirectionalEdgeStore) (target : NodeId) : List StoreEdgeRef :=
  (b.reverse.edgesFrom target).map fun e => { e with source := e.target, target := target }

def clearFile (b : BidirectionalEdgeStore) (file : FileId) : BidirectionalEdgeStore × Nat :=
  (⟨(b.forward.clearFile file).1, (b.reverse.clearFile file).1⟩, (b.forward.clearFile file).2)

def clearDelta (b : BidirectionalEdgeStore) : BidirectionalEdgeStore :=
  ⟨b.forward.clearDelta, b.reverse.clearDelta⟩

def swapCsrsAndClearDeltas (b : BidirectionalEdgeStore) (forwardCsr reverseCsr : CsrGraph) :
    BidirectionalEdgeStore :=
  clearDelta ⟨b.forward.swapCsr forwardCsr, b.reverse.swapCsr reverseCsr⟩

def tombstoneEdgesForNodes (b : BidirectionalEdgeStore) (dead : List NodeId) :
    BidirectionalEdgeStore × Nat :=
  if dead.isEmpty then (b, 0)
  else
    let forward := b.forward.tombstoneEdgesForNodes dead
    let reverse := b.reverse.tombstoneEdgesForNodes dead
    (⟨forward.1, reverse.1⟩, forward.2 + reverse.2)

section Bulk

def pushBoth (b : BidirectionalEdgeStore) (e : DeltaEdge) : BidirectionalEdgeStore :=
  ⟨{ b.forward with delta := b.forward.delta.push e },
    { b.reverse with delta := b.reverse.delta.push e.reversed }⟩

/-- One edge of the bulk insertion: `none` when an assert fails. The counters are those
from before the insertion. -/
def bulkPush (forwardSeq reverseSeq : Nat) (acc : Option Nat × BidirectionalEdgeStore)
    (e : DeltaEdge) : Option (Option Nat × BidirectionalEdgeStore) :=
  if acc.1.any (e.seq < ·) ∨ e.seq < forwardSeq ∨ e.seq < reverseSeq then none
  else some (some e.seq, acc.2.pushBoth e)

def advanceSeqTo (b : BidirectionalEdgeStore) (minValue : Nat) : BidirectionalEdgeStore :=
  ⟨{ b.forward with delta := b.forward.delta.advanceSeqTo minValue },
    { b.reverse with delta := b.reverse.delta.advanceSeqTo minValue }⟩

/-- The edges come grouped by file, already numbered; `none` when an assert fails. -/
def addEdgesBulkOrdered (b : BidirectionalEdgeStore) (fileEdgeVecs : List (List DeltaEdge))
    (expectedTotal : Nat) : Option BidirectionalEdgeStore :=
  if fileEdgeVecs.flatten.length ≠ expectedTotal then none
  else
    match fileEdgeVecs.flatten.foldlM
        (bulkPush b.forward.seqCounter b.reverse.seqCounter) (none, b) with
    | none => none
    | some (none, b) => some b
    | some (some max, b) => some (b.advanceSeqTo (wrappingSucc max))

end Bulk

end BidirectionalEdgeStore
end Sqry
