import Sqry.Edge.KindText
import Sqry.Edge.Writers
import Sqry.Lib.Segments
import Sqry.Lib.SortedGroups

/-!
The order in which compaction sorts edge keys: by source, by target, by the discriminant
of the kind and last by its text. It is a linear order on keys, although discriminants
and kinds are compared as text.
-/

namespace Sqry

def compareNodeIds (a b : NodeId) : Ordering :=
  match compare a.index b.index with
  | .eq => compare a.generation b.generation
  | other => other

/-- The `Debug` text of `mem::discriminant`. -/
def discriminantText (k : EdgeKind) : List Char :=
  Delimited.field "Discriminant(" (Delimited.nat k.ctorIdx) [')']

def compareEdgeKinds (a b : EdgeKind) : Ordering :=
  if a.ctorIdx = b.ctorIdx then compare a.debug b.debug
  else compare (discriminantText a) (discriminantText b)

def compareEdgeKeys (a b : EdgeKey) : Ordering :=
  match compareNodeIds a.source b.source with
  | .eq =>
    match compareNodeIds a.target b.target with
    | .eq => compareEdgeKinds a.kind b.kind
    | other => other
  | other => other

theorem compareNodeIds_eq :
    compareNodeIds = compareLex (compareOn NodeId.index) (compareOn NodeId.generation) := by
  funext a b
  rw [compareNodeIds, compareLex, compareOn, compareOn]
  cases compare a.index b.index <;> rfl

instance : Std.TransCmp compareNodeIds := by
  rw [compareNodeIds_eq]
  infer_instance

instance : Std.LawfulEqCmp compareNodeIds where
  compare_self := Std.ReflCmp.compare_self
  eq_of_compare := by
    intro a b h
    rw [compareNodeIds_eq, compareLex_eq_eq] at h
    have hindex : a.index = b.index := Std.LawfulEqCmp.eq_of_compare h.1
    have hgeneration : a.generation = b.generation := Std.LawfulEqCmp.eq_of_compare h.2
    cases a
    cases b
    cases hindex
    cases hgeneration
    rfl

theorem discriminantText_inj {a b : EdgeKind} (h : discriminantText a = discriminantText b) :
    a.ctorIdx = b.ctorIdx := by
  have hparen : Delimited.Stops [')'] := Delimited.stops_cons (by decide) []
  exact (Delimited.field_inj Delimited.isDelimited_nat hparen hparen h).1

theorem compareEdgeKinds_eq :
    compareEdgeKinds = compareLex (compareOn discriminantText) (compareOn EdgeKind.debug) := by
  funext a b
  rw [compareEdgeKinds, compareLex, compareOn, compareOn]
  by_cases h : a.ctorIdx = b.ctorIdx
  · have htext : discriminantText a = discriminantText b := by
      rw [discriminantText, discriminantText, h]
    have hself : compare (discriminantText b) (discriminantText b) = .eq :=
      Std.ReflCmp.compare_self
    rw [if_pos h, htext, hself]
    rfl
  · rw [if_neg h]
    cases hcmp : compare (discriminantText a) (discriminantText b) with
    | eq => exact absurd (discriminantText_inj (Std.LawfulEqCmp.eq_of_compare hcmp)) h
    | lt => rfl
    | gt => rfl

instance : Std.TransCmp compareEdgeKinds := by
  rw [compareEdgeKinds_eq]
  infer_instance

instance : Std.LawfulEqCmp compareEdgeKinds where
  compare_self := Std.ReflCmp.compare_self
  eq_of_compare := by
    intro a b h
    rw [compareEdgeKinds_eq, compareLex_eq_eq] at h
    exact EdgeKind.debug_inj (discriminantText_inj (Std.LawfulEqCmp.eq_of_compare h.1))
      (Std.LawfulEqCmp.eq_of_compare h.2)

def onField {β : Type} (cmp : β → β → Ordering) (f : EdgeKey → β) (a b : EdgeKey) : Ordering :=
  cmp (f a) (f b)

instance {β : Type} (cmp : β → β → Ordering) [Std.TransCmp cmp] (f : EdgeKey → β) :
    Std.TransCmp (onField cmp f) where
  eq_swap := by
    intro a b
    exact @Std.OrientedCmp.eq_swap _ cmp _ (f a) (f b)
  isLE_trans := by
    intro a b c
    exact @Std.TransCmp.isLE_trans _ cmp _ (f a) (f b) (f c)

theorem compareEdgeKeys_eq :
    compareEdgeKeys = compareLex (onField compareNodeIds EdgeKey.source)
      (compareLex (onField compareNodeIds EdgeKey.target)
        (onField compareEdgeKinds EdgeKey.kind)) := by
  funext a b
  rw [compareEdgeKeys, compareLex, compareLex, onField, onField, onField]
  cases compareNodeIds a.source b.source with
  | lt => rfl
  | gt => rfl
  | eq => cases compareNodeIds a.target b.target <;> rfl

instance : Std.TransCmp compareEdgeKeys := by
  rw [compareEdgeKeys_eq]
  infer_instance

instance : Std.LawfulEqCmp compareEdgeKeys where
  compare_self := Std.ReflCmp.compare_self
  eq_of_compare := by
    intro a b h
    rw [compareEdgeKeys_eq, compareLex_eq_eq, compareLex_eq_eq] at h
    have hsource : a.source = b.source := Std.LawfulEqCmp.eq_of_compare h.1
    have htarget : a.target = b.target := Std.LawfulEqCmp.eq_of_compare h.2.1
    have hkind : a.kind = b.kind := Std.LawfulEqCmp.eq_of_compare h.2.2
    cases a
    cases b
    cases hsource
    cases htarget
    cases hkind
    rfl

end Sqry

/-!
The merge of compaction: sort the operations by key and by descending sequence number,
and let the first operation of each key decide. What is merged is, for every key whose
latest operation is an addition, that key with the number of that operation.
-/

namespace Sqry

open SortedGroups (sortBy byKeyThenSeq groups heads)

structure MergedEdge where
  source : NodeId
  target : NodeId
  kind : EdgeKind
  seq : Nat
  file : FileId
  spans : List Span
  deriving DecidableEq, Repr

def MergedEdge.edgeKey (e : MergedEdge) : EdgeKey := ⟨e.source, e.target, e.kind⟩

structure MergeStats where
  inputCount : Nat
  outputCount : Nat
  deduplicatedCount : Nat
  removedCount : Nat
  deriving DecidableEq, Repr

/-- The order of `(start.line, start.column, end.line, end.column)`. -/
def compareSpans (a b : Span) : Ordering :=
  compareLex
    (compareLex (compareOn fun s : Span => s.start.line) (compareOn fun s => s.start.column))
    (compareLex (compareOn fun s : Span => s.stop.line) (compareOn fun s => s.stop.column)) a b

def accumulateAndDeduplicateSpans (group : List DeltaEdge) : List Span :=
  (sortBy compareSpans ((group.filter DeltaEdge.isAdd).flatMap DeltaEdge.spans)).destutter (· ≠ ·)

def processEdgeGroup (group : List DeltaEdge) : Option MergedEdge :=
  match group with
  | [] => none
  | winner :: _ =>
    if winner.op = .add then
      some ⟨winner.source, winner.target, winner.kind, winner.seq, winner.file,
        accumulateAndDeduplicateSpans group⟩
    else none

def edgeGroups (edges : List DeltaEdge) : List (List DeltaEdge) :=
  groups DeltaEdge.edgeKey
    (sortBy (byKeyThenSeq compareEdgeKeys DeltaEdge.edgeKey DeltaEdge.seq) edges)

def mergeDeltaEdges (edges : List DeltaEdge) : List MergedEdge × MergeStats :=
  if edges.isEmpty then ([], ⟨0, 0, 0, 0⟩)
  else
    let merged := (edgeGroups edges).filterMap processEdgeGroup
    let removedCount := ((edgeGroups edges).filter fun g => (processEdgeGroup g).isNone).length
    (merged, ⟨edges.length, merged.length, edges.length - (edgeGroups edges).length,
      removedCount⟩)

structure Verdict where
  key : EdgeKey
  seq : Nat
  deriving DecidableEq

def MergedEdge.verdict (e : MergedEdge) : Verdict := ⟨e.edgeKey, e.seq⟩

def DeltaEdge.verdict (e : DeltaEdge) : Verdict := ⟨e.edgeKey, e.seq⟩

theorem filterMap_process_verdict (gs : List (List DeltaEdge)) :
    (gs.filterMap processEdgeGroup).map MergedEdge.verdict =
      ((gs.filterMap List.head?).filter DeltaEdge.isAdd).map DeltaEdge.verdict := by
  induction gs with
  | nil => rfl
  | cons g gs ih =>
    cases g with
    | nil => exact ih
    | cons w rest =>
      have hhead : (w :: rest).head? = some w := rfl
      rw [List.filterMap_cons_some hhead]
      by_cases hop : w.op = .add
      · have hsome : processEdgeGroup (w :: rest) =
            some ⟨w.source, w.target, w.kind, w.seq, w.file,
              accumulateAndDeduplicateSpans (w :: rest)⟩ := by
          rw [processEdgeGroup, if_pos hop]
        have hadd : w.isAdd = true := decide_eq_true hop
        rw [List.filterMap_cons_some hsome, List.filter_cons_of_pos hadd, List.map_cons,
          List.map_cons, ih]
        rfl
      · have hnone : processEdgeGroup (w :: rest) = none := by
          rw [processEdgeGroup, if_neg hop]
        have hadd : ¬ w.isAdd = true := fun h => hop (of_decide_eq_true h)
        rw [List.filterMap_cons_none hnone, List.filter_cons_of_neg hadd, ih]

theorem merged_verdicts (edges : List DeltaEdge) :
    (mergeDeltaEdges edges).1.map MergedEdge.verdict =
      ((heads DeltaEdge.edgeKey (sortBy (byKeyThenSeq compareEdgeKeys DeltaEdge.edgeKey
        DeltaEdge.seq) edges)).filter DeltaEdge.isAdd).map DeltaEdge.verdict := by
  rw [mergeDeltaEdges]
  cases edges with
  | nil => rfl
  | cons e edges => exact filterMap_process_verdict _

theorem nodup_merged_keys (edges : List DeltaEdge) :
    ((mergeDeltaEdges edges).1.map MergedEdge.edgeKey).Nodup := by
  have hkeys : (mergeDeltaEdges edges).1.map MergedEdge.edgeKey =
      ((mergeDeltaEdges edges).1.map MergedEdge.verdict).map Verdict.key := by
    rw [List.map_map]
    rfl
  rw [hkeys, merged_verdicts, List.map_map]
  exact (SortedGroups.mem_heads_sortBy edges).1.sublist (List.filter_sublist.map _)

theorem mem_merged_verdicts {edges : List DeltaEdge} {v : Verdict} :
    v ∈ (mergeDeltaEdges edges).1.map MergedEdge.verdict ↔
      ∃ w, latest edges v.key = some w ∧ w.isAdd = true ∧ w.seq = v.seq := by
  rw [merged_verdicts, List.mem_map]
  constructor
  · intro ⟨w, hw, hv⟩
    obtain ⟨hhead, hadd⟩ := List.mem_filter.mp hw
    have hwinner := ((SortedGroups.mem_heads_sortBy edges).2 w).mp hhead
    subst hv
    exact ⟨w, hwinner, hadd, rfl⟩
  · intro ⟨w, hlatest, hadd, hseq⟩
    have hkey : w.edgeKey = v.key := (latest_spec hlatest).2.1
    refine ⟨w, List.mem_filter.mpr ⟨((SortedGroups.mem_heads_sortBy edges).2 w).mpr ?_, hadd⟩, ?_⟩
    · rw [hkey]
      exact hlatest
    · rw [DeltaEdge.verdict, hkey, hseq]

end Sqry

/-!
Phase one of compaction: take a snapshot of a store, merge it and build a new compressed
graph. The compressed graph keeps the slot of a source but not its generation, so the
snapshot gives every edge it reads from there a source of generation 0 and file 0.
-/

namespace Sqry

open SortedGroups (sortBy)

inductive Direction where
  | forward | reverse
  deriving DecidableEq, Repr

def CsrError.message : CsrError → String
  | .rowPtrLengthMismatch expected actual =>
    s!"row_ptr length mismatch: expected {expected}, got {actual}"
  | .nonMonotonicRowPtr index previous current =>
    s!"row_ptr not monotonic at index {index}: {previous} > {current}"
  | .rowPtrNotStartingAtZero first => s!"row_ptr[0] must be 0, got {first}"
  | .rowPtrColIdxMismatch rowPtrLast colIdxLen =>
    s!"row_ptr[last] ({rowPtrLast}) != col_idx.len() ({colIdxLen})"
  | .arrayLengthMismatch colIdxLen edgeKindLen edgeSeqLen edgeSpansLen =>
    s!"array length mismatch: col_idx={colIdxLen}, edge_kind={edgeKindLen}, " ++
      s!"edge_seq={edgeSeqLen}, edge_spans={edgeSpansLen}"
  | .colIdxOutOfBounds edgeIndex colValue nodeCount =>
    s!"col_idx[{edgeIndex}] = {colValue} out of bounds (node_count = {nodeCount})"

inductive CompactionError where
  | concurrentModification (expectedSeq actualSeq : Nat) (direction : Direction)
  | counterReconcileFailed (activeGuards : Nat) (forwardSwapped reverseSwapped : Bool)
  | buildFailed (direction : Direction) (message : String)
  deriving DecidableEq, Repr

structure CompactionSnapshot where
  csrEdges : List MergedEdge
  deltaEdges : List DeltaEdge
  nodeCount : Nat
  csrVersion : Nat

structure BuildStats where
  csrInputEdges : Nat
  deltaInputEdges : Nat
  mergeStats : MergeStats
  outputEdges : Nat
  outputNodes : Nat
  deriving DecidableEq, Repr

def snapshotRow (st : EdgeStore) (nodeIdx : Nat) : List MergedEdge :=
  ((st.csrEdgesOf nodeIdx).filter fun r => !st.isEdgeTombstoned r.index).map fun r =>
    ⟨⟨nodeIdx, 0⟩, r.target, r.kind, r.seq, 0, r.spans⟩

/-- `none` when a row index does not fit `u32`. -/
def snapshotEdges (st : EdgeStore) (nodeCount : Nat) : Option CompactionSnapshot :=
  if st.csrNodeCount > u32Max + 1 then none
  else
    some ⟨(List.range st.csrNodeCount).flatMap (snapshotRow st), st.delta.iter, nodeCount,
      st.csrVersion⟩

theorem deltaEdges_snapshotEdges {st : EdgeStore} {nodeCount : Nat} {s : CompactionSnapshot}
    (h : snapshotEdges st nodeCount = some s) : s.deltaEdges = st.delta.iter := by
  rw [snapshotEdges] at h
  split at h
  · cases h
  · cases h
    rfl

/-- The row pointers, `none` when a count or a sum does not fit `u32`. -/
def rowPtrFrom : Nat → List Nat → Option (List Nat)
  | cumulative, [] => some [cumulative]
  | cumulative, count :: counts =>
    if count > u32Max ∨ cumulative + count > u32Max then none
    else (rowPtrFrom (cumulative + count) counts).map (cumulative :: ·)

def sortBySource (edges : List MergedEdge) : List MergedEdge :=
  sortBy (fun a b => compare a.source.index b.source.index) edges

def csrOfSorted (nodeCount : Nat) (rowPtr : List Nat) (sorted : List MergedEdge) : CsrGraph :=
  ⟨nodeCount, rowPtr, sorted.map MergedEdge.target, sorted.map MergedEdge.kind,
    sorted.map MergedEdge.seq, sorted.map MergedEdge.spans⟩

/-- `none` when the row pointers overflow. -/
def buildCsrFromEdges (edges : List MergedEdge) (nodeCount : Nat) :
    Option (Except CsrError CsrGraph) :=
  if nodeCount = 0 then some (.ok (CsrGraph.empty 0))
  else
    let sorted := sortBySource edges
    match rowPtrFrom 0 (Segments.tally nodeCount (sorted.map fun e => e.source.index)) with
    | none => none
    | some rowPtr =>
      let csr := csrOfSorted nodeCount rowPtr sorted
      match csr.validate with
      | .error e => some (.error e)
      | .ok () => some (.ok csr)

def MergedEdge.toDelta (e : MergedEdge) : DeltaEdge :=
  ⟨e.source, e.target, e.kind, e.seq, .add, e.file, e.spans⟩

def CompactionSnapshot.allDeltaEdges (s : CompactionSnapshot) : List DeltaEdge :=
  s.csrEdges.map MergedEdge.toDelta ++ s.deltaEdges

def buildCompactedCsr (s : CompactionSnapshot) (direction : Direction) :
    Option (Except CompactionError (CsrGraph × BuildStats)) :=
  if s.nodeCount = 0 then
    some (.ok (CsrGraph.empty 0,
      ⟨s.csrEdges.length, s.deltaEdges.length, ⟨0, 0, 0, 0⟩, 0, 0⟩))
  else
    let (mergedEdges, mergeStats) := mergeDeltaEdges s.allDeltaEdges
    match buildCsrFromEdges mergedEdges s.nodeCount with
    | none => none
    | some (.error e) => some (.error (.buildFailed direction e.message))
    | some (.ok csr) =>
      some (.ok (csr, ⟨s.csrEdges.length, s.deltaEdges.length, mergeStats, csr.edgeCount,
        csr.nodeCount⟩))

/-- A snapshot, a build, a swap and a cleared buffer; `none` when the build does not succeed. -/
def EdgeStore.compact (st : EdgeStore) (nodeCount : Nat) (direction : Direction) :
    Option EdgeStore :=
  match snapshotEdges st nodeCount with
  | none => none
  | some s =>
    match buildCompactedCsr s direction with
    | some (.ok (csr, _)) => some (st.swapCsr csr).clearDelta
    | _ => none

end Sqry
