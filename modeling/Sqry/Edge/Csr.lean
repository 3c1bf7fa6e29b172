import Sqry.Edge.Delta

/-!
Edges in compressed rows: the targets, kinds, sequence numbers and spans of all edges in
parallel arrays, and for each row the range of its edges. A graph whose arrays do not
fit together makes the source panic when a row is read; here such reads give defaults,
and a graph that passes `validate` never reads one.
-/

namespace Sqry

structure CsrGraph where
  nodeCount : Nat
  rowPtr : List Nat
  colIdx : List NodeId
  edgeKind : List EdgeKind
  edgeSeq : List Nat
  edgeSpans : List (List Span)
  deriving DecidableEq, Repr

structure EdgeRef where
  index : Nat
  target : NodeId
  kind : EdgeKind
  seq : Nat
  spans : List Span
  deriving DecidableEq, Repr

inductive CsrError where
  | rowPtrLengthMismatch (expected actual : Nat)
  | nonMonotonicRowPtr (index previous current : Nat)
  | rowPtrNotStartingAtZero (first : Nat)
  | rowPtrColIdxMismatch (rowPtrLast colIdxLen : Nat)
  | arrayLengthMismatch (colIdxLen edgeKindLen edgeSeqLen edgeSpansLen : Nat)
  | colIdxOutOfBounds (edgeIndex colValue nodeCount : Nat)
  deriving DecidableEq, Repr

namespace CsrGraph

def empty (nodeCount : Nat) : CsrGraph :=
  ⟨nodeCount, List.replicate (nodeCount + 1) 0, [], [], [], []⟩

def edgeCount (g : CsrGraph) : Nat := g.colIdx.length

def edgeRefAt (g : CsrGraph) (index : Nat) : EdgeRef :=
  ⟨index, g.colIdx.getD index NodeId.INVALID, g.edgeKind.getD index .defines,
    g.edgeSeq.getD index 0, g.edgeSpans.getD index []⟩

def edgesOf (g : CsrGraph) (node : Nat) : List EdgeRef :=
  if node ≥ g.nodeCount then []
  else
    (List.range' (g.rowPtr.getD node 0) (g.rowPtr.getD (node + 1) 0 - g.rowPtr.getD node 0)).map
      g.edgeRefAt

def firstDescent (i : Nat) : List Nat → Option (Nat × Nat × Nat)
  | previous :: current :: rest =>
    if current < previous then some (i + 1, previous, current)
    else firstDescent (i + 1) (current :: rest)
  | _ => none

def firstOutOfBounds (bound i : Nat) : List NodeId → Option (Nat × Nat)
  | [] => none
  | col :: rest =>
    if col.index ≥ bound then some (i, col.index) else firstOutOfBounds bound (i + 1) rest

/-- `u32::try_from(node_count).unwrap_or(u32::MAX)`. -/
def nodeCountU32 (nodeCount : Nat) : Nat := if nodeCount ≤ u32Max then nodeCount else u32Max

def validate (g : CsrGraph) : Except CsrError Unit :=
  if g.rowPtr.length ≠ g.nodeCount + 1 then
    .error (.rowPtrLengthMismatch (g.nodeCount + 1) g.rowPtr.length)
  else if g.rowPtr ≠ [] ∧ g.rowPtr.headD 0 ≠ 0 then
    .error (.rowPtrNotStartingAtZero (g.rowPtr.headD 0))
  else
    match firstDescent 0 g.rowPtr with
    | some (i, previous, current) => .error (.nonMonotonicRowPtr i previous current)
    | none =>
      if g.rowPtr ≠ [] ∧ g.rowPtr.getLastD 0 ≠ g.colIdx.length then
        .error (.rowPtrColIdxMismatch (g.rowPtr.getLastD 0) g.colIdx.length)
      else if g.colIdx.length ≠ g.edgeKind.length ∨ g.colIdx.length ≠ g.edgeSeq.length ∨
          g.colIdx.length ≠ g.edgeSpans.length then
        .error (.arrayLengthMismatch g.colIdx.length g.edgeKind.length g.edgeSeq.length
          g.edgeSpans.length)
      else
        match firstOutOfBounds (nodeCountU32 g.nodeCount) 0 g.colIdx with
        | some (i, col) => .error (.colIdxOutOfBounds i col g.nodeCount)
        | none => .ok ()

/-- The invariants that `validate` checks. -/
structure WellFormed (g : CsrGraph) : Prop where
  rowPtr_length : g.rowPtr.length = g.nodeCount + 1
  rowPtr_head : g.rowPtr.headD 0 = 0
  rowPtr_sorted : g.rowPtr.Pairwise (· ≤ ·)
  rowPtr_last : g.rowPtr.getLastD 0 = g.colIdx.length
  edgeKind_length : g.edgeKind.length = g.colIdx.length
  edgeSeq_length : g.edgeSeq.length = g.colIdx.length
  edgeSpans_length : g.edgeSpans.length = g.colIdx.length
  colIdx_lt : ∀ col ∈ g.colIdx, col.index < nodeCountU32 g.nodeCount

theorem firstDescent_eq_none_iff {i : Nat} {l : List Nat} :
    firstDescent i l = none ↔ l.Pairwise (· ≤ ·) := by
  rw [← List.isChain_iff_pairwise]
  induction l generalizing i with
  | nil => simp [firstDescent]
  | cons a l ih =>
    cases l with
    | nil => simp [firstDescent]
    | cons b l =>
      rw [firstDescent, List.isChain_cons_cons, ← @ih (i + 1)]
      by_cases h : b < a
      · simp [h, Nat.not_le_of_lt h]
      · simp [h, Nat.le_of_not_lt h]

theorem firstOutOfBounds_eq_none_iff {bound i : Nat} {l : List NodeId} :
    firstOutOfBounds bound i l = none ↔ ∀ col ∈ l, col.index < bound := by
  induction l generalizing i with
  | nil => simp [firstOutOfBounds]
  | cons a l ih =>
    rw [firstOutOfBounds]
    by_cases h : a.index ≥ bound
    · simp [h, Nat.not_lt_of_le h]
    · simp [h, ih, Nat.lt_of_not_le h]

theorem validate_eq_ok_iff (g : CsrGraph) : g.validate = .ok () ↔ g.WellFormed := by
  rw [validate]
  constructor
  · intro h
    split at h
    · cases h
    · rename_i hlen
      have hlen : g.rowPtr.length = g.nodeCount + 1 := Classical.not_not.mp hlen
      have hne : g.rowPtr ≠ [] := fun hnil => by rw [hnil] at hlen; cases hlen
      split at h
      · cases h
      · rename_i hhead
        split at h
        · cases h
        · rename_i hdescent
          split at h
          · cases h
          · rename_i hlast
            split at h
            · cases h
            · rename_i harrays
              split at h
              · cases h
              · rename_i hbounds
                refine ⟨hlen, ?_, firstDescent_eq_none_iff.mp hdescent, ?_, ?_, ?_, ?_,
                  firstOutOfBounds_eq_none_iff.mp hbounds⟩
                · exact Classical.not_not.mp fun hn => hhead ⟨hne, hn⟩
                · exact Classical.not_not.mp fun hn => hlast ⟨hne, hn⟩
                · omega
                · omega
                · omega
  · intro h
    rw [if_neg (fun hn => hn h.rowPtr_length), if_neg (fun hn => hn.2 h.rowPtr_head),
      firstDescent_eq_none_iff.mpr h.rowPtr_sorted]
    simp only []
    rw [if_neg (fun hn => hn.2 h.rowPtr_last),
      if_neg (by rw [h.edgeKind_length, h.edgeSeq_length, h.edgeSpans_length]; simp),
      firstOutOfBounds_eq_none_iff.mpr h.colIdx_lt]

theorem mem_edgesOf {g : CsrGraph} {node : Nat} {e : EdgeRef} :
    e ∈ g.edgesOf node ↔
      node < g.nodeCount ∧ g.rowPtr.getD node 0 ≤ e.index ∧
        e.index < g.rowPtr.getD (node + 1) 0 ∧ g.edgeRefAt e.index = e := by
  rw [edgesOf]
  split
  · rename_i hge
    simp [Nat.not_lt_of_le hge]
  · rename_i hlt
    rw [List.mem_map]
    constructor
    · rintro ⟨i, hi, rfl⟩
      rw [List.mem_range'_1] at hi
      exact ⟨Nat.lt_of_not_le hlt, hi.1, by show i < _; omega, rfl⟩
    · rintro ⟨-, hlo, hhi, heq⟩
      exact ⟨e.index, by rw [List.mem_range'_1]; omega, heq⟩

theorem WellFormed.index_lt {g : CsrGraph} (hg : g.WellFormed) {node : Nat} {e : EdgeRef}
    (he : e ∈ g.edgesOf node) : e.index < g.colIdx.length := by
  obtain ⟨hnode, -, hlt, -⟩ := mem_edgesOf.mp he
  have hlen := hg.rowPtr_length
  have hin : node + 1 < g.rowPtr.length := by omega
  have hlast : g.rowPtr.getD (node + 1) 0 ≤ g.rowPtr.getLastD 0 := by
    rw [List.getD_eq_getElem _ _ hin]
    have hne : g.rowPtr ≠ [] := List.ne_nil_of_length_pos (by omega)
    rw [List.getLastD_eq_getLast?, List.getLast?_eq_getLast_of_ne_nil hne, Option.getD_some,
      List.getLast_eq_getElem]
    by_cases heq : node + 1 = g.rowPtr.length - 1
    · simp [heq]
    · exact List.pairwise_iff_getElem.mp hg.rowPtr_sorted _ _ hin (by omega) (by omega)
  rw [hg.rowPtr_last] at hlast
  omega

end CsrGraph
end Sqry
