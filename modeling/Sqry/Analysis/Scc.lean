import Mathlib.Algebra.BigOperators.Intervals
import Sqry.Edge.Csr
import Sqry.Lib.Tarjan

/-!
The adjacency that the analyses read: the rows of a compressed graph without tombstones,
sequence numbers and spans. Neighbours are filtered by the variant of an edge kind.
-/

namespace Sqry

open Components (Reaches)

structure CsrAdjacency where
  nodeCount : Nat
  edgeCount : Nat
  rowOffsets : List Nat
  colIndices : List Nat
  edgeKinds : List EdgeKind
  deriving DecidableEq, Repr

namespace CsrAdjacency

def fromCsrGraph (csr : CsrGraph) : CsrAdjacency :=
  ⟨csr.nodeCount, csr.colIdx.length, csr.rowPtr, csr.colIdx.map NodeId.index, csr.edgeKind⟩

structure WellFormed (adj : CsrAdjacency) : Prop where
  rowOffsets_length : adj.rowOffsets.length = adj.nodeCount + 1
  rowOffsets_sorted : adj.rowOffsets.Pairwise (· ≤ ·)
  rowOffsets_le : ∀ offset ∈ adj.rowOffsets, offset ≤ adj.colIndices.length
  edgeKinds_length : adj.edgeKinds.length = adj.colIndices.length
  colIndices_lt : ∀ target ∈ adj.colIndices, target < adj.nodeCount

/-- The edges at some places that have the variant of the kind, `none` beyond the arrays. -/
def targetsAt (adj : CsrAdjacency) (kind : EdgeKind) : List Nat → Option (List Nat)
  | [] => some []
  | i :: places =>
    match adj.edgeKinds[i]? with
    | none => none
    | some edgeKind =>
      if edgeKind.ctorIdx = kind.ctorIdx then
        match adj.colIndices[i]?, targetsAt adj kind places with
        | some target, some targets => some (target :: targets)
        | _, _ => none
      else targetsAt adj kind places

/-- `none` when the row offsets are empty or point beyond the arrays. -/
def neighborsFiltered (adj : CsrAdjacency) (node : NodeId) (kind : EdgeKind) :
    Option (List Nat) :=
  if adj.rowOffsets = [] then none
  else if node.index ≥ adj.rowOffsets.length - 1 then some []
  else
    match adj.rowOffsets[node.index]?, adj.rowOffsets[node.index + 1]? with
    | some start, some stop => targetsAt adj kind (List.range' start (stop - start))
    | _, _ => none

/-- An edge whose kind has the variant of `kind`. -/
def EdgeOfKind (adj : CsrAdjacency) (kind : EdgeKind) (u v : Nat) : Prop :=
  ∃ start stop i edgeKind, adj.rowOffsets[u]? = some start ∧ adj.rowOffsets[u + 1]? = some stop ∧
    start ≤ i ∧ i < stop ∧ adj.edgeKinds[i]? = some edgeKind ∧
    edgeKind.ctorIdx = kind.ctorIdx ∧ adj.colIndices[i]? = some v

def successors (adj : CsrAdjacency) (kind : EdgeKind) (u : Nat) : List Nat :=
  (adj.neighborsFiltered ⟨u, 0⟩ kind).getD []

section Neighbors
variable {adj : CsrAdjacency}

theorem targetsAt_spec (hwf : adj.WellFormed) (kind : EdgeKind) {places : List Nat}
    (h : ∀ i ∈ places, i < adj.colIndices.length) :
    ∃ targets, targetsAt adj kind places = some targets ∧
      ∀ v, v ∈ targets ↔ ∃ i ∈ places, ∃ edgeKind, adj.edgeKinds[i]? = some edgeKind ∧
        edgeKind.ctorIdx = kind.ctorIdx ∧ adj.colIndices[i]? = some v := by
  induction places with
  | nil => exact ⟨[], rfl, fun v => ⟨fun h => (by cases h), fun ⟨i, hi, _⟩ => by cases hi⟩⟩
  | cons i places ih =>
    have hi := h i List.mem_cons_self
    have hkind : i < adj.edgeKinds.length := by
      rw [hwf.edgeKinds_length]
      exact hi
    obtain ⟨targets, htargets, hmem⟩ := ih fun k hk => h k (List.mem_cons_of_mem i hk)
    rw [targetsAt, List.getElem?_eq_getElem hkind]
    by_cases hmatch : adj.edgeKinds[i].ctorIdx = kind.ctorIdx
    · simp only [hmatch, if_true, List.getElem?_eq_getElem hi, htargets]
      refine ⟨adj.colIndices[i] :: targets, rfl, fun v => ?_⟩
      rw [List.mem_cons, hmem]
      constructor
      · intro hv
        cases hv with
        | inl heq =>
          exact ⟨i, List.mem_cons_self, _, List.getElem?_eq_getElem hkind, hmatch,
            by rw [List.getElem?_eq_getElem hi, heq]⟩
        | inr hv =>
          obtain ⟨k, hk, hrest⟩ := hv
          exact ⟨k, List.mem_cons_of_mem i hk, hrest⟩
      · intro ⟨k, hk, edgeKind, hedge, hmatch', hcol⟩
        cases List.mem_cons.mp hk with
        | inl heq =>
          rw [heq, List.getElem?_eq_getElem hi] at hcol
          exact Or.inl (Option.some.inj hcol).symm
        | inr hk => exact Or.inr ⟨k, hk, edgeKind, hedge, hmatch', hcol⟩
    · simp only [hmatch, if_false, htargets]
      refine ⟨targets, rfl, fun v => ?_⟩
      rw [hmem]
      constructor
      · intro ⟨k, hk, hrest⟩
        exact ⟨k, List.mem_cons_of_mem i hk, hrest⟩
      · intro ⟨k, hk, edgeKind, hedge, hmatch', hcol⟩
        cases List.mem_cons.mp hk with
        | inl heq =>
          rw [heq, List.getElem?_eq_getElem hkind] at hedge
          cases hedge
          exact absurd hmatch' hmatch
        | inr hk => exact ⟨k, hk, edgeKind, hedge, hmatch', hcol⟩

theorem neighborsFiltered_spec (hwf : adj.WellFormed) (kind : EdgeKind) (u : Nat) :
    ∃ targets, adj.neighborsFiltered ⟨u, 0⟩ kind = some targets ∧
      ∀ v, v ∈ targets ↔ EdgeOfKind adj kind u v := by
  have hlen := hwf.rowOffsets_length
  have hne : adj.rowOffsets ≠ [] := by
    intro hnil
    rw [hnil] at hlen
    simp at hlen
  rw [neighborsFiltered, if_neg hne]
  by_cases hu : u ≥ adj.rowOffsets.length - 1
  · rw [if_pos hu]
    refine ⟨[], rfl, fun v => ⟨fun h => (by cases h), ?_⟩⟩
    intro ⟨_, _, _, _, _, hstop, _⟩
    have hlt := (List.getElem?_eq_some_iff.mp hstop).1
    omega
  · have hlt : u < adj.rowOffsets.length := by omega
    have hlt' : u + 1 < adj.rowOffsets.length := by omega
    rw [if_neg hu, List.getElem?_eq_getElem hlt, List.getElem?_eq_getElem hlt']
    have hstop : adj.rowOffsets[u + 1] ≤ adj.colIndices.length :=
      hwf.rowOffsets_le _ (List.getElem_mem hlt')
    have hplaces : ∀ i ∈ List.range' adj.rowOffsets[u] (adj.rowOffsets[u + 1] - adj.rowOffsets[u]),
        i < adj.colIndices.length := by
      intro i hi
      have hrange := List.mem_range'_1.mp hi
      omega
    obtain ⟨targets, htargets, hmem⟩ := targetsAt_spec hwf kind hplaces
    refine ⟨targets, htargets, fun v => ?_⟩
    rw [hmem]
    constructor
    · intro ⟨i, hi, edgeKind, hedge, hmatch, hcol⟩
      have hrange := List.mem_range'_1.mp hi
      exact ⟨_, _, i, edgeKind, List.getElem?_eq_getElem hlt, List.getElem?_eq_getElem hlt',
        hrange.1, by omega, hedge, hmatch, hcol⟩
    · intro ⟨start, stop, i, edgeKind, hstart, hstop', hle, hlti, hedge, hmatch, hcol⟩
      rw [List.getElem?_eq_getElem hlt] at hstart
      rw [List.getElem?_eq_getElem hlt'] at hstop'
      cases hstart
      cases hstop'
      exact ⟨i, List.mem_range'_1.mpr ⟨hle, by omega⟩, edgeKind, hedge, hmatch, hcol⟩

theorem neighborsFiltered_eq (hwf : adj.WellFormed) (kind : EdgeKind) (u : Nat) :
    adj.neighborsFiltered ⟨u, 0⟩ kind = some (adj.successors kind u) := by
  obtain ⟨targets, htargets, -⟩ := neighborsFiltered_spec hwf kind u
  rw [successors, htargets]
  rfl

variable {kind : EdgeKind}

theorem mem_successors_iff (hwf : adj.WellFormed) {u v : Nat} :
    v ∈ adj.successors kind u ↔ EdgeOfKind adj kind u v := by
  obtain ⟨targets, htargets, hmem⟩ := neighborsFiltered_spec hwf kind u
  rw [successors, htargets]
  exact hmem v

theorem EdgeOfKind.lt (hwf : adj.WellFormed) {u v : Nat} (h : EdgeOfKind adj kind u v) :
    u < adj.nodeCount ∧ v < adj.nodeCount := by
  obtain ⟨start, stop, i, edgeKind, hstart, hstop, -, -, -, -, hcol⟩ := h
  have hlt := (List.getElem?_eq_some_iff.mp hstop).1
  have hlen := hwf.rowOffsets_length
  exact ⟨by omega, hwf.colIndices_lt v (List.mem_of_getElem? hcol)⟩

theorem successors_lt (hwf : adj.WellFormed) {u v : Nat} (h : v ∈ adj.successors kind u) :
    v < adj.nodeCount :=
  (EdgeOfKind.lt hwf ((mem_successors_iff hwf).mp h)).2

def ReachesByKind (adj : CsrAdjacency) (kind : EdgeKind) : Nat → Nat → Prop :=
  Relation.ReflTransGen (EdgeOfKind adj kind)

theorem reachesByKind_iff (hwf : adj.WellFormed) {u v : Nat} :
    ReachesByKind adj kind u v ↔ Reaches (adj.successors kind) u v := by
  have hedges : EdgeOfKind adj kind = fun u v => v ∈ adj.successors kind u := by
    funext u v
    exact propext (mem_successors_iff hwf).symm
  rw [ReachesByKind, Reaches, hedges]

end Neighbors
end CsrAdjacency
end Sqry

/-!
Strongly connected components for one edge kind. Tarjan's search runs over an explicit stack
of frames: a frame is popped, its node is visited if it is new, and either the frame goes back
with its next neighbour or the node is left.
-/

namespace Sqry

structure SccData where
  edgeKind : EdgeKind
  nodeCount : Nat
  sccCount : Nat
  nonTrivialCount : Nat
  maxSccSize : Nat
  nodeToScc : List Nat
  sccOffsets : List Nat
  sccMembers : List Nat
  hasSelfLoop : List Bool
  deriving DecidableEq, Repr

/-- What the search works on. The arrays have an entry for every node and are functions of
the index; the stacks have their last element in front. -/
structure TarjanState where
  index : Nat
  stack : List Nat
  onStack : Nat → Bool
  indices : Nat → Option Nat
  lowlinks : Nat → Nat
  sccs : List (List Nat)
  dfsStack : List (Nat × Nat)

namespace TarjanState

def new : TarjanState := ⟨0, [], fun _ => false, fun _ => none, fun _ => u32Max, [], []⟩

def visit (st : TarjanState) (node : Nat) : TarjanState :=
  if (st.indices node).isNone then
    { st with
      indices := Function.update st.indices node (some st.index)
      lowlinks := Function.update st.lowlinks node st.index
      index := st.index + 1
      stack := node :: st.stack
      onStack := Function.update st.onStack node true }
  else st

/-- The members that are popped down to a node, and what stays; `none` when the stack runs
empty. -/
def popScc (node : Nat) : List Nat → Option (List Nat × List Nat)
  | [] => none
  | member :: stack =>
    if member = node then some ([member], stack)
    else
      match popScc node stack with
      | none => none
      | some (members, rest) => some (member :: members, rest)

/-- All neighbours of a node are processed; `none` is a failed unwrap. -/
def finish (st : TarjanState) (node : Nat) : Option TarjanState :=
  let st :=
    match st.dfsStack with
    | (parent, _) :: _ =>
      { st with
        lowlinks := Function.update st.lowlinks parent
          (min (st.lowlinks parent) (st.lowlinks node)) }
    | [] => st
  match st.indices node with
  | none => none
  | some i =>
    if st.lowlinks node = i then
      match popScc node st.stack with
      | none => none
      | some (members, rest) =>
        some { st with
          stack := rest
          onStack := fun v => if v ∈ members then false else st.onStack v
          sccs := st.sccs ++ [members] }
    else some st

/-- One pass of the loop for the popped frame; `none` is a failed unwrap or an access beyond
the arrays. -/
def process (neighbors : Nat → List Nat) (nodeCount : Nat) (st : TarjanState)
    (node neighborIdx : Nat) : Option TarjanState :=
  let st := st.visit node
  match (neighbors node)[neighborIdx]? with
  | some next =>
    let st := { st with dfsStack := (node, neighborIdx + 1) :: st.dfsStack }
    if nodeCount ≤ next then none
    else
      match st.indices next with
      | none => some { st with dfsStack := (next, 0) :: st.dfsStack }
      | some i =>
        if st.onStack next then
          some { st with
            lowlinks := Function.update st.lowlinks node (min (st.lowlinks node) i) }
        else some st
  | none => st.finish node

/-- The loop over the frames, `none` when `fuel` passes are not enough. -/
def drain (neighbors : Nat → List Nat) (nodeCount : Nat) : Nat → TarjanState → Option TarjanState
  | fuel, st =>
    match st.dfsStack with
    | [] => some st
    | (node, neighborIdx) :: dfsStack =>
      match fuel with
      | 0 => none
      | fuel + 1 =>
        match process neighbors nodeCount { st with dfsStack := dfsStack } node
          neighborIdx with
        | none => none
        | some st => drain neighbors nodeCount fuel st

def searchAll (neighbors : Nat → List Nat) (nodeCount fuel : Nat) :
    List Nat → TarjanState → Option TarjanState
  | [], st => some st
  | start :: starts, st =>
    if (st.indices start).isSome then searchAll neighbors nodeCount fuel starts st
    else
      match drain neighbors nodeCount fuel { st with dfsStack := [(start, 0)] } with
      | none => none
      | some st => searchAll neighbors nodeCount fuel starts st

end TarjanState

namespace SccData

def add (neighbors : Nat → List Nat) (d : SccData) (sccId : Nat) (members : List Nat) : SccData :=
  let selfLoop :=
    match members with
    | [node] => decide (node ∈ neighbors node)
    | _ => false
  { d with
    maxSccSize := max d.maxSccSize members.length
    hasSelfLoop := d.hasSelfLoop ++ [selfLoop]
    nonTrivialCount := d.nonTrivialCount + if members.length > 1 || selfLoop then 1 else 0
    nodeToScc := members.foldl (fun nodeToScc member => nodeToScc.set member sccId) d.nodeToScc
    sccMembers := d.sccMembers ++ members
    sccOffsets := d.sccOffsets ++ [d.sccOffsets.getLastD 0 + members.length] }

def addAll (neighbors : Nat → List Nat) : SccData → Nat → List (List Nat) → SccData
  | d, _, [] => d
  | d, sccId, members :: sccs => addAll neighbors (d.add neighbors sccId members) (sccId + 1) sccs

/-- `none` is a panic, or a search that `fuel` passes do not finish. -/
def computeTarjan (adjacency : CsrAdjacency) (kind : EdgeKind) (fuel : Nat) : Option SccData :=
  match (List.range adjacency.nodeCount).mapM fun i =>
      adjacency.neighborsFiltered ⟨i, 0⟩ kind with
  | none => none
  | some filteredNeighbors =>
    let neighbors := fun node => filteredNeighbors.getD node []
    match TarjanState.searchAll neighbors adjacency.nodeCount fuel
        (List.range adjacency.nodeCount) .new with
    | none => none
    | some st =>
      some (addAll neighbors
        { edgeKind := kind
          nodeCount := adjacency.nodeCount
          sccCount := st.sccs.length
          nonTrivialCount := 0
          maxSccSize := 0
          nodeToScc := List.replicate adjacency.nodeCount u32Max
          sccOffsets := [0]
          sccMembers := []
          hasSelfLoop := [] } 0 st.sccs)

def sccOf (d : SccData) (node : NodeId) : Option Nat := d.nodeToScc[node.index]?

def sccMembersOf (d : SccData) (sccId : Nat) : List Nat :=
  if sccId ≥ d.sccOffsets.length - 1 then []
  else
    let start := d.sccOffsets.getD sccId 0
    let stop := d.sccOffsets.getD (sccId + 1) 0
    (d.sccMembers.drop start).take (stop - start)

end SccData
end Sqry
