import Sqry.Analysis.Scc
import Sqry.Lib.SortedGroups
import Sqry.Lib.Worklist

/-!
The condensation of the components for one edge kind: an acyclic graph in compressed rows, with
labels for reachability or without. The computation of the labels is a parameter.
-/

namespace Sqry

inductive BudgetExceededPolicy where
  | fail | degrade
  deriving DecidableEq, Repr

structure LabelBudgetConfig where
  budgetPerKind : Nat
  onExceeded : BudgetExceededPolicy
  densityGateThreshold : Nat
  skipLabels : Bool
  deriving DecidableEq, Repr

def LabelBudgetConfig.default : LabelBudgetConfig := ⟨15000000, .degrade, 64, false⟩

inductive ReachabilityStrategy where
  | intervalLabels | dagBfs
  deriving DecidableEq, Repr

structure Interval where
  start : Nat
  stop : Nat
  deriving DecidableEq, Repr

def Interval.intersects (a b : Interval) : Bool := a.start < b.stop && b.start < a.stop

structure ReachabilityLabels where
  outOffsets : List Nat
  outData : List Interval
  inOffsets : List Nat
  inData : List Interval
  deriving DecidableEq, Repr

structure CondensationDag where
  edgeKind : EdgeKind
  sccCount : Nat
  edgeCount : Nat
  rowOffsets : List Nat
  colIndices : List Nat
  topoOrder : List Nat
  labels : ReachabilityLabels
  strategy : ReachabilityStrategy
  deriving DecidableEq, Repr

namespace CondensationDag

def ownedBy {α : Type} (offsets : List Nat) (data : List α) (sccId : Nat) : List α :=
  (data.drop (offsets.getD sccId 0)).take (offsets.getD (sccId + 1) 0 - offsets.getD sccId 0)

section Reach
variable (dag : CondensationDag)

def successors (sccId : Nat) : List Nat :=
  if sccId ≥ dag.rowOffsets.length - 1 then []
  else ownedBy dag.rowOffsets dag.colIndices sccId

def canReachViaLabels (fromScc toScc : Nat) : Bool :=
  if fromScc ≥ dag.labels.outOffsets.length - 1 then false
  else if toScc ≥ dag.labels.inOffsets.length - 1 then false
  else
    (ownedBy dag.labels.outOffsets dag.labels.outData fromScc).any fun out =>
      (ownedBy dag.labels.inOffsets dag.labels.inData toScc).any out.intersects

def searchFor (toScc : Nat) : Nat → List Nat → List Nat → Bool
  | _, _, [] => false
  | 0, _, _ :: _ => false
  | steps + 1, visited, current :: queue =>
    if toScc ∈ dag.successors current then true
    else
      let state := (dag.successors current).foldl Worklist.visit (visited, queue)
      searchFor toScc steps state.1 state.2

def canReachViaBfs (fromScc toScc : Nat) : Bool :=
  dag.searchFor toScc (dag.colIndices.length + 1) [fromScc] [fromScc]

def canReach (fromScc toScc : Nat) : Bool :=
  if fromScc = toScc then true
  else
    match dag.strategy with
    | .intervalLabels => dag.canReachViaLabels fromScc toScc
    | .dagBfs => dag.canReachViaBfs fromScc toScc

end Reach

section Build

/-- `none` is a failed `expect`. The set of edges is a list without repetitions. -/
def extractCrossSccEdges (scc : SccData) (adjacency : CsrAdjacency) :
    Option (List (Nat × Nat)) :=
  (List.range adjacency.nodeCount).foldlM (fun edges node =>
    match scc.sccOf ⟨node, 0⟩, adjacency.neighborsFiltered ⟨node, 0⟩ scc.edgeKind with
    | some srcScc, some neighbors =>
      neighbors.foldlM (fun edges target =>
        match scc.sccOf ⟨target, 0⟩ with
        | none => none
        | some tgtScc =>
          if srcScc = tgtScc ∨ (srcScc, tgtScc) ∈ edges then some edges
          else some (edges ++ [(srcScc, tgtScc)])) edges
    | _, _ => none) []

def sccRow (edges : List (Nat × Nat)) (sccId : Nat) : List Nat :=
  SortedGroups.sortBy compare ((edges.filter fun edge => edge.1 = sccId).map Prod.snd)

def buildCsrFromEdges (edges : List (Nat × Nat)) (sccCount : Nat) : List Nat × List Nat :=
  (List.range sccCount).foldl (fun (rowOffsets, colIndices) sccId =>
    let colIndices := colIndices ++ sccRow edges sccId
    (rowOffsets ++ [colIndices.length], colIndices)) ([0], [])

def releaseSuccessor (state : (Nat → Nat) × List Nat) (successor : Nat) :
    (Nat → Nat) × List Nat :=
  let inDegree := Function.update state.1 successor (state.1 successor - 1)
  (inDegree, if inDegree successor = 0 then state.2 ++ [successor] else state.2)

def kahnLoop (rowOffsets colIndices : List Nat) :
    Nat → (Nat → Nat) → List Nat → List Nat → List Nat
  | _, _, [], order => order
  | 0, _, _ :: _, order => order
  | steps + 1, inDegree, sccId :: queue, order =>
    let state := (ownedBy rowOffsets colIndices sccId).foldl releaseSuccessor (inDegree, queue)
    kahnLoop rowOffsets colIndices steps state.1 state.2 (order ++ [sccId])

/-- `none` when a cycle keeps components out of the order. -/
def computeTopologicalOrder (sccCount : Nat) (rowOffsets colIndices : List Nat) :
    Option (List Nat) :=
  let inDegree := fun sccId => colIndices.count sccId
  let order := kahnLoop rowOffsets colIndices sccCount inDegree
    ((List.range sccCount).filter fun sccId => inDegree sccId = 0) []
  if order.length = sccCount then some order else none

/-- `computeLabels` fails on a budget that it exceeds; `none` is an error or a panic. -/
def buildWithBudget (computeLabels : CondensationDag → Option Nat → Option ReachabilityLabels)
    (scc : SccData) (adjacency : CsrAdjacency) (config : LabelBudgetConfig) :
    Option CondensationDag :=
  match extractCrossSccEdges scc adjacency with
  | none => none
  | some edges =>
    let (rowOffsets, colIndices) := buildCsrFromEdges edges scc.sccCount
    match computeTopologicalOrder scc.sccCount rowOffsets colIndices with
    | none => none
    | some topoOrder =>
      let densityGated := config.densityGateThreshold > 0 && scc.sccCount > 0 &&
        colIndices.length > config.densityGateThreshold * scc.sccCount
      let budget := if config.budgetPerKind = 0 then none else some config.budgetPerKind
      let minimumExceeded :=
        config.budgetPerKind ≠ 0 && scc.sccCount * 2 > config.budgetPerKind
      let unlabelled : CondensationDag :=
        ⟨scc.edgeKind, scc.sccCount, colIndices.length, rowOffsets, colIndices, topoOrder,
          ⟨[], [], [], []⟩, .dagBfs⟩
      let degraded := if config.onExceeded = .fail then none else some unlabelled
      if config.skipLabels then some unlabelled
      else if minimumExceeded then degraded
      else if densityGated then some unlabelled
      else
        match computeLabels unlabelled budget with
        | none => degraded
        | some labels => some { unlabelled with labels := labels, strategy := .intervalLabels }

end Build

section Search
variable {dag : CondensationDag} {toScc : Nat}

theorem searchFor_iff {start result : List Nat} {steps : Nat} {visited queue : List Nat}
    (hfrontier : Worklist.Frontier dag.successors start visited queue)
    (hrun : Worklist.run dag.successors steps visited queue = some result)
    (hpast : ∀ x ∈ visited, x ∉ queue → toScc ∉ dag.successors x) :
    dag.searchFor toScc steps visited queue = true ↔ ∃ x ∈ result, toScc ∈ dag.successors x := by
  induction steps generalizing visited queue with
  | zero =>
    cases queue with
    | cons current queue => cases hrun
    | nil =>
      cases hrun
      refine iff_of_false Bool.false_ne_true ?_
      rintro ⟨x, hx, hmem⟩
      exact hpast x hx List.not_mem_nil hmem
  | succ steps ih =>
    cases queue with
    | nil =>
      cases hrun
      refine iff_of_false Bool.false_ne_true ?_
      rintro ⟨x, hx, hmem⟩
      exact hpast x hx List.not_mem_nil hmem
    | cons current queue =>
      rw [searchFor]
      by_cases hfound : toScc ∈ dag.successors current
      · rw [if_pos hfound]
        refine iff_of_true rfl ⟨current, ?_, hfound⟩
        refine (Worklist.mem_run_iff hfrontier hrun).mpr (hfrontier.sound current ?_)
        exact hfrontier.queued current List.mem_cons_self
      · rw [if_neg hfound]
        refine ih hfrontier.step hrun fun x hx hnot => ?_
        rw [Worklist.mem_queue_foldl_visit] at hnot
        have hvisited : x ∈ visited := by
          cases Worklist.mem_seen_foldl_visit.mp hx with
          | inl hold => exact hold
          | inr hnext =>
            by_contra hnew
            exact hnot (.inr ⟨hnext, hnew⟩)
        by_cases hcurrent : x = current
        · exact hcurrent ▸ hfound
        · refine hpast x hvisited fun hmem => ?_
          exact (List.mem_cons.mp hmem).elim hcurrent fun hlater => hnot (.inl hlater)

theorem successors_subset (dag : CondensationDag) (x : Nat) :
    ∀ y ∈ dag.successors x, y ∈ dag.colIndices := by
  intro y hy
  rw [successors] at hy
  split at hy
  · cases hy
  · exact (List.drop_sublist _ _).subset ((List.take_sublist _ _).subset hy)

theorem canReachViaBfs_iff (dag : CondensationDag) (fromScc toScc : Nat) :
    dag.canReachViaBfs fromScc toScc = true ↔
      Relation.TransGen (fun a b => b ∈ dag.successors a) fromScc toScc := by
  have hmissing : Worklist.missing dag.colIndices [fromScc] ≤ dag.colIndices.length :=
    List.countP_le_length
  obtain ⟨result, hrun⟩ := @Worklist.exists_run _ _ dag.successors dag.colIndices
    (successors_subset dag) (dag.colIndices.length + 1) [fromScc] [fromScc] (by
      rw [List.length_singleton]
      omega)
  have hfrontier := Worklist.frontier_start dag.successors [fromScc]
  rw [canReachViaBfs, searchFor_iff hfrontier hrun fun x hx hnot => absurd hx hnot]
  constructor
  · rintro ⟨x, hx, hmem⟩
    obtain ⟨a, ha, hpath⟩ := (Worklist.mem_run_iff hfrontier hrun).mp hx
    cases List.mem_singleton.mp ha
    exact Relation.TransGen.tail' hpath hmem
  · intro h
    obtain ⟨x, hpath, hmem⟩ := Relation.TransGen.tail'_iff.mp h
    exact ⟨x, (Worklist.mem_run_iff hfrontier hrun).mpr ⟨fromScc, List.mem_cons_self, hpath⟩, hmem⟩

end Search

end CondensationDag
end Sqry
