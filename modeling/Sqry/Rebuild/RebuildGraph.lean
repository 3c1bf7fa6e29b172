import Sqry.Compaction.Merge
import Sqry.Edge.Remap
import Sqry.Graph.CodeGraph
import Sqry.Graph.IndicesRuns

/-!
The rebuild of a graph: a copy of it on which files are removed and nodes are staged for removal,
and the step that publishes the copy. `none` stands for a panic.
-/

namespace Sqry

/-- The copy, with the nodes that are staged for removal as a list that is used as a set. -/
structure RebuildGraph (π μ δ : Type) [DecidableEq π] extends CodeGraph π μ δ where
  tombstones : List NodeId

inductive GraphBuilderError where
  | internalError (reason : String)
  deriving DecidableEq, Repr

def Direction.display : Direction → String
  | .forward => "forward"
  | .reverse => "reverse"

def CompactionError.display : CompactionError → String
  | .concurrentModification expectedSeq actualSeq direction =>
    s!"concurrent modification in {direction.display} store: expected seq {expectedSeq}, " ++
      s!"found {actualSeq}"
  | .counterReconcileFailed activeGuards forwardSwapped reverseSwapped =>
    let swapStatus :=
      match forwardSwapped, reverseSwapped with
      | true, true => "both CSRs swapped"
      | true, false => "forward CSR swapped"
      | false, true => "reverse CSR swapped"
      | false, false => "no CSRs swapped"
    s!"counter reconciliation failed: {activeGuards} active guards prevented reset " ++
      s!"({swapStatus})"
  | .buildFailed direction message =>
    s!"{direction.display} CSR build failed: builder error: " ++ message

def stringRemap (table : AList fun _ : Nat => Nat) : StringRemap :=
  table.entries.foldl (fun remap entry =>
    if h : entry.1 ≤ u32Max ∧ entry.2 ≤ u32Max then remap.insert ⟨entry.1, h.1⟩ ⟨entry.2, h.2⟩
    else remap) ∅

namespace Registry.FileRegistry
variable {π : Type} [DecidableEq π]

def rewriteStringIdsThroughRemap (r : FileRegistry π) (remap : StringRemap) : FileRegistry π :=
  if remap.entries.isEmpty then r
  else
    { r with
      entries := r.entries.map (Option.map fun entry =>
        { entry with sourceUri := entry.sourceUri.map (AuxiliaryIndices.canonicalName remap) }) }

end Registry.FileRegistry

def BidirectionalEdgeStore.retainNodes (b : BidirectionalEdgeStore) (keep : NodeId → Bool) :
    BidirectionalEdgeStore :=
  ⟨{ b.forward with delta := b.forward.delta.retainIf fun e => keep e.source && keep e.target },
    { b.reverse with delta := b.reverse.delta.retainIf fun e => keep e.source && keep e.target }⟩

def rebuiltCsr (st : EdgeStore) (nodeCount : Nat) (direction : Direction) :
    Option (Except GraphBuilderError CsrGraph) :=
  match snapshotEdges st nodeCount with
  | none => none
  | some s =>
    match buildCompactedCsr s direction with
    | none => none
    | some (.error e) =>
      some (.error (.internalError
        (s!"rebuild finalize step 9 ({direction.display} CSR build): " ++ e.display)))
    | some (.ok (csr, _)) => some (.ok csr)

def rebuildCsrs (b : BidirectionalEdgeStore) (nodeCount : Nat) :
    Option (Except GraphBuilderError BidirectionalEdgeStore) :=
  match rebuiltCsr b.forward nodeCount .forward, rebuiltCsr b.reverse nodeCount .reverse with
  | some (.ok forwardCsr), some (.ok reverseCsr) =>
    some (.ok (b.swapCsrsAndClearDeltas forwardCsr reverseCsr))
  | some (.error e), some _ => some (.error e)
  | some (.ok _), some (.error e) => some (.error e)
  | _, _ => none

namespace CodeGraph
variable {π μ δ : Type} [DecidableEq π]

def cloneForRebuild (g : CodeGraph π μ δ) : RebuildGraph π μ δ := { g with tombstones := [] }

def rewriteStringIds (g : CodeGraph π μ δ) (remap : StringRemap) : CodeGraph π μ δ :=
  { g with
    nodes := AuxiliaryIndices.rewriteNodeEntries g.nodes remap
    indices := g.indices.rewriteStringIdsThroughRemap remap
    files := g.files.rewriteStringIdsThroughRemap remap
    aliasTable := g.aliasTable.rewriteStringIdsThroughRemap remap
    shadowTable := g.shadowTable.rewriteStringIdsThroughRemap remap
    edges := g.edges.rewriteEdgeKindStringIdsThroughRemap remap }

def freezeStrings (g : CodeGraph π μ δ) : Option (CodeGraph π μ δ) :=
  match g.strings.buildDedupTable with
  | none => none
  | some (strings, table) =>
    match strings.recycleUnreferenced with
    | none => none
    | some (strings, _) =>
      some { g.rewriteStringIds (stringRemap table) with strings := strings }

def retainPublished (g : CodeGraph π μ δ) (keep : NodeId → Bool) : CodeGraph π μ δ :=
  { g.retainNodes keep with
    nodes := g.nodes.retainNodes keep
    edges := g.edges.retainNodes keep
    files := g.files.retainNodesInBuckets keep }

end CodeGraph

namespace RebuildGraph
variable {π μ δ : Type} [DecidableEq π]

def tombstone (r : RebuildGraph π μ δ) (id : NodeId) : RebuildGraph π μ δ :=
  { r with tombstones := id :: r.tombstones }

def tombstoneMany (r : RebuildGraph π μ δ) (ids : List NodeId) : RebuildGraph π μ δ :=
  { r with tombstones := ids ++ r.tombstones }

/-- `remove_file` on the copy, with the nodes it returns. -/
def removeFile (r : RebuildGraph π μ δ) (file : FileId) : RebuildGraph π μ δ × List NodeId :=
  let tombstoned := r.files.nodesForFile file
  let released := { r with toCodeGraph := r.toCodeGraph.releaseFile file }
  if tombstoned.isEmpty then (released, tombstoned)
  else
    ({ released with toCodeGraph := released.toCodeGraph.dropNodes tombstoned }.tombstoneMany
      tombstoned, tombstoned)

def finalize (r : RebuildGraph π μ δ) : Option (Except GraphBuilderError (CodeGraph π μ δ)) :=
  match r.toCodeGraph.freezeStrings with
  | none => none
  | some g =>
    let g := g.retainPublished fun id => id ∉ r.tombstones
    match rebuildCsrs g.edges g.nodes.slotCount with
    | none => none
    | some (.error e) => some (.error e)
    | some (.ok edges) =>
      some (.ok { g with edges := edges, epoch := wrappingSucc r.epoch })

end RebuildGraph
end Sqry

/-!
The two ways in which files and nodes leave a graph: in place, and on a copy that is then
published.
-/

namespace Sqry

inductive RebuildOp where
  | removeFile (file : FileId)
  | tombstone (id : NodeId)
  deriving DecidableEq, Repr

inductive Removal where
  | inPlace (files : List FileId)
  | rebuild (ops : List RebuildOp)
  deriving DecidableEq, Repr

section Runs
variable {π μ δ : Type} [DecidableEq π]

namespace RebuildGraph

def step (r : RebuildGraph π μ δ) : RebuildOp → RebuildGraph π μ δ
  | .removeFile file => (r.removeFile file).1
  | .tombstone id => r.tombstone id

def run (r : RebuildGraph π μ δ) (ops : List RebuildOp) : RebuildGraph π μ δ := ops.foldl step r

end RebuildGraph

namespace CodeGraph

def removeFiles (g : CodeGraph π μ δ) (files : List FileId) : CodeGraph π μ δ :=
  files.foldl (fun g file => (g.removeFile file).1) g

end CodeGraph

/-- `none` when the copy is not published. -/
def Removal.run (g : CodeGraph π μ δ) : Removal → Option (CodeGraph π μ δ)
  | .inPlace files => some (g.removeFiles files)
  | .rebuild ops =>
    match (g.cloneForRebuild.run ops).finalize with
    | some (.ok g) => some g
    | _ => none

def RebuildOp.nodes (g : CodeGraph π μ δ) : RebuildOp → List NodeId
  | .removeFile file => g.files.nodesForFile file
  | .tombstone id => [id]

def Removal.nodes (g : CodeGraph π μ δ) : Removal → List NodeId
  | .inPlace files => files.flatMap g.files.nodesForFile
  | .rebuild ops => ops.flatMap (RebuildOp.nodes g)

end Runs

section Buckets
variable {π μ δ : Type} [DecidableEq π]

theorem nodesForFile_releaseFile (g : CodeGraph π μ δ) (file other : FileId) :
    (g.releaseFile file).files.nodesForFile other =
      if other = file then [] else g.files.nodesForFile other := by
  have htake : (g.files.takeNodes file).1.nodesForFile other =
      if other = file then [] else g.files.nodesForFile other :=
    Buckets.bucket_erase g.files.perFileNodes file other
  simp only [CodeGraph.releaseFile, Registry.FileRegistry.unregister]
  split
  · exact htake
  · split
    · exact htake
    · refine (Buckets.bucket_erase (g.files.takeNodes file).1.perFileNodes file other).trans ?_
      by_cases hfile : other = file
      · rw [if_pos hfile, if_pos hfile]
      · rw [if_neg hfile]
        exact htake

theorem nodesForFile_removeFile (g : CodeGraph π μ δ) (file other : FileId) :
    (g.removeFile file).1.files.nodesForFile other =
      if other = file then [] else g.files.nodesForFile other := by
  rw [CodeGraph.removeFile]
  split
  · exact nodesForFile_releaseFile g file other
  · exact nodesForFile_releaseFile g file other

theorem nodesForFile_rebuild_removeFile (r : RebuildGraph π μ δ) (file other : FileId) :
    (r.removeFile file).1.files.nodesForFile other =
      if other = file then [] else r.files.nodesForFile other := by
  rw [RebuildGraph.removeFile]
  split
  · exact nodesForFile_releaseFile r.toCodeGraph file other
  · exact nodesForFile_releaseFile r.toCodeGraph file other

theorem mem_after_removal {bucket bucket' : FileId → List NodeId} {file : FileId}
    (h : ∀ other, bucket' other = if other = file then [] else bucket other) {node : NodeId}
    (other : FileId) :
    node ∈ bucket file ∨ node ∈ bucket' other ↔ node ∈ bucket file ∨ node ∈ bucket other := by
  rw [h]
  by_cases hfile : other = file
  · rw [if_pos hfile, hfile]
    simp
  · rw [if_neg hfile]

theorem mem_or_flatMap_congr {α : Type} {gone : Prop} {nodes nodes' : α → List NodeId}
    {node : NodeId} (h : ∀ a, gone ∨ node ∈ nodes' a ↔ gone ∨ node ∈ nodes a) {l : List α} :
    gone ∨ node ∈ l.flatMap nodes' ↔ gone ∨ node ∈ l.flatMap nodes := by
  have himp : ∀ {first second : α → List NodeId},
      (∀ a, gone ∨ node ∈ first a → gone ∨ node ∈ second a) →
        gone ∨ node ∈ l.flatMap first → gone ∨ node ∈ l.flatMap second := by
    intro first second himp hmem
    cases hmem with
    | inl hgone => exact .inl hgone
    | inr hlater =>
      obtain ⟨a, ha, hnode⟩ := List.mem_flatMap.mp hlater
      exact (himp a (.inr hnode)).imp_right fun hnode => List.mem_flatMap.mpr ⟨a, ha, hnode⟩
  exact ⟨himp fun a => (h a).mp, himp fun a => (h a).mpr⟩

end Buckets

section Staged
variable {π μ δ : Type} [DecidableEq π]

theorem mem_tombstones_removeFile (r : RebuildGraph π μ δ) (file : FileId) (node : NodeId) :
    node ∈ (r.removeFile file).1.tombstones ↔
      node ∈ r.files.nodesForFile file ∨ node ∈ r.tombstones := by
  rw [RebuildGraph.removeFile]
  cases hbucket : r.files.nodesForFile file with
  | nil => simp
  | cons first rest => exact List.mem_append

theorem mem_tombstones_run (ops : List RebuildOp) (r : RebuildGraph π μ δ) (node : NodeId) :
    node ∈ (r.run ops).tombstones ↔
      node ∈ ops.flatMap (RebuildOp.nodes r.toCodeGraph) ∨ node ∈ r.tombstones := by
  induction ops generalizing r with
  | nil => simp [RebuildGraph.run]
  | cons op ops ih =>
    have hrun : r.run (op :: ops) = (r.step op).run ops := rfl
    rw [hrun, ih, List.flatMap_cons, List.mem_append]
    have hop : (∀ later, node ∈ RebuildOp.nodes r.toCodeGraph op ∨
        node ∈ RebuildOp.nodes (r.step op).toCodeGraph later ↔
          node ∈ RebuildOp.nodes r.toCodeGraph op ∨
            node ∈ RebuildOp.nodes r.toCodeGraph later) ∧
        (node ∈ (r.step op).tombstones ↔
          node ∈ RebuildOp.nodes r.toCodeGraph op ∨ node ∈ r.tombstones) := by
      cases op with
      | tombstone id =>
        refine ⟨fun later => ?_, ?_⟩
        · cases later <;> rfl
        · simp [RebuildGraph.step, RebuildGraph.tombstone, RebuildOp.nodes]
      | removeFile file =>
        refine ⟨fun later => ?_, mem_tombstones_removeFile r file node⟩
        cases later with
        | tombstone id => rfl
        | removeFile other =>
          exact mem_after_removal (nodesForFile_rebuild_removeFile r file) other
    rw [hop.2]
    rw [← mem_or_flatMap_congr hop.1, or_left_comm, or_assoc]

end Staged

section Published
variable {π μ δ : Type} [DecidableEq π]

theorem finalize_eq_ok {r : RebuildGraph π μ δ} {g : CodeGraph π μ δ}
    (h : r.finalize = some (.ok g)) : ∃ frozen edges, r.toCodeGraph.freezeStrings = some frozen ∧
      rebuildCsrs (frozen.retainPublished fun id => id ∉ r.tombstones).edges
        (frozen.retainPublished fun id => id ∉ r.tombstones).nodes.slotCount =
          some (.ok edges) ∧
      g = { frozen.retainPublished fun id => id ∉ r.tombstones with
        edges := edges, epoch := wrappingSucc r.epoch } := by
  simp only [RebuildGraph.finalize] at h
  cases hfrozen : r.toCodeGraph.freezeStrings with
  | none =>
    rw [hfrozen] at h
    cases h
  | some frozen =>
    simp only [hfrozen] at h
    split at h
    · cases h
    · cases h
    · rename_i edges hedges
      cases h
      exact ⟨frozen, edges, rfl, hedges, rfl⟩

theorem freezeStrings_eq_some {g frozen : CodeGraph π μ δ} (h : g.freezeStrings = some frozen) :
    ∃ strings table strings' recycled, g.strings.buildDedupTable = some (strings, table) ∧
      strings.recycleUnreferenced = some (strings', recycled) ∧
      frozen = { g.rewriteStringIds (stringRemap table) with strings := strings' } := by
  simp only [CodeGraph.freezeStrings] at h
  split at h
  · cases h
  · rename_i strings table htable
    split at h
    · cases h
    · rename_i strings' recycled hrecycled
      cases h
      exact ⟨strings, table, strings', recycled, htable, hrecycled, rfl⟩

theorem run_rebuild_eq_some {g g' : CodeGraph π μ δ} {ops : List RebuildOp}
    (h : (Removal.rebuild ops).run g = some g') :
    (g.cloneForRebuild.run ops).finalize = some (.ok g') := by
  rw [Removal.run] at h
  split at h
  · rename_i published hpublished
    cases h
    exact hpublished
  · cases h

end Published

end Sqry
