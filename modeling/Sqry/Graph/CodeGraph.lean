import Sqry.Bind.Tables

/-!
The whole graph, and the removal of a file in place. The maps of the stores are association lists.
What is stored about a node beside its entry is a parameter: no function here looks into it.
-/

namespace Sqry

/-- `μ` are the stored entries, `δ` the shape descriptors. -/
structure NodeMetadataStore (μ δ : Type) where
  entries : AList fun _ : NodeId => μ
  shapeDescriptors : AList fun _ : NodeId => δ

def retainKeys {κ β : Type} [DecidableEq κ] (keep : κ → Bool) (m : AList fun _ : κ => β) :
    AList fun _ : κ => β :=
  ⟨m.entries.filter fun entry => keep entry.1, m.nodupKeys.sublist List.filter_sublist⟩

namespace NodeMetadataStore
variable {μ δ : Type}

def new : NodeMetadataStore μ δ := ⟨∅, ∅⟩

/-- `retain_entries` with the pair of index and generation as a node identifier. -/
def retainNodes (s : NodeMetadataStore μ δ) (keep : NodeId → Bool) : NodeMetadataStore μ δ :=
  ⟨retainKeys keep s.entries, retainKeys keep s.shapeDescriptors⟩

end NodeMetadataStore

structure NodeProvenance where
  firstSeenEpoch : Nat
  lastSeenEpoch : Nat
  contentHash : List UInt8
  deriving DecidableEq, Repr

structure NodeProvenanceStore where
  slots : List (Option (Nat × NodeProvenance))
  deriving DecidableEq, Repr

namespace NodeProvenanceStore

def new : NodeProvenanceStore := ⟨[]⟩

def lookup (s : NodeProvenanceStore) (id : NodeId) : Option NodeProvenance :=
  match s.slots[id.index]?.join with
  | none => none
  | some slot => if slot.1 ≠ id.generation then none else some slot.2

def retainByNode (s : NodeProvenanceStore) (keep : NodeId → Bool) : NodeProvenanceStore :=
  ⟨s.slots.mapIdx fun index slot => slot.filter fun slot => keep ⟨index, slot.1⟩⟩

end NodeProvenanceStore

structure FileSegment where
  startSlot : Nat
  slotCount : Nat
  deriving DecidableEq, Repr

structure FileSegmentTable where
  segments : List (Option FileSegment)
  deriving DecidableEq, Repr

namespace FileSegmentTable

def new : FileSegmentTable := ⟨[]⟩

def recordRange (t : FileSegmentTable) (file : FileId) (startSlot slotCount : Nat) :
    FileSegmentTable :=
  ⟨(t.segments ++ List.replicate (file + 1 - t.segments.length) none).set file
    (some ⟨startSlot, slotCount⟩)⟩

def get (t : FileSegmentTable) (file : FileId) : Option FileSegment := t.segments[file]?.join

def remove (t : FileSegmentTable) (file : FileId) : FileSegmentTable :=
  if file < t.segments.length then ⟨t.segments.set file none⟩ else t

end FileSegmentTable

inductive BindingSiteKind where
  | designatedInitializer | positionalInitializer
  deriving DecidableEq, Repr

structure BindingEntry where
  instanceNode : NodeId
  targetFn : NodeId
  siteKind : BindingSiteKind
  deriving DecidableEq, Repr

inductive IndirectShape where
  | pointerExpr (varName : String)
  | fieldExpr (receiverName fieldName : String)
  deriving DecidableEq, Repr

structure IndirectCallsite where
  caller : NodeId
  fileId : FileId
  useSpan : Nat × Nat
  shape : IndirectShape
  argumentCount : Nat
  isAsync : Bool
  deriving DecidableEq, Repr

/-- The tables for indirect calls in C, without the scopes of local variables, which hold neither
nodes nor interned strings. -/
structure CIndirectSideTables where
  fnSignature : AList fun _ : NodeId => StringId
  structFieldFnptr : AList fun _ : StringId × StringId => StringId
  localVarType : AList fun _ : NodeId => StringId
  bindingsByField : AList fun _ : StringId × StringId => List BindingEntry
  pendingCallsites : List IndirectCallsite

structure CodeGraph (π μ δ : Type) [DecidableEq π] extends GraphStores π where
  strings : StringInterner
  macroMetadata : NodeMetadataStore μ δ
  nodeProvenance : NodeProvenanceStore
  factEpoch : Nat
  epoch : Nat
  scopeArena : ScopeArena
  aliasTable : AliasTable
  shadowTable : ShadowTable
  scopeProvenanceStore : ScopeProvenanceStore
  fileSegments : FileSegmentTable
  cIndirectTables : Option CIndirectSideTables

namespace NodeArena
variable {α : Type}

/-- `retain_nodes`: every live node that is not kept is removed. -/
def retainNodes (a : NodeArena α) (keep : NodeId → Bool) : NodeArena α :=
  a.removeAll (a.iter.filterMap fun p => if !keep p.1 then some p.1 else none)

end NodeArena

namespace CodeGraph
variable {π μ δ : Type} [DecidableEq π]

def new : CodeGraph π μ δ where
  nodes := NodeArena.new
  edges := BidirectionalEdgeStore.new
  files := Registry.FileRegistry.new
  indices := AuxiliaryIndices.new
  strings := StringInterner.new
  macroMetadata := NodeMetadataStore.new
  nodeProvenance := NodeProvenanceStore.new
  factEpoch := 0
  epoch := 0
  scopeArena := ScopeArena.new
  aliasTable := AliasTable.new
  shadowTable := ShadowTable.new
  scopeProvenanceStore := ScopeProvenanceStore.new
  fileSegments := FileSegmentTable.new
  cIndirectTables := none

def releaseFile (g : CodeGraph π μ δ) (file : FileId) : CodeGraph π μ δ :=
  { g with
    files := ((g.files.takeNodes file).1.unregister file).1
    fileSegments := g.fileSegments.remove file }

/-- What both ways do with the nodes of the file: remove them, and the edges that touch a slot of
one of them. -/
def dropNodes (g : CodeGraph π μ δ) (tombstoned : List NodeId) : CodeGraph π μ δ :=
  { g with
    nodes := g.nodes.removeAll tombstoned
    edges := (g.edges.tombstoneEdgesForNodes tombstoned).1 }

def retainNodes (g : CodeGraph π μ δ) (keep : NodeId → Bool) : CodeGraph π μ δ :=
  { g with
    indices := g.indices.retainNodeIds keep
    macroMetadata := g.macroMetadata.retainNodes keep
    nodeProvenance := g.nodeProvenance.retainByNode keep
    scopeArena := g.scopeArena.retainByNode keep
    aliasTable := g.aliasTable.retainByNode keep
    shadowTable := g.shadowTable.retainByNode keep }

/-- `remove_file` on the graph itself, with the nodes it returns. -/
def removeFile (g : CodeGraph π μ δ) (file : FileId) : CodeGraph π μ δ × List NodeId :=
  let tombstoned := g.files.nodesForFile file
  let released := g.releaseFile file
  if tombstoned.isEmpty then (released, tombstoned)
  else ((released.dropNodes tombstoned).retainNodes fun id => id ∉ tombstoned, tombstoned)

end CodeGraph
end Sqry
