import Sqry.Persist.Layout

/-!
Decoding the data section of a snapshot, and the steps that bring an older version to the
current one. Versions 7 to 9 are decoded by a parameter.
-/

namespace Sqry
namespace Persist

variable {P : Parts}

inductive PersistenceError where
  | io (text : String)
  | serialization (text : String)
  | invalidMagic (expected found : List UInt8)
  | incompatibleVersion (expected found : Nat)
  | pluginVersionMismatch (pluginId expected found : String)
  | validationFailed (text : String)
  deriving DecidableEq

section Stores
variable {ν ν' ε ε' ι ι' μ μ' : Type}

def GraphSnapshotDataV10.withStores (d : GraphSnapshotDataV10 P ν ε ι μ) (nodes : ν') (edges : ε')
    (indices : ι') (macroMetadata : μ') : GraphSnapshotDataV10 P ν' ε' ι' μ' :=
  ⟨nodes, edges, d.strings, d.files, indices, macroMetadata, d.nodeProvenance, d.edgeProvenance,
    d.scopeArena, d.aliasTable, d.shadowTable, d.scopeProvenance, d.fileSegments⟩

def GraphSnapshotDataV11.withStores (d : GraphSnapshotDataV11 P ν ε ι μ) (nodes : ν') (edges : ε')
    (indices : ι') (macroMetadata : μ') : GraphSnapshotDataV11 P ν' ε' ι' μ' :=
  ⟨d.toGraphSnapshotDataV10.withStores nodes edges indices macroMetadata, d.cIndirectTables⟩

def GraphSnapshotDataV12.withStores (d : GraphSnapshotDataV12 P ν ε ι μ) (nodes : ν') (edges : ε')
    (indices : ι') (macroMetadata : μ') : GraphSnapshotDataV12 P ν' ε' ι' μ' :=
  ⟨d.toGraphSnapshotDataV11.withStores nodes edges indices macroMetadata, d.frameworkRoutesTable,
    d.dispatchTablesTable⟩

def GraphSnapshotDataV15.withStores (d : GraphSnapshotDataV15 P ν ε ι μ) (nodes : ν') (edges : ε')
    (indices : ι') (macroMetadata : μ') : GraphSnapshotDataV15 P ν' ε' ι' μ' :=
  ⟨d.toGraphSnapshotDataV12.withStores nodes edges indices macroMetadata, d.shapeDescriptorsTable⟩

def upconvertV11ToV12 (d : GraphSnapshotDataV11 P ν ε ι μ) : GraphSnapshotDataV12 P ν ε ι μ :=
  ⟨d, [], P.noDispatch⟩

def upconvertV14ToV15 (d : GraphSnapshotDataV12 P ν ε ι μ) : GraphSnapshotDataV15 P ν ε ι μ :=
  ⟨d, []⟩

def upconvertV15ToV16 (d : GraphSnapshotDataV15 P ν ε ι μ) : GraphSnapshotDataV15 P ν ε ι μ := d

def upconvertV16ToV17 (d : GraphSnapshotDataV15 P ν ε ι μ) : GraphSnapshotDataV15 P ν ε ι μ := d

end Stores

abbrev ReadV10 (P : Parts) : Type :=
  GraphSnapshotDataV10 P (NodeArena FullNodeEntry) BidirectionalEdgeStoreV10 AuxiliaryIndices
    (List (NodeMetadataEntryV10 P))

abbrev ReadV11 (P : Parts) : Type :=
  GraphSnapshotDataV11 P (NodeArena FullNodeEntry) BidirectionalEdgeStore AuxiliaryIndices
    (MetadataEntries P)

abbrev ReadV12 (P : Parts) : Type :=
  GraphSnapshotDataV12 P (NodeArena FullNodeEntry) BidirectionalEdgeStore AuxiliaryIndices
    (MetadataEntries P)

abbrev ArenaV13 : Type := NodeArena (NodeEntryV13 NodeKindV13)

abbrev ReadV13 (P : Parts) : Type :=
  GraphSnapshotDataV12 P ArenaV13 BidirectionalEdgeStore AuxiliaryIndicesV13 (MetadataEntries P)

def upconvertV10ToV11 (d : ReadV10 P) : Except PersistenceError (ReadV11 P) :=
  match translateMetadataStoreV10 d.macroMetadata ∅ with
  | .error text => .error (.serialization text)
  | .ok macroMetadata =>
    .ok ⟨d.withStores d.nodes d.edges.toV11 d.indices macroMetadata, none⟩

theorem upconvertV10ToV11_ok {d : ReadV10 P} {store : MetadataEntries P}
    (h : translateMetadataStoreV10 d.macroMetadata ∅ = .ok store) :
    upconvertV10ToV11 d = .ok ⟨d.withStores d.nodes d.edges.toV11 d.indices store, none⟩ := by
  show (match translateMetadataStoreV10 d.macroMetadata ∅ with
    | .error text => _ | .ok macroMetadata => _) = _
  rw [h]

section Nodes
variable {κ : Type} (kinds : κ → NodeKind)

def liveSlot (slot : Slot (NodeEntryV13 κ)) : Slot FullNodeEntry :=
  match slot.state with
  | .occupied entry => ⟨slot.generation, .occupied (entry.live kinds false)⟩
  | .vacant nextFree => ⟨slot.generation, .vacant nextFree⟩

/-- `translate_node_arena_v13_to_v14`, for any way to translate the kinds. -/
def translateNodeArena (a : NodeArena (NodeEntryV13 κ)) : NodeArena FullNodeEntry :=
  ⟨a.slots.map (liveSlot kinds), a.freeHead, a.len⟩

end Nodes

def upconvertV13ToV14 (d : ReadV13 P) : ReadV12 P :=
  let nodes := translateNodeArena NodeKindV13.toV14 d.nodes
  d.withStores nodes d.edges (AuxiliaryIndices.buildFromArena nodes) d.macroMetadata

def demote (entry : FullNodeEntry) : FullNodeEntry :=
  if entry.kind = .channel then { entry with kind := .other } else entry

def demoteSpuriousChannelNodes (nodes : NodeArena FullNodeEntry) (indices : AuxiliaryIndices) :
    NodeArena FullNodeEntry × AuxiliaryIndices :=
  let demoted := nodes.mapEntries demote
  if nodes.iter.any fun node => node.2.kind = .channel then
    (demoted, AuxiliaryIndices.buildFromArena demoted)
  else (demoted, indices)

def finalizePreV13Snapshot (d : ReadV12 P) : ReadV12 P :=
  let demoted := demoteSpuriousChannelNodes d.nodes d.indices
  d.withStores demoted.1 d.edges demoted.2 d.macroMetadata

def fromBytes {α : Type} (c : Layout α) (bs : List UInt8) : Except PersistenceError α :=
  match c.fromBytes bs with
  | .error text => .error (.serialization text)
  | .ok a => .ok a

namespace Layouts
variable (L : Layouts P)

def readV10 : Layout (ReadV10 P) :=
  L.dataV10 (Layout.arena Layout.nodeEntry) L.edgesV10 Layout.indices
    (Layout.vec L.metadataEntryV10)

def readV11 : Layout (ReadV11 P) :=
  L.dataV11 (Layout.arena Layout.nodeEntry) L.edges Layout.indices L.macroMetadata

def readV12 : Layout (ReadV12 P) :=
  L.dataV12 (Layout.arena Layout.nodeEntry) L.edges Layout.indices L.macroMetadata

def readV13 : Layout (ReadV13 P) :=
  L.dataV12 (Layout.arena (Layout.entryV13 Layout.nodeKindV13)) L.edges Layout.indicesV13
    L.macroMetadata

end Layouts

abbrev Older (P : Parts) : Type :=
  FormatVersion → GraphHeader P → List UInt8 → Except PersistenceError (LiveData P)

def decodeSnapshotData (L : Layouts P) (older : Older P) (version : FormatVersion)
    (header : GraphHeader P) (bytes : List UInt8) : Except PersistenceError (LiveData P) :=
  match version with
  | .v7 | .v8 | .v9 => older version header bytes
  | .v10 =>
    match fromBytes L.readV10 bytes with
    | .error e => .error e
    | .ok d =>
      match upconvertV10ToV11 d with
      | .error e => .error e
      | .ok d => .ok (upconvertV14ToV15 (finalizePreV13Snapshot (upconvertV11ToV12 d)))
  | .v11 =>
    match fromBytes L.readV11 bytes with
    | .error e => .error e
    | .ok d => .ok (upconvertV14ToV15 (finalizePreV13Snapshot (upconvertV11ToV12 d)))
  | .v12 =>
    match fromBytes L.readV12 bytes with
    | .error e => .error e
    | .ok d => .ok (upconvertV14ToV15 (finalizePreV13Snapshot d))
  | .v13 =>
    match fromBytes L.readV13 bytes with
    | .error e => .error e
    | .ok d => .ok (upconvertV14ToV15 (upconvertV13ToV14 d))
  | .v14 =>
    match fromBytes L.readV12 bytes with
    | .error e => .error e
    | .ok d => .ok (upconvertV15ToV16 (upconvertV14ToV15 d))
  | .v15 =>
    match fromBytes L.live bytes with
    | .error e => .error e
    | .ok d => .ok (upconvertV15ToV16 d)
  | .v16 =>
    match fromBytes L.live bytes with
    | .error e => .error e
    | .ok d => .ok (upconvertV16ToV17 d)
  | .v17 => fromBytes L.live bytes

section Arms
variable (L : Layouts P) (older : Older P) (header : GraphHeader P) (bytes : List UInt8)

theorem decode_v10 : decodeSnapshotData L older .v10 header bytes =
    ((fromBytes L.readV10 bytes).bind upconvertV10ToV11).map fun d =>
      upconvertV14ToV15 (finalizePreV13Snapshot (upconvertV11ToV12 d)) := by
  show (match fromBytes L.readV10 bytes with | .error e => _ | .ok d => _) = _
  cases fromBytes L.readV10 bytes with
  | error e => rfl
  | ok d =>
    show (match upconvertV10ToV11 d with | .error e => _ | .ok d => _) =
      (upconvertV10ToV11 d).map _
    cases upconvertV10ToV11 d <;> rfl

theorem decode_v11 : decodeSnapshotData L older .v11 header bytes =
    (fromBytes L.readV11 bytes).map fun d =>
      upconvertV14ToV15 (finalizePreV13Snapshot (upconvertV11ToV12 d)) := by
  show (match fromBytes L.readV11 bytes with | .error e => _ | .ok d => _) = _
  cases fromBytes L.readV11 bytes <;> rfl

theorem decode_v12 : decodeSnapshotData L older .v12 header bytes =
    (fromBytes L.readV12 bytes).map fun d => upconvertV14ToV15 (finalizePreV13Snapshot d) := by
  show (match fromBytes L.readV12 bytes with | .error e => _ | .ok d => _) = _
  cases fromBytes L.readV12 bytes <;> rfl

theorem decode_v13 : decodeSnapshotData L older .v13 header bytes =
    (fromBytes L.readV13 bytes).map fun d => upconvertV14ToV15 (upconvertV13ToV14 d) := by
  show (match fromBytes L.readV13 bytes with | .error e => _ | .ok d => _) = _
  cases fromBytes L.readV13 bytes <;> rfl

theorem decode_v14 : decodeSnapshotData L older .v14 header bytes =
    (fromBytes L.readV12 bytes).map fun d => upconvertV15ToV16 (upconvertV14ToV15 d) := by
  show (match fromBytes L.readV12 bytes with | .error e => _ | .ok d => _) = _
  cases fromBytes L.readV12 bytes <;> rfl

theorem decode_v15 : decodeSnapshotData L older .v15 header bytes =
    (fromBytes L.live bytes).map upconvertV15ToV16 := by
  show (match fromBytes L.live bytes with | .error e => _ | .ok d => _) = _
  cases fromBytes L.live bytes <;> rfl

theorem decode_v16 : decodeSnapshotData L older .v16 header bytes =
    (fromBytes L.live bytes).map upconvertV16ToV17 := by
  show (match fromBytes L.live bytes with | .error e => _ | .ok d => _) = _
  cases fromBytes L.live bytes <;> rfl

end Arms

end Persist
end Sqry
