import Sqry.Db.Derived
import Sqry.Persist.LegacyV10

/-!
The positional layout of a snapshot: the fields of a record one after another, without names,
integers as varints, lists after their length, the variant of an enumeration as its position.
A layout reads exactly what its own type declares. The stores whose types are the same in every
version are written by a codec that is a parameter.
-/

namespace Sqry
namespace Persist

abbrev Layout (α : Type) : Type := Codec UInt8 String α

namespace Layout

section Leaves

def varint : Layout Nat := Postcard.varint

def u8 : Layout UInt8 := .symbol Postcard.eof

def bool : Layout Bool := .tag Postcard.eof "Found a bool that wasn't 0 or 1"

def optional {α : Type} (c : Layout α) : Layout (Option α) :=
  .option (.tag Postcard.eof "Found an Option discriminant that wasn't 0 or 1") c

def vec {α : Type} (c : Layout α) : Layout (List α) := .list varint c

def badVarint : String :=
  "Found a varint that didn't terminate. Is the usize too big for this platform?"

def u64 : Layout UInt64 :=
  varint.checked (fun n => if n ≤ u64Max then .ok n.toUInt64 else .error badVarint) UInt64.toNat
    (by
      intro b
      have hle : b.toNat ≤ u64Max := Nat.le_of_lt_succ b.toNat_lt
      simp only [if_pos hle, UInt64.ofNat_toNat])

def stringId : Layout StringId :=
  varint.checked (fun n => if h : n ≤ u32Max then .ok ⟨n, h⟩ else .error badVarint)
    StringId.index
    (by
      intro id
      simp only [dif_pos id.index_le])

def nodeId : Layout NodeId :=
  (varint.prod varint).map
    { toFun := fun p => ⟨p.1, p.2⟩
      invFun := fun id => (id.index, id.generation)
      left_inv := fun _ => rfl
      right_inv := fun _ => rfl }

def mapOf {κ β : Type} [DecidableEq κ] (c : Layout (κ × β)) : Layout (AList fun _ : κ => β) :=
  (vec c).retract (fun pairs => pairs.foldl (fun m p => m.insert p.1 p.2) ∅)
    (fun m => m.entries.reverse.map fun s => (s.1, s.2))
    (by
      intro m
      rw [List.foldl_map, List.foldl_reverse]
      obtain ⟨entries, hnodup⟩ := m
      induction entries with
      | nil => rfl
      | cons s entries ih =>
        obtain ⟨hs, hrest⟩ := List.nodupKeys_cons.mp hnodup
        apply AList.ext
        rw [List.foldr_cons, ih hrest]
        exact AList.entries_insert_of_notMem hs)

end Leaves

section Kinds

def nodeKinds : List NodeKind :=
  [.function, .method, .class, .interface, .trait, .module, .variable, .constant, .type, .struct,
    .enum, .enumVariant, .macroItem, .parameter, .property, .callSite, .import, .export, .styleRule,
    .styleAtRule, .styleVariable, .lifetime, .component, .service, .resource, .endpoint, .test,
    .typeParameter, NodeKind.annotation, .annotationValue, .lambdaTarget, .javaModule, .enumConstant,
    .channel, .other]

def nodeKindsV13 : List NodeKindV13 :=
  [.function, .method, .class, .interface, .trait, .module, .variable, .constant, .type, .struct,
    .enum, .enumVariant, .macroItem, .parameter, .property, .callSite, .import, .export, .styleRule,
    .styleAtRule, .styleVariable, .lifetime, .component, .service, .resource, .endpoint, .test,
    .typeParameter, NodeKindV13.annotation, .annotationValue, .lambdaTarget, .javaModule, .enumConstant,
    .other]

/-- `#[serde(other)]`: a position past the end is `Other`. -/
def nodeKind : Layout NodeKind :=
  .enumeration varint nodeKinds (by intro k; cases k <;> decide) fun _ => .ok .other

def nodeKindV13 : Layout NodeKindV13 :=
  .enumeration varint nodeKindsV13 (by intro k; cases k <;> decide) fun _ => .ok .other

end Kinds

section Arena

/-- The fields of an entry after its kind, up to `is_unsafe`. -/
def entryFields : Layout (StringId × FileId × Nat × Nat × Nat × Nat × Nat × Nat ×
    Option StringId × Option StringId × Option StringId × Option StringId × Bool × Bool ×
    Option (UInt64 × UInt64) × Bool) :=
  stringId.prod (varint.prod (varint.prod (varint.prod (varint.prod (varint.prod (varint.prod
    (varint.prod ((optional stringId).prod ((optional stringId).prod ((optional stringId).prod
      ((optional stringId).prod (bool.prod (bool.prod
        ((optional (u64.prod u64)).prod bool))))))))))))))

def entryV13 {κ : Type} (kinds : Layout κ) : Layout (NodeEntryV13 κ) :=
  (kinds.prod entryFields).map
    { toFun := fun p => ⟨p.1, p.2.1, p.2.2.1, p.2.2.2.1, p.2.2.2.2.1, p.2.2.2.2.2.1,
        p.2.2.2.2.2.2.1, p.2.2.2.2.2.2.2.1, p.2.2.2.2.2.2.2.2.1, p.2.2.2.2.2.2.2.2.2.1,
        p.2.2.2.2.2.2.2.2.2.2.1, p.2.2.2.2.2.2.2.2.2.2.2.1, p.2.2.2.2.2.2.2.2.2.2.2.2.1,
        p.2.2.2.2.2.2.2.2.2.2.2.2.2.1, p.2.2.2.2.2.2.2.2.2.2.2.2.2.2.1,
        p.2.2.2.2.2.2.2.2.2.2.2.2.2.2.2.1, p.2.2.2.2.2.2.2.2.2.2.2.2.2.2.2.2⟩
      invFun := fun e => (e.kind, e.name, e.file, e.startByte, e.endByte, e.startLine,
        e.startColumn, e.endLine, e.endColumn, e.signature, e.doc, e.qualifiedName, e.visibility,
        e.isAsync, e.isStatic, e.bodyHash, e.isUnsafe)
      left_inv := fun _ => rfl
      right_inv := fun _ => rfl }

/-- The entry without `is_definition`. -/
def bare (e : FullNodeEntry) : NodeEntryV13 NodeKind :=
  ⟨e.kind, e.name, e.file, e.startByte, e.endByte, e.startLine, e.startColumn, e.endLine,
    e.endColumn, e.signature, e.doc, e.qualifiedName, e.visibility, e.isAsync, e.isStatic,
    e.bodyHash, e.isUnsafe⟩

/-- The entry of today, which ends with `is_definition`. -/
def nodeEntry : Layout FullNodeEntry :=
  ((entryV13 nodeKind).prod bool).map
    { toFun := fun p => p.1.live id p.2
      invFun := fun e => (bare e, e.isDefinition)
      left_inv := fun _ => rfl
      right_inv := fun _ => rfl }

def SlotPayload (α : Type) : Bool → Type
  | false => α
  | true => Option Nat

def slotPayload {α : Type} (c : Layout α) : (isVacant : Bool) → Layout (SlotPayload α isVacant)
  | false => c
  | true => optional varint

/-- `Occupied` is the first variant. -/
def slotState {α : Type} (c : Layout α) : Layout (SlotState α) :=
  ((Codec.tag Postcard.eof "unknown variant of SlotState").sigma (slotPayload c)).map
    { toFun := fun p =>
        match p with
        | ⟨false, data⟩ => .occupied data
        | ⟨true, nextFree⟩ => .vacant nextFree
      invFun := fun state =>
        match state with
        | .occupied data => ⟨false, data⟩
        | .vacant nextFree => ⟨true, nextFree⟩
      left_inv := by
        intro p
        obtain ⟨isVacant, payload⟩ := p
        cases isVacant <;> rfl
      right_inv := by
        intro state
        cases state <;> rfl }

def slot {α : Type} (c : Layout α) : Layout (Slot α) :=
  (varint.prod (slotState c)).map
    { toFun := fun p => ⟨p.1, p.2⟩
      invFun := fun s => (s.generation, s.state)
      left_inv := fun _ => rfl
      right_inv := fun _ => rfl }

def arena {α : Type} (c : Layout α) : Layout (NodeArena α) :=
  ((vec (slot c)).prod ((optional varint).prod varint)).map
    { toFun := fun p => ⟨p.1, p.2.1, p.2.2⟩
      invFun := fun a => (a.slots, a.freeHead, a.len)
      left_inv := fun _ => rfl
      right_inv := fun _ => rfl }

end Arena

section Indices

def bucketMap {κ : Type} [DecidableEq κ] (key : Layout κ) : Layout (IndexMap κ) :=
  mapOf (key.prod (vec nodeId))

def indices : Layout AuxiliaryIndices :=
  ((bucketMap nodeKind).prod ((bucketMap stringId).prod ((bucketMap stringId).prod
    ((bucketMap varint).prod varint)))).map
    { toFun := fun p => ⟨p.1, p.2.1, p.2.2.1, p.2.2.2.1, p.2.2.2.2⟩
      invFun := fun x => (x.kindIndex, x.nameIndex, x.qualifiedNameIndex, x.fileIndex, x.nodeCount)
      left_inv := fun _ => rfl
      right_inv := fun _ => rfl }

def indicesV13 : Layout AuxiliaryIndicesV13 :=
  ((bucketMap nodeKindV13).prod ((bucketMap stringId).prod ((bucketMap stringId).prod
    ((bucketMap varint).prod varint)))).map
    { toFun := fun p => ⟨p.1, p.2.1, p.2.2.1, p.2.2.2.1, p.2.2.2.2⟩
      invFun := fun x => (x.kindIndex, x.nameIndex, x.qualifiedNameIndex, x.fileIndex, x.nodeCount)
      left_inv := fun _ => rfl
      right_inv := fun _ => rfl }

end Indices

end Layout

/-- `postcard` at the types that every version writes in the same way, at the edges and metadata
entries of version 10, and at the header. -/
structure Layouts (P : Parts) where
  header : Layout (GraphHeader P)
  edges : Layout BidirectionalEdgeStore
  edgesV10 : Layout BidirectionalEdgeStoreV10
  strings : Layout SavedInterner
  files : Layout (Registry.FileRegistry P.Path)
  macroMetadata : Layout (MetadataEntries P)
  metadataEntryV10 : Layout (NodeMetadataEntryV10 P)
  nodeProvenance : Layout NodeProvenanceStore
  edgeProvenance : Layout EdgeProvenanceStore
  scopeArena : Layout ScopeArena
  aliasTable : Layout AliasTable
  shadowTable : Layout ShadowTable
  scopeProvenance : Layout SavedScopeProvenance
  fileSegments : Layout FileSegmentTable
  cIndirectTables : Layout (SavedCTables P)
  frameworkRoute : Layout P.FrameworkRouteMetadata
  dispatchTables : Layout P.DispatchTables
  shapeDescriptor : Layout P.ShapeDescriptor

namespace Layouts
variable {P : Parts} (L : Layouts P)

section Envelopes
variable {ν ε ι μ : Type} (nodes : Layout ν) (edges : Layout ε) (indices : Layout ι)
  (metadata : Layout μ)

def binding : Layout (NodeProvenanceStore × EdgeProvenanceStore × ScopeArena × AliasTable ×
    ShadowTable × SavedScopeProvenance × FileSegmentTable) :=
  L.nodeProvenance.prod (L.edgeProvenance.prod (L.scopeArena.prod (L.aliasTable.prod
    (L.shadowTable.prod (L.scopeProvenance.prod L.fileSegments)))))

def dataV10 : Layout (GraphSnapshotDataV10 P ν ε ι μ) :=
  (nodes.prod (edges.prod (L.strings.prod (L.files.prod (indices.prod
    (metadata.prod L.binding)))))).map
    { toFun := fun p => ⟨p.1, p.2.1, p.2.2.1, p.2.2.2.1, p.2.2.2.2.1, p.2.2.2.2.2.1,
        p.2.2.2.2.2.2.1, p.2.2.2.2.2.2.2.1, p.2.2.2.2.2.2.2.2.1, p.2.2.2.2.2.2.2.2.2.1,
        p.2.2.2.2.2.2.2.2.2.2.1, p.2.2.2.2.2.2.2.2.2.2.2.1, p.2.2.2.2.2.2.2.2.2.2.2.2⟩
      invFun := fun d => (d.nodes, d.edges, d.strings, d.files, d.indices, d.macroMetadata,
        d.nodeProvenance, d.edgeProvenance, d.scopeArena, d.aliasTable, d.shadowTable,
        d.scopeProvenance, d.fileSegments)
      left_inv := fun _ => rfl
      right_inv := fun _ => rfl }

def dataV11 : Layout (GraphSnapshotDataV11 P ν ε ι μ) :=
  ((L.dataV10 nodes edges indices metadata).prod (Layout.optional L.cIndirectTables)).map
    { toFun := fun p => ⟨p.1, p.2⟩
      invFun := fun d => (d.toGraphSnapshotDataV10, d.cIndirectTables)
      left_inv := fun _ => rfl
      right_inv := fun _ => rfl }

def dataV12 : Layout (GraphSnapshotDataV12 P ν ε ι μ) :=
  ((L.dataV11 nodes edges indices metadata).prod
    ((Layout.vec (Layout.nodeId.prod L.frameworkRoute)).prod L.dispatchTables)).map
    { toFun := fun p => ⟨p.1, p.2.1, p.2.2⟩
      invFun := fun d => (d.toGraphSnapshotDataV11, d.frameworkRoutesTable, d.dispatchTablesTable)
      left_inv := fun _ => rfl
      right_inv := fun _ => rfl }

def dataV15 : Layout (GraphSnapshotDataV15 P ν ε ι μ) :=
  ((L.dataV12 nodes edges indices metadata).prod
    (Layout.vec (Layout.nodeId.prod L.shapeDescriptor))).map
    { toFun := fun p => ⟨p.1, p.2⟩
      invFun := fun d => (d.toGraphSnapshotDataV12, d.shapeDescriptorsTable)
      left_inv := fun _ => rfl
      right_inv := fun _ => rfl }

end Envelopes

def live : Layout (LiveData P) :=
  L.dataV15 (Layout.arena Layout.nodeEntry) L.edges Layout.indices L.macroMetadata

end Layouts

end Persist
end Sqry
