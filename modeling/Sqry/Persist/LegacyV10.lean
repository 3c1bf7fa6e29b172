import Sqry.Persist.Data

/-!
Version 10 as it was written: calls without the way they were resolved, and metadata entries
without flags. Reading it pushes the buffered edges one by one into a new buffer.
-/

namespace Sqry
namespace Persist

section Kinds

inductive EdgeKindV10 where
  | defines
  | contains
  | calls (argumentCount : UInt8) (isAsync : Bool)
  | references
  | imports (aliasName : Option StringId) (isWildcard : Bool)
  | exports (kind : ExportKind) (aliasName : Option StringId)
  | typeOf (context : Option TypeOfContext) (index : Option UInt16) (name : Option StringId)
  | inherits
  | implements
  | lifetimeConstraint (constraintKind : LifetimeConstraintKind)
  | traitMethodBinding (traitName : StringId) (implType : StringId) (isAmbiguous : Bool)
  | macroExpansion (expansionKind : MacroExpansionKind) (isVerified : Bool)
  | ffiCall (convention : FfiConvention)
  | httpRequest (method : HttpMethod) (url : Option StringId)
  | grpcCall (service : StringId) (method : StringId)
  | webAssemblyCall
  | dbQuery (queryType : DbQueryType) (table : Option StringId)
  | tableRead (tableName : StringId) (schema : Option StringId)
  | tableWrite (tableName : StringId) (schema : Option StringId) (operation : TableWriteOp)
  | triggeredBy (triggerName : StringId) (schema : Option StringId)
  | messageQueue (protocol : MqProtocol) (topic : Option StringId)
  | webSocket (event : Option StringId)
  | graphQLOperation (operation : StringId)
  | processExec (command : StringId)
  | fileIpc (pathPattern : Option StringId)
  | protocolCall (protocol : StringId) (metadata : Option StringId)
  | genericBound
  | annotatedWith
  | annotationParam
  | lambdaCaptures
  | moduleExports
  | moduleRequires
  | moduleOpens
  | moduleProvides
  | typeArgument
  | extensionReceiver
  | companionOf
  | sealedPermit
  deriving DecidableEq

/-- `translate_edge_v10_to_v11`. Every call of that version is direct. -/
def EdgeKindV10.toV11 : EdgeKindV10 → EdgeKind
  | defines => .defines
  | contains => .contains
  | calls argumentCount isAsync => .calls argumentCount isAsync .direct
  | references => .references
  | imports aliasName isWildcard => .imports aliasName isWildcard
  | exports kind aliasName => .exports kind aliasName
  | typeOf context index name => .typeOf context index name
  | inherits => .inherits
  | implements => .implements
  | lifetimeConstraint constraintKind => .lifetimeConstraint constraintKind
  | traitMethodBinding traitName implType isAmbiguous =>
    .traitMethodBinding traitName implType isAmbiguous
  | macroExpansion expansionKind isVerified => .macroExpansion expansionKind isVerified
  | ffiCall convention => .ffiCall convention
  | httpRequest method url => .httpRequest method url
  | grpcCall service method => .grpcCall service method
  | webAssemblyCall => .webAssemblyCall
  | dbQuery queryType table => .dbQuery queryType table
  | tableRead tableName schema => .tableRead tableName schema
  | tableWrite tableName schema operation => .tableWrite tableName schema operation
  | triggeredBy triggerName schema => .triggeredBy triggerName schema
  | messageQueue protocol topic => .messageQueue protocol topic
  | webSocket event => .webSocket event
  | graphQLOperation operation => .graphQLOperation operation
  | processExec command => .processExec command
  | fileIpc pathPattern => .fileIpc pathPattern
  | protocolCall protocol metadata => .protocolCall protocol metadata
  | genericBound => .genericBound
  | annotatedWith => .annotatedWith
  | annotationParam => .annotationParam
  | lambdaCaptures => .lambdaCaptures
  | moduleExports => .moduleExports
  | moduleRequires => .moduleRequires
  | moduleOpens => .moduleOpens
  | moduleProvides => .moduleProvides
  | typeArgument => .typeArgument
  | extensionReceiver => .extensionReceiver
  | companionOf => .companionOf
  | sealedPermit => .sealedPermit

end Kinds

section Edges

structure DeltaEdgeV10 where
  source : NodeId
  target : NodeId
  kind : EdgeKindV10
  seq : Nat
  op : DeltaOp
  file : FileId
  spans : List Span

structure DeltaBufferV10 where
  edges : AList fun _ : FileId => List DeltaEdgeV10
  edgeCount : Nat
  byteSize : Nat
  seqCounter : Nat

structure CsrGraphV10 where
  nodeCount : Nat
  rowPtr : List Nat
  colIdx : List NodeId
  edgeKind : List EdgeKindV10
  edgeSeq : List Nat
  edgeSpans : List (List Span)

structure EdgeStoreV10 where
  csr : Option CsrGraphV10
  csrTombstones : List Bool
  csrVersion : Nat
  delta : DeltaBufferV10

structure BidirectionalEdgeStoreV10 where
  forward : EdgeStoreV10
  reverse : EdgeStoreV10

def DeltaEdgeV10.toV11 (e : DeltaEdgeV10) : DeltaEdge :=
  ⟨e.source, e.target, e.kind.toV11, e.seq, e.op, e.file, e.spans⟩

def DeltaBufferV10.toV11 (b : DeltaBufferV10) : DeltaBuffer :=
  (((Buckets.all b.edges).map DeltaEdgeV10.toV11).foldl DeltaBuffer.push
    DeltaBuffer.new).advanceSeqTo b.seqCounter

def CsrGraphV10.toV11 (g : CsrGraphV10) : CsrGraph :=
  ⟨g.nodeCount, g.rowPtr, g.colIdx, g.edgeKind.map EdgeKindV10.toV11, g.edgeSeq, g.edgeSpans⟩

def EdgeStoreV10.toV11 (st : EdgeStoreV10) : EdgeStore :=
  ⟨st.csr.map CsrGraphV10.toV11, st.csrTombstones, st.csrVersion, st.delta.toV11⟩

def BidirectionalEdgeStoreV10.toV11 (b : BidirectionalEdgeStoreV10) : BidirectionalEdgeStore :=
  ⟨b.forward.toV11, b.reverse.toV11⟩

/-- Every buffered edge lies under its file, and they are counted. -/
structure DeltaBufferV10.Counted (b : DeltaBufferV10) : Prop where
  edgeCount_eq : b.edgeCount = (Buckets.all b.edges).length
  file_eq : ∀ f, ∀ e ∈ Buckets.bucket b.edges f, e.file = f

structure EdgeStoreV10.Kept (st : EdgeStoreV10) (live : EdgeStore) : Prop where
  csr : live.csr = st.csr.map CsrGraphV10.toV11
  csrTombstones : live.csrTombstones = st.csrTombstones
  csrVersion : live.csrVersion = st.csrVersion
  edges : ∀ f, live.delta.edgesForFile f =
    (Buckets.bucket st.delta.edges f).map DeltaEdgeV10.toV11
  edgeCount : live.delta.edgeCount = st.delta.edgeCount
  seqCounter : live.delta.seqCounter = st.delta.seqCounter

structure BidirectionalEdgeStoreV10.Kept (b : BidirectionalEdgeStoreV10)
    (live : BidirectionalEdgeStore) : Prop where
  forward : b.forward.Kept live.forward
  reverse : b.reverse.Kept live.reverse

theorem DeltaBufferV10.edgesForFile_toV11 {b : DeltaBufferV10} (h : b.Counted) (f : FileId) :
    b.toV11.edgesForFile f = (Buckets.bucket b.edges f).map DeltaEdgeV10.toV11 := by
  rw [toV11, DeltaBuffer.edgesForFile_advanceSeqTo, DeltaBuffer.edgesForFile_foldl_push,
    List.filter_map]
  have hfile : ((fun e : DeltaEdge => decide (e.file = f)) ∘ DeltaEdgeV10.toV11) =
      fun e => decide (e.file = f) := rfl
  rw [hfile, Buckets.filter_all_eq_bucket h.file_eq f]
  rfl

theorem DeltaBufferV10.edgeCount_toV11 {b : DeltaBufferV10} (h : b.Counted) :
    b.toV11.edgeCount = b.edgeCount := by
  have hpush : ∀ (es : List DeltaEdge) (d : DeltaBuffer),
      (es.foldl DeltaBuffer.push d).edgeCount = d.edgeCount + es.length := by
    intro es
    induction es with
    | nil => exact fun d => rfl
    | cons e es ih =>
      intro d
      rw [List.foldl_cons, ih, List.length_cons]
      show d.edgeCount + 1 + es.length = d.edgeCount + (es.length + 1)
      omega
  have hadvance : b.toV11.edgeCount = (((Buckets.all b.edges).map DeltaEdgeV10.toV11).foldl
      DeltaBuffer.push DeltaBuffer.new).edgeCount := by
    rw [toV11, DeltaBuffer.advanceSeqTo]
    split <;> rfl
  rw [hadvance, hpush, List.length_map, h.edgeCount_eq]
  exact Nat.zero_add _

theorem EdgeStoreV10.kept_toV11 {st : EdgeStoreV10} (h : st.delta.Counted) :
    st.Kept st.toV11 where
  csr := rfl
  csrTombstones := rfl
  csrVersion := rfl
  edges := DeltaBufferV10.edgesForFile_toV11 h
  edgeCount := DeltaBufferV10.edgeCount_toV11 h
  seqCounter := by
    show st.delta.toV11.seqCounter = st.delta.seqCounter
    rw [DeltaBufferV10.toV11, DeltaBuffer.seqCounter_advanceSeqTo,
      DeltaBuffer.seqCounter_foldl_push]
    exact Nat.max_eq_right (Nat.zero_le _)

end Edges

section Metadata
variable {P : Parts}

structure NodeMetadataEntryV10 (P : Parts) where
  index : Nat
  generation : Nat
  kind : UInt8
  macroData : Option P.MacroNodeMetadata
  classpathData : Option P.ClasspathNodeMetadata

def LEGACY_V7_KIND_MACRO : UInt8 := 0

def LEGACY_V7_KIND_CLASSPATH : UInt8 := 1

def LEGACY_V7_KIND_SYNTHETIC : UInt8 := 2

inductive NodeMetadataV10 (P : Parts) where
  | macroItem (data : P.MacroNodeMetadata)
  | classpath (data : P.ClasspathNodeMetadata)
  | synthetic

def NodeMetadataV10.stored : NodeMetadataV10 P → StoredEntry P
  | macroItem data => ⟨some (.macroItem data), NodeFlags.EMPTY⟩
  | classpath data => ⟨some (.classpath data), NodeFlags.EMPTY⟩
  | synthetic => ⟨none, NodeFlags.SYNTHETIC⟩

def NodeMetadataV10.entry (id : NodeId) : NodeMetadataV10 P → NodeMetadataEntryV10 P
  | macroItem data => ⟨id.index, id.generation, LEGACY_V7_KIND_MACRO, some data, none⟩
  | classpath data => ⟨id.index, id.generation, LEGACY_V7_KIND_CLASSPATH, none, some data⟩
  | synthetic => ⟨id.index, id.generation, LEGACY_V7_KIND_SYNTHETIC, none, none⟩

def NodeMetadataEntryV10.place (e : NodeMetadataEntryV10 P) : String :=
  "V10 metadata entry (" ++ toString e.index ++ ", " ++ toString e.generation ++ ") "

def NodeMetadataEntryV10.stored (e : NodeMetadataEntryV10 P) : Except String (StoredEntry P) :=
  if e.kind = LEGACY_V7_KIND_MACRO then
    match e.macroData with
    | some data => .ok ⟨some (.macroItem data), NodeFlags.EMPTY⟩
    | none =>
      .error (e.place ++ "declared `Macro` kind but carried no `macro_data` payload")
  else if e.kind = LEGACY_V7_KIND_CLASSPATH then
    match e.classpathData with
    | some data => .ok ⟨some (.classpath data), NodeFlags.EMPTY⟩
    | none =>
      .error (e.place ++
        "declared `Classpath` kind but carried no `classpath_data` payload")
  else if e.kind = LEGACY_V7_KIND_SYNTHETIC then .ok ⟨none, NodeFlags.SYNTHETIC⟩
  else
    .error (e.place ++ "carried unknown legacy kind discriminant " ++ toString e.kind.toNat)

def translateMetadataStoreV10 :
    List (NodeMetadataEntryV10 P) → MetadataEntries P → Except String (MetadataEntries P)
  | [], store => .ok store
  | e :: entries, store =>
    match e.stored with
    | .error text => .error text
    | .ok stored => translateMetadataStoreV10 entries (store.insert ⟨e.index, e.generation⟩ stored)

def metadataEntriesV10 (m : AList fun _ : NodeId => NodeMetadataV10 P) :
    List (NodeMetadataEntryV10 P) :=
  m.entries.map fun s => s.2.entry s.1

theorem NodeMetadataV10.stored_entry (id : NodeId) (data : NodeMetadataV10 P) :
    (data.entry id).stored = .ok data.stored := by
  cases data with
  | macroItem data => rfl
  | classpath data => rfl
  | synthetic => rfl

theorem NodeMetadataV10.id_entry (id : NodeId) (data : NodeMetadataV10 P) :
    (⟨(data.entry id).index, (data.entry id).generation⟩ : NodeId) = id := by
  cases data with
  | macroItem data => rfl
  | classpath data => rfl
  | synthetic => rfl

theorem exists_translated (entries : List (Sigma fun _ : NodeId => NodeMetadataV10 P))
    (hnodup : entries.NodupKeys) (store : MetadataEntries P) :
    ∃ store', translateMetadataStoreV10 (entries.map fun s => s.2.entry s.1) store = .ok store' ∧
      ∀ id, store'.lookup id =
        ((entries.dlookup id).map NodeMetadataV10.stored <|> store.lookup id) := by
  induction entries generalizing store with
  | nil => exact ⟨store, rfl, fun id => rfl⟩
  | cons s entries ih =>
    obtain ⟨hs, hrest⟩ := List.nodupKeys_cons.mp hnodup
    obtain ⟨store', htranslate, hlookup⟩ := ih hrest (store.insert s.1 s.2.stored)
    refine ⟨store', ?_, ?_⟩
    · rw [List.map_cons, translateMetadataStoreV10, NodeMetadataV10.stored_entry,
        NodeMetadataV10.id_entry]
      exact htranslate
    · intro id
      rw [hlookup]
      by_cases hid : id = s.1
      · subst hid
        rw [List.dlookup_eq_none.mpr hs, List.dlookup_cons_eq, AList.lookup_insert]
        rfl
      · rw [List.dlookup_cons_ne _ _ hid, AList.lookup_insert_ne hid]

theorem translate_metadataEntriesV10 (m : AList fun _ : NodeId => NodeMetadataV10 P) :
    ∃ store, translateMetadataStoreV10 (metadataEntriesV10 m) ∅ = .ok store ∧
      ∀ id, store.lookup id = (m.lookup id).map NodeMetadataV10.stored := by
  obtain ⟨store, htranslate, hlookup⟩ := exists_translated m.entries m.nodupKeys ∅
  refine ⟨store, htranslate, ?_⟩
  intro id
  rw [hlookup, AList.lookup_empty]
  cases hm : m.entries.dlookup id <;> simp [AList.lookup, hm]

end Metadata

end Persist
end Sqry
