import Sqry.Persist.EdgeLayout

/-!
The layouts of a workspace without macros, class paths, framework routes and shapes. They are
those of `postcard` but for the hashes and stable identifiers, which are lists here and are
written after their length.
-/

namespace Sqry
namespace Persist

def plain : Parts where
  Path := String
  pathDecidable := inferInstance
  display := id
  MacroNodeMetadata := Empty
  ClasspathNodeMetadata := Empty
  FrameworkRouteMetadata := Empty
  DispatchTables := List Empty × List Empty × List Empty × List Empty × List Empty
  ShapeDescriptor := Empty
  LocalScopeIndices := List Empty
  ConfigProvenance := Empty
  noDispatch := ([], [], [], [], [])
  noScopes := []

namespace Layout

section Texts

def textOfBytes (bs : List UInt8) : Except String String :=
  match String.fromUTF8? ⟨bs.toArray⟩ with
  | some s => .ok s
  | none => .error "Tried to parse invalid utf-8"

theorem textOfBytes_toUTF8 (s : String) : textOfBytes s.toUTF8.data.toList = .ok s := by
  have hvalid : (⟨s.toUTF8.data.toList.toArray⟩ : ByteArray).IsValidUTF8 := by
    rw [Array.toArray_toList]
    exact s.isValidUTF8
  rw [textOfBytes, String.fromUTF8?, dif_pos hvalid]
  simp only [Except.ok.injEq]
  rw [← String.toByteArray_inj]
  rfl

def text : Layout String :=
  (vec u8).checked textOfBytes (fun s => s.toUTF8.data.toList) textOfBytes_toUTF8

end Texts

section Edges

def span : Layout Span :=
  ((varint.prod varint).prod (varint.prod varint)).map
    { toFun := fun p => ⟨⟨p.1.1, p.1.2⟩, ⟨p.2.1, p.2.2⟩⟩
      invFun := fun s => ((s.start.line, s.start.column), (s.stop.line, s.stop.column))
      left_inv := fun _ => rfl
      right_inv := fun _ => rfl }

def deltaOp : Layout DeltaOp := variant [.add, .remove] (by intro a; cases a <;> decide)

def deltaEdge : Layout DeltaEdge :=
  (nodeId.prod (nodeId.prod (edgeKind.prod (varint.prod (deltaOp.prod
    (varint.prod (vec span))))))).map
    { toFun := fun p => ⟨p.1, p.2.1, p.2.2.1, p.2.2.2.1, p.2.2.2.2.1, p.2.2.2.2.2.1,
        p.2.2.2.2.2.2⟩
      invFun := fun e => (e.source, e.target, e.kind, e.seq, e.op, e.file, e.spans)
      left_inv := fun _ => rfl
      right_inv := fun _ => rfl }

def deltaBuffer : Layout DeltaBuffer :=
  ((mapOf (varint.prod (vec deltaEdge))).prod (varint.prod (varint.prod varint))).map
    { toFun := fun p => ⟨p.1, p.2.1, p.2.2.1, p.2.2.2⟩
      invFun := fun b => (b.edges, b.edgeCount, b.byteSize, b.seqCounter)
      left_inv := fun _ => rfl
      right_inv := fun _ => rfl }

def csrGraph : Layout CsrGraph :=
  (varint.prod ((vec varint).prod ((vec nodeId).prod ((vec edgeKind).prod ((vec varint).prod
    (vec (vec span))))))).map
    { toFun := fun p => ⟨p.1, p.2.1, p.2.2.1, p.2.2.2.1, p.2.2.2.2.1, p.2.2.2.2.2⟩
      invFun := fun g => (g.nodeCount, g.rowPtr, g.colIdx, g.edgeKind, g.edgeSeq, g.edgeSpans)
      left_inv := fun _ => rfl
      right_inv := fun _ => rfl }

def edgeStore : Layout EdgeStore :=
  ((optional csrGraph).prod ((vec bool).prod (varint.prod deltaBuffer))).map
    { toFun := fun p => ⟨p.1, p.2.1, p.2.2.1, p.2.2.2⟩
      invFun := fun st => (st.csr, st.csrTombstones, st.csrVersion, st.delta)
      left_inv := fun _ => rfl
      right_inv := fun _ => rfl }

def bidirectional : Layout BidirectionalEdgeStore :=
  (edgeStore.prod edgeStore).map
    { toFun := fun p => ⟨p.1, p.2⟩
      invFun := fun b => (b.forward, b.reverse)
      left_inv := fun _ => rfl
      right_inv := fun _ => rfl }

def deltaEdgeV10 : Layout DeltaEdgeV10 :=
  (nodeId.prod (nodeId.prod (edgeKindV10.prod (varint.prod (deltaOp.prod
    (varint.prod (vec span))))))).map
    { toFun := fun p => ⟨p.1, p.2.1, p.2.2.1, p.2.2.2.1, p.2.2.2.2.1, p.2.2.2.2.2.1,
        p.2.2.2.2.2.2⟩
      invFun := fun e => (e.source, e.target, e.kind, e.seq, e.op, e.file, e.spans)
      left_inv := fun _ => rfl
      right_inv := fun _ => rfl }

def deltaBufferV10 : Layout DeltaBufferV10 :=
  ((mapOf (varint.prod (vec deltaEdgeV10))).prod (varint.prod (varint.prod varint))).map
    { toFun := fun p => ⟨p.1, p.2.1, p.2.2.1, p.2.2.2⟩
      invFun := fun b => (b.edges, b.edgeCount, b.byteSize, b.seqCounter)
      left_inv := fun _ => rfl
      right_inv := fun _ => rfl }

def csrGraphV10 : Layout CsrGraphV10 :=
  (varint.prod ((vec varint).prod ((vec nodeId).prod ((vec edgeKindV10).prod ((vec varint).prod
    (vec (vec span))))))).map
    { toFun := fun p => ⟨p.1, p.2.1, p.2.2.1, p.2.2.2.1, p.2.2.2.2.1, p.2.2.2.2.2⟩
      invFun := fun g => (g.nodeCount, g.rowPtr, g.colIdx, g.edgeKind, g.edgeSeq, g.edgeSpans)
      left_inv := fun _ => rfl
      right_inv := fun _ => rfl }

def edgeStoreV10 : Layout EdgeStoreV10 :=
  ((optional csrGraphV10).prod ((vec bool).prod (varint.prod deltaBufferV10))).map
    { toFun := fun p => ⟨p.1, p.2.1, p.2.2.1, p.2.2.2⟩
      invFun := fun st => (st.csr, st.csrTombstones, st.csrVersion, st.delta)
      left_inv := fun _ => rfl
      right_inv := fun _ => rfl }

def bidirectionalV10 : Layout BidirectionalEdgeStoreV10 :=
  (edgeStoreV10.prod edgeStoreV10).map
    { toFun := fun p => ⟨p.1, p.2⟩
      invFun := fun b => (b.forward, b.reverse)
      left_inv := fun _ => rfl
      right_inv := fun _ => rfl }

end Edges

section Stores

def interner : Layout SavedInterner :=
  ((vec (optional text)).prod ((mapOf (text.prod varint)).prod ((vec varint).prod
    (vec varint)))).map
    { toFun := fun p => ⟨p.1, p.2.1, p.2.2.1, p.2.2.2⟩
      invFun := fun x => (x.strings, x.lookup, x.refCounts, x.freeList)
      left_inv := fun _ => rfl
      right_inv := fun _ => rfl }

def languages : List Language :=
  [.c, .cpp, .cSharp, .css, .javaScript, .python, .typeScript, .rust, .go, .java, .ruby, .php,
    .swift, .kotlin, .scala, .sql, .dart, .lua, .perl, .shell, .groovy, .elixir, .r, .haskell,
    .html, .svelte, .vue, .zig, .terraform, .puppet, .pulumi, .http, .plsql, .apex, .abap,
    .serviceNow, .json]

def language : Layout Language := variant languages (by intro a; cases a <;> decide)

def fileEntry : Layout (Registry.FileEntry String) :=
  (text.prod ((optional language).prod (bool.prod ((vec u8).prod
    (varint.prod (optional stringId)))))).map
    { toFun := fun p => ⟨p.1, p.2.1, p.2.2.1, p.2.2.2.1, p.2.2.2.2.1, p.2.2.2.2.2⟩
      invFun := fun e =>
        (e.path, e.language, e.isExternal, e.contentHash, e.indexedAt, e.sourceUri)
      left_inv := fun _ => rfl
      right_inv := fun _ => rfl }

def registry : Layout (Registry.FileRegistry String) :=
  ((vec (optional fileEntry)).prod ((mapOf (text.prod varint)).prod ((vec varint).prod
    (mapOf (varint.prod (vec nodeId)))))).map
    { toFun := fun p => ⟨p.1, p.2.1, p.2.2.1, p.2.2.2⟩
      invFun := fun r => (r.entries, r.lookup, r.freeList, r.perFileNodes)
      left_inv := fun _ => rfl
      right_inv := fun _ => rfl }

def noPayload : Layout Empty := never "no payload"

def storedEntry : Layout (StoredEntry plain) :=
  (u8.prod ((optional noPayload).prod ((optional noPayload).prod u8))).checked
    (fun p =>
      if p.1 = 0 then .ok ⟨none, p.2.2.2⟩
      else .error ("unknown typed-metadata kind discriminant " ++ toString p.1.toNat))
    (fun stored => (0, none, none, stored.flags))
    (by
      intro stored
      obtain ⟨typed, flags⟩ := stored
      cases typed with
      | none => rfl
      | some data =>
        cases data with
        | macroItem data => exact data.elim
        | classpath data => exact data.elim)

def metadataEntryV10 : Layout (NodeMetadataEntryV10 plain) :=
  (varint.prod (varint.prod (u8.prod ((optional noPayload).prod (optional noPayload))))).map
    { toFun := fun p => ⟨p.1, p.2.1, p.2.2.1, p.2.2.2.1, p.2.2.2.2⟩
      invFun := fun e => (e.index, e.generation, e.kind, e.macroData, e.classpathData)
      left_inv := fun _ => rfl
      right_inv := fun _ => rfl }

def nodeProvenance : Layout NodeProvenanceStore :=
  (vec (optional (varint.prod (varint.prod (varint.prod (vec u8)))))).map
    { toFun := fun slots =>
        ⟨slots.map fun slot => slot.map fun p => (p.1, ⟨p.2.1, p.2.2.1, p.2.2.2⟩)⟩
      invFun := fun store => store.slots.map fun slot =>
        slot.map fun p => (p.1, p.2.firstSeenEpoch, p.2.lastSeenEpoch, p.2.contentHash)
      left_inv := by
        intro slots
        simp [Function.comp_def]
      right_inv := by
        intro store
        simp [Function.comp_def] }

def edgeProvenance : Layout EdgeProvenanceStore :=
  (vec (optional ((varint.prod varint).map
    { toFun := fun p => (⟨p.1, p.2⟩ : EdgeProvenance)
      invFun := fun e => (e.firstSeenEpoch, e.lastSeenEpoch)
      left_inv := fun _ => rfl
      right_inv := fun _ => rfl }))).map
    { toFun := fun slots => ⟨slots⟩
      invFun := fun store => store.slots
      left_inv := fun _ => rfl
      right_inv := fun _ => rfl }

def scopeId : Layout ScopeId :=
  (varint.prod varint).map
    { toFun := fun p => ⟨p.1, p.2⟩
      invFun := fun id => (id.index, id.generation)
      left_inv := fun _ => rfl
      right_inv := fun _ => rfl }

def scopeKind : Layout ScopeKind :=
  variant [.module, .function, .class, .namespaceScope, .trait, .impl]
    (by intro a; cases a <;> decide)

def scope : Layout Scope :=
  (scopeKind.prod (scopeId.prod (nodeId.prod ((varint.prod varint).prod varint)))).map
    { toFun := fun p => ⟨p.1, p.2.1, p.2.2.1, p.2.2.2.1, p.2.2.2.2⟩
      invFun := fun s => (s.kind, s.parent, s.node, s.byteSpan, s.file)
      left_inv := fun _ => rfl
      right_inv := fun _ => rfl }

def scopeArena : Layout ScopeArena :=
  ((vec (slot scope)).prod ((optional varint).prod varint)).map
    { toFun := fun p => ⟨p.1, p.2.1, p.2.2⟩
      invFun := fun a => (a.slots, a.freeHead, a.len)
      left_inv := fun _ => rfl
      right_inv := fun _ => rfl }

def aliasEntry : Layout AliasEntry :=
  (varint.prod (scopeId.prod (stringId.prod (stringId.prod (nodeId.prod bool))))).map
    { toFun := fun p => ⟨p.1, p.2.1, p.2.2.1, p.2.2.2.1, p.2.2.2.2.1, p.2.2.2.2.2⟩
      invFun := fun e => (e.id, e.scope, e.fromSymbol, e.toSymbol, e.importNode, e.isWildcard)
      left_inv := fun _ => rfl
      right_inv := fun _ => rfl }

def aliasTable : Layout AliasTable :=
  (vec aliasEntry).map
    { toFun := fun entries => ⟨entries⟩
      invFun := fun t => t.entries
      left_inv := fun _ => rfl
      right_inv := fun _ => rfl }

def shadowEntry : Layout ShadowEntry :=
  (varint.prod (scopeId.prod (stringId.prod (nodeId.prod varint)))).map
    { toFun := fun p => ⟨p.1, p.2.1, p.2.2.1, p.2.2.2.1, p.2.2.2.2⟩
      invFun := fun e => (e.id, e.scope, e.symbol, e.node, e.byteOffset)
      left_inv := fun _ => rfl
      right_inv := fun _ => rfl }

def shadowTable : Layout ShadowTable :=
  (vec shadowEntry).map
    { toFun := fun entries => ⟨entries⟩
      invFun := fun t => t.entries
      left_inv := fun _ => rfl
      right_inv := fun _ => rfl }

def scopeProvenance : Layout SavedScopeProvenance :=
  vec (optional (varint.prod ((varint.prod (varint.prod ((vec u8).prod (vec u8)))).map
    { toFun := fun p => ⟨p.1, p.2.1, p.2.2.1, p.2.2.2⟩
      invFun := fun s => (s.firstSeenEpoch, s.lastSeenEpoch, s.fileStableId, s.stableId)
      left_inv := fun _ => rfl
      right_inv := fun _ => rfl })))

def fileSegments : Layout FileSegmentTable :=
  (vec (optional ((varint.prod varint).map
    { toFun := fun p => (⟨p.1, p.2⟩ : FileSegment)
      invFun := fun s => (s.startSlot, s.slotCount)
      left_inv := fun _ => rfl
      right_inv := fun _ => rfl }))).map
    { toFun := fun segments => ⟨segments⟩
      invFun := fun t => t.segments
      left_inv := fun _ => rfl
      right_inv := fun _ => rfl }

end Stores

section CTables

def bindingEntry : Layout BindingEntry :=
  (nodeId.prod (nodeId.prod (variant [.designatedInitializer, .positionalInitializer]
    (by intro a; cases a <;> decide)))).map
    { toFun := fun p => ⟨p.1, p.2.1, p.2.2⟩
      invFun := fun e => (e.instanceNode, e.targetFn, e.siteKind)
      left_inv := fun _ => rfl
      right_inv := fun _ => rfl }

def ShapeFields : Bool → Type
  | false => String
  | true => String × String

def shapeFields : (isField : Bool) → Layout (ShapeFields isField)
  | false => text
  | true => text.prod text

def indirectShape : Layout IndirectShape :=
  ((Codec.tag Postcard.eof "unknown variant of IndirectShape").sigma shapeFields).map
    { toFun := fun p =>
        match p with
        | ⟨false, varName⟩ => .pointerExpr varName
        | ⟨true, names⟩ => .fieldExpr names.1 names.2
      invFun := fun shape =>
        match shape with
        | .pointerExpr varName => ⟨false, varName⟩
        | .fieldExpr receiverName fieldName => ⟨true, (receiverName, fieldName)⟩
      left_inv := by
        intro p
        obtain ⟨isField, names⟩ := p
        cases isField <;> rfl
      right_inv := by
        intro shape
        cases shape <;> rfl }

def indirectCallsite : Layout IndirectCallsite :=
  (nodeId.prod (varint.prod ((varint.prod varint).prod (indirectShape.prod
    (varint.prod bool))))).map
    { toFun := fun p => ⟨p.1, p.2.1, p.2.2.1, p.2.2.2.1, p.2.2.2.2.1, p.2.2.2.2.2⟩
      invFun := fun c => (c.caller, c.fileId, c.useSpan, c.shape, c.argumentCount, c.isAsync)
      left_inv := fun _ => rfl
      right_inv := fun _ => rfl }

def cIndirectTables : Layout (SavedCTables plain) :=
  ((mapOf (nodeId.prod stringId)).prod ((mapOf ((stringId.prod stringId).prod stringId)).prod
    ((mapOf (nodeId.prod stringId)).prod ((vec noPayload).prod
      ((mapOf ((stringId.prod stringId).prod (vec bindingEntry))).prod
        (vec indirectCallsite)))))).map
    { toFun := fun p => (⟨p.1, p.2.1, p.2.2.1, p.2.2.2.2.1, p.2.2.2.2.2⟩, p.2.2.2.1)
      invFun := fun t => (t.1.fnSignature, t.1.structFieldFnptr, t.1.localVarType, t.2,
        t.1.bindingsByField, t.1.pendingCallsites)
      left_inv := fun _ => rfl
      right_inv := fun _ => rfl }

end CTables

def header : Layout (GraphHeader plain) :=
  (varint.prod (varint.prod (varint.prod (varint.prod (varint.prod (varint.prod
    ((optional noPayload).prod ((mapOf (text.prod text)).prod varint)))))))).map
    { toFun := fun p => ⟨p.1, p.2.1, p.2.2.1, p.2.2.2.1, p.2.2.2.2.1, p.2.2.2.2.2.1,
        p.2.2.2.2.2.2.1, p.2.2.2.2.2.2.2.1, p.2.2.2.2.2.2.2.2⟩
      invFun := fun h => (h.version, h.nodeCount, h.edgeCount, h.stringCount, h.fileCount,
        h.timestamp, h.configProvenance, h.pluginVersions, h.factEpoch)
      left_inv := fun _ => rfl
      right_inv := fun _ => rfl }

end Layout

/-- `postcard` at the types of a workspace without payloads. -/
def wire : Layouts plain where
  header := Layout.header
  edges := Layout.bidirectional
  edgesV10 := Layout.bidirectionalV10
  strings := Layout.interner
  files := Layout.registry
  macroMetadata := Layout.mapOf (Layout.nodeId.prod Layout.storedEntry)
  metadataEntryV10 := Layout.metadataEntryV10
  nodeProvenance := Layout.nodeProvenance
  edgeProvenance := Layout.edgeProvenance
  scopeArena := Layout.scopeArena
  aliasTable := Layout.aliasTable
  shadowTable := Layout.shadowTable
  scopeProvenance := Layout.scopeProvenance
  fileSegments := Layout.fileSegments
  cIndirectTables := Layout.cIndirectTables
  frameworkRoute := Layout.noPayload
  dispatchTables :=
    (Layout.vec Layout.noPayload).prod ((Layout.vec Layout.noPayload).prod
      ((Layout.vec Layout.noPayload).prod ((Layout.vec Layout.noPayload).prod
        (Layout.vec Layout.noPayload))))
  shapeDescriptor := Layout.noPayload

end Persist
end Sqry
