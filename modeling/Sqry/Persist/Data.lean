import Sqry.Graph.CodeGraph

/-!
What a snapshot file holds: the header, and the stores of the graph in the order in which they
are written, for each version of the format. What no function here looks into is a parameter:
paths, the payloads of the metadata, the tables of framework routes and of dispatch, the shape
descriptors, the scopes of local variables, and the provenance of the configuration.
-/

namespace Sqry
namespace Persist

structure Parts where
  Path : Type
  pathDecidable : DecidableEq Path
  display : Path → String
  MacroNodeMetadata : Type
  ClasspathNodeMetadata : Type
  FrameworkRouteMetadata : Type
  DispatchTables : Type
  ShapeDescriptor : Type
  LocalScopeIndices : Type
  ConfigProvenance : Type
  noDispatch : DispatchTables
  noScopes : LocalScopeIndices

attribute [instance] Parts.pathDecidable

inductive FormatVersion where
  | v7 | v8 | v9 | v10 | v11 | v12 | v13 | v14 | v15 | v16 | v17
  deriving DecidableEq, Repr

def FormatVersion.asU32 : FormatVersion → Nat
  | v7 => 7
  | v8 => 8
  | v9 => 9
  | v10 => 10
  | v11 => 11
  | v12 => 12
  | v13 => 13
  | v14 => 14
  | v15 => 15
  | v16 => 16
  | v17 => 17

structure GraphHeader (P : Parts) where
  version : Nat
  nodeCount : Nat
  edgeCount : Nat
  stringCount : Nat
  fileCount : Nat
  timestamp : Nat
  configProvenance : Option P.ConfigProvenance
  pluginVersions : AList fun _ : String => String
  factEpoch : Nat

section Entries

inductive TypedMetadata (P : Parts) where
  | macroItem (data : P.MacroNodeMetadata)
  | classpath (data : P.ClasspathNodeMetadata)

def NodeFlags.EMPTY : UInt8 := 0

def NodeFlags.SYNTHETIC : UInt8 := 1

structure StoredEntry (P : Parts) where
  typed : Option (TypedMetadata P)
  flags : UInt8

abbrev MetadataEntries (P : Parts) : Type := AList fun _ : NodeId => StoredEntry P

structure EdgeProvenance where
  firstSeenEpoch : Nat
  lastSeenEpoch : Nat
  deriving DecidableEq, Repr

structure EdgeProvenanceStore where
  slots : List (Option EdgeProvenance)
  deriving DecidableEq, Repr

structure SavedInterner where
  strings : List (Option String)
  lookup : AList fun _ : String => Nat
  refCounts : List Nat
  freeList : List Nat

abbrev SavedScopeProvenance : Type := List (Option (Nat × ScopeProvenance))

abbrev SavedCTables (P : Parts) : Type := CIndirectSideTables × P.LocalScopeIndices

end Entries

section Kinds

/-- The kinds before there was `Channel`. -/
inductive NodeKindV13 where
  | function | method | «class» | interface | trait | module
  | «variable» | constant | type | struct | enum | enumVariant | macroItem | parameter | property
  | callSite | «import» | «export»
  | styleRule | styleAtRule | styleVariable
  | lifetime
  | component | service | resource | endpoint | test
  | typeParameter | annotation | annotationValue | lambdaTarget | javaModule | enumConstant
  | other
  deriving DecidableEq, Repr

def NodeKindV13.toV14 : NodeKindV13 → NodeKind
  | function => .function
  | method => .method
  | «class» => .class
  | interface => .interface
  | trait => .trait
  | module => .module
  | «variable» => .variable
  | constant => .constant
  | type => .type
  | struct => .struct
  | enum => .enum
  | enumVariant => .enumVariant
  | macroItem => .macroItem
  | parameter => .parameter
  | property => .property
  | callSite => .callSite
  | «import» => .import
  | «export» => .export
  | styleRule => .styleRule
  | styleAtRule => .styleAtRule
  | styleVariable => .styleVariable
  | lifetime => .lifetime
  | component => .component
  | service => .service
  | resource => .resource
  | endpoint => .endpoint
  | test => .test
  | typeParameter => .typeParameter
  | annotation => NodeKind.annotation
  | annotationValue => .annotationValue
  | lambdaTarget => .lambdaTarget
  | javaModule => .javaModule
  | enumConstant => .enumConstant
  | other => .other

/-- An entry without `is_definition`, with the kinds that its version had. -/
structure NodeEntryV13 (κ : Type) where
  kind : κ
  name : StringId
  file : FileId
  startByte : Nat
  endByte : Nat
  startLine : Nat
  startColumn : Nat
  endLine : Nat
  endColumn : Nat
  signature : Option StringId
  doc : Option StringId
  qualifiedName : Option StringId
  visibility : Option StringId
  isAsync : Bool
  isStatic : Bool
  bodyHash : Option (UInt64 × UInt64)
  isUnsafe : Bool

def NodeEntryV13.live {κ : Type} (kinds : κ → NodeKind) (isDefinition : Bool)
    (entry : NodeEntryV13 κ) : FullNodeEntry where
  kind := kinds entry.kind
  name := entry.name
  file := entry.file
  qualifiedName := entry.qualifiedName
  visibility := entry.visibility
  startByte := entry.startByte
  endByte := entry.endByte
  isStatic := entry.isStatic
  isUnsafe := entry.isUnsafe
  isDefinition := isDefinition
  startLine := entry.startLine
  startColumn := entry.startColumn
  endLine := entry.endLine
  endColumn := entry.endColumn
  signature := entry.signature
  doc := entry.doc
  isAsync := entry.isAsync
  bodyHash := entry.bodyHash

structure AuxiliaryIndicesV13 where
  kindIndex : IndexMap NodeKindV13
  nameIndex : IndexMap StringId
  qualifiedNameIndex : IndexMap StringId
  fileIndex : IndexMap FileId
  nodeCount : Nat

end Kinds

section Envelopes

/-- The stores of version 10. The node arena, the edges, the indices and the metadata are written
differently in different versions. -/
structure GraphSnapshotDataV10 (P : Parts) (ν ε ι μ : Type) where
  nodes : ν
  edges : ε
  strings : SavedInterner
  files : Registry.FileRegistry P.Path
  indices : ι
  macroMetadata : μ
  nodeProvenance : NodeProvenanceStore
  edgeProvenance : EdgeProvenanceStore
  scopeArena : ScopeArena
  aliasTable : AliasTable
  shadowTable : ShadowTable
  scopeProvenance : SavedScopeProvenance
  fileSegments : FileSegmentTable

structure GraphSnapshotDataV11 (P : Parts) (ν ε ι μ : Type) extends
    GraphSnapshotDataV10 P ν ε ι μ where
  cIndirectTables : Option (SavedCTables P)

structure GraphSnapshotDataV12 (P : Parts) (ν ε ι μ : Type) extends
    GraphSnapshotDataV11 P ν ε ι μ where
  frameworkRoutesTable : List (NodeId × P.FrameworkRouteMetadata)
  dispatchTablesTable : P.DispatchTables

structure GraphSnapshotDataV15 (P : Parts) (ν ε ι μ : Type) extends
    GraphSnapshotDataV12 P ν ε ι μ where
  shapeDescriptorsTable : List (NodeId × P.ShapeDescriptor)

abbrev LiveData (P : Parts) : Type :=
  GraphSnapshotDataV15 P (NodeArena FullNodeEntry) BidirectionalEdgeStore AuxiliaryIndices
    (MetadataEntries P)

end Envelopes

end Persist
end Sqry
