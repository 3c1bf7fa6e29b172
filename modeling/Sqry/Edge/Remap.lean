import Sqry.Graph.Stores

/-!
Interned strings in the kinds of edges, and their replacement in a whole store.
-/

namespace Sqry

namespace MqProtocol

def mapStringIds (f : StringId → StringId) : MqProtocol → MqProtocol
  | other id => other (f id)
  | protocol => protocol

end MqProtocol

namespace EdgeKind

def mapStringIds (f : StringId → StringId) : EdgeKind → EdgeKind
  | imports aliasName isWildcard => imports (aliasName.map f) isWildcard
  | exports kind aliasName => exports kind (aliasName.map f)
  | typeOf context index name => typeOf context index (name.map f)
  | traitMethodBinding traitName implType isAmbiguous =>
    traitMethodBinding (f traitName) (f implType) isAmbiguous
  | httpRequest method url => httpRequest method (url.map f)
  | grpcCall service method => grpcCall (f service) (f method)
  | dbQuery queryType table => dbQuery queryType (table.map f)
  | tableRead tableName schema => tableRead (f tableName) (schema.map f)
  | tableWrite tableName schema operation => tableWrite (f tableName) (schema.map f) operation
  | triggeredBy triggerName schema => triggeredBy (f triggerName) (schema.map f)
  | messageQueue protocol topic => messageQueue (protocol.mapStringIds f) (topic.map f)
  | webSocket event => webSocket (event.map f)
  | graphQLOperation operation => graphQLOperation (f operation)
  | processExec command => processExec (f command)
  | fileIpc pathPattern => fileIpc (pathPattern.map f)
  | protocolCall protocol metadata => protocolCall (f protocol) (metadata.map f)
  | instantiates typeArgs inferenceKind =>
    instantiates (typeArgs.map fun a => { a with name := f a.name }) inferenceKind
  | kind => kind

def remapEdgeKindStringIds (remap : StringRemap) (kind : EdgeKind) : EdgeKind :=
  kind.mapStringIds (AuxiliaryIndices.canonicalName remap)

end EdgeKind

def CsrGraph.mapKinds (f : EdgeKind → EdgeKind) (g : CsrGraph) : CsrGraph :=
  { g with edgeKind := g.edgeKind.map f }

def DeltaBuffer.mapKinds (f : EdgeKind → EdgeKind) (b : DeltaBuffer) : DeltaBuffer :=
  { b with edges := Buckets.mapItems (fun e => { e with kind := f e.kind }) b.edges }

def EdgeStore.mapKinds (f : EdgeKind → EdgeKind) (st : EdgeStore) : EdgeStore :=
  { st with csr := st.csr.map (CsrGraph.mapKinds f), delta := st.delta.mapKinds f }

def BidirectionalEdgeStore.rewriteEdgeKindStringIdsThroughRemap (b : BidirectionalEdgeStore)
    (remap : StringRemap) : BidirectionalEdgeStore :=
  if remap.entries.isEmpty then b
  else
    ⟨b.forward.mapKinds (EdgeKind.remapEdgeKindStringIds remap),
      b.reverse.mapKinds (EdgeKind.remapEdgeKindStringIds remap)⟩

end Sqry
