import Sqry.Persist.Layout

/-!
The layout of an edge kind: the position of its variant, then the fields of that variant. Version
10 had no variants after `SealedPermit` and no last field of a call.
-/

namespace Sqry
namespace Persist

inductive EdgeKindTag where
  | defines | contains | calls | references | imports | exports | typeOf | inherits | implements
  | lifetimeConstraint | traitMethodBinding | macroExpansion | ffiCall | httpRequest | grpcCall
  | webAssemblyCall | dbQuery | tableRead | tableWrite | triggeredBy | messageQueue | webSocket
  | graphQLOperation | processExec | fileIpc | protocolCall | genericBound | annotatedWith
  | annotationParam | lambdaCaptures | moduleExports | moduleRequires | moduleOpens
  | moduleProvides | typeArgument | extensionReceiver | companionOf | sealedPermit | wraps
  | channelPeer | instantiates
  deriving DecidableEq

namespace EdgeKindTag

def Fields : EdgeKindTag → Type
  | defines => Unit
  | contains => Unit
  | calls => UInt8 × Bool × ResolvedVia
  | references => Unit
  | imports => Option StringId × Bool
  | exports => ExportKind × Option StringId
  | typeOf => Option TypeOfContext × Option UInt16 × Option StringId
  | inherits => Unit
  | implements => Unit
  | lifetimeConstraint => LifetimeConstraintKind
  | traitMethodBinding => StringId × StringId × Bool
  | macroExpansion => MacroExpansionKind × Bool
  | ffiCall => FfiConvention
  | httpRequest => HttpMethod × Option StringId
  | grpcCall => StringId × StringId
  | webAssemblyCall => Unit
  | dbQuery => DbQueryType × Option StringId
  | tableRead => StringId × Option StringId
  | tableWrite => StringId × Option StringId × TableWriteOp
  | triggeredBy => StringId × Option StringId
  | messageQueue => MqProtocol × Option StringId
  | webSocket => Option StringId
  | graphQLOperation => StringId
  | processExec => StringId
  | fileIpc => Option StringId
  | protocolCall => StringId × Option StringId
  | genericBound => Unit
  | annotatedWith => Unit
  | annotationParam => Unit
  | lambdaCaptures => Unit
  | moduleExports => Unit
  | moduleRequires => Unit
  | moduleOpens => Unit
  | moduleProvides => Unit
  | typeArgument => Unit
  | extensionReceiver => Unit
  | companionOf => Unit
  | sealedPermit => Unit
  | wraps => WrapKind × Option UInt16
  | channelPeer => ChannelPeerDirection × ChannelBufferKind
  | instantiates => List TypeArg × InferenceKind

def kind : (tag : EdgeKindTag) → tag.Fields → EdgeKind
  | defines, _ => .defines
  | contains, _ => .contains
  | calls, (argumentCount, isAsync, resolvedVia) => .calls argumentCount isAsync resolvedVia
  | references, _ => .references
  | imports, (aliasName, isWildcard) => .imports aliasName isWildcard
  | exports, (kind, aliasName) => .exports kind aliasName
  | typeOf, (context, index, name) => .typeOf context index name
  | inherits, _ => .inherits
  | implements, _ => .implements
  | lifetimeConstraint, constraintKind => .lifetimeConstraint constraintKind
  | traitMethodBinding, (traitName, implType, isAmbiguous) =>
    .traitMethodBinding traitName implType isAmbiguous
  | macroExpansion, (expansionKind, isVerified) => .macroExpansion expansionKind isVerified
  | ffiCall, convention => .ffiCall convention
  | httpRequest, (method, url) => .httpRequest method url
  | grpcCall, (service, method) => .grpcCall service method
  | webAssemblyCall, _ => .webAssemblyCall
  | dbQuery, (queryType, table) => .dbQuery queryType table
  | tableRead, (tableName, schema) => .tableRead tableName schema
  | tableWrite, (tableName, schema, operation) => .tableWrite tableName schema operation
  | triggeredBy, (triggerName, schema) => .triggeredBy triggerName schema
  | messageQueue, (protocol, topic) => .messageQueue protocol topic
  | webSocket, event => .webSocket event
  | graphQLOperation, operation => .graphQLOperation operation
  | processExec, command => .processExec command
  | fileIpc, pathPattern => .fileIpc pathPattern
  | protocolCall, (protocol, metadata) => .protocolCall protocol metadata
  | genericBound, _ => .genericBound
  | annotatedWith, _ => .annotatedWith
  | annotationParam, _ => .annotationParam
  | lambdaCaptures, _ => .lambdaCaptures
  | moduleExports, _ => .moduleExports
  | moduleRequires, _ => .moduleRequires
  | moduleOpens, _ => .moduleOpens
  | moduleProvides, _ => .moduleProvides
  | typeArgument, _ => .typeArgument
  | extensionReceiver, _ => .extensionReceiver
  | companionOf, _ => .companionOf
  | sealedPermit, _ => .sealedPermit
  | wraps, (kind, chainPosition) => .wraps kind chainPosition
  | channelPeer, (direction, bufferKind) => .channelPeer direction bufferKind
  | instantiates, (typeArgs, inferenceKind) => .instantiates typeArgs inferenceKind

def FieldsV10 : EdgeKindTag → Type
  | defines => Unit
  | contains => Unit
  | calls => UInt8 × Bool
  | references => Unit
  | imports => Option StringId × Bool
  | exports => ExportKind × Option StringId
  | typeOf => Option TypeOfContext × Option UInt16 × Option StringId
  | inherits => Unit
  | implements => Unit
  | lifetimeConstraint => LifetimeConstraintKind
  | traitMethodBinding => StringId × StringId × Bool
  | macroExpansion => MacroExpansionKind × Bool
  | ffiCall => FfiConvention
  | httpRequest => HttpMethod × Option StringId
  | grpcCall => StringId × StringId
  | webAssemblyCall => Unit
  | dbQuery => DbQueryType × Option StringId
  | tableRead => StringId × Option StringId
  | tableWrite => StringId × Option StringId × TableWriteOp
  | triggeredBy => StringId × Option StringId
  | messageQueue => MqProtocol × Option StringId
  | webSocket => Option StringId
  | graphQLOperation => StringId
  | processExec => StringId
  | fileIpc => Option StringId
  | protocolCall => StringId × Option StringId
  | genericBound => Unit
  | annotatedWith => Unit
  | annotationParam => Unit
  | lambdaCaptures => Unit
  | moduleExports => Unit
  | moduleRequires => Unit
  | moduleOpens => Unit
  | moduleProvides => Unit
  | typeArgument => Unit
  | extensionReceiver => Unit
  | companionOf => Unit
  | sealedPermit => Unit
  | wraps => Empty
  | channelPeer => Empty
  | instantiates => Empty

def kindV10 : (tag : EdgeKindTag) → tag.FieldsV10 → EdgeKindV10
  | defines, _ => .defines
  | contains, _ => .contains
  | calls, (argumentCount, isAsync) => .calls argumentCount isAsync
  | references, _ => .references
  | imports, (aliasName, isWildcard) => .imports aliasName isWildcard
  | exports, (kind, aliasName) => .exports kind aliasName
  | typeOf, (context, index, name) => .typeOf context index name
  | inherits, _ => .inherits
  | implements, _ => .implements
  | lifetimeConstraint, constraintKind => .lifetimeConstraint constraintKind
  | traitMethodBinding, (traitName, implType, isAmbiguous) =>
    .traitMethodBinding traitName implType isAmbiguous
  | macroExpansion, (expansionKind, isVerified) => .macroExpansion expansionKind isVerified
  | ffiCall, convention => .ffiCall convention
  | httpRequest, (method, url) => .httpRequest method url
  | grpcCall, (service, method) => .grpcCall service method
  | webAssemblyCall, _ => .webAssemblyCall
  | dbQuery, (queryType, table) => .dbQuery queryType table
  | tableRead, (tableName, schema) => .tableRead tableName schema
  | tableWrite, (tableName, schema, operation) => .tableWrite tableName schema operation
  | triggeredBy, (triggerName, schema) => .triggeredBy triggerName schema
  | messageQueue, (protocol, topic) => .messageQueue protocol topic
  | webSocket, event => .webSocket event
  | graphQLOperation, operation => .graphQLOperation operation
  | processExec, command => .processExec command
  | fileIpc, pathPattern => .fileIpc pathPattern
  | protocolCall, (protocol, metadata) => .protocolCall protocol metadata
  | genericBound, _ => .genericBound
  | annotatedWith, _ => .annotatedWith
  | annotationParam, _ => .annotationParam
  | lambdaCaptures, _ => .lambdaCaptures
  | moduleExports, _ => .moduleExports
  | moduleRequires, _ => .moduleRequires
  | moduleOpens, _ => .moduleOpens
  | moduleProvides, _ => .moduleProvides
  | typeArgument, _ => .typeArgument
  | extensionReceiver, _ => .extensionReceiver
  | companionOf, _ => .companionOf
  | sealedPermit, _ => .sealedPermit

end EdgeKindTag

def splitKind : EdgeKind → Σ tag : EdgeKindTag, tag.Fields
  | .defines => ⟨.defines, ()⟩
  | .contains => ⟨.contains, ()⟩
  | .calls argumentCount isAsync resolvedVia => ⟨.calls, (argumentCount, isAsync, resolvedVia)⟩
  | .references => ⟨.references, ()⟩
  | .imports aliasName isWildcard => ⟨.imports, (aliasName, isWildcard)⟩
  | .exports kind aliasName => ⟨.exports, (kind, aliasName)⟩
  | .typeOf context index name => ⟨.typeOf, (context, index, name)⟩
  | .inherits => ⟨.inherits, ()⟩
  | .implements => ⟨.implements, ()⟩
  | .lifetimeConstraint constraintKind => ⟨.lifetimeConstraint, constraintKind⟩
  | .traitMethodBinding traitName implType isAmbiguous =>
    ⟨.traitMethodBinding, (traitName, implType, isAmbiguous)⟩
  | .macroExpansion expansionKind isVerified => ⟨.macroExpansion, (expansionKind, isVerified)⟩
  | .ffiCall convention => ⟨.ffiCall, convention⟩
  | .httpRequest method url => ⟨.httpRequest, (method, url)⟩
  | .grpcCall service method => ⟨.grpcCall, (service, method)⟩
  | .webAssemblyCall => ⟨.webAssemblyCall, ()⟩
  | .dbQuery queryType table => ⟨.dbQuery, (queryType, table)⟩
  | .tableRead tableName schema => ⟨.tableRead, (tableName, schema)⟩
  | .tableWrite tableName schema operation => ⟨.tableWrite, (tableName, schema, operation)⟩
  | .triggeredBy triggerName schema => ⟨.triggeredBy, (triggerName, schema)⟩
  | .messageQueue protocol topic => ⟨.messageQueue, (protocol, topic)⟩
  | .webSocket event => ⟨.webSocket, event⟩
  | .graphQLOperation operation => ⟨.graphQLOperation, operation⟩
  | .processExec command => ⟨.processExec, command⟩
  | .fileIpc pathPattern => ⟨.fileIpc, pathPattern⟩
  | .protocolCall protocol metadata => ⟨.protocolCall, (protocol, metadata)⟩
  | .genericBound => ⟨.genericBound, ()⟩
  | .annotatedWith => ⟨.annotatedWith, ()⟩
  | .annotationParam => ⟨.annotationParam, ()⟩
  | .lambdaCaptures => ⟨.lambdaCaptures, ()⟩
  | .moduleExports => ⟨.moduleExports, ()⟩
  | .moduleRequires => ⟨.moduleRequires, ()⟩
  | .moduleOpens => ⟨.moduleOpens, ()⟩
  | .moduleProvides => ⟨.moduleProvides, ()⟩
  | .typeArgument => ⟨.typeArgument, ()⟩
  | .extensionReceiver => ⟨.extensionReceiver, ()⟩
  | .companionOf => ⟨.companionOf, ()⟩
  | .sealedPermit => ⟨.sealedPermit, ()⟩
  | .wraps kind chainPosition => ⟨.wraps, (kind, chainPosition)⟩
  | .channelPeer direction bufferKind => ⟨.channelPeer, (direction, bufferKind)⟩
  | .instantiates typeArgs inferenceKind => ⟨.instantiates, (typeArgs, inferenceKind)⟩

def splitKindV10 : EdgeKindV10 → Σ tag : EdgeKindTag, tag.FieldsV10
  | .defines => ⟨.defines, ()⟩
  | .contains => ⟨.contains, ()⟩
  | .calls argumentCount isAsync => ⟨.calls, (argumentCount, isAsync)⟩
  | .references => ⟨.references, ()⟩
  | .imports aliasName isWildcard => ⟨.imports, (aliasName, isWildcard)⟩
  | .exports kind aliasName => ⟨.exports, (kind, aliasName)⟩
  | .typeOf context index name => ⟨.typeOf, (context, index, name)⟩
  | .inherits => ⟨.inherits, ()⟩
  | .implements => ⟨.implements, ()⟩
  | .lifetimeConstraint constraintKind => ⟨.lifetimeConstraint, constraintKind⟩
  | .traitMethodBinding traitName implType isAmbiguous =>
    ⟨.traitMethodBinding, (traitName, implType, isAmbiguous)⟩
  | .macroExpansion expansionKind isVerified => ⟨.macroExpansion, (expansionKind, isVerified)⟩
  | .ffiCall convention => ⟨.ffiCall, convention⟩
  | .httpRequest method url => ⟨.httpRequest, (method, url)⟩
  | .grpcCall service method => ⟨.grpcCall, (service, method)⟩
  | .webAssemblyCall => ⟨.webAssemblyCall, ()⟩
  | .dbQuery queryType table => ⟨.dbQuery, (queryType, table)⟩
  | .tableRead tableName schema => ⟨.tableRead, (tableName, schema)⟩
  | .tableWrite tableName schema operation => ⟨.tableWrite, (tableName, schema, operation)⟩
  | .triggeredBy triggerName schema => ⟨.triggeredBy, (triggerName, schema)⟩
  | .messageQueue protocol topic => ⟨.messageQueue, (protocol, topic)⟩
  | .webSocket event => ⟨.webSocket, event⟩
  | .graphQLOperation operation => ⟨.graphQLOperation, operation⟩
  | .processExec command => ⟨.processExec, command⟩
  | .fileIpc pathPattern => ⟨.fileIpc, pathPattern⟩
  | .protocolCall protocol metadata => ⟨.protocolCall, (protocol, metadata)⟩
  | .genericBound => ⟨.genericBound, ()⟩
  | .annotatedWith => ⟨.annotatedWith, ()⟩
  | .annotationParam => ⟨.annotationParam, ()⟩
  | .lambdaCaptures => ⟨.lambdaCaptures, ()⟩
  | .moduleExports => ⟨.moduleExports, ()⟩
  | .moduleRequires => ⟨.moduleRequires, ()⟩
  | .moduleOpens => ⟨.moduleOpens, ()⟩
  | .moduleProvides => ⟨.moduleProvides, ()⟩
  | .typeArgument => ⟨.typeArgument, ()⟩
  | .extensionReceiver => ⟨.extensionReceiver, ()⟩
  | .companionOf => ⟨.companionOf, ()⟩
  | .sealedPermit => ⟨.sealedPermit, ()⟩

theorem kind_splitKind (kind : EdgeKind) : (splitKind kind).1.kind (splitKind kind).2 = kind := by
  cases kind <;> rfl

theorem kindV10_splitKindV10 (kind : EdgeKindV10) :
    (splitKindV10 kind).1.kindV10 (splitKindV10 kind).2 = kind := by
  cases kind <;> rfl

inductive MqTag where
  | kafka | sqs | rabbitMq | nats | redis | other
  deriving DecidableEq

namespace MqTag

def Fields : MqTag → Type
  | other => StringId
  | kafka => Unit
  | sqs => Unit
  | rabbitMq => Unit
  | nats => Unit
  | redis => Unit

def protocol : (tag : MqTag) → tag.Fields → MqProtocol
  | kafka, _ => .kafka
  | sqs, _ => .sqs
  | rabbitMq, _ => .rabbitMq
  | nats, _ => .nats
  | redis, _ => .redis
  | other, id => .other id

end MqTag

def splitProtocol : MqProtocol → Σ tag : MqTag, tag.Fields
  | .kafka => ⟨.kafka, ()⟩
  | .sqs => ⟨.sqs, ()⟩
  | .rabbitMq => ⟨.rabbitMq, ()⟩
  | .nats => ⟨.nats, ()⟩
  | .redis => ⟨.redis, ()⟩
  | .other id => ⟨.other, id⟩

namespace Layout

def u16 : Layout UInt16 :=
  varint.checked (fun n => if n < 65536 then .ok n.toUInt16 else .error badVarint) UInt16.toNat
    (by
      intro b
      simp only [if_pos b.toNat_lt, UInt16.ofNat_toNat])

def never (text : String) : Layout Empty where
  encode := fun x => x.elim
  take := fun _ => .error text
  take_encode := fun x => x.elim
  take_append := fun _ h => by cases h
  exists_used := fun h => by cases h

def variant {α : Type} [DecidableEq α] (table : List α) (hall : ∀ a, a ∈ table) : Layout α :=
  .enumeration varint table hall fun i => .error ("unknown variant " ++ toString i)

def resolvedVia : Layout ResolvedVia :=
  variant
    [.direct, .typeMatch, .bindingPlane, .virtualDispatch, .interfaceDispatch, .duckTyped,
      .structural, .promiscuousElided]
    (by intro a; cases a <;> decide)

def typeOfContext : Layout TypeOfContext :=
  variant [.parameter, .«return», .field, .«variable», .typeParameter, .constraint]
    (by intro a; cases a <;> decide)

def ffiConvention : Layout FfiConvention :=
  variant [.c, .cdecl, .stdcall, .fastcall, .system]
    (by intro a; cases a <;> decide)

def httpMethod : Layout HttpMethod :=
  variant [.get, .post, .put, .delete, .patch, .head, .options, .all]
    (by intro a; cases a <;> decide)

def dbQueryType : Layout DbQueryType :=
  variant [.select, .insert, .update, .delete, .execute]
    (by intro a; cases a <;> decide)

def tableWriteOp : Layout TableWriteOp :=
  variant [.insert, .update, .delete]
    (by intro a; cases a <;> decide)

def exportKind : Layout ExportKind :=
  variant [.direct, .reexport, .default, .«namespace»]
    (by intro a; cases a <;> decide)

def lifetimeConstraintKind : Layout LifetimeConstraintKind :=
  variant
    [.outlives, .typeBound, .reference, .static, .higherRanked, .traitObject, .implTrait,
      .elided]
    (by intro a; cases a <;> decide)

def macroExpansionKind : Layout MacroExpansionKind :=
  variant [.derive, .«attribute», .declarative, .function, .cfgGate]
    (by intro a; cases a <;> decide)

def wrapKind : Layout WrapKind :=
  variant
    [.errorfVerb, .unwrapMethod, .unwrapMultiMethod, .errorsIs, .errorsAs, .errorsAsType,
      .errorsJoin]
    (by intro a; cases a <;> decide)

def channelPeerDirection : Layout ChannelPeerDirection :=
  variant [.send, .receive, .close]
    (by intro a; cases a <;> decide)

def channelBufferKind : Layout ChannelBufferKind :=
  variant [.unbuffered, .buffered, .unknown]
    (by intro a; cases a <;> decide)

def inferenceKind : Layout InferenceKind :=
  variant [.explicit, .inferred, .partly, .unknown]
    (by intro a; cases a <;> decide)

def typeArg : Layout TypeArg :=
  (stringId.prod bool).map
    { toFun := fun p => ⟨p.1, p.2⟩
      invFun := fun a => (a.name, a.defaultTyped)
      left_inv := fun _ => rfl
      right_inv := fun _ => rfl }

def mqTag : Layout MqTag :=
  variant [.kafka, .sqs, .rabbitMq, .nats, .redis, .other] (by intro a; cases a <;> decide)

def mqFields : (tag : MqTag) → Layout tag.Fields
  | .kafka => .unit
  | .sqs => .unit
  | .rabbitMq => .unit
  | .nats => .unit
  | .redis => .unit
  | .other => stringId

def mqProtocol : Layout MqProtocol :=
  (mqTag.sigma mqFields).retract (fun p => p.1.protocol p.2) splitProtocol
    (by intro protocol; cases protocol <;> rfl)

def edgeKindTag : Layout EdgeKindTag :=
  variant
    [.defines, .contains, .calls, .references, .imports, .exports, .typeOf, .inherits,
      .implements, .lifetimeConstraint, .traitMethodBinding, .macroExpansion, .ffiCall,
      .httpRequest, .grpcCall, .webAssemblyCall, .dbQuery, .tableRead, .tableWrite,
      .triggeredBy, .messageQueue, .webSocket, .graphQLOperation, .processExec, .fileIpc,
      .protocolCall, .genericBound, .annotatedWith, .annotationParam, .lambdaCaptures,
      .moduleExports, .moduleRequires, .moduleOpens, .moduleProvides, .typeArgument,
      .extensionReceiver, .companionOf, .sealedPermit, .wraps, .channelPeer, .instantiates]
    (by intro a; cases a <;> decide)

def edgeFields : (tag : EdgeKindTag) → Layout tag.Fields
  | .defines => .unit
  | .contains => .unit
  | .calls => u8.prod (bool.prod resolvedVia)
  | .references => .unit
  | .imports => (optional stringId).prod bool
  | .exports => exportKind.prod (optional stringId)
  | .typeOf => (optional typeOfContext).prod ((optional u16).prod (optional stringId))
  | .inherits => .unit
  | .implements => .unit
  | .lifetimeConstraint => lifetimeConstraintKind
  | .traitMethodBinding => stringId.prod (stringId.prod bool)
  | .macroExpansion => macroExpansionKind.prod bool
  | .ffiCall => ffiConvention
  | .httpRequest => httpMethod.prod (optional stringId)
  | .grpcCall => stringId.prod stringId
  | .webAssemblyCall => .unit
  | .dbQuery => dbQueryType.prod (optional stringId)
  | .tableRead => stringId.prod (optional stringId)
  | .tableWrite => stringId.prod ((optional stringId).prod tableWriteOp)
  | .triggeredBy => stringId.prod (optional stringId)
  | .messageQueue => mqProtocol.prod (optional stringId)
  | .webSocket => optional stringId
  | .graphQLOperation => stringId
  | .processExec => stringId
  | .fileIpc => optional stringId
  | .protocolCall => stringId.prod (optional stringId)
  | .genericBound => .unit
  | .annotatedWith => .unit
  | .annotationParam => .unit
  | .lambdaCaptures => .unit
  | .moduleExports => .unit
  | .moduleRequires => .unit
  | .moduleOpens => .unit
  | .moduleProvides => .unit
  | .typeArgument => .unit
  | .extensionReceiver => .unit
  | .companionOf => .unit
  | .sealedPermit => .unit
  | .wraps => wrapKind.prod (optional u16)
  | .channelPeer => channelPeerDirection.prod channelBufferKind
  | .instantiates => (vec typeArg).prod inferenceKind

def edgeFieldsV10 : (tag : EdgeKindTag) → Layout tag.FieldsV10
  | .defines => .unit
  | .contains => .unit
  | .calls => u8.prod bool
  | .references => .unit
  | .imports => (optional stringId).prod bool
  | .exports => exportKind.prod (optional stringId)
  | .typeOf => (optional typeOfContext).prod ((optional u16).prod (optional stringId))
  | .inherits => .unit
  | .implements => .unit
  | .lifetimeConstraint => lifetimeConstraintKind
  | .traitMethodBinding => stringId.prod (stringId.prod bool)
  | .macroExpansion => macroExpansionKind.prod bool
  | .ffiCall => ffiConvention
  | .httpRequest => httpMethod.prod (optional stringId)
  | .grpcCall => stringId.prod stringId
  | .webAssemblyCall => .unit
  | .dbQuery => dbQueryType.prod (optional stringId)
  | .tableRead => stringId.prod (optional stringId)
  | .tableWrite => stringId.prod ((optional stringId).prod tableWriteOp)
  | .triggeredBy => stringId.prod (optional stringId)
  | .messageQueue => mqProtocol.prod (optional stringId)
  | .webSocket => optional stringId
  | .graphQLOperation => stringId
  | .processExec => stringId
  | .fileIpc => optional stringId
  | .protocolCall => stringId.prod (optional stringId)
  | .genericBound => .unit
  | .annotatedWith => .unit
  | .annotationParam => .unit
  | .lambdaCaptures => .unit
  | .moduleExports => .unit
  | .moduleRequires => .unit
  | .moduleOpens => .unit
  | .moduleProvides => .unit
  | .typeArgument => .unit
  | .extensionReceiver => .unit
  | .companionOf => .unit
  | .sealedPermit => .unit
  | .wraps => never "unknown variant wraps"
  | .channelPeer => never "unknown variant channelPeer"
  | .instantiates => never "unknown variant instantiates"

def edgeKind : Layout EdgeKind :=
  (edgeKindTag.sigma edgeFields).retract (fun p => p.1.kind p.2) splitKind kind_splitKind

def edgeKindV10 : Layout EdgeKindV10 :=
  (edgeKindTag.sigma edgeFieldsV10).retract (fun p => p.1.kindV10 p.2) splitKindV10
    kindV10_splitKindV10

end Layout

end Persist
end Sqry
