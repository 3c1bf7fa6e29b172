import Sqry.Graph.StringId

/-!
Edge kinds with the data they carry, the text `Debug` prints for them, and their
estimated sizes. The texts matter: compaction orders edge kinds by them.
-/

namespace Sqry

open Delimited (field nat)

inductive ResolvedVia where
  | direct | typeMatch | bindingPlane | virtualDispatch | interfaceDispatch | duckTyped
  | structural | promiscuousElided
  deriving DecidableEq, Repr

def ResolvedVia.debug : ResolvedVia → List Char
  | direct => "Direct".toList
  | typeMatch => "TypeMatch".toList
  | bindingPlane => "BindingPlane".toList
  | virtualDispatch => "VirtualDispatch".toList
  | interfaceDispatch => "InterfaceDispatch".toList
  | duckTyped => "DuckTyped".toList
  | structural => "Structural".toList
  | promiscuousElided => "PromiscuousElided".toList

inductive TypeOfContext where
  | parameter | «return» | field | «variable» | typeParameter | constraint
  deriving DecidableEq, Repr

def TypeOfContext.debug : TypeOfContext → List Char
  | parameter => "Parameter".toList
  | «return» => "Return".toList
  | field => "Field".toList
  | «variable» => "Variable".toList
  | typeParameter => "TypeParameter".toList
  | constraint => "Constraint".toList

inductive FfiConvention where
  | c | cdecl | stdcall | fastcall | system
  deriving DecidableEq, Repr

def FfiConvention.debug : FfiConvention → List Char
  | c => "C".toList
  | cdecl => "Cdecl".toList
  | stdcall => "Stdcall".toList
  | fastcall => "Fastcall".toList
  | system => "System".toList

inductive HttpMethod where
  | get | post | put | delete | patch | head | options | all
  deriving DecidableEq, Repr

def HttpMethod.debug : HttpMethod → List Char
  | get => "Get".toList
  | post => "Post".toList
  | put => "Put".toList
  | delete => "Delete".toList
  | patch => "Patch".toList
  | head => "Head".toList
  | options => "Options".toList
  | all => "All".toList

inductive DbQueryType where
  | select | insert | update | delete | execute
  deriving DecidableEq, Repr

def DbQueryType.debug : DbQueryType → List Char
  | select => "Select".toList
  | insert => "Insert".toList
  | update => "Update".toList
  | delete => "Delete".toList
  | execute => "Execute".toList

inductive TableWriteOp where
  | insert | update | delete
  deriving DecidableEq, Repr

def TableWriteOp.debug : TableWriteOp → List Char
  | insert => "Insert".toList
  | update => "Update".toList
  | delete => "Delete".toList

inductive ExportKind where
  | direct | reexport | default | «namespace»
  deriving DecidableEq, Repr

def ExportKind.debug : ExportKind → List Char
  | direct => "Direct".toList
  | reexport => "Reexport".toList
  | default => "Default".toList
  | «namespace» => "Namespace".toList

inductive LifetimeConstraintKind where
  | outlives | typeBound | reference | static | higherRanked | traitObject | implTrait | elided
  deriving DecidableEq, Repr

def LifetimeConstraintKind.debug : LifetimeConstraintKind → List Char
  | outlives => "Outlives".toList
  | typeBound => "TypeBound".toList
  | reference => "Reference".toList
  | static => "Static".toList
  | higherRanked => "HigherRanked".toList
  | traitObject => "TraitObject".toList
  | implTrait => "ImplTrait".toList
  | elided => "Elided".toList

inductive MacroExpansionKind where
  | derive | «attribute» | declarative | function | cfgGate
  deriving DecidableEq, Repr

def MacroExpansionKind.debug : MacroExpansionKind → List Char
  | derive => "Derive".toList
  | «attribute» => "Attribute".toList
  | declarative => "Declarative".toList
  | function => "Function".toList
  | cfgGate => "CfgGate".toList

inductive WrapKind where
  | errorfVerb | unwrapMethod | unwrapMultiMethod | errorsIs | errorsAs | errorsAsType
  | errorsJoin
  deriving DecidableEq, Repr

def WrapKind.debug : WrapKind → List Char
  | errorfVerb => "ErrorfVerb".toList
  | unwrapMethod => "UnwrapMethod".toList
  | unwrapMultiMethod => "UnwrapMultiMethod".toList
  | errorsIs => "ErrorsIs".toList
  | errorsAs => "ErrorsAs".toList
  | errorsAsType => "ErrorsAsType".toList
  | errorsJoin => "ErrorsJoin".toList

inductive ChannelPeerDirection where
  | send | receive | close
  deriving DecidableEq, Repr

def ChannelPeerDirection.debug : ChannelPeerDirection → List Char
  | send => "Send".toList
  | receive => "Receive".toList
  | close => "Close".toList

inductive ChannelBufferKind where
  | unbuffered | buffered | unknown
  deriving DecidableEq, Repr

def ChannelBufferKind.debug : ChannelBufferKind → List Char
  | unbuffered => "Unbuffered".toList
  | buffered => "Buffered".toList
  | unknown => "Unknown".toList

inductive InferenceKind where
  | explicit | inferred | partly | unknown
  deriving DecidableEq, Repr

def InferenceKind.debug : InferenceKind → List Char
  | explicit => "Explicit".toList
  | inferred => "Inferred".toList
  | partly => "Partial".toList
  | unknown => "Unknown".toList

inductive MqProtocol where
  | kafka | sqs | rabbitMq | nats | redis
  | other (id : StringId)
  deriving DecidableEq, Repr

def MqProtocol.debug : MqProtocol → List Char
  | kafka => "Kafka".toList
  | sqs => "Sqs".toList
  | rabbitMq => "RabbitMq".toList
  | nats => "Nats".toList
  | redis => "Redis".toList
  | other id => field "Other(" id.debug [')']

structure TypeArg where
  name : StringId
  defaultTyped : Bool
  deriving DecidableEq, Repr

def debugBool : Bool → List Char
  | true => "true".toList
  | false => "false".toList

def TypeArg.debug (a : TypeArg) : List Char :=
  field "TypeArg \x7b name: " a.name.debug
    (field ", default_typed: " (debugBool a.defaultTyped) " \x7d".toList)

def debugU8 (n : UInt8) : List Char := nat n.toNat

def debugU16 (n : UInt16) : List Char := nat n.toNat

def debugStringIdOption : Option StringId → List Char := Delimited.option StringId.debug

/-- In the order of the source, which fixes the discriminants. -/
inductive EdgeKind where
  | defines
  | contains
  | calls (argumentCount : UInt8) (isAsync : Bool) (resolvedVia : ResolvedVia)
  | references
  | imports (aliasName : Option StringId) (isWildcard : Bool)
  | exports (kind : ExportKind) (aliasName : Option StringId)
  | typeOf (context : Option TypeOfContext) (index : Option UInt16) (name : Option StringId)
  | inherits
  | implements
  | lifetimeConstraint (constraintKind : LifetimeConstraintKind)
  | traitMethodBinding (traitName : StringId) (implType : StringId) (isAmbiguous : Bool)
  | macroExpansion (expansionKind : MacroExpansionKind) (isVerified : Bool)
  | ffiCall (convention : FfiConvention)
  | httpRequest (method : HttpMethod) (url : Option StringId)
  | grpcCall (service : StringId) (method : StringId)
  | webAssemblyCall
  | dbQuery (queryType : DbQueryType) (table : Option StringId)
  | tableRead (tableName : StringId) (schema : Option StringId)
  | tableWrite (tableName : StringId) (schema : Option StringId) (operation : TableWriteOp)
  | triggeredBy (triggerName : StringId) (schema : Option StringId)
  | messageQueue (protocol : MqProtocol) (topic : Option StringId)
  | webSocket (event : Option StringId)
  | graphQLOperation (operation : StringId)
  | processExec (command : StringId)
  | fileIpc (pathPattern : Option StringId)
  | protocolCall (protocol : StringId) (metadata : Option StringId)
  | genericBound
  | annotatedWith
  | annotationParam
  | lambdaCaptures
  | moduleExports
  | moduleRequires
  | moduleOpens
  | moduleProvides
  | typeArgument
  | extensionReceiver
  | companionOf
  | sealedPermit
  | wraps (kind : WrapKind) (chainPosition : Option UInt16)
  | channelPeer (direction : ChannelPeerDirection) (bufferKind : ChannelBufferKind)
  | instantiates (typeArgs : List TypeArg) (inferenceKind : InferenceKind)
  deriving DecidableEq, Repr

namespace EdgeKind

/-- The derived `Debug` text. -/
def debug : EdgeKind → List Char
  | defines => "Defines".toList
  | contains => "Contains".toList
  | calls argumentCount isAsync resolvedVia =>
    field "Calls \x7b argument_count: " (debugU8 argumentCount)
      (field ", is_async: " (debugBool isAsync)
        (field ", resolved_via: " resolvedVia.debug " \x7d".toList))
  | references => "References".toList
  | imports aliasName isWildcard =>
    field "Imports \x7b alias: " (debugStringIdOption aliasName)
      (field ", is_wildcard: " (debugBool isWildcard) " \x7d".toList)
  | exports kind aliasName =>
    field "Exports \x7b kind: " kind.debug
      (field ", alias: " (debugStringIdOption aliasName) " \x7d".toList)
  | typeOf context index name =>
    field "TypeOf \x7b context: " (Delimited.option TypeOfContext.debug context)
      (field ", index: " (Delimited.option debugU16 index)
        (field ", name: " (debugStringIdOption name) " \x7d".toList))
  | inherits => "Inherits".toList
  | implements => "Implements".toList
  | lifetimeConstraint constraintKind =>
    field "LifetimeConstraint \x7b constraint_kind: " constraintKind.debug " \x7d".toList
  | traitMethodBinding traitName implType isAmbiguous =>
    field "TraitMethodBinding \x7b trait_name: " traitName.debug
      (field ", impl_type: " implType.debug
        (field ", is_ambiguous: " (debugBool isAmbiguous) " \x7d".toList))
  | macroExpansion expansionKind isVerified =>
    field "MacroExpansion \x7b expansion_kind: " expansionKind.debug
      (field ", is_verified: " (debugBool isVerified) " \x7d".toList)
  | ffiCall convention =>
    field "FfiCall \x7b convention: " convention.debug " \x7d".toList
  | httpRequest method url =>
    field "HttpRequest \x7b method: " method.debug
      (field ", url: " (debugStringIdOption url) " \x7d".toList)
  | grpcCall service method =>
    field "GrpcCall \x7b service: " service.debug
      (field ", method: " method.debug " \x7d".toList)
  | webAssemblyCall => "WebAssemblyCall".toList
  | dbQuery queryType table =>
    field "DbQuery \x7b query_type: " queryType.debug
      (field ", table: " (debugStringIdOption table) " \x7d".toList)
  | tableRead tableName schema =>
    field "TableRead \x7b table_name: " tableName.debug
      (field ", schema: " (debugStringIdOption schema) " \x7d".toList)
  | tableWrite tableName schema operation =>
    field "TableWrite \x7b table_name: " tableName.debug
      (field ", schema: " (debugStringIdOption schema)
        (field ", operation: " operation.debug " \x7d".toList))
  | triggeredBy triggerName schema =>
    field "TriggeredBy \x7b trigger_name: " triggerName.debug
      (field ", schema: " (debugStringIdOption schema) " \x7d".toList)
  | messageQueue protocol topic =>
    field "MessageQueue \x7b protocol: " protocol.debug
      (field ", topic: " (debugStringIdOption topic) " \x7d".toList)
  | webSocket event =>
    field "WebSocket \x7b event: " (debugStringIdOption event) " \x7d".toList
  | graphQLOperation operation =>
    field "GraphQLOperation \x7b operation: " operation.debug " \x7d".toList
  | processExec command =>
    field "ProcessExec \x7b command: " command.debug " \x7d".toList
  | fileIpc pathPattern =>
    field "FileIpc \x7b path_pattern: " (debugStringIdOption pathPattern) " \x7d".toList
  | protocolCall protocol metadata =>
    field "ProtocolCall \x7b protocol: " protocol.debug
      (field ", metadata: " (debugStringIdOption metadata) " \x7d".toList)
  | genericBound => "GenericBound".toList
  | annotatedWith => "AnnotatedWith".toList
  | annotationParam => "AnnotationParam".toList
  | lambdaCaptures => "LambdaCaptures".toList
  | moduleExports => "ModuleExports".toList
  | moduleRequires => "ModuleRequires".toList
  | moduleOpens => "ModuleOpens".toList
  | moduleProvides => "ModuleProvides".toList
  | typeArgument => "TypeArgument".toList
  | extensionReceiver => "ExtensionReceiver".toList
  | companionOf => "CompanionOf".toList
  | sealedPermit => "SealedPermit".toList
  | wraps kind chainPosition =>
    field "Wraps \x7b kind: " kind.debug
      (field ", chain_position: " (Delimited.option debugU16 chainPosition) " \x7d".toList)
  | channelPeer direction bufferKind =>
    field "ChannelPeer \x7b direction: " direction.debug
      (field ", buffer_kind: " bufferKind.debug " \x7d".toList)
  | instantiates typeArgs inferenceKind =>
    field "Instantiates \x7b type_args: " (Delimited.list TypeArg.debug typeArgs)
      (field ", inference_kind: " inferenceKind.debug " \x7d".toList)

def estimatedSize : EdgeKind → Nat
  | defines | contains | references | inherits | implements | webAssemblyCall | genericBound
  | annotatedWith | annotationParam | lambdaCaptures | moduleExports | moduleRequires
  | moduleOpens | moduleProvides | typeArgument | extensionReceiver | companionOf
  | sealedPermit => 1
  | calls _ _ _ | macroExpansion _ _ | channelPeer _ _ => 3
  | imports _ _ | exports _ _ | dbQuery _ _ => 7
  | lifetimeConstraint _ | ffiCall _ => 2
  | traitMethodBinding _ _ _ | tableRead _ _ | triggeredBy _ _ | protocolCall _ _ => 10
  | httpRequest _ _ | webSocket _ | fileIpc _ => 6
  | grpcCall _ _ => 9
  | typeOf _ _ _ | tableWrite _ _ _ | messageQueue _ _ => 11
  | graphQLOperation _ | processExec _ => 5
  | wraps _ _ => 4
  | instantiates typeArgs _ => 6 + typeArgs.length * 5

end EdgeKind
end Sqry
