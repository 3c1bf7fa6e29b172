import Sqry.Edge.Kind

/-!
The `Debug` text of an edge kind determines it: its first word names the variant, and the
texts of the fields determine the kind among those of its variant.
-/

namespace Sqry

open Delimited (IsDelimited)

theorem ResolvedVia.isDelimited_debug : IsDelimited ResolvedVia.debug :=
  Delimited.isDelimited_of_words (by intro a b; cases a <;> cases b <;> decide)
    (by intro a; cases a <;> decide)

theorem TypeOfContext.isDelimited_debug : IsDelimited TypeOfContext.debug :=
  Delimited.isDelimited_of_words (by intro a b; cases a <;> cases b <;> decide)
    (by intro a; cases a <;> decide)

theorem FfiConvention.isDelimited_debug : IsDelimited FfiConvention.debug :=
  Delimited.isDelimited_of_words (by intro a b; cases a <;> cases b <;> decide)
    (by intro a; cases a <;> decide)

theorem HttpMethod.isDelimited_debug : IsDelimited HttpMethod.debug :=
  Delimited.isDelimited_of_words (by intro a b; cases a <;> cases b <;> decide)
    (by intro a; cases a <;> decide)

theorem DbQueryType.isDelimited_debug : IsDelimited DbQueryType.debug :=
  Delimited.isDelimited_of_words (by intro a b; cases a <;> cases b <;> decide)
    (by intro a; cases a <;> decide)

theorem TableWriteOp.isDelimited_debug : IsDelimited TableWriteOp.debug :=
  Delimited.isDelimited_of_words (by intro a b; cases a <;> cases b <;> decide)
    (by intro a; cases a <;> decide)

theorem ExportKind.isDelimited_debug : IsDelimited ExportKind.debug :=
  Delimited.isDelimited_of_words (by intro a b; cases a <;> cases b <;> decide)
    (by intro a; cases a <;> decide)

theorem LifetimeConstraintKind.isDelimited_debug : IsDelimited LifetimeConstraintKind.debug :=
  Delimited.isDelimited_of_words (by intro a b; cases a <;> cases b <;> decide)
    (by intro a; cases a <;> decide)

theorem MacroExpansionKind.isDelimited_debug : IsDelimited MacroExpansionKind.debug :=
  Delimited.isDelimited_of_words (by intro a b; cases a <;> cases b <;> decide)
    (by intro a; cases a <;> decide)

theorem WrapKind.isDelimited_debug : IsDelimited WrapKind.debug :=
  Delimited.isDelimited_of_words (by intro a b; cases a <;> cases b <;> decide)
    (by intro a; cases a <;> decide)

theorem ChannelPeerDirection.isDelimited_debug : IsDelimited ChannelPeerDirection.debug :=
  Delimited.isDelimited_of_words (by intro a b; cases a <;> cases b <;> decide)
    (by intro a; cases a <;> decide)

theorem ChannelBufferKind.isDelimited_debug : IsDelimited ChannelBufferKind.debug :=
  Delimited.isDelimited_of_words (by intro a b; cases a <;> cases b <;> decide)
    (by intro a; cases a <;> decide)

theorem InferenceKind.isDelimited_debug : IsDelimited InferenceKind.debug :=
  Delimited.isDelimited_of_words (by intro a b; cases a <;> cases b <;> decide)
    (by intro a; cases a <;> decide)

theorem isDelimited_debugBool : IsDelimited debugBool :=
  Delimited.isDelimited_of_words (by intro a b; cases a <;> cases b <;> decide)
    (by intro a; cases a <;> decide)

theorem isDelimited_debugU8 : IsDelimited debugU8 :=
  Delimited.isDelimited_comp Delimited.isDelimited_nat fun _ _ => UInt8.toNat_inj.mp

theorem isDelimited_debugU16 : IsDelimited debugU16 :=
  Delimited.isDelimited_comp Delimited.isDelimited_nat fun _ _ => UInt16.toNat_inj.mp

theorem isDelimited_debugContextOption :
    IsDelimited (Delimited.option TypeOfContext.debug) :=
  Delimited.isDelimited_option TypeOfContext.isDelimited_debug

theorem isDelimited_debugU16Option : IsDelimited (Delimited.option debugU16) :=
  Delimited.isDelimited_option isDelimited_debugU16

theorem isDelimited_debugStringIdOption : IsDelimited debugStringIdOption :=
  Delimited.isDelimited_option StringId.isDelimited_debug

theorem MqProtocol.debug_other (id : StringId) :
    (other id).debug = Delimited.field "Other(" id.debug [')'] := rfl

theorem MqProtocol.isDelimited_debug : IsDelimited MqProtocol.debug := by
  intro a b r s _ _ h
  cases a with
  | other id =>
    cases b with
    | other id' =>
      have hparen : ∀ t : List Char, Delimited.Stops (')' :: t) :=
        Delimited.stops_cons (by decide)
      rw [debug_other, debug_other, Delimited.field_append, Delimited.field_append] at h
      obtain ⟨hid, hrest⟩ :=
        Delimited.field_inj StringId.isDelimited_debug (hparen r) (hparen s) h
      exact ⟨congrArg other hid, (List.cons.inj hrest).2⟩
    | kafka | sqs | rabbitMq | nats | redis => cases h
  | kafka | sqs | rabbitMq | nats | redis =>
    cases b <;> first | exact ⟨rfl, List.append_cancel_left h⟩ | cases h

theorem TypeArg.isDelimited_debug : IsDelimited TypeArg.debug := by
  intro a b r s _ _ h
  rw [debug, debug, Delimited.field_append, Delimited.field_append, Delimited.field_append,
    Delimited.field_append] at h
  obtain ⟨hname, h⟩ := Delimited.field_step StringId.isDelimited_debug (by decide) h
  obtain ⟨htyped, hrest⟩ := Delimited.field_inj isDelimited_debugBool
    (Delimited.stops_append_of_separates (by decide) r)
    (Delimited.stops_append_of_separates (by decide) s) h
  have hrs : r = s := List.append_cancel_left hrest
  cases a
  cases b
  cases hname
  cases htyped
  exact ⟨rfl, hrs⟩

theorem TypeArg.debug_append_ne (a : TypeArg) (r s : List Char) : a.debug ++ r ≠ ']' :: s := by
  intro h
  cases h

theorem isDelimited_typeArgs : IsDelimited (Delimited.list TypeArg.debug) :=
  Delimited.isDelimited_list TypeArg.isDelimited_debug TypeArg.debug_append_ne

namespace EdgeKind

theorem debug_inj {a b : EdgeKind} (hvariant : a.ctorIdx = b.ctorIdx) (h : a.debug = b.debug) :
    a = b := by
  cases a with
  | defines | contains | references | inherits | implements | webAssemblyCall | genericBound
  | annotatedWith | annotationParam | lambdaCaptures | moduleExports | moduleRequires
  | moduleOpens | moduleProvides | typeArgument | extensionReceiver | companionOf | sealedPermit =>
    cases b <;> first | rfl | cases hvariant
  | calls argumentCount isAsync resolvedVia =>
    cases b <;> try cases hvariant
    obtain ⟨h0, h⟩ := Delimited.field_step isDelimited_debugU8 (by decide) h
    obtain ⟨h1, h⟩ := Delimited.field_step isDelimited_debugBool (by decide) h
    have h2 := Delimited.field_last ResolvedVia.isDelimited_debug (by decide) h
    rw [h0, h1, h2]
  | imports aliasName isWildcard =>
    cases b <;> try cases hvariant
    obtain ⟨h0, h⟩ := Delimited.field_step isDelimited_debugStringIdOption (by decide) h
    have h1 := Delimited.field_last isDelimited_debugBool (by decide) h
    rw [h0, h1]
  | exports kind aliasName =>
    cases b <;> try cases hvariant
    obtain ⟨h0, h⟩ := Delimited.field_step ExportKind.isDelimited_debug (by decide) h
    have h1 := Delimited.field_last isDelimited_debugStringIdOption (by decide) h
    rw [h0, h1]
  | typeOf context index name =>
    cases b <;> try cases hvariant
    obtain ⟨h0, h⟩ := Delimited.field_step isDelimited_debugContextOption (by decide) h
    obtain ⟨h1, h⟩ := Delimited.field_step isDelimited_debugU16Option (by decide) h
    have h2 := Delimited.field_last isDelimited_debugStringIdOption (by decide) h
    rw [h0, h1, h2]
  | lifetimeConstraint constraintKind =>
    cases b <;> try cases hvariant
    have h0 := Delimited.field_last LifetimeConstraintKind.isDelimited_debug (by decide) h
    rw [h0]
  | traitMethodBinding traitName implType isAmbiguous =>
    cases b <;> try cases hvariant
    obtain ⟨h0, h⟩ := Delimited.field_step StringId.isDelimited_debug (by decide) h
    obtain ⟨h1, h⟩ := Delimited.field_step StringId.isDelimited_debug (by decide) h
    have h2 := Delimited.field_last isDelimited_debugBool (by decide) h
    rw [h0, h1, h2]
  | macroExpansion expansionKind isVerified =>
    cases b <;> try cases hvariant
    obtain ⟨h0, h⟩ := Delimited.field_step MacroExpansionKind.isDelimited_debug (by decide) h
    have h1 := Delimited.field_last isDelimited_debugBool (by decide) h
    rw [h0, h1]
  | ffiCall convention =>
    cases b <;> try cases hvariant
    have h0 := Delimited.field_last FfiConvention.isDelimited_debug (by decide) h
    rw [h0]
  | httpRequest method url =>
    cases b <;> try cases hvariant
    obtain ⟨h0, h⟩ := Delimited.field_step HttpMethod.isDelimited_debug (by decide) h
    have h1 := Delimited.field_last isDelimited_debugStringIdOption (by decide) h
    rw [h0, h1]
  | grpcCall service method =>
    cases b <;> try cases hvariant
    obtain ⟨h0, h⟩ := Delimited.field_step StringId.isDelimited_debug (by decide) h
    have h1 := Delimited.field_last StringId.isDelimited_debug (by decide) h
    rw [h0, h1]
  | dbQuery queryType table =>
    cases b <;> try cases hvariant
    obtain ⟨h0, h⟩ := Delimited.field_step DbQueryType.isDelimited_debug (by decide) h
    have h1 := Delimited.field_last isDelimited_debugStringIdOption (by decide) h
    rw [h0, h1]
  | tableRead tableName schema =>
    cases b <;> try cases hvariant
    obtain ⟨h0, h⟩ := Delimited.field_step StringId.isDelimited_debug (by decide) h
    have h1 := Delimited.field_last isDelimited_debugStringIdOption (by decide) h
    rw [h0, h1]
  | tableWrite tableName schema operation =>
    cases b <;> try cases hvariant
    obtain ⟨h0, h⟩ := Delimited.field_step StringId.isDelimited_debug (by decide) h
    obtain ⟨h1, h⟩ := Delimited.field_step isDelimited_debugStringIdOption (by decide) h
    have h2 := Delimited.field_last TableWriteOp.isDelimited_debug (by decide) h
    rw [h0, h1, h2]
  | triggeredBy triggerName schema =>
    cases b <;> try cases hvariant
    obtain ⟨h0, h⟩ := Delimited.field_step StringId.isDelimited_debug (by decide) h
    have h1 := Delimited.field_last isDelimited_debugStringIdOption (by decide) h
    rw [h0, h1]
  | messageQueue protocol topic =>
    cases b <;> try cases hvariant
    obtain ⟨h0, h⟩ := Delimited.field_step MqProtocol.isDelimited_debug (by decide) h
    have h1 := Delimited.field_last isDelimited_debugStringIdOption (by decide) h
    rw [h0, h1]
  | webSocket event =>
    cases b <;> try cases hvariant
    have h0 := Delimited.field_last isDelimited_debugStringIdOption (by decide) h
    rw [h0]
  | graphQLOperation operation =>
    cases b <;> try cases hvariant
    have h0 := Delimited.field_last StringId.isDelimited_debug (by decide) h
    rw [h0]
  | processExec command =>
    cases b <;> try cases hvariant
    have h0 := Delimited.field_last StringId.isDelimited_debug (by decide) h
    rw [h0]
  | fileIpc pathPattern =>
    cases b <;> try cases hvariant
    have h0 := Delimited.field_last isDelimited_debugStringIdOption (by decide) h
    rw [h0]
  | protocolCall protocol metadata =>
    cases b <;> try cases hvariant
    obtain ⟨h0, h⟩ := Delimited.field_step StringId.isDelimited_debug (by decide) h
    have h1 := Delimited.field_last isDelimited_debugStringIdOption (by decide) h
    rw [h0, h1]
  | wraps kind chainPosition =>
    cases b <;> try cases hvariant
    obtain ⟨h0, h⟩ := Delimited.field_step WrapKind.isDelimited_debug (by decide) h
    have h1 := Delimited.field_last isDelimited_debugU16Option (by decide) h
    rw [h0, h1]
  | channelPeer direction bufferKind =>
    cases b <;> try cases hvariant
    obtain ⟨h0, h⟩ := Delimited.field_step ChannelPeerDirection.isDelimited_debug (by decide) h
    have h1 := Delimited.field_last ChannelBufferKind.isDelimited_debug (by decide) h
    rw [h0, h1]
  | instantiates typeArgs inferenceKind =>
    cases b <;> try cases hvariant
    obtain ⟨h0, h⟩ := Delimited.field_step isDelimited_typeArgs (by decide) h
    have h1 := Delimited.field_last InferenceKind.isDelimited_debug (by decide) h
    rw [h0, h1]

def variantWords : List (List Char) :=
  ["Defines", "Contains", "Calls", "References", "Imports", "Exports", "TypeOf", "Inherits",
    "Implements", "LifetimeConstraint", "TraitMethodBinding", "MacroExpansion", "FfiCall",
    "HttpRequest", "GrpcCall", "WebAssemblyCall", "DbQuery", "TableRead", "TableWrite",
    "TriggeredBy", "MessageQueue", "WebSocket", "GraphQLOperation", "ProcessExec", "FileIpc",
    "ProtocolCall", "GenericBound", "AnnotatedWith", "AnnotationParam", "LambdaCaptures",
    "ModuleExports", "ModuleRequires", "ModuleOpens", "ModuleProvides", "TypeArgument",
    "ExtensionReceiver", "CompanionOf", "SealedPermit", "Wraps", "ChannelPeer",
    "Instantiates"].map String.toList

theorem variantWords_ctorIdx (k : EdgeKind) :
    variantWords[k.ctorIdx]? = some (k.debug.takeWhile Char.isAlphanum) := by
  cases k <;> rfl

theorem debug_injective : Function.Injective debug := by
  intro a b h
  have hwords : variantWords[a.ctorIdx]? = variantWords[b.ctorIdx]? := by
    rw [variantWords_ctorIdx, variantWords_ctorIdx, h]
  have hlt : a.ctorIdx < variantWords.length :=
    (List.getElem?_eq_some_iff.mp (variantWords_ctorIdx a)).1
  have hnodup : variantWords.Nodup := by decide +kernel
  exact debug_inj ((List.getElem?_inj hlt hnodup).mp hwords) h

end EdgeKind
end Sqry
