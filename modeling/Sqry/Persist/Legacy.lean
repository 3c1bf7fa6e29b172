import Sqry.Persist.OldSnapshots
import Sqry.Persist.Wire

/-!
Which snapshots of older versions are decoded to the graph they were written from. Version 16 is,
and version 13, which has its own entries. The others are read with the entry of today: an arena
with a node is never restored, and before version 13 the bucket of the kind `Other` is lost.
-/

namespace Sqry
namespace Persist

variable {P : Parts} {L : Layouts P}

section Envelopes
variable {ν ν' ε ε' ι ι' μ μ' : Type} {nodes : Layout ν} {nodes' : Layout ν'} {edges : Layout ε}
  {indices : Layout ι} {indices' : Layout ι'} {metadata : Layout μ}

theorem leads_dataV10 : (L.dataV10 nodes edges indices metadata).LeadsWith nodes
    GraphSnapshotDataV10.nodes := Codec.leadsWith_prod nodes _ _

theorem leads_dataV11 : (L.dataV11 nodes edges indices metadata).LeadsWith nodes fun d => d.nodes :=
  (Codec.leadsWith_prod (L.dataV10 nodes edges indices metadata) _ _).trans leads_dataV10

theorem leads_dataV12 : (L.dataV12 nodes edges indices metadata).LeadsWith nodes fun d => d.nodes :=
  (Codec.leadsWith_prod (L.dataV11 nodes edges indices metadata) _ _).trans leads_dataV11

theorem leads_dataV15 : (L.dataV15 nodes edges indices metadata).LeadsWith nodes fun d => d.nodes :=
  (Codec.leadsWith_prod (L.dataV12 nodes edges indices metadata) _ _).trans leads_dataV12

section SameBytes

variable {n : ν} {n' : ν'} {i : ι} {i' : ι'} (hnodes : nodes'.encode n' = nodes.encode n)
  (hindices : indices'.encode i' = indices.encode i)
include hnodes hindices

theorem encode_dataV10 (d : GraphSnapshotDataV10 P ν ε ι μ) (hn : d.nodes = n)
    (hi : d.indices = i) :
    (L.dataV10 nodes' edges indices' metadata).encode
        (d.withStores n' d.edges i' d.macroMetadata) =
      (L.dataV10 nodes edges indices metadata).encode d := by
  subst hn hi
  show nodes'.encode n' ++ (_ ++ (_ ++ (_ ++ (indices'.encode i' ++ _)))) = _
  rw [hnodes, hindices]
  rfl

theorem encode_dataV11 (d : GraphSnapshotDataV11 P ν ε ι μ) (hn : d.nodes = n)
    (hi : d.indices = i) :
    (L.dataV11 nodes' edges indices' metadata).encode
        (d.withStores n' d.edges i' d.macroMetadata) =
      (L.dataV11 nodes edges indices metadata).encode d :=
  congrArg (· ++ _) (encode_dataV10 hnodes hindices d.toGraphSnapshotDataV10 hn hi)

theorem encode_dataV12 (d : GraphSnapshotDataV12 P ν ε ι μ) (hn : d.nodes = n)
    (hi : d.indices = i) :
    (L.dataV12 nodes' edges indices' metadata).encode
        (d.withStores n' d.edges i' d.macroMetadata) =
      (L.dataV12 nodes edges indices metadata).encode d :=
  congrArg (· ++ _) (encode_dataV11 hnodes hindices d.toGraphSnapshotDataV11 hn hi)

theorem encode_dataV15 (d : GraphSnapshotDataV15 P ν ε ι μ) (hn : d.nodes = n)
    (hi : d.indices = i) :
    (L.dataV15 nodes' edges indices' metadata).encode
        (d.withStores n' d.edges i' d.macroMetadata) =
      (L.dataV15 nodes edges indices metadata).encode d :=
  congrArg (· ++ _) (encode_dataV12 hnodes hindices d.toGraphSnapshotDataV12 hn hi)

end SameBytes
end Envelopes

section FromBytes
variable {α : Type} {c : Layout α} {bs : List UInt8} {a : α}

theorem exists_of_map {ε α β : Type} {x : Except ε α} {f : α → β} {b : β}
    (h : x.map f = .ok b) : ∃ a, x = .ok a ∧ f a = b := by
  cases x with
  | error e => cases h
  | ok a => exact ⟨a, rfl, Except.ok.inj h⟩

theorem exists_take_of_fromBytes (h : fromBytes c bs = .ok a) :
    ∃ rest, c.take bs = .ok (a, rest) := by
  cases hread : c.take bs with
  | error e => simp [fromBytes, Codec.fromBytes, hread] at h
  | ok r =>
    simp only [fromBytes, Codec.fromBytes, hread, Except.ok.injEq] at h
    exact ⟨r.2, by rw [← h]⟩

theorem fromBytes_of_encode (h : c.encode a = bs) : fromBytes c bs = .ok a := by
  rw [fromBytes, ← h, Codec.fromBytes_encode]

theorem vacant_of_fromBytes {γ κ : Type} {own : Layout γ} {kinds : Layout κ} {read : κ → NodeKind}
    (hread : ∀ kind, Layout.nodeKind.encode (read kind) = kinds.encode kind)
    {part : γ → NodeArena (NodeEntryV13 κ)} {live : α → NodeArena FullNodeEntry}
    (hown : own.LeadsWith (Layout.arena (Layout.entryV13 kinds)) part)
    (hlive : c.LeadsWith (Layout.arena Layout.nodeEntry) live) {d : γ} (hd : WellKept (part d))
    (h : fromBytes c (own.encode d) = .ok a) (hunmarked : Unmarked (live a).slots)
    (hhead : (live a).freeHead = (part d).freeHead) :
    ∀ slot ∈ (part d).slots, slot.isOccupied = false := by
  obtain ⟨rest, htake⟩ := exists_take_of_fromBytes h
  obtain ⟨mid, hnodes⟩ := hlive.take htake
  obtain ⟨more, hbytes⟩ := hown.encode d
  rw [hbytes] at hnodes
  exact vacant_of_take hread hd hnodes hunmarked hhead

end FromBytes

def Empty {α : Type} (a : NodeArena α) : Prop := ∀ slot ∈ a.slots, slot.isOccupied = false

/-- No node of kind `Other` is indexed. -/
def NoOther (x : AuxiliaryIndicesV13) : Prop := Buckets.bucket x.kindIndex .other = []

def OldSnapshot.Survives : OldSnapshot P → Prop
  | v10 d => Empty d.nodes ∧ NoOther d.indices
  | v11 d => Empty d.nodes ∧ NoOther d.indices
  | v12 d => Empty d.nodes ∧ NoOther d.indices
  | v13 d => d.indices.Lists (translateNodeArena NodeKindV13.toV14 d.nodes).iter
  | v14 d => Empty d.nodes
  | v15 d => Empty d.nodes
  | v16 _ => True

section Versions

variable {older : Older P} {header : GraphHeader P}

theorem finalize_vacant {d : ReadV12 P} (h : Empty d.nodes) : finalizePreV13Snapshot d = d := by
  rw [finalizePreV13Snapshot, demote_vacant h]
  rfl

theorem empty_translate {κ : Type} (live : κ → NodeKind) {a : NodeArena (NodeEntryV13 κ)}
    (h : Empty a) : Empty (translateNodeArena live a) := by
  intro slot hslot
  obtain ⟨old, hold, rfl⟩ := List.mem_map.mp hslot
  have hvacant := h old hold
  obtain ⟨generation, state⟩ := old
  cases state with
  | occupied entry => cases hvacant
  | vacant nextFree => rfl

theorem read_of_restored {d : ReadV12 P} {a : ArenaV13}
    (h : (finalizePreV13Snapshot d).nodes = translateNodeArena NodeKindV13.toV14 a) :
    Unmarked d.nodes.slots ∧ d.nodes.freeHead = a.freeHead := by
  have hdemoted : (finalizePreV13Snapshot d).nodes = d.nodes.mapEntries demote := by
    show (demoteSpuriousChannelNodes d.nodes d.indices).1 = _
    rw [demoteSpuriousChannelNodes]
    split <;> rfl
  rw [hdemoted] at h
  constructor
  · apply unmarked_of_demoted
    rw [h]
    exact unmarked_translate _ _
  · exact congrArg NodeArena.freeHead h

theorem read_same (kind : NodeKind) :
    Layout.nodeKind.encode (id kind) = Layout.nodeKind.encode kind := rfl

section Layouts
variable (L)

theorem leads_readV10 : L.readV10.LeadsWith (Layout.arena Layout.nodeEntry) fun d => d.nodes :=
  leads_dataV10

theorem leads_readV11 : L.readV11.LeadsWith (Layout.arena Layout.nodeEntry) fun d => d.nodes :=
  leads_dataV11

theorem leads_readV12 : L.readV12.LeadsWith (Layout.arena Layout.nodeEntry) fun d => d.nodes :=
  leads_dataV12

theorem leads_live : L.live.LeadsWith (Layout.arena Layout.nodeEntry) fun d => d.nodes :=
  leads_dataV15

theorem leads_ownV10 :
    L.ownV10.LeadsWith (Layout.arena (Layout.entryV13 Layout.nodeKindV13)) fun d => d.nodes :=
  leads_dataV10

theorem leads_ownV11 :
    L.ownV11.LeadsWith (Layout.arena (Layout.entryV13 Layout.nodeKindV13)) fun d => d.nodes :=
  leads_dataV11

theorem leads_readV13 :
    L.readV13.LeadsWith (Layout.arena (Layout.entryV13 Layout.nodeKindV13)) fun d => d.nodes :=
  leads_dataV12

theorem leads_ownV14 :
    L.ownV14.LeadsWith (Layout.arena (Layout.entryV13 Layout.nodeKind)) fun d => d.nodes :=
  leads_dataV12

theorem leads_ownV15 :
    L.ownV15.LeadsWith (Layout.arena (Layout.entryV13 Layout.nodeKind)) fun d => d.nodes :=
  leads_dataV15

end Layouts

theorem decodesBack_v15_iff {d : GraphSnapshotDataV15 P ArenaV14 BidirectionalEdgeStore
    AuxiliaryIndices (MetadataEntries P)} (hd : WellKept d.nodes) :
    (OldSnapshot.v15 d).DecodesBack L older header ↔ Empty d.nodes := by
  constructor
  · intro ⟨live, hdecode, hrestored⟩
    rw [OldSnapshot.version, decode_v15] at hdecode
    obtain ⟨r, hread, hlive⟩ := exists_of_map hdecode
    have hr : r = d.withStores (translateNodeArena id d.nodes) d.edges d.indices
        d.macroMetadata := hlive.trans hrestored
    refine vacant_of_fromBytes read_same (leads_ownV15 L) (leads_live L) hd hread ?_ ?_
    · rw [hr]
      exact unmarked_translate id d.nodes
    · rw [hr]
      rfl
  · intro hempty
    have hbytes : L.live.encode (d.withStores (translateNodeArena id d.nodes) d.edges d.indices
        d.macroMetadata) = L.ownV15.encode d :=
      encode_dataV15 (encode_vacant_arena Layout.nodeKind id hempty) rfl d rfl rfl
    refine ⟨_, ?_, rfl⟩
    rw [OldSnapshot.version, OldSnapshot.bytes, decode_v15, fromBytes_of_encode hbytes]
    rfl

theorem decodesBack_v14_iff {d : GraphSnapshotDataV12 P ArenaV14 BidirectionalEdgeStore
    AuxiliaryIndices (MetadataEntries P)} (hd : WellKept d.nodes) :
    (OldSnapshot.v14 d).DecodesBack L older header ↔ Empty d.nodes := by
  constructor
  · intro ⟨live, hdecode, hrestored, _⟩
    rw [OldSnapshot.version, decode_v14] at hdecode
    obtain ⟨r, hread, rfl⟩ := exists_of_map hdecode
    have hr : r = d.withStores (translateNodeArena id d.nodes) d.edges d.indices
        d.macroMetadata := hrestored
    refine vacant_of_fromBytes read_same (leads_ownV14 L) (leads_readV12 L) hd hread ?_ ?_
    · rw [hr]
      exact unmarked_translate id d.nodes
    · rw [hr]
      rfl
  · intro hempty
    have hbytes : L.readV12.encode (d.withStores (translateNodeArena id d.nodes) d.edges d.indices
        d.macroMetadata) = L.ownV14.encode d :=
      encode_dataV12 (encode_vacant_arena Layout.nodeKind id hempty) rfl d rfl rfl
    refine ⟨upconvertV15ToV16 (upconvertV14ToV15 _), ?_, rfl, rfl⟩
    rw [OldSnapshot.version, OldSnapshot.bytes, decode_v14, fromBytes_of_encode hbytes]
    rfl

theorem decodesBack_v13_iff {d : ReadV13 P} :
    (OldSnapshot.v13 d).DecodesBack L older header ↔
      d.indices.Lists (translateNodeArena NodeKindV13.toV14 d.nodes).iter := by
  have hdecode : decodeSnapshotData L older .v13 header (L.readV13.encode d) =
      .ok (upconvertV14ToV15 (upconvertV13ToV14 d)) := by
    rw [decode_v13, fromBytes_of_encode rfl]
    rfl
  rw [← kept_rebuilt_iff]
  constructor
  · intro ⟨live, hlive, _, hindices, _⟩
    rw [OldSnapshot.version, OldSnapshot.bytes, hdecode] at hlive
    rw [← Except.ok.inj hlive] at hindices
    exact hindices
  · intro hkept
    exact ⟨upconvertV14ToV15 (upconvertV13ToV14 d), hdecode, rfl, hkept, rfl⟩

/-- What the bytes of versions 10 to 12 are for the readers of today, if there is no node. -/
theorem encode_misread_stores {d : ReadV13 P} (h : Empty d.nodes) :
    L.readV12.encode (d.withStores (translateNodeArena NodeKindV13.toV14 d.nodes) d.edges
      d.indices.misread d.macroMetadata) = L.readV13.encode d :=
  encode_dataV12 (encode_vacant_arena Layout.nodeKindV13 NodeKindV13.toV14 h)
    (encode_misread_indices d.indices) d rfl rfl

theorem decodesBack_v12_iff {d : ReadV13 P} (hd : WellKept d.nodes) :
    (OldSnapshot.v12 d).DecodesBack L older header ↔ Empty d.nodes ∧ NoOther d.indices := by
  have hdecode : Empty d.nodes → decodeSnapshotData L older .v12 header (L.readV13.encode d) =
      .ok (upconvertV14ToV15 (d.withStores (translateNodeArena NodeKindV13.toV14 d.nodes) d.edges
        d.indices.misread d.macroMetadata)) := by
    intro hempty
    have hfinal := finalize_vacant (d := d.withStores
      (translateNodeArena NodeKindV13.toV14 d.nodes) d.edges d.indices.misread d.macroMetadata)
      (empty_translate _ hempty)
    rw [decode_v12, fromBytes_of_encode (encode_misread_stores hempty)]
    show Except.ok (upconvertV14ToV15 (finalizePreV13Snapshot _)) = _
    rw [hfinal]
  constructor
  · intro ⟨live, hlive, hrestored, hindices, _⟩
    have hempty : Empty d.nodes := by
      rw [OldSnapshot.version, decode_v12] at hlive
      obtain ⟨r, hread, rfl⟩ := exists_of_map hlive
      obtain ⟨hunmarked, hhead⟩ := read_of_restored (congrArg (fun x => x.nodes) hrestored)
      exact vacant_of_fromBytes encode_misread (leads_readV13 L) (leads_readV12 L) hd hread
        hunmarked hhead
    refine ⟨hempty, (kept_misread_iff d.indices).mp ?_⟩
    rw [OldSnapshot.version, OldSnapshot.bytes, hdecode hempty] at hlive
    rw [← Except.ok.inj hlive] at hindices
    exact hindices
  · intro ⟨hempty, hother⟩
    exact ⟨_, hdecode hempty, rfl, (kept_misread_iff d.indices).mpr hother, rfl⟩

theorem decodesBack_v11_iff {d : GraphSnapshotDataV11 P ArenaV13 BidirectionalEdgeStore
    AuxiliaryIndicesV13 (MetadataEntries P)} (hd : WellKept d.nodes) :
    (OldSnapshot.v11 d).DecodesBack L older header ↔ Empty d.nodes ∧ NoOther d.indices := by
  have hdecode : Empty d.nodes → decodeSnapshotData L older .v11 header (L.ownV11.encode d) =
      .ok (upconvertV14ToV15 (upconvertV11ToV12 (d.withStores
        (translateNodeArena NodeKindV13.toV14 d.nodes) d.edges d.indices.misread
        d.macroMetadata))) := by
    intro hempty
    have hbytes : L.readV11.encode (d.withStores (translateNodeArena NodeKindV13.toV14 d.nodes)
        d.edges d.indices.misread d.macroMetadata) = L.ownV11.encode d :=
      encode_dataV11 (encode_vacant_arena Layout.nodeKindV13 NodeKindV13.toV14 hempty)
        (encode_misread_indices d.indices) d rfl rfl
    have hfinal := finalize_vacant (d := upconvertV11ToV12 (d.withStores
      (translateNodeArena NodeKindV13.toV14 d.nodes) d.edges d.indices.misread d.macroMetadata))
      (empty_translate _ hempty)
    rw [decode_v11, fromBytes_of_encode hbytes]
    show Except.ok (upconvertV14ToV15 (finalizePreV13Snapshot _)) = _
    rw [hfinal]
  constructor
  · intro ⟨live, hlive, hrestored, hindices, _⟩
    have hempty : Empty d.nodes := by
      rw [OldSnapshot.version, decode_v11] at hlive
      obtain ⟨r, hread, rfl⟩ := exists_of_map hlive
      obtain ⟨hunmarked, hhead⟩ := read_of_restored (d := upconvertV11ToV12 r)
        (congrArg (fun x => x.nodes) hrestored)
      exact vacant_of_fromBytes encode_misread (leads_ownV11 L) (leads_readV11 L) hd hread
        hunmarked hhead
    refine ⟨hempty, (kept_misread_iff d.indices).mp ?_⟩
    rw [OldSnapshot.version, OldSnapshot.bytes, hdecode hempty] at hlive
    rw [← Except.ok.inj hlive] at hindices
    exact hindices
  · intro ⟨hempty, hother⟩
    exact ⟨_, hdecode hempty, rfl, (kept_misread_iff d.indices).mpr hother, rfl, rfl, rfl⟩

theorem upconvertV10_nodes {d : ReadV10 P} {d' : ReadV11 P} (h : upconvertV10ToV11 d = .ok d') :
    d'.nodes = d.nodes := by
  rw [upconvertV10ToV11] at h
  cases htranslate : translateMetadataStoreV10 d.macroMetadata ∅ with
  | error text => simp [htranslate] at h
  | ok store =>
    simp only [htranslate, Except.ok.injEq] at h
    rw [← h]
    rfl

theorem decodesBack_v10_iff {d : GraphSnapshotDataV10 P ArenaV13 BidirectionalEdgeStoreV10
    AuxiliaryIndicesV13 (AList fun _ : NodeId => NodeMetadataV10 P)} (hd : WellKept d.nodes)
    (hforward : d.edges.forward.delta.Counted) (hreverse : d.edges.reverse.delta.Counted) :
    (OldSnapshot.v10 d).DecodesBack L older header ↔ Empty d.nodes ∧ NoOther d.indices := by
  obtain ⟨store, htranslate, hlookup⟩ := translate_metadataEntriesV10 d.macroMetadata
  have hdecode : Empty d.nodes → decodeSnapshotData L older .v10 header
      ((OldSnapshot.v10 d).bytes L) =
      .ok (upconvertV14ToV15 (upconvertV11ToV12 ⟨d.withStores
        (translateNodeArena NodeKindV13.toV14 d.nodes) d.edges.toV11 d.indices.misread
        store, none⟩)) := by
    intro hempty
    have hbytes : L.readV10.encode (d.withStores (translateNodeArena NodeKindV13.toV14 d.nodes)
        d.edges d.indices.misread (metadataEntriesV10 d.macroMetadata)) =
        (OldSnapshot.v10 d).bytes L :=
      encode_dataV10 (encode_vacant_arena Layout.nodeKindV13 NodeKindV13.toV14 hempty)
        (encode_misread_indices d.indices)
        (d.withStores d.nodes d.edges d.indices (metadataEntriesV10 d.macroMetadata)) rfl rfl
    have hup : upconvertV10ToV11 (d.withStores (translateNodeArena NodeKindV13.toV14 d.nodes)
        d.edges d.indices.misread (metadataEntriesV10 d.macroMetadata)) =
        .ok ⟨d.withStores (translateNodeArena NodeKindV13.toV14 d.nodes) d.edges.toV11
          d.indices.misread store, none⟩ := by
      exact upconvertV10ToV11_ok htranslate
    have hfinal := finalize_vacant (d := upconvertV11ToV12 ⟨d.withStores
      (translateNodeArena NodeKindV13.toV14 d.nodes) d.edges.toV11 d.indices.misread store, none⟩)
      (empty_translate _ hempty)
    rw [decode_v10, fromBytes_of_encode hbytes, Except.bind, hup]
    show Except.ok (upconvertV14ToV15 (finalizePreV13Snapshot _)) = _
    rw [hfinal]
  constructor
  · intro ⟨live, hlive, hrestored, _, hindices, _⟩
    have hempty : Empty d.nodes := by
      rw [OldSnapshot.version, decode_v10] at hlive
      obtain ⟨r', hup, rfl⟩ := exists_of_map hlive
      cases hread : fromBytes L.readV10 ((OldSnapshot.v10 d).bytes L) with
      | error e =>
        rw [hread] at hup
        cases hup
      | ok r =>
        rw [hread] at hup
        obtain ⟨hunmarked, hhead⟩ := read_of_restored (d := upconvertV11ToV12 r')
          (congrArg (fun x => x.nodes) hrestored)
        have hnodes : (upconvertV11ToV12 r').nodes = r.nodes := upconvertV10_nodes hup
        rw [hnodes] at hunmarked hhead
        exact vacant_of_fromBytes encode_misread (leads_ownV10 L) (leads_readV10 L) hd hread
          hunmarked hhead
    refine ⟨hempty, (kept_misread_iff d.indices).mp ?_⟩
    rw [OldSnapshot.version, hdecode hempty] at hlive
    rw [← Except.ok.inj hlive] at hindices
    exact hindices
  · intro ⟨hempty, hother⟩
    exact ⟨_, hdecode hempty, rfl,
      ⟨EdgeStoreV10.kept_toV11 hforward, EdgeStoreV10.kept_toV11 hreverse⟩,
      (kept_misread_iff d.indices).mpr hother, hlookup, rfl, rfl, rfl, rfl⟩

end Versions

/-- A snapshot of version 10 to 16 decodes to the graph it was written from exactly when it is of
version 16, or of version 13 with indices that list its nodes, or has no node, and before version
13 no node of kind `Other` in its index. -/
theorem old_snapshot_decodes_iff (L : Layouts P) (older : Older P) (header : GraphHeader P)
    (g : OldSnapshot P) (hg : g.WellKept) :
    g.DecodesBack L older header ↔ g.Survives := by
  cases g with
  | v10 d => exact decodesBack_v10_iff hg.1 hg.2.1 hg.2.2
  | v11 d => exact decodesBack_v11_iff hg
  | v12 d => exact decodesBack_v12_iff hg
  | v13 d => exact decodesBack_v13_iff
  | v14 d => exact decodesBack_v14_iff hg
  | v15 d => exact decodesBack_v15_iff hg
  | v16 d =>
    refine iff_of_true ⟨d, ?_, rfl⟩ trivial
    rw [OldSnapshot.version, OldSnapshot.bytes, decode_v16, fromBytes_of_encode rfl]
    rfl

section Function

def oneFunction : GraphSnapshotDataV15 plain ArenaV14 BidirectionalEdgeStore AuxiliaryIndices
    (MetadataEntries plain) where
  nodes := ⟨[⟨1, .occupied ⟨.function, .ofUInt8 1, 1, 0, 9, 1, 0, 1, 9, none, none, none, none,
    false, false, none, false⟩⟩], none, 1⟩
  edges := BidirectionalEdgeStore.new
  strings := ⟨[none, some "f"], AList.singleton "f" 1, [0, 1], []⟩
  files := ⟨[none, some ⟨"a.rs", some .rust, false, Registry.defaultContentHash, 1, none⟩],
    AList.singleton ("a.rs" : String) 1, [], AList.singleton 1 [⟨0, 1⟩]⟩
  indices := ⟨AList.singleton .function [⟨0, 1⟩], AList.singleton (.ofUInt8 1) [⟨0, 1⟩], ∅,
    AList.singleton 1 [⟨0, 1⟩], 1⟩
  macroMetadata := ∅
  nodeProvenance := NodeProvenanceStore.new
  edgeProvenance := ⟨[]⟩
  scopeArena := ScopeArena.new
  aliasTable := AliasTable.new
  shadowTable := ShadowTable.new
  scopeProvenance := []
  fileSegments := FileSegmentTable.new
  cIndirectTables := none
  frameworkRoutesTable := []
  dispatchTablesTable := plain.noDispatch
  shapeDescriptorsTable := []

def headerV15 : GraphHeader plain := ⟨15, 1, 0, 1, 1, 1, none, ∅, 1⟩

def refuseOlder : Older plain := fun _ _ _ => .error (.validationFailed "not decoded")

theorem wellKept_oneFunction : WellKept oneFunction.nodes where
  generation_pos := by
    intro slot hslot
    cases List.mem_singleton.mp hslot
    decide
  len_eq := rfl

/-- The only node of a snapshot of version 15 takes the tag of the free list for its flag. -/
theorem oneFunction_lost :
    ¬ ∀ (L : Layouts plain) (older : Older plain) (header : GraphHeader plain)
      (g : OldSnapshot plain), g.WellKept → g.DecodesBack L older header := by
  intro h
  have hempty := (decodesBack_v15_iff wellKept_oneFunction).mp
    (h wire refuseOlder headerV15 (.v15 oneFunction) wellKept_oneFunction)
  exact absurd (hempty _ List.mem_cons_self) (by decide)

def noFunction : GraphSnapshotDataV15 plain ArenaV14 BidirectionalEdgeStore AuxiliaryIndices
    (MetadataEntries plain) :=
  oneFunction.withStores ⟨[⟨1, .vacant none⟩], some 0, 0⟩ BidirectionalEdgeStore.new
    AuxiliaryIndices.new ∅

theorem wellKept_noFunction : WellKept noFunction.nodes where
  generation_pos := by
    intro slot hslot
    cases List.mem_singleton.mp hslot
    decide
  len_eq := rfl

theorem old_snapshot_decodes_noFunction :
    (OldSnapshot.v15 noFunction).DecodesBack wire refuseOlder headerV15 := by
  refine (old_snapshot_decodes_iff wire refuseOlder headerV15 (.v15 noFunction)
    wellKept_noFunction).mpr ?_
  intro slot hslot
  cases List.mem_singleton.mp hslot
  rfl

end Function

end Persist
end Sqry
