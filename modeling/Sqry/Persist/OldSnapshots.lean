import Sqry.Graph.IndicesSync
import Sqry.Persist.OldNodes

/-!
Snapshots of versions 10 to 16, written with the layout of their own version, under the decoder
of today.
-/

namespace Sqry
namespace Persist

variable {P : Parts}

section Written

abbrev ArenaV14 : Type := NodeArena (NodeEntryV13 NodeKind)

namespace Layouts
variable (L : Layouts P)

def ownV10 : Layout (GraphSnapshotDataV10 P ArenaV13 BidirectionalEdgeStoreV10 AuxiliaryIndicesV13
    (List (NodeMetadataEntryV10 P))) :=
  L.dataV10 (Layout.arena (Layout.entryV13 Layout.nodeKindV13)) L.edgesV10 Layout.indicesV13
    (Layout.vec L.metadataEntryV10)

def ownV11 : Layout (GraphSnapshotDataV11 P ArenaV13 BidirectionalEdgeStore AuxiliaryIndicesV13
    (MetadataEntries P)) :=
  L.dataV11 (Layout.arena (Layout.entryV13 Layout.nodeKindV13)) L.edges Layout.indicesV13
    L.macroMetadata

def ownV14 : Layout (GraphSnapshotDataV12 P ArenaV14 BidirectionalEdgeStore AuxiliaryIndices
    (MetadataEntries P)) :=
  L.dataV12 (Layout.arena (Layout.entryV13 Layout.nodeKind)) L.edges Layout.indices L.macroMetadata

def ownV15 : Layout (GraphSnapshotDataV15 P ArenaV14 BidirectionalEdgeStore AuxiliaryIndices
    (MetadataEntries P)) :=
  L.dataV15 (Layout.arena (Layout.entryV13 Layout.nodeKind)) L.edges Layout.indices L.macroMetadata

end Layouts

/-- A graph in the types of the version it was written with. -/
inductive OldSnapshot (P : Parts) where
  | v10 (d : GraphSnapshotDataV10 P ArenaV13 BidirectionalEdgeStoreV10 AuxiliaryIndicesV13
      (AList fun _ : NodeId => NodeMetadataV10 P))
  | v11 (d : GraphSnapshotDataV11 P ArenaV13 BidirectionalEdgeStore AuxiliaryIndicesV13
      (MetadataEntries P))
  | v12 (d : ReadV13 P)
  | v13 (d : ReadV13 P)
  | v14 (d : GraphSnapshotDataV12 P ArenaV14 BidirectionalEdgeStore AuxiliaryIndices
      (MetadataEntries P))
  | v15 (d : GraphSnapshotDataV15 P ArenaV14 BidirectionalEdgeStore AuxiliaryIndices
      (MetadataEntries P))
  | v16 (d : LiveData P)

namespace OldSnapshot

def version : OldSnapshot P → FormatVersion
  | v10 _ => .v10
  | v11 _ => .v11
  | v12 _ => .v12
  | v13 _ => .v13
  | v14 _ => .v14
  | v15 _ => .v15
  | v16 _ => .v16

def bytes (L : Layouts P) : OldSnapshot P → List UInt8
  | v10 d =>
    L.ownV10.encode (d.withStores d.nodes d.edges d.indices (metadataEntriesV10 d.macroMetadata))
  | v11 d => L.ownV11.encode d
  | v12 d => L.readV13.encode d
  | v13 d => L.readV13.encode d
  | v14 d => L.ownV14.encode d
  | v15 d => L.ownV15.encode d
  | v16 d => L.live.encode d

def WellKept : OldSnapshot P → Prop
  | v10 d => Persist.WellKept d.nodes ∧ d.edges.forward.delta.Counted ∧
      d.edges.reverse.delta.Counted
  | v11 d => Persist.WellKept d.nodes
  | v12 d => Persist.WellKept d.nodes
  | v13 d => Persist.WellKept d.nodes
  | v14 d => Persist.WellKept d.nodes
  | v15 d => Persist.WellKept d.nodes
  | v16 d => Persist.WellKept d.nodes

/-- The graph that was written: the same nodes, edges, strings, files, index buckets and metadata,
no node marked as a definition before version 16, and empty tables where the version had none. -/
def Restored : OldSnapshot P → LiveData P → Prop
  | v10 d, live =>
    live.toGraphSnapshotDataV10 =
        d.withStores (translateNodeArena NodeKindV13.toV14 d.nodes) live.edges live.indices
          live.macroMetadata ∧
      d.edges.Kept live.edges ∧ d.indices.Kept live.indices ∧
      (∀ id, live.macroMetadata.lookup id =
        (d.macroMetadata.lookup id).map NodeMetadataV10.stored) ∧
      live.cIndirectTables = none ∧ live.frameworkRoutesTable = [] ∧
      live.dispatchTablesTable = P.noDispatch ∧ live.shapeDescriptorsTable = []
  | v11 d, live =>
    live.toGraphSnapshotDataV11 =
        d.withStores (translateNodeArena NodeKindV13.toV14 d.nodes) d.edges live.indices
          d.macroMetadata ∧
      d.indices.Kept live.indices ∧ live.frameworkRoutesTable = [] ∧
      live.dispatchTablesTable = P.noDispatch ∧ live.shapeDescriptorsTable = []
  | v12 d, live | v13 d, live =>
    live.toGraphSnapshotDataV12 =
        d.withStores (translateNodeArena NodeKindV13.toV14 d.nodes) d.edges live.indices
          d.macroMetadata ∧
      d.indices.Kept live.indices ∧ live.shapeDescriptorsTable = []
  | v14 d, live =>
    live.toGraphSnapshotDataV12 =
        d.withStores (translateNodeArena id d.nodes) d.edges d.indices d.macroMetadata ∧
      live.shapeDescriptorsTable = []
  | v15 d, live =>
    live = d.withStores (translateNodeArena id d.nodes) d.edges d.indices d.macroMetadata
  | v16 d, live => live = d

def DecodesBack (L : Layouts P) (older : Older P) (header : GraphHeader P) (g : OldSnapshot P) :
    Prop :=
  ∃ live, decodeSnapshotData L older g.version header (g.bytes L) = .ok live ∧ g.Restored live

end OldSnapshot
end Written

section Listing
variable {κ : Type} [DecidableEq κ]

def listed (key : FullNodeEntry → Option κ) (nodes : List (NodeId × FullNodeEntry)) (k : κ) :
    List NodeId :=
  (nodes.filter fun node => node.2.name ≠ StringId.INVALID ∧ key node.2 = some k).map Prod.fst

/-- Every bucket holds the named nodes with its key. A merged node has no name. -/
structure AuxiliaryIndicesV13.Lists (x : AuxiliaryIndicesV13)
    (nodes : List (NodeId × FullNodeEntry)) : Prop where
  kinds : ∀ kind,
    (listed AuxiliaryIndices.kindKey nodes (NodeKindV13.toV14 kind)).Perm
      (Buckets.bucket x.kindIndex kind)
  names : ∀ name,
    (listed AuxiliaryIndices.nameKey nodes name).Perm (Buckets.bucket x.nameIndex name)
  qualifiedNames : ∀ name,
    (listed AuxiliaryIndices.qualifiedKey nodes name).Perm
      (Buckets.bucket x.qualifiedNameIndex name)
  files : ∀ file,
    (listed AuxiliaryIndices.fileKey nodes file).Perm (Buckets.bucket x.fileIndex file)
  nodeCount : (nodes.filter fun node => node.2.name ≠ StringId.INVALID).length = x.nodeCount

structure Grown (x : AuxiliaryIndices) (nodes : List (NodeId × FullNodeEntry))
    (x' : AuxiliaryIndices) : Prop where
  kinds : ∀ k, Buckets.bucket x'.kindIndex k =
    Buckets.bucket x.kindIndex k ++ listed AuxiliaryIndices.kindKey nodes k
  names : ∀ k, Buckets.bucket x'.nameIndex k =
    Buckets.bucket x.nameIndex k ++ listed AuxiliaryIndices.nameKey nodes k
  qualifiedNames : ∀ k, Buckets.bucket x'.qualifiedNameIndex k =
    Buckets.bucket x.qualifiedNameIndex k ++ listed AuxiliaryIndices.qualifiedKey nodes k
  files : ∀ k, Buckets.bucket x'.fileIndex k =
    Buckets.bucket x.fileIndex k ++ listed AuxiliaryIndices.fileKey nodes k
  nodeCount : x'.nodeCount =
    x.nodeCount + (nodes.filter fun node => node.2.name ≠ StringId.INVALID).length

variable (key : FullNodeEntry → Option κ)

theorem listed_cons_unnamed {node : NodeId × FullNodeEntry} (h : node.2.name = StringId.INVALID)
    (nodes : List (NodeId × FullNodeEntry)) (k : κ) :
    listed key (node :: nodes) k = listed key nodes k := by
  rw [listed, List.filter_cons_of_neg (by simp [h])]
  rfl

theorem bucket_push_listed {node : NodeId × FullNodeEntry} (h : node.2.name ≠ StringId.INVALID)
    {own : κ} (hown : key node.2 = some own) (index : IndexMap κ)
    (nodes : List (NodeId × FullNodeEntry)) (k : κ) :
    Buckets.bucket (Buckets.push index own node.1) k ++ listed key nodes k =
      Buckets.bucket index k ++ listed key (node :: nodes) k := by
  rw [Buckets.bucket_push]
  by_cases hk : k = own
  · rw [if_pos hk, hk, listed, listed, List.filter_cons_of_pos (by simp [h, hown]), List.map_cons,
      List.append_assoc]
    rfl
  · have hne : ¬ key node.2 = some k := by
      rw [hown]
      exact fun heq => hk (Option.some.inj heq).symm
    rw [if_neg hk, listed, listed, List.filter_cons_of_neg (by simp [hne])]

theorem listed_cons_of_none {node : NodeId × FullNodeEntry} (h : key node.2 = none)
    (nodes : List (NodeId × FullNodeEntry)) (k : κ) :
    listed key (node :: nodes) k = listed key nodes k := by
  rw [listed, List.filter_cons_of_neg (by simp [h])]
  rfl

theorem grown_foldl (nodes : List (NodeId × FullNodeEntry)) (x : AuxiliaryIndices) :
    Grown x nodes (nodes.foldl (fun x node =>
      if node.2.name = StringId.INVALID then x
      else x.insertAll node.1 node.2.kind node.2.name node.2.qualifiedName node.2.file) x) := by
  induction nodes generalizing x with
  | nil =>
    have hnil : ∀ l : List NodeId, l = l ++ [] := fun l => (List.append_nil l).symm
    exact ⟨fun _ => hnil _, fun _ => hnil _, fun _ => hnil _, fun _ => hnil _, rfl⟩
  | cons node nodes ih =>
    rw [List.foldl_cons]
    by_cases hname : node.2.name = StringId.INVALID
    · rw [if_pos hname]
      have hx := ih x
      refine ⟨?_, ?_, ?_, ?_, ?_⟩
      · exact fun k => (hx.kinds k).trans (by rw [listed_cons_unnamed _ hname])
      · exact fun k => (hx.names k).trans (by rw [listed_cons_unnamed _ hname])
      · exact fun k => (hx.qualifiedNames k).trans (by rw [listed_cons_unnamed _ hname])
      · exact fun k => (hx.files k).trans (by rw [listed_cons_unnamed _ hname])
      · rw [List.filter_cons_of_neg (by simp [hname])]
        exact hx.nodeCount
    · rw [if_neg hname]
      have hx := ih (x.insertAll node.1 node.2.kind node.2.name node.2.qualifiedName node.2.file)
      refine ⟨?_, ?_, ?_, ?_, ?_⟩
      · exact fun k => (hx.kinds k).trans
          (bucket_push_listed AuxiliaryIndices.kindKey hname rfl x.kindIndex nodes k)
      · exact fun k => (hx.names k).trans
          (bucket_push_listed AuxiliaryIndices.nameKey hname rfl x.nameIndex nodes k)
      · intro k
        refine (hx.qualifiedNames k).trans ?_
        cases hqualified : node.2.qualifiedName with
        | none =>
          rw [listed_cons_of_none AuxiliaryIndices.qualifiedKey hqualified]
          rfl
        | some own =>
          exact bucket_push_listed AuxiliaryIndices.qualifiedKey hname hqualified
            x.qualifiedNameIndex nodes k
      · exact fun k => (hx.files k).trans
          (bucket_push_listed AuxiliaryIndices.fileKey hname rfl x.fileIndex nodes k)
      · rw [hx.nodeCount, List.filter_cons_of_pos (by simp [hname]), List.length_cons]
        show x.nodeCount + 1 + _ = _
        omega

theorem grown_buildFromArena (a : NodeArena FullNodeEntry) :
    Grown AuxiliaryIndices.new a.iter (AuxiliaryIndices.buildFromArena a) :=
  grown_foldl a.iter AuxiliaryIndices.new

end Listing

section Rebuilding

theorem kind_translated {a : ArenaV13} {node : NodeId × FullNodeEntry}
    (h : node ∈ (translateNodeArena NodeKindV13.toV14 a).iter) : node.2.kind ≠ .channel := by
  obtain ⟨-, slot, hslot, -, hget⟩ := NodeArena.mem_iter.mp h
  obtain ⟨old, -, rfl⟩ := List.mem_map.mp (List.mem_of_getElem? hslot)
  obtain ⟨generation, state⟩ := old
  cases state with
  | occupied data =>
    rw [← Option.some.inj hget]
    exact toV14_ne_channel data.kind
  | vacant nextFree => cases hget

theorem kept_rebuilt_iff (x : AuxiliaryIndicesV13) (a : ArenaV13) :
    x.Kept (AuxiliaryIndices.buildFromArena (translateNodeArena NodeKindV13.toV14 a)) ↔
      x.Lists (translateNodeArena NodeKindV13.toV14 a).iter := by
  have hgrown := grown_buildFromArena (translateNodeArena NodeKindV13.toV14 a)
  have hcount : (AuxiliaryIndices.buildFromArena
      (translateNodeArena NodeKindV13.toV14 a)).nodeCount = _ :=
    hgrown.nodeCount.trans (Nat.zero_add _)
  constructor
  · intro h
    refine ⟨?_, ?_, ?_, ?_, ?_⟩
    · exact fun kind => (List.Perm.of_eq (hgrown.kinds _).symm).trans (h.kinds kind)
    · exact fun name => (List.Perm.of_eq (hgrown.names _).symm).trans (h.names name)
    · exact fun name =>
        (List.Perm.of_eq (hgrown.qualifiedNames _).symm).trans (h.qualifiedNames name)
    · exact fun file => (List.Perm.of_eq (hgrown.files _).symm).trans (h.files file)
    · exact hcount.symm.trans h.nodeCount
  · intro h
    refine ⟨?_, ?_, ?_, ?_, ?_, ?_⟩
    · exact fun kind => (List.Perm.of_eq (hgrown.kinds _)).trans (h.kinds kind)
    · rw [hgrown.kinds]
      show listed AuxiliaryIndices.kindKey _ NodeKind.channel = []
      rw [listed, List.map_eq_nil_iff, List.filter_eq_nil_iff]
      intro node hnode hkind
      have hkey : some node.2.kind = some NodeKind.channel := (of_decide_eq_true hkind).2
      exact kind_translated hnode (Option.some.inj hkey)
    · exact fun name => (List.Perm.of_eq (hgrown.names _)).trans (h.names name)
    · exact fun name => (List.Perm.of_eq (hgrown.qualifiedNames _)).trans (h.qualifiedNames name)
    · exact fun file => (List.Perm.of_eq (hgrown.files _)).trans (h.files file)
    · exact hcount.trans h.nodeCount

end Rebuilding

end Persist
end Sqry
