import Sqry.Graph.Stores

/-!
The indices as a function of the live nodes. Each operation of the indices is matched with
what it does to the live nodes, and a rebuild from the arena gives the same indices.
-/

namespace Sqry
namespace AuxiliaryIndices

abbrev Live : Type := NodeId → Option FullNodeEntry

def keyOf {κ : Type} (field : FullNodeEntry → Option κ) (live : Live) (id : NodeId) : Option κ :=
  (live id).bind field

def kindKey (entry : FullNodeEntry) : Option NodeKind := some entry.kind

def nameKey (entry : FullNodeEntry) : Option StringId := some entry.name

def qualifiedKey (entry : FullNodeEntry) : Option StringId := entry.qualifiedName

def fileKey (entry : FullNodeEntry) : Option FileId := some entry.file

structure NamesInStep (live : Live) (x : AuxiliaryIndices) : Prop where
  kind : KeyIndex.Indexed (keyOf kindKey live) x.kindIndex
  name : KeyIndex.Indexed (keyOf nameKey live) x.nameIndex
  qualified : KeyIndex.Indexed (keyOf qualifiedKey live) x.qualifiedNameIndex

structure InStep (live : Live) (x : AuxiliaryIndices) : Prop extends NamesInStep live x where
  file : KeyIndex.Indexed (keyOf fileKey live) x.fileIndex
  count : x.nodeCount = (Buckets.all x.kindIndex).length

variable {live : Live} {x : AuxiliaryIndices}

section Keys
variable {κ : Type}

theorem keyOf_of_none (field : FullNodeEntry → Option κ) {id : NodeId} (h : live id = none) :
    keyOf field live id = none := by
  rw [keyOf, h]
  rfl

theorem keyOf_update (field : FullNodeEntry → Option κ) (id : NodeId)
    (entry : Option FullNodeEntry) :
    keyOf field (Function.update live id entry) =
      Function.update (keyOf field live) id (entry.bind field) := by
  funext other
  by_cases hne : other = id
  · rw [hne, keyOf, Function.update_self, Function.update_self]
  · rw [keyOf, Function.update_of_ne hne, Function.update_of_ne hne]
    rfl

end Keys

theorem inStep_new : InStep (fun _ => none) new where
  kind := KeyIndex.indexed_empty
  name := KeyIndex.indexed_empty
  qualified := KeyIndex.indexed_empty
  file := KeyIndex.indexed_empty
  count := rfl

def indexKeys (entry : FullNodeEntry) : NodeKind × StringId × Option StringId × FileId :=
  (entry.kind, entry.name, entry.qualifiedName, entry.file)

theorem keyOf_congr {κ : Type} {field : FullNodeEntry → Option κ}
    (g : NodeKind × StringId × Option StringId × FileId → Option κ)
    (hfield : ∀ entry, field entry = g (indexKeys entry)) {live' : Live}
    (hkeys : ∀ id, (live' id).map indexKeys = (live id).map indexKeys) (id : NodeId) :
    keyOf field live' id = keyOf field live id := by
  have hbind : ∀ entry : Option FullNodeEntry,
      entry.bind field = (entry.map indexKeys).bind g := by
    intro entry
    cases entry with
    | none => rfl
    | some entry => exact hfield entry
  rw [keyOf, keyOf, hbind, hbind, hkeys]

theorem InStep.congr {live' : Live} (h : InStep live x)
    (hkeys : ∀ id, (live' id).map indexKeys = (live id).map indexKeys) : InStep live' x where
  kind := h.kind.congr (keyOf_congr (fun k => some k.1) (fun _ => rfl) hkeys)
  name := h.name.congr (keyOf_congr (fun k => some k.2.1) (fun _ => rfl) hkeys)
  qualified := h.qualified.congr (keyOf_congr (fun k => k.2.2.1) (fun _ => rfl) hkeys)
  file := h.file.congr (keyOf_congr (fun k => some k.2.2.2) (fun _ => rfl) hkeys)
  count := h.count

theorem InStep.insertAll {id : NodeId} (h : InStep live x) (hnew : live id = none)
    (entry : FullNodeEntry) :
    InStep (Function.update live id (some entry))
      (x.insertAll id entry.kind entry.name entry.qualifiedName entry.file) where
  kind := by
    rw [keyOf_update]
    exact h.kind.push (keyOf_of_none kindKey hnew)
  name := by
    rw [keyOf_update]
    exact h.name.push (keyOf_of_none nameKey hnew)
  qualified := by
    rw [keyOf_update, Option.bind_some]
    simp only [AuxiliaryIndices.insertAll, qualifiedKey]
    cases entry.qualifiedName with
    | some qn => exact h.qualified.push (keyOf_of_none qualifiedKey hnew)
    | none =>
      apply h.qualified.congr
      intro other
      by_cases hne : other = id
      · rw [hne, Function.update_self, keyOf_of_none qualifiedKey hnew]
      · rw [Function.update_of_ne hne]
  file := by
    rw [keyOf_update]
    exact h.file.push (keyOf_of_none fileKey hnew)
  count := by
    simp only [AuxiliaryIndices.insertAll]
    rw [KeyIndex.length_push, h.count]

theorem InStep.add {id : NodeId} (h : InStep live x) (hnew : live id = none)
    (entry : FullNodeEntry) :
    InStep (Function.update live id (some entry))
      (x.add id entry.kind entry.name entry.qualifiedName entry.file).1 := by
  have hnot : id ∉ Buckets.bucket x.kindIndex entry.kind := by
    rw [h.kind.mem_iff, keyOf_of_none kindKey hnew]
    intro hkey
    cases hkey
  rw [AuxiliaryIndices.add, if_neg hnot]
  exact h.insertAll hnew entry

def AtMost (live : Live) (id : NodeId) (entry : FullNodeEntry) : Prop :=
  ∀ other, live id = some other → other = entry

section Removal
variable {id : NodeId} {entry : FullNodeEntry}

theorem indexed_removeId {κ : Type} [DecidableEq κ] {field : FullNodeEntry → Option κ}
    {index : IndexMap κ} (h : KeyIndex.Indexed (keyOf field live) index)
    (hentry : AtMost live id entry) {key : κ} (hkey : ∀ k, field entry = some k → k = key) :
    KeyIndex.Indexed (keyOf field (Function.update live id none))
      (removeIdFromIndex index key id).1 := by
  rw [keyOf_update]
  apply h.removeItem
  intro k hk
  obtain ⟨other, hlive, hfield⟩ := Option.bind_eq_some_iff.mp hk
  rw [hentry other hlive] at hfield
  exact hkey k hfield

theorem indexed_removeQualified {index : IndexMap StringId}
    (h : KeyIndex.Indexed (keyOf qualifiedKey live) index) (hentry : AtMost live id entry) :
    KeyIndex.Indexed (keyOf qualifiedKey (Function.update live id none))
      (removeQualified index entry.qualifiedName id) := by
  simp only [removeQualified]
  cases hqn : entry.qualifiedName with
  | some qn =>
    apply indexed_removeId h hentry
    intro k hk
    rw [qualifiedKey, hqn] at hk
    exact (Option.some.inj hk).symm
  | none =>
    apply h.congr
    intro other
    rw [keyOf_update]
    by_cases hne : other = id
    · rw [hne, Function.update_self, keyOf]
      cases hlive : live id with
      | none => rfl
      | some old =>
        rw [hentry old hlive, Option.bind_some, qualifiedKey, hqn]
        rfl
    · rw [Function.update_of_ne hne]

theorem InStep.remove (h : InStep live x) (hentry : AtMost live id entry) :
    InStep (Function.update live id none)
      (x.remove id entry.kind entry.name entry.qualifiedName entry.file).1 where
  kind := indexed_removeId h.kind hentry fun _ hk => (Option.some.inj hk).symm
  name := indexed_removeId h.name hentry fun _ hk => (Option.some.inj hk).symm
  qualified := indexed_removeQualified h.qualified hentry
  file := indexed_removeId h.file hentry fun _ hk => (Option.some.inj hk).symm
  count := by
    have hlength : (Buckets.all (removeIdFromIndex x.kindIndex entry.kind id).1).length +
        (if (removeIdFromIndex x.kindIndex entry.kind id).2 then 1 else 0) =
          (Buckets.all x.kindIndex).length := KeyIndex.length_removeItem _ _ _
    simp only [AuxiliaryIndices.remove]
    rw [h.count]
    cases hremoved : (removeIdFromIndex x.kindIndex entry.kind id).2 with
    | true =>
      simp only [hremoved, if_true] at hlength ⊢
      omega
    | false =>
      simp only [hremoved, Bool.false_eq_true, if_false] at hlength ⊢
      omega

end Removal

section File

def infoOf (node : NodeId × FullNodeEntry) : NodeInfo :=
  ⟨node.1, node.2.kind, node.2.name, node.2.qualifiedName⟩

def dropNodes (live : Live) (ids : List NodeId) : Live :=
  fun id => if id ∈ ids then none else live id

theorem dropNodes_cons (live : Live) (id : NodeId) (ids : List NodeId) :
    dropNodes live (id :: ids) = dropNodes (Function.update live id none) ids := by
  funext other
  simp only [dropNodes, List.mem_cons]
  by_cases hne : other = id
  · simp [hne]
  · simp [hne]

theorem keyOf_dropNodes {κ : Type} (field : FullNodeEntry → Option κ) (ids : List NodeId)
    (id : NodeId) :
    keyOf field (dropNodes live ids) id = if id ∈ ids then none else keyOf field live id := by
  rw [keyOf, dropNodes]
  by_cases hid : id ∈ ids
  · rw [if_pos hid, if_pos hid]
    rfl
  · rw [if_neg hid, if_neg hid]
    rfl

theorem AtMost.update_none {id other : NodeId} {entry : FullNodeEntry}
    (h : AtMost live id entry) : AtMost (Function.update live other none) id entry := by
  intro e he
  by_cases hne : id = other
  · rw [hne, Function.update_self] at he
    cases he
  · rw [Function.update_of_ne hne] at he
    exact h e he

/-- What the loop of `removeNodesWithInfo` leaves, and what it counts. -/
structure NodesRemoved (live : Live) (ids : List NodeId) (x : AuxiliaryIndices)
    (result : AuxiliaryIndices × Nat) : Prop where
  names : NamesInStep (dropNodes live ids) result.1
  fileIndex : result.1.fileIndex = x.fileIndex
  nodeCount : result.1.nodeCount = x.nodeCount
  counted : (Buckets.all result.1.kindIndex).length + result.2 = (Buckets.all x.kindIndex).length

theorem removeNodesWithInfo_spec (nodes : List (NodeId × FullNodeEntry)) (h : NamesInStep live x)
    (hnodes : ∀ node ∈ nodes, AtMost live node.1 node.2) :
    NodesRemoved live (nodes.map Prod.fst) x (x.removeNodesWithInfo (nodes.map infoOf)) := by
  induction nodes generalizing live x with
  | nil =>
    have hsame : dropNodes live [] = live := by
      funext id
      simp [dropNodes]
    refine ⟨?_, rfl, rfl, rfl⟩
    rw [List.map_nil, hsame]
    exact h
  | cons node nodes ih =>
    have hnode := hnodes node List.mem_cons_self
    have hfirst : NamesInStep (Function.update live node.1 none)
        { x with
          kindIndex := (removeIdFromIndex x.kindIndex node.2.kind node.1).1
          nameIndex := (removeIdFromIndex x.nameIndex node.2.name node.1).1
          qualifiedNameIndex :=
            removeQualified x.qualifiedNameIndex node.2.qualifiedName node.1 } :=
      ⟨indexed_removeId h.kind hnode fun _ hk => (Option.some.inj hk).symm,
        indexed_removeId h.name hnode fun _ hk => (Option.some.inj hk).symm,
        indexed_removeQualified h.qualified hnode⟩
    have hrest := ih hfirst fun other hother =>
      (hnodes other (List.mem_cons_of_mem node hother)).update_none
    have hlength : (Buckets.all (removeIdFromIndex x.kindIndex node.2.kind node.1).1).length +
        (if (removeIdFromIndex x.kindIndex node.2.kind node.1).2 then 1 else 0) =
          (Buckets.all x.kindIndex).length := KeyIndex.length_removeItem _ _ _
    have hcounted := hrest.counted
    refine ⟨?_, hrest.fileIndex, hrest.nodeCount, ?_⟩
    · rw [List.map_cons, dropNodes_cons]
      exact hrest.names
    · simp only [List.map_cons, infoOf, removeNodesWithInfo]
      simp only at hcounted
      cases hremoved : (removeIdFromIndex x.kindIndex node.2.kind node.1).2 with
      | true =>
        simp only [hremoved, if_true] at hlength ⊢
        omega
      | false =>
        simp only [hremoved, Bool.false_eq_true, if_false] at hlength ⊢
        omega

theorem InStep.removeFileWithInfo {file : FileId} {nodes : List (NodeId × FullNodeEntry)}
    (h : InStep live x) (hnodes : ∀ node ∈ nodes, AtMost live node.1 node.2)
    (hfile : ∀ id entry, live id = some entry → (id ∈ nodes.map Prod.fst ↔ entry.file = file)) :
    InStep (dropNodes live (nodes.map Prod.fst))
      (x.removeFileWithInfo file (nodes.map infoOf)).1 := by
  have hremoved := removeNodesWithInfo_spec (x := { x with fileIndex := x.fileIndex.erase file })
    nodes ⟨h.kind, h.name, h.qualified⟩ hnodes
  have hcounted := hremoved.counted
  have hcount := hremoved.nodeCount
  have hbefore := h.count
  refine ⟨⟨hremoved.names.kind, hremoved.names.name, hremoved.names.qualified⟩, ?_, ?_⟩
  · simp only [AuxiliaryIndices.removeFileWithInfo, hremoved.fileIndex]
    apply (h.file.erase file).congr
    intro id
    rw [keyOf_dropNodes, keyOf]
    cases hlive : live id with
    | none => simp
    | some entry =>
      simp only [Option.bind_some, fileKey, Option.some.injEq]
      by_cases hentry : entry.file = file
      · rw [if_pos ((hfile id entry hlive).mpr hentry), if_pos hentry]
      · rw [if_neg fun hmem => hentry ((hfile id entry hlive).mp hmem), if_neg hentry]
  · simp only [AuxiliaryIndices.removeFileWithInfo, hcount]
    simp only at hcounted
    omega

end File

section Rewriting

theorem InStep.retainNodeIds (h : InStep live x) (keep : NodeId → Bool) :
    InStep (fun id => if keep id then live id else none) (x.retainNodeIds keep) := by
  have hkey : ∀ {κ : Type} (field : FullNodeEntry → Option κ) (id : NodeId),
      keyOf field (fun id => if keep id then live id else none) id =
        if keep id then keyOf field live id else none := by
    intro κ field id
    rw [keyOf]
    by_cases hkeep : keep id = true
    · simp only [hkeep, if_true]
      rfl
    · simp only [hkeep, Bool.false_eq_true, if_false]
      rfl
  exact ⟨⟨(h.kind.retain keep).congr (hkey kindKey), (h.name.retain keep).congr (hkey nameKey),
    (h.qualified.retain keep).congr (hkey qualifiedKey)⟩,
    (h.file.retain keep).congr (hkey fileKey), rfl⟩

def RemapStays (remap : StringRemap) : Prop :=
  ∀ old canon, remap.lookup old = some canon → remap.lookup canon = none

variable {remap : StringRemap}

theorem canonicalName_of_notMem {id : StringId} (h : id ∉ remap) :
    canonicalName remap id = id := by
  rw [canonicalName, AList.lookup_eq_none.mpr h]
  rfl

theorem indexed_remapStringKeyedIndex {key : NodeId → Option StringId} {index : IndexMap StringId}
    (h : KeyIndex.Indexed key index) (hstays : RemapStays remap) :
    KeyIndex.Indexed (fun id => (key id).map (canonicalName remap))
      (remapStringKeyedIndex index remap) := by
  have hmovers : ∀ id k, key id = some k →
      (k ∈ index.keys.filter (fun key => key ∈ remap) ↔ k ∈ remap) := by
    intro id k hk
    rw [List.mem_filter, decide_eq_true_iff]
    exact and_iff_right (h.mem_keys hk)
  simp only [remapStringKeyedIndex]
  by_cases hempty : (index.keys.filter fun key => key ∈ remap).isEmpty = true
  · rw [if_pos hempty]
    apply h.congr
    intro id
    cases hk : key id with
    | none => rfl
    | some k =>
      have hnot : k ∉ remap := by
        rw [← hmovers id k hk, List.isEmpty_iff.mp hempty]
        exact List.not_mem_nil
      rw [Option.map_some, canonicalName_of_notMem hnot]
  · rw [if_neg hempty]
    apply KeyIndex.Indexed.rebucket_id
    have hmerged := h.mergeKeys (index.keys.filter fun key => key ∈ remap) (canonicalName remap) ?_
    · apply hmerged.congr
      intro id
      cases hk : key id with
      | none => rfl
      | some k =>
        rw [Option.map_some, Option.map_some]
        by_cases hmem : k ∈ remap
        · rw [if_pos ((hmovers id k hk).mpr hmem)]
        · rw [if_neg fun hmover => hmem ((hmovers id k hk).mp hmover),
            canonicalName_of_notMem hmem]
    · intro old hold hmover
      have holdMem := of_decide_eq_true (List.mem_filter.mp hold).2
      have htarget := of_decide_eq_true (List.mem_filter.mp hmover).2
      obtain ⟨canon, hcanon⟩ := Option.isSome_iff_exists.mp (AList.lookup_isSome.mpr holdMem)
      rw [canonicalName, hcanon, Option.getD_some, ← AList.lookup_isSome,
        hstays old canon hcanon] at htarget
      cases htarget

def remapEntry (remap : StringRemap) (entry : FullNodeEntry) : FullNodeEntry :=
  { entry with
    name := canonicalName remap entry.name
    signature := entry.signature.map (canonicalName remap)
    doc := entry.doc.map (canonicalName remap)
    qualifiedName := entry.qualifiedName.map (canonicalName remap)
    visibility := entry.visibility.map (canonicalName remap) }

theorem canonicalName_of_isEmpty (h : remap.entries.isEmpty = true) :
    canonicalName remap = id := by
  funext name
  apply canonicalName_of_notMem
  rw [AList.mem_keys, AList.keys, List.isEmpty_iff.mp h]
  exact List.not_mem_nil

theorem InStep.rewriteStringIds (h : InStep live x) (hstays : RemapStays remap) :
    InStep (fun id => (live id).map (remapEntry remap)) (x.rewriteStringIdsThroughRemap remap) := by
  by_cases hempty : remap.entries.isEmpty = true
  · have hid : (fun id => (live id).map (remapEntry remap)) = live := by
      funext id
      cases live id with
      | none => rfl
      | some entry => simp [remapEntry, canonicalName_of_isEmpty hempty]
    rw [hid, rewriteStringIdsThroughRemap, if_pos hempty]
    exact h
  · rw [rewriteStringIdsThroughRemap, if_neg hempty]
    refine ⟨⟨h.kind.congr ?_, (indexed_remapStringKeyedIndex h.name hstays).congr ?_,
      (indexed_remapStringKeyedIndex h.qualified hstays).congr ?_⟩, h.file.congr ?_, h.count⟩
    all_goals
      intro id
      simp only [keyOf]
      cases live id with
      | none => rfl
      | some entry => rfl

end Rewriting

end AuxiliaryIndices
end Sqry
