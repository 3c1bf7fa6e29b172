import Sqry.Rebuild.RebuildGraph

/-!
The interned strings that a graph holds, and what the rewriting of the stores does to them: every
one is replaced by its canonical one, except in the side tables for C.
-/

namespace Sqry

open AuxiliaryIndices (canonicalName)

section Lists

def Maps {α : Type} (f : α → α) (before after : List α) : Prop :=
  ∀ y, y ∈ after ↔ y ∈ before.map f

variable {α : Type} {f : α → α} {before after : List α}

theorem Maps.of_eq (h : after = before.map f) : Maps f before after := by
  intro y
  rw [h]

theorem Maps.append {before' after' : List α} (h : Maps f before after)
    (h' : Maps f before' after') : Maps f (before ++ before') (after ++ after') := by
  intro y
  rw [List.mem_append, List.map_append, List.mem_append, h y, h' y]

theorem Maps.of_fixed (h : ∀ x ∈ before, f x = x) : Maps f before before := by
  refine Maps.of_eq ?_
  rw [List.map_congr_left h, List.map_id']

theorem toList_map (f : α → α) (a : Option α) : (a.map f).toList = a.toList.map f := by
  cases a <;> rfl

end Lists

section Kinds

def EdgeKind.stringIds : EdgeKind → List StringId
  | .imports aliasName _ => aliasName.toList
  | .exports _ aliasName => aliasName.toList
  | .typeOf _ _ name => name.toList
  | .traitMethodBinding traitName implType _ => [traitName, implType]
  | .httpRequest _ url => url.toList
  | .grpcCall service method => [service, method]
  | .dbQuery _ table => table.toList
  | .tableRead tableName schema => tableName :: schema.toList
  | .tableWrite tableName schema _ => tableName :: schema.toList
  | .triggeredBy triggerName schema => triggerName :: schema.toList
  | .messageQueue (.other id) topic => id :: topic.toList
  | .messageQueue _ topic => topic.toList
  | .webSocket event => event.toList
  | .graphQLOperation operation => [operation]
  | .processExec command => [command]
  | .fileIpc pathPattern => pathPattern.toList
  | .protocolCall protocol metadata => protocol :: metadata.toList
  | .instantiates typeArgs _ => typeArgs.map TypeArg.name
  | _ => []

theorem EdgeKind.stringIds_mapStringIds (f : StringId → StringId) (kind : EdgeKind) :
    (kind.mapStringIds f).stringIds = kind.stringIds.map f := by
  cases kind with
  | messageQueue protocol topic =>
    cases protocol <;> simp [stringIds, mapStringIds, MqProtocol.mapStringIds, toList_map]
  | instantiates typeArgs inferenceKind => simp [stringIds, mapStringIds, Function.comp_def]
  | _ => first | rfl | simp [stringIds, mapStringIds, toList_map]

def EdgeStore.kinds (st : EdgeStore) : List EdgeKind :=
  st.csr.toList.flatMap CsrGraph.edgeKind ++ st.delta.iter.map DeltaEdge.kind

theorem EdgeStore.kinds_mapKinds (f : EdgeKind → EdgeKind) (st : EdgeStore) :
    (st.mapKinds f).kinds = st.kinds.map f := by
  have hdelta : (st.delta.mapKinds f).iter = st.delta.iter.map fun e => { e with kind := f e.kind } :=
    Buckets.all_mapItems _ _
  rw [kinds, kinds, mapKinds, List.map_append, hdelta]
  congr 1
  · cases st.csr with
    | none => rfl
    | some csr => simp [CsrGraph.mapKinds]
  · rw [List.map_map, List.map_map]
    rfl

def BidirectionalEdgeStore.stringIds (b : BidirectionalEdgeStore) : List StringId :=
  (b.forward.kinds ++ b.reverse.kinds).flatMap EdgeKind.stringIds

theorem BidirectionalEdgeStore.stringIds_rewrite (b : BidirectionalEdgeStore)
    (remap : StringRemap) :
    Maps (canonicalName remap) b.stringIds
      (b.rewriteEdgeKindStringIdsThroughRemap remap).stringIds := by
  rw [rewriteEdgeKindStringIdsThroughRemap]
  split
  · rename_i hempty
    rw [AuxiliaryIndices.canonicalName_of_isEmpty hempty]
    exact Maps.of_fixed fun _ _ => rfl
  · refine Maps.of_eq ?_
    rw [stringIds, stringIds, EdgeStore.kinds_mapKinds, EdgeStore.kinds_mapKinds,
      ← List.map_append, List.flatMap_map, List.map_flatMap]
    refine List.flatMap_congr fun kind _ => ?_
    exact EdgeKind.stringIds_mapStringIds (canonicalName remap) kind

end Kinds

section Nodes

def FullNodeEntry.stringIds (entry : FullNodeEntry) : List StringId :=
  entry.name :: (entry.signature.toList ++ entry.doc.toList ++ entry.qualifiedName.toList ++
    entry.visibility.toList)

theorem FullNodeEntry.stringIds_remapEntry (remap : StringRemap) (entry : FullNodeEntry) :
    (AuxiliaryIndices.remapEntry remap entry).stringIds =
      entry.stringIds.map (canonicalName remap) := by
  simp [stringIds, AuxiliaryIndices.remapEntry, toList_map]

def NodeArena.stringIds (a : NodeArena FullNodeEntry) : List StringId :=
  a.slots.flatMap fun slot => slot.get.toList.flatMap FullNodeEntry.stringIds

theorem NodeArena.stringIds_mapEntries (a : NodeArena FullNodeEntry) (remap : StringRemap) :
    (a.mapEntries (AuxiliaryIndices.remapEntry remap)).stringIds =
      a.stringIds.map (canonicalName remap) := by
  rw [stringIds, stringIds, NodeArena.mapEntries, List.flatMap_map, List.map_flatMap]
  refine List.flatMap_congr fun slot _ => ?_
  have hget : (NodeArena.mapSlot (AuxiliaryIndices.remapEntry remap) slot).get =
      slot.get.map (AuxiliaryIndices.remapEntry remap) := by
    obtain ⟨generation, state⟩ := slot
    cases state <;> rfl
  rw [hget]
  cases slot.get with
  | none => rfl
  | some entry => simp [FullNodeEntry.stringIds_remapEntry]

theorem NodeArena.stringIds_rewrite (a : NodeArena FullNodeEntry) (remap : StringRemap) :
    Maps (canonicalName remap) a.stringIds
      (AuxiliaryIndices.rewriteNodeEntries a remap).stringIds := by
  rw [AuxiliaryIndices.rewriteNodeEntries]
  split
  · rename_i hempty
    rw [AuxiliaryIndices.canonicalName_of_isEmpty hempty]
    exact Maps.of_fixed fun _ _ => rfl
  · exact Maps.of_eq (a.stringIds_mapEntries remap)

end Nodes

section Files
variable {π : Type} [DecidableEq π]

def Registry.FileRegistry.sourceUris (r : Registry.FileRegistry π) : List StringId :=
  r.entries.flatMap fun slot => slot.toList.flatMap fun entry => entry.sourceUri.toList

theorem Registry.FileRegistry.sourceUris_rewrite (r : Registry.FileRegistry π)
    (remap : StringRemap) :
    Maps (canonicalName remap) r.sourceUris (r.rewriteStringIdsThroughRemap remap).sourceUris := by
  rw [rewriteStringIdsThroughRemap]
  split
  · rename_i hempty
    rw [AuxiliaryIndices.canonicalName_of_isEmpty hempty]
    exact Maps.of_fixed fun _ _ => rfl
  · refine Maps.of_eq ?_
    rw [sourceUris, sourceUris, List.flatMap_map, List.map_flatMap]
    refine List.flatMap_congr fun slot _ => ?_
    cases slot with
    | none => rfl
    | some entry => simp [toList_map]

end Files

section Tables
variable {α : Type} {shape : EntryShape α}

theorem EntryShape.stringIds_rewrite {ids : α → List StringId} (remap : StringRemap)
    (hset : ∀ position entry, ids (shape.setId position entry) = ids entry)
    (hrewrite : ∀ entry, ids (shape.rewrite remap entry) = (ids entry).map (canonicalName remap))
    (hmentions : ∀ entry, (∃ id ∈ ids entry, id ∈ remap) → shape.mentions remap entry = true)
    (entries : List α) :
    Maps (canonicalName remap) (entries.flatMap ids)
      ((shape.rewriteStringIdsThroughRemap entries remap).flatMap ids) := by
  rw [rewriteStringIdsThroughRemap]
  split
  · rename_i hempty
    rw [AuxiliaryIndices.canonicalName_of_isEmpty hempty]
    exact Maps.of_fixed fun _ _ => rfl
  · split
    · have hnumber : ∀ l : List α, (shape.renumber l).map ids = l.map ids := by
        intro l
        refine List.ext_getElem (by simp [renumber]) fun i h₁ h₂ => ?_
        simp [renumber, hset]
      intro y
      rw [List.flatMap_def, hnumber, ← List.flatMap_def, List.mem_flatMap, List.map_flatMap,
        List.mem_flatMap]
      constructor
      · intro h
        obtain ⟨entry, hentry, hy⟩ := h
        obtain ⟨old, hold, heq⟩ := List.mem_map.mp (SortedGroups.mem_sortBy.mp hentry)
        rw [← heq, hrewrite] at hy
        exact ⟨old, hold, hy⟩
      · intro h
        obtain ⟨old, hold, hy⟩ := h
        refine ⟨shape.rewrite remap old, SortedGroups.mem_sortBy.mpr ?_, ?_⟩
        · exact List.mem_map_of_mem hold
        · rw [hrewrite]
          exact hy
    · rename_i hnone
      refine Maps.of_fixed fun id hid => AuxiliaryIndices.canonicalName_of_notMem fun hmem => ?_
      obtain ⟨entry, hentry, hid⟩ := List.mem_flatMap.mp hid
      exact hnone (List.any_eq_true.mpr ⟨entry, hentry, hmentions entry ⟨id, hid, hmem⟩⟩)

def AliasTable.stringIds (t : AliasTable) : List StringId :=
  t.entries.flatMap fun entry => [entry.fromSymbol, entry.toSymbol]

def ShadowTable.stringIds (t : ShadowTable) : List StringId :=
  t.entries.flatMap fun entry => [entry.symbol]

theorem AliasTable.stringIds_rewrite (t : AliasTable) (remap : StringRemap) :
    Maps (canonicalName remap) t.stringIds (t.rewriteStringIdsThroughRemap remap).stringIds := by
  refine EntryShape.stringIds_rewrite remap (fun _ _ => rfl) (fun _ => rfl) ?_ t.entries
  intro entry h
  obtain ⟨id, hid, hmem⟩ := h
  simp only [List.mem_cons, List.not_mem_nil, or_false] at hid
  simp only [AliasEntry.shape, Bool.or_eq_true, decide_eq_true_eq]
  cases hid with
  | inl heq => exact .inl (heq ▸ hmem)
  | inr heq => exact .inr (heq ▸ hmem)

theorem ShadowTable.stringIds_rewrite (t : ShadowTable) (remap : StringRemap) :
    Maps (canonicalName remap) t.stringIds (t.rewriteStringIdsThroughRemap remap).stringIds := by
  refine EntryShape.stringIds_rewrite remap (fun _ _ => rfl) (fun _ => rfl) ?_ t.entries
  intro entry h
  obtain ⟨id, hid, hmem⟩ := h
  rw [List.mem_singleton.mp hid] at hmem
  exact decide_eq_true hmem

end Tables

section Indices
variable {κ : Type} [DecidableEq κ]

def usedKeys (index : IndexMap κ) : List κ :=
  (index.entries.filter fun b => !b.2.isEmpty).map Sigma.fst

theorem mem_usedKeys {index : IndexMap κ} {key : κ} :
    key ∈ usedKeys index ↔ Buckets.bucket index key ≠ [] := by
  rw [usedKeys, List.mem_map]
  constructor
  · intro h
    obtain ⟨b, hb, hkey⟩ := h
    obtain ⟨hmem, hne⟩ := List.mem_filter.mp hb
    rw [Buckets.bucket, ← hkey, AList.mem_lookup_iff.mpr hmem]
    simpa using hne
  · intro h
    obtain ⟨node, hnode⟩ := List.exists_mem_of_ne_nil _ h
    obtain ⟨b, hb, hkey, hmem⟩ := Buckets.mem_bucket_iff.mp hnode
    refine ⟨b, List.mem_filter.mpr ⟨hb, ?_⟩, hkey⟩
    simpa using List.ne_nil_of_mem hmem

theorem mem_usedKeys_mergeKey {index : IndexMap κ} {old canon : κ} (hne : old ≠ canon) (key : κ) :
    key ∈ usedKeys (KeyIndex.mergeKey index old canon) ↔
      key ≠ old ∧ key ∈ usedKeys index ∨ key = canon ∧ old ∈ usedKeys index := by
  simp only [mem_usedKeys, KeyIndex.mergeKey]
  cases hold : index.lookup old with
  | none =>
    have hempty : Buckets.bucket index old = [] := by rw [Buckets.bucket, hold]; rfl
    simp only [hempty, ne_eq, not_true_eq_false, and_false, or_false]
    constructor
    · intro h
      exact ⟨fun heq => h (heq ▸ hempty), h⟩
    · intro h
      exact h.2
  | some nodes =>
    have hnodes : Buckets.bucket index old = nodes := by rw [Buckets.bucket, hold]; rfl
    have hbucket : Buckets.bucket (index.erase old) canon = Buckets.bucket index canon := by
      rw [Buckets.bucket_erase, if_neg (Ne.symm hne)]
    by_cases hkey : key = canon
    · have hlookup : Buckets.bucket ((index.erase old).insert canon
          (Buckets.bucket (index.erase old) canon ++ nodes).eraseDups) canon =
            (Buckets.bucket index canon ++ nodes).eraseDups := by
        rw [Buckets.bucket, AList.lookup_insert, hbucket]
        rfl
      have hempty : (Buckets.bucket index canon ++ nodes).eraseDups = [] ↔
          Buckets.bucket index canon = [] ∧ nodes = [] := by
        rw [← List.append_eq_nil_iff]
        simp only [List.eq_nil_iff_forall_not_mem, List.mem_eraseDups]
      subst hkey
      simp only [hlookup, ne_eq, hempty, hnodes, Ne.symm hne, not_false_eq_true, true_and,
        not_and_or]
    · have hlookup : Buckets.bucket ((index.erase old).insert canon
          (Buckets.bucket (index.erase old) canon ++ nodes).eraseDups) key =
            Buckets.bucket (index.erase old) key := by
        rw [Buckets.bucket, AList.lookup_insert_ne hkey]
        rfl
      rw [hlookup, Buckets.bucket_erase]
      by_cases hkold : key = old
      · simp [hkold, hne]
      · simp [hkold, hkey]

theorem mem_usedKeys_mergeKeys (olds : List κ) (target : κ → κ) (index : IndexMap κ)
    (hstay : ∀ old ∈ olds, target old ∉ olds) (key : κ) :
    key ∈ usedKeys (olds.foldl (fun m old => KeyIndex.mergeKey m old (target old)) index) ↔
      key ∉ olds ∧ key ∈ usedKeys index ∨ ∃ old ∈ olds, old ∈ usedKeys index ∧ target old = key := by
  induction olds generalizing index with
  | nil => simp
  | cons old olds ih =>
    have hfirst := hstay old List.mem_cons_self
    rw [List.mem_cons, not_or] at hfirst
    have hrest : ∀ k ∈ olds, target k ∉ olds := fun k hk hmem =>
      hstay k (List.mem_cons_of_mem old hk) (List.mem_cons_of_mem old hmem)
    rw [List.foldl_cons, ih _ hrest]
    simp only [mem_usedKeys_mergeKey (Ne.symm hfirst.1), List.mem_cons, not_or]
    have hlater : ∀ k ∈ olds, target k ≠ old := fun k hk heq =>
      hstay k (List.mem_cons_of_mem old hk) (heq ▸ List.mem_cons_self)
    grind

theorem usedKeys_retainNonEmpty (index : IndexMap κ) (key : κ) :
    key ∈ usedKeys (AuxiliaryIndices.retainNonEmpty index) ↔ key ∈ usedKeys index := by
  rw [mem_usedKeys, mem_usedKeys, AuxiliaryIndices.retainNonEmpty, Buckets.bucket_rebucket rfl]
  rfl

theorem usedKeys_remapStringKeyedIndex (index : IndexMap StringId) {remap : StringRemap}
    (hstays : AuxiliaryIndices.RemapStays remap) :
    Maps (canonicalName remap) (usedKeys index)
      (usedKeys (AuxiliaryIndices.remapStringKeyedIndex index remap)) := by
  have hkeys : ∀ key ∈ usedKeys index, key ∈ index.keys := by
    intro key hkey
    obtain ⟨b, hb, hkey⟩ := List.mem_map.mp hkey
    rw [← hkey]
    exact List.mem_map_of_mem (List.mem_filter.mp hb).1
  have hmoved : ∀ key ∈ usedKeys index,
      (key ∈ index.keys.filter fun key => key ∈ remap) ↔ key ∈ remap := by
    intro key hkey
    rw [List.mem_filter, decide_eq_true_iff]
    exact and_iff_right (hkeys key hkey)
  simp only [AuxiliaryIndices.remapStringKeyedIndex]
  split
  · rename_i hnone
    refine Maps.of_fixed fun key hkey => AuxiliaryIndices.canonicalName_of_notMem fun hmem => ?_
    have hmover := (hmoved key hkey).mpr hmem
    rw [List.isEmpty_iff.mp hnone] at hmover
    cases hmover
  · intro key
    rw [usedKeys_retainNonEmpty, mem_usedKeys_mergeKeys, List.mem_map]
    · constructor
      · intro h
        cases h with
        | inl hkept =>
          refine ⟨key, hkept.2, AuxiliaryIndices.canonicalName_of_notMem fun hmem => ?_⟩
          exact hkept.1 ((hmoved key hkept.2).mpr hmem)
        | inr hmover =>
          obtain ⟨old, _, hold, hkey⟩ := hmover
          exact ⟨old, hold, hkey⟩
      · intro h
        obtain ⟨old, hold, hkey⟩ := h
        by_cases hmem : old ∈ remap
        · exact .inr ⟨old, (hmoved old hold).mpr hmem, hold, hkey⟩
        · rw [AuxiliaryIndices.canonicalName_of_notMem hmem] at hkey
          rw [← hkey]
          exact .inl ⟨fun hmover => hmem ((hmoved old hold).mp hmover), hold⟩
    · intro old hold hmover
      have hmem := of_decide_eq_true (List.mem_filter.mp hold).2
      have hmem' := of_decide_eq_true (List.mem_filter.mp hmover).2
      obtain ⟨canon, hcanon⟩ := Option.isSome_iff_exists.mp (AList.lookup_isSome.mpr hmem)
      rw [canonicalName, hcanon, Option.getD_some, ← AList.lookup_isSome,
        hstays old canon hcanon] at hmem'
      cases hmem'

def AuxiliaryIndices.names (x : AuxiliaryIndices) : List StringId :=
  usedKeys x.nameIndex ++ usedKeys x.qualifiedNameIndex

theorem AuxiliaryIndices.names_rewrite (x : AuxiliaryIndices) {remap : StringRemap}
    (hstays : RemapStays remap) :
    Maps (canonicalName remap) x.names (x.rewriteStringIdsThroughRemap remap).names := by
  rw [rewriteStringIdsThroughRemap]
  split
  · rename_i hempty
    rw [canonicalName_of_isEmpty hempty]
    exact Maps.of_fixed fun _ _ => rfl
  · exact (usedKeys_remapStringKeyedIndex x.nameIndex hstays).append
      (usedKeys_remapStringKeyedIndex x.qualifiedNameIndex hstays)

end Indices

section Graph
variable {π μ δ : Type} [DecidableEq π]

def CIndirectSideTables.stringIds (t : CIndirectSideTables) : List StringId :=
  t.fnSignature.entries.map Sigma.snd ++
    t.structFieldFnptr.entries.flatMap (fun entry => [entry.1.1, entry.1.2, entry.2]) ++
    t.localVarType.entries.map Sigma.snd ++
    t.bindingsByField.entries.flatMap fun entry => [entry.1.1, entry.1.2]

namespace CodeGraph

def stringIds (g : CodeGraph π μ δ) : List StringId :=
  g.nodes.stringIds ++ g.indices.names ++ g.files.sourceUris ++ g.aliasTable.stringIds ++
    g.shadowTable.stringIds ++ g.edges.stringIds

def cStringIds (g : CodeGraph π μ δ) : List StringId :=
  g.cIndirectTables.toList.flatMap CIndirectSideTables.stringIds

theorem stringIds_rewrite (g : CodeGraph π μ δ) {remap : StringRemap}
    (hstays : AuxiliaryIndices.RemapStays remap) :
    Maps (canonicalName remap) g.stringIds (g.rewriteStringIds remap).stringIds :=
  (((((g.nodes.stringIds_rewrite remap).append (g.indices.names_rewrite hstays)).append
    (g.files.sourceUris_rewrite remap)).append (g.aliasTable.stringIds_rewrite remap)).append
    (g.shadowTable.stringIds_rewrite remap)).append (g.edges.stringIds_rewrite remap)

end CodeGraph

end Graph

end Sqry
