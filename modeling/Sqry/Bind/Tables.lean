import Sqry.Bind.ScopeArena
import Sqry.Graph.Stores
import Sqry.Lib.SortedGroups

/-!
The tables of the binding plane beside the arena of scopes: the aliases, the shadows and the
provenance of scopes. An entry of a table carries its position. The ranges that the source keeps
for each scope are computed from the entries and left out.
-/

namespace Sqry

open SortedGroups (sortBy)

def compareScopeIds (a b : ScopeId) : Ordering :=
  (compare a.index b.index).then (compare a.generation b.generation)

structure EntryShape (α : Type) where
  setId : Nat → α → α
  scope : α → ScopeId
  node : α → NodeId
  order : α → α → Ordering
  mentions : StringRemap → α → Bool
  rewrite : StringRemap → α → α
  scope_setId : ∀ position entry, scope (setId position entry) = scope entry
  node_setId : ∀ position entry, node (setId position entry) = node entry
  scope_rewrite : ∀ remap entry, scope (rewrite remap entry) = scope entry
  node_rewrite : ∀ remap entry, node (rewrite remap entry) = node entry

namespace EntryShape
variable {α : Type} (shape : EntryShape α)

/-- A position that is no `u32` makes the source panic. The derivations check it; the operations
here never add an entry. -/
def renumber (entries : List α) : List α := entries.mapIdx shape.setId

def retainByNode (entries : List α) (keep : NodeId → Bool) : List α :=
  shape.renumber (entries.filter fun entry => keep (shape.node entry))

def rewriteStringIdsThroughRemap (entries : List α) (remap : StringRemap) : List α :=
  if remap.entries.isEmpty then entries
  else if entries.any (shape.mentions remap) then
    shape.renumber (sortBy shape.order (entries.map (shape.rewrite remap)))
  else entries

end EntryShape

structure AliasEntry where
  id : Nat
  scope : ScopeId
  fromSymbol : StringId
  toSymbol : StringId
  importNode : NodeId
  isWildcard : Bool
  deriving DecidableEq, Repr

def AliasEntry.shape : EntryShape AliasEntry where
  setId position entry := { entry with id := position }
  scope := AliasEntry.scope
  node := AliasEntry.importNode
  order a b :=
    (compareScopeIds a.scope b.scope).then (compare a.fromSymbol.index b.fromSymbol.index)
  mentions remap entry := entry.fromSymbol ∈ remap || entry.toSymbol ∈ remap
  rewrite remap entry :=
    { entry with
      fromSymbol := AuxiliaryIndices.canonicalName remap entry.fromSymbol
      toSymbol := AuxiliaryIndices.canonicalName remap entry.toSymbol }
  scope_setId _ _ := rfl
  node_setId _ _ := rfl
  scope_rewrite _ _ := rfl
  node_rewrite _ _ := rfl

structure AliasTable where
  entries : List AliasEntry
  deriving DecidableEq, Repr

namespace AliasTable

def new : AliasTable := ⟨[]⟩

def retainByNode (t : AliasTable) (keep : NodeId → Bool) : AliasTable :=
  ⟨AliasEntry.shape.retainByNode t.entries keep⟩

def rewriteStringIdsThroughRemap (t : AliasTable) (remap : StringRemap) : AliasTable :=
  ⟨AliasEntry.shape.rewriteStringIdsThroughRemap t.entries remap⟩

end AliasTable

structure ShadowEntry where
  id : Nat
  scope : ScopeId
  symbol : StringId
  node : NodeId
  byteOffset : Nat
  deriving DecidableEq, Repr

def ShadowEntry.shape : EntryShape ShadowEntry where
  setId position entry := { entry with id := position }
  scope := ShadowEntry.scope
  node := ShadowEntry.node
  order a b :=
    ((compareScopeIds a.scope b.scope).then (compare a.symbol.index b.symbol.index)).then
      (compare a.byteOffset b.byteOffset)
  mentions remap entry := entry.symbol ∈ remap
  rewrite remap entry :=
    { entry with symbol := AuxiliaryIndices.canonicalName remap entry.symbol }
  scope_setId _ _ := rfl
  node_setId _ _ := rfl
  scope_rewrite _ _ := rfl
  node_rewrite _ _ := rfl

structure ShadowTable where
  entries : List ShadowEntry
  deriving DecidableEq, Repr

namespace ShadowTable

def new : ShadowTable := ⟨[]⟩

def retainByNode (t : ShadowTable) (keep : NodeId → Bool) : ShadowTable :=
  ⟨ShadowEntry.shape.retainByNode t.entries keep⟩

def rewriteStringIdsThroughRemap (t : ShadowTable) (remap : StringRemap) : ShadowTable :=
  ⟨ShadowEntry.shape.rewriteStringIdsThroughRemap t.entries remap⟩

end ShadowTable

abbrev ScopeStableId : Type := List UInt8

abbrev FileStableId : Type := List UInt8

structure ScopeProvenance where
  firstSeenEpoch : Nat
  lastSeenEpoch : Nat
  fileStableId : FileStableId
  stableId : ScopeStableId
  deriving DecidableEq, Repr

structure ScopeProvenanceStore where
  slots : List (Option (Nat × ScopeProvenance))
  reverseIndex : AList fun _ : ScopeStableId => ScopeId

namespace ScopeProvenanceStore

def new : ScopeProvenanceStore := ⟨[], ∅⟩

def resizeTo (s : ScopeProvenanceStore) (slotCount : Nat) : ScopeProvenanceStore :=
  { s with slots := s.slots ++ List.replicate (slotCount - s.slots.length) none }

def insert (s : ScopeProvenanceStore) (id : ScopeId) (provenance : ScopeProvenance) :
    ScopeProvenanceStore :=
  { slots := (s.resizeTo (id.index + 1)).slots.set id.index (some (id.generation, provenance))
    reverseIndex := s.reverseIndex.insert provenance.stableId id }

def lookup (s : ScopeProvenanceStore) (id : ScopeId) : Option ScopeProvenance :=
  match s.slots[id.index]?.join with
  | none => none
  | some slot => if slot.1 ≠ id.generation then none else some slot.2

def entriesFrom : Nat → List (Option (Nat × ScopeProvenance)) → List (ScopeId × ScopeProvenance)
  | _, [] => []
  | index, none :: slots => entriesFrom (index + 1) slots
  | index, some slot :: slots => (⟨index, slot.1⟩, slot.2) :: entriesFrom (index + 1) slots

def entries (s : ScopeProvenanceStore) : List (ScopeId × ScopeProvenance) := entriesFrom 0 s.slots

def scopeByStableId (s : ScopeProvenanceStore) (stable : ScopeStableId) : Option ScopeId :=
  s.reverseIndex.lookup stable

end ScopeProvenanceStore

namespace EntryShape
variable {α : Type} {shape : EntryShape α}

theorem scopes_renumber (entries : List α) :
    (shape.renumber entries).map shape.scope = entries.map shape.scope := by
  refine List.ext_getElem (by simp [renumber]) fun i h₁ h₂ => ?_
  simp [renumber, shape.scope_setId]

theorem scopes_retainByNode (entries : List α) (keep : NodeId → Bool) :
    ((shape.retainByNode entries keep).map shape.scope).Sublist (entries.map shape.scope) := by
  rw [retainByNode, scopes_renumber]
  exact List.filter_sublist.map shape.scope

theorem scopes_rewrite (entries : List α) (remap : StringRemap) :
    ((shape.rewriteStringIdsThroughRemap entries remap).map shape.scope).Perm
      (entries.map shape.scope) := by
  rw [rewriteStringIdsThroughRemap]
  split
  · exact List.Perm.refl _
  · split
    · rw [scopes_renumber]
      refine ((SortedGroups.perm_sortBy _ _).map shape.scope).trans ?_
      rw [List.map_map]
      exact List.Perm.of_eq (List.map_congr_left fun entry _ => shape.scope_rewrite remap entry)
    · exact List.Perm.refl _

end EntryShape

namespace ScopeProvenanceStore

theorem mem_entriesFrom {start : Nat} {slots : List (Option (Nat × ScopeProvenance))}
    {id : ScopeId} {provenance : ScopeProvenance} :
    (id, provenance) ∈ entriesFrom start slots ↔
      start ≤ id.index ∧ slots[id.index - start]? = some (some (id.generation, provenance)) := by
  induction slots generalizing start with
  | nil => simp [entriesFrom]
  | cons slot slots ih =>
    by_cases hstart : id.index = start
    · cases slot with
      | none =>
        simp only [entriesFrom, ih, hstart, Nat.sub_self, List.getElem?_cons_zero]
        simp
      | some slot =>
        simp only [entriesFrom, List.mem_cons, ih, hstart, Nat.sub_self,
          List.getElem?_cons_zero, Prod.mk.injEq]
        constructor
        · intro h
          cases h with
          | inl heq =>
            obtain ⟨hid, hprovenance⟩ := heq
            exact ⟨Nat.le_refl _, by rw [hid, hprovenance]⟩
          | inr hlater => omega
        · intro h
          obtain ⟨_, hslot⟩ := h
          cases hslot
          refine .inl ⟨?_, rfl⟩
          cases id
          cases hstart
          rfl
    · have hrest : start ≤ id.index ∧
          (slot :: slots)[id.index - start]? = some (some (id.generation, provenance)) ↔
          start + 1 ≤ id.index ∧
            slots[id.index - (start + 1)]? = some (some (id.generation, provenance)) := by
        constructor
        · intro h
          obtain ⟨hle, hslot⟩ := h
          have hsub : id.index - start = id.index - (start + 1) + 1 := by omega
          rw [hsub, List.getElem?_cons_succ] at hslot
          exact ⟨by omega, hslot⟩
        · intro h
          obtain ⟨hle, hslot⟩ := h
          have hsub : id.index - start = id.index - (start + 1) + 1 := by omega
          rw [hsub, List.getElem?_cons_succ]
          exact ⟨by omega, hslot⟩
      rw [hrest, ← ih]
      cases slot with
      | none => rfl
      | some slot =>
        rw [entriesFrom, List.mem_cons]
        constructor
        · intro h
          cases h with
          | inl heq =>
            cases heq
            exact absurd rfl hstart
          | inr hlater => exact hlater
        · exact .inr

theorem mem_entries {s : ScopeProvenanceStore} {id : ScopeId} {provenance : ScopeProvenance} :
    (id, provenance) ∈ s.entries ↔
      s.slots[id.index]? = some (some (id.generation, provenance)) := by
  rw [entries, mem_entriesFrom]
  simp

theorem mem_entries_resizeTo {s : ScopeProvenanceStore} {slotCount : Nat} {id : ScopeId}
    {provenance : ScopeProvenance} :
    (id, provenance) ∈ (s.resizeTo slotCount).entries ↔ (id, provenance) ∈ s.entries := by
  rw [mem_entries, mem_entries, resizeTo]
  by_cases hlt : id.index < s.slots.length
  · rw [List.getElem?_append_left hlt]
  · rw [List.getElem?_append_right (Nat.le_of_not_lt hlt),
      List.getElem?_eq_none (Nat.le_of_not_lt hlt), List.getElem?_replicate]
    split
    · simp
    · simp

theorem mem_entries_insert {s : ScopeProvenanceStore} {id other : ScopeId}
    {provenance provenance' : ScopeProvenance} :
    (other, provenance') ∈ (s.insert id provenance).entries ↔
      (other = id ∧ provenance' = provenance) ∨
        (other.index ≠ id.index ∧ (other, provenance') ∈ s.entries) := by
  have hlt : id.index < (s.resizeTo (id.index + 1)).slots.length := by
    simp only [resizeTo, List.length_append, List.length_replicate]
    omega
  rw [← @mem_entries_resizeTo s (id.index + 1), mem_entries, mem_entries, insert]
  by_cases hindex : other.index = id.index
  · rw [hindex, List.getElem?_set_self hlt]
    constructor
    · intro h
      obtain ⟨hgen, hprovenance⟩ := Prod.mk.inj (Option.some.inj (Option.some.inj h))
      refine .inl ⟨?_, hprovenance.symm⟩
      cases other
      cases id
      cases hindex
      cases hgen
      rfl
    · intro h
      cases h with
      | inl hsame => rw [hsame.1, hsame.2]
      | inr hother => exact absurd rfl hother.1
  · rw [List.getElem?_set_ne (Ne.symm hindex)]
    constructor
    · intro h
      exact .inr ⟨hindex, h⟩
    · intro h
      cases h with
      | inl hsame => exact absurd (congrArg ScopeId.index hsame.1) hindex
      | inr hother => exact hother.2

theorem scopeByStableId_insert {s : ScopeProvenanceStore} {id found : ScopeId}
    {provenance : ScopeProvenance} {stable : ScopeStableId}
    (h : (s.insert id provenance).scopeByStableId stable = some found) :
    found = id ∨ s.scopeByStableId stable = some found := by
  rw [scopeByStableId, insert] at h
  by_cases hstable : stable = provenance.stableId
  · rw [hstable, AList.lookup_insert] at h
    cases h
    exact .inl rfl
  · rw [AList.lookup_insert_ne hstable] at h
    exact .inr h

end ScopeProvenanceStore

end Sqry
