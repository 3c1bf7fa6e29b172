import Sqry.Persist.Upgrade

/-!
Node arenas and indices of older versions under the readers of today. An entry that was written
without `is_definition` takes the byte after it for its flag, so that no arena with a node in it
is read back; an arena without nodes is.
-/

namespace Sqry
namespace Persist

section Kinds

/-- The kind of today at the position of an old one: `Other` was where `Channel` is. -/
def NodeKindV13.misread : NodeKindV13 → NodeKind
  | other => .channel
  | kind => kind.toV14

variable (kind : NodeKindV13)

theorem encode_misread :
    Layout.nodeKind.encode kind.misread = Layout.nodeKindV13.encode kind := by
  cases kind <;> rfl

theorem misread_injective : Function.Injective NodeKindV13.misread := by
  intro a b h
  apply Layout.nodeKindV13.encode_injective
  rw [← encode_misread, ← encode_misread, h]

theorem misread_eq_toV14 {kind : NodeKindV13} (h : kind ≠ .other) : kind.misread = kind.toV14 := by
  cases kind <;> first | rfl | exact absurd rfl h

theorem misread_ne_other : kind.misread ≠ .other := by
  cases kind <;> decide

theorem toV14_ne_channel : kind.toV14 ≠ .channel := by
  cases kind <;> decide

end Kinds

/-- What an arena of the old layout keeps to: generations start at one, and the occupied slots are
counted. -/
structure WellKept {α : Type} (a : NodeArena α) : Prop where
  generation_pos : ∀ slot ∈ a.slots, 0 < slot.generation
  len_eq : a.len = a.slots.countP Slot.isOccupied

def Unmarked (slots : List (Slot FullNodeEntry)) : Prop :=
  ∀ slot ∈ slots, ∀ entry, slot.get = some entry → entry.isDefinition = false

section Reading

variable {κ : Type} {kinds : Layout κ} {read : κ → NodeKind}
  (hread : ∀ kind, Layout.nodeKind.encode (read kind) = kinds.encode kind)

include hread

theorem take_old_entry {entry : NodeEntryV13 κ} {more rest : List UInt8} {e : FullNodeEntry}
    (h : Layout.nodeEntry.take ((Layout.entryV13 kinds).encode entry ++ more) = .ok (e, rest)) :
    Layout.bool.take more = .ok (e.isDefinition, rest) := by
  have hbytes : (Layout.entryV13 kinds).encode entry =
      (Layout.entryV13 Layout.nodeKind).encode
        (Layout.bare (entry.live read false)) := by
    show kinds.encode entry.kind ++ _ = Layout.nodeKind.encode (read entry.kind) ++ _
    rw [hread]
    rfl
  obtain ⟨mid, hfields, hflag⟩ := Codec.take_of_prod (Codec.take_of_map h)
  rw [hbytes, Codec.take_encode_append] at hfields
  have hmid : more = mid := (Prod.mk.inj (Except.ok.inj hfields)).2
  rw [hmid]
  exact hflag

theorem take_old_slot {generation : Nat} {entry : NodeEntryV13 κ} {more rest : List UInt8}
    {s : Slot FullNodeEntry}
    (h : (Layout.slot Layout.nodeEntry).take
      ((Layout.slot (Layout.entryV13 kinds)).encode ⟨generation, .occupied entry⟩ ++ more) =
        .ok (s, rest)) :
    ∃ e, s.get = some e ∧ Layout.bool.take more = .ok (e.isDefinition, rest) := by
  have hbytes : (Layout.slot (Layout.entryV13 kinds)).encode ⟨generation, .occupied entry⟩ ++
      more = Layout.varint.encode generation ++
        (0 :: ((Layout.entryV13 kinds).encode entry ++ more)) :=
    List.append_assoc _ _ _
  obtain ⟨mid, hgeneration, hstate⟩ := Codec.take_of_prod (Codec.take_of_map h)
  rw [hbytes, Codec.take_encode_append] at hgeneration
  have hmid : 0 :: ((Layout.entryV13 kinds).encode entry ++ more) = mid :=
    (Prod.mk.inj (Except.ok.inj hgeneration)).2
  obtain ⟨mid', htag, hpayload⟩ := Codec.take_of_sigma (Codec.take_of_map hstate)
  rw [← hmid] at htag
  obtain ⟨generation', state⟩ := s
  cases state with
  | occupied e =>
    have hmid' : (Layout.entryV13 kinds).encode entry ++ more = mid' :=
      (Prod.mk.inj (Except.ok.inj htag)).2
    rw [← hmid'] at hpayload
    exact ⟨e, rfl, take_old_entry hread hpayload⟩
  | vacant nextFree => cases htag

omit hread in
theorem encode_vacant {α β : Type} (c : Layout α) (d : Layout β) (generation : Nat)
    (nextFree : Option Nat) :
    (Layout.slot c).encode ⟨generation, .vacant nextFree⟩ =
      (Layout.slot d).encode ⟨generation, .vacant nextFree⟩ := rfl

theorem takeMany_occupied {slots : List (Slot (NodeEntryV13 κ))}
    (hpos : ∀ slot ∈ slots, 0 < slot.generation) (hocc : ∃ slot ∈ slots, slot.isOccupied = true)
    {tail rest : List UInt8} {read' : List (Slot FullNodeEntry)} (hunmarked : Unmarked read')
    (h : (Layout.slot Layout.nodeEntry).takeMany slots.length
      ((Layout.slot (Layout.entryV13 kinds)).encodeAll slots ++ tail) = .ok (read', rest)) :
    tail = 0 :: rest := by
  induction slots generalizing read' with
  | nil =>
    obtain ⟨slot, hslot, -⟩ := hocc
    cases hslot
  | cons slot slots ih =>
    rw [List.length_cons, Codec.takeMany, Codec.encodeAll, List.append_assoc] at h
    cases hfirst : (Layout.slot Layout.nodeEntry).take
        ((Layout.slot (Layout.entryV13 kinds)).encode slot ++
          ((Layout.slot (Layout.entryV13 kinds)).encodeAll slots ++ tail)) with
    | error e => simp [hfirst] at h
    | ok r =>
      obtain ⟨s, mid⟩ := r
      cases hrest : (Layout.slot Layout.nodeEntry).takeMany slots.length mid with
      | error e => simp [hfirst, hrest] at h
      | ok r' =>
        simp only [hfirst, hrest, Except.ok.injEq, Prod.mk.injEq] at h
        obtain ⟨rfl, rfl⟩ := h
        have hpos' : ∀ slot ∈ slots, 0 < slot.generation :=
          fun slot hslot => hpos slot (List.mem_cons_of_mem _ hslot)
        have hunmarked' : Unmarked r'.1 :=
          fun slot hslot => hunmarked slot (List.mem_cons_of_mem _ hslot)
        obtain ⟨generation, state⟩ := slot
        cases state with
        | vacant nextFree =>
          -- a vacant slot has the same bytes in both layouts
          rw [encode_vacant (Layout.entryV13 kinds) Layout.nodeEntry,
            Codec.take_encode_append] at hfirst
          cases hfirst
          refine ih hpos' ?_ hunmarked' hrest
          obtain ⟨other, hother, hocc⟩ := hocc
          cases List.mem_cons.mp hother with
          | inl hsame =>
            rw [hsame] at hocc
            cases hocc
          | inr hmem => exact ⟨other, hmem, hocc⟩
        | occupied entry =>
          obtain ⟨e, hget, hflag⟩ := take_old_slot hread hfirst
          rw [hunmarked s List.mem_cons_self e hget] at hflag
          have hzero := Codec.eq_cons_of_take_tag hflag
          cases slots with
          | nil =>
            cases hrest
            exact hzero
          | cons next slots =>
            -- the byte after the entry starts a generation
            have hgeneration := hpos' next List.mem_cons_self
            have hbytes : (Layout.slot (Layout.entryV13 kinds)).encodeAll (next :: slots) ++
                tail = Codec.encodeVarint next.generation ++
                  ((Layout.slotState (Layout.entryV13 kinds)).encode next.state ++
                    ((Layout.slot (Layout.entryV13 kinds)).encodeAll slots ++ tail)) := by
              rw [Codec.encodeAll, List.append_assoc]
              exact List.append_assoc _ _ _
            rw [hbytes] at hzero
            exact absurd hzero (Codec.encodeVarint_ne_cons hgeneration _ _)

theorem vacant_of_take {a : NodeArena (NodeEntryV13 κ)} (ha : WellKept a) {more rest : List UInt8}
    {a' : NodeArena FullNodeEntry}
    (h : (Layout.arena Layout.nodeEntry).take
      ((Layout.arena (Layout.entryV13 kinds)).encode a ++ more) = .ok (a', rest))
    (hunmarked : Unmarked a'.slots) (hhead : a'.freeHead = a.freeHead) :
    ∀ slot ∈ a.slots, slot.isOccupied = false := by
  by_contra hsome
  have hocc : ∃ slot ∈ a.slots, slot.isOccupied = true := by
    by_contra hnone
    apply hsome
    intro slot hslot
    cases hslot' : slot.isOccupied with
    | false => rfl
    | true => exact absurd ⟨slot, hslot, hslot'⟩ hnone
  have hbytes : (Layout.arena (Layout.entryV13 kinds)).encode a ++ more =
      Layout.varint.encode a.slots.length ++
        ((Layout.slot (Layout.entryV13 kinds)).encodeAll a.slots ++
          ((Layout.optional Layout.varint).encode a.freeHead ++
            (Codec.encodeVarint a.len ++ more))) := by
    show (Layout.vec (Layout.slot (Layout.entryV13 kinds))).encode a.slots ++
      ((Layout.optional Layout.varint).encode a.freeHead ++ Codec.encodeVarint a.len) ++ more = _
    rw [Layout.vec, Codec.encode_list]
    simp only [List.append_assoc]
  obtain ⟨mid, hslots, htail⟩ := Codec.take_of_prod (Codec.take_of_map h)
  obtain ⟨mid', hfree, -⟩ := Codec.take_of_prod htail
  rw [hbytes, Layout.vec, Codec.take_list, Codec.take_encode_append] at hslots
  have hzero := takeMany_occupied hread ha.generation_pos hocc hunmarked hslots
  -- the flag of the last node is the tag of the free head, which is read from the count
  have hnone : a.freeHead = none := by
    cases hfreeHead : a.freeHead with
    | none => rfl
    | some head =>
      rw [hfreeHead] at hzero
      have htag : (1 : UInt8) = 0 := (List.cons.inj hzero).1
      cases htag
  rw [hnone] at hzero
  have hmid : Codec.encodeVarint a.len ++ more = mid := (List.cons.inj hzero).2
  have hread' : (Layout.optional Layout.varint).take mid = .ok (none, mid') := by
    rw [← hnone, ← hhead]
    exact hfree
  have hlen : 0 < a.len := by
    rw [ha.len_eq, List.countP_pos_iff]
    exact hocc
  rw [← hmid] at hread'
  exact Codec.encodeVarint_ne_cons hlen _ _ (Codec.eq_cons_of_take_none hread')

omit hread in
theorem encode_liveSlot (kinds : Layout κ) (live : κ → NodeKind) {slot : Slot (NodeEntryV13 κ)}
    (h : slot.isOccupied = false) :
    (Layout.slot Layout.nodeEntry).encode (liveSlot live slot) =
      (Layout.slot (Layout.entryV13 kinds)).encode slot := by
  obtain ⟨generation, state⟩ := slot
  cases state with
  | occupied entry => cases h
  | vacant nextFree => rfl

omit hread in
theorem encode_vacant_arena (kinds : Layout κ) (live : κ → NodeKind)
    {a : NodeArena (NodeEntryV13 κ)} (h : ∀ slot ∈ a.slots, slot.isOccupied = false) :
    (Layout.arena Layout.nodeEntry).encode (translateNodeArena live a) =
      (Layout.arena (Layout.entryV13 kinds)).encode a := by
  have hslots : (Layout.vec (Layout.slot Layout.nodeEntry)).encode (a.slots.map (liveSlot live)) =
      (Layout.vec (Layout.slot (Layout.entryV13 kinds))).encode a.slots :=
    Codec.encode_list_map _ fun slot hslot => encode_liveSlot kinds live (h slot hslot)
  exact congrArg (· ++ _) hslots

omit hread in
theorem unmarked_translate (live : κ → NodeKind) (a : NodeArena (NodeEntryV13 κ)) :
    Unmarked (translateNodeArena live a).slots := by
  intro slot hslot entry hget
  obtain ⟨old, -, rfl⟩ := List.mem_map.mp hslot
  obtain ⟨generation, state⟩ := old
  cases state with
  | occupied data =>
    cases hget
    rfl
  | vacant nextFree => cases hget

end Reading

section Demotion

theorem unmarked_of_demoted {a : NodeArena FullNodeEntry}
    (h : Unmarked (a.mapEntries demote).slots) : Unmarked a.slots := by
  intro slot hslot entry hget
  obtain ⟨generation, state⟩ := slot
  cases state with
  | occupied data =>
    cases hget
    have hmem : (⟨generation, .occupied (demote entry)⟩ : Slot FullNodeEntry) ∈
        (a.mapEntries demote).slots := List.mem_map.mpr ⟨_, hslot, rfl⟩
    have hflag := h _ hmem _ rfl
    rw [demote] at hflag
    split at hflag <;> exact hflag
  | vacant nextFree => cases hget

variable {a : NodeArena FullNodeEntry} (h : ∀ slot ∈ a.slots, slot.isOccupied = false)
include h

theorem mapEntries_vacant (f : FullNodeEntry → FullNodeEntry) : a.mapEntries f = a := by
  have hslots : a.slots.map (NodeArena.mapSlot f) = a.slots := by
    rw [List.map_congr_left (g := id), List.map_id]
    intro slot hslot
    obtain ⟨generation, state⟩ := slot
    cases state with
    | occupied entry => cases h _ hslot
    | vacant nextFree => rfl
  rw [NodeArena.mapEntries, hslots]

theorem iter_vacant : a.iter = [] := by
  rw [List.eq_nil_iff_forall_not_mem]
  intro node hnode
  obtain ⟨-, slot, hslot, -, hget⟩ := NodeArena.mem_iter.mp hnode
  have hvacant := h slot (List.mem_of_getElem? hslot)
  obtain ⟨generation, state⟩ := slot
  cases state with
  | occupied entry => cases hvacant
  | vacant nextFree => cases hget

theorem demote_vacant (indices : AuxiliaryIndices) :
    demoteSpuriousChannelNodes a indices = (a, indices) := by
  rw [demoteSpuriousChannelNodes, iter_vacant h]
  simp only [mapEntries_vacant h]
  rfl

end Demotion

section Indices

def misreadKinds (index : IndexMap NodeKindV13) : IndexMap NodeKind :=
  ⟨index.entries.map fun s => ⟨s.1.misread, s.2⟩, by
    have hkeys : (index.entries.map fun s => (⟨s.1.misread, s.2⟩ : Sigma fun _ => List NodeId)).keys
        = index.entries.keys.map NodeKindV13.misread := by
      simp only [List.keys, List.map_map]
      rfl
    rw [List.NodupKeys, hkeys]
    exact index.nodupKeys.map misread_injective⟩

def AuxiliaryIndicesV13.misread (x : AuxiliaryIndicesV13) : AuxiliaryIndices :=
  ⟨misreadKinds x.kindIndex, x.nameIndex, x.qualifiedNameIndex, x.fileIndex, x.nodeCount⟩

variable (index : IndexMap NodeKindV13)

theorem bucket_misreadKinds (kind : NodeKindV13) :
    Buckets.bucket (misreadKinds index) kind.misread = Buckets.bucket index kind := by
  rw [Buckets.bucket, Buckets.bucket]
  apply congrArg (Option.getD · [])
  cases hold : index.lookup kind with
  | none =>
    rw [AList.lookup_eq_none, AList.mem_keys]
    intro hmem
    obtain ⟨s, hs, hkey⟩ := List.mem_map.mp hmem
    obtain ⟨s', hs', rfl⟩ := List.mem_map.mp hs
    have hsame : s'.1 = kind := misread_injective hkey
    exact absurd (AList.mem_keys.mpr (List.mem_map.mpr ⟨s', hs', hsame⟩))
      (AList.lookup_eq_none.mp hold)
  | some bucket =>
    apply AList.mem_lookup_iff.mpr
    exact List.mem_map.mpr ⟨⟨kind, bucket⟩, AList.mem_lookup_iff.mp hold, rfl⟩

theorem bucket_other_misreadKinds :
    Buckets.bucket (misreadKinds index) .other = [] := by
  rw [Buckets.bucket]
  have hnone : (misreadKinds index).lookup .other = none := by
    rw [AList.lookup_eq_none, AList.mem_keys]
    intro hmem
    obtain ⟨s, hs, hkey⟩ := List.mem_map.mp hmem
    obtain ⟨s', -, rfl⟩ := List.mem_map.mp hs
    exact misread_ne_other s'.1 hkey
  rw [hnone]
  rfl

theorem encode_misreadKinds :
    (Layout.bucketMap Layout.nodeKind).encode (misreadKinds index) =
      (Layout.bucketMap Layout.nodeKindV13).encode index := by
  have hpairs : (misreadKinds index).entries.reverse.map (fun s => (s.1, s.2)) =
      (index.entries.reverse.map fun s => (s.1, s.2)).map fun p => (p.1.misread, p.2) := by
    rw [misreadKinds, ← List.map_reverse, List.map_map, List.map_map]
    rfl
  show (Layout.vec (Layout.nodeKind.prod (Layout.vec Layout.nodeId))).encode
    ((misreadKinds index).entries.reverse.map fun s => (s.1, s.2)) = _
  rw [hpairs]
  exact Codec.encode_list_map _ fun p _ => congrArg (· ++ _) (encode_misread p.1)

theorem encode_misread_indices (x : AuxiliaryIndicesV13) :
    Layout.indices.encode x.misread = Layout.indicesV13.encode x :=
  congrArg (· ++ _) (encode_misreadKinds x.kindIndex)

/-- The indices of today with the buckets of old ones, in any order within a bucket. -/
structure AuxiliaryIndicesV13.Kept (x : AuxiliaryIndicesV13) (live : AuxiliaryIndices) : Prop where
  kinds : ∀ kind,
    (Buckets.bucket live.kindIndex kind.toV14).Perm (Buckets.bucket x.kindIndex kind)
  noChannel : Buckets.bucket live.kindIndex .channel = []
  names : ∀ name, (Buckets.bucket live.nameIndex name).Perm (Buckets.bucket x.nameIndex name)
  qualifiedNames : ∀ name,
    (Buckets.bucket live.qualifiedNameIndex name).Perm (Buckets.bucket x.qualifiedNameIndex name)
  files : ∀ file, (Buckets.bucket live.fileIndex file).Perm (Buckets.bucket x.fileIndex file)
  nodeCount : live.nodeCount = x.nodeCount

theorem kept_misread_iff (x : AuxiliaryIndicesV13) :
    x.Kept x.misread ↔ Buckets.bucket x.kindIndex .other = [] := by
  constructor
  · intro h
    rw [← bucket_misreadKinds]
    exact h.noChannel
  · intro hnone
    refine ⟨?_, ?_, fun _ => List.Perm.refl _, fun _ => List.Perm.refl _,
      fun _ => List.Perm.refl _, rfl⟩
    · intro kind
      by_cases hother : kind = .other
      · rw [hother, hnone]
        exact List.Perm.of_eq (bucket_other_misreadKinds x.kindIndex)
      · rw [← misread_eq_toV14 hother]
        exact List.Perm.of_eq (bucket_misreadKinds x.kindIndex kind)
    · have hchannel := bucket_misreadKinds x.kindIndex .other
      rw [hnone] at hchannel
      exact hchannel

end Indices

end Persist
end Sqry
