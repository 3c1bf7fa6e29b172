import Sqry.Edge.Store

/-!
The node entries of a graph, as far as the readers here look at them, and the walk over
the live ones with their identifiers.
-/

namespace Sqry

inductive NodeKind where
  | function | method | «class» | interface | trait | module
  | «variable» | constant | type | struct | enum | enumVariant | macroItem | parameter | property
  | callSite | «import» | «export»
  | styleRule | styleAtRule | styleVariable
  | lifetime
  | component | service | resource | endpoint | test
  | typeParameter | annotation | annotationValue | lambdaTarget | javaModule | enumConstant
  | channel
  | other
  deriving DecidableEq, Repr

def StringId.INVALID : StringId := ⟨u32Max, le_refl u32Max⟩

def StringId.ofUInt8 (index : UInt8) : StringId :=
  ⟨index.toNat, (Nat.le_of_lt index.toNat_lt).trans (Nat.le_of_ble_eq_true rfl)⟩

structure NodeEntry where
  kind : NodeKind
  name : StringId
  file : FileId
  qualifiedName : Option StringId
  visibility : Option StringId
  startByte : Nat
  endByte : Nat
  isStatic : Bool
  isUnsafe : Bool
  isDefinition : Bool
  deriving DecidableEq, Repr

namespace NodeEntry

def new (kind : NodeKind) (name : StringId) (file : FileId) : NodeEntry :=
  ⟨kind, name, file, none, none, 0, 0, false, false, false⟩

def isUnifiedLoser (entry : NodeEntry) : Bool := entry.name = StringId.INVALID

end NodeEntry

namespace NodeArena
variable {α : Type}

def iterSlot (index : Nat) (slot : Slot α) : Option (NodeId × α) :=
  match slot.state with
  | .occupied entry => if index ≤ u32Max then some (⟨index, slot.generation⟩, entry) else none
  | .vacant _ => none

def iterFrom : Nat → List (Slot α) → List (NodeId × α)
  | _, [] => []
  | index, slot :: slots =>
    match iterSlot index slot with
    | some p => p :: iterFrom (index + 1) slots
    | none => iterFrom (index + 1) slots

def iter (a : NodeArena α) : List (NodeId × α) := iterFrom 0 a.slots

variable {a : NodeArena α} {id : NodeId} {entry : α}

theorem iterSlot_eq_some {index : Nat} {slot : Slot α} :
    iterSlot index slot = some (id, entry) ↔
      index ≤ u32Max ∧ id = ⟨index, slot.generation⟩ ∧ slot.get = some entry := by
  rw [iterSlot, Slot.get]
  cases slot.state with
  | occupied data =>
    by_cases hle : index ≤ u32Max
    · simp [hle, eq_comm]
    · simp [hle]
  | vacant next => simp

theorem mem_iterFrom {start : Nat} {slots : List (Slot α)} :
    (id, entry) ∈ iterFrom start slots ↔
      ∃ i slot, slots[i]? = some slot ∧ iterSlot (start + i) slot = some (id, entry) := by
  induction slots generalizing start with
  | nil => simp [iterFrom]
  | cons slot slots ih =>
    have hrest : (∃ i s, (slot :: slots)[i]? = some s ∧ iterSlot (start + i) s = some (id, entry)) ↔
        iterSlot start slot = some (id, entry) ∨ (id, entry) ∈ iterFrom (start + 1) slots := by
      rw [ih]
      constructor
      · intro ⟨i, s, hs, hiter⟩
        cases i with
        | zero =>
          cases hs
          exact Or.inl hiter
        | succ i =>
          rw [List.getElem?_cons_succ] at hs
          rw [show start + (i + 1) = start + 1 + i by omega] at hiter
          exact Or.inr ⟨i, s, hs, hiter⟩
      · intro h
        cases h with
        | inl h => exact ⟨0, slot, rfl, h⟩
        | inr h =>
          obtain ⟨i, s, hs, hiter⟩ := h
          refine ⟨i + 1, s, ?_, ?_⟩
          · rw [List.getElem?_cons_succ]
            exact hs
          · rw [show start + (i + 1) = start + 1 + i by omega]
            exact hiter
    rw [hrest, iterFrom]
    cases iterSlot start slot with
    | none => simp
    | some p => simp [eq_comm]

theorem mem_iter :
    (id, entry) ∈ a.iter ↔
      id.index ≤ u32Max ∧
        ∃ slot, a.slots[id.index]? = some slot ∧ slot.generation = id.generation ∧
          slot.get = some entry := by
  rw [iter, mem_iterFrom]
  constructor
  · intro ⟨i, slot, hslot, hiter⟩
    rw [Nat.zero_add] at hiter
    obtain ⟨hle, hid, hget⟩ := iterSlot_eq_some.mp hiter
    cases hid
    exact ⟨hle, slot, hslot, rfl, hget⟩
  · intro ⟨hle, slot, hslot, hgen, hget⟩
    refine ⟨id.index, slot, hslot, ?_⟩
    rw [Nat.zero_add]
    exact iterSlot_eq_some.mpr ⟨hle, by rw [hgen], hget⟩

theorem length_iterFrom (start : Nat) (slots : List (Slot α)) :
    (iterFrom start slots).length ≤ u32Max + 1 - start := by
  induction slots generalizing start with
  | nil => exact Nat.zero_le _
  | cons slot slots ih =>
    have hrest := ih (start + 1)
    rw [iterFrom]
    cases hslot : iterSlot start slot with
    | none =>
      show (iterFrom (start + 1) slots).length ≤ _
      omega
    | some p =>
      have hle := (iterSlot_eq_some.mp hslot).1
      show (p :: iterFrom (start + 1) slots).length ≤ _
      rw [List.length_cons]
      omega

theorem length_iter (a : NodeArena α) : a.iter.length ≤ u32Max + 1 := length_iterFrom 0 a.slots

theorem get_eq_some_iff :
    a.get id = some entry ↔
      id.index ≠ u32Max ∧
        ∃ slot, a.slots[id.index]? = some slot ∧ slot.generation = id.generation ∧
          slot.get = some entry := by
  rw [get, NodeId.isInvalid]
  by_cases hinvalid : id.index = u32Max
  · simp [hinvalid]
  · cases hslot : a.slots[id.index]? with
    | none => simp [hinvalid]
    | some slot =>
      by_cases hgen : slot.generation = id.generation
      · simp [hinvalid, hgen]
      · simp [hinvalid, hgen]

def Holds (a : NodeArena α) (id : NodeId) (entry : α) : Prop :=
  ∃ slot, a.slots[id.index]? = some slot ∧ slot.generation = id.generation ∧
    slot.get = some entry

theorem holds_of_get (h : a.get id = some entry) :
    a.Holds id entry := (get_eq_some_iff.mp h).2

theorem holds_of_mem_iter (h : (id, entry) ∈ a.iter) : a.Holds id entry := (mem_iter.mp h).2

theorem holds_inj {entry entry' : α} (h : a.Holds id entry) (h' : a.Holds id entry')
    : entry = entry' := by
  obtain ⟨slot, hslot, _, hget⟩ := h
  obtain ⟨slot', hslot', _, hget'⟩ := h'
  rw [hslot] at hslot'
  cases hslot'
  rw [hget] at hget'
  exact Option.some.inj hget'

theorem iter_inj {id id' : NodeId} {entry entry' : α} (h : (id, entry) ∈ a.iter)
    (h' : (id', entry') ∈ a.iter) (hindex : id.index = id'.index) :
    id = id' ∧ entry = entry' := by
  obtain ⟨-, slot, hslot, hgen, hget⟩ := mem_iter.mp h
  obtain ⟨-, slot', hslot', hgen', hget'⟩ := mem_iter.mp h'
  rw [hindex, hslot'] at hslot
  cases hslot
  rw [hget] at hget'
  cases id
  cases id'
  cases hindex
  cases hgen
  cases hgen'
  exact ⟨rfl, Option.some.inj hget'⟩

end NodeArena
end Sqry
