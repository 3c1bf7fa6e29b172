import Sqry.Lib.FreeList
import Sqry.Lib.StepSystem

/-!
Generational node identifiers. Indices are `u32` and generations `u64` in the
source; both are natural numbers here, and every bound the code checks is kept
as an explicit check.
-/

namespace Sqry

def u32Max : Nat := 4294967295

def u64Max : Nat := 18446744073709551615

def saturatingSucc (n : Nat) : Nat := min (n + 1) u64Max

structure NodeId where
  index : Nat
  generation : Nat
  deriving DecidableEq, Repr

structure GenerationOverflowError where
  index : Nat
  generation : Nat
  deriving DecidableEq, Repr

namespace NodeId

def INVALID : NodeId := ⟨u32Max, 0⟩

/-- `u64::MAX / 2`. -/
def MAX_GENERATION : Nat := u64Max / 2

def isInvalid (id : NodeId) : Bool := id.index == u32Max

def tryIncrementGeneration (id : NodeId) : Except GenerationOverflowError Nat :=
  if id.generation + 1 > u64Max then
    .error ⟨id.index, id.generation⟩
  else if id.generation + 1 > MAX_GENERATION then
    .error ⟨id.index, id.generation⟩
  else
    .ok (id.generation + 1)

theorem tryIncrementGeneration_ok {id : NodeId} (h : id.generation < MAX_GENERATION) :
    id.tryIncrementGeneration = .ok (id.generation + 1) := by
  have hmax : MAX_GENERATION < u64Max := by decide
  unfold tryIncrementGeneration
  rw [if_neg (by omega), if_neg (by omega)]

theorem tryIncrementGeneration_error {id : NodeId} (h : MAX_GENERATION ≤ id.generation) :
    id.tryIncrementGeneration = .error ⟨id.index, id.generation⟩ := by
  unfold tryIncrementGeneration
  split
  · rfl
  · rw [if_pos (by omega)]

theorem tryIncrementGeneration_eq_ok {id : NodeId} {g : Nat}
    (h : id.tryIncrementGeneration = .ok g) :
    g = id.generation + 1 ∧ id.generation < MAX_GENERATION := by
  by_cases hlt : id.generation < MAX_GENERATION
  · rw [tryIncrementGeneration_ok hlt] at h
    cases h
    exact ⟨rfl, hlt⟩
  · rw [tryIncrementGeneration_error (Nat.le_of_not_lt hlt)] at h
    cases h

end NodeId
end Sqry

/-!
The node arena: generational slots with a free list threaded through the vacant
ones. The arena never looks at the entries it stores, so the entry type is a
parameter. Each operation returns the state it leaves, also when it reports an
error; `none` stands for a panic.
-/

namespace Sqry

inductive SlotState (α : Type) where
  | occupied (data : α)
  | vacant (nextFree : Option Nat)
  deriving DecidableEq, Repr

structure Slot (α : Type) where
  generation : Nat
  state : SlotState α
  deriving DecidableEq, Repr

namespace Slot
variable {α : Type}

def isOccupied (slot : Slot α) : Bool :=
  match slot.state with
  | .occupied _ => true
  | .vacant _ => false

def get (slot : Slot α) : Option α :=
  match slot.state with
  | .occupied data => some data
  | .vacant _ => none

def nextFree? (slot : Slot α) : Option (Option Nat) :=
  match slot.state with
  | .occupied _ => none
  | .vacant next => some next

def view (slot : Slot α) : Nat × Option α := (slot.generation, slot.get)

theorem isOccupied_eq_view (slot : Slot α) : slot.isOccupied = slot.view.2.isSome := by
  obtain ⟨g, s⟩ := slot
  cases s <;> rfl

end Slot

inductive ArenaError where
  | generationOverflow (e : GenerationOverflowError)
  | freeListCorruption (index : Nat)
  | capacityExceeded
  deriving DecidableEq, Repr

structure NodeArena (α : Type) where
  slots : List (Slot α)
  freeHead : Option Nat
  len : Nat
  deriving DecidableEq, Repr

namespace NodeArena
variable {α : Type}

def new : NodeArena α := ⟨[], none, 0⟩

def slotCount (a : NodeArena α) : Nat := a.slots.length

/-- The source counts the node first and takes the count back on every error. The
free-list head, once moved, is not put back when the generation overflows. -/
def alloc (a : NodeArena α) (entry : α) : NodeArena α × Except ArenaError NodeId :=
  match a.freeHead with
  | some freeIdx =>
    match a.slots[freeIdx]? with
    | none => (a, .error (.freeListCorruption freeIdx))
    | some slot =>
      match slot.state with
      | .occupied _ => (a, .error (.freeListCorruption freeIdx))
      | .vacant nextFree =>
        match (NodeId.mk freeIdx slot.generation).tryIncrementGeneration with
        | .error e =>
          ({ a with freeHead := nextFree },
            .error (.generationOverflow { e with index := freeIdx }))
        | .ok newGeneration =>
          ({ slots := a.slots.set freeIdx ⟨newGeneration, .occupied entry⟩
             freeHead := nextFree
             len := a.len + 1 },
            .ok ⟨freeIdx, newGeneration⟩)
  | none =>
    if a.slots.length > u32Max then
      (a, .error .capacityExceeded)
    else
      ({ a with slots := a.slots ++ [⟨1, .occupied entry⟩], len := a.len + 1 },
        .ok ⟨a.slots.length, 1⟩)

def get (a : NodeArena α) (id : NodeId) : Option α :=
  if id.isInvalid then none
  else
    match a.slots[id.index]? with
    | none => none
    | some slot => if slot.generation ≠ id.generation then none else slot.get

/-- The value behind the returned reference; writing through it replaces the data
of an occupied slot and nothing else. -/
def getMut (a : NodeArena α) (id : NodeId) : Option α :=
  if id.isInvalid then none
  else
    match a.slots[id.index]? with
    | none => none
    | some slot => if slot.generation ≠ id.generation then none else slot.get

def contains (a : NodeArena α) (id : NodeId) : Bool := (a.get id).isSome

def remove (a : NodeArena α) (id : NodeId) : NodeArena α × Option α :=
  if id.isInvalid then (a, none)
  else
    match a.slots[id.index]? with
    | none => (a, none)
    | some slot =>
      if slot.generation ≠ id.generation then (a, none)
      else
        match slot.state with
        | .occupied entry =>
          ({ slots := a.slots.set id.index ⟨slot.generation, .vacant a.freeHead⟩
             freeHead := some id.index
             len := a.len - 1 }, some entry)
        | .vacant _ => (a, none)

def allocRange (a : NodeArena α) (count : Nat) (placeholder : α) :
    Option (NodeArena α × Except ArenaError Nat) :=
  if count = 0 then
    if a.slots.length ≤ u32Max then some (a, .ok a.slots.length) else none
  else if a.slots.length + count > u32Max + 1 then
    some (a, .error .capacityExceeded)
  else
    some ({ a with
      slots := a.slots ++ List.replicate count ⟨1, .occupied placeholder⟩
      len := a.len + count }, .ok a.slots.length)

/-- The loop `for i in (0..cutoff).rev()` of `rebuild_free_list_after_truncate`, from
the iteration that handles index `i - 1` on. -/
def rebuildFreeListFrom : Nat → List (Slot α) → Option Nat → List (Slot α) × Option Nat
  | 0, slots, newHead => (slots, newHead)
  | i + 1, slots, newHead =>
    match slots[i]? with
    | some ⟨generation, .vacant _⟩ =>
      rebuildFreeListFrom i (slots.set i ⟨generation, .vacant newHead⟩) (some i)
    | _ => rebuildFreeListFrom i slots newHead

def rebuildFreeListAfterTruncate (a : NodeArena α) (cutoff : Nat) : NodeArena α :=
  { a with
    slots := (rebuildFreeListFrom cutoff a.slots none).1
    freeHead := (rebuildFreeListFrom cutoff a.slots none).2 }

def truncateTo (a : NodeArena α) (savedSlotCount : Nat) : Option (NodeArena α) :=
  if savedSlotCount > a.slots.length then none
  else
    let droppedOccupied := (a.slots.drop savedSlotCount).countP Slot.isOccupied
    some (rebuildFreeListAfterTruncate
      { a with slots := a.slots.take savedSlotCount, len := a.len - droppedOccupied }
      savedSlotCount)

def link (a : NodeArena α) (i : Nat) : Option (Option Nat) :=
  a.slots[i]?.bind Slot.nextFree?

/-- The representation invariant: `len` counts the occupied slots, and the chain from
`freeHead` visits every vacant slot exactly once and nothing else. -/
structure Represents (a : NodeArena α) : Prop where
  len_eq : a.len = a.slots.countP Slot.isOccupied
  freeList : FreeList.Complete a.link a.freeHead

theorem getMut_eq_get (a : NodeArena α) (id : NodeId) : a.getMut id = a.get id := rfl

theorem get_eq_some {a : NodeArena α} {id : NodeId} {entry : α} (h : a.get id = some entry) :
    ∃ slot, a.slots[id.index]? = some slot ∧ slot.generation = id.generation ∧
      slot.get = some entry := by
  unfold get at h
  split at h
  · cases h
  · split at h
    · cases h
    · rename_i slot hslot
      split at h
      · cases h
      · rename_i hgen
        exact ⟨slot, hslot, not_not.mp hgen, h⟩

end NodeArena
end Sqry
