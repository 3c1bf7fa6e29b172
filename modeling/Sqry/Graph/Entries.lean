import Sqry.Graph.ArenaInvariant
import Sqry.Graph.Node

/-!
The entries of an arena as a partial function of their identifiers, and what the operations
of the arena do to it.
-/

namespace Sqry

namespace NodeArena
variable {α : Type}

def entryAt (a : NodeArena α) (id : NodeId) : Option α :=
  a.slots[id.index]?.bind fun slot => if slot.generation = id.generation then slot.get else none

/-- Writes through the reference `getMut` returns. -/
def write (a : NodeArena α) (id : NodeId) (entry : α) : NodeArena α :=
  { a with slots := a.slots.modify id.index fun slot => ⟨slot.generation, .occupied entry⟩ }

def mapSlot (f : α → α) (slot : Slot α) : Slot α :=
  match slot.state with
  | .occupied entry => ⟨slot.generation, .occupied (f entry)⟩
  | .vacant _ => slot

/-- `for (_, entry) in arena.iter_mut()`. -/
def mapEntries (a : NodeArena α) (f : α → α) : NodeArena α :=
  { a with slots := a.slots.map (mapSlot f) }

def removeAll (a : NodeArena α) (ids : List NodeId) : NodeArena α :=
  ids.foldl (fun a id => (a.remove id).1) a

def Bounded (a : NodeArena α) : Prop := a.slots.length ≤ u32Max + 1

theorem bounded_new : (new : NodeArena α).Bounded := Nat.zero_le _

variable {a : NodeArena α} {id : NodeId} {entry : α}

theorem entryAt_eq_some :
    a.entryAt id = some entry ↔ a.Holds id entry := by
  simp only [entryAt, Holds, Option.bind_eq_some_iff]
  constructor
  · intro ⟨slot, hslot, hget⟩
    by_cases hgen : slot.generation = id.generation
    · rw [if_pos hgen] at hget
      exact ⟨slot, hslot, hgen, hget⟩
    · rw [if_neg hgen] at hget
      cases hget
  · intro ⟨slot, hslot, hgen, hget⟩
    exact ⟨slot, hslot, by rw [if_pos hgen]; exact hget⟩

theorem mem_iter_iff (h : a.Bounded) :
    (id, entry) ∈ a.iter ↔ a.entryAt id = some entry := by
  rw [mem_iter, entryAt_eq_some]
  constructor
  · intro hmem
    exact hmem.2
  · intro hholds
    refine ⟨?_, hholds⟩
    obtain ⟨slot, hslot, _⟩ := hholds
    have hlt : id.index < a.slots.length := (List.getElem?_eq_some_iff.mp hslot).1
    exact Nat.le_of_lt_succ (Nat.lt_of_lt_of_le hlt h)

theorem get_eq (a : NodeArena α) (id : NodeId) :
    a.get id = if id.isInvalid then none else a.entryAt id := by
  rw [get, entryAt]
  by_cases hinvalid : id.isInvalid
  · rw [if_pos hinvalid, if_pos hinvalid]
  · rw [if_neg hinvalid, if_neg hinvalid]
    cases a.slots[id.index]? with
    | none => rfl
    | some slot =>
      by_cases hgen : slot.generation = id.generation
      · simp [hgen]
      · simp [hgen]

theorem entryAt_of_get (h : a.get id = some entry) :
    a.entryAt id = some entry := entryAt_eq_some.mpr (holds_of_get h)

theorem entryAt_eq_view (a : NodeArena α) (id : NodeId) :
    a.entryAt id = (a.slots.map Slot.view)[id.index]?.bind
      fun view => if view.1 = id.generation then view.2 else none := by
  rw [entryAt, List.getElem?_map]
  cases a.slots[id.index]? with
  | none => rfl
  | some slot => rfl

theorem nodeId_ext {id id' : NodeId} (hindex : id.index = id'.index)
    (hgen : id.generation = id'.generation) : id = id' := by
  cases id
  cases id'
  cases hindex
  cases hgen
  rfl

theorem entryAt_of_view_set {a a' : NodeArena α} {g : Nat} {old new : Option α}
    (hold : (a.slots.map Slot.view)[id.index]? = some (g, old))
    (hset : a'.slots.map Slot.view = (a.slots.map Slot.view).set id.index (id.generation, new))
    (hsame : g = id.generation ∨ old = none) :
    a'.entryAt = Function.update a.entryAt id new := by
  have hlt : id.index < (a.slots.map Slot.view).length := (List.getElem?_eq_some_iff.mp hold).1
  funext other
  rw [entryAt_eq_view, hset, List.getElem?_set]
  by_cases hindex : id.index = other.index
  · rw [if_pos hindex, if_pos (hindex ▸ hlt), Option.bind_some]
    by_cases hgen : id.generation = other.generation
    · rw [if_pos hgen, nodeId_ext hindex hgen, Function.update_self]
    · have hne : other ≠ id := fun heq => hgen (by rw [heq])
      rw [if_neg hgen, Function.update_of_ne hne, entryAt_eq_view, ← hindex, hold,
        Option.bind_some]
      by_cases hother : g = other.generation
      · rw [if_pos hother]
        exact (hsame.resolve_left fun heq => hgen (heq.symm.trans hother)).symm
      · rw [if_neg hother]
  · have hne : other ≠ id := fun heq => hindex (by rw [heq])
    rw [if_neg hindex, Function.update_of_ne hne, entryAt_eq_view]

theorem bounded_alloc (h : a.Bounded) (entry : α) :
    (a.alloc entry).1.Bounded := by
  simp only [alloc]
  cases a.freeHead with
  | none =>
    by_cases hfull : a.slots.length > u32Max
    · simpa only [if_pos hfull] using h
    · simp only [if_neg hfull, Bounded, List.length_append, List.length_singleton]
      omega
  | some freeIdx =>
    cases hslot : a.slots[freeIdx]? with
    | none => simpa only [hslot] using h
    | some slot =>
      obtain ⟨generation, state⟩ := slot
      cases state with
      | occupied data => simpa only [hslot] using h
      | vacant next =>
        cases hnext : (NodeId.mk freeIdx generation).tryIncrementGeneration with
        | error e => simpa only [hslot, hnext, Bounded] using h
        | ok newGeneration =>
          simp only [hslot, hnext, Bounded, List.length_set]
          exact h

theorem entryAt_alloc_ok (hok : (a.alloc entry).2 = .ok id) : a.entryAt id = none ∧
      (a.alloc entry).1.entryAt = Function.update a.entryAt id (some entry) := by
  cases view_alloc a entry with
  | inl herror =>
    obtain ⟨e, hresult, _⟩ := herror
    rw [hresult] at hok
    cases hok
  | inr hstored =>
    cases hstored with
    | inl hreused =>
      obtain ⟨i, g, hresult, hold, hset⟩ := hreused
      rw [hresult] at hok
      cases hok
      refine ⟨?_, entryAt_of_view_set hold hset (Or.inr rfl)⟩
      rw [entryAt_eq_view]
      simp only [hold, Option.bind_some, ite_self]
    | inr happended =>
      obtain ⟨hresult, hset⟩ := happended
      rw [hresult] at hok
      cases hok
      have hnone : a.entryAt ⟨a.slots.length, 1⟩ = none := by
        simp only [entryAt, List.getElem?_eq_none (Nat.le_refl _), Option.bind_none]
      refine ⟨hnone, ?_⟩
      funext other
      rw [entryAt_eq_view, hset]
      by_cases hindex : other.index = a.slots.length
      · have hview : (a.slots.map Slot.view ++ [(1, some entry)])[other.index]? =
            some (1, some entry) := by
          rw [hindex, ← List.length_map Slot.view, List.getElem?_concat_length]
        rw [hview, Option.bind_some]
        by_cases hgen : 1 = other.generation
        · have heq : other = ⟨a.slots.length, 1⟩ := nodeId_ext hindex hgen.symm
          rw [if_pos hgen, heq, Function.update_self]
        · have hne : other ≠ ⟨a.slots.length, 1⟩ := fun heq => hgen (by rw [heq])
          rw [if_neg hgen, Function.update_of_ne hne]
          simp only [entryAt, List.getElem?_eq_none (Nat.le_of_eq hindex.symm),
            Option.bind_none]
      · have hne : other ≠ ⟨a.slots.length, 1⟩ := fun heq => hindex (by rw [heq])
        rw [Function.update_of_ne hne, entryAt_eq_view]
        by_cases hlt : other.index < a.slots.length
        · rw [List.getElem?_append_left (by rw [List.length_map]; exact hlt)]
        · have hle : a.slots.length + 1 ≤ other.index := by omega
          rw [List.getElem?_eq_none, List.getElem?_eq_none]
          · rw [List.length_map]
            omega
          · rw [List.length_append, List.length_map, List.length_singleton]
            exact hle

theorem entryAt_alloc_error {e : ArenaError} (herror : (a.alloc entry).2 = .error e)
    : (a.alloc entry).1.entryAt = a.entryAt := by
  cases view_alloc a entry with
  | inl hsame =>
    obtain ⟨_, _, hslots⟩ := hsame
    funext id
    rw [entryAt, hslots]
    rfl
  | inr hstored =>
    cases hstored with
    | inl hreused =>
      obtain ⟨i, g, hresult, _⟩ := hreused
      rw [hresult] at herror
      cases herror
    | inr happended =>
      rw [happended.1] at herror
      cases herror

theorem remove_cases (a : NodeArena α) (id : NodeId) :
    a.remove id = (a, none) ∨ ∃ entry, (a.remove id).2 = some entry ∧
      a.entryAt id = some entry ∧
      (a.remove id).1.entryAt = Function.update a.entryAt id none ∧
      (a.remove id).1.slots.length = a.slots.length := by
  cases view_remove a id with
  | inl hsame => exact Or.inl hsame
  | inr htaken =>
    obtain ⟨entry, hresult, hold, hset⟩ := htaken
    refine Or.inr ⟨entry, hresult, ?_, entryAt_of_view_set hold hset (Or.inl rfl), ?_⟩
    · rw [entryAt_eq_view, hold, Option.bind_some, if_pos rfl]
    · have hlength := congrArg List.length hset
      simpa only [List.length_set, List.length_map] using hlength

theorem bounded_remove (h : a.Bounded) (id : NodeId) :
    (a.remove id).1.Bounded := by
  cases remove_cases a id with
  | inl hsame =>
    rw [hsame]
    exact h
  | inr htaken =>
    obtain ⟨_, _, _, _, hlength⟩ := htaken
    rw [Bounded, hlength]
    exact h

theorem get_remove (a : NodeArena α) (id other : NodeId) :
    (a.remove id).1.get other = if other = id then none else a.get other := by
  by_cases hother : other = id
  · rw [if_pos hother, hother]
    cases remove_cases a id with
    | inr htaken =>
      obtain ⟨_, _, _, hentryAt, _⟩ := htaken
      rw [get_eq, hentryAt, Function.update_self, ite_self]
    | inl hsame =>
      -- what the arena holds under a valid identifier is taken
      cases hget : a.get id with
      | none =>
        rw [hsame]
        exact hget
      | some entry =>
        obtain ⟨hvalid, slot, hslot, hgen, hentry⟩ := get_eq_some_iff.mp hget
        obtain ⟨generation, state⟩ := slot
        cases state with
        | vacant next => cases hentry
        | occupied data =>
          have hinvalid : id.isInvalid = false := by simpa [NodeId.isInvalid] using hvalid
          simp only at hgen
          simp [remove, hinvalid, hslot, hgen] at hsame
  · rw [if_neg hother]
    cases remove_cases a id with
    | inl hsame => rw [hsame]
    | inr htaken =>
      obtain ⟨_, _, _, hentryAt, _⟩ := htaken
      rw [get_eq, get_eq, hentryAt, Function.update_of_ne hother]

theorem get_removeAll (a : NodeArena α) (ids : List NodeId) (other : NodeId) :
    (a.removeAll ids).get other = if other ∈ ids then none else a.get other := by
  induction ids generalizing a with
  | nil => rfl
  | cons id ids ih =>
    have hstep : a.removeAll (id :: ids) = (a.remove id).1.removeAll ids := rfl
    rw [hstep, ih, get_remove]
    by_cases hother : other = id
    · rw [if_pos hother, ite_self, if_pos (List.mem_cons.mpr (.inl hother))]
    · rw [if_neg hother]
      simp only [List.mem_cons, hother, false_or]

theorem entryAt_write {old : α} (h : a.entryAt id = some old) (entry : α)
    : (a.write id entry).entryAt = Function.update a.entryAt id (some entry) := by
  obtain ⟨slot, hslot, hgen, hget⟩ := entryAt_eq_some.mp h
  have hold : (a.slots.map Slot.view)[id.index]? = some (id.generation, some old) := by
    rw [List.getElem?_map, hslot, Option.map_some, Slot.view, hgen, hget]
  refine entryAt_of_view_set hold ?_ (Or.inl rfl)
  have hmodify : a.slots.modify id.index (fun slot => ⟨slot.generation, .occupied entry⟩) =
      a.slots.set id.index ⟨slot.generation, .occupied entry⟩ := by
    rw [List.modify_eq_set_getElem?, hslot]
    rfl
  rw [write, hmodify, List.map_set, ← hgen]
  rfl

theorem bounded_write (h : a.Bounded) (id : NodeId) (entry : α) :
    (a.write id entry).Bounded := by
  simpa only [Bounded, write, List.length_modify] using h

theorem entryAt_mapEntries (a : NodeArena α) (f : α → α) (id : NodeId) :
    (a.mapEntries f).entryAt id = (a.entryAt id).map f := by
  simp only [entryAt, mapEntries, List.getElem?_map]
  cases a.slots[id.index]? with
  | none => rfl
  | some slot =>
    obtain ⟨generation, state⟩ := slot
    cases state with
    | occupied entry =>
      by_cases hgen : generation = id.generation
      · simp [mapSlot, Slot.get, hgen]
      · simp [mapSlot, hgen]
    | vacant next => simp [mapSlot, Slot.get]

theorem bounded_mapEntries (h : a.Bounded) (f : α → α) :
    (a.mapEntries f).Bounded := by
  simpa only [Bounded, mapEntries, List.length_map] using h

end NodeArena
end Sqry
