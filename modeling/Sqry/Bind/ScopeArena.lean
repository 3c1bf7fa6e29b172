import Sqry.Graph.Entries

/-!
The arena of scopes: slots with generations and a free list. A scope is a part of a file that
a node introduces; its parent is the handle of the scope around it.
-/

namespace Sqry

inductive ScopeKind where
  | module | function | «class» | namespaceScope | trait | impl
  deriving DecidableEq, Repr

structure ScopeId where
  index : Nat
  generation : Nat
  deriving DecidableEq, Repr

namespace ScopeId

def INVALID : ScopeId := ⟨u32Max, 0⟩

def isInvalid (id : ScopeId) : Bool := id.index = u32Max

end ScopeId

structure Scope where
  kind : ScopeKind
  parent : ScopeId
  node : NodeId
  byteSpan : Nat × Nat
  file : FileId
  deriving DecidableEq, Repr

inductive ScopeArenaError where
  | staleHandle
  deriving DecidableEq, Repr

structure ScopeArena where
  slots : List (Slot Scope)
  freeHead : Option Nat
  len : Nat
  deriving DecidableEq, Repr

namespace ScopeArena

def new : ScopeArena := ⟨[], none, 0⟩

def slotCount (a : ScopeArena) : Nat := a.slots.length

/-- `none` where the source panics: a free list that leads to an occupied slot, or an index that
is no `u32`. -/
def allocate (a : ScopeArena) (scope : Scope) : Option (ScopeArena × ScopeId) :=
  match a.freeHead with
  | some freeIdx =>
    match a.slots[freeIdx]? with
    | none => none
    | some slot =>
      match slot.state with
      | .occupied _ => none
      | .vacant nextFree =>
        some ({ slots := a.slots.set freeIdx
                  ⟨saturatingSucc slot.generation, .occupied scope⟩
                freeHead := nextFree
                len := a.len + 1 },
          ⟨freeIdx, saturatingSucc slot.generation⟩)
  | none =>
    if a.slots.length ≤ u32Max then
      some ({ a with slots := a.slots ++ [⟨1, .occupied scope⟩], len := a.len + 1 },
        ⟨a.slots.length, 1⟩)
    else none

def free (a : ScopeArena) (id : ScopeId) : ScopeArena :=
  if id.isInvalid then a
  else
    match a.slots[id.index]? with
    | none => a
    | some slot =>
      if slot.generation ≠ id.generation then a
      else
        match slot.state with
        | .vacant _ => a
        | .occupied _ =>
          { slots := a.slots.set id.index ⟨saturatingSucc slot.generation, .vacant a.freeHead⟩
            freeHead := some id.index
            len := a.len - 1 }

def get (a : ScopeArena) (id : ScopeId) : Option Scope :=
  if id.isInvalid then none
  else
    match a.slots[id.index]? with
    | none => none
    | some slot => if slot.generation ≠ id.generation then none else slot.get

def setParent (a : ScopeArena) (id parent : ScopeId) : Except ScopeArenaError ScopeArena :=
  if id.isInvalid then .error .staleHandle
  else
    match a.slots[id.index]? with
    | none => .error .staleHandle
    | some slot =>
      if slot.generation ≠ id.generation then .error .staleHandle
      else
        match slot.state with
        | .occupied scope =>
          .ok { a with
            slots := a.slots.set id.index
              ⟨slot.generation, .occupied { scope with parent := parent }⟩ }
        | .vacant _ => .error .staleHandle

def iterFrom : Nat → List (Slot Scope) → List (ScopeId × Scope)
  | _, [] => []
  | index, slot :: slots =>
    match slot.state with
    | .occupied scope => (⟨index, slot.generation⟩, scope) :: iterFrom (index + 1) slots
    | .vacant _ => iterFrom (index + 1) slots

def iter (a : ScopeArena) : List (ScopeId × Scope) := iterFrom 0 a.slots

def retainByNode (a : ScopeArena) (keep : NodeId → Bool) : ScopeArena :=
  (a.iter.filterMap fun p => if !keep p.2.node then some p.1 else none).foldl free a

end ScopeArena

/-- The loop that follows the parents; `none` when the steps run out. -/
def scopeChain (arena : ScopeArena) : Nat → ScopeId → Option (List ScopeId)
  | 0, _ => none
  | steps + 1, current =>
    if current.isInvalid then some []
    else
      match arena.get current with
      | none => some []
      | some scope => (scopeChain arena steps scope.parent).map fun chain => current :: chain

namespace ScopeArena

theorem get_eq_some {a : ScopeArena} {id : ScopeId} {scope : Scope} :
    a.get id = some scope ↔ id.isInvalid = false ∧ ∃ slot, a.slots[id.index]? = some slot ∧
      slot.generation = id.generation ∧ slot.get = some scope := by
  rw [get]
  cases hinvalid : id.isInvalid with
  | true => simp
  | false =>
    cases hslot : a.slots[id.index]? with
    | none => simp
    | some slot =>
      by_cases hgen : slot.generation = id.generation
      · simp [hgen]
      · simp [hgen]

theorem setParent_ok {a : ScopeArena} {id parent : ScopeId} {scope : Scope}
    (h : a.get id = some scope) : ∃ a', a.setParent id parent = .ok a' ∧
      a'.slots.length = a.slots.length ∧ a'.get id = some { scope with parent := parent } ∧
      ∀ other, other ≠ id → a'.get other = a.get other := by
  obtain ⟨hinvalid, slot, hslot, hgen, hget⟩ := get_eq_some.mp h
  obtain ⟨generation, state⟩ := slot
  cases state with
  | vacant next => cases hget
  | occupied data =>
    cases hget
    have hlt : id.index < a.slots.length := (List.getElem?_eq_some_iff.mp hslot).1
    have hok : a.setParent id parent = .ok { a with
        slots := a.slots.set id.index
          ⟨generation, .occupied { scope with parent := parent }⟩ } := by
      have hne : ¬ generation ≠ id.generation := fun hne => hne hgen
      simp only [setParent, hinvalid, hslot, if_neg hne]
      rfl
    refine ⟨_, hok, List.length_set, ?_, fun other hother => ?_⟩
    · refine get_eq_some.mpr
        ⟨hinvalid, ⟨generation, .occupied { scope with parent := parent }⟩, ?_, hgen, rfl⟩
      rw [List.getElem?_set_self hlt]
    · by_cases hindex : other.index = id.index
      · have hstale : other.generation ≠ generation := by
          intro heq
          apply hother
          cases other
          cases id
          simp only at hindex heq hgen
          rw [hindex, heq, hgen]
        rw [get, get, hindex, List.getElem?_set_self hlt, hslot]
        simp [hstale.symm]
      · rw [get, get, List.getElem?_set_ne (Ne.symm hindex)]

theorem mem_iterFrom {start : Nat} {slots : List (Slot Scope)} {id : ScopeId} {scope : Scope} :
    (id, scope) ∈ iterFrom start slots ↔ start ≤ id.index ∧ ∃ slot,
      slots[id.index - start]? = some slot ∧ slot.generation = id.generation ∧
        slot.get = some scope := by
  induction slots generalizing start with
  | nil => simp [iterFrom]
  | cons slot slots ih =>
    have hcons : (id, scope) ∈ iterFrom start (slot :: slots) ↔
        (id.index = start ∧ slot.generation = id.generation ∧ slot.get = some scope) ∨
          (id, scope) ∈ iterFrom (start + 1) slots := by
      obtain ⟨generation, state⟩ := slot
      obtain ⟨index, idGeneration⟩ := id
      cases state with
      | vacant next => simp [iterFrom, Slot.get]
      | occupied data =>
        simp only [iterFrom, Slot.get, List.mem_cons, Prod.mk.injEq, ScopeId.mk.injEq,
          Option.some.injEq]
        rw [and_assoc, eq_comm (a := data), eq_comm (a := generation)]
    rw [hcons, ih]
    constructor
    · intro h
      cases h with
      | inl hhere =>
        obtain ⟨hindex, hslot⟩ := hhere
        exact ⟨hindex.ge, slot, by rw [hindex, Nat.sub_self]; rfl, hslot⟩
      | inr hlater =>
        obtain ⟨hle, slot', hslot', hrest⟩ := hlater
        have hsub : id.index - start = id.index - (start + 1) + 1 := by omega
        exact ⟨by omega, slot', by rw [hsub, List.getElem?_cons_succ]; exact hslot', hrest⟩
    · intro h
      obtain ⟨hle, slot', hslot', hrest⟩ := h
      by_cases hindex : id.index = start
      · rw [hindex, Nat.sub_self] at hslot'
        cases hslot'
        exact .inl ⟨hindex, hrest⟩
      · have hsub : id.index - start = id.index - (start + 1) + 1 := by omega
        rw [hsub, List.getElem?_cons_succ] at hslot'
        exact .inr ⟨by omega, slot', hslot', hrest⟩

theorem mem_iter {a : ScopeArena} {id : ScopeId} {scope : Scope} :
    (id, scope) ∈ a.iter ↔ ∃ slot, a.slots[id.index]? = some slot ∧
      slot.generation = id.generation ∧ slot.get = some scope := by
  rw [iter, mem_iterFrom]
  simp

theorem nodup_iter (a : ScopeArena) : (a.iter.map fun p => p.1.index).Nodup := by
  have hfrom : ∀ (slots : List (Slot Scope)) (start : Nat),
      ((iterFrom start slots).map fun p => p.1.index).Nodup := by
    intro slots
    induction slots with
    | nil =>
      intro start
      exact List.nodup_nil
    | cons slot slots ih =>
      intro start
      obtain ⟨generation, state⟩ := slot
      cases state with
      | vacant next => exact ih (start + 1)
      | occupied scope =>
        rw [iterFrom, List.map_cons, List.nodup_cons]
        refine ⟨fun hmem => ?_, ih (start + 1)⟩
        obtain ⟨p, hp, hindex⟩ := List.mem_map.mp hmem
        have hle := (mem_iterFrom.mp hp).1
        simp only at hindex
        omega
  exact hfrom a.slots 0

theorem mem_iter_of_get {a : ScopeArena} {id : ScopeId} {scope : Scope}
    (h : a.get id = some scope) : (id, scope) ∈ a.iter :=
  mem_iter.mpr (get_eq_some.mp h).2

theorem get_of_mem_iter {a : ScopeArena} (hlen : a.slots.length ≤ u32Max) {id : ScopeId}
    {scope : Scope} (h : (id, scope) ∈ a.iter) : a.get id = some scope := by
  obtain ⟨slot, hslot, hrest⟩ := mem_iter.mp h
  have hlt := (List.getElem?_eq_some_iff.mp hslot).1
  refine get_eq_some.mpr ⟨?_, slot, hslot, hrest⟩
  rw [ScopeId.isInvalid, decide_eq_false_iff_not]
  omega

theorem get_free (a : ScopeArena) (id other : ScopeId) :
    (a.free id).get other = if other = id then none else a.get other := by
  have hstale : a.get id = none → a.free id = a →
      (a.free id).get other = if other = id then none else a.get other := by
    intro hnone hsame
    rw [hsame]
    by_cases heq : other = id
    · rw [if_pos heq, heq, hnone]
    · rw [if_neg heq]
  cases hinvalid : id.isInvalid with
  | true => exact hstale (by simp [get, hinvalid]) (by simp [free, hinvalid])
  | false =>
    cases hslot : a.slots[id.index]? with
    | none => exact hstale (by simp [get, hinvalid, hslot]) (by simp [free, hinvalid, hslot])
    | some slot =>
      by_cases hgen : slot.generation = id.generation
      · obtain ⟨generation, state⟩ := slot
        cases state with
        | vacant next =>
          exact hstale (by simp [get, hinvalid, hslot, Slot.get])
            (by simp [free, hinvalid, hslot])
        | occupied scope =>
          have hfree : (a.free id).slots =
              a.slots.set id.index ⟨saturatingSucc generation, .vacant a.freeHead⟩ := by
            simp only at hgen
            simp [free, hinvalid, hslot, hgen]
          have hlt : id.index < a.slots.length := (List.getElem?_eq_some_iff.mp hslot).1
          by_cases hindex : other.index = id.index
          · have hnone : (a.free id).get other = none := by
              rw [get, hfree, hindex, List.getElem?_set_self hlt]
              simp [Slot.get]
            rw [hnone]
            by_cases heq : other = id
            · rw [if_pos heq]
            · have hother : generation ≠ other.generation := by
                intro hsame
                apply heq
                cases other
                cases id
                simp only at hindex hgen hsame
                rw [hindex, ← hsame, hgen]
              rw [if_neg heq, get, hindex, hslot]
              simp [hother]
          · have hne : other ≠ id := fun heq => hindex (by rw [heq])
            rw [if_neg hne, get, get, hfree, List.getElem?_set_ne (Ne.symm hindex)]
      · exact hstale (by simp [get, hinvalid, hslot, hgen])
          (by simp [free, hinvalid, hslot, hgen])

theorem get_foldl_free (ids : List ScopeId) (a : ScopeArena) (other : ScopeId) :
    (ids.foldl free a).get other = if other ∈ ids then none else a.get other := by
  induction ids generalizing a with
  | nil => simp
  | cons id ids ih =>
    rw [List.foldl_cons, ih, get_free]
    by_cases hrest : other ∈ ids
    · rw [if_pos hrest, if_pos (List.mem_cons_of_mem id hrest)]
    · by_cases heq : other = id
      · rw [if_neg hrest, if_pos heq, if_pos (by rw [heq]; exact List.mem_cons_self)]
      · have hnot : other ∉ id :: ids := by
          intro hmem
          cases List.mem_cons.mp hmem with
          | inl hhead => exact heq hhead
          | inr htail => exact hrest htail
        rw [if_neg hrest, if_neg heq, if_neg hnot]

theorem get_retainByNode (a : ScopeArena) (keep : NodeId → Bool) (id : ScopeId) :
    (a.retainByNode keep).get id = (a.get id).filter fun scope => keep scope.node := by
  rw [retainByNode, get_foldl_free]
  cases hget : a.get id with
  | none => simp
  | some scope =>
    have hdropped : id ∈ (a.iter.filterMap fun p => if !keep p.2.node then some p.1 else none) ↔
        keep scope.node = false := by
      rw [List.mem_filterMap]
      constructor
      · intro h
        obtain ⟨p, hp, hid⟩ := h
        split at hid
        · rename_i hkeep
          cases hid
          obtain ⟨_, slot, hslot, hgen, hscope⟩ := get_eq_some.mp hget
          obtain ⟨slot', hslot', hgen', hscope'⟩ := mem_iter.mp hp
          rw [hslot] at hslot'
          cases hslot'
          rw [hscope] at hscope'
          cases hscope'
          simpa using hkeep
        · cases hid
      · intro h
        exact ⟨(id, scope), mem_iter_of_get hget, by simp [h]⟩
    cases hkeep : keep scope.node with
    | false => rw [if_pos (hdropped.mpr hkeep), Option.filter_some_neg (by simp [hkeep])]
    | true =>
      have hnot : ¬ (id ∈ a.iter.filterMap fun p => if !keep p.2.node then some p.1 else none) := by
        intro h
        rw [hdropped.mp h] at hkeep
        cases hkeep
      rw [if_neg hnot, Option.filter, hkeep]
      rfl

end ScopeArena

end Sqry
