import Mathlib.Data.List.TakeDrop
import Sqry.Graph.Arena

/-!
The representation invariant of the arena under each of its operations. Only one
branch breaks it: an `alloc` that pops a slot whose generation is used up.
-/

namespace Sqry.NodeArena
variable {α : Type}

def AllocFits (a : NodeArena α) : Prop :=
  ∀ i slot, a.freeHead = some i → a.slots[i]? = some slot →
    slot.generation < NodeId.MAX_GENERATION

theorem represents_new : Represents (new : NodeArena α) :=
  ⟨rfl, (FreeList.complete_none_iff _).mpr fun _ => rfl⟩

variable {slots : List (Slot α)} {a : NodeArena α}

theorem link_eq_of_slots {i : Nat} {slot : Slot α} (h : a.slots[i]? = some slot)
    : a.link i = slot.nextFree? := by
  simp [link, h]

theorem link_set (slots : List (Slot α)) (head : Option Nat) (n i : Nat) (slot : Slot α)
    (j : Nat) (hi : i < slots.length) :
    (NodeArena.mk (slots.set i slot) head n).link j =
      if j = i then slot.nextFree? else (slots[j]?.bind Slot.nextFree?) := by
  by_cases hji : j = i
  · subst hji
    simp [link, hi]
  · simp [link, List.getElem?_set_ne (Ne.symm hji), hji]

theorem countP_set_occupied {i : Nat} {old : Slot α} (h : slots[i]? = some old) (new : Slot α) :
    (slots.set i new).countP Slot.isOccupied + (if old.isOccupied then 1 else 0) =
      slots.countP Slot.isOccupied + (if new.isOccupied then 1 else 0) := by
  obtain ⟨hi, hget⟩ := List.getElem?_eq_some_iff.mp h
  rw [List.countP_set hi, hget]
  have hpos : (if old.isOccupied then 1 else 0) ≤ slots.countP Slot.isOccupied := by
    split
    · rename_i hocc
      exact List.one_le_countP_iff.mpr ⟨old, hget ▸ List.getElem_mem hi, hocc⟩
    · exact Nat.zero_le _
  omega

theorem represents_alloc_reuse (h : Represents a) {i g : Nat} {slot : Slot α} {next : Option Nat}
    (hhead : a.freeHead = some i) (hslot : a.slots[i]? = some slot)
    (hvac : slot.state = .vacant next) (entry : α) :
    Represents ⟨a.slots.set i ⟨g, .occupied entry⟩, next, a.len + 1⟩ := by
  have hi : i < a.slots.length := (List.getElem?_eq_some_iff.mp hslot).1
  have hlink : a.link i = some next := by
    rw [link_eq_of_slots hslot]
    simp [Slot.nextFree?, hvac]
  refine ⟨?_, ?_⟩
  · have hcount := countP_set_occupied hslot ⟨g, .occupied entry⟩
    have hold : slot.isOccupied = false := by simp [Slot.isOccupied, hvac]
    have hnew : (⟨g, .occupied entry⟩ : Slot α).isOccupied = true := rfl
    rw [hold, hnew] at hcount
    simp only [Bool.false_eq_true, if_false, if_true, Nat.add_zero] at hcount
    simpa [h.len_eq] using hcount.symm
  · apply FreeList.complete_pop (hhead ▸ h.freeList) hlink
    · rw [link_set _ _ _ _ _ _ hi, if_pos rfl]
      rfl
    · intro j hji
      rw [link_set _ _ _ _ _ _ hi, if_neg hji]
      rfl

theorem represents_append (h : Represents a) (more : List (Slot α))
    (hocc : ∀ slot ∈ more, slot.isOccupied = true) :
    Represents ⟨a.slots ++ more, a.freeHead, a.len + more.length⟩ := by
  refine ⟨?_, FreeList.complete_congr h.freeList fun i => ?_⟩
  · simp [h.len_eq, List.countP_append, List.countP_eq_length.mpr hocc]
  · by_cases hi : i < a.slots.length
    · simp [link, List.getElem?_append_left hi]
    · have hle : a.slots.length ≤ i := Nat.le_of_not_lt hi
      have hnone : a.slots[i]? = none := List.getElem?_eq_none hle
      simp only [link, List.getElem?_append_right hle, hnone, Option.bind_none]
      cases hm : more[i - a.slots.length]? with
      | none => rfl
      | some slot =>
        have := hocc slot (List.mem_of_getElem? hm)
        obtain ⟨g, s⟩ := slot
        cases s with
        | occupied data => rfl
        | vacant next => simp [Slot.isOccupied] at this

theorem represents_alloc (h : Represents a) (hfits : AllocFits a) (entry : α)
    : Represents (a.alloc entry).1 := by
  unfold alloc
  split
  · rename_i i hhead
    split
    · exact h
    · rename_i slot hslot
      split
      · exact h
      · rename_i next hvac
        rw [NodeId.tryIncrementGeneration_ok (hfits i slot hhead hslot)]
        exact represents_alloc_reuse h hhead hslot hvac entry
  · split
    · exact h
    · rename_i hhead _
      exact hhead ▸ represents_append h [⟨1, .occupied entry⟩] (by simp [Slot.isOccupied])

theorem represents_remove (h : Represents a) (id : NodeId) :
    Represents (a.remove id).1 := by
  unfold remove
  split
  · exact h
  · split
    · exact h
    · rename_i slot hslot
      split
      · exact h
      · split
        · rename_i entry hocc
          have hi : id.index < a.slots.length := (List.getElem?_eq_some_iff.mp hslot).1
          refine ⟨?_, ?_⟩
          · have hcount := countP_set_occupied hslot ⟨slot.generation, .vacant a.freeHead⟩
            have hold : slot.isOccupied = true := by simp [Slot.isOccupied, hocc]
            have hnew :
                (⟨slot.generation, .vacant a.freeHead⟩ : Slot α).isOccupied = false := rfl
            rw [hold, hnew] at hcount
            simp only [Bool.false_eq_true, if_false, if_true, Nat.add_zero] at hcount
            simp only [h.len_eq, ← hcount, Nat.add_sub_cancel]
          · apply FreeList.complete_push h.freeList
            · rw [link_eq_of_slots hslot]
              simp [Slot.nextFree?, hocc]
            · rw [link_set _ _ _ _ _ _ hi, if_pos rfl]
              rfl
            · intro j hji
              rw [link_set _ _ _ _ _ _ hi, if_neg hji]
              rfl
        · exact h

theorem view_alloc (a : NodeArena α) (entry : α) :
    (∃ e, (a.alloc entry).2 = .error e ∧ (a.alloc entry).1.slots = a.slots) ∨
    (∃ i g, (a.alloc entry).2 = .ok ⟨i, g + 1⟩ ∧
      (a.slots.map Slot.view)[i]? = some (g, none) ∧
      (a.alloc entry).1.slots.map Slot.view =
        (a.slots.map Slot.view).set i (g + 1, some entry)) ∨
    ((a.alloc entry).2 = .ok ⟨a.slots.length, 1⟩ ∧
      (a.alloc entry).1.slots.map Slot.view = a.slots.map Slot.view ++ [(1, some entry)]) := by
  unfold alloc
  split
  · rename_i i hhead
    split
    · exact Or.inl ⟨_, rfl, rfl⟩
    · rename_i slot hslot
      split
      · exact Or.inl ⟨_, rfl, rfl⟩
      · rename_i next hvac
        split
        · exact Or.inl ⟨_, rfl, rfl⟩
        · rename_i g hg
          obtain ⟨hg', -⟩ := NodeId.tryIncrementGeneration_eq_ok hg
          subst hg'
          refine Or.inr (Or.inl ⟨i, slot.generation, rfl, ?_, ?_⟩)
          · simp [hslot, Slot.view, Slot.get, hvac]
          · simp [List.map_set, Slot.view, Slot.get]
  · split
    · exact Or.inl ⟨_, rfl, rfl⟩
    · exact Or.inr (Or.inr ⟨rfl, by simp [Slot.view, Slot.get]⟩)

theorem view_remove (a : NodeArena α) (id : NodeId) :
    a.remove id = (a, none) ∨
    (∃ entry, (a.remove id).2 = some entry ∧
      (a.slots.map Slot.view)[id.index]? = some (id.generation, some entry) ∧
      (a.remove id).1.slots.map Slot.view =
        (a.slots.map Slot.view).set id.index (id.generation, none)) := by
  unfold remove
  split
  · exact Or.inl rfl
  · split
    · exact Or.inl rfl
    · rename_i slot hslot
      split
      · exact Or.inl rfl
      · rename_i hgen
        split
        · rename_i entry hocc
          have hgen : slot.generation = id.generation := not_not.mp hgen
          refine Or.inr ⟨entry, rfl, ?_, ?_⟩
          · simp [hslot, Slot.view, Slot.get, hocc, hgen]
          · simp [List.map_set, Slot.view, Slot.get, hgen]
        · exact Or.inl rfl

theorem represents_allocRange {a a' : NodeArena α} (h : Represents a) {count : Nat}
    {placeholder : α} {r : Except ArenaError Nat}
    (heq : a.allocRange count placeholder = some (a', r)) : Represents a' := by
  unfold allocRange at heq
  split at heq
  · split at heq
    · cases heq
      exact h
    · cases heq
  · split at heq
    · cases heq
      exact h
    · cases heq
      have := represents_append h (List.replicate count ⟨1, .occupied placeholder⟩)
        fun slot hs => by rw [List.eq_of_mem_replicate hs]; rfl
      simpa using this

theorem view_allocRange {a a' : NodeArena α} {count : Nat} {placeholder : α}
    {r : Except ArenaError Nat} (heq : a.allocRange count placeholder = some (a', r)) :
    ∃ more, a'.slots.map Slot.view = a.slots.map Slot.view ++ more := by
  unfold allocRange at heq
  split at heq
  · split at heq
    · cases heq
      exact ⟨[], (List.append_nil _).symm⟩
    · cases heq
  · split at heq
    · cases heq
      exact ⟨[], (List.append_nil _).symm⟩
    · cases heq
      exact ⟨_, List.map_append⟩

/-- The vacant slots from index `k` on, and only they, are linked from `head`. -/
def LinkedFrom (slots : List (Slot α)) (k : Nat) (head : Option Nat) : Prop :=
  ∃ path, FreeList.Chain (fun i => slots[i]?.bind Slot.nextFree?) head path ∧ path.Nodup ∧
    ∀ i, i ∈ path ↔ k ≤ i ∧ (slots[i]?.bind Slot.nextFree?).isSome

theorem linkedFrom_skip {k : Nat} {head : Option Nat} (h : LinkedFrom slots (k + 1) head)
    (hk : slots[k]?.bind Slot.nextFree? = none) :
    LinkedFrom slots k head := by
  obtain ⟨path, hchain, hnodup, hmem⟩ := h
  refine ⟨path, hchain, hnodup, fun i => ?_⟩
  rw [hmem i]
  constructor
  · rintro ⟨hle, hsome⟩
    exact ⟨by omega, hsome⟩
  · rintro ⟨hle, hsome⟩
    have hne : i ≠ k := fun hik => by simp [hik, hk] at hsome
    exact ⟨by omega, hsome⟩

theorem linkedFrom_push {k g : Nat} {head next : Option Nat} (h : LinkedFrom slots (k + 1) head)
    (hk : slots[k]? = some ⟨g, .vacant next⟩) :
    LinkedFrom (slots.set k ⟨g, .vacant head⟩) k (some k) := by
  obtain ⟨path, hchain, hnodup, hmem⟩ := h
  have hlt : k < slots.length := (List.getElem?_eq_some_iff.mp hk).1
  have hnot : k ∉ path := fun hin => by
    have := ((hmem k).mp hin).1
    omega
  have hself : (slots.set k ⟨g, .vacant head⟩)[k]? = some ⟨g, .vacant head⟩ := by simp [hlt]
  have hother : ∀ j, j ≠ k → (slots.set k ⟨g, .vacant head⟩)[j]? = slots[j]? :=
    fun j hj => List.getElem?_set_ne (Ne.symm hj)
  refine ⟨k :: path, ⟨rfl, head, ?_, FreeList.chain_congr hchain fun j hj => ?_⟩,
    List.nodup_cons.mpr ⟨hnot, hnodup⟩, fun i => ?_⟩
  · simp [hself, Slot.nextFree?]
  · rw [hother j fun hjk => hnot (hjk ▸ hj)]
  · by_cases hik : i = k
    · subst hik
      simp [hlt, Slot.nextFree?]
    · rw [hother i hik, List.mem_cons, hmem i]
      simp only [hik, false_or]
      constructor
      · rintro ⟨hle, hsome⟩
        exact ⟨by omega, hsome⟩
      · rintro ⟨hle, hsome⟩
        exact ⟨by omega, hsome⟩

theorem linkedFrom_rebuild {k : Nat} {head : Option Nat} (h : LinkedFrom slots k head) :
    LinkedFrom (rebuildFreeListFrom k slots head).1 0 (rebuildFreeListFrom k slots head).2 := by
  induction k generalizing slots head with
  | zero => exact h
  | succ k ih =>
    unfold rebuildFreeListFrom
    split
    · rename_i hk
      exact ih (linkedFrom_push h hk)
    · rename_i hk
      apply ih (linkedFrom_skip h _)
      cases hs : slots[k]? with
      | none => rfl
      | some slot =>
        obtain ⟨g, s⟩ := slot
        cases s with
        | occupied data => rfl
        | vacant next => exact absurd hs (hk g next)

theorem view_rebuild (k : Nat) (slots : List (Slot α)) (head : Option Nat) :
    (rebuildFreeListFrom k slots head).1.map Slot.view = slots.map Slot.view := by
  induction k generalizing slots head with
  | zero => rfl
  | succ k ih =>
    unfold rebuildFreeListFrom
    split
    · rename_i g next hk
      obtain ⟨hlt, hget⟩ := List.getElem?_eq_some_iff.mp hk
      rw [ih, List.map_set]
      have hlt : k < (slots.map Slot.view).length := by simpa using hlt
      have hview : (⟨g, .vacant head⟩ : Slot α).view = (slots.map Slot.view)[k] := by
        simp [hget, Slot.view, Slot.get]
      rw [hview, List.set_getElem_self]
    · exact ih slots head

theorem countP_isOccupied_of_view {xs ys : List (Slot α)}
    (h : xs.map Slot.view = ys.map Slot.view) :
    xs.countP Slot.isOccupied = ys.countP Slot.isOccupied := by
  have hview : (Slot.isOccupied : Slot α → Bool) = (fun v => v.2.isSome) ∘ Slot.view :=
    funext Slot.isOccupied_eq_view
  rw [hview, ← List.countP_map, ← List.countP_map, h]

theorem truncateTo_some {a a' : NodeArena α} {n : Nat} (h : a.truncateTo n = some a') :
    n ≤ a.slots.length ∧ a'.slots.map Slot.view = (a.slots.map Slot.view).take n := by
  unfold truncateTo at h
  split at h
  · cases h
  · rename_i hle
    cases h
    refine ⟨Nat.le_of_not_lt hle, ?_⟩
    rw [← List.map_take]
    exact view_rebuild n (a.slots.take n) none

theorem represents_truncateTo {a a' : NodeArena α} (h : Represents a) {n : Nat}
    (heq : a.truncateTo n = some a') : Represents a' := by
  have hview := (truncateTo_some heq).2
  unfold truncateTo at heq
  split at heq
  · cases heq
  · cases heq
    refine ⟨?_, ?_⟩
    · rw [← List.map_take] at hview
      rw [countP_isOccupied_of_view hview]
      have hsplit : a.slots.countP Slot.isOccupied =
          (a.slots.take n).countP Slot.isOccupied + (a.slots.drop n).countP Slot.isOccupied := by
        rw [← List.countP_append, List.take_append_drop]
      simp only [rebuildFreeListAfterTruncate, h.len_eq, hsplit, Nat.add_sub_cancel]
    · have hstart : LinkedFrom (a.slots.take n) n none := by
        refine ⟨[], rfl, List.nodup_nil, fun i => ?_⟩
        constructor
        · intro hin
          cases hin
        · rintro ⟨hle, hsome⟩
          have hnone : (a.slots.take n)[i]? = none :=
            List.getElem?_eq_none (by simp only [List.length_take]; omega)
          simp [hnone] at hsome
      obtain ⟨path, hchain, hnodup, hmem⟩ := linkedFrom_rebuild hstart
      refine ⟨path, hchain, hnodup, fun i => (hmem i).trans ?_⟩
      simp only [Nat.zero_le, true_and]
      rfl

end Sqry.NodeArena
