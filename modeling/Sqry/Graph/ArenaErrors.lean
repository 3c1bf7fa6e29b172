import Mathlib.Data.List.GetD
import Sqry.Graph.ArenaInvariant

/-!
The two ends of the arena's range: what a failed allocation leaves behind, and whether the
last slots that the capacity checks admit can be addressed.
-/

namespace Sqry.NodeArena
variable {α : Type}

section FailedAlloc
variable {a : NodeArena α}

end FailedAlloc
section Sentinel

inductive AllocRequest (α : Type) where
  | one (entry : α)
  | range (count : Nat) (placeholder : α)

/-- Every identifier that the request hands out resolves to what was stored, and no request
for an empty range panics, then or afterwards. -/
def Resolves (a : NodeArena α) : AllocRequest α → Prop
  | .one entry =>
    (∀ a' id, a.alloc entry = (a', .ok id) → a'.get id = some entry) ∧
    ∀ filler, (a.alloc entry).1.allocRange 0 filler ≠ none
  | .range count placeholder =>
    a.allocRange count placeholder ≠ none ∧
    (∀ a' start, a.allocRange count placeholder = some (a', .ok start) → ∀ i < count,
      NodeId.isInvalid ⟨start + i, 1⟩ = false ∧ a'.get ⟨start + i, 1⟩ = some placeholder) ∧
    ∀ a' r, a.allocRange count placeholder = some (a', r) → ∀ filler,
      a'.allocRange 0 filler ≠ none

def appended (a : NodeArena α) : AllocRequest α → Nat
  | .one _ => if a.freeHead.isNone then 1 else 0
  | .range count _ => count

variable {a : NodeArena α}

theorem allocRange_zero_ne_none {filler : α} :
    a.allocRange 0 filler ≠ none ↔ a.slots.length ≤ u32Max := by
  rw [allocRange, if_pos rfl]
  split
  next hle => exact ⟨fun _ => hle, fun _ => Option.some_ne_none _⟩
  next hgt => exact ⟨fun h => absurd rfl h, fun h => absurd h hgt⟩

theorem get_of_slot {i g : Nat} {entry : α} (hi : i ≠ u32Max)
    (hslot : a.slots[i]? = some ⟨g, .occupied entry⟩) : a.get ⟨i, g⟩ = some entry := by
  have hvalid : NodeId.isInvalid ⟨i, g⟩ = false := by
    rw [NodeId.isInvalid, beq_eq_false_iff_ne]
    exact hi
  rw [get, hvalid]
  simp only [hslot, Bool.false_eq_true, if_false, ne_eq, not_true_eq_false]
  rfl

theorem get_sentinel (a : NodeArena α) (g : Nat) : a.get ⟨u32Max, g⟩ = none := by
  have hinvalid : NodeId.isInvalid ⟨u32Max, g⟩ = true := by
    rw [NodeId.isInvalid, beq_iff_eq]
  rw [get, if_pos hinvalid]

theorem alloc_reuse {a a' : NodeArena α} {i : Nat} {entry : α} {r : Except ArenaError NodeId}
    (hhead : a.freeHead = some i) (h : a.alloc entry = (a', r)) :
    a'.slots.length = a.slots.length ∧ ∀ id, r = .ok id →
      id.index < a.slots.length ∧ a'.slots[id.index]? = some ⟨id.generation, .occupied entry⟩ := by
  rw [alloc] at h
  simp only [hhead] at h
  cases hslot : a.slots[i]? with
  | none =>
    simp only [hslot] at h
    cases h
    exact ⟨rfl, fun id hid => by cases hid⟩
  | some slot =>
    have hi : i < a.slots.length := (List.getElem?_eq_some_iff.mp hslot).1
    simp only [hslot] at h
    split at h
    · cases h
      exact ⟨rfl, fun id hid => by cases hid⟩
    · split at h
      · cases h
        exact ⟨rfl, fun id hid => by cases hid⟩
      · cases h
        refine ⟨List.length_set, fun id hid => ?_⟩
        cases hid
        exact ⟨hi, List.getElem?_set_self hi⟩

theorem alloc_append (entry : α) (hhead : a.freeHead = none) (hroom : a.slots.length ≤ u32Max) :
    a.alloc entry = ({ a with slots := a.slots ++ [⟨1, .occupied entry⟩], len := a.len + 1 },
      .ok ⟨a.slots.length, 1⟩) := by
  rw [alloc]
  simp only [hhead, if_neg (Nat.not_lt_of_le hroom)]

theorem alloc_full (entry : α) (hhead : a.freeHead = none) (hfull : u32Max < a.slots.length)
    : a.alloc entry = (a, .error .capacityExceeded) := by
  rw [alloc]
  simp only [hhead, if_pos hfull]

theorem resolves_one_iff (entry : α) :
    a.Resolves (.one entry) ↔
      a.slots.length ≤ u32Max ∧ a.slots.length + a.appended (.one entry) ≠ u32Max + 1 := by
  cases hhead : a.freeHead with
  | some i =>
    have hgrow : a.appended (.one entry) = 0 := by rw [appended, hhead]; rfl
    obtain ⟨a₁, r, halloc⟩ : ∃ a₁ r, a.alloc entry = (a₁, r) := ⟨_, _, rfl⟩
    obtain ⟨hlen, hok⟩ := alloc_reuse hhead halloc
    rw [hgrow, Resolves, halloc]
    constructor
    · intro ⟨_, hrange⟩
      have hle := allocRange_zero_ne_none.mp (hrange entry)
      rw [hlen] at hle
      exact ⟨hle, by omega⟩
    · intro ⟨hle, _⟩
      refine ⟨fun a' id hid => ?_, fun filler => ?_⟩
      · cases hid
        obtain ⟨hlt, hslot⟩ := hok id rfl
        exact get_of_slot (by omega) hslot
      · rw [allocRange_zero_ne_none, hlen]
        exact hle
  | none =>
    have hgrow : a.appended (.one entry) = 1 := by rw [appended, hhead]; rfl
    rw [hgrow, Resolves]
    by_cases hroom : a.slots.length ≤ u32Max
    · rw [alloc_append entry hhead hroom]
      constructor
      · intro ⟨hget, _⟩
        refine ⟨hroom, fun htop => ?_⟩
        have hlast : a.slots.length = u32Max := by omega
        have hstored := hget _ _ rfl
        rw [hlast, get_sentinel] at hstored
        cases hstored
      · intro ⟨_, hne⟩
        refine ⟨fun a' id hid => ?_, fun filler => ?_⟩
        · cases hid
          exact get_of_slot (by omega) List.getElem?_concat_length
        · rw [allocRange_zero_ne_none, List.length_append, List.length_singleton]
          omega
    · rw [alloc_full entry hhead (Nat.lt_of_not_le hroom)]
      constructor
      · intro ⟨_, hrange⟩
        exact absurd (allocRange_zero_ne_none.mp (hrange entry)) hroom
      · intro ⟨hle, _⟩
        exact absurd hle hroom

theorem resolves_range_iff (hslots : a.slots.length ≤ u32Max + 1) (count : Nat) (placeholder : α) :
    a.Resolves (.range count placeholder) ↔
      a.slots.length ≤ u32Max ∧ a.slots.length + count ≠ u32Max + 1 := by
  rw [Resolves]
  by_cases hzero : count = 0
  · cases hzero
    constructor
    · intro ⟨hsome, _⟩
      have hle := allocRange_zero_ne_none.mp hsome
      exact ⟨hle, by omega⟩
    · intro ⟨hle, _⟩
      refine ⟨allocRange_zero_ne_none.mpr hle, fun _ _ _ i hi => absurd hi (Nat.not_lt_zero i),
        fun a' r heq filler => ?_⟩
      rw [allocRange, if_pos rfl, if_pos hle] at heq
      cases heq
      exact allocRange_zero_ne_none.mpr hle
  · by_cases hbig : a.slots.length + count > u32Max + 1
    · rw [allocRange, if_neg hzero, if_pos hbig]
      constructor
      · intro ⟨_, _, hrange⟩
        exact ⟨allocRange_zero_ne_none.mp (hrange a _ rfl placeholder), by omega⟩
      · intro ⟨hle, _⟩
        refine ⟨Option.some_ne_none _, fun a' start heq => (by cases heq),
          fun a' r heq filler => ?_⟩
        cases heq
        exact allocRange_zero_ne_none.mpr hle
    · rw [allocRange, if_neg hzero, if_neg hbig]
      have hslot : ∀ i < count, (a.slots ++ List.replicate count
          (⟨1, .occupied placeholder⟩ : Slot α))[a.slots.length + i]? =
          some ⟨1, .occupied placeholder⟩ := by
        intro i hi
        rw [List.getElem?_append_right (Nat.le_add_right _ _), Nat.add_sub_cancel_left,
          List.getElem?_replicate, if_pos hi]
      constructor
      · intro ⟨_, hids, hrange⟩
        have hle := allocRange_zero_ne_none.mp (hrange _ _ rfl placeholder)
        rw [List.length_append, List.length_replicate] at hle
        exact ⟨by omega, by omega⟩
      · intro ⟨hle, hne⟩
        refine ⟨Option.some_ne_none _, fun a' start heq i hi => ?_, fun a' r heq filler => ?_⟩
        · cases heq
          refine ⟨?_, get_of_slot (by omega) (hslot i hi)⟩
          rw [NodeId.isInvalid, beq_eq_false_iff_ne]
          show a.slots.length + i ≠ u32Max
          omega
        · cases heq
          rw [allocRange_zero_ne_none, List.length_append, List.length_replicate]
          omega

/-- Every identifier handed out resolves, exactly while the slots stay below the sentinel. -/
theorem handed_out_ids_resolve_iff {a : NodeArena α} (hslots : a.slots.length ≤ u32Max + 1)
    (request : AllocRequest α) :
    a.Resolves request ↔
      a.slots.length ≤ u32Max ∧ a.slots.length + a.appended request ≠ u32Max + 1 := by
  cases request with
  | one entry => exact resolves_one_iff entry
  | range count placeholder => exact resolves_range_iff hslots count placeholder

theorem handed_out_ids_resolve_first : (new : NodeArena Nat).Resolves (.range 2 7) :=
  (handed_out_ids_resolve_iff (by decide) (.range 2 7)).mpr (by decide)

def full : NodeArena Nat :=
  ⟨List.replicate u32Max ⟨1, .occupied 0⟩, none, u32Max⟩

theorem last_slot_unaddressable :
    full.slots.length = u32Max ∧ (full.alloc 7).2 = .ok ⟨u32Max, 1⟩ ∧
      (full.alloc 7).1.get ⟨u32Max, 1⟩ = none ∧ (full.alloc 7).1.allocRange 0 7 = none := by
  have hlen : full.slots.length = u32Max := List.length_replicate
  have halloc := alloc_append 7 (a := full) rfl (Nat.le_of_eq hlen)
  rw [halloc, hlen]
  refine ⟨rfl, rfl, get_sentinel _ 1, ?_⟩
  by_contra hsome
  have hle := allocRange_zero_ne_none.mp hsome
  rw [List.length_append, hlen] at hle
  exact absurd hle (by decide)

end Sentinel
end Sqry.NodeArena
