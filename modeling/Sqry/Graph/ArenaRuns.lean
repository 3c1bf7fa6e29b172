import Sqry.Graph.ArenaInvariant

/-!
Runs of arena operations, with the identifiers that `alloc` has handed out and those
among them that were removed since. The second list is the stale identifiers: none of
them may resolve again.
-/

namespace Sqry
variable {α : Type}

inductive ArenaOp (α : Type) where
  | alloc (entry : α)
  | remove (id : NodeId)
  | allocRange (count : Nat) (placeholder : α)
  | truncateTo (savedSlotCount : Nat)

structure ArenaHistory (α : Type) where
  arena : NodeArena α
  handed : List NodeId
  retired : List NodeId

namespace ArenaHistory

def start : ArenaHistory α := ⟨NodeArena.new, [], []⟩

def step (h : ArenaHistory α) : ArenaOp α → Option (ArenaHistory α)
  | .alloc entry =>
    match h.arena.alloc entry with
    | (a, .ok id) => some ⟨a, id :: h.handed, h.retired⟩
    | (a, .error _) => some { h with arena := a }
  | .remove id =>
    match h.arena.remove id with
    | (a, some _) =>
      some ⟨a, h.handed, if id ∈ h.handed then id :: h.retired else h.retired⟩
    | (a, none) => some { h with arena := a }
  | .allocRange count placeholder =>
    (h.arena.allocRange count placeholder).map fun r => { h with arena := r.1 }
  | .truncateTo n => (h.arena.truncateTo n).map fun a => { h with arena := a }

/-- A truncation is for rolling back bulk allocations: what it drops was not handed
out by `alloc`. -/
def TruncationFits (h : ArenaHistory α) : ArenaOp α → Prop
  | .truncateTo n => ∀ id ∈ h.handed, id.index < n
  | _ => True

/-- Besides, `alloc` does not meet a slot whose generation is used up. -/
def Fits (h : ArenaHistory α) (op : ArenaOp α) : Prop :=
  TruncationFits h op ∧ ∀ entry, op = .alloc entry → h.arena.AllocFits

/-- The slot of `id` has moved past it, or holds its generation and is vacant. -/
def Dead (slots : List (Nat × Option α)) (id : NodeId) : Prop :=
  ∃ v, slots[id.index]? = some v ∧
    (id.generation < v.1 ∨ (id.generation = v.1 ∧ v.2 = none))

structure Invariant (h : ArenaHistory α) : Prop where
  represents : h.arena.Represents
  retired_handed : ∀ id ∈ h.retired, id ∈ h.handed
  handed_bound : ∀ id ∈ h.handed, id.index < h.arena.slots.length
  retired_dead : ∀ id ∈ h.retired, Dead (h.arena.slots.map Slot.view) id

theorem invariant_start : Invariant (start : ArenaHistory α) := by
  refine ⟨NodeArena.represents_new, ?_, ?_, ?_⟩
  · intro id hid
    exact hid
  · intro id hid
    cases hid
  · intro id hid
    cases hid

variable {slots : List (Nat × Option α)} {h' : ArenaHistory α} {h : ArenaHistory α} {id : NodeId}
  {n : Nat}

theorem get_none_of_dead {a : NodeArena α} (h : Dead (a.slots.map Slot.view) id)
    : a.get id = none := by
  obtain ⟨v, hv, hdead⟩ := h
  rw [List.getElem?_map] at hv
  by_contra hne
  obtain ⟨entry, hget⟩ := Option.ne_none_iff_exists'.mp hne
  obtain ⟨slot, hslot, hgen, hdata⟩ := NodeArena.get_eq_some hget
  rw [hslot] at hv
  cases hv
  cases hdead with
  | inl hlt =>
    have hgen' : slot.view.1 = id.generation := hgen
    omega
  | inr hvac =>
    have hnone : slot.get = none := hvac.2
    rw [hnone] at hdata
    cases hdata

theorem dead_append {slots more : List (Nat × Option α)} (h : Dead slots id) :
    Dead (slots ++ more) id := by
  obtain ⟨v, hv, hdead⟩ := h
  have hlt := (List.getElem?_eq_some_iff.mp hv).1
  exact ⟨v, by rw [List.getElem?_append_left hlt, hv], hdead⟩

theorem dead_take (h : Dead slots id) (hlt : id.index < n) : Dead (slots.take n) id := by
  obtain ⟨v, hv, hdead⟩ := h
  exact ⟨v, by rw [List.getElem?_take_of_lt hlt, hv], hdead⟩

theorem dead_set_next {i g : Nat} {old data : Option α} (h : Dead slots id)
    (hi : slots[i]? = some (g, old)) :
    Dead (slots.set i (g + 1, data)) id := by
  obtain ⟨v, hv, hdead⟩ := h
  by_cases hii : i = id.index
  · subst hii
    rw [hi] at hv
    cases hv
    have hlt := (List.getElem?_eq_some_iff.mp hi).1
    refine ⟨(g + 1, data), by simp [hlt], Or.inl ?_⟩
    cases hdead with
    | inl hlt => exact Nat.lt_succ_of_lt hlt
    | inr heq => exact Nat.lt_succ_of_le (Nat.le_of_eq heq.1)
  · exact ⟨v, by rw [List.getElem?_set_ne hii, hv], hdead⟩

theorem dead_set_vacant {i g : Nat} {old : Option α} (h : Dead slots id)
    (hi : slots[i]? = some (g, old)) :
    Dead (slots.set i (g, none)) id := by
  obtain ⟨v, hv, hdead⟩ := h
  by_cases hii : i = id.index
  · subst hii
    rw [hi] at hv
    cases hv
    have hlt := (List.getElem?_eq_some_iff.mp hi).1
    refine ⟨(g, none), by simp [hlt], ?_⟩
    cases hdead with
    | inl hlt => exact Or.inl hlt
    | inr heq => exact Or.inr ⟨heq.1, rfl⟩
  · exact ⟨v, by rw [List.getElem?_set_ne hii, hv], hdead⟩

theorem invariant_alloc (hinv : Invariant h) {entry : α} (hfits : h.arena.AllocFits)
    (hstep : step h (.alloc entry) = some h') :
    Invariant h' := by
  have hrep := NodeArena.represents_alloc hinv.represents hfits entry
  have hviews := NodeArena.view_alloc h.arena entry
  simp only [step] at hstep
  rcases halloc : h.arena.alloc entry with ⟨a, r⟩
  rw [halloc] at hstep hrep hviews
  cases r with
  | error e =>
    cases hstep
    have hslots : a.slots = h.arena.slots := by
      rcases hviews with ⟨-, -, hs⟩ | ⟨_, _, hr, -⟩ | ⟨hr, -⟩
      · exact hs
      · cases hr
      · cases hr
    exact ⟨hrep, hinv.retired_handed, fun id hid => by rw [hslots]; exact hinv.handed_bound id hid,
      fun id hid => by rw [hslots]; exact hinv.retired_dead id hid⟩
  | ok new =>
    cases hstep
    have hmono : new.index < a.slots.length ∧ h.arena.slots.length ≤ a.slots.length ∧
        ∀ id, Dead (h.arena.slots.map Slot.view) id → Dead (a.slots.map Slot.view) id := by
      rcases hviews with ⟨_, hr, -⟩ | ⟨i, g, hr, hi, hs⟩ | ⟨hr, hs⟩
      · cases hr
      · cases hr
        have hlen := congrArg List.length hs
        have hlt := (List.getElem?_eq_some_iff.mp hi).1
        simp only [List.length_map, List.length_set] at hlen hlt
        refine ⟨by simpa only [hlen] using hlt, Nat.le_of_eq hlen.symm, fun id hd => ?_⟩
        rw [hs]
        exact dead_set_next hd hi
      · cases hr
        have hlen := congrArg List.length hs
        simp only [List.length_map, List.length_append, List.length_singleton] at hlen
        refine ⟨by simp only [hlen]; omega, by omega, fun id hd => ?_⟩
        rw [hs]
        exact dead_append hd
    refine ⟨hrep, fun id hid => List.mem_cons_of_mem _ (hinv.retired_handed id hid), ?_,
      fun id hid => hmono.2.2 id (hinv.retired_dead id hid)⟩
    intro id hid
    cases List.mem_cons.mp hid with
    | inl heq => exact heq ▸ hmono.1
    | inr hold => exact Nat.lt_of_lt_of_le (hinv.handed_bound id hold) hmono.2.1

theorem invariant_remove (hinv : Invariant h) (hstep : step h (.remove id) = some h')
    : Invariant h' := by
  have hrep := NodeArena.represents_remove hinv.represents id
  have hviews := NodeArena.view_remove h.arena id
  simp only [step] at hstep
  rcases hremove : h.arena.remove id with ⟨a, r⟩
  rw [hremove] at hstep hrep hviews
  rcases hviews with heq | ⟨entry, hr, hi, hs⟩
  · cases heq
    cases hstep
    exact hinv
  · cases hr
    cases hstep
    have hlen := congrArg List.length hs
    simp only [List.length_map, List.length_set] at hlen
    have hself : Dead (a.slots.map Slot.view) id := by
      have hlt := (List.getElem?_eq_some_iff.mp hi).1
      exact ⟨(id.generation, none), by simp only [hs, List.getElem?_set_self hlt],
        Or.inr ⟨rfl, rfl⟩⟩
    have hold : ∀ x ∈ h.retired, Dead (a.slots.map Slot.view) x := fun x hx => by
      rw [hs]
      exact dead_set_vacant (hinv.retired_dead x hx) hi
    refine ⟨hrep, ?_, fun x hx => by rw [hlen]; exact hinv.handed_bound x hx, ?_⟩
    · intro x hx
      split at hx
      · rename_i hmem
        cases List.mem_cons.mp hx with
        | inl heq => exact heq ▸ hmem
        | inr hx => exact hinv.retired_handed x hx
      · exact hinv.retired_handed x hx
    · intro x hx
      split at hx
      · cases List.mem_cons.mp hx with
        | inl heq => exact heq ▸ hself
        | inr hx => exact hold x hx
      · exact hold x hx

theorem invariant_allocRange (hinv : Invariant h) {count : Nat} {placeholder : α}
    (hstep : step h (.allocRange count placeholder) = some h') : Invariant h' := by
  obtain ⟨⟨a, r⟩, heq, rfl⟩ := Option.map_eq_some_iff.mp hstep
  obtain ⟨more, hs⟩ := NodeArena.view_allocRange heq
  have hlen := congrArg List.length hs
  simp only [List.length_map, List.length_append] at hlen
  refine ⟨NodeArena.represents_allocRange hinv.represents heq, hinv.retired_handed, ?_, ?_⟩
  · intro id hid
    have hlt := hinv.handed_bound id hid
    simp only [hlen]
    omega
  · intro id hid
    simp only [hs]
    exact dead_append (hinv.retired_dead id hid)

theorem invariant_truncateTo (hinv : Invariant h) (hfits : ∀ id ∈ h.handed, id.index < n)
    (hstep : step h (.truncateTo n) = some h') : Invariant h' := by
  obtain ⟨a, heq, rfl⟩ := Option.map_eq_some_iff.mp hstep
  obtain ⟨hle, hs⟩ := NodeArena.truncateTo_some heq
  have hlen := congrArg List.length hs
  simp only [List.length_map, List.length_take] at hlen
  refine ⟨NodeArena.represents_truncateTo hinv.represents heq, hinv.retired_handed, ?_, ?_⟩
  · intro id hid
    have hlt := hfits id hid
    simp only [hlen]
    omega
  · intro id hid
    simp only [hs]
    exact dead_take (hinv.retired_dead id hid) (hfits id (hinv.retired_handed id hid))

theorem invariant_step (h : ArenaHistory α) (op : ArenaOp α) (h' : ArenaHistory α)
    (hinv : Invariant h) (hfits : Fits h op) (hstep : step h op = some h') : Invariant h' := by
  cases op with
  | alloc entry => exact invariant_alloc hinv (hfits.2 entry rfl) hstep
  | remove id => exact invariant_remove hinv hstep
  | allocRange count placeholder => exact invariant_allocRange hinv hstep
  | truncateTo n => exact invariant_truncateTo hinv hfits.1 hstep

def Sound (h : ArenaHistory α) : Prop :=
  h.arena.Represents ∧
    ∀ id ∈ h.retired, h.arena.get id = none ∧ h.arena.getMut id = none ∧
      h.arena.contains id = false

theorem arena_sound_of_run {ops : List (ArenaOp α)} {h : ArenaHistory α}
    (hfits : StepSystem.RunOk step Fits start ops)
    (hrun : StepSystem.run step start ops = some h) : Sound h := by
  have hinv := StepSystem.invariant_of_runOk invariant_step invariant_start hfits hrun
  refine ⟨hinv.represents, fun id hid => ?_⟩
  have hget := get_none_of_dead (hinv.retired_dead id hid)
  exact ⟨hget, hget, by simp [NodeArena.contains, hget]⟩

/-- An identifier is removed and its slot used again, next to a bulk allocation that is
rolled back. -/
theorem arena_sound_of_reuse :
    Sound (⟨⟨[⟨2, .occupied 8⟩], none, 1⟩, [⟨0, 2⟩, ⟨0, 1⟩], [⟨0, 1⟩]⟩ : ArenaHistory Nat) := by
  refine @arena_sound_of_run Nat
    [.alloc 7, .allocRange 2 0, .remove ⟨0, 1⟩, .truncateTo 1, .alloc 8] _ ?_ rfl
  refine StepSystem.runOk_cons_of_step ⟨trivial, fun _ _ => ?_⟩ rfl ?_
  · intro i slot hhead
    cases hhead
  refine StepSystem.runOk_cons_of_step ⟨trivial, fun _ h => by cases h⟩ rfl ?_
  refine StepSystem.runOk_cons_of_step ⟨trivial, fun _ h => by cases h⟩ rfl ?_
  refine StepSystem.runOk_cons_of_step ⟨?_, fun _ h => by cases h⟩ rfl ?_
  · intro id hid
    cases List.mem_singleton.mp hid
    decide
  refine StepSystem.runOk_cons_of_step ⟨trivial, fun _ _ => ?_⟩ rfl trivial
  intro i slot hhead hslot
  cases hhead
  cases hslot
  decide

/-- One slot is put into use and given back `n` times. -/
def cycles : Nat → List (ArenaOp Nat)
  | 0 => []
  | n + 1 => cycles n ++ [.alloc 0, .remove ⟨0, n + 1⟩]

theorem run_cycles (hn : n < NodeId.MAX_GENERATION) :
    ∃ handed retired, StepSystem.run step start (cycles (n + 1)) =
      some ⟨⟨[⟨n + 1, .vacant none⟩], some 0, 0⟩, handed, retired⟩ := by
  induction n with
  | zero => exact ⟨[⟨0, 1⟩], [⟨0, 1⟩], rfl⟩
  | succ n ih =>
    obtain ⟨handed, retired, hrun⟩ := ih (by omega)
    refine ⟨⟨0, n + 2⟩ :: handed, ⟨0, n + 2⟩ :: retired, ?_⟩
    have halloc : step ⟨⟨[⟨n + 1, .vacant none⟩], some 0, 0⟩, handed, retired⟩ (.alloc 0) =
        some ⟨⟨[⟨n + 2, .occupied 0⟩], none, 1⟩, ⟨0, n + 2⟩ :: handed, retired⟩ := by
      simp [step, NodeArena.alloc, NodeId.tryIncrementGeneration_ok, hn]
    have hremove : step ⟨⟨[⟨n + 2, .occupied 0⟩], none, 1⟩, ⟨0, n + 2⟩ :: handed, retired⟩
        (.remove ⟨0, n + 2⟩) = some ⟨⟨[⟨n + 2, .vacant none⟩], some 0, 0⟩,
          ⟨0, n + 2⟩ :: handed, ⟨0, n + 2⟩ :: retired⟩ := by
      simp [step, NodeArena.remove, NodeId.isInvalid, u32Max]
    rw [cycles, StepSystem.run_append, hrun, Option.bind_some,
      StepSystem.run_cons_of_step halloc, StepSystem.run_cons_of_step hremove]
    rfl

theorem truncationFits_of_mem_cycles {op : ArenaOp Nat} (hop : op ∈ cycles n) (h : ArenaHistory Nat)
    : TruncationFits h op := by
  induction n with
  | zero => cases hop
  | succ n ih =>
    cases List.mem_append.mp hop with
    | inl hold => exact ih hold
    | inr hlast =>
      simp only [List.mem_cons, List.not_mem_nil, or_false] at hlast
      cases hlast with
      | inl halloc => exact halloc ▸ trivial
      | inr hremove => exact hremove ▸ trivial

theorem truncationFits_cycles_alloc (n : Nat) :
    StepSystem.RunOk step TruncationFits start (cycles n ++ [.alloc 0]) := by
  apply StepSystem.runOk_of_forall_mem
  intro op hop h
  cases List.mem_append.mp hop with
  | inl hold => exact truncationFits_of_mem_cycles hold h
  | inr hlast => exact List.mem_singleton.mp hlast ▸ trivial

theorem run_cycles_alloc {m n : Nat} (hm : m = n + 1) (hmax : m = NodeId.MAX_GENERATION) :
    ∃ handed retired, StepSystem.run step start (cycles m ++ [.alloc 0]) =
      some ⟨⟨[⟨m, .vacant none⟩], none, 0⟩, handed, retired⟩ := by
  subst hm
  obtain ⟨handed, retired, hrun⟩ := run_cycles (n := n) (by omega)
  refine ⟨handed, retired, ?_⟩
  have herr : (⟨0, n + 1⟩ : NodeId).tryIncrementGeneration = .error ⟨0, n + 1⟩ :=
    NodeId.tryIncrementGeneration_error (Nat.le_of_eq hmax.symm)
  rw [StepSystem.run_append, hrun]
  simp [StepSystem.run_cons, step, NodeArena.alloc, herr]

theorem not_sound_of_lost_slot {g : Nat} {handed retired : List NodeId} :
    ¬ Sound (⟨⟨[⟨g, .vacant none⟩], none, 0⟩, handed, retired⟩ : ArenaHistory Nat) := by
  intro hsound
  have hnone := (FreeList.complete_none_iff _).mp hsound.1.freeList 0
  cases hnone

/-- After `MAX_GENERATION` uses the slot can no longer be handed out. The `alloc` that
finds this out reports it, but has already taken the slot off the free list. -/
theorem free_list_lost_at_max_generation :
    StepSystem.RunOk step TruncationFits start (cycles NodeId.MAX_GENERATION ++ [.alloc 0]) ∧
    ∃ h, StepSystem.run step start (cycles NodeId.MAX_GENERATION ++ [.alloc 0]) = some h ∧
      ¬ Sound h := by
  generalize hmax : NodeId.MAX_GENERATION = m
  have hpos : m = m - 1 + 1 := by
    subst hmax
    decide
  obtain ⟨handed, retired, hrun⟩ := run_cycles_alloc hpos hmax.symm
  refine ⟨truncationFits_cycles_alloc m, ?_⟩
  exact ⟨_, hrun, not_sound_of_lost_slot⟩

end ArenaHistory
end Sqry
