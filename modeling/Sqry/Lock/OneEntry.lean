import Sqry.Lib.StepSystem
import Sqry.Lock.SharedWait

/-!
The run as one entry sees it: how many waits it has, whether it is registered, and where
the lock its helper won is. Every step of the process moves at most one entry, and each
such move keeps the entry's accounts.
-/

namespace Sqry.PersistLock

structure EntryView where
  entry : Option SharedLockWait
  registered : Bool
  attached : Nat
  carried : Nat
  won : Nat
  taken : Nat
  dropped : Nat
  locked : Bool

def LockWaits.view (s : LockWaits) (e : Nat) : EntryView where
  entry := s.shared[e]?
  registered := s.registry == some e
  attached := s.attachedTo e
  carried := s.carried e
  won := s.won e
  taken := s.taken e
  dropped := s.dropped e
  locked := s.locked == some (.file e)

/-- An answer of entry `e` is the lock of the file opened for it. -/
def LockAnswer.Names (e : Nat) (answer : Option LockAnswer) : Prop :=
  ∀ f, answer = some (.file f) → f = e

def SharedLockWait.Phased (x : SharedLockWait) (e won : Nat) : Prop :=
  match x.helper with
  | .locking => x.state.finished = false ∧ x.state.answer = none ∧ won = 0
  | .exiting answer =>
    x.state.finished = false ∧ x.state.answer = none ∧ LockAnswer.Names e answer
  | .dropping answer =>
    x.state.finished = true ∧ LockAnswer.Names e x.state.answer ∧ LockAnswer.Names e answer
  | .gone => x.state.finished = true ∧ LockAnswer.Names e x.state.answer

namespace EntryView

structure Kept (e : Nat) (v : EntryView) (x : SharedLockWait) : Prop where
  interested : x.state.interested = v.attached
  registered : v.registered = true ↔ x.state.finished = false
  answered : x.state.answer ≠ none → 0 < x.state.interested
  phased : x.Phased e v.won
  won_le : v.won ≤ 1
  won_eq : v.won = x.unclaimed + v.taken + v.dropped
  locked : x.unclaimed + v.carried = if v.locked then 1 else 0

structure Unused (v : EntryView) : Prop where
  registered : v.registered = false
  attached : v.attached = 0
  carried : v.carried = 0
  won : v.won = 0
  taken : v.taken = 0
  dropped : v.dropped = 0
  locked : v.locked = false

def Sound (e : Nat) (v : EntryView) : Prop :=
  match v.entry with
  | none => v.Unused
  | some x => v.Kept e x

theorem sound_none {e : Nat} {v : EntryView} (h : v.Sound e) (hv : v.entry = none) :
    v.Unused := by
  rw [Sound, hv] at h
  exact h

theorem sound_some {e : Nat} {v : EntryView} {x : SharedLockWait} (h : v.Sound e)
    (hv : v.entry = some x) : v.Kept e x := by
  rw [Sound, hv] at h
  exact h

def dropAnswer (v : EntryView) (answer : Option LockAnswer) : EntryView :=
  { v with
    dropped := v.dropped + LockAnswer.files answer
    locked := v.locked && LockAnswer.files answer == 0 }

inductive Turn (e : Nat) : EntryView → EntryView → Prop
  | idle {v : EntryView} : Turn e v v
  | starts {v : EntryView} (hentry : v.entry = none) :
      Turn e v { v with
        entry := some { state := { interested := 1 } }, registered := true,
        attached := v.attached + 1 }
  | joins {v : EntryView} {x : SharedLockWait} (hentry : v.entry = some x)
      (hopen : x.state.finished = false) :
      Turn e v { v with
        entry := some { x with state := { x.state with interested := x.state.interested + 1 } },
        attached := v.attached + 1 }
  | wins {v : EntryView} {x : SharedLockWait} (hentry : v.entry = some x)
      (hlocking : x.helper = .locking) (hfree : v.locked = false) :
      Turn e v { v with
        entry := some { x with helper := .exiting (some (.file e)) }, won := v.won + 1,
        locked := true }
  | fails {v : EntryView} {x : SharedLockWait} (answer : Option LockAnswer)
      (hentry : v.entry = some x) (hlocking : x.helper = .locking)
      (hanswer : LockAnswer.files answer = 0) :
      Turn e v { v with entry := some { x with helper := .exiting answer } }
  | hands {v : EntryView} {x : SharedLockWait} (answer : Option LockAnswer)
      (hentry : v.entry = some x) (hexiting : x.helper = .exiting answer)
      (hwaits : 0 < x.state.interested) :
      Turn e v { v with
        entry := some
          { state := { x.state with finished := true, answer := answer },
            helper := .dropping none },
        registered := false }
  | keeps {v : EntryView} {x : SharedLockWait} (answer : Option LockAnswer)
      (hentry : v.entry = some x) (hexiting : x.helper = .exiting answer)
      (halone : x.state.interested = 0) :
      Turn e v { v with
        entry := some
          { state := { x.state with finished := true }, helper := .dropping answer },
        registered := false }
  | drops {v : EntryView} {x : SharedLockWait} (answer : Option LockAnswer)
      (hentry : v.entry = some x) (hdropping : x.helper = .dropping answer) :
      Turn e v ({ v with entry := some { x with helper := .gone } }.dropAnswer answer)
  | takes {v : EntryView} {x : SharedLockWait} {state : SharedLockState} (answer : LockAnswer)
      (hentry : v.entry = some x) (hanswer : x.state.answer = some answer)
      (hleave : ({ x.state with answer := none } : SharedLockState).leave = some state) :
      Turn e v { v with
        entry := some { x with state := state }, attached := v.attached - 1,
        taken := v.taken + LockAnswer.files (some answer),
        carried := v.carried + LockAnswer.files (some answer) }
  | leaves {v : EntryView} {x : SharedLockWait} {state : SharedLockState}
      (hentry : v.entry = some x) (hleave : x.state.leave = some state)
      (hothers : x.state.answer = none ∨ state.interested ≠ 0) :
      Turn e v { v with entry := some { x with state := state }, attached := v.attached - 1 }
  | abandons {v : EntryView} {x : SharedLockWait} {state : SharedLockState}
      (hentry : v.entry = some x) (hleave : x.state.leave = some state)
      (hlast : state.interested = 0) :
      Turn e v ({ v with
        entry := some { x with state := { state with answer := none } },
        attached := v.attached - 1 }.dropAnswer state.answer)
  | unlocks {v : EntryView} (hcarried : 0 < v.carried) :
      Turn e v { v with carried := v.carried - 1, locked := false }

end EntryView

theorem SharedLockState.leave_eq_some {st st' : SharedLockState} (h : st.leave = some st') :
    0 < st.interested ∧ st' = { st with interested := st.interested - 1 } := by
  rw [SharedLockState.leave] at h
  split at h
  · cases h
  · next hne =>
      cases h
      exact ⟨Nat.pos_of_ne_zero hne, rfl⟩

theorem LockAnswer.names_of_files {e : Nat} {answer : Option LockAnswer}
    (h : LockAnswer.files answer = 0) : LockAnswer.Names e answer := by
  intro f hf
  rw [hf] at h
  cases h

namespace EntryView

private theorem move_taken (rest files taken dropped : Nat) :
    rest + files + taken + dropped = rest + (taken + files) + dropped := by omega

private theorem move_dropped (rest files taken dropped : Nat) :
    rest + files + taken + dropped = rest + taken + (dropped + files) := by omega

private theorem move_carried (rest files carried : Nat) :
    rest + files + carried = rest + (carried + files) := by omega

theorem Kept.names {e : Nat} {v : EntryView} {x : SharedLockWait} (h : v.Kept e x) :
    LockAnswer.Names e x.state.answer := by
  have hphased := h.phased
  have hempty (hnone : x.state.answer = none) : LockAnswer.Names e x.state.answer :=
    LockAnswer.names_of_files (by rw [hnone]; rfl)
  cases hhelper : x.helper <;> simp only [SharedLockWait.Phased, hhelper] at hphased
  · exact hempty hphased.2.1
  · exact hempty hphased.2.1
  · exact hphased.2.1
  · exact hphased.2

theorem locked_dropAnswer {answer : Option LockAnswer} {rest carried : Nat} {locked : Bool}
    (h : rest + LockAnswer.files answer + carried = if locked then 1 else 0) :
    rest + carried = if (locked && LockAnswer.files answer == 0) then 1 else 0 := by
  cases hfiles : LockAnswer.files answer with
  | zero => simpa [hfiles] using h
  | succ n =>
    rw [hfiles] at h
    cases locked with
    | false => simp at h
    | true =>
      simp at h ⊢
      omega

theorem phased_leave {x : SharedLockWait} {e won : Nat} (h : x.Phased e won) (n : Nat) :
    ({ x with state := { x.state with interested := n } } : SharedLockWait).Phased e won := h

theorem phased_forget {x : SharedLockWait} {e won : Nat} (h : x.Phased e won) (n : Nat) :
    ({ x with state := { x.state with answer := none, interested := n } } :
      SharedLockWait).Phased e won := by
  have hnone : LockAnswer.Names e none := LockAnswer.names_of_files rfl
  cases hhelper : x.helper <;> simp only [SharedLockWait.Phased, hhelper] at h ⊢
  · exact ⟨h.1, trivial, h.2.2⟩
  · exact ⟨h.1, trivial, h.2.2⟩
  · exact ⟨h.1, hnone, h.2.2⟩
  · exact ⟨h.1, hnone⟩

theorem unlock_sound {e : Nat} {v : EntryView} (hs : v.Sound e) (hcarried : 0 < v.carried) :
    ({ v with carried := v.carried - 1, locked := false } : EntryView).Sound e := by
  cases hentry : v.entry with
  | none =>
    have hv := sound_none hs hentry
    rw [hv.carried] at hcarried
    cases hcarried
  | some x =>
    have hv := sound_some hs hentry
    have hlocked := hv.locked
    have hone : x.unclaimed + v.carried ≤ 1 := by
      rw [hlocked]
      split <;> omega
    show Kept e _ _
    exact ⟨hv.interested, hv.registered, hv.answered, hv.phased, hv.won_le, hv.won_eq,
      by simp; omega⟩

theorem Turn.sound {e : Nat} {v v' : EntryView} (h : Turn e v v') (hs : v.Sound e) :
    v'.Sound e := by
  cases h with
  | idle => exact hs
  | starts hentry =>
    have hv := sound_none hs hentry
    show Kept e _ _
    constructor <;>
      simp [SharedLockWait.Phased, SharedLockWait.unclaimed, LockAnswer.files, hv.attached,
        hv.carried, hv.won, hv.taken, hv.dropped, hv.locked]
  | @joins x hentry hopen =>
    have hv := sound_some hs hentry
    show Kept e _ _
    refine ⟨by simpa using hv.interested, hv.registered, fun _ => Nat.succ_pos _, ?_,
      hv.won_le, hv.won_eq, hv.locked⟩
    simpa [SharedLockWait.Phased] using hv.phased
  | @wins x hentry hlocking hfree =>
    have hv := sound_some hs hentry
    obtain ⟨hopen, hanswer, hwon⟩ : x.state.finished = false ∧ x.state.answer = none ∧
        v.won = 0 := by simpa [SharedLockWait.Phased, hlocking] using hv.phased
    have heq := hv.won_eq
    have hlocked := hv.locked
    simp only [SharedLockWait.unclaimed, hlocking, hanswer, LockAnswer.files, hfree] at heq hlocked
    show Kept e _ _
    refine ⟨hv.interested, hv.registered, hv.answered, ?_, ?_, ?_, ?_⟩
    · exact ⟨hopen, hanswer, fun f hf => by cases hf; rfl⟩
    · simp [hwon]
    · simp only [SharedLockWait.unclaimed, hanswer, LockAnswer.files]
      omega
    · simp only [SharedLockWait.unclaimed, hanswer, LockAnswer.files, if_true]
      simp at hlocked
      omega
  | @fails x answer hentry hlocking hanswer =>
    have hv := sound_some hs hentry
    obtain ⟨hopen, hempty, hwon⟩ : x.state.finished = false ∧ x.state.answer = none ∧
        v.won = 0 := by simpa [SharedLockWait.Phased, hlocking] using hv.phased
    have hsame : ({ x with helper := .exiting answer } : SharedLockWait).unclaimed =
        x.unclaimed := by simp [SharedLockWait.unclaimed, hlocking, hanswer]
    show Kept e _ _
    refine ⟨hv.interested, hv.registered, hv.answered, ?_, hv.won_le, ?_, ?_⟩
    · exact ⟨hopen, hempty, LockAnswer.names_of_files hanswer⟩
    · rw [hsame]; exact hv.won_eq
    · rw [hsame]; exact hv.locked
  | @hands x answer hentry hexiting hwaits =>
    have hv := sound_some hs hentry
    obtain ⟨hopen, hempty, hnames⟩ : x.state.finished = false ∧ x.state.answer = none ∧
        LockAnswer.Names e answer := by simpa [SharedLockWait.Phased, hexiting] using hv.phased
    have hsame : SharedLockWait.unclaimed
        { state := { x.state with finished := true, answer := answer },
          helper := .dropping none } = x.unclaimed := by
      simp [SharedLockWait.unclaimed, hexiting, hempty, LockAnswer.files]
    show Kept e _ _
    refine ⟨hv.interested, by simp, fun _ => hwaits, ?_, hv.won_le, ?_, ?_⟩
    · exact ⟨rfl, hnames, LockAnswer.names_of_files rfl⟩
    · rw [hsame]; exact hv.won_eq
    · rw [hsame]; exact hv.locked
  | @keeps x answer hentry hexiting halone =>
    have hv := sound_some hs hentry
    obtain ⟨hopen, hempty, hnames⟩ : x.state.finished = false ∧ x.state.answer = none ∧
        LockAnswer.Names e answer := by simpa [SharedLockWait.Phased, hexiting] using hv.phased
    have hsame : SharedLockWait.unclaimed
        { state := { x.state with finished := true }, helper := .dropping answer } =
        x.unclaimed := by
      simp [SharedLockWait.unclaimed, hexiting, hempty, LockAnswer.files]
    show Kept e _ _
    refine ⟨hv.interested, by simp, hv.answered, ?_, hv.won_le, ?_, ?_⟩
    · refine ⟨rfl, LockAnswer.names_of_files ?_, hnames⟩
      simp [hempty, LockAnswer.files]
    · rw [hsame]; exact hv.won_eq
    · rw [hsame]; exact hv.locked
  | @drops x answer hentry hdropping =>
    have hv := sound_some hs hentry
    obtain ⟨hdone, hnames, -⟩ : x.state.finished = true ∧ LockAnswer.Names e x.state.answer ∧
        LockAnswer.Names e answer := by simpa [SharedLockWait.Phased, hdropping] using hv.phased
    have hsplit : x.unclaimed = ({ x with helper := .gone } : SharedLockWait).unclaimed +
        LockAnswer.files answer := by simp [SharedLockWait.unclaimed, hdropping]
    have heq := hv.won_eq
    have hlocked := hv.locked
    rw [hsplit] at heq hlocked
    show Kept e _ _
    refine ⟨hv.interested, hv.registered, hv.answered, ⟨hdone, hnames⟩, hv.won_le, ?_, ?_⟩
    · show v.won = _ + v.taken + (v.dropped + LockAnswer.files answer)
      omega
    · exact locked_dropAnswer hlocked
  | @takes x state answer hentry hanswer hleave =>
    have hv := sound_some hs hentry
    obtain ⟨hpos, rfl⟩ := SharedLockState.leave_eq_some hleave
    have hsplit : x.unclaimed = ({ x with
        state := { x.state with answer := none, interested := x.state.interested - 1 } } :
        SharedLockWait).unclaimed +
        LockAnswer.files (some answer) := by
      simp only [SharedLockWait.unclaimed, hanswer, LockAnswer.files]
      omega
    have heq := hv.won_eq
    have hlocked := hv.locked
    rw [hsplit] at heq hlocked
    show Kept e _ _
    refine ⟨by simp [hv.interested], hv.registered, by simp, ?_, hv.won_le, ?_, ?_⟩
    · exact phased_forget hv.phased _
    · exact heq.trans (move_taken _ _ _ _)
    · exact (move_carried _ _ _).symm.trans hlocked
  | @leaves x state hentry hleave hothers =>
    have hv := sound_some hs hentry
    obtain ⟨hpos, rfl⟩ := SharedLockState.leave_eq_some hleave
    show Kept e _ _
    refine ⟨by simp [hv.interested], hv.registered, ?_, phased_leave hv.phased _, hv.won_le,
      hv.won_eq, hv.locked⟩
    intro hanswer
    cases hothers with
    | inl hnone => exact absurd hnone hanswer
    | inr hne => exact Nat.pos_of_ne_zero hne
  | @abandons x state hentry hleave hlast =>
    have hv := sound_some hs hentry
    obtain ⟨hpos, rfl⟩ := SharedLockState.leave_eq_some hleave
    have hsplit : x.unclaimed = ({ x with
        state := { x.state with answer := none, interested := x.state.interested - 1 } } :
        SharedLockWait).unclaimed +
        LockAnswer.files x.state.answer := by
      simp only [SharedLockWait.unclaimed, LockAnswer.files]
      omega
    have heq := hv.won_eq
    have hlocked := hv.locked
    rw [hsplit] at heq hlocked
    show Kept e _ _
    refine ⟨by simp [dropAnswer, hv.interested], hv.registered, by simp, ?_, hv.won_le, ?_, ?_⟩
    · exact phased_forget hv.phased _
    · exact heq.trans (move_dropped _ _ _ _)
    · exact locked_dropAnswer hlocked
  | unlocks hcarried => exact unlock_sound hs hcarried

end EntryView

end Sqry.PersistLock
