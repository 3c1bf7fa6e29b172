import Sqry.Admission.Balance

/-!
No subtraction underflows while the books are kept. A reset that loads the guard count
before a concurrent reservation registers its guard does not keep them.
-/

namespace Sqry

def Call.nextSub : Call → Option (Counter × Nat)
  | .straight (.fetchSub c n :: _) _ => some (c, n)
  | _ => none

namespace AdmissionSystem

/-- No call is about to underflow a counter, and at rest `reserved` shows what the
outstanding guards hold. -/
def Safe (sys : AdmissionSystem) : Prop :=
  (∀ call ∈ sys.calls, ∀ c n, call.nextSub = some (c, n) → n ≤ sys.counters.load c) ∧
  (sys.calls = [] → ∀ d, sys.counters.load (.reserved d) =
    Ledger.total (fun r => r.amount d) sys.guards)

theorem safe_of_balanced {sys : AdmissionSystem} (h : Balanced sys) : Safe sys := by
  refine ⟨fun call hcall c n hnext => ?_, fun hrest d => ?_⟩
  · cases call with
    | tryReserve r pc => cases hnext
    | tryResetToZero => cases hnext
    | straight todo underflowed =>
      cases todo with
      | nil => cases hnext
      | cons a todo =>
        cases a with
        | fetchSub c' n' =>
          cases hnext
          have hle := owes_le_load h (h.wellFormed _ hcall).2.1 hcall
          simp only [Call.owes, Ledger.total_cons, AtomicStep.owes, if_true] at hle
          exact Nat.le_trans (Nat.le_add_right n _) hle
        | fetchAdd c' n' => cases hnext
        | store c' n' => cases hnext
        | assertNoUnderflow => cases hnext
  · rw [h.balanced (.reserved d) trivial, owed, hrest, Ledger.total_nil, Nat.zero_add]
    rfl

theorem admission_safe_of_run {ctl : AdmissionController} {actions : List AdmissionAction}
    {sys : AdmissionSystem} (hfits : StepSystem.RunOk (step ctl) Fits start actions)
    (hrun : StepSystem.run (step ctl) start actions = some sys) : Safe sys :=
  safe_of_balanced (StepSystem.invariant_of_runOk balanced_step balanced_start hfits hrun)

theorem fits_of_call {sys : AdmissionSystem} {i : Nat} {spurious : Bool} {call : Call}
    (hi : sys.calls[i]? = some call) (hkeeps : KeepsBooks sys spurious call) :
    Fits sys (.advance i spurious) := by
  intro call' hi'
  rw [hi] at hi'
  cases hi'
  exact hkeeps

/-- A reset that finds the guard of a finished reservation leaves the counters alone. -/
theorem admission_safe_after_reset : Safe ⟨⟨0, 0, 0, 1, 1⟩, [], [⟨0, 1⟩]⟩ := by
  refine @admission_safe_of_run ⟨10, 10⟩
    [.tryReserve 0 1, .advance 0 false, .advance 0 false, .advance 0 false, .advance 0 false,
      .tryResetToZero, .advance 0 false] _ ?_ rfl
  have hadd : 0 + 1 ≤ u64Max := by decide
  have hguard : 0 < u64Max := by decide
  refine StepSystem.runOk_cons_of_step
    (t := ⟨⟨0, 0, 0, 0, 0⟩, [.tryReserve ⟨0, 1⟩ (.loadReserved .ops)], []⟩) trivial rfl ?_
  refine StepSystem.runOk_cons_of_step
    (t := ⟨⟨0, 0, 0, 0, 0⟩, [.tryReserve ⟨0, 1⟩ (.loadCommitted .ops 0)], []⟩)
    (fits_of_call rfl trivial) rfl ?_
  refine StepSystem.runOk_cons_of_step
    (t := ⟨⟨0, 0, 0, 0, 0⟩, [.tryReserve ⟨0, 1⟩ (.compareExchange .ops 0 0)], []⟩)
    (fits_of_call rfl trivial) rfl ?_
  refine StepSystem.runOk_cons_of_step
    (t := ⟨⟨0, 0, 0, 1, 0⟩, [.tryReserve ⟨0, 1⟩ .newGuard], []⟩)
    (fits_of_call rfl fun _ _ => hadd) rfl ?_
  refine StepSystem.runOk_cons_of_step
    (t := ⟨⟨0, 0, 0, 1, 1⟩, [], [⟨0, 1⟩]⟩) (fits_of_call rfl hguard) rfl ?_
  refine StepSystem.runOk_cons_of_step
    (t := ⟨⟨0, 0, 0, 1, 1⟩, [.tryResetToZero], [⟨0, 1⟩]⟩) trivial rfl ?_
  exact StepSystem.runOk_cons_of_step (fits_of_call rfl trivial) rfl trivial

/-- The reset loads `active_guards` between the compare-exchange of a reservation and the
registration of its guard; the guard's subtraction is then applied to zero. -/
theorem reset_between_reserve_and_guard :
    ∃ sys, StepSystem.run (step ⟨10, 10⟩) start
      [.tryReserve 5 0, .advance 0 false, .advance 0 false, .advance 0 false,
        .tryResetToZero, .advance 0 false, .advance 1 false,
        .advance 0 false, .advance 0 false, .advance 0 false, .advance 0 false,
        .advance 0 false, .abort 0] = some sys ∧ ¬ Safe sys := by
  refine ⟨_, rfl, fun hsafe => ?_⟩
  have hle := hsafe.1 _ List.mem_cons_self _ _ rfl
  revert hle
  decide

end AdmissionSystem
end Sqry
