import Sqry.Admission.Underflow

/-!
The admission limit. A reservation is checked against a `committed` value loaded before
the compare-exchange, and a commit moves its amount out of `reserved` before it shows in
`committed`. What a commit has taken out and not yet added is its exposure.
-/

namespace Sqry

def AtomicStep.brings (d : Resource) : AtomicStep → Nat
  | .fetchAdd c n => if c = .committed d then n else 0
  | _ => 0

def Call.exposure (d : Resource) : Call → Nat
  | .straight todo _ =>
    Ledger.total (AtomicStep.brings d) todo - Ledger.total (AtomicStep.owes (.reserved d)) todo
  | _ => 0

def Outcome.exposure (d : Resource) : Outcome → Nat
  | .running call => call.exposure d
  | _ => 0

def Call.Checked (ctl : AdmissionController) : Call → Prop
  | .tryReserve r (.compareExchange d currentReserved committed) =>
    saturatingAdd (saturatingAdd committed currentReserved) (r.amount d) ≤ ctl.max d
  | _ => True

namespace AdmissionSystem

def exposed (sys : AdmissionSystem) (d : Resource) : Nat :=
  Ledger.total (Call.exposure d) sys.calls

structure Limited (ctl : AdmissionController) (sys : AdmissionSystem) : Prop where
  balanced : Balanced sys
  checked : ∀ call ∈ sys.calls, call.Checked ctl
  within : ∀ d, sys.counters.load (.committed d) + sys.counters.load (.reserved d) +
    sys.exposed d ≤ ctl.max d

/-- A successful compare-exchange relies on the committed value it loaded: it has to be
at least what is committed now together with what commits under way will still add, and
the checked sum must not have been saturated. -/
def SeesCommits (sys : AdmissionSystem) (spurious : Bool) : Call → Prop
  | .tryReserve r (.compareExchange d currentReserved committed) =>
    sys.counters.load (.reserved d) = currentReserved → spurious = false →
      sys.counters.load (.committed d) + sys.exposed d ≤ committed ∧
        committed + currentReserved + r.amount d ≤ u64Max
  | call => KeepsBooks sys spurious call

theorem keepsBooks_of_seesCommits {sys : AdmissionSystem} {spurious : Bool} {call : Call}
    (h : SeesCommits sys spurious call) : KeepsBooks sys spurious call := by
  cases call with
  | tryReserve r pc =>
    cases pc with
    | compareExchange d currentReserved committed =>
      intro hcur hspurious
      have := (h hcur hspurious).2
      omega
    | loadReserved d => trivial
    | loadCommitted d currentReserved => trivial
    | rollbackLoad err => trivial
    | rollbackCompareExchange err current => trivial
    | newGuard => exact h
  | tryResetToZero => trivial
  | straight todo underflowed => exact h

def FitsLimit (sys : AdmissionSystem) : AdmissionAction → Prop
  | .advance i spurious => ∀ call, sys.calls[i]? = some call → SeesCommits sys spurious call
  | _ => True

theorem fits_of_fitsLimit {sys : AdmissionSystem} {action : AdmissionAction}
    (h : FitsLimit sys action) : Fits sys action := by
  cases action with
  | advance i spurious => exact fun call hi => keepsBooks_of_seesCommits (h call hi)
  | tryReserve bytes ops => trivial
  | commitWithActual g actualBytes actualOps => trivial
  | abort g => trivial
  | drop g => trivial
  | tryResetToZero => trivial

theorem exposed_settle {sys : AdmissionSystem} {i : Nat} {call : Call}
    (hi : sys.calls[i]? = some call) (s : SharedBufferState) (outcome : Outcome)
    (d : Resource) :
    (sys.settle i s outcome).exposed d + call.exposure d = sys.exposed d + outcome.exposure d := by
  cases outcome with
  | running next => exact Ledger.total_set hi next
  | granted r => exact Ledger.total_eraseIdx hi
  | refused err => exact Ledger.total_eraseIdx hi
  | returned => exact Ledger.total_eraseIdx hi

def Contained (s s' : SharedBufferState) (call : Call) (outcome : Outcome) : Prop :=
  ∀ d, s'.load (.committed d) + s'.load (.reserved d) + outcome.exposure d ≤
    s.load (.committed d) + s.load (.reserved d) + call.exposure d

theorem contained_of_same {s : SharedBufferState} {call : Call} {outcome : Outcome}
    (h : ∀ d, outcome.exposure d = call.exposure d) : Contained s s call outcome :=
  fun d => Nat.le_of_eq (by rw [h d])

theorem exposure_afterRefused (r : Reservation) (err : AdmissionError) (d d' : Resource) :
    (afterRefused r err d).exposure d' = 0 := by
  cases d with
  | bytes => rfl
  | ops =>
    by_cases hbytes : r.bytes > 0 <;> simp [afterRefused, hbytes, Outcome.exposure, Call.exposure]

theorem contained_straight {sys : AdmissionSystem} (h : Balanced sys) {todo : List AtomicStep}
    {underflowed : Bool} (hcall : .straight todo underflowed ∈ sys.calls)
    {s : SharedBufferState} {outcome : Outcome}
    (hstep : advanceStraight sys.counters underflowed todo = some (s, outcome)) :
    Contained sys.counters s (.straight todo underflowed) outcome := by
  obtain ⟨rfl, hordered⟩ := h.wellFormed _ hcall
  cases todo with
  | nil =>
    cases hstep
    exact contained_of_same fun _ => rfl
  | cons a todo =>
    cases a with
    | fetchAdd c n =>
      obtain ⟨⟨e, rfl⟩, hnosub, -⟩ := hordered
      cases hstep
      intro d
      have hsub := hnosub d
      have hres : Counter.reserved d ≠ .committed e := fun heq => by cases heq
      rw [SharedBufferState.load_fetchAdd_ne _ hres]
      simp only [Outcome.exposure, Call.exposure, Ledger.total_cons, AtomicStep.brings,
        AtomicStep.owes, hsub]
      by_cases hd : d = e
      · subst hd
        rw [SharedBufferState.fetchAdd, SharedBufferState.load_store_self, if_pos rfl]
        have := Nat.mod_le (sys.counters.load (.committed d) + n) (u64Max + 1)
        omega
      · have hne : Counter.committed d ≠ .committed e := fun heq => hd (Counter.committed.inj heq)
        rw [SharedBufferState.load_fetchAdd_ne _ hne, if_neg (Ne.symm hne)]
        omega
    | fetchSub c n =>
      obtain ⟨hheld, -⟩ := hordered
      cases hstep
      have hle := owes_le_load h hheld hcall
      simp only [Call.owes, Ledger.total_cons, AtomicStep.owes, if_true] at hle
      intro d
      have hcommitted : Counter.committed d ≠ c := fun heq => by
        rw [← heq] at hheld
        exact hheld
      rw [SharedBufferState.load_fetchSub_ne _ hcommitted]
      simp only [Outcome.exposure, Call.exposure, Ledger.total_cons, AtomicStep.brings,
        AtomicStep.owes]
      by_cases hc : c = .reserved d
      · subst hc
        rw [SharedBufferState.load_fetchSub (by omega) (h.bounded _), if_pos rfl]
        omega
      · rw [SharedBufferState.load_fetchSub_ne _ (Ne.symm hc), if_neg hc]
        omega
    | store c n =>
      obtain ⟨rfl, -, -⟩ := hordered
      cases hstep
      intro d
      simp only [Outcome.exposure, Call.exposure, Ledger.total_cons, AtomicStep.brings,
        AtomicStep.owes, Nat.zero_add]
      have hstore : ∀ c', (sys.counters.store c 0).load c' ≤ sys.counters.load c' := by
        intro c'
        by_cases hc : c' = c
        · subst hc
          rw [SharedBufferState.load_store_self]
          exact Nat.zero_le _
        · exact Nat.le_of_eq (SharedBufferState.load_store_ne _ hc 0)
      have hcom := hstore (.committed d)
      have hres := hstore (.reserved d)
      omega
    | assertNoUnderflow =>
      cases hstep
      refine contained_of_same fun d => ?_
      simp [Outcome.exposure, Call.exposure, AtomicStep.brings, AtomicStep.owes]

theorem contained_reserve (ctl : AdmissionController) {sys : AdmissionSystem}
    {r : Reservation} {pc : ReservePc} {spurious : Bool}
    (hpc : ∀ d currentReserved committed, pc = .compareExchange d currentReserved committed →
      ¬ (sys.counters.load (.reserved d) = currentReserved ∧ spurious = false)) :
    Contained sys.counters (advanceReserve ctl sys.counters r spurious pc).1 (.tryReserve r pc)
      (advanceReserve ctl sys.counters r spurious pc).2 := by
  cases pc with
  | loadReserved d => exact contained_of_same fun _ => rfl
  | loadCommitted d currentReserved =>
    simp only [advanceReserve]
    split
    · rename_i err _
      exact contained_of_same fun d' => exposure_afterRefused r err d d'
    · exact contained_of_same fun _ => rfl
  | compareExchange d currentReserved committed =>
    simp only [advanceReserve]
    rw [if_neg (hpc d currentReserved committed rfl)]
    exact contained_of_same fun _ => rfl
  | rollbackLoad err =>
    simp only [advanceReserve]
    split
    · exact contained_of_same fun _ => rfl
    · exact contained_of_same fun _ => rfl
  | rollbackCompareExchange err current =>
    simp only [advanceReserve]
    split
    · rename_i hsucc
      obtain ⟨rfl, -⟩ := hsucc
      intro d
      cases d with
      | bytes =>
        have hcom : Counter.committed .bytes ≠ .reserved .bytes := fun heq => by cases heq
        rw [SharedBufferState.load_store_self, SharedBufferState.load_store_ne _ hcom]
        simp only [Outcome.exposure]
        omega
      | ops => exact Nat.le_refl _
    · exact contained_of_same fun _ => rfl
  | newGuard =>
    intro d
    have hcom : Counter.committed d ≠ .activeGuards := fun heq => by cases heq
    have hres : Counter.reserved d ≠ .activeGuards := fun heq => by cases heq
    simp only [advanceReserve]
    rw [SharedBufferState.load_fetchAdd_ne _ hcom, SharedBufferState.load_fetchAdd_ne _ hres]
    exact Nat.le_refl _

theorem saturatingAdd_eq {m n : Nat} (h : m + n ≤ u64Max) : saturatingAdd m n = m + n :=
  Nat.min_eq_left h

theorem within_compareExchange {ctl : AdmissionController} {sys : AdmissionSystem}
    (h : Limited ctl sys) {i : Nat} {r : Reservation} {d : Resource} {committed : Nat}
    (hi : sys.calls[i]? =
      some (.tryReserve r (.compareExchange d (sys.counters.load (.reserved d)) committed)))
    (hsees : sys.counters.load (.committed d) + sys.exposed d ≤ committed)
    (hroom : committed + sys.counters.load (.reserved d) + r.amount d ≤ u64Max) (d' : Resource) :
    (sys.counters.store (.reserved d)
        ((sys.counters.load (.reserved d) + r.amount d) % (u64Max + 1))).load (.committed d') +
      (sys.counters.store (.reserved d)
        ((sys.counters.load (.reserved d) + r.amount d) % (u64Max + 1))).load (.reserved d') +
      sys.exposed d' ≤ ctl.max d' := by
  have hcom : Counter.committed d' ≠ .reserved d := fun heq => by cases heq
  rw [SharedBufferState.load_store_ne _ hcom]
  by_cases hd : d' = d
  · subst hd
    have hchecked := h.checked _ (List.mem_of_getElem? hi)
    simp only [Call.Checked] at hchecked
    rw [saturatingAdd_eq (m := committed) (by omega), saturatingAdd_eq hroom] at hchecked
    rw [SharedBufferState.load_store_self, Nat.mod_eq_of_lt (by omega)]
    omega
  · have hres : Counter.reserved d' ≠ .reserved d := fun heq => hd (Counter.reserved.inj heq)
    rw [SharedBufferState.load_store_ne _ hres]
    exact h.within d'

theorem checkLimit_ok {exceeded : Nat → Nat → Nat → AdmissionError}
    {max committed reserved requested : Nat}
    (h : AdmissionController.checkLimit exceeded max committed reserved requested = .ok ()) :
    saturatingAdd (saturatingAdd committed reserved) requested ≤ max := by
  unfold AdmissionController.checkLimit at h
  split at h
  · cases h
  · rename_i hle
    exact Nat.le_of_not_lt hle

theorem check_ok {ctl : AdmissionController} {d : Resource} {committed reserved requested : Nat}
    (h : ctl.check d committed reserved requested = .ok ()) :
    saturatingAdd (saturatingAdd committed reserved) requested ≤ ctl.max d := by
  cases d with
  | bytes => exact checkLimit_ok h
  | ops => exact checkLimit_ok h

theorem checked_afterRefused {ctl : AdmissionController} {r : Reservation}
    {err : AdmissionError} {d : Resource} {call : Call}
    (h : afterRefused r err d = .running call) : call.Checked ctl := by
  cases d with
  | bytes => cases h
  | ops =>
    simp only [afterRefused] at h
    split at h
    · cases h
      trivial
    · cases h

theorem checked_afterReserved (ctl : AdmissionController) (r : Reservation) (d : Resource) :
    (Call.tryReserve r (afterReserved r d)).Checked ctl := by
  cases d with
  | bytes => by_cases hops : r.ops = 0 <;> simp [afterReserved, enterOps, hops, Call.Checked]
  | ops => trivial

theorem checked_advance {ctl : AdmissionController} {s s' : SharedBufferState}
    {spurious : Bool} {call next : Call}
    (hstep : advance ctl s spurious call = some (s', .running next)) : next.Checked ctl := by
  cases call with
  | tryReserve r pc =>
    simp only [advance, Option.some.injEq] at hstep
    cases pc with
    | loadReserved d =>
      cases hstep
      trivial
    | loadCommitted d currentReserved =>
      simp only [advanceReserve] at hstep
      split at hstep
      · exact checked_afterRefused (Prod.ext_iff.mp hstep).2
      · rename_i hok
        cases hstep
        exact check_ok hok
    | compareExchange d currentReserved committed =>
      simp only [advanceReserve] at hstep
      split at hstep
      · cases hstep
        exact checked_afterReserved ctl r d
      · cases hstep
        trivial
    | rollbackLoad err =>
      simp only [advanceReserve] at hstep
      split at hstep
      · cases hstep
        trivial
      · cases hstep
    | rollbackCompareExchange err current =>
      simp only [advanceReserve] at hstep
      split at hstep
      · cases hstep
      · cases hstep
        trivial
    | newGuard => cases hstep
  | tryResetToZero =>
    simp only [advance] at hstep
    split at hstep
    · cases hstep
    · cases hstep
      trivial
  | straight todo underflowed =>
    cases todo with
    | nil => cases hstep
    | cons a todo =>
      cases a with
      | fetchAdd c n =>
        cases hstep
        trivial
      | fetchSub c n =>
        cases hstep
        trivial
      | store c n =>
        cases hstep
        trivial
      | assertNoUnderflow =>
        simp only [advance, advanceStraight] at hstep
        split at hstep
        · cases hstep
        · cases hstep
          trivial

theorem within_of_contained {ctl : AdmissionController} {sys : AdmissionSystem}
    (h : Limited ctl sys) {i : Nat} {call : Call} (hi : sys.calls[i]? = some call)
    {s : SharedBufferState} {outcome : Outcome}
    (hcontained : Contained sys.counters s call outcome) (d : Resource) :
    (sys.settle i s outcome).counters.load (.committed d) +
      (sys.settle i s outcome).counters.load (.reserved d) +
      (sys.settle i s outcome).exposed d ≤ ctl.max d := by
  rw [counters_settle]
  have hmoved := exposed_settle hi s outcome d
  have hstep := hcontained d
  have hbefore := h.within d
  omega

theorem within_advance {ctl : AdmissionController} {sys : AdmissionSystem}
    (h : Limited ctl sys) {i : Nat} {call : Call} {spurious : Bool}
    (hi : sys.calls[i]? = some call) (hsees : SeesCommits sys spurious call)
    {s : SharedBufferState} {outcome : Outcome}
    (hstep : advance ctl sys.counters spurious call = some (s, outcome)) (d : Resource) :
    (sys.settle i s outcome).counters.load (.committed d) +
      (sys.settle i s outcome).counters.load (.reserved d) +
      (sys.settle i s outcome).exposed d ≤ ctl.max d := by
  cases call with
  | straight todo underflowed =>
    exact within_of_contained h hi
      (contained_straight h.balanced (List.mem_of_getElem? hi) hstep) d
  | tryResetToZero =>
    refine within_of_contained h hi ?_ d
    simp only [advance] at hstep
    split at hstep
    · cases hstep
      exact contained_of_same fun _ => rfl
    · cases hstep
      refine contained_of_same fun d' => ?_
      simp [Outcome.exposure, Call.exposure, storeZeros, AtomicStep.brings]
  | tryReserve r pc =>
    simp only [advance, Option.some.injEq] at hstep
    by_cases hsucc : ∃ e currentReserved committed,
        pc = .compareExchange e currentReserved committed ∧
          sys.counters.load (.reserved e) = currentReserved ∧ spurious = false
    · obtain ⟨e, _, committed, rfl, rfl, rfl⟩ := hsucc
      obtain ⟨hsee, hroom⟩ := hsees rfl rfl
      simp only [advanceReserve, and_self, if_true] at hstep
      cases hstep
      have hmoved := exposed_settle hi (sys.counters.store (.reserved e)
        ((sys.counters.load (.reserved e) + r.amount e) % (u64Max + 1)))
        (.running (.tryReserve r (afterReserved r e))) d
      have hwithin := within_compareExchange h hi hsee hroom d
      rw [counters_settle]
      simp only [Outcome.exposure, Call.exposure] at hmoved
      omega
    · refine within_of_contained h hi ?_ d
      have hcontained := contained_reserve ctl (r := r)
        fun e currentReserved committed hpc hboth =>
          hsucc ⟨e, currentReserved, committed, hpc, hboth.1, hboth.2⟩
      rwa [hstep] at hcontained

theorem exposure_drop (r : Reservation) (d : Resource) :
    (Call.straight (ReservationGuard.drop r) false).exposure d = 0 := by
  simp [Call.exposure, ReservationGuard.drop, subReserved, decrementActiveGuards,
    AtomicStep.brings]

theorem exposure_commitWithActual (r : Reservation) (actualBytes actualOps : Nat)
    (d : Resource) :
    (Call.straight (ReservationGuard.commitWithActual r actualBytes actualOps) false).exposure d =
      0 := by
  unfold ReservationGuard.commitWithActual
  split
  · exact exposure_drop r d
  · rename_i hfits
    cases d <;>
      simp [Call.exposure, transferReservedToCommitted, decrementActiveGuards,
        AtomicStep.brings, AtomicStep.owes] <;> omega

theorem limited_of_unexposed {ctl : AdmissionController} {sys : AdmissionSystem}
    (h : Limited ctl sys) {call : Call} {guards : List Reservation}
    (hbalanced : Balanced { sys with calls := call :: sys.calls, guards := guards })
    (hexposure : ∀ d, call.exposure d = 0) (hchecked : call.Checked ctl) :
    Limited ctl { sys with calls := call :: sys.calls, guards := guards } := by
  refine ⟨hbalanced, fun next hnext => ?_, fun d => ?_⟩
  · cases List.mem_cons.mp hnext with
    | inl heq => exact heq ▸ hchecked
    | inr hold => exact h.checked next hold
  · have hbefore := h.within d
    simp only [exposed, Ledger.total_cons, hexposure d, Nat.zero_add] at hbefore ⊢
    exact hbefore

theorem limited_consume {ctl : AdmissionController} {sys sys' : AdmissionSystem}
    (h : Limited ctl sys) {g : Nat} {program : Reservation → List AtomicStep}
    (hexposure : ∀ r d, (Call.straight (program r) false).exposure d = 0)
    (hbalanced : Balanced sys') (heq : sys.consume g program = some sys') :
    Limited ctl sys' := by
  unfold consume at heq
  split at heq
  · cases heq
  · rename_i r hr
    cases heq
    exact limited_of_unexposed h hbalanced (hexposure r) trivial

theorem limited_step {ctl : AdmissionController} (sys : AdmissionSystem)
    (action : AdmissionAction) (sys' : AdmissionSystem) (h : Limited ctl sys)
    (hfits : FitsLimit sys action) (hstep : step ctl sys action = some sys') :
    Limited ctl sys' := by
  have hbalanced := balanced_step sys action sys' h.balanced (fits_of_fitsLimit hfits) hstep
  cases action with
  | tryReserve bytes ops =>
    simp only [step] at hstep
    split at hstep
    · cases hstep
    · split at hstep
      · cases hstep
        exact h
      · cases hstep
        refine limited_of_unexposed h hbalanced (fun _ => rfl) ?_
        by_cases hbytes : bytes = 0 <;> by_cases hops : ops = 0 <;>
          simp [enterBytes, enterOps, hbytes, hops, Call.Checked]
  | commitWithActual g actualBytes actualOps =>
    exact limited_consume h (fun r d => exposure_commitWithActual r _ _ d) hbalanced hstep
  | abort g => exact limited_consume h exposure_drop hbalanced hstep
  | drop g => exact limited_consume h exposure_drop hbalanced hstep
  | tryResetToZero =>
    cases hstep
    exact limited_of_unexposed h hbalanced (fun _ => rfl) trivial
  | advance i spurious =>
    simp only [step] at hstep
    split at hstep
    · cases hstep
    · rename_i call hi
      split at hstep
      · cases hstep
      · rename_i s outcome hadvance
        cases hstep
        refine ⟨hbalanced, fun next hnext => ?_, within_advance h hi (hfits call hi) hadvance⟩
        cases mem_calls_settle hnext with
        | inl hold => exact h.checked next hold
        | inr hrun =>
          subst hrun
          exact checked_advance hadvance

theorem limited_start (ctl : AdmissionController) : Limited ctl start := by
  refine ⟨balanced_start, fun call hcall => ?_, fun d => ?_⟩
  · cases hcall
  · cases d <;> exact Nat.zero_le _

def WithinLimits (ctl : AdmissionController) (s : SharedBufferState) : Prop :=
  s.committedBytes + s.reservedBytes ≤ ctl.maxBytes ∧ s.committedOps + s.reservedOps ≤ ctl.maxOps

theorem admission_within_limits_of_run {ctl : AdmissionController}
    {actions : List AdmissionAction} {sys : AdmissionSystem}
    (hfits : StepSystem.RunOk (step ctl) FitsLimit start actions)
    (hrun : StepSystem.run (step ctl) start actions = some sys) :
    WithinLimits ctl sys.counters := by
  have h := StepSystem.invariant_of_runOk limited_step (limited_start ctl) hfits hrun
  exact ⟨Nat.le_of_add_right_le (h.within .bytes), Nat.le_of_add_right_le (h.within .ops)⟩

theorem fitsLimit_of_call {sys : AdmissionSystem} {i : Nat} {spurious : Bool} {call : Call}
    (hi : sys.calls[i]? = some call) (hsees : SeesCommits sys spurious call) :
    FitsLimit sys (.advance i spurious) := by
  intro call' hi'
  rw [hi] at hi'
  cases hi'
  exact hsees

/-- One reservation, up to the point where its commit has released it. -/
theorem admission_within_limits_of_commit :
    WithinLimits ⟨10, 10⟩ ⟨0, 0, 0, 0, 1⟩ := by
  refine @admission_within_limits_of_run ⟨10, 10⟩
    [.tryReserve 0 1, .advance 0 false, .advance 0 false, .advance 0 false, .advance 0 false,
      .commitWithActual 0 0 1, .advance 0 false, .advance 0 false]
    ⟨⟨0, 0, 0, 0, 1⟩, [.straight [.assertNoUnderflow, .fetchAdd (.committed .bytes) 0,
      .fetchAdd (.committed .ops) 1, .fetchSub .activeGuards 1, .assertNoUnderflow] false], []⟩
    ?_ rfl
  have hsees : 0 + 0 ≤ 0 ∧ 0 + 0 + 1 ≤ u64Max := by decide
  have hguard : 0 < u64Max := by decide
  refine StepSystem.runOk_cons_of_step
    (t := ⟨⟨0, 0, 0, 0, 0⟩, [.tryReserve ⟨0, 1⟩ (.loadReserved .ops)], []⟩) trivial rfl ?_
  refine StepSystem.runOk_cons_of_step
    (t := ⟨⟨0, 0, 0, 0, 0⟩, [.tryReserve ⟨0, 1⟩ (.loadCommitted .ops 0)], []⟩)
    (fitsLimit_of_call rfl trivial) rfl ?_
  refine StepSystem.runOk_cons_of_step
    (t := ⟨⟨0, 0, 0, 0, 0⟩, [.tryReserve ⟨0, 1⟩ (.compareExchange .ops 0 0)], []⟩)
    (fitsLimit_of_call rfl trivial) rfl ?_
  refine StepSystem.runOk_cons_of_step
    (t := ⟨⟨0, 0, 0, 1, 0⟩, [.tryReserve ⟨0, 1⟩ .newGuard], []⟩)
    (fitsLimit_of_call rfl fun _ _ => hsees) rfl ?_
  refine StepSystem.runOk_cons_of_step
    (t := ⟨⟨0, 0, 0, 1, 1⟩, [], [⟨0, 1⟩]⟩) (fitsLimit_of_call rfl hguard) rfl ?_
  refine StepSystem.runOk_cons_of_step
    (t := ⟨⟨0, 0, 0, 1, 1⟩,
      [.straight (ReservationGuard.commitWithActual ⟨0, 1⟩ 0 1) false], []⟩) trivial rfl ?_
  refine StepSystem.runOk_cons_of_step (fitsLimit_of_call rfl trivial) rfl ?_
  exact StepSystem.runOk_cons_of_step (fitsLimit_of_call rfl trivial) rfl trivial

/-- Between the loads and the compare-exchange of one client, another one reserves and
commits: `reserved` is back at the loaded value, `committed` is not. -/
theorem stale_committed_exceeds_limit :
    ∃ sys, StepSystem.run (step ⟨10, 10⟩) start
      [.tryReserve 6 0, .advance 0 false, .advance 0 false,
        .tryReserve 6 0, .advance 0 false, .advance 0 false, .advance 0 false, .advance 0 false,
        .commitWithActual 0 6 0, .advance 0 false, .advance 0 false, .advance 0 false,
        .advance 0 false, .advance 1 false] = some sys ∧
      ¬ WithinLimits ⟨10, 10⟩ sys.counters := by
  refine ⟨_, rfl, fun hlimits => ?_⟩
  have hbytes := hlimits.1
  revert hbytes
  decide

end AdmissionSystem
end Sqry
