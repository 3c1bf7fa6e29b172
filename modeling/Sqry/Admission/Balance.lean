import Sqry.Lib.Ledger
import Sqry.Admission.Controller

/-!
The books of admission control. Every call in progress and every outstanding guard owes
future subtractions to `reserved` and `active_guards`; these counters always show the
total of what is owed, as long as no reset wipes out a debt and no addition wraps.
-/

namespace Sqry

namespace SharedBufferState

variable {s : SharedBufferState} {c : Counter}

theorem load_fetchAdd {n : Nat} (h : s.load c + n ≤ u64Max)
    : (s.fetchAdd c n).load c = s.load c + n := by
  rw [fetchAdd, load_store_self, Nat.mod_eq_of_lt (Nat.lt_succ_of_le h)]

theorem load_fetchSub {n : Nat} (h : n ≤ s.load c) (hb : s.load c ≤ u64Max)
    : (s.fetchSub c n).load c = s.load c - n := by
  have hwrap : s.load c + (u64Max + 1) - n = s.load c - n + (u64Max + 1) := by omega
  rw [fetchSub, load_store_self, hwrap, Nat.add_mod_right, Nat.mod_eq_of_lt (by omega)]

theorem load_fetchAdd_ne (s : SharedBufferState) {c c' : Counter} (h : c' ≠ c) (n : Nat) :
    (s.fetchAdd c n).load c' = s.load c' := load_store_ne s h _

theorem load_fetchSub_ne (s : SharedBufferState) {c c' : Counter} (h : c' ≠ c) (n : Nat) :
    (s.fetchSub c n).load c' = s.load c' := load_store_ne s h _

def Bounded (s : SharedBufferState) : Prop := ∀ c, s.load c ≤ u64Max

theorem bounded_store (h : s.Bounded) {n : Nat} (hn : n ≤ u64Max) : (s.store c n).Bounded := by
  intro c'
  by_cases hc : c' = c
  · subst hc
    rwa [load_store_self]
  · rw [load_store_ne s hc]
    exact h c'

theorem bounded_mod (h : s.Bounded) (c : Counter) (n : Nat) :
    (s.store c (n % (u64Max + 1))).Bounded :=
  bounded_store h (Nat.le_of_lt_succ (Nat.mod_lt _ (Nat.succ_pos _)))

end SharedBufferState

def Counter.Held : Counter → Prop
  | .committed _ => False
  | .reserved _ => True
  | .activeGuards => True

def AtomicStep.owes (c : Counter) : AtomicStep → Nat
  | .fetchSub c' n => if c' = c then n else 0
  | _ => 0

def Reservation.owes (c : Counter) (r : Reservation) : Nat :=
  match c with
  | .committed _ => 0
  | .reserved d => r.amount d
  | .activeGuards => 1

/-- Whether a call of `try_reserve` has already added its amount of the resource. -/
def ReservePc.holds : ReservePc → Resource → Bool
  | .loadReserved .ops, .bytes => true
  | .loadCommitted .ops _, .bytes => true
  | .compareExchange .ops _ _, .bytes => true
  | .rollbackLoad _, .bytes => true
  | .rollbackCompareExchange _ _, .bytes => true
  | .newGuard, _ => true
  | _, _ => false

def Call.owes (c : Counter) : Call → Nat
  | .tryReserve r pc =>
    match c with
    | .reserved d => if pc.holds d then r.amount d else 0
    | _ => 0
  | .tryResetToZero => 0
  | .straight todo _ => Ledger.total (AtomicStep.owes c) todo

def Outcome.owes (c : Counter) : Outcome → Nat
  | .running call => call.owes c
  | .granted r => r.owes c
  | .refused _ => 0
  | .returned => 0

/-- Straight-line operations subtract from held counters, add to committed ones once
their subtractions from `reserved` are done, and store zeros. -/
def Ordered : List AtomicStep → Prop
  | [] => True
  | .fetchAdd c _ :: todo =>
    (∃ d, c = .committed d) ∧
      (∀ d, Ledger.total (AtomicStep.owes (.reserved d)) todo = 0) ∧ Ordered todo
  | .fetchSub c _ :: todo => c.Held ∧ Ordered todo
  | .store c n :: todo => n = 0 ∧ c ≠ .activeGuards ∧ Ordered todo
  | .assertNoUnderflow :: todo => Ordered todo

def Call.WellFormed : Call → Prop
  | .tryReserve r (.rollbackCompareExchange _ current) => r.bytes ≤ current
  | .straight todo underflowed => underflowed = false ∧ Ordered todo
  | _ => True

def Outcome.WellFormed : Outcome → Prop
  | .running call => call.WellFormed
  | _ => True

namespace AdmissionSystem

def owed (sys : AdmissionSystem) (c : Counter) : Nat :=
  Ledger.total (Call.owes c) sys.calls + Ledger.total (Reservation.owes c) sys.guards

structure Balanced (sys : AdmissionSystem) : Prop where
  bounded : sys.counters.Bounded
  balanced : ∀ c, c.Held → sys.counters.load c = sys.owed c
  wellFormed : ∀ call ∈ sys.calls, call.WellFormed

/-- When the next step of a call keeps the books: a compare-exchange does not wrap, the
guard count does not wrap, and zero is stored into `reserved` only if nothing is owed. -/
def KeepsBooks (sys : AdmissionSystem) (spurious : Bool) : Call → Prop
  | .tryReserve r (.compareExchange d currentReserved _) =>
    sys.counters.load (.reserved d) = currentReserved → spurious = false →
      currentReserved + r.amount d ≤ u64Max
  | .tryReserve _ .newGuard => sys.counters.load .activeGuards < u64Max
  | .straight (.store (.reserved d) _ :: _) _ => sys.owed (.reserved d) = 0
  | _ => True

variable {s : SharedBufferState} {sys : AdmissionSystem} {outcome : Outcome} {call : Call}
  {r : Reservation}

theorem owes_le_load (h : Balanced sys) {c : Counter} (hc : c.Held) (hcall : call ∈ sys.calls)
    : call.owes c ≤ sys.counters.load c := by
  rw [h.balanced c hc, owed]
  exact Nat.le_trans (Ledger.le_total hcall) (Nat.le_add_right _ _)

structure Settles (s s' : SharedBufferState) (call : Call) (outcome : Outcome) : Prop where
  bounded : s'.Bounded
  balance : ∀ c, c.Held → s'.load c + call.owes c = s.load c + outcome.owes c
  wellFormed : outcome.WellFormed

theorem settles_of_same (hb : s.Bounded) (howes : ∀ c, outcome.owes c = call.owes c)
    (hw : outcome.WellFormed) :
    Settles s s call outcome :=
  ⟨hb, fun c _ => by rw [howes c], hw⟩

theorem owes_afterReserved (r : Reservation) (d : Resource) (currentReserved committed : Nat)
    (c : Counter) :
    (Call.tryReserve r (afterReserved r d)).owes c =
      (Call.tryReserve r (.compareExchange d currentReserved committed)).owes c +
        if c = .reserved d then r.amount d else 0 := by
  cases c with
  | committed e => rfl
  | activeGuards => rfl
  | reserved e =>
    cases d with
    | bytes =>
      by_cases hops : r.ops = 0 <;>
        cases e <;> simp [Call.owes, afterReserved, enterOps, hops, ReservePc.holds,
          Reservation.amount]
    | ops => cases e <;> simp [Call.owes, afterReserved, ReservePc.holds]

theorem owes_afterRefused (r : Reservation) (err : AdmissionError) (d : Resource)
    (currentReserved : Nat) (c : Counter) :
    (afterRefused r err d).owes c =
      (Call.tryReserve r (.loadCommitted d currentReserved)).owes c := by
  cases d with
  | bytes =>
    cases c with
    | committed e => rfl
    | activeGuards => rfl
    | reserved e => cases e <;> rfl
  | ops =>
    by_cases hbytes : r.bytes > 0
    · have hback : afterRefused r err .ops = .running (.tryReserve r (.rollbackLoad err)) :=
        if_pos hbytes
      rw [hback]
      cases c with
      | committed e => rfl
      | activeGuards => rfl
      | reserved e => cases e <;> rfl
    · have hzero : r.bytes = 0 := Nat.eq_zero_of_not_pos hbytes
      have hdone : afterRefused r err .ops = .refused err := if_neg hbytes
      rw [hdone]
      cases c with
      | committed e => rfl
      | activeGuards => rfl
      | reserved e =>
        cases e with
        | bytes => exact hzero.symm
        | ops => rfl

theorem wellFormed_afterRefused (r : Reservation) (err : AdmissionError) (d : Resource) :
    (afterRefused r err d).WellFormed := by
  cases d with
  | bytes => trivial
  | ops =>
    simp only [afterRefused]
    split <;> trivial

theorem wellFormed_afterReserved (r : Reservation) (d : Resource) :
    (Call.tryReserve r (afterReserved r d)).WellFormed := by
  cases d with
  | bytes =>
    by_cases hops : r.ops = 0 <;> simp [afterReserved, enterOps, hops, Call.WellFormed]
  | ops => trivial

theorem settles_compareExchange (hb : s.Bounded) {d : Resource} {committed : Nat}
    (hroom : s.load (.reserved d) + r.amount d ≤ u64Max) :
    Settles s (s.store (.reserved d) ((s.load (.reserved d) + r.amount d) % (u64Max + 1)))
      (.tryReserve r (.compareExchange d (s.load (.reserved d)) committed))
      (.running (.tryReserve r (afterReserved r d))) := by
  refine ⟨SharedBufferState.bounded_mod hb _ _, fun c _ => ?_, wellFormed_afterReserved r d⟩
  rw [Outcome.owes, owes_afterReserved r d (s.load (.reserved d)) committed]
  by_cases hc : c = .reserved d
  · subst hc
    rw [SharedBufferState.load_store_self, Nat.mod_eq_of_lt (Nat.lt_succ_of_le hroom), if_pos rfl]
    omega
  · rw [SharedBufferState.load_store_ne s hc, if_neg hc, Nat.add_zero]

theorem settles_rollback (hb : s.Bounded) {err : AdmissionError}
    (hcur : r.bytes ≤ s.load (.reserved .bytes)) :
    Settles s (s.store (.reserved .bytes) (s.load (.reserved .bytes) - r.bytes))
      (.tryReserve r (.rollbackCompareExchange err (s.load (.reserved .bytes))))
      (.refused err) := by
  refine ⟨SharedBufferState.bounded_store hb ?_, fun c hc => ?_, trivial⟩
  · exact Nat.le_trans (Nat.sub_le _ _) (hb _)
  · cases c with
    | committed d => exact absurd hc id
    | activeGuards => rfl
    | reserved d =>
      cases d with
      | bytes =>
        rw [SharedBufferState.load_store_self]
        exact Nat.sub_add_cancel hcur
      | ops => rfl

theorem settles_newGuard (hb : s.Bounded) (hroom : s.load .activeGuards < u64Max) :
    Settles s (s.fetchAdd .activeGuards 1) (.tryReserve r .newGuard) (.granted r) := by
  refine ⟨SharedBufferState.bounded_mod hb _ _, fun c hc => ?_, trivial⟩
  cases c with
  | committed d => exact absurd hc id
  | activeGuards => rw [SharedBufferState.load_fetchAdd hroom]; rfl
  | reserved d => cases d <;> rfl

theorem settles_reserve (ctl : AdmissionController) (h : Balanced sys) {pc : ReservePc}
    {spurious : Bool} (hcall : .tryReserve r pc ∈ sys.calls)
    (hkeeps : KeepsBooks sys spurious (.tryReserve r pc)) :
    Settles sys.counters (advanceReserve ctl sys.counters r spurious pc).1 (.tryReserve r pc)
      (advanceReserve ctl sys.counters r spurious pc).2 := by
  cases pc with
  | loadReserved d =>
    refine settles_of_same h.bounded (fun c => ?_) trivial
    cases c with
    | committed e => rfl
    | activeGuards => rfl
    | reserved e => cases d <;> cases e <;> rfl
  | loadCommitted d currentReserved =>
    simp only [advanceReserve]
    split
    · rename_i err _
      exact settles_of_same h.bounded (owes_afterRefused r err d currentReserved)
        (wellFormed_afterRefused r err d)
    · refine settles_of_same h.bounded (fun c => ?_) trivial
      cases c with
      | committed e => rfl
      | activeGuards => rfl
      | reserved e => cases d <;> cases e <;> rfl
  | compareExchange d currentReserved committed =>
    simp only [advanceReserve]
    split
    · rename_i hsucc
      obtain ⟨rfl, hspurious⟩ := hsucc
      exact settles_compareExchange h.bounded (hkeeps rfl hspurious)
    · refine settles_of_same h.bounded (fun c => ?_) trivial
      cases c with
      | committed e => rfl
      | activeGuards => rfl
      | reserved e => cases d <;> cases e <;> rfl
  | rollbackLoad err =>
    -- the amount to be rolled back is part of what `reserved_bytes` shows
    have hle : r.bytes ≤ sys.counters.load (.reserved .bytes) :=
      owes_le_load h (c := .reserved .bytes) trivial hcall
    simp only [advanceReserve]
    rw [if_pos hle]
    refine settles_of_same h.bounded (fun c => ?_) hle
    cases c with
    | committed e => rfl
    | activeGuards => rfl
    | reserved e => cases e <;> rfl
  | rollbackCompareExchange err current =>
    have hle : r.bytes ≤ current := h.wellFormed _ hcall
    simp only [advanceReserve]
    split
    · rename_i hsucc
      obtain ⟨rfl, -⟩ := hsucc
      exact settles_rollback h.bounded hle
    · refine settles_of_same h.bounded (fun c => ?_) trivial
      cases c with
      | committed e => rfl
      | activeGuards => rfl
      | reserved e => cases e <;> rfl
  | newGuard => exact settles_newGuard h.bounded hkeeps

theorem settles_fetchSub (hb : s.Bounded) {c : Counter} {n : Nat} {todo : List AtomicStep}
    (hle : n ≤ s.load c) (hordered : Ordered todo) :
    Settles s (s.fetchSub c n) (.straight (.fetchSub c n :: todo) false)
      (.running (.straight todo (false || decide (s.load c < n)))) := by
  refine ⟨SharedBufferState.bounded_mod hb _ _, fun c' _ => ?_, ?_, hordered⟩
  · simp only [Call.owes, Outcome.owes, Ledger.total_cons]
    by_cases hc : c' = c
    · subst hc
      rw [SharedBufferState.load_fetchSub hle (hb c'), AtomicStep.owes, if_pos rfl]
      omega
    · rw [SharedBufferState.load_fetchSub_ne s hc, AtomicStep.owes, if_neg (Ne.symm hc)]
      omega
  · simp only [Bool.false_or, decide_eq_false_iff_not]
    omega

theorem settles_straight (h : Balanced sys) {todo : List AtomicStep} {underflowed : Bool}
    (hcall : .straight todo underflowed ∈ sys.calls)
    (hkeeps : ∀ spurious, KeepsBooks sys spurious (.straight todo underflowed))
    (hstep : advanceStraight sys.counters underflowed todo = some (s, outcome)) :
    Settles sys.counters s (.straight todo underflowed) outcome := by
  obtain ⟨rfl, hordered⟩ := h.wellFormed _ hcall
  cases todo with
  | nil =>
    cases hstep
    exact settles_of_same h.bounded (fun _ => rfl) trivial
  | cons a todo =>
    cases a with
    | fetchAdd c n =>
      obtain ⟨⟨d, rfl⟩, -, hrest⟩ := hordered
      cases hstep
      refine ⟨SharedBufferState.bounded_mod h.bounded _ _, fun c' hc' => ?_, rfl, hrest⟩
      have hne : c' ≠ .committed d := fun heq => by
        rw [heq] at hc'
        exact hc'
      rw [SharedBufferState.load_fetchAdd_ne _ hne]
      simp [Call.owes, Outcome.owes, AtomicStep.owes]
    | fetchSub c n =>
      obtain ⟨hheld, hrest⟩ := hordered
      cases hstep
      have hle := owes_le_load h hheld hcall
      simp only [Call.owes, Ledger.total_cons, AtomicStep.owes, if_true] at hle
      exact settles_fetchSub h.bounded (Nat.le_trans (Nat.le_add_right n _) hle) hrest
    | store c n =>
      obtain ⟨rfl, hguards, hrest⟩ := hordered
      cases hstep
      refine ⟨SharedBufferState.bounded_store h.bounded (Nat.zero_le _), fun c' hc' => ?_,
        rfl, hrest⟩
      have howes : (Call.straight (.store c 0 :: todo) false).owes c' =
          (Outcome.running (.straight todo false)).owes c' := by
        simp [Call.owes, Outcome.owes, AtomicStep.owes]
      rw [howes]
      by_cases hc : c' = c
      · subst hc
        cases c' with
        | committed d => exact absurd hc' id
        | activeGuards => exact absurd rfl hguards
        | reserved d =>
          have hzero : sys.counters.load (.reserved d) = 0 := by
            rw [h.balanced (.reserved d) trivial]
            exact hkeeps false
          rw [SharedBufferState.load_store_self, hzero]
      · rw [SharedBufferState.load_store_ne _ hc]
    | assertNoUnderflow =>
      cases hstep
      refine settles_of_same h.bounded (fun c => ?_) ⟨rfl, hordered⟩
      simp [Call.owes, Outcome.owes, AtomicStep.owes]

theorem settles_advance {ctl : AdmissionController} (h : Balanced sys) {spurious : Bool}
    (hcall : call ∈ sys.calls)
    (hkeeps : ∀ spurious', spurious' = spurious → KeepsBooks sys spurious' call)
    (hstep : advance ctl sys.counters spurious call = some (s, outcome)) :
    Settles sys.counters s call outcome := by
  cases call with
  | tryReserve r pc =>
    have hsettles := settles_reserve ctl h hcall (hkeeps spurious rfl)
    simp only [advance, Option.some.injEq] at hstep
    rwa [hstep] at hsettles
  | tryResetToZero =>
    simp only [advance] at hstep
    split at hstep
    · cases hstep
      exact settles_of_same h.bounded (fun _ => rfl) trivial
    · cases hstep
      refine settles_of_same h.bounded (fun c => ?_) ⟨rfl, ?_⟩
      · simp [Call.owes, Outcome.owes, storeZeros, AtomicStep.owes]
      · simp [storeZeros, Ordered]
  | straight todo underflowed =>
    refine settles_straight h hcall (fun spurious' => ?_) hstep
    have hk := hkeeps spurious rfl
    cases todo with
    | nil => trivial
    | cons a todo =>
      cases a with
      | store c n =>
        cases c with
        | reserved d => exact hk
        | committed d => trivial
        | activeGuards => trivial
      | fetchAdd c n => trivial
      | fetchSub c n => trivial
      | assertNoUnderflow => trivial

theorem owed_settle {i : Nat} (hi : sys.calls[i]? = some call) (s : SharedBufferState)
    (outcome : Outcome) (c : Counter) :
    (sys.settle i s outcome).owed c + call.owes c = sys.owed c + outcome.owes c := by
  cases outcome with
  | running next =>
    have := Ledger.total_set (f := Call.owes c) hi next
    simp only [owed, settle, Outcome.owes]
    omega
  | granted r =>
    have := Ledger.total_eraseIdx (f := Call.owes c) hi
    simp only [owed, settle, Outcome.owes, Ledger.total_cons]
    omega
  | refused err =>
    have := Ledger.total_eraseIdx (f := Call.owes c) hi
    simp only [owed, settle, Outcome.owes]
    omega
  | returned =>
    have := Ledger.total_eraseIdx (f := Call.owes c) hi
    simp only [owed, settle, Outcome.owes]
    omega

theorem counters_settle (sys : AdmissionSystem) (i : Nat) (s : SharedBufferState)
    (outcome : Outcome) : (sys.settle i s outcome).counters = s := by
  cases outcome <;> rfl

theorem mem_calls_settle {i : Nat} (h : call ∈ (sys.settle i s outcome).calls) :
    call ∈ sys.calls ∨ outcome = .running call := by
  cases outcome with
  | running next =>
    cases List.mem_or_eq_of_mem_set h with
    | inl hold => exact Or.inl hold
    | inr heq => exact Or.inr (heq ▸ rfl)
  | granted r => exact Or.inl (List.mem_of_mem_eraseIdx h)
  | refused err => exact Or.inl (List.mem_of_mem_eraseIdx h)
  | returned => exact Or.inl (List.mem_of_mem_eraseIdx h)

theorem balanced_settle (h : Balanced sys) {i : Nat} (hi : sys.calls[i]? = some call)
    (hsettles : Settles sys.counters s call outcome) : Balanced (sys.settle i s outcome) := by
  refine ⟨?_, fun c hc => ?_, fun next hnext => ?_⟩
  · rw [counters_settle]
    exact hsettles.bounded
  · rw [counters_settle]
    have hmoved := owed_settle hi s outcome c
    have hbalance := hsettles.balance c hc
    have hbefore := h.balanced c hc
    omega
  · cases mem_calls_settle hnext with
    | inl hold => exact h.wellFormed next hold
    | inr heq =>
      have := hsettles.wellFormed
      rwa [heq] at this

theorem balanced_consume {sys sys' : AdmissionSystem} (h : Balanced sys) {g : Nat}
    {program : Reservation → List AtomicStep}
    (howes : ∀ r c, c.Held → Ledger.total (AtomicStep.owes c) (program r) = r.owes c)
    (hordered : ∀ r, Ordered (program r)) (heq : sys.consume g program = some sys') :
    Balanced sys' := by
  unfold consume at heq
  split at heq
  · cases heq
  · rename_i r hr
    cases heq
    refine ⟨h.bounded, fun c hc => ?_, fun call hcall => ?_⟩
    · have herase := Ledger.total_eraseIdx (f := Reservation.owes c) hr
      have hbefore := h.balanced c hc
      have hprogram := howes r c hc
      simp only [owed, Ledger.total_cons, Call.owes] at hbefore ⊢
      omega
    · cases List.mem_cons.mp hcall with
      | inl heq => exact heq ▸ ⟨rfl, hordered r⟩
      | inr hold => exact h.wellFormed call hold

theorem owes_drop (r : Reservation) (c : Counter) :
    Ledger.total (AtomicStep.owes c) (ReservationGuard.drop r) = r.owes c := by
  cases c with
  | committed d => rfl
  | reserved d => cases d <;>
      simp [ReservationGuard.drop, subReserved, decrementActiveGuards, AtomicStep.owes,
        Reservation.owes, Reservation.amount]
  | activeGuards => rfl

theorem ordered_drop (r : Reservation) : Ordered (ReservationGuard.drop r) := by
  simp [ReservationGuard.drop, subReserved, decrementActiveGuards, Ordered, Counter.Held]

theorem owes_commitWithActual (r : Reservation) (actualBytes actualOps : Nat) (c : Counter) :
    Ledger.total (AtomicStep.owes c)
      (ReservationGuard.commitWithActual r actualBytes actualOps) = r.owes c := by
  unfold ReservationGuard.commitWithActual
  split
  · exact owes_drop r c
  · cases c with
    | committed d => rfl
    | reserved d => cases d <;>
        simp [transferReservedToCommitted, decrementActiveGuards, AtomicStep.owes,
          Reservation.owes, Reservation.amount]
    | activeGuards => rfl

theorem ordered_commitWithActual (r : Reservation) (actualBytes actualOps : Nat) :
    Ordered (ReservationGuard.commitWithActual r actualBytes actualOps) := by
  unfold ReservationGuard.commitWithActual
  split
  · exact ordered_drop r
  · simp [transferReservedToCommitted, decrementActiveGuards, Ordered, Counter.Held,
      AtomicStep.owes]

theorem balanced_start : Balanced start := by
  refine ⟨fun c => ?_, fun c _ => ?_, fun call hcall => ?_⟩
  · cases c with
    | committed d => cases d <;> exact Nat.zero_le _
    | reserved d => cases d <;> exact Nat.zero_le _
    | activeGuards => exact Nat.zero_le _
  · cases c with
    | committed d => cases d <;> rfl
    | reserved d => cases d <;> rfl
    | activeGuards => rfl
  · cases hcall

theorem owes_enterBytes (r : Reservation) (c : Counter) :
    (Call.tryReserve r (enterBytes r)).owes c = 0 ∨ r.bytes = 0 ∧ r.ops = 0 := by
  by_cases hbytes : r.bytes = 0
  · by_cases hops : r.ops = 0
    · exact Or.inr ⟨hbytes, hops⟩
    · left
      cases c with
      | committed d => rfl
      | activeGuards => rfl
      | reserved d => cases d <;>
          simp [enterBytes, enterOps, hbytes, hops, Call.owes, ReservePc.holds, Reservation.amount]
  · left
    cases c with
    | committed d => rfl
    | activeGuards => rfl
    | reserved d => cases d <;> simp [enterBytes, hbytes, Call.owes, ReservePc.holds]

theorem wellFormed_enterBytes (r : Reservation) :
    (Call.tryReserve r (enterBytes r)).WellFormed := by
  by_cases hbytes : r.bytes = 0 <;> by_cases hops : r.ops = 0 <;>
    simp [enterBytes, enterOps, hbytes, hops, Call.WellFormed]

theorem balanced_call (h : Balanced sys) (howes : ∀ c, call.owes c = 0) (hw : call.WellFormed) :
    Balanced { sys with calls := call :: sys.calls } := by
  refine ⟨h.bounded, fun c hc => ?_, fun next hnext => ?_⟩
  · have hbefore := h.balanced c hc
    simp only [owed, Ledger.total_cons, howes c, Nat.zero_add] at hbefore ⊢
    exact hbefore
  · cases List.mem_cons.mp hnext with
    | inl heq => exact heq ▸ hw
    | inr hold => exact h.wellFormed next hold

def Fits (sys : AdmissionSystem) : AdmissionAction → Prop
  | .advance i spurious => ∀ call, sys.calls[i]? = some call → KeepsBooks sys spurious call
  | _ => True

theorem balanced_step {ctl : AdmissionController} (sys : AdmissionSystem)
    (action : AdmissionAction) (sys' : AdmissionSystem) (h : Balanced sys)
    (hfits : Fits sys action) (hstep : step ctl sys action = some sys') : Balanced sys' := by
  cases action with
  | tryReserve bytes ops =>
    simp only [step] at hstep
    split at hstep
    · cases hstep
    · split at hstep
      · cases hstep
        exact h
      · rename_i hnonzero
        cases hstep
        refine balanced_call h (fun c => ?_) (wellFormed_enterBytes _)
        cases owes_enterBytes ⟨bytes, ops⟩ c with
        | inl hzero => exact hzero
        | inr hboth => exact absurd hboth hnonzero
  | commitWithActual g actualBytes actualOps =>
    exact balanced_consume h (fun r c _ => owes_commitWithActual r _ _ c)
      (fun r => ordered_commitWithActual r _ _) hstep
  | abort g => exact balanced_consume h (fun r c _ => owes_drop r c) ordered_drop hstep
  | drop g => exact balanced_consume h (fun r c _ => owes_drop r c) ordered_drop hstep
  | tryResetToZero =>
    cases hstep
    exact balanced_call h (fun _ => rfl) trivial
  | advance i spurious =>
    simp only [step] at hstep
    split at hstep
    · cases hstep
    · rename_i call hi
      split at hstep
      · cases hstep
      · rename_i s outcome hadvance
        cases hstep
        refine balanced_settle h hi (settles_advance h (List.mem_of_getElem? hi) ?_ hadvance)
        rintro _ rfl
        exact hfits call hi

end AdmissionSystem
end Sqry
