import Sqry.Graph.Arena

/-!
The shared counters of admission control and the atomic steps that the operations on
them consist of. Counters are `usize`: additions and subtractions wrap.
-/

namespace Sqry

inductive Resource where
  | bytes
  | ops
  deriving DecidableEq, Repr

structure SharedBufferState where
  committedBytes : Nat
  committedOps : Nat
  reservedBytes : Nat
  reservedOps : Nat
  activeGuards : Nat
  deriving DecidableEq, Repr

inductive Counter where
  | committed (d : Resource)
  | reserved (d : Resource)
  | activeGuards
  deriving DecidableEq, Repr

namespace SharedBufferState

def new : SharedBufferState := ⟨0, 0, 0, 0, 0⟩

def load (s : SharedBufferState) : Counter → Nat
  | .committed .bytes => s.committedBytes
  | .committed .ops => s.committedOps
  | .reserved .bytes => s.reservedBytes
  | .reserved .ops => s.reservedOps
  | .activeGuards => s.activeGuards

def store (s : SharedBufferState) (c : Counter) (n : Nat) : SharedBufferState :=
  match c with
  | .committed .bytes => { s with committedBytes := n }
  | .committed .ops => { s with committedOps := n }
  | .reserved .bytes => { s with reservedBytes := n }
  | .reserved .ops => { s with reservedOps := n }
  | .activeGuards => { s with activeGuards := n }

@[simp] theorem load_store_self (s : SharedBufferState) (c : Counter) (n : Nat) :
    (s.store c n).load c = n := by
  cases c with
  | committed d => cases d <;> rfl
  | reserved d => cases d <;> rfl
  | activeGuards => rfl

theorem load_store_ne (s : SharedBufferState) {c c' : Counter} (h : c' ≠ c) (n : Nat) :
    (s.store c n).load c' = s.load c' := by
  cases c with
  | committed d =>
    cases d <;> cases c' with
    | committed d' => cases d' <;> first | rfl | exact absurd rfl h
    | reserved d' => cases d' <;> rfl
    | activeGuards => rfl
  | reserved d =>
    cases d <;> cases c' with
    | committed d' => cases d' <;> rfl
    | reserved d' => cases d' <;> first | rfl | exact absurd rfl h
    | activeGuards => rfl
  | activeGuards =>
    cases c' with
    | committed d' => cases d' <;> rfl
    | reserved d' => cases d' <;> rfl
    | activeGuards => exact absurd rfl h

def fetchAdd (s : SharedBufferState) (c : Counter) (n : Nat) : SharedBufferState :=
  s.store c ((s.load c + n) % (u64Max + 1))

def fetchSub (s : SharedBufferState) (c : Counter) (n : Nat) : SharedBufferState :=
  s.store c ((s.load c + (u64Max + 1) - n) % (u64Max + 1))

end SharedBufferState

structure Reservation where
  bytes : Nat
  ops : Nat
  deriving DecidableEq, Repr

def Reservation.amount (r : Reservation) : Resource → Nat
  | .bytes => r.bytes
  | .ops => r.ops

/-- The steps of the straight-line operations. The asserts look at the values that the
preceding subtractions returned. -/
inductive AtomicStep where
  | fetchAdd (c : Counter) (n : Nat)
  | fetchSub (c : Counter) (n : Nat)
  | store (c : Counter) (n : Nat)
  | assertNoUnderflow
  deriving DecidableEq, Repr

def subReserved (bytes ops : Nat) : List AtomicStep :=
  [.fetchSub (.reserved .bytes) bytes, .fetchSub (.reserved .ops) ops, .assertNoUnderflow]

def transferReservedToCommitted (reservedBytes reservedOps actualBytes actualOps : Nat) :
    List AtomicStep :=
  [.fetchSub (.reserved .bytes) reservedBytes, .fetchSub (.reserved .ops) reservedOps,
    .assertNoUnderflow, .fetchAdd (.committed .bytes) actualBytes,
    .fetchAdd (.committed .ops) actualOps]

def decrementActiveGuards : List AtomicStep :=
  [.fetchSub .activeGuards 1, .assertNoUnderflow]

/-- The four stores of `try_reset_to_zero`, after its load of `active_guards`. -/
def storeZeros : List AtomicStep :=
  [.store (.committed .bytes) 0, .store (.committed .ops) 0,
    .store (.reserved .bytes) 0, .store (.reserved .ops) 0]

namespace ReservationGuard

def drop (r : Reservation) : List AtomicStep :=
  subReserved r.bytes r.ops ++ decrementActiveGuards

def abort (r : Reservation) : List AtomicStep :=
  subReserved r.bytes r.ops ++ decrementActiveGuards

/-- An actual usage above the reservation is refused; the guard then gets its reservation
back and is dropped with it. -/
def commitWithActual (r : Reservation) (actualBytes actualOps : Nat) : List AtomicStep :=
  if actualBytes > r.bytes ∨ actualOps > r.ops then drop r
  else
    transferReservedToCommitted r.bytes r.ops actualBytes actualOps ++ decrementActiveGuards

end ReservationGuard
end Sqry

/-!
Clients of admission control. Each call in progress takes one atomic step at a time, in
any order relative to the others; guards that were granted wait in a pool until some
client commits, aborts or drops them.
-/

namespace Sqry

inductive AdmissionError where
  | byteLimitExceeded (requested available max : Nat)
  | opsLimitExceeded (requested available max : Nat)
  | zeroReservation
  deriving DecidableEq, Repr

structure AdmissionController where
  maxBytes : Nat
  maxOps : Nat
  deriving DecidableEq, Repr

def saturatingAdd (m n : Nat) : Nat := min (m + n) u64Max

namespace AdmissionController

def max (ctl : AdmissionController) : Resource → Nat
  | .bytes => ctl.maxBytes
  | .ops => ctl.maxOps

def checkLimit (exceeded : Nat → Nat → Nat → AdmissionError) (max committed reserved requested : Nat) :
    Except AdmissionError Unit :=
  if saturatingAdd (saturatingAdd committed reserved) requested > max then
    .error (exceeded requested (max - saturatingAdd committed reserved) max)
  else .ok ()

def checkByteLimit (ctl : AdmissionController) : Nat → Nat → Nat → Except AdmissionError Unit :=
  checkLimit .byteLimitExceeded ctl.maxBytes

def checkOpsLimit (ctl : AdmissionController) : Nat → Nat → Nat → Except AdmissionError Unit :=
  checkLimit .opsLimitExceeded ctl.maxOps

def check (ctl : AdmissionController) : Resource → Nat → Nat → Nat → Except AdmissionError Unit
  | .bytes => ctl.checkByteLimit
  | .ops => ctl.checkOpsLimit

end AdmissionController

/-- Where a call of `try_reserve` is, with the values it has loaded. -/
inductive ReservePc where
  | loadReserved (d : Resource)
  | loadCommitted (d : Resource) (currentReserved : Nat)
  | compareExchange (d : Resource) (currentReserved committed : Nat)
  | rollbackLoad (err : AdmissionError)
  | rollbackCompareExchange (err : AdmissionError) (current : Nat)
  | newGuard
  deriving DecidableEq, Repr

inductive Call where
  | tryReserve (r : Reservation) (pc : ReservePc)
  | tryResetToZero
  | straight (todo : List AtomicStep) (underflowed : Bool)
  deriving DecidableEq, Repr

inductive Outcome where
  | running (call : Call)
  | granted (r : Reservation)
  | refused (err : AdmissionError)
  | returned
  deriving DecidableEq, Repr

def enterOps (r : Reservation) : ReservePc :=
  if r.ops = 0 then .newGuard else .loadReserved .ops

def enterBytes (r : Reservation) : ReservePc :=
  if r.bytes = 0 then enterOps r else .loadReserved .bytes

def afterReserved (r : Reservation) : Resource → ReservePc
  | .bytes => enterOps r
  | .ops => .newGuard

def afterRefused (r : Reservation) (err : AdmissionError) : Resource → Outcome
  | .bytes => .refused err
  | .ops => if r.bytes > 0 then .running (.tryReserve r (.rollbackLoad err)) else .refused err

/-- One atomic step of `try_reserve`. The weak compare-exchange may fail spuriously. -/
def advanceReserve (ctl : AdmissionController) (s : SharedBufferState) (r : Reservation)
    (spurious : Bool) : ReservePc → SharedBufferState × Outcome
  | .loadReserved d => (s, .running (.tryReserve r (.loadCommitted d (s.load (.reserved d)))))
  | .loadCommitted d currentReserved =>
    match ctl.check d (s.load (.committed d)) currentReserved (r.amount d) with
    | .error err => (s, afterRefused r err d)
    | .ok () =>
      (s, .running (.tryReserve r
        (.compareExchange d currentReserved (s.load (.committed d)))))
  | .compareExchange d currentReserved _ =>
    if s.load (.reserved d) = currentReserved ∧ spurious = false then
      (s.store (.reserved d) ((currentReserved + r.amount d) % (u64Max + 1)),
        .running (.tryReserve r (afterReserved r d)))
    else (s, .running (.tryReserve r (.loadReserved d)))
  | .rollbackLoad err =>
    if s.load (.reserved .bytes) ≥ r.bytes then
      (s, .running (.tryReserve r (.rollbackCompareExchange err (s.load (.reserved .bytes)))))
    else (s, .refused err)
  | .rollbackCompareExchange err current =>
    if s.load (.reserved .bytes) = current ∧ spurious = false then
      (s.store (.reserved .bytes) (current - r.bytes), .refused err)
    else (s, .running (.tryReserve r (.rollbackLoad err)))
  | .newGuard => (s.fetchAdd .activeGuards 1, .granted r)

def advanceStraight (s : SharedBufferState) (underflowed : Bool) :
    List AtomicStep → Option (SharedBufferState × Outcome)
  | [] => some (s, .returned)
  | .fetchAdd c n :: todo => some (s.fetchAdd c n, .running (.straight todo underflowed))
  | .fetchSub c n :: todo =>
    some (s.fetchSub c n, .running (.straight todo (underflowed || decide (s.load c < n))))
  | .store c n :: todo => some (s.store c n, .running (.straight todo underflowed))
  | .assertNoUnderflow :: todo =>
    if underflowed then none else some (s, .running (.straight todo false))

def advance (ctl : AdmissionController) (s : SharedBufferState) (spurious : Bool) :
    Call → Option (SharedBufferState × Outcome)
  | .tryReserve r pc => some (advanceReserve ctl s r spurious pc)
  | .tryResetToZero =>
    if s.load .activeGuards > 0 then some (s, .returned)
    else some (s, .running (.straight storeZeros false))
  | .straight todo underflowed => advanceStraight s underflowed todo

structure AdmissionSystem where
  counters : SharedBufferState
  calls : List Call
  guards : List Reservation
  deriving DecidableEq, Repr

inductive AdmissionAction where
  | tryReserve (bytes ops : Nat)
  | commitWithActual (guard actualBytes actualOps : Nat)
  | abort (guard : Nat)
  | drop (guard : Nat)
  | tryResetToZero
  | advance (call : Nat) (spurious : Bool)
  deriving DecidableEq, Repr

namespace AdmissionSystem

def start : AdmissionSystem := ⟨SharedBufferState.new, [], []⟩

def settle (sys : AdmissionSystem) (i : Nat) (s : SharedBufferState) : Outcome → AdmissionSystem
  | .running call => { sys with counters := s, calls := sys.calls.set i call }
  | .granted r => ⟨s, sys.calls.eraseIdx i, r :: sys.guards⟩
  | .refused _ => { sys with counters := s, calls := sys.calls.eraseIdx i }
  | .returned => { sys with counters := s, calls := sys.calls.eraseIdx i }

/-- A call that consumes the guard at position `g` of the pool. -/
def consume (sys : AdmissionSystem) (g : Nat) (program : Reservation → List AtomicStep) :
    Option AdmissionSystem :=
  match sys.guards[g]? with
  | none => none
  | some r =>
    some { sys with calls := .straight (program r) false :: sys.calls,
                    guards := sys.guards.eraseIdx g }

def step (ctl : AdmissionController) (sys : AdmissionSystem) :
    AdmissionAction → Option AdmissionSystem
  | .tryReserve bytes ops =>
    if bytes > u64Max ∨ ops > u64Max then none
    else if bytes = 0 ∧ ops = 0 then some sys
    else
      some { sys with calls := .tryReserve ⟨bytes, ops⟩ (enterBytes ⟨bytes, ops⟩) :: sys.calls }
  | .commitWithActual g actualBytes actualOps =>
    sys.consume g fun r => ReservationGuard.commitWithActual r actualBytes actualOps
  | .abort g => sys.consume g ReservationGuard.abort
  | .drop g => sys.consume g ReservationGuard.drop
  | .tryResetToZero => some { sys with calls := .tryResetToZero :: sys.calls }
  | .advance i spurious =>
    match sys.calls[i]? with
    | none => none
    | some call =>
      match advance ctl sys.counters spurious call with
      | none => none
      | some (s, outcome) => some (sys.settle i s outcome)

end AdmissionSystem
end Sqry
