import Sqry.Lib.Ledger

/-!
The cancellable waits of one process for one persist lock file. A wait joins the helper
that blocks on the lock, or starts one; a helper that is done leaves the registry and hands
its answer to a waiter. Every step is one section under the registry's or an entry's lock.
-/

namespace Sqry.PersistLock

/-- What `flock` gave a helper: the locked file, by the entry it was opened for, or an error. -/
inductive LockAnswer
  | file (id : Nat)
  | error
  deriving DecidableEq

structure SharedLockState where
  interested : Nat := 0
  answer : Option LockAnswer := none
  finished : Bool := false
  deriving DecidableEq

/-- Where a helper thread is: in `flock`, at the end of its closure, past `HelperExit::drop`
with its fields still to drop, or gone. -/
inductive HelperPc
  | locking
  | exiting (answer : Option LockAnswer)
  | dropping (answer : Option LockAnswer)
  | gone
  deriving DecidableEq

structure SharedLockWait where
  state : SharedLockState := {}
  helper : HelperPc := .locking
  deriving DecidableEq

inductive LockWait
  | cancelled
  | indexRemoved
  | failed
  | held
  deriving DecidableEq

/-- Where a wait is: before `attach`, before it first locks its entry, in `wait_timeout`,
in `arrived` with the file it took, holding the lock, or returned. -/
inductive WaitPc
  | attaching
  | attached (entry : Nat)
  | parked (entry : Nat)
  | arrived (file : Nat)
  | holding (file : Nat)
  | returned (outcome : LockWait)
  deriving DecidableEq

inductive Holder
  | other
  | file (id : Nat)
  deriving DecidableEq

inductive LockEvent
  | won (file : Nat)
  | taken (file : Nat) (waiter : Nat)
  | dropped (file : Nat)
  deriving DecidableEq

/-- The process: the registry's entry for the key, every entry ever made for it, the waits,
the holder of the lock file, and what became of the locks the helpers won. -/
structure LockWaits where
  registry : Option Nat := none
  shared : List SharedLockWait := []
  waiters : List WaitPc := []
  locked : Option Holder := none
  events : List LockEvent := []
  deriving DecidableEq

/-- What `attach` meets in the file system and on `spawn`. -/
structure AttachWorld where
  named : Bool := true
  openFails : Bool := false
  namedAfter : Bool := true
  sameFile : Bool := true
  spawnFails : Bool := false
  deriving DecidableEq

namespace SharedLockState

/-- `interested -= 1`; `none` is the underflow. -/
def leave (st : SharedLockState) : Option SharedLockState :=
  if st.interested = 0 then none else some { st with interested := st.interested - 1 }

end SharedLockState

namespace LockWaits

def setWaiter (s : LockWaits) (w : Nat) (pc : WaitPc) : LockWaits :=
  { s with waiters := s.waiters.set w pc }

def setShared (s : LockWaits) (e : Nat) (x : SharedLockWait) : LockWaits :=
  { s with shared := s.shared.set e x }

def record (s : LockWaits) (event : LockEvent) : LockWaits :=
  { s with events := s.events ++ [event] }

def close (s : LockWaits) (f : Nat) : LockWaits :=
  { s with locked := if s.locked = some (.file f) then none else s.locked }

def dropAnswer (s : LockWaits) : Option LockAnswer → LockWaits
  | some (.file f) => (s.close f).record (.dropped f)
  | some .error | none => s

/-- The second half of `attach`: no helper to join. -/
def startHelper (s : LockWaits) (w : Nat) (world : AttachWorld) : LockWaits :=
  if !world.named then s.setWaiter w (.returned .indexRemoved)
  else if world.openFails then
    s.setWaiter w (.returned (if world.namedAfter then .failed else .indexRemoved))
  else if !world.sameFile then s.setWaiter w (.returned .indexRemoved)
  else if world.spawnFails then s.setWaiter w (.returned .failed)
  else
    let shared : SharedLockWait := { state := { interested := 1 } }
    { s.setWaiter w (.attached s.shared.length) with
      shared := s.shared ++ [shared], registry := some s.shared.length }

def attach (s : LockWaits) (w : Nat) (world : AttachWorld) : LockWaits :=
  match s.registry with
  | none => s.startHelper w world
  | some e =>
    match s.shared[e]? with
    | none => s.startHelper w world
    | some x =>
      if x.state.finished then s.startHelper w world
      else
        let state : SharedLockState := { x.state with interested := x.state.interested + 1 }
        (s.setShared e { x with state := state }).setWaiter w (.attached e)

/-- `HelperExit::drop`, with the answer the helper came to. -/
def helperExit (s : LockWaits) (e : Nat) (x : SharedLockWait) (answer : Option LockAnswer) :
    LockWaits :=
  let s : LockWaits := { s with registry := if s.registry = some e then none else s.registry }
  let state : SharedLockState := { x.state with finished := true }
  if 0 < state.interested then
    s.setShared e { state := { state with answer := answer }, helper := .dropping none }
  else s.setShared e { state := state, helper := .dropping answer }

def takeAnswer (s : LockWaits) (w : Nat) : LockAnswer → LockWaits
  | .file f => (s.setWaiter w (.arrived f)).record (.taken f w)
  | .error => s.setWaiter w (.returned .failed)

/-- The top of the wait loop, under the entry's lock, and then `wait_timeout`. -/
def look (s : LockWaits) (w e : Nat) (x : SharedLockWait) : Option LockWaits :=
  match x.state.answer with
  | some answer =>
    ({ x.state with answer := none } : SharedLockState).leave.map fun state =>
      (s.setShared e { x with state := state }).takeAnswer w answer
  | none =>
    if x.state.finished then
      x.state.leave.map fun state =>
        (s.setShared e { x with state := state }).setWaiter w .attaching
    else some (s.setWaiter w (.parked e))

def giveUp (s : LockWaits) (w e : Nat) (x : SharedLockWait) (outcome : LockWait) :
    Option LockWaits :=
  x.state.leave.map fun state =>
    if state.interested = 0 then
      ((s.setShared e { x with state := { state with answer := none } }).dropAnswer
        state.answer).setWaiter w (.returned outcome)
    else (s.setShared e { x with state := state }).setWaiter w (.returned outcome)

/-- The wait loop from where `w` is to its next `wait_timeout` or its end. -/
def wake (s : LockWaits) (w : Nat) (cancelled named : Bool) : Option LockWaits :=
  match s.waiters[w]? with
  | some (.attached e) => s.shared[e]?.bind fun x => s.look w e x
  | some (.parked e) =>
    s.shared[e]?.bind fun x =>
      if cancelled then s.giveUp w e x .cancelled
      else if !named then s.giveUp w e x .indexRemoved
      else s.look w e x
  | _ => none

/-- `arrived`: the identity, then the cancellation, with the lock in hand. -/
def arrive (s : LockWaits) (w f : Nat) (named cancelled : Bool) : LockWaits :=
  if !named then (s.close f).setWaiter w (.returned .indexRemoved)
  else if cancelled then (s.close f).setWaiter w (.returned .cancelled)
  else s.setWaiter w (.holding f)

end LockWaits

inductive LockStep
  | contended
  | attach (w : Nat) (world : AttachWorld)
  | flockWins (e : Nat)
  | flockFails (e : Nat)
  | panics (e : Nat)
  | helperExit (e : Nat)
  | dropFields (e : Nat)
  | wake (w : Nat) (cancelled named : Bool)
  | arrive (w : Nat) (named cancelled : Bool)
  | unlock (w : Nat)
  | otherLocks
  | otherUnlocks
  deriving DecidableEq

namespace LockWaits

/-- A wait starts when `try_lock` finds another holder; a helper's `flock` succeeds when
there is none. -/
def step (s : LockWaits) : LockStep → Option LockWaits
  | .contended =>
    if s.locked.isSome then some { s with waiters := s.waiters ++ [.attaching] } else none
  | .attach w world =>
    if s.waiters[w]? = some .attaching then some (s.attach w world) else none
  | .flockWins e =>
    s.shared[e]?.bind fun x =>
      if x.helper = .locking ∧ s.locked = none then
        let s : LockWaits := { s with locked := some (.file e) }
        some ((s.setShared e { x with helper := .exiting (some (.file e)) }).record (.won e))
      else none
  | .flockFails e =>
    s.shared[e]?.bind fun x =>
      if x.helper = .locking then
        some (s.setShared e { x with helper := .exiting (some .error) }) else none
  | .panics e =>
    s.shared[e]?.bind fun x =>
      if x.helper = .locking then some (s.setShared e { x with helper := .exiting none })
      else none
  | .helperExit e =>
    s.shared[e]?.bind fun x =>
      match x.helper with
      | .exiting answer => some (s.helperExit e x answer)
      | _ => none
  | .dropFields e =>
    s.shared[e]?.bind fun x =>
      match x.helper with
      | .dropping answer => some ((s.setShared e { x with helper := .gone }).dropAnswer answer)
      | _ => none
  | .wake w cancelled named => s.wake w cancelled named
  | .arrive w named cancelled =>
    match s.waiters[w]? with
    | some (.arrived f) => some (s.arrive w f named cancelled)
    | _ => none
  | .unlock w =>
    match s.waiters[w]? with
    | some (.holding f) => some ((s.close f).setWaiter w (.returned .held))
    | _ => none
  | .otherLocks => if s.locked = none then some { s with locked := some .other } else none
  | .otherUnlocks => if s.locked = some .other then some { s with locked := none } else none

end LockWaits

/-- The wait is attached to entry `e`. -/
def WaitPc.on (e : Nat) : WaitPc → Nat
  | .attached e' | .parked e' => if e' = e then 1 else 0
  | _ => 0

/-- The wait has the lock file of entry `e`. -/
def WaitPc.carries (e : Nat) : WaitPc → Nat
  | .arrived f | .holding f => if f = e then 1 else 0
  | _ => 0

def LockEvent.wins (e : Nat) : LockEvent → Nat
  | .won f => if f = e then 1 else 0
  | _ => 0

def LockEvent.takes (e : Nat) : LockEvent → Nat
  | .taken f _ => if f = e then 1 else 0
  | _ => 0

def LockEvent.drops (e : Nat) : LockEvent → Nat
  | .dropped f => if f = e then 1 else 0
  | _ => 0

def LockAnswer.files : Option LockAnswer → Nat
  | some (.file _) => 1
  | some .error | none => 0

def SharedLockWait.unclaimed (x : SharedLockWait) : Nat :=
  LockAnswer.files x.state.answer +
    match x.helper with
    | .exiting answer | .dropping answer => LockAnswer.files answer
    | .locking | .gone => 0

namespace LockWaits

def attachedTo (s : LockWaits) (e : Nat) : Nat := Ledger.total (WaitPc.on e) s.waiters
def carried (s : LockWaits) (e : Nat) : Nat := Ledger.total (WaitPc.carries e) s.waiters
def won (s : LockWaits) (e : Nat) : Nat := Ledger.total (LockEvent.wins e) s.events
def taken (s : LockWaits) (e : Nat) : Nat := Ledger.total (LockEvent.takes e) s.events
def dropped (s : LockWaits) (e : Nat) : Nat := Ledger.total (LockEvent.drops e) s.events

end LockWaits

end Sqry.PersistLock
