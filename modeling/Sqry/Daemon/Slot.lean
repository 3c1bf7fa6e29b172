import Sqry.Daemon.Load

/-!
The rebuild dispatcher of one workspace: taking the runner role or parking behind the
runner that holds it, and the drain loop with its iterations, one shared access at a time.
The pipeline's answers come from outside.
-/

namespace Sqry.Daemon

structure RebuildReport where
  published : PublishedGraph
  mode : RebuildMode
  deriving DecidableEq, Repr

abbrev RebuildResult := Except DaemonError RebuildReport

structure Dispatcher where
  config : DaemonConfig
  view : CodeGraph → RebuildView

structure Iteration where
  entry : PendingRebuild
  priorGraph : CodeGraph
  mode : RebuildMode
  deriving DecidableEq

inductive EntryState where
  | loaded
  | failed
  | unloaded
  | rebuilding
  deriving DecidableEq, Repr

def EntryState.state : EntryState → WorkspaceState
  | .loaded => .loaded
  | .failed => .failed
  | .unloaded => .unloaded
  | .rebuilding => .rebuilding

def entryStates : List EntryState := [.loaded, .failed, .unloaded, .rebuilding]

def refusedState : EntryState → WorkspaceState
  | .rebuilding => .loaded
  | entered => entered.state

theorem refusedState_ne_rebuilding (entered : EntryState) : refusedState entered ≠ .rebuilding := by
  cases entered <;> nofun

inductive RunExit where
  | refused (entered : EntryState) (err : DaemonError)
  | cancelled (err : DaemonError)
  | failed (err : DaemonError)
  | stopped
  | unregistered
  deriving DecidableEq, Repr

inductive RunPc where
  | top (current : Option PendingRebuild)
  | cancelGate (current : Option PendingRebuild)
  | release
  | start (entry : PendingRebuild)
  | enter (it : Iteration) (tries : List EntryState) (observed : WorkspaceState)
  | checkRoster (it : Iteration)
  | leaveUnloaded (it : Iteration)
  | resolve (it : Iteration) (entered : EntryState)
  | reserve (it : Iteration) (entered : EntryState) (bytes : Nat)
  | admission (it : Iteration) (entered : EntryState) (bytes : Nat)
  | execute (it : Iteration) (entered : EntryState) (bytes : Nat) (cancelSeen : Bool)
  | recheck (it : Iteration) (bytes : Nat) (built : BuiltGraph)
  | publish (it : Iteration) (bytes : Nat) (built : BuiltGraph) (stage : PublishStage)
  | oversized (it : Iteration) (bytes : Nat) (err : DaemonError)
  | recordLocked (it : Iteration) (err : DaemonError)
  | toFailedLocked (it : Iteration) (err : DaemonError)
  | refund (it : Iteration) (bytes : Nat) (exit : RunExit)
  | refused (it : Iteration) (entered : EntryState) (err : DaemonError)
  | cancelled (it : Iteration) (err : DaemonError)
  | record (it : Iteration) (err : DaemonError)
  | toFailed (it : Iteration) (err : DaemonError)
  | clearCancelled (it : Iteration)
  | leaveUnregistered (it : Iteration)
  | deliver (it : Iteration) (result : RebuildResult)
  | next
  | done (result : RebuildResult)
  deriving DecidableEq

def RunExit.pc (it : Iteration) : RunExit → RunPc
  | .refused entered err => .refused it entered err
  | .cancelled err => .cancelled it err
  | .failed err => .record it err
  | .stopped => .deliver it (.error .workspaceEvicted)
  | .unregistered => .clearCancelled it

structure Runner where
  pc : RunPc
  lastResult : RebuildResult
  deriving DecidableEq

structure Answer where
  waiter : Nat
  result : RebuildResult
  deriving DecidableEq

def deliver (answers : List Answer) (waiters : List Nat) (result : RebuildResult) : List Answer :=
  waiters.foldl (fun sent w =>
    if sent.any (·.waiter == w) then sent else sent ++ [⟨w, result⟩]) answers

def evictedResult : RebuildResult := .error .workspaceEvicted

def drainNotRun : RebuildResult :=
  .error (.internal "the rebuild drain loop ended before any iteration ran")

namespace LoadedWorkspace

def takeCancellation (ws : LoadedWorkspace) : LoadedWorkspace × Bool :=
  (if ws.state = .evicted then ws else { ws with rebuildCancelled := false }, ws.rebuildCancelled)

def cancelRebuild (ws : LoadedWorkspace) : LoadedWorkspace :=
  if ws.rebuildInFlight then { ws with rebuildCancelled := true } else ws

end LoadedWorkspace

inductive Request where
  | watcher (changes : ChangeSet) (enqueuedAt : Nat) (gitState : Option LastIndexedGitState)
      (stopped : Bool)
  | explicit (changes : ChangeSet) (enqueuedAt : Nat) (macroRequest : MacroOptionsRequest)
      (rebuildIndex : Bool)
  deriving DecidableEq

/-- The entry a request brings; `waiter` is the sender of an explicit caller. -/
def Request.incoming (waiter : Nat) : Request → PendingRebuild
  | .watcher changes enqueuedAt gitState _ =>
    ⟨changes, enqueuedAt, gitState, .empty, [], .watcher⟩
  | .explicit changes enqueuedAt macroRequest rebuildIndex =>
    ⟨changes, enqueuedAt, none, macroRequest, [waiter],
      if rebuildIndex then .rebuildIndex else .daemonRebuild⟩

def Request.stopped : Request → Bool
  | .watcher _ _ _ stopped => stopped
  | .explicit .. => false

inductive Enqueued where
  | run (entry : PendingRebuild)
  | parked
  | refused (err : DaemonError)
  deriving DecidableEq

def differentOptionsQueued (sourceRoot : PathBuf) : DaemonError :=
  .invalidArgument ("a rebuild of " ++ sourceRoot ++
    " with different macro build options is already queued; it runs first and this request " ++
    "was not queued. Retry once it completes")

/-- `acquire_or_park_unless_stopped`, one section under the rebuild lane. -/
def LoadedWorkspace.acquireOrPark (ws : LoadedWorkspace) (incoming : PendingRebuild)
    (stopped : Bool) : LoadedWorkspace × Enqueued :=
  if stopped then (ws, .refused .workspaceEvicted)
  else if incoming.requester ≠ .watcher ∧ ws.state.isServing = false then
    (ws, .refused (if incoming.requester = .daemonRebuild then .workspaceNotLoaded
      else .workspaceEvicted))
  else
    let coalesced : Option PendingRebuild :=
      match ws.rebuildLane with
      | some prior => if prior.mergesWith incoming then some (prior.coalesceWith incoming) else none
      | none => some incoming
    match coalesced with
    | none => (ws, .refused (differentOptionsQueued ws.sourceRoot))
    | some entry =>
      if ws.rebuildInFlight then ({ ws with rebuildLane := some entry }, .parked)
      else ({ ws with rebuildLane := none, rebuildInFlight := true }, .run entry)

structure RunStep where
  ws : LoadedWorkspace
  pc : RunPc
  sent : List (List Nat × RebuildResult)
  lastResult : RebuildResult

namespace Runner

def notRebuildable (observed : WorkspaceState) : DaemonError :=
  if observed = .evicted then .workspaceEvicted
  else .workspaceBuildFailed ("workspace is " ++ observed.asStr ++ ", not rebuildable")

/-- One access of the drain loop; `none` where the step needs what it is not given. -/
def step (d : Dispatcher) (ws : LoadedWorkspace) (env : Env) (last : RebuildResult) :
    RunPc → Option RunStep
  | .top current =>
    some ⟨ws.takeCancellation.1, if ws.takeCancellation.2 then .cancelGate current
      else match current with
        | none => .release
        | some entry => .start entry, [], last⟩
  | .cancelGate current =>
    some ⟨({ ws with rebuildLane := none, rebuildInFlight := false }).transitionState
        .rebuilding .unloaded,
      .done (if current.isSome then evictedResult else last),
      (current.toList ++ ws.rebuildLane.toList).map fun e => (e.waiters, evictedResult), last⟩
  | .release =>
    match ws.rebuildLane with
    | some entry => some ⟨{ ws with rebuildLane := none }, .top (some entry), [], last⟩
    | none =>
      if ws.rebuildCancelled then some ⟨ws, .top none, [], last⟩
      else some ⟨{ ws with rebuildInFlight := false }, .done last, [], last⟩
  | .start entry =>
    some ⟨ws, .enter ⟨entry, ws.published.graph,
        decideMode d.config entry.changes (d.view ws.published.graph)⟩
      entryStates ws.state, [], last⟩
  | .enter it (prior :: tries) _ =>
    if ws.state = prior.state then
      some ⟨{ ws with state := .rebuilding },
        if prior = .unloaded then .checkRoster it else .resolve it prior, [], last⟩
    else some ⟨ws, .enter it tries ws.state, [], last⟩
  | .enter it [] observed => some ⟨ws, .deliver it (.error (notRebuildable observed)), [], last⟩
  | .checkRoster it =>
    some ⟨ws, if ws.published.roster.isNone then .leaveUnloaded it
      else .resolve it .unloaded, [], last⟩
  | .leaveUnloaded it =>
    some ⟨ws.transitionState .rebuilding .unloaded, .deliver it (.error .workspaceNotLoaded),
      [], last⟩
  | .resolve it entered =>
    match env with
    | .error err => some ⟨ws, .refused it entered err, [], last⟩
    | .estimate bytes => some ⟨ws, .reserve it entered bytes, [], last⟩
    | _ => none
  | .reserve it entered bytes =>
    if reservationRefused ws env then
      some ⟨ws, .cancelled it .workspaceEvicted, [], last⟩
    else some ⟨ws, .admission it entered bytes, [], last⟩
  | .admission it entered bytes =>
    if env = .error .memoryBudgetExceeded then
      some ⟨ws, .refused it entered .memoryBudgetExceeded, [], last⟩
    else some ⟨ws, .execute it entered bytes false, [], last⟩
  | .execute it entered bytes cancelSeen =>
    match env with
    | .poll => some ⟨ws, .execute it entered bytes (cancelSeen || ws.rebuildCancelled), [], last⟩
    | .built graph roster => some ⟨ws, .recheck it bytes ⟨graph, roster⟩, [], last⟩
    | .refusal err => some ⟨ws, .refund it bytes (.refused entered err), [], last⟩
    | .error err =>
      if err ≠ .workspaceEvicted then some ⟨ws, .refund it bytes (.failed err), [], last⟩
      else if cancelSeen then some ⟨ws, .refund it bytes (.cancelled err), [], last⟩
      else none
    | _ => none
  | .recheck it bytes built =>
    if ws.rebuildCancelled then some ⟨ws, .refund it bytes .stopped, [], last⟩
    else if ws.registered then some ⟨ws, .publish it bytes built .measure, [], last⟩
    else some ⟨ws, .refund it bytes .unregistered, [], last⟩
  | .publish it bytes built .measure =>
    match env with
    | .error err => some ⟨ws, .oversized it bytes err, [], last⟩
    | _ => some ⟨ws, .publish it bytes built .swapPublished, [], last⟩
  | .publish it _ built .settle =>
    match env with
    | .clock now =>
      some ⟨(ws.recordSuccess now).transitionState .rebuilding .loaded,
        .deliver it (.ok ⟨built.published, it.mode⟩), [], last⟩
    | _ => none
  | .publish it bytes built stage =>
    some ⟨(stage.next ws built).1, .publish it bytes built (stage.next ws built).2, [], last⟩
  | .oversized it _ err => some ⟨ws, .recordLocked it err, [], last⟩
  | .recordLocked it err => some ⟨ws.recordFailure err, .toFailedLocked it err, [], last⟩
  | .toFailedLocked it err =>
    some ⟨ws.transitionState .rebuilding .failed, .deliver it (.error err), [], last⟩
  | .refund it _ exit => some ⟨ws, exit.pc it, [], last⟩
  | .refused it entered err =>
    some ⟨ws.transitionState .rebuilding (refusedState entered), .deliver it (.error err),
      [], last⟩
  | .cancelled it err =>
    some ⟨ws.transitionState .rebuilding .unloaded, .deliver it (.error err), [], last⟩
  | .record it err => some ⟨ws.recordFailure err, .toFailed it err, [], last⟩
  | .toFailed it err =>
    some ⟨ws.transitionState .rebuilding .failed, .deliver it (.error err), [], last⟩
  | .clearCancelled it =>
    some ⟨{ ws with rebuildCancelled := false }, .leaveUnregistered it, [], last⟩
  | .leaveUnregistered it =>
    some ⟨ws.transitionState .rebuilding .unloaded, .deliver it evictedResult, [], last⟩
  | .deliver it result => some ⟨ws, .next, [(it.entry.waiters, result)], result⟩
  | .next => some ⟨{ ws with rebuildLane := none }, .top ws.rebuildLane, [], last⟩
  | .done _ => none

end Runner
end Sqry.Daemon

/-!
One workspace slot under any number of loads, rebuild requests, cancellations, evictions,
unloads and resets, in any order. A section under the manager's map lock or the rebuild
lane is one step, except that a publish, which only holds the read guard, takes its
accesses one at a time and keeps the writers out until it ends.
-/

namespace Sqry.Daemon

def LoadPc.inSection : LoadPc → Bool
  | .publish .. => true
  | .oversized _ => true
  | _ => false

def RunPc.inSection : RunPc → Bool
  | .publish .. => true
  | .oversized .. => true
  | .recordLocked .. => true
  | .toFailedLocked .. => true
  | _ => false

def LoadPc.takesWriteLock : LoadPc → Bool
  | .abandon .. => true
  | _ => false

structure Slot where
  ws : LoadedWorkspace
  loads : List Load
  runners : List Runner
  nextWaiter : Nat
  /-- The requests taken into the lane or run, as they came. -/
  accepted : List PendingRebuild
  answers : List Answer
  /-- The iterations that ended, with their results. -/
  iterations : List (Iteration × RebuildResult)
  deriving DecidableEq

inductive SlotAction where
  | load (call : LoadCall)
  | stepLoad (i : Nat) (env : Env)
  | enqueue (request : Request)
  | stepRunner (i : Nat) (env : Env)
  | cancelRebuild
  | evict
  | unload
  | reset (force : Bool)
  deriving DecidableEq

namespace Slot

def init (sourceRoot : PathBuf) (pinned : Bool) : Slot :=
  ⟨.new sourceRoot pinned, [], [], 0, [], [], []⟩

def writable (s : Slot) : Bool :=
  s.loads.all (fun l => !l.pc.inSection) && s.runners.all (fun r => !r.pc.inSection)

def reachable (s : Slot) : Bool := s.writable && s.ws.registered

def stepLoad (s : Slot) (i : Nat) (env : Env) (l : Load) : Option Slot :=
  if l.pc.takesWriteLock ∧ s.writable = false then none
  else
    (Load.step l.call s.ws env l.pc).map fun next =>
      { s with ws := next.1, loads := s.loads.set i ⟨l.call, next.2⟩ }

def ended (iterations : List (Iteration × RebuildResult)) : RunPc →
    List (Iteration × RebuildResult)
  | .deliver it result => iterations ++ [(it, result)]
  | _ => iterations

def stepRunner (d : Dispatcher) (s : Slot) (i : Nat) (env : Env) (r : Runner) : Option Slot :=
  (Runner.step d s.ws env r.lastResult r.pc).map fun next =>
    { s with
      ws := next.ws
      runners := s.runners.set i ⟨next.pc, next.lastResult⟩
      answers := next.sent.foldl (fun answers sent => deliver answers sent.1 sent.2) s.answers
      iterations := ended s.iterations r.pc }

def enqueue (s : Slot) (request : Request) : Slot :=
  let incoming := request.incoming s.nextWaiter
  let s := { s with nextWaiter := s.nextWaiter + incoming.waiters.length }
  match s.ws.acquireOrPark incoming request.stopped with
  | (ws, .run entry) =>
    { s with
      ws := ws
      runners := s.runners ++ [⟨.top (some entry), drainNotRun⟩]
      accepted := s.accepted ++ [incoming] }
  | (ws, .parked) => { s with ws := ws, accepted := s.accepted ++ [incoming] }
  | (ws, .refused _) => { s with ws := ws }

def step (d : Dispatcher) (s : Slot) : SlotAction → Option Slot
  | .load call =>
    -- The load that created the entry is the first to reach it.
    if call.inserted ∧ s.loads ≠ [] then none
    else
      some { s with loads := s.loads ++
        [⟨call, if call.inserted then .exchange gateStates else .lookup⟩] }
  | .stepLoad i env => s.loads[i]?.bind (s.stepLoad i env)
  | .enqueue request => some (s.enqueue request)
  | .stepRunner i env => s.runners[i]?.bind (s.stepRunner d i env)
  | .cancelRebuild => some { s with ws := s.ws.cancelRebuild }
  | .evict => if s.reachable then some { s with ws := s.ws.evictToTombstone } else none
  | .unload => if s.reachable then some { s with ws := s.ws.unload } else none
  | .reset force => if s.reachable then some { s with ws := (s.ws.reset force).1 } else none

end Slot
section Runs

def Dispatcher.plain : Dispatcher := ⟨⟨20, 30⟩, fun _ => ⟨fun _ => none, 0, fun seeds => seeds⟩⟩

def loadSteps (i : Nat) (envs : List Env) : List SlotAction := envs.map (.stepLoad i)

def runnerSteps (i : Nat) (envs : List Env) : List SlotAction := envs.map (.stepRunner i)

def proceeds (n : Nat) : List Env := List.replicate n .proceed

def firstLoad : SlotAction := .load ⟨false, false, true, 0⟩

def laterLoad : SlotAction := .load ⟨false, false, false, 0⟩

def smallGraph : CodeGraph := ⟨1, 8⟩

/-- From the gate's exchange to the end of a load that builds `smallGraph`. -/
def loadsSmallGraph : List Env :=
  proceeds 6 ++ [.built smallGraph ⟨[]⟩] ++ proceeds 6 ++ [.clock 5]

end Runs

end Sqry.Daemon
