import Sqry.Daemon.Workspace

/-!
A load of a workspace (`load_published`) or a reload from its snapshot
(`reload_from_disk_read_only`), one shared access at a time: a compare-exchange, a read
or write of one flag, or a section under the manager's lock. What the build answers comes
from outside.
-/

namespace Sqry.Daemon

inductive Env where
  | proceed
  | error (err : DaemonError)
  | refusal (err : DaemonError)
  | built (graph : CodeGraph) (roster : RosterRecord)
  | estimate (bytes : Nat)
  | clock (now : Nat)
  | poll
  deriving DecidableEq, Repr

structure BuiltGraph where
  graph : CodeGraph
  roster : RosterRecord
  deriving DecidableEq, Repr

def BuiltGraph.published (built : BuiltGraph) : PublishedGraph := ⟨built.graph, some built.roster⟩

/-- `publish_and_retain`, between the caller's recheck and its bookkeeping. The caller
holds the map's read guard throughout. -/
inductive PublishStage where
  | measure
  | swapPublished
  | swapMemory (old : CodeGraph)
  | commit (old : CodeGraph) (prevBytes : Nat)
  | settle
  deriving DecidableEq, Repr

def PublishStage.next (ws : LoadedWorkspace) (built : BuiltGraph) :
    PublishStage → LoadedWorkspace × PublishStage
  | .measure => (ws, .swapPublished)
  | .swapPublished => ({ ws with published := built.published }, .swapMemory ws.published.graph)
  | .swapMemory old =>
    ({ ws with memoryBytes := built.graph.heapBytes }, .commit old ws.memoryBytes)
  | .commit _ _ => (ws, .settle)
  | .settle => (ws, .settle)

inductive LoadOrigin where
  | built
  | found
  deriving DecidableEq, Repr

inductive GateState where
  | unloaded
  | failed
  | evicted
  deriving DecidableEq, Repr

def GateState.state : GateState → WorkspaceState
  | .unloaded => .unloaded
  | .failed => .failed
  | .evicted => .evicted

theorem GateState.state_ne_loaded (g : GateState) : g.state ≠ .loaded := by
  cases g <;> nofun

theorem GateState.state_ne_rebuilding (g : GateState) : g.state ≠ .rebuilding := by
  cases g <;> nofun

def gateStates : List GateState := [.unloaded, .failed, .evicted]

structure GateEntry where
  priorState : GateState
  priorCancelled : Bool
  deriving DecidableEq, Repr

inductive LoadExit where
  | abandon (entry : GateEntry) (err : DaemonError)
  | fail (err : DaemonError)
  | dropGuard (err : DaemonError)
  deriving DecidableEq, Repr

abbrev LoadResult := Except DaemonError (PublishedGraph × LoadOrigin)

inductive LoadPc where
  | lookup
  | exchange (tries : List GateState)
  | lookAgain
  | readCancelled (prior : GateState)
  | readInFlight (priorCancelled : Bool)
  | readMidIteration (priorCancelled : Bool)
  | readStillCancelled (priorCancelled : Bool)
  | putBack
  | swapCancelled (entry : GateEntry)
  | restoreCancelled
  | leaveGate
  | prepare (entry : GateEntry)
  | reserve (entry : GateEntry)
  | admission (entry : GateEntry)
  | build (entry : GateEntry)
  | compact (built : BuiltGraph)
  | recheck (built : BuiltGraph)
  | publish (built : BuiltGraph) (stage : PublishStage)
  | oversized (err : DaemonError)
  | refund (exit : LoadExit)
  | abandon (entry : GateEntry) (err : DaemonError)
  | record (err : DaemonError)
  | dropGuard (err : DaemonError)
  | toFailed (err : DaemonError)
  | done (result : LoadResult)
  deriving DecidableEq

/-- What stays fixed during a load. `inserted`: this call put the entry into the map. -/
structure LoadCall where
  reload : Bool
  leavesNoSlot : Bool
  inserted : Bool
  workingSetEstimate : Nat
  deriving DecidableEq, Repr

structure Load where
  call : LoadCall
  pc : LoadPc
  deriving DecidableEq

def evictedRebuildStillRunning : String :=
  "workspace load already in progress (the evicted workspace's rebuild has not stopped)"

namespace LoadCall

/-- A failed load leaves the slot as the gate found it, or a failure behind. A reload
always leaves a failure, except for a budget that cannot hold it. -/
def exitUnbuilt (call : LoadCall) (entry : GateEntry) (err : DaemonError) : LoadExit :=
  if !call.reload && (call.leavesNoSlot || isRequestRefusal err) then .abandon entry err
  else .fail err

def exitUnreserved (call : LoadCall) (entry : GateEntry) (err : DaemonError) : LoadExit :=
  if (!call.reload && call.leavesNoSlot) || isRequestRefusal err then .abandon entry err
  else .dropGuard err

def midLoad (call : LoadCall) (what : String) : DaemonError :=
  .workspaceBuildFailed ("workspace " ++ what ++ (if call.reload then " mid-reload" else " mid-load"))

end LoadCall

def LoadExit.pc : LoadExit → LoadPc
  | .abandon entry err => .abandon entry err
  | .fail err => .record err
  | .dropGuard err => .dropGuard err

def LoadedWorkspace.abandonLoad (ws : LoadedWorkspace) (inserted : Bool) (entry : GateEntry) :
    LoadedWorkspace :=
  if ws.state = .loading then
    { ws with
      state := entry.priorState.state
      rebuildCancelled := ws.rebuildCancelled ||
        (decide (entry.priorState = .evicted) && entry.priorCancelled)
      registered := ws.registered && !(inserted && decide (entry.priorState = .unloaded)) }
  else ws

/-- The reservation's membership and cancellation check. It reads the flag of the workspace
registered under the key, which is another one, or none, once this one is not. -/
def reservationRefused (ws : LoadedWorkspace) (env : Env) : Bool :=
  if ws.registered then ws.rebuildCancelled else decide (env = .error .workspaceEvicted)

namespace Load

def found (ws : LoadedWorkspace) (otherwise : LoadPc) : LoadPc :=
  match residentGeneration ws.sourceRoot ws.state ws.published with
  | .error err => .done (.error err)
  | .ok (some published) => .done (.ok (published, .found))
  | .ok none => otherwise

/-- One access of a load; `none` where the step needs what it is not given. -/
def step (call : LoadCall) (ws : LoadedWorkspace) (env : Env) :
    LoadPc → Option (LoadedWorkspace × LoadPc)
  | .lookup => some (ws, found ws (.exchange gateStates))
  | .exchange [] => some (ws, .lookAgain)
  | .exchange (prior :: tries) =>
    if ws.state = prior.state then some ({ ws with state := .loading }, .readCancelled prior)
    else some (ws, .exchange tries)
  | .lookAgain => some (ws, found ws (.done (.error (.workspaceBuildFailed
      ("workspace load already in progress (" ++ ws.state.asStr ++ ")")))))
  | .readCancelled prior =>
    some (ws, if prior = .evicted then .readInFlight ws.rebuildCancelled
      else .swapCancelled ⟨prior, ws.rebuildCancelled⟩)
  | .readInFlight priorCancelled =>
    some (ws, if ws.rebuildInFlight then .readMidIteration priorCancelled
      else .swapCancelled ⟨.evicted, priorCancelled⟩)
  | .readMidIteration priorCancelled =>
    some (ws, if ws.evictedMidIteration then .readStillCancelled priorCancelled
      else .swapCancelled ⟨.evicted, priorCancelled⟩)
  | .readStillCancelled priorCancelled =>
    some (ws, if ws.rebuildCancelled then .putBack
      else .swapCancelled ⟨.evicted, priorCancelled⟩)
  | .putBack =>
    some (ws.transitionState .loading .evicted,
      .done (.error (.workspaceBuildFailed evictedRebuildStillRunning)))
  | .swapCancelled entry =>
    some ({ ws with rebuildCancelled := false },
      if ws.rebuildCancelled = false ∨ entry.priorState = .evicted then .prepare entry
      else .restoreCancelled)
  | .restoreCancelled => some ({ ws with rebuildCancelled := true }, .leaveGate)
  | .leaveGate =>
    some (ws.transitionState .loading .failed,
      .done (.error (.workspaceBuildFailed "workspace evicted mid-load")))
  | .prepare entry =>
    match env with
    | .error err => some (ws, (call.exitUnbuilt entry err).pc)
    | _ => some (ws, .reserve entry)
  | .reserve entry =>
    if reservationRefused ws env then
      some (ws, (call.exitUnreserved entry .workspaceEvicted).pc)
    else some (ws, .admission entry)
  | .admission entry =>
    if env = .error .memoryBudgetExceeded then
      some (ws, (call.exitUnreserved entry .memoryBudgetExceeded).pc)
    else some (ws, .build entry)
  | .build entry =>
    match env with
    | .built graph roster =>
      some (ws, if call.reload then .recheck ⟨graph, roster⟩ else .compact ⟨graph, roster⟩)
    | .error err => some (ws, .refund (call.exitUnbuilt entry err))
    | _ => none
  | .compact built =>
    match env with
    | .error err => some (ws, .refund (.fail err))
    | _ => some (ws, .recheck built)
  | .recheck built =>
    if ws.rebuildCancelled then some (ws, .refund (.fail (call.midLoad "evicted")))
    else if ws.registered then some (ws, .publish built .measure)
    else some (ws, .refund (.fail (call.midLoad "removed")))
  | .publish built .measure =>
    match env with
    | .error err => some (ws, .oversized err)
    | _ => some (ws, .publish built .swapPublished)
  | .publish built .settle =>
    match env with
    | .clock now =>
      some ({ ws.recordSuccess now with state := .loaded }, .done (.ok (built.published, .built)))
    | _ => none
  | .publish built stage =>
    some ((stage.next ws built).1, .publish built (stage.next ws built).2)
  | .oversized err => some (ws, .record err)
  | .refund exit => some (ws, exit.pc)
  | .abandon entry err => some (ws.abandonLoad call.inserted entry, .done (.error err))
  | .record err => some (ws.recordFailure err, .toFailed err)
  | .dropGuard err =>
    some (if ws.lastError.isNone then
        ws.recordFailure (.workspaceBuildFailed "workspace load aborted unexpectedly")
      else ws, .toFailed err)
  | .toFailed err => some (ws.transitionState .loading .failed, .done (.error err))
  | .done _ => none

end Load
end Sqry.Daemon
