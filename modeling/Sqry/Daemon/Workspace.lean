import Sqry.Daemon.Pending

/-!
One workspace of the daemon: the cells that loads, rebuilds, evictions and resets share,
and what a reader is answered from them. The state and the published generation are two
cells, written by different paths.
-/

namespace Sqry.Daemon

inductive WorkspaceState where
  | unloaded
  | loading
  | loaded
  | rebuilding
  | evicted
  | failed
  deriving DecidableEq, Repr

namespace WorkspaceState

def isServing : WorkspaceState → Bool
  | .loaded => true
  | .rebuilding => true
  | .failed => true
  | _ => false

def asStr : WorkspaceState → String
  | .unloaded => "unloaded"
  | .loading => "loading"
  | .loaded => "loaded"
  | .rebuilding => "rebuilding"
  | .evicted => "evicted"
  | .failed => "failed"

end WorkspaceState

structure CodeGraph where
  address : Nat
  heapBytes : Nat
  deriving DecidableEq, Repr

structure RosterRecord where
  activePluginIds : List String
  deriving DecidableEq, Repr

structure PublishedGraph where
  graph : CodeGraph
  roster : Option RosterRecord
  deriving DecidableEq, Repr

/-- What stands in before the first publish and after an eviction. Its empty graph is
allocated anew each time and is not counted. -/
def PublishedGraph.placeholder : PublishedGraph := ⟨⟨0, 0⟩, none⟩

inductive DaemonError where
  | workspaceEvicted
  | workspaceNotLoaded
  | workspaceBuildFailed (reason : String)
  | workspaceStaleExpired (ageHours capHours : Nat) (lastGoodAt : Option Nat)
      (lastError : Option String)
  | memoryBudgetExceeded
  | workspaceOversize (measuredBytes limitBytes currentLoadedBytes : Nat)
  | invalidArgument (reason : String)
  | rebuildMacroOptionsUnavailable
  | rebuildWouldNarrowSelection
  | workspaceManifestUnreadable
  | workspaceIncompatibleGraph
  | workspacePinned
  | resetWhileLoading
  | resetCancellationDispatched
  | internal (reason : String)
  deriving DecidableEq, Repr

def isRequestRefusal : DaemonError → Bool
  | .invalidArgument _ => true
  | .rebuildMacroOptionsUnavailable => true
  | .rebuildWouldNarrowSelection => true
  | .memoryBudgetExceeded => true
  | _ => false

structure LoadedWorkspace where
  sourceRoot : PathBuf
  pinned : Bool
  /-- The manager's map holds this very workspace under its key. -/
  registered : Bool
  state : WorkspaceState
  published : PublishedGraph
  memoryBytes : Nat
  lastError : Option DaemonError
  lastGoodAt : Option Nat
  rebuildLane : Option PendingRebuild
  rebuildCancelled : Bool
  evictedMidIteration : Bool
  rebuildInFlight : Bool
  deriving DecidableEq

namespace LoadedWorkspace

def new (sourceRoot : PathBuf) (pinned : Bool) : LoadedWorkspace where
  sourceRoot := sourceRoot
  pinned := pinned
  registered := true
  state := .unloaded
  published := .placeholder
  memoryBytes := 0
  lastError := none
  lastGoodAt := none
  rebuildLane := none
  rebuildCancelled := false
  evictedMidIteration := false
  rebuildInFlight := false

def transitionState (ws : LoadedWorkspace) (source target : WorkspaceState) : LoadedWorkspace :=
  if ws.state = source then { ws with state := target } else ws

def recordFailure (ws : LoadedWorkspace) (err : DaemonError) : LoadedWorkspace :=
  { ws with lastError := some err }

def recordSuccess (ws : LoadedWorkspace) (at_ : Nat) : LoadedWorkspace :=
  { ws with lastGoodAt := some at_, lastError := none }

def evictToTombstone (ws : LoadedWorkspace) : LoadedWorkspace :=
  if ws.state = .evicted then ws
  else
    { ws with
      published := .placeholder
      memoryBytes := 0
      evictedMidIteration := decide (ws.state = .rebuilding)
      rebuildCancelled := true
      state := .evicted }

def unload (ws : LoadedWorkspace) : LoadedWorkspace :=
  { ws.evictToTombstone with registered := false }

/-- Which arm `reset` takes: a refusal, a cancellation dispatched to the runner, or the
reset itself. -/
def reset (ws : LoadedWorkspace) (force : Bool) : LoadedWorkspace × Except DaemonError Bool :=
  if ws.pinned ∧ force = false then (ws, .error .workspacePinned)
  else if ws.state = .loading then (ws, .error .resetWhileLoading)
  else if ws.rebuildInFlight then
    ({ ws with rebuildCancelled := true }, .error .resetCancellationDispatched)
  else
    ({ ws.evictToTombstone with rebuildCancelled := false, state := .unloaded }, .ok true)

def resettable (ws : LoadedWorkspace) (force : Bool) : Bool :=
  (!ws.pinned || force) && !decide (ws.state = .loading) && !ws.rebuildInFlight

end LoadedWorkspace

section Serving

inductive StalenessVerdict where
  | noPriorGood
  | stale (ageHours : Nat)
  | expired (ageHours : Nat)
  deriving DecidableEq, Repr

def classifyStaleness (lastGoodAt : Option Nat) (capHours now : Nat) : StalenessVerdict :=
  match lastGoodAt with
  | none => .noPriorGood
  | some lastGood =>
    let ageHours := (now - lastGood) / 3600
    if capHours = 0 ∨ ageHours < capHours then .stale ageHours else .expired ageHours

inductive ServeVerdict where
  | fresh (graph : CodeGraph) (state : WorkspaceState) (roster : RosterRecord)
  | stale (graph : CodeGraph) (ageHours lastGoodAt : Nat) (lastError : Option String)
      (roster : RosterRecord)
  | notReady (state : WorkspaceState)
  | failedWithoutGraph (hadBeenLoaded : Bool) (lastError : Option DaemonError)
  deriving DecidableEq, Repr

def noRosterRecord (sourceRoot : PathBuf) (what : String) : DaemonError :=
  .internal ("workspace " ++ sourceRoot ++ " is " ++ what ++
    " but carries no roster record; publish paths must publish the record with the graph")

/-- What `classify_for_serve` reads, one cell after the other, under one read guard. -/
structure ServeSnapshot where
  state : WorkspaceState
  published : PublishedGraph
  lastGood : Option Nat
  lastError : Option DaemonError
  deriving DecidableEq, Repr

namespace ServeSnapshot

def rosterForServe (snapshot : ServeSnapshot) (sourceRoot : PathBuf) (what : String) :
    Except DaemonError RosterRecord :=
  match snapshot.published.roster with
  | some roster => .ok roster
  | none => .error (noRosterRecord sourceRoot what)

/-- `text` is an error's display text. `none` is the panic on a stale verdict without a
time. -/
def classify (text : DaemonError → String) (sourceRoot : PathBuf) (cap now : Nat)
    (snapshot : ServeSnapshot) : Option (Except DaemonError ServeVerdict) :=
  let lastErrorText := snapshot.lastError.map text
  match snapshot.state with
  | .loaded | .rebuilding =>
    some ((snapshot.rosterForServe sourceRoot "servable").map fun roster =>
      .fresh snapshot.published.graph snapshot.state roster)
  | .failed =>
    if snapshot.published.roster.isNone then
      some (.ok (.failedWithoutGraph snapshot.lastGood.isSome snapshot.lastError))
    else
      match classifyStaleness snapshot.lastGood cap now with
      | .noPriorGood =>
        some (.error (.workspaceBuildFailed
          (lastErrorText.getD "no prior successful build")))
      | .stale ageHours =>
        match snapshot.rosterForServe sourceRoot "stale-servable" with
        | .error err => some (.error err)
        | .ok roster =>
          snapshot.lastGood.map fun lastGood =>
            .ok (.stale snapshot.published.graph ageHours lastGood lastErrorText roster)
      | .expired ageHours =>
        some (.error (.workspaceStaleExpired ageHours cap snapshot.lastGood lastErrorText))
  | .unloaded | .loading => some (.ok (.notReady snapshot.state))
  | .evicted => some (.error .workspaceEvicted)

end ServeSnapshot

def residentGeneration (sourceRoot : PathBuf) (state : WorkspaceState)
    (published : PublishedGraph) : Except DaemonError (Option PublishedGraph) :=
  if state ≠ .loaded then .ok none
  else if published.roster.isNone then .error (noRosterRecord sourceRoot "Loaded")
  else .ok (some published)

namespace LoadedWorkspace

def serveSnapshot (ws : LoadedWorkspace) : ServeSnapshot :=
  ⟨ws.state, ws.published, ws.lastGoodAt, ws.lastError⟩

def classifyForServe (text : DaemonError → String) (ws : LoadedWorkspace) (cap now : Nat) :
    Option (Except DaemonError ServeVerdict) :=
  ws.serveSnapshot.classify text ws.sourceRoot cap now

def residentSnapshot (ws : LoadedWorkspace) : WorkspaceState × PublishedGraph :=
  (ws.state, ws.published)

end LoadedWorkspace
end Serving

end Sqry.Daemon
