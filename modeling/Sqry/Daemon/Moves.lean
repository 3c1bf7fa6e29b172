import Sqry.Daemon.Slot

/-!
What one step of a load or of a drain loop can do to its workspace. The places of a load
fall into those before its gate, those between the gate's exchange and its reading of the
cancellation flag, and those of a load that owns the slot; the places of a drain loop into
those of an iteration and those around it. Every invariant is derived from these moves.
-/

namespace Sqry.Daemon

namespace LoadPc

def gating : LoadPc → Bool
  | .readCancelled _ | .readInFlight _ | .readMidIteration _ | .readStillCancelled _
  | .putBack | .swapCancelled _ => true
  | _ => false

def acquired : LoadPc → Bool
  | .restoreCancelled | .leaveGate | .prepare _ | .reserve _ | .admission _ | .build _
  | .compact _ | .recheck _ | .publish .. | .oversized _ | .refund _ | .abandon ..
  | .record _ | .dropGuard _ | .toFailed _ => true
  | _ => false

def active (pc : LoadPc) : Bool := pc.gating || pc.acquired

def swapping : LoadPc → Bool
  | .swapCancelled _ => true
  | _ => false

def ends : LoadPc → Bool
  | .leaveGate | .toFailed _ | .abandon .. | .publish _ .settle => true
  | _ => false

def installed : LoadPc → Option PublishedGraph
  | .publish built (.swapMemory _) | .publish built (.commit ..) | .publish built .settle =>
    some built.published
  | _ => none

def swapped (pc : LoadPc) : Bool := pc.installed.isSome

def settles : LoadPc → Option PublishedGraph
  | .publish built .settle => some built.published
  | _ => none

theorem swapped_of_work {pc pc' : LoadPc}
    (h : pc'.installed = none ∨ pc'.installed = pc.installed) (hs : pc'.swapped = true) :
    pc.swapped = true := by
  rw [swapped] at hs ⊢
  cases h with
  | inl hnone =>
    rw [hnone] at hs
    cases hs
  | inr hsame =>
    rw [hsame] at hs
    exact hs

def prior : LoadPc → Option GateState
  | .readCancelled prior => some prior
  | .readInFlight _ | .readMidIteration _ | .readStillCancelled _ | .putBack => some .evicted
  | .swapCancelled entry | .prepare entry | .reserve entry | .admission entry | .build entry =>
    some entry.priorState
  | .refund (.abandon entry _) | .abandon entry _ => some entry.priorState
  | _ => none

theorem inSection_of_installed {pc : LoadPc} {g : PublishedGraph} (h : pc.installed = some g) :
    pc.inSection = true := by
  cases pc <;> first | rfl | cases h

theorem not_gating_of_acquired {pc : LoadPc} (h : pc.acquired = true) : pc.gating = false := by
  cases pc <;> first | rfl | cases h

theorem acquired_of_inSection {pc : LoadPc} (h : pc.inSection = true) : pc.acquired = true := by
  cases pc <;> first | rfl | cases h

theorem active_of_acquired {pc : LoadPc} (h : pc.acquired = true) : pc.active = true := by
  rw [active, h, Bool.or_true]

theorem active_of_gating {pc : LoadPc} (h : pc.gating = true) : pc.active = true := by
  rw [active, h, Bool.true_or]

end LoadPc

inductive LoadMove (inserted : Bool) (ws : LoadedWorkspace) :
    LoadPc → LoadedWorkspace → LoadPc → Prop
  | idle {pc pc' : LoadPc} (h : pc.active = false) (h' : pc'.active = false) :
      LoadMove inserted ws pc ws pc'
  | exchange {prior : GateState} {tries : List GateState} (h : ws.state = prior.state) :
      LoadMove inserted ws (.exchange (prior :: tries)) { ws with state := .loading }
        (.readCancelled prior)
  | look {pc pc' : LoadPc} (h : pc.gating = true) (h' : pc'.gating = true)
      (hprior : pc'.prior = pc.prior) (hleft : pc.swapping = false)
      (hputBack : pc' = .putBack → ws.rebuildCancelled = true)
      (hswap : pc'.swapping = true → pc.prior ≠ some .evicted ∨ ws.rebuildInFlight = false ∨
        ws.evictedMidIteration = false ∨ ws.rebuildCancelled = false) :
      LoadMove inserted ws pc ws pc'
  | putBack {result : LoadResult} :
      LoadMove inserted ws .putBack (ws.transitionState .loading .evicted) (.done result)
  | swapClear {entry : GateEntry}
      (h : ws.rebuildCancelled = false ∨ entry.priorState = .evicted) :
      LoadMove inserted ws (.swapCancelled entry) { ws with rebuildCancelled := false }
        (.prepare entry)
  | swapRefuse {entry : GateEntry} (h : ws.rebuildCancelled = true)
      (hprior : entry.priorState ≠ .evicted) :
      LoadMove inserted ws (.swapCancelled entry) { ws with rebuildCancelled := false }
        .restoreCancelled
  | restore :
      LoadMove inserted ws .restoreCancelled { ws with rebuildCancelled := true } .leaveGate
  | work {pc pc' : LoadPc} (lastError : Option DaemonError) (h : pc.acquired = true)
      (h' : pc'.acquired = true) (hprior : pc'.prior = none ∨ pc'.prior = pc.prior)
      (hsection : pc'.inSection = true → pc.inSection = true)
      (hinstalled : pc'.installed = none ∨ pc'.installed = pc.installed)
      (hsettles : pc.settles = none) :
      LoadMove inserted ws pc { ws with lastError := lastError } pc'
  | leave {pc : LoadPc} {result : LoadResult} (h : pc.acquired = true)
      (hsection : pc.inSection = false) (hends : pc.ends = true) :
      LoadMove inserted ws pc (ws.transitionState .loading .failed) (.done result)
  | abandon {entry : GateEntry} {err : DaemonError} {result : LoadResult} :
      LoadMove inserted ws (.abandon entry err) (ws.abandonLoad inserted entry) (.done result)
  | recheck {built : BuiltGraph} (hflag : ws.rebuildCancelled = false)
      (hreg : ws.registered = true) :
      LoadMove inserted ws (.recheck built) ws (.publish built .measure)
  | swapPublished {built : BuiltGraph} :
      LoadMove inserted ws (.publish built .swapPublished) { ws with published := built.published }
        (.publish built (.swapMemory ws.published.graph))
  | swapMemory {built : BuiltGraph} {old : CodeGraph} :
      LoadMove inserted ws (.publish built (.swapMemory old))
        { ws with memoryBytes := built.graph.heapBytes }
        (.publish built (.commit old ws.memoryBytes))
  | settle {built : BuiltGraph} {now : Nat} :
      LoadMove inserted ws (.publish built .settle)
        { ws.recordSuccess now with state := .loaded } (.done (.ok (built.published, .built)))

theorem found_active (ws : LoadedWorkspace) {pc : LoadPc} (h : pc.active = false) :
    (Load.found ws pc).active = false := by
  rw [Load.found]
  split
  · rfl
  · rfl
  · exact h

theorem LoadExit.pc_acquired (exit : LoadExit) : exit.pc.acquired = true := by
  cases exit <;> rfl

theorem LoadExit.pc_not_inSection (exit : LoadExit) : exit.pc.inSection = false := by
  cases exit <;> rfl

theorem LoadExit.pc_not_installed (exit : LoadExit) : exit.pc.installed = none := by
  cases exit <;> rfl

theorem exitUnbuilt_prior (call : LoadCall) (entry : GateEntry) (err : DaemonError) :
    ((call.exitUnbuilt entry err).pc.prior = none ∨
      (call.exitUnbuilt entry err).pc.prior = some entry.priorState) ∧
    ((LoadPc.refund (call.exitUnbuilt entry err)).prior = none ∨
      (LoadPc.refund (call.exitUnbuilt entry err)).prior = some entry.priorState) := by
  rw [LoadCall.exitUnbuilt]
  split
  · exact ⟨Or.inr rfl, Or.inr rfl⟩
  · exact ⟨Or.inl rfl, Or.inl rfl⟩

theorem exitUnreserved_prior (call : LoadCall) (entry : GateEntry) (err : DaemonError) :
    (call.exitUnreserved entry err).pc.prior = none ∨
      (call.exitUnreserved entry err).pc.prior = some entry.priorState := by
  rw [LoadCall.exitUnreserved]
  split
  · exact Or.inr rfl
  · exact Or.inl rfl

theorem refund_prior (exit : LoadExit) :
    exit.pc.prior = none ∨ exit.pc.prior = (LoadPc.refund exit).prior := by
  cases exit with
  | abandon entry err => exact Or.inr rfl
  | fail err => exact Or.inl rfl
  | dropGuard err => exact Or.inl rfl

theorem LoadMove.quiet {inserted : Bool} {ws : LoadedWorkspace} {pc pc' : LoadPc}
    (h : pc.acquired = true) (h' : pc'.acquired = true)
    (hprior : pc'.prior = none ∨ pc'.prior = pc.prior)
    (hsection : pc'.inSection = true → pc.inSection = true)
    (hinstalled : pc'.installed = none ∨ pc'.installed = pc.installed)
    (hsettles : pc.settles = none) : LoadMove inserted ws pc ws pc' :=
  .work ws.lastError h h' hprior hsection hinstalled hsettles

theorem load_moves {call : LoadCall} {ws ws' : LoadedWorkspace} {env : Env} {pc pc' : LoadPc}
    (h : Load.step call ws env pc = some (ws', pc')) : LoadMove call.inserted ws pc ws' pc' := by
  have exits : ∀ {pc exit : _}, pc.acquired = true → pc.settles = none →
      (LoadExit.pc exit).prior = none ∨ (LoadExit.pc exit).prior = pc.prior →
      LoadMove call.inserted ws pc ws exit.pc := fun h hsettles hprior =>
    .quiet h (LoadExit.pc_acquired _) hprior
      (fun hs => by
        rw [LoadExit.pc_not_inSection] at hs
        cases hs)
      (Or.inl (LoadExit.pc_not_installed _)) hsettles
  cases pc with
  | lookup =>
    cases h
    exact .idle rfl (found_active ws rfl)
  | exchange tries =>
    cases tries with
    | nil =>
      cases h
      exact .idle rfl rfl
    | cons prior tries =>
      simp only [Load.step] at h
      split at h
      next hstate =>
        cases h
        exact .exchange hstate
      · cases h
        exact .idle rfl rfl
  | lookAgain =>
    cases h
    exact .idle rfl (found_active ws rfl)
  | readCancelled prior =>
    cases h
    split
    next hprior =>
      cases hprior
      exact .look rfl rfl rfl rfl nofun nofun
    next hprior =>
      exact .look rfl rfl rfl rfl nofun fun _ => Or.inl fun heq => hprior (Option.some.inj heq)
  | readInFlight priorCancelled =>
    cases h
    split
    · exact .look rfl rfl rfl rfl nofun nofun
    next hfalse =>
      exact .look rfl rfl rfl rfl nofun fun _ => Or.inr (Or.inl (by simpa using hfalse))
  | readMidIteration priorCancelled =>
    cases h
    split
    · exact .look rfl rfl rfl rfl nofun nofun
    next hfalse =>
      exact .look rfl rfl rfl rfl nofun
        fun _ => Or.inr (Or.inr (Or.inl (by simpa using hfalse)))
  | readStillCancelled priorCancelled =>
    cases h
    split
    next htrue => exact .look rfl rfl rfl rfl (fun _ => htrue) nofun
    next hfalse =>
      exact .look rfl rfl rfl rfl nofun
        fun _ => Or.inr (Or.inr (Or.inr (by simpa using hfalse)))
  | putBack =>
    cases h
    exact .putBack
  | swapCancelled entry =>
    cases h
    split
    next hclear => exact .swapClear hclear
    next hrefuse =>
      rw [not_or] at hrefuse
      exact .swapRefuse (by simpa using hrefuse.1) hrefuse.2
  | restoreCancelled =>
    cases h
    exact .restore
  | leaveGate =>
    cases h
    exact .leave rfl rfl rfl
  | prepare entry =>
    simp only [Load.step] at h
    split at h
    · cases h
      exact exits rfl rfl (exitUnbuilt_prior call entry _).1
    · cases h
      exact .quiet rfl rfl (Or.inr rfl) nofun (Or.inl rfl) rfl
  | reserve entry =>
    simp only [Load.step] at h
    split at h
    · cases h
      exact exits rfl rfl (exitUnreserved_prior call entry _)
    · cases h
      exact .quiet rfl rfl (Or.inr rfl) nofun (Or.inl rfl) rfl
  | admission entry =>
    simp only [Load.step] at h
    split at h
    · cases h
      exact exits rfl rfl (exitUnreserved_prior call entry _)
    · cases h
      exact .quiet rfl rfl (Or.inr rfl) nofun (Or.inl rfl) rfl
  | build entry =>
    simp only [Load.step] at h
    split at h
    · cases h
      split
      · exact .quiet rfl rfl (Or.inl rfl) nofun (Or.inl rfl) rfl
      · exact .quiet rfl rfl (Or.inl rfl) nofun (Or.inl rfl) rfl
    · cases h
      exact .quiet rfl rfl (exitUnbuilt_prior call entry _).2 nofun (Or.inl rfl) rfl
    · cases h
  | compact built =>
    simp only [Load.step] at h
    split at h
    · cases h
      exact .quiet rfl rfl (Or.inl rfl) nofun (Or.inl rfl) rfl
    · cases h
      exact .quiet rfl rfl (Or.inl rfl) nofun (Or.inl rfl) rfl
  | recheck built =>
    simp only [Load.step] at h
    split at h
    · cases h
      exact .quiet rfl rfl (Or.inl rfl) nofun (Or.inl rfl) rfl
    next hflag =>
      split at h
      next hreg =>
        cases h
        exact .recheck (by simpa using hflag) hreg
      · cases h
        exact .quiet rfl rfl (Or.inl rfl) nofun (Or.inl rfl) rfl
  | publish built stage =>
    cases stage with
    | measure =>
      simp only [Load.step] at h
      split at h
      · cases h
        exact .quiet rfl rfl (Or.inl rfl) (fun _ => rfl) (Or.inl rfl) rfl
      · cases h
        exact .quiet rfl rfl (Or.inl rfl) (fun _ => rfl) (Or.inl rfl) rfl
    | swapPublished =>
      cases h
      exact .swapPublished
    | swapMemory old =>
      cases h
      exact .swapMemory
    | commit old prevBytes =>
      cases h
      exact .quiet rfl rfl (Or.inl rfl) (fun _ => rfl) (Or.inr rfl) rfl
    | settle =>
      simp only [Load.step] at h
      split at h
      · cases h
        exact .settle
      · cases h
  | oversized err =>
    cases h
    exact .quiet rfl rfl (Or.inl rfl) (fun _ => rfl) (Or.inl rfl) rfl
  | refund exit =>
    cases h
    exact exits rfl rfl (refund_prior exit)
  | abandon entry err =>
    cases h
    exact .abandon
  | record err =>
    cases h
    exact .work (some err) rfl rfl (Or.inl rfl) nofun (Or.inl rfl) rfl
  | dropGuard err =>
    cases h
    split
    · exact .work _ rfl rfl (Or.inl rfl) nofun (Or.inl rfl) rfl
    · exact .quiet rfl rfl (Or.inl rfl) nofun (Or.inl rfl) rfl
  | toFailed err =>
    cases h
    exact .leave rfl rfl rfl
  | done result => cases h

namespace RunPc

def holds : RunPc → Bool
  | .done _ => false
  | _ => true

def pastGate : RunPc → Bool
  | .cancelGate _ => true
  | .done _ => true
  | _ => false

def iterating : RunPc → Bool
  | .checkRoster _ | .leaveUnloaded _ | .resolve .. | .reserve .. | .admission .. | .execute ..
  | .recheck .. | .publish .. | .oversized .. | .recordLocked .. | .toFailedLocked ..
  | .refund .. | .refused .. | .cancelled .. | .record .. | .toFailed ..
  | .clearCancelled _ | .leaveUnregistered _ => true
  | _ => false

def installed : RunPc → Option PublishedGraph
  | .publish _ _ built (.swapMemory _) | .publish _ _ built (.commit ..)
  | .publish _ _ built .settle => some built.published
  | _ => none

def swapped (pc : RunPc) : Bool := pc.installed.isSome

def settles : RunPc → Option PublishedGraph
  | .publish _ _ built .settle => some built.published
  | _ => none

def entered : RunPc → Option EntryState
  | .checkRoster _ => some .unloaded
  | .resolve _ entered | .reserve _ entered _ | .admission _ entered _ | .execute _ entered _ _
  | .refund _ _ (.refused entered _) | .refused _ entered _ => some entered
  | _ => none

def stopped : RunPc → Bool
  | .refund _ _ .stopped => true
  | _ => false

def finishing : RunPc → Bool
  | .refund _ _ .stopped | .deliver .. | .next | .top _ => true
  | _ => false

/-- Where the workspace may be `rebuilding`. -/
def mayRebuild : RunPc → Bool
  | .cancelGate _ => true
  | pc => pc.iterating || pc.finishing

theorem swapped_of_work {pc pc' : RunPc}
    (h : pc'.installed = none ∨ pc'.installed = pc.installed) (hs : pc'.swapped = true) :
    pc.swapped = true := by
  rw [swapped] at hs ⊢
  cases h with
  | inl hnone =>
    rw [hnone] at hs
    cases hs
  | inr hsame =>
    rw [hsame] at hs
    exact hs

def unregistering : RunPc → Bool
  | .refund _ _ .unregistered | .clearCancelled _ | .leaveUnregistered _ => true
  | _ => false

theorem finishing_of_mayRebuild {pc : RunPc} (h : pc.mayRebuild = true)
    (hiter : pc.iterating = false) (hgate : pc.pastGate = false) : pc.finishing = true := by
  cases pc <;>
    first
    | rfl
    | exact absurd h Bool.false_ne_true
    | exact absurd hiter.symm Bool.false_ne_true
    | exact absurd hgate.symm Bool.false_ne_true

theorem mayRebuild_of_finishing {pc : RunPc} (h : pc.finishing = true) :
    pc.holds = true ∧ pc.mayRebuild = true := by
  cases pc <;> first | exact ⟨rfl, rfl⟩ | exact absurd h Bool.false_ne_true

theorem mayRebuild_of_iterating {pc : RunPc} (h : pc.iterating = true) :
    pc.mayRebuild = true := by
  cases pc <;> first | rfl | exact absurd h Bool.false_ne_true

theorem stopped_of_finishing {pc : RunPc} (h : pc.iterating = true)
    (hf : pc.finishing = true) : pc.stopped = true := by
  cases pc with
  | refund it bytes exit => cases exit <;> exact hf
  | _ => first | exact absurd h Bool.false_ne_true | exact hf

theorem notInstalled_of_outside {pc : RunPc} (h : pc.inSection = false) :
    pc.installed = none ∧ pc.settles = none := by
  cases pc <;> first | exact ⟨rfl, rfl⟩ | exact absurd h.symm Bool.false_ne_true

theorem holds_of_iterating {pc : RunPc} (h : pc.iterating = true) : pc.holds = true := by
  cases pc <;> first | rfl | cases h

theorem iterating_of_inSection {pc : RunPc} (h : pc.inSection = true) :
    pc.iterating = true := by
  cases pc <;> first | rfl | cases h

theorem not_pastGate_of_iterating {pc : RunPc} (h : pc.iterating = true) :
    pc.pastGate = false := by
  cases pc <;> first | rfl | cases h

end RunPc

inductive RunMove (ws : LoadedWorkspace) : RunPc → LoadedWorkspace → RunPc → Prop
  | take {current : Option PendingRebuild} {pc' : RunPc}
      (hcancel : ws.rebuildCancelled = true → pc' = .cancelGate current)
      (hgo : ws.rebuildCancelled = false → pc'.pastGate = false ∧ pc'.iterating = false) :
      RunMove ws (.top current) ws.takeCancellation.1 pc'
  | gate {current : Option PendingRebuild} {result : RebuildResult} :
      RunMove ws (.cancelGate current)
        (({ ws with rebuildLane := none, rebuildInFlight := false }).transitionState
          .rebuilding .unloaded) (.done result)
  | drain {pc : RunPc} {current : Option PendingRebuild} (h : pc.holds = true)
      (hpc : pc.iterating = false) (hgate : pc.pastGate = false) :
      RunMove ws pc { ws with rebuildLane := none } (.top current)
  | quit {result : RebuildResult} (hlane : ws.rebuildLane = none)
      (hflag : ws.rebuildCancelled = false) :
      RunMove ws .release { ws with rebuildInFlight := false } (.done result)
  | idle {pc pc' : RunPc} (h : pc.pastGate = false) (hpc : pc.iterating = false)
      (h' : pc'.pastGate = false) (hpc' : pc'.iterating = false)
      (hfinishing : pc.finishing = true → pc'.finishing = true) : RunMove ws pc ws pc'
  | enter {it : Iteration} {prior : EntryState} {tries : List EntryState}
      {observed : WorkspaceState} {pc' : RunPc} (h : ws.state = prior.state)
      (h' : pc'.iterating = true) (hsection : pc'.inSection = false)
      (hreg : pc'.unregistering = false) (hentered : pc'.entered = some prior)
      (hstopped : pc'.stopped = false) :
      RunMove ws (.enter it (prior :: tries) observed) { ws with state := .rebuilding } pc'
  | work {pc pc' : RunPc} (lastError : Option DaemonError) (h : pc.iterating = true)
      (h' : pc'.iterating = true) (hsection : pc'.inSection = true → pc.inSection = true)
      (hinstalled : pc'.installed = none ∨ pc'.installed = pc.installed)
      (hentered : pc'.entered = none ∨ pc'.entered = pc.entered)
      (hstopped : pc'.stopped = true → ws.rebuildCancelled = true)
      (hsettles : pc.settles = none)
      (hreg : pc'.unregistering = true → pc.unregistering = true ∨
        (ws.rebuildCancelled = false ∧ ws.registered = false)) :
      RunMove ws pc { ws with lastError := lastError } pc'
  | leave {pc : RunPc} {it : Iteration} {result : RebuildResult} (target : WorkspaceState)
      (h : pc.iterating = true)
      (htarget : target = .unloaded ∨ target = .failed ∨
        ∃ it entered err, pc = .refused it entered err ∧ target = refusedState entered)
      (hresult : ∀ report, result ≠ .ok report) (hsettles : pc.settles = none) :
      RunMove ws pc (ws.transitionState .rebuilding target) (.deliver it result)
  | stop {it : Iteration} {bytes : Nat} :
      RunMove ws (.refund it bytes .stopped) ws (.deliver it evictedResult)
  | clear {it : Iteration} :
      RunMove ws (.clearCancelled it) { ws with rebuildCancelled := false }
        (.leaveUnregistered it)
  | recheck {it : Iteration} {bytes : Nat} {built : BuiltGraph}
      (hflag : ws.rebuildCancelled = false) (hreg : ws.registered = true) :
      RunMove ws (.recheck it bytes built) ws (.publish it bytes built .measure)
  | swapPublished {it : Iteration} {bytes : Nat} {built : BuiltGraph} :
      RunMove ws (.publish it bytes built .swapPublished)
        { ws with published := built.published }
        (.publish it bytes built (.swapMemory ws.published.graph))
  | swapMemory {it : Iteration} {bytes : Nat} {built : BuiltGraph} {old : CodeGraph} :
      RunMove ws (.publish it bytes built (.swapMemory old))
        { ws with memoryBytes := built.graph.heapBytes }
        (.publish it bytes built (.commit old ws.memoryBytes))
  | settle {it : Iteration} {bytes now : Nat} {built : BuiltGraph} :
      RunMove ws (.publish it bytes built .settle)
        ((ws.recordSuccess now).transitionState .rebuilding .loaded)
        (.deliver it (.ok ⟨built.published, it.mode⟩))

theorem RunMove.quiet {ws : LoadedWorkspace} {pc pc' : RunPc} (h : pc.iterating = true)
    (h' : pc'.iterating = true) (hsection : pc'.inSection = true → pc.inSection = true)
    (hinstalled : pc'.installed = none ∨ pc'.installed = pc.installed)
    (hentered : pc'.entered = none ∨ pc'.entered = pc.entered)
    (hstopped : pc'.stopped = true → ws.rebuildCancelled = true)
    (hsettles : pc.settles = none)
    (hreg : pc'.unregistering = true → pc.unregistering = true ∨
      (ws.rebuildCancelled = false ∧ ws.registered = false)) : RunMove ws pc ws pc' :=
  .work ws.lastError h h' hsection hinstalled hentered hstopped hsettles hreg

theorem refusedState_cases (entered : EntryState) :
    refusedState entered = .unloaded ∨ refusedState entered = .failed ∨
      refusedState entered = .loaded := by
  cases entered with
  | loaded => exact Or.inr (Or.inr rfl)
  | failed => exact Or.inr (Or.inl rfl)
  | unloaded => exact Or.inl rfl
  | rebuilding => exact Or.inr (Or.inr rfl)

theorem run_moves {d : Dispatcher} {ws : LoadedWorkspace} {env : Env} {last : RebuildResult}
    {pc : RunPc} {next : RunStep} (h : Runner.step d ws env last pc = some next) :
    RunMove ws pc next.ws next.pc := by
  cases pc with
  | top current =>
    cases h
    refine .take (fun hflag => ?_) fun hflag => ?_
    · simp [LoadedWorkspace.takeCancellation, hflag]
    · simp only [LoadedWorkspace.takeCancellation, hflag]
      cases current with
      | none => exact ⟨rfl, rfl⟩
      | some entry => exact ⟨rfl, rfl⟩
  | cancelGate current =>
    cases h
    exact .gate
  | release =>
    simp only [Runner.step] at h
    split at h
    · cases h
      exact .drain rfl rfl rfl
    next hlane =>
      split at h
      · cases h
        exact .idle rfl rfl rfl rfl nofun
      next hflag =>
        cases h
        exact .quit hlane (by simpa using hflag)
  | start entry =>
    cases h
    exact .idle rfl rfl rfl rfl nofun
  | enter it tries observed =>
    cases tries with
    | nil =>
      cases h
      exact .idle rfl rfl rfl rfl nofun
    | cons prior tries =>
      simp only [Runner.step] at h
      split at h
      next hstate =>
        cases h
        split
        next hprior =>
          rw [hprior]
          exact .enter (hprior ▸ hstate) rfl rfl rfl rfl rfl
        next hprior => exact .enter hstate rfl rfl rfl rfl rfl
      · cases h
        exact .idle rfl rfl rfl rfl nofun
  | checkRoster it =>
    cases h
    split
    · exact .quiet rfl rfl nofun (Or.inl rfl) (Or.inl rfl) nofun rfl nofun
    · exact .quiet rfl rfl nofun (Or.inl rfl) (Or.inr rfl) nofun rfl nofun
  | leaveUnloaded it =>
    cases h
    exact .leave .unloaded rfl (Or.inl rfl) nofun rfl
  | resolve it entered =>
    simp only [Runner.step] at h
    split at h
    · cases h
      exact .quiet rfl rfl nofun (Or.inl rfl) (Or.inr rfl) nofun rfl nofun
    · cases h
      exact .quiet rfl rfl nofun (Or.inl rfl) (Or.inr rfl) nofun rfl nofun
    · cases h
  | reserve it entered bytes =>
    simp only [Runner.step] at h
    split at h
    · cases h
      exact .quiet rfl rfl nofun (Or.inl rfl) (Or.inl rfl) nofun rfl nofun
    · cases h
      exact .quiet rfl rfl nofun (Or.inl rfl) (Or.inr rfl) nofun rfl nofun
  | admission it entered bytes =>
    simp only [Runner.step] at h
    split at h
    · cases h
      exact .quiet rfl rfl nofun (Or.inl rfl) (Or.inr rfl) nofun rfl nofun
    · cases h
      exact .quiet rfl rfl nofun (Or.inl rfl) (Or.inr rfl) nofun rfl nofun
  | execute it entered bytes cancelSeen =>
    simp only [Runner.step] at h
    split at h
    · cases h
      exact .quiet rfl rfl nofun (Or.inl rfl) (Or.inr rfl) nofun rfl nofun
    · cases h
      exact .quiet rfl rfl nofun (Or.inl rfl) (Or.inl rfl) nofun rfl nofun
    · cases h
      exact .quiet rfl rfl nofun (Or.inl rfl) (Or.inr rfl) nofun rfl nofun
    · split at h
      · cases h
        exact .quiet rfl rfl nofun (Or.inl rfl) (Or.inl rfl) nofun rfl nofun
      · split at h
        · cases h
          exact .quiet rfl rfl nofun (Or.inl rfl) (Or.inl rfl) nofun rfl nofun
        · cases h
    · cases h
  | recheck it bytes built =>
    simp only [Runner.step] at h
    split at h
    next hflag =>
      cases h
      exact .quiet rfl rfl nofun (Or.inl rfl) (Or.inl rfl) (fun _ => hflag) rfl nofun
    next hflag =>
      rw [Bool.not_eq_true] at hflag
      split at h
      next hreg =>
        cases h
        exact .recheck hflag hreg
      next hreg =>
        cases h
        exact .quiet rfl rfl nofun (Or.inl rfl) (Or.inl rfl) nofun rfl
          fun _ => Or.inr ⟨hflag, by simpa using hreg⟩
  | publish it bytes built stage =>
    cases stage with
    | measure =>
      simp only [Runner.step] at h
      split at h
      · cases h
        exact .quiet rfl rfl (fun _ => rfl) (Or.inl rfl) (Or.inl rfl) nofun rfl nofun
      · cases h
        exact .quiet rfl rfl (fun _ => rfl) (Or.inl rfl) (Or.inl rfl) nofun rfl nofun
    | swapPublished =>
      cases h
      exact .swapPublished
    | swapMemory old =>
      cases h
      exact .swapMemory
    | commit old prevBytes =>
      cases h
      exact .quiet rfl rfl (fun _ => rfl) (Or.inr rfl) (Or.inl rfl) nofun rfl nofun
    | settle =>
      simp only [Runner.step] at h
      split at h
      · cases h
        exact .settle
      · cases h
  | oversized it bytes err =>
    cases h
    exact .quiet rfl rfl (fun _ => rfl) (Or.inl rfl) (Or.inl rfl) nofun rfl nofun
  | recordLocked it err =>
    cases h
    exact .work (some err) rfl rfl (fun _ => rfl) (Or.inl rfl) (Or.inl rfl) nofun rfl nofun
  | toFailedLocked it err =>
    cases h
    exact .leave .failed rfl (Or.inr (Or.inl rfl)) nofun rfl
  | refund it bytes exit =>
    cases h
    cases exit with
    | refused entered err => exact .quiet rfl rfl nofun (Or.inl rfl) (Or.inr rfl) nofun rfl nofun
    | cancelled err => exact .quiet rfl rfl nofun (Or.inl rfl) (Or.inl rfl) nofun rfl nofun
    | failed err => exact .quiet rfl rfl nofun (Or.inl rfl) (Or.inl rfl) nofun rfl nofun
    | stopped => exact .stop
    | unregistered =>
      exact .quiet rfl rfl nofun (Or.inl rfl) (Or.inl rfl) nofun rfl fun _ => Or.inl rfl
  | refused it entered err =>
    cases h
    exact .leave _ rfl (Or.inr (Or.inr ⟨it, entered, err, rfl, rfl⟩)) nofun rfl
  | cancelled it err =>
    cases h
    exact .leave .unloaded rfl (Or.inl rfl) nofun rfl
  | record it err =>
    cases h
    exact .work (some err) rfl rfl nofun (Or.inl rfl) (Or.inl rfl) nofun rfl nofun
  | toFailed it err =>
    cases h
    exact .leave .failed rfl (Or.inr (Or.inl rfl)) nofun rfl
  | clearCancelled it =>
    cases h
    exact .clear
  | leaveUnregistered it =>
    cases h
    exact .leave .unloaded rfl (Or.inl rfl) nofun rfl
  | deliver it result =>
    cases h
    exact .idle rfl rfl rfl rfl id
  | next =>
    cases h
    exact .drain rfl rfl rfl
  | done result => cases h

end Sqry.Daemon
