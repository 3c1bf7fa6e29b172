import Sqry.Daemon.Moves
import Sqry.Lib.Sole

/-!
What the invariants of a slot see of it: the workspace, the load between its gate and its
end, and the drain loop that holds the runner role. That at most one drain loop holds the
role is a fact about every run; that at most one load is under way is not, and has to be
kept by whoever wins a gate.
-/

namespace Sqry.Daemon

structure View where
  ws : LoadedWorkspace
  load : Option LoadPc
  run : Option RunPc

def View.writable (v : View) : Bool :=
  v.load.all (fun pc => !pc.inSection) && v.run.all (fun pc => !pc.inSection)

namespace Slot

def activeLoad (s : Slot) : Option LoadPc :=
  (Sole.sole (fun l => l.pc.active) s.loads).map Load.pc

def holder (s : Slot) : Option RunPc :=
  (Sole.sole (fun r => r.pc.holds) s.runners).map Runner.pc

def view (s : Slot) : View := ⟨s.ws, s.activeLoad, s.holder⟩

def OneLoad (s : Slot) : Prop := Sole.AtMostOne (fun l => l.pc.active) s.loads

/-- The runner role: the flag says whether a drain loop holds it, and what is parked is
parked behind one. -/
structure RoleHeld (s : Slot) : Prop where
  one : Sole.AtMostOne (fun r => r.pc.holds) s.runners
  flag : s.ws.rebuildInFlight = s.holder.isSome
  lane : s.holder = none → s.ws.rebuildLane = none

theorem activeLoad_eq_none_iff {s : Slot} :
    s.activeLoad = none ↔ ∀ l ∈ s.loads, l.pc.active = false := by
  rw [activeLoad, Option.map_eq_none_iff, Sole.sole_eq_none_iff]

theorem holder_eq_none_iff {s : Slot} :
    s.holder = none ↔ ∀ r ∈ s.runners, r.pc.holds = false := by
  rw [holder, Option.map_eq_none_iff, Sole.sole_eq_none_iff]

theorem activeLoad_eq {s : Slot} (h : s.OneLoad) {l : Load} (hl : l ∈ s.loads)
    (hactive : l.pc.active = true) : s.activeLoad = some l.pc := by
  rw [activeLoad, Sole.AtMostOne.sole_eq h hl hactive]
  rfl

theorem holder_eq {s : Slot} (h : s.RoleHeld) {r : Runner} (hr : r ∈ s.runners)
    (hholds : r.pc.holds = true) : s.holder = some r.pc := by
  rw [holder, Sole.AtMostOne.sole_eq h.one hr hholds]
  rfl

theorem mem_of_activeLoad {s : Slot} {pc : LoadPc} (h : s.activeLoad = some pc) :
    pc.active = true ∧ ∃ l ∈ s.loads, l.pc = pc := by
  rw [activeLoad, Option.map_eq_some_iff] at h
  obtain ⟨l, hl, rfl⟩ := h
  obtain ⟨hmem, hactive⟩ := Sole.sole_mem hl
  exact ⟨hactive, l, hmem, rfl⟩

theorem mem_of_holder {s : Slot} {pc : RunPc} (h : s.holder = some pc) :
    pc.holds = true ∧ ∃ r ∈ s.runners, r.pc = pc := by
  rw [holder, Option.map_eq_some_iff] at h
  obtain ⟨r, hr, rfl⟩ := h
  obtain ⟨hmem, hholds⟩ := Sole.sole_mem hr
  exact ⟨hholds, r, hmem, rfl⟩

theorem view_writable {s : Slot} (h : s.writable = true) : s.view.writable = true := by
  simp only [writable, Bool.and_eq_true, List.all_eq_true] at h
  simp only [View.writable, view, Bool.and_eq_true]
  refine ⟨?_, ?_⟩
  · cases hload : s.activeLoad with
    | none => rfl
    | some pc =>
      obtain ⟨-, l, hl, rfl⟩ := mem_of_activeLoad hload
      exact h.1 l hl
  · cases hrun : s.holder with
    | none => rfl
    | some pc =>
      obtain ⟨-, r, hr, rfl⟩ := mem_of_holder hrun
      exact h.2 r hr

end Slot

inductive ViewMove (v : View) : SlotAction → View → Prop
  | unseen {a : SlotAction} : ViewMove v a v
  | gate {i : Nat} {env : Env} {prior : GateState} (hnone : v.load = none)
      (h : v.ws.state = prior.state) :
      ViewMove v (.stepLoad i env)
        ⟨{ v.ws with state := .loading }, some (.readCancelled prior), v.run⟩
  | load {i : Nat} {env : Env} {inserted : Bool} {pc pc' : LoadPc} {ws' : LoadedWorkspace}
      (h : v.load = some pc) (hactive : pc.active = true)
      (hmove : LoadMove inserted v.ws pc ws' pc')
      (hwrites : pc.takesWriteLock = true → v.writable = true) :
      ViewMove v (.stepLoad i env) ⟨ws', if pc'.active then some pc' else none, v.run⟩
  | acquire {request : Request} {entry : PendingRebuild} (h : v.run = none) :
      ViewMove v (.enqueue request)
        ⟨{ v.ws with rebuildLane := none, rebuildInFlight := true }, v.load,
          some (.top (some entry))⟩
  | park {request : Request} {entry : PendingRebuild} (h : v.run ≠ none) :
      ViewMove v (.enqueue request) { v with ws := { v.ws with rebuildLane := some entry } }
  | run {i : Nat} {env : Env} {pc pc' : RunPc} {ws' : LoadedWorkspace} (h : v.run = some pc)
      (hmove : RunMove v.ws pc ws' pc') :
      ViewMove v (.stepRunner i env) ⟨ws', v.load, if pc'.holds then some pc' else none⟩
  | cancelRebuild : ViewMove v .cancelRebuild { v with ws := v.ws.cancelRebuild }
  | evict (hw : v.writable = true) (hreg : v.ws.registered = true) :
      ViewMove v .evict { v with ws := v.ws.evictToTombstone }
  | unload (hw : v.writable = true) (hreg : v.ws.registered = true) :
      ViewMove v .unload { v with ws := v.ws.unload }
  | reset {force : Bool} (hw : v.writable = true) (hreg : v.ws.registered = true) :
      ViewMove v (.reset force) { v with ws := (v.ws.reset force).1 }

theorem LoadMove.role {inserted : Bool} {ws ws' : LoadedWorkspace} {pc pc' : LoadPc}
    (h : LoadMove inserted ws pc ws' pc') :
    ws'.rebuildInFlight = ws.rebuildInFlight ∧ ws'.rebuildLane = ws.rebuildLane := by
  cases h with
  | putBack =>
    simp only [LoadedWorkspace.transitionState]
    split <;> exact ⟨rfl, rfl⟩
  | leave =>
    simp only [LoadedWorkspace.transitionState]
    split <;> exact ⟨rfl, rfl⟩
  | abandon =>
    simp only [LoadedWorkspace.abandonLoad]
    split <;> exact ⟨rfl, rfl⟩
  | _ => exact ⟨rfl, rfl⟩

theorem LoadMove.active {inserted : Bool} {ws ws' : LoadedWorkspace} {pc pc' : LoadPc}
    (h : LoadMove inserted ws pc ws' pc') (hpc : pc.active = false) :
    (ws' = ws ∧ pc'.active = false) ∨
      ∃ prior tries, pc = .exchange (prior :: tries) ∧ ws.state = prior.state ∧
        ws' = { ws with state := .loading } ∧ pc' = .readCancelled prior := by
  cases h with
  | idle _ h' => exact Or.inl ⟨rfl, h'⟩
  | exchange hstate => exact Or.inr ⟨_, _, rfl, hstate, rfl, rfl⟩
  | look h =>
    rw [LoadPc.active_of_gating h] at hpc
    cases hpc
  | work _ h =>
    rw [LoadPc.active_of_acquired h] at hpc
    cases hpc
  | leave h =>
    rw [LoadPc.active_of_acquired h] at hpc
    cases hpc
  | _ => cases hpc

theorem RunMove.role {ws ws' : LoadedWorkspace} {pc pc' : RunPc} (h : RunMove ws pc ws' pc') :
    pc.holds = true ∧
      ((pc'.holds = true ∧ ws'.rebuildInFlight = ws.rebuildInFlight) ∨
        (pc'.holds = false ∧ ws'.rebuildInFlight = false ∧ ws'.rebuildLane = none)) := by
  have kept : ∀ (ws : LoadedWorkspace) {target},
      (ws.transitionState .rebuilding target).rebuildInFlight = ws.rebuildInFlight := by
    intro ws target
    simp only [LoadedWorkspace.transitionState]
    split <;> rfl
  have notDone : ∀ {pc : RunPc}, pc.pastGate = false → pc.holds = true := by
    intro pc hpc
    cases pc <;> first | rfl | cases hpc
  cases h with
  | take hcancel hgo =>
    refine ⟨rfl, Or.inl ⟨?_, ?_⟩⟩
    · cases hflag : ws.rebuildCancelled with
      | true =>
        rw [hcancel hflag]
        rfl
      | false => exact notDone (hgo hflag).1
    · simp only [LoadedWorkspace.takeCancellation]
      split <;> rfl
  | gate =>
    refine ⟨rfl, Or.inr ⟨rfl, ?_⟩⟩
    simp only [LoadedWorkspace.transitionState]
    split <;> exact ⟨rfl, rfl⟩
  | drain h => exact ⟨h, Or.inl ⟨rfl, rfl⟩⟩
  | quit hlane => exact ⟨rfl, Or.inr ⟨rfl, rfl, hlane⟩⟩
  | idle h _ h' => exact ⟨notDone h, Or.inl ⟨notDone h', rfl⟩⟩
  | enter _ h' => exact ⟨rfl, Or.inl ⟨RunPc.holds_of_iterating h', rfl⟩⟩
  | work _ h h' =>
    exact ⟨RunPc.holds_of_iterating h, Or.inl ⟨RunPc.holds_of_iterating h', rfl⟩⟩
  | leave _ h => exact ⟨RunPc.holds_of_iterating h, Or.inl ⟨rfl, kept ws⟩⟩
  | settle =>
    exact ⟨rfl, Or.inl ⟨rfl, kept (ws.recordSuccess _)⟩⟩
  | _ => exact ⟨rfl, Or.inl ⟨rfl, rfl⟩⟩

namespace LoadedWorkspace

theorem evictToTombstone_role (ws : LoadedWorkspace) :
    ws.evictToTombstone.rebuildInFlight = ws.rebuildInFlight ∧
      ws.evictToTombstone.rebuildLane = ws.rebuildLane := by
  simp only [evictToTombstone]
  split <;> exact ⟨rfl, rfl⟩

theorem reset_role (ws : LoadedWorkspace) (force : Bool) :
    (ws.reset force).1.rebuildInFlight = ws.rebuildInFlight ∧
      (ws.reset force).1.rebuildLane = ws.rebuildLane := by
  have htomb := ws.evictToTombstone_role
  simp only [reset]
  split
  · exact ⟨rfl, rfl⟩
  · split
    · exact ⟨rfl, rfl⟩
    · split
      · exact ⟨rfl, rfl⟩
      · exact htomb

theorem cancelRebuild_role (ws : LoadedWorkspace) :
    ws.cancelRebuild.rebuildInFlight = ws.rebuildInFlight ∧
      ws.cancelRebuild.rebuildLane = ws.rebuildLane := by
  simp only [cancelRebuild]
  split <;> exact ⟨rfl, rfl⟩

def Joins (ws : LoadedWorkspace) (incoming entry : PendingRebuild) : Prop :=
  (ws.rebuildLane = none ∧ entry = incoming) ∨
    ∃ prior, ws.rebuildLane = some prior ∧ prior.mergesWith incoming = true ∧
      entry = prior.coalesceWith incoming

theorem acquireOrPark_cases (ws : LoadedWorkspace) (incoming : PendingRebuild) (stopped : Bool) :
    (∃ entry, ws.Joins incoming entry ∧ ws.rebuildInFlight = false ∧
      ws.acquireOrPark incoming stopped =
        ({ ws with rebuildLane := none, rebuildInFlight := true }, .run entry)) ∨
    (∃ entry, ws.Joins incoming entry ∧ ws.rebuildInFlight = true ∧
      ws.acquireOrPark incoming stopped = ({ ws with rebuildLane := some entry }, .parked)) ∨
    (∃ err, ws.acquireOrPark incoming stopped = (ws, .refused err)) := by
  simp only [acquireOrPark]
  split
  · exact Or.inr (Or.inr ⟨_, rfl⟩)
  · split
    · exact Or.inr (Or.inr ⟨_, rfl⟩)
    · split
      · exact Or.inr (Or.inr ⟨_, rfl⟩)
      next entry hentry =>
        have hjoins : ws.Joins incoming entry := by
          split at hentry
          next prior hlane =>
            split at hentry
            next hmerges =>
              cases hentry
              exact Or.inr ⟨prior, hlane, hmerges, rfl⟩
            · cases hentry
          next hlane =>
            cases hentry
            exact Or.inl ⟨hlane, rfl⟩
        split
        next hflight => exact Or.inr (Or.inl ⟨entry, hjoins, hflight, rfl⟩)
        next hflight => exact Or.inl ⟨entry, hjoins, by simpa using hflight, rfl⟩

end LoadedWorkspace

namespace Slot

theorem stepLoad_some {s s' : Slot} {i : Nat} {env : Env} {l : Load}
    (h : s.stepLoad i env l = some s') :
    ∃ ws pc, LoadMove l.call.inserted s.ws l.pc ws pc ∧
      (l.pc.takesWriteLock = true → s.writable = true) ∧
      s' = { s with ws := ws, loads := s.loads.set i ⟨l.call, pc⟩ } := by
  rw [stepLoad] at h
  split at h
  · cases h
  next hlock =>
    obtain ⟨next, hnext, rfl⟩ := Option.map_eq_some_iff.mp h
    refine ⟨_, _, load_moves hnext, fun hw => ?_, rfl⟩
    rw [not_and, Bool.not_eq_false] at hlock
    exact hlock hw

theorem stepRunner_some {d : Dispatcher} {s s' : Slot} {i : Nat} {env : Env} {r : Runner}
    (h : s.stepRunner d i env r = some s') :
    ∃ next, Runner.step d s.ws env r.lastResult r.pc = some next ∧
      RunMove s.ws r.pc next.ws next.pc ∧ s'.ws = next.ws ∧ s'.loads = s.loads ∧
      s'.runners = s.runners.set i ⟨next.pc, next.lastResult⟩ := by
  rw [stepRunner] at h
  obtain ⟨next, hnext, rfl⟩ := Option.map_eq_some_iff.mp h
  exact ⟨next, hnext, run_moves hnext, rfl, rfl, rfl⟩

theorem RoleHeld.same {s s' : Slot} (h : s.RoleHeld) (hrunners : s'.runners = s.runners)
    (hrole : s'.ws.rebuildInFlight = s.ws.rebuildInFlight ∧
      s'.ws.rebuildLane = s.ws.rebuildLane) : s'.RoleHeld := by
  have hholder : s'.holder = s.holder := by rw [holder, holder, hrunners]
  refine ⟨?_, ?_, ?_⟩
  · rw [hrunners]
    exact h.one
  · rw [hrole.1, hholder]
    exact h.flag
  · rw [hrole.2, hholder]
    exact h.lane

theorem RoleHeld.stepRunner {s s' : Slot} {i : Nat} {r : Runner} {next : RunStep}
    (h : s.RoleHeld) (hi : s.runners[i]? = some r) (hmove : RunMove s.ws r.pc next.ws next.pc)
    (hws : s'.ws = next.ws)
    (hrunners : s'.runners = s.runners.set i ⟨next.pc, next.lastResult⟩) :
    s'.RoleHeld ∧ s.holder = some r.pc ∧
      s'.holder = if next.pc.holds then some next.pc else none := by
  obtain ⟨hholds, hnext⟩ := hmove.role
  have hnow : s.holder = some r.pc := holder_eq h (List.mem_of_getElem? hi) hholds
  have hthen : s'.holder = if next.pc.holds then some next.pc else none := by
    rw [holder, hrunners, Sole.sole_set h.one hi (Or.inl hholds)]
    split <;> rfl
  refine ⟨⟨?_, ?_, ?_⟩, hnow, hthen⟩
  · rw [hrunners]
    exact h.one.set hi fun _ => Or.inl hholds
  · rw [hthen, hws]
    obtain ⟨hnext, hflag⟩ | ⟨hnext, hflag, -⟩ := hnext
    · rw [hflag, h.flag, hnow, if_pos hnext]
      rfl
    · rw [hflag, if_neg (by simp [hnext])]
      rfl
  · intro hnone
    rw [hthen] at hnone
    obtain ⟨hnext, -⟩ | ⟨-, -, hlane⟩ := hnext
    · rw [if_pos hnext] at hnone
      cases hnone
    · rw [hws]
      exact hlane

theorem enqueue_cases (s : Slot) (request : Request) :
    (s.enqueue request).loads = s.loads ∧
    ((∃ entry, s.ws.rebuildInFlight = false ∧
        (s.enqueue request).ws = { s.ws with rebuildLane := none, rebuildInFlight := true } ∧
        (s.enqueue request).runners = s.runners ++ [⟨.top (some entry), drainNotRun⟩]) ∨
      (∃ entry, s.ws.rebuildInFlight = true ∧
        (s.enqueue request).ws = { s.ws with rebuildLane := some entry } ∧
        (s.enqueue request).runners = s.runners) ∨
      ((s.enqueue request).ws = s.ws ∧ (s.enqueue request).runners = s.runners)) := by
  rw [enqueue]
  dsimp only
  obtain ⟨entry, -, hflight, heq⟩ | ⟨entry, -, hflight, heq⟩ | ⟨err, heq⟩ :=
    s.ws.acquireOrPark_cases (request.incoming s.nextWaiter) request.stopped
  · rw [heq]
    exact ⟨rfl, Or.inl ⟨entry, hflight, rfl, rfl⟩⟩
  · rw [heq]
    exact ⟨rfl, Or.inr (Or.inl ⟨entry, hflight, rfl, rfl⟩)⟩
  · rw [heq]
    exact ⟨rfl, Or.inr (Or.inr ⟨rfl, rfl⟩)⟩

theorem RoleHeld.enqueue {s : Slot} (h : s.RoleHeld) (request : Request) :
    (s.enqueue request).RoleHeld ∧
      ViewMove s.view (.enqueue request) (s.enqueue request).view := by
  obtain ⟨hloads, hcases⟩ := s.enqueue_cases request
  have hload : (s.enqueue request).activeLoad = s.activeLoad := by
    rw [activeLoad, activeLoad, hloads]
  obtain ⟨entry, hflight, hws, hrunners⟩ | ⟨entry, hflight, hws, hrunners⟩ | ⟨hws, hrunners⟩ :=
    hcases
  · have hnone : s.holder = none := by
      rw [h.flag, Option.isSome_eq_false_iff, Option.isNone_iff_eq_none] at hflight
      exact hflight
    have hthen : (s.enqueue request).holder = some (.top (some entry)) := by
      rw [holder, hrunners, Sole.sole_append_of_none (Option.map_eq_none_iff.mp hnone) rfl]
      rfl
    refine ⟨⟨?_, ?_, fun _ => ?_⟩, ?_⟩
    · rw [hrunners]
      exact h.one.append fun _ => holder_eq_none_iff.mp hnone
    · rw [hthen, hws]
      rfl
    · rw [hws]
    · rw [view, view, hthen, hws, hload]
      exact .acquire hnone
  · have hthen : (s.enqueue request).holder = s.holder := by rw [holder, holder, hrunners]
    have hsome : s.holder ≠ none := by
      intro hnone
      rw [h.flag, hnone] at hflight
      cases hflight
    refine ⟨⟨?_, ?_, ?_⟩, ?_⟩
    · rw [hrunners]
      exact h.one
    · rw [hthen, hws]
      exact h.flag
    · rw [hthen]
      exact fun hnone => absurd hnone hsome
    · rw [view, view, hthen, hws, hload]
      exact .park hsome
  · have hthen : (s.enqueue request).holder = s.holder := by rw [holder, holder, hrunners]
    refine ⟨h.same hrunners (by rw [hws]; exact ⟨rfl, rfl⟩), ?_⟩
    rw [view, view, hthen, hws, hload]
    exact .unseen

theorem roleHeld_init (sourceRoot : PathBuf) (pinned : Bool) : (init sourceRoot pinned).RoleHeld :=
  ⟨Sole.atMostOne_nil _, rfl, fun _ => rfl⟩

/-- No order of steps gives the role to two drain loops or parks a request behind none. -/
theorem roleHeld_step {d : Dispatcher} {s s' : Slot} {a : SlotAction} (hrole : s.RoleHeld)
    (h : s.step d a = some s') : s'.RoleHeld := by
  cases a with
  | load call =>
    simp only [step] at h
    split at h
    · cases h
    · cases h
      exact hrole.same rfl ⟨rfl, rfl⟩
  | stepLoad i env =>
    obtain ⟨l, -, hl⟩ := Option.bind_eq_some_iff.mp h
    obtain ⟨ws, pc, hmove, -, rfl⟩ := stepLoad_some hl
    exact hrole.same rfl hmove.role
  | enqueue request =>
    cases h
    exact (hrole.enqueue request).1
  | stepRunner i env =>
    obtain ⟨r, hi, hr⟩ := Option.bind_eq_some_iff.mp h
    obtain ⟨next, -, hmove, hws, -, hrunners⟩ := stepRunner_some hr
    exact (hrole.stepRunner hi hmove hws hrunners).1
  | cancelRebuild =>
    cases h
    exact hrole.same rfl s.ws.cancelRebuild_role
  | evict =>
    simp only [step] at h
    split at h
    · cases h
      exact hrole.same rfl s.ws.evictToTombstone_role
    · cases h
  | unload =>
    simp only [step] at h
    split at h
    · cases h
      exact hrole.same rfl s.ws.evictToTombstone_role
    · cases h
  | reset force =>
    simp only [step] at h
    split at h
    · cases h
      exact hrole.same rfl (s.ws.reset_role force)
    · cases h

def gateWon (s : Slot) (i : Nat) : Bool :=
  match s.loads[i]? with
  | some ⟨_, .exchange (prior :: _)⟩ => decide (s.ws.state = prior.state)
  | _ => false

def gateAlone (s : Slot) : SlotAction → Bool
  | .stepLoad i _ => !s.gateWon i || s.activeLoad.isNone
  | _ => true

theorem oneLoad_init (sourceRoot : PathBuf) (pinned : Bool) : (init sourceRoot pinned).OneLoad :=
  Sole.atMostOne_nil _

theorem view_of {s : Slot} {v : View} (hws : s.ws = v.ws) (hload : s.activeLoad = v.load)
    (hrun : s.holder = v.run) : s.view = v := by
  rw [view, hws, hload, hrun]

theorem OneLoad.stepLoad_cases {s s' : Slot} {i : Nat} {env : Env} {l : Load} (h : s.OneLoad)
    (hi : s.loads[i]? = some l) (halone : s.gateAlone (.stepLoad i env) = true)
    (hstep : s.stepLoad i env l = some s') :
    s'.OneLoad ∧
    ((l.pc.active = true ∧ s.activeLoad = some l.pc ∧ ∃ ws pc,
        LoadMove l.call.inserted s.ws l.pc ws pc ∧
        (l.pc.takesWriteLock = true → s.writable = true) ∧
        s'.view = ⟨ws, if pc.active then some pc else none, s.holder⟩) ∨
      (l.pc.active = false ∧ s'.view = s.view) ∨
      (l.pc.active = false ∧ s.activeLoad = none ∧ ∃ prior : GateState,
        s.ws.state = prior.state ∧
        s'.view = ⟨{ s.ws with state := .loading }, some (.readCancelled prior), s.holder⟩)) := by
  obtain ⟨ws, pc, hmove, hlock, rfl⟩ := stepLoad_some hstep
  cases hactive : l.pc.active with
  | true =>
    have hnow : s.activeLoad = some l.pc := activeLoad_eq h (List.mem_of_getElem? hi) hactive
    refine ⟨h.set hi fun _ => Or.inl hactive, Or.inl ⟨rfl, hnow, ws, pc, hmove, hlock, ?_⟩⟩
    refine view_of rfl ?_ rfl
    rw [activeLoad, Sole.sole_set h hi (Or.inl hactive)]
    split <;> rfl
  | false =>
    obtain ⟨rfl, hpc⟩ | ⟨prior, tries, hfrom, hstate, rfl, rfl⟩ := hmove.active hactive
    · refine ⟨h.set hi fun hpc' => absurd hpc' (by simp [hpc]), Or.inr (Or.inl ⟨rfl, ?_⟩)⟩
      refine view_of rfl ?_ rfl
      exact congrArg (Option.map Load.pc) (Sole.sole_set_of_not h hi hactive hpc)
    · have hnone : s.activeLoad = none := by
        have hwon : s.gateWon i = true := by
          obtain ⟨call, lpc⟩ := l
          cases hfrom
          rw [gateWon, hi]
          exact decide_eq_true hstate
        rw [gateAlone, hwon, Bool.not_true, Bool.false_or, Option.isNone_iff_eq_none] at halone
        exact halone
      have hall := activeLoad_eq_none_iff.mp hnone
      refine ⟨h.set hi fun _ => Or.inr hall,
        Or.inr (Or.inr ⟨rfl, hnone, prior, hstate, view_of rfl ?_ rfl⟩)⟩
      rw [activeLoad, Sole.sole_set h hi (Or.inr hall)]
      rfl

theorem view_step {d : Dispatcher} {s s' : Slot} {a : SlotAction} (hrole : s.RoleHeld)
    (hone : s.OneLoad) (halone : s.gateAlone a = true) (h : s.step d a = some s') :
    s'.OneLoad ∧ ViewMove s.view a s'.view := by
  have found : s.reachable = true → s.view.writable = true ∧ s.ws.registered = true := by
    intro hreach
    rw [reachable, Bool.and_eq_true] at hreach
    exact ⟨view_writable hreach.1, hreach.2⟩
  cases a with
  | load call =>
    simp only [step] at h
    split at h
    · cases h
    · cases h
      have hpc : (if call.inserted = true then LoadPc.exchange gateStates
          else .lookup).active = false := by
        split <;> rfl
      refine ⟨hone.append fun hb => absurd hb (by simp [hpc]), ?_⟩
      have hview : Slot.view { s with loads := s.loads ++ [⟨call, if call.inserted
          then .exchange gateStates else .lookup⟩] } = s.view :=
        view_of rfl (congrArg (Option.map Load.pc) (Sole.sole_append_of_not hpc)) rfl
      rw [hview]
      exact .unseen
  | stepLoad i env =>
    obtain ⟨l, hi, hl⟩ := Option.bind_eq_some_iff.mp h
    obtain ⟨hone', hcases⟩ := hone.stepLoad_cases hi halone hl
    refine ⟨hone', ?_⟩
    obtain ⟨hactive, hnow, ws, pc, hmove, hlock, hview⟩ | ⟨-, hview⟩ |
      ⟨-, hnone, prior, hstate, hview⟩ := hcases
    · rw [hview]
      exact .load hnow hactive hmove fun hw => view_writable (hlock hw)
    · rw [hview]
      exact .unseen
    · rw [hview]
      exact .gate hnone hstate
  | enqueue request =>
    cases h
    refine ⟨?_, (hrole.enqueue request).2⟩
    rw [OneLoad, (s.enqueue_cases request).1]
    exact hone
  | stepRunner i env =>
    obtain ⟨r, hi, hr⟩ := Option.bind_eq_some_iff.mp h
    obtain ⟨next, -, hmove, hws, hloads, hrunners⟩ := stepRunner_some hr
    obtain ⟨-, hnow, hthen⟩ := hrole.stepRunner hi hmove hws hrunners
    have hload : s'.activeLoad = s.activeLoad := by rw [activeLoad, hloads, activeLoad]
    refine ⟨?_, ?_⟩
    · rw [OneLoad, hloads]
      exact hone
    · have hview : s'.view =
          ⟨next.ws, s.activeLoad, if next.pc.holds then some next.pc else none⟩ :=
        view_of hws hload hthen
      rw [hview]
      exact .run hnow hmove
  | cancelRebuild =>
    cases h
    exact ⟨hone, .cancelRebuild⟩
  | evict =>
    simp only [step] at h
    split at h
    next hreach =>
      cases h
      exact ⟨hone, .evict (found hreach).1 (found hreach).2⟩
    · cases h
  | unload =>
    simp only [step] at h
    split at h
    next hreach =>
      cases h
      exact ⟨hone, .unload (found hreach).1 (found hreach).2⟩
    · cases h
  | reset force =>
    simp only [step] at h
    split at h
    next hreach =>
      cases h
      exact ⟨hone, .reset (found hreach).1 (found hreach).2⟩
    · cases h

end Slot

end Sqry.Daemon
