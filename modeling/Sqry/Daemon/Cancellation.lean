import Sqry.Daemon.View

/-!
How long a cancellation lives. A raised flag is heard by the runner that holds the role, or
belongs to a tombstone, or waits for the load that took the tombstone over; so without any
of these it is down, as long as nobody raises it after the runner took its last look.
-/

namespace Sqry.Daemon

def Load.fromTombstone (l : Load) : Bool :=
  l.pc.gating && decide (l.pc.prior = some .evicted)

namespace Slot

def fromTombstone (s : Slot) : Bool := s.loads.any Load.fromTombstone

def heard (s : Slot) : Bool := s.holder.any fun pc => !pc.pastGate

/-- The flag is raised for a runner that will look at it, and no load gives up a slot that
another one is taking over. -/
def cancellationHeard (s : Slot) : SlotAction → Bool
  | .cancelRebuild => !s.ws.rebuildInFlight || s.heard || decide (s.ws.state = .evicted)
  | .reset force =>
    (s.ws.pinned && !force) || decide (s.ws.state = .loading) || !s.ws.rebuildInFlight ||
      s.heard || decide (s.ws.state = .evicted)
  | .stepLoad i _ => (s.loads[i]?).all fun l =>
    (!decide (l.pc = .restoreCancelled) || s.heard || decide (s.ws.state = .evicted)) &&
      (!l.pc.ends || !s.fromTombstone) &&
      (!(l.pc.ends && l.pc.inSection) || !decide (s.ws.state = .evicted))
  | _ => true

def Answered (s : Slot) : Prop :=
  s.ws.rebuildCancelled = true →
    s.heard = true ∨ s.ws.state = .evicted ∨ (s.ws.state = .loading ∧ s.fromTombstone = true)

variable {s s' : Slot} {i : Nat}

theorem Answered.same (h : s.Answered) (hflag : s'.ws.rebuildCancelled = s.ws.rebuildCancelled)
    (hstate : s'.ws.state = s.ws.state) (hheard : s.heard = true → s'.heard = true)
    (hfrom : s.fromTombstone = true → s'.fromTombstone = true) : s'.Answered := by
  intro hup
  rw [hflag] at hup
  rw [hstate]
  exact (h hup).imp hheard (Or.imp id fun hloading => ⟨hloading.1, hfrom hloading.2⟩)

theorem fromTombstone_set {s : Slot} {l l' : Load} (hi : s.loads[i]? = some l)
    (hkeep : l.fromTombstone = true → l'.fromTombstone = true) (h : s.fromTombstone = true) :
    (s.loads.set i l').any Load.fromTombstone = true := by
  obtain ⟨m, hm, hfrom⟩ := List.any_eq_true.mp h
  obtain ⟨j, hj⟩ := List.mem_iff_getElem?.mp hm
  by_cases hij : j = i
  · cases hij
    rw [hi] at hj
    cases hj
    exact List.any_eq_true.mpr ⟨l', Sole.mem_set_self hi, hkeep hfrom⟩
  · refine List.any_eq_true.mpr ⟨m, List.mem_iff_getElem?.mpr ⟨j, ?_⟩, hfrom⟩
    rw [List.getElem?_set_ne (Ne.symm hij)]
    exact hj

theorem cancellationHeard_load {s : Slot} {env : Env} {l : Load} (hi : s.loads[i]? = some l)
    (h : s.cancellationHeard (.stepLoad i env) = true) :
    (l.pc = .restoreCancelled → s.heard = true ∨ s.ws.state = .evicted) ∧
    (l.pc.ends = true → s.fromTombstone = false) ∧
    (l.pc.ends = true → l.pc.inSection = true → s.ws.state ≠ .evicted) := by
  simp only [cancellationHeard, hi, Option.all_some, Bool.and_eq_true, Bool.or_eq_true,
    Bool.not_eq_true', decide_eq_true_eq, decide_eq_false_iff_not] at h
  obtain ⟨⟨hrestore, hends⟩, hsettle⟩ := h
  refine ⟨fun hpc => ?_, fun he => ?_, fun he hs => ?_⟩
  · obtain (hnot | hheard) | hevicted := hrestore
    · exact absurd hpc hnot
    · exact Or.inl hheard
    · exact Or.inr hevicted
  · obtain hnot | hfrom := hends
    · rw [he] at hnot
      cases hnot
    · exact hfrom
  · obtain hnot | hevicted := hsettle
    · rw [he, hs] at hnot
      cases hnot
    · exact hevicted

theorem Answered.stepLoad {env : Env} {l : Load} (h : s.Answered) (hi : s.loads[i]? = some l)
    (hheard : s.cancellationHeard (.stepLoad i env) = true) (hstep : s.stepLoad i env l = some s')
    : s'.Answered := by
  obtain ⟨hrestore, hends, hsettle⟩ := cancellationHeard_load hi hheard
  obtain ⟨call, pc⟩ := l
  obtain ⟨ws, pc', hmove, -, rfl⟩ := stepLoad_some hstep
  -- A load that is not at its gate leaves the others' gates as they are.
  have away : pc.gating = false → s.fromTombstone = true →
      (s.loads.set i ⟨call, pc'⟩).any Load.fromTombstone = true := by
    intro hgate
    refine fromTombstone_set hi fun hfrom => ?_
    rw [Load.fromTombstone, hgate] at hfrom
    cases hfrom
  cases hmove with
  | idle hpc =>
    refine h.same rfl rfl id (away (Bool.eq_false_iff.mpr fun hgate => ?_))
    rw [LoadPc.active_of_gating hgate] at hpc
    cases hpc
  | @exchange prior tries hprior =>
    intro hup
    obtain hrun | hevicted | ⟨hloading, -⟩ := h hup
    · exact Or.inl hrun
    · refine Or.inr (Or.inr ⟨rfl, List.any_eq_true.mpr ⟨_, Sole.mem_set_self hi, ?_⟩⟩)
      rw [hprior] at hevicted
      cases prior with
      | evicted => rfl
      | unloaded => cases hevicted
      | failed => cases hevicted
    · rw [hprior] at hloading
      cases prior <;> cases hloading
  | look _ hgate' hprior =>
    refine h.same rfl rfl id (fromTombstone_set hi fun hfrom => ?_)
    rw [Load.fromTombstone, Bool.and_eq_true] at hfrom ⊢
    rw [hprior]
    exact ⟨hgate', hfrom.2⟩
  | putBack =>
    intro hup
    rw [LoadedWorkspace.transitionState] at hup ⊢
    split
    · exact Or.inr (Or.inl rfl)
    next hstate =>
      rw [if_neg hstate] at hup
      obtain hrun | hevicted | ⟨hloading, -⟩ := h hup
      · exact Or.inl hrun
      · exact Or.inr (Or.inl hevicted)
      · exact absurd hloading hstate
  | swapClear => simp [Answered]
  | swapRefuse => simp [Answered]
  | restore =>
    intro _
    exact (hrestore rfl).imp id Or.inl
  | work _ hpc => exact h.same rfl rfl id (away (LoadPc.not_gating_of_acquired hpc))
  | leave hpc _ he =>
    rw [LoadedWorkspace.transitionState]
    split
    next hstate =>
      intro hup
      obtain hrun | hevicted | ⟨-, hfrom⟩ := h hup
      · exact Or.inl hrun
      · rw [hstate] at hevicted
        cases hevicted
      · rw [hends he] at hfrom
        cases hfrom
    · exact h.same rfl rfl id (away (LoadPc.not_gating_of_acquired hpc))
  | @abandon entry err result =>
    rw [LoadedWorkspace.abandonLoad]
    split
    next hstate =>
      intro hup
      have hup : (s.ws.rebuildCancelled ||
          (decide (entry.priorState = .evicted) && entry.priorCancelled)) = true := hup
      rw [Bool.or_eq_true, Bool.and_eq_true, decide_eq_true_eq] at hup
      obtain hup | ⟨hprior, -⟩ := hup
      · obtain hrun | hevicted | ⟨-, hfrom⟩ := h hup
        · exact Or.inl hrun
        · rw [hstate] at hevicted
          cases hevicted
        · rw [hends rfl] at hfrom
          cases hfrom
      · refine Or.inr (Or.inl ?_)
        rw [hprior]
        rfl
    · exact h.same rfl rfl id (away rfl)
  | recheck => exact h.same rfl rfl id (away rfl)
  | swapPublished => exact h.same rfl rfl id (away rfl)
  | swapMemory => exact h.same rfl rfl id (away rfl)
  | settle =>
    intro hup
    obtain hrun | hevicted | ⟨-, hfrom⟩ := h hup
    · exact Or.inl hrun
    · exact absurd hevicted (hsettle rfl rfl)
    · rw [hends rfl] at hfrom
      cases hfrom

theorem heard_of_holder {s : Slot} {pc : RunPc} (h : s.holder = some pc) :
    s.heard = !pc.pastGate := by
  rw [heard, h]
  rfl

theorem Answered.stepRunner {r : Runner} {next : RunStep} (h : s.Answered) (hrole : s.RoleHeld)
    (hi : s.runners[i]? = some r) (hmove : RunMove s.ws r.pc next.ws next.pc)
    (hws : s'.ws = next.ws) (hloads : s'.loads = s.loads)
    (hrunners : s'.runners = s.runners.set i ⟨next.pc, next.lastResult⟩) : s'.Answered := by
  obtain ⟨-, hnow, hthen⟩ := hrole.stepRunner hi hmove hws hrunners
  have hfrom : s'.fromTombstone = s.fromTombstone := by rw [fromTombstone, hloads, fromTombstone]
  have hears : next.pc.pastGate = false → s'.Answered := by
    intro hpc _
    refine Or.inl ?_
    have hholds : next.pc.holds = true := by
      revert hpc
      cases next.pc <;> first | exact fun _ => rfl | exact nofun
    rw [if_pos hholds] at hthen
    rw [heard_of_holder hthen, hpc]
    rfl
  obtain ⟨ws, pc', sent, last⟩ := next
  obtain ⟨pc, lastResult⟩ := r
  cases hmove with
  | take hcancel hgo =>
    intro hup
    have hws : s'.ws = s.ws.takeCancellation.1 := hws
    rw [hws, LoadedWorkspace.takeCancellation] at hup
    refine Or.inr (Or.inl ?_)
    rw [hws, LoadedWorkspace.takeCancellation]
    split at hup
    next hstate =>
      rw [if_pos hstate]
      exact hstate
    · cases hup
  | gate =>
    intro hup
    have hws : s'.ws = ({ s.ws with rebuildLane := none, rebuildInFlight := false }).transitionState
        .rebuilding .unloaded := hws
    have hdeaf : s.heard = false := heard_of_holder hnow
    rw [hws, LoadedWorkspace.transitionState] at hup
    rw [hws, LoadedWorkspace.transitionState, hfrom]
    split at hup
    next hstate =>
      obtain hrun | hevicted | ⟨hloading, -⟩ := h hup
      · rw [hdeaf] at hrun
        cases hrun
      · have hstate : s.ws.state = .rebuilding := hstate
        rw [hstate] at hevicted
        cases hevicted
      · have hstate : s.ws.state = .rebuilding := hstate
        rw [hstate] at hloading
        cases hloading
    next hstate =>
      rw [if_neg hstate]
      obtain hrun | hrest := h hup
      · rw [hdeaf] at hrun
        cases hrun
      · exact Or.inr hrest
  | quit _ hflag =>
    intro hup
    rw [hws] at hup
    have hup : s.ws.rebuildCancelled = true := hup
    rw [hflag] at hup
    cases hup
  | idle _ _ hpc' => exact hears hpc'
  | enter _ hpc' => exact hears (RunPc.not_pastGate_of_iterating hpc')
  | work _ _ hpc' => exact hears (RunPc.not_pastGate_of_iterating hpc')
  | _ => exact hears rfl

theorem Answered.reset {s : Slot} {force : Bool} (h : s.Answered)
    (hheard : s.cancellationHeard (.reset force) = true) :
    Answered { s with ws := (s.ws.reset force).1 } := by
  rw [LoadedWorkspace.reset]
  split
  · exact h
  next hpinned =>
    split
    · exact h
    next hstate =>
      split
      next hflight =>
        intro _
        simp only [cancellationHeard, hflight, Bool.or_eq_true, decide_eq_true_eq,
          Bool.and_eq_true, Bool.not_eq_true', Bool.not_true, Bool.false_eq_true,
          or_false] at hheard
        obtain ((hrefused | hloading) | hrun) | hevicted := hheard
        · exact absurd hrefused hpinned
        · exact absurd hloading hstate
        · exact Or.inl hrun
        · exact Or.inr (Or.inl hevicted)
      · simp [Answered]

theorem answered_step {d : Dispatcher} {a : SlotAction} (hrole : s.RoleHeld) (h : s.Answered)
    (hheard : s.cancellationHeard a = true) (hstep : s.step d a = some s') :
    s'.Answered := by
  have evicted : Answered { s with ws := s.ws.evictToTombstone } := by
    rw [LoadedWorkspace.evictToTombstone]
    split
    · exact h
    · exact fun _ => Or.inr (Or.inl rfl)
  cases a with
  | load call =>
    simp only [step] at hstep
    split at hstep
    · cases hstep
    · cases hstep
      refine h.same rfl rfl id fun hfrom => ?_
      rw [fromTombstone, List.any_append, Bool.or_eq_true]
      exact Or.inl hfrom
  | stepLoad i env =>
    obtain ⟨l, hi, hl⟩ := Option.bind_eq_some_iff.mp hstep
    exact h.stepLoad hi hheard hl
  | enqueue request =>
    cases hstep
    obtain ⟨hloads, hcases⟩ := s.enqueue_cases request
    have hfrom : s.fromTombstone = true → (s.enqueue request).fromTombstone = true := by
      rw [fromTombstone, fromTombstone, hloads]
      exact id
    obtain ⟨entry, hflight, hws, hrunners⟩ | ⟨entry, -, hws, hrunners⟩ | ⟨hws, hrunners⟩ :=
      hcases
    · intro _
      have hnone : s.holder = none := by
        rw [hrole.flag, Option.isSome_eq_false_iff, Option.isNone_iff_eq_none] at hflight
        exact hflight
      have hthen : (s.enqueue request).holder = some (.top (some entry)) := by
        rw [holder, hrunners, Sole.sole_append_of_none (Option.map_eq_none_iff.mp hnone) rfl]
        rfl
      exact Or.inl (heard_of_holder hthen)
    · refine h.same (by rw [hws]) (by rw [hws]) ?_ hfrom
      rw [heard, heard, holder, holder, hrunners]
      exact id
    · refine h.same (by rw [hws]) (by rw [hws]) ?_ hfrom
      rw [heard, heard, holder, holder, hrunners]
      exact id
  | stepRunner i env =>
    obtain ⟨r, hi, hr⟩ := Option.bind_eq_some_iff.mp hstep
    obtain ⟨next, -, hmove, hws, hloads, hrunners⟩ := stepRunner_some hr
    exact h.stepRunner hrole hi hmove hws hloads hrunners
  | cancelRebuild =>
    cases hstep
    rw [LoadedWorkspace.cancelRebuild]
    split
    next hflight =>
      intro _
      simp only [cancellationHeard, hflight, Bool.or_eq_true, decide_eq_true_eq, Bool.not_true,
        Bool.false_eq_true, false_or] at hheard
      exact hheard.imp id Or.inl
    · exact h
  | evict =>
    simp only [step] at hstep
    split at hstep
    · cases hstep
      exact evicted
    · cases hstep
  | unload =>
    simp only [step] at hstep
    split at hstep
    · cases hstep
      exact evicted
    · cases hstep
  | reset force =>
    simp only [step] at hstep
    split at hstep
    · cases hstep
      exact h.reset hheard
    · cases hstep

end Slot

section Runs

open StepSystem (run RunOk)

/-- One runner, nothing parked without one, and no flag left without one, a tombstone or a
load that takes a tombstone over. -/
theorem cancellation_ends_with_its_rebuild {d : Dispatcher} {sourceRoot : PathBuf}
    {pinned : Bool} {actions : List SlotAction} {s : Slot}
    (hrun : run (Slot.step d) (Slot.init sourceRoot pinned) actions = some s) :
    Sole.AtMostOne (fun r => r.pc.holds) s.runners ∧
    (s.holder = none → s.ws.rebuildLane = none) ∧
    (RunOk (Slot.step d) (fun s a => s.cancellationHeard a = true)
        (Slot.init sourceRoot pinned) actions →
      s.holder = none → s.ws.state ≠ .evicted → s.fromTombstone = false →
      s.ws.rebuildCancelled = false) := by
  have hrole : s.RoleHeld := StepSystem.invariant_of_run
    (fun s a s' h hstep => Slot.roleHeld_step h hstep) (Slot.roleHeld_init sourceRoot pinned) hrun
  refine ⟨hrole.one, hrole.lane, fun hok hnone hevicted hfrom => ?_⟩
  have preserved : ∀ (s : Slot) (a : SlotAction) (s' : Slot), s.RoleHeld ∧ s.Answered →
      s.cancellationHeard a = true → Slot.step d s a = some s' → s'.RoleHeld ∧ s'.Answered :=
    fun s a s' h hheard hstep =>
      ⟨Slot.roleHeld_step h.1 hstep, Slot.answered_step h.1 h.2 hheard hstep⟩
  have hanswered := (StepSystem.invariant_of_runOk preserved
    ⟨Slot.roleHeld_init sourceRoot pinned, nofun⟩ hok hrun).2
  refine Bool.eq_false_iff.mpr fun hup => ?_
  obtain hrun | hstate | ⟨-, hgate⟩ := hanswered hup
  · rw [Slot.heard, hnone] at hrun
    cases hrun
  · exact hevicted hstate
  · rw [hfrom] at hgate
    cases hgate

def cancelledOnce : List SlotAction :=
  firstLoad :: loadSteps 0 loadsSmallGraph ++
    [.enqueue (.explicit .empty 0 .empty false), .cancelRebuild] ++ runnerSteps 0 (proceeds 2)

theorem cancellation_ends_with_its_rebuild_once :
    ∃ s, run (Slot.step .plain) (Slot.init "w" false) cancelledOnce = some s ∧
      s.ws.state = .loaded ∧ s.ws.rebuildCancelled = false := by
  have hok : RunOk (Slot.step .plain) (fun s a => s.cancellationHeard a = true)
      (Slot.init "w" false) cancelledOnce := by decide
  exact ⟨_, rfl, rfl, (cancellation_ends_with_its_rebuild rfl).2.2 hok rfl nofun rfl⟩

/-- The second cancellation comes after the gate took the first, and before it releases the
role. -/
def cancelledTwice : List SlotAction :=
  firstLoad :: loadSteps 0 loadsSmallGraph ++
    [.enqueue (.explicit .empty 0 .empty false), .cancelRebuild] ++ runnerSteps 0 (proceeds 1) ++
    [.cancelRebuild] ++ runnerSteps 0 (proceeds 1)

def tombstoneTakenOver : List SlotAction :=
  firstLoad :: loadSteps 0 loadsSmallGraph ++ [.evict, laterLoad] ++ loadSteps 1 (proceeds 4)

theorem cancellation_outlives_rebuild :
    (∃ s, run (Slot.step .plain) (Slot.init "w" false) tombstoneTakenOver = some s ∧
      s.holder = none ∧ s.ws.state = .loading ∧ s.ws.rebuildCancelled = true) ∧
    ∃ s, run (Slot.step .plain) (Slot.init "w" false) cancelledTwice = some s ∧
      s.holder = none ∧ s.ws.state = .loaded ∧ s.ws.rebuildCancelled = true :=
  ⟨⟨_, rfl, rfl, rfl, rfl⟩, ⟨_, rfl, rfl, rfl, rfl⟩⟩

end Runs

end Sqry.Daemon
