import Sqry.Daemon.Fences

/-!
A slot with the history that says which attempt may still take effect: how many tombstones
it has seen, at which of them each load passed its gate and each iteration was entered, and
the generation that an attempt last declared loaded.
-/

namespace Sqry.Daemon

namespace View

/-- The generation of a loaded workspace is the one its attempt declared loaded. -/
structure Settled (v : View) (settled : Option PublishedGraph) : Prop where
  loaded : v.ws.state = .loaded → settled = some v.ws.published
  loadInstalled : ∀ g, v.load.bind LoadPc.installed = some g → v.ws.published = g
  runInstalled : ∀ g, v.run.bind RunPc.installed = some g → v.ws.published = g
  entered : v.ws.state = .rebuilding → ∀ e, v.run.bind RunPc.entered = some e →
    e ≠ .rebuilding ∧ (e = .loaded → settled = some v.ws.published)
  rebuilding : v.ws.state = .rebuilding → v.run.any RunPc.mayRebuild = true ∧
    (v.run.any RunPc.finishing = true → v.ws.rebuildCancelled = true)

variable {ws ws' : LoadedWorkspace} {load : Option LoadPc} {run : Option RunPc}
  {settled : Option PublishedGraph}

theorem notInstalled_of_gating {pc : LoadPc} (h : pc.gating = true) : pc.installed = none := by
  cases pc <;> first | rfl | cases h

theorem notInstalled_of_outside {pc : RunPc} (h : pc.iterating = false) :
    pc.installed = none ∧ pc.entered = none ∧ pc.settles = none := by
  cases pc <;> first | exact ⟨rfl, rfl, rfl⟩ | cases h

/-- Outside `loaded` and `rebuilding` nothing but the generation being installed is said. -/
theorem Settled.away {load' : Option LoadPc} {run' : Option RunPc}
    {settled' : Option PublishedGraph} (h : Settled ⟨ws, load, run⟩ settled)
    (hpublished : ws'.published = ws.published) (hloaded : ws'.state ≠ .loaded)
    (hrebuilding : ws'.state ≠ .rebuilding)
    (hload : load'.bind LoadPc.installed = none ∨
      load'.bind LoadPc.installed = load.bind LoadPc.installed)
    (hrun : run'.bind RunPc.installed = none ∨
      run'.bind RunPc.installed = run.bind RunPc.installed) :
    Settled ⟨ws', load', run'⟩ settled' := by
  refine ⟨fun hs => absurd hs hloaded, fun g hg => ?_, fun g hg => ?_,
    fun hs => absurd hs hrebuilding, fun hs => absurd hs hrebuilding⟩
  · refine hpublished.trans (h.loadInstalled g ?_)
    have hg : load'.bind LoadPc.installed = some g := hg
    cases hload with
    | inl hnone =>
      rw [hnone] at hg
      cases hg
    | inr hsame => exact hsame.symm.trans hg
  · refine hpublished.trans (h.runInstalled g ?_)
    have hg : run'.bind RunPc.installed = some g := hg
    cases hrun with
    | inl hnone =>
      rw [hnone] at hg
      cases hg
    | inr hsame => exact hsame.symm.trans hg

theorem Settled.stepLoad {inserted : Bool} {pc pc' : LoadPc}
    (h : Settled ⟨ws, some pc, run⟩ settled) (hf : Fences ⟨ws, some pc, run⟩)
    (hactive : pc.active = true) (hmove : LoadMove inserted ws pc ws' pc') :
    Settled ⟨ws', if pc'.active then some pc' else none, run⟩ (pc.settles <|> settled) := by
  have hstate : ws.state = .loading ∨ ws.state = .evicted := by
    rw [LoadPc.active, Bool.or_eq_true] at hactive
    obtain hgate | hacq := hactive
    · exact Or.inl (hf.gating hgate)
    · obtain hloading | ⟨hevicted, -⟩ := hf.acquired hacq
      · exact Or.inl hloading
      · exact Or.inr hevicted
  have hloaded : ws.state ≠ .loaded := by
    obtain hstate | hstate := hstate <;> rw [hstate] <;> simp
  have hrebuilding : ws.state ≠ .rebuilding := by
    obtain hstate | hstate := hstate <;> rw [hstate] <;> simp
  have noRun : pc.acquired = true → run.bind RunPc.installed = none := by
    intro hacq
    have hiter : run.any RunPc.iterating = false := hf.apart (Or.inl hacq)
    cases run with
    | none => rfl
    | some r => exact (notInstalled_of_outside hiter).1
  cases hmove with
  | idle hpc =>
    rw [hactive] at hpc
    cases hpc
  | exchange => cases hactive
  | look _ hgate' =>
    rw [if_pos (LoadPc.active_of_gating hgate')]
    exact h.away rfl hloaded hrebuilding (Or.inl (notInstalled_of_gating hgate')) (Or.inr rfl)
  | putBack =>
    rw [LoadedWorkspace.transitionState]
    split
    · exact h.away rfl (by simp) (by simp) (Or.inl rfl) (Or.inr rfl)
    · exact h.away rfl hloaded hrebuilding (Or.inl rfl) (Or.inr rfl)
  | swapClear => exact h.away rfl hloaded hrebuilding (Or.inl rfl) (Or.inr rfl)
  | swapRefuse => exact h.away rfl hloaded hrebuilding (Or.inl rfl) (Or.inr rfl)
  | restore => exact h.away rfl hloaded hrebuilding (Or.inl rfl) (Or.inr rfl)
  | work _ _ hpc' _ _ hinstalled =>
    rw [if_pos (LoadPc.active_of_acquired hpc')]
    exact h.away rfl hloaded hrebuilding hinstalled (Or.inr rfl)
  | leave =>
    rw [LoadedWorkspace.transitionState]
    split
    · exact h.away rfl (by simp) (by simp) (Or.inl rfl) (Or.inr rfl)
    · exact h.away rfl hloaded hrebuilding (Or.inl rfl) (Or.inr rfl)
  | @abandon entry err result =>
    rw [LoadedWorkspace.abandonLoad]
    split
    · exact h.away rfl entry.priorState.state_ne_loaded entry.priorState.state_ne_rebuilding
        (Or.inl rfl) (Or.inr rfl)
    · exact h.away rfl hloaded hrebuilding (Or.inl rfl) (Or.inr rfl)
  | recheck => exact h.away rfl hloaded hrebuilding (Or.inl rfl) (Or.inr rfl)
  | swapPublished =>
    refine ⟨fun hs => absurd hs hloaded, fun g hg => Option.some.inj hg, fun g hg => ?_,
      fun hs => absurd hs hrebuilding, fun hs => absurd hs hrebuilding⟩
    have hg : run.bind RunPc.installed = some g := hg
    rw [noRun rfl] at hg
    cases hg
  | swapMemory => exact h.away rfl hloaded hrebuilding (Or.inr rfl) (Or.inr rfl)
  | settle =>
    refine ⟨fun _ => ?_, fun _ hg => (by cases hg), h.runInstalled, (by simp), by simp⟩
    exact congrArg some (h.loadInstalled _ rfl).symm

theorem bind_same {α β : Type} {f : α → Option β} {o o' : Option α}
    (h : o'.bind f = none ∨ o'.bind f = o.bind f) {b : β} (hb : o'.bind f = some b) :
    o.bind f = some b := by
  cases h with
  | inl hnone =>
    rw [hnone] at hb
    cases hb
  | inr hsame => exact hsame.symm.trans hb

theorem Settled.kept {run' : Option RunPc} (h : Settled ⟨ws, load, run⟩ settled)
    (hstate : ws'.state = ws.state) (hpublished : ws'.published = ws.published)
    (hinstalled : run'.bind RunPc.installed = none ∨
      run'.bind RunPc.installed = run.bind RunPc.installed)
    (hentered : run'.bind RunPc.entered = none ∨
      run'.bind RunPc.entered = run.bind RunPc.entered)
    (hrebuild : ws.state = .rebuilding → run'.any RunPc.mayRebuild = true ∧
      (run'.any RunPc.finishing = true → ws'.rebuildCancelled = true)) :
    Settled ⟨ws', load, run'⟩ settled where
  loaded hs := by
    rw [h.loaded (hstate.symm.trans hs)]
    exact congrArg some hpublished.symm
  loadInstalled g hg := hpublished.trans (h.loadInstalled g hg)
  runInstalled g hg := hpublished.trans (h.runInstalled g (bind_same hinstalled hg))
  entered hs e he := by
    obtain ⟨hne, hloaded⟩ := h.entered (hstate.symm.trans hs) e (bind_same hentered he)
    refine ⟨hne, fun heq => ?_⟩
    rw [hloaded heq]
    exact congrArg some hpublished.symm
  rebuilding hs := hrebuild (hstate.symm.trans hs)

theorem Settled.leaves {run' : Option RunPc} {target : WorkspaceState}
    (h : Settled ⟨ws, load, run⟩ settled) (hne : target ≠ .rebuilding)
    (hloaded : ws.state = .rebuilding → target = .loaded → settled = some ws.published)
    (hinstalled : run'.bind RunPc.installed = none)
    (hentered : run'.bind RunPc.entered = none) :
    Settled ⟨ws.transitionState .rebuilding target, load, run'⟩ settled := by
  rw [LoadedWorkspace.transitionState]
  split
  next hstate =>
    refine ⟨fun hs => hloaded hstate hs, h.loadInstalled, fun g hg => ?_,
      fun hs => absurd hs hne, fun hs => absurd hs hne⟩
    have hg : run'.bind RunPc.installed = some g := hg
    rw [hinstalled] at hg
    cases hg
  next hstate =>
    exact h.kept rfl rfl (Or.inl hinstalled) (Or.inl hentered) fun hs => absurd hs hstate

theorem held_eq_none {β : Type} {f : RunPc → Option β} {pc : RunPc} (h : f pc = none) :
    (if pc.holds then some pc else none).bind f = none := by
  split
  · exact h
  · rfl

theorem Settled.stepRunner {pc pc' : RunPc} (h : Settled ⟨ws, load, some pc⟩ settled)
    (hf : Fences ⟨ws, load, some pc⟩) (hmove : RunMove ws pc ws' pc') :
    Settled ⟨ws', load, if pc'.holds then some pc' else none⟩ (pc.settles <|> settled) := by
  -- The drain loop between its iterations: only on its way to the gate is anything said.
  have between : ∀ {ws' : LoadedWorkspace}, pc'.iterating = false → ws'.state = ws.state →
      ws'.published = ws.published → (ws.state = .rebuilding → pc'.finishing = true ∧
        ws'.rebuildCancelled = true) →
      Settled ⟨ws', load, if pc'.holds then some pc' else none⟩ settled := by
    intro ws' hiter hstate hpublished hfinishing
    obtain ⟨hinstalled, hentered, -⟩ := notInstalled_of_outside hiter
    refine h.kept hstate hpublished (Or.inl (held_eq_none hinstalled))
      (Or.inl (held_eq_none hentered)) fun hs => ?_
    obtain ⟨hpc, hflag⟩ := hfinishing hs
    obtain ⟨hholds, hmay⟩ := RunPc.mayRebuild_of_finishing hpc
    rw [if_pos hholds]
    exact ⟨hmay, fun _ => hflag⟩
  -- While an iteration goes on, the place itself says that the workspace may be rebuilt.
  have during : ∀ {ws' : LoadedWorkspace}, pc'.iterating = true → ws'.state = ws.state →
      ws'.published = ws.published →
      (pc'.installed = none ∨ pc'.installed = pc.installed) →
      (pc'.entered = none ∨ pc'.entered = pc.entered) →
      (pc'.stopped = true → ws'.rebuildCancelled = true) →
      Settled ⟨ws', load, if pc'.holds then some pc' else none⟩ settled := by
    intro ws' hiter hstate hpublished hinstalled hentered hstopped
    rw [if_pos (RunPc.holds_of_iterating hiter)]
    exact h.kept hstate hpublished hinstalled hentered fun _ =>
      ⟨RunPc.mayRebuild_of_iterating hiter,
        fun hf => hstopped (RunPc.stopped_of_finishing hiter hf)⟩
  have pending : ws.state = .rebuilding → pc.finishing = true → ws.rebuildCancelled = true :=
    fun hs hf => (h.rebuilding hs).2 hf
  have busy : ws.state = .rebuilding → pc.mayRebuild = true := fun hs => (h.rebuilding hs).1
  cases hmove with
  | take hcancel hgo =>
    rw [LoadedWorkspace.takeCancellation]
    cases hflag : ws.rebuildCancelled with
    | true =>
      cases hcancel hflag
      split
      · exact h.kept rfl rfl (Or.inl rfl) (Or.inl rfl) fun _ => ⟨rfl, fun h => by cases h⟩
      · exact h.kept rfl rfl (Or.inl rfl) (Or.inl rfl) fun _ => ⟨rfl, fun h => by cases h⟩
    | false =>
      have quiet : ws.state = .rebuilding → False := by
        intro hs
        rw [pending hs rfl] at hflag
        cases hflag
      split
      · exact between (hgo hflag).2 rfl rfl fun hs => (quiet hs).elim
      · exact between (hgo hflag).2 rfl rfl fun hs => (quiet hs).elim
  | @gate current =>
    have hkept : Settled ⟨{ ws with rebuildLane := none, rebuildInFlight := false }, load,
        some (.cancelGate current)⟩ settled :=
      h.kept rfl rfl (Or.inl rfl) (Or.inl rfl) fun _ => ⟨rfl, fun h => by cases h⟩
    exact hkept.leaves (by simp) (by simp) rfl rfl
  | drain _ hiter hgate =>
    rw [(notInstalled_of_outside hiter).2.2]
    exact between rfl rfl rfl fun hs =>
      ⟨rfl, pending hs (RunPc.finishing_of_mayRebuild (busy hs) hiter hgate)⟩
  | quit => exact h.kept rfl rfl (Or.inl rfl) (Or.inl rfl) fun hs => absurd (busy hs) fun h => by cases h
  | idle hgate hiter _ hiter' hfinishing =>
    rw [(notInstalled_of_outside hiter).2.2]
    refine between hiter' rfl rfl fun hs => ?_
    have hf : pc.finishing = true := RunPc.finishing_of_mayRebuild (busy hs) hiter hgate
    exact ⟨hfinishing hf, pending hs hf⟩
  | @enter it prior tries observed _ hprior hpc' hsection _ hentered hstopped =>
    rw [if_pos (RunPc.holds_of_iterating hpc')]
    refine ⟨(by simp), h.loadInstalled, fun g hg => ?_, fun _ e he => ?_, fun _ => ?_⟩
    · have hg : pc'.installed = some g := hg
      rw [(RunPc.notInstalled_of_outside hsection).1] at hg
      cases hg
    · have he : pc'.entered = some e := he
      rw [hentered] at he
      cases he
      refine ⟨fun heq => ?_, fun heq => ?_⟩
      · rw [heq] at hprior
        exact absurd (busy hprior) Bool.false_ne_true
      · rw [heq] at hprior
        exact h.loaded hprior
    · refine ⟨RunPc.mayRebuild_of_iterating hpc', fun hf => ?_⟩
      rw [RunPc.stopped_of_finishing hpc' hf] at hstopped
      cases hstopped
  | work _ hpc hpc' _ hinstalled hentered hstopped hsettles =>
    rw [hsettles]
    exact during hpc' rfl rfl hinstalled hentered hstopped
  | leave target _ htarget _ hsettles =>
    rw [hsettles]
    refine h.leaves ?_ (fun hs ht => ?_) rfl rfl
    · obtain rfl | rfl | ⟨it, entered, err, -, rfl⟩ := htarget
      · simp
      · simp
      · exact refusedState_ne_rebuilding entered
    · obtain rfl | rfl | ⟨it, entered, err, rfl, rfl⟩ := htarget
      · cases ht
      · cases ht
      · obtain ⟨hne, hloaded⟩ := h.entered hs entered rfl
        cases entered with
        | loaded => exact hloaded rfl
        | rebuilding => exact absurd rfl hne
        | failed => cases ht
        | unloaded => cases ht
  | stop => exact between rfl rfl rfl fun hs => ⟨rfl, pending hs rfl⟩
  | clear => exact during rfl rfl rfl (Or.inl rfl) (Or.inl rfl) fun h => by cases h
  | recheck => exact during rfl rfl rfl (Or.inl rfl) (Or.inl rfl) fun h => by cases h
  | swapPublished =>
    have hs : ws.state = .rebuilding := hf.runPublishing rfl
    refine ⟨fun hloaded => ?_, fun g hg => ?_, fun g hg => Option.some.inj hg,
      fun _ _ he => (by cases he), fun _ => ⟨rfl, fun h => by cases h⟩⟩
    · have hloaded : ws.state = .loaded := hloaded
      rw [hs] at hloaded
      cases hloaded
    · have hg : load.bind LoadPc.installed = some g := hg
      cases load with
      | none => cases hg
      | some l =>
        have hloading : ws.state = .loading :=
          hf.publishing (LoadPc.inSection_of_installed hg)
        rw [hs] at hloading
        cases hloading
  | swapMemory => exact during rfl rfl rfl (Or.inr rfl) (Or.inl rfl) fun h => by cases h
  | @settle it bytes now built =>
    have hinstalled : ws.published = built.published := h.runInstalled _ rfl
    have hs : ws.state = .rebuilding := hf.runPublishing rfl
    have hset : (ws.recordSuccess now).transitionState .rebuilding .loaded =
        { ws.recordSuccess now with state := .loaded } := if_pos hs
    rw [hset]
    exact ⟨fun _ => congrArg some hinstalled.symm, h.loadInstalled, fun _ hg => (by cases hg),
      fun hs => (by cases hs), fun hs => by cases hs⟩

theorem Settled.flagUp (h : Settled ⟨ws, load, run⟩ settled) :
    Settled ⟨{ ws with rebuildCancelled := true }, load, run⟩ settled :=
  h.kept rfl rfl (Or.inr rfl) (Or.inr rfl) fun hs => ⟨(h.rebuilding hs).1, fun _ => rfl⟩

theorem Settled.evict {v : View} (h : Settled v settled) (hw : v.writable = true) :
    Settled { v with ws := v.ws.evictToTombstone } settled := by
  obtain ⟨hload, hrun⟩ := View.notPublishing hw
  rw [LoadedWorkspace.evictToTombstone]
  split
  · exact h
  · refine ⟨(by simp), fun g hg => ?_, fun g hg => ?_, (by simp), by simp⟩
    · obtain ⟨pc, hpc, hin⟩ := Option.bind_eq_some_iff.mp hg
      have hpc : v.load = some pc := hpc
      rw [hpc, Option.any_some, LoadPc.inSection_of_installed hin] at hload
      cases hload
    · obtain ⟨pc, hpc, hin⟩ := Option.bind_eq_some_iff.mp hg
      have hpc : v.run = some pc := hpc
      rw [hpc, Option.any_some] at hrun
      rw [(RunPc.notInstalled_of_outside hrun).1] at hin
      cases hin

theorem Settled.reset {v : View} {force : Bool} (h : Settled v settled)
    (hw : v.writable = true) : Settled { v with ws := (v.ws.reset force).1 } settled := by
  have htomb := h.evict hw
  rw [LoadedWorkspace.reset]
  split
  · exact h
  · split
    · exact h
    · split
      · exact h.flagUp
      · exact htomb.away rfl (by simp) (by simp) (Or.inr rfl) (Or.inr rfl)

theorem Settled.others {v v' : View} {a : SlotAction} (h : Settled v settled)
    (hmove : ViewMove v a v') (hload : ∀ i env, a ≠ .stepLoad i env)
    (hrun : ∀ i env, a ≠ .stepRunner i env) : Settled v' settled := by
  cases hmove with
  | unseen => exact h
  | @gate i env => exact absurd rfl (hload i env)
  | @load i env => exact absurd rfl (hload i env)
  | @run i env => exact absurd rfl (hrun i env)
  | acquire hnone =>
    refine h.kept rfl rfl (Or.inl rfl) (Or.inl rfl) fun hs => ?_
    have hmay := (h.rebuilding hs).1
    rw [hnone] at hmay
    cases hmay
  | park => exact h.kept rfl rfl (Or.inr rfl) (Or.inr rfl) fun hs => h.rebuilding hs
  | cancelRebuild =>
    rw [LoadedWorkspace.cancelRebuild]
    split
    · exact h.flagUp
    · exact h
  | evict hw => exact h.evict hw
  | unload hw =>
    have hevicted := h.evict hw
    exact hevicted.kept rfl rfl (Or.inr rfl) (Or.inr rfl) fun hs => hevicted.rebuilding hs
  | reset hw => exact h.reset hw

end View

section States

variable {inserted : Bool} {ws ws' : LoadedWorkspace}

theorem LoadMove.acquires {pc pc' : LoadPc} (h : LoadMove inserted ws pc ws' pc')
    (hacq : pc'.acquired = true) :
    (pc.acquired = true ∧ ws'.state = ws.state) ∨ pc.swapping = true := by
  cases h with
  | idle _ h' =>
    rw [LoadPc.active_of_acquired hacq] at h'
    cases h'
  | exchange => cases hacq
  | look _ h' =>
    rw [LoadPc.not_gating_of_acquired hacq] at h'
    cases h'
  | putBack => cases hacq
  | swapClear => exact Or.inr rfl
  | swapRefuse => exact Or.inr rfl
  | restore => exact Or.inl ⟨rfl, rfl⟩
  | work _ h => exact Or.inl ⟨h, rfl⟩
  | leave => cases hacq
  | abandon => cases hacq
  | recheck => exact Or.inl ⟨rfl, rfl⟩
  | swapPublished => exact Or.inl ⟨rfl, rfl⟩
  | swapMemory => exact Or.inl ⟨rfl, rfl⟩
  | settle => cases hacq

theorem LoadMove.notRebuilding {pc pc' : LoadPc} (h : LoadMove inserted ws pc ws' pc')
    (hstate : ws.state ≠ .rebuilding) : ws'.state ≠ .rebuilding := by
  cases h with
  | exchange => simp
  | putBack =>
    rw [LoadedWorkspace.transitionState]
    split
    · simp
    · exact hstate
  | leave =>
    rw [LoadedWorkspace.transitionState]
    split
    · simp
    · exact hstate
  | @abandon entry =>
    rw [LoadedWorkspace.abandonLoad]
    split
    · exact entry.priorState.state_ne_rebuilding
    · exact hstate
  | settle => simp
  | _ => exact hstate

theorem LoadMove.overTombstone {pc pc' : LoadPc} (h : LoadMove inserted ws pc ws' pc')
    (hacq : pc.acquired = true) (hsection : pc.inSection = true → ws.state = .loading)
    (hstate : ws.state = .evicted) : ws'.state = ws.state ∧ ws'.published = ws.published := by
  have notLoading : ws.state ≠ .loading := by
    rw [hstate]
    exact nofun
  cases h with
  | exchange => cases hacq
  | putBack => cases hacq
  | leave => rw [LoadedWorkspace.transitionState, if_neg notLoading]; exact ⟨rfl, rfl⟩
  | abandon => rw [LoadedWorkspace.abandonLoad, if_neg notLoading]; exact ⟨rfl, rfl⟩
  | swapPublished => exact absurd (hsection rfl) notLoading
  | settle => exact absurd (hsection rfl) notLoading
  | _ => exact ⟨rfl, rfl⟩

theorem transition_elsewhere {target : WorkspaceState} (h : ws.state ≠ .rebuilding) :
    (ws.transitionState .rebuilding target).state = ws.state ∧
      (ws.transitionState .rebuilding target).published = ws.published := by
  rw [LoadedWorkspace.transitionState, if_neg h]
  exact ⟨rfl, rfl⟩

/-- Away from `rebuilding`, and not entering, a drain loop leaves the state and the
generation. -/
theorem RunMove.elsewhere {pc pc' : RunPc} (h : RunMove ws pc ws' pc')
    (hsection : pc.inSection = true → ws.state = .rebuilding)
    (henter : ∀ it prior tries observed, pc = .enter it (prior :: tries) observed →
      ws.state ≠ prior.state)
    (hstate : ws.state ≠ .rebuilding) :
    ws'.state = ws.state ∧ ws'.published = ws.published := by
  cases h with
  | take =>
    rw [LoadedWorkspace.takeCancellation]
    split <;> exact ⟨rfl, rfl⟩
  | gate => exact transition_elsewhere hstate
  | enter hprior => exact absurd hprior (henter _ _ _ _ rfl)
  | leave => exact transition_elsewhere hstate
  | swapPublished => exact absurd (hsection rfl) hstate
  | settle => exact absurd (hsection rfl) hstate
  | _ => exact ⟨rfl, rfl⟩

theorem RunMove.keepsTombstone {pc pc' : RunPc} (h : RunMove ws pc ws' pc')
    (hstate : ws.state = .evicted) : ws'.state = .evicted := by
  have keeps : ∀ {ws : LoadedWorkspace} (target : WorkspaceState), ws.state = .evicted →
      (ws.transitionState .rebuilding target).state = .evicted := by
    intro ws target hstate
    refine (transition_elsewhere ?_).1.trans hstate
    rw [hstate]
    exact nofun
  cases h with
  | take =>
    rw [LoadedWorkspace.takeCancellation]
    split <;> exact hstate
  | gate => exact keeps _ hstate
  | @enter _ prior _ _ _ hprior =>
    rw [hstate] at hprior
    cases prior <;> cases hprior
  | leave => exact keeps _ hstate
  | settle => exact keeps _ hstate
  | _ => exact hstate

theorem RunMove.iterates {pc pc' : RunPc} (h : RunMove ws pc ws' pc')
    (hiter : pc'.iterating = true) :
    (pc.iterating = true ∧ ws'.state = ws.state) ∨
      ∃ it prior tries observed, pc = .enter it (prior :: tries) observed ∧
        ws.state = prior.state := by
  cases h with
  | take hcancel hgo =>
    cases hflag : ws.rebuildCancelled with
    | true =>
      rw [hcancel hflag] at hiter
      cases hiter
    | false =>
      rw [(hgo hflag).2] at hiter
      cases hiter
  | idle _ _ _ h' =>
    rw [h'] at hiter
    cases hiter
  | enter hprior => exact Or.inr ⟨_, _, _, _, rfl, hprior⟩
  | work _ h => exact Or.inl ⟨h, rfl⟩
  | clear => exact Or.inl ⟨rfl, rfl⟩
  | recheck => exact Or.inl ⟨rfl, rfl⟩
  | swapPublished => exact Or.inl ⟨rfl, rfl⟩
  | swapMemory => exact Or.inl ⟨rfl, rfl⟩
  | _ => cases hiter

theorem LoadedWorkspace.evictToTombstone_state (ws : LoadedWorkspace) :
    ws.evictToTombstone.state = .evicted := by
  rw [evictToTombstone]
  split
  next hstate => exact hstate
  · rfl

theorem LoadedWorkspace.reset_refused {force : Bool} (h : ws.resettable force = false) :
    (ws.reset force).1.state = ws.state := by
  rw [reset]
  split
  · rfl
  next hpinned =>
    split
    · rfl
    next hstate =>
      split
      · rfl
      next hflight =>
        have hyes : ws.resettable force = true := by
          rw [resettable, decide_eq_false hstate, Bool.eq_false_iff.mpr hflight]
          simpa [Classical.or_iff_not_imp_left] using hpinned
        rw [h] at hyes
        cases hyes

end States

structure Traced where
  slot : Slot
  /-- The evictions, unloads and resets completed so far. -/
  tombstones : Nat
  gatedAt : Nat → Nat
  enteredAt : Nat → Nat
  settled : Option PublishedGraph

namespace Slot

def completes (s : Slot) : SlotAction → Bool
  | .evict => true
  | .unload => true
  | .reset force => s.ws.resettable force
  | _ => false

def passesGate (s : Slot) (i : Nat) : Bool := (s.loads[i]?).any fun l => l.pc.swapping

def enters (s : Slot) (i : Nat) : Bool :=
  match s.runners[i]? with
  | some ⟨.enter _ (prior :: _) _, _⟩ => decide (s.ws.state = prior.state)
  | _ => false

def settles (s : Slot) : SlotAction → Option PublishedGraph
  | .stepLoad i _ => (s.loads[i]?).bind fun l => l.pc.settles
  | .stepRunner i _ => (s.runners[i]?).bind fun r => r.pc.settles
  | _ => none

end Slot

namespace Slot

theorem noSettle_of_inactive {pc : LoadPc} (h : pc.active = false) : pc.settles = none := by
  cases pc <;> first | rfl | cases h

theorem settled_step {d : Dispatcher} {s s' : Slot} {a : SlotAction}
    {settled : Option PublishedGraph} (hguarded : s.Guarded) (h : View.Settled s.view settled)
    (horderly : s.orderly a = true) (hstep : s.step d a = some s') :
    View.Settled s'.view (s.settles a <|> settled) := by
  cases a with
  | stepLoad i env =>
    obtain ⟨l, hi, hl⟩ := Option.bind_eq_some_iff.mp hstep
    have hsettles : s.settles (.stepLoad i env) = l.pc.settles := by rw [settles, hi]; rfl
    rw [hsettles]
    obtain ⟨hactive, hnow, ws, pc, hmove, -, hview⟩ | ⟨hactive, hview⟩ |
      ⟨hactive, hload, prior, hstate, hview⟩ :=
      (hguarded.one.stepLoad_cases hi (gateAlone_of_orderly horderly) hl).2
    · have hbefore : s.view = ⟨s.ws, some l.pc, s.holder⟩ := by rw [view, hnow]
      have hf := hguarded.fences
      rw [hbefore] at h hf
      rw [hview]
      exact h.stepLoad hf hactive hmove
    · rw [noSettle_of_inactive hactive, hview]
      exact h
    · rw [noSettle_of_inactive hactive, hview]
      exact h.away rfl (by simp) (by simp) (Or.inl rfl) (Or.inr rfl)
  | stepRunner i env =>
    obtain ⟨r, hi, hr⟩ := Option.bind_eq_some_iff.mp hstep
    obtain ⟨next, -, hmove, hws, hloads, hrunners⟩ := stepRunner_some hr
    obtain ⟨-, hnow, hthen⟩ := hguarded.role.stepRunner hi hmove hws hrunners
    have hsettles : s.settles (.stepRunner i env) = r.pc.settles := by rw [settles, hi]; rfl
    have hbefore : s.view = ⟨s.ws, s.activeLoad, some r.pc⟩ := by rw [view, hnow]
    have hafter : s'.view =
        ⟨next.ws, s.activeLoad, if next.pc.holds then some next.pc else none⟩ := by
      refine view_of hws ?_ hthen
      rw [activeLoad, hloads]
      rfl
    have hf := hguarded.fences
    rw [hbefore] at h hf
    rw [hsettles, hafter]
    exact h.stepRunner hf hmove
  | _ => exact h.others (hguarded.viewMove horderly hstep) (by simp) (by simp)

end Slot

namespace Traced

def init (sourceRoot : PathBuf) (pinned : Bool) : Traced :=
  ⟨.init sourceRoot pinned, 0, fun _ => 0, fun _ => 0, none⟩

def gatedThen (t : Traced) : SlotAction → Nat → Nat
  | .stepLoad i _ =>
    if t.slot.passesGate i then Function.update t.gatedAt i t.tombstones else t.gatedAt
  | _ => t.gatedAt

def enteredThen (t : Traced) : SlotAction → Nat → Nat
  | .stepRunner i _ =>
    if t.slot.enters i then Function.update t.enteredAt i t.tombstones else t.enteredAt
  | _ => t.enteredAt

def step (d : Dispatcher) (t : Traced) (a : SlotAction) : Option Traced :=
  (t.slot.step d a).map fun slot =>
    { slot := slot
      tombstones := if t.slot.completes a then t.tombstones + 1 else t.tombstones
      gatedAt := t.gatedThen a
      enteredAt := t.enteredThen a
      settled := t.slot.settles a <|> t.settled }

structure Current (t : Traced) : Prop where
  loads : ∀ i l, t.slot.loads[i]? = some l → l.pc.acquired = true →
    t.gatedAt i = t.tombstones ∨ t.slot.ws.state = .evicted
  runners : ∀ i r, t.slot.runners[i]? = some r → r.pc.iterating = true →
    t.enteredAt i = t.tombstones ∨ t.slot.ws.state ≠ .rebuilding

structure Sound (t : Traced) : Prop where
  guarded : t.slot.Guarded
  settled : View.Settled t.slot.view t.settled
  current : t.Current

theorem sound_init (sourceRoot : PathBuf) (pinned : Bool) : (init sourceRoot pinned).Sound :=
  ⟨Slot.guarded_init sourceRoot pinned, ⟨nofun, nofun, nofun, nofun, nofun⟩,
    ⟨fun i l h => by simp [init, Slot.init] at h, fun i r h => by simp [init, Slot.init] at h⟩⟩

theorem step_some {d : Dispatcher} {t t' : Traced} {a : SlotAction} (h : t.step d a = some t') :
    t.slot.step d a = some t'.slot ∧
      t'.tombstones = (if t.slot.completes a then t.tombstones + 1 else t.tombstones) ∧
      t'.gatedAt = t.gatedThen a ∧ t'.enteredAt = t.enteredThen a ∧
      t'.settled = (t.slot.settles a <|> t.settled) := by
  obtain ⟨slot, hslot, rfl⟩ := Option.map_eq_some_iff.mp h
  exact ⟨hslot, rfl, rfl, rfl, rfl⟩

theorem gatedThen_of_ne {t : Traced} {i j : Nat} {env : Env} (h : j ≠ i) :
    t.gatedThen (.stepLoad i env) j = t.gatedAt j := by
  rw [gatedThen]
  split
  · exact Function.update_of_ne h _ _
  · rfl

theorem Current.stepLoad {d : Dispatcher} {t t' : Traced} {i : Nat} {env : Env}
    (h : t.Current) (hguarded : t.slot.Guarded)
    (horderly : t.slot.orderly (.stepLoad i env) = true)
    (hstep : t.step d (.stepLoad i env) = some t') : t'.Current := by
  obtain ⟨hslot, htomb, hgated, hentered, -⟩ := step_some hstep
  have htomb : t'.tombstones = t.tombstones := htomb
  obtain ⟨l, hi, hl⟩ := Option.bind_eq_some_iff.mp hslot
  obtain ⟨ws, pc, hmove, -, hslot'⟩ := Slot.stepLoad_some hl
  have hloads : t'.slot.loads = t.slot.loads.set i ⟨l.call, pc⟩ := by rw [hslot']
  have hws : t'.slot.ws = ws := by rw [hslot']
  refine ⟨fun j m hj hacq => ?_, fun j r hj hiter => ?_⟩
  · rw [hgated, htomb, hws]
    rw [hloads] at hj
    obtain ⟨rfl, rfl⟩ | ⟨hji, hj⟩ := Sole.getElem?_set_cases hj
    · obtain ⟨hbefore, hstate⟩ | hswap := hmove.acquires hacq
      · rw [hstate, gatedThen, Slot.passesGate, hi, Option.any_some, if_neg]
        · exact h.loads j l hi hbefore
        · intro hswap
          have hgate := LoadPc.gating_of_swapping hswap
          rw [LoadPc.not_gating_of_acquired hbefore] at hgate
          cases hgate
      · refine Or.inl ?_
        rw [gatedThen, Slot.passesGate, hi, Option.any_some, if_pos hswap, Function.update_self]
    · rw [gatedThen_of_ne hji]
      have hinactive : l.pc.active = false := by
        refine Bool.eq_false_iff.mpr fun hactive => hji ?_
        exact hguarded.one j i m l hj hi (LoadPc.active_of_acquired hacq) hactive
      obtain ⟨hactive, -⟩ | ⟨-, hview⟩ | ⟨-, hnone, -⟩ :=
        (hguarded.one.stepLoad_cases hi (Slot.gateAlone_of_orderly horderly) hl).2
      · rw [hinactive] at hactive
        cases hactive
      · have hsame : t'.slot.ws = t.slot.ws := congrArg View.ws hview
        rw [← hws, hsame]
        exact h.loads j m hj hacq
      · have hall := Slot.activeLoad_eq_none_iff.mp hnone m (List.mem_of_getElem? hj)
        rw [LoadPc.active_of_acquired hacq] at hall
        cases hall
  · rw [hentered, htomb, hws]
    have hj : t.slot.runners[j]? = some r := by
      rw [hslot'] at hj
      exact hj
    exact (h.runners j r hj hiter).imp id hmove.notRebuilding

theorem entered_of_enters {t : Traced} {i : Nat} {env : Env} {r : Runner} {it : Iteration}
    {prior : EntryState} {tries : List EntryState} {observed : WorkspaceState}
    (hi : t.slot.runners[i]? = some r) (hpc : r.pc = .enter it (prior :: tries) observed)
    (hstate : t.slot.ws.state = prior.state) :
    t.enteredThen (.stepRunner i env) i = t.tombstones := by
  obtain ⟨pc, last⟩ := r
  cases hpc
  have henters : t.slot.enters i = true := by
    rw [Slot.enters, hi]
    exact decide_eq_true hstate
  rw [enteredThen, if_pos henters, Function.update_self]

theorem entered_of_iterating {t : Traced} {i : Nat} {env : Env} {r : Runner}
    (hi : t.slot.runners[i]? = some r) (hiter : r.pc.iterating = true) :
    t.enteredThen (.stepRunner i env) i = t.enteredAt i := by
  have hnot : t.slot.enters i = false := by
    rw [Slot.enters, hi]
    obtain ⟨pc, last⟩ := r
    cases pc <;> first | rfl | cases hiter
  rw [enteredThen, hnot]
  rfl

theorem Current.stepRunner {d : Dispatcher} {t t' : Traced} {i : Nat} {env : Env}
    (h : t.Current) (hguarded : t.slot.Guarded)
    (hstep : t.step d (.stepRunner i env) = some t') : t'.Current := by
  obtain ⟨hslot, htomb, hgated, hentered, -⟩ := step_some hstep
  have htomb : t'.tombstones = t.tombstones := htomb
  obtain ⟨r, hi, hr⟩ := Option.bind_eq_some_iff.mp hslot
  obtain ⟨next, -, hmove, hws, hloads, hrunners⟩ := Slot.stepRunner_some hr
  refine ⟨fun j m hj hacq => ?_, fun j m hj hiter => ?_⟩
  · rw [hgated, htomb, hws]
    rw [hloads] at hj
    exact (h.loads j m hj hacq).imp id hmove.keepsTombstone
  · rw [hentered, htomb, hws]
    rw [hrunners] at hj
    obtain ⟨rfl, rfl⟩ | ⟨hji, hj⟩ := Sole.getElem?_set_cases hj
    · obtain ⟨hbefore, hstate⟩ | ⟨it, prior, tries, observed, hpc, hstate⟩ :=
        hmove.iterates hiter
      · rw [hstate, entered_of_iterating hi hbefore]
        exact h.runners j r hi hbefore
      · exact Or.inl (entered_of_enters hi hpc hstate)
    · have hsame : j = i :=
        hguarded.role.one j i m r hj hi (RunPc.holds_of_iterating hiter) hmove.role.1
      exact absurd hsame hji

theorem Current.tombstone {t : Traced} (h : t.slot.ws.state = .evicted) : t.Current := by
  refine ⟨fun _ _ _ _ => Or.inr h, fun _ _ _ _ => Or.inr ?_⟩
  rw [h]
  exact nofun

theorem getElem?_append_one {α : Type} {l : List α} {a b : α} {j : Nat}
    (h : (l ++ [b])[j]? = some a) : l[j]? = some a ∨ a = b := by
  rw [List.getElem?_append] at h
  split at h
  · exact Or.inl h
  · rw [List.getElem?_singleton] at h
    split at h
    · exact Or.inr (Option.some.inj h).symm
    · cases h

theorem Current.others {d : Dispatcher} {t t' : Traced} {a : SlotAction} (h : t.Current)
    (hguarded : t.slot.Guarded) (horderly : t.slot.orderly a = true)
    (hstep : t.step d a = some t') (hload : ∀ i env, a ≠ .stepLoad i env)
    (hrun : ∀ i env, a ≠ .stepRunner i env) : t'.Current := by
  obtain ⟨hslot, htomb, hgated, hentered, -⟩ := step_some hstep
  have same : t.slot.completes a = false → t'.gatedAt = t.gatedAt → t'.enteredAt = t.enteredAt →
      t'.slot.ws.state = t.slot.ws.state →
      (∀ (j : Nat) (m : Load), t'.slot.loads[j]? = some m → m.pc.acquired = true →
        t.slot.loads[j]? = some m) →
      (∀ (j : Nat) (m : Runner), t'.slot.runners[j]? = some m → m.pc.iterating = true →
        t.slot.runners[j]? = some m) → t'.Current := by
    intro hcompletes hgated hentered hstate hloads hrunners
    rw [hcompletes] at htomb
    refine ⟨fun j m hj hacq => ?_, fun j m hj hiter => ?_⟩
    · rw [hgated, htomb, hstate]
      exact h.loads j m (hloads j m hj hacq) hacq
    · rw [hentered, htomb, hstate]
      exact h.runners j m (hrunners j m hj hiter) hiter
  cases a with
  | stepLoad i env => exact absurd rfl (hload i env)
  | stepRunner i env => exact absurd rfl (hrun i env)
  | load call =>
    simp only [Slot.step] at hslot
    split at hslot
    · cases hslot
    · have hslot := Option.some.inj hslot
      rw [← hslot] at same
      refine same rfl hgated hentered rfl (fun j m hj hacq => ?_) fun _ _ hj _ => hj
      obtain hj | rfl := getElem?_append_one hj
      · exact hj
      · have hnot : (if call.inserted = true then LoadPc.exchange gateStates
            else .lookup).acquired = false := by
          split <;> rfl
        have hacq : (if call.inserted = true then LoadPc.exchange gateStates
            else .lookup).acquired = true := hacq
        rw [hnot] at hacq
        cases hacq
  | enqueue request =>
    have hslot := Option.some.inj hslot
    obtain ⟨hloads, hcases⟩ := t.slot.enqueue_cases request
    rw [hslot] at hloads hcases
    refine same rfl hgated hentered ?_ (fun j m hj _ => ?_) fun j m hj hiter => ?_
    · obtain ⟨entry, -, hws, -⟩ | ⟨entry, -, hws, -⟩ | ⟨hws, -⟩ := hcases
      · rw [hws]
      · rw [hws]
      · rw [hws]
    · rw [hloads] at hj
      exact hj
    · obtain ⟨entry, -, -, hrunners⟩ | ⟨entry, -, -, hrunners⟩ | ⟨-, hrunners⟩ := hcases
      · rw [hrunners] at hj
        obtain hj | rfl := getElem?_append_one hj
        · exact hj
        · cases hiter
      · rw [hrunners] at hj
        exact hj
      · rw [hrunners] at hj
        exact hj
  | cancelRebuild =>
    have hslot := Option.some.inj hslot
    rw [← hslot] at same
    refine same rfl hgated hentered ?_ (fun _ _ hj _ => hj) fun _ _ hj _ => hj
    show t.slot.ws.cancelRebuild.state = t.slot.ws.state
    rw [LoadedWorkspace.cancelRebuild]
    split <;> rfl
  | evict =>
    simp only [Slot.step] at hslot
    split at hslot
    · refine .tombstone ?_
      rw [← Option.some.inj hslot]
      exact t.slot.ws.evictToTombstone_state
    · cases hslot
  | unload =>
    simp only [Slot.step] at hslot
    split at hslot
    · refine .tombstone ?_
      rw [← Option.some.inj hslot]
      exact t.slot.ws.evictToTombstone_state
    · cases hslot
  | reset force =>
    simp only [Slot.step] at hslot
    split at hslot
    · have hslot := Option.some.inj hslot
      cases hreset : t.slot.ws.resettable force with
      | false =>
        rw [← hslot] at same
        exact same hreset hgated hentered (LoadedWorkspace.reset_refused hreset)
          (fun _ _ hj _ => hj) fun _ _ hj _ => hj
      | true =>
        have hidle : t.slot.ws.rebuildInFlight = false := by
          rw [LoadedWorkspace.resettable, Bool.and_eq_true, Bool.not_eq_true'] at hreset
          exact hreset.2
        have hnoLoad : t.slot.activeLoad = none := by
          rw [Slot.orderly, hreset, Bool.not_true, Bool.false_or,
            Option.isNone_iff_eq_none] at horderly
          exact horderly
        have hnoRun : t.slot.holder = none := by
          have hflag := hguarded.role.flag
          rw [hidle] at hflag
          simpa using hflag.symm
        refine ⟨fun j m hj hacq => ?_, fun j m hj hiter => ?_⟩
        · rw [← hslot] at hj
          have hnot := Slot.activeLoad_eq_none_iff.mp hnoLoad m (List.mem_of_getElem? hj)
          rw [LoadPc.active_of_acquired hacq] at hnot
          cases hnot
        · rw [← hslot] at hj
          have hnot := Slot.holder_eq_none_iff.mp hnoRun m (List.mem_of_getElem? hj)
          rw [RunPc.holds_of_iterating hiter] at hnot
          cases hnot
    · cases hslot

theorem sound_step {d : Dispatcher} {t t' : Traced} {a : SlotAction} (h : t.Sound)
    (horderly : t.slot.orderly a = true) (hstep : t.step d a = some t') : t'.Sound := by
  obtain ⟨hslot, -, -, -, hsettled⟩ := step_some hstep
  refine ⟨Slot.guarded_step h.guarded horderly hslot, ?_, ?_⟩
  · rw [hsettled]
    exact Slot.settled_step h.guarded h.settled horderly hslot
  · cases a with
    | stepLoad i env => exact h.current.stepLoad h.guarded horderly hstep
    | stepRunner i env => exact h.current.stepRunner h.guarded hstep
    | _ => exact h.current.others h.guarded horderly hstep nofun nofun

/-- What is promised of the attempts of a slot: a load past its gate, an iteration past its
entry. -/
structure Fenced (d : Dispatcher) (t : Traced) : Prop where
  publishingLoad : ∀ i l, t.slot.loads[i]? = some l → l.pc.inSection = true →
    t.gatedAt i = t.tombstones
  publishingRun : ∀ i r, t.slot.runners[i]? = some r → r.pc.inSection = true →
    t.enteredAt i = t.tombstones
  overtakenLoad : ∀ i l env t', t.slot.loads[i]? = some l → l.pc.acquired = true →
    t.gatedAt i < t.tombstones → t.step d (.stepLoad i env) = some t' →
    t'.slot.ws.state = t.slot.ws.state ∧ t'.slot.ws.published = t.slot.ws.published
  overtakenRun : ∀ i r env t', t.slot.runners[i]? = some r → r.pc.iterating = true →
    t.enteredAt i < t.tombstones → t.step d (.stepRunner i env) = some t' →
    t'.slot.ws.state = t.slot.ws.state ∧ t'.slot.ws.published = t.slot.ws.published
  oneLoad : Sole.AtMostOne (fun l => l.pc.acquired) t.slot.loads
  oneRun : Sole.AtMostOne (fun r => r.pc.iterating) t.slot.runners
  oneAttempt : ∀ l ∈ t.slot.loads, ∀ r ∈ t.slot.runners, l.pc.acquired = true →
    r.pc.iterating = false
  loaded : t.slot.ws.state = .loaded → t.settled = some t.slot.ws.published

theorem Sound.fenced {d : Dispatcher} {t : Traced} (h : t.Sound) : t.Fenced d := by
  have seenLoad : ∀ {i : Nat} {l : Load}, t.slot.loads[i]? = some l → l.pc.acquired = true →
      t.slot.view.load = some l.pc := fun hi hacq =>
    Slot.activeLoad_eq h.guarded.one (List.mem_of_getElem? hi) (LoadPc.active_of_acquired hacq)
  have seenRun : ∀ {i : Nat} {r : Runner}, t.slot.runners[i]? = some r →
      r.pc.iterating = true → t.slot.view.run = some r.pc := fun hi hiter =>
    Slot.holder_eq h.guarded.role (List.mem_of_getElem? hi) (RunPc.holds_of_iterating hiter)
  have loadSection : ∀ {i : Nat} {l : Load}, t.slot.loads[i]? = some l →
      l.pc.inSection = true → t.slot.ws.state = .loading := by
    intro i l hi hs
    refine h.guarded.fences.publishing ?_
    rw [seenLoad hi (LoadPc.acquired_of_inSection hs)]
    exact hs
  have runSection : ∀ {i : Nat} {r : Runner}, t.slot.runners[i]? = some r →
      r.pc.inSection = true → t.slot.ws.state = .rebuilding := by
    intro i r hi hs
    refine h.guarded.fences.runPublishing ?_
    rw [seenRun hi (RunPc.iterating_of_inSection hs)]
    exact hs
  refine ⟨fun i l hi hs => ?_, fun i r hi hs => ?_, fun i l env t' hi hacq hlt hstep => ?_,
    fun i r env t' hi hiter hlt hstep => ?_, ?_, ?_, fun l hl r hr hacq => ?_, h.settled.loaded⟩
  · obtain hsame | hevicted := h.current.loads i l hi (LoadPc.acquired_of_inSection hs)
    · exact hsame
    · rw [loadSection hi hs] at hevicted
      cases hevicted
  · obtain hsame | hstate := h.current.runners i r hi (RunPc.iterating_of_inSection hs)
    · exact hsame
    · exact absurd (runSection hi hs) hstate
  · obtain ⟨hslot, -⟩ := step_some hstep
    obtain ⟨m, hm, hl⟩ := Option.bind_eq_some_iff.mp hslot
    cases hi.symm.trans hm
    obtain ⟨ws, pc, hmove, -, hslot'⟩ := Slot.stepLoad_some hl
    rw [hslot']
    obtain hsame | hevicted := h.current.loads i l hi hacq
    · exact absurd hsame (Nat.ne_of_lt hlt)
    · exact hmove.overTombstone hacq (loadSection hi) hevicted
  · obtain ⟨hslot, -⟩ := step_some hstep
    obtain ⟨m, hm, hr⟩ := Option.bind_eq_some_iff.mp hslot
    cases hi.symm.trans hm
    obtain ⟨next, -, hmove, hws, -⟩ := Slot.stepRunner_some hr
    rw [hws]
    obtain hsame | hstate := h.current.runners i r hi hiter
    · exact absurd hsame (Nat.ne_of_lt hlt)
    · refine hmove.elsewhere (runSection hi) (fun it prior tries observed hpc => ?_) hstate
      rw [hpc] at hiter
      cases hiter
  · exact fun i j a b ha hb hpa hpb => h.guarded.one i j a b ha hb
      (LoadPc.active_of_acquired hpa) (LoadPc.active_of_acquired hpb)
  · exact fun i j a b ha hb hpa hpb => h.guarded.role.one i j a b ha hb
      (RunPc.holds_of_iterating hpa) (RunPc.holds_of_iterating hpb)
  · refine Bool.eq_false_iff.mpr fun hiter => ?_
    obtain ⟨i, hi⟩ := List.mem_iff_getElem?.mp hl
    obtain ⟨j, hj⟩ := List.mem_iff_getElem?.mp hr
    have hapart : t.slot.view.run.any RunPc.iterating = false := by
      refine h.guarded.fences.apart (Or.inl ?_)
      rw [seenLoad hi hacq]
      exact hacq
    rw [seenRun hj hiter, Option.any_some, hiter] at hapart
    cases hapart

section Runs

open StepSystem (run RunOk)

/-- Along every run whose gates, evictions and resets stay out of each other's way. -/
theorem overtaken_attempt_takes_no_effect {d : Dispatcher} {sourceRoot : PathBuf} {pinned : Bool}
    {actions : List SlotAction} {t : Traced}
    (hok : RunOk (step d) (fun t a => t.slot.orderly a = true) (init sourceRoot pinned) actions)
    (hrun : run (step d) (init sourceRoot pinned) actions = some t) : t.Fenced d := by
  have preserved : ∀ (t : Traced) (a : SlotAction) (t' : Traced), t.Sound →
      t.slot.orderly a = true → step d t a = some t' → t'.Sound :=
    fun t a t' h horderly hstep => sound_step h horderly hstep
  exact (StepSystem.invariant_of_runOk preserved (sound_init sourceRoot pinned) hok
    hrun).fenced

/-- A load that is evicted during its build, and the one that takes the tombstone over once
it has failed. -/
def evictedThenReloaded : List SlotAction :=
  firstLoad :: loadSteps 0 (proceeds 6) ++ [.evict] ++
    loadSteps 0 (.built smallGraph ⟨[]⟩ :: proceeds 5) ++ [laterLoad] ++
    loadSteps 1 (proceeds 4 ++ loadsSmallGraph)

theorem overtaken_attempt_takes_no_effect_reloaded :
    ∃ t, run (step .plain) (init "w" false) evictedThenReloaded = some t ∧
      t.tombstones = 1 ∧ t.slot.ws.state = .loaded ∧
      t.settled = some ⟨smallGraph, some ⟨[]⟩⟩ := by
  have hok : RunOk (step .plain) (fun t a => t.slot.orderly a = true) (init "w" false)
      evictedThenReloaded := by decide
  refine ⟨_, rfl, rfl, rfl, ?_⟩
  exact (overtaken_attempt_takes_no_effect hok rfl).loaded rfl

/-- The second load passes its gate, and takes the first one's cancellation down, while the
evicted first load still builds. -/
def gatedOverEvicted : List SlotAction :=
  firstLoad :: loadSteps 0 (proceeds 6) ++ [.evict, laterLoad] ++
    loadSteps 1 (proceeds 8) ++
    loadSteps 0 ([.built smallGraph ⟨[]⟩] ++ proceeds 4)

theorem overtaken_attempt_publishes :
    ∃ t l, run (step .plain) (init "w" false) gatedOverEvicted = some t ∧
      t.slot.loads[0]? = some l ∧ l.pc.inSection = true ∧ t.gatedAt 0 < t.tombstones ∧
      t.slot.ws.published = ⟨smallGraph, some ⟨[]⟩⟩ ∧
      ¬ Sole.AtMostOne (fun l => l.pc.acquired) t.slot.loads := by
  refine ⟨_, _, rfl, rfl, rfl, by decide, rfl, fun h => ?_⟩
  exact absurd (h 0 1 _ _ rfl rfl rfl rfl) (by decide)

end Runs

end Traced

end Sqry.Daemon
