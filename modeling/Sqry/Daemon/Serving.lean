import Sqry.Daemon.Fences

/-!
The state of a workspace and its published generation, which two sets of paths write. A
servable state carries a generation with a record as long as no iteration enters over the
placeholder, and then no reader is answered with an error for a missing record.
-/

namespace Sqry.Daemon

theorem LoadPc.inSection_of_swapped {pc : LoadPc} (h : pc.swapped = true) :
    pc.inSection = true := by
  cases pc <;> first | rfl | cases h

theorem RunPc.inSection_of_swapped {pc : RunPc} (h : pc.swapped = true) :
    pc.inSection = true := by
  cases pc <;> first | rfl | cases h

theorem RunPc.iterating_of_swapped {pc : RunPc} (h : pc.swapped = true) :
    pc.iterating = true :=
  iterating_of_inSection (inSection_of_swapped h)

namespace View

structure Recorded (v : View) : Prop where
  servable : v.ws.state = .loaded ∨ v.ws.state = .rebuilding → v.ws.published.roster.isSome
  tombstone : v.ws.state = .evicted → v.ws.published = .placeholder
  returning : v.ws.state = .loading →
    v.load.any (fun pc => decide (pc.prior = some .evicted)) = true →
    v.ws.published = .placeholder
  swapped : v.load.any LoadPc.swapped = true ∨ v.run.any RunPc.swapped = true →
    v.ws.published.roster.isSome

variable {ws ws' : LoadedWorkspace} {load load' : Option LoadPc} {run run' : Option RunPc}

theorem Recorded.kept (h : Recorded ⟨ws, load, run⟩) (hstate : ws'.state = ws.state)
    (hpublished : ws'.published = ws.published)
    (hprior : load'.any (fun pc => decide (pc.prior = some .evicted)) = true →
      load.any (fun pc => decide (pc.prior = some .evicted)) = true)
    (hload : load'.any LoadPc.swapped = true → load.any LoadPc.swapped = true)
    (hrun : run'.any RunPc.swapped = true → run.any RunPc.swapped = true) :
    Recorded ⟨ws', load', run'⟩ := by
  refine ⟨?_, ?_, ?_, ?_⟩
  · show ws'.state = .loaded ∨ ws'.state = .rebuilding → ws'.published.roster.isSome
    rw [hstate, hpublished]
    exact h.servable
  · show ws'.state = .evicted → ws'.published = .placeholder
    rw [hstate, hpublished]
    exact h.tombstone
  · show ws'.state = .loading → load'.any (fun pc => decide (pc.prior = some .evicted)) = true →
      ws'.published = .placeholder
    rw [hstate, hpublished]
    exact fun hloading hp => h.returning hloading (hprior hp)
  · show load'.any LoadPc.swapped = true ∨ run'.any RunPc.swapped = true →
      ws'.published.roster.isSome
    rw [hpublished]
    exact fun hs => h.swapped (hs.imp hload hrun)

theorem Recorded.withRecord (hrecord : ws.published.roster.isSome = true)
    (hevicted : ws.state ≠ .evicted)
    (hprior : ws.state = .loading →
      load.any (fun pc => decide (pc.prior = some .evicted)) = false) :
    Recorded ⟨ws, load, run⟩ := by
  refine ⟨fun _ => hrecord, fun h => absurd h hevicted, fun hloading hp => ?_, fun _ => hrecord⟩
  have hnot := hprior hloading
  have hp : load.any (fun pc => decide (pc.prior = some .evicted)) = true := hp
  rw [hnot] at hp
  cases hp

theorem Recorded.withPlaceholder (hpublished : ws.published = .placeholder)
    (hloaded : ws.state ≠ .loaded) (hrebuilding : ws.state ≠ .rebuilding)
    (hload : load.any LoadPc.swapped = false) (hrun : run.any RunPc.swapped = false) :
    Recorded ⟨ws, load, run⟩ := by
  refine ⟨fun h => ?_, fun _ => hpublished, fun _ _ => hpublished, fun h => ?_⟩
  · cases h with
    | inl h => exact absurd h hloaded
    | inr h => exact absurd h hrebuilding
  · cases h with
    | inl h =>
      have h : load.any LoadPc.swapped = true := h
      rw [hload] at h
      cases h
    | inr h =>
      have h : run.any RunPc.swapped = true := h
      rw [hrun] at h
      cases h

theorem Recorded.parked (h : Recorded ⟨ws, load, run⟩) (hpublished : ws'.published = ws.published)
    (hstate : ws'.state = .failed ∨ ws'.state = .unloaded)
    (hload : load'.any LoadPc.swapped = true → load.any LoadPc.swapped = true)
    (hrun : run'.any RunPc.swapped = true → run.any RunPc.swapped = true) :
    Recorded ⟨ws', load', run'⟩ := by
  have hnot : ∀ state : WorkspaceState, state ≠ .failed → state ≠ .unloaded →
      ws'.state ≠ state := by
    intro state hfailed hunloaded heq
    cases hstate with
    | inl h => exact hfailed (heq.symm.trans h)
    | inr h => exact hunloaded (heq.symm.trans h)
  refine ⟨fun hs => ?_, fun hs => absurd hs (hnot _ nofun nofun),
    fun hs => absurd hs (hnot _ nofun nofun), fun hs => ?_⟩
  · cases hs with
    | inl hs => exact absurd hs (hnot _ nofun nofun)
    | inr hs => exact absurd hs (hnot _ nofun nofun)
  · show ws'.published.roster.isSome = true
    rw [hpublished]
    exact h.swapped (hs.imp hload hrun)

theorem Recorded.stepLoad {inserted : Bool} {pc pc' : LoadPc} (h : Recorded ⟨ws, some pc, run⟩)
    (hf : Fences ⟨ws, some pc, run⟩) (hmove : LoadMove inserted ws pc ws' pc')
    (hactive : pc.active = true) :
    Recorded ⟨ws', if pc'.active then some pc' else none, run⟩ := by
  cases hmove with
  | idle hpc =>
    rw [hactive] at hpc
    cases hpc
  | exchange => cases hactive
  | look _ hgate' hprior =>
    rw [if_pos (LoadPc.active_of_gating hgate')]
    refine h.kept rfl rfl ?_ ?_ id
    · rw [Option.any_some, hprior]
      exact id
    · intro hs
      cases pc' <;> first | cases hs | cases hgate'
  | putBack =>
    have hstate : ws.state = .loading := hf.gating rfl
    rw [show ws.transitionState .loading .evicted = { ws with state := .evicted } from
      if_pos hstate]
    refine ⟨by simp, fun _ => h.returning hstate rfl, fun h => (by cases h), fun hs => ?_⟩
    cases hs with
    | inl hs => cases hs
    | inr hs => exact h.swapped (Or.inr hs)
  | swapClear => exact h.kept rfl rfl id (fun h => by cases h) id
  | swapRefuse => exact h.kept rfl rfl (fun h => by cases h) (fun h => by cases h) id
  | restore => exact h.kept rfl rfl (fun h => by cases h) (fun h => by cases h) id
  | work lastError _ hpc' hprior _ hinstalled =>
    rw [if_pos (LoadPc.active_of_acquired hpc')]
    refine h.kept rfl rfl (fun hp => ?_) (LoadPc.swapped_of_work hinstalled) id
    cases hprior with
    | inl hnone =>
      rw [Option.any_some, hnone] at hp
      cases hp
    | inr hsame =>
      rw [Option.any_some, hsame] at hp
      exact hp
  | leave =>
    rw [LoadedWorkspace.transitionState]
    split
    · exact h.parked rfl (Or.inl rfl) (fun h => by cases h) id
    · exact h.kept rfl rfl (fun h => by cases h) (fun h => by cases h) id
  | @abandon entry err result =>
    rw [LoadedWorkspace.abandonLoad]
    split
    next hstate =>
      cases hprior : entry.priorState with
      | unloaded => exact h.parked rfl (Or.inr rfl) (fun h => by cases h) id
      | failed => exact h.parked rfl (Or.inl rfl) (fun h => by cases h) id
      | evicted =>
        refine ⟨by simp [GateState.state], fun _ => h.returning hstate ?_,
          fun h => (by cases h), fun hs => ?_⟩
        · rw [Option.any_some, LoadPc.prior, hprior]
          rfl
        · cases hs with
          | inl hs => cases hs
          | inr hs => exact h.swapped (Or.inr hs)
    · exact h.kept rfl rfl (fun h => by cases h) (fun h => by cases h) id
  | recheck => exact h.kept rfl rfl (fun h => by cases h) (fun h => by cases h) id
  | swapPublished =>
    have hstate : ws.state = .loading := hf.publishing rfl
    exact .withRecord rfl (by rw [hstate]; decide) fun _ => rfl
  | swapMemory => exact h.kept rfl rfl (fun h => by cases h) id id
  | settle => exact .withRecord (h.swapped (Or.inl rfl)) (by simp) fun _ => rfl

theorem Recorded.leaves {target : WorkspaceState} (h : Recorded ⟨ws, load, run⟩)
    (htarget : target = .unloaded ∨ target = .failed ∨ target = .loaded)
    (hrun : run'.any RunPc.swapped = true → run.any RunPc.swapped = true) :
    Recorded ⟨ws.transitionState .rebuilding target, load, run'⟩ := by
  rw [LoadedWorkspace.transitionState]
  split
  next hstate =>
    obtain htarget | htarget | htarget := htarget
    · exact h.parked rfl (Or.inr htarget) id hrun
    · exact h.parked rfl (Or.inl htarget) id hrun
    · cases htarget
      exact .withRecord (h.servable (Or.inr hstate)) (by simp) (by simp)
  · exact h.kept rfl rfl id id hrun

theorem outside_swapped {pc : RunPc} (hpc : pc.iterating = false) :
    (if pc.holds then some pc else none).any RunPc.swapped ≠ true := by
  intro h
  split at h
  · have hiter : pc.iterating = true := RunPc.iterating_of_swapped h
    rw [hpc] at hiter
    cases hiter
  · cases h

theorem Recorded.stepRunner {pc pc' : RunPc} (h : Recorded ⟨ws, load, some pc⟩)
    (hf : Fences ⟨ws, load, some pc⟩) (hmove : RunMove ws pc ws' pc')
    (henter : ∀ it prior tries observed, pc = .enter it (prior :: tries) observed →
      ws.state = prior.state → ws.published.roster.isSome = true) :
    Recorded ⟨ws', load, if pc'.holds then some pc' else none⟩ := by
  cases hmove with
  | take hcancel hgo =>
    have hpc' : pc'.iterating = false := by
      cases hflag : ws.rebuildCancelled with
      | true =>
        rw [hcancel hflag]
        rfl
      | false => exact (hgo hflag).2
    rw [LoadedWorkspace.takeCancellation]
    split
    · exact h.kept rfl rfl id id fun hs => absurd hs (outside_swapped hpc')
    · exact h.kept rfl rfl id id fun hs => absurd hs (outside_swapped hpc')
  | gate =>
    have hkept : Recorded
        ⟨{ ws with rebuildLane := none, rebuildInFlight := false }, load, none⟩ :=
      h.kept rfl rfl id id (by simp)
    exact hkept.leaves (Or.inl rfl) (fun h => by cases h)
  | drain => exact h.kept rfl rfl id id (fun h => by cases h)
  | quit => exact h.kept rfl rfl id id (fun h => by cases h)
  | idle _ _ _ hpc' => exact h.kept rfl rfl id id fun hs => absurd hs (outside_swapped hpc')
  | enter hprior => exact .withRecord (henter _ _ _ _ rfl hprior) (by simp) (by simp)
  | work lastError _ hpc' _ hinstalled =>
    rw [if_pos (RunPc.holds_of_iterating hpc')]
    exact h.kept rfl rfl id id (RunPc.swapped_of_work hinstalled)
  | leave target _ htarget =>
    refine h.leaves ?_ (fun h => by cases h)
    obtain htarget | htarget | ⟨it, entered, err, -, rfl⟩ := htarget
    · exact Or.inl htarget
    · exact Or.inr (Or.inl htarget)
    · exact refusedState_cases entered
  | stop => exact h.kept rfl rfl id id (fun h => by cases h)
  | clear => exact h.kept rfl rfl id id (fun h => by cases h)
  | recheck => exact h.kept rfl rfl id id (fun h => by cases h)
  | swapPublished =>
    have hstate : ws.state = .rebuilding := hf.runPublishing rfl
    refine .withRecord rfl ?_ fun hloading => ?_
    · rw [hstate]
      decide
    · have hloading : ws.state = .loading := hloading
      rw [hstate] at hloading
      cases hloading
  | swapMemory => exact h.kept rfl rfl id id id
  | @settle it bytes now built =>
    have hkept : Recorded ⟨ws.recordSuccess now, load, none⟩ := h.kept rfl rfl id id (by simp)
    exact hkept.leaves (Or.inr (Or.inr rfl)) (fun h => by cases h)

theorem Recorded.evict {v : View} (h : Recorded v) (hw : v.writable = true) :
    Recorded { v with ws := v.ws.evictToTombstone } := by
  obtain ⟨hload, hrun⟩ := View.notPublishing hw
  rw [LoadedWorkspace.evictToTombstone]
  split
  · exact h
  · refine .withPlaceholder rfl (by simp) (by simp) ?_ ?_
    · exact Bool.eq_false_iff.mpr fun hs =>
        absurd (any_imp (fun _ => LoadPc.inSection_of_swapped) hs) (by simp [hload])
    · exact Bool.eq_false_iff.mpr fun hs =>
        absurd (any_imp (fun _ => RunPc.inSection_of_swapped) hs) (by simp [hrun])

theorem Recorded.reset {v : View} (h : Recorded v) (hw : v.writable = true) (force : Bool) :
    Recorded { v with ws := (v.ws.reset force).1 } := by
  have htomb := h.evict hw
  rw [LoadedWorkspace.reset]
  split
  · exact h
  · split
    · exact h
    · split
      · exact h.kept rfl rfl id id id
      · exact htomb.parked rfl (Or.inr rfl) id id

theorem Recorded.move {v v' : View} {a : SlotAction} (h : Recorded v) (hf : Fences v)
    (hmove : ViewMove v a v')
    (henter : ∀ i env it prior tries observed, a = .stepRunner i env →
      v.run = some (.enter it (prior :: tries) observed) → v.ws.state = prior.state →
      v.ws.published.roster.isSome = true) : Recorded v' := by
  cases hmove with
  | unseen => exact h
  | @gate i env prior hnone hprior =>
    obtain ⟨ws, load, run⟩ := v
    cases hnone
    refine ⟨nofun, nofun, fun _ hp => h.tombstone (hprior.trans ?_), fun hs => ?_⟩
    · have hp : some prior = some GateState.evicted := of_decide_eq_true hp
      cases hp
      rfl
    · cases hs with
      | inl hs => cases hs
      | inr hs => exact h.swapped (Or.inr hs)
  | load hload hactive hmove _ =>
    obtain ⟨ws, load, run⟩ := v
    cases hload
    exact h.stepLoad hf hmove hactive
  | acquire hnone =>
    obtain ⟨ws, load, run⟩ := v
    exact h.kept rfl rfl id id nofun
  | park =>
    obtain ⟨ws, load, run⟩ := v
    exact h.kept rfl rfl id id id
  | @run i env pc pc' ws' hrun hmove =>
    obtain ⟨ws, load, run⟩ := v
    cases hrun
    refine h.stepRunner hf hmove fun it prior tries observed hpc hstate => ?_
    exact henter i env it prior tries observed rfl (congrArg some hpc) hstate
  | cancelRebuild =>
    obtain ⟨ws, load, run⟩ := v
    rw [LoadedWorkspace.cancelRebuild]
    split
    · exact h.kept rfl rfl id id id
    · exact h
  | evict hw => exact h.evict hw
  | unload hw =>
    obtain ⟨ws, load, run⟩ := v
    exact (h.evict hw).kept rfl rfl id id id
  | reset hw => exact h.reset hw _

end View

namespace Slot

def entersRecorded (s : Slot) : SlotAction → Bool
  | .stepRunner i _ =>
    match s.runners[i]? with
    | some ⟨.enter _ (prior :: _) _, _⟩ =>
      !decide (s.ws.state = prior.state) || s.ws.published.roster.isSome
    | _ => true
  | _ => true

theorem recorded_init (sourceRoot : PathBuf) (pinned : Bool) :
    View.Recorded (init sourceRoot pinned).view :=
  .withPlaceholder rfl nofun nofun rfl rfl

theorem recorded_step {d : Dispatcher} {s s' : Slot} {a : SlotAction} (hguarded : s.Guarded)
    (h : View.Recorded s.view) (horderly : s.orderly a = true)
    (henters : s.entersRecorded a = true) (hstep : s.step d a = some s') :
    View.Recorded s'.view := by
  refine h.move hguarded.fences (hguarded.viewMove horderly hstep) ?_
  intro i env it prior tries observed ha hrun hstate
  cases ha
  obtain ⟨r, hi, hr⟩ := Option.bind_eq_some_iff.mp hstep
  obtain ⟨next, -, hmove, hws, -, hrunners⟩ := stepRunner_some hr
  have hholder := (hguarded.role.stepRunner hi hmove hws hrunners).2.1
  have hpc : r.pc = .enter it (prior :: tries) observed :=
    Option.some.inj (hholder.symm.trans hrun)
  obtain ⟨pc, last⟩ := r
  cases hpc
  have hstate : s.ws.state = prior.state := hstate
  have hrecord : s.ws.published.roster.isSome = true := by
    simpa [entersRecorded, hi, hstate] using henters
  exact hrecord

def guardAllows (s : Slot) : SlotAction → Bool
  | .evict => false
  | .unload => false
  | .reset _ => false
  | .stepLoad i _ => (s.loads[i]?).all fun l => !l.pc.takesWriteLock
  | _ => true

end Slot

theorem LoadMove.keepsRecord {inserted : Bool} {ws ws' : LoadedWorkspace} {pc pc' : LoadPc}
    (h : LoadMove inserted ws pc ws' pc') (hrecord : ws.published.roster.isSome = true) :
    ws'.published.roster.isSome = true := by
  cases h with
  | putBack =>
    rw [LoadedWorkspace.transitionState]
    split <;> exact hrecord
  | leave =>
    rw [LoadedWorkspace.transitionState]
    split <;> exact hrecord
  | abandon =>
    rw [LoadedWorkspace.abandonLoad]
    split <;> exact hrecord
  | swapPublished => rfl
  | _ => exact hrecord

theorem RunMove.keepsRecord {ws ws' : LoadedWorkspace} {pc pc' : RunPc}
    (h : RunMove ws pc ws' pc') (hrecord : ws.published.roster.isSome = true) :
    ws'.published.roster.isSome = true := by
  have kept : ∀ (ws : LoadedWorkspace) (target : WorkspaceState),
      (ws.transitionState .rebuilding target).published = ws.published := by
    intro ws target
    rw [LoadedWorkspace.transitionState]
    split <;> rfl
  cases h with
  | take =>
    rw [LoadedWorkspace.takeCancellation]
    split <;> exact hrecord
  | gate =>
    rw [kept]
    exact hrecord
  | leave =>
    rw [kept]
    exact hrecord
  | settle =>
    rw [kept]
    exact hrecord
  | swapPublished => rfl
  | _ => exact hrecord

namespace Slot

theorem record_kept {d : Dispatcher} {s s' : Slot} {a : SlotAction}
    (hguard : s.guardAllows a = true) (hstep : s.step d a = some s')
    (hrecord : s.ws.published.roster.isSome = true) :
    s'.ws.published.roster.isSome = true := by
  cases a with
  | load call =>
    simp only [step] at hstep
    split at hstep
    · cases hstep
    · cases hstep
      exact hrecord
  | stepLoad i env =>
    obtain ⟨l, -, hl⟩ := Option.bind_eq_some_iff.mp hstep
    obtain ⟨ws, pc, hmove, -, rfl⟩ := stepLoad_some hl
    exact hmove.keepsRecord hrecord
  | enqueue request =>
    cases hstep
    obtain ⟨entry, -, hws, -⟩ | ⟨entry, -, hws, -⟩ | ⟨hws, -⟩ := (s.enqueue_cases request).2
    · rw [hws]
      exact hrecord
    · rw [hws]
      exact hrecord
    · rw [hws]
      exact hrecord
  | stepRunner i env =>
    obtain ⟨r, -, hr⟩ := Option.bind_eq_some_iff.mp hstep
    obtain ⟨next, -, hmove, hws, -, -⟩ := stepRunner_some hr
    rw [hws]
    exact hmove.keepsRecord hrecord
  | cancelRebuild =>
    cases hstep
    rw [LoadedWorkspace.cancelRebuild]
    split <;> exact hrecord
  | evict => cases hguard
  | unload => cases hguard
  | reset force => cases hguard

end Slot

structure ReadersServed (state : WorkspaceState) (published : PublishedGraph) : Prop where
  noInternal : ∀ text sourceRoot cap now lastGood lastError reason,
    ServeSnapshot.classify text sourceRoot cap now ⟨state, published, lastGood, lastError⟩ ≠
      some (.error (.internal reason))
  fresh : ∀ text sourceRoot cap now lastGood lastError graph state' roster,
    ServeSnapshot.classify text sourceRoot cap now ⟨state, published, lastGood, lastError⟩ =
      some (.ok (.fresh graph state' roster)) → published = ⟨graph, some roster⟩
  stale : ∀ text sourceRoot cap now lastGood lastError graph age at_ lastErrorText roster,
    ServeSnapshot.classify text sourceRoot cap now ⟨state, published, lastGood, lastError⟩ =
      some (.ok (.stale graph age at_ lastErrorText roster)) → published = ⟨graph, some roster⟩
  snapshot : state = .loaded ∨ state = .rebuilding → published ≠ .placeholder
  gate : ∀ sourceRoot, ∃ found, residentGeneration sourceRoot state published = .ok found ∧
    ∀ generation ∈ found, generation = published ∧ generation ≠ .placeholder

theorem ne_placeholder {published : PublishedGraph} (h : published.roster.isSome = true) :
    published ≠ .placeholder := by
  intro heq
  rw [heq] at h
  cases h

theorem classify_cases (text : DaemonError → String) (sourceRoot : PathBuf) (cap now : Nat)
    {snapshot : ServeSnapshot}
    (h : snapshot.state = .loaded ∨ snapshot.state = .rebuilding →
      snapshot.published.roster.isSome = true) {answer : Except DaemonError ServeVerdict}
    (hanswer : snapshot.classify text sourceRoot cap now = some answer) :
    match answer with
    | .error (.internal _) => False
    | .ok (.fresh graph _ roster) => snapshot.published = ⟨graph, some roster⟩
    | .ok (.stale graph _ _ _ roster) => snapshot.published = ⟨graph, some roster⟩
    | _ => True := by
  obtain ⟨state, ⟨graph, roster⟩, lastGood, lastError⟩ := snapshot
  cases state with
  | unloaded =>
    cases hanswer
    trivial
  | loading =>
    cases hanswer
    trivial
  | evicted =>
    cases hanswer
    trivial
  | loaded =>
    cases roster with
    | none => cases h (Or.inl rfl)
    | some roster =>
      cases hanswer
      rfl
  | rebuilding =>
    cases roster with
    | none => cases h (Or.inr rfl)
    | some roster =>
      cases hanswer
      rfl
  | failed =>
    cases roster with
    | none =>
      cases hanswer
      trivial
    | some roster =>
      simp only [ServeSnapshot.classify, ServeSnapshot.rosterForServe] at hanswer
      simp only [Option.isNone_some, Bool.false_eq_true, if_false] at hanswer
      split at hanswer
      · cases hanswer
        trivial
      · obtain ⟨at_, -, rfl⟩ := Option.map_eq_some_iff.mp hanswer
        rfl
      · cases hanswer
        trivial

theorem readersServed {state : WorkspaceState} {published : PublishedGraph}
    (h : state = .loaded ∨ state = .rebuilding → published.roster.isSome = true) :
    ReadersServed state published where
  noInternal text sourceRoot cap now lastGood lastError reason heq :=
    classify_cases text sourceRoot cap now h heq
  fresh text sourceRoot cap now lastGood lastError graph state' roster heq :=
    classify_cases text sourceRoot cap now h heq
  stale text sourceRoot cap now lastGood lastError graph age at_ lastErrorText roster heq :=
    classify_cases text sourceRoot cap now h heq
  snapshot hstate := ne_placeholder (h hstate)
  gate sourceRoot := by
    rw [residentGeneration]
    split
    · exact ⟨none, rfl, nofun⟩
    next hstate =>
      have hrecord := h (Or.inl (Classical.not_not.mp hstate))
      rw [if_neg (by simp [Option.isSome_iff_ne_none.mp hrecord])]
      refine ⟨some published, rfl, fun generation hmem => ?_⟩
      cases hmem
      exact ⟨rfl, ne_placeholder hrecord⟩

section Runs

open StepSystem (run RunOk)

/-- Whatever order the steps come in, while no iteration enters over a generation without a
record. -/
theorem servable_state_has_record {d : Dispatcher} {sourceRoot : PathBuf} {pinned : Bool}
    {actions : List SlotAction} {s : Slot}
    (hok : RunOk (Slot.step d) (fun s a => s.orderly a = true ∧ s.entersRecorded a = true)
      (Slot.init sourceRoot pinned) actions)
    (hrun : run (Slot.step d) (Slot.init sourceRoot pinned) actions = some s) :
    (s.ws.state = .loaded ∨ s.ws.state = .rebuilding → s.ws.published.roster.isSome = true) ∧
    (s.ws.state = .evicted → s.ws.published = .placeholder) ∧
    ∀ reads s', RunOk (Slot.step d) (fun s a => s.guardAllows a = true) s reads →
      run (Slot.step d) s reads = some s' → ReadersServed s.ws.state s'.ws.published := by
  have preserved : ∀ (s : Slot) (a : SlotAction) (s' : Slot),
      (s.Guarded ∧ View.Recorded s.view) → (s.orderly a = true ∧ s.entersRecorded a = true) →
      Slot.step d s a = some s' → s'.Guarded ∧ View.Recorded s'.view :=
    fun s a s' hinv hok hstep => ⟨Slot.guarded_step hinv.1 hok.1 hstep,
      Slot.recorded_step hinv.1 hinv.2 hok.1 hok.2 hstep⟩
  have hinv := StepSystem.invariant_of_runOk preserved
    ⟨Slot.guarded_init sourceRoot pinned, Slot.recorded_init sourceRoot pinned⟩ hok hrun
  refine ⟨hinv.2.servable, hinv.2.tombstone, fun reads s' hguard hreads => ?_⟩
  refine readersServed fun hstate => ?_
  exact StepSystem.invariant_of_runOk
    (fun s a s' hrecord hguard hstep => Slot.record_kept hguard hstep hrecord)
    (hinv.2.servable hstate) hguard hreads

def loadThenRebuild : List SlotAction :=
  firstLoad :: loadSteps 0 loadsSmallGraph ++
    [.enqueue (.explicit .empty 0 .empty false)] ++ runnerSteps 0 (proceeds 3)

theorem servable_state_has_record_rebuilding :
    ∃ s, run (Slot.step .plain) (Slot.init "w" false) loadThenRebuild = some s ∧
      s.ws.state = .rebuilding ∧ s.ws.published.roster.isSome = true := by
  have hok : RunOk (Slot.step .plain) (fun s a => s.orderly a = true ∧ s.entersRecorded a = true)
      (Slot.init "w" false) loadThenRebuild := by decide
  exact ⟨_, rfl, rfl, (servable_state_has_record hok rfl).1 (Or.inr rfl)⟩

def rebuildOverPlaceholder : List SlotAction :=
  firstLoad :: loadSteps 0 (proceeds 3 ++ [.error (.internal "no source root")] ++ proceeds 2) ++
    [.enqueue (.explicit .empty 0 .empty false)] ++ runnerSteps 0 (proceeds 4)

theorem rebuilding_without_record :
    ∃ s, run (Slot.step .plain) (Slot.init "w" false) rebuildOverPlaceholder = some s ∧
      s.ws.state = .rebuilding ∧ s.ws.published = .placeholder ∧
      ∀ text cap now, s.ws.classifyForServe text cap now =
        some (.error (noRosterRecord "w" "servable")) :=
  ⟨_, rfl, rfl, rfl, fun _ _ _ => rfl⟩

end Runs

end Sqry.Daemon
