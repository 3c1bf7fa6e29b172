import Sqry.Daemon.View

/-!
What keeps an evicted load or iteration from taking effect, as one invariant of the view.
It holds along every run in which a gate is won only while no other load is under way, no
eviction falls between a gate's exchange and its reading of the flag, and no reset
completes during a load.
-/

namespace Sqry.Daemon

structure LoadFences (ws : LoadedWorkspace) (load : Option LoadPc) : Prop where
  gating : load.any LoadPc.gating = true → ws.state = .loading
  acquired : load.any LoadPc.acquired = true → ws.state = .loading ∨
    (ws.state = .evicted ∧ (ws.rebuildCancelled = true ∨ ws.registered = false))
  publishing : load.any LoadPc.inSection = true → ws.state = .loading

namespace View

def fromTombstone (v : View) : Bool :=
  v.load.any fun pc => pc.gating && decide (pc.prior = some .evicted)

def Overtaken (v : View) : Prop :=
  v.ws.evictedMidIteration = true ∧ v.ws.rebuildCancelled = true ∧
    (v.ws.state = .evicted ∨ v.fromTombstone = true)

structure Fences (v : View) : Prop extends LoadFences v.ws v.load where
  iterating : v.run.any RunPc.iterating = true → v.ws.state = .rebuilding ∨ v.Overtaken
  unregistering : v.run.any RunPc.unregistering = true →
    v.ws.state = .rebuilding ∧ v.ws.registered = false
  runPublishing : v.run.any RunPc.inSection = true → v.ws.state = .rebuilding
  apart : v.load.any LoadPc.acquired = true ∨ v.load.any LoadPc.swapping = true →
    v.run.any RunPc.iterating = false

end View

theorem LoadPc.gating_of_swapping {pc : LoadPc} (h : pc.swapping = true) :
    pc.gating = true := by
  cases pc <;> first | rfl | cases h

theorem RunPc.iterating_of_unregistering {pc : RunPc} (h : pc.unregistering = true) :
    pc.iterating = true := by
  cases pc <;> first | rfl | cases h

theorem any_imp {α : Type} {f g : α → Bool} (h : ∀ a, f a = true → g a = true) {o : Option α}
    (ho : o.any f = true) : o.any g = true := by
  cases o with
  | none => cases ho
  | some a => exact h a ho

namespace View

variable {v : View}

theorem Fences.ofNotIterating (hiter : v.run.any RunPc.iterating = false)
    (h : LoadFences v.ws v.load) : Fences v := by
  have hnot : v.run.any RunPc.iterating ≠ true := by simp [hiter]
  exact ⟨h, fun h => absurd h hnot,
    fun h => absurd (any_imp (fun _ => RunPc.iterating_of_unregistering) h) hnot,
    fun h => absurd (any_imp (fun _ => RunPc.iterating_of_inSection) h) hnot, fun _ => hiter⟩

theorem Fences.ofNoLoad (hload : v.load = none)
    (hiterating : v.run.any RunPc.iterating = true → v.ws.state = .rebuilding ∨ v.Overtaken)
    (hunregistering : v.run.any RunPc.unregistering = true →
      v.ws.state = .rebuilding ∧ v.ws.registered = false)
    (hpublishing : v.run.any RunPc.inSection = true → v.ws.state = .rebuilding) : Fences v := by
  obtain ⟨ws, load, run⟩ := v
  cases hload
  refine ⟨⟨nofun, nofun, nofun⟩, hiterating, hunregistering, hpublishing, fun h => ?_⟩
  cases h with
  | inl h => cases h
  | inr h => cases h

theorem Fences.ofAcquired {ws : LoadedWorkspace} {pc : LoadPc} {run : Option RunPc}
    (hpc : pc.acquired = true) (hiter : run.any RunPc.iterating = false)
    (hstate : ws.state = .loading ∨
      (ws.state = .evicted ∧ (ws.rebuildCancelled = true ∨ ws.registered = false)))
    (hsection : pc.inSection = true → ws.state = .loading) :
    Fences ⟨ws, if pc.active then some pc else none, run⟩ := by
  rw [if_pos (LoadPc.active_of_acquired hpc)]
  refine .ofNotIterating hiter ⟨fun h => ?_, fun _ => hstate, hsection⟩
  have hnot : pc.gating = false := LoadPc.not_gating_of_acquired hpc
  have h : pc.gating = true := h
  rw [hnot] at h
  cases h

theorem Fences.ofEnded {ws : LoadedWorkspace} {result : LoadResult} {run : Option RunPc}
    (hiter : run.any RunPc.iterating = false) :
    Fences ⟨ws, if (LoadPc.done result).active then some (.done result) else none, run⟩ :=
  .ofNotIterating hiter ⟨nofun, nofun, nofun⟩

end View

section LoadMoves

variable {inserted : Bool} {ws ws' : LoadedWorkspace} {pc pc' : LoadPc} {run : Option RunPc}

theorem View.Fences.loadPastGate (h : View.Fences ⟨ws, some pc, run⟩)
    (hpast : pc.acquired = true ∨ pc.swapping = true) (hmove : LoadMove inserted ws pc ws' pc') :
    View.Fences ⟨ws', if pc'.active then some pc' else none, run⟩ := by
  have hiter : run.any RunPc.iterating = false := h.apart hpast
  cases hmove with
  | idle hpc =>
    have hactive : pc.active = true := by
      cases hpast with
      | inl hacq => exact LoadPc.active_of_acquired hacq
      | inr hswap => exact LoadPc.active_of_gating (LoadPc.gating_of_swapping hswap)
    rw [hactive] at hpc
    cases hpc
  | exchange => simp [LoadPc.acquired, LoadPc.swapping] at hpast
  | look hgate _ _ hleft =>
    cases hpast with
    | inl hacq =>
      rw [LoadPc.not_gating_of_acquired hacq] at hgate
      cases hgate
    | inr hswap =>
      rw [hswap] at hleft
      cases hleft
  | putBack => exact .ofEnded hiter
  | swapClear => exact .ofAcquired rfl hiter (Or.inl (h.gating rfl)) nofun
  | swapRefuse => exact .ofAcquired rfl hiter (Or.inl (h.gating rfl)) nofun
  | restore =>
    refine .ofAcquired rfl hiter ?_ nofun
    obtain hstate | ⟨hstate, -⟩ := h.acquired rfl
    · exact Or.inl hstate
    · exact Or.inr ⟨hstate, Or.inl rfl⟩
  | work lastError hpc hpc' _ hsection =>
    exact .ofAcquired hpc' hiter (h.acquired hpc) fun hs => h.publishing (hsection hs)
  | leave => exact .ofEnded hiter
  | abandon => exact .ofEnded hiter
  | recheck hflag hreg =>
    have hstate : ws.state = .loading := by
      obtain hstate | ⟨-, hup | hgone⟩ := h.acquired rfl
      · exact hstate
      · rw [hflag] at hup
        cases hup
      · rw [hreg] at hgone
        cases hgone
    exact .ofAcquired rfl hiter (Or.inl hstate) fun _ => hstate
  | swapPublished =>
    exact .ofAcquired rfl hiter (Or.inl (h.publishing rfl)) fun _ => h.publishing rfl
  | swapMemory =>
    exact .ofAcquired rfl hiter (Or.inl (h.publishing rfl)) fun _ => h.publishing rfl
  | settle => exact .ofEnded hiter

theorem View.Fences.loadGating (h : View.Fences ⟨ws, some pc, run⟩)
    (hflight : ws.rebuildInFlight = run.isSome) (hgate : pc.gating = true)
    (hleft : pc.swapping = false) (hmove : LoadMove inserted ws pc ws' pc') :
    View.Fences ⟨ws', if pc'.active then some pc' else none, run⟩ := by
  have hstate : ws.state = .loading := h.gating hgate
  have hover : run.any RunPc.iterating = true →
      ws.evictedMidIteration = true ∧ ws.rebuildCancelled = true ∧
        pc.prior = some .evicted := by
    intro hiter
    obtain hrun | ⟨hmid, hflag, hwhere⟩ := h.iterating hiter
    · rw [hstate] at hrun
      cases hrun
    · refine ⟨hmid, hflag, ?_⟩
      obtain hevicted | hfrom := hwhere
      · rw [hstate] at hevicted
        cases hevicted
      · rw [View.fromTombstone, Option.any_some, Bool.and_eq_true] at hfrom
        exact of_decide_eq_true hfrom.2
  have hnoRun : run.any RunPc.unregistering = true ∨ run.any RunPc.inSection = true → False := by
    intro hrun
    have hrun : ws.state = .rebuilding := by
      cases hrun with
      | inl hrun => exact (h.unregistering hrun).1
      | inr hrun => exact h.runPublishing hrun
    rw [hstate] at hrun
    cases hrun
  cases hmove with
  | look _ hgate' hprior _ _ hswap =>
    rw [if_pos (LoadPc.active_of_gating hgate')]
    have hnot : pc'.acquired ≠ true := by
      intro hacq
      rw [LoadPc.not_gating_of_acquired hacq] at hgate'
      cases hgate'
    refine ⟨⟨fun _ => hstate, fun hacq => absurd hacq hnot,
      fun hs => absurd (LoadPc.acquired_of_inSection hs) hnot⟩, fun hiter => Or.inr ?_,
      fun hrun => (hnoRun (Or.inl hrun)).elim, fun hrun => (hnoRun (Or.inr hrun)).elim,
      fun hpast => ?_⟩
    · obtain ⟨hmid, hflag, hfrom⟩ := hover hiter
      refine ⟨hmid, hflag, Or.inr ?_⟩
      rw [View.fromTombstone, Option.any_some, hgate', hprior, hfrom]
      rfl
    · cases hpast with
      | inl hacq => exact absurd hacq hnot
      | inr hs =>
        refine Bool.eq_false_iff.mpr fun hiter => ?_
        obtain ⟨hmid, hflag, hfrom⟩ := hover hiter
        obtain hprior | hidle | hmid' | hdown := hswap hs
        · exact hprior hfrom
        · rw [hflight] at hidle
          cases run with
          | none => cases hiter
          | some r => cases hidle
        · rw [hmid] at hmid'
          cases hmid'
        · rw [hflag] at hdown
          cases hdown
  | putBack =>
    have hback : ws.transitionState .loading .evicted = { ws with state := .evicted } :=
      if_pos hstate
    rw [hback]
    refine .ofNoLoad rfl (fun hiter => Or.inr ?_) (fun hrun => (hnoRun (Or.inl hrun)).elim)
      fun hrun => (hnoRun (Or.inr hrun)).elim
    obtain ⟨hmid, hflag, -⟩ := hover hiter
    exact ⟨hmid, hflag, Or.inl rfl⟩
  | swapClear => cases hleft
  | swapRefuse => cases hleft
  | idle hpc =>
    rw [LoadPc.active_of_gating hgate] at hpc
    cases hpc
  | work _ hpc =>
    rw [LoadPc.not_gating_of_acquired hpc] at hgate
    cases hgate
  | leave hpc =>
    rw [LoadPc.not_gating_of_acquired hpc] at hgate
    cases hgate
  | _ => cases hgate

theorem View.Fences.gate {prior : GateState} (h : View.Fences ⟨ws, none, run⟩)
    (hprior : ws.state = prior.state) :
    View.Fences ⟨{ ws with state := .loading }, some (.readCancelled prior), run⟩ := by
  have hnot : ws.state ≠ .rebuilding := by
    rw [hprior]
    cases prior <;> decide
  refine ⟨⟨fun _ => rfl, nofun, nofun⟩, fun hiter => ?_,
    fun hrun => absurd (h.unregistering hrun).1 hnot,
    fun hrun => absurd (h.runPublishing hrun) hnot, fun hpast => ?_⟩
  · obtain hstate | ⟨hmid, hflag, hevicted | hfrom⟩ := h.iterating hiter
    · exact absurd hstate hnot
    · refine Or.inr ⟨hmid, hflag, Or.inr ?_⟩
      have hevicted : ws.state = .evicted := hevicted
      rw [hprior] at hevicted
      cases prior with
      | evicted => rfl
      | unloaded => cases hevicted
      | failed => cases hevicted
    · cases hfrom
  · cases hpast with
    | inl hacq => cases hacq
    | inr hswap => cases hswap

end LoadMoves

section RunMoves

variable {ws ws' : LoadedWorkspace} {load : Option LoadPc} {pc pc' : RunPc}

theorem LoadFences.kept (h : LoadFences ws load) (hstate : ws'.state = ws.state)
    (hflag : ws.rebuildCancelled = true → ws'.rebuildCancelled = true)
    (hreg : ws.registered = false → ws'.registered = false) : LoadFences ws' load := by
  refine ⟨?_, fun hacq => ?_, ?_⟩
  · rw [hstate]
    exact h.gating
  · rw [hstate]
    obtain hloading | ⟨hevicted, hup | hgone⟩ := h.acquired hacq
    · exact Or.inl hloading
    · exact Or.inr ⟨hevicted, Or.inl (hflag hup)⟩
    · exact Or.inr ⟨hevicted, Or.inr (hreg hgone)⟩
  · rw [hstate]
    exact h.publishing

theorem LoadFences.idle (h : LoadFences ws load) (hloading : ws.state ≠ .loading)
    (hevicted : ws.state ≠ .evicted) : LoadFences ws' load := by
  have hnot : load.any LoadPc.acquired ≠ true := by
    intro hacq
    obtain hstate | ⟨hstate, -⟩ := h.acquired hacq
    · exact hloading hstate
    · exact hevicted hstate
  exact ⟨fun hgate => absurd (h.gating hgate) hloading, fun hacq => absurd hacq hnot,
    fun hs => absurd (h.publishing hs) hloading⟩

theorem LoadFences.transition (h : LoadFences ws load) (target : WorkspaceState) :
    LoadFences (ws.transitionState .rebuilding target) load := by
  rw [LoadedWorkspace.transitionState]
  split
  next hstate =>
    refine h.idle ?_ ?_
    · rw [hstate]
      decide
    · rw [hstate]
      decide
  · exact h

theorem LoadFences.takeCancellation (h : LoadFences ws load) :
    LoadFences ws.takeCancellation.1 load := by
  rw [LoadedWorkspace.takeCancellation]
  split
  · exact h
  next hstate =>
    refine ⟨h.gating, fun hacq => ?_, h.publishing⟩
    obtain hloading | ⟨hevicted, -⟩ := h.acquired hacq
    · exact Or.inl hloading
    · exact absurd hevicted hstate

theorem View.Fences.outside (h : LoadFences ws' load) (hpc : pc'.iterating = false) :
    View.Fences ⟨ws', load, if pc'.holds then some pc' else none⟩ := by
  refine .ofNotIterating ?_ h
  show (if pc'.holds then some pc' else none).any RunPc.iterating = false
  split
  · exact hpc
  · rfl

theorem View.Fences.rebuilding (hload : LoadFences ws load) (hloading : ws.state ≠ .loading)
    (hevicted : ws.state ≠ .evicted) (hstate : ws'.state = .rebuilding)
    (hreg : pc'.unregistering = true → ws'.registered = false) :
    View.Fences ⟨ws', load, if pc'.holds then some pc' else none⟩ := by
  have hnot : load.any LoadPc.acquired = true ∨ load.any LoadPc.swapping = true → False := by
    intro hpast
    cases hpast with
    | inl hacq =>
      obtain h | ⟨h, -⟩ := hload.acquired hacq
      · exact hloading h
      · exact hevicted h
    | inr hswap =>
      exact hloading (hload.gating (any_imp (fun _ => LoadPc.gating_of_swapping) hswap))
  refine ⟨hload.idle hloading hevicted, fun _ => Or.inl hstate, fun hrun => ⟨hstate, hreg ?_⟩,
    fun _ => hstate, fun hpast => (hnot hpast).elim⟩
  split at hrun
  · exact hrun
  · cases hrun

theorem View.Fences.stillRebuilding (hload : LoadFences ws load) (hws : ws.state = .rebuilding)
    (hstate : ws'.state = ws.state) (hreg : pc'.unregistering = true → ws'.registered = false) :
    View.Fences ⟨ws', load, if pc'.holds then some pc' else none⟩ := by
  refine .rebuilding hload ?_ ?_ (hstate.trans hws) hreg
  · rw [hws]
    decide
  · rw [hws]
    decide

theorem View.Fences.stepRunner (h : View.Fences ⟨ws, load, some pc⟩)
    (hmove : RunMove ws pc ws' pc') :
    View.Fences ⟨ws', load, if pc'.holds then some pc' else none⟩ := by
  have hload : LoadFences ws load := h.toLoadFences
  have kept : ∀ {ws' : LoadedWorkspace}, ws'.state = ws.state →
      ws'.rebuildCancelled = ws.rebuildCancelled → ws'.registered = ws.registered →
      LoadFences ws' load := by
    intro ws' hstate hflag hreg
    refine hload.kept hstate ?_ ?_
    · rw [hflag]
      exact id
    · rw [hreg]
      exact id
  cases hmove with
  | take hcancel hgo =>
    refine .outside hload.takeCancellation ?_
    cases hflag : ws.rebuildCancelled with
    | true =>
      rw [hcancel hflag]
      rfl
    | false => exact (hgo hflag).2
  | gate =>
    refine .outside (LoadFences.transition ?_ _) rfl
    exact kept rfl rfl rfl
  | drain => exact .outside (kept rfl rfl rfl) rfl
  | quit => exact .outside (kept rfl rfl rfl) rfl
  | idle _ _ _ hpc' => exact .outside hload hpc'
  | @enter it prior tries observed _ hprior _ _ hreg =>
    refine .rebuilding hload ?_ ?_ rfl fun hrun => ?_
    · rw [hprior]
      cases prior <;> decide
    · rw [hprior]
      cases prior <;> decide
    · rw [hreg] at hrun
      cases hrun
  | work lastError hpc hpc' hsection _ _ _ _ hreg =>
    have hstate := h.iterating hpc
    rw [if_pos (RunPc.holds_of_iterating hpc')]
    refine ⟨kept rfl rfl rfl, fun _ => hstate, fun hrun => ?_,
      fun hs => h.runPublishing (hsection hs), fun hpast => ?_⟩
    · obtain hrun | ⟨hflag, hgone⟩ := hreg hrun
      · exact h.unregistering hrun
      · refine ⟨?_, hgone⟩
        obtain hstate | ⟨-, hup, -⟩ := hstate
        · exact hstate
        · have hup : ws.rebuildCancelled = true := hup
          rw [hflag] at hup
          cases hup
    · have hnot : pc.iterating = false := h.apart hpast
      rw [hpc] at hnot
      cases hnot
  | leave target => exact .outside (hload.transition target) rfl
  | stop => exact .outside hload rfl
  | clear =>
    obtain ⟨hstate, hgone⟩ := h.unregistering rfl
    exact .stillRebuilding hload hstate rfl fun _ => hgone
  | recheck hflag hreg =>
    have hstate : ws.state = .rebuilding := by
      obtain hstate | ⟨-, hup, -⟩ := h.iterating rfl
      · exact hstate
      · have hup : ws.rebuildCancelled = true := hup
        rw [hflag] at hup
        cases hup
    exact .stillRebuilding hload hstate rfl nofun
  | swapPublished => exact .stillRebuilding hload (h.runPublishing rfl) rfl nofun
  | swapMemory => exact .stillRebuilding hload (h.runPublishing rfl) rfl nofun
  | settle =>
    refine .outside (LoadFences.transition ?_ _) rfl
    exact kept rfl rfl rfl

end RunMoves

section Writers

variable {ws : LoadedWorkspace} {load : Option LoadPc} {run : Option RunPc}

theorem View.Fences.role (h : View.Fences ⟨ws, load, run⟩) (lane : Option PendingRebuild)
    (flight : Bool) :
    View.Fences ⟨{ ws with rebuildLane := lane, rebuildInFlight := flight }, load, run⟩ :=
  ⟨⟨h.gating, h.acquired, h.publishing⟩, h.iterating, h.unregistering, h.runPublishing, h.apart⟩

theorem View.Fences.flagUp (h : View.Fences ⟨ws, load, run⟩) :
    View.Fences ⟨{ ws with rebuildCancelled := true }, load, run⟩ := by
  refine ⟨h.toLoadFences.kept rfl (fun _ => rfl) id, fun hiter => ?_, h.unregistering,
    h.runPublishing, h.apart⟩
  obtain hstate | ⟨hmid, -, hwhere⟩ := h.iterating hiter
  · exact Or.inl hstate
  · exact Or.inr ⟨hmid, rfl, hwhere⟩

theorem View.Fences.unregister (h : View.Fences ⟨ws, load, run⟩) :
    View.Fences ⟨{ ws with registered := false }, load, run⟩ :=
  ⟨h.toLoadFences.kept rfl id fun _ => rfl, h.iterating,
    fun hrun => ⟨(h.unregistering hrun).1, rfl⟩, h.runPublishing, h.apart⟩

theorem View.notPublishing {v : View} (hw : v.writable = true) :
    v.load.any LoadPc.inSection = false ∧ v.run.any RunPc.inSection = false := by
  rw [View.writable, Bool.and_eq_true] at hw
  obtain ⟨ws, load, run⟩ := v
  refine ⟨?_, ?_⟩
  · cases load with
    | none => rfl
    | some pc => simpa using hw.1
  · cases run with
    | none => rfl
    | some pc => simpa using hw.2

theorem View.Fences.evict {v : View} (h : View.Fences v) (hw : v.writable = true)
    (hreg : v.ws.registered = true) (hgate : v.load.any LoadPc.gating = false) :
    View.Fences { v with ws := v.ws.evictToTombstone } := by
  obtain ⟨hload, hrun⟩ := View.notPublishing hw
  rw [LoadedWorkspace.evictToTombstone]
  split
  · exact h
  next hstate =>
    refine ⟨⟨fun hg => ?_, fun _ => Or.inr ⟨rfl, Or.inl rfl⟩, fun hs => ?_⟩, fun hiter => ?_,
      fun hr => ?_, fun hs => ?_, h.apart⟩
    · rw [hgate] at hg
      cases hg
    · rw [hload] at hs
      cases hs
    · refine Or.inr ⟨?_, rfl, Or.inl rfl⟩
      obtain hrebuilding | ⟨-, -, hevicted | hfrom⟩ := h.iterating hiter
      · exact decide_eq_true hrebuilding
      · exact absurd hevicted hstate
      · have hg : v.load.any LoadPc.gating = true :=
          any_imp (fun _ hpc => (Bool.and_eq_true _ _ ▸ hpc).1) hfrom
        rw [hgate] at hg
        cases hg
    · have hgone := (h.unregistering hr).2
      rw [hreg] at hgone
      cases hgone
    · rw [hrun] at hs
      cases hs

end Writers

theorem View.Fences.reset {v : View} {force : Bool} (h : View.Fences v)
    (hflight : v.ws.rebuildInFlight = v.run.isSome)
    (hload : v.ws.resettable force = true → v.load = none) :
    View.Fences { v with ws := (v.ws.reset force).1 } := by
  rw [LoadedWorkspace.reset]
  split
  · exact h
  next hpinned =>
    split
    · exact h
    next hstate =>
      split
      · exact h.flagUp
      next hidle =>
        have hidle : v.ws.rebuildInFlight = false := by simpa using hidle
        have hnone : v.load = none := by
          refine hload ?_
          rw [LoadedWorkspace.resettable, hidle, decide_eq_false hstate]
          simpa [Classical.or_iff_not_imp_left] using hpinned
        have hrun : v.run = none := by
          rw [hidle] at hflight
          simpa using hflight.symm
        obtain ⟨ws, load, run⟩ := v
        cases hrun
        exact .ofNoLoad hnone (by simp) (by simp) (by simp)

theorem View.Fences.move {v v' : View} {a : SlotAction} (h : View.Fences v)
    (hflight : v.ws.rebuildInFlight = v.run.isSome) (hmove : ViewMove v a v')
    (hgate : a = .evict ∨ a = .unload → v.load.any LoadPc.gating = false)
    (hreset : ∀ force, a = .reset force → v.ws.resettable force = true → v.load = none) :
    View.Fences v' := by
  obtain ⟨ws, load, run⟩ := v
  cases hmove with
  | unseen => exact h
  | @gate i env prior hnone hprior =>
    cases hnone
    exact h.gate hprior
  | @load i env inserted pc pc' ws' hload hactive hmove _ =>
    cases hload
    cases hgating : pc.gating with
    | true =>
      cases hswap : pc.swapping with
      | true => exact h.loadPastGate (Or.inr hswap) hmove
      | false => exact h.loadGating hflight hgating hswap hmove
    | false =>
      rw [LoadPc.active, hgating, Bool.false_or] at hactive
      exact h.loadPastGate (Or.inl hactive) hmove
  | acquire hnone =>
    cases hnone
    exact .ofNotIterating rfl (h.toLoadFences.kept rfl id id)
  | park => exact h.role _ _
  | run hrun hmove =>
    cases hrun
    exact h.stepRunner hmove
  | cancelRebuild =>
    rw [LoadedWorkspace.cancelRebuild]
    split
    · exact h.flagUp
    · exact h
  | evict hw hreg => exact h.evict hw hreg (hgate (Or.inl rfl))
  | unload hw hreg => exact (h.evict hw hreg (hgate (Or.inr rfl))).unregister
  | reset => exact h.reset hflight (hreset _ rfl)

namespace Slot

/-- The steps that keep the fences: a gate is won while no other load is under way, an
eviction falls outside every gate, and a reset completes while no load is under way. -/
def orderly (s : Slot) : SlotAction → Bool
  | .stepLoad i _ => !s.gateWon i || s.activeLoad.isNone
  | .evict => s.loads.all fun l => !l.pc.gating
  | .unload => s.loads.all fun l => !l.pc.gating
  | .reset force => !s.ws.resettable force || s.activeLoad.isNone
  | _ => true

theorem gateAlone_of_orderly {s : Slot} {a : SlotAction} (h : s.orderly a = true) :
    s.gateAlone a = true := by
  cases a <;> first | rfl | exact h

theorem noGate_of_orderly {s : Slot} (h : (s.loads.all fun l => !l.pc.gating) = true) :
    s.view.load.any LoadPc.gating = false := by
  refine Bool.eq_false_iff.mpr fun hg => ?_
  cases hload : s.activeLoad with
  | none =>
    rw [view, hload] at hg
    cases hg
  | some pc =>
    rw [view, hload] at hg
    obtain ⟨-, l, hl, rfl⟩ := mem_of_activeLoad hload
    have hnot := List.all_eq_true.mp h l hl
    rw [show l.pc.gating = true from hg] at hnot
    cases hnot

structure Guarded (s : Slot) : Prop where
  role : s.RoleHeld
  one : s.OneLoad
  fences : View.Fences s.view

theorem guarded_init (sourceRoot : PathBuf) (pinned : Bool) : (init sourceRoot pinned).Guarded :=
  ⟨roleHeld_init sourceRoot pinned, oneLoad_init sourceRoot pinned,
    .ofNoLoad rfl nofun nofun nofun⟩

theorem Guarded.viewMove {d : Dispatcher} {s s' : Slot} {a : SlotAction} (h : s.Guarded)
    (horderly : s.orderly a = true) (hstep : s.step d a = some s') : ViewMove s.view a s'.view :=
  (view_step h.role h.one (gateAlone_of_orderly horderly) hstep).2

theorem guarded_step {d : Dispatcher} {s s' : Slot} {a : SlotAction} (h : s.Guarded)
    (horderly : s.orderly a = true) (hstep : s.step d a = some s') : s'.Guarded := by
  obtain ⟨hone, hmove⟩ := view_step h.role h.one (gateAlone_of_orderly horderly) hstep
  refine ⟨roleHeld_step h.role hstep, hone, h.fences.move h.role.flag hmove ?_ ?_⟩
  · intro ha
    cases ha with
    | inl ha =>
      cases ha
      exact noGate_of_orderly horderly
    | inr ha =>
      cases ha
      exact noGate_of_orderly horderly
  · intro force ha hreset
    cases ha
    have hreset : s.ws.resettable force = true := hreset
    rw [orderly, hreset, Bool.not_true, Bool.false_or, Option.isNone_iff_eq_none] at horderly
    exact horderly

end Slot

end Sqry.Daemon
