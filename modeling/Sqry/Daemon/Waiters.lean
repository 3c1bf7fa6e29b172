import Sqry.Daemon.View

/-!
Who waits for a rebuild, and what they are told. A request that is accepted is parked,
merged into the entry that runs, or answered; and the entry that contains its waiter asks
for its options and for at least its changes.
-/

namespace Sqry.Daemon

def waitersOf (entries : List PendingRebuild) : List Nat := entries.flatMap PendingRebuild.waiters

def RunPc.iteration : RunPc → Option Iteration
  | .enter it .. | .checkRoster it | .leaveUnloaded it | .resolve it _ | .reserve it ..
  | .admission it .. | .execute it .. | .recheck it .. | .publish it .. | .oversized it ..
  | .recordLocked it _ | .toFailedLocked it _ | .refund it .. | .refused it ..
  | .cancelled it _ | .record it _ | .toFailed it _ | .clearCancelled it
  | .leaveUnregistered it | .deliver it _ => some it
  | _ => none

def RunPc.current : RunPc → Option PendingRebuild
  | .top current | .cancelGate current => current
  | .start entry => some entry
  | pc => pc.iteration.map Iteration.entry

namespace Slot

def outstanding (s : Slot) : List PendingRebuild :=
  s.ws.rebuildLane.toList ++ (s.holder.bind RunPc.current).toList

end Slot

section Deliver

theorem deliver_fresh {answers : List Answer} {waiters : List Nat} {result : RebuildResult}
    (hnodup : waiters.Nodup) (hfresh : ∀ w ∈ waiters, w ∉ answers.map Answer.waiter) :
    deliver answers waiters result = answers ++ waiters.map (⟨·, result⟩) := by
  induction waiters generalizing answers with
  | nil => simp [deliver]
  | cons w waiters ih =>
    have hnew : answers.any (·.waiter == w) = false := by
      refine List.any_eq_false.mpr fun a ha hw => ?_
      refine hfresh w List.mem_cons_self (List.mem_map.mpr ⟨a, ha, ?_⟩)
      simpa using hw
    have hrest : deliver (answers ++ [⟨w, result⟩]) waiters result =
        answers ++ [⟨w, result⟩] ++ waiters.map (⟨·, result⟩) := by
      refine ih (List.nodup_cons.mp hnodup).2 fun v hv => ?_
      rw [List.map_append, List.mem_append, not_or]
      refine ⟨hfresh v (List.mem_cons_of_mem w hv), fun heq => ?_⟩
      rw [List.map_singleton, List.mem_singleton] at heq
      rw [heq] at hv
      exact (List.nodup_cons.mp hnodup).1 hv
    rw [deliver, List.foldl_cons, hnew]
    rw [deliver] at hrest
    simpa using hrest

end Deliver

theorem transitionState_lane (ws : LoadedWorkspace) (source target : WorkspaceState) :
    (ws.transitionState source target).rebuildLane = ws.rebuildLane := by
  rw [LoadedWorkspace.transitionState]
  split <;> rfl

/-- A step of the drain loop: it goes on with what it has, drops it at the gate, or answers
its iteration. -/
inductive EntryMove (d : Dispatcher) (ws : LoadedWorkspace) : RunPc → RunStep → Prop
  | goesOn {pc : RunPc} {next : RunStep} (hsent : next.sent = [])
      (hentries : next.ws.rebuildLane.toList ++ next.pc.current.toList =
        ws.rebuildLane.toList ++ pc.current.toList)
      (hdeliver : ∀ it result, pc ≠ .deliver it result)
      (hiteration : ∀ it, next.pc.iteration = some it → pc.iteration = some it ∨
        it.mode = decideMode d.config it.entry.changes (d.view it.priorGraph))
      (hreport : ∀ it report, next.pc = .deliver it (.ok report) → report.mode = it.mode) :
      EntryMove d ws pc next
  | drops {current : Option PendingRebuild} {next : RunStep}
      (hsent : next.sent = (current.toList ++ ws.rebuildLane.toList).map
        fun e => (e.waiters, evictedResult))
      (hlane : next.ws.rebuildLane = none) (hpc : next.pc.current = none)
      (hiteration : next.pc.iteration = none) :
      EntryMove d ws (.cancelGate current) next
  | answers {it : Iteration} {result : RebuildResult} {next : RunStep}
      (hsent : next.sent = [(it.entry.waiters, result)])
      (hlane : next.ws.rebuildLane = ws.rebuildLane) (hpc : next.pc = .next) :
      EntryMove d ws (.deliver it result) next

variable {pc : RunPc} {ws : LoadedWorkspace} {d : Dispatcher} {next : RunStep}

theorem EntryMove.ofSame (hsent : next.sent = []) (hlane : next.ws.rebuildLane = ws.rebuildLane)
    (hiteration : next.pc.iteration = pc.iteration) (hcurrent : next.pc.current = pc.current)
    (hdeliver : ∀ it result, pc ≠ .deliver it result)
    (hreport : ∀ it report, next.pc = .deliver it (.ok report) → report.mode = it.mode) :
    EntryMove d ws pc next := by
  refine .goesOn hsent ?_ hdeliver (fun it hit => Or.inl ?_) hreport
  · rw [hlane, hcurrent]
  · rw [← hiteration]
    exact hit

theorem current_of_iteration {it : Iteration} (h : pc.iteration = some it) :
    pc.current = some it.entry := by
  cases pc <;> first | exact congrArg (Option.map Iteration.entry) h | cases h

def RunPc.succeeds : RunPc → Bool
  | .deliver _ (.ok _) => true
  | _ => false

theorem report_of_fails (h : pc.succeeds = false) (it : Iteration) (report : RebuildReport)
    (hpc : pc = .deliver it (.ok report)) : report.mode = it.mode := by
  rw [hpc] at h
  cases h

theorem EntryMove.within {it : Iteration} (hpc : pc.iteration = some it)
    (hiter : pc.iterating = true) (hsent : next.sent = [])
    (hlane : next.ws.rebuildLane = ws.rebuildLane) (hpc' : next.pc.iteration = some it)
    (hfails : next.pc.succeeds = false) : EntryMove d ws pc next := by
  refine .ofSame hsent hlane (hpc'.trans hpc.symm) ?_ (fun it' result heq => ?_)
    (report_of_fails hfails)
  · rw [current_of_iteration hpc', current_of_iteration hpc]
  · rw [heq] at hiter
    cases hiter

theorem LoadedWorkspace.takeCancellation_lane (ws : LoadedWorkspace) :
    ws.takeCancellation.1.rebuildLane = ws.rebuildLane := by
  rw [takeCancellation]
  split <;> rfl

theorem entry_moves {env : Env} {last : RebuildResult}
    (h : Runner.step d ws env last pc = some next) :
    EntryMove d ws pc next := by
  cases pc with
  | top current =>
    cases h
    have hlane := ws.takeCancellation_lane
    split
    · exact .ofSame rfl hlane rfl rfl (fun _ _ h => by cases h) fun _ _ h => by cases h
    · cases current with
      | none => exact .ofSame rfl hlane rfl rfl (fun _ _ h => by cases h) fun _ _ h => by cases h
      | some entry =>
        exact .ofSame rfl hlane rfl rfl (fun _ _ h => by cases h) fun _ _ h => by cases h
  | cancelGate current =>
    cases h
    exact .drops rfl (transitionState_lane _ _ _) rfl rfl
  | release =>
    simp only [Runner.step] at h
    split at h
    next entry hlane =>
      cases h
      refine .goesOn rfl ?_ (fun _ _ h => by cases h) (fun _ h => by cases h) fun _ _ h => by cases h
      rw [hlane]
      rfl
    next hlane =>
      split at h
      · cases h
        exact .ofSame rfl rfl rfl rfl (fun _ _ h => by cases h) fun _ _ h => by cases h
      · cases h
        exact .ofSame rfl rfl rfl rfl (fun _ _ h => by cases h) fun _ _ h => by cases h
  | start entry =>
    cases h
    refine .goesOn rfl rfl (fun _ _ h => by cases h) (fun it hit => ?_) fun _ _ h => by cases h
    cases hit
    exact Or.inr rfl
  | next =>
    cases h
    refine .goesOn rfl ?_ (fun _ _ h => by cases h) (fun _ h => by cases h) fun _ _ h => by cases h
    simp [RunPc.current, RunPc.iteration]
  | deliver it result =>
    cases h
    exact .answers rfl rfl rfl
  | done result => cases h
  | enter it tries observed =>
    cases tries with
    | nil =>
      cases h
      exact .ofSame rfl rfl rfl rfl (fun _ _ h => by cases h) (report_of_fails rfl)
    | cons prior tries =>
      simp only [Runner.step] at h
      split at h
      · cases h
        split
        · exact .ofSame rfl rfl rfl rfl (fun _ _ h => by cases h) (report_of_fails rfl)
        · exact .ofSame rfl rfl rfl rfl (fun _ _ h => by cases h) (report_of_fails rfl)
      · cases h
        exact .ofSame rfl rfl rfl rfl (fun _ _ h => by cases h) (report_of_fails rfl)
  | checkRoster it =>
    cases h
    split
    · exact .within rfl rfl rfl rfl rfl rfl
    · exact .within rfl rfl rfl rfl rfl rfl
  | leaveUnloaded it =>
    cases h
    exact .within rfl rfl rfl (transitionState_lane _ _ _) rfl rfl
  | resolve it entered =>
    simp only [Runner.step] at h
    split at h
    · cases h
      exact .within rfl rfl rfl rfl rfl rfl
    · cases h
      exact .within rfl rfl rfl rfl rfl rfl
    · cases h
  | reserve it entered bytes =>
    simp only [Runner.step] at h
    split at h
    · cases h
      exact .within rfl rfl rfl rfl rfl rfl
    · cases h
      exact .within rfl rfl rfl rfl rfl rfl
  | admission it entered bytes =>
    simp only [Runner.step] at h
    split at h
    · cases h
      exact .within rfl rfl rfl rfl rfl rfl
    · cases h
      exact .within rfl rfl rfl rfl rfl rfl
  | execute it entered bytes cancelSeen =>
    simp only [Runner.step] at h
    split at h
    · cases h
      exact .within rfl rfl rfl rfl rfl rfl
    · cases h
      exact .within rfl rfl rfl rfl rfl rfl
    · cases h
      exact .within rfl rfl rfl rfl rfl rfl
    · split at h
      · cases h
        exact .within rfl rfl rfl rfl rfl rfl
      · split at h
        · cases h
          exact .within rfl rfl rfl rfl rfl rfl
        · cases h
    · cases h
  | recheck it bytes built =>
    simp only [Runner.step] at h
    split at h
    · cases h
      exact .within rfl rfl rfl rfl rfl rfl
    · split at h
      · cases h
        exact .within rfl rfl rfl rfl rfl rfl
      · cases h
        exact .within rfl rfl rfl rfl rfl rfl
  | publish it bytes built stage =>
    cases stage with
    | measure =>
      simp only [Runner.step] at h
      split at h
      · cases h
        exact .within rfl rfl rfl rfl rfl rfl
      · cases h
        exact .within rfl rfl rfl rfl rfl rfl
    | swapPublished =>
      cases h
      exact .within rfl rfl rfl rfl rfl rfl
    | swapMemory old =>
      cases h
      exact .within rfl rfl rfl rfl rfl rfl
    | commit old prevBytes =>
      cases h
      exact .within rfl rfl rfl rfl rfl rfl
    | settle =>
      simp only [Runner.step] at h
      split at h
      · cases h
        refine .ofSame rfl (transitionState_lane _ _ _) rfl rfl (fun _ _ h => by cases h)
          fun it' report heq => ?_
        cases heq
        rfl
      · cases h
  | refund it bytes exit =>
    cases h
    cases exit <;> exact .within rfl rfl rfl rfl rfl rfl
  | oversized it bytes err =>
    cases h
    exact .within rfl rfl rfl rfl rfl rfl
  | recordLocked it err =>
    cases h
    exact .within rfl rfl rfl rfl rfl rfl
  | toFailedLocked it err =>
    cases h
    exact .within rfl rfl rfl (transitionState_lane _ _ _) rfl rfl
  | refused it entered err =>
    cases h
    exact .within rfl rfl rfl (transitionState_lane _ _ _) rfl rfl
  | cancelled it err =>
    cases h
    exact .within rfl rfl rfl (transitionState_lane _ _ _) rfl rfl
  | record it err =>
    cases h
    exact .within rfl rfl rfl rfl rfl rfl
  | toFailed it err =>
    cases h
    exact .within rfl rfl rfl (transitionState_lane _ _ _) rfl rfl
  | clearCancelled it =>
    cases h
    exact .within rfl rfl rfl rfl rfl rfl
  | leaveUnregistered it =>
    cases h
    exact .within rfl rfl rfl (transitionState_lane _ _ _) rfl rfl

@[simp] theorem waitersOf_nil : waitersOf [] = [] := rfl

@[simp] theorem waitersOf_cons (e : PendingRebuild) (es : List PendingRebuild) :
    waitersOf (e :: es) = e.waiters ++ waitersOf es := rfl

@[simp] theorem waitersOf_append (es es' : List PendingRebuild) :
    waitersOf (es ++ es') = waitersOf es ++ waitersOf es' := List.flatMap_append

theorem mem_waitersOf {es : List PendingRebuild} {w : Nat} :
    w ∈ waitersOf es ↔ ∃ e ∈ es, w ∈ e.waiters := List.mem_flatMap

/-- The entry runs with the options a request asked for, and with at least its changes. -/
structure PendingRebuild.Serves (e p : PendingRebuild) : Prop where
  options : macroRequestsAgree e.macroRequest p.macroRequest = true
  changes : e.changes.Covers p.changes

theorem PendingRebuild.Serves.refl (p : PendingRebuild) : p.Serves p :=
  ⟨macroRequestsAgree_refl _, .refl _⟩

theorem PendingRebuild.serves_coalesceWith {prior incoming : PendingRebuild}
    (hmerges : prior.mergesWith incoming = true) :
    (∀ p, prior.waiters ≠ [] → prior.Serves p → (prior.coalesceWith incoming).Serves p) ∧
      (incoming.waiters ≠ [] → (prior.coalesceWith incoming).Serves incoming) := by
  refine ⟨fun p hwaits h => ⟨?_, ?_⟩, fun hwaits => ⟨?_, ?_⟩⟩
  · exact (agrees_coalesceWith hmerges).1 hwaits h.options
  · exact (ChangeSet.merge_covers_left _ _).trans h.changes
  · exact (agrees_coalesceWith hmerges).2 hwaits (macroRequestsAgree_refl _)
  · exact ChangeSet.merge_covers_right _ _

namespace Slot

/-- Every accepted waiter is waiting once or answered once, by the iteration that ran the
entry it was merged into; and that entry serves its request. -/
structure Accounted (d : Dispatcher) (s : Slot) : Prop where
  perm : (waitersOf s.accepted).Perm (waitersOf s.outstanding ++ s.answers.map Answer.waiter)
  nodup : (waitersOf s.accepted).Nodup
  fresh : ∀ w ∈ waitersOf s.accepted, w < s.nextWaiter
  ran : (waitersOf (s.iterations.map fun run => run.1.entry)).Sublist
    (s.answers.map Answer.waiter)
  result : ∀ a ∈ s.answers, a.result = evictedResult ∨
    ∃ run ∈ s.iterations, run.2 = a.result ∧ a.waiter ∈ run.1.entry.waiters
  serves : ∀ e ∈ s.outstanding ++ s.iterations.map fun run => run.1.entry,
    ∀ p ∈ s.accepted, ∀ w ∈ p.waiters, w ∈ e.waiters → e.Serves p
  mode : ∀ run ∈ s.iterations,
    run.1.mode = decideMode d.config run.1.entry.changes (d.view run.1.priorGraph) ∧
      ∀ report, run.2 = .ok report → report.mode = run.1.mode
  running : ∀ it, s.holder.bind RunPc.iteration = some it →
    it.mode = decideMode d.config it.entry.changes (d.view it.priorGraph)
  delivering : ∀ it report, s.holder = some (.deliver it (.ok report)) → report.mode = it.mode

theorem accounted_init (d : Dispatcher) (sourceRoot : PathBuf) (pinned : Bool) :
    (init sourceRoot pinned).Accounted d where
  perm := .refl _
  nodup := List.nodup_nil
  fresh := fun _ h => nomatch h
  ran := List.Sublist.refl _
  result := fun _ h => nomatch h
  serves := fun _ h => nomatch h
  mode := fun _ h => nomatch h
  running := fun _ h => nomatch h
  delivering := fun _ _ h => nomatch h

variable {d : Dispatcher} {s s' : Slot}

theorem Accounted.same (h : s.Accounted d) (hlane : s'.ws.rebuildLane = s.ws.rebuildLane)
    (hrunners : s'.runners = s.runners) (hnext : s.nextWaiter ≤ s'.nextWaiter)
    (haccepted : s'.accepted = s.accepted) (hanswers : s'.answers = s.answers)
    (hiterations : s'.iterations = s.iterations) : s'.Accounted d := by
  have hholder : s'.holder = s.holder := by rw [holder, holder, hrunners]
  have hout : s'.outstanding = s.outstanding := by rw [outstanding, outstanding, hlane, hholder]
  constructor
  · rw [haccepted, hout, hanswers]
    exact h.perm
  · rw [haccepted]
    exact h.nodup
  · rw [haccepted]
    exact fun w hw => Nat.lt_of_lt_of_le (h.fresh w hw) hnext
  · rw [hiterations, hanswers]
    exact h.ran
  · rw [hanswers, hiterations]
    exact h.result
  · rw [hout, hiterations, haccepted]
    exact h.serves
  · rw [hiterations]
    exact h.mode
  · rw [hholder]
    exact h.running
  · rw [hholder]
    exact h.delivering

theorem Accounted.apart (h : s.Accounted d) :
    (waitersOf s.outstanding).Nodup ∧
      ∀ w ∈ waitersOf s.outstanding, w ∉ s.answers.map Answer.waiter := by
  have hall := h.perm.nodup_iff.mp h.nodup
  obtain ⟨hout, -, hdisjoint⟩ := List.nodup_append.mp hall
  exact ⟨hout, fun w hw ha => hdisjoint w hw w ha rfl⟩

theorem deliver_all {es : List PendingRebuild} {answers : List Answer} {result : RebuildResult}
    (hnodup : (waitersOf es).Nodup)
    (hfresh : ∀ w ∈ waitersOf es, w ∉ answers.map Answer.waiter) :
    (es.map fun e => (e.waiters, result)).foldl
        (fun answers sent => deliver answers sent.1 sent.2) answers =
      answers ++ (waitersOf es).map (⟨·, result⟩) := by
  induction es generalizing answers with
  | nil => simp
  | cons e es ih =>
    rw [waitersOf_cons, List.nodup_append] at hnodup
    obtain ⟨he, hes, hdisjoint⟩ := hnodup
    rw [List.map_cons, List.foldl_cons, deliver_fresh he fun w hw =>
      hfresh w (List.mem_append_left _ hw), ih hes fun w hw hmem => ?_]
    · simp
    · rw [List.map_append, List.mem_append, List.map_map] at hmem
      cases hmem with
      | inl hmem => exact hfresh w (List.mem_append_right _ hw) hmem
      | inr hmem =>
        obtain ⟨v, hv, rfl⟩ := List.mem_map.mp hmem
        exact hdisjoint v hv v hw rfl

theorem incoming_waiters (w : Nat) (request : Request) :
    (request.incoming w).waiters = [] ∨ (request.incoming w).waiters = [w] := by
  cases request with
  | watcher => exact Or.inl rfl
  | explicit => exact Or.inr rfl

theorem Accounted.known (h : s.Accounted d) {e : PendingRebuild} {w : Nat}
    (he : e ∈ s.outstanding ++ s.iterations.map fun run => run.1.entry) (hw : w ∈ e.waiters) :
    w ∈ waitersOf s.accepted := by
  refine h.perm.mem_iff.mpr ?_
  rw [List.mem_append] at he ⊢
  cases he with
  | inl he => exact Or.inl (mem_waitersOf.mpr ⟨e, he, hw⟩)
  | inr he => exact Or.inr (h.ran.mem (mem_waitersOf.mpr ⟨e, he, hw⟩))

section Accept

variable {incoming entry : PendingRebuild} {request : Request}

theorem Accounted.accept_perm (h : s.Accounted d) (hjoins : s.ws.Joins incoming entry) :
    (waitersOf (s.accepted ++ [incoming])).Perm
      (waitersOf (entry :: (s.holder.bind RunPc.current).toList) ++
        s.answers.map Answer.waiter) := by
  have hentry : (waitersOf (entry :: (s.holder.bind RunPc.current).toList)).Perm
      (incoming.waiters ++ waitersOf s.outstanding) := by
    obtain ⟨hlane, rfl⟩ | ⟨prior, hlane, -, rfl⟩ := hjoins
    · rw [outstanding, hlane]
      exact .refl _
    · rw [outstanding, hlane, waitersOf_cons, Option.toList_some, List.singleton_append,
        waitersOf_cons, ← List.append_assoc]
      exact .append_right _ List.perm_append_comm
  calc
    (waitersOf (s.accepted ++ [incoming])).Perm (incoming.waiters ++ waitersOf s.accepted) := by
      rw [waitersOf_append, waitersOf_cons, waitersOf_nil, List.append_nil]
      exact List.perm_append_comm
    List.Perm _ (incoming.waiters ++ (waitersOf s.outstanding ++ s.answers.map Answer.waiter)) :=
      h.perm.append_left _
    List.Perm _ (waitersOf (entry :: (s.holder.bind RunPc.current).toList) ++
        s.answers.map Answer.waiter) := by
      rw [← List.append_assoc]
      exact hentry.symm.append_right _

theorem Accounted.accept_serves (h : s.Accounted d) (hjoins : s.ws.Joins incoming entry)
    (hincoming : ∀ w ∈ incoming.waiters, w = s.nextWaiter) :
    ∀ e ∈ entry :: (s.holder.bind RunPc.current).toList ++
        s.iterations.map fun run => run.1.entry,
      ∀ p ∈ s.accepted ++ [incoming], ∀ w ∈ p.waiters, w ∈ e.waiters → e.Serves p := by
  have old : ∀ p ∈ s.accepted, ∀ w ∈ p.waiters, w ∉ incoming.waiters := by
    intro p hp w hw hnew
    have hlt := h.fresh w (mem_waitersOf.mpr ⟨p, hp, hw⟩)
    rw [hincoming w hnew] at hlt
    exact absurd hlt (Nat.lt_irrefl _)
  intro e he p hp w hw hwe
  rw [List.cons_append, List.mem_cons] at he
  rw [List.mem_append, List.mem_singleton] at hp
  obtain rfl | he := he
  · obtain ⟨-, rfl⟩ | ⟨prior, hlane, hmerges, rfl⟩ := hjoins
    · obtain hp | rfl := hp
      · exact absurd hwe (old p hp w hw)
      · exact .refl p
    · obtain hp | rfl := hp
      · have hwe : w ∈ prior.waiters ++ incoming.waiters := hwe
        obtain hwe | hnew := List.mem_append.mp hwe
        · refine (PendingRebuild.serves_coalesceWith hmerges).1 p (List.ne_nil_of_mem hwe) ?_
          refine h.serves prior (List.mem_append_left _ ?_) p hp w hw hwe
          rw [outstanding, hlane]
          exact List.mem_cons_self
        · exact absurd hnew (old p hp w hw)
      · exact (PendingRebuild.serves_coalesceWith hmerges).2 (List.ne_nil_of_mem hw)
  · have he : e ∈ s.outstanding ++ s.iterations.map fun run => run.1.entry := by
      rw [outstanding, List.append_assoc]
      exact List.mem_append_right _ he
    obtain hp | rfl := hp
    · exact h.serves e he p hp w hw hwe
    · have hlt := h.fresh w (h.known he hwe)
      rw [hincoming w hw] at hlt
      exact absurd hlt (Nat.lt_irrefl _)

theorem Accounted.accept (h : s.Accounted d) (hincoming : incoming = request.incoming s.nextWaiter)
    (hjoins : s.ws.Joins incoming entry)
    (hiteration : s'.holder.bind RunPc.iteration = s.holder.bind RunPc.iteration)
    (hdelivering : ∀ it report, s'.holder = some (.deliver it (.ok report)) →
      s.holder = some (.deliver it (.ok report)))
    (hout : s'.outstanding = entry :: (s.holder.bind RunPc.current).toList)
    (hnext : s'.nextWaiter = s.nextWaiter + incoming.waiters.length)
    (haccepted : s'.accepted = s.accepted ++ [incoming]) (hanswers : s'.answers = s.answers)
    (hiterations : s'.iterations = s.iterations) : s'.Accounted d := by
  have hwaiter : incoming.waiters = [] ∨ incoming.waiters = [s.nextWaiter] := by
    rw [hincoming]
    exact incoming_waiters _ request
  have hfresh : ∀ w ∈ incoming.waiters, w = s.nextWaiter := by
    intro w hw
    obtain hnone | hone := hwaiter
    · rw [hnone] at hw
      cases hw
    · rw [hone] at hw
      exact List.mem_singleton.mp hw
  constructor
  · rw [haccepted, hout, hanswers]
    exact h.accept_perm hjoins
  · rw [haccepted, waitersOf_append, waitersOf_cons, waitersOf_nil, List.append_nil,
      List.nodup_append]
    refine ⟨h.nodup, ?_, fun v hv w hw heq => ?_⟩
    · obtain hnone | hone := hwaiter
      · rw [hnone]
        exact List.nodup_nil
      · rw [hone]
        exact List.nodup_singleton _
    · have hlt := h.fresh v hv
      rw [heq, hfresh w hw] at hlt
      exact Nat.lt_irrefl _ hlt
  · rw [haccepted, hnext]
    intro w hw
    rw [waitersOf_append, waitersOf_cons, waitersOf_nil, List.append_nil, List.mem_append] at hw
    obtain hw | hw := hw
    · exact Nat.lt_add_right _ (h.fresh w hw)
    · rw [hfresh w hw]
      exact Nat.lt_add_of_pos_right (List.length_pos_of_mem hw)
  · rw [hiterations, hanswers]
    exact h.ran
  · rw [hanswers, hiterations]
    exact h.result
  · rw [hout, hiterations, haccepted]
    exact h.accept_serves hjoins hfresh
  · rw [hiterations]
    exact h.mode
  · rw [hiteration]
    exact h.running
  · exact fun it report hpc => h.delivering it report (hdelivering it report hpc)

theorem Accounted.takeRole (h : s.Accounted d) (hrole : s.RoleHeld)
    (hincoming : incoming = request.incoming s.nextWaiter) (hjoins : s.ws.Joins incoming entry)
    (hflight : s.ws.rebuildInFlight = false) (hlane : s'.ws.rebuildLane = none)
    (hrunners : s'.runners = s.runners ++ [⟨.top (some entry), drainNotRun⟩])
    (hnext : s'.nextWaiter = s.nextWaiter + incoming.waiters.length)
    (haccepted : s'.accepted = s.accepted ++ [incoming]) (hanswers : s'.answers = s.answers)
    (hiterations : s'.iterations = s.iterations) : s'.Accounted d := by
  have hnone : s.holder = none := by
    rw [hrole.flag, Option.isSome_eq_false_iff, Option.isNone_iff_eq_none] at hflight
    exact hflight
  have hholder : s'.holder = some (.top (some entry)) := by
    rw [holder, hrunners, Sole.sole_append_of_none (Option.map_eq_none_iff.mp hnone) rfl]
    rfl
  refine h.accept hincoming hjoins ?_ (fun it report hpc => ?_) ?_ hnext haccepted hanswers
    hiterations
  · rw [hholder, hnone]
    rfl
  · rw [hholder] at hpc
    cases hpc
  · rw [outstanding, hlane, hholder, hnone]
    rfl

theorem Accounted.enqueue (h : s.Accounted d) (hrole : s.RoleHeld) (request : Request) :
    (s.enqueue request).Accounted d := by
  rw [Slot.enqueue]
  dsimp only
  obtain ⟨entry, hjoins, hflight, heq⟩ | ⟨entry, hjoins, -, heq⟩ | ⟨err, heq⟩ :=
    s.ws.acquireOrPark_cases (request.incoming s.nextWaiter) request.stopped
  · rw [heq]
    exact h.takeRole hrole rfl hjoins hflight rfl rfl rfl rfl rfl rfl
  · rw [heq]
    exact h.accept rfl hjoins rfl (fun _ _ hpc => hpc) rfl rfl rfl rfl rfl
  · rw [heq]
    exact h.same rfl rfl (Nat.le_add_right _ _) rfl rfl rfl

end Accept

theorem held_bind {β : Type} {f : RunPc → Option β} {pc : RunPc}
    (h : ∀ result, f (.done result) = none) :
    (if pc.holds then some pc else none).bind f = f pc := by
  split
  · rfl
  next hnot =>
    cases pc <;> first | exact (h _).symm | exact absurd rfl hnot

/-- The drain loop goes on, drops what it has, or answers; nobody is lost or told twice. -/
theorem Accounted.stepRunner {r : Runner} {next : RunStep} (h : s.Accounted d)
    (hnow : s.holder = some r.pc) (hmove : EntryMove d s.ws r.pc next)
    (hws : s'.ws = next.ws) (hholder : s'.holder = if next.pc.holds then some next.pc else none)
    (hnext : s'.nextWaiter = s.nextWaiter) (haccepted : s'.accepted = s.accepted)
    (hanswers : s'.answers =
      next.sent.foldl (fun answers sent => deliver answers sent.1 sent.2) s.answers)
    (hiterations : s'.iterations = ended s.iterations r.pc) : s'.Accounted d := by
  obtain ⟨pc, last⟩ := r
  have hbefore : s.outstanding = s.ws.rebuildLane.toList ++ pc.current.toList := by
    rw [outstanding, hnow]
    rfl
  have hafter : s'.outstanding = next.ws.rebuildLane.toList ++ next.pc.current.toList := by
    rw [outstanding, hws, hholder, held_bind fun _ => rfl]
  have hiteration : s'.holder.bind RunPc.iteration = next.pc.iteration := by
    rw [hholder, held_bind fun _ => rfl]
  have hdelivering : ∀ {it result}, s'.holder = some (.deliver it result) →
      next.pc = .deliver it result := by
    intro it result hpc
    rw [hholder] at hpc
    split at hpc
    · exact Option.some.inj hpc
    · cases hpc
  obtain ⟨hout, hunanswered⟩ := h.apart
  cases hmove with
  | goesOn hsent hentries hdeliver hnextIteration hreport =>
    rw [hsent] at hanswers
    have hanswers : s'.answers = s.answers := hanswers
    have hiterations : s'.iterations = s.iterations := by
      rw [hiterations]
      cases pc <;> first | rfl | exact absurd rfl (hdeliver _ _)
    have hsame : s'.outstanding = s.outstanding := by rw [hafter, hbefore, hentries]
    constructor
    · rw [haccepted, hsame, hanswers]
      exact h.perm
    · rw [haccepted]
      exact h.nodup
    · rw [haccepted, hnext]
      exact h.fresh
    · rw [hiterations, hanswers]
      exact h.ran
    · rw [hanswers, hiterations]
      exact h.result
    · rw [hsame, hiterations, haccepted]
      exact h.serves
    · rw [hiterations]
      exact h.mode
    · rw [hiteration]
      intro it hit
      obtain hit | hmode := hnextIteration it hit
      · refine h.running it ?_
        rw [hnow]
        exact hit
      · exact hmode
    · exact fun it report hpc => hreport it report (hdelivering hpc)
  | @drops current _ hsent hlane hpc hnoIteration =>
    have hperm : (waitersOf (current.toList ++ s.ws.rebuildLane.toList)).Perm
        (waitersOf s.outstanding) := by
      rw [hbefore, waitersOf_append, waitersOf_append]
      exact List.perm_append_comm
    rw [hsent, deliver_all (hperm.nodup_iff.mpr hout) fun w hw =>
      hunanswered w (hperm.mem_iff.mp hw)] at hanswers
    have hnone : s'.outstanding = [] := by
      rw [hafter, hlane, hpc]
      rfl
    have hiterations : s'.iterations = s.iterations := hiterations
    have htold : s'.answers.map Answer.waiter = s.answers.map Answer.waiter ++
        waitersOf (current.toList ++ s.ws.rebuildLane.toList) := by
      rw [hanswers, List.map_append, List.map_map]
      exact congrArg _ (List.map_id _)
    constructor
    · rw [haccepted, hnone, htold]
      refine h.perm.trans (List.perm_append_comm.trans ?_)
      exact hperm.symm.append_left _
    · rw [haccepted]
      exact h.nodup
    · rw [haccepted, hnext]
      exact h.fresh
    · rw [hiterations, htold]
      exact h.ran.trans (List.sublist_append_left _ _)
    · rw [hanswers, hiterations]
      intro a ha
      obtain ha | ha := List.mem_append.mp ha
      · exact h.result a ha
      · obtain ⟨w, -, rfl⟩ := List.mem_map.mp ha
        exact Or.inl rfl
    · rw [hnone, hiterations, haccepted]
      exact fun e he => h.serves e (List.mem_append_right _ he)
    · rw [hiterations]
      exact h.mode
    · rw [hiteration, hnoIteration]
      exact fun _ hit => nomatch hit
    · intro it report hdeliver
      rw [hdelivering hdeliver] at hnoIteration
      cases hnoIteration
  | @answers it result _ hsent hlane hpc =>
    have hentries : s.outstanding = s.ws.rebuildLane.toList ++ [it.entry] := hbefore
    have hperm : (waitersOf s.outstanding).Perm
        (waitersOf s.ws.rebuildLane.toList ++ it.entry.waiters) := by
      rw [hentries, waitersOf_append, waitersOf_cons, waitersOf_nil, List.append_nil]
    have hrunning : it.mode = decideMode d.config it.entry.changes (d.view it.priorGraph) := by
      refine h.running it ?_
      rw [hnow]
      rfl
    have hmine : ∀ w ∈ it.entry.waiters, w ∈ waitersOf s.outstanding := fun w hw =>
      hperm.mem_iff.mpr (List.mem_append_right _ hw)
    have hanswers : s'.answers = s.answers ++ it.entry.waiters.map (⟨·, result⟩) := by
      rw [hanswers, hsent]
      refine deliver_fresh ?_ fun w hw => hunanswered w (hmine w hw)
      exact (List.nodup_append.mp (hperm.nodup_iff.mp hout)).2.1
    have hparked : s'.outstanding = s.ws.rebuildLane.toList := by
      rw [hafter, hlane, hpc]
      exact List.append_nil _
    have hiterations : s'.iterations = s.iterations ++ [(it, result)] := hiterations
    have htold : s'.answers.map Answer.waiter =
        s.answers.map Answer.waiter ++ it.entry.waiters := by
      rw [hanswers, List.map_append, List.map_map]
      exact congrArg _ (List.map_id _)
    have hran : (s'.iterations.map fun run => run.1.entry) =
        (s.iterations.map fun run => run.1.entry) ++ [it.entry] := by
      rw [hiterations, List.map_append]
      rfl
    constructor
    · rw [haccepted, hparked, htold]
      refine h.perm.trans ((hperm.append_right _).trans ?_)
      rw [List.append_assoc]
      exact List.perm_append_comm.append_left _
    · rw [haccepted]
      exact h.nodup
    · rw [haccepted, hnext]
      exact h.fresh
    · rw [hran, htold, waitersOf_append, waitersOf_cons, waitersOf_nil, List.append_nil]
      exact h.ran.append (.refl _)
    · rw [hanswers, hiterations]
      intro a ha
      obtain ha | ha := List.mem_append.mp ha
      · refine (h.result a ha).imp id fun ⟨run, hrun, hresult, hw⟩ => ?_
        exact ⟨run, List.mem_append_left _ hrun, hresult, hw⟩
      · obtain ⟨w, hw, rfl⟩ := List.mem_map.mp ha
        exact Or.inr ⟨(it, result), List.mem_append_right _ List.mem_cons_self, rfl, hw⟩
    · rw [hparked, hran, haccepted]
      intro e he
      refine h.serves e ?_
      rw [hentries, List.mem_append, List.mem_append]
      obtain he | he := List.mem_append.mp he
      · exact Or.inl (Or.inl he)
      · obtain he | he := List.mem_append.mp he
        · exact Or.inr he
        · exact Or.inl (Or.inr he)
    · rw [hiterations]
      intro run hmem
      obtain hmem | hmem := List.mem_append.mp hmem
      · exact h.mode run hmem
      · obtain rfl := List.mem_singleton.mp hmem
        refine ⟨hrunning, fun report hok => h.delivering it report ?_⟩
        rw [hnow]
        cases hok
        rfl
    · rw [hiteration, hpc]
      exact fun _ hit => nomatch hit
    · intro it' report hdeliver
      have hdeliver := hdelivering hdeliver
      rw [hpc] at hdeliver
      cases hdeliver

theorem accounted_step {a : SlotAction} (hrole : s.RoleHeld) (h : s.Accounted d)
    (hstep : s.step d a = some s') : s'.Accounted d := by
  cases a with
  | load call =>
    simp only [step] at hstep
    split at hstep
    · cases hstep
    · cases hstep
      exact h.same rfl rfl (Nat.le_refl _) rfl rfl rfl
  | stepLoad i env =>
    obtain ⟨l, -, hl⟩ := Option.bind_eq_some_iff.mp hstep
    obtain ⟨ws, pc, hmove, -, rfl⟩ := stepLoad_some hl
    exact h.same hmove.role.2 rfl (Nat.le_refl _) rfl rfl rfl
  | enqueue request =>
    cases hstep
    exact h.enqueue hrole request
  | stepRunner i env =>
    obtain ⟨r, hi, hr⟩ := Option.bind_eq_some_iff.mp hstep
    rw [Slot.stepRunner] at hr
    obtain ⟨next, hnext, heq⟩ := Option.map_eq_some_iff.mp hr
    have hws : s'.ws = next.ws := by rw [← heq]
    have hrunners : s'.runners = s.runners.set i ⟨next.pc, next.lastResult⟩ := by rw [← heq]
    obtain ⟨-, hnow, hthen⟩ := hrole.stepRunner hi (run_moves hnext) hws hrunners
    refine h.stepRunner hnow (entry_moves hnext) hws hthen ?_ ?_ ?_ ?_ <;> rw [← heq]
  | cancelRebuild =>
    cases hstep
    exact h.same s.ws.cancelRebuild_role.2 rfl (Nat.le_refl _) rfl rfl rfl
  | evict =>
    simp only [step] at hstep
    split at hstep
    · cases hstep
      exact h.same s.ws.evictToTombstone_role.2 rfl (Nat.le_refl _) rfl rfl rfl
    · cases hstep
  | unload =>
    simp only [step] at hstep
    split at hstep
    · cases hstep
      exact h.same s.ws.evictToTombstone_role.2 rfl (Nat.le_refl _) rfl rfl rfl
    · cases hstep
  | reset force =>
    simp only [step] at hstep
    split at hstep
    · cases hstep
      exact h.same (s.ws.reset_role force).2 rfl (Nat.le_refl _) rfl rfl rfl
    · cases hstep

end Slot

theorem Runner.step_enabled (d : Dispatcher) (ws : LoadedWorkspace) (last : RebuildResult)
    (h : pc.holds = true) : ∃ env next, Runner.step d ws env last pc = some next := by
  cases pc with
  | enter it tries observed =>
    cases tries with
    | nil => exact ⟨.proceed, _, rfl⟩
    | cons prior tries =>
      refine ⟨.proceed, ?_⟩
      simp only [Runner.step]
      split <;> exact ⟨_, rfl⟩
  | release =>
    refine ⟨.proceed, ?_⟩
    simp only [Runner.step]
    split
    · exact ⟨_, rfl⟩
    · split <;> exact ⟨_, rfl⟩
  | resolve it entered => exact ⟨.estimate 0, _, rfl⟩
  | reserve it entered bytes =>
    refine ⟨.proceed, ?_⟩
    simp only [Runner.step]
    split <;> exact ⟨_, rfl⟩
  | admission it entered bytes =>
    refine ⟨.proceed, ?_⟩
    simp only [Runner.step]
    split <;> exact ⟨_, rfl⟩
  | execute it entered bytes cancelSeen => exact ⟨.poll, _, rfl⟩
  | recheck it bytes built =>
    refine ⟨.proceed, ?_⟩
    simp only [Runner.step]
    split
    · exact ⟨_, rfl⟩
    · split <;> exact ⟨_, rfl⟩
  | publish it bytes built stage =>
    cases stage with
    | settle => exact ⟨.clock 0, _, rfl⟩
    | measure => exact ⟨.proceed, _, rfl⟩
    | swapPublished => exact ⟨.proceed, _, rfl⟩
    | swapMemory old => exact ⟨.proceed, _, rfl⟩
    | commit old prevBytes => exact ⟨.proceed, _, rfl⟩
  | done result => cases h
  | _ => exact ⟨.proceed, _, rfl⟩

structure WaitersServed (d : Dispatcher) (s : Slot) : Prop where
  once : ∀ p ∈ s.accepted, ∀ w ∈ p.waiters,
    (waitersOf s.outstanding ++ s.answers.map Answer.waiter).count w = 1
  released : s.holder = none → s.outstanding = []
  goesOn : ∀ i r, s.runners[i]? = some r → r.pc.holds = true →
    ∃ env s', s.step d (.stepRunner i env) = some s'
  report : ∀ p ∈ s.accepted, ∀ a ∈ s.answers, a.waiter ∈ p.waiters →
    ∀ report, a.result = .ok report →
    ∃ (j : Nat) (it : Iteration), s.iterations[j]? = some (it, .ok report) ∧
      a.waiter ∈ it.entry.waiters ∧
      (∀ (k : Nat) (run : Iteration × RebuildResult), s.iterations[k]? = some run →
        a.waiter ∈ run.1.entry.waiters → k = j) ∧
      report.mode = it.mode ∧ it.entry.Serves p ∧
      (decideMode d.config p.changes (d.view it.priorGraph) = .full → it.mode = .full)
  refusal : ∀ (incoming : PendingRebuild) (stopped : Bool) ws err,
    s.ws.acquireOrPark incoming stopped = (ws, .refused err) → ws = s.ws

theorem entry_unique {es : List PendingRebuild} (h : (waitersOf es).Nodup) {w j k : Nat}
    {e e' : PendingRebuild} (hj : es[j]? = some e) (hk : es[k]? = some e') (hw : w ∈ e.waiters)
    (hw' : w ∈ e'.waiters) : k = j := by
  induction es generalizing j k with
  | nil => cases hj
  | cons head es ih =>
    rw [waitersOf_cons, List.nodup_append] at h
    obtain ⟨-, hes, hdisjoint⟩ := h
    have later : ∀ {j : Nat} {e : PendingRebuild}, es[j]? = some e → w ∈ e.waiters →
        w ∈ waitersOf es := fun hj hw => mem_waitersOf.mpr ⟨_, List.mem_of_getElem? hj, hw⟩
    cases j with
    | zero =>
      cases hj
      cases k with
      | zero => rfl
      | succ k => exact absurd rfl (hdisjoint w hw w (later hk hw'))
    | succ j =>
      cases k with
      | zero =>
        cases hk
        exact absurd rfl (hdisjoint w hw' w (later hj hw))
      | succ k => exact congrArg Nat.succ (ih hes hj hk)

theorem Slot.Accounted.served {s : Slot} (hrole : s.RoleHeld) (h : s.Accounted d)
    (hmono : ∀ graph, (d.view graph).Monotone) : WaitersServed d s where
  once p hp w hw := by
    rw [← h.perm.count_eq]
    exact List.count_eq_one_of_mem h.nodup (mem_waitersOf.mpr ⟨p, hp, hw⟩)
  released hnone := by
    rw [Slot.outstanding, hrole.lane hnone, hnone]
    rfl
  goesOn i r hi hholds := by
    obtain ⟨env, next, hnext⟩ := Runner.step_enabled d s.ws r.lastResult hholds
    refine ⟨env, ?_⟩
    rw [Slot.step, hi, Option.bind_some, Slot.stepRunner, hnext]
    exact ⟨_, rfl⟩
  report p hp a ha hw report hok := by
    obtain hevicted | ⟨⟨it, result⟩, hrun, hresult, hin⟩ := h.result a ha
    · rw [hok] at hevicted
      cases hevicted
    · rw [hok] at hresult
      have hresult : result = .ok report := hresult
      cases hresult
      obtain ⟨j, hj⟩ := List.mem_iff_getElem?.mp hrun
      have hnodup : (waitersOf (s.iterations.map fun run => run.1.entry)).Nodup :=
        h.ran.nodup (List.nodup_append.mp (h.perm.nodup_iff.mp h.nodup)).2.1
      have entryAt : ∀ {k : Nat} {run : Iteration × RebuildResult},
          s.iterations[k]? = some run →
          (s.iterations.map fun run => run.1.entry)[k]? = some run.1.entry := by
        intro k run hk
        rw [List.getElem?_map, hk]
        rfl
      have hserves : it.entry.Serves p :=
        h.serves it.entry (List.mem_append_right _ (List.mem_map.mpr ⟨_, hrun, rfl⟩)) p hp
          a.waiter hw hin
      obtain ⟨hmode, hreport⟩ := h.mode _ hrun
      refine ⟨j, it, hj, hin, fun k run hk hwk => ?_, hreport report rfl, hserves, fun hfull => ?_⟩
      · exact entry_unique hnodup (entryAt hj) (entryAt hk) hin hwk
      · rw [hmode]
        exact decideMode_full_of_covers (hmono _) hserves.changes hfull
  refusal incoming stopped ws err hrefused := by
    obtain ⟨entry, -, -, heq⟩ | ⟨entry, -, -, heq⟩ | ⟨err', heq⟩ :=
      s.ws.acquireOrPark_cases incoming stopped
    · rw [heq] at hrefused
      cases hrefused
    · rw [heq] at hrefused
      cases hrefused
    · rw [heq] at hrefused
      cases hrefused
      rfl

section Runs

open StepSystem (run)

/-- Along every run: each accepted waiter is told once, by the iteration that ran for it. -/
theorem every_waiter_is_told_once {d : Dispatcher} {sourceRoot : PathBuf} {pinned : Bool}
    {actions : List SlotAction} {s : Slot} (hmono : ∀ graph, (d.view graph).Monotone)
    (hrun : run (Slot.step d) (Slot.init sourceRoot pinned) actions = some s) :
    WaitersServed d s ∧
    (∀ p q r : PendingRebuild, p.mergesWith q = true → (p.coalesceWith q).mergesWith r = true →
      (p.coalesceWith q).coalesceWith r = p.coalesceWith (q.coalesceWith r)) ∧
    ∀ (p q : PendingRebuild) (graph : CodeGraph),
      decideMode d.config p.changes (d.view graph) = .full ∨
        decideMode d.config q.changes (d.view graph) = .full →
      decideMode d.config (p.coalesceWith q).changes (d.view graph) = .full := by
  have preserved : ∀ (s : Slot) (a : SlotAction) (s' : Slot), s.RoleHeld ∧ s.Accounted d →
      Slot.step d s a = some s' → s'.RoleHeld ∧ s'.Accounted d :=
    fun s a s' h hstep => ⟨Slot.roleHeld_step h.1 hstep, Slot.accounted_step h.1 h.2 hstep⟩
  have hinv := StepSystem.invariant_of_run preserved
    ⟨Slot.roleHeld_init sourceRoot pinned, Slot.accounted_init d sourceRoot pinned⟩ hrun
  refine ⟨hinv.2.served hinv.1 hmono, fun p q r _ _ => coalesceWith_assoc p q r,
    fun p q graph h => ?_⟩
  cases h with
  | inl h => exact decideMode_full_of_covers (hmono _) (ChangeSet.merge_covers_left _ _) h
  | inr h => exact decideMode_full_of_covers (hmono _) (ChangeSet.merge_covers_right _ _) h

def twoRequests : List SlotAction :=
  firstLoad :: loadSteps 0 loadsSmallGraph ++
    [.enqueue (.explicit .empty 0 .empty false), .enqueue (.explicit .forced 1 .empty true)] ++
    runnerSteps 0 (proceeds 3 ++ [.estimate 0] ++ proceeds 2 ++ [.built smallGraph ⟨[]⟩] ++
      proceeds 5 ++ [.clock 9] ++ proceeds 1)

theorem every_waiter_is_told_once_two :
    ∃ s, run (Slot.step .plain) (Slot.init "w" false) twoRequests = some s ∧
      s.answers = [⟨0, .ok ⟨⟨smallGraph, some ⟨[]⟩⟩, .incremental⟩⟩] ∧
      waitersOf s.outstanding = [1] ∧ WaitersServed .plain s := by
  have hrun : run (Slot.step .plain) (Slot.init "w" false) twoRequests = some _ := rfl
  exact ⟨_, hrun, rfl, rfl, (every_waiter_is_told_once (fun _ _ _ h => h) hrun).1⟩

end Runs

end Sqry.Daemon
