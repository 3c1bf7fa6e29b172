import Sqry.Daemon.Budget
import Sqry.Lib.SortedGroups

/-!
A reservation that may evict. Its victims are planned by their counted bytes, evicted, and the
retained graphs reaped before the authoritative check. The map is a list in the order in which it
is iterated.
-/

namespace Sqry.Daemon

structure WorkspaceKey where
  workspaceId : Option String
  sourceRoot : PathBuf
  rootMode : String
  configFingerprint : Nat
  deriving DecidableEq

def workspaceKeyStableCmp (left right : WorkspaceKey) : Ordering :=
  (compare left.rootMode right.rootMode).then
    (compare left.configFingerprint right.configFingerprint)

structure MapEntry where
  key : WorkspaceKey
  lastAccessed : Nat
  ws : LoadedWorkspace
  deriving DecidableEq

def MapEntry.counted (e : MapEntry) : RetainedEntry := ⟨e.ws.memoryBytes, e.ws.published.graph⟩

structure WorkspaceManager where
  workspaces : List MapEntry
  admission : AdmissionState
  totalMemoryHighWater : Nat
  /-- The graphs that queries hold. -/
  readers : List CodeGraph
  deriving DecidableEq

structure ReservationOutcome where
  result : Except DaemonError Unit
  /-- What was evicted, in this order, as it was before. -/
  evicted : List MapEntry
  manager : WorkspaceManager

def holdsEvictableGraph (ws : LoadedWorkspace) : Bool :=
  match ws.state with
  | .evicted => false
  | .unloaded => ws.memoryBytes > 0
  | _ => true

def isRequester (forKey key : WorkspaceKey) : Bool :=
  key = forKey ∨
    forKey.workspaceId = none ∧ key.workspaceId = none ∧ key.sourceRoot = forKey.sourceRoot

def takeVictims (need : Nat) : Nat → List MapEntry → List MapEntry
  | _, [] => []
  | reclaimed, e :: rest =>
    if reclaimed ≥ need then []
    else e :: takeVictims need (addBytes reclaimed e.ws.memoryBytes) rest

namespace WorkspaceManager

section Reserve
variable (m : WorkspaceManager) (limit : Nat) (forKey : WorkspaceKey) (estimate : Nat)

def lookup (key : WorkspaceKey) : Option MapEntry := m.workspaces.find? fun e => e.key = key

def anonymousWorkspaceBySourceRoot (sourceRoot : PathBuf) : Option MapEntry :=
  (SortedGroups.sortBy (fun a b => workspaceKeyStableCmp a.key b.key)
    (m.workspaces.filter fun e =>
      e.key.workspaceId = none ∧ e.key.sourceRoot = sourceRoot)).head?

def requester : Option MapEntry :=
  match forKey.workspaceId with
  | none => m.anonymousWorkspaceBySourceRoot forKey.sourceRoot
  | some _ => m.lookup forKey

def candidates : List MapEntry :=
  SortedGroups.sortBy (fun a b => compare a.lastAccessed b.lastAccessed)
    (m.workspaces.filter fun e =>
      !isRequester forKey e.key && !e.ws.pinned && holdsEvictableGraph e.ws)

def planEviction (need : Nat) : List MapEntry := takeVictims need 0 (m.candidates forKey)

def executeEviction (key : WorkspaceKey) : WorkspaceManager :=
  match m.lookup key with
  | none => m
  | some e =>
    if e.ws.state = .evicted then m
    else
      { m with
        workspaces := m.workspaces.map fun other =>
          if other.key = key then { other with ws := other.ws.evictToTombstone } else other
        admission := m.admission.evict e.counted
        totalMemoryHighWater :=
          max m.totalMemoryHighWater (m.admission.evict e.counted).totalCommittedBytes }

def evictAll (victims : List MapEntry) : WorkspaceManager :=
  victims.foldl (fun m e => m.executeEviction e.key) m

def reapOnce : WorkspaceManager := { m with admission := m.admission.reap m.readers }

def afterEvictions (victims : List MapEntry) : WorkspaceManager :=
  if victims.isEmpty then m else (m.evictAll victims).reapOnce

def victims : List MapEntry :=
  let projected := addBytes m.admission.totalCommittedBytes estimate
  if projected ≤ limit then [] else m.planEviction forKey (projected - limit)

def reserveRebuild : ReservationOutcome :=
  match m.requester forKey with
  | none => ⟨.error .workspaceEvicted, [], m⟩
  | some requester =>
    if requester.ws.rebuildCancelled then ⟨.error .workspaceEvicted, [], m⟩
    else
      let victims := m.victims limit forKey estimate
      let after := m.afterEvictions victims
      match after.admission.reserve limit estimate with
      | none => ⟨.error .memoryBudgetExceeded, victims, after⟩
      | some admission =>
        ⟨.ok (), victims, { after with
          admission := admission
          totalMemoryHighWater := max after.totalMemoryHighWater admission.totalCommittedBytes }⟩

end Reserve

section Meaning
variable (m : WorkspaceManager) (limit : Nat) (forKey : WorkspaceKey) (estimate : Nat)

structure Balanced : Prop where
  keys : (m.workspaces.map MapEntry.key).Nodup
  loaded : m.admission.loadedBytes = Ledger.total (fun e => e.ws.memoryBytes) m.workspaces
  total : m.admission.total ≤ u64Max

structure Justified (evicted : List MapEntry) : Prop where
  allowed : ∀ e ∈ evicted, e ∈ m.workspaces ∧ e.ws.pinned = false ∧
    isRequester forKey e.key = false ∧ 0 < e.ws.memoryBytes
  oldest : evicted.Pairwise fun a b => a.lastAccessed ≤ b.lastAccessed
  minimal : ∀ fewer last, evicted = fewer ++ [last] →
    (m.afterEvictions fewer).admission.reserve limit estimate = none

/-- A refusal for the budget changed nothing, and a success evicted no more than it had to. -/
structure EvictsWell : Prop where
  refused : (m.reserveRebuild limit forKey estimate).result = .error .memoryBudgetExceeded →
    (m.reserveRebuild limit forKey estimate).manager.admission = m.admission ∧
      (m.reserveRebuild limit forKey estimate).manager.workspaces = m.workspaces
  admitted : (m.reserveRebuild limit forKey estimate).result = .ok () →
    m.Justified limit forKey estimate (m.reserveRebuild limit forKey estimate).evicted

def countedBytes (plan : List MapEntry) : Nat := Ledger.total (fun e => e.ws.memoryBytes) plan

/-- The oldest candidates, as many as count for the need together, or all. -/
structure IsPlan (need : Nat) (candidates plan : List MapEntry) : Prop where
  oldest : plan <+: candidates
  short : ∀ fewer last, plan = fewer ++ [last] → countedBytes fewer < need
  enough : countedBytes plan < need → plan = candidates

def unheldBytes (plan : List MapEntry) : Nat :=
  if plan.isEmpty then 0
  else
    Ledger.total (·.bytes) ((m.admission.retainedOld ++ plan.map MapEntry.counted).filter
      fun e => !m.readers.contains e.graph)

/-- Where something has to be evicted, what the oldest candidates leave unheld makes the room,
without the last of them it does not, and each of them counts. -/
def PlanPays : Prop :=
  (∃ requester, m.requester forKey = some requester ∧ requester.ws.rebuildCancelled = false) →
    limit < addBytes m.admission.total estimate →
    ∀ plan, IsPlan (addBytes m.admission.total estimate - limit) (m.candidates forKey) plan →
      plan ≠ [] →
        (∀ e ∈ plan, 0 < e.ws.memoryBytes) ∧
        m.admission.total + estimate ≤ limit + m.unheldBytes plan ∧
        ∀ fewer last, plan = fewer ++ [last] →
          limit + m.unheldBytes fewer < m.admission.total + estimate

end Meaning

section Plan
variable {need reclaimed : Nat} {candidates : List MapEntry}

theorem takeVictims_isPrefix : takeVictims need reclaimed candidates <+: candidates := by
  induction candidates generalizing reclaimed with
  | nil => exact List.nil_prefix
  | cons e rest ih =>
    rw [takeVictims]
    split
    · exact List.nil_prefix
    · exact (List.prefix_cons_inj e).mpr ih

theorem takeVictims_short (hbytes : reclaimed + countedBytes candidates ≤ u64Max)
    {fewer : List MapEntry} {last : MapEntry}
    (h : takeVictims need reclaimed candidates = fewer ++ [last]) :
    reclaimed + countedBytes fewer < need := by
  induction candidates generalizing reclaimed fewer with
  | nil => cases fewer <;> cases h
  | cons e rest ih =>
    have hsum : reclaimed + (e.ws.memoryBytes + countedBytes rest) ≤ u64Max := hbytes
    rw [takeVictims] at h
    split at h
    · cases fewer <;> cases h
    · rename_i hless
      cases fewer with
      | nil => exact Nat.lt_of_not_le hless
      | cons first fewer =>
        obtain ⟨rfl, hrest⟩ := List.cons.inj h
        rw [addBytes_of_le (by omega)] at hrest
        have := ih (by omega) hrest
        show reclaimed + (e.ws.memoryBytes + countedBytes fewer) < need
        omega

theorem takeVictims_enough (hbytes : reclaimed + countedBytes candidates ≤ u64Max)
    (h : reclaimed + countedBytes (takeVictims need reclaimed candidates) < need) :
    takeVictims need reclaimed candidates = candidates := by
  induction candidates generalizing reclaimed with
  | nil => rfl
  | cons e rest ih =>
    have hsum : reclaimed + (e.ws.memoryBytes + countedBytes rest) ≤ u64Max := hbytes
    rw [takeVictims] at h ⊢
    split at h
    · exact absurd h (by have : countedBytes [] = 0 := rfl; omega)
    · rename_i hless
      rw [if_neg hless]
      rw [addBytes_of_le (by omega)] at h ⊢
      refine congrArg _ (ih (by omega) ?_)
      have hcons : ∀ plan, countedBytes (e :: plan) = e.ws.memoryBytes + countedBytes plan :=
        fun _ => rfl
      rw [hcons] at h
      omega

theorem IsPlan.unique {plan other : List MapEntry} (h : IsPlan need candidates plan)
    (hother : IsPlan need candidates other) (hle : plan.length ≤ other.length) : plan = other := by
  obtain ⟨more, rfl⟩ := List.prefix_of_prefix_length_le h.oldest hother.oldest hle
  cases List.eq_nil_or_concat more with
  | inl hnil => rw [hnil, List.append_nil]
  | inr hconcat =>
    obtain ⟨more, last, rfl⟩ := hconcat
    have hshort := hother.short (plan ++ more) last
      (by rw [List.concat_eq_append, List.append_assoc])
    rw [countedBytes, Ledger.total_append] at hshort
    have hall := h.enough (Nat.lt_of_le_of_lt (Nat.le_add_right _ _) hshort)
    exact h.oldest.eq_of_length_le (hall ▸ Nat.le_refl _) |>.trans
      (hother.oldest.eq_of_length_le (hall ▸ hle)).symm

end Plan

section Evict
variable {m : WorkspaceManager} {key other : WorkspaceKey} {plan : List MapEntry}

theorem lookup_executeEviction (h : other ≠ key) :
    (m.executeEviction key).lookup other = m.lookup other := by
  rw [executeEviction]
  split
  · rfl
  · split
    · rfl
    · have hkeep : ∀ e : MapEntry, decide ((if e.key = key then
          { e with ws := e.ws.evictToTombstone } else e).key = other) = decide (e.key = other) := by
        intro e
        split <;> rfl
      simp only [lookup, List.find?_map, Function.comp_def, hkeep]
      cases hfind : m.workspaces.find? fun e => decide (e.key = other) with
      | none => rfl
      | some e =>
        have heq : e.key = other := by simpa using List.find?_some hfind
        rw [Option.map_some, if_neg (heq ▸ h)]

theorem lookup_evictAll (h : key ∉ plan.map MapEntry.key) :
    (m.evictAll plan).lookup key = m.lookup key := by
  induction plan generalizing m with
  | nil => rfl
  | cons e rest ih =>
    rw [List.map_cons, List.mem_cons, not_or] at h
    exact (ih h.2).trans (lookup_executeEviction h.1)

structure Evictable (m : WorkspaceManager) (plan : List MapEntry) : Prop where
  keys : (plan.map MapEntry.key).Nodup
  found : ∀ e ∈ plan, m.lookup e.key = some e
  live : ∀ e ∈ plan, e.ws.state ≠ .evicted
  counted : countedBytes plan ≤ m.admission.loadedBytes

theorem Evictable.sublist {fewer : List MapEntry} (h : m.Evictable plan)
    (hsub : fewer.Sublist plan) (hle : countedBytes fewer ≤ countedBytes plan) :
    m.Evictable fewer where
  keys := h.keys.sublist (hsub.map _)
  found := fun e he => h.found e (hsub.mem he)
  live := fun e he => h.live e (hsub.mem he)
  counted := Nat.le_trans hle h.counted

theorem executeEviction_eq {e : MapEntry} (hfound : m.lookup e.key = some e)
    (hlive : e.ws.state ≠ .evicted) :
    (m.executeEviction e.key).admission = m.admission.evict e.counted ∧
      (m.executeEviction e.key).readers = m.readers ∧
      ∃ after, (m.executeEviction e.key).lookup e.key = some after ∧ after.ws.state = .evicted := by
  have hkeep : ∀ other : MapEntry, decide ((if other.key = e.key then
      { other with ws := other.ws.evictToTombstone } else other).key = e.key) =
        decide (other.key = e.key) := by
    intro other
    split <;> rfl
  have hfind : m.workspaces.find? (fun other => decide (other.key = e.key)) = some e := hfound
  simp only [executeEviction, if_neg hlive, lookup, List.find?_map, Function.comp_def,
    hkeep, hfind, Option.map_some, if_true]
  refine ⟨trivial, trivial, _, rfl, ?_⟩
  simp [LoadedWorkspace.evictToTombstone, hlive]

theorem Evictable.tail {e : MapEntry} (h : m.Evictable (e :: plan)) :
    (m.executeEviction e.key).Evictable plan := by
  obtain ⟨hadmission, -, -⟩ :=
    executeEviction_eq (h.found e List.mem_cons_self) (h.live e List.mem_cons_self)
  have hkeys := List.nodup_cons.mp h.keys
  refine ⟨hkeys.2, fun other hother => ?_, fun other hother =>
    h.live other (List.mem_cons_of_mem e hother), ?_⟩
  · have hne : other.key ≠ e.key := fun heq => hkeys.1 (heq ▸ List.mem_map_of_mem hother)
    rw [lookup_executeEviction hne]
    exact h.found other (List.mem_cons_of_mem e hother)
  · have hcounted : e.ws.memoryBytes + countedBytes plan ≤ m.admission.loadedBytes := h.counted
    rw [hadmission]
    exact Nat.le_sub_of_add_le (by rw [Nat.add_comm]; exact hcounted)

theorem admission_evictAll (h : m.Evictable plan) :
    (m.evictAll plan).admission.total = m.admission.total ∧
      (m.evictAll plan).admission.retainedOld =
        m.admission.retainedOld ++ plan.map MapEntry.counted ∧
      (m.evictAll plan).readers = m.readers := by
  induction plan generalizing m with
  | nil => exact ⟨rfl, (List.append_nil _).symm, rfl⟩
  | cons e rest ih =>
    obtain ⟨hadmission, hreaders, -⟩ :=
      executeEviction_eq (h.found e List.mem_cons_self) (h.live e List.mem_cons_self)
    obtain ⟨htotal, hretained, hrest⟩ := ih h.tail
    have hbytes : e.counted.bytes ≤ m.admission.loadedBytes :=
      Nat.le_trans (Nat.le_add_right _ (countedBytes rest)) h.counted
    refine ⟨htotal.trans ?_, hretained.trans ?_, hrest.trans hreaders⟩
    · rw [hadmission, AdmissionState.total_evict hbytes]
    · rw [hadmission, List.map_cons, ← List.singleton_append, ← List.append_assoc]
      rfl

theorem total_afterEvictions (h : m.Evictable plan) :
    (m.afterEvictions plan).admission.total + m.unheldBytes plan = m.admission.total := by
  rw [afterEvictions, unheldBytes]
  split
  · rfl
  · obtain ⟨htotal, hretained, hreaders⟩ := admission_evictAll h
    rw [← htotal, ← hretained]
    simp only [reapOnce, AdmissionState.reap, AdmissionState.total, hreaders]
    rw [Nat.add_assoc, Ledger.total_filter_add_filter_not]

theorem reserve_eq_none_iff {s : AdmissionState} {limit estimate : Nat} (hs : s.total ≤ u64Max)
    (hlimit : limit < u64Max) : s.reserve limit estimate = none ↔ limit < s.total + estimate := by
  rw [AdmissionState.reserve, AdmissionState.totalCommittedBytes_eq hs, addBytes]
  split
  · simp only [reduceCtorEq, false_iff]
    omega
  · simp only [true_iff]
    omega

theorem reserve_afterEvictions {limit estimate : Nat} (h : m.Evictable plan)
    (htotal : m.admission.total ≤ u64Max) (hlimit : limit < u64Max) :
    (m.afterEvictions plan).admission.reserve limit estimate = none ↔
      limit + m.unheldBytes plan < m.admission.total + estimate := by
  have hsum := total_afterEvictions h
  rw [reserve_eq_none_iff (by omega) hlimit]
  omega

theorem workspaces_afterEvictions (h : m.Evictable plan) (hne : plan ≠ []) :
    (m.afterEvictions plan).workspaces ≠ m.workspaces := by
  obtain ⟨e, rest, rfl⟩ := List.exists_cons_of_ne_nil hne
  obtain ⟨-, -, after, hafter, hstate⟩ :=
    executeEviction_eq (h.found e List.mem_cons_self) (h.live e List.mem_cons_self)
  intro heq
  have hlast : (m.evictAll (e :: rest)).lookup e.key = some after :=
    (lookup_evictAll (List.nodup_cons.mp h.keys).1).trans hafter
  have hsame : (m.evictAll (e :: rest)).lookup e.key = m.lookup e.key :=
    congrArg (fun l => l.find? fun other : MapEntry => decide (other.key = e.key)) heq
  cases hlast.symm.trans (hsame.trans (h.found e List.mem_cons_self))
  exact h.live e List.mem_cons_self hstate

end Evict

section Reservation
variable {m : WorkspaceManager} {limit : Nat} {forKey : WorkspaceKey} {estimate : Nat}
  {plan : List MapEntry}

theorem mem_candidates {e : MapEntry} : e ∈ m.candidates forKey ↔ e ∈ m.workspaces ∧
    isRequester forKey e.key = false ∧ e.ws.pinned = false ∧
      holdsEvictableGraph e.ws = true := by
  simp [candidates, SortedGroups.mem_sortBy, and_assoc]

theorem holdsEvictableGraph_live {ws : LoadedWorkspace} (h : holdsEvictableGraph ws = true) :
    ws.state ≠ .evicted := by
  intro hstate
  rw [holdsEvictableGraph, hstate] at h
  cases h

variable (h : m.Balanced)
include h

theorem Balanced.counted_candidates :
    countedBytes (m.candidates forKey) ≤ m.admission.loadedBytes := by
  rw [h.loaded, countedBytes, candidates, Ledger.total_perm (SortedGroups.perm_sortBy _ _)]
  exact Ledger.total_filter_le _ _ _

theorem Balanced.evictable_candidates : m.Evictable (m.candidates forKey) where
  keys := by
    refine ((SortedGroups.perm_sortBy _ _).map MapEntry.key).nodup_iff.mpr ?_
    exact h.keys.sublist (List.filter_sublist.map _)
  found := by
    intro e he
    have hmem := (mem_candidates.mp he).1
    cases hfind : m.lookup e.key with
    | none => exact absurd (decide_eq_true rfl) (List.find?_eq_none.mp hfind e hmem)
    | some other =>
      have hkey : other.key = e.key := by simpa using List.find?_some hfind
      exact congrArg some (List.inj_on_of_nodup_map h.keys (List.mem_of_find?_eq_some hfind)
        hmem hkey)
  live := fun _ he => holdsEvictableGraph_live (mem_candidates.mp he).2.2.2
  counted := h.counted_candidates

theorem Balanced.evictable (hplan : plan <+: m.candidates forKey) : m.Evictable plan := by
  obtain ⟨rest, hrest⟩ := hplan
  refine h.evictable_candidates.sublist (hrest ▸ List.sublist_append_left plan rest) ?_
  rw [← hrest, countedBytes, countedBytes, Ledger.total_append]
  exact Nat.le_add_right _ _

theorem Balanced.isPlan (need : Nat) :
    IsPlan need (m.candidates forKey) (m.planEviction forKey need) := by
  have hle : countedBytes (m.candidates forKey) ≤ _ := h.counted_candidates
  have htotal := h.total
  rw [AdmissionState.total] at htotal
  have hbytes : 0 + countedBytes (m.candidates forKey) ≤ u64Max := by omega
  refine ⟨takeVictims_isPrefix, fun fewer last hplan => ?_, fun hless => ?_⟩
  · have := takeVictims_short hbytes hplan
    omega
  · exact takeVictims_enough hbytes (by rwa [Nat.zero_add])

theorem Balanced.plan_eq {need : Nat} (hplan : IsPlan need (m.candidates forKey) plan) :
    m.planEviction forKey need = plan := by
  cases Nat.le_total plan.length (m.planEviction forKey need).length with
  | inl hle => exact (hplan.unique (h.isPlan need) hle).symm
  | inr hle => exact (h.isPlan need).unique hplan hle

theorem Balanced.evictsWell_iff_of_plan {requester : MapEntry}
    (hrequester : m.requester forKey = some requester)
    (hcancelled : requester.ws.rebuildCancelled = false)
    (hfull : limit < addBytes m.admission.total estimate)
    (hplan : m.planEviction forKey (addBytes m.admission.total estimate - limit) = plan)
    (hne : plan ≠ []) : m.EvictsWell limit forKey estimate ↔
      (∀ e ∈ plan, 0 < e.ws.memoryBytes) ∧
      m.admission.total + estimate ≤ limit + m.unheldBytes plan ∧
      ∀ fewer last, plan = fewer ++ [last] →
        limit + m.unheldBytes fewer < m.admission.total + estimate := by
  have hlimit : limit < u64Max := Nat.lt_of_lt_of_le hfull (Nat.min_le_right _ _)
  have holdest : plan <+: m.candidates forKey := hplan ▸ (h.isPlan _).oldest
  have hvictims : m.victims limit forKey estimate = plan := by
    rw [victims, AdmissionState.totalCommittedBytes_eq h.total, if_neg (Nat.not_le.mpr hfull),
      hplan]
  have hevictable := h.evictable holdest
  have hreserve := @reserve_afterEvictions _ _ limit estimate hevictable h.total hlimit
  have hminimal : (∀ fewer last, plan = fewer ++ [last] →
      (m.afterEvictions fewer).admission.reserve limit estimate = none) ↔
        ∀ fewer last, plan = fewer ++ [last] →
          limit + m.unheldBytes fewer < m.admission.total + estimate := by
    refine forall_congr' fun fewer => forall_congr' fun last => imp_congr_right fun heq => ?_
    have hfewer : fewer <+: m.candidates forKey :=
      (heq ▸ List.prefix_append fewer [last] : fewer <+: plan).trans holdest
    exact reserve_afterEvictions (h.evictable hfewer) h.total hlimit
  rw [← hminimal]
  cases hcase : (m.afterEvictions plan).admission.reserve limit estimate with
  | none =>
    have houtcome : m.reserveRebuild limit forKey estimate =
        ⟨.error .memoryBudgetExceeded, plan, m.afterEvictions plan⟩ := by
      simp only [reserveRebuild, hrequester, hcancelled, hvictims, hcase]
      rfl
    refine iff_of_false (fun hwell => ?_) fun hpays => ?_
    · have hsame := (hwell.refused (by rw [houtcome])).2
      rw [houtcome] at hsame
      exact workspaces_afterEvictions hevictable hne hsame
    · exact Nat.not_lt_of_le hpays.2.1 (hreserve.mp hcase)
  | some admission =>
    have houtcome : (m.reserveRebuild limit forKey estimate).result = .ok () ∧
        (m.reserveRebuild limit forKey estimate).evicted = plan := by
      simp only [reserveRebuild, hrequester, hcancelled, hvictims, hcase]
      exact ⟨rfl, rfl⟩
    have hfits : m.admission.total + estimate ≤ limit + m.unheldBytes plan := by
      refine Nat.le_of_not_lt fun hless => ?_
      rw [hreserve.mpr hless] at hcase
      cases hcase
    rw [and_iff_right hfits]
    constructor
    · intro hwell
      have hjustified := hwell.admitted houtcome.1
      rw [houtcome.2] at hjustified
      exact ⟨fun e he => (hjustified.allowed e he).2.2.2, hjustified.minimal⟩
    · intro hpays
      refine ⟨fun herr => ?_, fun _ => ?_⟩
      · rw [houtcome.1] at herr
        cases herr
      · rw [houtcome.2]
        refine ⟨fun e he => ?_, ?_, hpays.2⟩
        · obtain ⟨hmem, hother, hpinned, -⟩ := mem_candidates.mp (holdest.subset he)
          exact ⟨hmem, hpinned, hother, hpays.1 e he⟩
        · exact (SortedGroups.pairwise_sortBy_compare _ _).sublist holdest.sublist

omit h

theorem evictsWell_of_nil
    (hnil : (m.reserveRebuild limit forKey estimate).evicted = [])
    (hsame : (m.reserveRebuild limit forKey estimate).result ≠ .ok () →
      (m.reserveRebuild limit forKey estimate).manager = m) :
    m.EvictsWell limit forKey estimate := by
  refine ⟨fun herr => ?_, fun _ => ?_⟩
  · rw [hsame (herr ▸ fun heq => by cases heq)]
    exact ⟨rfl, rfl⟩
  · rw [hnil]
    refine ⟨fun _ he => absurd he List.not_mem_nil, List.Pairwise.nil, fun fewer last heq => ?_⟩
    cases fewer <;> cases heq

theorem evictsWell_of_no_victims {requester : MapEntry}
    (hrequester : m.requester forKey = some requester)
    (hcancelled : requester.ws.rebuildCancelled = false)
    (hvictims : m.victims limit forKey estimate = []) : m.EvictsWell limit forKey estimate := by
  have hnone : m.afterEvictions [] = m := rfl
  cases hcase : m.admission.reserve limit estimate with
  | none =>
    have houtcome : m.reserveRebuild limit forKey estimate =
        ⟨.error .memoryBudgetExceeded, [], m⟩ := by
      simp only [reserveRebuild, hrequester, hcancelled, hvictims, hnone, hcase]
      rfl
    exact evictsWell_of_nil (by rw [houtcome]) fun _ => by rw [houtcome]
  | some admission =>
    have houtcome : (m.reserveRebuild limit forKey estimate).evicted = [] ∧
        (m.reserveRebuild limit forKey estimate).result = .ok () := by
      simp only [reserveRebuild, hrequester, hcancelled, hvictims, hnone, hcase]
      exact ⟨rfl, rfl⟩
    exact evictsWell_of_nil houtcome.1 fun herr => absurd houtcome.2 herr

end Reservation

/-- A reservation evicts well just when the planned evictions pay. -/
theorem reserve_rebuild_evicts_well_iff (config : DaemonMemoryConfig) (m : WorkspaceManager)
    (h : m.Balanced) (forKey : WorkspaceKey) (estimate : Nat) :
    m.EvictsWell config.memoryLimitBytes forKey estimate ↔
      m.PlanPays config.memoryLimitBytes forKey estimate := by
  by_cases hcall : ∃ requester, m.requester forKey = some requester ∧
      requester.ws.rebuildCancelled = false
  · obtain ⟨requester, hrequester, hcancelled⟩ := hcall
    by_cases hfull : config.memoryLimitBytes < addBytes m.admission.total estimate
    · by_cases hplan : m.planEviction forKey
          (addBytes m.admission.total estimate - config.memoryLimitBytes) = []
      · have hvictims : m.victims config.memoryLimitBytes forKey estimate = [] := by
          rw [victims, AdmissionState.totalCommittedBytes_eq h.total,
            if_neg (Nat.not_le.mpr hfull), hplan]
        refine iff_of_true (evictsWell_of_no_victims hrequester hcancelled hvictims) ?_
        intro _ _ plan hisPlan hne
        exact absurd ((h.plan_eq hisPlan).symm.trans hplan) hne
      · rw [h.evictsWell_iff_of_plan hrequester hcancelled hfull rfl hplan]
        constructor
        · intro hpays _ _ plan hisPlan _
          exact h.plan_eq hisPlan ▸ hpays
        · exact fun hpays => hpays ⟨requester, hrequester, hcancelled⟩ hfull _ (h.isPlan _) hplan
    · have hvictims : m.victims config.memoryLimitBytes forKey estimate = [] := by
        rw [victims, AdmissionState.totalCommittedBytes_eq h.total,
          if_pos (Nat.le_of_not_lt hfull)]
      exact iff_of_true (evictsWell_of_no_victims hrequester hcancelled hvictims)
        fun _ hless => absurd hless hfull
  · refine iff_of_true ?_ fun hthere => absurd hthere hcall
    have houtcome : m.reserveRebuild config.memoryLimitBytes forKey estimate =
        ⟨.error .workspaceEvicted, [], m⟩ := by
      cases hrequester : m.requester forKey with
      | none => simp [reserveRebuild, hrequester]
      | some requester =>
        cases hcancelled : requester.ws.rebuildCancelled with
        | false => exact absurd ⟨requester, hrequester, hcancelled⟩ hcall
        | true => simp [reserveRebuild, hrequester, hcancelled]
    exact evictsWell_of_nil (by rw [houtcome]) fun _ => by rw [houtcome]

section Crowded

def crowdedManager : WorkspaceManager where
  workspaces :=
    [⟨⟨none, "/requester", "git", 0⟩, 1, .new "/requester" false⟩,
      ⟨⟨none, "/other", "git", 0⟩, 0, { LoadedWorkspace.new "/other" false with
        state := .loaded, published := ⟨⟨1, 10⟩, some ⟨[]⟩⟩, memoryBytes := 10 }⟩]
  admission := ⟨10, 0, []⟩
  totalMemoryHighWater := 10
  readers := []

theorem balanced_crowdedManager : crowdedManager.Balanced := ⟨by decide, by decide, by decide⟩

theorem reserve_rebuild_evicts_well_crowdedManager : crowdedManager.Balanced ∧
    (crowdedManager.EvictsWell (DaemonMemoryConfig.mk 1).memoryLimitBytes
        ⟨none, "/requester", "git", 0⟩ 2097152 ↔
      crowdedManager.PlanPays (DaemonMemoryConfig.mk 1).memoryLimitBytes
        ⟨none, "/requester", "git", 0⟩ 2097152) :=
  ⟨balanced_crowdedManager,
    reserve_rebuild_evicts_well_iff ⟨1⟩ crowdedManager balanced_crowdedManager _ _⟩

/-- The other workspace is evicted for a request that cannot be met. -/
theorem crowdedManager_evicts_in_vain : ¬∀ (config : DaemonMemoryConfig) (m : WorkspaceManager),
    m.Balanced → ∀ forKey estimate, m.EvictsWell config.memoryLimitBytes forKey estimate := by
  intro h
  have hwell := h ⟨1⟩ crowdedManager balanced_crowdedManager ⟨none, "/requester", "git", 0⟩ 2097152
  have hsame := (hwell.refused (by decide +kernel)).2
  revert hsame
  decide +kernel

end Crowded

end WorkspaceManager
end Sqry.Daemon
