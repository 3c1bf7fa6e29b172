import Mathlib.Data.Finset.Sort
import Mathlib.Data.String.Basic
import Sqry.Graph.Arena

/-!
The rebuilds queued for one workspace: what a request asks for, when two requests may
share one iteration and what the shared iteration then runs with, and the mode an
iteration picks for its change set.
-/

namespace Sqry.Daemon

abbrev PathBuf := String

inductive GitChangeClass where
  | branchSwitch
  | treeDiverged
  | localCommit
  | noise
  deriving DecidableEq, Repr

def GitChangeClass.requiresFullRebuild : GitChangeClass → Bool
  | .branchSwitch => true
  | .treeDiverged => true
  | .localCommit => false
  | .noise => false

/-- A debounced set of changes. The watcher collects the files through a map, so none is
listed twice. -/
structure ChangeSet where
  changedFiles : List PathBuf
  nodup : changedFiles.Nodup
  gitStateChanged : Bool
  gitChangeClass : Option GitChangeClass
  deriving DecidableEq

namespace ChangeSet

def isEmpty (c : ChangeSet) : Bool := c.changedFiles.isEmpty && !c.gitStateChanged

def requiresFullRebuild (c : ChangeSet) : Bool :=
  c.gitChangeClass.any GitChangeClass.requiresFullRebuild

def empty : ChangeSet := ⟨[], List.nodup_nil, false, none⟩

def forced : ChangeSet := ⟨[], List.nodup_nil, true, some .treeDiverged⟩

end ChangeSet

structure MacroOptionsRequest where
  cfgFlags : Option (List String)
  expandCacheDir : Option PathBuf
  reset : Bool
  deriving DecidableEq, Repr

namespace MacroOptionsRequest

def empty : MacroOptionsRequest := ⟨none, none, false⟩

def isEmpty (m : MacroOptionsRequest) : Bool :=
  m.cfgFlags.isNone && m.expandCacheDir.isNone && !m.reset

/-- The directory is put in the form the build resolves it to, which is for the file
system to say; flags and reset are left as given. -/
def normalized (canonical : PathBuf → PathBuf) (m : MacroOptionsRequest) : MacroOptionsRequest :=
  { m with expandCacheDir := m.expandCacheDir.map canonical }

def flagSet (m : MacroOptionsRequest) : Option (Finset String) := m.cfgFlags.map List.toFinset

end MacroOptionsRequest

def macroRequestsAgree (a b : MacroOptionsRequest) : Bool :=
  a.reset == b.reset && a.expandCacheDir == b.expandCacheDir && a.flagSet == b.flagSet

inductive RebuildMode where
  | full
  | incremental
  deriving DecidableEq, Repr

inductive RebuildRequester where
  | watcher
  | daemonRebuild
  | rebuildIndex
  | rebuildIndexWithDaemonRebuild
  deriving DecidableEq, Repr

namespace RebuildRequester

def rank : RebuildRequester → Nat
  | .watcher => 0
  | .daemonRebuild => 1
  | .rebuildIndex => 2
  | .rebuildIndexWithDaemonRebuild => 3

def max (a b : RebuildRequester) : RebuildRequester := if a.rank ≤ b.rank then b else a

def merge : RebuildRequester → RebuildRequester → RebuildRequester
  | .daemonRebuild, .rebuildIndex => .rebuildIndexWithDaemonRebuild
  | .rebuildIndex, .daemonRebuild => .rebuildIndexWithDaemonRebuild
  | a, b => a.max b

theorem merge_assoc (a b c : RebuildRequester) :
    (a.merge b).merge c = a.merge (b.merge c) := by
  cases a <;> cases b <;> cases c <;> rfl

end RebuildRequester

structure LastIndexedGitState where
  headTreeOid : Option String
  deriving DecidableEq, Repr

structure PendingRebuild where
  changes : ChangeSet
  enqueuedAt : Nat
  gitStateAtEnqueue : Option LastIndexedGitState
  macroRequest : MacroOptionsRequest
  waiters : List Nat
  requester : RebuildRequester
  deriving DecidableEq

def mergeGitClass (a b : Option GitChangeClass) : Option GitChangeClass :=
  if a.any GitChangeClass.requiresFullRebuild || b.any GitChangeClass.requiresFullRebuild then
    some .treeDiverged
  else b.or a

def fileUnion (a b : List PathBuf) : List PathBuf := (a.toFinset ∪ b.toFinset).sort (· ≤ ·)

theorem fileUnion_nodup (a b : List PathBuf) : (fileUnion a b).Nodup := Finset.sort_nodup _ _

@[simp] theorem mem_fileUnion {a b : List PathBuf} {f : PathBuf} :
    f ∈ fileUnion a b ↔ f ∈ a ∨ f ∈ b := by
  simp [fileUnion]

theorem fileUnion_assoc (a b c : List PathBuf) :
    fileUnion (fileUnion a b) c = fileUnion a (fileUnion b c) := by
  simp only [fileUnion, Finset.sort_toFinset, Finset.union_assoc]

def ChangeSet.merge (earlier later : ChangeSet) : ChangeSet where
  changedFiles := fileUnion earlier.changedFiles later.changedFiles
  nodup := fileUnion_nodup _ _
  gitStateChanged := earlier.gitStateChanged || later.gitStateChanged
  gitChangeClass := mergeGitClass earlier.gitChangeClass later.gitChangeClass

def MacroOptionsRequest.merge (earlier later : MacroOptionsRequest) : MacroOptionsRequest :=
  if later.isEmpty then earlier else later

namespace PendingRebuild

def coalesceWith (self later : PendingRebuild) : PendingRebuild where
  changes := self.changes.merge later.changes
  enqueuedAt := max self.enqueuedAt later.enqueuedAt
  gitStateAtEnqueue := later.gitStateAtEnqueue.or self.gitStateAtEnqueue
  macroRequest := self.macroRequest.merge later.macroRequest
  waiters := self.waiters ++ later.waiters
  requester := self.requester.merge later.requester

def isWatcherEnqueue (p : PendingRebuild) : Bool := p.waiters.isEmpty && p.macroRequest.isEmpty

def mergesWith (self later : PendingRebuild) : Bool :=
  macroRequestsAgree self.macroRequest later.macroRequest || self.isWatcherEnqueue ||
    later.isWatcherEnqueue

end PendingRebuild

theorem requiresFullRebuild_mergeGitClass (a b : Option GitChangeClass) :
    (mergeGitClass a b).any GitChangeClass.requiresFullRebuild =
      (a.any GitChangeClass.requiresFullRebuild || b.any GitChangeClass.requiresFullRebuild) := by
  cases a with
  | none => cases b with
      | none => rfl
      | some b => cases b <;> rfl
  | some a => cases b with
      | none => cases a <;> rfl
      | some b => cases a <;> cases b <;> rfl

theorem mergeGitClass_assoc (a b c : Option GitChangeClass) :
    mergeGitClass (mergeGitClass a b) c = mergeGitClass a (mergeGitClass b c) := by
  rw [mergeGitClass.eq_1 (mergeGitClass a b), mergeGitClass.eq_1 a (mergeGitClass b c),
    requiresFullRebuild_mergeGitClass, requiresFullRebuild_mergeGitClass, Bool.or_assoc]
  split
  · rfl
  next hnone =>
    simp only [Bool.or_eq_true, not_or] at hnone
    simp [mergeGitClass, hnone.1, hnone.2.1, hnone.2.2, Option.or_assoc]

theorem ChangeSet.merge_assoc (p q r : ChangeSet) :
    (p.merge q).merge r = p.merge (q.merge r) := by
  have hfiles := fileUnion_assoc p.changedFiles q.changedFiles r.changedFiles
  have hclass := mergeGitClass_assoc p.gitChangeClass q.gitChangeClass r.gitChangeClass
  simp [ChangeSet.merge, hfiles, hclass, Bool.or_assoc]

theorem MacroOptionsRequest.merge_assoc (p q r : MacroOptionsRequest) :
    (p.merge q).merge r = p.merge (q.merge r) := by
  cases hr : r.isEmpty with
  | true => simp [MacroOptionsRequest.merge, hr]
  | false => simp [MacroOptionsRequest.merge, hr]

theorem coalesceWith_assoc (p q r : PendingRebuild) :
    (p.coalesceWith q).coalesceWith r = p.coalesceWith (q.coalesceWith r) := by
  simp only [PendingRebuild.coalesceWith, ChangeSet.merge_assoc, MacroOptionsRequest.merge_assoc,
    Nat.max_assoc, Option.or_assoc, List.append_assoc, RebuildRequester.merge_assoc]

/-- What the mode decision reads of a graph: its file registry and the closure of a set of
files under reverse dependencies. -/
structure RebuildView where
  fileId : PathBuf → Option Nat
  fileCount : Nat
  reverseDepClosure : Finset Nat → Finset Nat

structure DaemonConfig where
  incrementalThreshold : Nat
  closureLimitPercent : Nat
  deriving DecidableEq, Repr

def decideMode (config : DaemonConfig) (changes : ChangeSet) (graph : RebuildView) : RebuildMode :=
  if changes.isEmpty then .incremental
  else if changes.requiresFullRebuild then .full
  else if changes.changedFiles.length > config.incrementalThreshold then .full
  else
    let fileIds := (changes.changedFiles.filterMap graph.fileId).toFinset
    let limit := min (graph.fileCount * config.closureLimitPercent) u64Max / 100
    if (graph.reverseDepClosure fileIds).card > limit then .full else .incremental

structure ChangeSet.Covers (big small : ChangeSet) : Prop where
  files : ∀ f ∈ small.changedFiles, f ∈ big.changedFiles
  git : small.gitStateChanged = true → big.gitStateChanged = true
  full : small.requiresFullRebuild = true → big.requiresFullRebuild = true

namespace ChangeSet

theorem Covers.refl (c : ChangeSet) : c.Covers c := ⟨fun _ h => h, id, id⟩

theorem Covers.trans {a b c : ChangeSet} (hab : a.Covers b) (hbc : b.Covers c) : a.Covers c :=
  ⟨fun f hf => hab.files f (hbc.files f hf), fun h => hab.git (hbc.git h),
    fun h => hab.full (hbc.full h)⟩

end ChangeSet

theorem ChangeSet.requiresFullRebuild_merge (p q : ChangeSet) :
    (p.merge q).requiresFullRebuild = (p.requiresFullRebuild || q.requiresFullRebuild) :=
  requiresFullRebuild_mergeGitClass p.gitChangeClass q.gitChangeClass

theorem ChangeSet.merge_covers_left (p q : ChangeSet) : (p.merge q).Covers p := by
  refine ⟨fun f hf => mem_fileUnion.mpr (Or.inl hf), fun h => ?_, fun h => ?_⟩
  · simp [ChangeSet.merge, h]
  · rw [ChangeSet.requiresFullRebuild_merge, h, Bool.true_or]

theorem ChangeSet.merge_covers_right (p q : ChangeSet) : (p.merge q).Covers q := by
  refine ⟨fun f hf => mem_fileUnion.mpr (Or.inr hf), fun h => ?_, fun h => ?_⟩
  · simp [ChangeSet.merge, h]
  · rw [ChangeSet.requiresFullRebuild_merge, h, Bool.or_true]

def RebuildView.Monotone (graph : RebuildView) : Prop :=
  ∀ s t, s ⊆ t → graph.reverseDepClosure s ⊆ graph.reverseDepClosure t

theorem decideMode_full_of_covers {config : DaemonConfig} {graph : RebuildView}
    (hmono : graph.Monotone) {big small : ChangeSet} (hcov : big.Covers small)
    (h : decideMode config small graph = .full) : decideMode config big graph = .full := by
  have hempty : big.isEmpty = true → small.isEmpty = true := by
    simp only [ChangeSet.isEmpty, Bool.and_eq_true, List.isEmpty_iff, Bool.not_eq_true']
    intro hb
    refine ⟨List.eq_nil_iff_forall_not_mem.mpr fun f hf => ?_, ?_⟩
    · simpa [hb.1] using hcov.files f hf
    · cases hs : small.gitStateChanged with
      | false => rfl
      | true => simpa [hb.2] using hcov.git hs
  have hlen : small.changedFiles.length ≤ big.changedFiles.length := by
    have := Finset.card_le_card (s := small.changedFiles.toFinset) (t := big.changedFiles.toFinset)
      fun f hf => List.mem_toFinset.mpr (hcov.files f (List.mem_toFinset.mp hf))
    rwa [List.toFinset_card_of_nodup small.nodup, List.toFinset_card_of_nodup big.nodup] at this
  have hseeds : (small.changedFiles.filterMap graph.fileId).toFinset ⊆
      (big.changedFiles.filterMap graph.fileId).toFinset := by
    intro n hn
    simp only [List.mem_toFinset, List.mem_filterMap] at hn ⊢
    obtain ⟨f, hf, hid⟩ := hn
    exact ⟨f, hcov.files f hf, hid⟩
  have hclosure := Finset.card_le_card (hmono _ _ hseeds)
  simp only [decideMode] at h ⊢
  split at h
  · cases h
  next hsmall =>
  rw [if_neg fun hb => hsmall (hempty hb)]
  split
  · rfl
  next hbig =>
  rw [if_neg fun hs => hbig (hcov.full hs)] at h
  split
  · rfl
  next hmany =>
  rw [if_neg (by omega)] at h
  split at h
  next hlimit => rw [if_pos (by omega)]
  · cases h

section Agreement

theorem macroRequestsAgree_iff {a b : MacroOptionsRequest} :
    macroRequestsAgree a b = true ↔
      a.reset = b.reset ∧ a.expandCacheDir = b.expandCacheDir ∧ a.flagSet = b.flagSet := by
  simp [macroRequestsAgree, and_assoc]

theorem macroRequestsAgree_refl (a : MacroOptionsRequest) : macroRequestsAgree a a = true :=
  macroRequestsAgree_iff.mpr ⟨rfl, rfl, rfl⟩

theorem macroRequestsAgree_symm {a b : MacroOptionsRequest}
    (h : macroRequestsAgree a b = true) : macroRequestsAgree b a = true := by
  rw [macroRequestsAgree_iff] at h ⊢
  exact ⟨h.1.symm, h.2.1.symm, h.2.2.symm⟩

theorem macroRequestsAgree_trans {a b c : MacroOptionsRequest}
    (hab : macroRequestsAgree a b = true) (hbc : macroRequestsAgree b c = true) :
    macroRequestsAgree a c = true := by
  rw [macroRequestsAgree_iff] at hab hbc ⊢
  exact ⟨hab.1.trans hbc.1, hab.2.1.trans hbc.2.1, hab.2.2.trans hbc.2.2⟩

theorem eq_empty_of_isEmpty {a : MacroOptionsRequest} (h : a.isEmpty = true) : a = .empty := by
  obtain ⟨cfgFlags, expandCacheDir, reset⟩ := a
  simpa [MacroOptionsRequest.isEmpty, MacroOptionsRequest.empty, and_assoc] using h

theorem agrees_coalesceWith {p q : PendingRebuild} (hm : p.mergesWith q = true)
    {m : MacroOptionsRequest} :
    (p.waiters ≠ [] → macroRequestsAgree p.macroRequest m = true →
      macroRequestsAgree (p.coalesceWith q).macroRequest m = true) ∧
    (q.waiters ≠ [] → macroRequestsAgree q.macroRequest m = true →
      macroRequestsAgree (p.coalesceWith q).macroRequest m = true) := by
  simp only [PendingRebuild.mergesWith, Bool.or_eq_true] at hm
  simp only [PendingRebuild.coalesceWith, MacroOptionsRequest.merge]
  obtain (hagree | hleft) | hright := hm
  · refine ⟨fun _ h => ?_, fun _ h => ?_⟩
    · split
      · exact h
      · exact macroRequestsAgree_trans (macroRequestsAgree_symm hagree) h
    · split
      · exact macroRequestsAgree_trans hagree h
      · exact h
  · simp only [PendingRebuild.isWatcherEnqueue, Bool.and_eq_true, List.isEmpty_iff] at hleft
    refine ⟨fun hw => absurd hleft.1 hw, fun _ h => ?_⟩
    split
    next hq =>
      rw [eq_empty_of_isEmpty hleft.2, ← eq_empty_of_isEmpty hq]
      exact h
    · exact h
  · simp only [PendingRebuild.isWatcherEnqueue, Bool.and_eq_true, List.isEmpty_iff] at hright
    refine ⟨fun _ h => ?_, fun hw => absurd hright.1 hw⟩
    rw [if_pos hright.2]
    exact h

end Agreement

end Sqry.Daemon
