import Sqry.Edge.Delta
import Sqry.Lib.SortedGroups

/-!
Per-file revision counters and the dependencies that a query records on them. A cached
result is valid as long as the counters of the files it was computed from read the same.
-/

namespace Sqry

structure FileInput where
  nodeIds : List NodeId
  revision : Nat
  deriving DecidableEq, Repr

namespace FileInput

def new (nodeIds : List NodeId) : FileInput := ⟨nodeIds, 1⟩

def update (fi : FileInput) (newNodeIds : List NodeId) : FileInput :=
  ⟨newNodeIds, saturatingSucc fi.revision⟩

end FileInput

structure FileInputStore where
  entries : AList fun _ : FileId => FileInput

namespace FileInputStore

def new : FileInputStore := ⟨∅⟩

def revision (s : FileInputStore) (file : FileId) : Option Nat :=
  (s.entries.lookup file).map FileInput.revision

def insert (s : FileInputStore) (file : FileId) (input : FileInput) : FileInputStore :=
  ⟨s.entries.insert file input⟩

def remove (s : FileInputStore) (file : FileId) : FileInputStore := ⟨s.entries.erase file⟩

/-- `get_mut` and, when there is an entry, `FileInput::update` on it. -/
def updateFile (s : FileInputStore) (file : FileId) (newNodeIds : List NodeId) :
    FileInputStore :=
  match s.entries.lookup file with
  | some fi => s.insert file (fi.update newNodeIds)
  | none => s

def restoreRevision (s : FileInputStore) (saved : FileId × Nat) : FileInputStore :=
  match s.entries.lookup saved.1 with
  | some fi => s.insert saved.1 { fi with revision := saved.2 }
  | none => s.insert saved.1 { FileInput.new [] with revision := saved.2 }

def restoreRevisions (s : FileInputStore) (revisions : List (FileId × Nat)) : FileInputStore :=
  revisions.foldl restoreRevision s

def allRevisions (s : FileInputStore) : List (FileId × Nat) :=
  s.entries.entries.map fun e => (e.1, e.2.revision)

@[simp] theorem revision_insert (s : FileInputStore) (file f : FileId) (input : FileInput) :
    (s.insert file input).revision f = if f = file then some input.revision else s.revision f := by
  by_cases h : f = file
  · rw [if_pos h, h, revision, insert, AList.lookup_insert]
    rfl
  · rw [if_neg h, revision, insert, AList.lookup_insert_ne h]
    rfl

@[simp] theorem revision_remove (s : FileInputStore) (file f : FileId) :
    (s.remove file).revision f = if f = file then none else s.revision f := by
  by_cases h : f = file
  · rw [if_pos h, h, revision, remove, AList.lookup_erase]
    rfl
  · rw [if_neg h, revision, remove, AList.lookup_erase_ne h]
    rfl

@[simp] theorem revision_updateFile (s : FileInputStore) (file f : FileId)
    (newNodeIds : List NodeId) : (s.updateFile file newNodeIds).revision f =
      if f = file then (s.revision f).map saturatingSucc else s.revision f := by
  rw [updateFile]
  cases hentry : s.entries.lookup file with
  | none =>
    by_cases h : f = file
    · rw [if_pos h, h, revision, hentry]
      rfl
    · rw [if_neg h]
  | some fi =>
    simp only [revision_insert]
    by_cases h : f = file
    · rw [if_pos h, if_pos h, h, revision, hentry]
      rfl
    · rw [if_neg h, if_neg h]

@[simp] theorem revision_restoreRevision (s : FileInputStore) (saved : FileId × Nat)
    (f : FileId) : (s.restoreRevision saved).revision f =
      if f = saved.1 then some saved.2 else s.revision f := by
  rw [restoreRevision]
  split <;> rw [revision_insert]

end FileInputStore

def savedRevision (f : FileId) : List (FileId × Nat) → Option Nat
  | [] => none
  | saved :: rest =>
    match savedRevision f rest with
    | some r => some r
    | none => if f = saved.1 then some saved.2 else none

theorem FileInputStore.revision_restoreRevisions (s : FileInputStore)
    (revisions : List (FileId × Nat)) (f : FileId) :
    (s.restoreRevisions revisions).revision f =
      match savedRevision f revisions with
      | some r => some r
      | none => s.revision f := by
  induction revisions generalizing s with
  | nil => rfl
  | cons saved rest ih =>
    have hfold : s.restoreRevisions (saved :: rest) =
        (s.restoreRevision saved).restoreRevisions rest := rfl
    rw [hfold, ih, savedRevision]
    cases savedRevision f rest with
    | some r => rfl
    | none =>
      simp only [revision_restoreRevision]
      split <;> rfl

abbrev FileDep := FileId × Nat

section Recorder

/-- The scopes of the running queries, innermost first, and how many guards are alive. -/
structure DependencyRecorder where
  fileDeps : List (List FileId)
  activeDepth : Nat
  deriving DecidableEq, Repr

namespace DependencyRecorder

def empty : DependencyRecorder := ⟨[], 0⟩

def recordFileDep (r : DependencyRecorder) (file : FileId) : DependencyRecorder :=
  if file = FileId.INVALID then r
  else
    match r.fileDeps with
    | current :: rest => { r with fileDeps := (current ++ [file]) :: rest }
    | [] => { r with fileDeps := [[file]] }

/-- `DependencyRecorderGuard::new`. -/
def enter (r : DependencyRecorder) : DependencyRecorder :=
  ⟨[] :: (if r.activeDepth = 0 then [] else r.fileDeps), r.activeDepth + 1⟩

def finishCurrentScope (r : DependencyRecorder) (shouldMergeIntoParent : Bool) :
    List FileId × DependencyRecorder :=
  let raw := r.fileDeps.headD []
  let depth := r.activeDepth - 1
  if shouldMergeIntoParent && 0 < depth then
    match r.fileDeps.tail with
    | parent :: rest => (raw, ⟨(parent ++ raw) :: rest, depth⟩)
    | [] => (raw, ⟨[], depth⟩)
  else if depth = 0 then (raw, ⟨[], depth⟩)
  else (raw, ⟨r.fileDeps.tail, depth⟩)

end DependencyRecorder

/-- `Vec::dedup`: drop every element that equals the one before it. -/
def dedupConsecutive : List FileId → List FileId
  | [] => []
  | [f] => [f]
  | f :: g :: rest =>
    if f = g then dedupConsecutive (g :: rest) else f :: dedupConsecutive (g :: rest)

theorem mem_dedupConsecutive {f : FileId} {l : List FileId} :
    f ∈ dedupConsecutive l ↔ f ∈ l := by
  induction l with
  | nil => exact Iff.rfl
  | cons g rest ih =>
    cases rest with
    | nil => exact Iff.rfl
    | cons h rest =>
      rw [dedupConsecutive]
      split
      · rename_i heq
        rw [ih, heq]
        simp
      · rw [List.mem_cons, ih]
        exact List.mem_cons.symm

/-- Sorted, without duplicates, paired with the current revisions; a file without an entry
is left out. -/
def pairWithRevisions (raw : List FileId) (inputs : FileInputStore) : List FileDep :=
  (dedupConsecutive (SortedGroups.sortBy compare raw)).filterMap fun file =>
    (inputs.revision file).map fun revision => (file, revision)

def DependencyRecorder.finish (r : DependencyRecorder) (inputs : FileInputStore) :
    List FileDep × DependencyRecorder :=
  let (raw, r) := r.finishCurrentScope true
  (pairWithRevisions raw inputs, r)

theorem DependencyRecorder.fst_finish (r : DependencyRecorder) (inputs : FileInputStore) :
    (r.finish inputs).1 = pairWithRevisions (r.fileDeps.headD []) inputs := by
  have hraw : (r.finishCurrentScope true).1 = r.fileDeps.headD [] := by
    rw [finishCurrentScope]
    split
    · split <;> rfl
    · split <;> rfl
  rw [finish, ← hraw]

theorem mem_pairWithRevisions {raw : List FileId} {inputs : FileInputStore} {dep : FileDep} :
    dep ∈ pairWithRevisions raw inputs ↔
      dep.1 ∈ raw ∧ inputs.revision dep.1 = some dep.2 := by
  rw [pairWithRevisions, List.mem_filterMap]
  constructor
  · intro h
    obtain ⟨file, hfile, hdep⟩ := h
    obtain ⟨revision, hrevision, rfl⟩ := Option.map_eq_some_iff.mp hdep
    rw [mem_dedupConsecutive] at hfile
    exact ⟨(SortedGroups.perm_sortBy compare raw).mem_iff.mp hfile, hrevision⟩
  · intro h
    refine ⟨dep.1, ?_, ?_⟩
    · rw [mem_dedupConsecutive]
      exact (SortedGroups.perm_sortBy compare raw).mem_iff.mpr h.1
    · rw [h.2]
      rfl

end Recorder

def validateFileDeps (fileDeps : List FileDep) (inputs : FileInputStore) : Bool :=
  fileDeps.all fun dep => inputs.revision dep.1 = some dep.2

end Sqry

/-!
When a cached entry can validate against a changed file. A revision is one number for a
file: an entry stays valid after a change that brings the number back to the recorded one,
and it never looks at a file that had no number when it was recorded.
-/

namespace Sqry

open StepSystem (run RunOk)

inductive InputOp where
  | insert (file : FileId) (input : FileInput)
  | remove (file : FileId)
  /-- `get_mut` followed by `FileInput::update`. -/
  | update (file : FileId) (newNodeIds : List NodeId)
  | restoreRevisions (revisions : List (FileId × Nat))

namespace FileInputStore

def apply (s : FileInputStore) : InputOp → FileInputStore
  | .insert file input => s.insert file input
  | .remove file => s.remove file
  | .update file newNodeIds => s.updateFile file newNodeIds
  | .restoreRevisions revisions => s.restoreRevisions revisions

def step (s : FileInputStore) (op : InputOp) : Option FileInputStore := some (s.apply op)

def Touches (f : FileId) (s : FileInputStore) : InputOp → Prop
  | .insert file _ => f = file
  | .remove file => f = file ∧ s.revision f ≠ none
  | .update file _ => f = file ∧ s.revision f ≠ none
  | .restoreRevisions revisions => savedRevision f revisions ≠ none ∧ s.revision f = none

/-- The operation gives the file the number `r` anew: an insertion that brings it, an update
that arrives at it, or a restored number that is not the one the file has. -/
def ReturnsTo (f : FileId) (r : Nat) (s : FileInputStore) : InputOp → Prop
  | .insert file input => f = file ∧ input.revision = r
  | .remove _ => False
  | .update file _ => f = file ∧ ∃ q, s.revision f = some q ∧ saturatingSucc q = r
  | .restoreRevisions revisions => savedRevision f revisions = some r ∧ s.revision f ≠ some r

/-- Nothing brings a recorded number back, and a file that was recorded without a number
is left alone. -/
def KeepsApart (recorded : List FileId) (s₀ : FileInputStore) (s : FileInputStore)
    (op : InputOp) : Prop :=
  ∀ f ∈ recorded,
    match s₀.revision f with
    | none => ¬ Touches f s op
    | some r => ¬ ReturnsTo f r s op

theorem revision_of_apply {s : FileInputStore} {op : InputOp} {f : FileId} {r : Nat}
    (hapart : ¬ ReturnsTo f r s op) (h : (s.apply op).revision f = some r) :
    s.revision f = some r ∧ ¬ Touches f s op := by
  cases op with
  | insert file input =>
    rw [apply, revision_insert] at h
    by_cases hf : f = file
    · rw [if_pos hf] at h
      exact absurd ⟨hf, Option.some.inj h⟩ hapart
    · rw [if_neg hf] at h
      exact ⟨h, hf⟩
  | remove file =>
    rw [apply, revision_remove] at h
    by_cases hf : f = file
    · rw [if_pos hf] at h
      cases h
    · rw [if_neg hf] at h
      exact ⟨h, fun htouch => hf htouch.1⟩
  | update file newNodeIds =>
    rw [apply, revision_updateFile] at h
    by_cases hf : f = file
    · rw [if_pos hf] at h
      obtain ⟨q, hq, hsucc⟩ := Option.map_eq_some_iff.mp h
      exact absurd ⟨hf, q, hq, hsucc⟩ hapart
    · rw [if_neg hf] at h
      exact ⟨h, fun htouch => hf htouch.1⟩
  | restoreRevisions revisions =>
    have hsame : s.revision f = some r := by
      rw [apply, revision_restoreRevisions] at h
      cases hsaved : savedRevision f revisions with
      | none =>
        rw [hsaved] at h
        exact h
      | some saved =>
        rw [hsaved] at h
        by_contra hne
        exact hapart ⟨hsaved.trans h, hne⟩
    refine ⟨hsame, ?_⟩
    intro htouch
    cases hsame.symm.trans htouch.2

theorem untouched_of_revision {s s' : FileInputStore} {ops : List InputOp} {f : FileId} {r : Nat}
    (hok : RunOk step (fun s op => ¬ ReturnsTo f r s op) s ops) (hrun : run step s ops = some s')
    (h : s'.revision f = some r) :
    s.revision f = some r ∧ RunOk step (fun s op => ¬ Touches f s op) s ops := by
  induction ops generalizing s with
  | nil =>
    cases hrun
    exact ⟨h, trivial⟩
  | cons op ops ih =>
    obtain ⟨mid, hstep, hrest⟩ := StepSystem.run_cons_some hrun
    have htail := ih (hok.2 mid hstep) hrest
    cases hstep
    have hhead := revision_of_apply hok.1 htail.1
    exact ⟨hhead.1, StepSystem.runOk_cons_of_step hhead.2 rfl htail.2⟩

/-- An entry that validates after a run that keeps the numbers apart was recorded from files
that the run left alone, whether they had numbers or not. -/
theorem validateFileDeps_sound {recorder : DependencyRecorder} {s₀ s : FileInputStore}
    {ops : List InputOp} (hrun : run step s₀ ops = some s)
    (hok : RunOk step (KeepsApart (recorder.fileDeps.headD []) s₀) s₀ ops)
    (hvalid : validateFileDeps (recorder.finish s₀).1 s = true) :
    ∀ f ∈ recorder.fileDeps.headD [], RunOk step (fun s op => ¬ Touches f s op) s₀ ops := by
  intro f hf
  cases hrevision : s₀.revision f with
  | none =>
    refine StepSystem.runOk_mono (fun s op hkeeps => ?_) hok
    have h := hkeeps f hf
    rw [hrevision] at h
    exact h
  | some r =>
    have hapart : RunOk step (fun s op => ¬ ReturnsTo f r s op) s₀ ops := by
      refine StepSystem.runOk_mono (fun s op hkeeps => ?_) hok
      have h := hkeeps f hf
      rw [hrevision] at h
      exact h
    have hdep : (f, r) ∈ (recorder.finish s₀).1 := by
      rw [DependencyRecorder.fst_finish, mem_pairWithRevisions]
      exact ⟨hf, hrevision⟩
    have hsame : s.revision f = some r :=
      of_decide_eq_true (List.all_eq_true.mp hvalid (f, r) hdep)
    exact (untouched_of_revision hapart hrun hsame).2

section Example

def tracked : FileInputStore := FileInputStore.new.insert 7 (FileInput.new [])

def reader : DependencyRecorder := (DependencyRecorder.empty.enter.recordFileDep 7).recordFileDep 8

end Example

theorem validateFileDeps_sound_otherFile :
    RunOk step (fun s op => ¬ Touches 7 s op) tracked [.insert 9 (FileInput.new [])] := by
  have hok : RunOk step (KeepsApart (reader.fileDeps.headD []) tracked) tracked
      [.insert 9 (FileInput.new [])] := by
    refine ⟨?_, fun _ _ => trivial⟩
    intro f hf
    cases List.mem_cons.mp hf with
    | inl h =>
      subst h
      intro hreturns
      exact absurd hreturns.1 (by decide)
    | inr h =>
      cases List.mem_singleton.mp h
      intro htouch
      have hsame : (8 : Nat) = 9 := htouch
      exact absurd hsame (by decide)
  exact validateFileDeps_sound rfl hok (by decide) 7 List.mem_cons_self

/-- A replaced file starts again at the recorded number, and a new file had none: the entry
validates against both. -/
theorem replaced_and_added_validate :
    (run step tracked [.insert 7 (FileInput.new [⟨3, 1⟩])]).any
        (validateFileDeps (reader.finish tracked).1) = true ∧
      Touches 7 tracked (.insert 7 (FileInput.new [⟨3, 1⟩])) ∧
      (run step tracked [.insert 8 (FileInput.new [⟨3, 1⟩])]).any
        (validateFileDeps (reader.finish tracked).1) = true ∧
      Touches 8 tracked (.insert 8 (FileInput.new [⟨3, 1⟩])) ∧
      7 ∈ reader.fileDeps.headD [] ∧ 8 ∈ reader.fileDeps.headD [] := by
  refine ⟨by decide, rfl, by decide, rfl, by decide, by decide⟩

end FileInputStore
end Sqry
