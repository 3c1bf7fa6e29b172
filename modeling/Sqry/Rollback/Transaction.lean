import Sqry.Lib.StepSystem
import Sqry.Rollback.Recovery

/-!
The holders of the persist lock and their transactions, one file operation a step. A holder
recovers as it takes the lock; the transactions it then runs, one after another, do not. A
process may die before any step.
-/

namespace Sqry.Rollback

structure PersistRollback where
  tag : Nat
  manifestAside : Option FileName := none
  snapshotAside : Option FileName := none
  snapshotExisted : Bool
  deriving DecidableEq

namespace PersistRollback

def marker (r : PersistRollback) : FileName := .begun r.tag

def committedMarker (r : PersistRollback) : FileName := .committed r.tag

end PersistRollback

/-- Where a recovery is: at the next set, with the snapshot of a set restored, or removing
what is left of a set. -/
inductive RecoveryAt
  | next (sets : List (Nat × RollbackSet))
  | restored (order : Nat) (set : RollbackSet) (manifestBack : Bool)
      (sets : List (Nat × RollbackSet))
  | discarding (names : List FileName) (sets : List (Nat × RollbackSet))

/-- Where the holder of the lock is: nobody holds it; recovering; between transactions; in
`begin` with the marker written, the manifest aside, or a copy of the snapshot made where it
could not be linked; with the rollback in hand, before the new snapshot and after it; past
the commit point; and in `drop`. -/
inductive Phase
  | free
  | recovering (stage : RecoveryAt)
  | held
  | settingAside (r : PersistRollback) (manifestExisted : Bool)
  | keeping (r : PersistRollback)
  | copied (r : PersistRollback)
  | begun (r : PersistRollback)
  | saved (r : PersistRollback)
  | committing (r : PersistRollback)
  | removing (names : List FileName)
  | droppingSnapshot (r : PersistRollback)
  | droppingManifest (r : PersistRollback)
  | droppingMarker (r : PersistRollback)

/-- The directory and its lock. `index` remembers the last transaction that reached its
commit point. -/
structure PersistState where
  dir : GraphDir := .empty
  phase : Phase := .free
  nextTag : Nat := 0
  index : Option Nat := none

/-- A step, with the identity of the file it makes and with whether a put-back rename
succeeds. -/
inductive PersistAction
  | takeLock
  | recover
  | release
  | die
  | begin (tag : Nat) (id : Nat)
  | setAside
  | keep
  | copy (id : Nat)
  | placeCopy
  | save (id : Nat)
  | writeManifest (id : Nat)
  | markCommitted
  | remove
  | fail
  | putBackSnapshot (works : Bool)
  | putBackManifest (works : Bool)
  | removeMarker
  deriving DecidableEq

def PersistAction.makes : PersistAction → Option Nat
  | .begin _ id | .copy id | .save id | .writeManifest id => some id
  | _ => none

def RecoveryAt.advance (d : GraphDir) : RecoveryAt → GraphDir × Phase
  | .next [] => (d, .held)
  | .next ((order, set) :: sets) =>
    match set.fate (d.get .manifest).isSome with
    | .discard => (d, .recovering (.discarding set.names sets))
    | .restore restore manifestBack =>
      match set.restoreSnapshot {} restore d with
      | .error _ => (d, .held)
      | .ok d' => (d', .recovering (.restored order set manifestBack sets))
  | .restored _ set manifestBack sets =>
    match set.restoreManifest {} manifestBack d with
    | .error _ => (d, .held)
    | .ok d' => (d', .recovering (.discarding set.names sets))
  | .discarding [] sets => (d, .recovering (.next sets))
  | .discarding (n :: names) sets => (d.unlink n, .recovering (.discarding names sets))

namespace PersistState

def recover (s : PersistState) : Option PersistState :=
  match s.phase with
  | .recovering stage =>
    let (dir, phase) := stage.advance s.dir
    some { s with dir, phase }
  | _ => none

/-- `PersistRollback::begin`, up to the marker. -/
def begin (s : PersistState) (tag id : Nat) : Option PersistState :=
  match s.phase with
  | .held =>
    let manifestExisted := (s.dir.get .manifest).isSome
    let snapshotExisted := (s.dir.get .snapshot).isSome
    let text := FileContent.marker (begunText snapshotExisted manifestExisted)
    if h : s.nextTag ≤ tag ∧ s.dir.Free (Directory.File.mk id text).id then
      some { s with
        dir := s.dir.create (.begun tag) ⟨id, text⟩ h.2
        phase := .settingAside { tag, snapshotExisted } manifestExisted
        nextTag := tag + 1 }
    else none
  | _ => none

def setAside (s : PersistState) : Option PersistState :=
  match s.phase with
  | .settingAside r true =>
    let target := FileName.manifestAside r.tag
    (s.dir.rename .manifest target).map fun dir =>
      { s with dir, phase := .keeping { r with manifestAside := some target } }
  | .settingAside r false => some { s with phase := .keeping r }
  | _ => none

def keep (s : PersistState) : Option PersistState :=
  match s.phase with
  | .keeping r =>
    if r.snapshotExisted then
      let target := FileName.snapshotAside r.tag
      (s.dir.link .snapshot target).map fun dir =>
        { s with dir, phase := .begun { r with snapshotAside := some target } }
    else some { s with phase := .begun r }
  | _ => none

def copy (s : PersistState) (id : Nat) : Option PersistState :=
  match s.phase, s.dir.get .snapshot with
  | .keeping r, some f =>
    if h : r.snapshotExisted ∧ s.dir.Free (Directory.File.mk id f.content).id then
      some { s with
        dir := s.dir.create (.snapshotPartial r.tag) ⟨id, f.content⟩ h.2
        phase := .copied r }
    else none
  | _, _ => none

def placeCopy (s : PersistState) : Option PersistState :=
  match s.phase with
  | .copied r =>
    let target := FileName.snapshotAside r.tag
    (s.dir.rename (.snapshotPartial r.tag) target).map fun dir =>
      { s with dir, phase := .begun { r with snapshotAside := some target } }
  | _ => none

def save (s : PersistState) (id : Nat) : Option PersistState :=
  match s.phase with
  | .begun r =>
    if h : s.dir.Free (Directory.File.mk id (FileContent.snapshot r.tag)).id then
      some { s with
        dir := s.dir.create .snapshot ⟨id, .snapshot r.tag⟩ h
        phase := .saved r }
    else none
  | _ => none

def writeManifest (s : PersistState) (id : Nat) : Option PersistState :=
  match s.phase with
  | .saved r =>
    if h : s.dir.Free (Directory.File.mk id (FileContent.manifest r.tag)).id then
      some { s with
        dir := s.dir.create .manifest ⟨id, .manifest r.tag⟩ h
        phase := .committing r
        index := some r.tag }
    else none
  | _ => none

/-- `PersistRollback::commit`: the marker first, then the set-aside files, the marker last. -/
def markCommitted (s : PersistState) : Option PersistState :=
  match s.phase with
  | .committing r =>
    let asides := r.manifestAside.toList ++ r.snapshotAside.toList
    match s.dir.rename r.marker r.committedMarker with
    | some dir => some { s with dir, phase := .removing (asides ++ [r.committedMarker]) }
    | none => some { s with phase := .removing (asides ++ [r.marker]) }
  | _ => none

def remove (s : PersistState) : Option PersistState :=
  match s.phase with
  | .removing [] => some { s with phase := .held }
  | .removing (n :: names) => some { s with dir := s.dir.unlink n, phase := .removing names }
  | _ => none

/-- An error before the commit point: the rollback is dropped. A copy that was not placed is
removed first. -/
def fail (s : PersistState) : Option PersistState :=
  match s.phase with
  | .settingAside r _ | .keeping r | .begun r | .saved r =>
    some { s with phase := .droppingSnapshot r }
  | .copied r =>
    some { s with
      dir := s.dir.unlink (.snapshotPartial r.tag)
      phase := .droppingSnapshot r }
  | _ => none

/-- `drop`, the snapshot: put back, or removed where there was none. -/
def putBackSnapshot (s : PersistState) (works : Bool) : Option PersistState :=
  match s.phase with
  | .droppingSnapshot r =>
    match r.snapshotAside with
    | some aside =>
      match if works then s.dir.rename aside .snapshot else none with
      | some dir => some { s with dir, phase := .droppingManifest r }
      | none => some { s with phase := .held }
    | none =>
      if r.snapshotExisted then some { s with phase := .droppingManifest r }
      else some { s with dir := s.dir.unlink .snapshot, phase := .droppingManifest r }
  | _ => none

def putBackManifest (s : PersistState) (works : Bool) : Option PersistState :=
  match s.phase with
  | .droppingManifest r =>
    match r.manifestAside with
    | some aside =>
      match if works then s.dir.rename aside .manifest else none with
      | some dir => some { s with dir, phase := .droppingMarker r }
      | none => some { s with phase := .held }
    | none => some { s with phase := .droppingMarker r }
  | _ => none

def removeMarker (s : PersistState) : Option PersistState :=
  match s.phase with
  | .droppingMarker r => some { s with dir := s.dir.unlink r.marker, phase := .held }
  | _ => none

def step (s : PersistState) : PersistAction → Option PersistState
  | .takeLock =>
    match s.phase with
    | .free => some { s with phase := .recovering (.next (RollbackListing.of s.dir).sets) }
    | _ => none
  | .recover => s.recover
  | .release =>
    match s.phase with
    | .held => some { s with phase := .free }
    | _ => none
  | .die => some { s with phase := .free }
  | .begin tag id => s.begin tag id
  | .setAside => s.setAside
  | .keep => s.keep
  | .copy id => s.copy id
  | .placeCopy => s.placeCopy
  | .save id => s.save id
  | .writeManifest id => s.writeManifest id
  | .markCommitted => s.markCommitted
  | .remove => s.remove
  | .fail => s.fail
  | .putBackSnapshot works => s.putBackSnapshot works
  | .putBackManifest works => s.putBackManifest works
  | .removeMarker => s.removeMarker

end PersistState

inductive Move : PersistState → Option Nat → PersistState → Prop
  | takeLock {d next index} :
      Move ⟨d, .free, next, index⟩ none
        ⟨d, .recovering (.next (RollbackListing.of d).sets), next, index⟩
  | recover {d stage next index} :
      Move ⟨d, .recovering stage, next, index⟩ none
        ⟨(stage.advance d).1, (stage.advance d).2, next, index⟩
  | release {d next index} : Move ⟨d, .held, next, index⟩ none ⟨d, .free, next, index⟩
  | die {d phase next index} : Move ⟨d, phase, next, index⟩ none ⟨d, .free, next, index⟩
  | begin {d d' next index tag id} (hnext : next ≤ tag)
      (hchange : Directory.Changed d (.begun tag) (some ⟨id, .marker (begunText
        (d.get .snapshot).isSome (d.get .manifest).isSome)⟩) d') :
      Move ⟨d, .held, next, index⟩ (some id)
        ⟨d', .settingAside { tag, snapshotExisted := (d.get .snapshot).isSome }
          (d.get .manifest).isSome, tag + 1, index⟩
  | setAside {d d' r next index}
      (hmove : Directory.Renamed d .manifest (.manifestAside r.tag) d') :
      Move ⟨d, .settingAside r true, next, index⟩ none
        ⟨d', .keeping { r with manifestAside := some (.manifestAside r.tag) }, next, index⟩
  | nothingAside {d r next index} :
      Move ⟨d, .settingAside r false, next, index⟩ none ⟨d, .keeping r, next, index⟩
  | keep {d d' r f next index} (hexisted : r.snapshotExisted = true)
      (hf : d.get .snapshot = some f)
      (hchange : Directory.Changed d (.snapshotAside r.tag) (some f) d') :
      Move ⟨d, .keeping r, next, index⟩ none
        ⟨d', .begun { r with snapshotAside := some (.snapshotAside r.tag) }, next, index⟩
  | nothingKept {d r next index} (hexisted : r.snapshotExisted = false) :
      Move ⟨d, .keeping r, next, index⟩ none ⟨d, .begun r, next, index⟩
  | copy {d d' r f id next index} (hexisted : r.snapshotExisted = true)
      (hf : d.get .snapshot = some f)
      (hchange : Directory.Changed d (.snapshotPartial r.tag) (some ⟨id, f.content⟩) d') :
      Move ⟨d, .keeping r, next, index⟩ (some id) ⟨d', .copied r, next, index⟩
  | placeCopy {d d' r next index}
      (hmove : Directory.Renamed d (.snapshotPartial r.tag) (.snapshotAside r.tag) d') :
      Move ⟨d, .copied r, next, index⟩ none
        ⟨d', .begun { r with snapshotAside := some (.snapshotAside r.tag) }, next, index⟩
  | save {d d' r id next index}
      (hchange : Directory.Changed d .snapshot (some ⟨id, .snapshot r.tag⟩) d') :
      Move ⟨d, .begun r, next, index⟩ (some id) ⟨d', .saved r, next, index⟩
  | writeManifest {d d' r id next index}
      (hchange : Directory.Changed d .manifest (some ⟨id, .manifest r.tag⟩) d') :
      Move ⟨d, .saved r, next, index⟩ (some id) ⟨d', .committing r, next, some r.tag⟩
  | markCommitted {d d' r next index}
      (hmove : Directory.Renamed d r.marker r.committedMarker d') :
      Move ⟨d, .committing r, next, index⟩ none
        ⟨d', .removing (r.manifestAside.toList ++ r.snapshotAside.toList ++ [r.committedMarker]),
          next, index⟩
  | leftMarked {d r next index} :
      Move ⟨d, .committing r, next, index⟩ none
        ⟨d, .removing (r.manifestAside.toList ++ r.snapshotAside.toList ++ [r.marker]),
          next, index⟩
  | removed {d next index} : Move ⟨d, .removing [], next, index⟩ none ⟨d, .held, next, index⟩
  | remove {d n names next index} :
      Move ⟨d, .removing (n :: names), next, index⟩ none ⟨d.unlink n, .removing names, next, index⟩
  | failSettingAside {d r e next index} :
      Move ⟨d, .settingAside r e, next, index⟩ none ⟨d, .droppingSnapshot r, next, index⟩
  | failKeeping {d r next index} :
      Move ⟨d, .keeping r, next, index⟩ none ⟨d, .droppingSnapshot r, next, index⟩
  | failCopied {d r next index} :
      Move ⟨d, .copied r, next, index⟩ none
        ⟨d.unlink (.snapshotPartial r.tag), .droppingSnapshot r, next, index⟩
  | failBegun {d r next index} :
      Move ⟨d, .begun r, next, index⟩ none ⟨d, .droppingSnapshot r, next, index⟩
  | failSaved {d r next index} :
      Move ⟨d, .saved r, next, index⟩ none ⟨d, .droppingSnapshot r, next, index⟩
  | snapshotBack {d d' r aside next index} (haside : r.snapshotAside = some aside)
      (hmove : Directory.Renamed d aside .snapshot d') :
      Move ⟨d, .droppingSnapshot r, next, index⟩ none ⟨d', .droppingManifest r, next, index⟩
  | snapshotStays {d r aside next index} (haside : r.snapshotAside = some aside) :
      Move ⟨d, .droppingSnapshot r, next, index⟩ none ⟨d, .held, next, index⟩
  | snapshotKept {d r next index} (haside : r.snapshotAside = none)
      (hexisted : r.snapshotExisted = true) :
      Move ⟨d, .droppingSnapshot r, next, index⟩ none ⟨d, .droppingManifest r, next, index⟩
  | snapshotRemoved {d r next index} (haside : r.snapshotAside = none)
      (hexisted : r.snapshotExisted = false) :
      Move ⟨d, .droppingSnapshot r, next, index⟩ none
        ⟨d.unlink .snapshot, .droppingManifest r, next, index⟩
  | manifestBack {d d' r aside next index} (haside : r.manifestAside = some aside)
      (hmove : Directory.Renamed d aside .manifest d') :
      Move ⟨d, .droppingManifest r, next, index⟩ none ⟨d', .droppingMarker r, next, index⟩
  | manifestStays {d r aside next index} (haside : r.manifestAside = some aside) :
      Move ⟨d, .droppingManifest r, next, index⟩ none ⟨d, .held, next, index⟩
  | noManifest {d r next index} (haside : r.manifestAside = none) :
      Move ⟨d, .droppingManifest r, next, index⟩ none ⟨d, .droppingMarker r, next, index⟩
  | removeMarker {d r next index} :
      Move ⟨d, .droppingMarker r, next, index⟩ none ⟨d.unlink r.marker, .held, next, index⟩

section

variable {s s' : PersistState} {id tag : Nat} {works : Bool}

theorem move_begin (h : s.begin tag id = some s') : Move s (some id) s' := by
  obtain ⟨d, phase, next, index⟩ := s
  cases phase with
  | held =>
    simp only [PersistState.begin] at h
    split at h
    · next hfree =>
      cases h
      exact .begin hfree.1 (Directory.changed_create hfree.2)
    · cases h
  | _ => cases h

theorem move_setAside (h : s.setAside = some s') : Move s none s' := by
  obtain ⟨d, phase, next, index⟩ := s
  cases phase with
  | settingAside r existed =>
    cases existed with
    | true =>
      obtain ⟨d', hd, rfl⟩ := Option.map_eq_some_iff.1 h
      exact .setAside (Directory.rename_eq_some hd)
    | false =>
      cases h
      exact .nothingAside
  | _ => cases h

theorem move_keep (h : s.keep = some s') : Move s none s' := by
  obtain ⟨d, phase, next, index⟩ := s
  cases phase with
  | keeping r =>
    simp only [PersistState.keep] at h
    split at h
    · next hexisted =>
      obtain ⟨d', hd, rfl⟩ := Option.map_eq_some_iff.1 h
      obtain ⟨-, f, hf, hchange⟩ := Directory.link_eq_some hd
      exact .keep hexisted hf hchange
    · next hexisted =>
      cases h
      exact .nothingKept (Bool.not_eq_true _ ▸ hexisted)
  | _ => cases h

theorem move_copy (h : s.copy id = some s') : Move s (some id) s' := by
  obtain ⟨d, phase, next, index⟩ := s
  cases phase with
  | keeping r =>
    cases hf : d.get .snapshot with
    | none => simp [PersistState.copy, hf] at h
    | some f =>
      simp only [PersistState.copy, hf] at h
      split at h
      · next hfree =>
        cases h
        exact .copy hfree.1 hf (Directory.changed_create hfree.2)
      · cases h
  | _ => simp [PersistState.copy] at h

theorem move_placeCopy (h : s.placeCopy = some s') : Move s none s' := by
  obtain ⟨d, phase, next, index⟩ := s
  cases phase with
  | copied r =>
    obtain ⟨d', hd, rfl⟩ := Option.map_eq_some_iff.1 h
    exact .placeCopy (Directory.rename_eq_some hd)
  | _ => cases h

theorem move_save (h : s.save id = some s') : Move s (some id) s' := by
  obtain ⟨d, phase, next, index⟩ := s
  cases phase with
  | begun r =>
    simp only [PersistState.save] at h
    split at h
    · next hfree =>
      cases h
      exact .save (Directory.changed_create hfree)
    · cases h
  | _ => cases h

theorem move_writeManifest (h : s.writeManifest id = some s') : Move s (some id) s' := by
  obtain ⟨d, phase, next, index⟩ := s
  cases phase with
  | saved r =>
    simp only [PersistState.writeManifest] at h
    split at h
    · next hfree =>
      cases h
      exact .writeManifest (Directory.changed_create hfree)
    · cases h
  | _ => cases h

theorem move_markCommitted (h : s.markCommitted = some s') : Move s none s' := by
  obtain ⟨d, phase, next, index⟩ := s
  cases phase with
  | committing r =>
    cases hd : d.rename r.marker r.committedMarker with
    | none =>
      simp only [PersistState.markCommitted, hd] at h
      cases h
      exact .leftMarked
    | some d' =>
      simp only [PersistState.markCommitted, hd] at h
      cases h
      exact .markCommitted (Directory.rename_eq_some hd)
  | _ => cases h

theorem move_remove (h : s.remove = some s') : Move s none s' := by
  obtain ⟨d, phase, next, index⟩ := s
  cases phase with
  | removing names =>
    cases names with
    | nil =>
      cases h
      exact .removed
    | cons n names =>
      cases h
      exact .remove
  | _ => cases h

theorem move_fail (h : s.fail = some s') : Move s none s' := by
  obtain ⟨d, phase, next, index⟩ := s
  cases phase with
  | settingAside r e =>
    cases h
    exact .failSettingAside
  | keeping r =>
    cases h
    exact .failKeeping
  | copied r =>
    cases h
    exact .failCopied
  | begun r =>
    cases h
    exact .failBegun
  | saved r =>
    cases h
    exact .failSaved
  | _ => cases h

theorem move_putBackSnapshot (h : s.putBackSnapshot works = some s') : Move s none s' := by
  obtain ⟨d, phase, next, index⟩ := s
  cases phase with
  | droppingSnapshot r =>
    cases haside : r.snapshotAside with
    | none =>
      simp only [PersistState.putBackSnapshot, haside] at h
      split at h
      · next hexisted =>
        cases h
        exact .snapshotKept haside hexisted
      · next hexisted =>
        cases h
        exact .snapshotRemoved haside (Bool.not_eq_true _ ▸ hexisted)
    | some aside =>
      simp only [PersistState.putBackSnapshot, haside] at h
      split at h
      · next d' hd =>
        cases h
        cases works with
        | false => cases hd
        | true => exact .snapshotBack haside (Directory.rename_eq_some hd)
      · cases h
        exact .snapshotStays haside
  | _ => cases h

theorem move_putBackManifest (h : s.putBackManifest works = some s') : Move s none s' := by
  obtain ⟨d, phase, next, index⟩ := s
  cases phase with
  | droppingManifest r =>
    cases haside : r.manifestAside with
    | none =>
      simp only [PersistState.putBackManifest, haside] at h
      cases h
      exact .noManifest haside
    | some aside =>
      simp only [PersistState.putBackManifest, haside] at h
      split at h
      · next d' hd =>
        cases h
        cases works with
        | false => cases hd
        | true => exact .manifestBack haside (Directory.rename_eq_some hd)
      · cases h
        exact .manifestStays haside
  | _ => cases h

theorem move_removeMarker (h : s.removeMarker = some s') : Move s none s' := by
  obtain ⟨d, phase, next, index⟩ := s
  cases phase with
  | droppingMarker r =>
    cases h
    exact .removeMarker
  | _ => cases h

theorem move_recover (h : s.recover = some s') : Move s none s' := by
  obtain ⟨d, phase, next, index⟩ := s
  cases phase with
  | recovering stage =>
    cases h
    exact .recover
  | _ => cases h

theorem move_of_step {a : PersistAction} (h : s.step a = some s') : Move s a.makes s' := by
  cases a with
  | takeLock =>
    obtain ⟨d, phase, next, index⟩ := s
    cases phase with
    | free =>
      cases h
      exact .takeLock
    | _ => cases h
  | release =>
    obtain ⟨d, phase, next, index⟩ := s
    cases phase with
    | held =>
      cases h
      exact .release
    | _ => cases h
  | die =>
    cases h
    exact .die
  | recover => exact move_recover h
  | begin tag id => exact move_begin h
  | setAside => exact move_setAside h
  | keep => exact move_keep h
  | copy id => exact move_copy h
  | placeCopy => exact move_placeCopy h
  | save id => exact move_save h
  | writeManifest id => exact move_writeManifest h
  | markCommitted => exact move_markCommitted h
  | remove => exact move_remove h
  | fail => exact move_fail h
  | putBackSnapshot works => exact move_putBackSnapshot h
  | putBackManifest works => exact move_putBackManifest h
  | removeMarker => exact move_removeMarker h

end

end Sqry.Rollback
