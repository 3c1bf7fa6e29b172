import Sqry.Rollback.Committed

/-!
One attempt of `holds_committed_index` beside the holders of the lock: two looks at the
manifest and the snapshot around a listing of the rollback names, each name met and each begun
marker read at its own instant.
-/

namespace Sqry.Rollback

def identify (d : GraphDir) (n : FileName) : Option Nat := (d.get n).map Directory.File.id

structure Look where
  manifest : Option Nat
  snapshot : Option Nat
  deriving DecidableEq

/-- Where an attempt is. `owed` are the names that have been there since the directory was
opened; a begun marker that was met and not read yet is `unread`. -/
inductive Attempt
  | sawManifest (manifest : Option Nat)
  | looked (before : Look)
  | listing (before : Look) (owed unread : List FileName) (entries : List (FileName × Bool))
  | sawManifestAgain (before : Look) (entries : List (FileName × Bool)) (manifest : Option Nat)
  | done (unchanged answer : Bool)
  deriving DecidableEq

inductive ReadAction
  | snapshot
  | openDir
  | entry (n : FileName)
  | readMarker (n : FileName)
  | manifestAgain
  | snapshotAgain
  deriving DecidableEq

namespace Attempt

def opened : Attempt → List Nat
  | .sawManifest manifest => manifest.toList
  | .looked before | .listing before .. | .sawManifestAgain before .. =>
    before.manifest.toList ++ before.snapshot.toList
  | .done .. => []

def readMarker (d : GraphDir) (n : FileName) : Bool :=
  match d.get n with
  | some f => markerSaysNoSnapshot f.content
  | none => false

def step (d : GraphDir) : Attempt → ReadAction → Option Attempt
  | .sawManifest manifest, .snapshot => some (.looked ⟨manifest, identify d .snapshot⟩)
  | .looked before, .openDir => some (.listing before d.names [] [])
  | .listing before owed unread entries, .entry n =>
    if (d.get n).isSome then
      match n with
      | .begun t => some (.listing before owed (.begun t :: unread) entries)
      | n => some (.listing before owed unread (entries ++ [(n, false)]))
    else none
  | .listing before owed unread entries, .readMarker n =>
    if n ∈ unread then
      some (.listing before owed (unread.erase n) (entries ++ [(n, readMarker d n)]))
    else none
  | .listing before owed [] entries, .manifestAgain =>
    if ∀ n ∈ owed, n ∈ entries.map Prod.fst then
      some (.sawManifestAgain before entries (identify d .manifest))
    else none
  | .sawManifestAgain before entries manifest, .snapshotAgain =>
    let after : Look := ⟨manifest, identify d .snapshot⟩
    let answer := (RollbackListing.ofEntries entries).leavesAnIndex after.manifest.isSome
      after.snapshot.isSome
    some (.done (decide (before = after)) answer)
  | _, _ => none

def dirChanged (d : GraphDir) : Attempt → Attempt
  | .listing before owed unread entries =>
    .listing before (owed.filter fun n => (d.get n).isSome) unread entries
  | attempt => attempt

def isDone : Attempt → Bool
  | .done .. => true
  | _ => false

end Attempt

structure Reading where
  writer : PersistState
  attempt : Attempt

inductive ReadEvent
  | writer (a : PersistAction)
  | reader (a : ReadAction)
  deriving DecidableEq

namespace Reading

def first (s : PersistState) : Reading := ⟨s, .sawManifest (identify s.dir .manifest)⟩

/-- A step of a holder or of the attempt, until the attempt is over. A new file does not get
the identity of a file the attempt holds open. -/
def step (x : Reading) : ReadEvent → Option Reading
  | .writer a =>
    if x.attempt.isDone || x.attempt.opened.any fun id => a.makes = some id then none
    else (x.writer.step a).map fun writer => ⟨writer, x.attempt.dirChanged writer.dir⟩
  | .reader a => (x.attempt.step x.writer.dir a).map fun attempt => { x with attempt }

/-- `P` holds of the directory at some instant of the attempt. -/
def SomeInstant (s : PersistState) (events : List ReadEvent) (P : GraphDir → Prop) : Prop :=
  ∃ k y, StepSystem.run step (first s) (events.take k) = some y ∧ P y.writer.dir

end Reading

section Moves

variable {s s' : PersistState} {made : Option Nat} {n : FileName} {f : GraphFile} {t : Nat}

theorem file_of_renamed {d d' : GraphDir} {a b : FileName} (h : Directory.Renamed d a b d')
    (hf : d'.get n = some f) : ∃ m, d.get m = some f := by
  obtain ⟨g, ha, hb⟩ := h.source
  cases h.get_of_some hf with
  | inl heq =>
    rw [heq, hb] at hf
    cases hf
    exact ⟨a, ha⟩
  | inr hold => exact ⟨n, hold⟩

theorem file_of_advance {d : GraphDir} {stage : RecoveryAt}
    (hf : (stage.advance d).1.get n = some f) : ∃ m, d.get m = some f := by
  cases stage with
  | next sets =>
    cases sets with
    | nil => exact ⟨n, hf⟩
    | cons e sets =>
      obtain ⟨t, set⟩ := e
      cases hfate : set.fate (d.get .manifest).isSome with
      | discard =>
        simp only [RecoveryAt.advance, hfate] at hf
        exact ⟨n, hf⟩
      | restore restore back =>
        cases h₁ : set.restoreSnapshot {} restore d with
        | error e =>
          simp only [RecoveryAt.advance, hfate, h₁] at hf
          exact ⟨n, hf⟩
        | ok d₁ =>
          simp only [RecoveryAt.advance, hfate, h₁] at hf
          obtain ⟨aside, -, -, hmoved⟩ | ⟨-, rfl⟩ | ⟨-, rfl⟩ := restoreSnapshot_eq_ok h₁
          · exact file_of_renamed hmoved hf
          · exact ⟨n, sub_unlink n f hf⟩
          · exact ⟨n, hf⟩
  | restored u set back sets =>
    cases h₂ : set.restoreManifest {} back d with
    | error e =>
      simp only [RecoveryAt.advance, h₂] at hf
      exact ⟨n, hf⟩
    | ok d₂ =>
      simp only [RecoveryAt.advance, h₂] at hf
      obtain ⟨aside, -, -, hmoved⟩ | ⟨-, rfl⟩ := restoreManifest_eq_ok h₂
      · exact file_of_renamed hmoved hf
      · exact ⟨n, hf⟩
  | discarding names sets =>
    cases names with
    | nil => exact ⟨n, hf⟩
    | cons m names => exact ⟨n, sub_unlink n f hf⟩

theorem Move.file_of_get (h : Move s made s') (hf : s'.dir.get n = some f) :
    made = some f.id ∨ ∃ m, s.dir.get m = some f := by
  cases h with
  | takeLock | release | die | nothingAside | nothingKept | leftMarked | removed
  | failSettingAside | failKeeping | failBegun | failSaved | snapshotStays | snapshotKept
  | manifestStays | noManifest => exact Or.inr ⟨n, hf⟩
  | recover => exact Or.inr (file_of_advance hf)
  | begin hnext hchange =>
    obtain ⟨-, hfile⟩ | ⟨-, hold⟩ := hchange.get_of_some hf
    · cases hfile
      exact Or.inl rfl
    · exact Or.inr ⟨n, hold⟩
  | keep hexisted hg hchange =>
    obtain ⟨-, hfile⟩ | ⟨-, hold⟩ := hchange.get_of_some hf
    · cases hfile
      exact Or.inr ⟨_, hg⟩
    · exact Or.inr ⟨n, hold⟩
  | copy hexisted hg hchange =>
    obtain ⟨-, hfile⟩ | ⟨-, hold⟩ := hchange.get_of_some hf
    · cases hfile
      exact Or.inl rfl
    · exact Or.inr ⟨n, hold⟩
  | save hchange | writeManifest hchange =>
    obtain ⟨-, hfile⟩ | ⟨-, hold⟩ := hchange.get_of_some hf
    · cases hfile
      exact Or.inl rfl
    · exact Or.inr ⟨n, hold⟩
  | setAside hmove | placeCopy hmove | markCommitted hmove =>
    exact Or.inr (file_of_renamed hmove hf)
  | snapshotBack haside hmove | manifestBack haside hmove =>
    exact Or.inr (file_of_renamed hmove hf)
  | remove | failCopied | snapshotRemoved | removeMarker =>
    exact Or.inr ⟨n, sub_unlink n f hf⟩

theorem Move.begun_of_get (h : Move s made s') (hf : s'.dir.get (.begun t) = some f) :
    s.dir.get (.begun t) = some f ∨ f.content = .marker (begunText
      (s.dir.get .snapshot).isSome (s.dir.get .manifest).isSome) := by
  cases h with
  | takeLock | release | die | nothingAside | nothingKept | leftMarked | removed
  | failSettingAside | failKeeping | failBegun | failSaved | snapshotStays | snapshotKept
  | manifestStays | noManifest => exact Or.inl hf
  | recover => exact Or.inl (tagged_of_advance rfl hf)
  | begin hnext hchange =>
    obtain ⟨-, hfile⟩ | ⟨-, hold⟩ := hchange.get_of_some hf
    · cases hfile
      exact Or.inr rfl
    · exact Or.inl hold
  | keep hexisted hg hchange | copy hexisted hg hchange =>
    obtain ⟨heq, -⟩ | ⟨-, hold⟩ := hchange.get_of_some hf
    · cases heq
    · exact Or.inl hold
  | save hchange | writeManifest hchange =>
    obtain ⟨heq, -⟩ | ⟨-, hold⟩ := hchange.get_of_some hf
    · cases heq
    · exact Or.inl hold
  | setAside hmove | placeCopy hmove | markCommitted hmove =>
    exact Or.inl ((hmove.get_of_some hf).resolve_left (by simp [PersistRollback.committedMarker]))
  | snapshotBack haside hmove | manifestBack haside hmove =>
    exact Or.inl ((hmove.get_of_some hf).resolve_left (by simp))
  | remove | failCopied | snapshotRemoved | removeMarker => exact Or.inl (sub_unlink _ f hf)

theorem Move.index_ne_none (h : Move s made s') (hindex : s.index ≠ none) : s'.index ≠ none := by
  cases h with
  | writeManifest hchange => simp
  | _ => exact hindex

theorem Move.markedNew (h : Move s made s') (hs : Sound s) (hindex : s.index ≠ none)
    (hnew : MarkedNew s'.dir t) : MarkedNew s.dir t := by
  obtain ⟨f, hf, hmark⟩ := hnew
  cases h.begun_of_get hf with
  | inl hold => exact ⟨f, hold, hmark⟩
  | inr htext =>
    cases hk : s.index with
    | none => exact absurd hk hindex
    | some k =>
      have hdir := hs.dir
      rw [hk] at hdir
      obtain ⟨g, hg⟩ := Written.snapshot hdir
      rw [htext, hg] at hmark
      simp at hmark

end Moves

end Sqry.Rollback

/-!
What an attempt knows while holders change the directory. Before the first commit point the
snapshot it opened keeps its name, or loses it for good; after it a marker of a first persist
that is not there will not come.
-/

namespace Sqry.Rollback

section Facts

variable {d d' : GraphDir} {t : Nat} {n : FileName} {f : GraphFile}

theorem Unwritten.recoversNothing (h : Unwritten d) : RecoversNothing d := by
  rw [recoversNothing_iff, recoversIndex_iff, Bool.not_eq_true]
  have hl := lists_of d
  have hno : ∀ n, n ≠ .snapshot → (∀ t, n ≠ .begun t) → ¬ ∃ f, d.get n = some f := by
    intro n hs hb hex
    obtain ⟨f, hf⟩ := hex
    rw [h.get_eq_none hs hb] at hf
    cases hf
  have hman : d.get .manifest = none := h.get_eq_none (by simp) (by simp)
  rw [hman]
  refine leavesFrom_eq_false (fun e he => ⟨?_, ?_⟩) fun hsnap => ?_
  · rw [← Option.not_isSome_iff_eq_none, (hl.names he).isSome_manifestAside]
    exact hno _ (by simp) (by simp)
  · rw [← Option.not_isSome_iff_eq_none, (hl.names he).isSome_snapshotAside]
    exact hno _ (by simp) (by simp)
  · obtain ⟨f, hf⟩ := Option.isSome_iff_exists.1 hsnap
    obtain ⟨t, -, g, hg, hmark⟩ := h.writer hf
    obtain ⟨set, hmem⟩ := hl.covers hg rfl
    refine ⟨(t, set), hmem, (hl.marked hmem).2 ⟨g, hg, hmark⟩, ?_⟩
    rw [← Option.not_isSome_iff_eq_none, (hl.names hmem).isSome_committed]
    exact hno _ (by simp) (by simp)

theorem Written.recoversIndex (h : Written d) : RecoversIndex d := by
  rw [recoversIndex_iff]
  have hl := lists_of d
  have hsnap : (d.get .snapshot).isSome = true := Option.isSome_iff_exists.2 h.snapshot
  rw [hsnap]
  refine leavesFrom_eq_true ?_
  cases hman : d.get .manifest with
  | some f => exact Or.inl rfl
  | none =>
    refine Or.inr fun e he => Bool.eq_false_iff.2 fun hb => ?_
    obtain ⟨f, hf⟩ := h.marked ((hl.marked he).1 hb)
    rw [hman] at hf
    cases hf

def Gone (d : GraphDir) (id : Nat) : Prop := ∀ n f, d.get n = some f → f.id ≠ id

theorem identify_eq_some {o : Nat} (h : identify d n = some o) :
    ∃ f, d.get n = some f ∧ f.id = o :=
  Option.map_eq_some_iff.1 h

theorem isSome_identify : (identify d n).isSome = (d.get n).isSome := Option.isSome_map

theorem readMarker_eq_true (h : Attempt.readMarker d (.begun t) = true) : MarkedNew d t := by
  rw [Attempt.readMarker] at h
  split at h
  · next f hf => exact ⟨f, hf, h⟩
  · cases h

theorem MarkedNew.readMarker (h : MarkedNew d t) : Attempt.readMarker d (.begun t) = true := by
  obtain ⟨f, hf, hmark⟩ := h
  simp [Attempt.readMarker, hf, hmark]

end Facts

section Writer

variable {s s' : PersistState} {made : Option Nat} {o : Nat} {f : GraphFile}

theorem Gone.move (h : Gone s.dir o) (hmove : Move s made s') (hmade : made ≠ some o) :
    Gone s'.dir o := by
  intro n g hg hid
  cases hmove.file_of_get hg with
  | inl heq => exact hmade (heq.trans (congrArg some hid))
  | inr hold =>
    obtain ⟨m, hm⟩ := hold
    exact h m g hm hid

theorem kept_or_gone (hmove : Move s made s') (hdir : Unwritten s.dir) (hdir' : Unwritten s'.dir)
    (hf : s.dir.get .snapshot = some f) (hmade : made ≠ some f.id) :
    s'.dir.get .snapshot = some f ∨ Gone s'.dir f.id := by
  by_cases hkept : s'.dir.get .snapshot = some f
  · exact Or.inl hkept
  · right
    intro n g hg hid
    cases hmove.file_of_get hg with
    | inl heq => exact hmade (heq.trans (congrArg some hid))
    | inr hold =>
      obtain ⟨m, hm⟩ := hold
      have hsame : g = f := Directory.same_of_id hm hf hid
      subst hsame
      cases hdir'.names hg with
      | inl heq =>
        subst heq
        exact hkept hg
      | inr hbegun =>
        obtain ⟨t, -, hmark⟩ := hbegun
        obtain ⟨u, hcontent, -⟩ := hdir.writer hf
        rw [hcontent] at hmark
        cases hmark

end Writer

def Plain (entries : List (FileName × Bool)) : Prop :=
  ∀ {n b}, (n, b) ∈ entries → n = .snapshot ∨ ∃ t, n = .begun t

def AllNew (t : Nat) (entries : List (FileName × Bool)) : Prop :=
  ∀ b, (FileName.begun t, b) ∈ entries → b = true

/-- The snapshot seen first has its name still, and the marker of its transaction is owed and
was never read otherwise; or it is gone. -/
def Kept (d : GraphDir) (owed : List FileName) (entries : List (FileName × Bool)) (o : Nat) :
    Prop :=
  Gone d o ∨ ∃ f t, d.get .snapshot = some f ∧ f.id = o ∧ f.content = .snapshot t ∧
    .begun t ∈ owed ∧ AllNew t entries

def FirstRead (d : GraphDir) : Attempt → Prop
  | .sawManifest manifest => manifest = none
  | .looked before => before.manifest = none ∧
      ∀ o, before.snapshot = some o → Gone d o ∨ ∃ f, d.get .snapshot = some f ∧ f.id = o
  | .listing before owed unread entries => before.manifest = none ∧ Plain entries ∧
      (∀ n ∈ unread, ∃ t, n = .begun t) ∧
      ∀ o, before.snapshot = some o → Kept d owed entries o
  | .sawManifestAgain before entries manifest => manifest = none ∧ Plain entries ∧
      ∀ o, before.snapshot = some o →
        Gone d o ∨ ∃ t, (FileName.begun t, true) ∈ entries ∧ AllNew t entries
  | .done unchanged answer => unchanged = true → answer = false

def Unmarked (d : GraphDir) : Prop := ∀ t, ¬ MarkedNew d t

def NeverNew (entries : List (FileName × Bool)) : Prop :=
  ∀ t, (FileName.begun t, true) ∉ entries

def LaterRead (d : GraphDir) : Attempt → Prop
  | .sawManifest manifest => manifest = none → Unmarked d
  | .looked before => before.manifest = none → Unmarked d
  | .listing before _ _ entries => before.manifest = none → Unmarked d ∧ NeverNew entries
  | .sawManifestAgain before entries _ => before.manifest = none → NeverNew entries
  | .done unchanged answer => unchanged = true → answer = true

section Answer

variable {entries : List (FileName × Bool)} {s : Bool} {t : Nat}

theorem Plain.aside (h : Plain entries) :
    ∀ e ∈ (RollbackListing.ofEntries entries).sets,
      e.2.manifestAside = none ∧ e.2.snapshotAside = none ∧ e.2.committed = none := by
  intro e he
  obtain ⟨t, set⟩ := e
  obtain ⟨-, rfl⟩ := mem_ofEntries.1 he
  have hno : ∀ n, n ≠ .snapshot → (∀ t, n ≠ .begun t) → ¬ ∃ b, (n, b) ∈ entries := by
    intro n hs hb hex
    obtain ⟨b, hmem⟩ := hex
    cases h hmem with
    | inl heq => exact hs heq
    | inr hex =>
      obtain ⟨u, heq⟩ := hex
      exact hb u heq
  refine ⟨?_, ?_, ?_⟩
  · rw [← Option.not_isSome_iff_eq_none, names_setOf.isSome_manifestAside]
    exact hno _ (by simp) (by simp)
  · rw [← Option.not_isSome_iff_eq_none, names_setOf.isSome_snapshotAside]
    exact hno _ (by simp) (by simp)
  · rw [← Option.not_isSome_iff_eq_none, names_setOf.isSome_committed]
    exact hno _ (by simp) (by simp)

theorem Plain.answer (h : Plain entries)
    (hnew : s = true → ∃ t, (FileName.begun t, true) ∈ entries ∧ AllNew t entries) :
    (RollbackListing.ofEntries entries).leavesAnIndex false s = false := by
  refine leavesFrom_eq_false (fun e he => ⟨(h.aside e he).1, (h.aside e he).2.1⟩) fun hs => ?_
  obtain ⟨t, hmem, hall⟩ := hnew hs
  have he : (t, setOf t entries) ∈ (RollbackListing.ofEntries entries).sets :=
    mem_ofEntries.2 ⟨⟨_, hmem, rfl⟩, rfl⟩
  refine ⟨_, he, ?_, (h.aside _ he).2.2⟩
  cases begunWithoutSnapshot_setOf t entries with
  | inl hno => exact absurd hmem (hno.1 true)
  | inr hread => exact hall _ hread

theorem NeverNew.answer (h : NeverNew entries) (m : Bool) :
    (RollbackListing.ofEntries entries).leavesAnIndex m true = true := by
  refine leavesFrom_eq_true (Or.inr fun e he => Bool.eq_false_iff.2 fun hb => ?_)
  obtain ⟨t, set⟩ := e
  obtain ⟨-, rfl⟩ := mem_ofEntries.1 he
  cases begunWithoutSnapshot_setOf t entries with
  | inl hno => simp [hno.2] at hb
  | inr hread =>
    rw [hb] at hread
    exact h t hread

end Answer

end Sqry.Rollback
