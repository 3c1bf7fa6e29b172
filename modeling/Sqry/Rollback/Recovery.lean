import Sqry.Rollback.Listing

/-!
Recovery over the rollback sets of a directory, oldest first, and its prediction: a read of
the names tells whether a recovery that succeeds leaves an index.
-/

namespace Sqry.Rollback

/-- The file operations that fail: a rename by the name it renames, a removal by its name. -/
structure Faults where
  rename : FileName → Bool := fun _ => false
  remove : FileName → Bool := fun _ => false

inductive RecoveryError
  | putBackSnapshot (aside : FileName)
  | removeNew
  | putBackManifest (aside : FileName)
  deriving DecidableEq

structure RecoveryOutcome where
  restored : Nat := 0
  discarded : Nat := 0
  deriving DecidableEq

def moveBack (faults : Faults) (error : FileName → RecoveryError) (aside target : FileName)
    (d : GraphDir) : Except RecoveryError GraphDir :=
  if faults.rename aside then .error (error aside)
  else
    match d.rename aside target with
    | some d' => .ok d'
    | none => .error (error aside)

def removeNames (faults : Faults) (names : List FileName) (d : GraphDir) : GraphDir :=
  names.foldl (fun d n => if faults.remove n then d else d.unlink n) d

namespace RollbackSet

def discard (faults : Faults) (set : RollbackSet) (d : GraphDir) : GraphDir :=
  removeNames faults set.names d

def restoreSnapshot (faults : Faults) (restore : SnapshotRestore) (set : RollbackSet)
    (d : GraphDir) : Except RecoveryError GraphDir :=
  match restore, set.snapshotAside with
  | .putBack, some aside => moveBack faults .putBackSnapshot aside .snapshot d
  | .removeNew, _ =>
    if faults.remove .snapshot && (d.get .snapshot).isSome then .error .removeNew
    else .ok (d.unlink .snapshot)
  | _, _ => .ok d

def restoreManifest (faults : Faults) (manifestBack : Bool) (set : RollbackSet)
    (d : GraphDir) : Except RecoveryError GraphDir :=
  match manifestBack, set.manifestAside with
  | true, some aside => moveBack faults .putBackManifest aside .manifest d
  | _, _ => .ok d

end RollbackSet

def recoverSets (faults : Faults) : List (Nat × RollbackSet) → RecoveryOutcome → GraphDir →
    GraphDir × Except RecoveryError RecoveryOutcome
  | [], outcome, d => (d, .ok outcome)
  | (_, set) :: sets, outcome, d =>
    match set.fate (d.get .manifest).isSome with
    | .discard =>
      recoverSets faults sets { outcome with discarded := outcome.discarded + 1 }
        (set.discard faults d)
    | .restore snapshot manifestBack =>
      match set.restoreSnapshot faults snapshot d with
      | .error e => (d, .error e)
      | .ok d₁ =>
        match set.restoreManifest faults manifestBack d₁ with
        | .error e => (d₁, .error e)
        | .ok d₂ =>
          recoverSets faults sets { outcome with restored := outcome.restored + 1 }
            (set.discard faults d₂)

def recoverInterruptedPersist (faults : Faults) (d : GraphDir) :
    GraphDir × Except RecoveryError RecoveryOutcome :=
  recoverSets faults (RollbackListing.of d).sets {} d

def HasIndex (d : GraphDir) : Prop := (d.get .manifest).isSome ∨ (d.get .snapshot).isSome

def RecoversIndex (d : GraphDir) : Prop :=
  ∃ d' outcome, recoverInterruptedPersist {} d = (d', .ok outcome) ∧ HasIndex d'

def RecoversNothing (d : GraphDir) : Prop :=
  ∃ d' outcome, recoverInterruptedPersist {} d = (d', .ok outcome) ∧ ¬ HasIndex d'

section Steps

variable {faults : Faults} {t : Nat} {P : FileName → Prop} {set : RollbackSet}
  {sets : List (Nat × RollbackSet)} {d d' : GraphDir} {n : FileName}

theorem moveBack_eq_ok {error : FileName → RecoveryError} {aside target : FileName}
    (h : moveBack faults error aside target d = .ok d') :
    Directory.Renamed d aside target d' := by
  rw [moveBack] at h
  split at h
  · cases h
  · split at h
    · next d₂ hd =>
      cases h
      exact Directory.rename_eq_some hd
    · cases h

theorem moveBack_ok {error : FileName → RecoveryError} {aside target : FileName}
    {f : GraphFile} (h : d.get aside = some f) :
    ∃ d', moveBack {} error aside target d = .ok d' := by
  have hsome : (d.rename aside target).isSome := by
    rw [Directory.rename_isSome, h]
    rfl
  obtain ⟨d', hd⟩ := Option.isSome_iff_exists.1 hsome
  exact ⟨d', by simp [moveBack, hd]⟩

theorem get_removeNames {names : List FileName} (h : ∀ m ∈ names, m ≠ n) :
    (removeNames faults names d).get n = d.get n := by
  induction names generalizing d with
  | nil => rfl
  | cons m names ih =>
    have hm : n ≠ m := (h m List.mem_cons_self).symm
    have hrest : ∀ k ∈ names, k ≠ n := fun k hk => h k (List.mem_cons_of_mem m hk)
    refine (ih hrest).trans ?_
    by_cases hf : faults.remove m <;> simp [hf, hm]

theorem get_removeNames_of_mem {names : List FileName} (h : n ∈ names ∨ d.get n = none) :
    (removeNames {} names d).get n = none := by
  induction names generalizing d with
  | nil => exact h.resolve_left (List.not_mem_nil)
  | cons m names ih =>
    apply ih
    by_cases hn : n ∈ names
    · exact Or.inl hn
    · right
      by_cases hm : n = m
      · simp [hm]
      · simpa [hm, hn] using h

theorem get_discard (hset : set.Names t P) (hn : n.tag ≠ some t) :
    (set.discard faults d).get n = d.get n := by
  apply get_removeNames
  intro m hm heq
  exact hn (heq ▸ (hset.mem_names.1 hm).1)

theorem restoreManifest_eq_ok {manifestBack : Bool}
    (h : set.restoreManifest faults manifestBack d = .ok d') :
    (∃ aside, manifestBack = true ∧ set.manifestAside = some aside ∧
      Directory.Renamed d aside .manifest d') ∨
    (manifestBack = false ∨ set.manifestAside = none) ∧ d' = d := by
  cases manifestBack with
  | false => exact Or.inr ⟨Or.inl rfl, (Except.ok.inj h).symm⟩
  | true =>
    cases ha : set.manifestAside with
    | none =>
      simp only [RollbackSet.restoreManifest, ha] at h
      exact Or.inr ⟨Or.inr rfl, (Except.ok.inj h).symm⟩
    | some aside =>
      simp only [RollbackSet.restoreManifest, ha] at h
      exact Or.inl ⟨aside, rfl, rfl, moveBack_eq_ok h⟩

variable {restore : SnapshotRestore}

theorem restoreSnapshot_eq_ok (h : set.restoreSnapshot faults restore d = .ok d') :
    (∃ aside, restore = .putBack ∧ set.snapshotAside = some aside ∧
      Directory.Renamed d aside .snapshot d') ∨
    restore = .removeNew ∧ d' = d.unlink .snapshot ∨
    (restore = .keep ∨ restore = .putBack ∧ set.snapshotAside = none) ∧ d' = d := by
  cases restore with
  | keep => exact Or.inr (Or.inr ⟨Or.inl rfl, (Except.ok.inj h).symm⟩)
  | removeNew =>
    simp only [RollbackSet.restoreSnapshot] at h
    split at h
    · cases h
    · exact Or.inr (Or.inl ⟨rfl, (Except.ok.inj h).symm⟩)
  | putBack =>
    cases ha : set.snapshotAside with
    | none =>
      simp only [RollbackSet.restoreSnapshot, ha] at h
      exact Or.inr (Or.inr ⟨Or.inr ⟨rfl, rfl⟩, (Except.ok.inj h).symm⟩)
    | some aside =>
      simp only [RollbackSet.restoreSnapshot, ha] at h
      exact Or.inl ⟨aside, rfl, rfl, moveBack_eq_ok h⟩

theorem get_restoreManifest (hset : set.Names t P) {manifestBack : Bool}
    (h : set.restoreManifest faults manifestBack d = .ok d')
    (hn : n.tag ≠ some t) (hm : n ≠ .manifest) : d'.get n = d.get n := by
  obtain ⟨aside, -, ha, hmoved⟩ | ⟨-, rfl⟩ := restoreManifest_eq_ok h
  · obtain ⟨rfl, -⟩ := (hset.manifestAside aside).1 ha
    exact hmoved.others n (fun heq => hn (heq ▸ rfl)) hm
  · rfl

theorem get_restoreSnapshot (hset : set.Names t P)
    (h : set.restoreSnapshot faults restore d = .ok d') (hn : n.tag ≠ some t) (hs : n ≠ .snapshot)
    : d'.get n = d.get n := by
  obtain ⟨aside, -, ha, hmoved⟩ | ⟨-, rfl⟩ | ⟨-, rfl⟩ := restoreSnapshot_eq_ok h
  · obtain ⟨rfl, -⟩ := (hset.snapshotAside aside).1 ha
    exact hmoved.others n (fun heq => hn (heq ▸ rfl)) hs
  · simp [hs]
  · rfl

theorem isSome_restoreManifest
    (h : set.restoreManifest faults set.manifestAside.isSome d = .ok d') :
    (d'.get .manifest).isSome = ((d.get .manifest).isSome || set.manifestAside.isSome) := by
  obtain ⟨aside, -, ha, hmoved⟩ | ⟨hno, rfl⟩ := restoreManifest_eq_ok h
  · simp [ha, hmoved.present_of_target]
  · cases hno with
    | inl hno => simp [hno]
    | inr hno => simp [hno]

def SnapshotRestore.leaves (snapshot : Bool) : SnapshotRestore → Bool
  | .putBack => true
  | .removeNew => false
  | .keep => snapshot

theorem fate_eq_restore {m back : Bool} (h : set.fate m = .restore restore back) :
    set.committed = none ∧ m = false ∧ back = set.manifestAside.isSome ∧
      restore = if set.snapshotAside.isSome then .putBack
        else if set.begunWithoutSnapshot then .removeNew else .keep := by
  rw [RollbackSet.fate] at h
  split at h
  · cases h
  · next hno =>
    rw [Bool.or_eq_true, not_or, Option.not_isSome_iff_eq_none, Bool.not_eq_true] at hno
    cases h
    exact ⟨hno.1, hno.2, rfl, rfl⟩

theorem isSome_restoreSnapshot {m back : Bool} (hfate : set.fate m = .restore restore back)
    (h : set.restoreSnapshot faults restore d = .ok d') :
    (d'.get .snapshot).isSome = restore.leaves (d.get .snapshot).isSome := by
  obtain ⟨aside, rfl, -, hmoved⟩ | ⟨rfl, rfl⟩ | ⟨hno, rfl⟩ := restoreSnapshot_eq_ok h
  · exact hmoved.present_of_target
  · simp [SnapshotRestore.leaves]
  · cases hno with
    | inl hkeep => rw [hkeep, SnapshotRestore.leaves]
    | inr hput =>
      obtain ⟨-, -, -, hrestore⟩ := fate_eq_restore hfate
      rw [hput.1, hput.2] at hrestore
      by_cases hb : set.begunWithoutSnapshot <;> simp [hb] at hrestore

/-- A recovery that succeeds leaves what was predicted from the names alone, whatever it
could not remove. -/
theorem leavesFrom_eq_of_recoverSets {outcome out : RecoveryOutcome}
    (hsets : ∀ t set, (t, set) ∈ sets → ∃ P, RollbackSet.Names t P set)
    (h : recoverSets faults sets outcome d = (d', .ok out)) :
    RollbackListing.leavesFrom sets (d.get .manifest).isSome (d.get .snapshot).isSome =
      ((d'.get .manifest).isSome || (d'.get .snapshot).isSome) := by
  induction sets generalizing outcome d with
  | nil =>
    cases h
    rfl
  | cons e sets ih =>
    obtain ⟨t, set⟩ := e
    obtain ⟨P, hset⟩ := hsets t set List.mem_cons_self
    have hrest : ∀ u s, (u, s) ∈ sets → ∃ P, RollbackSet.Names u P s :=
      fun u s hs => hsets u s (List.mem_cons_of_mem _ hs)
    have hkeep : ∀ d₀ : GraphDir, (set.discard faults d₀).get .manifest = d₀.get .manifest ∧
        (set.discard faults d₀).get .snapshot = d₀.get .snapshot := fun d₀ =>
      ⟨get_discard hset (by simp [FileName.tag]), get_discard hset (by simp [FileName.tag])⟩
    cases hfate : set.fate (d.get .manifest).isSome with
    | discard =>
      simp only [recoverSets, hfate] at h
      simp only [RollbackListing.leavesFrom, hfate]
      have hdone := ih hrest h
      rwa [(hkeep d).1, (hkeep d).2] at hdone
    | restore restore back =>
      simp only [recoverSets, hfate] at h
      simp only [RollbackListing.leavesFrom, hfate]
      obtain ⟨-, hm, hback, -⟩ := fate_eq_restore hfate
      subst hback
      cases h₁ : set.restoreSnapshot faults restore d with
      | error e => simp [h₁] at h
      | ok d₁ =>
        cases h₂ : set.restoreManifest faults set.manifestAside.isSome d₁ with
        | error e => simp [h₁, h₂] at h
        | ok d₂ =>
          simp only [h₁, h₂] at h
          have hmanifest : d₁.get .manifest = d.get .manifest :=
            get_restoreSnapshot hset h₁ (by simp [FileName.tag]) (by simp)
          have hsnapshot : d₂.get .snapshot = d₁.get .snapshot :=
            get_restoreManifest hset h₂ (by simp [FileName.tag]) (by simp)
          have hdone := ih hrest h
          rw [(hkeep d₂).1, (hkeep d₂).2, isSome_restoreManifest h₂, hmanifest,
            hsnapshot, isSome_restoreSnapshot hfate h₁] at hdone
          cases restore <;> exact hdone

/-- Once the files of the oldest set are gone and the others untouched, the rest is the
listing. -/
theorem Lists.rest (h : Lists d ((t, set) :: sets))
    (hsame : ∀ n u, n.tag = some u → u ≠ t → d'.get n = d.get n)
    (hgone : ∀ n, n.tag = some t → d'.get n = none) : Lists d' sets := by
  obtain ⟨hlt, hsorted⟩ := OrderedEntries.sorted_cons.1 h.sorted
  have hne : ∀ {u s}, (u, s) ∈ sets → u ≠ t := fun hmem => (hlt _ hmem).ne'
  refine ⟨hsorted, fun {u s} hmem => ?_, fun {u s} hmem => ?_, fun {n f u} hf hu => ?_,
    fun {u s} hmem => ?_⟩
  · refine (h.names (List.mem_cons_of_mem _ hmem)).congr fun n hn => ?_
    rw [hsame n u hn (hne hmem)]
  · rw [hsame _ u rfl (hne hmem)]
    exact h.marked (List.mem_cons_of_mem _ hmem)
  · have hut : u ≠ t := by
      intro heq
      subst heq
      rw [hgone n hu] at hf
      cases hf
    rw [hsame n u hu hut] at hf
    obtain ⟨s, hs⟩ := h.covers hf hu
    cases List.mem_cons.1 hs with
    | inl heq =>
      cases heq
      exact absurd rfl hut
    | inr hmem => exact ⟨s, hmem⟩
  · obtain ⟨n, f, hf, hu⟩ := h.inhabited (List.mem_cons_of_mem _ hmem)
    exact ⟨n, f, by rw [hsame n u hu (hne hmem), hf], hu⟩

theorem ne_of_tag {u : Nat} {m : FileName} (hn : n.tag = some u) (hm : m.tag = none) :
    n ≠ m := by
  intro heq
  subst heq
  rw [hm] at hn
  cases hn

theorem restored_tagged (hset : set.Names t P) {back : Bool} {d₁ : GraphDir}
    (h₁ : set.restoreSnapshot faults restore d = .ok d₁)
    (h₂ : set.restoreManifest faults back d₁ = .ok d') {u : Nat} (hn : n.tag = some u) :
    (u ≠ t → d'.get n = d.get n) ∧ ∀ f, d'.get n = some f → d.get n = some f := by
  have hs : n ≠ .snapshot := ne_of_tag hn rfl
  have hm : n ≠ .manifest := ne_of_tag hn rfl
  constructor
  · intro hu
    have htag : n.tag ≠ some t := fun heq => hu (Option.some.inj (hn.symm.trans heq))
    rw [get_restoreManifest hset h₂ htag hm, get_restoreSnapshot hset h₁ htag hs]
  · intro f hf
    have hback : d₁.get n = some f := by
      obtain ⟨aside, -, ha, hmoved⟩ | ⟨-, rfl⟩ := restoreManifest_eq_ok h₂
      · exact (hmoved.get_of_some hf).resolve_left hm
      · exact hf
    obtain ⟨aside, -, ha, hmoved⟩ | ⟨-, rfl⟩ | ⟨-, rfl⟩ := restoreSnapshot_eq_ok h₁
    · exact (hmoved.get_of_some hback).resolve_left hs
    · simpa [hs] using hback
    · exact hback

theorem Lists.discard (h : Lists d ((t, set) :: sets))
    (hsame : ∀ n u, n.tag = some u → u ≠ t → d'.get n = d.get n)
    (hold : ∀ n f, n.tag = some t → d'.get n = some f → ∃ g, d.get n = some g) :
    Lists (set.discard {} d') sets := by
  have hset := h.names List.mem_cons_self
  refine h.rest (fun n u hn hu => ?_) fun n hn => get_removeNames_of_mem ?_
  · rw [get_discard hset fun heq => hu (Option.some.inj (hn.symm.trans heq))]
    exact hsame n u hn hu
  · cases hf : d'.get n with
    | none => exact Or.inr rfl
    | some f => exact Or.inl (hset.mem_names.2 ⟨hn, hold n f hn hf⟩)

theorem restoreSnapshot_total (hset : set.Names t fun n => ∃ f, d.get n = some f)
    (restore : SnapshotRestore) : ∃ d', set.restoreSnapshot {} restore d = .ok d' := by
  cases restore with
  | keep => exact ⟨d, rfl⟩
  | removeNew => exact ⟨_, rfl⟩
  | putBack =>
    cases ha : set.snapshotAside with
    | none => exact ⟨d, by simp [RollbackSet.restoreSnapshot, ha]⟩
    | some aside =>
      obtain ⟨f, hf⟩ := ((hset.snapshotAside aside).1 ha).2
      simpa only [RollbackSet.restoreSnapshot, ha] using moveBack_ok hf

theorem restoreManifest_total (h : ∀ n, set.manifestAside = some n → ∃ f, d.get n = some f)
    (back : Bool) : ∃ d', set.restoreManifest {} back d = .ok d' := by
  cases back with
  | false => exact ⟨d, rfl⟩
  | true =>
    cases ha : set.manifestAside with
    | none => exact ⟨d, by simp [RollbackSet.restoreManifest, ha]⟩
    | some aside =>
      obtain ⟨f, hf⟩ := h aside ha
      simpa only [RollbackSet.restoreManifest, ha] using moveBack_ok hf

theorem get_restoreSnapshot_eq (hset : set.Names t P)
    (h : set.restoreSnapshot faults restore d = .ok d') (hs : n ≠ .snapshot)
    (ha : n ≠ .snapshotAside t) : d'.get n = d.get n := by
  obtain ⟨aside, -, haside, hmoved⟩ | ⟨-, rfl⟩ | ⟨-, rfl⟩ := restoreSnapshot_eq_ok h
  · obtain ⟨rfl, -⟩ := (hset.snapshotAside aside).1 haside
    exact hmoved.others n ha hs
  · simp [hs]
  · rfl

theorem recoverSets_ok (outcome : RecoveryOutcome) (h : Lists d sets) :
    ∃ d' out, recoverSets {} sets outcome d = (d', .ok out) ∧ Lists d' [] := by
  induction sets generalizing outcome d with
  | nil => exact ⟨d, outcome, rfl, h⟩
  | cons e sets ih =>
    obtain ⟨t, set⟩ := e
    have hset := h.names List.mem_cons_self
    cases hfate : set.fate (d.get .manifest).isSome with
    | discard =>
      have hrest := h.discard (fun _ _ _ _ => rfl) fun n f _ hf => ⟨f, hf⟩
      obtain ⟨d', out, hrec, hnone⟩ := ih _ hrest
      exact ⟨d', out, by rw [recoverSets, hfate]; exact hrec, hnone⟩
    | restore restore back =>
      obtain ⟨d₁, h₁⟩ := restoreSnapshot_total hset restore
      have hkept : ∀ n, set.manifestAside = some n → ∃ f, d₁.get n = some f := by
        intro n hn
        obtain ⟨rfl, f, hf⟩ := (hset.manifestAside n).1 hn
        exact ⟨f, by rw [get_restoreSnapshot_eq hset h₁ (by simp) (by simp), hf]⟩
      obtain ⟨d₂, h₂⟩ := restoreManifest_total hkept back
      have hrest : Lists (set.discard {} d₂) sets :=
        h.discard (fun n u hn hu => (restored_tagged hset h₁ h₂ hn).1 hu)
          fun n f hn hf => ⟨f, (restored_tagged hset h₁ h₂ hn).2 f hf⟩
      obtain ⟨d', out, hrec, hnone⟩ := ih _ hrest
      refine ⟨d', out, ?_, hnone⟩
      rw [recoverSets, hfate]
      simp only [h₁, h₂]
      exact hrec

/-- The prediction, read from any order of the entries, is what a recovery that succeeds
leaves. -/
theorem leavesAnIndex_eq_of_recover {entries : List (FileName × Bool)} {out : RecoveryOutcome}
    (hread : Reads d entries) (h : recoverInterruptedPersist faults d = (d', .ok out)) :
    (RollbackListing.ofEntries entries).leavesAnIndex (d.get .manifest).isSome
      (d.get .snapshot).isSome = true ↔ HasIndex d' := by
  have hpredict : (RollbackListing.of d).leavesAnIndex (d.get .manifest).isSome
      (d.get .snapshot).isSome = ((d'.get .manifest).isSome || (d'.get .snapshot).isSome) :=
    leavesFrom_eq_of_recoverSets (fun t set hmem => ⟨_, (lists_of d).names hmem⟩) h
  rw [hread.leavesAnIndex_eq (reads_entriesOf d)]
  exact (Bool.eq_iff_iff.1 hpredict).trans (Bool.or_eq_true _ _ ▸ Iff.rfl)

theorem recoversIndex_iff : RecoversIndex d ↔
    (RollbackListing.of d).leavesAnIndex (d.get .manifest).isSome (d.get .snapshot).isSome
      = true := by
  obtain ⟨d', out, hrec, -⟩ := recoverSets_ok {} (lists_of d)
  have hiff := leavesAnIndex_eq_of_recover (reads_entriesOf d) hrec
  constructor
  · intro h
    obtain ⟨d₂, out₂, hrec₂, hindex⟩ := h
    cases hrec.symm.trans hrec₂
    exact hiff.2 hindex
  · intro h
    exact ⟨d', out, hrec, hiff.1 h⟩

theorem recoversNothing_iff : RecoversNothing d ↔ ¬ RecoversIndex d := by
  obtain ⟨d', out, hrec, -⟩ := recoverSets_ok {} (lists_of d)
  constructor
  · intro h hindex
    obtain ⟨d₂, out₂, hrec₂, hno⟩ := h
    obtain ⟨d₃, out₃, hrec₃, hyes⟩ := hindex
    cases hrec₂.symm.trans hrec₃
    exact hno hyes
  · intro h
    exact ⟨d', out, hrec, fun hyes => h ⟨d', out, hrec, hyes⟩⟩

theorem leavesFrom_eq_false {s : Bool}
    (haside : ∀ e ∈ sets, e.2.manifestAside = none ∧ e.2.snapshotAside = none)
    (hnew : s = true → ∃ e ∈ sets, e.2.begunWithoutSnapshot = true ∧ e.2.committed = none) :
    RollbackListing.leavesFrom sets false s = false := by
  induction sets generalizing s with
  | nil =>
    cases s with
    | false => rfl
    | true =>
      obtain ⟨e, hmem, -⟩ := hnew rfl
      cases hmem
  | cons e sets ih =>
    obtain ⟨t, set⟩ := e
    have hm : set.manifestAside = none := (haside _ List.mem_cons_self).1
    have hs : set.snapshotAside = none := (haside _ List.mem_cons_self).2
    have hrest : ∀ e ∈ sets, e.2.manifestAside = none ∧ e.2.snapshotAside = none :=
      fun e he => haside e (List.mem_cons_of_mem _ he)
    have hlater : set.begunWithoutSnapshot = false ∨ set.committed.isSome = true → s = true →
        ∃ e ∈ sets, e.2.begunWithoutSnapshot = true ∧ e.2.committed = none := by
      intro hno htrue
      obtain ⟨e, hmem, hb, hc⟩ := hnew htrue
      cases List.mem_cons.1 hmem with
      | inl heq =>
        subst heq
        cases hno with
        | inl hno => exact absurd (hb.symm.trans hno) (by simp)
        | inr hno => exact absurd (hc ▸ hno : (none : Option FileName).isSome = true) (by simp)
      | inr hmem => exact ⟨e, hmem, hb, hc⟩
    cases hc : set.committed with
    | some c =>
      have hfate : set.fate false = .discard := by simp [RollbackSet.fate, hc]
      rw [RollbackListing.leavesFrom, hfate]
      exact ih hrest (hlater (Or.inr (by simp [hc])))
    | none =>
      cases hb : set.begunWithoutSnapshot with
      | true =>
        have hfate : set.fate false = .restore .removeNew false := by
          simp [RollbackSet.fate, hc, hm, hs, hb]
        rw [RollbackListing.leavesFrom, hfate]
        exact ih hrest (by simp)
      | false =>
        have hfate : set.fate false = .restore .keep false := by
          simp [RollbackSet.fate, hc, hm, hs, hb]
        rw [RollbackListing.leavesFrom, hfate]
        exact ih hrest (hlater (Or.inl hb))

theorem leavesFrom_eq_true {m : Bool}
    (h : m = true ∨ ∀ e ∈ sets, e.2.begunWithoutSnapshot = false) :
    RollbackListing.leavesFrom sets m true = true := by
  induction sets generalizing m with
  | nil => simp [RollbackListing.leavesFrom]
  | cons e sets ih =>
    obtain ⟨t, set⟩ := e
    have hrest : m = true ∨ ∀ e ∈ sets, e.2.begunWithoutSnapshot = false :=
      h.imp id fun hall e he => hall e (List.mem_cons_of_mem _ he)
    cases hfate : set.fate m with
    | discard =>
      rw [RollbackListing.leavesFrom, hfate]
      exact ih hrest
    | restore restore back =>
      obtain ⟨-, rfl, -, hrestore⟩ := fate_eq_restore hfate
      have hb : set.begunWithoutSnapshot = false :=
        h.resolve_left (by simp) _ List.mem_cons_self
      have hnew : restore ≠ .removeNew := by
        intro hnew
        rw [hnew, hb] at hrestore
        cases hs : set.snapshotAside <;> simp [hs] at hrestore
      have hall : ∀ e ∈ sets, e.2.begunWithoutSnapshot = false := hrest.resolve_left (by simp)
      rw [RollbackListing.leavesFrom, hfate]
      cases restore with
      | putBack | keep => exact ih (Or.inr hall)
      | removeNew => exact absurd rfl hnew

end Steps

end Sqry.Rollback
