import Sqry.Rollback.PairMoves

/-!
No run of transactions, deaths and recoveries loses or tears the last committed pair, as long
as no transaction begins over what an older one left behind.
-/

namespace Sqry.Rollback

section Recovery

variable {k m t next : Nat} {d d' : GraphDir} {set : RollbackSet}
  {sets : List (Nat × RollbackSet)}

theorem PairSomewhere.atRest_of_lists (h : PairSomewhere k d) (hl : Lists d []) :
    InPlace k d ∧ Calm k d := by
  have hno : ∀ n t, n.tag = some t → d.get n = none := by
    intro n t ht
    cases hf : d.get n with
    | none => rfl
    | some f =>
      obtain ⟨set, hmem⟩ := hl.covers hf ht
      cases hmem
  cases h with
  | inl hplace =>
    refine ⟨hplace, fun _ => hno _ _ rfl, fun _ hf => ?_⟩
    rw [hno _ _ rfl] at hf
    cases hf
  | inr haside =>
    obtain ⟨m, ha, -⟩ := haside
    obtain ⟨f, hf, -⟩ := ha.manifest
    rw [hno _ _ rfl] at hf
    cases hf

theorem Lists.le_of_manifestAside {f : GraphFile} (hl : Lists d ((t, set) :: sets))
    {n : FileName} {u : Nat} (hf : d.get n = some f) (hu : n.tag = some u) : t ≤ u := by
  obtain ⟨s, hmem⟩ := hl.covers hf hu
  cases List.mem_cons.1 hmem with
  | inl heq =>
    cases heq
    exact Nat.le_refl _
  | inr hmem => exact ((OrderedEntries.sorted_cons.1 hl.sorted).1 _ hmem).le

theorem pair_restoreSnapshot {restore : SnapshotRestore} {back : Bool}
    (h : PairSomewhere k d) (hwritten : Written d) (hl : Lists d ((t, set) :: sets))
    (hfate : set.fate (d.get .manifest).isSome = .restore restore back)
    (h₁ : set.restoreSnapshot {} restore d = .ok d') :
    PairInRecovery k d' (.restored t set back sets) := by
  have hset := hl.names List.mem_cons_self
  obtain ⟨-, hman, hback, hrestore⟩ := fate_eq_restore hfate
  obtain hplace | ⟨m, ha, hsource⟩ := h
  · obtain ⟨f, hf, -⟩ := hplace.manifest
    simp [hf] at hman
  · obtain ⟨g, hg, -⟩ := ha.manifest
    have htm : t ≤ m := hl.le_of_manifestAside hg rfl
    refine ⟨hback, m, ?_⟩
    obtain ⟨aside, -, haside, hmoved⟩ | ⟨hnew, -⟩ | ⟨hkeep, rfl⟩ := restoreSnapshot_eq_ok h₁
    · obtain ⟨rfl, -⟩ := (hset.snapshotAside aside).1 haside
      obtain ⟨f, hf, htarget⟩ := hmoved.source
      refine ⟨ha.renamed hmoved (by simp) (by simp) (by simp) (by simp) (by simp)
        (by simp [FileName.tag]), htm, Or.inr ⟨f, htarget, ha.kept htm hf⟩⟩
    · have hmark : set.begunWithoutSnapshot = true := by
        rw [hnew] at hrestore
        grind
      obtain ⟨f, hf⟩ := hwritten.marked ((hl.marked List.mem_cons_self).1 hmark)
      simp [hf] at hman
    · have hnone : set.snapshotAside = none := by
        cases hkeep with
        | inr hput => exact hput.2
        | inl hkeep =>
          rw [hkeep] at hrestore
          cases hs : set.snapshotAside with
          | none => rfl
          | some n => simp [hs] at hrestore
      refine ⟨ha, htm, hsource.imp (fun hs => ?_) id⟩
      obtain ⟨u, f, hum, hf⟩ := hs
      have htu : t ≤ u := hl.le_of_manifestAside hf rfl
      refine ⟨u, f, Nat.lt_of_le_of_ne htu fun heq => ?_, hum, hf⟩
      subst heq
      have hsome := hset.isSome_snapshotAside.2 ⟨f, hf⟩
      simp [hnone] at hsome

theorem pair_restoreManifest {d₀ : GraphDir} {back : Bool}
    (h : PairInRecovery k d (.restored t set back sets)) (hl : Lists d₀ ((t, set) :: sets))
    (hr : Restored d₀ d t) (h₂ : set.restoreManifest {} back d = .ok d') :
    PairInRecovery k d' (.discarding set.names sets) := by
  have hset := hl.names List.mem_cons_self
  obtain ⟨hback, m, ha, htm, hsource⟩ := h
  obtain ⟨aside, -, haside, hmoved⟩ | ⟨hno, rfl⟩ := restoreManifest_eq_ok h₂
  · obtain ⟨rfl, f, hf⟩ := (hset.manifestAside aside).1 haside
    have hhere : d.get (.manifestAside t) = some f := by rw [hr.others (by simp) (by simp), hf]
    have heq : t = m := ha.only hhere
    subst heq
    obtain ⟨g, hg, hcontent⟩ := ha.manifest
    obtain ⟨e, he, htarget⟩ := hmoved.source
    cases hhere.symm.trans hg
    cases hhere.symm.trans he
    have hsnap : SnapshotIs k d := by
      refine hsource.resolve_left fun hbeyond => ?_
      obtain ⟨u, _, hlt, hle, _⟩ := hbeyond
      omega
    exact Or.inl ⟨⟨f, htarget, hcontent⟩,
      SnapshotIs.of_get_eq hsnap (hmoved.others _ (by simp) (by simp))⟩
  · have hnone : set.manifestAside = none := by
      cases hno with
      | inr hnone => exact hnone
      | inl hfalse =>
        rw [hfalse] at hback
        exact Option.not_isSome_iff_eq_none.1 (by simp [← hback])
    have hne : t ≠ m := by
      intro heq
      subst heq
      obtain ⟨g, hg, -⟩ := ha.manifest
      have hold : d₀.get (.manifestAside t) = some g := by
        rw [← hr.others (by simp) (by simp), hg]
      have hsome := hset.isSome_manifestAside.2 ⟨g, hold⟩
      simp [hnone] at hsome
    have htag : ∀ n ∈ set.names, n.tag = some t := fun n hn => (hset.mem_names.1 hn).1
    refine Or.inr ⟨m, ha, fun hmem => ?_, hsource.imp (fun hbeyond => ?_) id⟩
    · exact hne (Option.some.inj (htag _ hmem)).symm
    · obtain ⟨u, f, hlt, hle, hf⟩ := hbeyond
      refine ⟨u, f, hle, hf, fun hmem => ?_⟩
      have heq : u = t := Option.some.inj (htag _ hmem)
      omega

theorem pair_discard {n : FileName} {names : List FileName}
    (h : PairInRecovery k d (.discarding (n :: names) sets)) (hn : n.tag = some t) :
    PairInRecovery k (d.unlink n) (.discarding names sets) := by
  have hchange : Directory.Changed d n none _ := Directory.changed_unlink
  have hs : FileName.snapshot ≠ n := (ne_of_tag hn rfl).symm
  have hm : FileName.manifest ≠ n := (ne_of_tag hn rfl).symm
  refine Or.imp (fun hplace => InPlace.unlink_tagged hplace hn) (fun hex => ?_) h
  obtain ⟨m, ha, hmem, hsource⟩ := hex
  obtain ⟨hne, hrest⟩ := not_or.1 (mt List.mem_cons.2 hmem)
  refine ⟨m, ha.of_get_eq (hchange.others hm) (fun u => ?_) (fun u f hu hf => ?_)
    ha.younger.unlink, hrest, hsource.imp (fun hset => ?_) fun his => ?_⟩
  · by_cases heq : FileName.manifestAside u = n
    · cases hf : d.get (.manifestAside u) with
      | none => rw [← heq]; simp
      | some f =>
        have hum : u = m := ha.only hf
        exact absurd (hum ▸ heq) hne
    · exact hchange.others heq
  · exact ha.kept hu (sub_unlink _ f hf)
  · obtain ⟨u, f, hu, hf, hmem⟩ := hset
    obtain ⟨hne, hrest⟩ := not_or.1 (mt List.mem_cons.2 hmem)
    exact ⟨u, f, hu, (hchange.others hne).trans hf, hrest⟩
  · exact SnapshotIs.of_get_eq his (hchange.others hs)

theorem pair_recover {stage : RecoveryAt}
    (hsound : Sound ⟨d, .recovering stage, next, some k⟩) (h : PairInRecovery k d stage)
    (hmarked : CommitMarked k d) : PairAt k next (stage.advance d).1 (stage.advance d).2 := by
  obtain ⟨hdir, hphase, -⟩ := hsound
  cases stage with
  | next sets =>
    have hl : Lists d sets := hphase
    have hpair : PairSomewhere k d := h
    cases sets with
    | nil => exact Or.inl (hpair.atRest_of_lists hl)
    | cons e sets =>
      obtain ⟨t, set⟩ := e
      have hset := hl.names List.mem_cons_self
      cases hfate : set.fate (d.get .manifest).isSome with
      | discard =>
        simp only [RecoveryAt.advance, hfate]
        cases hpair with
        | inl hplace => exact Or.inl hplace
        | inr haside =>
          obtain ⟨m, ha, -⟩ := haside
          have hcommit : set.committed.isSome = true := by
            rw [RollbackSet.fate, ha.absent] at hfate
            split at hfate
            · next hor => simpa using hor
            · cases hfate
          obtain ⟨f, hf⟩ := hset.isSome_committed.1 hcommit
          have hle : t ≤ k := hmarked t f hf
          have hlt : k < t := ha.younger _ f t hf rfl
          omega
      | restore restore back =>
        obtain ⟨d₁, h₁⟩ := restoreSnapshot_total hset restore
        simp only [RecoveryAt.advance, hfate, h₁]
        exact pair_restoreSnapshot hpair hdir hl hfate h₁
  | restored t set back sets =>
    obtain ⟨-, d₀, hl, hr⟩ := hphase
    obtain ⟨d₂, h₂⟩ := hr.restoreManifest_total hl back
    simp only [RecoveryAt.advance, h₂]
    exact pair_restoreManifest h hl hr h₂
  | discarding names sets =>
    obtain ⟨-, htags, -⟩ := hphase
    cases names with
    | nil =>
      refine Or.imp id (fun hex => ?_) h
      obtain ⟨m, ha, -, hsource⟩ := hex
      refine ⟨m, ha, hsource.imp (fun hs => ?_) id⟩
      obtain ⟨u, f, hle, hf, -⟩ := hs
      exact ⟨u, f, hle, hf⟩
    | cons n names =>
      obtain ⟨t, hn⟩ := htags n List.mem_cons_self
      exact pair_discard h hn

end Recovery

section Runs

variable {s s' : PersistState} {made : Option Nat} {k : Nat}

theorem TagInHand.move (h : TagInHand s.nextTag s.phase) (hmove : Move s made s') :
    TagInHand s'.nextTag s'.phase := by
  cases hmove with
  | begin hnext hchange => rfl
  | @recover d stage next index =>
    cases stage with
    | next sets =>
      cases sets with
      | nil => trivial
      | cons e sets =>
        simp only [RecoveryAt.advance]
        split
        · trivial
        · split <;> trivial
    | restored t set back sets =>
      simp only [RecoveryAt.advance]
      split <;> trivial
    | discarding names sets => cases names <;> trivial
  | setAside | nothingAside | keep | nothingKept | copy | placeCopy | save => exact h
  | failSettingAside | failKeeping | failCopied | failBegun | failSaved => exact h
  | snapshotBack | snapshotKept | snapshotRemoved | manifestBack | noManifest => exact h
  | _ => trivial

theorem SavedOwn.move (hmove : Move s made s') (h : SavedOwn s.dir s.phase) :
    SavedOwn s'.dir s'.phase := by
  cases hmove with
  | save hchange => exact ⟨_, hchange.self, rfl⟩
  | @recover d stage next index =>
    cases stage with
    | next sets =>
      cases sets with
      | nil => trivial
      | cons e sets =>
        simp only [RecoveryAt.advance]
        split
        · trivial
        · split <;> trivial
    | restored t set back sets =>
      simp only [RecoveryAt.advance]
      split <;> trivial
    | discarding names sets => cases names <;> trivial
  | _ => trivial

theorem Move.committed_of_get {t : Nat} {f : GraphFile} (h : Move s made s')
    (hf : s'.dir.get (.committed t) = some f) :
    s.dir.get (.committed t) = some f ∨ ∃ r, s.phase = .committing r ∧ t = r.tag := by
  cases h with
  | takeLock | release | die | nothingAside | nothingKept | leftMarked | removed
  | failSettingAside | failKeeping | failBegun | failSaved | snapshotStays | snapshotKept
  | manifestStays | noManifest => exact Or.inl hf
  | recover => exact Or.inl (tagged_of_advance rfl hf)
  | begin hnext hchange | save hchange | writeManifest hchange =>
    obtain ⟨heq, -⟩ | ⟨-, hold⟩ := hchange.get_of_some hf
    · cases heq
    · exact Or.inl hold
  | keep hexisted hg hchange | copy hexisted hg hchange =>
    obtain ⟨heq, -⟩ | ⟨-, hold⟩ := hchange.get_of_some hf
    · cases heq
    · exact Or.inl hold
  | markCommitted hmove =>
    refine (hmove.get_of_some hf).symm.imp id fun heq => ⟨_, rfl, ?_⟩
    exact FileName.committed.inj heq
  | setAside hmove | placeCopy hmove =>
    exact Or.inl ((hmove.get_of_some hf).resolve_left (by simp))
  | snapshotBack haside hmove | manifestBack haside hmove =>
    exact Or.inl ((hmove.get_of_some hf).resolve_left (by simp))
  | remove | failCopied | snapshotRemoved | removeMarker => exact Or.inl (sub_unlink _ f hf)

theorem Move.nextTag_le (h : Move s made s') : s.nextTag ≤ s'.nextTag := by
  cases h with
  | begin hnext hchange => exact Nat.le_succ_of_le hnext
  | _ => exact Nat.le_refl _

theorem Move.index_eq (h : Move s made s') : s'.index = s.index ∨
    ∃ r, s.phase = .saved r ∧ s'.phase = .committing r ∧ s'.index = some r.tag ∧
      s'.nextTag = s.nextTag ∧ ∃ id,
        Directory.Changed s.dir .manifest (some ⟨id, .manifest r.tag⟩) s'.dir := by
  cases h with
  | writeManifest hchange => exact Or.inr ⟨_, rfl, rfl, rfl, rfl, _, hchange⟩
  | _ => exact Or.inl rfl

theorem PairKept.pair_move (h : PairKept k s) (hs : Sound s) (htag : TagInHand s.nextTag s.phase)
    (hmove : Move s made s') (hindex : s.index = some k) (hsame : s'.index = some k)
    (hclear : s.phase = .held → s'.phase ≠ .free → Clear s.index s.dir) :
    PairAt k s'.nextTag s'.dir s'.phase := by
  obtain ⟨hpair, hbelow, hmarked⟩ := h
  cases hmove with
  | takeLock => exact hpair
  | recover =>
    cases hindex
    exact pair_recover hs hpair hmarked
  | release => exact PairAt.somewhere hpair
  | die => exact PairAt.somewhere hpair
  | begin hnext hchange =>
    have hc := hclear rfl (by simp)
    cases hindex
    exact pair_begin hpair hc hs.bounded hbelow hnext hchange
  | setAside hmove => exact pair_setAside hpair hmove
  | nothingAside => exact pair_nothingAside hpair
  | keep hexisted hf hchange => exact pair_keep hpair hf hchange
  | @nothingKept d r next index hexisted =>
    cases hindex
    have hhand : InHand (some k) d r := hs.phase
    exact absurd (hhand.kind.snapshotExisted.symm.trans hexisted) (by simp)
  | copy hexisted hf hchange => exact pair_copy hpair hf hchange
  | placeCopy hmove => exact pair_placeCopy hpair hmove
  | save hchange => exact pair_save hpair hchange
  | writeManifest hchange =>
    obtain ⟨hk, -⟩ := hpair
    cases hsame
    exact absurd hk (Nat.lt_irrefl _)
  | markCommitted hmove =>
    obtain ⟨rfl, hnext, hplace⟩ := hpair
    exact ⟨hnext, hplace.of_get_eq
      (hmove.others _ (by simp [PersistRollback.marker])
        (by simp [PersistRollback.committedMarker]))
      (hmove.others _ (by simp [PersistRollback.marker])
        (by simp [PersistRollback.committedMarker]))⟩
  | leftMarked => exact ⟨hpair.2.1, hpair.2.2⟩
  | removed => exact Or.inl ⟨hpair.2, calm_of_bounded hs.bounded hpair.1⟩
  | @remove d n names next index =>
    obtain ⟨t, hn⟩ := hs.phase.2.2.1 n List.mem_cons_self
    exact ⟨hpair.1, hpair.2.unlink_tagged hn⟩
  | failSettingAside => exact pair_failSettingAside hpair
  | failKeeping => exact pair_failKeeping hpair
  | failCopied => exact pair_failCopied hpair
  | failBegun => exact pair_failBegun hpair
  | failSaved => exact pair_failBegun hpair
  | @snapshotBack d d' r aside next index haside hmove =>
    have hhand : InHand index d r := hs.phase
    cases hhand.own.snapshotAside haside
    exact pair_snapshotBack hpair haside hmove
  | snapshotStays haside => exact pair_snapshotStays hpair haside
  | snapshotKept haside hexisted => exact pair_snapshotKept hpair haside
  | @snapshotRemoved d r next index haside hexisted =>
    cases hindex
    have hhand : InHand (some k) d r := hs.phase
    exact absurd (hhand.kind.snapshotExisted.symm.trans hexisted) (by simp)
  | @manifestBack d d' r aside next index haside hmove =>
    have hhand : InHand index d r := hs.phase.1
    cases hhand.own.manifestAside haside
    exact pair_manifestBack hpair haside hs.bounded htag hmove
  | manifestStays haside => exact pair_manifestStays hpair haside
  | noManifest haside => exact pair_noManifest hpair haside
  | removeMarker => exact pair_removeMarker hpair

theorem paired_move (h : Paired s) (hmove : Move s made s')
    (hclear : s.phase = .held → s'.phase ≠ .free → Clear s.index s.dir) : Paired s' := by
  obtain ⟨hs, htag, hsaved, hkept⟩ := h
  refine ⟨sound_move hs hmove, htag.move hmove, hsaved.move hmove, fun k hk => ?_⟩
  obtain hsame | ⟨r, hphase, hphase', hindex, hnext, id, hchange⟩ := hmove.index_eq
  · have hindex : s.index = some k := hsame.symm.trans hk
    have hold := hkept k hindex
    refine ⟨hold.pair_move hs htag hmove hindex hk hclear,
      Nat.lt_of_lt_of_le hold.below hmove.nextTag_le, hold.marked.sub fun t f hf => ?_⟩
    refine (hmove.committed_of_get hf).symm.imp (fun hex => ?_) fun hold => ⟨f, hold⟩
    obtain ⟨r, hphase, rfl⟩ := hex
    have hpair := hold.pair
    rw [hphase] at hpair
    exact hpair.1.ge
  · cases hindex.symm.trans hk
    rw [hphase] at htag hsaved
    have hnext' : s'.nextTag = r.tag + 1 := hnext.trans htag
    refine ⟨?_, by omega, fun t f hf => ?_⟩
    · rw [hphase']
      refine ⟨rfl, hnext', ⟨_, hchange.self, rfl⟩, ?_⟩
      exact SnapshotIs.of_get_eq hsaved (hchange.others (by simp))
    · rw [hchange.others (by simp)] at hf
      cases hindex : s.index with
      | none =>
        have hdir := hs.dir
        rw [hindex] at hdir
        rw [Unwritten.get_eq_none hdir (by simp) (by simp)] at hf
        cases hf
      | some k =>
        have hold := hkept k hindex
        have hle : t ≤ k := hold.marked t f hf
        have hpair := hold.pair
        rw [hphase] at hpair
        have hlt : k < r.tag := hpair.1
        omega

def BeginsClear (s : PersistState) : PersistAction → Prop
  | .begin .. => Clear s.index s.dir
  | _ => True

instance (s : PersistState) : (a : PersistAction) → Decidable (BeginsClear s a)
  | .begin .. => inferInstanceAs (Decidable (Clear s.index s.dir))
  | .takeLock | .recover | .release | .die | .setAside | .keep | .copy _ | .placeCopy | .save _
  | .writeManifest _ | .markCommitted | .remove | .fail | .putBackSnapshot _
  | .putBackManifest _ | .removeMarker => isTrue trivial

theorem clear_of_step {a : PersistAction} (hok : BeginsClear s a) (hstep : s.step a = some s')
    (hheld : s.phase = .held) (hfree : s'.phase ≠ .free) : Clear s.index s.dir := by
  obtain ⟨d, phase, next, index⟩ := s
  cases hheld
  cases a with
  | begin tag id => exact hok
  | release | die =>
    cases hstep
    exact absurd rfl hfree
  | copy id => simp [PersistState.step, PersistState.copy] at hstep
  | _ => cases hstep

theorem paired_step {a : PersistAction} (h : Paired s) (hok : BeginsClear s a)
    (hstep : s.step a = some s') : Paired s' :=
  paired_move h (move_of_step hstep) (clear_of_step hok hstep)

theorem paired_empty : Paired {} where
  sound := sound_empty
  tag := trivial
  saved := trivial
  kept k hk := by cases hk

def Beside (d : GraphDir) : Prop :=
  ∀ m, d.get .manifest = some m → ∃ k s, m.content = .manifest k ∧
    d.get .snapshot = some s ∧ s.content = .snapshot k

def LastPair (index : Option Nat) (d : GraphDir) : Prop :=
  match index with
  | none => d.get .manifest = none ∧ d.get .snapshot = none
  | some k => InPlace k d

theorem Paired.beside (h : Paired s) : Beside s.dir := by
  intro m hm
  cases hindex : s.index with
  | none =>
    have hdir := h.sound.dir
    rw [hindex] at hdir
    rw [Unwritten.get_eq_none hdir (by simp) (by simp)] at hm
    cases hm
  | some k =>
    cases (h.kept k hindex).pair.somewhere with
    | inl hplace =>
      obtain ⟨f, hf, hcontent⟩ := hplace.manifest
      obtain ⟨g, hg, hsnap⟩ := hplace.snapshot
      cases hm.symm.trans hf
      exact ⟨k, g, hcontent, hg, hsnap⟩
    | inr haside =>
      obtain ⟨m', ha, -⟩ := haside
      rw [ha.absent] at hm
      cases hm

theorem Paired.lastPair (h : Paired s) (hphase : s.phase = .recovering (.next [])) :
    LastPair s.index s.dir := by
  have hl : Lists s.dir [] := by
    have hp := h.sound.phase
    rw [hphase] at hp
    exact hp
  cases hindex : s.index with
  | none =>
    have hdir := h.sound.dir
    rw [hindex] at hdir
    have hno : ∀ t, ¬ MarkedNew s.dir t := by
      intro t hnew
      obtain ⟨f, hf, -⟩ := hnew
      obtain ⟨set, hmem⟩ := hl.covers hf rfl
      cases hmem
    exact ⟨Unwritten.eq_none_of_unmarked hdir hno, Unwritten.eq_none_of_unmarked hdir hno⟩
  | some k => exact ((h.kept k hindex).pair.somewhere.atRest_of_lists hl).1

end Runs

section RecoveryRun

variable {d d' : GraphDir} {next : Nat} {index : Option Nat} {sets : List (Nat × RollbackSet)}

theorem run_discarding (names : List FileName) (d : GraphDir) :
    StepSystem.run PersistState.step ⟨d, .recovering (.discarding names sets), next, index⟩
        (List.replicate (names.length + 1) .recover) =
      some ⟨removeNames {} names d, .recovering (.next sets), next, index⟩ := by
  induction names generalizing d with
  | nil => rfl
  | cons n names ih => exact ih (d.unlink n)

theorem run_recoverSets (next : Nat) (index : Option Nat) {outcome out : RecoveryOutcome}
    (h : recoverSets {} sets outcome d = (d', .ok out)) :
    ∃ n, StepSystem.run PersistState.step ⟨d, .recovering (.next sets), next, index⟩
      (List.replicate n .recover) = some ⟨d', .recovering (.next []), next, index⟩ := by
  induction sets generalizing outcome d with
  | nil =>
    cases h
    exact ⟨0, rfl⟩
  | cons e sets ih =>
    obtain ⟨t, set⟩ := e
    rw [recoverSets] at h
    cases hfate : set.fate (d.get .manifest).isSome with
    | discard =>
      simp only [hfate] at h
      obtain ⟨n, hn⟩ := ih h
      have hstep : PersistState.step ⟨d, .recovering (.next ((t, set) :: sets)), next, index⟩
          .recover = some ⟨d, .recovering (.discarding set.names sets), next, index⟩ := by
        simp [PersistState.step, PersistState.recover, RecoveryAt.advance, hfate]
      refine ⟨1 + (set.names.length + 1 + n), ?_⟩
      rw [List.replicate_add, List.replicate_one, List.singleton_append,
        StepSystem.run_cons_of_step hstep, List.replicate_add, StepSystem.run_append,
        run_discarding]
      exact hn
    | restore restore back =>
      simp only [hfate] at h
      cases h₁ : set.restoreSnapshot {} restore d with
      | error e => simp [h₁] at h
      | ok d₁ =>
        cases h₂ : set.restoreManifest {} back d₁ with
        | error e => simp [h₁, h₂] at h
        | ok d₂ =>
          simp only [h₁, h₂] at h
          obtain ⟨n, hn⟩ := ih h
          have hstep₁ : PersistState.step
              ⟨d, .recovering (.next ((t, set) :: sets)), next, index⟩ .recover =
                some ⟨d₁, .recovering (.restored t set back sets), next, index⟩ := by
            simp [PersistState.step, PersistState.recover, RecoveryAt.advance, hfate, h₁]
          have hstep₂ : PersistState.step
              ⟨d₁, .recovering (.restored t set back sets), next, index⟩ .recover =
                some ⟨d₂, .recovering (.discarding set.names sets), next, index⟩ := by
            simp [PersistState.step, PersistState.recover, RecoveryAt.advance, h₂]
          refine ⟨1 + (1 + (set.names.length + 1 + n)), ?_⟩
          rw [List.replicate_add, List.replicate_one, List.singleton_append,
            StepSystem.run_cons_of_step hstep₁, List.replicate_add, List.replicate_one,
            List.singleton_append, StepSystem.run_cons_of_step hstep₂,
            List.replicate_add, StepSystem.run_append, run_discarding]
          exact hn

/-- Whatever a dying process leaves, a recovery that is not disturbed finds the last pair. -/
theorem Paired.lastPair_of_recover {s : PersistState} {out : RecoveryOutcome} (h : Paired s)
    (hrec : recoverInterruptedPersist {} s.dir = (d', .ok out)) : LastPair s.index d' := by
  obtain ⟨n, hn⟩ := run_recoverSets s.nextTag s.index hrec
  have hstart : Paired ⟨s.dir, .recovering (.next (RollbackListing.of s.dir).sets), s.nextTag,
      s.index⟩ := by
    have hdead : Paired ⟨s.dir, .free, s.nextTag, s.index⟩ := paired_move h .die (by simp)
    exact paired_move hdead .takeLock (by simp)
  have hok : ∀ s, StepSystem.RunOk PersistState.step BeginsClear s
      (List.replicate n .recover) := fun s =>
    StepSystem.runOk_of_forall_mem fun a ha _ => by
      rw [List.eq_of_mem_replicate ha]
      trivial
  have hend : Paired ⟨d', .recovering (.next []), s.nextTag, s.index⟩ :=
    StepSystem.invariant_of_runOk (fun _ _ _ hp hok hstep => paired_step hp hok hstep) hstart
      (hok _) hn
  exact hend.lastPair rfl

end RecoveryRun

/-- In a run whose transactions begin over a clear directory the index is never torn, and
every recovery that comes to its end, now or later, finds the last committed pair. -/
theorem interrupted_persist_keeps_pair (as : List PersistAction) (s : PersistState)
    (hrun : StepSystem.run PersistState.step {} as = some s)
    (hclear : StepSystem.RunOk PersistState.step BeginsClear {} as) :
    Beside s.dir ∧ (s.phase = .recovering (.next []) → LastPair s.index s.dir) ∧
      ∀ d out, recoverInterruptedPersist {} s.dir = (d, .ok out) → LastPair s.index d := by
  have hpaired : Paired s :=
    StepSystem.invariant_of_runOk (fun _ _ _ hp hok hstep => paired_step hp hok hstep)
      paired_empty hclear hrun
  exact ⟨hpaired.beside, hpaired.lastPair, fun d out hrec => hpaired.lastPair_of_recover hrec⟩

/-- A second transaction under one hold, after a failed one, dies with everything aside. -/
theorem interrupted_persist_keeps_pair_reentered : ∃ s,
    StepSystem.run PersistState.step {} [.takeLock, .recover, .begin 0 0, .setAside, .keep,
      .save 1, .writeManifest 2, .markCommitted, .remove, .remove, .begin 1 3, .setAside, .keep,
      .save 4, .fail, .putBackSnapshot false, .begin 2 5, .setAside, .keep, .save 6, .die]
        = some s ∧
    Beside s.dir ∧ ∀ d out, recoverInterruptedPersist {} s.dir = (d, .ok out) →
      LastPair s.index d := by
  have hsome : (StepSystem.run PersistState.step {} [.takeLock, .recover, .begin 0 0, .setAside,
      .keep, .save 1, .writeManifest 2, .markCommitted, .remove, .remove, .begin 1 3, .setAside,
      .keep, .save 4, .fail, .putBackSnapshot false, .begin 2 5, .setAside, .keep, .save 6,
      .die]).isSome := by
    decide +kernel
  obtain ⟨s, hs⟩ := Option.isSome_iff_exists.1 hsome
  have hpair := interrupted_persist_keeps_pair _ s hs (by decide +kernel)
  exact ⟨s, hs, hpair.1, hpair.2.2⟩

/-- A put-back that fails leaves a manifest aside without its snapshot; a transaction that
begins over it under the same hold writes the snapshot recovery then puts it beside. -/
theorem reentered_persist_tears_index : ∃ as s,
    StepSystem.run PersistState.step {} as = some s ∧ ¬ Beside s.dir := by
  have hpair : (StepSystem.run PersistState.step {} [.takeLock, .recover, .begin 0 0, .setAside,
      .keep, .save 1, .writeManifest 2, .markCommitted, .remove, .remove, .begin 1 3, .setAside,
      .keep, .save 4, .fail, .putBackSnapshot true, .putBackManifest false, .begin 2 5,
      .setAside, .keep, .save 6, .die, .takeLock, .recover, .recover]).map
        (fun s => (s.dir.get .manifest, s.dir.get .snapshot)) =
      some (some ⟨2, .manifest 0⟩, some ⟨6, .snapshot 2⟩) := by
    decide +kernel
  obtain ⟨s, hs, hfiles⟩ := Option.map_eq_some_iff.1 hpair
  refine ⟨_, s, hs, fun hbeside => ?_⟩
  obtain ⟨hman, hsnap⟩ := Prod.mk.inj hfiles
  obtain ⟨k, f, hm, hf, hcontent⟩ := hbeside _ hman
  cases hm
  cases hsnap.symm.trans hf
  cases hcontent

end Sqry.Rollback
