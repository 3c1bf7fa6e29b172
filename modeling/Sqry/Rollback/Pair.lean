import Sqry.Rollback.Committed

/-!
Where the last committed pair is: in place, or with its manifest set aside by one transaction
and its snapshot in place or set aside by that transaction or an older one.
-/

namespace Sqry.Rollback

structure InPlace (k : Nat) (d : GraphDir) : Prop where
  manifest : ∃ f, d.get .manifest = some f ∧ f.content = .manifest k
  snapshot : ∃ f, d.get .snapshot = some f ∧ f.content = .snapshot k

def SnapshotIs (k : Nat) (d : GraphDir) : Prop :=
  ∃ f, d.get .snapshot = some f ∧ f.content = .snapshot k

def Younger (k : Nat) (d : GraphDir) : Prop :=
  ∀ n f t, d.get n = some f → n.tag = some t → k < t

structure Calm (k : Nat) (d : GraphDir) : Prop where
  manifest : ∀ {t}, k < t → d.get (.manifestAside t) = none
  snapshot : ∀ {t f}, k < t → d.get (.snapshotAside t) = some f → f.content = .snapshot k

structure Aside (k : Nat) (d : GraphDir) (m : Nat) : Prop where
  absent : d.get .manifest = none
  younger : Younger k d
  manifest : ∃ f, d.get (.manifestAside m) = some f ∧ f.content = .manifest k
  only : ∀ {t f}, d.get (.manifestAside t) = some f → t = m
  kept : ∀ {t f}, t ≤ m → d.get (.snapshotAside t) = some f → f.content = .snapshot k

def SnapshotAside (d : GraphDir) (m : Nat) : Prop :=
  ∃ t f, t ≤ m ∧ d.get (.snapshotAside t) = some f

/-- The same, past the set of `t`. -/
def SnapshotBeyond (d : GraphDir) (t m : Nat) : Prop :=
  ∃ u f, t < u ∧ u ≤ m ∧ d.get (.snapshotAside u) = some f

def PairSomewhere (k : Nat) (d : GraphDir) : Prop :=
  InPlace k d ∨ ∃ m, Aside k d m ∧ (SnapshotAside d m ∨ SnapshotIs k d)

def PairAtRest (k : Nat) (d : GraphDir) : Prop :=
  (InPlace k d ∧ Calm k d) ∨ ∃ m, Aside k d m ∧ (SnapshotAside d m ∨ SnapshotIs k d)

/-- An older transaction than `tag` set it aside. -/
def AsideBefore (k : Nat) (d : GraphDir) (tag : Nat) : Prop :=
  ∃ m, m < tag ∧ Aside k d m ∧ SnapshotAside d m

def OwnSnapshot (d : GraphDir) (r : PersistRollback) : Prop :=
  ∃ f, d.get (.snapshotAside r.tag) = some f

def MovedOr (k : Nat) (d : GraphDir) (r : PersistRollback) (snapshot : Prop) : Prop :=
  (r.manifestAside = some (.manifestAside r.tag) ∧ Aside k d r.tag ∧ snapshot) ∨
    (r.manifestAside = none ∧ AsideBefore k d r.tag)

def PairInRecovery (k : Nat) (d : GraphDir) : RecoveryAt → Prop
  | .next _ => PairSomewhere k d
  | .restored t set back _ => back = set.manifestAside.isSome ∧
      ∃ m, Aside k d m ∧ t ≤ m ∧ (SnapshotBeyond d t m ∨ SnapshotIs k d)
  | .discarding names _ => InPlace k d ∨ ∃ m, Aside k d m ∧ .manifestAside m ∉ names ∧
      ((∃ t f, t ≤ m ∧ d.get (.snapshotAside t) = some f ∧ .snapshotAside t ∉ names) ∨
        SnapshotIs k d)

def PairAt (k : Nat) (next : Nat) (d : GraphDir) : Phase → Prop
  | .free => PairSomewhere k d
  | .recovering stage => PairInRecovery k d stage
  | .held => PairAtRest k d
  | .settingAside r existed => k < r.tag ∧ r.manifestAside = none ∧ r.snapshotAside = none ∧
      ((existed = true ∧ InPlace k d ∧ Calm k d ∧ Younger k d) ∨
        (existed = false ∧ AsideBefore k d r.tag))
  | .keeping r => k < r.tag ∧ r.snapshotAside = none ∧ MovedOr k d r (SnapshotIs k d)
  | .copied r => k < r.tag ∧ r.snapshotAside = none ∧ MovedOr k d r (SnapshotIs k d ∧
      ∃ f, d.get (.snapshotPartial r.tag) = some f ∧ f.content = .snapshot k)
  | .begun r | .saved r => k < r.tag ∧ r.snapshotAside ≠ none ∧ MovedOr k d r (OwnSnapshot d r)
  | .committing r => k = r.tag ∧ next = k + 1 ∧ InPlace k d
  | .removing _ => next = k + 1 ∧ InPlace k d
  | .droppingSnapshot r =>
    (r.manifestAside = none ∧ r.snapshotAside = none ∧ InPlace k d ∧ Calm k d) ∨
      MovedOr k d r ((r.snapshotAside ≠ none ∧ OwnSnapshot d r) ∨
        (r.snapshotAside = none ∧ SnapshotIs k d))
  | .droppingManifest r => (r.manifestAside = none ∧ InPlace k d ∧ Calm k d) ∨
      MovedOr k d r (SnapshotIs k d)
  | .droppingMarker _ => PairAtRest k d

def TagInHand (next : Nat) : Phase → Prop
  | .settingAside r _ | .keeping r | .copied r | .begun r | .saved r | .droppingSnapshot r
  | .droppingManifest r | .droppingMarker r => next = r.tag + 1
  | _ => True

def SavedOwn (d : GraphDir) : Phase → Prop
  | .saved r => SnapshotIs r.tag d
  | _ => True

def CommitMarked (k : Nat) (d : GraphDir) : Prop :=
  ∀ t f, d.get (.committed t) = some f → t ≤ k

structure PairKept (k : Nat) (s : PersistState) : Prop where
  pair : PairAt k s.nextTag s.dir s.phase
  below : k < s.nextTag
  marked : CommitMarked k s.dir

structure Paired (s : PersistState) : Prop where
  sound : Sound s
  tag : TagInHand s.nextTag s.phase
  saved : SavedOwn s.dir s.phase
  kept : ∀ k, s.index = some k → PairKept k s

section Frames

variable {k m t tag : Nat} {d d' : GraphDir} {r : PersistRollback} {a b : FileName}
  {f : GraphFile} {o : Option GraphFile} {P Q : Prop}

theorem InPlace.of_get_eq (h : InPlace k d) (hm : d'.get .manifest = d.get .manifest)
    (hs : d'.get .snapshot = d.get .snapshot) : InPlace k d' :=
  ⟨hm ▸ h.manifest, hs ▸ h.snapshot⟩

theorem SnapshotIs.of_get_eq (h : SnapshotIs k d) (hs : d'.get .snapshot = d.get .snapshot) :
    SnapshotIs k d' := by
  rw [SnapshotIs, hs]
  exact h

theorem Younger.sub (h : Younger k d)
    (hsub : ∀ n f t, n.tag = some t → d'.get n = some f → k < t ∨ ∃ g, d.get n = some g) :
    Younger k d' := by
  intro n f t hf ht
  cases hsub n f t ht hf with
  | inl hlt => exact hlt
  | inr hold =>
    obtain ⟨g, hg⟩ := hold
    exact h n g t hg ht

theorem Younger.changed (h : Younger k d) (hchange : Directory.Changed d a o d')
    (ha : ∀ t, a.tag = some t → k < t) : Younger k d' := by
  refine h.sub fun n f t ht hf => ?_
  obtain ⟨hn, -⟩ | ⟨-, hold⟩ := hchange.get_of_some hf
  · exact Or.inl (ha t (hn ▸ ht))
  · exact Or.inr ⟨f, hold⟩

theorem Younger.renamed (h : Younger k d) (hmove : Directory.Renamed d a b d')
    (hb : ∀ t, b.tag = some t → k < t) : Younger k d' := by
  refine h.sub fun n f t ht hf => ?_
  cases hmove.get_of_some hf with
  | inl heq => exact Or.inl (hb t (heq ▸ ht))
  | inr hold => exact Or.inr ⟨f, hold⟩

theorem Younger.unlink (h : Younger k d) : Younger k (d.unlink a) :=
  h.sub fun n f _ _ hf => Or.inr ⟨f, sub_unlink n f hf⟩

theorem Aside.of_get_eq (h : Aside k d m) (hm : d'.get .manifest = d.get .manifest)
    (haside : ∀ t, d'.get (.manifestAside t) = d.get (.manifestAside t))
    (hkept : ∀ t f, t ≤ m → d'.get (.snapshotAside t) = some f → f.content = .snapshot k)
    (hyoung : Younger k d') : Aside k d' m where
  absent := hm.trans h.absent
  younger := hyoung
  manifest := by
    rw [haside]
    exact h.manifest
  only {t f} hf := h.only (haside t ▸ hf)
  kept := hkept _ _

theorem Aside.changed (h : Aside k d m) (hchange : Directory.Changed d a o d')
    (hm : a ≠ .manifest) (haside : ∀ t, a ≠ .manifestAside t)
    (hkept : ∀ t, t ≤ m → a ≠ .snapshotAside t) (hyoung : ∀ t, a.tag = some t → k < t) :
    Aside k d' m := by
  refine h.of_get_eq (hchange.others hm.symm) (fun t => hchange.others (haside t).symm)
    (fun t f ht hf => ?_) (h.younger.changed hchange hyoung)
  rw [hchange.others (hkept t ht).symm] at hf
  exact h.kept ht hf

theorem Aside.renamed (h : Aside k d m) (hmove : Directory.Renamed d a b d')
    (ham : a ≠ .manifest) (hbm : b ≠ .manifest) (haa : ∀ t, a ≠ .manifestAside t)
    (hba : ∀ t, b ≠ .manifestAside t) (hkept : ∀ t, t ≤ m → b ≠ .snapshotAside t)
    (hyoung : ∀ t, b.tag = some t → k < t) : Aside k d' m := by
  refine h.of_get_eq (hmove.others _ ham.symm hbm.symm)
    (fun t => hmove.others _ (haa t).symm (hba t).symm) (fun t f ht hf => ?_)
    (h.younger.renamed hmove hyoung)
  exact h.kept ht ((hmove.get_of_some hf).resolve_left (hkept t ht).symm)

theorem SnapshotAside.of_get_eq (h : SnapshotAside d m)
    (hsame : ∀ t, t ≤ m → d'.get (.snapshotAside t) = d.get (.snapshotAside t)) :
    SnapshotAside d' m := by
  obtain ⟨t, f, ht, hf⟩ := h
  exact ⟨t, f, ht, (hsame t ht).trans hf⟩

theorem AsideBefore.changed (h : AsideBefore k d tag) (hchange : Directory.Changed d a o d')
    (hm : a ≠ .manifest) (haside : ∀ t, a ≠ .manifestAside t)
    (hkept : ∀ t, t < tag → a ≠ .snapshotAside t) (hyoung : ∀ t, a.tag = some t → k < t) :
    AsideBefore k d' tag := by
  obtain ⟨m, hlt, ha, hs⟩ := h
  refine ⟨m, hlt, ha.changed hchange hm haside (fun t ht => hkept t (by omega)) hyoung,
    hs.of_get_eq fun t ht => hchange.others (hkept t (by omega)).symm⟩

theorem AsideBefore.renamed (h : AsideBefore k d tag) (hmove : Directory.Renamed d a b d')
    (ham : a ≠ .manifest) (hbm : b ≠ .manifest) (haa : ∀ t, a ≠ .manifestAside t)
    (hba : ∀ t, b ≠ .manifestAside t) (has : ∀ t, t < tag → a ≠ .snapshotAside t)
    (hbs : ∀ t, t < tag → b ≠ .snapshotAside t) (hyoung : ∀ t, b.tag = some t → k < t) :
    AsideBefore k d' tag := by
  obtain ⟨m, hlt, ha, hs⟩ := h
  refine ⟨m, hlt, ha.renamed hmove ham hbm haa hba (fun t ht => hbs t (by omega)) hyoung,
    hs.of_get_eq fun t ht => ?_⟩
  exact hmove.others _ (has t (by omega)).symm (hbs t (by omega)).symm

theorem MovedOr.mono {r' : PersistRollback} (h : MovedOr k d r P)
    (hr : r'.manifestAside = r.manifestAside) (ht : r'.tag = r.tag)
    (haside : Aside k d r.tag → P → Aside k d' r.tag ∧ Q)
    (hbefore : AsideBefore k d r.tag → AsideBefore k d' r.tag) : MovedOr k d' r' Q := by
  rw [MovedOr, hr, ht]
  refine h.imp (fun hmoved => ?_) fun hfound => ⟨hfound.1, hbefore hfound.2⟩
  obtain ⟨hset, ha, hp⟩ := hmoved
  exact ⟨hset, haside ha hp⟩

theorem AsideBefore.atRest (h : AsideBefore k d tag) : PairAtRest k d := by
  obtain ⟨m, -, ha, hs⟩ := h
  exact Or.inr ⟨m, ha, Or.inl hs⟩

theorem PairAtRest.somewhere (h : PairAtRest k d) : PairSomewhere k d :=
  h.imp And.left id

theorem AsideBefore.somewhere (h : AsideBefore k d tag) : PairSomewhere k d := h.atRest.somewhere

theorem OwnSnapshot.aside (h : OwnSnapshot d r) : SnapshotAside d r.tag := by
  obtain ⟨f, hf⟩ := h
  exact ⟨r.tag, f, Nat.le_refl _, hf⟩

theorem MovedOr.somewhere (h : MovedOr k d r P)
    (hsnap : P → SnapshotAside d r.tag ∨ SnapshotIs k d) : PairSomewhere k d := by
  cases h with
  | inl hmoved => exact Or.inr ⟨r.tag, hmoved.2.1, hsnap hmoved.2.2⟩
  | inr hfound => exact hfound.2.somewhere

theorem PairAt.somewhere {next : Nat} {phase : Phase} (h : PairAt k next d phase) :
    PairSomewhere k d := by
  cases phase with
  | free => exact h
  | held => exact PairAtRest.somewhere h
  | droppingMarker r => exact PairAtRest.somewhere h
  | recovering stage =>
    cases stage with
    | next sets => exact h
    | restored t set back sets =>
      obtain ⟨-, m, ha, -, hsource⟩ := h
      refine Or.inr ⟨m, ha, hsource.imp (fun hbeyond => ?_) id⟩
      obtain ⟨u, f, -, hle, hf⟩ := hbeyond
      exact ⟨u, f, hle, hf⟩
    | discarding names sets =>
      refine Or.imp id (fun hex => ?_) h
      obtain ⟨m, ha, -, hsource⟩ := hex
      refine ⟨m, ha, hsource.imp (fun hset => ?_) id⟩
      obtain ⟨t, f, hle, hf, -⟩ := hset
      exact ⟨t, f, hle, hf⟩
  | settingAside r existed =>
    obtain ⟨-, -, -, hplace | hfound⟩ := h
    · exact Or.inl hplace.2.1
    · exact hfound.2.somewhere
  | keeping r => exact h.2.2.somewhere Or.inr
  | copied r => exact h.2.2.somewhere fun hsnap => Or.inr hsnap.1
  | begun r | saved r => exact h.2.2.somewhere fun hsnap => Or.inl hsnap.aside
  | committing r => exact Or.inl h.2.2
  | removing names => exact Or.inl h.2
  | droppingSnapshot r =>
    cases h with
    | inl hplace => exact Or.inl hplace.2.2.1
    | inr hmoved =>
      exact hmoved.somewhere fun hsnap => hsnap.imp (fun hown => hown.2.aside) And.right
  | droppingManifest r =>
    cases h with
    | inl hplace => exact Or.inl hplace.2.1
    | inr hmoved => exact hmoved.somewhere Or.inr

theorem CommitMarked.sub (h : CommitMarked k d)
    (hsub : ∀ t f, d'.get (.committed t) = some f → t ≤ k ∨ ∃ g, d.get (.committed t) = some g) :
    CommitMarked k d' := by
  intro t f hf
  cases hsub t f hf with
  | inl hle => exact hle
  | inr hold =>
    obtain ⟨g, hg⟩ := hold
    exact h t g hg

end Frames

end Sqry.Rollback
