import Sqry.Rollback.Transaction

/-!
When a directory holds a committed index. Before the first commit point a snapshot lies beside
the marker of the transaction that wrote it; from then on a snapshot is always there, and a
marker of a first persist only beside a manifest.
-/

namespace Sqry.Rollback

def MarkedNew (d : GraphDir) (t : Nat) : Prop :=
  ∃ f, d.get (.begun t) = some f ∧ markerSaysNoSnapshot f.content = true

structure Unwritten (d : GraphDir) : Prop where
  names : ∀ {n f}, d.get n = some f →
    n = .snapshot ∨ ∃ t, n = .begun t ∧ markerSaysNoSnapshot f.content = true
  writer : ∀ {f}, d.get .snapshot = some f → ∃ t, f.content = .snapshot t ∧ MarkedNew d t

structure Written (d : GraphDir) : Prop where
  snapshot : ∃ f, d.get .snapshot = some f
  marked : ∀ {t}, MarkedNew d t → ∃ f, d.get .manifest = some f

def DirSound : Option Nat → GraphDir → Prop
  | none, d => Unwritten d
  | some _, d => Written d

structure First (d : GraphDir) (r : PersistRollback) : Prop where
  manifestAside : r.manifestAside = none
  snapshotAside : r.snapshotAside = none
  snapshotExisted : r.snapshotExisted = false
  names : ∀ {n f}, d.get n = some f → n = .snapshot ∨ n = r.marker
  marked : MarkedNew d r.tag

structure Later (d : GraphDir) (r : PersistRollback) : Prop where
  snapshotExisted : r.snapshotExisted = true
  marked : ∀ t, ¬ MarkedNew d t

def FirstOrLater : Option Nat → GraphDir → PersistRollback → Prop
  | none, d, r => First d r
  | some _, d, r => Later d r

structure Own (r : PersistRollback) : Prop where
  manifestAside : ∀ {n}, r.manifestAside = some n → n = .manifestAside r.tag
  snapshotAside : ∀ {n}, r.snapshotAside = some n → n = .snapshotAside r.tag

/-- A rollback in hand: its marker is there, and no marker of its commit. -/
structure InHand (index : Option Nat) (d : GraphDir) (r : PersistRollback) : Prop where
  own : Own r
  marker : ∃ f, d.get r.marker = some f
  unmarked : d.get r.committedMarker = none
  kind : FirstOrLater index d r

structure Restored (d₀ d : GraphDir) (t : Nat) : Prop where
  others : ∀ {n}, n ≠ .snapshot → n ≠ .snapshotAside t → d.get n = d₀.get n
  aside : ∀ {f}, d.get (.snapshotAside t) = some f → d₀.get (.snapshotAside t) = some f

def RecoverySound (index : Option Nat) (d : GraphDir) : RecoveryAt → Prop
  | .next sets => Lists d sets
  | .restored t set _ sets => (index = none → d.get .snapshot = none) ∧
      ∃ d₀, Lists d₀ ((t, set) :: sets) ∧ Restored d₀ d t
  | .discarding names sets => (index = none → d.get .snapshot = none) ∧
      (∀ n ∈ names, ∃ t, n.tag = some t) ∧ Lists (removeNames {} names d) sets

def PhaseSound (index : Option Nat) (d : GraphDir) : Phase → Prop
  | .free => True
  | .recovering stage => RecoverySound index d stage
  | .held => ∀ t, ¬ MarkedNew d t
  | .settingAside r manifestExisted =>
    InHand index d r ∧ (index = none → manifestExisted = false)
  | .keeping r | .copied r | .begun r | .droppingSnapshot r => InHand index d r
  | .saved r => InHand index d r ∧ ∃ f, d.get .snapshot = some f
  | .droppingManifest r | .droppingMarker r =>
    InHand index d r ∧ (index = none → d.get .snapshot = none)
  | .committing r => index ≠ none ∧ (∃ f, d.get .manifest = some f) ∧ Own r ∧
      (∃ f, d.get r.marker = some f) ∧ d.get r.committedMarker = none ∧
      ∀ t, MarkedNew d t → t = r.tag
  | .removing names => index ≠ none ∧ (∃ f, d.get .manifest = some f) ∧
      (∀ n ∈ names, ∃ t, n.tag = some t) ∧ ∀ t, MarkedNew d t → .begun t ∈ names

def Bounded (next : Nat) (d : GraphDir) : Prop :=
  ∀ n f t, d.get n = some f → n.tag = some t → t < next

structure Sound (s : PersistState) : Prop where
  dir : DirSound s.index s.dir
  phase : PhaseSound s.index s.dir s.phase
  bounded : Bounded s.nextTag s.dir

section Dir

variable {d d' d₀ : GraphDir} {t : Nat} {n : FileName} {f : GraphFile} {index : Option Nat}
  {r : PersistRollback}

theorem MarkedNew.of_get_eq (h : d'.get (.begun t) = d.get (.begun t)) :
    MarkedNew d' t ↔ MarkedNew d t := by
  rw [MarkedNew, MarkedNew, h]

theorem MarkedNew.mono (hsub : ∀ n f, n.tag ≠ none → d'.get n = some f → d.get n = some f)
    (h : MarkedNew d' t) : MarkedNew d t := by
  obtain ⟨f, hf, hmark⟩ := h
  exact ⟨f, hsub _ f (by simp [FileName.tag]) hf, hmark⟩

theorem unwritten_empty : Unwritten (Directory.empty : GraphDir) where
  names h := by simp at h
  writer h := by simp at h

theorem Unwritten.sub (h : Unwritten d) (hsub : ∀ n f, d'.get n = some f → d.get n = some f)
    (hmark : d'.get .snapshot = none ∨ ∀ t, d'.get (.begun t) = d.get (.begun t)) :
    Unwritten d' where
  names hf := h.names (hsub _ _ hf)
  writer hf := by
    cases hmark with
    | inl hnone =>
      rw [hnone] at hf
      cases hf
    | inr hsame =>
      obtain ⟨t, hcontent, hnew⟩ := h.writer (hsub _ _ hf)
      exact ⟨t, hcontent, (MarkedNew.of_get_eq (hsame t)).2 hnew⟩

theorem Unwritten.get_eq_none (h : Unwritten d) (hs : n ≠ .snapshot) (hb : ∀ t, n ≠ .begun t) :
    d.get n = none := by
  cases hf : d.get n with
  | none => rfl
  | some f =>
    cases h.names hf with
    | inl heq => exact absurd heq hs
    | inr hex =>
      obtain ⟨t, heq, _⟩ := hex
      exact absurd heq (hb t)

theorem Unwritten.eq_none_of_unmarked (h : Unwritten d) (hno : ∀ t, ¬ MarkedNew d t) :
    d.get n = none := by
  cases hf : d.get n with
  | none => rfl
  | some f =>
    cases h.names hf with
    | inl heq =>
      subst heq
      obtain ⟨t, _, hnew⟩ := h.writer hf
      exact absurd hnew (hno t)
    | inr hex =>
      obtain ⟨t, rfl, hmark⟩ := hex
      exact absurd ⟨f, hf, hmark⟩ (hno t)

theorem Written.mono (h : Written d) (hsnap : ∃ f, d'.get .snapshot = some f)
    (hmark : ∀ t, MarkedNew d' t → MarkedNew d t)
    (hman : (∃ f, d.get .manifest = some f) → ∃ f, d'.get .manifest = some f) : Written d' where
  snapshot := hsnap
  marked hnew := hman (h.marked (hmark _ hnew))

theorem Written.unlink_tagged (h : Written d) (hn : n.tag = some t) : Written (d.unlink n) := by
  have hs : FileName.snapshot ≠ n := (ne_of_tag hn rfl).symm
  have hm : FileName.manifest ≠ n := (ne_of_tag hn rfl).symm
  refine h.mono (by simpa [hs] using h.snapshot) (fun t hnew => hnew.mono ?_)
    (by simp [hm])
  intro m f _ hf
  by_cases heq : m = n
  · simp [heq] at hf
  · simpa [heq] using hf

theorem sub_unlink : ∀ m f, (d.unlink n).get m = some f → d.get m = some f := by
  intro m f hf
  by_cases heq : m = n
  · simp [heq] at hf
  · simpa [heq] using hf

theorem DirSound.unlink_tagged (h : DirSound index d) (hn : n.tag = some t)
    (hnone : index = none → d.get .snapshot = none) : DirSound index (d.unlink n) := by
  cases index with
  | some k => exact Written.unlink_tagged h hn
  | none =>
    refine Unwritten.sub h sub_unlink (Or.inl ?_)
    have hs : FileName.snapshot ≠ n := (ne_of_tag hn rfl).symm
    simpa [hs] using hnone rfl

theorem InHand.unlink (h : InHand index d r) (hn : n ≠ r.marker) :
    InHand index (d.unlink n) r where
  own := h.own
  marker := by
    obtain ⟨f, hf⟩ := h.marker
    exact ⟨f, by simp [hn.symm, hf]⟩
  unmarked := by
    by_cases heq : r.committedMarker = n
    · simp [heq]
    · simpa [heq] using h.unmarked
  kind := by
    cases index with
    | none =>
      obtain ⟨h₁, h₂, h₃, h₄, h₅⟩ := (h.kind : First d r)
      refine ⟨h₁, h₂, h₃, fun hf => h₄ (sub_unlink _ _ hf), ?_⟩
      refine (MarkedNew.of_get_eq ?_).2 h₅
      have hne : FileName.begun r.tag ≠ n := fun heq => hn heq.symm
      simp [hne]
    | some k =>
      obtain ⟨h₁, h₂⟩ := (h.kind : Later d r)
      exact ⟨h₁, fun t hnew => h₂ t (hnew.mono fun m f _ hf => sub_unlink m f hf)⟩

/-- One name that is no marker changes, before the first commit point only the snapshot's. -/
theorem InHand.changed {a : FileName} {o : Option GraphFile} (h : InHand index d r)
    (hchange : Directory.Changed d a o d') (ha : ∀ t, a ≠ .begun t) (hc : a ≠ r.committedMarker)
    (hfirst : index = none → a = .snapshot) : InHand index d' r where
  own := h.own
  marker := by
    rw [PersistRollback.marker, hchange.others (ha r.tag).symm]
    exact h.marker
  unmarked := by
    rw [hchange.others hc.symm]
    exact h.unmarked
  kind := by
    have hnew : ∀ t, MarkedNew d' t ↔ MarkedNew d t :=
      fun t => MarkedNew.of_get_eq (hchange.others (ha t).symm)
    cases index with
    | none =>
      obtain ⟨h₁, h₂, h₃, h₄, h₅⟩ := (h.kind : First d r)
      refine ⟨h₁, h₂, h₃, fun {n f} hf => ?_, (hnew r.tag).2 h₅⟩
      obtain ⟨hn, -⟩ | ⟨-, hold⟩ := hchange.get_of_some hf
      · exact Or.inl (hn.trans (hfirst rfl))
      · exact h₄ hold
    | some k =>
      obtain ⟨h₁, h₂⟩ := (h.kind : Later d r)
      exact ⟨h₁, fun t ht => h₂ t ((hnew t).1 ht)⟩

theorem InHand.renamed {k : Nat} {a b : FileName} (h : InHand (some k) d r)
    (hmoved : Directory.Renamed d a b d') (ha : ∀ t, a ≠ .begun t) (hb : ∀ t, b ≠ .begun t)
    (hc : b ≠ r.committedMarker) : InHand (some k) d' r where
  own := h.own
  marker := by
    rw [hmoved.others r.marker (ha r.tag).symm (hb r.tag).symm]
    exact h.marker
  unmarked := by
    cases hf : d'.get r.committedMarker with
    | none => rfl
    | some f =>
      have hold := (hmoved.get_of_some hf).resolve_left hc.symm
      rw [h.unmarked] at hold
      cases hold
  kind := by
    obtain ⟨h₁, h₂⟩ := (h.kind : Later d r)
    refine ⟨h₁, fun t hnew => h₂ t ?_⟩
    exact (MarkedNew.of_get_eq (hmoved.others _ (ha t).symm (hb t).symm)).1 hnew

theorem InHand.withManifestAside {k : Nat} (h : InHand (some k) d r) :
    InHand (some k) d { r with manifestAside := some (.manifestAside r.tag) } where
  own := ⟨fun hn => (Option.some.inj hn).symm, h.own.snapshotAside⟩
  marker := h.marker
  unmarked := h.unmarked
  kind := ⟨h.kind.snapshotExisted, h.kind.marked⟩

theorem InHand.withSnapshotAside {k : Nat} (h : InHand (some k) d r) :
    InHand (some k) d { r with snapshotAside := some (.snapshotAside r.tag) } where
  own := ⟨h.own.manifestAside, fun hn => (Option.some.inj hn).symm⟩
  marker := h.marker
  unmarked := h.unmarked
  kind := ⟨h.kind.snapshotExisted, h.kind.marked⟩

theorem Written.changed {a : FileName} (h : Written d)
    (hchange : Directory.Changed d a (some f) d') (ha : ∀ t, a ≠ .begun t) : Written d' := by
  have hkept : ∀ n, (∃ f, d.get n = some f) → ∃ f, d'.get n = some f := by
    intro n hn
    by_cases hna : n = a
    · exact ⟨f, hna ▸ hchange.self⟩
    · rw [hchange.others hna]
      exact hn
  exact h.mono (hkept _ h.snapshot)
    (fun t hnew => (MarkedNew.of_get_eq (hchange.others (ha t).symm)).1 hnew) (hkept _)

theorem Written.renamed {a b : FileName} (h : Written d) (hmoved : Directory.Renamed d a b d')
    (ha : ∀ t, a ≠ .begun t) (hb : ∀ t, b ≠ .begun t) (hs : a ≠ .snapshot)
    (hm : a ≠ .manifest ∨ ∀ t, ¬ MarkedNew d t) : Written d' := by
  have hkept : ∀ n, a ≠ n → (∃ f, d.get n = some f) → ∃ f, d'.get n = some f := by
    intro n han hn
    by_cases hnb : n = b
    · subst hnb
      exact Option.isSome_iff_exists.1 hmoved.present_of_target
    · rw [hmoved.others n han.symm hnb]
      exact hn
  have hnew : ∀ t, MarkedNew d' t → MarkedNew d t :=
    fun t => (MarkedNew.of_get_eq (hmoved.others _ (ha t).symm (hb t).symm)).1
  refine ⟨hkept _ hs h.snapshot, fun {t} ht => ?_⟩
  cases hm with
  | inl hm => exact hkept _ hm (h.marked (hnew t ht))
  | inr hno => exact absurd (hnew t ht) (hno t)

end Dir

section Steps
variable {next : Nat} {d d' : GraphDir}

theorem Bounded.sub (h : Bounded next d)
    (hsub : ∀ n t, n.tag = some t → (∃ f, d'.get n = some f) → t < next ∨ ∃ f, d.get n = some f) :
    Bounded next d' := by
  intro n f t hf ht
  cases hsub n t ht ⟨f, hf⟩ with
  | inl hlt => exact hlt
  | inr hold =>
    obtain ⟨g, hg⟩ := hold
    exact h n g t hg ht

theorem Bounded.renamed {a b : FileName} (h : Bounded next d) (hmoved : Directory.Renamed d a b d')
    (hb : ∀ t, b.tag = some t → t < next) :
    Bounded next d' := by
  refine h.sub fun n t ht hsome => ?_
  obtain ⟨f, hf⟩ := hsome
  cases hmoved.get_of_some hf with
  | inl heq => exact Or.inl (hb t (heq ▸ ht))
  | inr hold => exact Or.inr ⟨f, hold⟩

theorem Bounded.changed {a : FileName} {o : Option GraphFile} (h : Bounded next d)
    (hchange : Directory.Changed d a o d') (ha : ∀ t, a.tag = some t → t < next)
    : Bounded next d' := by
  refine h.sub fun n t ht hsome => ?_
  obtain ⟨f, hf⟩ := hsome
  obtain ⟨hn, -⟩ | ⟨-, hold⟩ := hchange.get_of_some hf
  · exact Or.inl (ha t (hn ▸ ht))
  · exact Or.inr ⟨f, hold⟩

theorem Bounded.unlink {d : GraphDir} {n : FileName} (h : Bounded next d) :
    Bounded next (d.unlink n) :=
  h.sub fun m _ _ hsome => Or.inr (hsome.imp fun f hf => sub_unlink m f hf)

theorem InHand.tag_lt {index : Option Nat} {d : GraphDir} {r : PersistRollback}
    (h : InHand index d r) (hb : Bounded next d) : r.tag < next := by
  obtain ⟨f, hf⟩ := h.marker
  exact hb _ f _ hf rfl

theorem sound_empty : Sound {} where
  dir := unwritten_empty
  phase := trivial
  bounded n f t hf := by simp at hf

section Recover

variable {d : GraphDir} {index : Option Nat} {next : Nat}
variable {set : RollbackSet} {sets : List (Nat × RollbackSet)} {restore : SnapshotRestore} {t : Nat}
  {d' : GraphDir} {back : Bool}

/-- A set without a manifest in place, before the first commit point: the snapshot goes. -/
theorem Unwritten.fate_eq (h : Unwritten d) (hl : Lists d ((t, set) :: sets)) :
    set.fate (d.get .manifest).isSome = .restore .removeNew false := by
  have hset := hl.names List.mem_cons_self
  have hno : ∀ n, n ≠ .snapshot → (∀ t, n ≠ .begun t) → ¬ ∃ f, d.get n = some f := by
    intro n hs hb hex
    obtain ⟨f, hf⟩ := hex
    rw [h.get_eq_none hs hb] at hf
    cases hf
  have hman : d.get .manifest = none := h.get_eq_none (by simp) (by simp)
  have h₁ : set.committed.isSome = false :=
    Bool.eq_false_iff.2 fun hc => hno _ (by simp) (by simp) (hset.isSome_committed.1 hc)
  have h₂ : set.snapshotAside.isSome = false :=
    Bool.eq_false_iff.2 fun hc => hno _ (by simp) (by simp) (hset.isSome_snapshotAside.1 hc)
  have h₃ : set.manifestAside.isSome = false :=
    Bool.eq_false_iff.2 fun hc => hno _ (by simp) (by simp) (hset.isSome_manifestAside.1 hc)
  have h₄ : set.begunWithoutSnapshot = true := by
    obtain ⟨n, f, hf, ht⟩ := hl.inhabited List.mem_cons_self
    refine (hl.marked List.mem_cons_self).2 ?_
    cases h.names hf with
    | inl hs =>
      subst hs
      cases ht
    | inr hb =>
      obtain ⟨u, rfl, hmark⟩ := hb
      cases ht
      exact ⟨f, hf, hmark⟩
  simp [RollbackSet.fate, h₁, h₂, h₃, h₄, hman]

theorem Restored.restoreManifest_total {d₀ : GraphDir} (h : Restored d₀ d t)
    (hl : Lists d₀ ((t, set) :: sets)) (back : Bool)
    : ∃ d', set.restoreManifest {} back d = .ok d' := by
  refine Rollback.restoreManifest_total (fun n hn => ?_) back
  obtain ⟨rfl, f, hf⟩ := ((hl.names List.mem_cons_self).manifestAside n).1 hn
  exact ⟨f, by rw [h.others (by simp) (by simp), hf]⟩

theorem restored_of_restoreSnapshot {P : FileName → Prop} (hset : set.Names t P)
    (h : set.restoreSnapshot {} restore d = .ok d') : Restored d d' t where
  others hs ha := get_restoreSnapshot_eq hset h hs ha
  aside {f} hf := by
    obtain ⟨aside, -, -, hmoved⟩ | ⟨-, rfl⟩ | ⟨-, rfl⟩ := restoreSnapshot_eq_ok h
    · exact (hmoved.get_of_some hf).resolve_left (by simp)
    · exact sub_unlink _ _ hf
    · exact hf

theorem DirSound.restoreSnapshot (h : DirSound index d) (hl : Lists d ((t, set) :: sets))
    (hfate : set.fate (d.get .manifest).isSome = .restore restore back)
    (h₁ : set.restoreSnapshot {} restore d = .ok d') :
    DirSound index d' ∧ (index = none → d'.get .snapshot = none) := by
  have hset := hl.names List.mem_cons_self
  cases index with
  | none =>
    have hun : Unwritten d := h
    cases hfate.symm.trans (hun.fate_eq hl)
    cases h₁
    exact ⟨hun.sub sub_unlink (Or.inl (by simp)), fun _ => by simp⟩
  | some k =>
    have hwr : Written d := h
    refine ⟨?_, by simp⟩
    obtain ⟨-, hm, -, hrestore⟩ := fate_eq_restore hfate
    have hnonew : restore ≠ .removeNew := by
      intro hnew
      have hmark : set.begunWithoutSnapshot = true := by
        rw [hnew] at hrestore
        grind
      obtain ⟨g, hg⟩ := hwr.marked ((hl.marked List.mem_cons_self).1 hmark)
      simp [hg] at hm
    have hsnap : (d'.get .snapshot).isSome = true := by
      rw [isSome_restoreSnapshot hfate h₁]
      obtain ⟨g, hg⟩ := hwr.snapshot
      cases restore with
      | putBack => rfl
      | removeNew => exact absurd rfl hnonew
      | keep => simp [SnapshotRestore.leaves, hg]
    refine hwr.mono (Option.isSome_iff_exists.1 hsnap) (fun u hu => ?_) fun hman => ?_
    · exact (MarkedNew.of_get_eq (get_restoreSnapshot_eq hset h₁ (by simp) (by simp))).1 hu
    · rw [get_restoreSnapshot_eq hset h₁ (by simp) (by simp)]
      exact hman

theorem DirSound.restoreManifest {d₀ d' : GraphDir} (h : DirSound index d)
    (hl : Lists d₀ ((t, set) :: sets)) (hr : Restored d₀ d t)
    (h₂ : set.restoreManifest {} back d = .ok d') :
    DirSound index d' ∧ d'.get .snapshot = d.get .snapshot := by
  have hset := hl.names List.mem_cons_self
  obtain ⟨aside, -, ha, hmoved⟩ | ⟨-, rfl⟩ := restoreManifest_eq_ok h₂
  · obtain ⟨rfl, f, hf⟩ := (hset.manifestAside aside).1 ha
    have hhere : d.get (.manifestAside t) = some f := by rw [hr.others (by simp) (by simp), hf]
    cases index with
    | none =>
      rw [Unwritten.get_eq_none h (by simp) (by simp)] at hhere
      cases hhere
    | some k =>
      exact ⟨Written.renamed h hmoved (by simp) (by simp) (by simp) (Or.inl (by simp)),
        hmoved.others _ (by simp) (by simp)⟩
  · exact ⟨h, rfl⟩

theorem Restored.lists_discard {d₀ d' : GraphDir} (hl : Lists d₀ ((t, set) :: sets))
    (hr : Restored d₀ d t) (h₂ : set.restoreManifest {} back d = .ok d')
    : Lists (removeNames {} set.names d') sets := by
  have hset := hl.names List.mem_cons_self
  refine hl.discard (fun n u hn hu => ?_) fun n f hn hf => ?_
  · have htag : n.tag ≠ some t := fun heq => hu (Option.some.inj (hn.symm.trans heq))
    rw [get_restoreManifest hset h₂ htag (ne_of_tag hn rfl)]
    exact hr.others (ne_of_tag hn rfl) fun heq => htag (heq ▸ rfl)
  · have hback : d.get n = some f := by
      obtain ⟨aside, -, ha, hmoved⟩ | ⟨-, rfl⟩ := restoreManifest_eq_ok h₂
      · exact (hmoved.get_of_some hf).resolve_left (ne_of_tag hn rfl)
      · exact hf
    by_cases ha : n = .snapshotAside t
    · subst ha
      exact ⟨f, hr.aside hback⟩
    · exact ⟨f, by rw [← hr.others (ne_of_tag hn rfl) ha, hback]⟩

theorem tagged_names {P : FileName → Prop} (h : set.Names t P) :
    ∀ n ∈ set.names, ∃ t, n.tag = some t :=
  fun _ hn => ⟨t, (h.mem_names.1 hn).1⟩

theorem Bounded.restoreSnapshot (h : Bounded next d)
    (h₁ : set.restoreSnapshot {} restore d = .ok d') : Bounded next d' := by
  obtain ⟨aside, -, -, hmoved⟩ | ⟨-, rfl⟩ | ⟨-, rfl⟩ := restoreSnapshot_eq_ok h₁
  · exact h.renamed hmoved (by simp [FileName.tag])
  · exact h.unlink
  · exact h

theorem Bounded.restoreManifest (h : Bounded next d) (h₂ : set.restoreManifest {} back d = .ok d')
    : Bounded next d' := by
  obtain ⟨aside, -, -, hmoved⟩ | ⟨-, rfl⟩ := restoreManifest_eq_ok h₂
  · exact h.renamed hmoved (by simp [FileName.tag])
  · exact h

theorem sound_recover {stage : RecoveryAt} (h : Sound ⟨d, .recovering stage, next, index⟩) :
    Sound ⟨(stage.advance d).1, (stage.advance d).2, next, index⟩ := by
  obtain ⟨hdir, hphase, hbound⟩ := h
  cases stage with
  | next sets =>
    have hl : Lists d sets := hphase
    cases sets with
    | nil =>
      refine ⟨hdir, fun t hnew => ?_, hbound⟩
      obtain ⟨f, hf, -⟩ := hnew
      obtain ⟨set, hmem⟩ := hl.covers hf rfl
      cases hmem
    | cons e sets =>
      obtain ⟨t, set⟩ := e
      have hset := hl.names List.mem_cons_self
      cases hfate : set.fate (d.get .manifest).isSome with
      | discard =>
        simp only [RecoveryAt.advance, hfate]
        refine ⟨hdir, ⟨fun hindex => ?_, tagged_names hset, ?_⟩, hbound⟩
        · subst hindex
          cases hfate.symm.trans (Unwritten.fate_eq hdir hl)
        · exact hl.discard (fun _ _ _ _ => rfl) fun n f _ hf => ⟨f, hf⟩
      | restore restore back =>
        obtain ⟨d₁, h₁⟩ := restoreSnapshot_total hset restore
        obtain ⟨hdir', hnone⟩ := hdir.restoreSnapshot hl hfate h₁
        simp only [RecoveryAt.advance, hfate, h₁]
        exact ⟨hdir', ⟨hnone, d, hl, restored_of_restoreSnapshot hset h₁⟩,
          hbound.restoreSnapshot h₁⟩
  | restored t set back sets =>
    obtain ⟨hnone, d₀, hl, hr⟩ := hphase
    obtain ⟨d₂, h₂⟩ := hr.restoreManifest_total hl back
    obtain ⟨hdir', hsame⟩ := hdir.restoreManifest hl hr h₂
    simp only [RecoveryAt.advance, h₂]
    refine ⟨hdir', ⟨fun hindex => ?_, tagged_names (hl.names List.mem_cons_self), ?_⟩,
      hbound.restoreManifest h₂⟩
    · exact hsame.trans (hnone hindex)
    · exact Restored.lists_discard hl hr h₂
  | discarding names sets =>
    obtain ⟨hnone, htags, hl⟩ := hphase
    cases names with
    | nil => exact ⟨hdir, hl, hbound⟩
    | cons n names =>
      obtain ⟨t, hn⟩ := htags n List.mem_cons_self
      have hs : FileName.snapshot ≠ n := (ne_of_tag hn rfl).symm
      refine ⟨hdir.unlink_tagged hn hnone, ⟨fun hindex => ?_, fun m hm => ?_, hl⟩,
        hbound.unlink⟩
      · simpa [RecoveryAt.advance, hs] using hnone hindex
      · exact htags m (List.mem_cons_of_mem n hm)

theorem tagged_of_advance {d : GraphDir} {stage : RecoveryAt} {n : FileName} {f : GraphFile}
    (hn : n.tag = some t) (hf : (stage.advance d).1.get n = some f) :
    d.get n = some f := by
  cases stage with
  | next sets =>
    cases sets with
    | nil => exact hf
    | cons e sets =>
      obtain ⟨u, set⟩ := e
      cases hfate : set.fate (d.get .manifest).isSome with
      | discard =>
        simp only [RecoveryAt.advance, hfate] at hf
        exact hf
      | restore restore back =>
        cases h₁ : set.restoreSnapshot {} restore d with
        | error e =>
          simp only [RecoveryAt.advance, hfate, h₁] at hf
          exact hf
        | ok d₁ =>
          simp only [RecoveryAt.advance, hfate, h₁] at hf
          obtain ⟨aside, -, -, hmoved⟩ | ⟨-, rfl⟩ | ⟨-, rfl⟩ := restoreSnapshot_eq_ok h₁
          · exact (hmoved.get_of_some hf).resolve_left (ne_of_tag hn rfl)
          · exact sub_unlink _ f hf
          · exact hf
  | restored u set back sets =>
    cases h₂ : set.restoreManifest {} back d with
    | error e =>
      simp only [RecoveryAt.advance, h₂] at hf
      exact hf
    | ok d₂ =>
      simp only [RecoveryAt.advance, h₂] at hf
      obtain ⟨aside, -, -, hmoved⟩ | ⟨-, rfl⟩ := restoreManifest_eq_ok h₂
      · exact (hmoved.get_of_some hf).resolve_left (ne_of_tag hn rfl)
      · exact hf
  | discarding names sets =>
    cases names with
    | nil => exact hf
    | cons m names => exact sub_unlink _ f hf

end Recover

section Moves

variable {d d' : GraphDir} {r : PersistRollback} {index : Option Nat} {next : Nat}

theorem sound_begin {tag id : Nat} (h : Sound ⟨d, .held, next, index⟩) (hnext : next ≤ tag)
    (hchange : Directory.Changed d (.begun tag) (some ⟨id, .marker (begunText
      (d.get .snapshot).isSome (d.get .manifest).isSome)⟩) d') :
    Sound ⟨d', .settingAside { tag, snapshotExisted := (d.get .snapshot).isSome }
      (d.get .manifest).isSome, tag + 1, index⟩ := by
  obtain ⟨hdir, hphase, hbound⟩ := h
  have hno : ∀ t, ¬ MarkedNew d t := hphase
  have hbound' : Bounded (tag + 1) d' := by
    refine Bounded.changed (fun n f t hf ht => ?_) hchange fun t ht => ?_
    · have hlt : t < next := hbound n f t hf ht
      omega
    · cases ht
      exact Nat.lt_succ_self tag
  have hunmarked : d'.get (.committed tag) = none := by
    rw [hchange.others (by simp)]
    cases hf : d.get (.committed tag) with
    | none => rfl
    | some f => exact absurd (hbound _ f tag hf rfl) (Nat.not_lt.2 hnext)
  have hnew : ∀ t, MarkedNew d' t → t = tag ∧ (d.get .snapshot).isSome = false := by
    intro t ht
    obtain ⟨f, hf, hmark⟩ := ht
    obtain ⟨heq, hfile⟩ | ⟨-, hold⟩ := hchange.get_of_some hf
    · cases heq
      cases hfile
      exact ⟨rfl, by simpa using hmark⟩
    · exact absurd ⟨f, hold, hmark⟩ (hno t)
  have hown : Own { tag, snapshotExisted := (d.get .snapshot).isSome } :=
    ⟨fun hn => (Option.some_ne_none _ hn.symm).elim,
      fun hn => (Option.some_ne_none _ hn.symm).elim⟩
  cases index with
  | none =>
    have hclean : ∀ n, d.get n = none := fun n => Unwritten.eq_none_of_unmarked hdir hno
    have hget : ∀ n f, d'.get n = some f →
        n = .begun tag ∧ markerSaysNoSnapshot f.content = true := by
      intro n f hf
      obtain ⟨heq, hfile⟩ | ⟨-, hold⟩ := hchange.get_of_some hf
      · cases hfile
        exact ⟨heq, by simp [hclean]⟩
      · rw [hclean] at hold
        cases hold
    have hmarked : MarkedNew d' tag := ⟨_, hchange.self, by simp [hclean]⟩
    refine ⟨⟨fun hf => Or.inr ⟨tag, hget _ _ hf⟩, fun hf => ?_⟩,
      ⟨⟨hown, ⟨_, hchange.self⟩, hunmarked, ?_⟩, fun _ => by simp [hclean]⟩, hbound'⟩
    · cases (hget _ _ hf).1
    · exact ⟨rfl, rfl, by simp [hclean], fun hf => Or.inr (hget _ _ hf).1, hmarked⟩
  | some k =>
    obtain ⟨g, hg⟩ := Written.snapshot hdir
    have hno' : ∀ t, ¬ MarkedNew d' t := by
      intro t ht
      have hsome := (hnew t ht).2
      simp [hg] at hsome
    refine ⟨⟨⟨g, by rw [hchange.others (by simp), hg]⟩, fun ht => absurd ht (hno' _)⟩,
      ⟨⟨hown, ⟨_, hchange.self⟩, hunmarked, ?_⟩, fun hk => by cases hk⟩, hbound'⟩
    exact ⟨by simp [hg], hno'⟩

theorem sound_setAside (h : Sound ⟨d, .settingAside r true, next, index⟩)
    (hmove : Directory.Renamed d .manifest (.manifestAside r.tag) d') :
    Sound ⟨d', .keeping { r with manifestAside := some (.manifestAside r.tag) }, next, index⟩ := by
  obtain ⟨hdir, ⟨hhand, hfirst⟩, hbound⟩ := h
  cases index with
  | none => exact absurd (hfirst rfl) (by simp)
  | some k =>
    refine ⟨?_, ?_, hbound.renamed hmove fun t ht => ?_⟩
    · exact Written.renamed hdir hmove (by simp) (by simp) (by simp)
        (Or.inr hhand.kind.marked)
    · exact (hhand.renamed hmove (by simp) (by simp)
        (by simp [PersistRollback.committedMarker])).withManifestAside
    · cases ht
      exact hhand.tag_lt hbound

theorem sound_keep {f : GraphFile} (h : Sound ⟨d, .keeping r, next, index⟩)
    (hexisted : r.snapshotExisted = true)
    (hchange : Directory.Changed d (.snapshotAside r.tag) (some f) d') :
    Sound ⟨d', .begun { r with snapshotAside := some (.snapshotAside r.tag) }, next, index⟩ := by
  obtain ⟨hdir, hphase, hbound⟩ := h
  have hhand : InHand index d r := hphase
  cases index with
  | none => exact absurd (hhand.kind.snapshotExisted.symm.trans hexisted) (by simp)
  | some k =>
    refine ⟨Written.changed hdir hchange (by simp), ?_, hbound.changed hchange fun t ht => ?_⟩
    · exact (hhand.changed hchange (by simp) (by simp [PersistRollback.committedMarker])
        (by simp)).withSnapshotAside
    · cases ht
      exact hhand.tag_lt hbound

theorem sound_copy {f : GraphFile} (h : Sound ⟨d, .keeping r, next, index⟩)
    (hexisted : r.snapshotExisted = true)
    (hchange : Directory.Changed d (.snapshotPartial r.tag) (some f) d') :
    Sound ⟨d', .copied r, next, index⟩ := by
  obtain ⟨hdir, hphase, hbound⟩ := h
  have hhand : InHand index d r := hphase
  cases index with
  | none => exact absurd (hhand.kind.snapshotExisted.symm.trans hexisted) (by simp)
  | some k =>
    refine ⟨Written.changed hdir hchange (by simp), ?_, hbound.changed hchange fun t ht => ?_⟩
    · exact hhand.changed hchange (by simp) (by simp [PersistRollback.committedMarker])
        (by simp)
    · cases ht
      exact hhand.tag_lt hbound

theorem sound_placeCopy (h : Sound ⟨d, .copied r, next, index⟩)
    (hmove : Directory.Renamed d (.snapshotPartial r.tag) (.snapshotAside r.tag) d') :
    Sound ⟨d', .begun { r with snapshotAside := some (.snapshotAside r.tag) }, next, index⟩ := by
  obtain ⟨hdir, hphase, hbound⟩ := h
  have hhand : InHand index d r := hphase
  cases index with
  | none =>
    obtain ⟨f, hf, -⟩ := hmove.source
    rw [Unwritten.get_eq_none hdir (by simp) (by simp)] at hf
    cases hf
  | some k =>
    refine ⟨?_, ?_, hbound.renamed hmove fun t ht => ?_⟩
    · exact Written.renamed hdir hmove (by simp) (by simp) (by simp) (Or.inl (by simp))
    · exact (hhand.renamed hmove (by simp) (by simp)
        (by simp [PersistRollback.committedMarker])).withSnapshotAside
    · cases ht
      exact hhand.tag_lt hbound

theorem sound_save {id : Nat} (h : Sound ⟨d, .begun r, next, index⟩)
    (hchange : Directory.Changed d .snapshot (some ⟨id, .snapshot r.tag⟩) d') :
    Sound ⟨d', .saved r, next, index⟩ := by
  obtain ⟨hdir, hphase, hbound⟩ := h
  have hhand : InHand index d r := hphase
  have hhand' : InHand index d' r := hhand.changed hchange (by simp)
    (by simp [PersistRollback.committedMarker]) fun _ => rfl
  refine ⟨?_, ⟨hhand', _, hchange.self⟩, hbound.changed hchange (by simp [FileName.tag])⟩
  cases index with
  | some k => exact Written.changed hdir hchange (by simp)
  | none =>
    refine ⟨fun {n f} hf => ?_, fun hf => ?_⟩
    · obtain ⟨hn, -⟩ | ⟨-, hold⟩ := hchange.get_of_some hf
      · exact Or.inl hn
      · exact Unwritten.names hdir hold
    · cases hchange.self.symm.trans hf
      exact ⟨r.tag, rfl, First.marked hhand'.kind⟩

theorem sound_writeManifest {id : Nat} (h : Sound ⟨d, .saved r, next, index⟩)
    (hchange : Directory.Changed d .manifest (some ⟨id, .manifest r.tag⟩) d') :
    Sound ⟨d', .committing r, next, some r.tag⟩ := by
  obtain ⟨hdir, ⟨hhand, hsnap⟩, hbound⟩ := h
  have hnew : ∀ t, MarkedNew d' t → MarkedNew d t :=
    fun t => (MarkedNew.of_get_eq (hchange.others (by simp))).1
  refine ⟨⟨?_, fun _ => ⟨_, hchange.self⟩⟩,
    ⟨by simp, ⟨_, hchange.self⟩, hhand.own, ?_, ?_, fun t ht => ?_⟩,
    hbound.changed hchange (by simp [FileName.tag])⟩
  · rw [hchange.others (by simp)]
    exact hsnap
  · rw [hchange.others (by simp [PersistRollback.marker])]
    exact hhand.marker
  · rw [hchange.others (by simp [PersistRollback.committedMarker])]
    exact hhand.unmarked
  · cases index with
    | some k => exact absurd (hnew t ht) (hhand.kind.marked t)
    | none =>
      obtain ⟨f, hf, -⟩ := hnew t ht
      cases First.names hhand.kind hf with
      | inl heq => cases heq
      | inr heq => exact FileName.begun.inj heq

theorem Own.tagged (h : Own r) :
    ∀ n ∈ r.manifestAside.toList ++ r.snapshotAside.toList, ∃ t, n.tag = some t := by
  intro n hn
  cases List.mem_append.1 hn with
  | inl hm => exact ⟨r.tag, by rw [h.manifestAside (Option.mem_toList.1 hm)]; rfl⟩
  | inr hs => exact ⟨r.tag, by rw [h.snapshotAside (Option.mem_toList.1 hs)]; rfl⟩

theorem Own.tagged_append {n : FileName} (h : Own r) (hn : n.tag = some r.tag) :
    ∀ m ∈ r.manifestAside.toList ++ r.snapshotAside.toList ++ [n], ∃ t, m.tag = some t := by
  intro m hm
  cases List.mem_append.1 hm with
  | inl hm => exact h.tagged m hm
  | inr hm => exact ⟨r.tag, by rw [List.mem_singleton.1 hm, hn]⟩

theorem sound_markCommitted (h : Sound ⟨d, .committing r, next, index⟩)
    (hmove : Directory.Renamed d r.marker r.committedMarker d') :
    Sound ⟨d', .removing (r.manifestAside.toList ++ r.snapshotAside.toList ++
      [r.committedMarker]), next, index⟩ := by
  obtain ⟨hdir, ⟨hindex, hman, hown, hmarker, hunmarked, honly⟩, hbound⟩ := h
  cases index with
  | none => exact absurd rfl hindex
  | some k =>
    have hothers : ∀ n, n ≠ .begun r.tag → n ≠ .committed r.tag → d'.get n = d.get n :=
      fun n hn hc => hmove.others n hn hc
    have hgone : d'.get (.begun r.tag) = none := by
      cases hmove.gone with
      | inl hnone => exact hnone
      | inr hsame =>
        have hsome := hsame.2.symm.trans hunmarked
        obtain ⟨f, hf⟩ := hmarker
        rw [hf] at hsome
        cases hsome
    have hno : ∀ t, ¬ MarkedNew d' t := by
      intro t ht
      obtain ⟨f, hf, hmark⟩ := ht
      by_cases htag : t = r.tag
      · rw [htag, hgone] at hf
        cases hf
      · have hne : FileName.begun t ≠ .begun r.tag := fun heq => htag (FileName.begun.inj heq)
        rw [hothers _ hne (by simp)] at hf
        exact htag (honly t ⟨f, hf, hmark⟩)
    refine ⟨⟨?_, fun ht => absurd ht (hno _)⟩,
      ⟨by simp, ?_, hown.tagged_append rfl, fun t ht => absurd ht (hno t)⟩,
      hbound.renamed hmove fun t ht => ?_⟩
    · rw [hothers _ (by simp) (by simp)]
      exact Written.snapshot hdir
    · rw [hothers _ (by simp) (by simp)]
      exact hman
    · cases ht
      obtain ⟨f, hf⟩ := hmarker
      exact hbound _ f _ hf rfl

theorem sound_remove {n : FileName} {names : List FileName}
    (h : Sound ⟨d, .removing (n :: names), next, index⟩) :
    Sound ⟨d.unlink n, .removing names, next, index⟩ := by
  obtain ⟨hdir, ⟨hindex, hman, htags, hnames⟩, hbound⟩ := h
  obtain ⟨t, hn⟩ := htags n List.mem_cons_self
  have hm : FileName.manifest ≠ n := (ne_of_tag hn rfl).symm
  refine ⟨hdir.unlink_tagged hn fun hnone => absurd hnone hindex,
    ⟨hindex, by simpa [hm] using hman, fun m hmem => htags m (List.mem_cons_of_mem n hmem),
      fun u hu => ?_⟩, hbound.unlink⟩
  have hold : MarkedNew d u := hu.mono fun m f _ hf => sub_unlink m f hf
  cases List.mem_cons.1 (hnames u hold) with
  | inl heq =>
    obtain ⟨f, hf, -⟩ := hu
    simp [heq] at hf
  | inr hmem => exact hmem

theorem sound_snapshotBack {aside : FileName} (h : Sound ⟨d, .droppingSnapshot r, next, index⟩)
    (haside : r.snapshotAside = some aside) (hmove : Directory.Renamed d aside .snapshot d') :
    Sound ⟨d', .droppingManifest r, next, index⟩ := by
  obtain ⟨hdir, hphase, hbound⟩ := h
  have hhand : InHand index d r := hphase
  cases index with
  | none => exact absurd (haside.symm.trans hhand.kind.snapshotAside) (by simp)
  | some k =>
    cases hhand.own.snapshotAside haside
    refine ⟨?_, ⟨?_, by simp⟩, hbound.renamed hmove (by simp [FileName.tag])⟩
    · exact Written.renamed hdir hmove (by simp) (by simp) (by simp) (Or.inl (by simp))
    · exact hhand.renamed hmove (by simp) (by simp) (by simp [PersistRollback.committedMarker])

theorem sound_manifestBack {aside : FileName} (h : Sound ⟨d, .droppingManifest r, next, index⟩)
    (haside : r.manifestAside = some aside) (hmove : Directory.Renamed d aside .manifest d') :
    Sound ⟨d', .droppingMarker r, next, index⟩ := by
  obtain ⟨hdir, ⟨hhand, -⟩, hbound⟩ := h
  cases index with
  | none => exact absurd (haside.symm.trans hhand.kind.manifestAside) (by simp)
  | some k =>
    cases hhand.own.manifestAside haside
    refine ⟨?_, ⟨?_, by simp⟩, hbound.renamed hmove (by simp [FileName.tag])⟩
    · exact Written.renamed hdir hmove (by simp) (by simp) (by simp) (Or.inl (by simp))
    · exact hhand.renamed hmove (by simp) (by simp) (by simp [PersistRollback.committedMarker])

theorem sound_removeMarker (h : Sound ⟨d, .droppingMarker r, next, index⟩) :
    Sound ⟨d.unlink r.marker, .held, next, index⟩ := by
  obtain ⟨hdir, ⟨hhand, hnone⟩, hbound⟩ := h
  refine ⟨hdir.unlink_tagged (t := r.tag) rfl hnone, fun t ht => ?_, hbound.unlink⟩
  have hold : MarkedNew d t := ht.mono fun m f _ hf => sub_unlink m f hf
  cases index with
  | some k => exact hhand.kind.marked t hold
  | none =>
    obtain ⟨f, hf, -⟩ := hold
    cases First.names hhand.kind hf with
    | inl heq => cases heq
    | inr heq =>
      obtain ⟨g, hg, -⟩ := ht
      simp [heq] at hg

theorem sound_move {s s' : PersistState} {made : Option Nat} (h : Sound s)
    (hmove : Move s made s') : Sound s' := by
  cases hmove with
  | takeLock => exact ⟨h.dir, lists_of _, h.bounded⟩
  | recover => exact sound_recover h
  | release => exact ⟨h.dir, trivial, h.bounded⟩
  | die => exact ⟨h.dir, trivial, h.bounded⟩
  | begin hnext hchange => exact sound_begin h hnext hchange
  | setAside hmove => exact sound_setAside h hmove
  | nothingAside => exact ⟨h.dir, h.phase.1, h.bounded⟩
  | keep hexisted hf hchange => exact sound_keep h hexisted hchange
  | nothingKept hexisted => exact ⟨h.dir, h.phase, h.bounded⟩
  | copy hexisted hf hchange => exact sound_copy h hexisted hchange
  | placeCopy hmove => exact sound_placeCopy h hmove
  | save hchange => exact sound_save h hchange
  | writeManifest hchange => exact sound_writeManifest h hchange
  | markCommitted hmove => exact sound_markCommitted h hmove
  | leftMarked =>
    obtain ⟨hindex, hman, hown, -, -, honly⟩ := h.phase
    refine ⟨h.dir, ⟨hindex, hman, hown.tagged_append rfl, fun t ht => ?_⟩, h.bounded⟩
    rw [honly t ht]
    exact List.mem_append_right _ (List.mem_singleton_self _)
  | removed =>
    refine ⟨h.dir, fun t ht => ?_, h.bounded⟩
    exact List.not_mem_nil (h.phase.2.2.2 t ht)
  | remove => exact sound_remove h
  | failSettingAside => exact ⟨h.dir, h.phase.1, h.bounded⟩
  | failKeeping | failBegun => exact ⟨h.dir, h.phase, h.bounded⟩
  | failSaved => exact ⟨h.dir, h.phase.1, h.bounded⟩
  | @failCopied d r next index =>
    have hhand : InHand index d r := h.phase
    cases index with
    | none =>
      have habsent : d.get (.snapshotPartial r.tag) = none :=
        Unwritten.get_eq_none h.dir (by simp) (by simp)
      have hsame : ∀ n, (d.unlink (.snapshotPartial r.tag)).get n = d.get n := by
        intro n
        by_cases hn : n = .snapshotPartial r.tag
        · simp [hn, habsent]
        · simp [hn]
      refine ⟨Unwritten.sub h.dir sub_unlink (Or.inr fun t => hsame _), ?_, h.bounded.unlink⟩
      exact hhand.unlink (by simp [PersistRollback.marker])
    | some k =>
      exact ⟨Written.unlink_tagged (t := r.tag) h.dir rfl,
        hhand.unlink (by simp [PersistRollback.marker]), h.bounded.unlink⟩
  | snapshotBack haside hmove => exact sound_snapshotBack h haside hmove
  | @snapshotStays d r aside next index haside =>
    have hhand : InHand index d r := h.phase
    cases index with
    | none => exact absurd (haside.symm.trans hhand.kind.snapshotAside) (by simp)
    | some k => exact ⟨h.dir, hhand.kind.marked, h.bounded⟩
  | @snapshotKept d r next index haside hexisted =>
    have hhand : InHand index d r := h.phase
    refine ⟨h.dir, ⟨hhand, fun hnone => ?_⟩, h.bounded⟩
    subst hnone
    exact absurd (hhand.kind.snapshotExisted.symm.trans hexisted) (by simp)
  | @snapshotRemoved d r next index haside hexisted =>
    have hhand : InHand index d r := h.phase
    cases index with
    | some k => exact absurd (hhand.kind.snapshotExisted.symm.trans hexisted) (by simp)
    | none =>
      exact ⟨Unwritten.sub h.dir sub_unlink (Or.inl (by simp)),
        ⟨hhand.unlink (by simp [PersistRollback.marker]), fun _ => by simp⟩,
        h.bounded.unlink⟩
  | manifestBack haside hmove => exact sound_manifestBack h haside hmove
  | @manifestStays d r aside next index haside =>
    have hhand : InHand index d r := h.phase.1
    cases index with
    | none => exact absurd (haside.symm.trans hhand.kind.manifestAside) (by simp)
    | some k => exact ⟨h.dir, hhand.kind.marked, h.bounded⟩
  | noManifest haside => exact ⟨h.dir, h.phase, h.bounded⟩
  | removeMarker => exact sound_removeMarker h

theorem sound_run {s s' : PersistState} {as : List PersistAction} (h : Sound s)
    (hrun : StepSystem.run PersistState.step s as = some s') : Sound s' :=
  StepSystem.invariant_of_run (fun _ _ _ hs hstep => sound_move hs (move_of_step hstep)) h hrun

end Moves

end Steps

end Sqry.Rollback
