import Sqry.Rollback.Pair

/-!
What each step of a holder does to the last committed pair, where every transaction begins
over no names older than the last commit and no manifest that was left aside alone.
-/

namespace Sqry.Rollback

/-- What the sets in the directory must be for a transaction to begin: younger than the last
commit, and with a manifest aside its snapshot in the same set or an older one. -/
def Clear (index : Option Nat) (d : GraphDir) : Prop :=
  ∀ n ∈ d.names, ∀ t ∈ n.tag, (∀ k ∈ index, k < t) ∧
    (n = .manifestAside t → ∃ u ∈ List.range (t + 1), .snapshotAside u ∈ d.names)

instance (index : Option Nat) (d : GraphDir) : Decidable (Clear index d) :=
  inferInstanceAs (Decidable (∀ n ∈ d.names, ∀ t ∈ n.tag, (∀ k ∈ index, k < t) ∧
    (n = .manifestAside t → ∃ u ∈ List.range (t + 1), .snapshotAside u ∈ d.names)))

section Facts

variable {k m t next : Nat} {d d' : GraphDir} {r : PersistRollback} {index : Option Nat}
  {f : GraphFile}

theorem Clear.younger (h : Clear (some k) d) : Younger k d := by
  intro n f t hf ht
  exact (h n (Directory.mem_names.2 ⟨f, hf⟩) t ht).1 k rfl

theorem Clear.snapshotAside (h : Clear index d) (hf : d.get (.manifestAside t) = some f) :
    SnapshotAside d t := by
  obtain ⟨u, hu, hmem⟩ := (h _ (Directory.mem_names.2 ⟨f, hf⟩) t rfl).2 rfl
  obtain ⟨g, hg⟩ := Directory.mem_names.1 hmem
  have hlt : u < t + 1 := List.mem_range.1 hu
  exact ⟨u, g, by omega, hg⟩

theorem calm_of_bounded (hbound : Bounded next d) (hnext : next = k + 1) : Calm k d := by
  have hno : ∀ n f t, d.get n = some f → n.tag = some t → ¬ k < t := by
    intro n f t hf ht
    have hlt := hbound n f t hf ht
    omega
  constructor
  · intro t hk
    cases hf : d.get (.manifestAside t) with
    | none => rfl
    | some f => exact absurd hk (hno _ f t hf rfl)
  · intro t f hk hf
    exact absurd hk (hno _ f t hf rfl)

end Facts

section Moves

variable {k m t next : Nat} {d d' : GraphDir} {r : PersistRollback} {index : Option Nat}
  {f : GraphFile}

theorem pair_begin {tag id : Nat} (h : PairAtRest k d) (hclear : Clear (some k) d)
    (hbound : Bounded next d) (hbelow : k < next) (hnext : next ≤ tag)
    (hchange : Directory.Changed d (.begun tag) (some ⟨id, .marker (begunText
      (d.get .snapshot).isSome (d.get .manifest).isSome)⟩) d') :
    PairAt k (tag + 1) d' (.settingAside { tag, snapshotExisted := (d.get .snapshot).isSome }
      (d.get .manifest).isSome) := by
  have hyoung : Younger k d' := by
    refine hclear.younger.changed hchange fun t ht => ?_
    cases ht
    omega
  refine ⟨by simp only []; omega, rfl, rfl, ?_⟩
  cases h with
  | inl hplace =>
    obtain ⟨hplace, hcalm⟩ := hplace
    obtain ⟨f, hf, -⟩ := hplace.manifest
    refine Or.inl ⟨by simp [hf], hplace.of_get_eq (hchange.others (by simp))
      (hchange.others (by simp)), ⟨fun hk => ?_, fun hk hg => ?_⟩, hyoung⟩
    · rw [hchange.others (by simp)]
      exact hcalm.manifest hk
    · rw [hchange.others (by simp)] at hg
      exact hcalm.snapshot hk hg
  | inr haside =>
    obtain ⟨m, ha, -⟩ := haside
    obtain ⟨f, hf, -⟩ := ha.manifest
    have hm : m < next := hbound _ f m hf rfl
    refine Or.inr ⟨by simp [ha.absent], m, by simp only []; omega, ?_, ?_⟩
    · refine ha.of_get_eq (hchange.others (by simp)) (fun t => hchange.others (by simp))
        (fun t f ht hg => ?_) hyoung
      rw [hchange.others (by simp)] at hg
      exact ha.kept ht hg
    · exact (hclear.snapshotAside hf).of_get_eq fun t _ => hchange.others (by simp)

theorem pair_setAside (h : PairAt k next d (.settingAside r true))
    (hmove : Directory.Renamed d .manifest (.manifestAside r.tag) d') :
    PairAt k next d' (.keeping { r with manifestAside := some (.manifestAside r.tag) }) := by
  obtain ⟨hk, hnone, hsnap, ⟨-, hplace, hcalm, hyoung⟩ | ⟨hfalse, -⟩⟩ := h
  · have hgone : d'.get .manifest = none := by
      cases hmove.gone with
      | inl hgone => exact hgone
      | inr hsame =>
        obtain ⟨f, hf, -⟩ := hplace.manifest
        rw [hcalm.manifest hk, hf] at hsame
        exact absurd hsame.2 (by simp)
    have hyoung' : Younger k d' := hyoung.renamed hmove fun t ht => by
      cases ht
      exact hk
    refine ⟨hk, hsnap, Or.inl ⟨rfl, ⟨hgone, hyoung', ?_, fun {t f} hf => ?_, fun {t f} _ hf => ?_⟩,
      SnapshotIs.of_get_eq hplace.snapshot (hmove.others _ (by simp) (by simp))⟩⟩
    · obtain ⟨f, hf, hcontent⟩ := hplace.manifest
      obtain ⟨g, hg, htarget⟩ := hmove.source
      cases hf.symm.trans hg
      exact ⟨f, htarget, hcontent⟩
    · cases hmove.get_of_some hf with
      | inl heq => exact FileName.manifestAside.inj heq
      | inr hold =>
        rw [hcalm.manifest (hyoung _ f t hold rfl)] at hold
        cases hold
    · have hold := (hmove.get_of_some hf).resolve_left (by simp)
      exact hcalm.snapshot (hyoung _ f t hold rfl) hold
  · cases hfalse

theorem pair_nothingAside (h : PairAt k next d (.settingAside r false)) :
    PairAt k next d (.keeping r) := by
  obtain ⟨hk, hnone, hsnap, ⟨htrue, -⟩ | ⟨-, hfound⟩⟩ := h
  · cases htrue
  · exact ⟨hk, hsnap, Or.inr ⟨hnone, hfound⟩⟩

theorem pair_keep (h : PairAt k next d (.keeping r)) (hf : d.get .snapshot = some f)
    (hchange : Directory.Changed d (.snapshotAside r.tag) (some f) d') :
    PairAt k next d' (.begun { r with snapshotAside := some (.snapshotAside r.tag) }) := by
  obtain ⟨hk, hsnap, hmoved⟩ := h
  have htag : ∀ t, (FileName.snapshotAside r.tag).tag = some t → k < t := by
    intro t ht
    cases ht
    exact hk
  refine ⟨hk, by simp, hmoved.mono rfl rfl (fun ha hs => ?_) fun hfound => ?_⟩
  · refine ⟨ha.of_get_eq (hchange.others (by simp)) (fun t => hchange.others (by simp))
      (fun t g ht hg => ?_) (ha.younger.changed hchange htag), ⟨f, hchange.self⟩⟩
    obtain ⟨-, hfile⟩ | ⟨-, hold⟩ := hchange.get_of_some hg
    · cases hfile
      obtain ⟨g, hg, hcontent⟩ := hs
      cases hf.symm.trans hg
      exact hcontent
    · exact ha.kept ht hold
  · refine hfound.changed hchange (by simp) (by simp) (fun t ht heq => ?_) htag
    cases heq
    exact Nat.lt_irrefl _ ht

theorem pair_copy {id : Nat} (h : PairAt k next d (.keeping r)) (hf : d.get .snapshot = some f)
    (hchange : Directory.Changed d (.snapshotPartial r.tag) (some ⟨id, f.content⟩) d') :
    PairAt k next d' (.copied r) := by
  obtain ⟨hk, hsnap, hmoved⟩ := h
  have htag : ∀ t, (FileName.snapshotPartial r.tag).tag = some t → k < t := by
    intro t ht
    cases ht
    exact hk
  refine ⟨hk, hsnap, hmoved.mono rfl rfl (fun ha hs => ⟨?_, ?_, ?_⟩) fun hfound => ?_⟩
  · exact ha.changed hchange (by simp) (by simp) (by simp) htag
  · exact hs.of_get_eq (hchange.others (by simp))
  · obtain ⟨g, hg, hcontent⟩ := hs
    cases hf.symm.trans hg
    exact ⟨_, hchange.self, hcontent⟩
  · exact hfound.changed hchange (by simp) (by simp) (by simp) htag

theorem pair_placeCopy (h : PairAt k next d (.copied r))
    (hmove : Directory.Renamed d (.snapshotPartial r.tag) (.snapshotAside r.tag) d') :
    PairAt k next d' (.begun { r with snapshotAside := some (.snapshotAside r.tag) }) := by
  obtain ⟨hk, hsnap, hmoved⟩ := h
  have htag : ∀ t, (FileName.snapshotAside r.tag).tag = some t → k < t := by
    intro t ht
    cases ht
    exact hk
  obtain ⟨f, hf, htarget⟩ := hmove.source
  refine ⟨hk, by simp, hmoved.mono rfl rfl (fun ha hs => ?_) fun hfound => ?_⟩
  · refine ⟨ha.of_get_eq (hmove.others _ (by simp) (by simp))
      (fun t => hmove.others _ (by simp) (by simp)) (fun t g ht hg => ?_)
      (ha.younger.renamed hmove htag), ⟨f, htarget⟩⟩
    cases hmove.get_of_some hg with
    | inl heq =>
      obtain ⟨p, hp, hcontent⟩ := hs.2
      cases hf.symm.trans hp
      rw [heq, htarget] at hg
      cases hg
      exact hcontent
    | inr hold => exact ha.kept ht hold
  · refine hfound.renamed hmove (by simp) (by simp) (by simp) (by simp) (by simp)
      (fun t ht heq => ?_) htag
    cases heq
    exact Nat.lt_irrefl _ ht

theorem pair_save {id : Nat} (h : PairAt k next d (.begun r))
    (hchange : Directory.Changed d .snapshot (some ⟨id, .snapshot r.tag⟩) d') :
    PairAt k next d' (.saved r) := by
  obtain ⟨hk, hsnap, hmoved⟩ := h
  refine ⟨hk, hsnap, hmoved.mono rfl rfl (fun ha hs => ⟨?_, ?_⟩) fun hfound => ?_⟩
  · exact ha.changed hchange (by simp) (by simp) (by simp) (by simp [FileName.tag])
  · rw [OwnSnapshot, hchange.others (by simp)]
    exact hs
  · exact hfound.changed hchange (by simp) (by simp) (by simp) (by simp [FileName.tag])

theorem pair_failSettingAside {e : Bool} (h : PairAt k next d (.settingAside r e)) :
    PairAt k next d (.droppingSnapshot r) := by
  obtain ⟨hk, hnone, hsnap, ⟨-, hplace, hcalm, -⟩ | ⟨-, hfound⟩⟩ := h
  · exact Or.inl ⟨hnone, hsnap, hplace, hcalm⟩
  · exact Or.inr (Or.inr ⟨hnone, hfound⟩)

theorem pair_failKeeping (h : PairAt k next d (.keeping r)) :
    PairAt k next d (.droppingSnapshot r) := by
  obtain ⟨hk, hsnap, hmoved⟩ := h
  exact Or.inr (hmoved.mono rfl rfl (fun ha hs => ⟨ha, Or.inr ⟨hsnap, hs⟩⟩) id)

theorem pair_failCopied (h : PairAt k next d (.copied r)) :
    PairAt k next (d.unlink (.snapshotPartial r.tag)) (.droppingSnapshot r) := by
  obtain ⟨hk, hsnap, hmoved⟩ := h
  have hchange : Directory.Changed d (.snapshotPartial r.tag) none _ := Directory.changed_unlink
  have htag : ∀ t, (FileName.snapshotPartial r.tag).tag = some t → k < t := by
    intro t ht
    cases ht
    exact hk
  refine Or.inr (hmoved.mono rfl rfl (fun ha hs => ⟨?_, Or.inr ⟨hsnap, ?_⟩⟩) fun hfound => ?_)
  · exact ha.changed hchange (by simp) (by simp) (by simp) htag
  · exact hs.1.of_get_eq (hchange.others (by simp))
  · exact hfound.changed hchange (by simp) (by simp) (by simp) htag

theorem pair_failBegun (h : PairAt k next d (.begun r)) :
    PairAt k next d (.droppingSnapshot r) := by
  obtain ⟨hk, hsnap, hmoved⟩ := h
  exact Or.inr (hmoved.mono rfl rfl (fun ha hs => ⟨ha, Or.inl ⟨hsnap, hs⟩⟩) id)

theorem pair_snapshotBack (h : PairAt k next d (.droppingSnapshot r))
    (haside : r.snapshotAside = some (.snapshotAside r.tag))
    (hmove : Directory.Renamed d (.snapshotAside r.tag) .snapshot d') :
    PairAt k next d' (.droppingManifest r) := by
  cases h with
  | inl hplace =>
    rw [hplace.2.1] at haside
    cases haside
  | inr hmoved =>
    refine Or.inr (hmoved.mono rfl rfl (fun ha hs => ⟨?_, ?_⟩) fun hfound => ?_)
    · exact ha.renamed hmove (by simp) (by simp) (by simp) (by simp) (by simp)
        (by simp [FileName.tag])
    · obtain ⟨f, hf, htarget⟩ := hmove.source
      exact ⟨f, htarget, ha.kept (Nat.le_refl _) hf⟩
    · refine hfound.renamed hmove (by simp) (by simp) (by simp) (by simp)
        (fun t ht heq => ?_) (by simp) (by simp [FileName.tag])
      cases heq
      exact Nat.lt_irrefl _ ht

theorem pair_snapshotStays {aside : FileName} (h : PairAt k next d (.droppingSnapshot r))
    (haside : r.snapshotAside = some aside) : PairAtRest k d := by
  cases h with
  | inl hplace =>
    rw [hplace.2.1] at haside
    cases haside
  | inr hmoved =>
    cases hmoved with
    | inr hfound => exact hfound.2.atRest
    | inl hmoved =>
      obtain ⟨-, ha, hsnap⟩ := hmoved
      refine Or.inr ⟨r.tag, ha, hsnap.imp (fun hown => hown.2.aside) And.right⟩

theorem pair_snapshotKept (h : PairAt k next d (.droppingSnapshot r))
    (haside : r.snapshotAside = none) : PairAt k next d (.droppingManifest r) := by
  refine h.imp (fun hplace => ⟨hplace.1, hplace.2.2⟩) fun hmoved => ?_
  refine hmoved.mono rfl rfl (fun ha hs => ⟨ha, ?_⟩) id
  cases hs with
  | inl hown => exact absurd haside hown.1
  | inr hsnap => exact hsnap.2

theorem pair_manifestBack (h : PairAt k next d (.droppingManifest r))
    (haside : r.manifestAside = some (.manifestAside r.tag)) (hbound : Bounded next d)
    (hnext : next = r.tag + 1)
    (hmove : Directory.Renamed d (.manifestAside r.tag) .manifest d') : PairAtRest k d' := by
  have hno : r.manifestAside ≠ none := by simp [haside]
  cases h with
  | inl hplace => exact absurd hplace.1 hno
  | inr hmoved =>
    cases hmoved with
    | inr hfound => exact absurd hfound.1 hno
    | inl hmoved =>
      obtain ⟨-, ha, hsnap⟩ := hmoved
      obtain ⟨f, hf, htarget⟩ := hmove.source
      obtain ⟨g, hg, hcontent⟩ := ha.manifest
      cases hf.symm.trans hg
      have hgone : d'.get (.manifestAside r.tag) = none := by
        cases hmove.gone with
        | inl hgone => exact hgone
        | inr hsame =>
          rw [ha.absent, hf] at hsame
          exact absurd hsame.2 (by simp)
      refine Or.inl ⟨⟨⟨f, htarget, hcontent⟩, ?_⟩, ⟨fun {t} _ => ?_, fun {t e} _ he => ?_⟩⟩
      · exact SnapshotIs.of_get_eq hsnap (hmove.others _ (by simp) (by simp))
      · by_cases heq : t = r.tag
        · rw [heq, hgone]
        · cases he : d'.get (.manifestAside t) with
          | none => rfl
          | some e =>
            have hold := (hmove.get_of_some he).resolve_left (by simp)
            exact absurd (ha.only hold) heq
      · have hold := (hmove.get_of_some he).resolve_left (by simp)
        have hlt : t < next := hbound _ e t hold rfl
        exact ha.kept (by omega) hold

theorem pair_manifestStays {aside : FileName} (h : PairAt k next d (.droppingManifest r))
    (haside : r.manifestAside = some aside) : PairAtRest k d := by
  have hno : r.manifestAside ≠ none := by simp [haside]
  cases h with
  | inl hplace => exact absurd hplace.1 hno
  | inr hmoved =>
    cases hmoved with
    | inr hfound => exact absurd hfound.1 hno
    | inl hmoved => exact Or.inr ⟨r.tag, hmoved.2.1, Or.inr hmoved.2.2⟩

theorem pair_noManifest (h : PairAt k next d (.droppingManifest r))
    (haside : r.manifestAside = none) : PairAtRest k d := by
  cases h with
  | inl hplace => exact Or.inl hplace.2
  | inr hmoved =>
    cases hmoved with
    | inl hmoved => exact absurd (haside.symm.trans hmoved.1) (by simp)
    | inr hfound => exact hfound.2.atRest

theorem pair_removeMarker (h : PairAtRest k d) : PairAtRest k (d.unlink r.marker) := by
  have hchange : Directory.Changed d r.marker none _ := Directory.changed_unlink
  have hothers : ∀ {n : FileName}, n ≠ .begun r.tag → (d.unlink r.marker).get n = d.get n :=
    fun hn => hchange.others hn
  cases h with
  | inl hplace =>
    obtain ⟨hplace, hcalm⟩ := hplace
    refine Or.inl ⟨hplace.of_get_eq (hothers (by simp)) (hothers (by simp)),
      ⟨fun hk => ?_, fun hk hf => ?_⟩⟩
    · rw [hothers (by simp)]
      exact hcalm.manifest hk
    · rw [hothers (by simp)] at hf
      exact hcalm.snapshot hk hf
  | inr haside =>
    obtain ⟨m, ha, hsnap⟩ := haside
    refine Or.inr ⟨m, ?_, hsnap.imp (fun hs => hs.of_get_eq fun t _ => hothers (by simp))
      fun hs => hs.of_get_eq (hothers (by simp))⟩
    refine ha.of_get_eq (hothers (by simp)) (fun t => hothers (by simp)) (fun t f ht hf => ?_)
      ha.younger.unlink
    exact ha.kept ht (sub_unlink _ f hf)

theorem InPlace.unlink_tagged {n : FileName} (h : InPlace k d) (hn : n.tag = some t) :
    InPlace k (d.unlink n) := by
  have hm : FileName.manifest ≠ n := (ne_of_tag hn rfl).symm
  have hs : FileName.snapshot ≠ n := (ne_of_tag hn rfl).symm
  exact h.of_get_eq (by simp [hm]) (by simp [hs])

end Moves

end Sqry.Rollback
