import Sqry.Rollback.CommittedRead

/-!
The lock-free read of a committed index: whatever holders do meanwhile, an attempt whose two
looks agree answers what a recovery would have left at some instant, and undisturbed it
answers what a recovery leaves.
-/

namespace Sqry.Rollback

namespace Attempt

variable {d : GraphDir} {r r' : Attempt} {a : ReadAction}
variable {entries : List (FileName × Bool)} {owed unread : List FileName} {before : Look}

theorem step_entry {n : FileName}
    (h : Attempt.step d (.listing before owed unread entries) (.entry n) = some r') :
    (∃ f, d.get n = some f) ∧
      ((∃ t, n = .begun t ∧ r' = .listing before owed (n :: unread) entries) ∨
        (∀ t, n ≠ .begun t) ∧ r' = .listing before owed unread (entries ++ [(n, false)])) := by
  cases n with
  | begun t =>
    simp only [Attempt.step] at h
    split at h
    · next hsome =>
      cases h
      exact ⟨Option.isSome_iff_exists.1 hsome, Or.inl ⟨t, rfl, rfl⟩⟩
    · cases h
  | _ =>
    simp only [Attempt.step] at h
    split at h
    · next hsome =>
      cases h
      exact ⟨Option.isSome_iff_exists.1 hsome, Or.inr ⟨by simp, rfl⟩⟩
    · cases h

theorem step_readMarker {n : FileName}
    (h : Attempt.step d (.listing before owed unread entries) (.readMarker n) = some r') :
    n ∈ unread ∧
      r' = .listing before owed (unread.erase n) (entries ++ [(n, readMarker d n)]) := by
  rw [Attempt.step] at h
  split at h
  · next hmem =>
    cases h
    exact ⟨hmem, rfl⟩
  · cases h

theorem step_manifestAgain
    (h : Attempt.step d (.listing before owed unread entries) .manifestAgain = some r') :
    unread = [] ∧ (∀ n ∈ owed, ∃ b, (n, b) ∈ entries) ∧
      r' = .sawManifestAgain before entries (identify d .manifest) := by
  cases unread with
  | cons n unread => cases h
  | nil =>
    rw [Attempt.step] at h
    split at h
    · next hall =>
      cases h
      refine ⟨rfl, fun n hn => ?_, rfl⟩
      obtain ⟨⟨m, b⟩, hmem, rfl⟩ := List.mem_map.1 (hall n hn)
      exact ⟨b, hmem⟩
    · cases h

theorem step_snapshotAgain {manifest : Option Nat}
    (h : Attempt.step d (.sawManifestAgain before entries manifest) .snapshotAgain = some r') :
    r' = .done (decide (before = ⟨manifest, identify d .snapshot⟩))
      ((RollbackListing.ofEntries entries).leavesAnIndex manifest.isSome
        (identify d .snapshot).isSome) :=
  (Option.some.inj h).symm

end Attempt

section First

variable {d : GraphDir} {r r' : Attempt} {a : ReadAction}
variable {entries : List (FileName × Bool)} {e : FileName × Bool}

theorem AllNew.append {t : Nat} (h : AllNew t entries) (he : e.1 = .begun t → e.2 = true)
    : AllNew t (entries ++ [e]) := by
  intro b hb
  cases List.mem_append.1 hb with
  | inl hmem => exact h b hmem
  | inr hmem =>
    cases List.mem_singleton.1 hmem
    exact he rfl

theorem Plain.append (h : Plain entries) (he : e.1 = .snapshot ∨ ∃ t, e.1 = .begun t)
    : Plain (entries ++ [e]) := by
  intro n b hb
  cases List.mem_append.1 hb with
  | inl hmem => exact h hmem
  | inr hmem =>
    cases List.mem_singleton.1 hmem
    exact he

theorem Kept.append {owed : List FileName} {o : Nat} (h : Kept d owed entries o)
    (he : ∀ t, MarkedNew d t → e.1 = .begun t → e.2 = true) (hdir : Unwritten d) :
    Kept d owed (entries ++ [e]) o := by
  refine h.imp id fun hkept => ?_
  obtain ⟨f, t, hf, hid, hcontent, howed, hall⟩ := hkept
  refine ⟨f, t, hf, hid, hcontent, howed, hall.append (he t ?_)⟩
  obtain ⟨u, hu, hnew⟩ := hdir.writer hf
  cases hcontent.symm.trans hu
  exact hnew

theorem FirstRead.step (h : FirstRead d r) (hdir : Unwritten d) (hstep : r.step d a = some r') :
    FirstRead d r' := by
  cases r with
  | done unchanged answer => cases hstep
  | sawManifest manifest =>
    cases a with
    | snapshot =>
      cases hstep
      exact ⟨h, fun o ho => Or.inr (identify_eq_some ho)⟩
    | _ => cases hstep
  | looked before =>
    cases a with
    | openDir =>
      cases hstep
      obtain ⟨hman, hsnap⟩ := h
      refine ⟨hman, fun hmem => absurd hmem List.not_mem_nil,
        fun n hn => absurd hn List.not_mem_nil, fun o ho => (hsnap o ho).imp id fun hex => ?_⟩
      obtain ⟨f, hf, hid⟩ := hex
      obtain ⟨t, hcontent, g, hg, -⟩ := hdir.writer hf
      exact ⟨f, t, hf, hid, hcontent, Directory.mem_names.2 ⟨g, hg⟩,
        fun b hb => absurd hb List.not_mem_nil⟩
    | _ => cases hstep
  | listing before owed unread entries =>
    obtain ⟨hman, hplain, hunread, hkept⟩ := h
    cases a with
    | entry n =>
      obtain ⟨⟨f, hf⟩, hcase⟩ := Attempt.step_entry hstep
      obtain ⟨t, rfl, rfl⟩ | ⟨hne, rfl⟩ := hcase
      · refine ⟨hman, hplain, fun m hm => ?_, hkept⟩
        cases List.mem_cons.1 hm with
        | inl heq => exact ⟨t, heq⟩
        | inr hmem => exact hunread m hmem
      · have hn : n = .snapshot := by
          cases hdir.names hf with
          | inl heq => exact heq
          | inr hex =>
            obtain ⟨t, heq, -⟩ := hex
            exact absurd heq (hne t)
        refine ⟨hman, hplain.append (Or.inl hn), hunread, fun o ho => ?_⟩
        exact (hkept o ho).append (fun t _ heq => absurd heq (hne t)) hdir
    | readMarker n =>
      obtain ⟨hmem, rfl⟩ := Attempt.step_readMarker hstep
      refine ⟨hman, hplain.append (Or.inr (hunread n hmem)),
        fun m hm => hunread m (List.mem_of_mem_erase hm), fun o ho => ?_⟩
      refine (hkept o ho).append (fun t hnew heq => ?_) hdir
      have hn : n = .begun t := heq
      rw [hn]
      exact hnew.readMarker
    | manifestAgain =>
      obtain ⟨-, hall, rfl⟩ := Attempt.step_manifestAgain hstep
      refine ⟨?_, hplain, fun o ho => (hkept o ho).imp id fun hex => ?_⟩
      · rw [identify, hdir.get_eq_none (by simp) (by simp)]
        rfl
      · obtain ⟨f, t, -, -, -, howed, hnew⟩ := hex
        obtain ⟨b, hb⟩ := hall _ howed
        exact ⟨t, hnew b hb ▸ hb, hnew⟩
    | _ => cases unread <;> cases hstep
  | sawManifestAgain before entries manifest =>
    cases a with
    | snapshotAgain =>
      obtain ⟨rfl, hplain, hsnap⟩ := h
      cases Attempt.step_snapshotAgain hstep
      intro hsame
      have hbefore : before = ⟨none, identify d .snapshot⟩ := of_decide_eq_true hsame
      refine hplain.answer fun hsome => ?_
      obtain ⟨o, ho⟩ := Option.isSome_iff_exists.1 hsome
      obtain ⟨f, hf, hid⟩ := identify_eq_some ho
      refine (hsnap o (by rw [hbefore, ho])).resolve_left fun hgone => ?_
      exact hgone _ f hf hid
    | _ => cases hstep

theorem FirstRead.move {s s' : PersistState} {made : Option Nat} (h : FirstRead s.dir r)
    (hmove : Move s made s') (hdir : Unwritten s.dir) (hdir' : Unwritten s'.dir)
    (hmade : ∀ o ∈ r.opened, made ≠ some o) : FirstRead s'.dir (r.dirChanged s'.dir) := by
  cases r with
  | sawManifest manifest => exact h
  | done unchanged answer => exact h
  | looked before =>
    obtain ⟨hman, hsnap⟩ := h
    refine ⟨hman, fun o ho => ?_⟩
    have hopen : o ∈ (Attempt.looked before).opened := by simp [Attempt.opened, ho]
    cases hsnap o ho with
    | inl hgone => exact Or.inl (hgone.move hmove (hmade o hopen))
    | inr hex =>
      obtain ⟨f, hf, rfl⟩ := hex
      exact (kept_or_gone hmove hdir hdir' hf (hmade _ hopen)).symm.imp id fun hkept =>
        ⟨f, hkept, rfl⟩
  | listing before owed unread entries =>
    obtain ⟨hman, hplain, hunread, hkept⟩ := h
    refine ⟨hman, hplain, hunread, fun o ho => ?_⟩
    have hopen : o ∈ (Attempt.listing before owed unread entries).opened := by
      simp [Attempt.opened, ho]
    cases hkept o ho with
    | inl hgone => exact Or.inl (hgone.move hmove (hmade o hopen))
    | inr hex =>
      obtain ⟨f, t, hf, rfl, hcontent, howed, hall⟩ := hex
      refine (kept_or_gone hmove hdir hdir' hf (hmade _ hopen)).symm.imp id fun hkept' => ?_
      obtain ⟨u, hu, g, hg, -⟩ := hdir'.writer hkept'
      cases hcontent.symm.trans hu
      exact ⟨f, t, hkept', rfl, hcontent, List.mem_filter.2 ⟨howed, by simp [hg]⟩, hall⟩
  | sawManifestAgain before entries manifest =>
    obtain ⟨hman, hplain, hsnap⟩ := h
    refine ⟨hman, hplain, fun o ho => ?_⟩
    have hopen : o ∈ (Attempt.sawManifestAgain before entries manifest).opened := by
      simp [Attempt.opened, ho]
    exact (hsnap o ho).imp (fun hgone => hgone.move hmove (hmade o hopen)) id

end First

section Later

variable {d : GraphDir} {r r' : Attempt} {a : ReadAction}

theorem NeverNew.append {entries : List (FileName × Bool)} {e : FileName × Bool}
    (h : NeverNew entries) (he : ∀ t, e ≠ (.begun t, true)) : NeverNew (entries ++ [e]) := by
  intro t hmem
  cases List.mem_append.1 hmem with
  | inl hmem => exact h t hmem
  | inr hmem => exact he t (List.mem_singleton.1 hmem).symm

theorem Written.unmarked (h : Written d) (hman : identify d .manifest = none) : Unmarked d := by
  intro t hnew
  obtain ⟨f, hf⟩ := h.marked hnew
  simp [identify, hf] at hman

theorem LaterRead.step (h : LaterRead d r) (hdir : Written d) (hstep : r.step d a = some r') :
    LaterRead d r' := by
  cases r with
  | done unchanged answer => cases hstep
  | sawManifest manifest =>
    cases a with
    | snapshot =>
      cases hstep
      exact h
    | _ => cases hstep
  | looked before =>
    cases a with
    | openDir =>
      cases hstep
      exact fun hman => ⟨h hman, fun t hmem => List.not_mem_nil hmem⟩
    | _ => cases hstep
  | listing before owed unread entries =>
    cases a with
    | entry n =>
      obtain ⟨-, hcase⟩ := Attempt.step_entry hstep
      obtain ⟨t, rfl, rfl⟩ | ⟨hne, rfl⟩ := hcase
      · exact h
      · exact fun hman => ⟨(h hman).1, (h hman).2.append (by simp)⟩
    | readMarker n =>
      obtain ⟨-, rfl⟩ := Attempt.step_readMarker hstep
      refine fun hman => ⟨(h hman).1, (h hman).2.append fun t heq => ?_⟩
      have hn : n = .begun t := congrArg Prod.fst heq
      have hread : Attempt.readMarker d n = true := congrArg Prod.snd heq
      rw [hn] at hread
      exact (h hman).1 t (readMarker_eq_true hread)
    | manifestAgain =>
      obtain ⟨-, -, rfl⟩ := Attempt.step_manifestAgain hstep
      exact fun hman => (h hman).2
    | _ => cases unread <;> cases hstep
  | sawManifestAgain before entries manifest =>
    cases a with
    | snapshotAgain =>
      cases Attempt.step_snapshotAgain hstep
      intro hsame
      have hbefore : before = ⟨manifest, identify d .snapshot⟩ := of_decide_eq_true hsame
      have hsnap : (identify d .snapshot).isSome = true := by
        rw [isSome_identify]
        exact Option.isSome_iff_exists.2 hdir.snapshot
      rw [hsnap]
      cases manifest with
      | some m => exact leavesFrom_eq_true (Or.inl rfl)
      | none =>
        have hnever : NeverNew entries := h (by rw [hbefore])
        exact hnever.answer _
    | _ => cases hstep

theorem LaterRead.move {s s' : PersistState} {made : Option Nat} (h : LaterRead s.dir r)
    (hmove : Move s made s') (hs : Sound s) (hindex : s.index ≠ none) :
    LaterRead s'.dir (r.dirChanged s'.dir) := by
  have hkeep : Unmarked s.dir → Unmarked s'.dir :=
    fun hno t hnew => hno t (hmove.markedNew hs hindex hnew)
  cases r with
  | sawManifest manifest => exact fun hman => hkeep (h hman)
  | looked before => exact fun hman => hkeep (h hman)
  | listing before owed unread entries => exact fun hman => ⟨hkeep (h hman).1, (h hman).2⟩
  | sawManifestAgain before entries manifest => exact h
  | done unchanged answer => exact h

end Later

section Runs

variable {x x' : Reading} {events : List ReadEvent} {e : ReadEvent}

theorem step_writer {a : PersistAction} (h : x.step (.writer a) = some x') :
    ∃ s', x.writer.step a = some s' ∧ x' = ⟨s', x.attempt.dirChanged s'.dir⟩ ∧
      ∀ o ∈ x.attempt.opened, a.makes ≠ some o := by
  rw [Reading.step] at h
  split at h
  · cases h
  · next hno =>
    obtain ⟨s', hs', rfl⟩ := Option.map_eq_some_iff.1 h
    refine ⟨s', hs', rfl, fun o ho heq => hno ?_⟩
    rw [Bool.or_eq_true]
    exact Or.inr (List.any_eq_true.2 ⟨o, ho, by simp [heq]⟩)

theorem step_reader {a : ReadAction} (h : x.step (.reader a) = some x') :
    ∃ r', x.attempt.step x.writer.dir a = some r' ∧ x' = { x with attempt := r' } := by
  obtain ⟨r', hr', rfl⟩ := Option.map_eq_some_iff.1 h
  exact ⟨r', hr', rfl⟩

/-- The holders are sound, and the attempt knows what it may before the first commit point. -/
structure FirstReading (x : Reading) : Prop where
  sound : Sound x.writer
  read : x.writer.index = none → FirstRead x.writer.dir x.attempt

variable {s : PersistState}

theorem unwritten_of_sound (h : Sound s) (hindex : s.index = none) :
    Unwritten s.dir := by
  have hdir := h.dir
  rw [hindex] at hdir
  exact hdir

theorem written_of_sound (h : Sound s) (hindex : s.index ≠ none) :
    Written s.dir := by
  obtain ⟨k, hk⟩ := Option.ne_none_iff_exists'.1 hindex
  have hdir := h.dir
  rw [hk] at hdir
  exact hdir

theorem FirstReading.step (h : FirstReading x) (hstep : x.step e = some x') :
    FirstReading x' := by
  cases e with
  | writer a =>
    obtain ⟨s', hs', rfl, hmade⟩ := step_writer hstep
    have hmove := move_of_step hs'
    have hsound := sound_move h.sound hmove
    refine ⟨hsound, fun hindex => ?_⟩
    have hbefore : x.writer.index = none := by
      by_contra hne
      exact hmove.index_ne_none hne hindex
    exact (h.read hbefore).move hmove (unwritten_of_sound h.sound hbefore)
      (unwritten_of_sound hsound hindex) hmade
  | reader a =>
    obtain ⟨r', hr', rfl⟩ := step_reader hstep
    exact ⟨h.sound, fun hindex =>
      (h.read hindex).step (unwritten_of_sound h.sound hindex) hr'⟩

structure LaterReading (x : Reading) : Prop where
  sound : Sound x.writer
  index : x.writer.index ≠ none
  read : LaterRead x.writer.dir x.attempt

theorem LaterReading.step (h : LaterReading x) (hstep : x.step e = some x') :
    LaterReading x' := by
  cases e with
  | writer a =>
    obtain ⟨s', hs', rfl, -⟩ := step_writer hstep
    have hmove := move_of_step hs'
    exact ⟨sound_move h.sound hmove, hmove.index_ne_none h.index,
      h.read.move hmove h.sound h.index⟩
  | reader a =>
    obtain ⟨r', hr', rfl⟩ := step_reader hstep
    exact ⟨h.sound, h.index, h.read.step (written_of_sound h.sound h.index) hr'⟩

theorem firstReading_first (h : Sound s) : FirstReading (.first s) := by
  refine ⟨h, fun hindex => ?_⟩
  have hun : Unwritten s.dir := unwritten_of_sound h hindex
  have hman : s.dir.get .manifest = none := hun.get_eq_none (by simp) (by simp)
  exact congrArg (Option.map Directory.File.id) hman

theorem laterReading_first (h : Sound s) (hindex : s.index ≠ none) :
    LaterReading (.first s) :=
  ⟨h, hindex, fun hman => (written_of_sound h hindex).unmarked hman⟩

end Runs

section Still

variable {d : GraphDir} {r r' : Attempt} {a : ReadAction}

def StillRead (d : GraphDir) : Attempt → Prop
  | .sawManifest manifest => manifest = identify d .manifest
  | .looked before => before = ⟨identify d .manifest, identify d .snapshot⟩
  | .listing before owed unread entries =>
    before = ⟨identify d .manifest, identify d .snapshot⟩ ∧ owed = d.names ∧
      (∀ n ∈ unread, ∃ f, d.get n = some f) ∧ Met d entries
  | .sawManifestAgain before entries manifest =>
    before = ⟨identify d .manifest, identify d .snapshot⟩ ∧ manifest = identify d .manifest ∧
      Reads d entries
  | .done unchanged answer => unchanged = true ∧ ∃ entries, Reads d entries ∧
      answer = (RollbackListing.ofEntries entries).leavesAnIndex (d.get .manifest).isSome
        (d.get .snapshot).isSome

theorem Met.append {entries : List (FileName × Bool)} {n : FileName} {b : Bool}
    {f : GraphFile} (h : Met d entries) (hf : d.get n = some f)
    (hmark : ∀ t, n = .begun t → markerSaysNoSnapshot f.content = b) :
    Met d (entries ++ [(n, b)]) where
  sound hmem := by
    cases List.mem_append.1 hmem with
    | inl hmem => exact h.sound hmem
    | inr hmem =>
      cases List.mem_singleton.1 hmem
      exact ⟨f, hf⟩
  marked hmem := by
    cases List.mem_append.1 hmem with
    | inl hmem => exact h.marked hmem
    | inr hmem =>
      cases List.mem_singleton.1 hmem
      exact ⟨f, hf, hmark _ rfl⟩

theorem StillRead.step (h : StillRead d r) (hstep : r.step d a = some r') : StillRead d r' := by
  cases r with
  | done unchanged answer => cases hstep
  | sawManifest manifest =>
    cases a with
    | snapshot =>
      cases hstep
      exact congrArg (fun m => Look.mk m (identify d .snapshot)) h
    | _ => cases hstep
  | looked before =>
    cases a with
    | openDir =>
      cases hstep
      exact ⟨h, rfl, fun n hn => absurd hn List.not_mem_nil,
        fun hmem => absurd hmem List.not_mem_nil, fun hmem => absurd hmem List.not_mem_nil⟩
    | _ => cases hstep
  | listing before owed unread entries =>
    obtain ⟨hbefore, howed, hunread, hmet⟩ := h
    cases a with
    | entry n =>
      obtain ⟨⟨f, hf⟩, hcase⟩ := Attempt.step_entry hstep
      obtain ⟨t, rfl, rfl⟩ | ⟨hne, rfl⟩ := hcase
      · refine ⟨hbefore, howed, fun m hm => ?_, hmet⟩
        cases List.mem_cons.1 hm with
        | inl heq => exact ⟨f, heq ▸ hf⟩
        | inr hmem => exact hunread m hmem
      · exact ⟨hbefore, howed, hunread, hmet.append hf fun t heq => absurd heq (hne t)⟩
    | readMarker n =>
      obtain ⟨hmem, rfl⟩ := Attempt.step_readMarker hstep
      obtain ⟨f, hf⟩ := hunread n hmem
      refine ⟨hbefore, howed, fun m hm => hunread m (List.mem_of_mem_erase hm),
        hmet.append hf fun t _ => ?_⟩
      simp [Attempt.readMarker, hf]
    | manifestAgain =>
      obtain ⟨-, hall, rfl⟩ := Attempt.step_manifestAgain hstep
      refine ⟨hbefore, rfl, hmet, fun {n f} hf => hall n ?_⟩
      rw [howed]
      exact Directory.mem_names.2 ⟨f, hf⟩
    | _ => cases unread <;> cases hstep
  | sawManifestAgain before entries manifest =>
    cases a with
    | snapshotAgain =>
      obtain ⟨rfl, rfl, hreads⟩ := h
      cases Attempt.step_snapshotAgain hstep
      refine ⟨by simp, entries, hreads, ?_⟩
      rw [isSome_identify, isSome_identify]
    | _ => cases hstep

structure StillReading (d : GraphDir) (x : Reading) : Prop where
  dir : x.writer.dir = d
  read : StillRead d x.attempt

theorem stillReading_run {s : PersistState} {as : List ReadAction} {x : Reading}
    (hrun : StepSystem.run Reading.step (.first s) (as.map .reader) = some x) :
    StillReading s.dir x := by
  have hfirst : StillReading s.dir (.first s) := ⟨rfl, rfl⟩
  generalize Reading.first s = x₀ at hrun hfirst
  induction as generalizing x₀ with
  | nil =>
    cases hrun
    exact hfirst
  | cons a as ih =>
    obtain ⟨x₁, hstep, hrest⟩ := StepSystem.run_cons_some hrun
    obtain ⟨r', hr', rfl⟩ := step_reader hstep
    refine ih _ hrest ⟨hfirst.dir, ?_⟩
    rw [hfirst.dir] at hr'
    exact hfirst.read.step hr'

end Still

/-- An attempt whose looks agree answers what recovery would have left at some instant of it,
and never an index before the first commit point nor none after it. Without a holder it
answers what recovery leaves. -/
theorem holds_committed_index_is_right :
    (∀ (as : List PersistAction) (s : PersistState) (events : List ReadEvent) (x : Reading)
      (answer : Bool), StepSystem.run PersistState.step {} as = some s →
      StepSystem.run Reading.step (.first s) events = some x → x.attempt = .done true answer →
        (answer = true → Reading.SomeInstant s events RecoversIndex) ∧
        (answer = false → Reading.SomeInstant s events RecoversNothing) ∧
        (x.writer.index = none → answer = false) ∧ (s.index ≠ none → answer = true)) ∧
    ∀ (s : PersistState) (as : List ReadAction) (x : Reading) (unchanged answer : Bool),
      StepSystem.run Reading.step (.first s) (as.map .reader) = some x →
      x.attempt = .done unchanged answer → unchanged = true ∧
        ∀ faults d out, recoverInterruptedPersist faults s.dir = (d, .ok out) →
          (answer = true ↔ HasIndex d) := by
  constructor
  · intro as s events x answer hwriter hrun hdone
    have hsound : Sound s := sound_run sound_empty hwriter
    have hfirst : FirstReading x :=
      StepSystem.invariant_of_run (fun _ _ _ h hstep => h.step hstep) (firstReading_first hsound)
        hrun
    have hno : x.writer.index = none → answer = false := by
      intro hindex
      have hread := hfirst.read hindex
      rw [hdone] at hread
      exact hread rfl
    have hyes : s.index ≠ none → answer = true := by
      intro hindex
      have hlater : LaterReading x :=
        StepSystem.invariant_of_run (fun _ _ _ h hstep => h.step hstep)
          (laterReading_first hsound hindex) hrun
      have hread := hlater.read
      rw [hdone] at hread
      exact hread rfl
    refine ⟨fun htrue => ?_, fun hfalse => ?_, hno, hyes⟩
    · have hindex : x.writer.index ≠ none := by
        intro hnone
        rw [hno hnone] at htrue
        cases htrue
      refine ⟨events.length, x, by rw [List.take_length, hrun], ?_⟩
      exact (written_of_sound hfirst.sound hindex).recoversIndex
    · have hindex : s.index = none := by
        by_contra hne
        rw [hyes hne] at hfalse
        cases hfalse
      exact ⟨0, .first s, rfl, (unwritten_of_sound hsound hindex).recoversNothing⟩
  · intro s as x unchanged answer hrun hdone
    obtain ⟨-, hread⟩ := stillReading_run hrun
    rw [hdone] at hread
    obtain ⟨hunchanged, entries, hreads, hanswer⟩ := hread
    refine ⟨hunchanged, fun faults d out hrec => ?_⟩
    rw [hanswer]
    exact leavesAnIndex_eq_of_recover hreads hrec

/-- An attempt that lists the directory while a first persist fails, and answers no. -/
theorem holds_committed_index_is_right_first_persist : ∃ s x,
    StepSystem.run PersistState.step {} [.takeLock, .recover, .begin 0 0, .setAside, .keep,
      .save 1] = some s ∧
    StepSystem.run Reading.step (.first s) [.reader .snapshot, .reader .openDir,
      .reader (.entry .snapshot), .writer .fail, .reader (.entry (.begun 0)),
      .reader (.readMarker (.begun 0)), .reader .manifestAgain, .reader .snapshotAgain] = some x ∧
    Reading.SomeInstant s [.reader .snapshot, .reader .openDir,
      .reader (.entry .snapshot), .writer .fail, .reader (.entry (.begun 0)),
      .reader (.readMarker (.begun 0)), .reader .manifestAgain, .reader .snapshotAgain]
      RecoversNothing := by
  have hattempt : ((StepSystem.run PersistState.step {} [.takeLock, .recover, .begin 0 0,
      .setAside, .keep, .save 1]).bind fun s =>
    StepSystem.run Reading.step (.first s) [.reader .snapshot, .reader .openDir,
      .reader (.entry .snapshot), .writer .fail, .reader (.entry (.begun 0)),
      .reader (.readMarker (.begun 0)), .reader .manifestAgain, .reader .snapshotAgain]).map
        Reading.attempt = some (.done true false) := by
    decide +kernel
  obtain ⟨x, hx, hdone⟩ := Option.map_eq_some_iff.1 hattempt
  obtain ⟨s, hs, hrun⟩ := Option.bind_eq_some_iff.1 hx
  have hright := holds_committed_index_is_right.1 _ s _ x false hs hrun hdone
  exact ⟨s, x, hs, hrun, hright.2.1 rfl⟩

end Sqry.Rollback
