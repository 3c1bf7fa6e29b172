import Sqry.Lock.OneEntry

/-!
Every step of the process is a turn of each entry, so the accounts of every entry hold in
every state a run reaches: a lock won by a helper goes to one waiter or to none.
-/

namespace Sqry.PersistLock

namespace LockWaits

open EntryView (Turn)

variable {s s' : LockWaits} {w e : Nat} {pc : WaitPc} {x : SharedLockWait}

section Views

theorem view_setShared (h : s.shared[e]? = some x) (y : SharedLockWait) :
    (s.setShared e y).view e = { s.view e with entry := some y } := by
  have hlt : e < s.shared.length := (List.getElem?_eq_some_iff.mp h).1
  simp [view, setShared, attachedTo, carried, won, taken, dropped, List.getElem?_set_self hlt]

theorem view_setShared_ne {e' : Nat} (h : e' ≠ e) (y : SharedLockWait) :
    (s.setShared e y).view e' = s.view e' := by
  simp [view, setShared, attachedTo, carried, won, taken, dropped,
    List.getElem?_set_ne (Ne.symm h)]

theorem view_setWaiter (h : s.waiters[w]? = some pc) (pc' : WaitPc) (e : Nat) :
    (s.setWaiter w pc').view e = { s.view e with
      attached := s.attachedTo e + pc'.on e - pc.on e
      carried := s.carried e + pc'.carries e - pc.carries e } := by
  have hon := Ledger.total_set (f := WaitPc.on e) h pc'
  have hcarries := Ledger.total_set (f := WaitPc.carries e) h pc'
  have hattached : (s.setWaiter w pc').attachedTo e = s.attachedTo e + pc'.on e - pc.on e := by
    show Ledger.total _ _ = Ledger.total _ _ + _ - _
    simp only [setWaiter]
    omega
  have hcarried : (s.setWaiter w pc').carried e = s.carried e + pc'.carries e - pc.carries e := by
    show Ledger.total _ _ = Ledger.total _ _ + _ - _
    simp only [setWaiter]
    omega
  rw [view, hattached, hcarried]
  rfl

theorem view_setWaiter_same (h : s.waiters[w]? = some pc) {pc' : WaitPc} {e : Nat}
    (hon : pc'.on e = pc.on e) (hcarries : pc'.carries e = pc.carries e) :
    (s.setWaiter w pc').view e = s.view e := by
  rw [view_setWaiter h, hon, hcarries, Nat.add_sub_cancel, Nat.add_sub_cancel]
  rfl

theorem view_close (f e : Nat) :
    (s.close f).view e = { s.view e with locked := (s.view e).locked && f != e } := by
  have hlocked : ((s.close f).locked == some (.file e)) =
      ((s.locked == some (.file e)) && f != e) := by
    rw [close]
    by_cases hf : s.locked = some (.file f)
    · by_cases he : f = e <;> simp [hf, he]
    · by_cases he : f = e
      · subst he
        simp [hf]
      · simp [hf, he]
  rw [view, hlocked]
  rfl

theorem total_append_one {α : Type} (f : α → Nat) (l : List α) (a : α) :
    Ledger.total f (l ++ [a]) = Ledger.total f l + f a := by
  rw [Ledger.total_append, Ledger.total_cons, Ledger.total_nil, Nat.add_zero]

theorem view_dropAnswer {answer : Option LockAnswer} (h : LockAnswer.Names e answer) :
    (s.dropAnswer answer).view e = (s.view e).dropAnswer answer := by
  cases answer with
  | none => simp [dropAnswer, EntryView.dropAnswer, LockAnswer.files]
  | some answer =>
    cases answer with
    | error => simp [dropAnswer, EntryView.dropAnswer, LockAnswer.files]
    | file f =>
      obtain rfl : f = e := h f rfl
      simp [view, dropAnswer, record, EntryView.dropAnswer, LockAnswer.files, attachedTo, carried, won,
        taken, dropped, close, total_append_one, LockEvent.wins, LockEvent.takes,
        LockEvent.drops]

theorem view_dropAnswer_ne {answer : Option LockAnswer} {e' : Nat}
    (h : LockAnswer.Names e answer) (hne : e' ≠ e) :
    (s.dropAnswer answer).view e' = s.view e' := by
  cases answer with
  | none => rfl
  | some answer =>
    cases answer with
    | error => rfl
    | file f =>
      obtain rfl : f = e := h f rfl
      have hclose : (s.close f).view e' = s.view e' := by
        rw [view_close, bne_iff_ne.mpr (Ne.symm hne), Bool.and_true]
      rw [← hclose]
      simp [view, dropAnswer, record, attachedTo, carried, won, taken, dropped, total_append_one,
        LockEvent.wins, LockEvent.takes, LockEvent.drops, Ne.symm hne]

theorem view_taken {s : LockWaits} {e w : Nat} :
    (s.record (.taken e w)).view e = { s.view e with taken := s.taken e + 1 } := by
  simp [view, record, attachedTo, carried, won, taken, dropped, total_append_one, LockEvent.wins,
    LockEvent.takes, LockEvent.drops]

theorem view_taken_ne {s : LockWaits} {e w : Nat} {e' : Nat} (hne : e' ≠ e) :
    (s.record (.taken e w)).view e' = s.view e' := by
  simp [view, record, attachedTo, carried, won, taken, dropped, total_append_one, LockEvent.wins,
    LockEvent.takes, LockEvent.drops, Ne.symm hne]

theorem setWaiter_dropAnswer (answer : Option LockAnswer) (pc : WaitPc) :
    (s.dropAnswer answer).setWaiter w pc = (s.setWaiter w pc).dropAnswer answer := by
  cases answer with
  | none => rfl
  | some answer => cases answer <;> rfl

end Views

def Turns (s s' : LockWaits) : Prop := ∀ e, Turn e (s.view e) (s'.view e)

theorem turns_of_view_eq (h : ∀ e, s'.view e = s.view e) : s.Turns s' := by
  intro e
  rw [h e]
  exact .idle

theorem turns_of_one (hother : ∀ e', e' ≠ e → s'.view e' = s.view e')
    (hmoved : Turn e (s.view e) (s'.view e)) : s.Turns s' := by
  intro e'
  by_cases he : e' = e
  · rw [he]
    exact hmoved
  · rw [hother e' he]
    exact .idle

def Sound (s : LockWaits) : Prop := ∀ e, (s.view e).Sound e

section Steps

theorem Sound.kept (hs : s.Sound) (hx : s.shared[e]? = some x) : (s.view e).Kept e x :=
  EntryView.sound_some (hs e) hx

theorem Sound.registered (hs : s.Sound) (h : s.registry = some e) :
    ∃ x, s.shared[e]? = some x ∧ x.state.finished = false := by
  have hreg : (s.view e).registered = true := by simp [view, h]
  cases hx : s.shared[e]? with
  | none =>
    have hv := EntryView.sound_none (hs e) hx
    rw [hv.registered] at hreg
    cases hreg
  | some x => exact ⟨x, rfl, (hs.kept hx).registered.mp hreg⟩

theorem turns_returned (h : s.waiters[w]? = some .attaching) (outcome : LockWait) :
    s.Turns (s.setWaiter w (.returned outcome)) :=
  turns_of_view_eq fun _ => view_setWaiter_same h rfl rfl

theorem view_attached (h : s.waiters[w]? = some .attaching) :
    (s.setWaiter w (.attached e)).view e = { s.view e with attached := s.attachedTo e + 1 } := by
  rw [view_setWaiter h]
  simp [WaitPc.on, WaitPc.carries, view]

theorem view_attached_ne (h : s.waiters[w]? = some .attaching) {e' : Nat} (hne : e' ≠ e) :
    (s.setWaiter w (.attached e)).view e' = s.view e' :=
  view_setWaiter_same h (by simp [WaitPc.on, Ne.symm hne]) rfl

theorem turns_startHelper (h : s.waiters[w]? = some .attaching) (hreg : s.registry = none)
    (world : AttachWorld) : s.Turns (s.startHelper w world) := by
  rw [startHelper]
  split
  · exact turns_returned h _
  split
  · exact turns_returned h _
  split
  · exact turns_returned h _
  split
  · exact turns_returned h _
  refine turns_of_one (e := s.shared.length) ?_ ?_
  · intro e' hne
    rw [← view_attached_ne h hne]
    have hentry : (s.shared ++ [({ state := { interested := 1 } } : SharedLockWait)])[e']? =
        s.shared[e']? := by
      rw [List.getElem?_append]
      split
      · rfl
      · next hlt =>
          rw [List.getElem?_eq_none (Nat.le_of_not_lt hlt), List.getElem?_eq_none]
          simp only [List.length_singleton]
          omega
    simp only [view, setWaiter, hentry, hreg, EntryView.mk.injEq, true_and]
    exact ⟨by simp [Ne.symm hne], rfl, rfl, rfl, rfl, rfl, trivial⟩
  · have hturn : Turn s.shared.length (s.view s.shared.length) _ := .starts (by simp [view])
    have hattached := view_attached (e := s.shared.length) h
    simp only [view, EntryView.mk.injEq] at hattached
    obtain ⟨-, -, hattached, hcarried, -, -, -, -⟩ := hattached
    refine cast (congrArg _ ?_) hturn
    simp only [view, EntryView.mk.injEq]
    exact ⟨by simp, by simp, hattached.symm, hcarried.symm, rfl, rfl, rfl, rfl⟩

theorem turns_attach (hs : s.Sound) (h : s.waiters[w]? = some .attaching)
    (world : AttachWorld) : s.Turns (s.attach w world) := by
  rw [attach]
  cases hreg : s.registry with
  | none => exact turns_startHelper h hreg world
  | some e =>
    obtain ⟨x, hx, hopen⟩ := hs.registered hreg
    have hjoin : ¬ x.state.finished = true := by simp [hopen]
    simp only [hx]
    rw [if_neg hjoin]
    refine turns_of_one (e := e) (fun e' hne => ?_) ?_
    · exact (view_attached_ne (s := s.setShared e _) h hne).trans (view_setShared_ne hne _)
    · have hturn : Turn e (s.view e) _ := .joins hx hopen
      refine cast (congrArg _ ?_) hturn
      refine Eq.symm ((view_attached (s := s.setShared e _) h).trans ?_)
      rw [view_setShared hx]
      rfl

theorem turns_helperExit (hx : s.shared[e]? = some x) {answer : Option LockAnswer}
    (hs : s.Sound) (hexiting : x.helper = .exiting answer) :
    s.Turns (s.helperExit e x answer) := by
  have hkept := hs.kept hx
  have hopen : x.state.finished = false := by
    have hphased := hkept.phased
    rw [SharedLockWait.Phased, hexiting] at hphased
    exact hphased.1
  have hreg : s.registry = some e := by simpa [view] using hkept.registered.mpr hopen
  have hother (y : SharedLockWait) {e' : Nat} (hne : e' ≠ e) :
      ({ s with registry := none }.setShared e y).view e' = s.view e' := by
    rw [view_setShared_ne hne]
    simp only [view, hreg, EntryView.mk.injEq, true_and]
    exact ⟨by simp [Ne.symm hne], rfl, rfl, rfl, rfl, rfl, trivial⟩
  have hmoved (y : SharedLockWait) : ({ s with registry := none }.setShared e y).view e =
      { s.view e with entry := some y, registered := false } :=
    view_setShared (s := { s with registry := none }) hx y
  rw [helperExit, if_pos hreg]
  by_cases hwaits : 0 < x.state.interested
  · simp only [hwaits, if_true]
    refine turns_of_one (fun e' hne => hother _ hne) ?_
    rw [hmoved]
    exact .hands answer hx hexiting hwaits
  · simp only [hwaits, if_false]
    refine turns_of_one (fun e' hne => hother _ hne) ?_
    rw [hmoved]
    exact .keeps answer hx hexiting (Nat.eq_zero_of_not_pos hwaits)

theorem view_leaves (hw : s.waiters[w]? = some pc) (hon : ∀ e', pc.on e' = if e = e' then 1 else 0)
    (hcarries : ∀ e', pc.carries e' = 0) (hx : s.shared[e]? = some x) (y : SharedLockWait)
    {pc' : WaitPc} (hoff : ∀ e', pc'.on e' = 0) :
    ((s.setShared e y).setWaiter w pc').view e = { s.view e with
      entry := some y, attached := s.attachedTo e - 1,
      carried := s.carried e + pc'.carries e } := by
  have hw' : (s.setShared e y).waiters[w]? = some pc := hw
  rw [view_setWaiter hw', view_setShared hx, hon, hcarries, hoff, if_pos rfl]
  rfl

theorem view_leaves_ne (hw : s.waiters[w]? = some pc)
    (hon : ∀ e', pc.on e' = if e = e' then 1 else 0) (hcarries : ∀ e', pc.carries e' = 0)
    (y : SharedLockWait) {pc' : WaitPc} (hoff : ∀ e', pc'.on e' = 0) {e' : Nat}
    (hne : e' ≠ e) (hfile : pc'.carries e' = 0) :
    ((s.setShared e y).setWaiter w pc').view e' = s.view e' := by
  have hw' : (s.setShared e y).waiters[w]? = some pc := hw
  rw [view_setWaiter_same hw', view_setShared_ne hne]
  · rw [hoff, hon, if_neg (Ne.symm hne)]
  · rw [hfile, hcarries]

theorem turns_look (hs : s.Sound) (hw : s.waiters[w]? = some pc)
    (hon : ∀ e', pc.on e' = if e = e' then 1 else 0) (hcarries : ∀ e', pc.carries e' = 0)
    (hx : s.shared[e]? = some x) (h : s.look w e x = some s') : s.Turns s' := by
  rw [look] at h
  cases hanswer : x.state.answer with
  | none =>
    simp only [hanswer] at h
    split at h
    · obtain ⟨state, hleave, rfl⟩ := Option.map_eq_some_iff.mp h
      refine turns_of_one (e := e) (fun e' hne => ?_) ?_
      · exact view_leaves_ne hw hon hcarries _ (fun _ => rfl) hne rfl
      · rw [view_leaves hw hon hcarries hx _ (fun _ => rfl)]
        exact .leaves hx hleave (.inl hanswer)
    · cases h
      refine turns_of_view_eq fun e' => view_setWaiter_same hw ?_ ?_
      · rw [hon, WaitPc.on]
      · rw [hcarries]
        rfl
  | some answer =>
    simp only [hanswer] at h
    obtain ⟨state, hleave, rfl⟩ := Option.map_eq_some_iff.mp h
    cases answer with
    | error =>
      refine turns_of_one (e := e) (fun e' hne => ?_) ?_
      · exact view_leaves_ne hw hon hcarries _ (fun _ => rfl) hne rfl
      · rw [takeAnswer, view_leaves hw hon hcarries hx _ (fun _ => rfl)]
        exact .takes .error hx hanswer hleave
    | file f =>
      obtain rfl : f = e := (hs.kept hx).names f hanswer
      refine turns_of_one (e := f) (fun e' hne => ?_) ?_
      · rw [takeAnswer, view_taken_ne hne]
        exact view_leaves_ne hw hon hcarries _ (fun _ => rfl) hne (by simp [WaitPc.carries,
          Ne.symm hne])
      · rw [takeAnswer, view_taken, view_leaves hw hon hcarries hx _ (fun _ => rfl)]
        have hturn : Turn f (s.view f) _ := .takes (.file f) hx hanswer hleave
        refine cast (congrArg _ ?_) hturn
        simp [WaitPc.carries, LockAnswer.files, view]
        rfl

theorem turns_giveUp (hs : s.Sound) (hw : s.waiters[w]? = some (.parked e))
    (hx : s.shared[e]? = some x) {outcome : LockWait} (h : s.giveUp w e x outcome = some s') :
    s.Turns s' := by
  have hon (e' : Nat) : (WaitPc.parked e).on e' = if e = e' then 1 else 0 := rfl
  have hnames := (hs.kept hx).names
  obtain ⟨state, hleave, rfl⟩ := Option.map_eq_some_iff.mp h
  obtain ⟨-, hstate⟩ := SharedLockState.leave_eq_some hleave
  have hanswer : state.answer = x.state.answer := by rw [hstate]
  split
  · next hlast =>
      refine turns_of_one (e := e) (fun e' hne => ?_) ?_
      · rw [setWaiter_dropAnswer, view_dropAnswer_ne (hanswer ▸ hnames) hne]
        exact view_leaves_ne hw hon (fun _ => rfl) _ (fun _ => rfl) hne rfl
      · rw [setWaiter_dropAnswer, view_dropAnswer (hanswer ▸ hnames),
          view_leaves hw hon (fun _ => rfl) hx _ (fun _ => rfl)]
        exact .abandons hx hleave hlast
  · next hothers =>
      refine turns_of_one (e := e) (fun e' hne => ?_) ?_
      · exact view_leaves_ne hw hon (fun _ => rfl) _ (fun _ => rfl) hne rfl
      · rw [view_leaves hw hon (fun _ => rfl) hx _ (fun _ => rfl)]
        exact .leaves hx hleave (.inr hothers)

theorem turns_close {f : Nat} (hw : s.waiters[w]? = some pc) (hon : ∀ e', pc.on e' = 0)
    (hcarries : ∀ e', pc.carries e' = if f = e' then 1 else 0) (outcome : LockWait) :
    s.Turns ((s.close f).setWaiter w (.returned outcome)) := by
  have hw' : (s.close f).waiters[w]? = some pc := hw
  refine turns_of_one (e := f) (fun e' hne => ?_) ?_
  · rw [view_setWaiter_same hw', view_close, bne_iff_ne.mpr (Ne.symm hne), Bool.and_true]
    · rw [hon]
      rfl
    · rw [hcarries, if_neg (Ne.symm hne)]
      rfl
  · have hcarried : 0 < s.carried f := by
      have hle := Ledger.le_total (f := WaitPc.carries f) (List.mem_of_getElem? hw)
      rw [hcarries, if_pos rfl] at hle
      exact hle
    have hturn : Turn f (s.view f) _ := .unlocks hcarried
    refine cast (congrArg _ ?_) hturn
    rw [view_setWaiter hw', view_close, hon, hcarries, if_pos rfl]
    simp [WaitPc.on, WaitPc.carries, view]
    exact ⟨rfl, rfl⟩

theorem turns_arrive {f : Nat} (hw : s.waiters[w]? = some (.arrived f)) (named cancelled : Bool) :
    s.Turns (s.arrive w f named cancelled) := by
  rw [arrive]
  split
  · exact turns_close hw (fun _ => rfl) (fun _ => rfl) _
  split
  · exact turns_close hw (fun _ => rfl) (fun _ => rfl) _
  · exact turns_of_view_eq fun _ => view_setWaiter_same hw rfl rfl

theorem turns_flock (hx : s.shared[e]? = some x) (hlocking : x.helper = .locking)
    {answer : Option LockAnswer} (hanswer : LockAnswer.files answer = 0) :
    s.Turns (s.setShared e { x with helper := .exiting answer }) := by
  refine turns_of_one (e := e) (fun e' hne => view_setShared_ne hne _) ?_
  rw [view_setShared hx]
  exact .fails answer hx hlocking hanswer

theorem turns_flockWins (hx : s.shared[e]? = some x) (hlocking : x.helper = .locking)
    (hfree : s.locked = none) (y : SharedLockWait)
    (hy : y = { x with helper := .exiting (some (.file e)) }) :
    s.Turns ((({ s with locked := some (.file e) } : LockWaits).setShared e y).record
      (.won e)) := by
  refine turns_of_one (e := e) (fun e' hne => ?_) ?_
  · have hentry := view_setShared_ne (s := s) hne y
    simp only [view, EntryView.mk.injEq] at hentry
    simp only [view, EntryView.mk.injEq, record, won, taken, dropped, total_append_one]
    refine ⟨hentry.1, rfl, rfl, rfl, ?_, rfl, rfl, ?_⟩
    · simp [LockEvent.wins, Ne.symm hne, setShared]
    · simp [setShared, hfree, Ne.symm hne]
  · have hturn : Turn e (s.view e) _ := .wins hx hlocking (by simp [view, hfree])
    refine cast (congrArg _ ?_) hturn
    have hentry := view_setShared hx y
    simp only [view, EntryView.mk.injEq] at hentry
    simp only [view, EntryView.mk.injEq, record, won, taken, dropped, total_append_one]
    refine ⟨(hentry.1.trans (congrArg some hy)).symm, rfl, rfl, rfl, ?_, rfl, rfl, ?_⟩
    · simp [LockEvent.wins, setShared]
    · simp [setShared]

theorem turns_dropFields (hs : s.Sound) (hx : s.shared[e]? = some x) {answer : Option LockAnswer}
    (hdropping : x.helper = .dropping answer) :
    s.Turns ((s.setShared e { x with helper := .gone }).dropAnswer answer) := by
  have hnames : LockAnswer.Names e answer := by
    have hphased := (hs.kept hx).phased
    rw [SharedLockWait.Phased, hdropping] at hphased
    exact hphased.2.2
  refine turns_of_one (e := e) (fun e' hne => ?_) ?_
  · rw [view_dropAnswer_ne hnames hne, view_setShared_ne hne]
  · rw [view_dropAnswer hnames, view_setShared hx]
    exact .drops answer hx hdropping

theorem turns_wake (hs : s.Sound) {cancelled named : Bool}
    (h : s.wake w cancelled named = some s') : s.Turns s' := by
  rw [wake] at h
  split at h
  · next e hw =>
      obtain ⟨x, hx, hlook⟩ := Option.bind_eq_some_iff.mp h
      exact turns_look hs hw (fun _ => rfl) (fun _ => rfl) hx hlook
  · next e hw =>
      obtain ⟨x, hx, hrest⟩ := Option.bind_eq_some_iff.mp h
      split at hrest
      · exact turns_giveUp hs hw hx hrest
      split at hrest
      · exact turns_giveUp hs hw hx hrest
      · exact turns_look hs hw (fun _ => rfl) (fun _ => rfl) hx hrest
  · cases h

theorem turns_step (hs : s.Sound) {i : LockStep} (h : s.step i = some s') : s.Turns s' := by
  cases i with
  | contended =>
    simp only [step] at h
    split at h
    · cases h
      refine turns_of_view_eq fun e => ?_
      simp [view, attachedTo, carried, won, taken, dropped, total_append_one, WaitPc.on,
        WaitPc.carries]
    · cases h
  | attach w world =>
    simp only [step] at h
    split at h
    · next hw =>
        cases h
        exact turns_attach hs hw world
    · cases h
  | flockWins e =>
    obtain ⟨x, hx, hwins⟩ := Option.bind_eq_some_iff.mp h
    split at hwins
    · next hguard =>
        cases hwins
        exact turns_flockWins hx hguard.1 hguard.2 _ rfl
    · cases hwins
  | flockFails e =>
    obtain ⟨x, hx, hfails⟩ := Option.bind_eq_some_iff.mp h
    split at hfails
    · next hlocking =>
        cases hfails
        exact turns_flock hx hlocking rfl
    · cases hfails
  | panics e =>
    obtain ⟨x, hx, hpanics⟩ := Option.bind_eq_some_iff.mp h
    split at hpanics
    · next hlocking =>
        cases hpanics
        exact turns_flock hx hlocking rfl
    · cases hpanics
  | helperExit e =>
    obtain ⟨x, hx, hexit⟩ := Option.bind_eq_some_iff.mp h
    split at hexit
    · next answer hexiting =>
        cases hexit
        exact turns_helperExit hx hs hexiting
    · cases hexit
  | dropFields e =>
    obtain ⟨x, hx, hdrop⟩ := Option.bind_eq_some_iff.mp h
    split at hdrop
    · next answer hdropping =>
        cases hdrop
        exact turns_dropFields hs hx hdropping
    · cases hdrop
  | wake w cancelled named => exact turns_wake hs h
  | arrive w named cancelled =>
    simp only [step] at h
    split at h
    · next f hw =>
        cases h
        exact turns_arrive hw named cancelled
    · cases h
  | unlock w =>
    simp only [step] at h
    split at h
    · next f hw =>
        cases h
        exact turns_close hw (fun _ => rfl) (fun _ => rfl) _
    · cases h
  | otherLocks =>
    simp only [step] at h
    split at h
    · next hfree =>
        cases h
        refine turns_of_view_eq fun e => ?_
        simp only [view, EntryView.mk.injEq, hfree]
        exact ⟨trivial, trivial, rfl, rfl, rfl, rfl, rfl, rfl⟩
    · cases h
  | otherUnlocks =>
    simp only [step] at h
    split at h
    · next hother =>
        cases h
        refine turns_of_view_eq fun e => ?_
        simp only [view, EntryView.mk.injEq, hother]
        exact ⟨trivial, trivial, rfl, rfl, rfl, rfl, rfl, rfl⟩
    · cases h

end Steps

theorem sound_step (s : LockWaits) (i : LockStep) (s' : LockWaits) (hs : s.Sound)
    (h : s.step i = some s') : s'.Sound :=
  fun e => (turns_step hs h e).sound (hs e)

theorem sound_init : ({} : LockWaits).Sound := by
  intro e
  exact ⟨rfl, rfl, rfl, rfl, rfl, rfl, rfl⟩

theorem sound_run {steps : List LockStep}
    (h : StepSystem.run step {} steps = some s) : s.Sound :=
  StepSystem.invariant_of_run sound_step sound_init h

/-- The locks entry `e`'s helper won that are still with it or stored in the entry. -/
def unclaimed (s : LockWaits) (e : Nat) : Nat :=
  (s.shared[e]?.map SharedLockWait.unclaimed).getD 0

theorem Sound.attached (hs : s.Sound) (hw : s.waiters[w]? = some pc) (hon : pc.on e = 1) :
    ∃ x, s.shared[e]? = some x ∧ 0 < x.state.interested := by
  have hpos : 0 < s.attachedTo e := by
    have hle := Ledger.le_total (f := WaitPc.on e) (List.mem_of_getElem? hw)
    rw [hon] at hle
    exact hle
  cases hx : s.shared[e]? with
  | none =>
    have hzero : s.attachedTo e = 0 := (EntryView.sound_none (hs e) hx).attached
    omega
  | some x =>
    have heq : x.state.interested = s.attachedTo e := (hs.kept hx).interested
    exact ⟨x, rfl, by omega⟩

theorem Sound.unique (hs : s.Sound) {e' : Nat} {y : SharedLockWait} (hx : s.shared[e]? = some x)
    (hy : s.shared[e']? = some y) (hxopen : x.state.finished = false)
    (hyopen : y.state.finished = false) : e = e' := by
  have hreg : s.registry = some e := by simpa [view] using (hs.kept hx).registered.mpr hxopen
  have hreg' : s.registry = some e' := by simpa [view] using (hs.kept hy).registered.mpr hyopen
  exact Option.some.inj (hreg.symm.trans hreg')

theorem Sound.books (hs : s.Sound) (e : Nat) :
    s.won e ≤ 1 ∧ s.won e = s.unclaimed e + s.taken e + s.dropped e ∧
      s.unclaimed e + s.carried e = if s.locked = some (.file e) then 1 else 0 := by
  cases hx : s.shared[e]? with
  | none =>
    have hv := EntryView.sound_none (hs e) hx
    have hwon : s.won e = 0 := hv.won
    have htaken : s.taken e = 0 := hv.taken
    have hdropped : s.dropped e = 0 := hv.dropped
    have hcarried : s.carried e = 0 := hv.carried
    have hlocked : s.locked ≠ some (.file e) := by simpa [view] using hv.locked
    simp [unclaimed, hx, hwon, htaken, hdropped, hcarried, hlocked]
  | some x =>
    have hv := hs.kept hx
    have hunclaimed : s.unclaimed e = x.unclaimed := by simp [unclaimed, hx]
    have hlocked : x.unclaimed + s.carried e = if s.locked == some (.file e) then 1 else 0 :=
      hv.locked
    rw [hunclaimed]
    exact ⟨hv.won_le, hv.won_eq, by simpa using hlocked⟩

theorem look_isSome (hpos : 0 < x.state.interested) : (s.look w e x).isSome := by
  have hne : x.state.interested ≠ 0 := Nat.pos_iff_ne_zero.mp hpos
  rw [look]
  split
  · simp [SharedLockState.leave, hne]
  · split <;> simp [SharedLockState.leave, hne]

theorem Sound.wakes (hs : s.Sound) (hw : s.waiters[w]? = some pc) (hon : pc.on e = 1)
    (cancelled named : Bool) : (s.step (.wake w cancelled named)).isSome := by
  obtain ⟨x, hx, hpos⟩ := hs.attached hw hon
  have hne : x.state.interested ≠ 0 := Nat.pos_iff_ne_zero.mp hpos
  have hgives (outcome : LockWait) : (s.giveUp w e x outcome).isSome := by
    simp [giveUp, SharedLockState.leave, hne]
  have heq {e' : Nat} (h : (if e' = e then 1 else 0) = 1) : e' = e := by
    by_contra hne
    rw [if_neg hne] at h
    cases h
  show (s.wake w cancelled named).isSome
  cases pc with
  | attached e' =>
    obtain rfl := heq hon
    simp only [wake, hw, hx, Option.bind_some]
    exact look_isSome hpos
  | parked e' =>
    obtain rfl := heq hon
    simp only [wake, hw, hx, Option.bind_some]
    split
    · exact hgives _
    split
    · exact hgives _
    · exact look_isSome hpos
  | attaching => cases hon
  | arrived f => cases hon
  | holding f => cases hon
  | returned outcome => cases hon

theorem setWaiter_on (hw : s.waiters[w]? = some pc) {pc' pc'' : WaitPc}
    (h : (s.setWaiter w pc').waiters[w]? = some pc'') : pc'' = pc' := by
  have hlt : w < s.waiters.length := (List.getElem?_eq_some_iff.mp hw).1
  rw [setWaiter, List.getElem?_set_self hlt] at h
  exact (Option.some.inj h).symm

theorem look_parked (hw : s.waiters[w]? = some pc) (hx : s.shared[e]? = some x)
    (h : s.look w e x = some s') {e' : Nat} {pc' : WaitPc} (hw' : s'.waiters[w]? = some pc')
    (hon : pc'.on e' = 1) : ∃ y, s'.shared[e']? = some y ∧ y.state.finished = false := by
  rw [look] at h
  cases hanswer : x.state.answer with
  | some answer =>
    simp only [hanswer] at h
    obtain ⟨state, -, rfl⟩ := Option.map_eq_some_iff.mp h
    cases answer with
    | file f =>
      rw [setWaiter_on hw hw'] at hon
      cases hon
    | error =>
      rw [setWaiter_on hw hw'] at hon
      cases hon
  | none =>
    simp only [hanswer] at h
    split at h
    · obtain ⟨state, -, rfl⟩ := Option.map_eq_some_iff.mp h
      rw [setWaiter_on hw hw'] at hon
      cases hon
    · next hopen =>
        cases h
        rw [setWaiter_on hw hw'] at hon
        have heq : e = e' := by
          by_contra hne
          rw [WaitPc.on, if_neg hne] at hon
          cases hon
        rw [← heq]
        exact ⟨x, hx, by simpa using hopen⟩

theorem giveUp_waiters {outcome : LockWait} (h : s.giveUp w e x outcome = some s') :
    s'.waiters = s.waiters.set w (.returned outcome) := by
  obtain ⟨state, -, rfl⟩ := Option.map_eq_some_iff.mp h
  split
  · rw [setWaiter_dropAnswer]
    cases state.answer with
    | none => rfl
    | some answer => cases answer <;> rfl
  · rfl

theorem wake_parked {cancelled named : Bool} (h : s.step (.wake w cancelled named) = some s')
    {e' : Nat} {pc' : WaitPc} (hw' : s'.waiters[w]? = some pc') (hon : pc'.on e' = 1) :
    ∃ y, s'.shared[e']? = some y ∧ y.state.finished = false := by
  have hgone {e : Nat} {x : SharedLockWait} {pc : WaitPc} {outcome : LockWait}
      (hw : s.waiters[w]? = some pc)
      (hgives : s.giveUp w e x outcome = some s') : False := by
    have hwaiters : (s.setWaiter w (.returned outcome)).waiters[w]? = some pc' := by
      rw [setWaiter, ← giveUp_waiters hgives]
      exact hw'
    rw [setWaiter_on hw hwaiters] at hon
    cases hon
  have hwake : s.wake w cancelled named = some s' := h
  rw [wake] at hwake
  split at hwake
  · next e hw =>
      obtain ⟨x, hx, hlook⟩ := Option.bind_eq_some_iff.mp hwake
      exact look_parked hw hx hlook hw' hon
  · next e hw =>
      obtain ⟨x, hx, hrest⟩ := Option.bind_eq_some_iff.mp hwake
      split at hrest
      · exact (hgone hw hrest).elim
      split at hrest
      · exact (hgone hw hrest).elim
      · exact look_parked hw hx hrest hw' hon
  · cases hwake

/-- A lock won by a shared helper goes to one waiter or to none. -/
theorem won_lock_has_one_taker {steps : List LockStep}
    (h : StepSystem.run step {} steps = some s) :
    (∀ (e e' : Nat) (x y : SharedLockWait), s.shared[e]? = some x → s.shared[e']? = some y →
      x.state.finished = false → y.state.finished = false → e = e') ∧
    (∀ (e : Nat) (x : SharedLockWait), s.shared[e]? = some x → x.state.interested = s.attachedTo e) ∧
    (∀ (w e : Nat) (pc : WaitPc) (cancelled named : Bool), s.waiters[w]? = some pc → pc.on e = 1 →
      (∃ x, s.shared[e]? = some x ∧ 0 < x.state.interested) ∧
      (s.step (.wake w cancelled named)).isSome) ∧
    (∀ e, s.won e ≤ 1 ∧ s.won e = s.unclaimed e + s.taken e + s.dropped e ∧
      s.unclaimed e + s.carried e = if s.locked = some (.file e) then 1 else 0) ∧
    (∀ (e : Nat) (x : SharedLockWait), s.shared[e]? = some x → x.state.answer ≠ none →
      0 < s.attachedTo e) ∧
    ∀ (w : Nat) (cancelled named : Bool) (s' : LockWaits), s.step (.wake w cancelled named) = some s' →
      ∀ (e : Nat) (pc : WaitPc), s'.waiters[w]? = some pc → pc.on e = 1 →
      ∃ x, s'.shared[e]? = some x ∧ x.state.finished = false := by
  have hs : s.Sound := sound_run h
  refine ⟨fun e e' x y hx hy => hs.unique hx hy, fun e x hx => (hs.kept hx).interested,
    fun w e pc cancelled named hw hon => ⟨hs.attached hw hon, hs.wakes hw hon cancelled named⟩,
    hs.books, ?_, fun w cancelled named s' hstep e pc hw hon => wake_parked hstep hw hon⟩
  intro e x hx hanswer
  have hkept := hs.kept hx
  have hpos := hkept.answered hanswer
  rw [hkept.interested] at hpos
  exact hpos

def twoWaits : List LockStep :=
  [.otherLocks, .contended, .contended, .attach 0 {}, .attach 1 {}, .wake 0 false true,
    .otherUnlocks, .flockWins 0, .helperExit 0, .wake 1 false true, .wake 0 false true,
    .dropFields 0]

theorem won_lock_has_one_taker_two_waits :
    ∃ s, StepSystem.run step {} twoWaits = some s ∧ s.won 0 = 1 ∧ s.taken 0 = 1 ∧
      s.waiters = [.attaching, .arrived 0] ∧ (s.won 0 ≤ 1) := by
  obtain ⟨s, hrun⟩ : ∃ s, StepSystem.run step {} twoWaits = some s := ⟨_, rfl⟩
  have hstate : s = {
      registry := none
      shared := [{ state := { interested := 0, finished := true }, helper := .gone }]
      waiters := [.attaching, .arrived 0]
      locked := some (.file 0)
      events := [.won 0, .taken 0 1] } := by
    have hsome := hrun.symm
    rw [show StepSystem.run step {} twoWaits = some _ from rfl] at hsome
    exact Option.some.inj hsome
  refine ⟨s, hrun, ?_, ?_, ?_, ((won_lock_has_one_taker hrun).2.2.2.1 0).1⟩
  · rw [hstate]
    rfl
  · rw [hstate]
    rfl
  · rw [hstate]

end LockWaits

end Sqry.PersistLock
