import Mathlib.Order.WellFounded

/-!
Climbing along a partial function: the chain above an element, the first marked element in it,
and the number of steps that the loop needs. The half-open spans that hold a point, when spans
are nested and each knows the innermost one around it, are climbed from the inside out.
-/

namespace Sqry
namespace Climb
variable {α β : Type}

/-- The chain above `a` ends. -/
abbrev Ends (up : α → Option α) (a : α) : Prop := Acc (fun b a => up a = some b) a

/-- The loop that climbs to the first marked element above `a`, as long as steps are left. -/
def firstAbove (up : α → Option α) (mark : α → Option β) : Nat → α → Option (Option β)
  | 0, _ => none
  | steps + 1, a =>
    match up a with
    | none => some none
    | some b =>
      match mark b with
      | some m => some (some m)
      | none => firstAbove up mark steps b

inductive Above (up : α → Option α) (mark : α → Option β) : α → α → Prop where
  | next {a b} : up a = some b → Above up mark a b
  | past {a b c} : up a = some b → mark b = none → Above up mark b c → Above up mark a c

variable {up : α → Option α} {mark : α → Option β}

theorem firstAbove_mono {steps more : Nat} {a : α} {r : Option β}
    (h : firstAbove up mark steps a = some r) (hle : steps ≤ more) :
    firstAbove up mark more a = some r := by
  induction steps generalizing a more with
  | zero => cases h
  | succ steps ih =>
    cases more with
    | zero => cases hle
    | succ more =>
      simp only [firstAbove] at h ⊢
      cases hup : up a with
      | none =>
        rw [hup] at h
        exact h
      | some b =>
        simp only [hup] at h ⊢
        cases hmark : mark b with
        | some m =>
          rw [hmark] at h
          exact h
        | none =>
          simp only [hmark] at h ⊢
          exact ih h (Nat.le_of_succ_le_succ hle)

theorem exists_firstAbove {a : α} (h : Ends up a) :
    ∃ steps r, firstAbove up mark steps a = some r := by
  induction h with
  | intro a _ ih =>
    cases hup : up a with
    | none => exact ⟨1, none, by simp only [firstAbove, hup]⟩
    | some b =>
      cases hmark : mark b with
      | some m => exact ⟨1, some m, by simp only [firstAbove, hup, hmark]⟩
      | none =>
        obtain ⟨steps, r, hsteps⟩ := ih b hup
        exact ⟨steps + 1, r, by simp only [firstAbove, hup, hmark, hsteps]⟩

theorem ends_of_firstAbove_none {steps : Nat} {a : α}
    (h : firstAbove up mark steps a = some none) : Ends up a := by
  induction steps generalizing a with
  | zero => cases h
  | succ steps ih =>
    simp only [firstAbove] at h
    refine Acc.intro a fun b hup => ?_
    rw [hup] at h
    cases hmark : mark b with
    | some m =>
      simp only [hmark] at h
      cases h
    | none =>
      simp only [hmark] at h
      exact ih h

theorem above_of_firstAbove {steps : Nat} {a : α} {m : β}
    (h : firstAbove up mark steps a = some (some m)) :
    ∃ b, mark b = some m ∧ Above up mark a b := by
  induction steps generalizing a with
  | zero => cases h
  | succ steps ih =>
    simp only [firstAbove] at h
    cases hup : up a with
    | none =>
      rw [hup] at h
      cases h
    | some b =>
      simp only [hup] at h
      cases hmark : mark b with
      | some m' =>
        simp only [hmark] at h
        cases h
        exact ⟨b, hmark, .next hup⟩
      | none =>
        simp only [hmark] at h
        obtain ⟨c, hc, habove⟩ := ih h
        exact ⟨c, hc, .past hup hmark habove⟩

theorem Above.ends {a b : α} (h : Above up mark a b) (hb : Ends up b) : Ends up a := by
  induction h with
  | next hup =>
    refine Acc.intro _ fun c hc => ?_
    rw [hup] at hc
    cases hc
    exact hb
  | past hup _ _ ih =>
    refine Acc.intro _ fun c hc => ?_
    rw [hup] at hc
    cases hc
    exact ih hb

theorem exists_steps (mark : α → Option β) {l : List α} (h : ∀ a ∈ l, Ends up a) :
    ∃ steps, ∀ a ∈ l, ∃ r, firstAbove up mark steps a = some r := by
  induction l with
  | nil =>
    refine ⟨0, fun a ha => ?_⟩
    cases ha
  | cons a l ih =>
    obtain ⟨steps, hsteps⟩ := ih fun b hb => h b (List.mem_cons_of_mem a hb)
    obtain ⟨more, r, hmore⟩ := @exists_firstAbove α β up mark a (h a List.mem_cons_self)
    refine ⟨max steps more, fun b hb => ?_⟩
    cases List.mem_cons.mp hb with
    | inl heq =>
      rw [heq]
      exact ⟨r, firstAbove_mono hmore (Nat.le_max_right steps more)⟩
    | inr hmem =>
      obtain ⟨r', hr'⟩ := hsteps b hmem
      exact ⟨r', firstAbove_mono hr' (Nat.le_max_left steps more)⟩

theorem not_rel_of_acc {r : α → α → Prop} {a : α} (h : Acc r a) : ¬ r a a := by
  induction h with
  | intro a _ ih =>
    intro hself
    exact ih a hself hself

theorem Above.transGen {a b : α} (h : Above up mark a b) :
    Relation.TransGen (fun b a => up a = some b) b a := by
  induction h with
  | next hup => exact .single hup
  | past hup _ _ ih => exact ih.tail hup

theorem Above.ne {a b : α} (h : Above up mark a b) (ha : Ends up a) : b ≠ a := by
  intro heq
  have hbelow := h.transGen
  rw [heq] at hbelow
  exact not_rel_of_acc ha.transGen hbelow

end Climb

namespace Nesting
variable {β : Type} [LinearOrder β]

structure Span (β : Type) where
  first : β
  past : β
  deriving DecidableEq, Repr

namespace Span

def Holds (s : Span β) (x : β) : Prop := s.first ≤ x ∧ x < s.past

def Within (s t : Span β) : Prop := t.first ≤ s.first ∧ s.past ≤ t.past

def Apart (s t : Span β) : Prop := s.past ≤ t.first ∨ t.past ≤ s.first

instance (s : Span β) (x : β) : Decidable (s.Holds x) := inferInstanceAs (Decidable (_ ∧ _))

instance (s t : Span β) : Decidable (s.Within t) := inferInstanceAs (Decidable (_ ∧ _))

instance (s t : Span β) : Decidable (s.Apart t) := inferInstanceAs (Decidable (_ ∨ _))

theorem Within.holds {s t : Span β} (h : s.Within t) {x : β} (hx : s.Holds x) : t.Holds x :=
  ⟨le_trans h.1 hx.1, lt_of_lt_of_le hx.2 h.2⟩

theorem not_apart_of_holds {s t : Span β} {x : β} (hs : s.Holds x) (ht : t.Holds x) :
    ¬ s.Apart t := by
  intro h
  cases h with
  | inl h => exact absurd (lt_of_lt_of_le hs.2 (le_trans h ht.1)) (lt_irrefl x)
  | inr h => exact absurd (lt_of_lt_of_le ht.2 (le_trans h hs.1)) (lt_irrefl x)

end Span

structure Nested (span : Nat → Option (Span β)) (parent : Nat → Option Nat) : Prop where
  nested : ∀ i j s t, i < j → span i = some s → span j = some t → s.Apart t ∨ t.Within s
  parent_lt : ∀ j p, parent j = some p → p < j
  parent_around : ∀ j p t, span j = some t → parent j = some p →
    ∃ s, span p = some s ∧ t.Within s
  innermost : ∀ j i s t, i < j → span i = some s → span j = some t → t.Within s →
    ∃ p, parent j = some p ∧ i ≤ p

namespace Nested
variable {span : Nat → Option (Span β)} {parent : Nat → Option Nat}
  {i j : Nat} {s t : Span β} {x : β}

theorem within_of_holds (h : Nested span parent) (hlt : i < j) (hs : span i = some s)
    (ht : span j = some t) (hsx : s.Holds x) (htx : t.Holds x) : t.Within s :=
  (h.nested i j s t hlt hs ht).resolve_left (Span.not_apart_of_holds hsx htx)

theorem exists_parent (h : Nested span parent) (hlt : i < j) (hs : span i = some s)
    (ht : span j = some t) (hsx : s.Holds x) (htx : t.Holds x) :
    ∃ p u, parent j = some p ∧ span p = some u ∧ u.Holds x ∧ i ≤ p := by
  obtain ⟨p, hp, hle⟩ := h.innermost j i s t hlt hs ht (h.within_of_holds hlt hs ht hsx htx)
  obtain ⟨u, hu, hwithin⟩ := h.parent_around j p t ht hp
  exact ⟨p, u, hp, hu, hwithin.holds htx, hle⟩

end Nested

end Nesting
end Sqry
