import Mathlib.Data.List.Perm.Basic
import Mathlib.Order.Lattice

/-!
Which element a walk keeps that looks at the ranks of the elements one after another. The one
walk gives the place to a greater rank only, the other also to an equal one. Both end with an
element of the greatest rank, and which one that is depends on the order of the walk only if
several different ones share that rank. The second walk compares by any comparator.
-/

namespace Champion

universe u v
variable {α : Type u} {β : Type v} [LinearOrder β] (rank : α → β)

def settle : Option α → α → Option α
  | none, a => some a
  | some b, a => if rank b < rank a then some a else some b

def first (l : List α) : Option α := l.foldl (settle rank) none

def Top (l : List α) (a : α) : Prop := a ∈ l ∧ ∀ b ∈ l, rank b ≤ rank a

variable {rank}

theorem Top.perm {l m : List α} {a : α} (h : l.Perm m) (ha : Top rank l a) : Top rank m a :=
  ⟨h.mem_iff.mp ha.1, fun b hb => ha.2 b (h.mem_iff.mpr hb)⟩

theorem foldl_settle {l : List α} {b a : α} (h : l.foldl (settle rank) (some b) = some a) :
    Top rank (b :: l) a := by
  induction l generalizing b with
  | nil =>
    cases h
    exact ⟨List.mem_cons_self, fun c hc => by rw [List.mem_singleton.mp hc]⟩
  | cons c l ih =>
    rw [List.foldl_cons, settle] at h
    split at h
    · rename_i hlt
      obtain ⟨hmem, hmax⟩ := ih h
      refine ⟨List.mem_cons_of_mem b hmem, List.forall_mem_cons.mpr ⟨?_, hmax⟩⟩
      exact le_trans (le_of_lt hlt) (hmax c List.mem_cons_self)
    · rename_i hle
      obtain ⟨hmem, hmax⟩ := ih h
      have hb := hmax b List.mem_cons_self
      refine ⟨?_, List.forall_mem_cons.mpr ⟨hb, List.forall_mem_cons.mpr ⟨?_, fun d hd => ?_⟩⟩⟩
      · cases List.mem_cons.mp hmem with
        | inl heq => exact heq ▸ List.mem_cons_self
        | inr hin => exact List.mem_cons_of_mem b (List.mem_cons_of_mem c hin)
      · exact le_trans (not_lt.mp hle) hb
      · exact hmax d (List.mem_cons_of_mem b hd)

theorem foldl_settle_isSome (l : List α) (b : α) :
    ∃ a, l.foldl (settle rank) (some b) = some a := by
  induction l generalizing b with
  | nil => exact ⟨b, rfl⟩
  | cons c l ih =>
    rw [List.foldl_cons, settle]
    split
    · exact ih c
    · exact ih b

theorem top_of_first {l : List α} {a : α} (h : first rank l = some a) : Top rank l a := by
  cases l with
  | nil => cases h
  | cons b l => exact foldl_settle h

theorem exists_first {l : List α} (h : l ≠ []) : ∃ a, first rank l = some a := by
  cases l with
  | nil => exact absurd rfl h
  | cons b l => exact foldl_settle_isSome l b

theorem foldl_settle_of_top {l : List α} {b : α} (h : ∀ a ∈ l, rank a ≤ rank b) :
    l.foldl (settle rank) (some b) = some b := by
  induction l with
  | nil => rfl
  | cons a l ih =>
    rw [List.foldl_cons, settle, if_neg (not_lt.mpr (h a List.mem_cons_self))]
    exact ih fun c hc => h c (List.mem_cons_of_mem a hc)

theorem first_perm_iff {γ : Type*} {f : γ → Option α} {l : List γ} :
    (∀ m : List γ, m.Perm l → first rank (m.filterMap f) = first rank (l.filterMap f)) ↔
      ∀ a b, Top rank (l.filterMap f) a → Top rank (l.filterMap f) b → a = b := by
  constructor
  · intro h a b ha hb
    have hfront : ∀ c, Top rank (l.filterMap f) c → first rank (l.filterMap f) = some c := by
      intro c hc
      obtain ⟨x, hx, hfx⟩ := List.mem_filterMap.mp hc.1
      obtain ⟨s, t, heq⟩ := List.append_of_mem hx
      have hperm : (x :: (s ++ t)).Perm l := by
        rw [heq]
        exact List.perm_middle.symm
      rw [← h _ hperm, List.filterMap_cons_some hfx]
      refine foldl_settle_of_top fun d hd => hc.2 d ((hperm.filterMap f).mem_iff.mp ?_)
      rw [List.filterMap_cons_some hfx]
      exact List.mem_cons_of_mem c hd
    exact Option.some.inj ((hfront a ha).symm.trans (hfront b hb))
  · intro h m hperm
    have hlists : (m.filterMap f).Perm (l.filterMap f) := hperm.filterMap f
    cases hl : first rank (l.filterMap f) with
    | none =>
      have hnil : l.filterMap f = [] := by
        by_contra hne
        obtain ⟨a, ha⟩ := @exists_first _ _ _ rank _ hne
        rw [hl] at ha
        cases ha
      rw [hnil] at hlists
      rw [hlists.eq_nil]
      rfl
    | some a =>
      have hne : m.filterMap f ≠ [] := by
        intro hnil
        rw [hnil] at hlists
        rw [← hlists.nil_eq] at hl
        cases hl
      obtain ⟨b, hb⟩ := @exists_first _ _ _ rank _ hne
      rw [hb, h b a ((top_of_first hb).perm hlists) (top_of_first hl)]

section Comparator
variable {cmp : α → α → Ordering}

def maxBy (cmp : α → α → Ordering) : List α → Option α
  | [] => none
  | a :: l => some (l.foldl (fun best b => if cmp best b = .gt then best else b) a)

theorem exists_maxBy (cmp : α → α → Ordering) {l : List α} (h : l ≠ []) :
    ∃ a, maxBy cmp l = some a := by
  cases l with
  | nil => exact absurd rfl h
  | cons b l => exact ⟨_, rfl⟩

theorem maxBy_spec [Std.TransCmp cmp] {l : List α} {a : α} (h : maxBy cmp l = some a) :
    a ∈ l ∧ ∀ b ∈ l, (cmp b a).isLE = true := by
  have hself : ∀ b : α, (cmp b b).isLE = true := by
    intro b
    have heq : cmp b b = .eq := Std.ReflCmp.compare_self
    rw [heq]
    rfl
  have hwalk : ∀ (l : List α) (b : α),
      l.foldl (fun best c => if cmp best c = .gt then best else c) b ∈ b :: l ∧
        ∀ c ∈ b :: l,
          (cmp c (l.foldl (fun best c => if cmp best c = .gt then best else c) b)).isLE = true := by
    intro l
    induction l with
    | nil => exact fun b => ⟨List.mem_cons_self, fun c hc => List.mem_singleton.mp hc ▸ hself b⟩
    | cons c l ih =>
      intro b
      rw [List.foldl_cons]
      by_cases hbest : cmp b c = .gt
      · rw [if_pos hbest]
        obtain ⟨hmem, hmax⟩ := ih b
        have hb := hmax b List.mem_cons_self
        have hcb : (cmp c b).isLE = true := by rw [Std.OrientedCmp.lt_of_gt hbest]; rfl
        refine ⟨?_, List.forall_mem_cons.mpr ⟨hb, List.forall_mem_cons.mpr ⟨?_, ?_⟩⟩⟩
        · cases List.mem_cons.mp hmem with
          | inl heq => exact List.mem_cons.mpr (Or.inl heq)
          | inr hin => exact List.mem_cons_of_mem b (List.mem_cons_of_mem c hin)
        · exact Std.TransCmp.isLE_trans hcb hb
        · exact fun d hd => hmax d (List.mem_cons_of_mem b hd)
      · rw [if_neg hbest]
        obtain ⟨hmem, hmax⟩ := ih c
        have hbc : (cmp b c).isLE = true := by
          cases hcmp : cmp b c with
          | lt => rfl
          | eq => rfl
          | gt => exact absurd hcmp hbest
        refine ⟨List.mem_cons_of_mem b hmem, List.forall_mem_cons.mpr ⟨?_, hmax⟩⟩
        exact Std.TransCmp.isLE_trans hbc (hmax c List.mem_cons_self)
  cases l with
  | nil => cases h
  | cons b l =>
    cases h
    exact hwalk l b

theorem maxBy_congr {cmp' : α → α → Ordering} {l : List α}
    (h : ∀ a ∈ l, ∀ b ∈ l, cmp a b = cmp' a b) : maxBy cmp l = maxBy cmp' l := by
  have hwalk : ∀ (l : List α) (b : α), (∀ a ∈ b :: l, ∀ c ∈ b :: l, cmp a c = cmp' a c) →
      l.foldl (fun best c => if cmp best c = .gt then best else c) b =
        l.foldl (fun best c => if cmp' best c = .gt then best else c) b := by
    intro l
    induction l with
    | nil => exact fun _ _ => rfl
    | cons c l ih =>
      intro b hb
      have hc : c ∈ b :: c :: l := List.mem_cons_of_mem b List.mem_cons_self
      rw [List.foldl_cons, List.foldl_cons, ← hb b List.mem_cons_self c hc]
      have hsub : ∀ d, d = b ∨ d = c → ∀ a ∈ d :: l, a ∈ b :: c :: l := by
        intro d hd a ha
        cases List.mem_cons.mp ha with
        | inl heq =>
          cases hd with
          | inl hdb => exact heq ▸ hdb ▸ List.mem_cons_self
          | inr hdc => exact heq ▸ hdc ▸ hc
        | inr hin => exact List.mem_cons_of_mem b (List.mem_cons_of_mem c hin)
      split
      · exact ih b fun a ha d hd => hb a (hsub b (Or.inl rfl) a ha) d (hsub b (Or.inl rfl) d hd)
      · exact ih c fun a ha d hd => hb a (hsub c (Or.inr rfl) a ha) d (hsub c (Or.inr rfl) d hd)
  cases l with
  | nil => rfl
  | cons b l => rw [maxBy, maxBy, hwalk l b h]

end Comparator

end Champion
