import Mathlib.Data.List.Perm.Subperm

/-!
Lists as sets up to a test for sameness: inclusion, and the removal of repetitions. The test has
to be an equivalence on the elements of a domain only.
-/

namespace UpTo
variable {α : Type}

section Definitions
variable (same : α → α → Bool)

def addNew (found : List α) (x : α) : List α :=
  if found.any fun y => same y x then found else found ++ [x]

def addAll (found : List α) (xs : List α) : List α := xs.foldl (addNew same) found

def Within (xs ys : List α) : Prop := ∀ x ∈ xs, ∃ y ∈ ys, same x y = true

def Apart (xs : List α) : Prop := xs.Pairwise fun x y => same x y = false

def Separated (xs ys : List α) : Prop :=
  xs.Pairwise fun x x' => ∀ y ∈ ys, same x y = true → same x' y = false

structure EquivalenceOn (domain : α → Prop) : Prop where
  refl : ∀ x, domain x → same x x = true
  symm : ∀ x y, domain x → domain y → same x y = true → same y x = true
  trans : ∀ x y z, domain x → domain y → domain z → same x y = true → same y z = true →
    same x z = true

end Definitions

section AddAll
variable {same : α → α → Bool} {found xs : List α} {x y : α}

theorem mem_addNew_of_mem (h : y ∈ found) : y ∈ addNew same found x := by
  rw [addNew]
  cases found.any fun y => same y x with
  | true => exact h
  | false => exact List.mem_append_left [x] h

theorem mem_or_eq_of_mem_addNew (h : y ∈ addNew same found x) : y ∈ found ∨ y = x := by
  rw [addNew] at h
  cases hany : found.any fun y => same y x with
  | true =>
    rw [if_pos hany] at h
    exact .inl h
  | false =>
    rw [hany] at h
    exact (List.mem_append.mp h).imp_right List.mem_singleton.mp

theorem Apart.addNew (h : Apart same found) : Apart same (addNew same found x) := by
  rw [UpTo.addNew]
  cases hany : found.any fun y => same y x with
  | true => exact h
  | false =>
    refine List.pairwise_append.mpr ⟨h, List.pairwise_singleton _ x, fun y hy z hz => ?_⟩
    rw [List.mem_singleton.mp hz]
    have hnone := List.any_eq_false.mp hany y hy
    simpa using hnone

theorem mem_addAll_of_mem (h : y ∈ found) : y ∈ addAll same found xs := by
  induction xs generalizing found with
  | nil => exact h
  | cons x xs ih => exact ih (mem_addNew_of_mem h)

theorem mem_of_mem_addAll (h : y ∈ addAll same found xs) : y ∈ found ∨ y ∈ xs := by
  induction xs generalizing found with
  | nil => exact .inl h
  | cons x xs ih =>
    cases ih h with
    | inl hadd =>
      exact (mem_or_eq_of_mem_addNew hadd).imp_right fun heq => List.mem_cons.mpr (.inl heq)
    | inr hmem => exact .inr (List.mem_cons_of_mem x hmem)

theorem Apart.addAll (h : Apart same found) : Apart same (addAll same found xs) := by
  induction xs generalizing found with
  | nil => exact h
  | cons x xs ih => exact ih h.addNew

theorem addAll_of_apart (h : Apart same (found ++ xs)) : addAll same found xs = found ++ xs := by
  induction xs generalizing found with
  | nil => exact (List.append_nil found).symm
  | cons x xs ih =>
    have hnone : (found.any fun y => same y x) = false := by
      refine List.any_eq_false.mpr fun y hy => ?_
      have hfalse := (List.pairwise_append.mp h).2.2 y hy x List.mem_cons_self
      simp [hfalse]
    have hsplit : found ++ x :: xs = (found ++ [x]) ++ xs := by simp
    rw [UpTo.addAll, List.foldl_cons, addNew, hnone, hsplit]
    rw [hsplit] at h
    exact ih h

theorem addAll_append (found xs ys : List α) :
    addAll same found (xs ++ ys) = addAll same (addAll same found xs) ys :=
  List.foldl_append

end AddAll

section Equivalence
variable {same : α → α → Bool} {domain : α → Prop} {xs ys zs : List α}

theorem within_of_subset (hsame : EquivalenceOn same domain) (hxs : ∀ x ∈ xs, domain x)
    (h : xs ⊆ ys) : Within same xs ys :=
  fun x hx => ⟨x, h hx, hsame.refl x (hxs x hx)⟩

theorem mem_addNew_same (hsame : EquivalenceOn same domain) {found : List α}
    (hfound : ∀ y ∈ found, domain y) {x : α} (hx : domain x) :
    ∃ y ∈ addNew same found x, same x y = true := by
  rw [addNew]
  cases hany : found.any fun y => same y x with
  | true =>
    obtain ⟨y, hy, hyx⟩ := List.any_eq_true.mp hany
    exact ⟨y, hy, hsame.symm y x (hfound y hy) hx hyx⟩
  | false => exact ⟨x, by simp, hsame.refl x hx⟩

theorem within_addAll (hsame : EquivalenceOn same domain) {found : List α}
    (hfound : ∀ y ∈ found, domain y) (hxs : ∀ x ∈ xs, domain x) :
    Within same xs (addAll same found xs) := by
  induction xs generalizing found with
  | nil =>
    intro x hx
    cases hx
  | cons first xs ih =>
    have hadd : ∀ y ∈ addNew same found first, domain y := by
      intro y hy
      cases mem_or_eq_of_mem_addNew hy with
      | inl hmem => exact hfound y hmem
      | inr heq => exact heq ▸ hxs first List.mem_cons_self
    intro x hx
    cases List.mem_cons.mp hx with
    | inl heq =>
      obtain ⟨y, hy, hsamey⟩ := mem_addNew_same hsame hfound (hxs first List.mem_cons_self)
      rw [heq]
      exact ⟨y, @mem_addAll_of_mem α same (addNew same found first) xs y hy, hsamey⟩
    | inr hmem => exact ih hadd (fun z hz => hxs z (List.mem_cons_of_mem first hz)) x hmem

theorem Within.addAll (hsame : EquivalenceOn same domain) (hxs : ∀ x ∈ xs, domain x)
    (hys : ∀ y ∈ ys, domain y) (h : Within same xs ys) :
    Within same (addAll same [] xs) (addAll same [] ys) := by
  have hsub : ∀ {l : List α} {x : α}, x ∈ UpTo.addAll same [] l → x ∈ l := fun hx =>
    (mem_of_mem_addAll hx).resolve_left List.not_mem_nil
  have hnil : ∀ x ∈ ([] : List α), domain x := fun x hx => absurd hx List.not_mem_nil
  intro x hx
  obtain ⟨y, hy, hxy⟩ := h x (hsub hx)
  obtain ⟨z, hz, hyz⟩ := within_addAll hsame hnil hys y hy
  exact ⟨z, hz, hsame.trans x y z (hxs x (hsub hx)) (hys y hy) (hys z (hsub hz)) hxy hyz⟩

theorem Apart.separated (hsame : EquivalenceOn same domain) (hxs : ∀ x ∈ xs, domain x)
    (hys : ∀ y ∈ ys, domain y) (hapart : Apart same xs) : Separated same xs ys := by
  refine hapart.imp_of_mem fun {x x'} hx hx' hfalse y hy hxy => ?_
  cases hback : same x' y with
  | false => rfl
  | true =>
    have hyx := hsame.symm x' y (hxs x' hx') (hys y hy) hback
    have hboth := hsame.trans x y x' (hxs x hx) (hys y hy) (hxs x' hx') hxy hyx
    rw [hfalse] at hboth
    cases hboth

end Equivalence

section Matching
variable {same : α → α → Bool} {xs ys zs : List α}

theorem Separated.exists_matching (hsep : Separated same xs ys) (h : Within same xs ys) :
    ∃ zs, zs.Subperm ys ∧ List.Forall₂ (fun x z => same x z = true) xs zs := by
  induction xs generalizing ys with
  | nil => exact ⟨[], List.nil_subperm, .nil⟩
  | cons x xs ih =>
    obtain ⟨hfirst, hrest⟩ := List.pairwise_cons.mp hsep
    obtain ⟨y, hy, hxy⟩ := h x List.mem_cons_self
    obtain ⟨front, back, heq⟩ := List.append_of_mem hy
    have hfewer : ∀ z ∈ front ++ back, z ∈ ys := by
      intro z hz
      rw [heq, List.mem_append, List.mem_cons]
      exact (List.mem_append.mp hz).imp_right .inr
    have hothers : Within same xs (front ++ back) := by
      intro x' hx'
      obtain ⟨y', hy', hxy'⟩ := h x' (List.mem_cons_of_mem x hx')
      have hne : y' ≠ y := by
        intro hyy
        rw [hyy, hfirst x' hx' y hy hxy] at hxy'
        cases hxy'
      rw [heq, List.mem_append, List.mem_cons] at hy'
      refine ⟨y', List.mem_append.mpr ?_, hxy'⟩
      exact hy'.imp_right fun hmem => hmem.resolve_left hne
    have hsep' : Separated same xs (front ++ back) :=
      hrest.imp fun hpair z hz => hpair z (hfewer z hz)
    obtain ⟨zs, hzs, hmatch⟩ := ih hsep' hothers
    refine ⟨y :: zs, ?_, .cons hxy hmatch⟩
    rw [heq]
    exact ((List.subperm_cons y).mpr hzs).trans List.perm_middle.symm.subperm

theorem Separated.length_le (hsep : Separated same xs ys) (h : Within same xs ys) :
    xs.length ≤ ys.length := by
  obtain ⟨zs, hzs, hmatch⟩ := hsep.exists_matching h
  rw [hmatch.length_eq]
  exact hzs.length_le

theorem Separated.exists_perm (hsep : Separated same xs ys) (h : Within same xs ys)
    (hlength : xs.length = ys.length) :
    ∃ zs, zs.Perm ys ∧ List.Forall₂ (fun x z => same x z = true) xs zs := by
  obtain ⟨zs, hzs, hmatch⟩ := hsep.exists_matching h
  refine ⟨zs, hzs.perm_of_length_le ?_, hmatch⟩
  exact Nat.le_of_eq (hlength.symm.trans hmatch.length_eq)

theorem forall₂_imp_of_mem {R S : α → α → Prop} (h : List.Forall₂ R xs zs)
    (himp : ∀ x ∈ xs, ∀ z ∈ zs, R x z → S x z) : List.Forall₂ S xs zs := by
  induction h with
  | nil => exact .nil
  | @cons x z xs zs hxz _ ih =>
    refine .cons (himp x List.mem_cons_self z List.mem_cons_self hxz) (ih fun x' hx' z' hz' => ?_)
    exact himp x' (List.mem_cons_of_mem x hx') z' (List.mem_cons_of_mem z hz')

theorem exists_partner {z : α} (h : List.Forall₂ (fun x z => same x z = true) xs zs)
    (hz : z ∈ zs) : ∃ x ∈ xs, same x z = true := by
  induction h with
  | nil => cases hz
  | cons hfirst _ ih =>
    cases List.mem_cons.mp hz with
    | inl heq => exact ⟨_, List.mem_cons_self, heq ▸ hfirst⟩
    | inr hmem =>
      obtain ⟨x, hx, hsame⟩ := ih hmem
      exact ⟨x, List.mem_cons_of_mem _ hx, hsame⟩

end Matching
end UpTo
