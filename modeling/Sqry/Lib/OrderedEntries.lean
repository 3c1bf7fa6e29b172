import Mathlib.Data.List.Basic
import Mathlib.Order.Lattice

/-!
A map kept as its entries in increasing order of the keys, with the one update an entry
interface offers: change the value of a key, from a default when the key is new.
-/

namespace OrderedEntries

universe u v
variable {κ : Type u} {α : Type v} [LinearOrder κ]

def modify (init : α) (k : κ) (f : α → α) : List (κ × α) → List (κ × α)
  | [] => [(k, f init)]
  | (l, a) :: rest =>
    if k < l then (k, f init) :: (l, a) :: rest
    else if k = l then (l, f a) :: rest
    else (l, a) :: modify init k f rest

def Sorted (es : List (κ × α)) : Prop := es.Pairwise fun x y => x.1 < y.1

def find (k : κ) (es : List (κ × α)) : Option α := (es.find? fun e => e.1 = k).map Prod.snd

variable {init : α} {k l : κ} {a : α} {f : α → α} {es : List (κ × α)}

@[simp] theorem find_nil : find k ([] : List (κ × α)) = none := rfl

theorem find_cons : find k ((l, a) :: es) = if l = k then some a else find k es := by
  by_cases h : l = k <;> simp [find, h]

theorem sorted_cons : Sorted ((l, a) :: es) ↔ (∀ e ∈ es, l < e.1) ∧ Sorted es :=
  List.pairwise_cons

theorem mem_of_find (h : find k es = some a) : (k, a) ∈ es := by
  induction es with
  | nil => cases h
  | cons e es ih =>
    obtain ⟨l, b⟩ := e
    rw [find_cons] at h
    by_cases hl : l = k
    · rw [if_pos hl] at h
      cases h
      subst hl
      exact List.mem_cons_self
    · rw [if_neg hl] at h
      exact List.mem_cons_of_mem _ (ih h)

theorem find_of_mem (hs : Sorted es) (h : (k, a) ∈ es) : find k es = some a := by
  induction es with
  | nil => cases h
  | cons e es ih =>
    obtain ⟨l, b⟩ := e
    obtain ⟨hlt, hs'⟩ := sorted_cons.1 hs
    rw [find_cons]
    cases List.mem_cons.1 h with
    | inl heq =>
      cases heq
      exact if_pos rfl
    | inr hmem =>
      have hne : l ≠ k := (hlt _ hmem).ne
      rw [if_neg hne]
      exact ih hs' hmem

theorem mem_iff_find (hs : Sorted es) : (k, a) ∈ es ↔ find k es = some a :=
  ⟨find_of_mem hs, mem_of_find⟩

theorem find_eq_none_of_lt (h : ∀ e ∈ es, k < e.1) : find k es = none := by
  cases hf : find k es with
  | none => rfl
  | some a => exact absurd (h _ (mem_of_find hf)) (lt_irrefl k)

theorem mem_modify {e : κ × α} (h : e ∈ modify init k f es) : e.1 = k ∨ e ∈ es := by
  induction es with
  | nil =>
    cases List.mem_singleton.1 h
    exact Or.inl rfl
  | cons x es ih =>
    obtain ⟨l, a⟩ := x
    rw [modify] at h
    split at h
    · cases List.mem_cons.1 h with
      | inl heq =>
        subst heq
        exact Or.inl rfl
      | inr hmem => exact Or.inr hmem
    · split at h
      · next hkl =>
        cases List.mem_cons.1 h with
        | inl heq =>
          subst heq
          exact Or.inl hkl.symm
        | inr hmem => exact Or.inr (List.mem_cons_of_mem _ hmem)
      · cases List.mem_cons.1 h with
        | inl heq => exact Or.inr (heq ▸ List.mem_cons_self)
        | inr hmem => exact (ih hmem).imp id (List.mem_cons_of_mem _)

theorem sorted_modify (hs : Sorted es) : Sorted (modify init k f es) := by
  induction es with
  | nil => exact List.pairwise_singleton _ _
  | cons x es ih =>
    obtain ⟨l, a⟩ := x
    obtain ⟨hlt, hs'⟩ := sorted_cons.1 hs
    rw [modify]
    split
    · next hkl =>
      refine sorted_cons.2 ⟨fun e he => ?_, hs⟩
      cases List.mem_cons.1 he with
      | inl heq => exact heq ▸ hkl
      | inr hmem => exact lt_trans hkl (hlt e hmem)
    · next hkl =>
      split
      · exact sorted_cons.2 ⟨hlt, hs'⟩
      · next hne =>
        refine sorted_cons.2 ⟨fun e he => ?_, ih hs'⟩
        cases mem_modify he with
        | inl heq => exact heq ▸ lt_of_le_of_ne (not_lt.1 hkl) (Ne.symm hne)
        | inr hmem => exact hlt e hmem

theorem find_modify (hs : Sorted es) : find l (modify init k f es) =
    if l = k then some (f ((find k es).getD init)) else find l es := by
  induction es with
  | nil =>
    rw [modify, find_cons]
    by_cases h : l = k
    · subst h; simp
    · simp [h, Ne.symm h]
  | cons x es ih =>
    obtain ⟨x, a⟩ := x
    obtain ⟨hlt, hs'⟩ := sorted_cons.1 hs
    rw [modify]
    split
    · next hkx =>
      have hnone : find k ((x, a) :: es) = none := by
        apply find_eq_none_of_lt
        intro e he
        cases List.mem_cons.1 he with
        | inl heq => exact heq ▸ hkx
        | inr hmem => exact lt_trans hkx (hlt e hmem)
      rw [find_cons, hnone]
      by_cases h : l = k
      · subst h; simp
      · simp [h, Ne.symm h]
    · split
      · next hkx =>
        subst hkx
        rw [find_cons, find_cons, find_cons, if_pos rfl]
        by_cases h : l = k
        · subst h; simp
        · simp [h, Ne.symm h]
      · next hne =>
        rw [find_cons, find_cons, find_cons, if_neg (Ne.symm hne), ih hs']
        by_cases h : l = k
        · subst h; simp [Ne.symm hne]
        · simp [h]

theorem Sorted.eq_of_mem_iff {es es' : List (κ × α)} (hs : Sorted es) (hs' : Sorted es')
    (h : ∀ e, e ∈ es ↔ e ∈ es') : es = es' := by
  refine List.Perm.eq_of_pairwise ?_ hs hs' ?_
  · intro x y _ _ hxy hyx
    exact absurd hyx (lt_asymm hxy)
  · have hnodup : ∀ {l : List (κ × α)}, Sorted l → l.Nodup :=
      fun hl => hl.imp fun hlt heq => (heq ▸ hlt).ne rfl
    exact (List.perm_ext_iff_of_nodup (hnodup hs) (hnodup hs')).2 h

end OrderedEntries
