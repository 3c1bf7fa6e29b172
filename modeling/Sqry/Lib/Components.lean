import Mathlib.Data.List.Basic
import Mathlib.Logic.Relation

/-!
Strongly connected components of a graph that is given by its successor lists, and lists of
components in which no edge leads to a later component.
-/

namespace Components

universe u
variable {α : Type u}

def Reaches (succ : α → List α) : α → α → Prop := Relation.ReflTransGen fun u v => v ∈ succ u

def Mutual (succ : α → List α) (u v : α) : Prop := Reaches succ u v ∧ Reaches succ v u

section Reaches
variable {succ : α → List α}

theorem Reaches.refl (u : α) : Reaches succ u u := Relation.ReflTransGen.refl

theorem Reaches.trans {u v w : α} (h : Reaches succ u v) (h' : Reaches succ v w) :
    Reaches succ u w :=
  Relation.ReflTransGen.trans h h'

theorem Reaches.edge {u v : α} (h : v ∈ succ u) : Reaches succ u v :=
  Relation.ReflTransGen.single h

theorem Reaches.mem_of_closed {s : α → Prop} (hclosed : ∀ u, s u → ∀ v ∈ succ u, s v) {u v : α}
    (h : Reaches succ u v) (hu : s u) : s v := by
  induction h with
  | refl => exact hu
  | tail _ hedge ih => exact hclosed _ ih _ hedge

theorem Mutual.symm {u v : α} (h : Mutual succ u v) : Mutual succ v u := ⟨h.2, h.1⟩

theorem Mutual.trans {u v w : α} (h : Mutual succ u v) (h' : Mutual succ v w) :
    Mutual succ u w :=
  ⟨h.1.trans h'.1, h'.2.trans h.2⟩

end Reaches

/-- Components that are strongly connected and maximal, each node in one of them, and no edge
to a later one. -/
structure Ordered (succ : α → List α) (comps : List (List α)) : Prop where
  nodup : comps.flatten.Nodup
  nonempty : ∀ c ∈ comps, c ≠ []
  closed : ∀ before c after, comps = before ++ c :: after →
    ∀ u ∈ c, ∀ v ∈ succ u, v ∈ before.flatten ∨ v ∈ c
  exact : ∀ c ∈ comps, ∀ u ∈ c, ∀ v, Mutual succ u v ↔ v ∈ c

section Ordered
variable {succ : α → List α} {comps : List (List α)}

theorem ordered_nil : Ordered succ [] where
  nodup := List.nodup_nil
  nonempty := by
    intro c hc
    cases hc
  closed := by
    intro before c after h
    cases before <;> cases h
  exact := by
    intro c hc
    cases hc

theorem Ordered.closed_flatten (h : Ordered succ comps) :
    ∀ u, u ∈ comps.flatten → ∀ v ∈ succ u, v ∈ comps.flatten := by
  intro u hu v hv
  obtain ⟨c, hc, huc⟩ := List.mem_flatten.mp hu
  obtain ⟨before, after, heq⟩ := List.append_of_mem hc
  rw [heq, List.flatten_append, List.flatten_cons, List.mem_append, List.mem_append]
  cases h.closed before c after heq u huc v hv with
  | inl hbefore => exact Or.inl hbefore
  | inr hin => exact Or.inr (Or.inl hin)

/-- A set of nodes that is strongly connected, new, and closed together with the components
found so far is the next component. -/
theorem Ordered.append (h : Ordered succ comps) {c : List α} {root : α} (hroot : root ∈ c)
    (hnodup : c.Nodup) (hnew : ∀ u ∈ c, u ∉ comps.flatten)
    (hclosed : ∀ u ∈ c, ∀ v ∈ succ u, v ∈ comps.flatten ∨ v ∈ c)
    (hmutual : ∀ u ∈ c, Mutual succ root u) : Ordered succ (comps ++ [c]) where
  nodup := by
    rw [List.flatten_append, List.flatten_singleton, List.nodup_append]
    refine ⟨h.nodup, hnodup, fun u hu v hv heq => ?_⟩
    subst heq
    exact hnew u hv hu
  nonempty := by
    intro d hd
    cases List.mem_append.mp hd with
    | inl hd => exact h.nonempty d hd
    | inr hd =>
      rw [List.mem_singleton.mp hd]
      exact List.ne_nil_of_mem hroot
  closed := by
    intro before d after heq u hu v hv
    cases List.eq_nil_or_concat after with
    | inl hnil =>
      rw [hnil] at heq
      obtain ⟨hbefore, hd⟩ := List.append_inj' heq rfl
      cases hd
      rw [← hbefore]
      exact hclosed u hu v hv
    | inr hconcat =>
      obtain ⟨after', d', rfl⟩ := hconcat
      rw [List.concat_eq_append, ← List.cons_append, ← List.append_assoc] at heq
      exact h.closed before d after' (List.append_inj' heq rfl).1 u hu v hv
  exact := by
    intro d hd u hu v
    cases List.mem_append.mp hd with
    | inl hd => exact h.exact d hd u hu v
    | inr hd =>
      rw [List.mem_singleton.mp hd] at hu ⊢
      constructor
      · intro huv
        -- the way back from outside would stay in the closed part
        have hout : ∀ x, x ∈ comps.flatten ∨ x ∈ c → ∀ y ∈ succ x, y ∈ comps.flatten ∨ y ∈ c := by
          intro x hx y hy
          cases hx with
          | inl hx => exact Or.inl (h.closed_flatten x hx y hy)
          | inr hx => exact hclosed x hx y hy
        cases huv.1.mem_of_closed hout (Or.inr hu) with
        | inl hv => exact absurd (huv.2.mem_of_closed h.closed_flatten hv) (hnew u hu)
        | inr hv => exact hv
      · intro hv
        exact (hmutual u hu).symm.trans (hmutual v hv)

theorem Ordered.edge_le (h : Ordered succ comps) {i j : Nat} {c d : List α} {u v : α}
    (hc : comps[i]? = some c) (hd : comps[j]? = some d) (hu : u ∈ c) (hv : v ∈ d)
    (hedge : v ∈ succ u) : j ≤ i := by
  by_contra hlt
  have hi := List.getElem?_eq_some_iff.mp hc
  obtain ⟨hi, hci⟩ := hi
  have hsplit : comps = comps.take i ++ c :: comps.drop (i + 1) := by
    rw [← hci, ← List.drop_eq_getElem_cons hi, List.take_append_drop]
  -- `d` stands behind `c`, and no node stands in two places
  have hafter : d ∈ comps.drop (i + 1) := by
    rw [List.mem_iff_getElem?]
    refine ⟨j - (i + 1), ?_⟩
    rw [List.getElem?_drop]
    have hj : i + 1 + (j - (i + 1)) = j := by omega
    rw [hj, hd]
  have hnodup := h.nodup
  rw [hsplit, List.flatten_append, List.flatten_cons, List.nodup_append, List.nodup_append]
    at hnodup
  have hvafter : v ∈ (comps.drop (i + 1)).flatten := List.mem_flatten_of_mem hafter hv
  cases h.closed _ c _ hsplit u hu v hedge with
  | inl hbefore => exact hnodup.2.2 v hbefore v (List.mem_append_right _ hvafter) rfl
  | inr hin => exact hnodup.2.1.2.2 v hin v hvafter rfl

end Ordered
end Components
