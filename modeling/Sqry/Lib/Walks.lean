import Mathlib.Data.List.Chain
import Mathlib.Data.List.Nodup
import Mathlib.Data.List.Perm.Subperm

/-!
Ways along a relation, which can be cut down to ways that meet nothing twice; and the walk over a
tree that keeps its unfinished items on a stack.
-/

namespace Sqry
namespace Walks

section Cut
variable {α : Type} {r : α → α → Prop}

theorem exists_nodup_chain {walk : List α} (h : walk.IsChain r) : ∃ path : List α,
    path.head? = walk.head? ∧ path.getLast? = walk.getLast? ∧ path.Nodup ∧ path ⊆ walk ∧
      path.length ≤ walk.length ∧ path.IsChain r := by
  induction walk with
  | nil => exact ⟨[], rfl, rfl, List.nodup_nil, List.Subset.refl _, Nat.le_refl _, h⟩
  | cons a walk ih =>
    obtain ⟨path, hhead, hlast, hnodup, hsub, hlength, hchain⟩ := ih h.tail
    by_cases ha : a ∈ path
    · obtain ⟨before, after, rfl⟩ := List.append_of_mem ha
      have hne : walk ≠ [] := by
        rintro rfl
        exact absurd (hsub ha) List.not_mem_nil
      refine ⟨a :: after, rfl, ?_, (List.nodup_append.mp hnodup).2.1, ?_, ?_,
        (List.isChain_append.mp hchain).2.1⟩
      · rw [List.getLast?_append_of_ne_nil before (List.cons_ne_nil a after)] at hlast
        rw [hlast, List.getLast?_cons_of_ne_nil hne]
      · exact fun b hb => List.mem_cons_of_mem a (hsub (List.mem_append_right before hb))
      · rw [List.length_append] at hlength
        simp only [List.length_cons] at hlength ⊢
        omega
    · refine ⟨a :: path, rfl, ?_, List.nodup_cons.mpr ⟨ha, hnodup⟩,
        List.cons_subset_cons a hsub, Nat.succ_le_succ hlength, ?_⟩
      · rw [List.getLast?_cons, List.getLast?_cons, hlast]
      · rw [List.isChain_cons] at h ⊢
        rw [hhead]
        exact ⟨h.1, hchain⟩

theorem nodup_of_length_le {walk path : List α} (hnodup : path.Nodup) (hsub : path ⊆ walk)
    (hlength : walk.length ≤ path.length) : walk.Nodup :=
  ((hnodup.subperm hsub).perm_of_length_le hlength).nodup_iff.mp hnodup

end Cut

section Stack
variable {ι β : Type} (children : ι → List ι) (emit : ι → List β)

/-- The item on top is taken off, what it gives is kept, and its children are put on top, the last
one topmost. `none` when the fuel runs out. -/
def walk : Nat → List ι → List β → Option (List β)
  | 0, stack, found => if stack.isEmpty then some found else none
  | _ + 1, [], found => some found
  | fuel + 1, item :: stack, found =>
    walk fuel ((children item).reverse ++ stack) (found ++ emit item)

def visited : Nat → ι → List ι
  | 0, item => [item]
  | depth + 1, item => item :: (children item).reverse.flatMap (visited depth)

def Bounded : Nat → ι → Prop
  | 0, item => children item = []
  | depth + 1, item => ∀ child ∈ children item, Bounded depth child

variable {children emit}

theorem walk_visited {depth : Nat} {item : ι} (h : Bounded children depth item) :
    ∃ steps, ∀ fuel stack found,
      walk children emit (steps + fuel) (item :: stack) found =
        walk children emit fuel stack (found ++ (visited children depth item).flatMap emit) := by
  induction depth generalizing item with
  | zero =>
    refine ⟨1, fun fuel stack found => ?_⟩
    have hnone : children item = [] := h
    rw [Nat.add_comm, walk, hnone]
    simp [visited]
  | succ depth ih =>
    -- The children are walked one by one, with what is below them.
    have hall : ∀ items : List ι, (∀ child ∈ items, Bounded children depth child) →
        ∃ steps, ∀ fuel stack found,
          walk children emit (steps + fuel) (items ++ stack) found =
            walk children emit fuel stack
              (found ++ (items.flatMap (visited children depth)).flatMap emit) := by
      intro items hitems
      induction items with
      | nil => exact ⟨0, fun fuel stack found => by simp⟩
      | cons child items ih' =>
        obtain ⟨first, hfirst⟩ := ih (hitems child List.mem_cons_self)
        obtain ⟨rest, hrest⟩ := ih' fun other hother => hitems other (List.mem_cons_of_mem _ hother)
        refine ⟨first + rest, fun fuel stack found => ?_⟩
        rw [List.cons_append, Nat.add_assoc, hfirst, hrest, List.flatMap_cons, List.flatMap_append,
          List.append_assoc]
    obtain ⟨steps, hsteps⟩ := hall (children item).reverse fun child hchild =>
      h child (List.mem_reverse.mp hchild)
    refine ⟨steps + 1, fun fuel stack found => ?_⟩
    rw [Nat.add_right_comm, walk, hsteps, visited, List.flatMap_cons, List.append_assoc]

theorem exists_walk {depth : Nat} {item : ι} (h : Bounded children depth item) :
    ∃ least, ∀ fuel, least ≤ fuel → walk children emit fuel [item] [] =
      some ((visited children depth item).flatMap emit) := by
  obtain ⟨steps, hsteps⟩ := @walk_visited _ _ _ emit _ _ h
  refine ⟨steps, fun fuel hfuel => ?_⟩
  obtain ⟨more, rfl⟩ := Nat.exists_eq_add_of_le hfuel
  rw [hsteps]
  cases more <;> rfl

end Stack

end Walks
end Sqry
