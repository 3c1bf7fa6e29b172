import Sqry.Lib.SortedGroups

/-!
The elements of the greatest ranks, as a stable descending sort puts them in front. When the list
is cut off, the elements that tie around the cut stay or go by their order in the input.
-/

namespace Ranking

universe u v
variable {α : Type u} {γ : Type v}

def descending (rank : α → Nat) (l : List α) : List α :=
  SortedGroups.sortBy (fun a b => compare (rank b) (rank a)) l

/-- How many elements rank above `a`. -/
def above (rank : α → Nat) (l : List α) (a : α) : Nat := l.countP fun b => decide (rank a < rank b)

variable {rank : α → Nat}

theorem perm_descending (l : List α) : (descending rank l).Perm l := SortedGroups.perm_sortBy _ l

theorem mem_descending {l : List α} {a : α} : a ∈ descending rank l ↔ a ∈ l :=
  SortedGroups.mem_sortBy

theorem above_perm {l m : List α} (h : l.Perm m) (a : α) : above rank l a = above rank m a :=
  h.countP_eq _

theorem pairwise_descending (l : List α) :
    (descending rank l).Pairwise fun a b => rank b ≤ rank a := by
  have hle : ∀ a b, (compare (rank b) (rank a)).isLE = true ↔ rank b ≤ rank a :=
    fun _ _ => Nat.isLE_compare
  have htotal : Std.Total fun a b : α => (compare (rank b) (rank a)).isLE = true :=
    ⟨fun a b => by simpa only [hle] using Nat.le_total (rank b) (rank a)⟩
  have htrans : IsTrans α fun a b => (compare (rank b) (rank a)).isLE = true :=
    ⟨fun a b c hab hbc => (hle a c).mpr (le_trans ((hle b c).mp hbc) ((hle a b).mp hab))⟩
  exact (List.pairwise_insertionSort _ l).imp fun {a b} h => (hle a b).mp h

theorem takeWhile_eq_filter {l : List α} (hl : l.Pairwise fun a b => rank b ≤ rank a) (a : α) :
    (l.takeWhile fun b => decide (rank a < rank b)) = l.filter fun b => decide (rank a < rank b) := by
  induction l with
  | nil => rfl
  | cons b l ih =>
    obtain ⟨hb, htail⟩ := List.pairwise_cons.mp hl
    by_cases hab : rank a < rank b
    · rw [List.takeWhile_cons_of_pos (by simpa using hab),
        List.filter_cons_of_pos (by simpa using hab), ih htail]
    · rw [List.takeWhile_cons_of_neg (by simpa using hab),
        List.filter_cons_of_neg (by simpa using hab), List.filter_eq_nil_iff.mpr]
      intro c hc
      have hcb := hb c hc
      simp only [decide_eq_true_eq]
      omega

theorem getElem?_descending_cons (a : α) (l : List α) :
    (descending rank (a :: l))[above rank l a]? = some a := by
  have hsorted := @pairwise_descending α rank l
  have hfront : ((descending rank l).takeWhile fun b =>
      decide ¬(compare (rank b) (rank a)).isLE = true) =
      (descending rank l).filter fun b => decide (rank a < rank b) := by
    rw [← takeWhile_eq_filter hsorted a]
    congr 1
    funext b
    rw [decide_eq_decide, Nat.isLE_compare, not_le]
  have hlength : above rank l a =
      ((descending rank l).filter fun b => decide (rank a < rank b)).length := by
    rw [← above_perm (perm_descending l) a, above, List.countP_eq_length_filter]
  rw [descending, SortedGroups.sortBy_cons, List.orderedInsert_eq_take_drop]
  rw [descending] at hfront hlength
  rw [hfront, hlength, List.getElem?_append_right (le_refl _), Nat.sub_self]
  rfl

theorem above_le_index {l : List α} (hl : l.Pairwise fun a b => rank b ≤ rank a) {i : Nat} {a : α}
    (h : l[i]? = some a) : above rank l a ≤ i := by
  obtain ⟨hlt, heq⟩ := List.getElem?_eq_some_iff.mp h
  have hrest : ((l.drop i).countP fun b => decide (rank a < rank b)) = 0 := by
    rw [List.countP_eq_zero]
    intro b hb
    have hdrop : l.drop i = a :: l.drop (i + 1) := by rw [← heq, List.drop_eq_getElem_cons hlt]
    have htail := hl.sublist (List.drop_sublist i l)
    rw [hdrop] at hb htail
    obtain ⟨ha, -⟩ := List.pairwise_cons.mp htail
    simp only [decide_eq_true_eq, not_lt]
    cases List.mem_cons.mp hb with
    | inl hsame => rw [hsame]
    | inr hin => exact ha b hin
  have hsplit : above rank l a =
      ((l.take i).countP fun b => decide (rank a < rank b)) +
        (l.drop i).countP fun b => decide (rank a < rank b) := by
    rw [← List.countP_append, List.take_append_drop, above]
  have hle : ((l.take i).countP fun b => decide (rank a < rank b)) ≤ (l.take i).length :=
    List.countP_le_length
  rw [hsplit, hrest, Nat.add_zero]
  exact le_trans hle (List.length_take_le i l)

theorem map_rank_descending {l m : List α} (h : l.Perm m) :
    (descending rank l).map rank = (descending rank m).map rank := by
  have hperm : ((descending rank l).map rank).Perm ((descending rank m).map rank) :=
    ((perm_descending l).trans (h.trans (perm_descending m).symm)).map rank
  refine hperm.eq_of_pairwise (fun a b _ _ hab hba => le_antisymm hba hab)
    (List.pairwise_map.mpr (pairwise_descending l)) (List.pairwise_map.mpr (pairwise_descending m))

theorem take_descending_perm_iff {f : γ → Option α} {l : List γ} {n : Nat} :
    (∀ m : List γ, m.Perm l →
        (descending rank (m.filterMap f)).take n = (descending rank (l.filterMap f)).take n) ↔
      ∀ a ∈ l.filterMap f, ∀ b ∈ l.filterMap f, a ≠ b → rank a = rank b →
        n ≤ above rank (l.filterMap f) a := by
  constructor
  · intro h a ha b hb hne hrank
    by_contra hlt
    -- Each of the two, put first in the input, takes the place behind those above it.
    have hplace : ∀ c ∈ l.filterMap f, rank c = rank a →
        ((descending rank (l.filterMap f)).take n)[above rank (l.filterMap f) a]? = some c := by
      intro c hc hsame
      obtain ⟨x, hx, hfx⟩ := List.mem_filterMap.mp hc
      obtain ⟨s, t, heq⟩ := List.append_of_mem hx
      have hperm : (x :: (s ++ t)).Perm l := by
        rw [heq]
        exact List.perm_middle.symm
      have hcount : above rank (l.filterMap f) a = above rank ((s ++ t).filterMap f) c := by
        rw [← above_perm (hperm.filterMap f), List.filterMap_cons_some hfx, above, above,
          List.countP_cons_of_neg (by simp [hsame]), hsame]
      have hcut : above rank ((s ++ t).filterMap f) c < n := by omega
      rw [← h _ hperm, List.filterMap_cons_some hfx, hcount, List.getElem?_take_of_lt hcut]
      exact getElem?_descending_cons c _
    exact hne (Option.some.inj ((hplace a ha rfl).symm.trans (hplace b hb hrank.symm)))
  · intro h m hperm
    have hlists : (m.filterMap f).Perm (l.filterMap f) := hperm.filterMap f
    have hranks := @map_rank_descending α rank _ _ hlists
    refine List.ext_getElem? fun i => ?_
    by_cases hi : i < n
    · rw [List.getElem?_take_of_lt hi, List.getElem?_take_of_lt hi]
      have hrank : (descending rank (m.filterMap f))[i]?.map rank =
          (descending rank (l.filterMap f))[i]?.map rank := by
        rw [← List.getElem?_map, hranks, List.getElem?_map]
      cases hb : (descending rank (l.filterMap f))[i]? with
      | none =>
        rw [hb] at hrank
        exact Option.map_eq_none_iff.mp hrank
      | some b =>
        rw [hb] at hrank
        obtain ⟨a, ha, hab⟩ := Option.map_eq_some_iff.mp hrank
        have hmem : b ∈ l.filterMap f := mem_descending.mp (List.mem_of_getElem? hb)
        have hmem' : a ∈ l.filterMap f :=
          hlists.mem_iff.mp (mem_descending.mp (List.mem_of_getElem? ha))
        by_contra hne
        have hdiffer : b ≠ a := fun heq => hne (by rw [ha, heq])
        have hfront := h b hmem a hmem' hdiffer hab.symm
        have hindex := above_le_index (pairwise_descending (l.filterMap f)) hb
        rw [above_perm (perm_descending _)] at hindex
        omega
    · rw [List.getElem?_eq_none, List.getElem?_eq_none]
      · exact le_trans (List.length_take_le n _) (not_lt.mp hi)
      · exact le_trans (List.length_take_le n _) (not_lt.mp hi)

end Ranking
