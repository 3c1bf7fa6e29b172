import Mathlib.Data.List.Destutter
import Mathlib.Data.List.Sort
import Sqry.Lib.LastWriter

/-!
Merging a log by sorting. A stable sort by key, and by descending sequence number within
a key, puts the winner of every key in front of the run of its key, so that the heads of
the runs of equal keys are the winners.
-/

namespace SortedGroups

universe u v
variable {α : Type u} {κ : Type v}

def sortBy (cmp : α → α → Ordering) (l : List α) : List α :=
  l.insertionSort fun a b => (cmp a b).isLE = true

theorem mem_sortBy {cmp : α → α → Ordering} {l : List α} {a : α} : a ∈ sortBy cmp l ↔ a ∈ l :=
  List.mem_insertionSort _

theorem perm_sortBy (cmp : α → α → Ordering) (l : List α) : (sortBy cmp l).Perm l :=
  List.perm_insertionSort _ l

theorem sortBy_cons (cmp : α → α → Ordering) (a : α) (l : List α) :
    sortBy cmp (a :: l) =
      (sortBy cmp l).orderedInsert (fun a b => (cmp a b).isLE = true) a := rfl

theorem pairwise_sortBy_compare (f : α → Nat) (l : List α) :
    (sortBy (fun a b => compare (f a) (f b)) l).Pairwise fun a b => f a ≤ f b := by
  have hle : ∀ a b, (compare (f a) (f b)).isLE = true ↔ f a ≤ f b := fun _ _ => Nat.isLE_compare
  have htotal : Std.Total fun a b : α => (compare (f a) (f b)).isLE = true :=
    ⟨fun a b => by simpa only [hle] using Nat.le_total (f a) (f b)⟩
  have htrans : IsTrans α fun a b => (compare (f a) (f b)).isLE = true :=
    ⟨fun a b c => by simpa only [hle] using Nat.le_trans⟩
  exact (List.pairwise_insertionSort _ l).imp fun {a b} h => (hle a b).mp h

def byKeyThenSeq (cmp : κ → κ → Ordering) (key : α → κ) (seq : α → Nat) (a b : α) : Ordering :=
  match cmp (key a) (key b) with
  | .eq => compare (seq b) (seq a)
  | o => o

section Sorted
variable {cmp : κ → κ → Ordering} {key : α → κ} {seq : α → Nat}

theorem isLE_byKeyThenSeq {a b : α} :
    (byKeyThenSeq cmp key seq a b).isLE = true ↔
      cmp (key a) (key b) = .lt ∨ (cmp (key a) (key b) = .eq ∧ seq b ≤ seq a) := by
  unfold byKeyThenSeq
  cases h : cmp (key a) (key b) with
  | lt => simp
  | gt => simp
  | eq => simp [Nat.isLE_compare]

variable [Std.TransCmp cmp]

theorem byKeyThenSeq_trans {a b c : α} (hab : (byKeyThenSeq cmp key seq a b).isLE = true)
    (hbc : (byKeyThenSeq cmp key seq b c).isLE = true) :
    (byKeyThenSeq cmp key seq a c).isLE = true := by
  rw [isLE_byKeyThenSeq] at *
  rcases hab with hab | ⟨hab, hseq⟩
  · rcases hbc with hbc | ⟨hbc, -⟩
    · exact Or.inl (Std.TransCmp.lt_trans hab hbc)
    · exact Or.inl (Std.TransCmp.lt_of_lt_of_eq hab hbc)
  · rcases hbc with hbc | ⟨hbc, hseq'⟩
    · exact Or.inl (Std.TransCmp.lt_of_eq_of_lt hab hbc)
    · exact Or.inr ⟨Std.TransCmp.eq_trans hab hbc, Nat.le_trans hseq' hseq⟩

theorem byKeyThenSeq_total (a b : α) :
    (byKeyThenSeq cmp key seq a b).isLE = true ∨ (byKeyThenSeq cmp key seq b a).isLE = true := by
  simp only [isLE_byKeyThenSeq]
  cases h : cmp (key a) (key b) with
  | lt => exact Or.inl (Or.inl rfl)
  | gt => exact Or.inr (Or.inl (Std.OrientedCmp.lt_of_gt h))
  | eq =>
    cases Nat.le_total (seq b) (seq a) with
    | inl hle => exact Or.inl (Or.inr ⟨rfl, hle⟩)
    | inr hle => exact Or.inr (Or.inr ⟨Std.OrientedCmp.eq_symm h, hle⟩)

instance : Std.TransCmp (byKeyThenSeq cmp key seq) where
  eq_swap := by
    intro a b
    have hswap : cmp (key a) (key b) = (cmp (key b) (key a)).swap := Std.OrientedCmp.eq_swap
    rw [byKeyThenSeq, byKeyThenSeq, hswap]
    cases cmp (key b) (key a) with
    | lt => rfl
    | gt => rfl
    | eq => exact Nat.compare_swap (seq a) (seq b) |>.symm
  isLE_trans := byKeyThenSeq_trans

theorem pairwise_sortBy (l : List α) :
    (sortBy (byKeyThenSeq cmp key seq) l).Pairwise
      fun a b => (byKeyThenSeq cmp key seq a b).isLE = true := by
  have htotal : Std.Total fun a b : α => (byKeyThenSeq cmp key seq a b).isLE = true :=
    ⟨byKeyThenSeq_total⟩
  have htrans : IsTrans α fun a b => (byKeyThenSeq cmp key seq a b).isLE = true :=
    ⟨fun _ _ _ => byKeyThenSeq_trans⟩
  exact List.pairwise_insertionSort _ l

variable [DecidableEq κ] [Std.LawfulEqCmp cmp]

theorem find?_orderedInsert {k : κ} {a : α} {l : List α}
    (hl : l.Pairwise fun a b => (byKeyThenSeq cmp key seq a b).isLE = true) :
    (l.orderedInsert (fun a b => (byKeyThenSeq cmp key seq a b).isLE = true) a).find?
        (fun b => decide (key b = k)) =
      if key a = k then
        match l.find? fun b => decide (key b = k) with
        | none => some a
        | some b => if seq b ≤ seq a then some a else some b
      else l.find? fun b => decide (key b = k) := by
  induction l with
  | nil =>
    by_cases hk : key a = k <;> simp [hk]
  | cons b l ih =>
    obtain ⟨hb, htail⟩ := List.pairwise_cons.mp hl
    by_cases hab : (byKeyThenSeq cmp key seq a b).isLE = true
    · rw [List.orderedInsert_cons, if_pos hab]
      by_cases hk : key a = k
      · rw [if_pos hk, List.find?_cons_of_pos (by simpa using hk)]
        cases hfind : (b :: l).find? fun c => decide (key c = k) with
        | none => rfl
        | some c =>
          -- everything behind the place of insertion is outranked by `a`
          have hc : key c = k := by simpa using List.find?_some hfind
          have hac : (byKeyThenSeq cmp key seq a c).isLE = true := by
            cases List.mem_cons.mp (List.mem_of_find?_eq_some hfind) with
            | inl heq => exact heq ▸ hab
            | inr hmem => exact byKeyThenSeq_trans hab (hb c hmem)
          rw [isLE_byKeyThenSeq, hk, hc] at hac
          have hle : seq c ≤ seq a := by
            rcases hac with hlt | ⟨-, hle⟩
            · have hself : cmp k k = .eq := Std.ReflCmp.compare_self
              rw [hself] at hlt
              cases hlt
            · exact hle
          simp only [if_pos hle]
      · rw [if_neg hk, List.find?_cons_of_neg (by simpa using hk)]
    · rw [List.orderedInsert_cons, if_neg hab]
      by_cases hbk : key b = k
      · rw [List.find?_cons_of_pos (by simpa using hbk),
          List.find?_cons_of_pos (by simpa using hbk)]
        by_cases hk : key a = k
        · have hlt : ¬ seq b ≤ seq a := fun hle => hab (by
            rw [isLE_byKeyThenSeq, hk, hbk]
            exact Or.inr ⟨Std.ReflCmp.compare_self, hle⟩)
          simp only [if_pos hk, if_neg hlt]
        · rw [if_neg hk]
      · rw [List.find?_cons_of_neg (by simpa using hbk),
          List.find?_cons_of_neg (by simpa using hbk), ih htail]

theorem find?_sortBy (k : κ) (l : List α) :
    (sortBy (byKeyThenSeq cmp key seq) l).find? (fun b => decide (key b = k)) =
      LastWriter.winner key seq k l := by
  induction l with
  | nil => rfl
  | cons a l ih =>
    rw [sortBy_cons, find?_orderedInsert (pairwise_sortBy l), ih]
    rfl

end Sorted

section Groups
variable [DecidableEq κ] (key : α → κ)

def groups : List α → List (List α)
  | [] => []
  | a :: l =>
    match groups l with
    | (b :: g) :: gs => if key a = key b then (a :: b :: g) :: gs else [a] :: (b :: g) :: gs
    | gs => [a] :: gs

def heads (l : List α) : List α := (groups key l).filterMap List.head?

theorem groups_cons (b : α) (l : List α) :
    ∃ g gs, groups key (b :: l) = (b :: g) :: gs := by
  simp only [groups]
  split
  · rename_i c g gs _
    split
    · exact ⟨c :: g, gs, rfl⟩
    · exact ⟨[], (c :: g) :: gs, rfl⟩
  · exact ⟨[], _, rfl⟩

theorem heads_cons (b : α) (l : List α) : ∃ hs, heads key (b :: l) = b :: hs := by
  obtain ⟨g, gs, hg⟩ := groups_cons key b l
  exact ⟨gs.filterMap List.head?, by rw [heads, hg]; rfl⟩

variable {key}

theorem heads_cons_cons (a b : α) (l : List α) :
    heads key (a :: b :: l) =
      if key a = key b then a :: (heads key (b :: l)).tail else a :: heads key (b :: l) := by
  obtain ⟨g, gs, hg⟩ := groups_cons key b l
  have hcons : groups key (a :: b :: l) =
      if key a = key b then (a :: b :: g) :: gs else [a] :: (b :: g) :: gs := by
    rw [groups, hg]
  rw [heads, heads, hcons, hg]
  split <;> rfl

theorem heads_sublist (l : List α) : (heads key l).Sublist l := by
  induction l with
  | nil => exact List.Sublist.refl _
  | cons a l ih =>
    cases l with
    | nil => simp [heads, groups]
    | cons b l =>
      rw [heads_cons_cons]
      split
      · exact ((List.tail_sublist _).trans ih).cons_cons a
      · exact ih.cons_cons a

theorem mem_heads_id [DecidableEq α] {l : List α} {a : α} : a ∈ heads id l ↔ a ∈ l := by
  induction l with
  | nil => simp [heads, groups]
  | cons b l ih =>
    cases l with
    | nil => simp [heads, groups]
    | cons c l =>
      obtain ⟨hs, hhs⟩ := heads_cons id c l
      rw [hhs] at ih
      rw [heads_cons_cons, hhs]
      by_cases hbc : id b = id c
      · have hsame : b = c := hbc
        rw [if_pos hbc, List.tail_cons, hsame, ih]
        simp
      · rw [if_neg hbc, List.mem_cons, ih, ← List.mem_cons]

theorem heads_spec {rel : κ → κ → Prop} (hanti : ∀ k k', rel k k' → rel k' k → k = k')
    {l : List α} (hl : l.Pairwise fun a b => rel (key a) (key b)) :
    ((heads key l).map key).Nodup ∧
      ∀ x, x ∈ heads key l ↔ l.find? (fun b => decide (key b = key x)) = some x := by
  induction l with
  | nil => exact ⟨List.nodup_nil, fun x => by simp [heads, groups]⟩
  | cons a l ih =>
    cases l with
    | nil =>
      refine ⟨by simp [heads, groups], fun x => ?_⟩
      by_cases hx : key a = key x
      · simp [heads, groups, hx, eq_comm]
      · have hne : x ≠ a := fun h => hx (h ▸ rfl)
        simp [heads, groups, hx, hne]
    | cons b l =>
      obtain ⟨ha, htail⟩ := List.pairwise_cons.mp hl
      obtain ⟨hb, -⟩ := List.pairwise_cons.mp htail
      obtain ⟨hnodup, hmem⟩ := ih htail
      obtain ⟨hs, hhs⟩ := heads_cons key b l
      rw [hhs] at hnodup hmem
      simp only [List.map_cons, List.nodup_cons] at hnodup
      rw [heads_cons_cons, hhs]
      by_cases hab : key a = key b
      · rw [if_pos hab]
        refine ⟨by simpa [hab] using hnodup, fun x => ?_⟩
        simp only [List.tail_cons, List.mem_cons]
        by_cases hx : key a = key x
        · rw [List.find?_cons_of_pos (by simpa using hx)]
          have hnot : x ∉ hs := fun hin =>
            hnodup.1 (List.mem_map.mpr ⟨x, hin, hx.symm.trans hab⟩)
          simp [hnot, eq_comm]
        · rw [List.find?_cons_of_neg (by simpa using hx), ← hmem x]
          have hxa : x ≠ a := fun h => hx (h ▸ rfl)
          have hxb : x ≠ b := fun h => hx (h ▸ hab)
          simp [hxa, hxb]
      · rw [if_neg hab]
        have hnotin : ∀ c ∈ b :: l, key c ≠ key a := fun c hc heq => by
          cases List.mem_cons.mp hc with
          | inl h => exact hab (h ▸ heq.symm)
          | inr h =>
            have hba := hb c h
            rw [heq] at hba
            exact hab (hanti _ _ (ha b List.mem_cons_self) hba)
        have hheads : ∀ c ∈ b :: hs, c ∈ b :: l := fun c hc =>
          List.mem_of_find?_eq_some ((hmem c).mp hc)
        refine ⟨?_, fun x => ?_⟩
        · rw [List.map_cons, List.nodup_cons]
          refine ⟨fun hin => ?_, by simpa using hnodup⟩
          obtain ⟨c, hc, heq⟩ := List.mem_map.mp hin
          exact hnotin c (hheads c hc) heq
        · rw [List.mem_cons]
          by_cases hx : key a = key x
          · rw [List.find?_cons_of_pos (by simpa using hx)]
            have hnot : x ∉ b :: hs := fun hin => hnotin x (hheads x hin) hx.symm
            simp [hnot, eq_comm]
          · rw [List.find?_cons_of_neg (by simpa using hx), ← hmem x]
            have hxa : x ≠ a := fun h => hx (h ▸ rfl)
            simp [hxa]

end Groups

theorem mem_heads_sortBy [DecidableEq κ] {cmp : κ → κ → Ordering} [Std.TransCmp cmp]
    [Std.LawfulEqCmp cmp] {key : α → κ} {seq : α → Nat} (l : List α) :
    ((heads key (sortBy (byKeyThenSeq cmp key seq) l)).map key).Nodup ∧
      ∀ x, x ∈ heads key (sortBy (byKeyThenSeq cmp key seq) l) ↔
        LastWriter.winner key seq (key x) l = some x := by
  have hanti : ∀ k k' : κ, (cmp k k').isLE = true → (cmp k' k).isLE = true → k = k' :=
    fun k k' h h' => Std.LawfulEqCmp.eq_of_compare (Std.OrientedCmp.isLE_antisymm h h')
  have hsorted : (sortBy (byKeyThenSeq cmp key seq) l).Pairwise
      fun a b => (cmp (key a) (key b)).isLE = true :=
    (pairwise_sortBy l).imp fun {a b} h => by
      rcases isLE_byKeyThenSeq.mp h with hlt | ⟨heq, -⟩
      · rw [hlt]
        rfl
      · rw [heq]
        rfl
  obtain ⟨hnodup, hmem⟩ := heads_spec hanti hsorted
  exact ⟨hnodup, fun x => by rw [hmem, find?_sortBy]⟩

section Canonical
variable {cmp : α → α → Ordering} [Std.TransCmp cmp]

theorem sorted_sortBy (l : List α) :
    (sortBy cmp l).Pairwise fun a b => (cmp a b).isLE = true := by
  have htotal : Std.Total fun a b : α => (cmp a b).isLE = true := by
    refine ⟨fun a b => ?_⟩
    cases h : cmp a b with
    | lt => exact Or.inl rfl
    | eq => exact Or.inl rfl
    | gt => exact Or.inr (by rw [Std.OrientedCmp.lt_of_gt h]; rfl)
  have htrans : IsTrans α fun a b => (cmp a b).isLE = true := ⟨fun _ _ _ => Std.TransCmp.isLE_trans⟩
  exact List.pairwise_insertionSort _ l

theorem sortBy_eq_of_perm {l m : List α} (h : l.Perm m)
    (hties : ∀ a ∈ l, ∀ b ∈ l, cmp a b = .eq → a = b) : sortBy cmp l = sortBy cmp m := by
  have hperm : (sortBy cmp l).Perm (sortBy cmp m) :=
    (perm_sortBy cmp l).trans (h.trans (perm_sortBy cmp m).symm)
  refine hperm.eq_of_pairwise (fun a b ha hb hab hba => ?_) (sorted_sortBy l) (sorted_sortBy m)
  exact hties a (mem_sortBy.mp ha) b (h.mem_iff.mpr (mem_sortBy.mp hb))
    (Std.OrientedCmp.isLE_antisymm hab hba)

theorem eq_of_strict {l m : List α} (hl : l.Pairwise fun a b => cmp a b = .lt)
    (hm : m.Pairwise fun a b => cmp a b = .lt) (h : ∀ a, a ∈ l ↔ a ∈ m) : l = m := by
  have hself : ∀ a : α, cmp a a ≠ .lt := by
    intro a hlt
    have heq : cmp a a = .eq := Std.ReflCmp.compare_self
    rw [heq] at hlt
    cases hlt
  have hnodup : ∀ {n : List α}, (n.Pairwise fun a b => cmp a b = .lt) → n.Nodup := by
    intro n hn
    refine hn.imp fun {a b} hab heq => ?_
    rw [heq] at hab
    exact hself b hab
  have hperm : l.Perm m := (List.perm_ext_iff_of_nodup (hnodup hl) (hnodup hm)).mpr h
  refine hperm.eq_of_pairwise (fun a b _ _ hab hba => ?_) hl hm
  exact absurd (Std.TransCmp.lt_trans hab hba) (hself a)

variable [DecidableEq α]

theorem strict_heads_sortBy [Std.LawfulEqCmp cmp] (l : List α) :
    (heads id (sortBy cmp l)).Pairwise fun a b => cmp a b = .lt := by
  have hanti : ∀ a b : α, (cmp a b).isLE = true → (cmp b a).isLE = true → a = b :=
    fun a b h h' => Std.LawfulEqCmp.eq_of_compare (Std.OrientedCmp.isLE_antisymm h h')
  have hsorted : (sortBy cmp l).Pairwise fun a b => (cmp a b).isLE = true := sorted_sortBy l
  have hnodup : (heads id (sortBy cmp l)).Nodup := by
    have hmap := (@heads_spec α α _ id _ hanti (sortBy cmp l) hsorted).1
    rwa [List.map_id] at hmap
  have hle := hsorted.sublist (@heads_sublist α α _ id (sortBy cmp l))
  refine hle.imp₂ (fun a b hle hne => ?_) hnodup
  cases h : cmp a b with
  | lt => rfl
  | eq => exact absurd (Std.LawfulEqCmp.eq_of_compare h) hne
  | gt =>
    rw [h] at hle
    cases hle

theorem mem_destutter_ne {l : List α} {a : α} : a ∈ l.destutter (· ≠ ·) ↔ a ∈ l := by
  have hcons : ∀ (m : List α) (b : α), a ∈ m.destutter' (· ≠ ·) b ↔ a ∈ b :: m := by
    intro m
    induction m with
    | nil => exact fun b => Iff.rfl
    | cons c m ih =>
      intro b
      by_cases hbc : b = c
      · rw [List.destutter'_cons_neg _ (not_not.mpr hbc), ih b, hbc]
        simp
      · rw [List.destutter'_cons_pos _ hbc, List.mem_cons, ih c, ← List.mem_cons]
  cases l with
  | nil => exact Iff.rfl
  | cons b l => exact hcons l b

theorem strict_destutter_sortBy [Std.LawfulEqCmp cmp] (l : List α) :
    ((sortBy cmp l).destutter (· ≠ ·)).Pairwise fun a b => cmp a b = .lt := by
  have htrans : IsTrans α fun a b => cmp a b = .lt := ⟨fun _ _ _ => Std.TransCmp.lt_trans⟩
  have hle : ((sortBy cmp l).destutter (· ≠ ·)).Pairwise fun a b => (cmp a b).isLE = true :=
    (sorted_sortBy l).sublist (List.destutter_sublist (· ≠ ·) _)
  have hne := List.isChain_destutter (· ≠ ·) (sortBy cmp l)
  refine List.IsChain.pairwise ?_
  generalize (sortBy cmp l).destutter (· ≠ ·) = strict at hle hne ⊢
  induction strict with
  | nil => exact List.isChain_nil
  | cons a m ih =>
    cases m with
    | nil => exact List.isChain_singleton a
    | cons b m =>
      obtain ⟨ha, htail⟩ := List.pairwise_cons.mp hle
      obtain ⟨hab, hchain⟩ := List.isChain_cons_cons.mp hne
      refine List.isChain_cons_cons.mpr ⟨?_, ih htail hchain⟩
      have hisLE := ha b List.mem_cons_self
      cases h : cmp a b with
      | lt => rfl
      | eq => exact absurd (Std.LawfulEqCmp.eq_of_compare h) hab
      | gt =>
        rw [h] at hisLE
        cases hisLE

end Canonical

section Runs
variable [DecidableEq κ] {key : α → κ}

theorem flatten_groups (l : List α) : (groups key l).flatten = l := by
  induction l with
  | nil => rfl
  | cons a l ih =>
    rw [groups]
    split
    next b g gs hgs =>
      rw [hgs] at ih
      split
      · rw [← ih]
        rfl
      · rw [← ih]
        rfl
    next gs hgs => rw [List.flatten_cons, ih]; rfl

theorem groups_eq_map_heads {rel : κ → κ → Prop} (hanti : ∀ k k', rel k k' → rel k' k → k = k')
    {l : List α} (hl : l.Pairwise fun a b => rel (key a) (key b)) :
    groups key l = (heads key l).map fun x => l.filter fun b => decide (key b = key x) := by
  induction l with
  | nil => rfl
  | cons a l ih =>
    cases l with
    | nil => simp [heads, groups]
    | cons b l =>
      obtain ⟨ha, htail⟩ := List.pairwise_cons.mp hl
      obtain ⟨hnodup, hmem⟩ := heads_spec hanti hl
      obtain ⟨hs, hhs⟩ := heads_cons key b l
      obtain ⟨g, gs, hgs⟩ := groups_cons key b l
      have hih := ih htail
      rw [hhs, hgs, List.map_cons] at hih
      obtain ⟨hrun, hruns⟩ := List.cons.inj hih
      rw [heads_cons_cons, hhs] at hnodup ⊢
      have hgroups : groups key (a :: b :: l) =
          if key a = key b then (a :: b :: g) :: gs else [a] :: (b :: g) :: gs := by
        rw [groups, hgs]
      have hskip : ∀ x, key a ≠ key x →
          (b :: l).filter (fun c => decide (key c = key x)) =
            (a :: b :: l).filter fun c => decide (key c = key x) := fun x hne =>
        (List.filter_cons_of_neg (by simpa using hne)).symm
      by_cases hab : key a = key b
      · rw [if_pos hab] at hnodup
        rw [hgroups, if_pos hab, if_pos hab, List.tail_cons, List.map_cons]
        rw [List.tail_cons, List.map_cons, List.nodup_cons] at hnodup
        congr 1
        · rw [List.filter_cons_of_pos (by simp), hab, hrun]
        · rw [hruns]
          refine List.map_congr_left fun x hx => hskip x fun heq => ?_
          exact hnodup.1 (List.mem_map.mpr ⟨x, hx, heq.symm⟩)
      · rw [if_neg hab] at hnodup
        rw [hgroups, if_neg hab, if_neg hab, List.map_cons, List.map_cons]
        rw [List.map_cons, List.nodup_cons] at hnodup
        have hne : ∀ x ∈ b :: hs, key a ≠ key x := fun x hx heq =>
          hnodup.1 (List.mem_map.mpr ⟨x, hx, heq.symm⟩)
        have hnone : ∀ c ∈ b :: l, key c ≠ key a := by
          intro c hc heq
          obtain ⟨hb, -⟩ := List.pairwise_cons.mp htail
          cases List.mem_cons.mp hc with
          | inl h => exact hab (h ▸ heq.symm)
          | inr h =>
            have hbc := hb c h
            rw [heq] at hbc
            exact hab (hanti _ _ (ha b List.mem_cons_self) hbc)
        congr 1
        · rw [List.filter_cons_of_pos (by simp), List.filter_eq_nil_iff.mpr]
          intro c hc
          simpa using hnone c hc
        · congr 1
          · rw [← hskip b (hne b List.mem_cons_self), hrun]
          · rw [hruns]
            exact List.map_congr_left fun x hx => hskip x (hne x (List.mem_cons_of_mem b hx))

end Runs

section Classes
variable {ι : Type v} [DecidableEq ι] {cls : α → ι}

theorem filter_sortBy {cmp : α → α → Ordering} {l : List α} {c : ι}
    (hle : ∀ a b, cls a = cls b → (cmp a b).isLE = true) :
    (sortBy cmp l).filter (fun a => decide (cls a = c)) = l.filter fun a => decide (cls a = c) := by
  have hordered : (l.filter fun a => decide (cls a = c)).Pairwise
      fun a b => (cmp a b).isLE = true := by
    refine List.pairwise_of_forall_mem_list fun a ha b hb => hle a b ?_
    have hca : cls a = c := by simpa using (List.mem_filter.mp ha).2
    have hcb : cls b = c := by simpa using (List.mem_filter.mp hb).2
    rw [hca, hcb]
  have hsub := (List.sublist_insertionSort hordered List.filter_sublist).filter
    fun a => decide (cls a = c)
  rw [List.filter_filter] at hsub
  simp only [Bool.and_self] at hsub
  exact (hsub.eq_of_length ((perm_sortBy cmp l).filter _).length_eq.symm).symm

variable [DecidableEq κ] {key : α → κ}

theorem filter_heads {rel : ι → ι → Prop} (hanti : ∀ c d, rel c d → rel d c → c = d)
    (hkey : ∀ a b, key a = key b → cls a = cls b) {l : List α} (c : ι)
    (hl : l.Pairwise fun a b => rel (cls a) (cls b)) :
    (heads key l).filter (fun a => decide (cls a = c)) =
      heads key (l.filter fun a => decide (cls a = c)) := by
  induction l with
  | nil => rfl
  | cons a l ih =>
    cases l with
    | nil =>
      by_cases ha : cls a = c
      · simp [heads, groups, ha]
      · simp [heads, groups, ha]
    | cons b l =>
      obtain ⟨hfirst, htail⟩ := List.pairwise_cons.mp hl
      obtain ⟨hs, hhs⟩ := heads_cons key b l
      have hih := ih htail
      rw [hhs] at hih
      rw [heads_cons_cons, hhs, List.tail_cons]
      by_cases ha : cls a = c
      · by_cases hb : cls b = c
        · obtain ⟨hs', hhs'⟩ := heads_cons key b (l.filter fun a => decide (cls a = c))
          have hfilter : (a :: b :: l).filter (fun a => decide (cls a = c)) =
              a :: b :: l.filter fun a => decide (cls a = c) := by simp [ha, hb]
          rw [List.filter_cons_of_pos (by simpa using hb),
            List.filter_cons_of_pos (by simpa using hb), hhs'] at hih
          rw [hfilter, heads_cons_cons, hhs', List.tail_cons, ← (List.cons.inj hih).2]
          by_cases hab : key a = key b
          · rw [if_pos hab, if_pos hab, List.filter_cons_of_pos (by simpa using ha)]
          · rw [if_neg hab, if_neg hab, List.filter_cons_of_pos (by simpa using ha),
              List.filter_cons_of_pos (by simpa using hb)]
        · -- no later element is of the class of `a`
          have hnone : (b :: l).filter (fun a => decide (cls a = c)) = [] := by
            rw [List.filter_eq_nil_iff]
            intro d hd hdc
            have hdc' : cls d = c := by simpa using hdc
            cases List.mem_cons.mp hd with
            | inl h => exact hb (h ▸ hdc')
            | inr h =>
              have hbd := (List.pairwise_cons.mp htail).1 d h
              have hab := hfirst b List.mem_cons_self
              rw [ha] at hab
              rw [hdc'] at hbd
              exact hb (hanti _ _ hbd hab)
          have hab : key a ≠ key b := fun h => hb ((hkey a b h).symm.trans ha)
          rw [hnone] at hih
          rw [if_neg hab, List.filter_cons_of_pos (by simpa using ha), hih,
            List.filter_cons_of_pos (by simpa using ha), hnone]
          simp [heads, groups]
      · rw [List.filter_cons_of_neg (by simpa using ha), ← hih]
        by_cases hab : key a = key b
        · have hb : cls b ≠ c := fun h => ha ((hkey a b hab).trans h)
          rw [if_pos hab, List.filter_cons_of_neg (by simpa using ha),
            List.filter_cons_of_neg (by simpa using hb)]
        · rw [if_neg hab, List.filter_cons_of_neg (by simpa using ha)]

theorem exists_mem_heads {l : List α} {a : α} (ha : a ∈ l) : ∃ b ∈ heads key l, key b = key a := by
  induction l with
  | nil => cases ha
  | cons b l ih =>
    cases l with
    | nil =>
      refine ⟨b, by simp [heads, groups], ?_⟩
      rw [List.mem_singleton.mp ha]
    | cons c l =>
      obtain ⟨hs, hhs⟩ := heads_cons key c l
      rw [hhs] at ih
      rw [heads_cons_cons, hhs, List.tail_cons]
      cases List.mem_cons.mp ha with
      | inl h =>
        refine ⟨b, ?_, h ▸ rfl⟩
        by_cases hbc : key b = key c
        · rw [if_pos hbc]
          exact List.mem_cons_self
        · rw [if_neg hbc]
          exact List.mem_cons_self
      | inr h =>
        obtain ⟨d, hd, hda⟩ := ih h
        by_cases hbc : key b = key c
        · rw [if_pos hbc]
          cases List.mem_cons.mp hd with
          | inl heq => exact ⟨b, List.mem_cons_self, hbc.trans (heq ▸ hda)⟩
          | inr hmem => exact ⟨d, List.mem_cons_of_mem b hmem, hda⟩
        · rw [if_neg hbc]
          exact ⟨d, List.mem_cons_of_mem b hd, hda⟩

end Classes

section InRuns

def InRuns (l : List κ) : Prop := ∀ a b, a ≠ b → ¬[a, b, a].Sublist l

theorem inRuns_cons_self (a : κ) (l : List κ) : InRuns (a :: a :: l) ↔ InRuns (a :: l) := by
  constructor
  · exact fun h b c hne hsub => h b c hne (hsub.trans (List.sublist_cons_self a _))
  · intro h b c hne hsub
    cases hsub with
    | cons _ hsub => exact h b c hne hsub
    | cons_cons _ hsub =>
      -- the second `a` is not the element in between, so it can serve as the first
      cases hsub with
      | cons _ hsub => exact h a c hne (hsub.cons_cons a)
      | cons_cons _ _ => exact hne rfl

theorem inRuns_cons_cons {a b : κ} (hab : a ≠ b) (l : List κ) :
    InRuns (a :: b :: l) ↔ a ∉ b :: l ∧ InRuns (b :: l) := by
  constructor
  · refine fun h => ⟨fun hmem => ?_, fun c d hne hsub => h c d hne (hsub.cons a)⟩
    have hlater := (List.mem_cons.mp hmem).resolve_left hab
    exact h a b hab (((List.singleton_sublist.mpr hlater).cons_cons b).cons_cons a)
  · rintro ⟨hnot, h⟩ c d hne hsub
    cases hsub with
    | cons _ hsub => exact h c d hne hsub
    | cons_cons _ hsub =>
      exact hnot (hsub.subset (List.mem_cons_of_mem d List.mem_cons_self))

theorem inRuns_map {f : κ → α} {l : List κ} (hf : ∀ a ∈ l, ∀ b ∈ l, f a = f b → a = b) :
    InRuns (l.map f) ↔ InRuns l := by
  constructor
  · intro h a b hne hsub
    refine h (f a) (f b) (fun heq => hne ?_) (hsub.map f)
    exact hf a (hsub.subset (by simp)) b (hsub.subset (by simp)) heq
  · intro h a b hne hsub
    obtain ⟨l', hsub', heq⟩ := List.sublist_map_iff.mp hsub
    match l' with
    | [] | [_] | [_, _] | _ :: _ :: _ :: _ :: _ => simp at heq
    | [c, d, e] =>
      obtain ⟨hc, hd, he⟩ : a = f c ∧ b = f d ∧ a = f e := by simpa using heq
      have hsame : c = e :=
        hf c (hsub'.subset (by simp)) e (hsub'.subset (by simp)) (hc.symm.trans he)
      refine h c d (fun hcd => hne ?_) (hsame ▸ hsub')
      rw [hc, hd, hcd]

theorem inRuns_filterMap {f : κ → Option α} {l : List κ}
    (hf : ∀ a b c, f a = some c → f b = some c → a = b) :
    InRuns (l.filterMap f) ↔ InRuns (l.filter fun a => (f a).isSome) := by
  have hsome : (l.filterMap f).map some = (l.filter fun a => (f a).isSome).map f := by
    rw [List.map_filterMap_some_eq_filter_map_isSome, List.filter_map]
    rfl
  rw [← inRuns_map fun a _ b _ => Option.some.inj, hsome]
  refine inRuns_map fun a ha b hb heq => ?_
  obtain ⟨c, hc⟩ := Option.isSome_iff_exists.mp (List.mem_filter.mp ha).2
  exact hf a b c hc (heq ▸ hc)

variable [DecidableEq κ] {key : α → κ}

theorem nodup_heads_iff (l : List α) :
    ((heads key l).map key).Nodup ↔ InRuns (l.map key) := by
  induction l with
  | nil => simp [heads, groups, InRuns]
  | cons a l ih =>
    cases l with
    | nil =>
      refine iff_of_true (by simp [heads, groups]) fun b c _ hsub => ?_
      exact absurd hsub.length_le (by simp)
    | cons b l =>
      obtain ⟨hs, hhs⟩ := heads_cons key b l
      rw [heads_cons_cons, List.map_cons, List.map_cons]
      by_cases hab : key a = key b
      · rw [if_pos hab, hab, inRuns_cons_self, ← List.map_cons, ← ih, hhs, List.map_cons, hab]
        rfl
      · rw [if_neg hab, inRuns_cons_cons hab, List.map_cons, List.nodup_cons, ih,
          List.map_cons]
        refine and_congr (not_congr ?_) Iff.rfl
        rw [← List.map_cons, List.mem_map, List.mem_map]
        constructor
        · rintro ⟨c, hc, hkey⟩
          exact ⟨c, (heads_sublist _).subset hc, hkey⟩
        · rintro ⟨c, hc, hkey⟩
          obtain ⟨d, hd, hdc⟩ := @exists_mem_heads _ _ _ key _ _ hc
          exact ⟨d, hd, hdc.trans hkey⟩

end InRuns

end SortedGroups
