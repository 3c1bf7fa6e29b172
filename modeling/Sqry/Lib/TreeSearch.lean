import Mathlib.Data.List.Count
import Mathlib.Data.List.Nodup

/-!
Breadth-first search over a tree, down to a depth. Items that are done are collected and not
followed further; a limit ends the search with the item that comes up to it. The queue holds one
depth before the next, so what is collected is what the levels hold, level by level.
-/

namespace Sqry
namespace TreeSearch
variable {ι : Type} (children : ι → List ι) (done : ι → Bool)

def expand (items : List ι) : List ι := (items.filter fun item => !done item).flatMap children

def level : Nat → List ι → List ι
  | 0, items => items
  | depth + 1, items => level depth (expand children done items)

def harvest (depth : Nat) (items : List ι) : List ι :=
  (List.range (depth + 1)).flatMap fun k => (level children done k items).filter done

def limitReached (limit : Option Nat) (count : Nat) : Bool :=
  match limit with
  | none => false
  | some limit => count ≥ limit

/-- The search over its queue; `none` when the fuel runs out. -/
def search (limit : Option Nat) (maxDepth : Nat) : Nat → List (ι × Nat) → List ι →
    Option (List ι)
  | 0, queue, found => if queue.isEmpty then some found else none
  | _ + 1, [], found => some found
  | fuel + 1, (item, depth) :: queue, found =>
    if done item then
      if limitReached limit (found ++ [item]).length then some (found ++ [item])
      else search limit maxDepth fuel queue (found ++ [item])
    else if depth ≥ maxDepth then search limit maxDepth fuel queue found
    else
      search limit maxDepth fuel
        (queue ++ (children item).map fun child => (child, depth + 1)) found

variable {children done}

section Levels

theorem expand_append (items items' : List ι) :
    expand children done (items ++ items') =
      expand children done items ++ expand children done items' := by
  rw [expand, List.filter_append, List.flatMap_append]
  rfl

theorem mem_expand {items : List ι} {child : ι} :
    child ∈ expand children done items ↔
      ∃ item ∈ items, done item = false ∧ child ∈ children item := by
  rw [expand, List.mem_flatMap]
  refine exists_congr fun item => ?_
  rw [List.mem_filter, Bool.not_eq_true', and_assoc]

theorem level_succ (depth : Nat) (items : List ι) :
    level children done (depth + 1) items =
      expand children done (level children done depth items) := by
  induction depth generalizing items with
  | zero => rfl
  | succ depth ih => exact ih (expand children done items)

theorem harvest_succ (depth : Nat) (items : List ι) :
    harvest children done (depth + 1) items =
      items.filter done ++ harvest children done depth (expand children done items) := by
  rw [harvest, List.range_succ_eq_map, List.flatMap_cons, List.flatMap_map]
  rfl

theorem mem_harvest {depth : Nat} {items : List ι} {item : ι} :
    item ∈ harvest children done depth items ↔
      done item = true ∧ ∃ k ≤ depth, item ∈ level children done k items := by
  rw [harvest, List.mem_flatMap]
  constructor
  · rintro ⟨k, hk, hmem⟩
    obtain ⟨hlevel, hdone⟩ := List.mem_filter.mp hmem
    exact ⟨hdone, k, Nat.le_of_lt_succ (List.mem_range.mp hk), hlevel⟩
  · rintro ⟨hdone, k, hk, hlevel⟩
    exact ⟨k, List.mem_range.mpr (Nat.lt_succ_of_le hk), List.mem_filter.mpr ⟨hlevel, hdone⟩⟩

end Levels

section Queue
variable {maxDepth : Nat}

theorem search_level {depth : Nat} (hdepth : depth < maxDepth) (items later found : List ι)
    (fuel : Nat) :
    search children done none maxDepth (items.length + fuel)
        (items.map (fun item => (item, depth)) ++ later.map fun item => (item, depth + 1)) found =
      search children done none maxDepth fuel
        ((later ++ expand children done items).map fun item => (item, depth + 1))
        (found ++ items.filter done) := by
  induction items generalizing later found with
  | nil => simp [expand]
  | cons item items ih =>
    rw [List.length_cons, Nat.add_right_comm, List.map_cons, List.cons_append, search]
    by_cases hdone : done item = true
    · rw [if_pos hdone, limitReached, if_neg Bool.false_ne_true, ih]
      simp [expand, hdone]
    · have hnot : done item = false := eq_false_of_ne_true hdone
      rw [if_neg hdone, if_neg (Nat.not_le.mpr hdepth), List.append_assoc, ← List.map_append, ih]
      simp [expand, hnot]

theorem search_bottom {depth : Nat} (hdepth : maxDepth ≤ depth) (items found : List ι)
    (fuel : Nat) :
    search children done none maxDepth (items.length + fuel)
      (items.map fun item => (item, depth)) found = some (found ++ items.filter done) := by
  induction items generalizing found with
  | nil => cases fuel <;> simp [search]
  | cons item items ih =>
    rw [List.length_cons, Nat.add_right_comm, List.map_cons, search]
    by_cases hdone : done item = true
    · rw [if_pos hdone, limitReached, if_neg Bool.false_ne_true, ih]
      simp [hdone]
    · rw [if_neg hdone, if_pos hdepth, ih]
      simp [hdone]

theorem search_none (left depth : Nat) (hdepth : depth + left = maxDepth) (items found : List ι) :
    ∃ least, ∀ fuel, least ≤ fuel →
      search children done none maxDepth fuel (items.map fun item => (item, depth)) found =
        some (found ++ harvest children done left items) := by
  induction left generalizing depth items found with
  | zero =>
    refine ⟨items.length, fun fuel hfuel => ?_⟩
    obtain ⟨more, rfl⟩ := Nat.exists_eq_add_of_le hfuel
    have hbottom : maxDepth ≤ depth := Nat.le_of_eq hdepth.symm
    rw [search_bottom hbottom]
    simp [harvest, level]
  | succ left ih =>
    obtain ⟨least, hleast⟩ := ih (depth + 1) (by omega) (expand children done items)
      (found ++ items.filter done)
    refine ⟨items.length + least, fun fuel hfuel => ?_⟩
    obtain ⟨more, rfl⟩ := Nat.exists_eq_add_of_le (Nat.le_of_add_right_le hfuel)
    have hstep := @search_level _ children done maxDepth depth (by omega) items [] found more
    rw [List.map_nil, List.append_nil, List.nil_append] at hstep
    rw [hstep, hleast more (by omega), harvest_succ, List.append_assoc]

theorem prefix_of_search {fuel : Nat} {queue : List (ι × Nat)} {found all : List ι}
    (h : search children done none maxDepth fuel queue found = some all) : found <+: all := by
  induction fuel generalizing queue found with
  | zero =>
    rw [search] at h
    split at h
    · cases h
      exact List.prefix_rfl
    · cases h
  | succ fuel ih =>
    match queue with
    | [] =>
      cases h
      exact List.prefix_rfl
    | (item, depth) :: queue =>
      rw [search] at h
      split at h
      · rw [limitReached, if_neg Bool.false_ne_true] at h
        exact (List.prefix_append found [item]).trans (ih h)
      · split at h
        · exact ih h
        · exact ih h

theorem search_some {k fuel : Nat} {queue : List (ι × Nat)} {found all : List ι}
    (hlt : found.length < max k 1)
    (h : search children done none maxDepth fuel queue found = some all) :
    search children done (some k) maxDepth fuel queue found = some (all.take (max k 1)) := by
  have hstop : ∀ {found : List ι}, found.length < max k 1 → found.take (max k 1) = found :=
    fun hfound => List.take_of_length_le (Nat.le_of_lt hfound)
  induction fuel generalizing queue found with
  | zero =>
    rw [search] at h ⊢
    split at h
    · next hempty =>
        cases h
        rw [if_pos hempty, hstop hlt]
    · cases h
  | succ fuel ih =>
    match queue with
    | [] =>
      cases h
      rw [search, hstop hlt]
    | (item, depth) :: queue =>
      rw [search] at h ⊢
      by_cases hdone : done item = true
      · rw [if_pos hdone, limitReached, if_neg Bool.false_ne_true] at h
        rw [if_pos hdone, limitReached]
        by_cases hreached : (found ++ [item]).length ≥ k
        · rw [if_pos (decide_eq_true hreached)]
          obtain ⟨rest, rfl⟩ := prefix_of_search h
          have hlength : (found ++ [item]).length = max k 1 := by
            rw [List.length_append, List.length_singleton] at hreached ⊢
            omega
          rw [← hlength, List.take_left]
        · rw [if_neg (by simpa using hreached)]
          refine ih ?_ h
          omega
      · rw [if_neg hdone] at h ⊢
        split at h
        · next hbottom =>
            rw [if_pos hbottom]
            exact ih hlt h
        · next hbottom =>
            rw [if_neg hbottom]
            exact ih hlt h

end Queue

section Prune
variable {children' : ι → List ι} {keep : ι → Bool}

theorem level_prune (hchildren : ∀ item, keep item = true →
      children' item = (children item).filter keep)
    (hlost : ∀ item, keep item = false → ∀ child ∈ children item, keep child = false)
    (depth : Nat) (items : List ι) :
    level children' done depth (items.filter keep) =
      (level children done depth items).filter keep := by
  have hexpand : ∀ items, expand children' done (items.filter keep) =
      (expand children done items).filter keep := by
    intro items
    induction items with
    | nil => rfl
    | cons item items ih =>
      rw [← List.singleton_append, List.filter_append, expand_append, expand_append,
        List.filter_append, ih]
      refine congrArg (· ++ _) ?_
      cases hdone : done item with
      | true => cases hkeep : keep item <;> simp [expand, hdone, hkeep]
      | false =>
        cases hkeep : keep item with
        | true => simp [expand, hdone, hkeep, hchildren item hkeep]
        | false =>
          have hnone : (children item).filter keep = [] := by
            rw [List.filter_eq_nil_iff]
            intro child hchild
            rw [hlost item hkeep child hchild]
            exact Bool.false_ne_true
          simp [expand, hdone, hkeep, hnone]
  induction depth generalizing items with
  | zero => rfl
  | succ depth ih => rw [level, level, hexpand, ih]

theorem harvest_prune (hchildren : ∀ item, keep item = true →
      children' item = (children item).filter keep)
    (hlost : ∀ item, keep item = false → ∀ child ∈ children item, keep child = false)
    (depth : Nat) {items : List ι} (hitems : ∀ item ∈ items, keep item = true) :
    harvest children' done depth items = (harvest children done depth items).filter keep := by
  have hall : items.filter keep = items := List.filter_eq_self.mpr hitems
  rw [harvest, harvest, List.filter_flatMap]
  refine List.flatMap_congr fun k _ => ?_
  have hlevel := @level_prune _ children done children' keep hchildren hlost k items
  rw [hall] at hlevel
  rw [hlevel, List.filter_filter, List.filter_filter]
  exact List.filter_congr fun item _ => Bool.and_comm _ _

end Prune

section Cut
variable {keep shown : ι → Bool}

def LostLast (keep shown : ι → Bool) (items : List ι) : Prop :=
  ∀ front item rest, items = front ++ item :: rest → keep item = false →
    ∀ later ∈ item :: rest, shown later = false

theorem lostLast_cons {item : ι} {items : List ι} :
    LostLast keep shown (item :: items) ↔
      (keep item = false → ∀ later ∈ item :: items, shown later = false) ∧
        LostLast keep shown items := by
  constructor
  · refine fun h => ⟨h [] item items rfl, fun front other rest heq => ?_⟩
    exact h (item :: front) other rest (congrArg (item :: ·) heq)
  · rintro ⟨hfirst, hlater⟩ front other rest heq hother
    cases front with
    | nil =>
      obtain ⟨rfl, rfl⟩ := List.cons.inj heq
      exact hfirst hother
    | cons first front => exact hlater front other rest (List.cons.inj heq).2 hother

theorem countP_take_filter_le {items : List ι}
    (hkeep : ∀ item ∈ items, shown item = true → keep item = true) (n : Nat) :
    (items.take n).countP shown ≤ ((items.filter keep).take n).countP shown := by
  have hprefix : (items.take n).filter keep <+: (items.filter keep).take n := by
    rw [List.prefix_take_iff]
    exact ⟨(List.take_prefix n items).filter keep,
      Nat.le_trans (List.length_filter_le _ _) (List.length_take_le n items)⟩
  have hsame : (items.take n).countP shown = ((items.take n).filter keep).countP shown := by
    rw [List.countP_filter]
    refine List.countP_congr fun item hitem => ?_
    rw [Bool.and_eq_true]
    exact ⟨fun h => ⟨h, hkeep item (List.mem_of_mem_take hitem) h⟩, fun h => h.1⟩
  rw [hsame]
  exact hprefix.sublist.countP_le

theorem not_shown_of_first_lost {item : ι} {items : List ι} (hitem : keep item = false)
    (hall : (items.filter keep).filter shown = (item :: items).filter shown)
    (hcut : ∀ n, ((items.filter keep).take n).filter shown = ((item :: items).take n).filter shown) :
    ∀ later ∈ item :: items, shown later = false := by
  have hfirst : shown item = false := by
    by_contra hshown
    have hmem : item ∈ ((item :: items).take 1).filter shown :=
      List.mem_filter.mpr ⟨List.mem_cons_self, eq_true_of_ne_false hshown⟩
    rw [← hcut 1] at hmem
    have hkept := List.mem_of_mem_take (List.mem_filter.mp hmem).1
    rw [(List.mem_filter.mp hkept).2] at hitem
    cases hitem
  rw [List.filter_cons_of_neg (by simp [hfirst])] at hall
  have hkeep : ∀ other ∈ items, shown other = true → keep other = true := by
    intro other hother hshown
    have hmem : other ∈ items.filter shown := List.mem_filter.mpr ⟨hother, hshown⟩
    rw [← hall] at hmem
    exact (List.mem_filter.mp (List.mem_filter.mp hmem).1).2
  -- the first `n + 1` items show no more than the first `n`, so none of them is shown
  have hzero : ∀ n, (items.take n).countP shown = 0 := by
    intro n
    induction n with
    | zero => rfl
    | succ n ih =>
      have hle := countP_take_filter_le hkeep (n + 1)
      have hsame := hcut (n + 1)
      rw [List.take_succ_cons, List.filter_cons_of_neg (by simp [hfirst])] at hsame
      rw [List.countP_eq_length_filter (l := (items.filter keep).take (n + 1)), hsame,
        ← List.countP_eq_length_filter, ih] at hle
      exact Nat.le_zero.mp hle
  intro later hlater
  cases List.mem_cons.mp hlater with
  | inl heq => exact heq ▸ hfirst
  | inr hmem =>
    have hnone := hzero items.length
    rw [List.take_length, List.countP_eq_zero] at hnone
    exact eq_false_of_ne_true (hnone later hmem)

theorem shown_filter_iff (items : List ι) :
    ((items.filter keep).filter shown = items.filter shown ∧
        ∀ n, ((items.filter keep).take n).filter shown = (items.take n).filter shown) ↔
      LostLast keep shown items := by
  induction items with
  | nil =>
    refine iff_of_true (by simp) fun front item rest heq => ?_
    exact absurd heq (by simp)
  | cons item items ih =>
    rw [lostLast_cons]
    by_cases hitem : keep item = true
    · have hcons : ∀ l l' : List ι, (item :: l).filter shown = (item :: l').filter shown ↔
          l.filter shown = l'.filter shown := by
        intro l l'
        cases hshown : shown item <;> simp [hshown]
      rw [List.filter_cons_of_pos hitem, and_iff_right fun h => absurd hitem (by simp [h]), ← ih,
        hcons]
      refine and_congr_right fun _ => ⟨fun h n => ?_, fun h n => ?_⟩
      · have hnext := h (n + 1)
        rw [List.take_succ_cons, List.take_succ_cons, hcons] at hnext
        exact hnext
      · cases n with
        | zero => rfl
        | succ n =>
          rw [List.take_succ_cons, List.take_succ_cons, hcons]
          exact h n
    · have hlost : keep item = false := eq_false_of_ne_true hitem
      rw [List.filter_cons_of_neg hitem]
      constructor
      · rintro ⟨hall, hcut⟩
        have hnone := not_shown_of_first_lost hlost hall hcut
        refine ⟨fun _ => hnone, fun front other rest heq _ later hlater => ?_⟩
        exact hnone later (List.mem_cons_of_mem item (heq ▸ List.mem_append_right front hlater))
      · rintro ⟨hnone, -⟩
        have hnil : ∀ l : List ι, (∀ other ∈ l, other ∈ item :: items) → l.filter shown = [] := by
          intro l hl
          refine List.filter_eq_nil_iff.mpr fun other hother => ?_
          rw [hnone hlost other (hl other hother)]
          exact Bool.false_ne_true
        have hkept : ∀ other ∈ items.filter keep, other ∈ item :: items := fun other hother =>
          List.mem_cons_of_mem item (List.mem_filter.mp hother).1
        refine ⟨?_, fun n => ?_⟩
        · rw [hnil _ hkept, hnil _ fun _ h => h]
        · rw [hnil _ fun other hother => hkept other (List.mem_of_mem_take hother),
            hnil _ fun _ hother => List.mem_of_mem_take hother]

end Cut

section Ranked
variable {rank : ι → Nat} {offset : Nat} {items : List ι}

theorem harvest_ordered
    (hrank : ∀ k, ∀ item ∈ level children done k items, rank item = k + offset) (depth : Nat) :
    (harvest children done depth items).Pairwise fun a b => rank a ≤ rank b := by
  rw [harvest, List.pairwise_flatMap]
  refine ⟨fun k _ => List.pairwise_of_forall_mem_list fun a ha b hb => ?_,
    List.pairwise_lt_range.imp fun {j k} hlt a ha b hb => ?_⟩
  · exact Nat.le_of_eq ((hrank k a (List.mem_filter.mp ha).1).trans
      (hrank k b (List.mem_filter.mp hb).1).symm)
  · rw [hrank j a (List.mem_filter.mp ha).1, hrank k b (List.mem_filter.mp hb).1]
    exact Nat.add_le_add_right (Nat.le_of_lt hlt) offset

theorem nodup_harvest_iff [BEq ι] [LawfulBEq ι]
    (hrank : ∀ k, ∀ item ∈ level children done k items, rank item = k + offset) (depth : Nat) :
    (harvest children done depth items).Nodup ↔
      ∀ k ≤ depth, ∀ item ∈ level children done k items, done item = true →
        (level children done k items).count item ≤ 1 := by
  rw [harvest, List.nodup_flatMap]
  have hdisjoint : (List.range (depth + 1)).Pairwise
      (Function.onFun List.Disjoint fun k => (level children done k items).filter done) := by
    refine List.pairwise_lt_range.imp fun {j k} hlt item hj hk => ?_
    have hsame := (hrank j item (List.mem_filter.mp hj).1).symm.trans
      (hrank k item (List.mem_filter.mp hk).1)
    omega
  constructor
  · rintro ⟨hnodup, -⟩ k hk item hitem hdone
    have hlevel := hnodup k (List.mem_range.mpr (Nat.lt_succ_of_le hk))
    have hcount := List.nodup_iff_count_le_one.mp hlevel item
    rw [List.count_filter hdone] at hcount
    exact hcount
  · refine fun h => ⟨fun k hk => List.nodup_iff_count_le_one.mpr fun item => ?_, hdisjoint⟩
    by_cases hmem : item ∈ (level children done k items).filter done
    · obtain ⟨hitem, hdone⟩ := List.mem_filter.mp hmem
      rw [List.count_filter hdone]
      exact h k (Nat.le_of_lt_succ (List.mem_range.mp hk)) item hitem hdone
    · rw [List.count_eq_zero.mpr hmem]
      exact Nat.zero_le 1

end Ranked

section Growth
variable {α : Type} {next : List α → List α} {done : List α → Bool}

def grow (next : List α → List α) (path : List α) : List (List α) :=
  (next path).map fun a => path ++ [a]

theorem mem_grow {path longer : List α} :
    longer ∈ grow next path ↔ ∃ a ∈ next path, longer = path ++ [a] := by
  rw [grow, List.mem_map]
  exact exists_congr fun a => and_congr_right fun _ => eq_comm

theorem mem_expand_grow {paths : List (List α)} {path : List α} {a : α} :
    path ++ [a] ∈ expand (grow next) done paths ↔
      path ∈ paths ∧ done path = false ∧ a ∈ next path := by
  rw [mem_expand]
  constructor
  · rintro ⟨other, hother, hdone, hgrow⟩
    obtain ⟨b, hb, heq⟩ := mem_grow.mp hgrow
    obtain ⟨rfl, hab⟩ := List.append_inj' heq rfl
    cases hab
    exact ⟨hother, hdone, hb⟩
  · rintro ⟨hpath, hdone, ha⟩
    exact ⟨path, hpath, hdone, mem_grow.mpr ⟨a, ha, rfl⟩⟩

theorem count_expand_grow [DecidableEq α] {path : List α} (hdone : done path = false)
    (paths : List (List α)) (a : α) :
    (expand (grow next) done paths).count (path ++ [a]) =
      paths.count path * (next path).count a := by
  induction paths with
  | nil => simp [expand]
  | cons other paths ih =>
    have hsplit : other :: paths = [other] ++ paths := rfl
    rw [hsplit, expand_append, List.count_append, List.count_append, Nat.add_mul, ih]
    refine congrArg (· + _) ?_
    by_cases hsame : other = path
    · subst hsame
      have hinj : Function.Injective fun b => other ++ [b] := fun b c hbc => by
        simpa using hbc
      have hcount := List.count_map_of_injective (next other) _ hinj a
      simpa [expand, hdone, grow] using hcount
    · have hzero : (expand (grow next) done [other]).count (path ++ [a]) = 0 := by
        refine List.count_eq_zero.mpr fun hmem => hsame ?_
        exact (List.mem_singleton.mp (mem_expand_grow.mp hmem).1).symm
      rw [hzero, List.count_singleton, if_neg (by simpa using hsame), Nat.zero_mul]

theorem length_of_mem_level {starts : List α} {k : Nat} {path : List α}
    (h : path ∈ level (grow next) done k (starts.map fun a => [a])) : path.length = k + 1 := by
  induction k generalizing path with
  | zero =>
    obtain ⟨a, -, rfl⟩ := List.mem_map.mp h
    rfl
  | succ k ih =>
    rw [level_succ] at h
    obtain ⟨shorter, hmem, -, hgrow⟩ := mem_expand.mp h
    obtain ⟨a, -, rfl⟩ := mem_grow.mp hgrow
    rw [List.length_append, ih hmem, List.length_singleton]

end Growth

end TreeSearch
end Sqry
