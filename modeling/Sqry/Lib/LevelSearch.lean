import Mathlib.Data.List.Basic

/-!
Breadth-first search down to a depth, from several starts. The queue of the search holds one depth
before the next; the levels are what it holds of each. A node is marked on first contact, which is
at its least distance, so the search finds just what paths of the depth lead to.
-/

namespace Sqry
namespace LevelSearch
variable {α : Type}

/-- `n` steps lead from `a` to `b`. -/
inductive Steps (step : α → α → Prop) : Nat → α → α → Prop where
  | refl (a) : Steps step 0 a a
  | head {n a b c} : step a b → Steps step n b c → Steps step (n + 1) a c

/-- At least one and at most `depth` steps lead from one of the starts to `b`. -/
def Within (step : α → α → Prop) (starts : List α) (depth : Nat) (b : α) : Prop :=
  ∃ a ∈ starts, ∃ n, 1 ≤ n ∧ n ≤ depth ∧ Steps step n a b

/-- Fewer than `bound` steps lead to `b` from one of the starts. -/
def Closer (step : α → α → Prop) (starts : List α) (bound : Nat) (b : α) : Prop :=
  ∃ a ∈ starts, ∃ n, n < bound ∧ Steps step n a b

theorem Steps.mono {step step' : α → α → Prop} {n : Nat} {a b : α} (h : Steps step n a b)
    {p : α → Prop} (ha : p a) (hstep : ∀ a b, p a → step a b → step' a b ∧ p b) :
    Steps step' n a b := by
  induction h with
  | refl a => exact .refl a
  | head hab _ ih =>
    obtain ⟨hab', hb⟩ := hstep _ _ ha hab
    exact .head hab' (ih hb)

theorem Closer.mono {step : α → α → Prop} {starts : List α} {bound bound' : Nat} {b : α}
    (h : Closer step starts bound b) (hle : bound ≤ bound') : Closer step starts bound' b := by
  obtain ⟨a, ha, n, hn, hsteps⟩ := h
  exact ⟨a, ha, n, Nat.lt_of_lt_of_le hn hle, hsteps⟩

variable [DecidableEq α]

def fresh : List α → List α → List α
  | _, [] => []
  | marked, a :: rest => if a ∈ marked then fresh marked rest else a :: fresh (a :: marked) rest

def levels (next : α → List α) : Nat → List α → List α → List α
  | 0, _, _ => []
  | depth + 1, frontier, marked =>
    fresh marked (frontier.flatMap next) ++
      levels next depth (fresh marked (frontier.flatMap next))
        (fresh marked (frontier.flatMap next) ++ marked)

structure Search (α : Type) where
  queue : List (α × Nat)
  marked : List α
  found : List α

namespace Search

def visit (depth : Nat) (s : Search α) (a : α) : Search α :=
  if a ∈ s.marked then s
  else ⟨s.queue ++ [(a, depth + 1)], a :: s.marked, s.found ++ [a]⟩

/-- The search pops the queue until it is empty; `none` when the fuel runs out. -/
def run (next : α → List α) (maxDepth : Nat) : Nat → Search α → Option (List α)
  | 0, s => if s.queue.isEmpty then some s.found else none
  | fuel + 1, s =>
    match s.queue with
    | [] => some s.found
    | (current, depth) :: queue =>
      if depth ≥ maxDepth then run next maxDepth fuel { s with queue := queue }
      else
        run next maxDepth fuel ((next current).foldl (visit depth) { s with queue := queue })

def start (input : List α) : Search α := ⟨input.map fun a => (a, 0), input, []⟩

end Search

section Fresh

theorem mem_fresh {marked l : List α} {a : α} : a ∈ fresh marked l ↔ a ∈ l ∧ a ∉ marked := by
  induction l generalizing marked with
  | nil => simp [fresh]
  | cons b l ih =>
    rw [fresh]
    by_cases hb : b ∈ marked
    · rw [if_pos hb, ih, List.mem_cons]
      constructor
      · exact fun h => ⟨.inr h.1, h.2⟩
      · exact fun h => ⟨h.1.resolve_left fun heq => h.2 (heq ▸ hb), h.2⟩
    · rw [if_neg hb, List.mem_cons, ih, List.mem_cons, List.mem_cons]
      by_cases heq : a = b
      · rw [heq]
        exact ⟨fun _ => ⟨.inl rfl, hb⟩, fun _ => .inl rfl⟩
      · constructor
        · intro h
          have hmem := h.resolve_left heq
          exact ⟨.inr hmem.1, fun hmarked => hmem.2 (.inr hmarked)⟩
        · exact fun h => .inr ⟨h.1.resolve_left heq, fun hor => hor.elim heq h.2⟩

theorem fresh_congr {marked marked' : List α} (h : ∀ a, a ∈ marked ↔ a ∈ marked')
    (l : List α) : fresh marked l = fresh marked' l := by
  induction l generalizing marked marked' with
  | nil => rfl
  | cons b l ih =>
    rw [fresh, fresh]
    by_cases hb : b ∈ marked
    · rw [if_pos hb, if_pos ((h b).mp hb), ih h]
    · rw [if_neg hb, if_neg fun hb' => hb ((h b).mpr hb'), ih fun a => ?_]
      rw [List.mem_cons, List.mem_cons, h a]

theorem fresh_append (marked l l' : List α) :
    fresh marked (l ++ l') = fresh marked l ++ fresh (fresh marked l ++ marked) l' := by
  induction l generalizing marked with
  | nil => rfl
  | cons b l ih =>
    rw [List.cons_append, fresh, fresh]
    by_cases hb : b ∈ marked
    · rw [if_pos hb, if_pos hb, ih]
    · rw [if_neg hb, if_neg hb, ih, List.cons_append]
      refine congrArg (b :: ·) (congrArg (_ ++ ·) (fresh_congr (fun a => ?_) l'))
      simp only [List.mem_append, List.mem_cons]
      exact or_left_comm.trans or_assoc.symm

theorem levels_congr {next : α → List α} {depth : Nat} {frontier marked marked' : List α}
    (h : ∀ a, a ∈ marked ↔ a ∈ marked') :
    levels next depth frontier marked = levels next depth frontier marked' := by
  induction depth generalizing frontier marked marked' with
  | zero => rfl
  | succ depth ih =>
    rw [levels, levels, fresh_congr h]
    refine congrArg (_ ++ ·) (ih fun a => ?_)
    rw [List.mem_append, List.mem_append, h a]

theorem levels_nil (next : α → List α) (depth : Nat) (marked : List α) :
    levels next depth [] marked = [] := by
  induction depth generalizing marked with
  | zero => rfl
  | succ depth ih => exact ih marked

end Fresh

section Queue
variable {next : α → List α} {maxDepth : Nat}

namespace Search

theorem foldl_visit (depth : Nat) (l : List α) (s : Search α) : ∃ marked,
    l.foldl (visit depth) s =
      ⟨s.queue ++ (fresh s.marked l).map (fun a => (a, depth + 1)), marked,
        s.found ++ fresh s.marked l⟩ ∧
      ∀ a, a ∈ marked ↔ a ∈ fresh s.marked l ++ s.marked := by
  induction l generalizing s with
  | nil =>
    refine ⟨s.marked, ?_, fun a => Iff.rfl⟩
    simp [fresh]
  | cons b l ih =>
    rw [List.foldl_cons, visit, fresh]
    by_cases hb : b ∈ s.marked
    · rw [if_pos hb, if_pos hb]
      exact ih s
    · rw [if_neg hb, if_neg hb]
      obtain ⟨marked, heq, hmem⟩ := ih ⟨s.queue ++ [(b, depth + 1)], b :: s.marked,
        s.found ++ [b]⟩
      refine ⟨marked, ?_, fun a => ?_⟩
      · rw [heq]
        simp
      · rw [hmem]
        simp only [List.mem_append, List.mem_cons]
        exact or_left_comm.trans or_assoc.symm

theorem run_frontier {depth : Nat} (hdepth : depth < maxDepth)
    (frontier later marked found : List α) : ∃ marked',
    (∀ fuel, run next maxDepth (frontier.length + fuel)
        ⟨frontier.map (fun a => (a, depth)) ++ later.map (fun a => (a, depth + 1)), marked, found⟩ =
      run next maxDepth fuel
        ⟨(later ++ fresh marked (frontier.flatMap next)).map (fun a => (a, depth + 1)), marked',
          found ++ fresh marked (frontier.flatMap next)⟩) ∧
      ∀ a, a ∈ marked' ↔ a ∈ fresh marked (frontier.flatMap next) ++ marked := by
  induction frontier generalizing later marked found with
  | nil =>
    refine ⟨marked, fun fuel => ?_, fun a => Iff.rfl⟩
    simp [fresh]
  | cons current frontier ih =>
    obtain ⟨marked₁, hvisit, hmem₁⟩ := foldl_visit depth (next current)
      ⟨frontier.map (fun a => (a, depth)) ++ later.map (fun a => (a, depth + 1)), marked, found⟩
    obtain ⟨marked₂, hrun, hmem₂⟩ := ih (later ++ fresh marked (next current)) marked₁
      (found ++ fresh marked (next current))
    have hfresh : fresh marked ((current :: frontier).flatMap next) =
        fresh marked (next current) ++ fresh marked₁ (frontier.flatMap next) := by
      rw [List.flatMap_cons, fresh_append, fresh_congr hmem₁]
    refine ⟨marked₂, fun fuel => ?_, fun a => ?_⟩
    · rw [hfresh, List.length_cons, Nat.add_right_comm, run]
      simp only [List.map_cons, List.cons_append]
      rw [if_neg (Nat.not_le.mpr hdepth), hvisit]
      dsimp only
      rw [List.append_assoc, ← List.map_append, hrun, List.append_assoc, List.append_assoc]
    · rw [hmem₂, hfresh]
      simp only [List.mem_append, hmem₁]
      exact or_left_comm.trans or_assoc.symm

theorem run_bottom {depth : Nat} (hdepth : maxDepth ≤ depth) (frontier : List α) (fuel : Nat)
    (marked found : List α) :
    run next maxDepth (frontier.length + fuel)
      ⟨frontier.map fun a => (a, depth), marked, found⟩ = some found := by
  induction frontier with
  | nil => cases fuel <;> rfl
  | cons current frontier ih =>
    rw [List.length_cons, Nat.add_right_comm, run]
    simp only [List.map_cons]
    rw [if_pos hdepth, ih]

theorem run_levels (left depth : Nat) (hdepth : depth + left = maxDepth)
    (frontier marked found : List α) : ∃ least, ∀ fuel, least ≤ fuel →
      run next maxDepth fuel ⟨frontier.map fun a => (a, depth), marked, found⟩ =
        some (found ++ levels next left frontier marked) := by
  induction left generalizing depth frontier marked found with
  | zero =>
    refine ⟨frontier.length, fun fuel hfuel => ?_⟩
    obtain ⟨more, rfl⟩ := Nat.exists_eq_add_of_le hfuel
    have hbottom : maxDepth ≤ depth := Nat.le_of_eq hdepth.symm
    rw [run_bottom hbottom, levels, List.append_nil]
  | succ left ih =>
    obtain ⟨marked', hrun, hmem⟩ := @run_frontier α _ next maxDepth depth (by omega)
      frontier [] marked found
    obtain ⟨least, hleast⟩ := ih (depth + 1) (by omega) (fresh marked (frontier.flatMap next))
      marked' (found ++ fresh marked (frontier.flatMap next))
    refine ⟨frontier.length + least, fun fuel hfuel => ?_⟩
    obtain ⟨more, rfl⟩ := Nat.exists_eq_add_of_le (Nat.le_of_add_right_le hfuel)
    have hstep := hrun more
    rw [List.map_nil, List.append_nil, List.nil_append] at hstep
    rw [hstep, hleast more (by omega), levels, levels_congr hmem, List.append_assoc]

theorem run_start (next : α → List α) (maxDepth : Nat) (input : List α) :
    ∃ least, ∀ fuel, least ≤ fuel →
      run next maxDepth fuel (start input) = some (levels next maxDepth input input) := by
  obtain ⟨least, hleast⟩ := @run_levels α _ next maxDepth maxDepth 0 (Nat.zero_add _) input input []
  exact ⟨least, hleast⟩

end Search

end Queue

section Exact
variable {next : α → List α}

theorem Steps.leaves {marked frontier : List α}
    (hclosed : ∀ a ∈ marked, a ∉ frontier → ∀ b ∈ next a, b ∈ marked) {n : Nat} {a b : α}
    (h : Steps (fun a b => b ∈ next a) n a b) (ha : a ∈ marked) (hb : b ∉ marked) :
    ∃ c ∈ frontier, ∃ d ∈ next c, d ∉ marked ∧ ∃ m, m < n ∧
      Steps (fun a b => b ∈ next a) m d b := by
  induction h with
  | refl a => exact absurd ha hb
  | @head n a c b hac hcb ih =>
    by_cases hc : c ∈ marked
    · obtain ⟨c', hc', d, hd, hmarked, m, hm, hsteps⟩ := ih hc hb
      exact ⟨c', hc', d, hd, hmarked, m, Nat.lt_succ_of_lt hm, hsteps⟩
    · have hfrontier : a ∈ frontier := by
        by_contra hnot
        exact hc (hclosed a ha hnot c hac)
      exact ⟨a, hfrontier, c, hac, hc, n, Nat.lt_succ_self n, hcb⟩

theorem mem_levels {depth : Nat} {frontier marked : List α} {b : α}
    (hfrontier : ∀ a ∈ frontier, a ∈ marked)
    (hclosed : ∀ a ∈ marked, a ∉ frontier → ∀ c ∈ next a, c ∈ marked) :
    b ∈ levels next depth frontier marked ↔
      b ∉ marked ∧ Within (fun a b => b ∈ next a) frontier depth b := by
  induction depth generalizing frontier marked with
  | zero =>
    refine ⟨fun h => ?_, fun h => ?_⟩
    · cases h
    · obtain ⟨_, _, _, n, hpos, hle, _⟩ := h
      omega
  | succ depth ih =>
    have hfound : ∀ a, a ∈ fresh marked (frontier.flatMap next) ↔
        (∃ c ∈ frontier, a ∈ next c) ∧ a ∉ marked := by
      intro a
      rw [mem_fresh, List.mem_flatMap]
    have hclosed' : ∀ a ∈ fresh marked (frontier.flatMap next) ++ marked,
        a ∉ fresh marked (frontier.flatMap next) → ∀ c ∈ next a,
          c ∈ fresh marked (frontier.flatMap next) ++ marked := by
      intro a ha hnot c hc
      have hmarked := (List.mem_append.mp ha).resolve_left hnot
      by_cases hin : a ∈ frontier
      · by_cases hcm : c ∈ marked
        · exact List.mem_append_right _ hcm
        · exact List.mem_append_left _ ((hfound c).mpr ⟨⟨a, hin, hc⟩, hcm⟩)
      · exact List.mem_append_right _ (hclosed a hmarked hin c hc)
    rw [levels, List.mem_append, ih (fun a => List.mem_append_left _) hclosed']
    constructor
    · intro h
      cases h with
      | inl hnew =>
        obtain ⟨⟨c, hc, hb⟩, hmarked⟩ := (hfound b).mp hnew
        exact ⟨hmarked, c, hc, 1, Nat.le_refl 1, Nat.le_add_left 1 depth,
          .head hb (.refl b)⟩
      | inr hlater =>
        obtain ⟨hnot, a, ha, n, _, hle, hsteps⟩ := hlater
        obtain ⟨⟨c, hc, hca⟩, _⟩ := (hfound a).mp ha
        exact ⟨fun hmarked => hnot (List.mem_append_right _ hmarked), c, hc, n + 1,
          Nat.le_add_left 1 n, Nat.succ_le_succ hle, .head hca hsteps⟩
    · intro h
      obtain ⟨hnot, a, ha, n, _, hle, hsteps⟩ := h
      obtain ⟨c, hc, d, hd, hmarked, m, hm, hrest⟩ := hsteps.leaves hclosed (hfrontier a ha) hnot
      have hnew := (hfound d).mpr ⟨⟨c, hc, hd⟩, hmarked⟩
      by_cases hb : b ∈ fresh marked (frontier.flatMap next)
      · exact .inl hb
      · refine .inr ⟨fun hmem => (List.mem_append.mp hmem).elim hb hnot, d, hnew, m, ?_, ?_, hrest⟩
        · cases hrest with
          | refl _ => exact absurd hnew hb
          | head _ _ => exact Nat.le_add_left 1 _
        · omega

theorem mem_levels_start {depth : Nat} {input : List α} {b : α} :
    b ∈ levels next depth input input ↔
      b ∉ input ∧ Within (fun a b => b ∈ next a) input depth b :=
  mem_levels (fun _ ha => ha) fun _ ha hnot => absurd ha hnot

end Exact

section Layers
variable {next : α → List α}

def layer (next : α → List α) : Nat → List α → List α → List α
  | 0, frontier, _ => frontier
  | depth + 1, frontier, marked =>
    layer next depth (fresh marked (frontier.flatMap next))
      (fresh marked (frontier.flatMap next) ++ marked)

def before (next : α → List α) (starts : List α) (bound : Nat) : List α :=
  (List.range bound).flatMap fun depth => layer next depth (fresh [] starts) (fresh [] starts)

theorem layer_congr {depth : Nat} {frontier marked marked' : List α}
    (h : ∀ a, a ∈ marked ↔ a ∈ marked') :
    layer next depth frontier marked = layer next depth frontier marked' := by
  induction depth generalizing frontier marked marked' with
  | zero => rfl
  | succ depth ih =>
    rw [layer, layer, fresh_congr h]
    refine ih fun a => ?_
    rw [List.mem_append, List.mem_append, h a]

theorem levels_succ (next : α → List α) (depth : Nat) (frontier marked : List α) :
    levels next (depth + 1) frontier marked =
      levels next depth frontier marked ++ layer next (depth + 1) frontier marked := by
  induction depth generalizing frontier marked with
  | zero => simp [levels, layer]
  | succ depth ih =>
    rw [levels, ih, ← List.append_assoc]
    rfl

theorem before_succ (next : α → List α) (starts : List α) (bound : Nat) :
    before next starts (bound + 1) =
      before next starts bound ++ layer next bound (fresh [] starts) (fresh [] starts) := by
  rw [before, List.range_succ, List.flatMap_append, List.flatMap_singleton]
  rfl

theorem before_eq_levels (next : α → List α) (starts : List α) (depth : Nat) :
    before next starts (depth + 1) =
      fresh [] starts ++ levels next depth (fresh [] starts) (fresh [] starts) := by
  induction depth with
  | zero => simp [before, levels, layer]
  | succ depth ih => rw [before_succ, ih, levels_succ, List.append_assoc]

theorem nodup_fresh (marked l : List α) : (fresh marked l).Nodup := by
  induction l generalizing marked with
  | nil => exact List.nodup_nil
  | cons a l ih =>
    rw [fresh]
    by_cases ha : a ∈ marked
    · rw [if_pos ha]
      exact ih marked
    · rw [if_neg ha]
      exact List.nodup_cons.mpr ⟨fun h => (mem_fresh.mp h).2 List.mem_cons_self, ih _⟩

theorem levels_new {depth : Nat} {frontier marked : List α} :
    (levels next depth frontier marked).Nodup ∧
      ∀ a ∈ levels next depth frontier marked, a ∉ marked := by
  induction depth generalizing frontier marked with
  | zero => exact ⟨List.nodup_nil, fun a ha => absurd ha List.not_mem_nil⟩
  | succ depth ih =>
    obtain ⟨hnodup, hnew⟩ := @ih (fresh marked (frontier.flatMap next))
      (fresh marked (frontier.flatMap next) ++ marked)
    refine ⟨List.nodup_append.mpr ⟨nodup_fresh _ _, hnodup, ?_⟩, fun a ha => ?_⟩
    · intro a ha b hb heq
      exact hnew b hb (List.mem_append_left _ (heq ▸ ha))
    · cases List.mem_append.mp ha with
      | inl hfresh => exact (mem_fresh.mp hfresh).2
      | inr hlater => exact fun hmem => hnew a hlater (List.mem_append_right _ hmem)

theorem nodup_before (starts : List α) (bound : Nat) : (before next starts bound).Nodup := by
  cases bound with
  | zero => exact List.nodup_nil
  | succ depth =>
    rw [before_eq_levels, List.nodup_append]
    refine ⟨nodup_fresh _ _, levels_new.1, fun a ha b hb heq => ?_⟩
    exact levels_new.2 b hb (heq ▸ ha)

theorem mem_before {starts : List α} {bound : Nat} {b : α} :
    b ∈ before next starts bound ↔ Closer (fun a b => b ∈ next a) starts bound b := by
  have hstarts : ∀ a, a ∈ fresh [] starts ↔ a ∈ starts := by
    intro a
    rw [mem_fresh]
    exact ⟨fun h => h.1, fun h => ⟨h, List.not_mem_nil⟩⟩
  cases bound with
  | zero =>
    refine ⟨fun h => absurd h List.not_mem_nil, fun h => ?_⟩
    obtain ⟨a, -, n, hn, -⟩ := h
    exact absurd hn (Nat.not_lt_zero n)
  | succ depth =>
    rw [before_eq_levels, List.mem_append, mem_levels_start]
    constructor
    · intro h
      rcases h with hstart | ⟨-, a, ha, n, -, hle, hsteps⟩
      · exact ⟨b, (hstarts b).mp hstart, 0, Nat.succ_pos depth, .refl b⟩
      · exact ⟨a, (hstarts a).mp ha, n, Nat.lt_succ_of_le hle, hsteps⟩
    · rintro ⟨a, ha, n, hn, hsteps⟩
      by_cases hb : b ∈ fresh [] starts
      · exact .inl hb
      · refine .inr ⟨hb, a, (hstarts a).mpr ha, n, ?_, Nat.le_of_lt_succ hn, hsteps⟩
        cases hsteps with
        | refl _ => exact absurd ((hstarts b).mpr ha) hb
        | head _ _ => exact Nat.le_add_left 1 _

theorem mem_layer {starts : List α} {depth : Nat} {b : α} :
    b ∈ layer next depth (fresh [] starts) (fresh [] starts) ↔
      Closer (fun a b => b ∈ next a) starts (depth + 1) b ∧
        ¬Closer (fun a b => b ∈ next a) starts depth b := by
  have hnodup := @nodup_before α _ next starts (depth + 1)
  rw [before_succ, List.nodup_append] at hnodup
  rw [← mem_before, ← mem_before, before_succ, List.mem_append]
  constructor
  · exact fun h => ⟨.inr h, fun hmem => hnodup.2.2 b hmem b h rfl⟩
  · exact fun h => h.1.resolve_left h.2

theorem before_ordered (starts : List α) (bound : Nat) :
    (before next starts bound).Pairwise fun a b => ∀ k,
      Closer (fun a b => b ∈ next a) starts k b → Closer (fun a b => b ∈ next a) starts k a := by
  induction bound with
  | zero => exact List.Pairwise.nil
  | succ depth ih =>
    rw [before_succ, List.pairwise_append]
    have hfar : ∀ b ∈ layer next depth (fresh [] starts) (fresh [] starts), ∀ k,
        Closer (fun a b => b ∈ next a) starts k b → depth + 1 ≤ k := by
      intro b hb k hk
      by_contra hlt
      exact (mem_layer.mp hb).2 (hk.mono (Nat.le_of_lt_succ (Nat.not_le.mp hlt)))
    refine ⟨ih, List.pairwise_of_forall_mem_list fun a ha b hb k hk => ?_,
      fun a ha b hb k hk => ?_⟩
    · exact (mem_layer.mp ha).1.mono (hfar b hb k hk)
    · exact (mem_before.mp ha).mono (Nat.le_of_succ_le (hfar b hb k hk))

end Layers

end LevelSearch
end Sqry
