import Mathlib.Data.List.Basic
import Mathlib.Logic.Relation

/-!
Closure under successors with a worklist: an item that was not seen before is marked and queued.
The loop ends when the successors come from a finite list, and then the marked items are those that
the start leads to, which is the least set that has the start and is closed under successors.
-/

namespace Worklist

variable {α : Type} [DecidableEq α]

def visit (state : List α × List α) (item : α) : List α × List α :=
  if item ∈ state.1 then state else (item :: state.1, state.2 ++ [item])

/-- `none` when the steps run out. -/
def run (next : α → List α) : Nat → List α → List α → Option (List α)
  | _, seen, [] => some seen
  | 0, _, _ :: _ => none
  | steps + 1, seen, item :: queue =>
    let state := (next item).foldl visit (seen, queue)
    run next steps state.1 state.2

def Reached (next : α → List α) (start : List α) (x : α) : Prop :=
  ∃ a ∈ start, Relation.ReflTransGen (fun a b => b ∈ next a) a x

def missing (items seen : List α) : Nat := items.countP fun a => a ∉ seen

variable {next : α → List α}

omit [DecidableEq α] in
theorem Reached.step {start : List α} {x y : α} (h : Reached next start x) (hy : y ∈ next x)
    : Reached next start y := by
  obtain ⟨a, ha, hpath⟩ := h
  exact ⟨a, ha, hpath.tail hy⟩

omit [DecidableEq α] in
theorem Reached.mem_of_closed {start : List α} {p : α → Prop} (hstart : ∀ x ∈ start, p x)
    (hclosed : ∀ x, p x → ∀ y ∈ next x, p y) {x : α} (h : Reached next start x) : p x := by
  obtain ⟨a, ha, hpath⟩ := h
  induction hpath with
  | refl => exact hstart a ha
  | tail _ hstep ih => exact hclosed _ ih _ hstep

theorem missing_cons_lt {items seen : List α} {item : α} (hitem : item ∈ items)
    (hnew : item ∉ seen) : missing items (item :: seen) < missing items seen := by
  induction items with
  | nil => cases hitem
  | cons first items ih =>
    have hle : missing items (item :: seen) ≤ missing items seen := by
      refine List.countP_mono_left fun a _ ha => ?_
      simp only [decide_eq_true_eq, List.mem_cons, not_or] at ha ⊢
      exact ha.2
    rw [missing, missing, List.countP_cons, List.countP_cons]
    by_cases hfirst : first = item
    · rw [hfirst, if_neg (by simp), if_pos (by simpa using hnew)]
      exact Nat.lt_succ_of_le hle
    · have hrest : item ∈ items := (List.mem_cons.mp hitem).resolve_left (Ne.symm hfirst)
      have hsame : (first ∉ item :: seen) ↔ first ∉ seen := by simp [hfirst]
      have hlt := ih hrest
      rw [missing, missing] at hlt
      simp only [hsame]
      omega

section Visit
variable {items : List α} {state : List α × List α}

theorem mem_seen_foldl_visit {x : α} :
    x ∈ (items.foldl visit state).1 ↔ x ∈ state.1 ∨ x ∈ items := by
  induction items generalizing state with
  | nil => simp
  | cons item items ih =>
    rw [List.foldl_cons, ih, visit]
    by_cases hseen : item ∈ state.1
    · rw [if_pos hseen, List.mem_cons]
      constructor
      · intro h
        exact h.imp_right .inr
      · intro h
        cases h with
        | inl hx => exact .inl hx
        | inr hx =>
          cases hx with
          | inl heq => exact .inl (heq ▸ hseen)
          | inr hrest => exact .inr hrest
    · rw [if_neg hseen, List.mem_cons, List.mem_cons, or_assoc, or_left_comm]

theorem mem_queue_foldl_visit {x : α} :
    x ∈ (items.foldl visit state).2 ↔ x ∈ state.2 ∨ (x ∈ items ∧ x ∉ state.1) := by
  induction items generalizing state with
  | nil => simp
  | cons item items ih =>
    rw [List.foldl_cons, ih, visit]
    by_cases hseen : item ∈ state.1
    · rw [if_pos hseen, List.mem_cons]
      refine or_congr_right (and_congr_left fun hx => ?_)
      have hne : x ≠ item := fun heq => hx (by rw [heq]; exact hseen)
      exact (or_iff_right hne).symm
    · rw [if_neg hseen]
      simp only [List.mem_append, List.mem_cons, List.not_mem_nil, or_false, not_or]
      by_cases heq : x = item
      · rw [heq]
        simp [hseen]
      · simp [heq]

theorem measure_foldl_visit {all : List α} (hitems : ∀ x ∈ items, x ∈ all) :
    (items.foldl visit state).2.length + missing all (items.foldl visit state).1 ≤
      state.2.length + missing all state.1 := by
  induction items generalizing state with
  | nil => exact Nat.le_refl _
  | cons item items ih =>
    rw [List.foldl_cons]
    refine Nat.le_trans (ih fun x hx => hitems x (List.mem_cons_of_mem item hx)) ?_
    rw [visit]
    by_cases hseen : item ∈ state.1
    · exact Nat.le_of_eq (by rw [if_pos hseen])
    · have hlt := missing_cons_lt (hitems item List.mem_cons_self) hseen
      rw [if_neg hseen]
      simp only [List.length_append, List.length_singleton]
      omega

end Visit

/-- The marked items are reached, and the successors of those that are not queued are marked. -/
structure Frontier (next : α → List α) (start seen queue : List α) : Prop where
  sound : ∀ x ∈ seen, Reached next start x
  start : ∀ x ∈ start, x ∈ seen
  queued : ∀ x ∈ queue, x ∈ seen
  closed : ∀ x ∈ seen, x ∈ queue ∨ ∀ y ∈ next x, y ∈ seen

omit [DecidableEq α] in
theorem frontier_start (next : α → List α) (start : List α) :
    Frontier next start start start :=
  ⟨fun x hx => ⟨x, hx, .refl⟩, fun _ hx => hx, fun _ hx => hx, fun _ hx => .inl hx⟩

theorem Frontier.step {start seen queue : List α} {item : α}
    (h : Frontier next start seen (item :: queue)) :
    Frontier next start ((next item).foldl visit (seen, queue)).1
      ((next item).foldl visit (seen, queue)).2 := by
  have hitem := h.queued item List.mem_cons_self
  refine ⟨fun x hx => ?_, fun x hx => ?_, fun x hx => ?_, fun x hx => ?_⟩
  · cases mem_seen_foldl_visit.mp hx with
    | inl hseen => exact h.sound x hseen
    | inr hnext => exact (h.sound item hitem).step hnext
  · exact mem_seen_foldl_visit.mpr (.inl (h.start x hx))
  · cases mem_queue_foldl_visit.mp hx with
    | inl hqueue =>
      exact mem_seen_foldl_visit.mpr (.inl (h.queued x (List.mem_cons_of_mem item hqueue)))
    | inr hnew => exact mem_seen_foldl_visit.mpr (.inr hnew.1)
  · by_cases hold : x ∈ seen
    · cases h.closed x hold with
      | inl hqueued =>
        cases List.mem_cons.mp hqueued with
        | inl heq =>
          rw [heq]
          exact .inr fun y hy => mem_seen_foldl_visit.mpr (.inr hy)
        | inr hrest => exact .inl (mem_queue_foldl_visit.mpr (.inl hrest))
      | inr hclosed => exact .inr fun y hy => mem_seen_foldl_visit.mpr (.inl (hclosed y hy))
    · have hnext := (mem_seen_foldl_visit.mp hx).resolve_left hold
      exact .inl (mem_queue_foldl_visit.mpr (.inr ⟨hnext, hold⟩))

theorem mem_run_iff {start seen queue result : List α} {steps : Nat}
    (h : Frontier next start seen queue) (hrun : run next steps seen queue = some result) {x : α} :
    x ∈ result ↔ Reached next start x := by
  induction steps generalizing seen queue with
  | zero =>
    cases queue with
    | cons item queue => cases hrun
    | nil =>
      cases hrun
      exact ⟨h.sound x, Reached.mem_of_closed h.start fun y hy =>
        (h.closed y hy).resolve_left List.not_mem_nil⟩
  | succ steps ih =>
    cases queue with
    | nil =>
      cases hrun
      exact ⟨h.sound x, Reached.mem_of_closed h.start fun y hy =>
        (h.closed y hy).resolve_left List.not_mem_nil⟩
    | cons item queue => exact ih h.step hrun

theorem exists_run {all : List α} (hnext : ∀ x, ∀ y ∈ next x, y ∈ all) {steps : Nat}
    {seen queue : List α} (hsteps : queue.length + missing all seen ≤ steps) :
    ∃ result, run next steps seen queue = some result := by
  induction steps generalizing seen queue with
  | zero =>
    cases queue with
    | nil => exact ⟨seen, rfl⟩
    | cons item queue => simp at hsteps
  | succ steps ih =>
    cases queue with
    | nil => exact ⟨seen, rfl⟩
    | cons item queue =>
      refine ih (Nat.le_trans (measure_foldl_visit (hnext item)) ?_)
      rw [List.length_cons] at hsteps
      simp only
      omega

section Stack

def push (state : List α × List α) (item : α) : List α × List α :=
  if item ∈ state.1 then state else (item :: state.1, item :: state.2)

/-- The closure with a stack in place of the queue; `none` when the steps run out. -/
def drain (next : α → List α) : Nat → List α → List α → Option (List α)
  | _, seen, [] => some seen
  | 0, _, _ :: _ => none
  | steps + 1, seen, item :: stack =>
    let state := (next item).foldl push (seen, stack)
    drain next steps state.1 state.2

theorem foldl_push {items seen stack queue : List α} (h : stack.Perm queue) :
    (items.foldl push (seen, stack)).1 = (items.foldl visit (seen, queue)).1 ∧
      (items.foldl push (seen, stack)).2.Perm (items.foldl visit (seen, queue)).2 := by
  induction items generalizing seen stack queue with
  | nil => exact ⟨rfl, h⟩
  | cons item items ih =>
    rw [List.foldl_cons, List.foldl_cons, push, visit]
    by_cases hseen : item ∈ seen
    · simp only [if_pos hseen]
      exact ih h
    · simp only [if_neg hseen]
      exact ih ((h.cons item).trans (List.perm_append_singleton item queue).symm)

variable {next : α → List α}

omit [DecidableEq α] in
theorem Frontier.of_perm {start seen queue stack : List α} (h : Frontier next start seen queue)
    (hperm : stack.Perm queue) :
    Frontier next start seen stack :=
  ⟨h.sound, h.start, fun x hx => h.queued x (hperm.mem_iff.mp hx), fun x hx =>
    (h.closed x hx).imp_left hperm.mem_iff.mpr⟩

theorem mem_drain_iff {start seen stack result : List α} {steps : Nat}
    (h : Frontier next start seen stack) (hrun : drain next steps seen stack = some result) {x : α}
    : x ∈ result ↔ Reached next start x := by
  induction steps generalizing seen stack with
  | zero =>
    cases stack with
    | cons item stack => cases hrun
    | nil =>
      cases hrun
      exact ⟨h.sound x, Reached.mem_of_closed h.start fun y hy =>
        (h.closed y hy).resolve_left List.not_mem_nil⟩
  | succ steps ih =>
    cases stack with
    | nil =>
      cases hrun
      exact ⟨h.sound x, Reached.mem_of_closed h.start fun y hy =>
        (h.closed y hy).resolve_left List.not_mem_nil⟩
    | cons item stack =>
      obtain ⟨hseen, hperm⟩ := @foldl_push _ _ (next item) seen stack stack (List.Perm.refl _)
      refine ih ?_ hrun
      rw [hseen]
      exact h.step.of_perm hperm

theorem exists_drain {all : List α} (hnext : ∀ x, ∀ y ∈ next x, y ∈ all) {steps : Nat}
    {seen stack : List α} (hsteps : stack.length + missing all seen ≤ steps) :
    ∃ result, drain next steps seen stack = some result := by
  induction steps generalizing seen stack with
  | zero =>
    cases stack with
    | nil => exact ⟨seen, rfl⟩
    | cons item stack => simp at hsteps
  | succ steps ih =>
    cases stack with
    | nil => exact ⟨seen, rfl⟩
    | cons item stack =>
      obtain ⟨hseen, hperm⟩ := @foldl_push _ _ (next item) seen stack stack (List.Perm.refl _)
      have hmeasure := @measure_foldl_visit _ _ (next item) (seen, stack) all (hnext item)
      refine ih ?_
      rw [hseen, hperm.length_eq]
      rw [List.length_cons] at hsteps
      simp only at hmeasure
      omega

end Stack
end Worklist
