import Mathlib.Data.List.Basic

/-!
Runs of a partial step function. A step that the program refuses (it panics, or
its caller is not allowed to take it) is `none`, so a run exists only when every
one of its steps was taken. Invariants are proved for one step and carried along
runs here; a condition on the steps of a run travels with it.
-/

namespace StepSystem

universe u v
variable {σ : Type u} {ι : Type v}

def run (step : σ → ι → Option σ) : σ → List ι → Option σ
  | s, [] => some s
  | s, i :: is => (step s i).bind fun s' => run step s' is

/-- Every step of the run from `s` starts in a state that meets `Ok`. -/
def RunOk (step : σ → ι → Option σ) (Ok : σ → ι → Prop) : σ → List ι → Prop
  | _, [] => True
  | s, i :: is => Ok s i ∧ ∀ s', step s i = some s' → RunOk step Ok s' is

variable {step : σ → ι → Option σ} {Ok : σ → ι → Prop}

instance decidableForallSome {α : Type*} {P : α → Prop} [∀ a, Decidable (P a)] :
    ∀ o : Option α, Decidable (∀ a, o = some a → P a)
  | none => isTrue nofun
  | some a => decidable_of_iff (P a) ⟨fun h _ heq => Option.some.inj heq ▸ h, fun h => h a rfl⟩

instance decidableRunOk [∀ s i, Decidable (Ok s i)] :
    ∀ (s : σ) (is : List ι), Decidable (RunOk step Ok s is)
  | _, [] => isTrue trivial
  | s, i :: is =>
    have : ∀ s', Decidable (RunOk step Ok s' is) := fun s' => decidableRunOk s' is
    inferInstanceAs (Decidable (Ok s i ∧ ∀ s', step s i = some s' → RunOk step Ok s' is))

@[simp] theorem run_nil (s : σ) : run step s [] = some s := rfl

theorem run_cons (s : σ) (i : ι) (is : List ι) :
    run step s (i :: is) = (step s i).bind fun s' => run step s' is := rfl

theorem run_cons_of_step {s t : σ} {i : ι} (h : step s i = some t) (is : List ι) :
    run step s (i :: is) = run step t is := by
  simp [run_cons, h]

theorem run_append (s : σ) (is js : List ι) :
    run step s (is ++ js) = (run step s is).bind fun t => run step t js := by
  induction is generalizing s with
  | nil => rfl
  | cons i is ih =>
    cases h : step s i with
    | none => simp [run_cons, h]
    | some t => simpa [run_cons, h] using ih t

theorem run_cons_some {s t : σ} {i : ι} {is : List ι} (h : run step s (i :: is) = some t) :
    ∃ s', step s i = some s' ∧ run step s' is = some t := by
  simpa [run_cons, Option.bind_eq_some_iff] using h

theorem runOk_of_forall_mem {s : σ} {is : List ι} (h : ∀ i ∈ is, ∀ s, Ok s i) :
    RunOk step Ok s is := by
  induction is generalizing s with
  | nil => trivial
  | cons i is ih =>
    exact ⟨h i List.mem_cons_self s,
      fun s' _ => ih fun j hj => h j (List.mem_cons_of_mem i hj)⟩

theorem runOk_cons_of_step {s t : σ} {i : ι} {is : List ι} (hok : Ok s i)
    (hstep : step s i = some t) (hrest : RunOk step Ok t is) : RunOk step Ok s (i :: is) := by
  refine ⟨hok, fun s' hs' => ?_⟩
  rw [hstep] at hs'
  cases hs'
  exact hrest

theorem invariant_of_runOk {Inv : σ → Prop}
    (preserved : ∀ s i s', Inv s → Ok s i → step s i = some s' → Inv s')
    {s t : σ} {is : List ι} (hs : Inv s) (hok : RunOk step Ok s is)
    (hrun : run step s is = some t) : Inv t := by
  induction is generalizing s with
  | nil =>
    cases hrun
    exact hs
  | cons i is ih =>
    obtain ⟨s', hstep, hrest⟩ := run_cons_some hrun
    exact ih (preserved s i s' hs hok.1 hstep) (hok.2 s' hstep) hrest

theorem invariant_of_run {Inv : σ → Prop}
    (preserved : ∀ s i s', Inv s → step s i = some s' → Inv s')
    {s t : σ} {is : List ι} (hs : Inv s) (hrun : run step s is = some t) : Inv t := by
  have hok : RunOk step (fun _ _ => True) s is := runOk_of_forall_mem fun _ _ _ => trivial
  exact invariant_of_runOk (fun s i s' h _ hstep => preserved s i s' h hstep) hs hok hrun

theorem runOk_mono {Ok' : σ → ι → Prop} (himp : ∀ s i, Ok s i → Ok' s i) {s : σ} {is : List ι}
    (h : RunOk step Ok s is) : RunOk step Ok' s is := by
  induction is generalizing s with
  | nil => trivial
  | cons i is ih => exact ⟨himp s i h.1, fun s' hstep => ih (h.2 s' hstep)⟩

theorem runOk_and {Ok' : σ → ι → Prop} {s : σ} {is : List ι} (h : RunOk step Ok s is)
    (h' : RunOk step Ok' s is) : RunOk step (fun s i => Ok s i ∧ Ok' s i) s is := by
  induction is generalizing s with
  | nil => trivial
  | cons i is ih => exact ⟨⟨h.1, h'.1⟩, fun s' hstep => ih (h.2 s' hstep) (h'.2 s' hstep)⟩

theorem runOk_append {s t : σ} {is js : List ι} (hok : RunOk step Ok s (is ++ js))
    (hrun : run step s is = some t) : RunOk step Ok s is ∧ RunOk step Ok t js := by
  induction is generalizing s with
  | nil =>
    cases hrun
    exact ⟨trivial, hok⟩
  | cons i is ih =>
    obtain ⟨s', hstep, hrest⟩ := run_cons_some hrun
    obtain ⟨hfirst, hlast⟩ := ih (hok.2 s' hstep) hrest
    exact ⟨runOk_cons_of_step hok.1 hstep hfirst, hlast⟩

theorem run_map {τ : Type*} {κ : Type*} {step' : τ → κ → Option τ} {f : σ → τ} {g : ι → κ}
    (follows : ∀ s i s', step s i = some s' → step' (f s) (g i) = some (f s'))
    {s t : σ} {is : List ι} (hrun : run step s is = some t) :
    run step' (f s) (is.map g) = some (f t) := by
  induction is generalizing s with
  | nil =>
    cases hrun
    rfl
  | cons i is ih =>
    obtain ⟨s', hstep, hrest⟩ := run_cons_some hrun
    rw [List.map_cons, run_cons_of_step (follows s i s' hstep)]
    exact ih hrest

section Measure

variable {μ : σ → Nat}

theorem measure_le_of_run (mono : ∀ s i s', step s i = some s' → μ s ≤ μ s') {s t : σ}
    {is : List ι} (hrun : run step s is = some t) : μ s ≤ μ t := by
  induction is generalizing s with
  | nil =>
    cases hrun
    exact Nat.le_refl _
  | cons i is ih =>
    obtain ⟨s', hstep, hrest⟩ := run_cons_some hrun
    exact Nat.le_trans (mono s i s' hstep) (ih hrest)

theorem runOk_of_measure_le (mono : ∀ s i s', step s i = some s' → μ s ≤ μ s')
    {Rises : σ → ι → Prop} (rises : ∀ s i s', Rises s i → step s i = some s' → μ s < μ s')
    {s t : σ} {is : List ι} (hrun : run step s is = some t) (hle : μ t ≤ μ s) :
    RunOk step (fun s i => ¬ Rises s i) s is := by
  induction is generalizing s with
  | nil => trivial
  | cons i is ih =>
    obtain ⟨s', hstep, hrest⟩ := run_cons_some hrun
    have hfirst := mono s i s' hstep
    have hlast := measure_le_of_run mono hrest
    refine runOk_cons_of_step ?_ hstep (ih hrest (Nat.le_trans hle hfirst))
    intro hrises
    exact absurd (rises s i s' hrises hstep) (Nat.not_lt_of_le (Nat.le_trans hlast hle))

end Measure

end StepSystem
