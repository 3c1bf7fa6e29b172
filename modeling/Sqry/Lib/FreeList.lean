import Mathlib.Data.List.Nodup

/-!
Free lists threaded through the cells of an array. `link i = some next` says that
cell `i` is free and stores `next`; `link i = none` says that it is in use. A list
is complete when following the links from the head visits every free cell exactly
once and nothing else.
-/

namespace FreeList

/-- `path` is what following the links from `head` visits, to the end of the list. -/
def Chain (link : Nat → Option (Option Nat)) : Option Nat → List Nat → Prop
  | head, [] => head = none
  | head, i :: path => head = some i ∧ ∃ next, link i = some next ∧ Chain link next path

def Complete (link : Nat → Option (Option Nat)) (head : Option Nat) : Prop :=
  ∃ path, Chain link head path ∧ path.Nodup ∧ ∀ i, i ∈ path ↔ (link i).isSome

variable {link link' : Nat → Option (Option Nat)} {head : Option Nat}

theorem chain_congr {path : List Nat} (h : Chain link head path)
    (hl : ∀ i ∈ path, link' i = link i) :
    Chain link' head path := by
  induction path generalizing head with
  | nil => exact h
  | cons i path ih =>
    obtain ⟨hhead, next, hi, hrest⟩ := h
    refine ⟨hhead, next, ?_, ih hrest fun j hj => hl j (List.mem_cons_of_mem i hj)⟩
    rw [hl i List.mem_cons_self, hi]

theorem chain_none {link : Nat → Option (Option Nat)} {path : List Nat}
    (h : Chain link none path) : path = [] := by
  cases path with
  | nil => rfl
  | cons i path => exact absurd h.1 (by simp)

theorem complete_none_iff (link : Nat → Option (Option Nat)) :
    Complete link none ↔ ∀ i, link i = none := by
  constructor
  · rintro ⟨path, hchain, -, hmem⟩ i
    have hnil := chain_none hchain
    have hi : ¬ (link i).isSome = true := fun hs => by
      have := (hmem i).mpr hs
      simp [hnil] at this
    simpa using hi
  · intro hnone
    exact ⟨[], rfl, List.nodup_nil, fun i => by simp [hnone i]⟩

theorem complete_push {i : Nat} (h : Complete link head) (hused : link i = none)
    (hi : link' i = some head) (hrest : ∀ j, j ≠ i → link' j = link j)
    : Complete link' (some i) := by
  obtain ⟨path, hchain, hnodup, hmem⟩ := h
  have hnot : i ∉ path := fun hin => by
    have := (hmem i).mp hin
    simp [hused] at this
  have hne : ∀ j ∈ path, j ≠ i := fun j hj hji => hnot (hji ▸ hj)
  refine ⟨i :: path, ⟨rfl, head, hi, chain_congr hchain fun j hj => hrest j (hne j hj)⟩,
    List.nodup_cons.mpr ⟨hnot, hnodup⟩, ?_⟩
  intro j
  by_cases hji : j = i
  · simp [hji, hi]
  · simp [hji, hmem j, hrest j hji]

theorem complete_pop {i : Nat} {next : Option Nat} (h : Complete link (some i))
    (hi : link i = some next) (hused : link' i = none) (hrest : ∀ j, j ≠ i → link' j = link j)
    : Complete link' next := by
  obtain ⟨path, hchain, hnodup, hmem⟩ := h
  cases path with
  | nil => exact absurd hchain (by simp [Chain])
  | cons k path =>
    obtain ⟨hk, next', hnext', htail⟩ := hchain
    cases hk
    have hsame : next' = next := by
      rw [hi] at hnext'
      exact (Option.some.inj hnext').symm
    subst hsame
    obtain ⟨hnot, hnodup⟩ := List.nodup_cons.mp hnodup
    refine ⟨path, chain_congr htail fun j hj => hrest j fun hji => hnot (hji ▸ hj),
      hnodup, ?_⟩
    intro j
    by_cases hji : j = i
    · subst hji
      simp [hused, hnot]
    · have := hmem j
      simp only [List.mem_cons, hji, false_or] at this
      rw [this, hrest j hji]

theorem complete_congr (h : Complete link head) (hl : ∀ i, link' i = link i)
    : Complete link' head := by
  have : link' = link := funext hl
  rwa [this]

end FreeList
