import Mathlib.Data.List.Basic

/-!
Reading a vector from a position onwards. A run gives a value and the position behind it, fails,
indexes outside the vector, or has no steps left.
-/

namespace Sqry
namespace Cursor

inductive Reading (ε α : Type) where
  | ok (a : α) (position : Nat)
  | error (e : ε)
  | outside
  | noFuel
  deriving DecidableEq, Repr

variable {ε α β τ : Type}

namespace Reading

def andThen (r : Reading ε α) (next : α → Nat → Reading ε β) : Reading ε β :=
  match r with
  | .ok a position => next a position
  | .error e => .error e
  | .outside => .outside
  | .noFuel => .noFuel

/-- The run stays inside the vector and comes to an end, and what it gives is as `P` asks. -/
def Meets (P : α → Nat → Prop) : Reading ε α → Prop
  | .ok a position => P a position
  | .error _ => True
  | .outside => False
  | .noFuel => False

variable {r : Reading ε α}

@[simp] theorem andThen_ok (a : α) (position : Nat) (next : α → Nat → Reading ε β) :
    (ok a position).andThen next = next a position := rfl

theorem Meets.andThen {P : α → Nat → Prop} {next : α → Nat → Reading ε β} {Q : β → Nat → Prop}
    (h : r.Meets P) (hnext : ∀ a position, P a position → (next a position).Meets Q)
    : (r.andThen next).Meets Q := by
  cases r with
  | ok a position => exact hnext a position h
  | error e => trivial
  | outside | noFuel => cases h

theorem Meets.mono {P Q : α → Nat → Prop} (h : r.Meets P)
    (hle : ∀ a position, P a position → Q a position) : r.Meets Q := by
  cases r with
  | ok a position => exact hle a position h
  | error e => trivial
  | outside | noFuel => cases h

theorem Meets.ok_or_error {P : α → Nat → Prop} (h : r.Meets P) :
    (∃ a position, r = .ok a position ∧ P a position) ∨ ∃ e, r = .error e := by
  cases r with
  | ok a position => exact .inl ⟨a, position, rfl, h⟩
  | error e => exact .inr ⟨e, rfl⟩
  | outside | noFuel => cases h

end Reading

section Vector
variable {items : List τ}

/-- From `p` up to `q` the vector holds `part`. -/
structure Slice (items : List τ) (p : Nat) (part : List τ) (q : Nat) : Prop where
  drop_eq : items.drop p = part ++ items.drop q
  stop : q = p + part.length

theorem Slice.nil (p : Nat) : Slice items p [] p := ⟨rfl, rfl⟩

variable {item : τ} {p : Nat}

theorem Slice.single (h : items[p]? = some item) :
    Slice items p [item] (p + 1) := by
  obtain ⟨hlt, heq⟩ := List.getElem?_eq_some_iff.mp h
  refine ⟨?_, rfl⟩
  rw [List.drop_eq_getElem_cons hlt, heq]
  rfl

theorem Slice.append {p q r : Nat} {first second : List τ} (h : Slice items p first q)
    (h' : Slice items q second r) : Slice items p (first ++ second) r := by
  refine ⟨?_, ?_⟩
  · rw [h.drop_eq, h'.drop_eq, List.append_assoc]
  · rw [h'.stop, h.stop, List.length_append, Nat.add_assoc]

theorem Slice.cons {p q : Nat} {part : List τ} (h : items[p]? = some item)
    (h' : Slice items (p + 1) part q) : Slice items p (item :: part) q :=
  (Slice.single h).append h'

theorem Slice.concat {p q : Nat} {part : List τ} (h : Slice items p part q)
    (h' : items[q]? = some item) : Slice items p (part ++ [item]) (q + 1) :=
  h.append (.single h')

theorem getElem?_of_drop {rest : List τ} (h : items.drop p = item :: rest) :
    items[p]? = some item := by
  have hhead : (items.drop p)[0]? = some item := by rw [h]; rfl
  rwa [List.getElem?_drop, Nat.add_zero] at hhead

theorem drop_after {part rest : List τ} (h : items.drop p = part ++ rest) :
    items.drop (p + part.length) = rest := by
  rw [← List.drop_drop, h, List.drop_left]

theorem drop_succ {rest : List τ} (h : items.drop p = item :: rest) :
    items.drop (p + 1) = rest :=
  @drop_after τ items p [item] rest h

end Vector

end Cursor
end Sqry
