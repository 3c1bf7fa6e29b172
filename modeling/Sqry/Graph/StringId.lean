import Sqry.Graph.InternerInvariant
import Sqry.Lib.Delimited

/-!
Interned string identifiers as the edge kinds carry them, and the text that `Debug`
prints for them. The text tells identifiers apart.
-/

namespace Sqry

structure StringId where
  index : Nat
  index_le : index ≤ u32Max
  deriving DecidableEq, Repr

namespace StringId

def isInvalid (id : StringId) : Bool := id.index == u32Max

def isLocal (id : StringId) : Bool := !id.isInvalid && hasLocalTag id.index

/-- `self.0 & !LOCAL_TAG_BIT`. -/
def localIndex (id : StringId) : Nat := id.index &&& (u32Max - LOCAL_TAG_BIT)

/-- What `Debug` prints between the parentheses. -/
def inner (id : StringId) : List Char :=
  if id.isInvalid then "INVALID".toList
  else if id.isLocal then "local:".toList ++ Delimited.nat id.localIndex
  else Delimited.nat id.index

def debug (id : StringId) : List Char := Delimited.field "StringId(" id.inner [')']

theorem localIndex_eq (id : StringId) : id.localIndex = id.index % LOCAL_TAG_BIT := by
  have hmask : u32Max - LOCAL_TAG_BIT = 2 ^ 31 - 1 := by decide
  rw [localIndex, hmask, Nat.and_two_pow_sub_one_eq_mod]
  rfl

theorem le_index_of_isLocal {id : StringId} (h : id.isLocal = true) :
    LOCAL_TAG_BIT ≤ id.index := by
  by_contra hlt
  have htag := StringInterner.hasLocalTag_of_lt (Nat.lt_of_not_le hlt)
  simp [isLocal, htag] at h

theorem localIndex_inj {a b : StringId} (ha : a.isLocal = true) (hb : b.isLocal = true)
    (h : a.localIndex = b.localIndex) : a = b := by
  have hale := le_index_of_isLocal ha
  have hble := le_index_of_isLocal hb
  have hamax := a.index_le
  have hbmax := b.index_le
  rw [localIndex_eq, localIndex_eq] at h
  have hindex : a.index = b.index := by
    simp only [LOCAL_TAG_BIT, u32Max] at *
    omega
  cases a
  cases b
  cases hindex
  rfl

theorem ext_index {a b : StringId} (h : a.index = b.index) : a = b := by
  cases a
  cases b
  cases h
  rfl

theorem inner_cases (id : StringId) :
    (id.index = u32Max ∧ id.inner = "INVALID".toList) ∨
    (id.isLocal = true ∧ id.inner = "local:".toList ++ Delimited.nat id.localIndex) ∨
    (id.inner = Delimited.nat id.index) := by
  by_cases hinv : id.isInvalid = true
  · exact .inl ⟨by simpa [isInvalid] using hinv, by simp [inner, hinv]⟩
  · by_cases hloc : id.isLocal = true
    · exact .inr (.inl ⟨hloc, by simp [inner, hinv, hloc]⟩)
    · exact .inr (.inr (by simp [inner, hinv, hloc]))

theorem nat_append_ne {c : Char} (hc : c.isDigit = false) (n : Nat) (r s : List Char) :
    Delimited.nat n ++ r ≠ c :: s := by
  intro h
  cases hd : Delimited.nat n with
  | nil => exact absurd hd (by simp [Delimited.nat])
  | cons d ds =>
    have hmem : d ∈ Delimited.nat n := by rw [hd]; exact List.mem_cons_self
    have hdigit : d.isDigit = true :=
      Nat.isDigit_of_mem_toDigits (by decide) (by decide) hmem
    rw [hd] at h
    cases h
    rw [hc] at hdigit
    cases hdigit

theorem isDelimited_inner : Delimited.IsDelimited inner := by
  intro a b r s hr hs h
  rcases inner_cases a with ⟨ha, hta⟩ | ⟨ha, hta⟩ | hta
  · rcases inner_cases b with ⟨hb, htb⟩ | ⟨hb, htb⟩ | htb
    · rw [hta, htb] at h
      exact ⟨ext_index (ha.trans hb.symm), List.append_cancel_left h⟩
    · rw [hta, htb] at h
      cases h
    · rw [hta, htb] at h
      exact absurd h.symm (nat_append_ne (by decide) _ _ _)
  · rcases inner_cases b with ⟨hb, htb⟩ | ⟨hb, htb⟩ | htb
    · rw [hta, htb] at h
      cases h
    · rw [hta, htb, List.append_assoc, List.append_assoc] at h
      obtain ⟨hindex, hrest⟩ :=
        Delimited.isDelimited_nat _ _ r s hr hs (List.append_cancel_left h)
      exact ⟨localIndex_inj ha hb hindex, hrest⟩
    · rw [hta, htb] at h
      exact absurd h.symm (nat_append_ne (by decide) _ _ _)
  · rcases inner_cases b with ⟨hb, htb⟩ | ⟨hb, htb⟩ | htb
    · rw [hta, htb] at h
      exact absurd h (nat_append_ne (by decide) _ _ _)
    · rw [hta, htb] at h
      exact absurd h (nat_append_ne (by decide) _ _ _)
    · rw [hta, htb] at h
      obtain ⟨hindex, hrest⟩ := Delimited.isDelimited_nat _ _ r s hr hs h
      exact ⟨ext_index hindex, hrest⟩

theorem isDelimited_debug : Delimited.IsDelimited debug := by
  intro a b r s _ _ h
  have hparen : ∀ t : List Char, Delimited.Stops (')' :: t) :=
    Delimited.stops_cons (by decide)
  rw [debug, debug, Delimited.field_append, Delimited.field_append] at h
  obtain ⟨hab, hrest⟩ := Delimited.field_inj isDelimited_inner (hparen r) (hparen s) h
  exact ⟨hab, (List.cons.inj hrest).2⟩

end StringId
end Sqry
