import Mathlib.Data.List.AList

/-!
A table that remembers values of a function: every entry is the value of its key. A lookup
then stands for a computation, and computed values may be added.
-/

namespace MemoTable

universe u v
variable {κ : Type u} {ω : Type v} [DecidableEq κ]

abbrev Table (κ : Type u) (ω : Type v) := AList fun _ : κ => ω

def Agrees (f : κ → ω) (table : Table κ ω) : Prop :=
  ∀ key value, table.lookup key = some value → value = f key

variable {f : κ → ω} {table : Table κ ω}

theorem agrees_empty : Agrees f ∅ := by
  intro key value h
  rw [AList.lookup_empty] at h
  cases h

theorem agrees_insert {key : κ} {value : ω} (h : Agrees f table) (hvalue : value = f key) :
    Agrees f (table.insert key value) := by
  intro key' value' hlookup
  by_cases hkey : key' = key
  · rw [hkey, AList.lookup_insert] at hlookup
    rw [← Option.some.inj hlookup, hkey, hvalue]
  · rw [AList.lookup_insert_ne hkey] at hlookup
    exact h key' value' hlookup

def fetch (compute : κ → ω) (key : κ) (table : Table κ ω) : ω × Table κ ω :=
  match table.lookup key with
  | some value => (value, table)
  | none => (compute key, table.insert key (compute key))

theorem fetch_fst (h : Agrees f table) (key : κ) : (fetch f key table).1 = f key := by
  rw [fetch]
  cases hlookup : table.lookup key with
  | some value => exact h key value hlookup
  | none => rfl

theorem agrees_fetch (h : Agrees f table) (key : κ) : Agrees f (fetch f key table).2 := by
  rw [fetch]
  cases table.lookup key with
  | some value => exact h
  | none => exact agrees_insert h rfl

end MemoTable
