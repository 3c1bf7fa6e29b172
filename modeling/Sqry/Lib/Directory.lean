import Mathlib.Data.List.AList

/-!
One directory of a POSIX file system: names for files, where two names may name one file.
A file is known by its identity while some name has it.
-/

namespace Directory

universe u v
variable {ν : Type u} {γ : Type v} [DecidableEq ν]

structure File (γ : Type v) where
  id : Nat
  content : γ
  deriving DecidableEq

end Directory

structure Directory (ν : Type u) (γ : Type v) [DecidableEq ν] where
  entries : AList fun _ : ν => Directory.File γ
  sameFile : ∀ {a b f g}, entries.lookup a = some f → entries.lookup b = some g →
    f.id = g.id → f = g

namespace Directory

universe u v
variable {ν : Type u} {γ : Type v} [DecidableEq ν] {d d' : Directory ν γ} {a b m : ν}
  {f g : File γ}

def get (d : Directory ν γ) (a : ν) : Option (File γ) := d.entries.lookup a

def names (d : Directory ν γ) : List ν := d.entries.keys

def empty : Directory ν γ where
  entries := ∅
  sameFile := by simp

def Free (d : Directory ν γ) (id : Nat) : Prop := ∀ e ∈ d.entries.entries, e.2.id ≠ id

instance (d : Directory ν γ) (id : Nat) : Decidable (d.Free id) :=
  inferInstanceAs (Decidable (∀ e ∈ d.entries.entries, e.2.id ≠ id))

@[simp] theorem get_empty (a : ν) : (empty : Directory ν γ).get a = none := rfl

theorem mem_names : a ∈ d.names ↔ ∃ f, d.get a = some f := by
  rw [names, ← AList.mem_keys, ← AList.lookup_isSome, Option.isSome_iff_exists]
  rfl

theorem same_of_id (hf : d.get a = some f) (hg : d.get b = some g) (h : f.id = g.id) : f = g :=
  d.sameFile hf hg h

theorem Free.id_ne {id : Nat} (h : d.Free id) (hf : d.get a = some f) : f.id ≠ id :=
  h ⟨a, f⟩ (AList.mem_lookup_iff.1 hf)

def create (d : Directory ν γ) (a : ν) (f : File γ) (h : d.Free f.id) : Directory ν γ where
  entries := d.entries.insert a f
  sameFile := by
    intro x y p q hp hq hid
    by_cases hx : x = a
    · subst hx
      rw [AList.lookup_insert] at hp
      cases hp
      by_cases hy : y = x
      · subst hy
        rw [AList.lookup_insert] at hq
        exact Option.some.inj hq
      · rw [AList.lookup_insert_ne hy] at hq
        exact absurd hid.symm (h.id_ne hq)
    · rw [AList.lookup_insert_ne hx] at hp
      by_cases hy : y = a
      · subst hy
        rw [AList.lookup_insert] at hq
        cases hq
        exact absurd hid (h.id_ne hp)
      · rw [AList.lookup_insert_ne hy] at hq
        exact d.sameFile hp hq hid

def unlink (d : Directory ν γ) (a : ν) : Directory ν γ where
  entries := d.entries.erase a
  sameFile := by
    intro x y p q hp hq hid
    have hx : x ≠ a := by
      intro h
      subst h
      rw [AList.lookup_erase] at hp
      cases hp
    have hy : y ≠ a := by
      intro h
      subst h
      rw [AList.lookup_erase] at hq
      cases hq
    rw [AList.lookup_erase_ne hx] at hp
    rw [AList.lookup_erase_ne hy] at hq
    exact d.sameFile hp hq hid

/-- A second name for the file of `a`. -/
def addName (d : Directory ν γ) (a b : ν) (f : File γ) (h : d.get a = some f) :
    Directory ν γ where
  entries := d.entries.insert b f
  sameFile := by
    intro x y p q hp hq hid
    have hsome : ∀ z r, (d.entries.insert b f).lookup z = some r → ∃ c, d.get c = some r := by
      intro z r hr
      by_cases hz : z = b
      · subst hz
        rw [AList.lookup_insert] at hr
        exact ⟨a, h.trans hr⟩
      · rw [AList.lookup_insert_ne hz] at hr
        exact ⟨z, hr⟩
    obtain ⟨c, hc⟩ := hsome x p hp
    obtain ⟨e, he⟩ := hsome y q hq
    exact same_of_id hc he hid

/-- `link`: refused when there is nothing to link or the new name is taken. -/
def link (d : Directory ν γ) (a b : ν) : Option (Directory ν γ) :=
  match h : d.get a with
  | none => none
  | some f => if (d.get b).isSome then none else some (d.addName a b f h)

/-- `rename`: refused when there is nothing to rename; nothing happens when both names
already name one file. -/
def rename (d : Directory ν γ) (a b : ν) : Option (Directory ν γ) :=
  match h : d.get a with
  | none => none
  | some f =>
    if (d.get b).map File.id = some f.id then some d else some ((d.addName a b f h).unlink a)

@[simp] theorem get_create (h : d.Free f.id) :
    (d.create a f h).get m = if m = a then some f else d.get m := by
  by_cases hm : m = a
  · subst hm
    simp [get, create]
  · simp [get, create, hm]

@[simp] theorem get_unlink : (d.unlink a).get m = if m = a then none else d.get m := by
  by_cases hm : m = a
  · subst hm
    simp [get, unlink]
  · simp [get, unlink, hm]

theorem get_addName (h : d.get a = some f) :
    (d.addName a b f h).get m = if m = b then some f else d.get m := by
  by_cases hm : m = b
  · subst hm
    simp [get, addName]
  · simp [get, addName, hm]

structure Changed (d : Directory ν γ) (a : ν) (f : Option (File γ)) (d' : Directory ν γ) :
    Prop where
  self : d'.get a = f
  others : ∀ {m}, m ≠ a → d'.get m = d.get m

theorem changed_create (h : d.Free f.id) : Changed d a (some f) (d.create a f h) :=
  ⟨by simp, fun hm => by simp [hm]⟩

theorem changed_unlink : Changed d a none (d.unlink a) :=
  ⟨by simp, fun hm => by simp [hm]⟩

theorem Changed.get_of_some {o : Option (File γ)} (h : Changed d a o d')
    (hm : d'.get m = some f) : m = a ∧ o = some f ∨ m ≠ a ∧ d.get m = some f := by
  by_cases hma : m = a
  · subst hma
    exact Or.inl ⟨rfl, h.self.symm.trans hm⟩
  · exact Or.inr ⟨hma, h.others hma ▸ hm⟩

theorem link_eq_some (h : d.link a b = some d') :
    d.get b = none ∧ ∃ f, d.get a = some f ∧ Changed d b (some f) d' := by
  rw [link] at h
  split at h
  · cases h
  · next f hf =>
    split at h
    · cases h
    · next hb =>
      cases h
      refine ⟨by simpa using hb, f, hf, ?_, fun hm => ?_⟩
      · simp [get_addName hf]
      · simp [get_addName hf, hm]

/-- What a rename leaves: the file under the new name, the old name gone or, where both
named one file, kept, and every other name as it was. -/
structure Renamed (d : Directory ν γ) (a b : ν) (d' : Directory ν γ) : Prop where
  source : ∃ f, d.get a = some f ∧ d'.get b = some f
  gone : d'.get a = none ∨ d'.get a = d.get a ∧ d.get b = d.get a
  others : ∀ m, m ≠ a → m ≠ b → d'.get m = d.get m

theorem rename_eq_some (h : d.rename a b = some d') : Renamed d a b d' := by
  rw [rename] at h
  split at h
  · cases h
  · next f hf =>
    split at h
    · next hid =>
      cases h
      obtain ⟨g, hg, hgid⟩ := Option.map_eq_some_iff.1 hid
      have heq : g = f := same_of_id hg hf hgid
      subst heq
      exact ⟨⟨g, hf, hg⟩, Or.inr ⟨rfl, hg.trans hf.symm⟩, fun _ _ _ => rfl⟩
    · next hid =>
      have hne : b ≠ a := by
        intro hba
        subst hba
        exact hid (by simp [hf])
      cases h
      refine ⟨⟨f, hf, ?_⟩, Or.inl (by simp), fun m hma hmb => ?_⟩
      · simp [get_addName hf, hne]
      · simp [get_addName hf, hma, hmb]

theorem rename_isSome : (d.rename a b).isSome = (d.get a).isSome := by
  rw [rename]
  split
  · next h => simp [h]
  · next f h =>
    have hsome : (d.get a).isSome = true := by simp [h]
    split <;> exact hsome.symm

theorem Renamed.present_of_target (h : Renamed d a b d') : (d'.get b).isSome := by
  obtain ⟨f, _, hb⟩ := h.source
  simp [hb]

theorem Renamed.get_of_some (h : Renamed d a b d') (hm : d'.get m = some f) :
    m = b ∨ d.get m = some f := by
  by_cases hb : m = b
  · exact Or.inl hb
  · by_cases ha : m = a
    · subst ha
      cases h.gone with
      | inl hnone => rw [hnone] at hm; cases hm
      | inr hkept => exact Or.inr (hkept.1 ▸ hm)
    · exact Or.inr (h.others m ha hb ▸ hm)

end Directory
