import Sqry.Lib.UpTo
import Sqry.Planner.Ir

/-!
The comparison of conditions of conditional compilation. Both sides are brought to a form
without nesting of one kind, repetitions and compounds of one operand, and compared as sets.
-/

namespace Sqry
namespace CfgAst

mutual

/-- Compounds are compared by `set_equals`: as many operands, and each is found. -/
def structEquals : CfgAst → CfgAst → Bool
  | .flag x, .flag y => x = y
  | .not x, .not y => structEquals x y
  | .all xs, .all ys => if xs.length ≠ ys.length then false else allFound xs ys
  | .any xs, .any ys => if xs.length ≠ ys.length then false else allFound xs ys
  | _, _ => false

def allFound : List CfgAst → List CfgAst → Bool
  | [], _ => true
  | x :: xs, ys => (ys.any fun y => structEquals x y) && allFound xs ys

end

def setEquals (xs ys : List CfgAst) : Bool :=
  if xs.length ≠ ys.length then false else allFound xs ys

def compound (isAll : Bool) (items : List CfgAst) : CfgAst :=
  if isAll then .all items else .any items

def spliced (isAll : Bool) : CfgAst → List CfgAst
  | .all items => if isAll then items else [.all items]
  | .any items => if isAll then [.any items] else items
  | other => [other]

/-- The end of `canonical_compound`. -/
def collapse (isAll : Bool) : List CfgAst → CfgAst
  | [item] => item
  | uniq => compound isAll uniq

mutual

def canonical : CfgAst → CfgAst
  | .flag name => .flag name
  | .not inner => .not (canonical inner)
  | .all items => collapse true (canonicalItems true items [])
  | .any items => collapse false (canonicalItems false items [])

/-- The loop of `canonical_compound`. -/
def canonicalItems (isAll : Bool) : List CfgAst → List CfgAst → List CfgAst
  | [], uniq => uniq
  | item :: items, uniq =>
    canonicalItems isAll items (UpTo.addAll structEquals uniq (spliced isAll (canonical item)))

end

def canonicalCompound (isAll : Bool) (items : List CfgAst) : CfgAst :=
  collapse isAll (canonicalItems isAll items [])

def semanticallyEquals (a b : CfgAst) : Bool := structEquals a.canonical b.canonical

/-- Equality modulo associativity, commutativity and idempotence of the compounds, and the
collapse of compounds of one operand. -/
inductive EqualModulo : CfgAst → CfgAst → Prop where
  | refl (a : CfgAst) : EqualModulo a a
  | symm {a b : CfgAst} : EqualModulo a b → EqualModulo b a
  | trans {a b c : CfgAst} : EqualModulo a b → EqualModulo b c → EqualModulo a c
  | not {a b : CfgAst} : EqualModulo a b → EqualModulo (.not a) (.not b)
  | operand {isAll : Bool} {a b : CfgAst} (items : List CfgAst) : EqualModulo a b →
      EqualModulo (compound isAll (a :: items)) (compound isAll (b :: items))
  | perm {isAll : Bool} {items items' : List CfgAst} : items.Perm items' →
      EqualModulo (compound isAll items) (compound isAll items')
  | assoc {isAll : Bool} (nested items : List CfgAst) :
      EqualModulo (compound isAll (compound isAll nested :: items))
        (compound isAll (nested ++ items))
  | idem {isAll : Bool} (a : CfgAst) (items : List CfgAst) :
      EqualModulo (compound isAll (a :: a :: items)) (compound isAll (a :: items))
  | single {isAll : Bool} (a : CfgAst) : EqualModulo (compound isAll [a]) a

mutual

def truth (flags : String → Bool) : CfgAst → Bool
  | .flag name => flags name
  | .not inner => !truth flags inner
  | .all items => truthAll flags items
  | .any items => truthAny flags items

def truthAll (flags : String → Bool) : List CfgAst → Bool
  | [] => true
  | item :: items => truth flags item && truthAll flags items

def truthAny (flags : String → Bool) : List CfgAst → Bool
  | [] => false
  | item :: items => truth flags item || truthAny flags items

end

structure DecidesEquality : Prop where
  equivalence : Equivalence fun a b => semanticallyEquals a b = true
  not_congr : ∀ a b, semanticallyEquals a b = true → semanticallyEquals (.not a) (.not b) = true
  all_congr : ∀ as bs, List.Forall₂ (fun a b => semanticallyEquals a b = true) as bs →
    semanticallyEquals (.all as) (.all bs) = true
  any_congr : ∀ as bs, List.Forall₂ (fun a b => semanticallyEquals a b = true) as bs →
    semanticallyEquals (.any as) (.any bs) = true
  iff_equalModulo : ∀ a b, semanticallyEquals a b = true ↔ EqualModulo a b
  same_truth : ∀ a b, semanticallyEquals a b = true → ∀ flags, truth flags a = truth flags b
  idempotent : ∀ a, canonical (canonical a) = canonical a

def Is (isAll : Bool) (a : CfgAst) : Prop := ∃ items, a = compound isAll items

inductive Canonical : CfgAst → Prop where
  | flag (name : String) : Canonical (.flag name)
  | not {a : CfgAst} : Canonical a → Canonical (.not a)
  | all {items : List CfgAst} : (∀ x ∈ items, Canonical x) → (∀ x ∈ items, ¬ Is true x) →
      items.length ≠ 1 → UpTo.Apart structEquals items → Canonical (.all items)
  | any {items : List CfgAst} : (∀ x ∈ items, Canonical x) → (∀ x ∈ items, ¬ Is false x) →
      items.length ≠ 1 → UpTo.Apart structEquals items → Canonical (.any items)

section Shape
variable {isAll : Bool} {a b : CfgAst} {items xs ys : List CfgAst}

theorem inductOnCompound {motive : CfgAst → Prop} (a : CfgAst) (flag : ∀ name, motive (.flag name))
    (not : ∀ a, motive a → motive (.not a))
    (compound : ∀ isAll items, (∀ x ∈ items, motive x) → motive (compound isAll items)) :
    motive a :=
  inductOn a flag not (compound true) (compound false)

theorem allFound_iff : allFound xs ys = true ↔ UpTo.Within structEquals xs ys := by
  induction xs with
  | nil =>
    refine ⟨fun _ x hx => ?_, fun _ => rfl⟩
    cases hx
  | cons x xs ih =>
    rw [allFound, Bool.and_eq_true, List.any_eq_true, ih, UpTo.Within, UpTo.Within,
      List.forall_mem_cons]

theorem structEquals_compound :
    structEquals (compound isAll xs) (compound isAll ys) = true ↔
      xs.length = ys.length ∧ UpTo.Within structEquals xs ys := by
  have hset : structEquals (compound isAll xs) (compound isAll ys) = setEquals xs ys := by
    cases isAll with
    | true => rfl
    | false => rfl
  rw [hset, setEquals]
  by_cases hlength : xs.length = ys.length
  · rw [if_neg (not_not_intro hlength), allFound_iff]
    exact ⟨fun h => ⟨hlength, h⟩, fun h => h.2⟩
  · rw [if_pos hlength]
    exact ⟨fun h => Bool.noConfusion h, fun h => absurd h.1 hlength⟩

theorem exists_of_structEquals_compound (h : structEquals (compound isAll xs) b = true) :
    ∃ ys, b = compound isAll ys ∧ xs.length = ys.length ∧ UpTo.Within structEquals xs ys := by
  have hkind : ∃ ys, b = compound isAll ys := by
    cases isAll with
    | true =>
      cases b with
      | all ys => exact ⟨ys, rfl⟩
      | flag _ | not _ | any _ => cases h
    | false =>
      cases b with
      | any ys => exact ⟨ys, rfl⟩
      | flag _ | not _ | all _ => cases h
  obtain ⟨ys, hb⟩ := hkind
  rw [hb] at h
  exact ⟨ys, hb, structEquals_compound.mp h⟩

theorem is_of_structEquals (h : structEquals a b = true) (hb : Is isAll b) : Is isAll a := by
  obtain ⟨ys, hb⟩ := hb
  rw [hb] at h
  cases isAll with
  | true =>
    cases a with
    | all xs => exact ⟨xs, rfl⟩
    | flag _ | not _ | any _ => cases h
  | false =>
    cases a with
    | any xs => exact ⟨xs, rfl⟩
    | flag _ | not _ | all _ => cases h

theorem spliced_compound : spliced isAll (compound isAll items) = items := by
  cases isAll with
  | true => rfl
  | false => rfl

theorem spliced_of_not_is (h : ¬ Is isAll a) : spliced isAll a = [a] := by
  cases a with
  | flag _ | not _ => rfl
  | all items =>
    cases isAll with
    | true => exact absurd ⟨items, rfl⟩ h
    | false => rfl
  | any items =>
    cases isAll with
    | true => rfl
    | false => exact absurd ⟨items, rfl⟩ h

theorem collapse_of_length (h : items.length ≠ 1) : collapse isAll items = compound isAll items := by
  cases items with
  | nil => rfl
  | cons x items =>
    cases items with
    | nil => exact absurd rfl h
    | cons y items => rfl

theorem spliced_collapse (h : ∀ x ∈ items, ¬ Is isAll x) :
    spliced isAll (collapse isAll items) = items := by
  by_cases hlength : items.length = 1
  · obtain ⟨x, hx⟩ := List.length_eq_one_iff.mp hlength
    rw [hx] at h ⊢
    exact spliced_of_not_is (h x (List.mem_singleton_self x))
  · rw [collapse_of_length hlength, spliced_compound]

def operands (isAll : Bool) (items : List CfgAst) : List CfgAst :=
  items.flatMap fun item => spliced isAll (canonical item)

theorem canonicalItems_eq (items uniq : List CfgAst) :
    canonicalItems isAll items uniq = UpTo.addAll structEquals uniq (operands isAll items) := by
  induction items generalizing uniq with
  | nil => rfl
  | cons item items ih =>
    rw [canonicalItems, ih, operands, operands, List.flatMap_cons, UpTo.addAll_append]

theorem canonical_compound (isAll : Bool) (items : List CfgAst) :
    canonical (compound isAll items) =
      collapse isAll (UpTo.addAll structEquals [] (operands isAll items)) := by
  have hcompound : canonical (compound isAll items) = canonicalCompound isAll items := by
    cases isAll with
    | true => rw [canonicalCompound]; rfl
    | false => rw [canonicalCompound]; rfl
  rw [hcompound, canonicalCompound, canonicalItems_eq]

end Shape

section Canonical
variable {isAll : Bool} {a b c : CfgAst} {xs ys : List CfgAst}

theorem canonical_compound_iff {items : List CfgAst} :
    Canonical (compound isAll items) ↔ (∀ x ∈ items, Canonical x) ∧ (∀ x ∈ items, ¬ Is isAll x) ∧
      items.length ≠ 1 ∧ UpTo.Apart structEquals items := by
  cases isAll with
  | true =>
    constructor
    · intro h
      cases h with
      | all hall hnot hlength hapart => exact ⟨hall, hnot, hlength, hapart⟩
    · intro ⟨hall, hnot, hlength, hapart⟩
      exact .all hall hnot hlength hapart
  | false =>
    constructor
    · intro h
      cases h with
      | any hall hnot hlength hapart => exact ⟨hall, hnot, hlength, hapart⟩
    · intro ⟨hall, hnot, hlength, hapart⟩
      exact .any hall hnot hlength hapart

theorem structEquals_refl (a : CfgAst) : structEquals a a = true := by
  induction a using inductOnCompound with
  | flag name => simp [structEquals]
  | not a ih => exact ih
  | compound isAll items ih =>
    exact structEquals_compound.mpr ⟨rfl, fun x hx => ⟨x, hx, ih x hx⟩⟩

theorem exists_of_structEquals_not (h : structEquals (.not a) b = true) :
    ∃ b', b = .not b' ∧ structEquals a b' = true := by
  cases b with
  | not b' => exact ⟨b', rfl, h⟩
  | flag _ | all _ | any _ => cases h

theorem eq_of_structEquals_flag {name : String} (h : structEquals (.flag name) b = true) :
    b = .flag name := by
  cases b with
  | flag name' => rw [of_decide_eq_true h]
  | not _ | all _ | any _ => cases h

structure Compares (a : CfgAst) : Prop where
  symm : ∀ b, Canonical b → structEquals a b = true → structEquals b a = true
  trans : ∀ b c, Canonical b → Canonical c → structEquals a b = true → structEquals b c = true →
    structEquals a c = true

theorem compares_flag (name : String) : Compares (.flag name) := by
  refine ⟨fun b _ h => ?_, fun b c _ _ hab hbc => ?_⟩
  · rw [eq_of_structEquals_flag h]
    exact structEquals_refl (.flag name)
  · rw [eq_of_structEquals_flag hab] at hbc
    exact hbc

theorem Canonical.of_not (h : Canonical (.not a)) : Canonical a := by
  cases h with
  | not h => exact h

theorem Compares.not (h : Compares a) : Compares (.not a) := by
  refine ⟨fun b hb heq => ?_, fun b c hb hc hab hbc => ?_⟩
  · obtain ⟨b', hb', heq'⟩ := exists_of_structEquals_not heq
    rw [hb'] at hb ⊢
    exact h.symm b' hb.of_not heq'
  · obtain ⟨b', hb', hab'⟩ := exists_of_structEquals_not hab
    rw [hb'] at hb hbc
    obtain ⟨c', hc', hbc'⟩ := exists_of_structEquals_not hbc
    rw [hc'] at hc ⊢
    exact h.trans b' c' hb.of_not hc.of_not hab' hbc'

theorem compares_compound {items : List CfgAst} (h : Canonical (compound isAll items))
    (ih : ∀ x ∈ items, Compares x) : Compares (compound isAll items) := by
  obtain ⟨hall, _, _, hapart⟩ := canonical_compound_iff.mp h
  refine ⟨fun b hb heq => ?_, fun b c hb hc hab hbc => ?_⟩
  · obtain ⟨ys, hys, hlength, hwithin⟩ := exists_of_structEquals_compound heq
    rw [hys] at hb ⊢
    obtain ⟨hball, _⟩ := canonical_compound_iff.mp hb
    have hsep : UpTo.Separated structEquals items ys := by
      refine hapart.imp_of_mem fun {x x'} hx hx' hfalse y hy hxy => ?_
      cases hback : structEquals x' y with
      | false => rfl
      | true =>
        have hyx := (ih x' hx').symm y (hball y hy) hback
        have hboth := (ih x hx).trans y x' (hball y hy) (hall x' hx') hxy hyx
        rw [hfalse] at hboth
        cases hboth
    obtain ⟨zs, hperm, hmatch⟩ := hsep.exists_perm hwithin hlength
    refine structEquals_compound.mpr ⟨hlength.symm, fun y hy => ?_⟩
    obtain ⟨x, hx, hxy⟩ := UpTo.exists_partner hmatch (hperm.mem_iff.mpr hy)
    exact ⟨x, hx, (ih x hx).symm y (hball y hy) hxy⟩
  · obtain ⟨ys, hys, hlength, hwithin⟩ := exists_of_structEquals_compound hab
    rw [hys] at hb hbc
    obtain ⟨zs, hzs, hlength', hwithin'⟩ := exists_of_structEquals_compound hbc
    rw [hzs] at hc ⊢
    obtain ⟨hball, _⟩ := canonical_compound_iff.mp hb
    obtain ⟨hcall, _⟩ := canonical_compound_iff.mp hc
    refine structEquals_compound.mpr ⟨hlength.trans hlength', fun x hx => ?_⟩
    obtain ⟨y, hy, hxy⟩ := hwithin x hx
    obtain ⟨z, hz, hyz⟩ := hwithin' y hy
    exact ⟨z, hz, (ih x hx).trans y z (hball y hy) (hcall z hz) hxy hyz⟩

theorem compares_of_canonical (h : Canonical a) : Compares a := by
  induction a using inductOnCompound with
  | flag name => exact compares_flag name
  | not a ih => exact (ih h.of_not).not
  | compound isAll items ih =>
    exact compares_compound h fun x hx => ih x hx ((canonical_compound_iff.mp h).1 x hx)

theorem equivalenceOn_canonical : UpTo.EquivalenceOn structEquals Canonical where
  refl := fun x _ => structEquals_refl x
  symm := fun _ y hx hy h => (compares_of_canonical hx).symm y hy h
  trans := fun _ y z hx hy hz h h' => (compares_of_canonical hx).trans y z hy hz h h'

theorem canonical_collapse (hall : ∀ x ∈ xs, Canonical x) (hnot : ∀ x ∈ xs, ¬ Is isAll x)
    (hapart : UpTo.Apart structEquals xs) : Canonical (collapse isAll xs) := by
  by_cases hlength : xs.length = 1
  · obtain ⟨x, hx⟩ := List.length_eq_one_iff.mp hlength
    rw [hx] at hall ⊢
    exact hall x (List.mem_singleton_self x)
  · rw [collapse_of_length hlength]
    exact canonical_compound_iff.mpr ⟨hall, hnot, hlength, hapart⟩

theorem mem_spliced (ha : Canonical a) {x : CfgAst} (hx : x ∈ spliced isAll a) :
    Canonical x ∧ ¬ Is isAll x := by
  by_cases his : Is isAll a
  · obtain ⟨items, heq⟩ := his
    rw [heq] at ha hx
    rw [spliced_compound] at hx
    obtain ⟨hall, hnot, _, _⟩ := canonical_compound_iff.mp ha
    exact ⟨hall x hx, hnot x hx⟩
  · rw [spliced_of_not_is his, List.mem_singleton] at hx
    rw [hx]
    exact ⟨ha, his⟩

theorem mem_operands (h : ∀ x ∈ xs, Canonical (canonical x)) {x : CfgAst}
    (hx : x ∈ operands isAll xs) : Canonical x ∧ ¬ Is isAll x := by
  obtain ⟨item, hitem, hmem⟩ := List.mem_flatMap.mp hx
  exact mem_spliced (h item hitem) hmem

theorem mem_addAll_operands (h : ∀ x ∈ xs, Canonical (canonical x)) {x : CfgAst}
    (hx : x ∈ UpTo.addAll structEquals [] (operands isAll xs)) : Canonical x ∧ ¬ Is isAll x :=
  mem_operands h ((UpTo.mem_of_mem_addAll hx).resolve_left List.not_mem_nil)

theorem apart_addAll (xs : List CfgAst) :
    UpTo.Apart structEquals (UpTo.addAll structEquals [] xs) :=
  UpTo.Apart.addAll .nil

theorem canonical_canonical (a : CfgAst) : Canonical (canonical a) := by
  induction a using inductOnCompound with
  | flag name => exact .flag name
  | not a ih => exact .not ih
  | compound isAll items ih =>
    rw [canonical_compound]
    exact canonical_collapse (fun x hx => (mem_addAll_operands ih hx).1)
      (fun x hx => (mem_addAll_operands ih hx).2) (apart_addAll _)

theorem canonical_of_canonical (h : Canonical a) : canonical a = a := by
  induction a using inductOnCompound with
  | flag name => rfl
  | not a ih => exact congrArg CfgAst.not (ih h.of_not)
  | compound isAll items ih =>
    obtain ⟨hall, hnot, hlength, hapart⟩ := canonical_compound_iff.mp h
    have hoperands : operands isAll items = items := by
      have hself : ∀ x ∈ items, spliced isAll (canonical x) = [x] := by
        intro x hx
        rw [ih x hx (hall x hx), spliced_of_not_is (hnot x hx)]
      rw [operands, List.flatMap_congr hself]
      exact List.flatMap_singleton' items
    have hadd : UpTo.addAll structEquals [] items = items := UpTo.addAll_of_apart hapart
    rw [canonical_compound, hoperands, hadd, collapse_of_length hlength]

end Canonical

section Sound
variable {isAll : Bool} {a b : CfgAst} {items xs ys : List CfgAst}

theorem EqualModulo.congr {rest : List CfgAst} (h : List.Forall₂ EqualModulo xs ys) :
    EqualModulo (compound isAll (xs ++ rest)) (compound isAll (ys ++ rest)) := by
  induction h generalizing rest with
  | nil => exact .refl _
  | @cons x y xs ys hxy _ ih =>
    have hhead : EqualModulo (compound isAll (x :: (xs ++ rest)))
        (compound isAll (y :: (xs ++ rest))) := .operand _ hxy
    have hback : EqualModulo (compound isAll (y :: (xs ++ rest)))
        (compound isAll (xs ++ y :: rest)) := .perm List.perm_middle.symm
    have hfront : EqualModulo (compound isAll (ys ++ y :: rest))
        (compound isAll (y :: (ys ++ rest))) := .perm List.perm_middle
    exact hhead.trans (hback.trans (ih.trans hfront))

theorem EqualModulo.congr_items (h : List.Forall₂ EqualModulo xs ys) :
    EqualModulo (compound isAll xs) (compound isAll ys) := by
  have happend := @EqualModulo.congr isAll xs ys [] h
  rw [List.append_nil, List.append_nil] at happend
  exact happend

theorem equalModulo_of_structEquals (ha : Canonical a) (hb : Canonical b)
    (h : structEquals a b = true) : EqualModulo a b := by
  induction a using inductOnCompound generalizing b with
  | flag name =>
    rw [eq_of_structEquals_flag h]
    exact .refl _
  | not a ih =>
    obtain ⟨b', hb', heq⟩ := exists_of_structEquals_not h
    rw [hb'] at hb ⊢
    exact .not (ih ha.of_not hb.of_not heq)
  | compound isAll items ih =>
    obtain ⟨ys, hys, hlength, hwithin⟩ := exists_of_structEquals_compound h
    rw [hys] at hb ⊢
    obtain ⟨hall, _, _, hapart⟩ := canonical_compound_iff.mp ha
    obtain ⟨hball, _⟩ := canonical_compound_iff.mp hb
    have hsep := hapart.separated equivalenceOn_canonical hall hball
    obtain ⟨zs, hperm, hmatch⟩ := hsep.exists_perm hwithin hlength
    have hitems := UpTo.forall₂_imp_of_mem hmatch fun x hx z hz hsame =>
      ih x hx (hall x hx) (hball z (hperm.mem_iff.mp hz)) hsame
    exact (EqualModulo.congr_items hitems).trans (.perm hperm)

theorem EqualModulo.splice {rest : List CfgAst} :
    EqualModulo (compound isAll (xs ++ rest)) (compound isAll (xs.flatMap (spliced isAll) ++ rest)) := by
  induction xs generalizing rest with
  | nil => exact .refl _
  | cons x xs ih =>
    have hhead : EqualModulo (compound isAll (x :: (xs ++ rest)))
        (compound isAll (spliced isAll x ++ (xs ++ rest))) := by
      by_cases his : Is isAll x
      · obtain ⟨items, hx⟩ := his
        rw [hx, spliced_compound]
        exact .assoc items (xs ++ rest)
      · rw [spliced_of_not_is his]
        exact .refl _
    have hback : EqualModulo (compound isAll (spliced isAll x ++ (xs ++ rest)))
        (compound isAll (xs ++ (spliced isAll x ++ rest))) := by
      refine .perm ?_
      rw [← List.append_assoc, ← List.append_assoc]
      exact List.perm_append_comm.append_right rest
    have hfront : EqualModulo
        (compound isAll (xs.flatMap (spliced isAll) ++ (spliced isAll x ++ rest)))
        (compound isAll ((x :: xs).flatMap (spliced isAll) ++ rest)) := by
      refine .perm ?_
      rw [List.flatMap_cons, ← List.append_assoc]
      exact List.perm_append_comm.append_right rest
    exact hhead.trans (hback.trans (ih.trans hfront))

theorem EqualModulo.drop {x y : CfgAst} (h : EqualModulo x y) (hy : y ∈ xs) :
    EqualModulo (compound isAll (x :: xs)) (compound isAll xs) := by
  obtain ⟨front, back, heq⟩ := List.append_of_mem hy
  have hperm : xs.Perm (y :: (front ++ back)) := by
    rw [heq]
    exact List.perm_middle
  have hboth : EqualModulo (compound isAll (x :: xs)) (compound isAll (x :: y :: (front ++ back))) :=
    .perm (hperm.cons x)
  exact hboth.trans ((EqualModulo.operand _ h).trans ((EqualModulo.idem y _).trans
    (.perm hperm.symm)))

theorem EqualModulo.addAll {found : List CfgAst} (hfound : ∀ x ∈ found, Canonical x)
    (hxs : ∀ x ∈ xs, Canonical x) :
    EqualModulo (compound isAll (found ++ xs))
      (compound isAll (UpTo.addAll structEquals found xs)) := by
  induction xs generalizing found with
  | nil =>
    rw [List.append_nil]
    exact .refl _
  | cons x xs ih =>
    have hx := hxs x List.mem_cons_self
    have hrest : ∀ z ∈ xs, Canonical z := fun z hz => hxs z (List.mem_cons_of_mem x hz)
    have hadd : ∀ z ∈ UpTo.addNew structEquals found x, Canonical z := by
      intro z hz
      exact (UpTo.mem_or_eq_of_mem_addNew hz).elim (hfound z) fun heq => heq ▸ hx
    refine EqualModulo.trans ?_ (ih hadd hrest)
    rw [UpTo.addNew]
    cases hany : found.any fun y => structEquals y x with
    | true =>
      obtain ⟨y, hy, hyx⟩ := List.any_eq_true.mp hany
      have hsame := (equalModulo_of_structEquals (hfound y hy) hx hyx).symm
      have hfirst : EqualModulo (compound isAll (found ++ x :: xs))
          (compound isAll (x :: (found ++ xs))) := .perm List.perm_middle
      exact hfirst.trans (hsame.drop (List.mem_append_left xs hy))
    | false =>
      rw [if_neg Bool.false_ne_true, List.append_assoc]
      exact .refl _

theorem EqualModulo.collapse (xs : List CfgAst) :
    EqualModulo (compound isAll xs) (CfgAst.collapse isAll xs) := by
  by_cases hlength : xs.length = 1
  · obtain ⟨x, hx⟩ := List.length_eq_one_iff.mp hlength
    rw [hx]
    exact .single x
  · rw [collapse_of_length hlength]
    exact .refl _

theorem equalModulo_canonical (a : CfgAst) : EqualModulo a (canonical a) := by
  induction a using inductOnCompound with
  | flag name => exact .refl _
  | not a ih => exact .not ih
  | compound isAll items ih =>
    have hcanonical : List.Forall₂ EqualModulo items (items.map canonical) := by
      refine List.forall₂_map_right_iff.mpr ?_
      exact List.forall₂_same.mpr ih
    have hsplice := @EqualModulo.splice isAll (items.map canonical) []
    rw [List.append_nil, List.append_nil, List.flatMap_map] at hsplice
    have hadd : EqualModulo (compound isAll (operands isAll items))
        (compound isAll (UpTo.addAll structEquals [] (operands isAll items))) := by
      refine EqualModulo.addAll (fun x hx => absurd hx List.not_mem_nil) fun x hx => ?_
      exact (mem_operands (fun x _ => canonical_canonical x) hx).1
    rw [canonical_compound]
    exact (EqualModulo.congr_items hcanonical).trans (hsplice.trans (hadd.trans (.collapse _)))

end Sound

section Complete
variable {isAll : Bool} {a b : CfgAst} {items xs ys : List CfgAst}

theorem structEquals_collapse_addAll (hxs : ∀ x ∈ xs, Canonical x) (hys : ∀ y ∈ ys, Canonical y)
    (h : UpTo.Within structEquals xs ys) (h' : UpTo.Within structEquals ys xs) :
    structEquals (collapse isAll (UpTo.addAll structEquals [] xs))
      (collapse isAll (UpTo.addAll structEquals [] ys)) = true := by
  have hwithin := h.addAll equivalenceOn_canonical hxs hys
  have hwithin' := h'.addAll equivalenceOn_canonical hys hxs
  have hall : ∀ x ∈ UpTo.addAll structEquals [] xs, Canonical x := fun x hx =>
    hxs x ((UpTo.mem_of_mem_addAll hx).resolve_left List.not_mem_nil)
  have hall' : ∀ y ∈ UpTo.addAll structEquals [] ys, Canonical y := fun y hy =>
    hys y ((UpTo.mem_of_mem_addAll hy).resolve_left List.not_mem_nil)
  have hsep := (apart_addAll xs).separated equivalenceOn_canonical hall hall'
  have hsep' := (apart_addAll ys).separated equivalenceOn_canonical hall' hall
  have hlength := Nat.le_antisymm (hsep.length_le hwithin) (hsep'.length_le hwithin')
  generalize UpTo.addAll structEquals [] xs = uniq at hwithin hlength ⊢
  generalize UpTo.addAll structEquals [] ys = uniq' at hwithin hlength ⊢
  by_cases hone : uniq.length = 1
  · obtain ⟨x, hx⟩ := List.length_eq_one_iff.mp hone
    obtain ⟨y, hy⟩ := List.length_eq_one_iff.mp (hlength.symm.trans hone)
    rw [hx, hy] at hwithin
    obtain ⟨y', hy', hxy⟩ := hwithin x (List.mem_singleton_self x)
    rw [List.mem_singleton.mp hy'] at hxy
    rw [hx, hy]
    exact hxy
  · rw [collapse_of_length hone, collapse_of_length (hlength ▸ hone)]
    exact structEquals_compound.mpr ⟨hlength, hwithin⟩

theorem within_spliced (h : structEquals a b = true) :
    UpTo.Within structEquals (spliced isAll a) (spliced isAll b) := by
  by_cases his : Is isAll a
  · obtain ⟨xs, ha⟩ := his
    rw [ha] at h ⊢
    obtain ⟨ys, hb, _, hwithin⟩ := exists_of_structEquals_compound h
    rw [hb, spliced_compound, spliced_compound]
    exact hwithin
  · have hb : ¬ Is isAll b := fun hb => his (is_of_structEquals h hb)
    rw [spliced_of_not_is his, spliced_of_not_is hb]
    intro x hx
    rw [List.mem_singleton.mp hx]
    exact ⟨b, List.mem_singleton_self b, h⟩

theorem canonical_of_mem_operands {x : CfgAst} (hx : x ∈ operands isAll xs) : Canonical x :=
  (mem_operands (fun y _ => canonical_canonical y) hx).1

theorem structEquals_canonical_compound
    (h : UpTo.Within structEquals (operands isAll xs) (operands isAll ys))
    (h' : UpTo.Within structEquals (operands isAll ys) (operands isAll xs)) :
    structEquals (canonical (compound isAll xs)) (canonical (compound isAll ys)) = true := by
  rw [canonical_compound, canonical_compound]
  exact structEquals_collapse_addAll (fun x hx => canonical_of_mem_operands hx)
    (fun y hy => canonical_of_mem_operands hy) h h'

theorem within_operands_of_subset (h : operands isAll xs ⊆ operands isAll ys) :
    UpTo.Within structEquals (operands isAll xs) (operands isAll ys) :=
  UpTo.within_of_subset equivalenceOn_canonical (fun _ hx => canonical_of_mem_operands hx) h

theorem within_operands_cons (h : structEquals (canonical a) (canonical b) = true)
    (items : List CfgAst) :
    UpTo.Within structEquals (operands isAll (a :: items)) (operands isAll (b :: items)) := by
  intro x hx
  rw [operands, List.flatMap_cons, List.mem_append] at hx
  rw [operands, List.flatMap_cons]
  cases hx with
  | inl hfirst =>
    obtain ⟨y, hy, hxy⟩ := within_spliced h x hfirst
    exact ⟨y, List.mem_append_left _ hy, hxy⟩
  | inr hrest => exact ⟨x, List.mem_append_right _ hrest, structEquals_refl x⟩

theorem spliced_canonical_compound (nested : List CfgAst) :
    spliced isAll (canonical (compound isAll nested)) =
      UpTo.addAll structEquals [] (operands isAll nested) := by
  rw [canonical_compound, spliced_collapse]
  intro x hx
  exact (mem_addAll_operands (fun x _ => canonical_canonical x) hx).2

theorem structEquals_canonical_assoc (nested items : List CfgAst) :
    structEquals (canonical (compound isAll (compound isAll nested :: items)))
      (canonical (compound isAll (nested ++ items))) = true := by
  have hleft : operands isAll (compound isAll nested :: items) =
      UpTo.addAll structEquals [] (operands isAll nested) ++ operands isAll items := by
    rw [operands, List.flatMap_cons, spliced_canonical_compound]
    rfl
  have hright : operands isAll (nested ++ items) = operands isAll nested ++ operands isAll items :=
    List.flatMap_append
  refine structEquals_canonical_compound (within_operands_of_subset ?_) ?_
  · rw [hleft, hright]
    intro x hx
    refine List.mem_append.mpr ((List.mem_append.mp hx).imp_left fun hmem => ?_)
    exact (UpTo.mem_of_mem_addAll hmem).resolve_left List.not_mem_nil
  · rw [hleft, hright]
    intro x hx
    cases List.mem_append.mp hx with
    | inl hnested =>
      obtain ⟨y, hy, hxy⟩ := UpTo.within_addAll equivalenceOn_canonical
        (fun z hz => absurd hz List.not_mem_nil) (fun z hz => canonical_of_mem_operands hz) x
        hnested
      exact ⟨y, List.mem_append_left _ hy, hxy⟩
    | inr hitems => exact ⟨x, List.mem_append_right _ hitems, structEquals_refl x⟩

theorem canonical_single (a : CfgAst) : canonical (compound isAll [a]) = canonical a := by
  have hoperands : operands isAll [a] = spliced isAll (canonical a) := List.append_nil _
  rw [canonical_compound, hoperands]
  by_cases his : Is isAll (canonical a)
  · obtain ⟨items, heq⟩ := his
    have hcanonical := canonical_canonical a
    rw [heq] at hcanonical ⊢
    obtain ⟨_, _, hlength, hapart⟩ := canonical_compound_iff.mp hcanonical
    have hadd : UpTo.addAll structEquals [] items = items := UpTo.addAll_of_apart hapart
    rw [spliced_compound, hadd, collapse_of_length hlength]
  · rw [spliced_of_not_is his]
    rfl

theorem structEquals_canonical_of_equalModulo (h : EqualModulo a b) :
    structEquals (canonical a) (canonical b) = true := by
  have hsymm : ∀ {a b : CfgAst}, structEquals (canonical a) (canonical b) = true →
      structEquals (canonical b) (canonical a) = true := fun {a b} hab =>
    equivalenceOn_canonical.symm _ _ (canonical_canonical a) (canonical_canonical b) hab
  induction h with
  | refl a => exact structEquals_refl _
  | symm _ ih => exact hsymm ih
  | @trans a b c _ _ ih ih' =>
    exact equivalenceOn_canonical.trans _ _ _ (canonical_canonical a) (canonical_canonical b)
      (canonical_canonical c) ih ih'
  | not _ ih => exact ih
  | operand items _ ih =>
    exact structEquals_canonical_compound (within_operands_cons ih items)
      (within_operands_cons (hsymm ih) items)
  | perm hperm =>
    have hoperands := fun isAll => hperm.flatMap_right fun x => spliced isAll (canonical x)
    exact structEquals_canonical_compound (within_operands_of_subset (hoperands _).subset)
      (within_operands_of_subset (hoperands _).symm.subset)
  | assoc nested items => exact structEquals_canonical_assoc nested items
  | idem a items =>
    refine structEquals_canonical_compound (within_operands_of_subset ?_)
      (within_operands_of_subset ?_)
    · simp [operands]
    · simp [operands]
  | single a =>
    rw [canonical_single]
    exact structEquals_refl _

theorem semanticallyEquals_iff : semanticallyEquals a b = true ↔ EqualModulo a b := by
  constructor
  · intro h
    have hsame := equalModulo_of_structEquals (canonical_canonical a) (canonical_canonical b) h
    exact (equalModulo_canonical a).trans (hsame.trans (equalModulo_canonical b).symm)
  · exact structEquals_canonical_of_equalModulo

end Complete

section Truth
variable {isAll : Bool} {a b : CfgAst} {flags : String → Bool} {items items' : List CfgAst}

def truthOf (flags : String → Bool) (isAll : Bool) (items : List CfgAst) : Bool :=
  if isAll then items.all (truth flags) else items.any (truth flags)

theorem truthAll_eq (items : List CfgAst) : truthAll flags items = items.all (truth flags) := by
  induction items with
  | nil => rfl
  | cons item items ih => rw [truthAll, ih, List.all_cons]

theorem truthAny_eq (items : List CfgAst) : truthAny flags items = items.any (truth flags) := by
  induction items with
  | nil => rfl
  | cons item items ih => rw [truthAny, ih, List.any_cons]

theorem truth_compound : truth flags (compound isAll items) = truthOf flags isAll items := by
  cases isAll with
  | true => exact truthAll_eq items
  | false => exact truthAny_eq items

theorem truthOf_perm (h : items.Perm items') :
    truthOf flags isAll items = truthOf flags isAll items' := by
  cases isAll with
  | true => exact h.all_eq
  | false => exact h.any_eq

theorem EqualModulo.truth_eq (flags : String → Bool) (h : EqualModulo a b) :
    truth flags a = truth flags b := by
  induction h with
  | refl => rfl
  | symm _ ih => exact ih.symm
  | trans _ _ ih ih' => exact ih.trans ih'
  | not _ ih => rw [truth, truth, ih]
  | @operand isAll _ _ items _ ih =>
    rw [truth_compound, truth_compound]
    cases isAll with
    | true => simp [truthOf, ih]
    | false => simp [truthOf, ih]
  | perm hperm =>
    rw [truth_compound, truth_compound]
    exact truthOf_perm hperm
  | @assoc isAll nested items =>
    have hnested := @truth_compound isAll flags nested
    rw [truth_compound, truth_compound]
    cases isAll with
    | true => simp [truthOf, hnested]
    | false => simp [truthOf, hnested]
  | @idem isAll a items =>
    rw [truth_compound, truth_compound]
    cases isAll with
    | true => simp [truthOf]
    | false => simp [truthOf]
  | @single isAll a =>
    rw [truth_compound]
    cases isAll with
    | true => simp [truthOf]
    | false => simp [truthOf]

end Truth

theorem semanticallyEquals_congr_items {isAll : Bool} {as bs : List CfgAst}
    (h : List.Forall₂ (fun a b => semanticallyEquals a b = true) as bs) :
    semanticallyEquals (compound isAll as) (compound isAll bs) = true :=
  semanticallyEquals_iff.mpr (.congr_items (h.imp fun _ _ => semanticallyEquals_iff.mp))

/-- The comparison is an equivalence and a congruence, decides equality modulo the rules, and
keeps truth values; canonical forms are their own. -/
theorem semanticallyEquals_decides : DecidesEquality where
  equivalence :=
    ⟨fun _ => structEquals_refl _,
      fun h => semanticallyEquals_iff.mpr (semanticallyEquals_iff.mp h).symm,
      fun h h' => semanticallyEquals_iff.mpr
        ((semanticallyEquals_iff.mp h).trans (semanticallyEquals_iff.mp h'))⟩
  not_congr := fun _ _ h => h
  all_congr := fun _ _ h => @semanticallyEquals_congr_items true _ _ h
  any_congr := fun _ _ h => @semanticallyEquals_congr_items false _ _ h
  iff_equalModulo := fun _ _ => semanticallyEquals_iff
  same_truth := fun _ _ h flags => (semanticallyEquals_iff.mp h).truth_eq flags
  idempotent := fun a => canonical_of_canonical (canonical_canonical a)

end CfgAst
end Sqry
