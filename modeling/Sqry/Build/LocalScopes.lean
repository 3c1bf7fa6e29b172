import Sqry.Lib.Champion
import Sqry.Lib.Climb

/-!
The local scopes of a C file, and the lookup of the declared type of a local variable. `none` is
a lookup that runs out of steps or leaves the arena; a result is `some`.
-/

namespace Sqry
namespace CIndirect

structure ScopeEntry where
  span : Nat × Nat
  parent : Option Nat
  deriving DecidableEq, Repr

/-- Without the index of the scope, which the lookup does not read. -/
structure LocalDeclaration where
  name : String
  typeToken : String
  declSpan : Nat × Nat
  deriving DecidableEq, Repr

structure LocalScopeIndex where
  scopes : List ScopeEntry
  declsByScope : List (List LocalDeclaration)
  deriving DecidableEq, Repr

namespace LocalScopeIndex

def containsOffset (scope : ScopeEntry) (offset : Nat) : Bool :=
  scope.span.1 ≤ offset && offset < scope.span.2

/-- The loop of `innermost_scope_containing` from index `idx` on. -/
def innermostFrom (offset : Nat) : List ScopeEntry → Nat → Option Nat → Option Nat
  | [], _, best => best
  | scope :: scopes, idx, best =>
    innermostFrom offset scopes (idx + 1) (if containsOffset scope offset then some idx else best)

def innermostScopeContaining (index : LocalScopeIndex) (offset : Nat) : Option Nat :=
  innermostFrom offset index.scopes 0 none

def bestDeclaration (name : String) (useSiteOffset : Nat) (decls : List LocalDeclaration) :
    Option LocalDeclaration :=
  decls.foldl
    (fun best decl =>
      if decl.name = name ∧ decl.declSpan.1 ≤ useSiteOffset then
        match best with
        | none => some decl
        | some prev => if decl.declSpan.1 > prev.declSpan.1 then some decl else some prev
      else best)
    none

/-- The `while` loop, for so many scopes. -/
def resolveFrom (index : LocalScopeIndex) (name : String) (useSiteOffset : Nat) :
    Nat → Nat → Option (Option String)
  | 0, _ => none
  | steps + 1, scopeIdx =>
    match index.declsByScope[scopeIdx]? with
    | none => some none
    | some decls =>
      match bestDeclaration name useSiteOffset decls with
      | some decl => some (some decl.typeToken)
      | none =>
        match index.scopes[scopeIdx]? with
        | none => none
        | some scope =>
          match scope.parent with
          | none => some none
          | some parent => index.resolveFrom name useSiteOffset steps parent

def resolveType (index : LocalScopeIndex) (steps : Nat) (name : String) (useSiteOffset : Nat) :
    Option (Option String) :=
  match index.innermostScopeContaining useSiteOffset with
  | none => some none
  | some innermost => index.resolveFrom name useSiteOffset steps innermost

def candidates (name : String) (offset : Nat) (decls : List LocalDeclaration) :
    List LocalDeclaration :=
  decls.filter fun decl => decl.name = name ∧ decl.declSpan.1 ≤ offset

def declared (index : LocalScopeIndex) (name : String) (offset i : Nat) : List LocalDeclaration :=
  candidates name offset (index.declsByScope[i]?.getD [])

def span (index : LocalScopeIndex) (i : Nat) : Option (Nesting.Span Nat) :=
  index.scopes[i]?.map fun scope => ⟨scope.span.1, scope.span.2⟩

def parent (index : LocalScopeIndex) (i : Nat) : Option Nat :=
  index.scopes[i]?.bind ScopeEntry.parent

structure WellNested (index : LocalScopeIndex) : Prop where
  aligned : index.declsByScope.length = index.scopes.length
  nested : Nesting.Nested index.span index.parent

def Encloses (index : LocalScopeIndex) (offset i : Nat) : Prop :=
  ∃ s, index.span i = some s ∧ s.Holds offset

def Innermost (index : LocalScopeIndex) (name : String) (offset i : Nat) : Prop :=
  ∃ s, index.span i = some s ∧ s.Holds offset ∧ ∀ j t, index.span j = some t → t.Holds offset →
    index.declared name offset j ≠ [] → s.Within t

/-- What C's scoping says: the declaration that starts last in the innermost scope. -/
structure IsLexicalType (index : LocalScopeIndex) (name : String) (offset : Nat)
    (found : Option String) : Prop where
  some : ∀ token, found = some token → ∃ i decl, index.Innermost name offset i ∧
    Champion.Top (fun decl : LocalDeclaration => decl.declSpan.1)
      (index.declared name offset i) decl ∧ token = decl.typeToken
  none_iff : found = none ↔ ∀ i, index.Encloses offset i → index.declared name offset i = []

section Steps
variable {index : LocalScopeIndex} {name : String} {offset : Nat}

theorem bestDeclaration_eq (decls : List LocalDeclaration) :
    bestDeclaration name offset decls =
      Champion.first (fun decl : LocalDeclaration => decl.declSpan.1)
        (candidates name offset decls) := by
  rw [bestDeclaration, Champion.first, candidates, List.foldl_filter]
  congr 1
  funext best decl
  by_cases hcandidate : decl.name = name ∧ decl.declSpan.1 ≤ offset
  · rw [if_pos hcandidate, if_pos (decide_eq_true hcandidate)]
    cases best with
    | none => rfl
    | some prev => rfl
  · rw [if_neg hcandidate, if_neg (mt of_decide_eq_true hcandidate)]

theorem bestDeclaration_eq_none {decls : List LocalDeclaration}
    (h : bestDeclaration name offset decls = none) : candidates name offset decls = [] := by
  rw [bestDeclaration_eq] at h
  by_contra hne
  obtain ⟨decl, hdecl⟩ :=
    @Champion.exists_first _ _ _ (fun decl : LocalDeclaration => decl.declSpan.1) _ hne
  rw [h] at hdecl
  cases hdecl

theorem encloses_iff {i : Nat} :
    index.Encloses offset i ↔ ∃ scope, index.scopes[i]? = some scope ∧
      containsOffset scope offset = true := by
  simp only [Encloses, span, Option.map_eq_some_iff, containsOffset, Bool.and_eq_true,
    decide_eq_true_eq]
  constructor
  · intro h
    obtain ⟨s, ⟨scope, hscope, hs⟩, hholds⟩ := h
    rw [← hs] at hholds
    exact ⟨scope, hscope, hholds⟩
  · intro h
    obtain ⟨scope, hscope, hholds⟩ := h
    exact ⟨_, ⟨scope, hscope, rfl⟩, hholds⟩

theorem innermostFrom_spec (scopes : List ScopeEntry) (idx : Nat) (best : Option Nat) :
    (∀ (i : Nat) scope, scopes[i]? = some scope → containsOffset scope offset = false) ∧
      innermostFrom offset scopes idx best = best ∨
    ∃ i scope, innermostFrom offset scopes idx best = some (idx + i) ∧ scopes[i]? = some scope ∧
      containsOffset scope offset = true ∧
      ∀ (j : Nat) scope, i < j → scopes[j]? = some scope → containsOffset scope offset = false := by
  induction scopes generalizing idx best with
  | nil => exact Or.inl ⟨nofun, rfl⟩
  | cons scope scopes ih =>
    rw [innermostFrom]
    cases ih (idx + 1) (if containsOffset scope offset then some idx else best) with
    | inr hlater =>
      obtain ⟨i, other, hfound, hother, hcontains, hlast⟩ := hlater
      refine Or.inr ⟨i + 1, other, ?_, hother, hcontains, fun j scope hlt hscope => ?_⟩
      · rw [hfound, Nat.add_assoc, Nat.add_comm 1]
      · cases j with
        | zero => exact absurd hlt (Nat.not_lt_zero _)
        | succ j => exact hlast j scope (Nat.lt_of_succ_lt_succ hlt) hscope
    | inl hnone =>
      obtain ⟨hnone, hbest⟩ := hnone
      rw [hbest]
      cases hcontains : containsOffset scope offset with
      | true =>
        refine Or.inr ⟨0, scope, rfl, rfl, hcontains, fun j other hlt hother => ?_⟩
        cases j with
        | zero => exact absurd hlt (Nat.lt_irrefl 0)
        | succ j => exact hnone j other hother
      | false =>
        refine Or.inl ⟨fun i other hother => ?_, rfl⟩
        cases i with
        | zero =>
          cases hother
          exact hcontains
        | succ i => exact hnone i other hother

theorem resolveFrom_mono {steps more i : Nat} {found : Option String}
    (h : index.resolveFrom name offset steps i = some found) (hle : steps ≤ more) :
    index.resolveFrom name offset more i = some found := by
  induction steps generalizing i more with
  | zero => cases h
  | succ steps ih =>
    obtain ⟨more, rfl⟩ := Nat.exists_eq_add_of_lt (Nat.lt_of_lt_of_le (Nat.succ_pos steps) hle)
    simp only [Nat.zero_add, resolveFrom] at h hle ⊢
    cases hdecls : index.declsByScope[i]? with
    | none =>
      simp only [hdecls] at h
      exact h
    | some decls =>
      simp only [hdecls] at h ⊢
      cases hbest : bestDeclaration name offset decls with
      | some decl =>
        simp only [hbest] at h
        exact h
      | none =>
        simp only [hbest] at h ⊢
        cases hscope : index.scopes[i]? with
        | none =>
          simp only [hscope] at h
          cases h
        | some scope =>
          simp only [hscope] at h ⊢
          cases hup : scope.parent with
          | none =>
            simp only [hup] at h
            exact h
          | some p =>
            simp only [hup] at h ⊢
            exact ih h (Nat.le_of_succ_le_succ hle)

theorem lexicalType_resolveFrom (h : index.WellNested) {steps i : Nat} (hsteps : i < steps)
    (hi : index.Encloses offset i)
    (hlater : ∀ j, i < j → index.Encloses offset j → index.declared name offset j = []) :
    ∃ found, index.resolveFrom name offset steps i = some found ∧
      index.IsLexicalType name offset found := by
  induction steps generalizing i with
  | zero => exact absurd hsteps (Nat.not_lt_zero i)
  | succ steps ih =>
    obtain ⟨scope, hscope, _⟩ := encloses_iff.mp hi
    obtain ⟨s, hs, hsx⟩ := hi
    have hlt : i < index.declsByScope.length :=
      h.aligned ▸ (List.getElem?_eq_some_iff.mp hscope).1
    obtain ⟨decls, hdecls⟩ : ∃ decls, index.declsByScope[i]? = some decls :=
      ⟨_, List.getElem?_eq_getElem hlt⟩
    have hdeclared : index.declared name offset i = candidates name offset decls := by
      rw [declared, hdecls, Option.getD_some]
    simp only [resolveFrom, hdecls, hscope]
    cases hbest : bestDeclaration name offset decls with
    | some decl =>
      rw [bestDeclaration_eq, ← hdeclared] at hbest
      have htop := Champion.top_of_first hbest
      have hne : index.declared name offset i ≠ [] := List.ne_nil_of_mem htop.1
      refine ⟨_, rfl, fun token htoken => ⟨i, decl, ⟨s, hs, hsx, ?_⟩, htop, ?_⟩, ?_⟩
      · intro j t ht htx hdecl
        cases Nat.lt_trichotomy j i with
        | inl hbefore => exact h.nested.within_of_holds hbefore ht hs htx hsx
        | inr hrest =>
          cases hrest with
          | inl hsame =>
            rw [hsame, hs] at ht
            cases ht
            exact ⟨le_refl _, le_refl _⟩
          | inr hafter => exact absurd (hlater j hafter ⟨t, ht, htx⟩) hdecl
      · exact (Option.some.inj htoken).symm
      · exact ⟨nofun, fun hnone => absurd (hnone i ⟨s, hs, hsx⟩) hne⟩
    | none =>
      have hnothing : index.declared name offset i = [] :=
        hdeclared.trans (bestDeclaration_eq_none hbest)
      have hparent : index.parent i = scope.parent := by
        rw [parent, hscope, Option.bind_some]
      cases hup : scope.parent with
      | none =>
        refine ⟨none, rfl, nofun, fun _ j hj => ?_, fun _ => rfl⟩
        cases Nat.lt_trichotomy j i with
        | inl hbefore =>
          obtain ⟨t, ht, htx⟩ := hj
          obtain ⟨p, u, hp, _⟩ := h.nested.exists_parent hbefore ht hs htx hsx
          rw [hparent, hup] at hp
          cases hp
        | inr hrest =>
          cases hrest with
          | inl hsame => exact hsame ▸ hnothing
          | inr hafter => exact hlater j hafter hj
      | some p =>
        have hp : index.parent i = some p := hparent.trans hup
        obtain ⟨u, hu, hwithin⟩ := h.nested.parent_around i p s hs hp
        have hbelow := h.nested.parent_lt i p hp
        refine ih (by omega) ⟨u, hu, hwithin.holds hsx⟩ fun j hlt hj => ?_
        cases Nat.lt_trichotomy j i with
        | inl hbefore =>
          obtain ⟨t, ht, htx⟩ := hj
          obtain ⟨q, _, hq, _, _, hle⟩ := h.nested.exists_parent hbefore ht hs htx hsx
          rw [hp] at hq
          cases hq
          exact absurd hlt (Nat.not_lt_of_le hle)
        | inr hrest =>
          cases hrest with
          | inl hsame => exact hsame ▸ hnothing
          | inr hafter => exact hlater j hafter hj

end Steps

/-- The lookup returns within as many steps as there are scopes, and what C's scoping says. -/
theorem resolveType_isLexicalType {index : LocalScopeIndex} (h : index.WellNested)
    (name : String) (offset : Nat) :
    ∃ found, (∀ steps, index.scopes.length ≤ steps →
        index.resolveType steps name offset = some found) ∧
      index.IsLexicalType name offset found := by
  cases @innermostFrom_spec offset index.scopes 0 none with
  | inl hnone =>
    obtain ⟨hnone, hfound⟩ := hnone
    refine ⟨none, fun steps _ => by rw [resolveType, innermostScopeContaining, hfound], nofun,
      fun _ i hi => ?_, fun _ => rfl⟩
    obtain ⟨scope, hscope, hcontains⟩ := encloses_iff.mp hi
    exact absurd (hcontains.symm.trans (hnone i scope hscope)) (by decide)
  | inr hsome =>
    obtain ⟨i, scope, hfound, hscope, hcontains, hlast⟩ := hsome
    rw [Nat.zero_add] at hfound
    have hi : index.Encloses offset i := encloses_iff.mpr ⟨scope, hscope, hcontains⟩
    have hlater : ∀ j, i < j → index.Encloses offset j → index.declared name offset j = [] := by
      intro j hlt hj
      obtain ⟨other, hother, hholds⟩ := encloses_iff.mp hj
      exact absurd (hholds.symm.trans (hlast j other hlt hother)) (by decide)
    have hlt : i < index.scopes.length := (List.getElem?_eq_some_iff.mp hscope).1
    have hresolve : ∀ steps, index.resolveType steps name offset =
        index.resolveFrom name offset steps i := by
      intro steps
      simp only [resolveType, innermostScopeContaining, hfound]
    obtain ⟨found, hsteps, hlexical⟩ := @lexicalType_resolveFrom index name offset h _ i hlt hi hlater
    refine ⟨found, fun steps hle => ?_, hlexical⟩
    rw [hresolve]
    exact resolveFrom_mono hsteps hle

def shadowing : LocalScopeIndex :=
  ⟨[⟨(0, 100), none⟩, ⟨(20, 60), some 0⟩],
    [[⟨"x", "int", (5, 10)⟩], [⟨"x", "float", (30, 40)⟩]]⟩

theorem span_shadowing {i : Nat} {s : Nesting.Span Nat} (h : shadowing.span i = some s) :
    i = 0 ∧ s = ⟨0, 100⟩ ∧ shadowing.parent i = none ∨
      i = 1 ∧ s = ⟨20, 60⟩ ∧ shadowing.parent i = some 0 := by
  match i with
  | 0 => exact Or.inl ⟨rfl, (Option.some.inj h).symm, rfl⟩
  | 1 => exact Or.inr ⟨rfl, (Option.some.inj h).symm, rfl⟩
  | i + 2 => cases h

theorem wellNested_shadowing : shadowing.WellNested := by
  refine ⟨rfl, ?_, ?_, ?_, ?_⟩
  · intro i j s t hlt hs ht
    obtain ⟨rfl, rfl, _⟩ | ⟨rfl, rfl, _⟩ := span_shadowing hs <;>
      obtain ⟨rfl, rfl, _⟩ | ⟨rfl, rfl, _⟩ := span_shadowing ht
    all_goals first | (exact Or.inr (by decide)) | omega
  · intro j p hp
    match j with
    | 0 => cases hp
    | 1 =>
      cases hp
      exact Nat.zero_lt_one
    | j + 2 => cases hp
  · intro j p t ht hp
    obtain ⟨rfl, _, hnone⟩ | ⟨rfl, rfl, hsome⟩ := span_shadowing ht
    · cases hnone.symm.trans hp
    · cases hsome.symm.trans hp
      exact ⟨_, rfl, by decide⟩
  · intro j i s t hlt hs ht _
    obtain ⟨rfl, _, _⟩ | ⟨rfl, _, hsome⟩ := span_shadowing ht
    · exact absurd hlt (Nat.not_lt_zero i)
    · exact ⟨0, hsome, Nat.le_of_lt_succ hlt⟩

theorem resolveType_shadowing :
    ∃ found, (∀ steps, 2 ≤ steps → shadowing.resolveType steps "x" 40 = some found) ∧
      shadowing.IsLexicalType "x" 40 found :=
  resolveType_isLexicalType wellNested_shadowing "x" 40

end LocalScopeIndex
end CIndirect
end Sqry
