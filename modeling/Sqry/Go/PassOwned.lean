import Sqry.Graph.Snapshot

/-!
The names that the Go method-set pass gives to the nodes it makes, and the shape by which it knows
them again.
-/

namespace Sqry

section Names

def separatorCount : List Char → Nat
  | ':' :: ':' :: text => separatorCount text + 1
  | _ :: text => separatorCount text
  | [] => 0

/-- The text after the first `::*`. -/
def afterPointerMark : List Char → Option (List Char)
  | ':' :: ':' :: '*' :: text => some text
  | _ :: text => afterPointerMark text
  | [] => none

def qualifiedNameMatchesPassShape (qualifiedName : List Char) : Bool :=
  match afterPointerMark qualifiedName with
  | some tail => !tail.isEmpty
  | none => separatorCount qualifiedName ≥ 2

def isPassOwnedNode (kind : NodeKind) (qualifiedName : List Char) (isSynthetic : Bool) : Bool :=
  if ¬ (kind = .method ∨ kind = .type) then false
  else if !isSynthetic then false
  else qualifiedNameMatchesPassShape qualifiedName

def splitQnIntoPackageAndName (qn : List Char) : Option (List Char × List Char) :=
  match rsplitOnceChars [':', ':'] qn with
  | none => none
  | some (pkg, short) => if pkg.isEmpty || short.isEmpty then none else some (pkg, short)

def packageQnResolve (outerQn shortName : List Char) : List Char :=
  let ending := ':' :: ':' :: shortName
  if ending.isSuffixOf outerQn then outerQn.take (outerQn.length - ending.length) else outerQn

def valueQn (outerQn methodShort : List Char) : List Char := outerQn ++ ':' :: ':' :: methodShort

def pointerFormQn (outerQn shortName : List Char) : List Char :=
  packageQnResolve outerQn shortName ++ ':' :: ':' :: '*' :: shortName

def pointerQn (outerQn shortName methodShort : List Char) : List Char :=
  packageQnResolve outerQn shortName ++ ':' :: ':' :: '*' :: shortName ++ ':' :: ':' :: methodShort

/-- The names that the pass gives to the nodes it makes, by their kinds. No method of Go is named
with a star. -/
inductive MintedName : NodeKind → List Char → Prop where
  | value {outerQn pkg shortName methodShort : List Char} :
      splitQnIntoPackageAndName outerQn = some (pkg, shortName) → '*' ∉ methodShort →
        MintedName .method (valueQn outerQn methodShort)
  | pointer {outerQn pkg shortName methodShort : List Char} :
      splitQnIntoPackageAndName outerQn = some (pkg, shortName) →
        MintedName .method (pointerQn outerQn shortName methodShort)
  | pointerForm {outerQn pkg shortName : List Char} :
      splitQnIntoPackageAndName outerQn = some (pkg, shortName) →
        MintedName .type (pointerFormQn outerQn shortName)

theorem rsplitOnceChars_eq {separator text before after : List Char}
    (h : rsplitOnceChars separator text = some (before, after)) :
    text = before ++ separator ++ after := by
  induction text generalizing before with
  | nil => cases h
  | cons c text ih =>
    rw [rsplitOnceChars] at h
    cases hrest : rsplitOnceChars separator text with
    | some split =>
      rw [hrest] at h
      cases h
      rw [ih hrest]
      rfl
    | none =>
      rw [hrest] at h
      by_cases hprefix : separator.isPrefixOf (c :: text) = true
      · simp only [if_pos hprefix] at h
        cases h
        exact (List.prefix_append_drop (List.isPrefixOf_iff_prefix.mp hprefix)).trans
          (List.nil_append _).symm
      · simp only [if_neg hprefix] at h
        cases h

theorem splitQn_eq {qn pkg short : List Char}
    (h : splitQnIntoPackageAndName qn = some (pkg, short)) :
    qn = pkg ++ ':' :: ':' :: short ∧ short ≠ [] := by
  rw [splitQnIntoPackageAndName] at h
  split at h
  · cases h
  · rename_i before after hsplit
    split at h
    · cases h
    · rename_i hnonempty
      cases h
      refine ⟨?_, fun hnil => hnonempty (by rw [hnil, List.isEmpty_nil, Bool.or_true])⟩
      rw [rsplitOnceChars_eq hsplit, List.append_assoc]
      rfl

theorem separatorCount_cons_cons (c d : Char) (text : List Char) :
    separatorCount (c :: d :: text) =
      if c = ':' ∧ d = ':' then separatorCount text + 1 else separatorCount (d :: text) := by
  by_cases hpair : c = ':' ∧ d = ':'
  · rw [if_pos hpair, hpair.1, hpair.2, separatorCount]
  · rw [if_neg hpair, separatorCount]
    intro rest hc htext
    cases htext
    exact hpair ⟨hc, rfl⟩

theorem separatorCount_cons (text : List Char) (c : Char) :
    separatorCount text ≤ separatorCount (c :: text) ∧
      separatorCount (c :: text) ≤ separatorCount text + 1 := by
  induction text generalizing c with
  | nil =>
    rw [separatorCount, separatorCount]
    · exact ⟨Nat.le_refl 0, Nat.zero_le 1⟩
    · intro rest _ h
      cases h
  | cons d text ih =>
    rw [separatorCount_cons_cons]
    by_cases hpair : c = ':' ∧ d = ':'
    · rw [if_pos hpair]
      exact ⟨(ih d).2, Nat.succ_le_succ (ih d).1⟩
    · rw [if_neg hpair]
      exact ⟨Nat.le_refl _, Nat.le_succ _⟩

theorem separatorCount_append (front text : List Char) :
    separatorCount text ≤ separatorCount (front ++ text) := by
  induction front with
  | nil => exact Nat.le_refl _
  | cons c front ih => exact ih.trans (separatorCount_cons (front ++ text) c).1

theorem two_le_separatorCount (front middle last : List Char) :
    2 ≤ separatorCount (front ++ ':' :: ':' :: (middle ++ ':' :: ':' :: last)) := by
  have houter := separatorCount_append front (':' :: ':' :: (middle ++ ':' :: ':' :: last))
  have hinner := separatorCount_append middle (':' :: ':' :: last)
  rw [separatorCount] at houter hinner
  omega

theorem afterPointerMark_eq {text tail : List Char} (h : afterPointerMark text = some tail) :
    ∃ front, text = front ++ ':' :: ':' :: '*' :: tail := by
  induction text using afterPointerMark.induct with
  | case1 text =>
    rw [afterPointerMark] at h
    cases h
    exact ⟨[], rfl⟩
  | case2 c text hother ih =>
    rw [afterPointerMark] at h
    · obtain ⟨front, heq⟩ := ih h
      exact ⟨c :: front, by rw [heq]; rfl⟩
    · exact hother
  | case3 => cases h

theorem exists_afterPointerMark (front text : List Char) :
    ∃ tail, afterPointerMark (front ++ ':' :: ':' :: '*' :: text) = some tail ∧
      text.length ≤ tail.length := by
  induction front with
  | nil => exact ⟨text, rfl, Nat.le_refl _⟩
  | cons c front ih =>
    rw [List.cons_append]
    by_cases hmark : ∃ tail, c :: (front ++ ':' :: ':' :: '*' :: text) = ':' :: ':' :: '*' :: tail
    · obtain ⟨tail, heq⟩ := hmark
      refine ⟨tail, by rw [heq, afterPointerMark], ?_⟩
      have hlength := congrArg List.length heq
      simp only [List.length_cons, List.length_append] at hlength
      omega
    · rw [afterPointerMark]
      · exact ih
      · intro tail hc hrest
        exact hmark ⟨tail, by rw [hc, hrest]⟩

theorem matches_of_pointerMark {front text : List Char} (h : text ≠ []) :
    qualifiedNameMatchesPassShape (front ++ ':' :: ':' :: '*' :: text) = true := by
  obtain ⟨tail, htail, hle⟩ := exists_afterPointerMark front text
  rw [qualifiedNameMatchesPassShape, htail, Bool.not_eq_true', List.isEmpty_eq_false_iff]
  intro hnil
  rw [hnil, List.length_nil, Nat.le_zero, List.length_eq_zero_iff] at hle
  exact h hle

theorem MintedName.matches_shape {kind : NodeKind} {name : List Char} (h : MintedName kind name) :
    qualifiedNameMatchesPassShape name = true := by
  cases h with
  | @value outerQn pkg shortName methodShort hsplit hstar =>
    have houter := (splitQn_eq hsplit).1
    have htext : valueQn outerQn methodShort =
        pkg ++ ':' :: ':' :: (shortName ++ ':' :: ':' :: methodShort) := by
      rw [valueQn, houter, List.append_assoc]
      rfl
    rw [qualifiedNameMatchesPassShape]
    cases hmark : afterPointerMark (valueQn outerQn methodShort) with
    | none =>
      rw [htext]
      exact decide_eq_true (two_le_separatorCount pkg shortName methodShort)
    | some tail =>
      rw [Bool.not_eq_true', List.isEmpty_eq_false_iff]
      intro hnil
      -- the name would end with a star
      obtain ⟨front, heq⟩ := afterPointerMark_eq hmark
      have hlast := congrArg List.getLast? heq
      rw [hnil, valueQn] at hlast
      cases hmethod : methodShort.getLast? with
      | none =>
        rw [List.getLast?_eq_none_iff.mp hmethod] at hlast
        simp at hlast
      | some c =>
        rw [List.getLast?_append, List.getLast?_cons, List.getLast?_cons, hmethod] at hlast
        simp only [List.getLast?_append, List.getLast?_cons, List.getLast?_nil,
          Option.getD_none, Option.getD_some, Option.some_or, Option.some.injEq] at hlast
        exact hstar (hlast ▸ List.mem_of_getLast? hmethod)
  | @pointer outerQn pkg shortName methodShort hsplit =>
    have htext : pointerQn outerQn shortName methodShort = packageQnResolve outerQn shortName ++
        ':' :: ':' :: '*' :: (shortName ++ ':' :: ':' :: methodShort) := by
      rw [pointerQn, List.append_assoc]
      rfl
    rw [htext]
    exact matches_of_pointerMark (by simp)
  | pointerForm hsplit => exact matches_of_pointerMark (splitQn_eq hsplit).2

theorem MintedName.isPassOwnedNode {kind : NodeKind} {name : List Char}
    (h : MintedName kind name) : isPassOwnedNode kind name true = true := by
  have hkind : kind = .method ∨ kind = .type := by
    cases h with
    | value _ _ => exact .inl rfl
    | pointer _ => exact .inl rfl
    | pointerForm _ => exact .inr rfl
  rw [Sqry.isPassOwnedNode, if_neg (not_not.mpr hkind), Bool.not_true,
    if_neg Bool.false_ne_true]
  exact h.matches_shape

end Names

end Sqry
