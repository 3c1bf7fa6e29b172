import Sqry.Planner.Builder

/-!
The steps of a text query and what each does to the builder. A kind starts a scan; a
visibility and a name go into a scan that stands last; a provenance goes into a traversal
that stands last; everything else is appended.
-/

namespace Sqry

inductive QueryStep where
  | kind (k : NodeKind)
  | visibility (v : Visibility)
  | name (pattern : StringPattern)
  | leaf (p : LeafPredicate)
  | relation (k : RelationKind) (value : PredicateValue)
  | resolvedVia (via : ResolvedVia)
  | traverse (direction : PlanDirection) (edgeKind : EdgeKind) (depth : Nat)

namespace QueryBuilder

def builderSteps (b : QueryBuilder) : List PlanNode :=
  if b.steps.isEmpty then []
  else
    match b.build with
    | .ok plan =>
      match plan.root with
      | .chain steps => steps
      | other => [other]
    | .error _ => []

def rehydrateStep (b : QueryBuilder) (step : PlanNode) : QueryBuilder :=
  match step with
  | .nodeScan kind visibility namePattern => b.scanWith ⟨kind, visibility, namePattern⟩
  | .edgeTraversal direction edgeKind maxDepth resolvedVia =>
    match edgeKind with
    | some k =>
      match resolvedVia with
      | some _ => b.traverseWithResolvedVia direction k resolvedVia maxDepth
      | none => b.traverse direction k maxDepth
    | none => b.traverseAny direction maxDepth
  | .filter predicate => b.filter predicate
  | .setOp .. | .chain _ => b.filter (.leaf .hasCaller)

def rehydrateFromSteps (steps : List PlanNode) : QueryBuilder := steps.foldl rehydrateStep new

def stripLastStep (b : QueryBuilder) : QueryBuilder :=
  let steps := b.builderSteps
  if steps.length ≤ 1 then new else rehydrateFromSteps steps.dropLast

def applyVisibility (b : QueryBuilder) (visibility : Visibility) : QueryBuilder :=
  match b.builderSteps.getLast? with
  | some (.nodeScan kind existingVis namePattern) =>
    b.stripLastStep.scanWith ⟨kind, some (existingVis.getD visibility), namePattern⟩
  | _ => b.scanWith ⟨none, some visibility, none⟩

def applyNamePattern (b : QueryBuilder) (pattern : StringPattern) : QueryBuilder :=
  let steps := b.builderSteps
  if steps.isEmpty then b.scanWith ⟨none, none, some pattern⟩
  else
    match steps.getLast? with
    | some (.nodeScan kind visibility none) =>
      b.stripLastStep.scanWith ⟨kind, visibility, some pattern⟩
    | _ => b.filter (.leaf (.matchesName pattern))

def applyStep (b : QueryBuilder) : QueryStep → QueryBuilder
  | .kind k => b.scan k
  | .visibility v => b.applyVisibility v
  | .name pattern => b.applyNamePattern pattern
  | .leaf p => b.filter (.leaf p)
  | .relation k value => b.filter (.relation k value)
  | .resolvedVia via => (b.tryFoldResolvedVia via).getD (b.filter (.leaf (.resolvedVia via)))
  | .traverse direction edgeKind depth => b.traverse direction edgeKind depth

def ofSteps (steps : List QueryStep) : QueryBuilder := steps.foldl applyStep new

theorem ofSteps_append_singleton (steps : List QueryStep) (step : QueryStep) :
    ofSteps (steps ++ [step]) = (ofSteps steps).applyStep step := List.foldl_append

section Shape
variable {b : QueryBuilder}

theorem builderSteps_of_builds (h : b.Builds) : b.builderSteps = b.steps := by
  obtain ⟨first, hfirst, _⟩ := h.starts
  have hbuild := build_eq_ok_iff.mpr ⟨h, rfl⟩
  rw [builderSteps, hbuild]
  cases hsteps : b.steps with
  | nil =>
    rw [hsteps] at hfirst
    cases hfirst
  | cons step steps => rfl

theorem builderSteps_of_not (h : ¬ b.Builds) : b.builderSteps = [] := by
  obtain ⟨e, hbuild⟩ := build_error_of_not h
  rw [builderSteps, hbuild]
  cases b.steps <;> rfl

theorem Builds.of_push {step : PlanNode} (h : (b.push step).Builds) (hsteps : b.steps ≠ [])
    : b.Builds := by
  obtain ⟨first, hfirst, hfree⟩ := h.starts
  refine ⟨⟨first, ?_, hfree⟩, fun earlier hmem => h.valid earlier (List.mem_append_left _ hmem)⟩
  rw [← hfirst]
  exact (List.head?_append_of_ne_nil _ hsteps).symm

theorem tryFoldResolvedVia_eq_some {b folded : QueryBuilder} {via : ResolvedVia}
    (h : b.tryFoldResolvedVia via = some folded) :
    ∃ earlier traversal traversal', b.steps = earlier ++ [traversal] ∧
      folded.steps = earlier ++ [traversal'] ∧ traversal'.isContextFree = false ∧
        validateSubtree traversal' = validateSubtree traversal := by
  rw [tryFoldResolvedVia] at h
  cases hlast : b.steps.getLast? with
  | none =>
    rw [hlast] at h
    cases h
  | some last =>
    rw [hlast] at h
    have hsteps := List.dropLast_append_getLast? last hlast
    revert h
    split
    · intro h
      rename_i direction argumentCount isAsync edgeVia maxDepth heq
      cases heq
      cases h
      exact ⟨b.steps.dropLast, _, _, hsteps.symm, rfl, rfl, rfl⟩
    · intro h
      cases h

theorem applyStep_of_not_builds (h : ¬ b.Builds) (step : QueryStep) :
    (∃ node, b.applyStep step = b.push node) ∨
      ∃ via, b.tryFoldResolvedVia via = some (b.applyStep step) := by
  cases step with
  | kind k => exact Or.inl ⟨_, rfl⟩
  | visibility v =>
    refine Or.inl ⟨.nodeScan none (some v) none, ?_⟩
    show b.applyVisibility v = _
    rw [applyVisibility, builderSteps_of_not h]
    rfl
  | name pattern =>
    refine Or.inl ⟨.nodeScan none none (some pattern), ?_⟩
    show b.applyNamePattern pattern = _
    rw [applyNamePattern, builderSteps_of_not h]
    rfl
  | leaf p => exact Or.inl ⟨_, rfl⟩
  | relation k value => exact Or.inl ⟨_, rfl⟩
  | resolvedVia via =>
    cases hfold : b.tryFoldResolvedVia via with
    | some folded =>
      refine Or.inr ⟨via, ?_⟩
      show _ = some ((b.tryFoldResolvedVia via).getD _)
      rw [hfold]
      rfl
    | none =>
      refine Or.inl ⟨.filter (.leaf (.resolvedVia via)), ?_⟩
      show (b.tryFoldResolvedVia via).getD _ = _
      rw [hfold]
      rfl
  | traverse direction edgeKind depth => exact Or.inl ⟨_, rfl⟩

theorem Builds.of_applyStep {step : QueryStep} (h : (b.applyStep step).Builds)
    (hsteps : b.steps ≠ []) : b.Builds := by
  by_contra hnot
  cases applyStep_of_not_builds hnot step with
  | inl hpush =>
    obtain ⟨node, heq⟩ := hpush
    rw [heq] at h
    exact hnot (h.of_push hsteps)
  | inr hfold =>
    obtain ⟨via, hfold⟩ := hfold
    obtain ⟨earlier, traversal, traversal', hb, hfolded, hfree, hvalid⟩ :=
      tryFoldResolvedVia_eq_some hfold
    apply hnot
    obtain ⟨first, hfirst, hfirstFree⟩ := h.starts
    rw [hfolded] at hfirst
    refine ⟨⟨first, ?_, hfirstFree⟩, ?_⟩
    · cases earlier with
      | nil =>
        cases hfirst
        rw [hfree] at hfirstFree
        cases hfirstFree
      | cons start more =>
        rw [hb]
        exact hfirst
    · intro earlierStep hmem
      rw [hb] at hmem
      cases List.mem_append.mp hmem with
      | inl hmem =>
        apply h.valid
        rw [hfolded]
        exact List.mem_append_left _ hmem
      | inr hmem =>
        rw [List.mem_singleton.mp hmem, ← hvalid]
        apply h.valid
        rw [hfolded]
        exact List.mem_append_right _ List.mem_cons_self

theorem applyStep_ne_nil (b : QueryBuilder) (step : QueryStep) :
    (b.applyStep step).steps ≠ [] := by
  have hpush : ∀ (b : QueryBuilder) (node : PlanNode), (b.push node).steps ≠ [] :=
    fun b node => List.append_ne_nil_of_right_ne_nil _ (List.cons_ne_nil _ _)
  cases step with
  | kind k => exact hpush b _
  | visibility v =>
    show (b.applyVisibility v).steps ≠ []
    rw [applyVisibility]
    split
    · exact hpush _ _
    · exact hpush b _
  | name pattern =>
    show (b.applyNamePattern pattern).steps ≠ []
    rw [applyNamePattern]
    split
    · exact hpush b _
    · split
      · exact hpush _ _
      · exact hpush b _
  | leaf p => exact hpush b _
  | relation k value => exact hpush b _
  | resolvedVia via =>
    show ((b.tryFoldResolvedVia via).getD (b.filter (.leaf (.resolvedVia via)))).steps ≠ []
    cases hfold : b.tryFoldResolvedVia via with
    | none => exact hpush b _
    | some folded =>
      obtain ⟨earlier, _, traversal', _, hfolded, _, _⟩ := tryFoldResolvedVia_eq_some hfold
      show folded.steps ≠ []
      rw [hfolded]
      exact List.append_ne_nil_of_right_ne_nil _ (List.cons_ne_nil _ _)
  | traverse direction edgeKind depth => exact hpush b _

theorem ofSteps_ne_nil {steps : List QueryStep} (h : steps ≠ []) : (ofSteps steps).steps ≠ [] := by
  obtain ⟨earlier, last, rfl⟩ := List.eq_nil_or_concat steps |>.resolve_left h
  rw [List.concat_eq_append, ofSteps_append_singleton]
  exact applyStep_ne_nil _ _

theorem Builds.of_append {done more : List QueryStep} (h : (ofSteps (done ++ more)).Builds)
    (hdone : done ≠ []) : (ofSteps done).Builds := by
  induction more generalizing done with
  | nil =>
    rw [List.append_nil] at h
    exact h
  | cons step more ih =>
    rw [List.append_cons] at h
    have hnext := ih h (List.append_ne_nil_of_right_ne_nil _ (List.cons_ne_nil _ _))
    rw [ofSteps_append_singleton] at hnext
    exact hnext.of_applyStep (ofSteps_ne_nil hdone)

end Shape

end QueryBuilder
end Sqry
