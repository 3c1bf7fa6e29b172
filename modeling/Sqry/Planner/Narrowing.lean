import Sqry.Planner.Meaning
import Sqry.Planner.Steps

/-!
Whether each step of a query narrows the result of the steps before it. A kind, a
visibility and a name are merged into the scan that the builder ends with where that is
possible, and the rest is put behind. The steps that keep the law are told from the filters
of that scan alone.
-/

namespace Sqry

namespace PlannerDb
variable (db : PlannerDb)

def Meets (node : NodeId) : QueryStep → Prop
  | .kind k => ∃ entry, db.snapshot.nodes.Holds node entry ∧ entry.kind = k
  | .visibility v =>
    ∃ entry, db.snapshot.nodes.Holds node entry ∧ db.snapshot.entryVisibility entry = some v
  | .name pattern =>
    ∃ entry, db.snapshot.nodes.Holds node entry ∧
      db.snapshot.entryNameMatches node entry (db.engines.compileOrReject pattern) = true
  | .leaf p => db.satisfies (.leaf p) node = true
  | .relation kind value => db.satisfies (.relation kind value) node = true
  | .resolvedVia via => db.satisfies (.leaf (.resolvedVia via)) node = true
  | .traverse _ _ _ => True

/-- An accepted query selects nothing that one of its accepted prefixes leaves out, and only
nodes that meet all of its steps. -/
structure Narrows (steps : List QueryStep) : Prop where
  subset : ∀ plan, (QueryBuilder.ofSteps steps).build = .ok plan → ∀ n shorter,
    (QueryBuilder.ofSteps (steps.take n)).build = .ok shorter →
      executePlan db plan ⊆ executePlan db shorter
  meets : ∀ plan, (QueryBuilder.ofSteps steps).build = .ok plan →
    ∀ node ∈ executePlan db plan, ∀ step ∈ steps, db.Meets node step

def selected (b : QueryBuilder) : List NodeId := db.evaluateSteps b.steps []

theorem executePlan_of_build {b : QueryBuilder} {plan : QueryPlan} (h : b.build = .ok plan) :
    executePlan db plan = db.selected b := by
  rw [executePlan_eq_evaluate, (QueryBuilder.build_eq_ok_iff.mp h).2]
  rfl

end PlannerDb

namespace ScanFilters

def free : ScanFilters := ⟨none, none, none⟩

def node (f : ScanFilters) : PlanNode := .nodeScan f.kind f.visibility f.namePattern

theorem ne_free_of_kind {f : ScanFilters} {k : NodeKind} (h : f.kind = some k) : f ≠ free := by
  intro heq
  rw [heq] at h
  cases h

theorem ne_free_of_visibility {f : ScanFilters} {v : Visibility} (h : f.visibility = some v) :
    f ≠ free := by
  intro heq
  rw [heq] at h
  cases h

theorem ne_free_of_name {f : ScanFilters} {pattern : StringPattern}
    (h : f.namePattern = some pattern) : f ≠ free := by
  intro heq
  rw [heq] at h
  cases h

def MatchesNothing (engines : PlanEngines) (f : ScanFilters) : Prop :=
  ∃ pattern, f.namePattern = some pattern ∧
    ∀ text, engines.compileOrReject pattern text = false

end ScanFilters

namespace QueryStep

def isTraverse : QueryStep → Bool
  | .traverse _ _ _ => true
  | _ => false

def predicate? : QueryStep → Option Predicate
  | .name pattern => some (.leaf (.matchesName pattern))
  | .leaf p => some (.leaf p)
  | .relation k value => some (.relation k value)
  | .resolvedVia via => some (.leaf (.resolvedVia via))
  | _ => none

def nextScan : Option ScanFilters → QueryStep → Option ScanFilters
  | some _, .kind k => some ⟨some k, none, none⟩
  | some f, .visibility v => some ⟨f.kind, some (f.visibility.getD v), f.namePattern⟩
  | some f, .name pattern =>
    match f.namePattern with
    | none => some ⟨f.kind, f.visibility, some pattern⟩
    | some _ => none
  | _, _ => none

/-- A kind wants a scan without other filters, a visibility a scan without another
visibility, and a name that enters the scan has to compile. -/
def Fits (engines : PlanEngines) : Option ScanFilters → QueryStep → Prop
  | some f, .kind k =>
    (f.kind = none ∨ f.kind = some k) ∧ f.visibility = none ∧ f.namePattern = none
  | some f, .visibility v =>
    f.visibility = none ∨ f.visibility = some v ∨ f.MatchesNothing engines
  | some f, .name pattern =>
    f.namePattern = none → (engines.compileString pattern).isSome = true
  | none, .kind _ | none, .visibility _ => False
  | _, _ => True

def AllFit (engines : PlanEngines) : Option ScanFilters → List QueryStep → Prop
  | _, [] => True
  | last, step :: steps => Fits engines last step ∧ AllFit engines (nextScan last step) steps

end QueryStep

section Tracking

def PlanNode.IsFlat : PlanNode → Prop
  | .nodeScan .. | .filter _ => True
  | _ => False

namespace QueryBuilder

theorem rehydrateFromSteps_of_flat {steps : List PlanNode} (h : ∀ step ∈ steps, step.IsFlat) :
    rehydrateFromSteps steps = ⟨steps⟩ := by
  have hrun : ∀ (before : List PlanNode),
      steps.foldl rehydrateStep ⟨before⟩ = ⟨before ++ steps⟩ := by
    induction steps with
    | nil =>
      intro before
      rw [List.append_nil]
      rfl
    | cons step steps ih =>
      intro before
      have hstep : rehydrateStep ⟨before⟩ step = ⟨before ++ [step]⟩ := by
        have hflat := h step List.mem_cons_self
        cases step with
        | nodeScan kind visibility namePattern => rfl
        | filter predicate => rfl
        | edgeTraversal direction edgeKind maxDepth resolvedVia => exact absurd hflat id
        | setOp op left right => exact absurd hflat id
        | chain steps => exact absurd hflat id
      rw [List.foldl_cons, hstep, ih fun later hmem => h later (List.mem_cons_of_mem _ hmem),
        List.append_assoc]
      rfl
  exact hrun []

theorem stripLastStep_of_flat {b : QueryBuilder} (hbuilds : b.Builds)
    (hflat : ∀ step ∈ b.steps, step.IsFlat) : b.stripLastStep = ⟨b.steps.dropLast⟩ := by
  rw [stripLastStep, builderSteps_of_builds hbuilds]
  by_cases hlength : b.steps.length ≤ 1
  · have hnil : b.steps.dropLast = [] :=
      List.length_eq_zero_iff.mp (by rw [List.length_dropLast]; omega)
    rw [if_pos hlength, hnil]
    rfl
  · rw [if_neg hlength]
    exact rehydrateFromSteps_of_flat fun step hmem => hflat step (List.dropLast_subset _ hmem)

/-- What is known of a builder after the steps `done`: the scan it ends with, whose filters
come from the steps, or the filter it ends with. -/
structure Tracks (engines : PlanEngines) (last : Option ScanFilters) (done : List QueryStep)
    (b : QueryBuilder) : Prop where
  flat : ∀ step ∈ b.steps, step.IsFlat
  scan : ∀ f, last = some f →
    b.steps = [] ∧ f = .free ∨ f ≠ .free ∧ ∃ earlier, b.steps = earlier ++ [f.node]
  kind : ∀ f k, last = some f → f.kind = some k → .kind k ∈ done
  visibility : ∀ f v, last = some f → f.visibility = some v → .visibility v ∈ done
  name : ∀ f pattern, last = some f → f.namePattern = some pattern →
    .name pattern ∈ done ∧ (engines.compileString pattern).isSome = true
  filter : last = none → ∃ earlier predicate, b.steps = earlier ++ [.filter predicate]
  condition : last = none → ∃ step ∈ done, step.predicate?.isSome = true

theorem tracks_new (engines : PlanEngines) : Tracks engines (some .free) [] new where
  flat := fun step hmem => absurd hmem List.not_mem_nil
  scan := fun f h => Or.inl ⟨rfl, (Option.some.inj h).symm⟩
  kind := fun f k h hk => by cases h; cases hk
  visibility := fun f v h hv => by cases h; cases hv
  name := fun f pattern h hn => by cases h; cases hn
  filter := fun h => by cases h
  condition := fun h => by cases h

variable {engines : PlanEngines} {done : List QueryStep} {b : QueryBuilder}

theorem Tracks.applyVisibility {f : ScanFilters} (h : Tracks engines (some f) done b)
    (hbuilds : b.steps ≠ [] → b.Builds) (v : Visibility) :
    b.applyVisibility v = ⟨b.steps.dropLast ++
      [.nodeScan f.kind (some (f.visibility.getD v)) f.namePattern]⟩ := by
  cases h.scan f rfl with
  | inl hempty =>
    obtain ⟨hsteps, rfl⟩ := hempty
    obtain ⟨steps⟩ := b
    cases hsteps
    rfl
  | inr hlast =>
    obtain ⟨_, earlier, hsteps⟩ := hlast
    have hb := hbuilds (by rw [hsteps]; exact List.append_ne_nil_of_right_ne_nil _ (List.cons_ne_nil _ _))
    have hlast : b.builderSteps.getLast? = some f.node := by
      rw [builderSteps_of_builds hb, hsteps, List.getLast?_append]
      rfl
    rw [QueryBuilder.applyVisibility, hlast, stripLastStep_of_flat hb h.flat]
    rfl

theorem Tracks.applyNamePattern {f : ScanFilters} (h : Tracks engines (some f) done b)
    (hbuilds : b.steps ≠ [] → b.Builds) (hname : f.namePattern = none)
    (pattern : StringPattern) :
    b.applyNamePattern pattern = ⟨b.steps.dropLast ++
      [.nodeScan f.kind f.visibility (some pattern)]⟩ := by
  cases h.scan f rfl with
  | inl hempty =>
    obtain ⟨hsteps, rfl⟩ := hempty
    obtain ⟨steps⟩ := b
    cases hsteps
    rfl
  | inr hlast =>
    obtain ⟨_, earlier, hsteps⟩ := hlast
    have hb := hbuilds (by rw [hsteps]; exact List.append_ne_nil_of_right_ne_nil _ (List.cons_ne_nil _ _))
    have hlast : b.builderSteps.getLast? = some (.nodeScan f.kind f.visibility none) := by
      rw [builderSteps_of_builds hb, hsteps, List.getLast?_append, ← hname]
      rfl
    have hne : b.builderSteps.isEmpty = false := by
      cases hsteps : b.builderSteps with
      | nil =>
        rw [hsteps] at hlast
        cases hlast
      | cons step steps => rfl
    rw [QueryBuilder.applyNamePattern, hlast, hne, stripLastStep_of_flat hb h.flat]
    rfl

theorem Tracks.applyNamePattern_filter {last : Option ScanFilters}
    (h : Tracks engines last done b) (hbuilds : b.steps ≠ [] → b.Builds)
    (hname : ∀ f, last = some f → f.namePattern ≠ none) (pattern : StringPattern) :
    b.applyNamePattern pattern = b.filter (.leaf (.matchesName pattern)) := by
  have hfilter : ∀ node : PlanNode, b.steps.getLast? = some node →
      (∀ kind visibility, node ≠ .nodeScan kind visibility none) →
        b.applyNamePattern pattern = b.filter (.leaf (.matchesName pattern)) := by
    intro node hlast hnode
    have hsteps : b.steps ≠ [] := by
      intro hnil
      rw [hnil] at hlast
      cases hlast
    rw [QueryBuilder.applyNamePattern, builderSteps_of_builds (hbuilds hsteps), hlast,
      if_neg (by rw [List.isEmpty_iff]; exact hsteps)]
    split
    · rename_i kind visibility heq
      exact absurd (Option.some.inj heq) (hnode kind visibility)
    · rfl
  cases last with
  | none =>
    obtain ⟨earlier, predicate, hsteps⟩ := h.filter rfl
    refine hfilter (.filter predicate) ?_ ?_
    · rw [hsteps, List.getLast?_append]
      rfl
    · intro kind visibility heq
      cases heq
  | some f =>
    cases h.scan f rfl with
    | inl hempty =>
      obtain ⟨_, rfl⟩ := hempty
      exact absurd rfl (hname _ rfl)
    | inr hlast =>
      obtain ⟨_, earlier, hsteps⟩ := hlast
      refine hfilter f.node ?_ ?_
      · rw [hsteps, List.getLast?_append]
        rfl
      · intro kind visibility heq
        have hnone : f.namePattern = none := by
          rw [ScanFilters.node] at heq
          injection heq
        exact hname f rfl hnone

theorem Tracks.applyVisibility_filter (h : Tracks engines none done b) (v : Visibility) :
    b.applyVisibility v = b.scanWith ⟨none, some v, none⟩ := by
  obtain ⟨earlier, predicate, hsteps⟩ := h.filter rfl
  rw [QueryBuilder.applyVisibility]
  split
  · rename_i kind existingVis namePattern hlast
    by_cases hbuilds : b.Builds
    · rw [builderSteps_of_builds hbuilds, hsteps, List.getLast?_append] at hlast
      cases hlast
    · rw [builderSteps_of_not hbuilds] at hlast
      cases hlast
  · rfl

theorem Tracks.tryFoldResolvedVia {last : Option ScanFilters} (h : Tracks engines last done b)
    (via : ResolvedVia) : b.tryFoldResolvedVia via = none := by
  rw [QueryBuilder.tryFoldResolvedVia]
  split
  · rename_i direction argumentCount isAsync edgeVia maxDepth hlast
    exact absurd (h.flat _ (List.mem_of_getLast? hlast)) id
  · rfl

theorem Tracks.applyStep_scan {f next : ScanFilters} {step : QueryStep}
    (h : Tracks engines (some f) done b) (hbuilds : b.steps ≠ [] → b.Builds)
    (hnext : step.nextScan (some f) = some next) :
    next ≠ .free ∧ ∃ earlier ⊆ b.steps, b.applyStep step = ⟨earlier ++ [next.node]⟩ := by
  cases step with
  | kind k =>
    cases hnext
    exact ⟨ScanFilters.ne_free_of_kind rfl, b.steps, fun _ hmem => hmem, rfl⟩
  | visibility v =>
    cases hnext
    exact ⟨ScanFilters.ne_free_of_visibility rfl, b.steps.dropLast, List.dropLast_subset _,
      h.applyVisibility hbuilds v⟩
  | name pattern =>
    rw [QueryStep.nextScan] at hnext
    cases hname : f.namePattern with
    | some other =>
      rw [hname] at hnext
      cases hnext
    | none =>
      rw [hname] at hnext
      cases hnext
      exact ⟨ScanFilters.ne_free_of_name rfl, b.steps.dropLast, List.dropLast_subset _,
        h.applyNamePattern hbuilds hname pattern⟩
  | leaf p => cases hnext
  | relation kind value => cases hnext
  | resolvedVia via => cases hnext
  | traverse direction edgeKind depth => cases hnext

theorem Tracks.applyStep_filter {last : Option ScanFilters} {step : QueryStep}
    {predicate : Predicate} (h : Tracks engines last done b)
    (hbuilds : b.steps ≠ [] → b.Builds) (hnext : step.nextScan last = none)
    (hpredicate : step.predicate? = some predicate) :
    b.applyStep step = b.filter predicate := by
  cases step with
  | kind k => cases hpredicate
  | visibility v => cases hpredicate
  | name pattern =>
    cases hpredicate
    apply h.applyNamePattern_filter hbuilds
    intro f hlast hname
    rw [hlast, QueryStep.nextScan, hname] at hnext
    cases hnext
  | leaf p =>
    cases hpredicate
    rfl
  | relation kind value =>
    cases hpredicate
    rfl
  | resolvedVia via =>
    cases hpredicate
    show (b.tryFoldResolvedVia via).getD _ = _
    rw [h.tryFoldResolvedVia]
    rfl
  | traverse direction edgeKind depth => cases hpredicate

theorem Tracks.predicate_of_next {last : Option ScanFilters} {step : QueryStep}
    (hfits : step.Fits engines last) (htraverse : step.isTraverse = false)
    (hnext : step.nextScan last = none) : ∃ predicate, step.predicate? = some predicate := by
  cases step with
  | kind k =>
    cases last with
    | none => exact absurd hfits id
    | some f => cases hnext
  | visibility v =>
    cases last with
    | none => exact absurd hfits id
    | some f => cases hnext
  | name pattern => exact ⟨_, rfl⟩
  | leaf p => exact ⟨_, rfl⟩
  | relation kind value => exact ⟨_, rfl⟩
  | resolvedVia via => exact ⟨_, rfl⟩
  | traverse direction edgeKind depth => cases htraverse

theorem Tracks.next_filter {last : Option ScanFilters} {step : QueryStep} {predicate : Predicate}
    (h : Tracks engines last done b) (hpredicate : step.predicate? = some predicate) :
    Tracks engines none (done ++ [step]) (b.filter predicate) where
  flat := by
    intro node hmem
    cases List.mem_append.mp hmem with
    | inl hmem => exact h.flat node hmem
    | inr hmem =>
      rw [List.mem_singleton.mp hmem]
      exact trivial
  scan := fun f hlast => by cases hlast
  kind := fun f k hlast => by cases hlast
  visibility := fun f v hlast => by cases hlast
  name := fun f pattern hlast => by cases hlast
  filter := fun _ => ⟨b.steps, predicate, rfl⟩
  condition := fun _ => ⟨step, List.mem_append_right _ List.mem_cons_self, by rw [hpredicate]; rfl⟩

theorem Tracks.next_scan {f next : ScanFilters} {step : QueryStep} {earlier : List PlanNode}
    (h : Tracks engines (some f) done b) (hfits : step.Fits engines (some f))
    (hnext : step.nextScan (some f) = some next) (hfree : next ≠ .free)
    (hearlier : earlier ⊆ b.steps) :
    Tracks engines (some next) (done ++ [step]) ⟨earlier ++ [next.node]⟩ where
  flat := by
    intro node hmem
    cases List.mem_append.mp hmem with
    | inl hmem => exact h.flat node (hearlier hmem)
    | inr hmem =>
      rw [List.mem_singleton.mp hmem]
      exact trivial
  scan := by
    intro g hlast
    cases hlast
    exact Or.inr ⟨hfree, earlier, rfl⟩
  kind := by
    intro g k hlast hk
    cases hlast
    cases step with
    | kind k' =>
      cases hnext
      cases hk
      exact List.mem_append_right _ List.mem_cons_self
    | visibility v =>
      cases hnext
      exact List.mem_append_left _ (h.kind f k rfl hk)
    | name pattern =>
      rw [QueryStep.nextScan] at hnext
      split at hnext
      · cases hnext
        exact List.mem_append_left _ (h.kind f k rfl hk)
      · cases hnext
    | leaf p => cases hnext
    | relation kind value => cases hnext
    | resolvedVia via => cases hnext
    | traverse direction edgeKind depth => cases hnext
  visibility := by
    intro g v hlast hv
    cases hlast
    cases step with
    | kind k =>
      cases hnext
      cases hv
    | visibility w =>
      cases hnext
      cases hf : f.visibility with
      | none =>
        rw [hf] at hv
        cases hv
        exact List.mem_append_right _ List.mem_cons_self
      | some u =>
        rw [hf] at hv
        cases hv
        exact List.mem_append_left _ (h.visibility f _ rfl hf)
    | name pattern =>
      rw [QueryStep.nextScan] at hnext
      split at hnext
      · cases hnext
        exact List.mem_append_left _ (h.visibility f v rfl hv)
      · cases hnext
    | leaf p => cases hnext
    | relation kind value => cases hnext
    | resolvedVia via => cases hnext
    | traverse direction edgeKind depth => cases hnext
  name := by
    intro g pattern hlast hpattern
    cases hlast
    cases step with
    | kind k =>
      cases hnext
      cases hpattern
    | visibility w =>
      cases hnext
      obtain ⟨hmem, hcompiles⟩ := h.name f pattern rfl hpattern
      exact ⟨List.mem_append_left _ hmem, hcompiles⟩
    | name other =>
      rw [QueryStep.nextScan] at hnext
      split at hnext
      · rename_i hnone
        cases hnext
        cases hpattern
        exact ⟨List.mem_append_right _ List.mem_cons_self, hfits hnone⟩
      · cases hnext
    | leaf p => cases hnext
    | relation kind value => cases hnext
    | resolvedVia via => cases hnext
    | traverse direction edgeKind depth => cases hnext
  filter := fun hlast => by cases hlast
  condition := fun hlast => by cases hlast

theorem Tracks.next {last : Option ScanFilters} {step : QueryStep}
    (h : Tracks engines last done b) (hbuilds : b.steps ≠ [] → b.Builds)
    (hfits : step.Fits engines last) (htraverse : step.isTraverse = false) :
    Tracks engines (step.nextScan last) (done ++ [step]) (b.applyStep step) := by
  cases hnext : step.nextScan last with
  | none =>
    obtain ⟨predicate, hpredicate⟩ := predicate_of_next hfits htraverse hnext
    rw [h.applyStep_filter hbuilds hnext hpredicate]
    exact h.next_filter hpredicate
  | some next =>
    cases last with
    | none => cases step <;> cases hnext
    | some f =>
      obtain ⟨hfree, earlier, hearlier, happly⟩ := h.applyStep_scan hbuilds hnext
      rw [happly]
      exact h.next_scan hfits hnext hfree hearlier

end QueryBuilder
end Tracking

namespace PlannerDb
variable {db : PlannerDb}

section Scan

def Scanned (db : PlannerDb) (kind : Option NodeKind) (node : NodeId) (entry : NodeEntry) : Prop :=
  match kind with
  | some k => node ∈ db.snapshot.byKind k ∧ db.snapshot.nodes.get node = some entry
  | none => (node, entry) ∈ db.snapshot.nodes.iter ∧ entry.isUnifiedLoser = false

theorem Scanned.holds {kind : Option NodeKind} {node : NodeId} {entry : NodeEntry}
    (h : db.Scanned kind node entry) : db.snapshot.nodes.Holds node entry := by
  cases kind with
  | some k => exact NodeArena.holds_of_get h.2
  | none => exact NodeArena.holds_of_mem_iter h.1

theorem mem_runScan {kind : Option NodeKind} {visibility : Option Visibility}
    {namePattern : Option StringPattern} {node : NodeId} :
    node ∈ db.runScan kind visibility namePattern ↔
      ∃ entry, db.Scanned kind node entry ∧
        db.scanMatch visibility (namePattern.bind db.engines.compileString) node entry = true := by
  cases kind with
  | some k =>
    show node ∈ dedupSort ((db.snapshot.byKind k).filter _) ↔ _
    rw [mem_dedupSort, List.mem_filter]
    constructor
    · intro ⟨hmem, hkeep⟩
      cases hget : db.snapshot.nodes.get node with
      | none =>
        rw [hget] at hkeep
        cases hkeep
      | some entry =>
        rw [hget] at hkeep
        exact ⟨entry, ⟨hmem, hget⟩, hkeep⟩
    · intro ⟨entry, ⟨hmem, hget⟩, hkeep⟩
      refine ⟨hmem, ?_⟩
      rw [hget]
      exact hkeep
  | none =>
    show node ∈ dedupSort ((db.snapshot.nodes.iter.filter _).map Prod.fst) ↔ _
    rw [mem_dedupSort, List.mem_map]
    constructor
    · intro ⟨p, hmem, hnode⟩
      obtain ⟨hiter, hkeep⟩ := List.mem_filter.mp hmem
      rw [Bool.and_eq_true, Bool.not_eq_true'] at hkeep
      cases hnode
      exact ⟨p.2, ⟨hiter, hkeep.1⟩, hkeep.2⟩
    · intro ⟨entry, ⟨hiter, hloser⟩, hkeep⟩
      refine ⟨(node, entry), List.mem_filter.mpr ⟨hiter, ?_⟩, rfl⟩
      rw [Bool.and_eq_true, Bool.not_eq_true']
      exact ⟨hloser, hkeep⟩

theorem selected_scan (db : PlannerDb) (earlier : List PlanNode) (f : ScanFilters) :
    db.selected ⟨earlier ++ [f.node]⟩ = db.runScan f.kind f.visibility f.namePattern :=
  db.evaluateSteps_append earlier [f.node] []

theorem mem_selected_filter {b : QueryBuilder} {predicate : Predicate} {node : NodeId} :
    node ∈ db.selected (b.filter predicate) ↔
      node ∈ db.selected b ∧ db.satisfies predicate node = true := by
  have heq : db.selected (b.filter predicate) =
      dedupSort ((db.selected b).filter (db.satisfies predicate)) :=
    db.evaluateSteps_append b.steps [.filter predicate] []
  rw [heq, mem_dedupSort, List.mem_filter]

theorem not_mem_runScan_of_matchesNothing {f : ScanFilters} (h : f.MatchesNothing db.engines)
    (hcompiles : ∀ pattern, f.namePattern = some pattern →
      (db.engines.compileString pattern).isSome = true)
    (kind : Option NodeKind) (visibility : Option Visibility) (node : NodeId) :
    node ∉ db.runScan kind visibility f.namePattern := by
  intro hmem
  obtain ⟨pattern, hname, hnothing⟩ := h
  obtain ⟨isMatch, hcompiled⟩ := Option.isSome_iff_exists.mp (hcompiles pattern hname)
  have hreject : ∀ text, isMatch text = false := by
    intro text
    rw [← hnothing text, PlanEngines.compileOrReject, hcompiled]
    rfl
  obtain ⟨entry, _, hkeep⟩ := mem_runScan.mp hmem
  rw [hname, Option.bind_some, hcompiled] at hkeep
  have hmatches := (Bool.and_eq_true _ _).mp ((Bool.and_eq_true _ _).mp hkeep).2
  rw [PlannerSnapshot.entryNameOrDisplayMatches] at hmatches
  revert hmatches
  cases db.snapshot.resolve entry.name <;>
    cases entry.qualifiedName.bind db.snapshot.resolve <;> simp [hreject]

end Scan

section Step
variable {done : List QueryStep} {b : QueryBuilder} {step : QueryStep}

theorem runScan_next {f next : ScanFilters}
    (h : QueryBuilder.Tracks db.engines (some f) done b) (hfits : step.Fits db.engines (some f))
    (hnext : step.nextScan (some f) = some next) {node : NodeId}
    (hmem : node ∈ db.runScan next.kind next.visibility next.namePattern) :
    db.Meets node step ∧
      (f ≠ .free → node ∈ db.runScan f.kind f.visibility f.namePattern) := by
  obtain ⟨entry, hscanned, hkeep⟩ := mem_runScan.mp hmem
  cases step with
  | kind k =>
    cases hnext
    refine ⟨⟨entry, hscanned.holds, db.snapshot.byKind_kind k node hscanned.1 entry hscanned.2⟩,
      ?_⟩
    intro hfree
    obtain ⟨hkind, hvisibility, hname⟩ := hfits
    cases hkind with
    | inl hnone =>
      obtain ⟨kind, visibility, namePattern⟩ := f
      cases hnone
      cases hvisibility
      cases hname
      exact absurd rfl hfree
    | inr hsame =>
      rw [hsame, hvisibility, hname]
      exact hmem
  | visibility v =>
    cases hnext
    cases hvisibility : f.visibility with
    | none =>
      rw [hvisibility, Option.getD_none] at hkeep
      obtain ⟨hv, hname⟩ := (Bool.and_eq_true _ _).mp hkeep
      refine ⟨⟨entry, hscanned.holds, of_decide_eq_true hv⟩, fun _ => ?_⟩
      exact mem_runScan.mpr ⟨entry, hscanned, (Bool.and_eq_true _ _).mpr ⟨rfl, hname⟩⟩
    | some w =>
      rw [hvisibility, Option.getD_some] at hkeep
      cases hfits with
      | inl hnone =>
        rw [hvisibility] at hnone
        cases hnone
      | inr hfits =>
        cases hfits with
        | inl hsame =>
          rw [hvisibility] at hsame
          cases hsame
          refine ⟨⟨entry, hscanned.holds,
            of_decide_eq_true ((Bool.and_eq_true _ _).mp hkeep).1⟩, fun _ => ?_⟩
          exact mem_runScan.mpr ⟨entry, hscanned, hkeep⟩
        | inr hnothing =>
          exact absurd hmem (not_mem_runScan_of_matchesNothing hnothing
            (fun pattern hname => (h.name f pattern rfl hname).2) _ _ node)
  | name pattern =>
    rw [QueryStep.nextScan] at hnext
    cases hname : f.namePattern with
    | some other =>
      rw [hname] at hnext
      cases hnext
    | none =>
      rw [hname] at hnext
      cases hnext
      obtain ⟨isMatch, hcompiled⟩ := Option.isSome_iff_exists.mp (hfits hname)
      obtain ⟨hv, hmatch⟩ := (Bool.and_eq_true _ _).mp hkeep
      refine ⟨⟨entry, hscanned.holds, ?_⟩, fun _ => ?_⟩
      · rw [Option.bind_some, hcompiled] at hmatch
        obtain ⟨hmatches, hreal⟩ := (Bool.and_eq_true _ _).mp hmatch
        rw [PlannerSnapshot.entryNameMatches, PlanEngines.compileOrReject, hcompiled,
          Option.getD_some, hmatches]
        exact hreal
      · exact mem_runScan.mpr ⟨entry, hscanned, (Bool.and_eq_true _ _).mpr ⟨hv, rfl⟩⟩
  | leaf p => cases hnext
  | relation kind value => cases hnext
  | resolvedVia via => cases hnext
  | traverse direction edgeKind depth => cases hnext

theorem meets_of_satisfies {predicate : Predicate} {node : NodeId}
    (hpredicate : step.predicate? = some predicate) (h : db.satisfies predicate node = true) :
    db.Meets node step := by
  cases step with
  | kind k => cases hpredicate
  | visibility v => cases hpredicate
  | name pattern =>
    cases hpredicate
    rw [satisfies] at h
    cases hget : db.snapshot.nodes.get node with
    | none =>
      rw [hget] at h
      cases h
    | some entry =>
      rw [hget] at h
      exact ⟨entry, NodeArena.holds_of_get hget, h⟩
  | leaf p =>
    cases hpredicate
    exact h
  | relation kind value =>
    cases hpredicate
    exact h
  | resolvedVia via =>
    cases hpredicate
    exact h
  | traverse direction edgeKind depth => cases hpredicate

theorem selected_next {last : Option ScanFilters}
    (h : QueryBuilder.Tracks db.engines last done b) (hbuilds : b.steps ≠ [] → b.Builds)
    (hfits : step.Fits db.engines last) (htraverse : step.isTraverse = false) {node : NodeId}
    (hmem : node ∈ db.selected (b.applyStep step)) :
    db.Meets node step ∧ (b.steps ≠ [] → node ∈ db.selected b) := by
  cases hnext : step.nextScan last with
  | none =>
    obtain ⟨predicate, hpredicate⟩ :=
      QueryBuilder.Tracks.predicate_of_next hfits htraverse hnext
    rw [h.applyStep_filter hbuilds hnext hpredicate] at hmem
    obtain ⟨hbefore, hsatisfies⟩ := mem_selected_filter.mp hmem
    exact ⟨meets_of_satisfies hpredicate hsatisfies, fun _ => hbefore⟩
  | some next =>
    cases last with
    | none => cases step <;> cases hnext
    | some f =>
      obtain ⟨_, earlier, _, happly⟩ := h.applyStep_scan hbuilds hnext
      rw [happly, selected_scan] at hmem
      obtain ⟨hmeets, hbefore⟩ := runScan_next h hfits hnext hmem
      refine ⟨hmeets, fun hne => ?_⟩
      cases h.scan f rfl with
      | inl hempty => exact absurd hempty.1 hne
      | inr hlast =>
        obtain ⟨hfree, before, hsteps⟩ := hlast
        have hb : b = ⟨before ++ [f.node]⟩ := by
          rw [← hsteps]
        rw [hb, selected_scan]
        exact hbefore hfree

theorem Narrows.next {last : Option ScanFilters} (hnarrows : db.Narrows done)
    (h : QueryBuilder.Tracks db.engines last done (.ofSteps done))
    (hfits : step.Fits db.engines last) (htraverse : step.isTraverse = false)
    (hbuilds : done ≠ [] → (QueryBuilder.ofSteps done).Builds) : db.Narrows (done ++ [step]) := by
  have hearlier : (QueryBuilder.ofSteps done).steps ≠ [] → done ≠ [] := by
    intro hsteps hdone
    rw [hdone] at hsteps
    exact hsteps rfl
  have hstep : ∀ plan, (QueryBuilder.ofSteps (done ++ [step])).build = .ok plan →
      ∀ node ∈ executePlan db plan,
        db.Meets node step ∧ (done ≠ [] → node ∈ db.selected (.ofSteps done)) := by
    intro plan hplan node hmem
    rw [db.executePlan_of_build hplan, QueryBuilder.ofSteps_append_singleton] at hmem
    obtain ⟨hmeets, hbefore⟩ :=
      selected_next h (fun hsteps => hbuilds (hearlier hsteps)) hfits htraverse hmem
    exact ⟨hmeets, fun hdone => hbefore (QueryBuilder.ofSteps_ne_nil hdone)⟩
  refine ⟨?_, ?_⟩
  · intro plan hplan n shorter hshorter node hmem
    by_cases hn : n ≤ done.length
    · rw [List.take_append_of_le_length hn] at hshorter
      have hdone : done ≠ [] := by
        intro hnil
        rw [hnil, List.take_nil] at hshorter
        cases hshorter
      have hbuild := QueryBuilder.build_eq_ok_iff.mpr ⟨hbuilds hdone, rfl⟩
      apply hnarrows.subset _ hbuild n shorter hshorter
      rw [db.executePlan_of_build hbuild]
      exact (hstep plan hplan node hmem).2 hdone
    · rw [List.take_of_length_le (by rw [List.length_append]; exact Nat.lt_of_not_le hn),
        hplan] at hshorter
      cases hshorter
      exact hmem
  · intro plan hplan node hmem earlier hearlierMem
    obtain ⟨hmeets, hbefore⟩ := hstep plan hplan node hmem
    cases List.mem_append.mp hearlierMem with
    | inl hin =>
      have hdone := List.ne_nil_of_mem hin
      have hbuild := QueryBuilder.build_eq_ok_iff.mpr ⟨hbuilds hdone, rfl⟩
      apply hnarrows.meets _ hbuild node _ earlier hin
      rw [db.executePlan_of_build hbuild]
      exact hbefore hdone
    | inr hin =>
      rw [List.mem_singleton.mp hin]
      exact hmeets

theorem narrows_nil (db : PlannerDb) : db.Narrows [] where
  subset := fun plan hplan => by cases hplan
  meets := fun plan hplan => by cases hplan

theorem narrows_of_allFit {last : Option ScanFilters} {more : List QueryStep}
    (hnarrows : db.Narrows done) (h : QueryBuilder.Tracks db.engines last done (.ofSteps done))
    (hfits : QueryStep.AllFit db.engines last more)
    (htraverse : ∀ step ∈ more, step.isTraverse = false)
    (hbuilds : (QueryBuilder.ofSteps (done ++ more)).Builds) (n : Nat) :
    db.Narrows (done ++ more.take n) := by
  induction more generalizing last done n with
  | nil =>
    rw [List.take_nil, List.append_nil]
    exact hnarrows
  | cons step more ih =>
    cases n with
    | zero =>
      rw [List.take_zero, List.append_nil]
      exact hnarrows
    | succ n =>
      have hstepTraverse := htraverse step List.mem_cons_self
      have hdone : done ≠ [] → (QueryBuilder.ofSteps done).Builds := hbuilds.of_append
      have hnext := h.next (fun hsteps => hdone fun hnil => hsteps (by rw [hnil]; rfl))
        hfits.1 hstepTraverse
      rw [← QueryBuilder.ofSteps_append_singleton] at hnext
      rw [List.take_succ_cons, List.append_cons]
      refine ih (hnarrows.next h hfits.1 hstepTraverse hdone) hnext hfits.2
        (fun later hmem => htraverse later (List.mem_cons_of_mem _ hmem)) ?_ n
      rw [← List.append_cons]
      exact hbuilds

end Step

end PlannerDb
end Sqry
