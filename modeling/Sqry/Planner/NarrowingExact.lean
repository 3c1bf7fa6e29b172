import Sqry.Planner.Narrowing
import Sqry.Planner.Parse

/-!
The steps that do not fit break the law on a graph of one node. The node is chosen so that
the scan a step starts anew finds it, while a step before does not accept it.
-/

namespace Sqry

/-- What is recorded of the node: its name is `f`, and `text` is its qualified name. -/
structure LoneNode where
  kind : NodeKind
  visibility : Visibility
  text : String
  synthetic : Bool
  flag : Bool
  used : Bool

namespace LoneNode

def plain (kind : NodeKind) (visibility : Visibility) : LoneNode :=
  ⟨kind, visibility, "f", false, false, false⟩

def id : NodeId := ⟨0, 1⟩

variable (l : LoneNode)

def visibilityText : String :=
  match l.visibility with
  | .public => "public"
  | .private => "private"

def entry : NodeEntry where
  kind := l.kind
  name := .ofUInt8 1
  file := 1
  qualifiedName := some (.ofUInt8 2)
  visibility := some (.ofUInt8 3)
  startByte := 0
  endByte := 0
  isStatic := false
  isUnsafe := l.flag
  isDefinition := l.flag

def graph : GraphSnapshot where
  nodes := ⟨[⟨1, .occupied l.entry⟩], none, 1⟩
  strings := ⟨[none, some "f", some l.text, some l.visibilityText], ∅, [0, 1, 1, 1], [], none,
    true⟩
  files := ⟨[none, some ⟨none⟩]⟩
  edges :=
    if l.used then BidirectionalEdgeStore.new.addEdge id id .references 1
    else BidirectionalEdgeStore.new

theorem get_id : l.graph.nodes.get id = some l.entry := rfl

theorem holds_id {entry : NodeEntry} (h : l.graph.nodes.Holds id entry) : entry = l.entry :=
  NodeArena.holds_inj h (NodeArena.holds_of_get l.get_id)

def byKind (kind : NodeKind) : List NodeId := if kind = l.kind then [id] else []

theorem byKind_kind (kind : NodeKind) (node : NodeId) (hmem : node ∈ l.byKind kind)
    (entry : NodeEntry) (hget : l.graph.nodes.get node = some entry) : entry.kind = kind := by
  rw [byKind] at hmem
  by_cases hkind : kind = l.kind
  · rw [if_pos hkind] at hmem
    cases List.mem_singleton.mp hmem
    rw [l.get_id] at hget
    cases hget
    exact hkind.symm
  · rw [if_neg hkind] at hmem
    cases hmem

def snapshot : PlannerSnapshot where
  toGraphSnapshot := l.graph
  byKind := l.byKind
  byKind_kind := l.byKind_kind
  filePath := fun _ => none
  metadata :=
    { isSynthetic := fun _ => l.synthetic
      isAddressTaken := fun _ => l.flag
      isCallsitePromiscuous := fun _ => l.flag
      frameworkRoute := fun _ => none
      cfgCondition := fun _ => none
      hasShapeDescriptor := fun _ => false }
  scopes := []

def db (engines : PlanEngines) : PlannerDb where
  snapshot := l.snapshot
  engines := engines
  get := fun _ _ => []
  structuralNeighbors := fun _ => []

variable {l} {engines : PlanEngines}

theorem entryVisibility_entry : l.snapshot.entryVisibility l.entry = some l.visibility := by
  show Visibility.parse l.visibilityText = _
  rw [visibilityText]
  cases l.visibility <;> decide

theorem not_meets_kind {k : NodeKind} (h : k ≠ l.kind) : ¬ (l.db engines).Meets id (.kind k) := by
  intro ⟨entry, hholds, hkind⟩
  rw [l.holds_id hholds] at hkind
  exact h hkind.symm

theorem not_meets_visibility {v : Visibility} (h : v ≠ l.visibility) :
    ¬ (l.db engines).Meets id (.visibility v) := by
  intro ⟨entry, hholds, hvisibility⟩
  rw [l.holds_id hholds] at hvisibility
  have heq := entryVisibility_entry.symm.trans hvisibility
  exact h (Option.some.inj heq).symm

theorem isNodeSynthetic_id (h : l.synthetic = true) : l.snapshot.isNodeSynthetic id = true := by
  show (l.synthetic || _) = true
  rw [h]
  rfl

theorem entryNameMatches_synthetic (h : l.synthetic = true) (isMatch : String → Bool) :
    l.snapshot.entryNameMatches id l.entry isMatch = false := by
  rw [PlannerSnapshot.entryNameMatches, isNodeSynthetic_id h]
  cases l.snapshot.entryNameOrDisplayMatches l.entry isMatch <;> rfl

theorem not_meets_name (h : l.synthetic = true) (pattern : StringPattern) :
    ¬ (l.db engines).Meets id (.name pattern) := by
  intro ⟨entry, hholds, hmatches⟩
  rw [l.holds_id hholds] at hmatches
  have heq := (entryNameMatches_synthetic h _).symm.trans hmatches
  cases heq

theorem not_meets_name_of_not_compiled {pattern : StringPattern}
    (h : engines.compileString pattern = none) : ¬ (l.db engines).Meets id (.name pattern) := by
  intro ⟨entry, hholds, hmatches⟩
  have hreject : (l.db engines).engines.compileOrReject pattern = fun _ => false := by
    show (engines.compileString pattern).getD _ = _
    rw [h]
    rfl
  rw [hreject, PlannerSnapshot.entryNameMatches, PlannerSnapshot.entryNameOrDisplayMatches]
    at hmatches
  revert hmatches
  cases (l.db engines).snapshot.resolve entry.name <;>
    cases entry.qualifiedName.bind (l.db engines).snapshot.resolve <;> simp

theorem entryNameMatches_text {isMatch : String → Bool} (hsynthetic : l.synthetic = false)
    (h : isMatch l.text = true) :
    (l.snapshot.entryNameOrDisplayMatches l.entry isMatch &&
      !l.snapshot.isNodeSynthetic id) = true := by
  have hreal : l.snapshot.isNodeSynthetic id = false := by
    show (l.synthetic || isSyntheticPlaceholderName "f") = false
    rw [hsynthetic]
    decide
  have hmatches : l.snapshot.entryNameOrDisplayMatches l.entry isMatch = true := by
    show (if isMatch "f" = true then true
      else if isMatch l.text = true then true else _) = true
    rw [if_pos h, ite_self]
  rw [hmatches, hreal]
  rfl

theorem id_mem_runScan {kind : Option NodeKind} {visibility : Option Visibility}
    {namePattern : Option StringPattern} (hkind : ∀ k, kind = some k → k = l.kind)
    (hvisibility : ∀ v, visibility = some v → v = l.visibility)
    (hname : ∀ isMatch, namePattern.bind engines.compileString = some isMatch →
      l.synthetic = false ∧ isMatch l.text = true) :
    id ∈ (l.db engines).runScan kind visibility namePattern := by
  refine PlannerDb.mem_runScan.mpr ⟨l.entry, ?_, ?_⟩
  · cases kind with
    | none => exact ⟨List.mem_cons_self, rfl⟩
    | some k =>
      refine ⟨?_, l.get_id⟩
      show id ∈ l.byKind k
      rw [byKind, if_pos (hkind k rfl)]
      exact List.mem_cons_self
  · refine (Bool.and_eq_true _ _).mpr ⟨?_, ?_⟩
    · cases visibility with
      | none => rfl
      | some v =>
        rw [hvisibility v rfl]
        exact decide_eq_true entryVisibility_entry
    · simp only [show (l.db engines).engines = engines from rfl]
      cases hcompiled : namePattern.bind engines.compileString with
      | none => rfl
      | some isMatch =>
        obtain ⟨hsynthetic, htext⟩ := hname isMatch hcompiled
        exact entryNameMatches_text hsynthetic htext

section Conditions

theorem exists_checkLeaf_false (engines : PlanEngines) (kind : NodeKind) (visibility : Visibility)
    (p : LeafPredicate) : ∃ l : LoneNode, l.kind = kind ∧ l.visibility = visibility ∧
      (l.db engines).checkLeaf id l.entry p = false := by
  have hflag : ∀ want : Bool, decide ((!want) = want) = false := by decide
  cases p with
  | isUnused => exact ⟨{ plain kind visibility with used := true }, rfl, rfl, rfl⟩
  | isAddressTaken want =>
    exact ⟨{ plain kind visibility with flag := !want }, rfl, rfl, hflag want⟩
  | hasCallsitePromiscuous want =>
    exact ⟨{ plain kind visibility with flag := !want }, rfl, rfl, hflag want⟩
  | isDefinition want =>
    exact ⟨{ plain kind visibility with flag := !want }, rfl, rfl, hflag want⟩
  | isUnsafe want => exact ⟨{ plain kind visibility with flag := !want }, rfl, rfl, hflag want⟩
  | matchesName pattern =>
    exact ⟨{ plain kind visibility with synthetic := true }, rfl, rfl,
      entryNameMatches_synthetic rfl _⟩
  | resolvedViaEq set =>
    refine ⟨plain kind visibility, rfl, rfl, ?_⟩
    exact List.any_eq_false.mpr fun via _ => Bool.false_ne_true
  | shapeSimilar symbol =>
    refine ⟨plain kind visibility, rfl, rfl, ?_⟩
    have hnone : ((plain kind visibility).db engines).resolveShapeProbe symbol = none := by
      rw [PlannerDb.resolveShapeProbe, Option.map_eq_none_iff, List.find?_eq_none]
      intro node _ hprobe
      simp [db, snapshot] at hprobe
    rw [PlannerDb.checkLeaf, PlannerDb.computeShapeNeighborSet, hnone]
    rfl
  | _ => exact ⟨plain kind visibility, rfl, rfl, rfl⟩

theorem exists_not_meets (engines : PlanEngines) (kind : NodeKind) (visibility : Visibility)
    {step : QueryStep} (h : step.predicate?.isSome = true) :
    ∃ l : LoneNode, l.kind = kind ∧ l.visibility = visibility ∧
      ¬ (l.db engines).Meets id step := by
  have hleaf : ∀ p : LeafPredicate, ∃ l : LoneNode, l.kind = kind ∧ l.visibility = visibility ∧
      ¬ (l.db engines).satisfies (.leaf p) id = true := by
    intro p
    obtain ⟨l, hkind, hvisibility, hfalse⟩ := exists_checkLeaf_false engines kind visibility p
    refine ⟨l, hkind, hvisibility, fun htrue => ?_⟩
    have heq : (l.db engines).checkLeaf id l.entry p = true := htrue
    rw [hfalse] at heq
    cases heq
  cases step with
  | kind k => cases h
  | visibility v => cases h
  | name pattern =>
    exact ⟨{ plain kind visibility with synthetic := true }, rfl, rfl, not_meets_name rfl _⟩
  | leaf p => exact hleaf p
  | relation relation value =>
    refine ⟨plain kind visibility, rfl, rfl, fun htrue => ?_⟩
    cases value with
    | pattern p => cases htrue
    | regex r => cases htrue
    | subquery plan =>
      have hnone : (plain kind visibility).snapshot.relationNeighbours id
          relation.traversal.1 = [] := by
        cases relation.traversal.1 <;> rfl
      have heq : (plain kind visibility).snapshot.relationMatchesNodeViaSet relation id
          (((plain kind visibility).db engines).evaluate plan []) = true := htrue
      rw [PlannerSnapshot.relationMatchesNodeViaSet, hnone] at heq
      cases heq
  | resolvedVia via => exact hleaf (.resolvedVia via)
  | traverse direction edgeKind depth => cases h

end Conditions

end LoneNode

section Exact
variable {engines : PlanEngines} {done : List QueryStep}

def Visibility.other : Visibility → Visibility
  | .public => .private
  | .private => .public

theorem Visibility.ne_other (v : Visibility) : v ≠ v.other := by
  cases v <;> decide

variable {last : Option ScanFilters} {steps : List QueryStep}

theorem LoneNode.not_narrows (l : LoneNode) {step : QueryStep}
    (hbuilds : (QueryBuilder.ofSteps steps).Builds) (hstep : step ∈ steps)
    (hmem : LoneNode.id ∈ (l.db engines).selected (.ofSteps steps))
    (hnot : ¬ (l.db engines).Meets LoneNode.id step) : ¬ (l.db engines).Narrows steps := by
  intro hnarrows
  have hbuild := QueryBuilder.build_eq_ok_iff.mpr ⟨hbuilds, rfl⟩
  apply hnot
  apply hnarrows.meets _ hbuild LoneNode.id _ step hstep
  rw [PlannerDb.executePlan_of_build _ hbuild]
  exact hmem

theorem selected_kind (db : PlannerDb) (done : List QueryStep) (k : NodeKind) :
    db.selected (.ofSteps (done ++ [.kind k])) = db.runScan (some k) none none := by
  rw [QueryBuilder.ofSteps_append_singleton]
  exact db.selected_scan (QueryBuilder.ofSteps done).steps ⟨some k, none, none⟩

theorem LoneNode.id_mem_selected_kind (l : LoneNode) (done : List QueryStep) :
    LoneNode.id ∈ (l.db engines).selected (.ofSteps (done ++ [.kind l.kind])) := by
  rw [selected_kind]
  refine LoneNode.id_mem_runScan (fun k hk => (Option.some.inj hk).symm) nofun nofun

theorem fits_kind {k : NodeKind} (h : QueryBuilder.Tracks engines last done (.ofSteps done))
    (hbuilds : (QueryBuilder.ofSteps (done ++ [.kind k])).Builds)
    (hnarrows : ∀ db : PlannerDb, db.engines = engines → db.Narrows (done ++ [.kind k])) :
    (QueryStep.kind k).Fits engines last := by
  -- a node of the kind that a step before does not accept
  have hall : ∀ l : LoneNode, l.kind = k → ∀ step ∈ done,
      (l.db engines).Meets LoneNode.id step := by
    intro l hkind step hmem
    by_contra hnot
    cases hkind
    exact l.not_narrows hbuilds (List.mem_append_left _ hmem) (l.id_mem_selected_kind done) hnot
      (hnarrows (l.db engines) rfl)
  cases last with
  | none =>
    obtain ⟨step, hmem, hcondition⟩ := h.condition rfl
    obtain ⟨l, hkind, _, hnot⟩ :=
      LoneNode.exists_not_meets engines k .public hcondition
    exact hnot (hall l hkind step hmem)
  | some f =>
    refine ⟨?_, ?_, ?_⟩
    · cases hkind : f.kind with
      | none => exact Or.inl rfl
      | some k' =>
        refine Or.inr ?_
        by_contra hne
        exact LoneNode.not_meets_kind (fun heq => hne (congrArg some heq))
          (hall (.plain k .public) rfl _ (h.kind f k' rfl hkind))
    · cases hvisibility : f.visibility with
      | none => rfl
      | some v =>
        exact absurd (hall (.plain k v.other) rfl _ (h.visibility f v rfl hvisibility))
          (LoneNode.not_meets_visibility v.ne_other)
    · cases hname : f.namePattern with
      | none => rfl
      | some pattern =>
        exact absurd
          (hall { LoneNode.plain k .public with synthetic := true } rfl _
            (h.name f pattern rfl hname).1)
          (LoneNode.not_meets_name rfl pattern)

theorem fits_visibility {v : Visibility} (h : QueryBuilder.Tracks engines last done (.ofSteps done))
    (hearlier : (QueryBuilder.ofSteps done).steps ≠ [] → (QueryBuilder.ofSteps done).Builds)
    (hbuilds : (QueryBuilder.ofSteps (done ++ [.visibility v])).Builds)
    (hnarrows : ∀ db : PlannerDb, db.engines = engines → db.Narrows (done ++ [.visibility v])) :
    (QueryStep.visibility v).Fits engines last := by
  cases last with
  | none =>
    obtain ⟨step, hmem, hcondition⟩ := h.condition rfl
    obtain ⟨l, _, hvisibility, hnot⟩ :=
      LoneNode.exists_not_meets engines .function v hcondition
    refine l.not_narrows hbuilds (List.mem_append_left _ hmem) ?_ hnot
      (hnarrows (l.db engines) rfl)
    rw [QueryBuilder.ofSteps_append_singleton]
    show _ ∈ (l.db engines).selected ((QueryBuilder.ofSteps done).applyVisibility v)
    rw [h.applyVisibility_filter]
    show _ ∈ (l.db engines).selected ⟨_ ++ [ScanFilters.node ⟨none, some v, none⟩]⟩
    rw [PlannerDb.selected_scan]
    exact LoneNode.id_mem_runScan nofun
      (fun w hw => by cases hw; exact hvisibility.symm) nofun
  | some f =>
    cases hvisibility : f.visibility with
    | none => exact Or.inl hvisibility
    | some w =>
      by_cases hsame : w = v
      · rw [← hsame]
        exact Or.inr (Or.inl hvisibility)
      · refine Or.inr (Or.inr ?_)
        -- the scan keeps its visibility, so that a node it finds has another one
        have hreject : ∀ l : LoneNode, (∀ k, f.kind = some k → k = l.kind) →
            l.visibility = w →
            (∀ isMatch, f.namePattern.bind engines.compileString = some isMatch →
              l.synthetic = false ∧ isMatch l.text = true) → False := by
          intro l hkind hw hname
          refine l.not_narrows hbuilds (List.mem_append_right _ List.mem_cons_self) ?_
            (LoneNode.not_meets_visibility (by rw [hw]; exact fun heq => hsame heq.symm))
            (hnarrows (l.db engines) rfl)
          rw [QueryBuilder.ofSteps_append_singleton]
          show _ ∈ (l.db engines).selected ((QueryBuilder.ofSteps done).applyVisibility v)
          rw [h.applyVisibility hearlier, hvisibility]
          show _ ∈ (l.db engines).selected
            ⟨_ ++ [ScanFilters.node ⟨f.kind, some w, f.namePattern⟩]⟩
          rw [PlannerDb.selected_scan]
          exact LoneNode.id_mem_runScan hkind
            (fun u hu => by cases hu; exact hw.symm) hname
        have hkind : ∀ k, f.kind = some k → k = f.kind.getD .function := by
          intro k hk
          rw [hk]
          rfl
        cases hname : f.namePattern with
        | none =>
          refine absurd (hreject (.plain (f.kind.getD .function) w) hkind rfl ?_) id
          intro isMatch hcompiled
          rw [hname] at hcompiled
          cases hcompiled
        | some pattern =>
          refine ⟨pattern, hname, fun text => ?_⟩
          cases htext : engines.compileOrReject pattern text with
          | false => rfl
          | true =>
            refine absurd (hreject
              { LoneNode.plain (f.kind.getD .function) w with text := text } hkind rfl
              ?_) id
            intro isMatch hcompiled
            rw [hname, Option.bind_some] at hcompiled
            rw [PlanEngines.compileOrReject, hcompiled] at htext
            exact ⟨rfl, htext⟩

theorem fits_name {pattern : StringPattern}
    (h : QueryBuilder.Tracks engines last done (.ofSteps done))
    (hearlier : (QueryBuilder.ofSteps done).steps ≠ [] → (QueryBuilder.ofSteps done).Builds)
    (hbuilds : (QueryBuilder.ofSteps (done ++ [.name pattern])).Builds)
    (hnarrows : ∀ db : PlannerDb, db.engines = engines → db.Narrows (done ++ [.name pattern])) :
    (QueryStep.name pattern).Fits engines last := by
  cases last with
  | none => exact trivial
  | some f =>
    intro hname
    cases hcompiled : engines.compileString pattern with
    | some isMatch => rfl
    | none =>
      -- the scan has no name then, and finds what the step rejects
      let l := LoneNode.plain (f.kind.getD .function) (f.visibility.getD .public)
      refine absurd (hnarrows (l.db engines) rfl) (l.not_narrows hbuilds
        (List.mem_append_right _ List.mem_cons_self) ?_
        (LoneNode.not_meets_name_of_not_compiled hcompiled))
      rw [QueryBuilder.ofSteps_append_singleton]
      show _ ∈ (l.db engines).selected ((QueryBuilder.ofSteps done).applyNamePattern pattern)
      rw [h.applyNamePattern hearlier hname]
      show _ ∈ (l.db engines).selected
        ⟨_ ++ [ScanFilters.node ⟨f.kind, f.visibility, some pattern⟩]⟩
      rw [PlannerDb.selected_scan]
      refine LoneNode.id_mem_runScan ?_ ?_ ?_
      · intro k hk
        show k = f.kind.getD .function
        rw [hk]
        rfl
      · intro v hv
        show v = f.visibility.getD .public
        rw [hv]
        rfl
      · intro isMatch hmatch
        rw [Option.bind_some, hcompiled] at hmatch
        cases hmatch

theorem fits_of_narrows {step : QueryStep}
    (h : QueryBuilder.Tracks engines last done (.ofSteps done))
    (hearlier : (QueryBuilder.ofSteps done).steps ≠ [] → (QueryBuilder.ofSteps done).Builds)
    (hbuilds : (QueryBuilder.ofSteps (done ++ [step])).Builds)
    (hnarrows : ∀ db : PlannerDb, db.engines = engines → db.Narrows (done ++ [step])) :
    step.Fits engines last := by
  cases step with
  | kind k => exact fits_kind h hbuilds hnarrows
  | visibility v => exact fits_visibility h hearlier hbuilds hnarrows
  | name pattern => exact fits_name h hearlier hbuilds hnarrows
  | leaf p => cases last <;> exact trivial
  | relation kind value => cases last <;> exact trivial
  | resolvedVia via => cases last <;> exact trivial
  | traverse direction edgeKind depth => cases last <;> exact trivial

theorem allFit_of_narrows {more : List QueryStep}
    (h : QueryBuilder.Tracks engines last done (.ofSteps done))
    (htraverse : ∀ step ∈ more, step.isTraverse = false)
    (hbuilds : (QueryBuilder.ofSteps (done ++ more)).Builds)
    (hnarrows : ∀ db : PlannerDb, db.engines = engines → ∀ n, db.Narrows (done ++ more.take n)) :
    QueryStep.AllFit engines last more := by
  induction more generalizing last done with
  | nil => exact trivial
  | cons step more ih =>
    have hearlier : (QueryBuilder.ofSteps done).steps ≠ [] →
        (QueryBuilder.ofSteps done).Builds :=
      fun hsteps => hbuilds.of_append fun hnil => hsteps (by rw [hnil]; rfl)
    rw [List.append_cons] at hbuilds
    have hfits : step.Fits engines last :=
      fits_of_narrows h hearlier
        (hbuilds.of_append (List.append_ne_nil_of_right_ne_nil _ (List.cons_ne_nil _ _)))
        fun db hdb => hnarrows db hdb 1
    have hnext := h.next hearlier hfits (htraverse step List.mem_cons_self)
    rw [← QueryBuilder.ofSteps_append_singleton] at hnext
    refine ⟨hfits, ih hnext (fun later hmem => htraverse later (List.mem_cons_of_mem _ hmem))
      hbuilds fun db hdb n => ?_⟩
    rw [← List.append_cons]
    exact hnarrows db hdb (n + 1)

theorem builds_of_parseQuery {text : String} {plan : QueryPlan}
    (hsteps : parseSteps text = .ok steps) (hplan : parseQuery text = .ok plan) :
    (QueryBuilder.ofSteps steps).build = .ok plan := by
  rw [parseQuery, hsteps] at hplan
  have hbuild : (QueryBuilder.ofSteps steps).build.mapError ParseError.build = .ok plan := hplan
  cases hresult : (QueryBuilder.ofSteps steps).build with
  | ok built =>
    rw [hresult] at hbuild
    cases hbuild
    rfl
  | error e =>
    rw [hresult] at hbuild
    cases hbuild

theorem no_traverse_of_builds (hbuilds : (QueryBuilder.ofSteps steps).Builds)
    (htail : ∀ step ∈ steps.tail, step.isTraverse = false) :
    ∀ step ∈ steps, step.isTraverse = false := by
  cases steps with
  | nil => exact fun step hmem => absurd hmem List.not_mem_nil
  | cons first rest =>
    intro step hmem
    cases List.mem_cons.mp hmem with
    | inr hrest => exact htail step hrest
    | inl hfirst =>
      rw [hfirst]
      have hone : (QueryBuilder.ofSteps [first]).Builds :=
        @QueryBuilder.Builds.of_append [first] rest hbuilds (List.cons_ne_nil _ _)
      cases first with
      | traverse direction edgeKind depth =>
        obtain ⟨start, hstart, hfree⟩ := hone.starts
        cases hstart
        cases hfree
      | _ => rfl

/-- An accepted query without later traversals and each of its accepted prefixes keep the law
over every snapshot exactly when every step fits the scan that stands last before it. -/
theorem query_prefixes_narrow_iff (engines : PlanEngines) (text : String)
    (steps : List QueryStep) (plan : QueryPlan) (hsteps : parseSteps text = .ok steps)
    (hplan : parseQuery text = .ok plan)
    (htail : ∀ step ∈ steps.tail, step.isTraverse = false) :
    (∀ db : PlannerDb, db.engines = engines → ∀ n, db.Narrows (steps.take n)) ↔
      QueryStep.AllFit engines (some .free) steps := by
  have hbuilds := (QueryBuilder.build_eq_ok_iff.mp (builds_of_parseQuery hsteps hplan)).1
  have htraverse := no_traverse_of_builds hbuilds htail
  constructor
  · intro hnarrows
    exact allFit_of_narrows (QueryBuilder.tracks_new engines) htraverse hbuilds hnarrows
  · intro hfits db hdb n
    cases hdb
    exact PlannerDb.narrows_of_allFit db.narrows_nil (QueryBuilder.tracks_new db.engines) hfits
      htraverse hbuilds n

end Exact

section Example

def starGlob : PlanEngines where
  glob := fun raw _ => some fun text => (raw.toList.takeWhile (· ≠ '*')).isPrefixOf text.toList
  toLowercase := id
  cfgMatches := fun _ _ => false

theorem query_prefixes_narrow_kindVisibilityName :
    ((LoneNode.plain .function .public).db starGlob).Narrows
      [.kind .function, .visibility .public, .name ⟨"f*", .glob, false⟩, .leaf .hasCaller] :=
  (query_prefixes_narrow_iff starGlob "kind:function visibility:public name:f* has:caller" _ _
    rfl rfl (by decide)).mpr
      ⟨⟨Or.inl rfl, rfl, rfl⟩, Or.inl rfl, fun _ => rfl, trivial, trivial⟩ _ rfl 4

/-- The last kind forgets the kind before it. -/
theorem later_kind_does_not_narrow :
    ¬ ∀ (engines : PlanEngines) (text : String) (steps : List QueryStep) (plan : QueryPlan),
      parseSteps text = .ok steps → parseQuery text = .ok plan →
        (∀ step ∈ steps.tail, step.isTraverse = false) →
          ∀ db : PlannerDb, db.engines = engines → db.Narrows steps := by
  intro h
  have hnarrows := h starGlob "kind:function has:caller kind:class" _ _ rfl rfl (by decide)
    ((LoneNode.plain .class .public).db starGlob) rfl
  have hmeets := hnarrows.meets _ rfl LoneNode.id (by decide) (.kind .function) List.mem_cons_self
  exact LoneNode.not_meets_kind (by decide) hmeets

end Example
end Sqry
