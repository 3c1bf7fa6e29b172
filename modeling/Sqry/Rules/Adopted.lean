import Sqry.Planner.NarrowingExact
import Sqry.Rules.Engine

/-!
A plan adopted as a rule. Without edge kinds the rule lowers back to the plan; with one, the
engine either refuses, answers in sequence mode, or runs traversals that keep their seeds.
-/

namespace Sqry

def RunsAsPlan (db : PlannerDb) (plan : QueryPlan) : Prop :=
  ∃ nodes, (RulePlan.fromQueryPlan plan).run db = .ok (.nodes nodes) ∧
    ∀ node, node ∈ nodes ↔ node ∈ executePlan db plan

/-- No traversal names an edge kind; or there are only traversals behind a first step that
names none and selects nothing. -/
def Adoptable (db : PlannerDb) (plan : QueryPlan) : Prop :=
  plan.root.kindFree = true ∨
    ∃ first rest, plan.root = .chain (first :: rest) ∧ first.kindFree = true ∧
      rest.all PlanNode.isEdgeTraversal = true ∧ executePlan db ⟨first⟩ = []

/-- Edges join nodes that are there, and every node has a name to show. -/
structure PlannerSnapshot.Clean (s : PlannerSnapshot) : Prop where
  source_eq : ∀ node, ∀ edge ∈ s.edges.edgesFrom node, edge.source = node
  target_shown : ∀ node, ∀ edge ∈ s.edges.edgesFrom node, s.materializes edge.target = true
  source_shown : ∀ node, ∀ edge ∈ s.edges.edgesTo node, s.materializes edge.source = true
  shown : ∀ node entry, s.nodes.Holds node entry → s.materializes node = true

section Classes

def variantClasses : List RuleEdgeClass :=
  [.structural, .structural, .call, .reference, .import, .import, .type, .inheritance,
    .inheritance, .reference, .call, .reference, .call, .call, .call, .call, .database, .database,
    .database, .database, .service, .service, .service, .service, .service, .service, .type,
    .reference, .reference, .reference, .import, .import, .import, .import, .type, .reference,
    .structural, .inheritance, .reference, .reference, .reference]

theorem class_eq (kind : EdgeKind) :
    RuleEdgeClass.of (.of kind) = variantClasses.getD kind.ctorIdx .call := by
  cases kind <;> rfl

theorem class_eq_of_sameDiscriminant {a b : EdgeKind} (h : a.sameDiscriminant b = true) :
    RuleEdgeClass.of (.of a) = RuleEdgeClass.of (.of b) := by
  have hidx : a.ctorIdx = b.ctorIdx := of_decide_eq_true h
  rw [class_eq, class_eq, hidx]

theorem accepts_class (c : EdgeClassification) :
    (edgeFilterForClass (.of c)).accepts c = true := by
  cases c <;> rfl

def adoptedFilter (edgeKind : Option EdgeKind) : EdgeFilter :=
  { (edgeKind.map fun kind => RuleEdgeClass.of (.of kind)).elim EdgeFilter.all
      edgeFilterForClass with crossBoundary := none }

theorem adoptedFilter_accepts {edgeKind : Option EdgeKind} {resolvedVia : Option ResolvedVia}
    {kind : EdgeKind} (h : PlannerDb.followsEdge edgeKind resolvedVia kind = true) :
    (adoptedFilter edgeKind).acceptsKind kind = true := by
  have hsame := (Bool.and_eq_true_iff.mp h).1
  cases edgeKind with
  | none =>
    rw [EdgeFilter.acceptsKind]
    cases EdgeClassification.of kind <;> rfl
  | some want =>
    have hclass := accepts_class (.of kind)
    rw [class_eq_of_sameDiscriminant hsame] at hclass
    rw [EdgeFilter.acceptsKind, Bool.and_eq_true]
    exact ⟨hclass, rfl⟩

end Classes

namespace PlannerDb
variable (db : PlannerDb)

def reachedBy : List PlanNode → List NodeId → List NodeId
  | .edgeTraversal direction edgeKind maxDepth _ :: rest, current =>
    reachedBy rest (db.snapshot.traverse current (traversalDirection direction)
      (adoptedFilter edgeKind) maxDepth).nodes
  | _, current => current

variable {db}

theorem executeTraversals_ofPlans {rest : List PlanNode}
    (htraversals : rest.all PlanNode.isEdgeTraversal = true)
    (hvalid : ∀ step ∈ rest, validateSubtree step = .ok ()) (current : List NodeId) :
    executeTraversals db (RuleNode.ofPlans rest) current = .ok (db.reachedBy rest current) := by
  induction rest generalizing current with
  | nil => rfl
  | cons step rest ih =>
    rw [List.all_cons, Bool.and_eq_true] at htraversals
    cases step with
    | edgeTraversal direction edgeKind maxDepth resolvedVia =>
      have hdepth : maxDepth ≠ 0 := by
        intro hzero
        have hstep := hvalid _ List.mem_cons_self
        rw [validateSubtree, if_pos hzero] at hstep
        cases hstep
      rw [RuleNode.ofPlans, RuleNode.ofPlan, executeTraversals, if_neg hdepth]
      exact ih htraversals.2 (fun step hstep => hvalid step (List.mem_cons_of_mem _ hstep)) _
    | _ => cases htraversals.1

section Empty

theorem traverse_nil (s : PlannerSnapshot) (direction : TraversalDirection) (filter : EdgeFilter)
    (maxDepth : Nat) : (s.traverse [] direction filter maxDepth).nodes = [] := by
  show List.filter _ ([] ++ traverseLevels _ maxDepth [] []) = []
  rw [traverseLevels_nil]
  rfl

theorem runTraversal_nil (direction : PlanDirection) (edgeKind : Option EdgeKind)
    (maxDepth : Nat) (resolvedVia : Option ResolvedVia) :
    db.runTraversal [] direction edgeKind maxDepth resolvedVia = [] := by
  rw [runTraversal, traverseLevels_nil]
  rfl

theorem reachedBy_nil (rest : List PlanNode) : db.reachedBy rest [] = [] := by
  induction rest with
  | nil => rfl
  | cons step rest ih =>
    cases step with
    | edgeTraversal direction edgeKind maxDepth resolvedVia =>
      rw [reachedBy, traverse_nil]
      exact ih
    | _ => rfl

theorem evaluateSteps_nil {rest : List PlanNode}
    (htraversals : rest.all PlanNode.isEdgeTraversal = true) :
    db.evaluateSteps rest [] = [] := by
  induction rest with
  | nil => rfl
  | cons step rest ih =>
    rw [List.all_cons, Bool.and_eq_true] at htraversals
    cases step with
    | edgeTraversal direction edgeKind maxDepth resolvedVia =>
      rw [evaluateSteps, evaluate, runTraversal_nil]
      exact ih htraversals.2
    | _ => cases htraversals.1

end Empty

section Seeds
variable {resolvedVia : Option ResolvedVia} {direction : PlanDirection} {edgeKind : Option EdgeKind}
  {maxDepth : Nat} {node : NodeId}

theorem mem_traverse {s : PlannerSnapshot} {seeds : List NodeId} {direction : TraversalDirection}
    {filter : EdgeFilter} :
    node ∈ (s.traverse seeds direction filter maxDepth).nodes ↔
      (node ∈ seeds ∨ node ∈ traverseLevels (s.acceptedNeighbors direction filter) maxDepth
        (newNodes [] seeds) (newNodes [] seeds)) ∧ s.materializes node = true := by
  show node ∈ List.filter _ (newNodes [] seeds ++ _) ↔ _
  rw [List.mem_filter, List.mem_append, mem_newNodes]
  simp

theorem target_eq_of_mem_edgesTo {b : BidirectionalEdgeStore} {target : NodeId}
    {edge : StoreEdgeRef} (h : edge ∈ b.edgesTo target) : edge.target = target := by
  obtain ⟨turned, -, heq⟩ := List.mem_map.mp h
  rw [← heq]

theorem neighborOf_eq (hclean : db.snapshot.Clean) {current : NodeId} {edge : StoreEdgeRef}
    (h : edge ∈ db.snapshot.neighbours current direction) :
    PlannerSnapshot.neighborOf edge current = nextNode direction current edge := by
  cases direction with
  | forward => exact if_pos (hclean.source_eq current edge h)
  | reverse =>
    show (if edge.source = current then edge.target else edge.source) = edge.source
    by_cases hloop : edge.source = current
    · rw [if_pos hloop, target_eq_of_mem_edgesTo h, hloop]
    · rw [if_neg hloop]
  | both => rfl

theorem nextNode_accepted (hclean : db.snapshot.Clean) {current node : NodeId}
    (h : node ∈ db.nextNodes direction edgeKind resolvedVia current) :
    node ∈ db.snapshot.acceptedNeighbors (traversalDirection direction) (adoptedFilter edgeKind)
      current := by
  obtain ⟨edge, hedge, hnode⟩ := List.mem_map.mp h
  obtain ⟨hmem, hfollows⟩ := List.mem_filter.mp hedge
  have hcollected : edge ∈ db.snapshot.collectEdges current (traversalDirection direction) := by
    cases direction <;> exact hmem
  refine List.mem_map.mpr ⟨edge, List.mem_filter.mpr ⟨hcollected, ?_⟩, ?_⟩
  · exact adoptedFilter_accepts hfollows
  · rw [neighborOf_eq hclean hmem]
    exact hnode

theorem nextNode_shown (hclean : db.snapshot.Clean) {current node : NodeId}
    (h : node ∈ db.nextNodes direction edgeKind resolvedVia current) :
    db.snapshot.materializes node = true := by
  obtain ⟨edge, hedge, hnode⟩ := List.mem_map.mp h
  have hmem := (List.mem_filter.mp hedge).1
  rw [← hnode]
  cases direction with
  | forward => exact hclean.target_shown current edge hmem
  | reverse => exact hclean.source_shown current edge hmem
  | both =>
    rw [nextNode]
    cases List.mem_append.mp hmem with
    | inl hfrom =>
      rw [if_pos (hclean.source_eq current edge hfrom)]
      exact hclean.target_shown current edge hfrom
    | inr hto =>
      have hsource := hclean.source_shown current edge hto
      by_cases hloop : edge.source = current
      · rw [if_pos hloop, target_eq_of_mem_edgesTo hto, ← hloop]
        exact hsource
      · rw [if_neg hloop]
        exact hsource

theorem mem_runTraversal {input : List NodeId} :
    node ∈ db.runTraversal input direction edgeKind maxDepth resolvedVia ↔
      node ∈ traverseLevels (db.nextNodes direction edgeKind resolvedVia) maxDepth input input := by
  rw [runTraversal, mem_dedupSort]

theorem runTraversal_subset (hclean : db.snapshot.Clean) {input seeds : List NodeId}
    (hinput : ∀ node ∈ input, node ∈ seeds)
    (h : node ∈ db.runTraversal input direction edgeKind maxDepth resolvedVia) :
    node ∈ (db.snapshot.traverse seeds (traversalDirection direction) (adoptedFilter edgeKind)
      maxDepth).nodes := by
  rw [mem_runTraversal] at h
  obtain ⟨-, current, hnext⟩ := traverseLevels_new h
  have hseeded : ∀ other, other ∈ newNodes [] seeds ↔ other ∈ seeds := fun other => by
    rw [mem_newNodes]
    simp
  refine mem_traverse.mpr ⟨?_, nextNode_shown hclean hnext⟩
  have hfound := traverseLevels_mono (fun current node hnode => nextNode_accepted hclean hnode)
    (fun other hother => (hseeded other).mpr (hinput other hother)) (fun other hother => hother)
    (fun other hother hnot => absurd hother hnot) h
  exact hfound.imp_left (hseeded node).mp

theorem eq_nil_of_reachedBy (hclean : db.snapshot.Clean) {rest : List PlanNode}
    (htraversals : rest.all PlanNode.isEdgeTraversal = true) (hne : rest ≠ [])
    {input seeds : List NodeId} (hinput : ∀ node ∈ input, node ∈ seeds)
    (hshown : ∀ node ∈ seeds, db.snapshot.materializes node = true)
    (h : ∀ node, node ∈ db.reachedBy rest seeds ↔ node ∈ db.evaluateSteps rest input) :
    seeds = [] := by
  induction rest generalizing input seeds with
  | nil => exact absurd rfl hne
  | cons step rest ih =>
    rw [List.all_cons, Bool.and_eq_true] at htraversals
    cases step with
    | edgeTraversal direction edgeKind maxDepth resolvedVia =>
      rw [reachedBy, evaluateSteps, evaluate] at h
      have hkeeps : ∀ node ∈ seeds, node ∈ (db.snapshot.traverse seeds
          (traversalDirection direction) (adoptedFilter edgeKind) maxDepth).nodes :=
        fun node hnode => mem_traverse.mpr ⟨Or.inl hnode, hshown node hnode⟩
      refine List.eq_nil_iff_forall_not_mem.mpr fun node hnode => ?_
      by_cases hrest : rest = []
      · rw [hrest] at h
        have hempty : input = [] := by
          refine List.eq_nil_iff_forall_not_mem.mpr fun other hother => ?_
          have hfound := (h other).mp (hkeeps other (hinput other hother))
          exact (traverseLevels_new (mem_runTraversal.mp hfound)).1 hother
        have hfound := (h node).mp (hkeeps node hnode)
        rw [hempty, evaluateSteps, runTraversal_nil] at hfound
        cases hfound
      · have hnil := ih htraversals.2 hrest
          (fun other hother => runTraversal_subset hclean hinput hother)
          (fun other hother => (mem_traverse.mp hother).2) h
        have hmem := hkeeps node hnode
        rw [hnil] at hmem
        cases hmem
    | _ => cases htraversals.1

theorem evaluateSteps_shown {steps : List PlanNode} {input : List NodeId}
    (h : ∀ step ∈ steps, ∀ input, (∀ node ∈ input, db.snapshot.materializes node = true) →
      ∀ node ∈ db.evaluate step input, db.snapshot.materializes node = true)
    (hinput : ∀ node ∈ input, db.snapshot.materializes node = true) :
    ∀ node ∈ db.evaluateSteps steps input, db.snapshot.materializes node = true := by
  induction steps generalizing input with
  | nil => exact hinput
  | cons step steps ih =>
    rw [evaluateSteps]
    exact ih (fun other hother => h other (List.mem_cons_of_mem step hother))
      (h step List.mem_cons_self input hinput)

theorem evaluate_shown (hclean : db.snapshot.Clean) (node : PlanNode) :
    ∀ input, (∀ n ∈ input, db.snapshot.materializes n = true) →
      ∀ n ∈ db.evaluate node input, db.snapshot.materializes n = true := by
  refine @PlanNode.inductOn (fun node => ∀ input,
    (∀ n ∈ input, db.snapshot.materializes n = true) →
      ∀ n ∈ db.evaluate node input, db.snapshot.materializes n = true)
    (fun _ => True) ?_ ?_ ?_ ?_ ?_ ?_ ?_ ?_ ?_ ?_ node
  · intro kind visibility namePattern input _ n hn
    rw [evaluate] at hn
    obtain ⟨entry, hscanned, -⟩ := mem_runScan.mp hn
    exact hclean.shown n entry hscanned.holds
  · intro direction edgeKind maxDepth resolvedVia input _ n hn
    rw [evaluate, mem_runTraversal] at hn
    obtain ⟨-, current, hnext⟩ := traverseLevels_new hn
    exact nextNode_shown hclean hnext
  · intro predicate _ input hinput n hn
    rw [evaluate, mem_dedupSort] at hn
    exact hinput n (List.mem_filter.mp hn).1
  · intro op left right hleft hright input _ n hn
    have hnil : ∀ n ∈ ([] : List NodeId), db.snapshot.materializes n = true := by
      intro n hn
      cases hn
    rw [evaluate] at hn
    cases op with
    | union =>
      rw [combine, mem_dedupSort] at hn
      cases List.mem_append.mp hn with
      | inl hn => exact hleft [] hnil n hn
      | inr hn => exact hright [] hnil n hn
    | intersect =>
      rw [combine, mem_dedupSort] at hn
      exact hleft [] hnil n (List.mem_filter.mp hn).1
    | difference =>
      rw [combine, mem_dedupSort] at hn
      exact hleft [] hnil n (List.mem_filter.mp hn).1
  · intro steps ih input _
    rw [evaluate]
    refine evaluateSteps_shown ih ?_
    intro n hn
    cases hn
  · intro p
    trivial
  · intro kind value _
    trivial
  · intro list _
    trivial
  · intro list _
    trivial
  · intro inner _
    trivial

end Seeds
end PlannerDb

section Run
variable {db : PlannerDb} {first : PlanNode} {rest : List PlanNode}

theorem run_of_kindFree {plan : QueryPlan} {steps : List PlanNode}
    (hroot : plan.root = .chain steps) (hfree : plan.root.kindFree = true) :
    (RulePlan.fromQueryPlan plan).run db = .ok (.nodes (executePlan db plan)) := by
  have hlower := RuleNode.lowerPlanNode_ofPlan plan.root
  rw [if_pos hfree] at hlower
  obtain ⟨root⟩ := plan
  cases hroot
  cases steps with
  | nil =>
    rw [executePlan_eq_evaluate]
    rfl
  | cons first rest =>
    show executeNode db (.chain (RuleNode.ofPlan first :: RuleNode.ofPlans rest)) = _
    have hlower' : RuleNode.lowerPlanNode
        (.chain (RuleNode.ofPlan first :: RuleNode.ofPlans rest)) =
        some (.chain (first :: rest)) := hlower
    rw [executeNode, hlower']

theorem lower_eq_none (hfree : (PlanNode.chain (first :: rest)).kindFree = false) :
    RuleNode.lowerPlanNode (.chain (RuleNode.ofPlan first :: RuleNode.ofPlans rest)) = none := by
  have hlower := RuleNode.lowerPlanNode_ofPlan (.chain (first :: rest))
  rw [hfree] at hlower
  exact hlower

theorem all_isEdgeTraversal_ofPlans (rest : List PlanNode) :
    (RuleNode.ofPlans rest).all RuleNode.isEdgeTraversal = rest.all PlanNode.isEdgeTraversal := by
  rw [RuleNode.ofPlans_eq_map, List.all_map]
  congr 1
  funext step
  exact RuleNode.isEdgeTraversal_ofPlan step

theorem executeNode_first (hfirst : first.isContextFree = true) :
    executeNode db (RuleNode.ofPlan first) =
      if first.kindFree then .ok (.nodes (executePlan db ⟨first⟩))
      else .error (.unsupportedPrimitive "rule-engine" "rule_edge_class_to_planner_edge_kind"
        "rule-edge-class traversals must dispatch through RuleBackend::traverse") := by
  have hplanner : executeNode db (RuleNode.ofPlan first) =
      executePlannerNode db (RuleNode.ofPlan first) := by
    cases first with
    | nodeScan kind visibility namePattern => rfl
    | setOp op left right => rfl
    | _ => cases hfirst
  rw [hplanner, executePlannerNode, lowerContextFreePlan, RuleNode.lowerPlanNode_ofPlan]
  cases hfree : first.kindFree with
  | false => rfl
  | true =>
    simp only [if_true, hfirst]

theorem run_chain (hfree : (PlanNode.chain (first :: rest)).kindFree = false)
    (hfirst : first.isContextFree = true)
    (hvalid : ∀ step ∈ rest, validateSubtree step = .ok ()) {nodes : List NodeId} :
    (RulePlan.fromQueryPlan ⟨.chain (first :: rest)⟩).run db = .ok (.nodes nodes) ↔
      first.kindFree = true ∧ rest.all PlanNode.isEdgeTraversal = true ∧
        nodes = db.reachedBy rest (executePlan db ⟨first⟩) := by
  show executeNode db (.chain (RuleNode.ofPlan first :: RuleNode.ofPlans rest)) = _ ↔ _
  rw [executeNode, lower_eq_none hfree, all_isEdgeTraversal_ofPlans, executeNode_first hfirst]
  cases htraversals : rest.all PlanNode.isEdgeTraversal with
  | false =>
    simp only [Bool.not_false, if_true]
    constructor
    · intro h
      split at h
      · cases h
      · split at h <;> cases h
    · intro h
      cases h.2.1
  | true =>
    cases hkind : first.kindFree with
    | false =>
      constructor
      · intro h
        cases h
      · intro h
        cases h.1
    | true =>
      simp only [Bool.not_true, Bool.false_eq_true, if_false, if_true,
        PlannerDb.executeTraversals_ofPlans htraversals hvalid, true_and]
      constructor
      · intro h
        cases h
        rfl
      · intro h
        rw [h]

end Run

/-- A plan of the builder means the same as a rule if no traversal in it names an edge kind,
or if nothing is selected before its traversals; over a clean snapshot only then. -/
theorem adopted_plan_runs_as_plan_iff {b : QueryBuilder} {plan : QueryPlan}
    (hbuild : b.build = .ok plan) (db : PlannerDb) :
    (Adoptable db plan → RunsAsPlan db plan) ∧
      (db.snapshot.Clean → (RunsAsPlan db plan ↔ Adoptable db plan)) := by
  obtain ⟨hbuilds, hplan⟩ := QueryBuilder.build_eq_ok_iff.mp hbuild
  obtain ⟨first, hhead, hfirst⟩ := hbuilds.starts
  obtain ⟨rest, hsteps⟩ : ∃ rest, b.steps = first :: rest := by
    cases hb : b.steps with
    | nil =>
      rw [hb] at hhead
      cases hhead
    | cons first' rest =>
      rw [hb] at hhead
      cases hhead
      exact ⟨rest, rfl⟩
  have hvalid : ∀ step ∈ rest, validateSubtree step = .ok () := fun step hstep =>
    hbuilds.valid step (by rw [hsteps]; exact List.mem_cons_of_mem first hstep)
  rw [hsteps] at hplan
  subst hplan
  have hplanned : executePlan db ⟨.chain (first :: rest)⟩ =
      db.evaluateSteps rest (executePlan db ⟨first⟩) := by
    rw [executePlan_eq_evaluate, executePlan_eq_evaluate]
    rfl
  have hif : Adoptable db ⟨.chain (first :: rest)⟩ →
      RunsAsPlan db ⟨.chain (first :: rest)⟩ := by
    intro h
    cases hfree : (PlanNode.chain (first :: rest)).kindFree with
    | true => exact ⟨_, run_of_kindFree rfl hfree, fun node => Iff.rfl⟩
    | false =>
      cases h with
      | inl h =>
        have h' : (PlanNode.chain (first :: rest)).kindFree = true := h
        rw [hfree] at h'
        cases h'
      | inr h =>
        obtain ⟨first', rest', hroot, hkind, htraversals, hempty⟩ := h
        cases hroot
        refine ⟨_, (run_chain hfree hfirst hvalid).mpr ⟨hkind, htraversals, rfl⟩,
          fun node => ?_⟩
        rw [hplanned, hempty, PlannerDb.reachedBy_nil, PlannerDb.evaluateSteps_nil htraversals]
  refine ⟨hif, fun hclean => ⟨fun h => ?_, hif⟩⟩
  obtain ⟨nodes, hrun, hsame⟩ := h
  cases hfree : (PlanNode.chain (first :: rest)).kindFree with
  | true => exact Or.inl hfree
  | false =>
    obtain ⟨hkind, htraversals, hnodes⟩ := (run_chain hfree hfirst hvalid).mp hrun
    refine Or.inr ⟨first, rest, rfl, hkind, htraversals, ?_⟩
    have hne : rest ≠ [] := by
      intro hnil
      rw [hnil, PlanNode.kindFree, PlanNode.kindFreeSteps, hkind] at hfree
      cases hfree
    rw [hplanned, hnodes] at hsame
    refine PlannerDb.eq_nil_of_reachedBy hclean htraversals hne (fun node hnode => hnode) ?_ hsame
    rw [executePlan_eq_evaluate]
    exact PlannerDb.evaluate_shown hclean first [] fun node hnode => by cases hnode

section OneNode

def loneFunction : PlannerDb :=
  (LoneNode.plain .function .public).db ⟨fun _ _ => none, id, fun _ _ => false⟩

def scanFunctions : QueryBuilder := QueryBuilder.new.scan .function

def calleesOfFunctions : QueryBuilder :=
  scanFunctions.traverse .forward (.calls 0 false .direct) 1

theorem adopted_plan_runs_as_plan_iff_scan :
    RunsAsPlan loneFunction ⟨.chain scanFunctions.steps⟩ :=
  (adopted_plan_runs_as_plan_iff (b := scanFunctions) rfl loneFunction).1 (Or.inl rfl)

/-- The plan selects no callee; the rule answers with the function itself. -/
theorem adopted_traversal_keeps_seed :
    calleesOfFunctions.build = .ok ⟨.chain calleesOfFunctions.steps⟩ ∧
      executePlan loneFunction ⟨.chain calleesOfFunctions.steps⟩ = [] ∧
      (RulePlan.fromQueryPlan ⟨.chain calleesOfFunctions.steps⟩).run loneFunction =
        .ok (.nodes [LoneNode.id]) ∧
      ¬ RunsAsPlan loneFunction ⟨.chain calleesOfFunctions.steps⟩ := by
  have hplan : executePlan loneFunction ⟨.chain calleesOfFunctions.steps⟩ = [] := by
    rw [executePlan_eq_evaluate]
    rfl
  have hrule : (RulePlan.fromQueryPlan ⟨.chain calleesOfFunctions.steps⟩).run loneFunction =
      .ok (.nodes [LoneNode.id]) := rfl
  refine ⟨rfl, hplan, hrule, fun h => ?_⟩
  obtain ⟨nodes, hrun, hsame⟩ := h
  rw [hrule] at hrun
  cases hrun
  have hmem := (hsame LoneNode.id).mp List.mem_cons_self
  rw [hplan] at hmem
  cases hmem

end OneNode

end Sqry
