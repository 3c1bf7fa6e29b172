import Sqry.Planner.Batch
import Sqry.Planner.Promotion

/-!
Fusing the plans that a fused batch gives back. They are the plans that were fused, but for
chains of one step, and give the same groups and the same subquery batch. The statistics are
taken over the plans as they were submitted, and a chain of one step is an operator and a
shared subtree that the plan given back does not have.
-/

namespace Sqry

section Recovery

/-- `none` stands for the panic on an index that is out of bounds. -/
def fillTails (sharedPrefix : PlanNode) :
    List FusedTail → List (Option QueryPlan) → Option (List (Option QueryPlan))
  | [], out => some out
  | fused :: rest, out =>
    if fused.originalIndex < out.length then
      fillTails sharedPrefix rest
        (out.set fused.originalIndex (some (fused.reconstruct sharedPrefix)))
    else none

def fillGroups : List FusionGroup → List (Option QueryPlan) → Option (List (Option QueryPlan))
  | [], out => some out
  | group :: rest, out =>
    (fillTails group.sharedPrefix group.tails out).bind (fillGroups rest)

namespace FusedPlanBatch

def subqueryBatch : FusedPlanBatch → Option FusedPlanBatch
  | mk _ subqueryBatch _ _ => subqueryBatch

def stats : FusedPlanBatch → FusionStats
  | mk _ _ stats _ => stats

/-- `none` stands for a panic, here also on an index that no tail fills. -/
def inputPlans (batch : FusedPlanBatch) : Option (List QueryPlan) :=
  (fillGroups batch.groups (List.replicate batch.totalPlans none)).bind fun out => out.mapM id

end FusedPlanBatch

theorem fillTails_eq_scatter {sharedPrefix : PlanNode} {tails : List FusedTail}
    {out : List (Option QueryPlan)} (h : ∀ fused ∈ tails, fused.originalIndex < out.length) :
    fillTails sharedPrefix tails out =
      some (Scatter.scatter (tails.map fun fused =>
        (fused.originalIndex, some (fused.reconstruct sharedPrefix))) out) := by
  induction tails generalizing out with
  | nil => rfl
  | cons fused rest ih =>
    rw [fillTails, if_pos (h fused List.mem_cons_self), List.map_cons, Scatter.scatter_cons]
    refine ih fun later hlater => ?_
    rw [List.length_set]
    exact h later (List.mem_cons_of_mem fused hlater)

theorem fillGroups_eq_scatter {groups : List FusionGroup} {out : List (Option QueryPlan)}
    (h : ∀ placed ∈ groups.flatMap FusionGroup.placed, placed.1 < out.length) :
    fillGroups groups out =
      some (Scatter.scatter ((groups.flatMap FusionGroup.placed).map fun placed =>
        (placed.1, some placed.2)) out) := by
  induction groups generalizing out with
  | nil => rfl
  | cons group rest ih =>
    have hhead : ∀ fused ∈ group.tails, fused.originalIndex < out.length := by
      intro fused hfused
      exact h _ (List.mem_append_left _ (List.mem_map_of_mem hfused))
    rw [fillGroups, fillTails_eq_scatter hhead, Option.bind_some, ih ?_, List.flatMap_cons,
      List.map_append, Scatter.scatter_append, FusionGroup.placed, List.map_map]
    · rfl
    · intro placed hplaced
      rw [Scatter.length_scatter]
      exact h placed (List.mem_append_right _ hplaced)

theorem mapM_id_map_some {α : Type} (l : List α) : (l.map some).mapM id = some l := by
  induction l with
  | nil => rfl
  | cons a l ih =>
    rw [List.map_cons, List.mapM_cons, ih]
    rfl

variable (plans : List QueryPlan)

theorem groups_fusePlans : (fusePlans plans).groups = groupPlans plans := by
  rw [fusePlans]
  rfl

theorem totalPlans_fusePlans :
    (fusePlans plans).totalPlans = plans.length := by
  have hlen := (placed_groupPlans plans).length_eq
  rw [List.length_flatMap, Scatter.length_numberFrom, List.length_map] at hlen
  rw [FusedPlanBatch.totalPlans, groups_fusePlans, ← hlen]
  simp only [length_placed]

theorem inputPlans_fusePlans :
    (fusePlans plans).inputPlans = some (plans.map regroup) := by
  have hplaced := placed_groupPlans plans
  have hbounded : ∀ placed ∈ (groupPlans plans).flatMap FusionGroup.placed,
      placed.1 < (List.replicate plans.length (none : Option QueryPlan)).length := by
    intro placed hin
    obtain ⟨_, hget⟩ := Scatter.mem_numberFrom.mp (hplaced.mem_iff.mp hin)
    have hlt := (List.getElem?_eq_some_iff.mp hget).1
    rw [List.length_map] at hlt
    rw [List.length_replicate]
    exact hlt
  rw [FusedPlanBatch.inputPlans, groups_fusePlans, totalPlans_fusePlans,
    fillGroups_eq_scatter hbounded, Option.bind_some,
    @Scatter.scatter_eq_of_perm _ _ _ ((plans.map regroup).map some), mapM_id_map_some]
  · rw [List.length_replicate, List.length_map, List.length_map]
  · rw [← numberFrom_map]
    exact hplaced.map _

end Recovery

section Unwrapping

namespace QueryPlan

def isWrapped (plan : QueryPlan) : Bool :=
  match plan.root with
  | .chain [only] => only.isContextFree
  | _ => false

def unwrapped (plan : QueryPlan) : QueryPlan :=
  match plan.root with
  | .chain [only] => if only.isContextFree then ⟨only⟩ else plan
  | _ => plan

end QueryPlan

theorem unwrapping_cases {motive : QueryPlan → Prop}
    (wrapped : ∀ only, only.isContextFree = true → motive ⟨.chain [only]⟩)
    (kept : ∀ plan, plan.isWrapped = false → plan.unwrapped = plan → regroup plan = plan →
      motive plan) (plan : QueryPlan) : motive plan := by
  obtain ⟨root⟩ := plan
  cases root with
  | chain steps =>
    cases steps with
    | nil => exact kept _ rfl rfl rfl
    | cons first rest =>
      cases hfree : first.isContextFree with
      | true =>
        cases rest with
        | nil => exact wrapped first hfree
        | cons second rest =>
          refine kept _ rfl rfl ?_
          simp only [regroup, splitPrefixAndTail, hfree, if_true]
          rfl
      | false =>
        cases rest with
        | nil =>
          refine kept _ hfree ?_ ?_
          · simp [QueryPlan.unwrapped, hfree]
          · simp [regroup, splitPrefixAndTail, hfree, FusedTail.reconstruct]
        | cons second rest =>
          refine kept _ rfl rfl ?_
          simp [regroup, splitPrefixAndTail, hfree, FusedTail.reconstruct]
  | _ => exact kept _ rfl rfl rfl

theorem unwrapped_wrapped {only : PlanNode} (h : only.isContextFree = true) :
    QueryPlan.unwrapped ⟨.chain [only]⟩ = ⟨only⟩ := by
  rw [QueryPlan.unwrapped]
  exact if_pos h

theorem isWrapped_wrapped {only : PlanNode} (h : only.isContextFree = true) :
    QueryPlan.isWrapped ⟨.chain [only]⟩ = true := h

theorem splitPrefixAndTail_wrapped {only : PlanNode} (h : only.isContextFree = true) :
    splitPrefixAndTail (.chain [only]) = (only, .identity) := by
  rw [splitPrefixAndTail]
  exact if_pos h

theorem splitPrefixAndTail_of_isContextFree {node : PlanNode} (h : node.isContextFree = true) :
    splitPrefixAndTail node = (node, .identity) := by
  cases node with
  | nodeScan => rfl
  | setOp => rfl
  | _ => cases h

theorem regroup_eq_unwrapped (plan : QueryPlan) : regroup plan = plan.unwrapped := by
  induction plan using unwrapping_cases with
  | wrapped only h =>
    rw [unwrapped_wrapped h, regroup, splitPrefixAndTail_wrapped h]
    rfl
  | kept plan _ hunwrapped hregroup => rw [hregroup, hunwrapped]

theorem splitPrefixAndTail_unwrapped (plan : QueryPlan) :
    splitPrefixAndTail plan.unwrapped.root = splitPrefixAndTail plan.root := by
  induction plan using unwrapping_cases with
  | wrapped only h =>
    rw [unwrapped_wrapped h, splitPrefixAndTail_wrapped h,
      splitPrefixAndTail_of_isContextFree h]
  | kept plan _ hunwrapped _ => rw [hunwrapped]

theorem subqueriesOfPlan_unwrapped (plan : QueryPlan) :
    subqueriesOfPlan plan.unwrapped.root = subqueriesOfPlan plan.root := by
  induction plan using unwrapping_cases with
  | wrapped only h =>
    rw [unwrapped_wrapped h, subqueriesOfPlan, subqueriesOfSteps, subqueriesOfSteps,
      List.append_nil]
  | kept plan _ hunwrapped _ => rw [hunwrapped]

theorem addFrom_map_unwrapped (start : Nat) (plans : List QueryPlan) (table : GroupTable) :
    GroupTable.addFrom start (plans.map QueryPlan.unwrapped) table =
      GroupTable.addFrom start plans table := by
  induction plans generalizing start table with
  | nil => rfl
  | cons plan plans ih =>
    have hadd : table.add start plan.unwrapped = table.add start plan := by
      rw [GroupTable.add, GroupTable.add, splitPrefixAndTail_unwrapped]
    rw [List.map_cons, GroupTable.addFrom, GroupTable.addFrom, hadd, ih]

variable (plans : List QueryPlan)

theorem groupPlans_map_unwrapped :
    groupPlans (plans.map QueryPlan.unwrapped) = groupPlans plans :=
  congrArg GroupTable.groups (addFrom_map_unwrapped 0 plans ⟨[], ∅⟩)

theorem collectSubqueryPlans_map_unwrapped :
    collectSubqueryPlans (plans.map QueryPlan.unwrapped) = collectSubqueryPlans plans := by
  simp only [collectSubqueryPlans, List.flatMap_map, subqueriesOfPlan_unwrapped]

theorem subqueryBatch_fusePlans :
    (fusePlans plans).subqueryBatch =
      if (collectSubqueryPlans plans).2 = [] then none
      else some (fusePlans (collectSubqueryPlans plans).2) := by
  rw [fusePlans]
  simp only [FusedPlanBatch.subqueryBatch]
  split <;> rfl

theorem subqueryBatch_map_unwrapped :
    (fusePlans (plans.map QueryPlan.unwrapped)).subqueryBatch =
      (fusePlans plans).subqueryBatch := by
  rw [subqueryBatch_fusePlans, subqueryBatch_fusePlans, collectSubqueryPlans_map_unwrapped]

end Unwrapping

section Prefixes
variable {table : GroupTable}

def firstSteps (plans : List QueryPlan) : List PlanNode :=
  plans.map fun plan => (splitPrefixAndTail plan.root).1

theorem map_sharedPrefix_modify (groups : List FusionGroup) (fused : FusedTail) (index : Nat) :
    (groups.modify index fun group =>
        { group with tails := group.tails ++ [fused] }).map FusionGroup.sharedPrefix =
      groups.map FusionGroup.sharedPrefix := by
  induction groups generalizing index with
  | nil => rw [List.modify_nil]
  | cons group groups ih =>
    cases index with
    | zero => rw [List.modify_zero_cons, List.map_cons, List.map_cons]
    | succ index => rw [List.modify_succ_cons, List.map_cons, List.map_cons, ih]

theorem GroupTable.mem_prefixes_add (h : table.Indexed) (originalIndex : Nat) (plan : QueryPlan)
    (node : PlanNode) :
    node ∈ (table.add originalIndex plan).groups.map FusionGroup.sharedPrefix ↔
      node ∈ table.groups.map FusionGroup.sharedPrefix ∨
        node = (splitPrefixAndTail plan.root).1 := by
  cases hlookup : table.prefixIndex.lookup (splitPrefixAndTail plan.root).1 with
  | some index =>
    obtain ⟨group, hgroup, hshared⟩ := h _ index hlookup
    rw [GroupTable.add_of_some hlookup, map_sharedPrefix_modify]
    constructor
    · intro hin
      exact Or.inl hin
    · intro hin
      cases hin with
      | inl hold => exact hold
      | inr heq =>
        rw [heq, ← hshared]
        exact List.mem_map_of_mem (List.mem_of_getElem? hgroup)
  | none => rw [GroupTable.add_of_none hlookup, List.map_append, List.mem_append, List.map_singleton,
      List.mem_singleton]

theorem GroupTable.mem_prefixes_addFrom (h : table.Indexed) (start : Nat) (plans : List QueryPlan)
    (node : PlanNode) :
    node ∈ (GroupTable.addFrom start plans table).groups.map FusionGroup.sharedPrefix ↔
      node ∈ table.groups.map FusionGroup.sharedPrefix ∨ node ∈ firstSteps plans := by
  induction plans generalizing start table with
  | nil => simp [GroupTable.addFrom, firstSteps]
  | cons plan plans ih =>
    rw [GroupTable.addFrom, ih (table.indexed_add h start plan),
      table.mem_prefixes_add h start plan, firstSteps, firstSteps, List.map_cons,
      List.mem_cons, or_assoc]

theorem mem_prefixes_groupPlans (plans : List QueryPlan) (node : PlanNode) :
    node ∈ (groupPlans plans).map FusionGroup.sharedPrefix ↔ node ∈ firstSteps plans := by
  refine (@GroupTable.mem_prefixes_addFrom ⟨[], ∅⟩ ?_ 0 plans node).trans ?_
  · intro key index hkey
    cases hkey
  · simp

theorem firstSteps_map_unwrapped (plans : List QueryPlan) :
    firstSteps (plans.map QueryPlan.unwrapped) = firstSteps plans := by
  rw [firstSteps, firstSteps, List.map_map]
  refine List.map_congr_left fun plan _ => ?_
  rw [Function.comp_apply, splitPrefixAndTail_unwrapped]

end Prefixes

section Statistics

def roundHalfEven (num den : Nat) : Nat :=
  if 2 * (num % den) < den ∨ (2 * (num % den) = den ∧ num / den % 2 = 0) then num / den
  else num / den + 1

/-- The value of the `f64` quotient of two `u32` values of which the first is not larger: the
exact quotient rounded to a significand of 53 bits. -/
def f64Quotient (num den : Nat) : Rat :=
  let shift := 52 + Nat.log2 den - Nat.log2 num
  let shift := if num * 2 ^ shift < den * 2 ^ 52 then shift + 1 else shift
  mkRat (roundHalfEven (num * 2 ^ shift) den) (2 ^ shift)

def FusionStats.planTreeReductionRatio (stats : FusionStats) : Rat :=
  f64Quotient stats.planTreeReduction.1 stats.planTreeReduction.2

/-- The equality of the source, which compares the ratios as `f64`. There is neither a NaN nor
a negative zero among them, so that equal values have equal bits. -/
def FusionStats.eq (a b : FusionStats) : Bool :=
  a.totalPlans = b.totalPlans && a.fusionGroups = b.fusionGroups &&
    a.scansEliminated = b.scansEliminated && a.subqueriesTotal = b.subqueriesTotal &&
    a.subqueriesUnique = b.subqueriesUnique &&
    a.sharedNodesPromoted = b.sharedNodesPromoted &&
    a.planTreeReductionRatio = b.planTreeReductionRatio

variable (plans : List QueryPlan)

theorem stats_fusePlans :
    (fusePlans plans).stats =
      { totalPlans := plans.length
        fusionGroups := (groupPlans plans).length
        scansEliminated := plans.length - (groupPlans plans).length
        subqueriesTotal := (collectSubqueryPlans plans).1
        subqueriesUnique := (fusePlans plans).subqueryBatch.elim 0 FusedPlanBatch.totalPlans
        sharedNodesPromoted := (collectPromotedCandidates plans (groupPlans plans)).length
        planTreeReduction :=
          estimatePlanTreeReduction plans (collectPromotedCandidates plans (groupPlans plans)) } := by
  rw [fusePlans]
  rfl

def operators (plans : List QueryPlan) : Nat :=
  (plans.map fun plan => plan.root.operatorCount).sum

/-- The operators of the later occurrences of subtrees that occur more than once and do not
start a plan. -/
def savedOperators (plans : List QueryPlan) : Nat :=
  Tally.savings PlanNode.operatorCount (firstSteps plans) (executableSubtrees plans)

/-- Both counts are converted to `u32` before the division. -/
def reductionRatio (saved total : Nat) : Rat :=
  if total = 0 then 0 else f64Quotient (min (min saved total) u32Max) (min total u32Max)

theorem repeated_prefixes (keys : List PlanNode) :
    Tally.repeated ((groupPlans plans).map FusionGroup.sharedPrefix) keys =
      Tally.repeated (firstSteps plans) keys := by
  ext node
  rw [Tally.mem_repeated, Tally.mem_repeated, mem_prefixes_groupPlans]

theorem sharedNodesPromoted_fusePlans :
    (fusePlans plans).stats.sharedNodesPromoted =
      (Tally.repeated (firstSteps plans) (executableSubtrees plans)).card := by
  have hsum := sum_collectPromotedCandidates plans (groupPlans plans) fun _ _ => 1
  rw [List.map_const', List.sum_replicate_nat, Nat.mul_one, Finset.sum_const, repeated_prefixes,
    nsmul_one] at hsum
  rw [stats_fusePlans]
  exact hsum

theorem f64Quotient_zero : f64Quotient 0 1 = 0 := by
  simp [f64Quotient, roundHalfEven]

theorem planTreeReductionRatio_fusePlans :
    (fusePlans plans).stats.planTreeReductionRatio =
      reductionRatio (savedOperators plans) (operators plans) := by
  have hsum := sum_collectPromotedCandidates plans (groupPlans plans) fun node count =>
    node.operatorCount * (count - 1)
  rw [repeated_prefixes] at hsum
  rw [stats_fusePlans, FusionStats.planTreeReductionRatio, estimatePlanTreeReduction, hsum]
  rw [reductionRatio, operators, savedOperators, Tally.savings]
  split
  · exact f64Quotient_zero
  · rfl

end Statistics

section WrappedRoots

def wrappedRoots (plans : List QueryPlan) : List PlanNode :=
  (plans.filter QueryPlan.isWrapped).map QueryPlan.root

theorem wrappedRoots_cons (plan : QueryPlan) (plans : List QueryPlan) :
    wrappedRoots (plan :: plans) =
      (if plan.isWrapped then [plan.root] else []) ++ wrappedRoots plans := by
  rw [wrappedRoots, List.filter_cons]
  cases plan.isWrapped <;> rfl

theorem isWrapped_of_mem_wrappedRoots {plans : List QueryPlan} {root : PlanNode}
    (h : root ∈ wrappedRoots plans) :
    ∃ only, only.isContextFree = true ∧ root = .chain [only] := by
  obtain ⟨plan, hplan, heq⟩ := List.mem_map.mp h
  have hwrapped := (List.mem_filter.mp hplan).2
  rw [← heq]
  induction plan using unwrapping_cases with
  | wrapped only hfree => exact ⟨only, hfree, rfl⟩
  | kept plan hnot _ _ =>
    rw [hnot] at hwrapped
    cases hwrapped

theorem wrappedRoot_notMem_firstSteps {plans : List QueryPlan} {root : PlanNode}
    (h : root ∈ wrappedRoots plans) : root ∉ firstSteps plans := by
  obtain ⟨only, hfree, heq⟩ := isWrapped_of_mem_wrappedRoots h
  rw [heq]
  intro hin
  obtain ⟨plan, _, hsplit⟩ := List.mem_map.mp hin
  induction plan using unwrapping_cases with
  | wrapped step hstep =>
    rw [splitPrefixAndTail_wrapped hstep] at hsplit
    cases hsplit
    cases hstep
  | kept plan hnot _ hregroup =>
    rw [regroup, FusedTail.reconstruct, hsplit] at hregroup
    cases htail : (splitPrefixAndTail plan.root).2 with
    | identity =>
      rw [htail] at hregroup
      rw [← hregroup, isWrapped_wrapped hfree] at hnot
      cases hnot
    | chainContinuation rest =>
      rw [htail] at hregroup
      rw [← hregroup] at hsplit
      rw [splitPrefixAndTail.eq_def] at hsplit
      cases rest <;> cases hsplit

theorem sharedSubtrees_unwrapped (plan : QueryPlan) :
    (sharedSubtrees [] plan.root).map Prod.fst =
      (if plan.isWrapped then [plan.root] else []) ++
        (sharedSubtrees [] plan.unwrapped.root).map Prod.fst := by
  induction plan using unwrapping_cases with
  | wrapped only hfree =>
    rw [unwrapped_wrapped hfree, isWrapped_wrapped hfree, if_pos rfl, sharedSubtrees,
      isIndependentlyExecutableRoot, if_pos hfree, List.map_append, List.map_append,
      executableChainPrefixes, if_pos hfree, sharedSubtreesOfSteps,
      sharedSubtreesOfSteps, List.append_nil, pathFree_sharedSubtrees only _ []]
    rfl
  | kept plan hnot hunwrapped _ => simp [hnot, hunwrapped]

variable (plans : List QueryPlan)

theorem executableSubtrees_perm :
    (executableSubtrees plans).Perm
      (wrappedRoots plans ++ executableSubtrees (plans.map QueryPlan.unwrapped)) := by
  induction plans with
  | nil => exact List.Perm.refl _
  | cons plan plans ih =>
    rw [executableSubtrees, List.flatMap_cons, sharedSubtrees_unwrapped, wrappedRoots_cons,
      List.map_cons, executableSubtrees, List.flatMap_cons, List.append_assoc,
      List.append_assoc]
    refine List.Perm.append_left _ ?_
    refine (List.Perm.append_left _ ih).trans ?_
    rw [← List.append_assoc, ← List.append_assoc]
    exact List.Perm.append_right _ List.perm_append_comm

theorem operators_eq_add :
    operators plans =
      operators (plans.map QueryPlan.unwrapped) + (wrappedRoots plans).length := by
  induction plans with
  | nil => rfl
  | cons plan plans ih =>
    have hplan : plan.root.operatorCount = plan.unwrapped.root.operatorCount +
        (if plan.isWrapped then [plan.root] else []).length := by
      induction plan using unwrapping_cases with
      | wrapped only hfree =>
        rw [unwrapped_wrapped hfree, isWrapped_wrapped hfree, if_pos rfl,
          PlanNode.operatorCount, PlanNode.operatorCountSteps, PlanNode.operatorCountSteps,
          Nat.add_zero, Nat.add_comm]
        rfl
      | kept plan hnot hunwrapped _ => simp [hnot, hunwrapped]
    have hcons : ∀ (first : QueryPlan) rest,
        operators (first :: rest) = first.root.operatorCount + operators rest :=
      fun _ _ => rfl
    rw [hcons, ih, hplan, wrappedRoots_cons, List.length_append, List.map_cons, hcons]
    omega

def repeatedRootOperators (plans : List QueryPlan) : Nat :=
  (((wrappedRoots plans).filter fun root => 2 ≤ (executableSubtrees plans).count root).map
    PlanNode.operatorCount).sum

/-- A wrapped root that occurs more than once does so below the roots too, and the ratio
stays the same when the wrapped roots are left out of both its counts. -/
structure UnwrappingKeepsStats (plans : List QueryPlan) : Prop where
  repeatedBelow : ∀ root ∈ wrappedRoots plans, 2 ≤ (executableSubtrees plans).count root →
    (wrappedRoots plans).count root + 2 ≤ (executableSubtrees plans).count root
  sameRatio :
    reductionRatio (savedOperators plans - repeatedRootOperators plans)
        (operators plans - (wrappedRoots plans).length) =
      reductionRatio (savedOperators plans) (operators plans)

theorem count_executableSubtrees (node : PlanNode) :
    (executableSubtrees plans).count node = (wrappedRoots plans).count node +
      (executableSubtrees (plans.map QueryPlan.unwrapped)).count node := by
  rw [(executableSubtrees_perm plans).count_eq, List.count_append]

theorem absorbed_wrappedRoots_iff :
    Tally.Absorbed (firstSteps plans) (wrappedRoots plans)
        (executableSubtrees (plans.map QueryPlan.unwrapped)) ↔
      ∀ root ∈ wrappedRoots plans, 2 ≤ (executableSubtrees plans).count root →
        (wrappedRoots plans).count root + 2 ≤ (executableSubtrees plans).count root := by
  constructor
  · intro h root hroot hcount
    rw [count_executableSubtrees] at hcount ⊢
    rw [← List.count_append] at hcount
    exact Nat.add_le_add_left (h root hroot (wrappedRoot_notMem_firstSteps hroot) hcount) _
  · intro h root hroot _ hcount
    rw [List.count_append, ← count_executableSubtrees] at hcount
    have hbelow := h root hroot hcount
    rw [count_executableSubtrees] at hbelow
    exact Nat.le_of_add_le_add_left hbelow

theorem savedOperators_map_unwrapped {plans : List QueryPlan}
    (h : Tally.Absorbed (firstSteps plans) (wrappedRoots plans)
      (executableSubtrees (plans.map QueryPlan.unwrapped))) :
    savedOperators plans =
      savedOperators (plans.map QueryPlan.unwrapped) + repeatedRootOperators plans := by
  rw [savedOperators, Tally.savings_eq_of_perm _ (executableSubtrees_perm plans),
    Tally.savings_append _ h, savedOperators, firstSteps_map_unwrapped, repeatedRootOperators]
  congr 3
  refine List.filter_congr fun root hroot => ?_
  rw [decide_eq_decide, ← Tally.repeated_eq_of_perm (executableSubtrees_perm plans),
    Tally.mem_repeated]
  exact and_iff_left (wrappedRoot_notMem_firstSteps hroot)

theorem sharedNodesPromoted_map_unwrapped_iff :
    (fusePlans (plans.map QueryPlan.unwrapped)).stats.sharedNodesPromoted =
        (fusePlans plans).stats.sharedNodesPromoted ↔
      Tally.Absorbed (firstSteps plans) (wrappedRoots plans)
        (executableSubtrees (plans.map QueryPlan.unwrapped)) := by
  rw [sharedNodesPromoted_fusePlans, sharedNodesPromoted_fusePlans, firstSteps_map_unwrapped,
    Tally.repeated_eq_of_perm (executableSubtrees_perm plans), eq_comm]
  exact Tally.card_repeated_append_eq_iff

theorem stats_eq_map_unwrapped_iff :
    (fusePlans (plans.map QueryPlan.unwrapped)).stats.eq (fusePlans plans).stats = true ↔
      (fusePlans (plans.map QueryPlan.unwrapped)).stats.sharedNodesPromoted =
          (fusePlans plans).stats.sharedNodesPromoted ∧
        (fusePlans (plans.map QueryPlan.unwrapped)).stats.planTreeReductionRatio =
          (fusePlans plans).stats.planTreeReductionRatio := by
  simp only [FusionStats.eq, Bool.and_eq_true, decide_eq_true_eq]
  have htotal : (fusePlans (plans.map QueryPlan.unwrapped)).stats.totalPlans =
      (fusePlans plans).stats.totalPlans := by
    rw [stats_fusePlans, stats_fusePlans, List.length_map]
  have hgroups : (fusePlans (plans.map QueryPlan.unwrapped)).stats.fusionGroups =
      (fusePlans plans).stats.fusionGroups := by
    rw [stats_fusePlans, stats_fusePlans, groupPlans_map_unwrapped]
  have hscans : (fusePlans (plans.map QueryPlan.unwrapped)).stats.scansEliminated =
      (fusePlans plans).stats.scansEliminated := by
    rw [stats_fusePlans, stats_fusePlans, groupPlans_map_unwrapped, List.length_map]
  have hsubqueries : (fusePlans (plans.map QueryPlan.unwrapped)).stats.subqueriesTotal =
      (fusePlans plans).stats.subqueriesTotal := by
    rw [stats_fusePlans, stats_fusePlans, collectSubqueryPlans_map_unwrapped]
  have hunique : (fusePlans (plans.map QueryPlan.unwrapped)).stats.subqueriesUnique =
      (fusePlans plans).stats.subqueriesUnique := by
    rw [stats_fusePlans, stats_fusePlans, subqueryBatch_map_unwrapped]
  simp only [htotal, hgroups, hscans, hsubqueries, hunique, true_and]

end WrappedRoots

/-- The plans come back in the order of submission, up to unwrapping, and fusing them again
gives the same groups and the same subquery batch. It gives the same statistics exactly when
unwrapping keeps them. -/
theorem fusePlans_idempotent_iff (plans : List QueryPlan) :
    (∃ recovered, (fusePlans plans).inputPlans = some recovered ∧
        recovered = plans.map QueryPlan.unwrapped ∧
        (fusePlans recovered).groups = (fusePlans plans).groups ∧
        (fusePlans recovered).subqueryBatch = (fusePlans plans).subqueryBatch ∧
        (fusePlans recovered).stats.eq (fusePlans plans).stats = true) ↔
      UnwrappingKeepsStats plans := by
  have hrecovered : (fusePlans plans).inputPlans = some (plans.map QueryPlan.unwrapped) := by
    rw [inputPlans_fusePlans, List.map_congr_left fun plan _ => regroup_eq_unwrapped plan]
  have hstats : (fusePlans (plans.map QueryPlan.unwrapped)).stats.eq (fusePlans plans).stats =
      true ↔ UnwrappingKeepsStats plans := by
    rw [stats_eq_map_unwrapped_iff, sharedNodesPromoted_map_unwrapped_iff,
      planTreeReductionRatio_fusePlans, planTreeReductionRatio_fusePlans]
    have hoperators : operators (plans.map QueryPlan.unwrapped) =
        operators plans - (wrappedRoots plans).length := by
      rw [operators_eq_add plans, Nat.add_sub_cancel]
    constructor
    · intro h
      have hsaved := savedOperators_map_unwrapped h.1
      refine ⟨(absorbed_wrappedRoots_iff plans).mp h.1, ?_⟩
      rw [← hoperators, ← h.2, hsaved, Nat.add_sub_cancel]
    · intro h
      have habsorbed := (absorbed_wrappedRoots_iff plans).mpr h.repeatedBelow
      have hsaved := savedOperators_map_unwrapped habsorbed
      refine ⟨habsorbed, ?_⟩
      rw [← h.sameRatio, hoperators, hsaved, Nat.add_sub_cancel]
  constructor
  · intro h
    obtain ⟨recovered, _, heq, _, _, hsame⟩ := h
    rw [heq] at hsame
    exact hstats.mp hsame
  · intro h
    refine ⟨_, hrecovered, rfl, ?_, subqueryBatch_map_unwrapped plans, hstats.mpr h⟩
    rw [groups_fusePlans, groups_fusePlans, groupPlans_map_unwrapped]

/-- Two chains of one scan are promoted, and the scans that come back for them are not. -/
theorem two_wrapped_scans_not_idempotent :
    ¬ ∃ recovered,
        (fusePlans [⟨.chain [.nodeScan none none none]⟩,
          ⟨.chain [.nodeScan none none none]⟩]).inputPlans = some recovered ∧
        recovered = [⟨.chain [.nodeScan none none none]⟩,
          ⟨.chain [.nodeScan none none none]⟩].map QueryPlan.unwrapped ∧
        (fusePlans recovered).groups =
          (fusePlans [⟨.chain [.nodeScan none none none]⟩,
            ⟨.chain [.nodeScan none none none]⟩]).groups ∧
        (fusePlans recovered).subqueryBatch =
          (fusePlans [⟨.chain [.nodeScan none none none]⟩,
            ⟨.chain [.nodeScan none none none]⟩]).subqueryBatch ∧
        (fusePlans recovered).stats.eq
          (fusePlans [⟨.chain [.nodeScan none none none]⟩,
            ⟨.chain [.nodeScan none none none]⟩]).stats = true := by
  intro h
  obtain ⟨recovered, _, heq, _, _, hsame⟩ := h
  rw [heq, stats_eq_map_unwrapped_iff, sharedNodesPromoted_fusePlans,
    sharedNodesPromoted_fusePlans] at hsame
  exact absurd hsame.1 (by decide +kernel)

end Sqry
