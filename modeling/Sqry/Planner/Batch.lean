import Sqry.Lib.Scatter
import Sqry.Planner.Fuse
import Sqry.Planner.Meaning

/-!
The execution of a fused batch. It primes the cache with the subqueries, the deepest first,
and with the promoted subtrees, and then runs each shared prefix once for all its tails.
-/

namespace Sqry

section Execution
variable (db : PlannerDb)

namespace PlanExecutor

def remember (ex : PlanExecutor) (plan : PlanNode) (result : List NodeId) : PlanExecutor :=
  { ex with sharedNodeCache := ex.sharedNodeCache.insert plan result }

def primeSharedNodes : List SharedNode → PlanExecutor → PlanExecutor
  | [], ex => ex
  | shared :: rest, ex =>
    let (result, ex) := run db shared.canonicalPlan none ex
    primeSharedNodes rest (ex.remember shared.canonicalPlan result)

def runTail (sharedPrefix : PlanNode) (prefixResult : List NodeId) (fused : FusedTail)
    (ex : PlanExecutor) : List NodeId × PlanExecutor :=
  match fused.tail with
  | .identity => (prefixResult, ex)
  | .chainContinuation remainingSteps =>
    runChainContinuation db remainingSteps sharedPrefix prefixResult 0 ex

def primeTails (sharedPrefix : PlanNode) (prefixResult : List NodeId) :
    List FusedTail → PlanExecutor → PlanExecutor
  | [], ex => ex
  | fused :: rest, ex =>
    let (result, ex) := runTail db sharedPrefix prefixResult fused ex
    primeTails sharedPrefix prefixResult rest
      (ex.remember (fused.reconstruct sharedPrefix).root result)

def primeGroups : List FusionGroup → PlanExecutor → PlanExecutor
  | [], ex => ex
  | group :: rest, ex =>
    let (prefixResult, ex) := run db group.sharedPrefix none ex
    primeGroups rest (primeTails db group.sharedPrefix prefixResult group.tails ex)

mutual

def primeSubqueries : FusedPlanBatch → PlanExecutor → PlanExecutor
  | .mk _ subqueryBatch _ _, ex => primeSubqueryBatch subqueryBatch ex

def primeSubqueryBatch : Option FusedPlanBatch → PlanExecutor → PlanExecutor
  | none, ex => ex
  | some batch, ex =>
    primeGroups db batch.groups (primeSharedNodes db batch.sharedNodes
      (primeSubqueries batch ex))

end

def executeTails (sharedPrefix : PlanNode) (prefixResult : List NodeId) :
    List FusedTail → List (List NodeId) → PlanExecutor → List (List NodeId) × PlanExecutor
  | [], out, ex => (out, ex)
  | fused :: rest, out, ex =>
    let (result, ex) := runTail db sharedPrefix prefixResult fused ex
    executeTails sharedPrefix prefixResult rest (out.set fused.originalIndex result) ex

def executeGroups :
    List FusionGroup → List (List NodeId) → PlanExecutor → List (List NodeId) × PlanExecutor
  | [], out, ex => (out, ex)
  | group :: rest, out, ex =>
    let (prefixResult, ex) := run db group.sharedPrefix none ex
    let (out, ex) := executeTails db group.sharedPrefix prefixResult group.tails out ex
    executeGroups rest out ex

end PlanExecutor

def executeBatch (batch : FusedPlanBatch) : List (List NodeId) :=
  (PlanExecutor.executeGroups db batch.groups (List.replicate batch.totalPlans [])
    (PlanExecutor.primeSharedNodes db batch.sharedNodes
      (PlanExecutor.primeSubqueries db batch .new))).1

end Execution

section Groups

def FusionGroup.placed (group : FusionGroup) : List (Nat × QueryPlan) :=
  group.tails.map fun fused => (fused.originalIndex, fused.reconstruct group.sharedPrefix)

/-- The plan that the group of a root rebuilds for it: a chain of one step that needs no
input is that step. -/
def regroup (plan : QueryPlan) : QueryPlan :=
  FusedTail.reconstruct ⟨0, (splitPrefixAndTail plan.root).2⟩ (splitPrefixAndTail plan.root).1

def GroupTable.Indexed (table : GroupTable) : Prop :=
  ∀ node index, table.prefixIndex.lookup node = some index →
    ∃ group, table.groups[index]? = some group ∧ group.sharedPrefix = node

variable {table : GroupTable}

theorem GroupTable.add_of_some {originalIndex index : Nat} {plan : QueryPlan}
    (h : table.prefixIndex.lookup (splitPrefixAndTail plan.root).1 = some index) :
    table.add originalIndex plan =
      { table with groups := table.groups.modify index fun group =>
          { group with
            tails := group.tails ++ [⟨originalIndex, (splitPrefixAndTail plan.root).2⟩] } } := by
  simp only [GroupTable.add, h]

theorem GroupTable.add_of_none {originalIndex : Nat} {plan : QueryPlan}
    (h : table.prefixIndex.lookup (splitPrefixAndTail plan.root).1 = none) :
    table.add originalIndex plan =
      ⟨table.groups ++ [⟨(splitPrefixAndTail plan.root).1,
          [⟨originalIndex, (splitPrefixAndTail plan.root).2⟩]⟩],
        table.prefixIndex.insert (splitPrefixAndTail plan.root).1 table.groups.length⟩ := by
  simp only [GroupTable.add, h]

theorem GroupTable.indexed_add (h : table.Indexed) (originalIndex : Nat) (plan : QueryPlan) :
    (table.add originalIndex plan).Indexed := by
  cases hlookup : table.prefixIndex.lookup (splitPrefixAndTail plan.root).1 with
  | some index =>
    rw [GroupTable.add_of_some hlookup]
    intro node index' hnode
    obtain ⟨group, hgroup, hshared⟩ := h node index' hnode
    simp only [List.getElem?_modify, hgroup, Option.map_eq_map, Option.map_some]
    by_cases hindex : index = index'
    · exact ⟨_, rfl, by simp [hindex, hshared]⟩
    · exact ⟨_, rfl, by simp [hindex, hshared]⟩
  | none =>
    rw [GroupTable.add_of_none hlookup]
    intro node index hnode
    by_cases hsame : node = (splitPrefixAndTail plan.root).1
    · rw [hsame, AList.lookup_insert] at hnode
      cases hnode
      rw [hsame]
      exact ⟨_, List.getElem?_concat_length, rfl⟩
    · rw [AList.lookup_insert_ne hsame] at hnode
      obtain ⟨group, hgroup, hshared⟩ := h node index hnode
      have hlt : index < table.groups.length := (List.getElem?_eq_some_iff.mp hgroup).1
      exact ⟨group, by rw [List.getElem?_append_left hlt]; exact hgroup, hshared⟩

theorem flatMap_modify_perm {α β : Type} {f : α → List β} {g : α → α} {b : β} {l : List α}
    {index : Nat} {a : α} (hget : l[index]? = some a) (hf : f (g a) = f a ++ [b]) :
    ((l.modify index g).flatMap f).Perm (l.flatMap f ++ [b]) := by
  induction l generalizing index with
  | nil => cases hget
  | cons c l ih =>
    cases index with
    | zero =>
      cases hget
      rw [List.modify_zero_cons, List.flatMap_cons, List.flatMap_cons, hf, List.append_assoc,
        List.append_assoc]
      exact List.Perm.append_left (f a) List.perm_append_comm
    | succ index =>
      rw [List.getElem?_cons_succ] at hget
      rw [List.modify_succ_cons, List.flatMap_cons, List.flatMap_cons, List.append_assoc]
      exact List.Perm.append_left (f c) (ih hget)

theorem GroupTable.placed_add (h : table.Indexed) (originalIndex : Nat) (plan : QueryPlan) :
    ((table.add originalIndex plan).groups.flatMap FusionGroup.placed).Perm
      (table.groups.flatMap FusionGroup.placed ++ [(originalIndex, regroup plan)]) := by
  cases hlookup : table.prefixIndex.lookup (splitPrefixAndTail plan.root).1 with
  | some index =>
    rw [GroupTable.add_of_some hlookup]
    obtain ⟨group, hgroup, hshared⟩ := h _ index hlookup
    refine flatMap_modify_perm hgroup ?_
    rw [FusionGroup.placed, FusionGroup.placed, List.map_append, hshared]
    rfl
  | none =>
    rw [GroupTable.add_of_none hlookup, List.flatMap_append]
    exact List.Perm.refl _

theorem GroupTable.placed_addFrom (h : table.Indexed) (start : Nat) (plans : List QueryPlan) :
    ((GroupTable.addFrom start plans table).groups.flatMap FusionGroup.placed).Perm
      (table.groups.flatMap FusionGroup.placed ++
        Scatter.numberFrom start (plans.map regroup)) := by
  induction plans generalizing start table with
  | nil =>
    rw [List.map_nil, Scatter.numberFrom, List.append_nil]
    exact List.Perm.refl _
  | cons plan plans ih =>
    refine (ih (table.indexed_add h start plan) (start + 1)).trans ?_
    rw [List.map_cons, Scatter.numberFrom, List.append_cons]
    exact List.Perm.append_right _ (table.placed_add h start plan)

theorem placed_groupPlans (plans : List QueryPlan) :
    ((groupPlans plans).flatMap FusionGroup.placed).Perm
      (Scatter.numberFrom 0 (plans.map regroup)) := by
  refine @GroupTable.placed_addFrom ⟨[], ∅⟩ ?_ 0 plans
  intro node index h
  cases h

end Groups

namespace PlanExecutor
variable {db : PlannerDb}
variable {ex : PlanExecutor} {prefixResult : List NodeId} {sharedPrefix : PlanNode}

theorem primeSharedNodes_faithful (shared : List SharedNode) (h : Faithful db ex)
    : Faithful db (primeSharedNodes db shared ex) := by
  induction shared generalizing ex with
  | nil => exact h
  | cons first rest ih =>
    obtain ⟨hvalue, hnext⟩ := run_computes first.canonicalPlan none ex h
    exact ih (hnext.remember hvalue)

theorem runTail_computes (hshared : prefixResult = db.evaluate sharedPrefix []) (fused : FusedTail)
    (h : Faithful db ex) :
    Computes db (runTail db sharedPrefix prefixResult fused ex)
      (db.evaluate (fused.reconstruct sharedPrefix).root []) := by
  rw [runTail, FusedTail.reconstruct]
  cases fused.tail with
  | identity => exact ⟨hshared, h⟩
  | chainContinuation remaining =>
    have hloop := @runChainContinuation_computes db remaining
      (fun step _ => run_computes step) sharedPrefix prefixResult 0 ex hshared h
    rw [List.drop_zero] at hloop
    exact ⟨hloop.value_eq.trans (congrArg (db.evaluateSteps remaining) hshared),
      hloop.faithful⟩

theorem primeTails_faithful (hshared : prefixResult = db.evaluate sharedPrefix [])
    (tails : List FusedTail) (h : Faithful db ex) :
    Faithful db (primeTails db sharedPrefix prefixResult tails ex) := by
  induction tails generalizing ex with
  | nil => exact h
  | cons fused rest ih =>
    obtain ⟨hvalue, hnext⟩ := runTail_computes hshared fused h
    exact ih (hnext.remember hvalue)

theorem primeGroups_faithful (groups : List FusionGroup) (h : Faithful db ex)
    : Faithful db (primeGroups db groups ex) := by
  induction groups generalizing ex with
  | nil => exact h
  | cons group rest ih =>
    obtain ⟨hvalue, hnext⟩ := run_computes group.sharedPrefix none ex h
    exact ih (primeTails_faithful hvalue group.tails hnext)

theorem primeSubqueries_faithful (batch : FusedPlanBatch) (h : Faithful db ex)
    : Faithful db (primeSubqueries db batch ex) := by
  refine @FusedPlanBatch.rec
    (fun batch => ∀ ex, Faithful db ex → Faithful db (primeSubqueries db batch ex))
    (fun batch => ∀ ex, Faithful db ex → Faithful db (primeSubqueryBatch db batch ex))
    ?_ ?_ ?_ batch ex h
  · intro groups subqueryBatch stats sharedNodes ih ex h
    exact ih ex h
  · intro ex h
    exact h
  · intro batch ih ex h
    exact primeGroups_faithful _ (primeSharedNodes_faithful _ (ih ex h))

theorem executeTails_computes (hshared : prefixResult = db.evaluate sharedPrefix [])
    (tails : List FusedTail) (out : List (List NodeId)) (h : Faithful db ex) :
    Computes db (executeTails db sharedPrefix prefixResult tails out ex)
      (Scatter.scatter (tails.map fun fused =>
        (fused.originalIndex, db.evaluate (fused.reconstruct sharedPrefix).root [])) out) := by
  induction tails generalizing out ex with
  | nil => exact ⟨rfl, h⟩
  | cons fused rest ih =>
    obtain ⟨hvalue, hnext⟩ := runTail_computes hshared fused h
    rw [List.map_cons, Scatter.scatter_cons, ← hvalue]
    exact ih _ hnext

theorem executeGroups_computes (groups : List FusionGroup) (out : List (List NodeId))
    (h : Faithful db ex) :
    Computes db (executeGroups db groups out ex)
      (Scatter.scatter ((groups.flatMap FusionGroup.placed).map fun placed =>
        (placed.1, db.evaluate placed.2.root [])) out) := by
  induction groups generalizing out ex with
  | nil => exact ⟨rfl, h⟩
  | cons group rest ih =>
    obtain ⟨hvalue, hmid⟩ := run_computes group.sharedPrefix none ex h
    obtain ⟨htails, hnext⟩ := executeTails_computes hvalue group.tails out hmid
    have hwrites : (executeTails db group.sharedPrefix (run db group.sharedPrefix none ex).1
        group.tails out (run db group.sharedPrefix none ex).2).1 =
        Scatter.scatter (group.placed.map fun placed =>
          (placed.1, db.evaluate placed.2.root [])) out := by
      rw [FusionGroup.placed, List.map_map]
      exact htails
    rw [List.flatMap_cons, List.map_append, Scatter.scatter_append, ← hwrites]
    exact ih _ hnext

end PlanExecutor

section Batch
variable (db : PlannerDb)

theorem evaluate_regroup (plan : QueryPlan) :
    db.evaluate (regroup plan).root [] = db.evaluate plan.root [] := by
  rw [regroup]
  cases plan.root with
  | chain steps =>
    cases steps with
    | nil => rfl
    | cons first rest =>
      cases rest with
      | nil => cases hfree : first.isContextFree <;> simp only [splitPrefixAndTail, hfree] <;> rfl
      | cons second rest =>
        cases hfree : first.isContextFree <;> simp [splitPrefixAndTail, hfree] <;> rfl
  | _ => rfl

theorem numberFrom_map {α β : Type} (f : α → β) (start : Nat) (l : List α) :
    (Scatter.numberFrom start l).map (fun p => (p.1, f p.2)) =
      Scatter.numberFrom start (l.map f) := by
  induction l generalizing start with
  | nil => rfl
  | cons a l ih => rw [List.map_cons, Scatter.numberFrom, Scatter.numberFrom, List.map_cons, ih]

theorem length_placed (group : FusionGroup) : group.placed.length = group.tails.length :=
  List.length_map _

/-- Executing a fused batch gives, in the order of submission, what executing its plans one
by one gives. -/
theorem execute_batch_eq_execute_plan (plans : List QueryPlan) :
    executeBatch db (fusePlans plans) = plans.map (executePlan db) := by
  have hgroups : (fusePlans plans).groups = groupPlans plans := by
    rw [fusePlans]
    rfl
  have hplaced := placed_groupPlans plans
  have htotal : (fusePlans plans).totalPlans = plans.length := by
    have hlen := hplaced.length_eq
    rw [List.length_flatMap, Scatter.length_numberFrom, List.length_map] at hlen
    rw [FusedPlanBatch.totalPlans, hgroups, ← hlen]
    simp only [length_placed]
  have hmeaning : (plans.map regroup).map (fun plan => db.evaluate plan.root []) =
      plans.map (executePlan db) := by
    rw [List.map_map]
    refine List.map_congr_left fun plan _ => ?_
    rw [executePlan_eq_evaluate]
    exact evaluate_regroup db plan
  have hprimed := PlanExecutor.primeSharedNodes_faithful (fusePlans plans).sharedNodes
    (PlanExecutor.primeSubqueries_faithful (fusePlans plans)
      (@PlanExecutor.faithful_new db))
  rw [executeBatch, (PlanExecutor.executeGroups_computes _ _ hprimed).value_eq, hgroups, htotal]
  apply Scatter.scatter_eq_of_perm
  · rw [List.length_replicate, List.length_map]
  · rw [← hmeaning, ← numberFrom_map]
    exact hplaced.map _

end Batch

end Sqry
