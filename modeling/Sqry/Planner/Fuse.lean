import Sqry.Lib.MemoTable
import Sqry.Lib.SortedGroups
import Sqry.Planner.Ir

/-!
Fusing a batch of plans: plans are grouped by the step they start with, the subqueries of
all of them become a batch of their own, and subtrees that occur more than once are
promoted.
-/

namespace Sqry

inductive FusionTail where
  | identity
  | chainContinuation (remainingSteps : List PlanNode)

structure FusedTail where
  originalIndex : Nat
  tail : FusionTail

def FusedTail.reconstruct (fused : FusedTail) (sharedPrefix : PlanNode) : QueryPlan :=
  match fused.tail with
  | .identity => ⟨sharedPrefix⟩
  | .chainContinuation remainingSteps => ⟨.chain (sharedPrefix :: remainingSteps)⟩

structure FusionGroup where
  sharedPrefix : PlanNode
  tails : List FusedTail

structure SharedNode where
  canonicalPlan : PlanNode
  consumers : List Nat
  id : Nat

structure FusionStats where
  totalPlans : Nat
  fusionGroups : Nat
  scansEliminated : Nat
  subqueriesTotal : Nat
  subqueriesUnique : Nat
  sharedNodesPromoted : Nat
  planTreeReduction : Nat × Nat

inductive FusedPlanBatch where
  | mk (groups : List FusionGroup) (subqueryBatch : Option FusedPlanBatch) (stats : FusionStats)
      (sharedNodes : List SharedNode)

namespace FusedPlanBatch

def groups : FusedPlanBatch → List FusionGroup
  | mk groups _ _ _ => groups

def sharedNodes : FusedPlanBatch → List SharedNode
  | mk _ _ _ sharedNodes => sharedNodes

def totalPlans (batch : FusedPlanBatch) : Nat :=
  (batch.groups.map fun group => group.tails.length).sum

end FusedPlanBatch

section Subqueries

mutual

def subqueriesOfPlan : PlanNode → List PlanNode
  | .nodeScan .. | .edgeTraversal .. => []
  | .filter predicate => subqueriesOfPredicate predicate
  | .setOp _ left right => subqueriesOfPlan left ++ subqueriesOfPlan right
  | .chain steps => subqueriesOfSteps steps

def subqueriesOfSteps : List PlanNode → List PlanNode
  | [] => []
  | step :: steps => subqueriesOfPlan step ++ subqueriesOfSteps steps

def subqueriesOfPredicate : Predicate → List PlanNode
  | .leaf _ => []
  | .relation _ value => subqueriesOfValue value
  | .and list => subqueriesOfPredicates list
  | .or list => subqueriesOfPredicates list
  | .not inner => subqueriesOfPredicate inner

def subqueriesOfPredicates : List Predicate → List PlanNode
  | [] => []
  | inner :: list => subqueriesOfPredicate inner ++ subqueriesOfPredicates list

def subqueriesOfValue : PredicateValue → List PlanNode
  | .subquery plan => plan :: subqueriesOfPlan plan
  | _ => []

end

/-- How many subqueries there are, and the distinct ones in the order of their first
appearance. -/
def collectSubqueryPlans (plans : List QueryPlan) : Nat × List QueryPlan :=
  let found := plans.flatMap fun plan => subqueriesOfPlan plan.root
  (found.length, found.eraseDups.map QueryPlan.mk)

theorem mem_subqueriesOfSteps {sub : PlanNode} {steps : List PlanNode} :
    sub ∈ subqueriesOfSteps steps ↔ ∃ step ∈ steps, sub ∈ subqueriesOfPlan step := by
  induction steps with
  | nil => simp [subqueriesOfSteps]
  | cons step steps ih => simp [subqueriesOfSteps, ih]

theorem mem_subqueriesOfPredicates {sub : PlanNode} {list : List Predicate} :
    sub ∈ subqueriesOfPredicates list ↔ ∃ p ∈ list, sub ∈ subqueriesOfPredicate p := by
  induction list with
  | nil => simp [subqueriesOfPredicates]
  | cons p list ih => simp [subqueriesOfPredicates, ih]

theorem sizeOf_lt_of_mem_subqueriesOfPlan (node : PlanNode) :
    ∀ sub ∈ subqueriesOfPlan node, sizeOf sub < sizeOf node := by
  refine @PlanNode.inductOn (fun node => ∀ sub ∈ subqueriesOfPlan node, sizeOf sub < sizeOf node)
    (fun p => ∀ sub ∈ subqueriesOfPredicate p, sizeOf sub < sizeOf p)
    ?_ ?_ ?_ ?_ ?_ ?_ ?_ ?_ ?_ ?_ node
  · intro kind visibility namePattern sub h
    cases h
  · intro direction edgeKind maxDepth resolvedVia sub h
    cases h
  · intro predicate ih sub h
    have hsub := ih sub h
    rw [PlanNode.filter.sizeOf_spec]
    omega
  · intro op left right ihl ihr sub h
    rw [PlanNode.setOp.sizeOf_spec]
    cases List.mem_append.mp h with
    | inl h => have hsub := ihl sub h; omega
    | inr h => have hsub := ihr sub h; omega
  · intro steps ih sub h
    obtain ⟨step, hstep, hmem⟩ := mem_subqueriesOfSteps.mp h
    have hsub := ih step hstep sub hmem
    have hlt := List.sizeOf_lt_of_mem hstep
    rw [PlanNode.chain.sizeOf_spec]
    omega
  · intro p sub h
    cases h
  · intro kind value ih sub h
    rw [Predicate.relation.sizeOf_spec]
    cases value with
    | pattern p => cases h
    | regex r => cases h
    | subquery plan =>
      rw [PredicateValue.subquery.sizeOf_spec]
      cases List.mem_cons.mp h with
      | inl heq => rw [heq]; omega
      | inr hmem => have hsub := ih plan rfl sub hmem; omega
  · intro list ih sub h
    obtain ⟨p, hp, hmem⟩ := mem_subqueriesOfPredicates.mp h
    have hsub := ih p hp sub hmem
    have hlt := List.sizeOf_lt_of_mem hp
    rw [Predicate.and.sizeOf_spec]
    omega
  · intro list ih sub h
    obtain ⟨p, hp, hmem⟩ := mem_subqueriesOfPredicates.mp h
    have hsub := ih p hp sub hmem
    have hlt := List.sizeOf_lt_of_mem hp
    rw [Predicate.or.sizeOf_spec]
    omega
  · intro inner ih sub h
    have hsub := ih sub h
    rw [Predicate.not.sizeOf_spec]
    omega

noncomputable def maxSize (plans : List QueryPlan) : Nat := (plans.map fun plan => sizeOf plan.root).foldr max 0

theorem maxSize_lt_iff {plans : List QueryPlan} {n : Nat} (hn : 0 < n) :
    maxSize plans < n ↔ ∀ plan ∈ plans, sizeOf plan.root < n := by
  rw [maxSize]
  induction plans with
  | nil => simp [hn]
  | cons plan plans ih => simp [ih]

theorem le_maxSize {plans : List QueryPlan} {plan : QueryPlan} (h : plan ∈ plans) :
    sizeOf plan.root ≤ maxSize plans :=
  Nat.le_of_not_lt fun hlt =>
    absurd ((maxSize_lt_iff (Nat.zero_lt_of_lt hlt)).mp hlt plan h) (Nat.lt_irrefl _)

theorem maxSize_collectSubqueryPlans_lt {plans : List QueryPlan}
    (h : (collectSubqueryPlans plans).2 ≠ []) :
    maxSize (collectSubqueryPlans plans).2 < maxSize plans := by
  have hlt : ∀ sub ∈ (collectSubqueryPlans plans).2, sizeOf sub.root < maxSize plans := by
    intro sub hsub
    obtain ⟨node, hnode, heq⟩ := List.mem_map.mp hsub
    obtain ⟨plan, hplan, hmem⟩ := List.mem_flatMap.mp (List.mem_eraseDups.mp hnode)
    rw [← heq]
    exact Nat.lt_of_lt_of_le (sizeOf_lt_of_mem_subqueriesOfPlan plan.root node hmem)
      (le_maxSize hplan)
  obtain ⟨sub, hsub⟩ := List.exists_mem_of_ne_nil _ h
  exact (maxSize_lt_iff (Nat.zero_lt_of_lt (hlt sub hsub))).mpr hlt

end Subqueries

section Groups

/-- A chain is split behind its first step when that step needs no input. Any other root is
a group of its own. -/
def splitPrefixAndTail : PlanNode → PlanNode × FusionTail
  | .chain [only] => if only.isContextFree then (only, .identity) else (.chain [only], .identity)
  | .chain (first :: rest) =>
    if first.isContextFree then (first, .chainContinuation rest)
    else (.chain (first :: rest), .identity)
  | root => (root, .identity)

structure GroupTable where
  groups : List FusionGroup
  prefixIndex : MemoTable.Table PlanNode Nat

def GroupTable.add (table : GroupTable) (originalIndex : Nat) (plan : QueryPlan) : GroupTable :=
  let (sharedPrefix, tail) := splitPrefixAndTail plan.root
  match table.prefixIndex.lookup sharedPrefix with
  | some index =>
    { table with groups := table.groups.modify index fun group =>
        { group with tails := group.tails ++ [⟨originalIndex, tail⟩] } }
  | none =>
    ⟨table.groups ++ [⟨sharedPrefix, [⟨originalIndex, tail⟩]⟩],
      table.prefixIndex.insert sharedPrefix table.groups.length⟩

def GroupTable.addFrom : Nat → List QueryPlan → GroupTable → GroupTable
  | _, [], table => table
  | index, plan :: plans, table => addFrom (index + 1) plans (table.add index plan)

def groupPlans (plans : List QueryPlan) : List FusionGroup :=
  (GroupTable.addFrom 0 plans ⟨[], ∅⟩).groups

end Groups

section SharedSubtrees

/-- Ordered as in the source, first by the kind of the segment. -/
inductive PathSegment where
  | chainStep (index : Nat)
  | chainPrefix (length : Nat)
  | setLeft
  | setRight
  | predicateValueSubquery
  | predicateAnd (index : Nat)
  | predicateOr (index : Nat)
  | predicateNot
  deriving DecidableEq, Ord

abbrev SubtreePath := List PathSegment

def isIndependentlyExecutableRoot : PlanNode → Bool
  | .nodeScan .. | .setOp .. => true
  | .chain (first :: _) => first.isContextFree
  | _ => false

def properChainPrefixes (steps : List PlanNode) : List (Nat × PlanNode) :=
  (List.range' 2 (steps.length - 2)).map fun length => (length, .chain (steps.take length))

def executableChainPrefixes (path : SubtreePath) (steps : List PlanNode) :
    List (PlanNode × SubtreePath) :=
  match steps with
  | [] => []
  | first :: _ =>
    if first.isContextFree then
      (properChainPrefixes steps).map fun chainPrefix =>
        (chainPrefix.2, path ++ [.chainPrefix chainPrefix.1])
    else []

mutual

def sharedSubtrees (path : SubtreePath) (node : PlanNode) : List (PlanNode × SubtreePath) :=
  (if isIndependentlyExecutableRoot node then [(node, path)] else []) ++
    match node with
    | .nodeScan .. | .edgeTraversal .. => []
    | .chain steps => executableChainPrefixes path steps ++ sharedSubtreesOfSteps path 0 steps
    | .setOp _ left right =>
      sharedSubtrees (path ++ [.setLeft]) left ++ sharedSubtrees (path ++ [.setRight]) right
    | .filter predicate => sharedSubtreesOfPredicate path predicate

def sharedSubtreesOfSteps (path : SubtreePath) (index : Nat) :
    List PlanNode → List (PlanNode × SubtreePath)
  | [] => []
  | step :: steps =>
    sharedSubtrees (path ++ [.chainStep index]) step ++
      sharedSubtreesOfSteps path (index + 1) steps

def sharedSubtreesOfPredicate (path : SubtreePath) : Predicate → List (PlanNode × SubtreePath)
  | .leaf _ => []
  | .relation _ value => sharedSubtreesOfValue path value
  | .and list => sharedSubtreesOfPredicates path .predicateAnd 0 list
  | .or list => sharedSubtreesOfPredicates path .predicateOr 0 list
  | .not inner => sharedSubtreesOfPredicate (path ++ [.predicateNot]) inner

def sharedSubtreesOfPredicates (path : SubtreePath) (segment : Nat → PathSegment) (index : Nat) :
    List Predicate → List (PlanNode × SubtreePath)
  | [] => []
  | inner :: list =>
    sharedSubtreesOfPredicate (path ++ [segment index]) inner ++
      sharedSubtreesOfPredicates path segment (index + 1) list

def sharedSubtreesOfValue (path : SubtreePath) : PredicateValue → List (PlanNode × SubtreePath)
  | .subquery plan => sharedSubtrees (path ++ [.predicateValueSubquery]) plan
  | _ => []

end

mutual

def properSubtrees : PlanNode → List PlanNode
  | .nodeScan .. | .edgeTraversal .. => []
  | .filter predicate => properSubtreesOfPredicate predicate
  | .setOp _ left right =>
    left :: properSubtrees left ++ (right :: properSubtrees right)
  | .chain steps => (properChainPrefixes steps).map Prod.snd ++ properSubtreesOfSteps steps

def properSubtreesOfSteps : List PlanNode → List PlanNode
  | [] => []
  | step :: steps => step :: properSubtrees step ++ properSubtreesOfSteps steps

def properSubtreesOfPredicate : Predicate → List PlanNode
  | .leaf _ => []
  | .relation _ value => properSubtreesOfValue value
  | .and list => properSubtreesOfPredicates list
  | .or list => properSubtreesOfPredicates list
  | .not inner => properSubtreesOfPredicate inner

def properSubtreesOfPredicates : List Predicate → List PlanNode
  | [] => []
  | inner :: list => properSubtreesOfPredicate inner ++ properSubtreesOfPredicates list

def properSubtreesOfValue : PredicateValue → List PlanNode
  | .subquery plan => plan :: properSubtrees plan
  | _ => []

end

def isProperSubtree (needle haystack : PlanNode) : Bool := decide (needle ∈ properSubtrees haystack)

abbrev SubtreePosition := Nat × SubtreePath

structure PromotedCandidate where
  canonicalPlan : PlanNode
  positions : List SubtreePosition

def comparePositions (a b : SubtreePosition) : Ordering :=
  (compare a.1 b.1).then (compare a.2 b.2)

def register (candidates : MemoTable.Table PlanNode (List SubtreePosition))
    (registration : PlanNode × SubtreePosition) :
    MemoTable.Table PlanNode (List SubtreePosition) :=
  candidates.insert registration.1
    (((candidates.lookup registration.1).getD []) ++ [registration.2])

def registrationsFrom : Nat → List QueryPlan → List (PlanNode × SubtreePosition)
  | _, [] => []
  | index, plan :: plans =>
    ((sharedSubtrees [] plan.root).map fun found => (found.1, index, found.2)) ++
      registrationsFrom (index + 1) plans

/-- By first position, then by size. No two candidates share a position, so the order of the
table that holds them does not show. -/
def compareCandidates (a b : PromotedCandidate) : Ordering :=
  match a.positions, b.positions with
  | first :: _, first' :: _ =>
    (comparePositions first first').then
      (compare a.canonicalPlan.operatorCount b.canonicalPlan.operatorCount)
  | _, _ => .eq

def promoteCandidates (candidates : MemoTable.Table PlanNode (List SubtreePosition))
    (groups : List FusionGroup) : List PromotedCandidate :=
  SortedGroups.sortBy compareCandidates
    (candidates.entries.filterMap fun entry =>
      if entry.2.length < 2 || decide (entry.1 ∈ groups.map FusionGroup.sharedPrefix) then none
      else some ⟨entry.1, SortedGroups.sortBy comparePositions entry.2⟩)

/-- The first candidate that is ready goes next; each is ready once, so that their number
bounds the rounds. -/
def containmentOrder (outgoing : Nat → List Nat) :
    Nat → List Nat → (Nat → Nat) → List Nat
  | 0, _, _ => []
  | _, [], _ => []
  | rounds + 1, index :: ready, indegree =>
    let lowered := fun i => indegree i - (outgoing index).count i
    index :: containmentOrder outgoing rounds
      (ready ++ (outgoing index).filter fun dependent => lowered dependent = 0) lowered

def sortByContainment (candidates : List PromotedCandidate) : List PromotedCandidate :=
  if candidates.length ≤ 1 then candidates
  else
    let contains := fun parent child =>
      match candidates[parent]?, candidates[child]? with
      | some p, some c => parent ≠ child && isProperSubtree c.canonicalPlan p.canonicalPlan
      | _, _ => false
    let indices := List.range candidates.length
    let indegree := fun parent => (indices.filter fun child => contains parent child).length
    let order := containmentOrder (fun child => indices.filter fun parent => contains parent child)
      candidates.length (indices.filter fun index => indegree index = 0) indegree
    if order.length ≠ candidates.length then candidates
    else order.filterMap fun index => candidates[index]?

def collectPromotedCandidates (plans : List QueryPlan) (groups : List FusionGroup) :
    List PromotedCandidate :=
  sortByContainment (promoteCandidates ((registrationsFrom 0 plans).foldl register ∅) groups)

def candidateConsumers (positions : List SubtreePosition) : List Nat :=
  (positions.map Prod.fst).eraseDups

def materializeFrom : Nat → List PromotedCandidate → List SharedNode
  | _, [] => []
  | index, candidate :: candidates =>
    ⟨candidate.canonicalPlan, candidateConsumers candidate.positions, min index u32Max⟩ ::
      materializeFrom (index + 1) candidates

def estimatePlanTreeReduction (plans : List QueryPlan) (candidates : List PromotedCandidate) :
    Nat × Nat :=
  let total := (plans.map fun plan => plan.root.operatorCount).sum
  let saved := (candidates.map fun candidate =>
    candidate.canonicalPlan.operatorCount * (candidate.positions.length - 1)).sum
  if total = 0 then (0, 1) else (min (min saved total) u32Max, min total u32Max)

end SharedSubtrees

def fusePlans (plans : List QueryPlan) : FusedPlanBatch :=
  let subqueries := collectSubqueryPlans plans
  let subqueryBatch := if _h : subqueries.2 = [] then none else some (fusePlans subqueries.2)
  let groups := groupPlans plans
  let candidates := collectPromotedCandidates plans groups
  .mk groups subqueryBatch
    { totalPlans := plans.length
      fusionGroups := groups.length
      scansEliminated := plans.length - groups.length
      subqueriesTotal := subqueries.1
      subqueriesUnique := subqueryBatch.elim 0 FusedPlanBatch.totalPlans
      sharedNodesPromoted := candidates.length
      planTreeReduction := estimatePlanTreeReduction plans candidates }
    (materializeFrom 0 candidates)
termination_by maxSize plans
decreasing_by exact maxSize_collectSubqueryPlans_lt _h

end Sqry
