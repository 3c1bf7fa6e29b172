import Mathlib.Algebra.Order.BigOperators.Group.Finset
import Sqry.Lib.Tally
import Sqry.Planner.Fuse

/-!
Which subtrees of a batch are promoted. The order by containment only permutes them, and they
are the independently executable subtrees that occur at least twice and do not start a plan.
-/

namespace Sqry

section Containment
variable {n : Nat} {outgoing : Nat → List Nat}

def pendingEdges (n : Nat) (outgoing : Nat → List Nat) (done : List Nat) (index : Nat) : Nat :=
  ∑ source ∈ Finset.range n \ done.toFinset, (outgoing source).count index

theorem pendingEdges_concat {done : List Nat} {next : Nat} (hlt : next < n) (hnew : next ∉ done)
    (index : Nat) :
    pendingEdges n outgoing (done ++ [next]) index =
      pendingEdges n outgoing done index - (outgoing next).count index := by
  have hmem : next ∈ Finset.range n \ done.toFinset :=
    Finset.mem_sdiff.mpr ⟨Finset.mem_range.mpr hlt, fun h => hnew (List.mem_toFinset.mp h)⟩
  have herase : Finset.range n \ (done ++ [next]).toFinset =
      (Finset.range n \ done.toFinset).erase next := by
    ext a
    simp only [List.toFinset_append, Finset.mem_sdiff, Finset.mem_union, Finset.mem_erase,
      List.mem_toFinset, List.mem_singleton]
    tauto
  rw [pendingEdges, pendingEdges, herase, ← Finset.add_sum_erase _ _ hmem, Nat.add_sub_cancel_left]

theorem pos_pendingEdges {done : List Nat} {next index : Nat} (hlt : next < n)
    (hnew : next ∉ done) (hedge : index ∈ outgoing next) :
    0 < pendingEdges n outgoing done index := by
  have hmem : next ∈ Finset.range n \ done.toFinset :=
    Finset.mem_sdiff.mpr ⟨Finset.mem_range.mpr hlt, fun h => hnew (List.mem_toFinset.mp h)⟩
  exact Nat.lt_of_lt_of_le (List.count_pos_iff.mpr hedge)
    (Finset.single_le_sum (f := fun source => (outgoing source).count index)
      (fun _ _ => Nat.zero_le _) hmem)

/-- What the rounds of the ordering keep: the degrees count the edges from the indices that
are not done, and an index is queued once, when its degree is zero. -/
structure Queued (n : Nat) (outgoing : Nat → List Nat) (done ready : List Nat)
    (indegree : Nat → Nat) : Prop where
  degrees : ∀ index, indegree index = pendingEdges n outgoing done index
  once : (done ++ ready).Nodup
  bounded : ∀ index ∈ done ++ ready, index < n
  free : ∀ index ∈ done ++ ready, indegree index = 0

theorem Queued.next {done ready : List Nat} {index : Nat} {indegree : Nat → Nat}
    (hedges : ∀ source, (outgoing source).Nodup ∧ ∀ target ∈ outgoing source, target < n)
    (h : Queued n outgoing done (index :: ready) indegree) :
    Queued n outgoing (done ++ [index])
      (ready ++ (outgoing index).filter fun dependent =>
        indegree dependent - (outgoing index).count dependent = 0)
      (fun i => indegree i - (outgoing index).count i) := by
  have hsplit : done ++ [index] ++ ready = done ++ index :: ready := (List.append_cons ..).symm
  have hmem : index ∈ done ++ index :: ready :=
    List.mem_append_right _ List.mem_cons_self
  have hnew : index ∉ done := fun hin =>
    (List.disjoint_of_nodup_append h.once) hin List.mem_cons_self
  refine ⟨?_, ?_, ?_, ?_⟩
  · intro i
    rw [pendingEdges_concat (h.bounded index hmem) hnew, h.degrees]
  · rw [← List.append_assoc, hsplit]
    refine List.Nodup.append h.once ((hedges index).1.filter _) ?_
    intro i hi hadded
    -- a dependent of the index has an edge left, so that it was not queued before
    have hpos := @pos_pendingEdges n outgoing done index i (h.bounded index hmem) hnew
      (List.mem_filter.mp hadded).1
    rw [← h.degrees, h.free i hi] at hpos
    exact Nat.lt_irrefl 0 hpos
  · intro i hi
    rw [← List.append_assoc, hsplit] at hi
    cases List.mem_append.mp hi with
    | inl hold => exact h.bounded i hold
    | inr hadded => exact (hedges index).2 i (List.mem_filter.mp hadded).1
  · intro i hi
    rw [← List.append_assoc, hsplit] at hi
    cases List.mem_append.mp hi with
    | inl hold => rw [h.free i hold, Nat.zero_sub]
    | inr hadded => exact of_decide_eq_true (List.mem_filter.mp hadded).2

theorem Queued.containmentOrder {rounds : Nat} {done ready : List Nat} {indegree : Nat → Nat}
    (hedges : ∀ source, (outgoing source).Nodup ∧ ∀ target ∈ outgoing source, target < n)
    (h : Queued n outgoing done ready indegree) :
    (done ++ containmentOrder outgoing rounds ready indegree).Nodup ∧
      ∀ index ∈ containmentOrder outgoing rounds ready indegree, index < n := by
  induction rounds generalizing done ready indegree with
  | zero =>
    rw [Sqry.containmentOrder, List.append_nil]
    exact ⟨(List.nodup_append.mp h.once).1, fun index hin => by cases hin⟩
  | succ rounds ih =>
    cases ready with
    | nil =>
      rw [Sqry.containmentOrder, List.append_nil]
      · exact ⟨(List.nodup_append.mp h.once).1, fun index hin => by cases hin⟩
      · intro hzero
        cases hzero
    | cons index ready =>
      rw [Sqry.containmentOrder]
      obtain ⟨honce, hbounded⟩ := ih (h.next hedges)
      refine ⟨by rw [List.append_cons]; exact honce, ?_⟩
      intro i hi
      cases List.mem_cons.mp hi with
      | inl heq =>
        rw [heq]
        exact h.bounded index (List.mem_append_right _ List.mem_cons_self)
      | inr hlater => exact hbounded i hlater

theorem filterMap_getElem?_range {α : Type} (l : List α) :
    (List.range l.length).filterMap (fun index => l[index]?) = l := by
  induction l with
  | nil => rfl
  | cons a l ih =>
    rw [List.length_cons, List.range_succ_eq_map, List.filterMap_cons]
    simp only [List.getElem?_cons_zero, List.filterMap_map]
    exact congrArg (a :: ·) ih

theorem filterMap_getElem?_perm {α : Type} {l : List α} {order : List Nat} (honce : order.Nodup)
    (hbounded : ∀ index ∈ order, index < l.length) (hall : order.length = l.length) :
    (order.filterMap fun index => l[index]?).Perm l := by
  have hperm : order.Perm (List.range l.length) := by
    refine List.Subperm.perm_of_length_le (List.subperm_of_subset honce ?_) ?_
    · intro index hin
      exact List.mem_range.mpr (hbounded index hin)
    · rw [List.length_range, hall]
  have hpick := hperm.filterMap fun index => l[index]?
  rwa [filterMap_getElem?_range] at hpick

theorem length_filter_range (p : Nat → Bool) (n : Nat) :
    ((List.range n).filter p).length = ∑ index ∈ Finset.range n, if p index then 1 else 0 := by
  induction n with
  | zero => rfl
  | succ n ih =>
    rw [List.range_succ, List.filter_append, List.length_append, ih, Finset.sum_range_succ]
    cases hp : p n <;> simp [hp]

theorem sortByContainment_perm (candidates : List PromotedCandidate) :
    (sortByContainment candidates).Perm candidates := by
  rw [sortByContainment]
  split
  · exact List.Perm.refl _
  · extract_lets contains indices indegree order
    split
    · exact List.Perm.refl _
    · rename_i hall
      have hout : ∀ source, (indices.filter fun parent => contains parent source).Nodup ∧
          ∀ target ∈ indices.filter (fun parent => contains parent source),
            target < candidates.length := by
        intro source
        refine ⟨List.nodup_range.filter _, ?_⟩
        intro target hin
        exact List.mem_range.mp (List.mem_filter.mp hin).1
      have hoff : ∀ parent child, contains parent child = true → parent < candidates.length := by
        intro parent child hcontains
        refine Nat.lt_of_not_le fun hge => ?_
        simp only [contains, List.getElem?_eq_none hge] at hcontains
        cases hcontains
      have hstart : Queued candidates.length
          (fun child => indices.filter fun parent => contains parent child) []
          (indices.filter fun index => indegree index = 0) indegree := by
        refine ⟨?_, ?_, ?_, ?_⟩
        · intro parent
          rw [pendingEdges, List.toFinset_nil, Finset.sdiff_empty]
          refine (length_filter_range (contains parent) candidates.length).trans ?_
          refine Finset.sum_congr rfl fun child _ => ?_
          by_cases hcontains : contains parent child = true
          · rw [if_pos hcontains, @List.count_filter _ _ _ (fun p => contains p child) _ _ hcontains,
              List.count_eq_one_of_mem List.nodup_range
                (List.mem_range.mpr (hoff parent child hcontains))]
          · rw [if_neg hcontains, List.count_eq_zero_of_not_mem]
            intro hin
            exact hcontains (List.mem_filter.mp hin).2
        · exact List.nodup_range.filter _
        · intro index hin
          exact List.mem_range.mp (List.mem_filter.mp hin).1
        · intro index hin
          exact of_decide_eq_true (List.mem_filter.mp hin).2
      obtain ⟨honce, hbounded⟩ := hstart.containmentOrder hout
      exact filterMap_getElem?_perm honce hbounded (Decidable.of_not_not hall)

end Containment

section Subtrees

def PathFree {α : Type} (walk : SubtreePath → α → List (PlanNode × SubtreePath)) (a : α) : Prop :=
  ∀ path path', (walk path a).map Prod.fst = (walk path' a).map Prod.fst

theorem pathFree_steps {steps : List PlanNode} (h : ∀ step ∈ steps, PathFree sharedSubtrees step)
    (path path' : SubtreePath) (index index' : Nat) :
    (sharedSubtreesOfSteps path index steps).map Prod.fst =
      (sharedSubtreesOfSteps path' index' steps).map Prod.fst := by
  induction steps generalizing index index' with
  | nil => rfl
  | cons step steps ih =>
    rw [sharedSubtreesOfSteps, sharedSubtreesOfSteps, List.map_append, List.map_append,
      h step List.mem_cons_self _ (path' ++ [.chainStep index']),
      ih (fun s hs => h s (List.mem_cons_of_mem step hs)) (index + 1) (index' + 1)]

theorem pathFree_predicates {list : List Predicate}
    (h : ∀ p ∈ list, PathFree sharedSubtreesOfPredicate p) (path path' : SubtreePath)
    (segment : Nat → PathSegment) (index : Nat) :
    (sharedSubtreesOfPredicates path segment index list).map Prod.fst =
      (sharedSubtreesOfPredicates path' segment index list).map Prod.fst := by
  induction list generalizing index with
  | nil => rfl
  | cons p list ih =>
    rw [sharedSubtreesOfPredicates, sharedSubtreesOfPredicates, List.map_append,
      List.map_append, h p List.mem_cons_self _ (path' ++ [segment index]),
      ih (fun q hq => h q (List.mem_cons_of_mem p hq)) (index + 1)]

theorem map_fst_executableChainPrefixes (path : SubtreePath) (steps : List PlanNode) :
    (executableChainPrefixes path steps).map Prod.fst =
      (executableChainPrefixes [] steps).map Prod.fst := by
  cases steps with
  | nil => rfl
  | cons first rest =>
    rw [executableChainPrefixes, executableChainPrefixes]
    cases first.isContextFree with
    | true =>
      rw [if_pos rfl, if_pos rfl, List.map_map, List.map_map]
      rfl
    | false => rfl

theorem pathFree_sharedSubtrees (node : PlanNode) : PathFree sharedSubtrees node := by
  refine @PlanNode.inductOn (PathFree sharedSubtrees) (PathFree sharedSubtreesOfPredicate)
    ?_ ?_ ?_ ?_ ?_ ?_ ?_ ?_ ?_ ?_ node
  · intro kind visibility namePattern path path'
    rfl
  · intro direction edgeKind maxDepth resolvedVia path path'
    rfl
  · intro predicate ih path path'
    exact ih path path'
  · intro op left right ihl ihr path path'
    simp only [sharedSubtrees, List.map_append]
    rw [ihl _ (path' ++ [.setLeft]), ihr _ (path' ++ [.setRight])]
    rfl
  · intro steps ih path path'
    simp only [sharedSubtrees, List.map_append]
    rw [map_fst_executableChainPrefixes path, map_fst_executableChainPrefixes path',
      pathFree_steps ih path path' 0 0]
    cases isIndependentlyExecutableRoot (.chain steps) <;> rfl
  · intro p path path'
    rfl
  · intro kind value ih path path'
    cases value with
    | pattern p => rfl
    | regex r => rfl
    | subquery plan => exact ih plan rfl _ _
  · intro list ih path path'
    exact pathFree_predicates ih path path' .predicateAnd 0
  · intro list ih path path'
    exact pathFree_predicates ih path path' .predicateOr 0
  · intro inner ih path path'
    exact ih _ _

def executableSubtrees (plans : List QueryPlan) : List PlanNode :=
  plans.flatMap fun plan => (sharedSubtrees [] plan.root).map Prod.fst

theorem map_fst_registrationsFrom (start : Nat) (plans : List QueryPlan) :
    (registrationsFrom start plans).map Prod.fst = executableSubtrees plans := by
  induction plans generalizing start with
  | nil => rfl
  | cons plan plans ih =>
    rw [registrationsFrom, List.map_append, ih, executableSubtrees, executableSubtrees,
      List.flatMap_cons, List.map_map]
    rfl

theorem sum_map_filterMap {α β : Type} (g : α → Option β) (f : β → Nat) (l : List α) :
    ((l.filterMap g).map f).sum = (l.map fun a => (g a).elim 0 f).sum := by
  induction l with
  | nil => rfl
  | cons a l ih =>
    rw [List.map_cons, List.sum_cons, ← ih]
    cases hg : g a with
    | none =>
      rw [List.filterMap_cons_none hg]
      exact (Nat.zero_add _).symm
    | some b =>
      rw [List.filterMap_cons_some hg]
      rfl

theorem sum_collectPromotedCandidates (plans : List QueryPlan) (groups : List FusionGroup)
    (measure : PlanNode → Nat → Nat) :
    ((collectPromotedCandidates plans groups).map fun candidate =>
        measure candidate.canonicalPlan candidate.positions.length).sum =
      ∑ node ∈ Tally.repeated (groups.map FusionGroup.sharedPrefix) (executableSubtrees plans),
        measure node ((executableSubtrees plans).count node) := by
  have hkeys : (registrationsFrom 0 plans).map Prod.fst = executableSubtrees plans :=
    map_fst_registrationsFrom 0 plans
  have hentries := Tally.sum_entries_collect (registrationsFrom 0 plans)
    fun node positions =>
      if positions.length < 2 || decide (node ∈ groups.map FusionGroup.sharedPrefix) then 0
      else measure node positions.length
  simp only [Tally.length_valuesOf, hkeys] at hentries
  rw [collectPromotedCandidates, ((sortByContainment_perm _).map _).sum_eq, promoteCandidates,
    ((SortedGroups.perm_sortBy _ _).map _).sum_eq, sum_map_filterMap, Tally.repeated,
    Finset.sum_filter, ← Finset.sum_congr rfl]
  · refine Eq.trans (congrArg List.sum (List.map_congr_left fun entry _ => ?_)) hentries
    split
    · rfl
    · exact congrArg (measure entry.1) (SortedGroups.perm_sortBy _ _).length_eq
  · intro node _
    simp only [Bool.or_eq_true, decide_eq_true_eq, ← Nat.not_le]
    split <;> split <;> tauto

end Subtrees

end Sqry
