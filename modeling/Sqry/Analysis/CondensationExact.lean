import Sqry.Analysis.Condensation
import Sqry.Analysis.SccComponents

/-!
The condensation that is built from the components of one edge kind. Edges between components go to
smaller numbers, so the topological order is complete, and a search over the rows answers for the
nodes.
-/

namespace Sqry
namespace CondensationDag

section Rows
variable {edges : List (Nat × Nat)}

theorem mem_sccRow {i j : Nat} : j ∈ sccRow edges i ↔ (i, j) ∈ edges := by
  rw [sccRow, SortedGroups.mem_sortBy, List.mem_map]
  constructor
  · rintro ⟨⟨a, b⟩, hmem, rfl⟩
    obtain ⟨hmem, ha⟩ := List.mem_filter.mp hmem
    exact of_decide_eq_true ha ▸ hmem
  · intro h
    exact ⟨(i, j), List.mem_filter.mpr ⟨h, decide_eq_true rfl⟩, rfl⟩

theorem nodup_sccRow (h : edges.Nodup) (i : Nat) : (sccRow edges i).Nodup := by
  refine (SortedGroups.perm_sortBy _ _).symm.nodup (List.Nodup.map_on ?_ (h.filter _))
  rintro ⟨a, b⟩ hab ⟨a', b'⟩ hab' heq
  have ha := of_decide_eq_true (List.mem_filter.mp hab).2
  have ha' := of_decide_eq_true (List.mem_filter.mp hab').2
  exact Prod.ext (ha.trans ha'.symm) heq

def rowsBelow (edges : List (Nat × Nat)) (n : Nat) : List Nat :=
  (List.range n).flatMap (sccRow edges)

theorem rowsBelow_succ (n : Nat) :
    rowsBelow edges (n + 1) = rowsBelow edges n ++ sccRow edges n := by
  rw [rowsBelow, List.range_succ, List.flatMap_append, List.flatMap_singleton, rowsBelow]

theorem buildCsrFromEdges_eq (edges : List (Nat × Nat)) (n : Nat) : buildCsrFromEdges edges n =
    ((List.range (n + 1)).map fun k => (rowsBelow edges k).length, rowsBelow edges n) := by
  induction n with
  | zero => rfl
  | succ n ih =>
    rw [buildCsrFromEdges] at ih
    rw [buildCsrFromEdges, List.range_succ, List.foldl_append, ih, List.foldl_cons, List.foldl_nil]
    dsimp only
    rw [← rowsBelow_succ, @List.range_succ (n + 1), List.map_append, List.map_singleton]

theorem rowsBelow_split {k n : Nat} (h : k ≤ n) :
    ∃ rest, rowsBelow edges n = rowsBelow edges k ++ rest := by
  induction h with
  | refl => exact ⟨[], (List.append_nil _).symm⟩
  | @step n _ ih =>
    obtain ⟨rest, hrest⟩ := ih
    exact ⟨rest ++ sccRow edges n, by rw [rowsBelow_succ, hrest, List.append_assoc]⟩

theorem ownedBy_build {n i : Nat} (h : i < n) :
    ownedBy (buildCsrFromEdges edges n).1 (buildCsrFromEdges edges n).2 i = sccRow edges i := by
  have hoffset : ∀ k ≤ n, (buildCsrFromEdges edges n).1.getD k 0 = (rowsBelow edges k).length := by
    intro k hk
    rw [buildCsrFromEdges_eq]
    simp [List.getD, List.getElem?_range (Nat.lt_succ_of_le hk)]
  obtain ⟨rest, hrest⟩ := @rowsBelow_split edges (i + 1) n h
  rw [ownedBy, hoffset i (Nat.le_of_lt h), hoffset (i + 1) h, buildCsrFromEdges_eq]
  dsimp only
  rw [hrest, rowsBelow_succ, List.append_assoc, List.drop_left, List.length_append,
    Nat.add_sub_cancel_left, List.take_left]

end Rows

section Kahn
variable {row : Nat → List Nat} {n : Nat}

def lowered (inDegree : Nat → Nat) (successors : List Nat) (x : Nat) : Nat :=
  if x ∈ successors then inDegree x - 1 else inDegree x

def freed (inDegree : Nat → Nat) (successors : List Nat) : List Nat :=
  successors.filter fun x => inDegree x - 1 = 0

theorem foldl_release {successors : List Nat} (hnodup : successors.Nodup) (inDegree : Nat → Nat)
    (queue : List Nat) : successors.foldl releaseSuccessor (inDegree, queue) =
      (lowered inDegree successors, queue ++ freed inDegree successors) := by
  induction successors generalizing inDegree queue with
  | nil => simp [freed, funext_iff, lowered]
  | cons y successors ih =>
    obtain ⟨hy, hnodup⟩ := List.nodup_cons.mp hnodup
    have hkeeps : freed (Function.update inDegree y (inDegree y - 1)) successors =
        freed inDegree successors := by
      refine List.filter_congr fun x hx => ?_
      have hne : x ≠ y := fun h => hy (h ▸ hx)
      rw [Function.update_of_ne hne]
    rw [List.foldl_cons, releaseSuccessor, ih hnodup, hkeeps]
    refine Prod.ext (funext fun x => ?_) ?_
    · by_cases hx : x = y
      · subst hx
        simp [lowered, hy]
      · simp [lowered, hx]
    · by_cases hzero : inDegree y - 1 = 0 <;> simp [freed, hzero]

/-- The predecessors of a component that are not in the order yet. -/
def openPredecessors (row : Nat → List Nat) (n : Nat) (order : List Nat) (x : Nat) : Finset Nat :=
  (Finset.range n).filter fun a => a ∉ order ∧ x ∈ row a

theorem mem_openPredecessors {order : List Nat} {x a : Nat} :
    a ∈ openPredecessors row n order x ↔ a < n ∧ a ∉ order ∧ x ∈ row a := by
  rw [openPredecessors, Finset.mem_filter, Finset.mem_range]

theorem openPredecessors_append (order : List Nat) (c x : Nat) :
    openPredecessors row n (order ++ [c]) x = (openPredecessors row n order x).erase c := by
  ext a
  simp only [mem_openPredecessors, Finset.mem_erase, List.mem_append, List.mem_singleton, not_or]
  tauto

/-- The components in the order and in the queue are those without an open predecessor. -/
structure Sorting (row : Nat → List Nat) (n : Nat) (inDegree : Nat → Nat)
    (queue order : List Nat) : Prop where
  nodup : (order ++ queue).Nodup
  lt : ∀ x ∈ order ++ queue, x < n
  degree : ∀ x, inDegree x = (openPredecessors row n order x).card
  ready : ∀ x < n, x ∈ order ++ queue ↔ inDegree x = 0
  forward : (order ++ queue).Pairwise fun x y => x ∉ row y

section Next
variable {inDegree : Nat → Nat} {queue order : List Nat} {current x a : Nat}

theorem Sorting.closed (h : Sorting row n inDegree queue order) (hx : inDegree x = 0) (ha : a < n)
    (hmem : x ∈ row a) : a ∈ order := by
  by_contra hnot
  rw [h.degree, Finset.card_eq_zero] at hx
  exact Finset.notMem_empty a (hx ▸ mem_openPredecessors.mpr ⟨ha, hnot, hmem⟩)

theorem Sorting.next (h : Sorting row n inDegree (current :: queue) order)
    (hrow : ∀ a, (row a).Nodup) (hless : ∀ a, ∀ x ∈ row a, x < a) :
    Sorting row n (lowered inDegree (row current))
      (queue ++ freed inDegree (row current)) (order ++ [current]) := by
  have hcurrent : current < n := h.lt current (by simp)
  have hopen : current ∉ order := fun hmem =>
    (List.nodup_append.mp h.nodup).2.2 current hmem current List.mem_cons_self rfl
  have hpos : ∀ x ∈ row current, inDegree x ≠ 0 := fun x hx hzero =>
    hopen (h.closed hzero hcurrent hx)
  have hnew : ∀ x, x ∈ freed inDegree (row current) ↔ x ∈ row current ∧ inDegree x - 1 = 0 :=
    fun x => by rw [freed, List.mem_filter, decide_eq_true_iff]
  have hlist : order ++ [current] ++ (queue ++ freed inDegree (row current)) =
      order ++ current :: queue ++ freed inDegree (row current) := by simp
  have hdegree : ∀ x, lowered inDegree (row current) x =
      (openPredecessors row n (order ++ [current]) x).card := by
    intro x
    rw [lowered, openPredecessors_append, h.degree]
    split
    · rename_i hx
      exact (Finset.card_erase_of_mem (mem_openPredecessors.mpr ⟨hcurrent, hopen, hx⟩)).symm
    · rename_i hx
      rw [Finset.erase_eq_of_notMem fun hmem => hx (mem_openPredecessors.mp hmem).2.2]
  have hready : ∀ x < n, x ∈ order ++ current :: queue ++ freed inDegree (row current) ↔
      lowered inDegree (row current) x = 0 := by
    intro x hx
    rw [List.mem_append, h.ready x hx, hnew, lowered]
    by_cases hmem : x ∈ row current
    · have := hpos x hmem
      simp only [hmem, if_true, true_and]
      omega
    · simp [hmem]
  have hfresh : ∀ x ∈ freed inDegree (row current), x < n ∧ x ∉ order ++ current :: queue := by
    intro x hx
    have hlt := Nat.lt_trans (hless current x ((hnew x).mp hx).1) hcurrent
    exact ⟨hlt, fun hmem => hpos x ((hnew x).mp hx).1 ((h.ready x hlt).mp hmem)⟩
  refine ⟨?_, ?_, hdegree, hlist ▸ hready, ?_⟩
  · rw [hlist, List.nodup_append]
    refine ⟨h.nodup, (hrow current).filter _, fun x hx y hy heq => ?_⟩
    exact (hfresh y hy).2 (heq ▸ hx)
  · rw [hlist]
    intro x hx
    rcases List.mem_append.mp hx with hx | hx
    · exact h.lt x hx
    · exact (hfresh x hx).1
  · rw [hlist, List.pairwise_append]
    have hpast : ∀ x < n, x ∈ order ++ current :: queue ++ freed inDegree (row current) →
        ∀ y ∈ freed inDegree (row current), x ∉ row y := by
      intro x hx hmem y hy hxy
      have hzero := (hready x hx).mp hmem
      rw [hdegree, Finset.card_eq_zero] at hzero
      have hy' := hfresh y hy
      refine Finset.notMem_empty y (hzero ▸ mem_openPredecessors.mpr ⟨hy'.1, fun hold => ?_, hxy⟩)
      exact hy'.2 (by simp only [List.mem_append, List.mem_cons] at hold ⊢; tauto)
    refine ⟨h.forward, List.pairwise_of_forall_mem_list fun x hx y hy => ?_, fun x hx y hy => ?_⟩
    · exact hpast x (hfresh x hx).1 (List.mem_append_right _ hx) y hy
    · exact hpast x (h.lt x hx) (List.mem_append_left _ hx) y hy

end Next

section Run
variable {rowOffsets colIndices : List Nat}

theorem Sorting.length_le {inDegree : Nat → Nat} {queue order : List Nat}
    (h : Sorting row n inDegree queue order) : order.length + queue.length ≤ n := by
  have hle := (List.subperm_of_subset h.nodup fun x hx => List.mem_range.mpr (h.lt x hx)).length_le
  rwa [List.length_append, List.length_range] at hle

theorem Sorting.run (hown : ∀ i < n, ownedBy rowOffsets colIndices i = row i)
    (hrow : ∀ a, (row a).Nodup) (hless : ∀ a, ∀ x ∈ row a, x < a) {steps : Nat}
    {inDegree : Nat → Nat} {queue order : List Nat} (h : Sorting row n inDegree queue order)
    (hsteps : n ≤ steps + order.length) :
    ∃ inDegree', Sorting row n inDegree' []
      (kahnLoop rowOffsets colIndices steps inDegree queue order) := by
  induction steps generalizing inDegree queue order with
  | zero =>
    cases queue with
    | nil => exact ⟨inDegree, h⟩
    | cons current queue =>
      have hle := h.length_le
      rw [List.length_cons] at hle
      omega
  | succ steps ih =>
    cases queue with
    | nil => exact ⟨inDegree, h⟩
    | cons current queue =>
      rw [kahnLoop, hown current (h.lt current (by simp)), foldl_release (hrow current)]
      refine ih (h.next hrow hless) ?_
      rw [List.length_append, List.length_singleton]
      omega

theorem Sorting.perm {inDegree : Nat → Nat} {order : List Nat}
    (h : Sorting row n inDegree [] order) (hless : ∀ a, ∀ x ∈ row a, x < a) :
    order.Perm (List.range n) := by
  have hall : ∀ k x, x < n → n - x ≤ k → x ∈ order := by
    intro k
    induction k with
    | zero => exact fun x hx hk => by omega
    | succ k ih =>
      intro x hx hk
      have hready := h.ready x hx
      rw [List.append_nil] at hready
      rw [hready, h.degree, Finset.card_eq_zero, Finset.eq_empty_iff_forall_notMem]
      intro a ha
      obtain ⟨halt, hnot, hmem⟩ := mem_openPredecessors.mp ha
      have := hless a x hmem
      exact hnot (ih a halt (by omega))
  have hnodup := h.nodup
  have hlt := h.lt
  rw [List.append_nil] at hnodup hlt
  refine (List.perm_ext_iff_of_nodup hnodup List.nodup_range).mpr fun x => ?_
  rw [List.mem_range]
  exact ⟨hlt x, fun hx => hall n x hx (Nat.sub_le n x)⟩

end Run

theorem count_rowsBelow {edges : List (Nat × Nat)} (hnodup : edges.Nodup) (x k : Nat) :
    (rowsBelow edges k).count x = (openPredecessors (sccRow edges) k [] x).card := by
  induction k with
  | zero => rfl
  | succ k ih =>
    rw [rowsBelow_succ, List.count_append, ih, openPredecessors, openPredecessors,
      Finset.range_add_one, Finset.filter_insert]
    split
    · rename_i hmem
      rw [Finset.card_insert_of_notMem (by simp),
        List.count_eq_one_of_mem (nodup_sccRow hnodup k) hmem.2]
    · rename_i hnot
      rw [List.count_eq_zero_of_not_mem fun hmem => hnot ⟨List.not_mem_nil, hmem⟩, Nat.add_zero]

theorem computeTopologicalOrder_complete {edges : List (Nat × Nat)} (hnodup : edges.Nodup)
    (hless : ∀ edge ∈ edges, edge.2 < edge.1) (n : Nat) :
    ∃ order, computeTopologicalOrder n (buildCsrFromEdges edges n).1
        (buildCsrFromEdges edges n).2 = some order ∧ order.Perm (List.range n) ∧
      order.Pairwise fun x y => (y, x) ∉ edges := by
  have hrow : ∀ a, ∀ x ∈ sccRow edges a, x < a := fun a x hx => hless _ (mem_sccRow.mp hx)
  have hstart : Sorting (sccRow edges) n (fun x => (buildCsrFromEdges edges n).2.count x)
      ((List.range n).filter fun x => (buildCsrFromEdges edges n).2.count x = 0) [] := by
    have hdegree := fun x => count_rowsBelow hnodup x n
    simp only [buildCsrFromEdges_eq]
    refine ⟨List.nodup_range.filter _, ?_, hdegree, ?_, ?_⟩
    · exact fun x hx => List.mem_range.mp (List.mem_filter.mp hx).1
    · intro x hx
      simp [List.mem_filter, hx]
    · refine List.pairwise_of_forall_mem_list fun x hx y hy hmem => ?_
      have hzero := of_decide_eq_true (List.mem_filter.mp hx).2
      rw [hdegree, Finset.card_eq_zero] at hzero
      exact Finset.notMem_empty y (hzero ▸ mem_openPredecessors.mpr
        ⟨List.mem_range.mp (List.mem_filter.mp hy).1, List.not_mem_nil, hmem⟩)
  obtain ⟨inDegree, hdone⟩ := hstart.run (fun i hi => ownedBy_build hi) (nodup_sccRow hnodup) hrow
    (Nat.le_refl n)
  have hperm := hdone.perm hrow
  refine ⟨_, ?_, hperm, ?_⟩
  · rw [computeTopologicalOrder]
    exact if_pos (hperm.length_eq.trans List.length_range)
  · have hforward := hdone.forward
    rw [List.append_nil] at hforward
    exact hforward.imp fun hnot hmem => hnot (mem_sccRow.mpr hmem)

end Kahn

section Extract
variable {scc : SccData} {adj : CsrAdjacency}

theorem foldlM_targets {src : Nat} {targets : List Nat}
    (htargets : ∀ v ∈ targets, ∃ b, scc.sccOf ⟨v, 0⟩ = some b) {edges : List (Nat × Nat)}
    (hnodup : edges.Nodup) :
    ∃ edges', targets.foldlM (fun edges target =>
        match scc.sccOf ⟨target, 0⟩ with
        | none => none
        | some tgtScc =>
          if src = tgtScc ∨ (src, tgtScc) ∈ edges then some edges
          else some (edges ++ [(src, tgtScc)])) edges = some edges' ∧ edges'.Nodup ∧
      ∀ p, p ∈ edges' ↔ p ∈ edges ∨ p.1 = src ∧ p.2 ≠ src ∧
        ∃ v ∈ targets, scc.sccOf ⟨v, 0⟩ = some p.2 := by
  induction targets generalizing edges with
  | nil => exact ⟨edges, rfl, hnodup, fun p => by simp⟩
  | cons v targets ih =>
    obtain ⟨⟨b, hb⟩, hrest⟩ := List.forall_mem_cons.mp htargets
    obtain ⟨edges₁, hstep, hnodup₁, hmem₁⟩ : ∃ edges₁, (if src = b ∨ (src, b) ∈ edges then
        some edges else some (edges ++ [(src, b)])) = some edges₁ ∧ edges₁.Nodup ∧
        ∀ p, p ∈ edges₁ ↔ p ∈ edges ∨ p.1 = src ∧ p.2 ≠ src ∧ p.2 = b := by
      split
      · rename_i hold
        refine ⟨edges, rfl, hnodup, fun p => ⟨.inl, ?_⟩⟩
        rintro (hp | ⟨hsrc, hne, hp⟩)
        · exact hp
        · rw [← hp, ← hsrc] at hold
          exact hold.resolve_left fun h => hne (h.symm.trans hsrc)
      · rename_i hnew
        rw [not_or] at hnew
        refine ⟨_, rfl, List.nodup_append.mpr ⟨hnodup, List.nodup_singleton _, ?_⟩, fun p => ?_⟩
        · intro x hx y hy heq
          rw [List.mem_singleton.mp hy] at heq
          exact hnew.2 (heq ▸ hx)
        · rw [List.mem_append, List.mem_singleton, Prod.ext_iff]
          refine or_congr_right ⟨fun h => ⟨h.1, ?_, h.2⟩, fun h => ⟨h.1, h.2.2⟩⟩
          rw [h.2]
          exact Ne.symm hnew.1
    obtain ⟨edges', hfold, hnodup', hmem⟩ := ih hrest hnodup₁
    refine ⟨edges', ?_, hnodup', fun p => ?_⟩
    · rw [List.foldlM_cons, hb]
      exact (congrArg (· >>= _) hstep).trans hfold
    · rw [hmem, hmem₁]
      simp only [List.exists_mem_cons_iff, hb, Option.some.injEq]
      grind

theorem extractCrossSccEdges_spec (hwf : adj.WellFormed)
    (hscc : scc.nodeToScc.length = adj.nodeCount) :
    ∃ edges, extractCrossSccEdges scc adj = some edges ∧ edges.Nodup ∧
      ∀ p, p ∈ edges ↔ p.2 ≠ p.1 ∧ ∃ u v, CsrAdjacency.EdgeOfKind adj scc.edgeKind u v ∧
        scc.nodeToScc[u]? = some p.1 ∧ scc.nodeToScc[v]? = some p.2 := by
  have hfound : ∀ v < adj.nodeCount, ∃ b, scc.sccOf ⟨v, 0⟩ = some b := fun v hv =>
    ⟨_, List.getElem?_eq_getElem (hscc ▸ hv)⟩
  obtain ⟨f, hextract, hnode⟩ : ∃ f : List (Nat × Nat) → Nat → Option (List (Nat × Nat)),
      extractCrossSccEdges scc adj = (List.range adj.nodeCount).foldlM f [] ∧
      ∀ u a, scc.sccOf ⟨u, 0⟩ = some a → ∀ edges : List (Nat × Nat), edges.Nodup →
        ∃ edges', f edges u = some edges' ∧ edges'.Nodup ∧
          ∀ p, p ∈ edges' ↔ p ∈ edges ∨ p.1 = a ∧ p.2 ≠ a ∧
            ∃ v ∈ adj.successors scc.edgeKind u, scc.sccOf ⟨v, 0⟩ = some p.2 := by
    refine ⟨_, rfl, fun u a ha edges hnodup => ?_⟩
    simp only [ha, CsrAdjacency.neighborsFiltered_eq hwf]
    exact foldlM_targets (fun v hv => hfound v (CsrAdjacency.successors_lt hwf hv)) hnodup
  have hfold : ∀ k ≤ adj.nodeCount, ∃ edges, (List.range k).foldlM f [] = some edges ∧
      edges.Nodup ∧ ∀ p, p ∈ edges ↔ ∃ u < k, p.2 ≠ p.1 ∧ ∃ v,
        CsrAdjacency.EdgeOfKind adj scc.edgeKind u v ∧
          scc.sccOf ⟨u, 0⟩ = some p.1 ∧ scc.sccOf ⟨v, 0⟩ = some p.2 := by
    intro k hk
    induction k with
    | zero => exact ⟨[], rfl, List.nodup_nil, fun p => by simp⟩
    | succ k ih =>
      obtain ⟨edges, hedges, hnodup, hmem⟩ := ih (Nat.le_of_succ_le hk)
      obtain ⟨a, ha⟩ := hfound k hk
      obtain ⟨edges', hstep, hnodup', hmem'⟩ := hnode k a ha edges hnodup
      refine ⟨edges', ?_, hnodup', fun p => ?_⟩
      · rw [List.range_succ, List.foldlM_append, hedges, Option.bind_eq_bind, Option.bind_some,
          List.foldlM_cons]
        exact (congrArg (· >>= _) hstep).trans rfl
      · rw [hmem', hmem]
        simp only [CsrAdjacency.mem_successors_iff hwf]
        constructor
        · rintro (⟨u, hu, hrest⟩ | ⟨rfl, hne, hrest⟩)
          · exact ⟨u, Nat.lt_succ_of_lt hu, hrest⟩
          · exact ⟨k, Nat.lt_succ_self k, hne, hrest.imp fun v hv => ⟨hv.1, ha, hv.2⟩⟩
        · rintro ⟨u, hu, hne, v, hedge, hsrc, htgt⟩
          rcases Nat.lt_succ_iff_lt_or_eq.mp hu with hu | rfl
          · exact .inl ⟨u, hu, hne, v, hedge, hsrc, htgt⟩
          · cases ha.symm.trans hsrc
            exact .inr ⟨rfl, hne, v, hedge, htgt⟩
  obtain ⟨edges, hedges, hnodup, hmem⟩ := hfold adj.nodeCount (Nat.le_refl _)
  refine ⟨edges, hextract.trans hedges, hnodup, fun p => (hmem p).trans ⟨?_, ?_⟩⟩
  · rintro ⟨u, -, hne, v, hedge⟩
    exact ⟨hne, u, v, hedge⟩
  · rintro ⟨hne, u, v, hedge⟩
    exact ⟨u, (hedge.1.lt hwf).1, hne, v, hedge⟩

end Extract

section Exact
variable {computeLabels : CondensationDag → Option Nat → Option ReachabilityLabels} {scc : SccData}
  {adj : CsrAdjacency} {config : LabelBudgetConfig} {dag : CondensationDag}
  {edges : List (Nat × Nat)} {order : List Nat}

theorem buildWithBudget_parts (hedges : extractCrossSccEdges scc adj = some edges)
    (horder : computeTopologicalOrder scc.sccCount (buildCsrFromEdges edges scc.sccCount).1
      (buildCsrFromEdges edges scc.sccCount).2 = some order)
    (h : buildWithBudget computeLabels scc adj config = some dag) :
    dag.rowOffsets = (buildCsrFromEdges edges scc.sccCount).1 ∧
      dag.colIndices = (buildCsrFromEdges edges scc.sccCount).2 ∧ dag.topoOrder = order := by
  rw [buildWithBudget, hedges] at h
  simp only [horder] at h
  split at h
  · cases h
    exact ⟨rfl, rfl, rfl⟩
  · split at h
    · split at h
      · cases h
      · cases h
        exact ⟨rfl, rfl, rfl⟩
    · split at h
      · cases h
        exact ⟨rfl, rfl, rfl⟩
      · split at h
        · split at h
          · cases h
          · cases h
            exact ⟨rfl, rfl, rfl⟩
        · cases h
          exact ⟨rfl, rfl, rfl⟩

theorem successors_of_parts (hrows : dag.rowOffsets = (buildCsrFromEdges edges scc.sccCount).1)
    (hcols : dag.colIndices = (buildCsrFromEdges edges scc.sccCount).2) (hlt : ∀ p ∈ edges, p.1 < scc.sccCount)
    (a b : Nat) : b ∈ dag.successors a ↔ (a, b) ∈ edges := by
  have hlength : dag.rowOffsets.length - 1 = scc.sccCount := by
    rw [hrows, buildCsrFromEdges_eq]
    simp
  rw [successors, hlength]
  split
  · rename_i hge
    exact iff_of_false List.not_mem_nil fun hmem => Nat.not_le.mpr (hlt _ hmem) hge
  · rename_i hlt'
    rw [hrows, hcols, ownedBy_build (Nat.not_le.mp hlt'), mem_sccRow]

theorem condensation_reaches_as_nodes (hwf : adj.WellFormed) (kind : EdgeKind)
    (computeLabels : CondensationDag → Option Nat → Option ReachabilityLabels) :
    ∃ scc, (∃ bound, ∀ fuel ≥ bound, SccData.computeTarjan adj kind fuel = some scc) ∧
      ∀ config, (config.skipLabels = true →
        (buildWithBudget computeLabels scc adj config).isSome = true) ∧
      ∀ dag, buildWithBudget computeLabels scc adj config = some dag →
        dag.topoOrder.Perm (List.range scc.sccCount) ∧
        (dag.topoOrder.Pairwise fun x y => x ∉ dag.successors y) ∧
        (dag.strategy = .dagBfs → ∀ u v a b, scc.nodeToScc[u]? = some a →
          scc.nodeToScc[v]? = some b →
            (dag.canReach a b = true ↔ CsrAdjacency.ReachesByKind adj kind u v)) := by
  obtain ⟨scc, sccs, hrun, hkind, -, hcount, hcollected, hordered, hflat⟩ :=
    SccData.computeTarjan_collected hwf kind
  have hplace : ∀ {u i : Nat}, scc.nodeToScc[u]? = some i ↔ ∃ c, sccs[i]? = some c ∧ u ∈ c :=
    hcollected.nodeToScc_iff hflat
  have hinside : ∀ {u v a : Nat}, scc.nodeToScc[u]? = some a → scc.nodeToScc[v]? = some a →
      CsrAdjacency.ReachesByKind adj kind u v := by
    intro u v a hu hv
    obtain ⟨c, hc, huc⟩ := hplace.mp hu
    obtain ⟨c', hc', hvc⟩ := hplace.mp hv
    cases hc.symm.trans hc'
    rw [CsrAdjacency.reachesByKind_iff hwf]
    exact ((hordered.exact c (List.mem_of_getElem? hc) u huc v).mpr hvc).1
  obtain ⟨edges, hedges, hnodup, hmem⟩ := extractCrossSccEdges_spec hwf hcollected.nodeToScc_length
  rw [hkind] at hmem
  have hless : ∀ p ∈ edges, p.2 < p.1 ∧ p.1 < scc.sccCount := by
    intro p hp
    obtain ⟨hne, u, v, hedge, hu, hv⟩ := (hmem p).mp hp
    obtain ⟨c, hc, huc⟩ := hplace.mp hu
    obtain ⟨c', hc', hvc⟩ := hplace.mp hv
    have hle := hordered.edge_le hc hc' huc hvc ((CsrAdjacency.mem_successors_iff hwf).mpr hedge)
    refine ⟨by omega, ?_⟩
    rw [hcount]
    exact (List.getElem?_eq_some_iff.mp hc).1
  obtain ⟨order, horder, hperm, hforward⟩ := computeTopologicalOrder_complete hnodup
    (fun p hp => (hless p hp).1) scc.sccCount
  refine ⟨scc, ⟨_, hrun⟩, fun config => ⟨fun hskip => ?_, fun dag hdag => ?_⟩⟩
  · rw [buildWithBudget, hedges]
    simp only [horder, hskip, if_true]
    rfl
  · obtain ⟨hrows, hcols, htopo⟩ := buildWithBudget_parts hedges horder hdag
    have hsucc := successors_of_parts hrows hcols fun p hp => (hless p hp).2
    refine ⟨htopo ▸ hperm, ?_, fun hstrategy u v a b hu hv => ?_⟩
    · rw [htopo]
      exact hforward.imp fun hnot hstep => hnot ((hsucc _ _).mp hstep)
    · have hreach : dag.canReach a b = true ↔
          Relation.ReflTransGen (fun x y => y ∈ dag.successors x) a b := by
        rw [Relation.reflTransGen_iff_eq_or_transGen, canReach, hstrategy, eq_comm (a := b)]
        by_cases hab : a = b
        · simp [hab]
        · simp only [hab, if_false, false_or]
          exact canReachViaBfs_iff dag a b
      rw [hreach]
      clear hreach
      constructor
      · intro hpath
        -- every node of the component that was reached so far is reached from `u`
        have hall : ∀ w, scc.nodeToScc[w]? = some b → CsrAdjacency.ReachesByKind adj kind u w := by
          clear hv
          induction hpath with
          | refl => exact fun w hw => hinside hu hw
          | tail _ hstep ih =>
            obtain ⟨-, x, y, hedge, hx, hy⟩ := (hmem _).mp ((hsucc _ _).mp hstep)
            exact fun w hw => ((ih x hx).tail hedge).trans (hinside hy hw)
        exact hall v hv
      · intro hpath
        induction hpath generalizing b with
        | refl =>
          cases hu.symm.trans hv
          exact .refl
        | @tail x y _ hedge ih =>
          obtain ⟨c, hc⟩ : ∃ c, scc.nodeToScc[x]? = some c := by
            have hlt := (hedge.lt hwf).1
            rw [← hcollected.nodeToScc_length] at hlt
            exact ⟨_, List.getElem?_eq_getElem hlt⟩
          have hfirst := ih c hc
          by_cases hcb : b = c
          · exact hcb ▸ hfirst
          · exact hfirst.tail ((hsucc _ _).mpr ((hmem _).mpr ⟨hcb, x, y, hedge, hc, hv⟩))

theorem condensation_reaches_as_nodes_cycle :
    ∃ scc, (∃ bound, ∀ fuel ≥ bound,
      SccData.computeTarjan SccData.cycleAndTail .references fuel = some scc) ∧
      ∀ config, config.skipLabels = true →
        (buildWithBudget (fun _ _ => none) scc SccData.cycleAndTail config).isSome = true :=
  have ⟨scc, hrun, hdag⟩ :=
    condensation_reaches_as_nodes SccData.wellFormed_cycleAndTail .references fun _ _ => none
  ⟨scc, hrun, fun config => (hdag config).1⟩

end Exact

end CondensationDag
end Sqry
