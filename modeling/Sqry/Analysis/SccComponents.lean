import Sqry.Analysis.SccSearch

/-!
The arrays that are built from the components: the component of every node, and the slices
of the members. Together with the search they are exactly the strongly connected components,
in reverse topological order.
-/

namespace Sqry

open Components (Reaches Mutual)

namespace SccData

structure Collected (nodeCount : Nat) (sccs : List (List Nat)) (d : SccData) : Prop where
  members : d.sccMembers = sccs.flatten
  offsets_length : d.sccOffsets.length = sccs.length + 1
  offsets : ∀ (i : Nat), i ≤ sccs.length → d.sccOffsets[i]? = some (sccs.take i).flatten.length
  nodeToScc_length : d.nodeToScc.length = nodeCount
  nodeToScc : ∀ (i : Nat) (c : List Nat), sccs[i]? = some c → ∀ v ∈ c, d.nodeToScc[v]? = some i

section Collect
variable {neighbors : Nat → List Nat} {nodeCount : Nat} {sccs : List (List Nat)} {d : SccData}

theorem getElem?_foldl_set (sccId : Nat) (members array : List Nat) (v : Nat) :
    (members.foldl (fun array member => array.set member sccId) array)[v]? =
      if v ∈ members ∧ v < array.length then some sccId else array[v]? := by
  induction members generalizing array with
  | nil => simp
  | cons member members ih =>
    rw [List.foldl_cons, ih, List.length_set]
    by_cases hlt : v < array.length
    · by_cases hin : v ∈ members
      · rw [if_pos ⟨hin, hlt⟩, if_pos ⟨List.mem_cons_of_mem member hin, hlt⟩]
      · rw [if_neg fun h => hin h.1]
        by_cases heq : member = v
        · rw [heq, List.getElem?_set_self hlt, if_pos ⟨List.mem_cons_self, hlt⟩]
        · have hnot : v ∉ member :: members := fun h => by
            cases List.mem_cons.mp h with
            | inl h => exact heq h.symm
            | inr h => exact hin h
          rw [List.getElem?_set_ne heq, if_neg fun h => hnot h.1]
    · have hnone : array[v]? = none := List.getElem?_eq_none (Nat.le_of_not_lt hlt)
      rw [if_neg fun h => hlt h.2, if_neg fun h => hlt h.2]
      by_cases heq : member = v
      · rw [heq, List.getElem?_set_self', hnone]
        rfl
      · rw [List.getElem?_set_ne heq]

theorem length_foldl_set (sccId : Nat) (members array : List Nat) :
    (members.foldl (fun array member => array.set member sccId) array).length =
      array.length := by
  induction members generalizing array with
  | nil => rfl
  | cons member members ih => rw [List.foldl_cons, ih, List.length_set]

theorem Collected.add (h : Collected nodeCount sccs d) {members : List Nat}
    (hnodup : (sccs ++ [members]).flatten.Nodup) (hlt : ∀ v ∈ members, v < nodeCount) :
    Collected nodeCount (sccs ++ [members]) (d.add neighbors sccs.length members) := by
  have hlast : d.sccOffsets.getLastD 0 = sccs.flatten.length := by
    have hall := h.offsets sccs.length (Nat.le_refl _)
    rw [List.take_length] at hall
    rw [List.getLastD_eq_getLast?, List.getLast?_eq_getElem?, h.offsets_length,
      Nat.add_sub_cancel, hall, Option.getD_some]
  refine ⟨?_, ?_, fun i hi => ?_, ?_, fun i c hc v hv => ?_⟩
  · show d.sccMembers ++ members = _
    rw [h.members, List.flatten_append, List.flatten_singleton]
  · show (d.sccOffsets ++ [d.sccOffsets.getLastD 0 + members.length]).length = _
    rw [List.length_append, List.length_append, h.offsets_length]
    rfl
  · rw [List.length_append, List.length_singleton] at hi
    show (d.sccOffsets ++ [d.sccOffsets.getLastD 0 + members.length])[i]? = _
    by_cases hlast' : i = sccs.length + 1
    · rw [List.getElem?_append_right (by rw [h.offsets_length]; omega), h.offsets_length, hlast',
        Nat.sub_self, hlast, List.take_of_length_le (by simp), List.flatten_append,
        List.flatten_singleton, List.length_append]
      rfl
    · rw [List.getElem?_append_left (by rw [h.offsets_length]; omega), h.offsets i (by omega),
        List.take_append_of_le_length (by omega)]
  · show (members.foldl (fun array member => array.set member sccs.length) d.nodeToScc).length = _
    rw [length_foldl_set, h.nodeToScc_length]
  · show (members.foldl (fun array member => array.set member sccs.length) d.nodeToScc)[v]? = some i
    rw [getElem?_foldl_set, h.nodeToScc_length]
    rw [List.flatten_append, List.flatten_singleton, List.nodup_append] at hnodup
    by_cases hi : i < sccs.length
    · rw [List.getElem?_append_left hi] at hc
      have hflat : v ∈ sccs.flatten := List.mem_flatten_of_mem (List.mem_of_getElem? hc) hv
      rw [if_neg fun hin => hnodup.2.2 v hflat v hin.1 rfl]
      exact h.nodeToScc i c hc v hv
    · rw [List.getElem?_append_right (Nat.le_of_not_lt hi)] at hc
      have hzero : i - sccs.length = 0 := by
        have hbound := (List.getElem?_eq_some_iff.mp hc).1
        rw [List.length_singleton] at hbound
        omega
      rw [hzero] at hc
      cases hc
      rw [if_pos ⟨hv, hlt v hv⟩]
      congr 1
      omega

theorem Collected.addAll (h : Collected nodeCount sccs d) {more : List (List Nat)}
    (hnodup : (sccs ++ more).flatten.Nodup) (hlt : ∀ v ∈ more.flatten, v < nodeCount) :
    Collected nodeCount (sccs ++ more) (addAll neighbors d sccs.length more) := by
  induction more generalizing sccs d with
  | nil =>
    rw [List.append_nil]
    exact h
  | cons members more ih =>
    rw [List.append_cons] at hnodup ⊢
    have hfirst : (sccs ++ [members]).flatten.Nodup := by
      rw [List.flatten_append] at hnodup
      exact (List.nodup_append.mp hnodup).1
    have hadd : Collected nodeCount (sccs ++ [members]) (d.add neighbors sccs.length members) :=
      h.add hfirst fun v hv => hlt v (List.mem_append_left _ hv)
    have hmore := ih hadd hnodup fun v hv => hlt v (List.mem_append_right _ hv)
    rw [List.length_append, List.length_singleton] at hmore
    exact hmore

theorem Collected.nodeToScc_iff (h : Collected nodeCount sccs d)
    (hflat : ∀ v, v ∈ sccs.flatten ↔ v < nodeCount) {u i : Nat} :
    d.nodeToScc[u]? = some i ↔ ∃ c, sccs[i]? = some c ∧ u ∈ c := by
  constructor
  · intro hu
    have hlt := (List.getElem?_eq_some_iff.mp hu).1
    rw [h.nodeToScc_length, ← hflat] at hlt
    obtain ⟨c, hc, huc⟩ := List.mem_flatten.mp hlt
    obtain ⟨j, hj⟩ := List.mem_iff_getElem?.mp hc
    rw [h.nodeToScc j c hj u huc] at hu
    cases hu
    exact ⟨c, hj, huc⟩
  · intro ⟨c, hc, huc⟩
    exact h.nodeToScc i c hc u huc

def IsSlice (d : SccData) (i : Nat) (c : List Nat) : Prop :=
  ∃ start stop, d.sccOffsets[i]? = some start ∧ d.sccOffsets[i + 1]? = some stop ∧
    start ≤ stop ∧ stop ≤ d.sccMembers.length ∧ (d.sccMembers.drop start).take (stop - start) = c

theorem Collected.isSlice (h : Collected nodeCount sccs d) {i : Nat} {c : List Nat}
    (hc : sccs[i]? = some c) : d.IsSlice i c := by
  obtain ⟨hi, hci⟩ := List.getElem?_eq_some_iff.mp hc
  have htake : (sccs.take (i + 1)).flatten = (sccs.take i).flatten ++ c := by
    rw [List.take_add_one, hc, List.flatten_append]
    simp
  have hsplit : sccs.flatten = (sccs.take i).flatten ++ (c ++ (sccs.drop (i + 1)).flatten) := by
    rw [← List.append_assoc, ← htake, ← List.flatten_append, List.take_append_drop]
  refine ⟨_, _, h.offsets i (Nat.le_of_lt hi), h.offsets (i + 1) hi, ?_, ?_, ?_⟩
  · rw [htake, List.length_append]
    exact Nat.le_add_right _ _
  · rw [h.members, hsplit, htake, List.length_append, List.length_append, List.length_append]
    omega
  · rw [h.members, htake, hsplit, List.drop_left, List.length_append, Nat.add_sub_cancel_left,
      List.take_left]

theorem sccCount_addAll (d : SccData) (sccId : Nat) (more : List (List Nat)) :
    (addAll neighbors d sccId more).sccCount = d.sccCount ∧
      (addAll neighbors d sccId more).edgeKind = d.edgeKind ∧
      (addAll neighbors d sccId more).nodeCount = d.nodeCount := by
  induction more generalizing d sccId with
  | nil => exact ⟨rfl, rfl, rfl⟩
  | cons members more ih => exact ih _ _

end Collect

section ComputeTarjan
variable {adj : CsrAdjacency}

theorem mapM_eq_map {f : Nat → Option (List Nat)} {g : Nat → List Nat} (h : ∀ i, f i = some (g i))
    (l : List Nat) : l.mapM f = some (l.map g) := by
  induction l with
  | nil => rfl
  | cons i l ih =>
    rw [List.mapM_cons, h, ih]
    rfl

theorem getD_successors (hwf : adj.WellFormed) (kind : EdgeKind) :
    (fun node => ((List.range adj.nodeCount).map (adj.successors kind)).getD node []) =
      adj.successors kind := by
  funext node
  rw [List.getD_eq_getElem?_getD, List.getElem?_map]
  by_cases hlt : node < adj.nodeCount
  · rw [List.getElem?_range hlt]
    rfl
  · have hnone : (List.range adj.nodeCount)[node]? = none := by
      rw [List.getElem?_eq_none_iff, List.length_range]
      exact Nat.le_of_not_lt hlt
    rw [hnone]
    refine (List.eq_nil_iff_forall_not_mem.mpr fun v hv => hlt ?_).symm
    exact (CsrAdjacency.EdgeOfKind.lt hwf ((CsrAdjacency.mem_successors_iff hwf).mp hv)).1

def passes (adj : CsrAdjacency) (kind : EdgeKind) : Nat :=
  TarjanState.unvisited (adj.successors kind) adj.nodeCount .new

theorem computeTarjan_collected (hwf : adj.WellFormed) (kind : EdgeKind) :
    ∃ d sccs, (∀ fuel ≥ passes adj kind, computeTarjan adj kind fuel = some d) ∧
      d.edgeKind = kind ∧ d.nodeCount = adj.nodeCount ∧ d.sccCount = sccs.length ∧
      Collected adj.nodeCount sccs d ∧ Components.Ordered (adj.successors kind) sccs ∧
      ∀ v, v ∈ sccs.flatten ↔ v < adj.nodeCount := by
  have hbound : ∀ u, ∀ v ∈ adj.successors kind u, v < adj.nodeCount := fun u v hv =>
    CsrAdjacency.successors_lt hwf hv
  have hmap := mapM_eq_map (fun i => CsrAdjacency.neighborsFiltered_eq hwf kind i)
    (List.range adj.nodeCount)
  obtain ⟨st, hsearch, hordered, hflat⟩ :=
    TarjanState.searchAll_ordered hbound (Nat.le_refl (passes adj kind))
  have hempty : Collected adj.nodeCount []
      { edgeKind := kind
        nodeCount := adj.nodeCount
        sccCount := st.sccs.length
        nonTrivialCount := 0
        maxSccSize := 0
        nodeToScc := List.replicate adj.nodeCount u32Max
        sccOffsets := [0]
        sccMembers := []
        hasSelfLoop := [] } := by
    refine ⟨rfl, rfl, fun i hi => ?_, List.length_replicate, fun i c hc => ?_⟩
    · cases Nat.le_zero.mp hi
      rfl
    · cases hc
  have hcollected : Collected adj.nodeCount ([] ++ st.sccs)
      (addAll (adj.successors kind) _ ([] : List (List Nat)).length st.sccs) :=
    hempty.addAll hordered.nodup fun v hv => (hflat v).mp hv
  refine ⟨_, st.sccs, fun fuel hfuel => ?_, (sccCount_addAll _ _ _).2.1, (sccCount_addAll _ _ _).2.2,
    (sccCount_addAll _ _ _).1, hcollected, hordered, hflat⟩
  rw [computeTarjan, hmap]
  simp only [getD_successors hwf, TarjanState.searchAll_mono hfuel hsearch]
  rfl

/-- Tarjan's search finds exactly the strongly connected components of the edges of a kind,
in reverse topological order, and nothing in it fails. -/
theorem compute_tarjan_strongly_connected (hwf : adj.WellFormed) (kind : EdgeKind) :
    ∃ bound d, (∀ fuel ≥ bound, computeTarjan adj kind fuel = some d) ∧
      d.nodeToScc.length = adj.nodeCount ∧
      (∀ u < adj.nodeCount, ∀ v < adj.nodeCount, d.nodeToScc[u]? = d.nodeToScc[v]? ↔
        CsrAdjacency.ReachesByKind adj kind u v ∧ CsrAdjacency.ReachesByKind adj kind v u) ∧
      (∀ u < adj.nodeCount, ∃ i < d.sccCount, (∃ c, d.IsSlice i c ∧ u ∈ c) ∧
        ∀ j < d.sccCount, (∃ c, d.IsSlice j c ∧ u ∈ c) → j = i) ∧
      (∀ i < d.sccCount, ∃ c, d.IsSlice i c ∧ c ≠ [] ∧ c.Nodup ∧
        ∀ u, u ∈ c ↔ d.nodeToScc[u]? = some i) ∧
      ∀ u v a b, CsrAdjacency.EdgeOfKind adj kind u v → d.nodeToScc[u]? = some a →
        d.nodeToScc[v]? = some b → b ≠ a → b < a := by
  obtain ⟨d, sccs, hrun, -, -, hcount, hcollected, hordered, hflat⟩ :=
    computeTarjan_collected hwf kind
  have hplace : ∀ {u i : Nat}, d.nodeToScc[u]? = some i ↔ ∃ c, sccs[i]? = some c ∧ u ∈ c :=
    hcollected.nodeToScc_iff hflat
  have hslice : ∀ {i : Nat} {c c' : List Nat}, sccs[i]? = some c → d.IsSlice i c' → c' = c := by
    intro i c c' hc hc'
    obtain ⟨start, stop, hstart, hstop, -, -, hc'⟩ := hc'
    obtain ⟨start', stop', hstart', hstop', -, -, hc''⟩ := hcollected.isSlice hc
    rw [hstart] at hstart'
    rw [hstop] at hstop'
    cases hstart'
    cases hstop'
    exact hc'.symm.trans hc''
  have hcell : ∀ {i : Nat}, i < d.sccCount → ∃ c, sccs[i]? = some c := by
    intro i hi
    rw [hcount] at hi
    exact ⟨_, List.getElem?_eq_getElem hi⟩
  have hnode : ∀ {u : Nat}, u < adj.nodeCount → ∃ (i : Nat) (c : List Nat), sccs[i]? = some c ∧ u ∈ c := by
    intro u hu
    obtain ⟨c, hc, huc⟩ := List.mem_flatten.mp ((hflat u).mpr hu)
    obtain ⟨i, hi⟩ := List.mem_iff_getElem?.mp hc
    exact ⟨i, c, hi, huc⟩
  refine ⟨passes adj kind, d, hrun, hcollected.nodeToScc_length, fun u hu v hv => ?_,
    fun u hu => ?_, fun i hi => ?_, fun u v a b hedge hu hv hne => ?_⟩
  · obtain ⟨i, c, hc, huc⟩ := hnode hu
    have hmutual : CsrAdjacency.ReachesByKind adj kind u v ∧
        CsrAdjacency.ReachesByKind adj kind v u ↔ v ∈ c := by
      rw [CsrAdjacency.reachesByKind_iff hwf, CsrAdjacency.reachesByKind_iff hwf]
      exact hordered.exact c (List.mem_of_getElem? hc) u huc v
    rw [hmutual, hplace.mpr ⟨c, hc, huc⟩, eq_comm, hplace]
    constructor
    · intro ⟨c', hc', hvc⟩
      rw [hc] at hc'
      cases hc'
      exact hvc
    · intro hvc
      exact ⟨c, hc, hvc⟩
  · obtain ⟨i, c, hc, huc⟩ := hnode hu
    refine ⟨i, ?_, ⟨c, hcollected.isSlice hc, huc⟩, fun j hj ⟨c', hslice', huc'⟩ => ?_⟩
    · rw [hcount]
      exact (List.getElem?_eq_some_iff.mp hc).1
    · obtain ⟨c'', hc''⟩ := hcell hj
      rw [hslice hc'' hslice'] at huc'
      have hi := hplace.mpr ⟨c, hc, huc⟩
      rw [hplace.mpr ⟨c'', hc'', huc'⟩] at hi
      exact Option.some.inj hi
  · obtain ⟨c, hc⟩ := hcell hi
    have hmem := List.mem_of_getElem? hc
    refine ⟨c, hcollected.isSlice hc, hordered.nonempty c hmem,
      (List.nodup_flatten.mp hordered.nodup).1 c hmem, fun u => ?_⟩
    rw [hplace]
    constructor
    · intro huc
      exact ⟨c, hc, huc⟩
    · intro ⟨c', hc', huc⟩
      rw [hc] at hc'
      cases hc'
      exact huc
  · obtain ⟨c, hc, huc⟩ := hplace.mp hu
    obtain ⟨c', hc', hvc⟩ := hplace.mp hv
    have hle := hordered.edge_le hc hc' huc hvc ((CsrAdjacency.mem_successors_iff hwf).mpr hedge)
    omega

def cycleAndTail : CsrAdjacency :=
  ⟨3, 3, [0, 1, 3, 3], [1, 0, 2], [.references, .references, .references]⟩

theorem wellFormed_cycleAndTail : cycleAndTail.WellFormed :=
  ⟨by decide, by decide, by decide, by decide, by decide⟩

theorem compute_tarjan_strongly_connected_cycle :
    ∃ bound d, (∀ fuel ≥ bound, computeTarjan cycleAndTail .references fuel = some d) ∧
      d.nodeToScc.length = 3 := by
  obtain ⟨bound, d, hrun, hlength, -⟩ :=
    compute_tarjan_strongly_connected wellFormed_cycleAndTail .references
  exact ⟨bound, d, hrun, hlength⟩

example : (computeTarjan cycleAndTail .references 20).map nodeToScc = some [1, 1, 0] := by decide

end ComputeTarjan
end SccData
end Sqry
