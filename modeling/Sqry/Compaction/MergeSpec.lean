import Sqry.Compaction.Merge

/-!
What the merge of compaction computes, key by key: a key whose latest operation is an
addition keeps that operation's number and file, and the spans of all additions to the key.
The merged edges are strictly ordered by key, so that these outcomes determine them.
-/

namespace Sqry

open SortedGroups (sortBy byKeyThenSeq groups heads)

section Spans

theorem compareSpans_eq : compareSpans = compareLex
    (compareLex (compareOn fun s : Span => s.start.line) (compareOn fun s => s.start.column))
    (compareLex (compareOn fun s : Span => s.stop.line) (compareOn fun s => s.stop.column)) := rfl

instance : Std.TransCmp compareSpans := by
  rw [compareSpans_eq]
  infer_instance

instance : Std.LawfulEqCmp compareSpans where
  compare_self := Std.ReflCmp.compare_self
  eq_of_compare := by
    intro a b h
    rw [compareSpans_eq, compareLex_eq_eq, compareLex_eq_eq, compareLex_eq_eq] at h
    obtain ⟨⟨hl, hc⟩, hl', hc'⟩ := h
    have hline : a.start.line = b.start.line := Std.LawfulEqCmp.eq_of_compare hl
    have hcolumn : a.start.column = b.start.column := Std.LawfulEqCmp.eq_of_compare hc
    have hline' : a.stop.line = b.stop.line := Std.LawfulEqCmp.eq_of_compare hl'
    have hcolumn' : a.stop.column = b.stop.column := Std.LawfulEqCmp.eq_of_compare hc'
    obtain ⟨⟨l, c⟩, l', c'⟩ := a
    obtain ⟨⟨m, d⟩, m', d'⟩ := b
    cases hline
    cases hcolumn
    cases hline'
    cases hcolumn'
    rfl

def SortedSpans (spans : List Span) : Prop := spans.Pairwise fun a b => compareSpans a b = .lt

theorem sortedSpans_accumulate (group : List DeltaEdge) :
    SortedSpans (accumulateAndDeduplicateSpans group) :=
  SortedGroups.strict_destutter_sortBy _

theorem mem_accumulate {group : List DeltaEdge} {s : Span} :
    s ∈ accumulateAndDeduplicateSpans group ↔ ∃ e ∈ group, e.op = .add ∧ s ∈ e.spans := by
  rw [accumulateAndDeduplicateSpans, SortedGroups.mem_destutter_ne, SortedGroups.mem_sortBy,
    List.mem_flatMap]
  constructor
  · intro ⟨e, he, hs⟩
    obtain ⟨hmem, hadd⟩ := List.mem_filter.mp he
    exact ⟨e, hmem, of_decide_eq_true hadd, hs⟩
  · intro ⟨e, hmem, hadd, hs⟩
    exact ⟨e, List.mem_filter.mpr ⟨hmem, decide_eq_true hadd⟩, hs⟩

theorem accumulate_eq_iff {g g' : List DeltaEdge} :
    accumulateAndDeduplicateSpans g = accumulateAndDeduplicateSpans g' ↔
      ∀ s, (∃ e ∈ g, e.op = .add ∧ s ∈ e.spans) ↔ ∃ e ∈ g', e.op = .add ∧ s ∈ e.spans := by
  constructor
  · intro h s
    rw [← mem_accumulate, ← mem_accumulate, h]
  · intro h
    refine SortedGroups.eq_of_strict (sortedSpans_accumulate g) (sortedSpans_accumulate g') ?_
    intro s
    rw [mem_accumulate, mem_accumulate, h]

end Spans

section Outcome

def opsOn (edges : List DeltaEdge) (key : EdgeKey) : List DeltaEdge :=
  edges.filter fun e => decide (e.edgeKey = key)

variable {edges : List DeltaEdge} {m : MergedEdge} {key : EdgeKey}

theorem mem_opsOn {e : DeltaEdge} :
    e ∈ opsOn edges key ↔ e ∈ edges ∧ e.edgeKey = key := by
  rw [opsOn, List.mem_filter, decide_eq_true_iff]

def outcome (edges : List DeltaEdge) (key : EdgeKey) : Option MergedEdge :=
  match latest edges key with
  | none => none
  | some w =>
    if w.op = .add then
      some ⟨w.source, w.target, w.kind, w.seq, w.file,
        accumulateAndDeduplicateSpans (opsOn edges key)⟩
    else none

theorem outcome_eq_some_iff :
    outcome edges key = some m ↔
      ∃ w, latest edges key = some w ∧ w.op = .add ∧
        m = ⟨w.source, w.target, w.kind, w.seq, w.file,
          accumulateAndDeduplicateSpans (opsOn edges key)⟩ := by
  rw [outcome]
  cases hlatest : latest edges key with
  | none => exact ⟨fun h => (by cases h), fun ⟨_, h, _⟩ => by cases h⟩
  | some w =>
    simp only []
    split
    next hop =>
      constructor
      · intro h
        cases h
        exact ⟨w, rfl, hop, rfl⟩
      · intro ⟨w', hw, _, hm⟩
        cases hw
        rw [hm]
    next hop =>
      constructor
      · intro h
        cases h
      · intro ⟨w', hw, hop', _⟩
        cases hw
        exact absurd hop' hop

theorem edgeKey_outcome (h : outcome edges key = some m) : m.edgeKey = key := by
  obtain ⟨w, hlatest, -, hm⟩ := outcome_eq_some_iff.mp h
  rw [hm, ← (latest_spec hlatest).2.1]
  rfl

def mergeOrder (edges : List DeltaEdge) : List DeltaEdge :=
  sortBy (byKeyThenSeq compareEdgeKeys DeltaEdge.edgeKey DeltaEdge.seq) edges

theorem compareEdgeKeys_antisymm (k k' : EdgeKey) (h : (compareEdgeKeys k k').isLE = true)
    (h' : (compareEdgeKeys k' k).isLE = true) : k = k' :=
  Std.LawfulEqCmp.eq_of_compare (Std.OrientedCmp.isLE_antisymm h h')

theorem pairwise_mergeOrder (edges : List DeltaEdge) :
    (mergeOrder edges).Pairwise fun a b => (compareEdgeKeys a.edgeKey b.edgeKey).isLE = true := by
  refine (SortedGroups.pairwise_sortBy edges).imp fun {a b} h => ?_
  cases SortedGroups.isLE_byKeyThenSeq.mp h with
  | inl hlt =>
    rw [hlt]
    rfl
  | inr heq =>
    rw [heq.1]
    rfl

theorem processEdgeGroup_opsOn (edges : List DeltaEdge) (key : EdgeKey) :
    processEdgeGroup (opsOn (mergeOrder edges) key) = outcome edges key := by
  have hhead : (opsOn (mergeOrder edges) key).head? = latest edges key := by
    rw [opsOn, List.head?_filter]
    exact SortedGroups.find?_sortBy key edges
  have hspans : accumulateAndDeduplicateSpans (opsOn (mergeOrder edges) key) =
      accumulateAndDeduplicateSpans (opsOn edges key) := by
    rw [accumulate_eq_iff]
    intro s
    simp only [mem_opsOn, mergeOrder, SortedGroups.mem_sortBy]
  rw [outcome, ← hhead, ← hspans]
  cases opsOn (mergeOrder edges) key with
  | nil => rfl
  | cons w rest => rfl

theorem edgeGroups_eq_map (edges : List DeltaEdge) :
    edgeGroups edges = (heads DeltaEdge.edgeKey (mergeOrder edges)).map fun w =>
      opsOn (mergeOrder edges) w.edgeKey :=
  SortedGroups.groups_eq_map_heads compareEdgeKeys_antisymm (pairwise_mergeOrder edges)

theorem merged_eq_outcomes (edges : List DeltaEdge) :
    (mergeDeltaEdges edges).1 =
      (heads DeltaEdge.edgeKey (mergeOrder edges)).filterMap fun w => outcome edges w.edgeKey := by
  have hgroups : (mergeDeltaEdges edges).1 = (edgeGroups edges).filterMap processEdgeGroup := by
    rw [mergeDeltaEdges]
    cases edges with
    | nil => rfl
    | cons e edges => rfl
  rw [hgroups, edgeGroups_eq_map, List.filterMap_map]
  congr 1
  funext w
  exact processEdgeGroup_opsOn edges w.edgeKey

theorem mem_merged_iff :
    m ∈ (mergeDeltaEdges edges).1 ↔ outcome edges m.edgeKey = some m := by
  rw [merged_eq_outcomes, List.mem_filterMap]
  constructor
  · intro ⟨w, _, h⟩
    rw [edgeKey_outcome h, h]
  · intro h
    obtain ⟨w, hlatest, -, -⟩ := outcome_eq_some_iff.mp h
    have hkey : w.edgeKey = m.edgeKey := (latest_spec hlatest).2.1
    rw [← hkey] at hlatest h
    exact ⟨w, ((SortedGroups.mem_heads_sortBy edges).2 w).mpr hlatest, h⟩

def compareMerged (a b : MergedEdge) : Ordering := compareEdgeKeys a.edgeKey b.edgeKey

instance : Std.TransCmp compareMerged where
  eq_swap := by
    intro a b
    exact @Std.OrientedCmp.eq_swap _ compareEdgeKeys _ a.edgeKey b.edgeKey
  isLE_trans := by
    intro a b c
    exact @Std.TransCmp.isLE_trans _ compareEdgeKeys _ a.edgeKey b.edgeKey c.edgeKey

theorem strict_merged (edges : List DeltaEdge) :
    (mergeDeltaEdges edges).1.Pairwise fun a b => compareMerged a b = .lt := by
  have hle : (heads DeltaEdge.edgeKey (mergeOrder edges)).Pairwise fun a b =>
      (compareEdgeKeys a.edgeKey b.edgeKey).isLE = true :=
    (pairwise_mergeOrder edges).sublist (SortedGroups.heads_sublist _)
  have hne : (heads DeltaEdge.edgeKey (mergeOrder edges)).Pairwise fun a b =>
      a.edgeKey ≠ b.edgeKey :=
    List.pairwise_map.mp (SortedGroups.mem_heads_sortBy edges).1
  rw [merged_eq_outcomes]
  refine List.Pairwise.filterMap _ (fun a b hab m hm m' hm' => ?_) (hle.and hne)
  rw [compareMerged, edgeKey_outcome hm, edgeKey_outcome hm']
  cases hcmp : compareEdgeKeys a.edgeKey b.edgeKey with
  | lt => rfl
  | eq => exact absurd (Std.LawfulEqCmp.eq_of_compare hcmp) hab.2
  | gt =>
    have hisLE := hab.1
    rw [hcmp] at hisLE
    cases hisLE

theorem merged_eq_iff {edges edges' : List DeltaEdge} :
    (mergeDeltaEdges edges).1 = (mergeDeltaEdges edges').1 ↔
      ∀ key, outcome edges key = outcome edges' key := by
  constructor
  · intro h key
    have hsome : ∀ m, outcome edges key = some m ↔ outcome edges' key = some m := by
      intro m
      constructor
      · intro hm
        have hkey := edgeKey_outcome hm
        rw [← hkey] at hm ⊢
        exact mem_merged_iff.mp (h ▸ mem_merged_iff.mpr hm)
      · intro hm
        have hkey := edgeKey_outcome hm
        rw [← hkey] at hm ⊢
        exact mem_merged_iff.mp (h ▸ mem_merged_iff.mpr hm)
    exact Option.ext hsome
  · intro h
    refine SortedGroups.eq_of_strict (strict_merged edges) (strict_merged edges') fun m => ?_
    rw [mem_merged_iff, mem_merged_iff, h]

end Outcome

section Counts

def keyCount (edges : List DeltaEdge) : Nat := (edges.map DeltaEdge.edgeKey).dedup.length

variable (edges : List DeltaEdge)

theorem keyCount_le : keyCount edges ≤ edges.length := by
  rw [keyCount, ← List.length_map DeltaEdge.edgeKey]
  exact (List.dedup_sublist _).length_le

theorem keyCount_congr {edges edges' : List DeltaEdge}
    (h : ∀ key, (∃ e ∈ edges, e.edgeKey = key) ↔ ∃ e ∈ edges', e.edgeKey = key) :
    keyCount edges = keyCount edges' := by
  refine List.Perm.length_eq ((List.perm_ext_iff_of_nodup (List.nodup_dedup _)
    (List.nodup_dedup _)).mpr fun key => ?_)
  rw [List.mem_dedup, List.mem_dedup, List.mem_map, List.mem_map]
  exact h key

theorem length_heads :
    (heads DeltaEdge.edgeKey (mergeOrder edges)).length = keyCount edges := by
  obtain ⟨hnodup, hmem⟩ : ((heads DeltaEdge.edgeKey (mergeOrder edges)).map
      DeltaEdge.edgeKey).Nodup ∧ ∀ x, x ∈ heads DeltaEdge.edgeKey (mergeOrder edges) ↔
        latest edges x.edgeKey = some x := SortedGroups.mem_heads_sortBy edges
  rw [keyCount, ← List.length_map DeltaEdge.edgeKey]
  refine List.Perm.length_eq ((List.perm_ext_iff_of_nodup hnodup
    (List.nodup_dedup _)).mpr fun key => ?_)
  rw [List.mem_dedup, List.mem_map, List.mem_map]
  constructor
  · intro ⟨w, hw, hkey⟩
    exact ⟨w, (latest_spec ((hmem w).mp hw)).1, hkey⟩
  · intro ⟨e, he, hkey⟩
    obtain ⟨w, hw⟩ := exists_latest he
    have hwkey : w.edgeKey = e.edgeKey := (latest_spec hw).2.1
    refine ⟨w, (hmem w).mpr ?_, hwkey.trans hkey⟩
    rw [hwkey]
    exact hw

theorem length_edgeGroups : (edgeGroups edges).length = keyCount edges := by
  rw [← length_heads, edgeGroups_eq_map, List.length_map]

theorem length_filter_none (gs : List (List DeltaEdge)) :
    (gs.filter fun g => (processEdgeGroup g).isNone).length =
      gs.length - (gs.filterMap processEdgeGroup).length ∧
    (gs.filterMap processEdgeGroup).length ≤ gs.length := by
  induction gs with
  | nil => exact ⟨rfl, Nat.le_refl 0⟩
  | cons g gs ih =>
    obtain ⟨hlen, hle⟩ := ih
    cases hg : processEdgeGroup g with
    | none =>
      rw [List.filter_cons_of_pos (by rw [hg]; rfl), List.filterMap_cons_none hg,
        List.length_cons, List.length_cons, hlen]
      omega
    | some m =>
      rw [List.filter_cons_of_neg (by rw [hg]; simp), List.filterMap_cons_some hg,
        List.length_cons, List.length_cons, hlen]
      omega

theorem stats_mergeDeltaEdges :
    (mergeDeltaEdges edges).2 =
      ⟨edges.length, (mergeDeltaEdges edges).1.length, edges.length - keyCount edges,
        keyCount edges - (mergeDeltaEdges edges).1.length⟩ := by
  rw [mergeDeltaEdges]
  cases edges with
  | nil => rfl
  | cons e edges =>
    simp only [List.isEmpty_cons, Bool.false_eq_true, if_false, (length_filter_none _).1,
      length_edgeGroups]

theorem length_merged_le :
    (mergeDeltaEdges edges).1.length ≤ keyCount edges := by
  rw [merged_eq_outcomes, ← length_heads]
  exact List.length_filterMap_le _ _

end Counts

section LastWriterWins

def DistinctSeqs (edges : List DeltaEdge) : Prop :=
  edges.Pairwise fun a b => a.edgeKey = b.edgeKey → a.seq ≠ b.seq

instance (edges : List DeltaEdge) : Decidable (DistinctSeqs edges) :=
  inferInstanceAs (Decidable (edges.Pairwise _))

def HasHighestSeq (edges : List DeltaEdge) (w : DeltaEdge) : Prop :=
  w ∈ edges ∧ ∀ e ∈ edges, e.edgeKey = w.edgeKey → e.seq ≤ w.seq

theorem DistinctSeqs.eq {edges : List DeltaEdge} (h : DistinctSeqs edges) {a b : DeltaEdge}
    (ha : a ∈ edges) (hb : b ∈ edges) (hkey : a.edgeKey = b.edgeKey) (hseq : a.seq = b.seq) :
    a = b := by
  by_contra hne
  have hsymm : Std.Symm fun a b : DeltaEdge => a.edgeKey = b.edgeKey → a.seq ≠ b.seq :=
    ⟨fun a b hab hkey hseq => hab hkey.symm hseq.symm⟩
  exact List.Pairwise.forall h ha hb hne hkey hseq

theorem latest_eq_some_iff {edges : List DeltaEdge} (h : DistinctSeqs edges) {key : EdgeKey}
    {w : DeltaEdge} : latest edges key = some w ↔ HasHighestSeq edges w ∧ w.edgeKey = key := by
  constructor
  · intro hlatest
    obtain ⟨hmem, hkey, hmax⟩ := latest_spec hlatest
    exact ⟨⟨hmem, fun e he hek => hmax e he (hek.trans hkey)⟩, hkey⟩
  · intro ⟨⟨hmem, hmax⟩, hkey⟩
    obtain ⟨v, hv⟩ := exists_latest hmem
    obtain ⟨hvmem, hvkey, hvmax⟩ := latest_spec hv
    have hseq : v.seq = w.seq := Nat.le_antisymm (hmax v hvmem hvkey) (hvmax w hmem rfl)
    rw [← hkey, hv, h.eq hvmem hmem hvkey hseq]

theorem mergeDeltaEdges_perm {edges edges' : List DeltaEdge} (h : DistinctSeqs edges)
    (hperm : edges.Perm edges') : mergeDeltaEdges edges = mergeDeltaEdges edges' := by
  have horder : mergeOrder edges = mergeOrder edges' := by
    refine SortedGroups.sortBy_eq_of_perm hperm fun a ha b hb htie => ?_
    rw [byKeyThenSeq] at htie
    cases hcmp : compareEdgeKeys a.edgeKey b.edgeKey with
    | lt =>
      simp only [hcmp] at htie
      cases htie
    | gt =>
      simp only [hcmp] at htie
      cases htie
    | eq =>
      simp only [hcmp] at htie
      have hseq : b.seq = a.seq := Nat.compare_eq_eq.mp htie
      exact h.eq ha hb (Std.LawfulEqCmp.eq_of_compare hcmp) hseq.symm
  have hgroups : edgeGroups edges = edgeGroups edges' := congrArg (groups DeltaEdge.edgeKey) horder
  have hempty : edges.isEmpty = edges'.isEmpty := by
    rw [Bool.eq_iff_iff, List.isEmpty_iff, List.isEmpty_iff]
    constructor
    · intro hnil
      rw [hnil] at hperm
      exact hperm.symm.eq_nil
    · intro hnil
      rw [hnil] at hperm
      exact hperm.eq_nil
  rw [mergeDeltaEdges, mergeDeltaEdges, hempty, hgroups, hperm.length_eq]

/-- The merge is last writer wins with the union of the spans of all additions, it does not
depend on the order of its input, and its counts add up. -/
theorem merge_delta_edges_last_writer_wins {edges : List DeltaEdge} (h : DistinctSeqs edges) :
    ((mergeDeltaEdges edges).1.map MergedEdge.edgeKey).Nodup ∧
    (∀ key, (∃ m ∈ (mergeDeltaEdges edges).1, m.edgeKey = key) ↔
      ∃ w, HasHighestSeq edges w ∧ w.edgeKey = key ∧ w.op = .add) ∧
    (∀ m ∈ (mergeDeltaEdges edges).1, ∀ w, HasHighestSeq edges w → w.edgeKey = m.edgeKey →
      m.seq = w.seq ∧ m.file = w.file) ∧
    (∀ m ∈ (mergeDeltaEdges edges).1, SortedSpans m.spans ∧ m.spans.Nodup ∧
      ∀ s, s ∈ m.spans ↔ ∃ e ∈ edges, e.edgeKey = m.edgeKey ∧ e.op = .add ∧ s ∈ e.spans) ∧
    (∀ edges', edges.Perm edges' → mergeDeltaEdges edges' = mergeDeltaEdges edges) ∧
    (mergeDeltaEdges edges).2.inputCount = edges.length ∧
    (mergeDeltaEdges edges).2.outputCount = (mergeDeltaEdges edges).1.length ∧
    (mergeDeltaEdges edges).2.inputCount = (mergeDeltaEdges edges).2.outputCount +
      (mergeDeltaEdges edges).2.removedCount + (mergeDeltaEdges edges).2.deduplicatedCount := by
  have hfrom : ∀ m ∈ (mergeDeltaEdges edges).1, ∃ w, latest edges m.edgeKey = some w ∧
      w.op = .add ∧ m = ⟨w.source, w.target, w.kind, w.seq, w.file,
        accumulateAndDeduplicateSpans (opsOn edges m.edgeKey)⟩ := fun m hm =>
    outcome_eq_some_iff.mp (mem_merged_iff.mp hm)
  refine ⟨nodup_merged_keys edges, fun key => ?_, fun m hm w hw hkey => ?_, fun m hm => ?_,
    fun edges' hperm => (mergeDeltaEdges_perm h hperm).symm, ?_, ?_, ?_⟩
  · constructor
    · intro ⟨m, hm, hkey⟩
      obtain ⟨w, hlatest, hadd, -⟩ := hfrom m hm
      obtain ⟨hhighest, hwkey⟩ := (latest_eq_some_iff h).mp hlatest
      exact ⟨w, hhighest, hwkey.trans hkey, hadd⟩
    · intro ⟨w, hhighest, hkey, hadd⟩
      have hlatest := (latest_eq_some_iff h).mpr ⟨hhighest, hkey⟩
      have hout := outcome_eq_some_iff.mpr ⟨w, hlatest, hadd, rfl⟩
      have hmkey := edgeKey_outcome hout
      refine ⟨_, mem_merged_iff.mpr ?_, hmkey⟩
      rw [hmkey]
      exact hout
  · obtain ⟨v, hlatest, -, hm⟩ := hfrom m hm
    rw [(latest_eq_some_iff h).mpr ⟨hw, hkey⟩] at hlatest
    cases hlatest
    rw [hm]
    exact ⟨rfl, rfl⟩
  · obtain ⟨w, -, -, hm⟩ := hfrom m hm
    have hspans : m.spans = accumulateAndDeduplicateSpans (opsOn edges m.edgeKey) :=
      congrArg MergedEdge.spans hm
    have hsorted : SortedSpans m.spans := by
      rw [hspans]
      exact sortedSpans_accumulate _
    refine ⟨hsorted, hsorted.imp fun {a b} hlt heq => ?_, fun s => ?_⟩
    · have hself : compareSpans b b = .eq := Std.ReflCmp.compare_self
      rw [heq, hself] at hlt
      cases hlt
    · rw [hspans, mem_accumulate]
      constructor
      · intro ⟨e, he, hadd, hs⟩
        obtain ⟨hmem, hkey⟩ := mem_opsOn.mp he
        exact ⟨e, hmem, hkey, hadd, hs⟩
      · intro ⟨e, hmem, hkey, hadd, hs⟩
        exact ⟨e, mem_opsOn.mpr ⟨hmem, hkey⟩, hadd, hs⟩
  · rw [stats_mergeDeltaEdges]
  · rw [stats_mergeDeltaEdges]
  · have hkeys := keyCount_le edges
    have hmerged := length_merged_le edges
    rw [stats_mergeDeltaEdges]
    simp only []
    omega

def threeWrites : List DeltaEdge :=
  [⟨⟨0, 1⟩, ⟨1, 1⟩, .references, 1, .add, 4, [⟨⟨1, 0⟩, ⟨1, 5⟩⟩]⟩,
    ⟨⟨0, 1⟩, ⟨2, 1⟩, .references, 1, .add, 4, []⟩,
    ⟨⟨0, 1⟩, ⟨2, 1⟩, .references, 2, .remove, 4, []⟩]

theorem merge_delta_edges_last_writer_wins_three :
    DistinctSeqs threeWrites ∧ mergeDeltaEdges threeWrites.reverse = mergeDeltaEdges threeWrites ∧
      (mergeDeltaEdges threeWrites).2 = ⟨3, 1, 1, 1⟩ :=
  ⟨by decide, (merge_delta_edges_last_writer_wins (by decide)).2.2.2.2.1 _
    (List.reverse_perm threeWrites).symm, by decide +kernel⟩

end LastWriterWins
end Sqry
