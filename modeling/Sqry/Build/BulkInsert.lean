import Sqry.Build.GlobalDedup

/-!
The bulk insertion of pending edges, and stores that hold their edges in the buffers only. Such a
store is a map from the keys of its live edges to their files, which both sides agree on.
-/

namespace Sqry

section Numbering

def numberPending : Nat → List PendingEdge → List DeltaEdge
  | _, [] => []
  | seq, edge :: edges =>
    ⟨edge.source, edge.target, edge.kind, seq, .add, edge.file, edge.spans⟩ ::
      numberPending (seq + 1) edges

def pendingEdgesToDelta : List (List PendingEdge) → Nat → List (List DeltaEdge) × Nat
  | [], seq => ([], seq)
  | fileEdges :: rest, seq =>
    let (result, final) := pendingEdgesToDelta rest (seq + fileEdges.length)
    (numberPending seq fileEdges :: result, final)

/-- `none` stands for a panic. -/
def phase4dBulkInsertEdges (b : BidirectionalEdgeStore) (perFileEdges : List (List PendingEdge)) :
    Option (BidirectionalEdgeStore × Nat) :=
  let (deltaEdgeVecs, finalSeq) := pendingEdgesToDelta perFileEdges b.forward.seqCounter
  let totalEdgeCount := (deltaEdgeVecs.map List.length).sum
  if totalEdgeCount > 0 then
    (b.addEdgesBulkOrdered deltaEdgeVecs totalEdgeCount).map fun b => (b, finalSeq)
  else some (b, finalSeq)

def PendingEdge.edgeKey (edge : PendingEdge) : EdgeKey := ⟨edge.source, edge.target, edge.kind⟩

theorem numberPending_append (seq : Nat) (l m : List PendingEdge) :
    numberPending seq (l ++ m) = numberPending seq l ++ numberPending (seq + l.length) m := by
  induction l generalizing seq with
  | nil => rfl
  | cons edge l ih =>
    rw [List.cons_append, numberPending, ih, numberPending, List.cons_append, List.length_cons,
      Nat.add_assoc, Nat.add_comm 1]

theorem length_numberPending (seq : Nat) (l : List PendingEdge) :
    (numberPending seq l).length = l.length := by
  induction l generalizing seq with
  | nil => rfl
  | cons edge l ih => rw [numberPending, List.length_cons, ih, List.length_cons]

theorem pendingEdgesToDelta_flatten (edges : List (List PendingEdge)) (seq : Nat) :
    (pendingEdgesToDelta edges seq).1.flatten = numberPending seq edges.flatten := by
  induction edges generalizing seq with
  | nil => rfl
  | cons fileEdges rest ih =>
    rw [pendingEdgesToDelta, List.flatten_cons, List.flatten_cons, numberPending_append, ← ih]

theorem mem_numberPending {seq : Nat} {l : List PendingEdge} {d : DeltaEdge} :
    d ∈ numberPending seq l ↔ ∃ i edge, l[i]? = some edge ∧
      d = ⟨edge.source, edge.target, edge.kind, seq + i, .add, edge.file, edge.spans⟩ := by
  induction l generalizing seq with
  | nil => simp [numberPending]
  | cons edge l ih =>
    rw [numberPending, List.mem_cons, ih]
    constructor
    · intro h
      cases h with
      | inl heq => exact ⟨0, edge, rfl, heq⟩
      | inr hlater =>
        obtain ⟨i, edge', hedge, heq⟩ := hlater
        exact ⟨i + 1, edge', hedge, by rw [heq, Nat.add_assoc, Nat.add_comm 1]⟩
    · intro h
      obtain ⟨i, edge', hedge, heq⟩ := h
      cases i with
      | zero =>
        cases hedge
        exact Or.inl heq
      | succ i => exact Or.inr ⟨i, edge', hedge, by rw [heq, Nat.add_assoc, Nat.add_comm 1]⟩

theorem seq_inj_numberPending {seq : Nat} {l : List PendingEdge} {d d' : DeltaEdge}
    (hd : d ∈ numberPending seq l) (hd' : d' ∈ numberPending seq l) (h : d.seq = d'.seq) :
    d = d' := by
  obtain ⟨i, edge, hedge, heq⟩ := mem_numberPending.mp hd
  obtain ⟨j, edge', hedge', heq'⟩ := mem_numberPending.mp hd'
  rw [heq, heq'] at h
  have hij : i = j := Nat.add_left_cancel h
  rw [hij, hedge'] at hedge
  cases hedge
  rw [heq, heq', hij]

end Numbering

section Pushes

def pushAll (b : BidirectionalEdgeStore) (edges : List DeltaEdge) : BidirectionalEdgeStore :=
  edges.foldl BidirectionalEdgeStore.pushBoth b

theorem foldlM_bulkPush_numberPending {prev : Option Nat} {b : BidirectionalEdgeStore} {seq : Nat}
    (hprev : ∀ p, prev = some p → p < seq) (l : List PendingEdge) :
    (numberPending seq l).foldlM (BidirectionalEdgeStore.bulkPush 0 0) (prev, b) =
      some (if l = [] then prev else some (seq + l.length - 1),
        pushAll b (numberPending seq l)) := by
  induction l generalizing prev b seq with
  | nil => rfl
  | cons edge l ih =>
    have hpass : BidirectionalEdgeStore.bulkPush 0 0 (prev, b)
        ⟨edge.source, edge.target, edge.kind, seq, .add, edge.file, edge.spans⟩ =
          some (some seq, b.pushBoth
            ⟨edge.source, edge.target, edge.kind, seq, .add, edge.file, edge.spans⟩) := by
      rw [BidirectionalEdgeStore.bulkPush, if_neg]
      intro hfail
      cases hfail with
      | inl hany =>
        obtain ⟨p, hp, hlt⟩ := (Option.any_eq_true _ _).mp hany
        exact Nat.lt_asymm (hprev p hp) (of_decide_eq_true hlt)
      | inr hrest => exact hrest.elim (Nat.not_lt_zero _) (Nat.not_lt_zero _)
    rw [numberPending, List.foldlM_cons, hpass]
    refine (ih (fun p hp => ?_)).trans ?_
    · cases hp
      exact Nat.lt_succ_self seq
    · refine congrArg some (Prod.ext ?_ rfl)
      rw [if_neg (List.cons_ne_nil edge l), List.length_cons]
      by_cases hnil : l = []
      · rw [if_pos hnil, hnil]
        rfl
      · rw [if_neg hnil]
        exact congrArg some (by omega)

theorem pushAll_eq (b : BidirectionalEdgeStore) (edges : List DeltaEdge) :
    pushAll b edges =
      ⟨{ b.forward with delta := edges.foldl DeltaBuffer.push b.forward.delta },
        { b.reverse with
          delta := (edges.map DeltaEdge.reversed).foldl DeltaBuffer.push b.reverse.delta }⟩ := by
  induction edges generalizing b with
  | nil => rfl
  | cons e edges ih => exact ih (b.pushBoth e)

theorem mem_iter_foldl_push {b : DeltaBuffer} {edges : List DeltaEdge} {d : DeltaEdge} :
    d ∈ (edges.foldl DeltaBuffer.push b).iter ↔ d ∈ edges ∨ d ∈ b.iter := by
  induction edges generalizing b with
  | nil => simp
  | cons e edges ih =>
    rw [List.foldl_cons, ih, DeltaBuffer.mem_iter_push, List.mem_cons]
    tauto

theorem numbered_foldl_push {edges : List DeltaEdge} {next : Nat}
    (hlt : ∀ d ∈ edges, d.seq < next)
    (hinj : ∀ d ∈ edges, ∀ d' ∈ edges, d.seq = d'.seq → d = d') :
    ((edges.foldl DeltaBuffer.push DeltaBuffer.new).advanceSeqTo next).Numbered := by
  have hmem : ∀ d, d ∈ ((edges.foldl DeltaBuffer.push DeltaBuffer.new).advanceSeqTo next).iter ↔
      d ∈ edges := by
    intro d
    rw [DeltaBuffer.iter_advanceSeqTo, mem_iter_foldl_push, DeltaBuffer.iter_new]
    exact or_iff_left List.not_mem_nil
  refine ⟨fun d hd => ?_, fun d hd d' hd' => ?_⟩
  · rw [DeltaBuffer.seqCounter_advanceSeqTo]
    exact Nat.lt_of_lt_of_le (hlt d ((hmem d).mp hd)) (Nat.le_max_right _ _)
  · exact hinj d ((hmem d).mp hd) d' ((hmem d').mp hd')

end Pushes

section Contents

def EdgeKey.turned (key : EdgeKey) : EdgeKey := ⟨key.target, key.source, key.kind⟩

def EdgeStore.fileOf (st : EdgeStore) (key : EdgeKey) : Option FileId :=
  match latest st.delta.iter key with
  | some w => if w.isAdd then some w.file else none
  | none => none

structure Holds (b : BidirectionalEdgeStore) (content : EdgeKey → Option FileId) : Prop where
  forward_csr : b.forward.csr = none
  reverse_csr : b.reverse.csr = none
  forward_numbered : b.forward.delta.Numbered
  reverse_numbered : b.reverse.delta.Numbered
  forward_fileOf : ∀ key, b.forward.fileOf key = content key
  reverse_fileOf : ∀ key, b.reverse.fileOf key.turned = content key

theorem EdgeStore.csrEdgesOf_of_none {st : EdgeStore} (h : st.csr = none) (i : Nat) :
    st.csrEdgesOf i = [] := by
  rw [csrEdgesOf, h]

theorem EdgeStore.mem_edgesFrom_of_none {st : EdgeStore} (hcsr : st.csr = none) {asked : NodeId}
    {x : StoreEdgeRef} (hx : x ∈ st.edgesFrom asked) :
    x.source.index = asked.index ∧ st.fileOf x.key = some x.file := by
  rw [edgesFrom_eq, csrEdgesOf_of_none hcsr, List.filter_nil, List.map_nil, List.nil_append,
    mem_deltaPart] at hx
  obtain ⟨w, hslot, hlatest, hadd, _, heq⟩ := hx
  rw [heq]
  refine ⟨hslot, ?_⟩
  rw [fileOf, DeltaEdge.key_toRef, hlatest]
  exact if_pos hadd

theorem EdgeStore.exists_mem_edgesFrom {st : EdgeStore} (hcsr : st.csr = none) {key : EdgeKey}
    {file : FileId} (h : st.fileOf key = some file) {asked : NodeId}
    (hslot : key.source.index = asked.index) :
    ∃ x ∈ st.edgesFrom asked, x.key = key ∧ x.file = file := by
  rw [fileOf] at h
  cases hlatest : latest st.delta.iter key with
  | none =>
    rw [hlatest] at h
    cases h
  | some w =>
    simp only [hlatest] at h
    split at h
    · rename_i hadd
      cases h
      have hkey := (latest_spec hlatest).2.1
      refine ⟨w.toRef, ?_, hkey, rfl⟩
      rw [edgesFrom_eq, csrEdgesOf_of_none hcsr, List.filter_nil, List.map_nil, List.nil_append,
        mem_deltaPart]
      refine ⟨w, ?_, by rw [hkey]; exact hlatest, hadd, ?_, rfl⟩
      · rw [← hslot, ← hkey]
        rfl
      · intro r hr
        rw [csrEdgesOf_of_none hcsr] at hr
        cases hr
    · cases h

theorem EdgeStore.fileOf_issue {st st' : EdgeStore} (hnumbered : st.delta.Numbered)
    {mk : Nat → DeltaEdge} (hseq : (mk st.delta.seqCounter).seq = st.delta.seqCounter)
    (hst' : st'.delta = st.delta.issue mk) (key : EdgeKey) :
    st'.fileOf key =
      if (mk st.delta.seqCounter).edgeKey = key then
        if (mk st.delta.seqCounter).isAdd then some (mk st.delta.seqCounter).file else none
      else st.fileOf key := by
  rw [fileOf, hst', hnumbered.latest_issue hseq key, fileOf]
  by_cases hkey : (mk st.delta.seqCounter).edgeKey = key
  · rw [if_pos hkey, if_pos hkey]
  · rw [if_neg hkey, if_neg hkey]

variable {b : BidirectionalEdgeStore} {content : EdgeKey → Option FileId}

theorem Holds.removeEdge (h : Holds b content) (source target : NodeId) (kind : EdgeKind)
    (file : FileId) :
    Holds (b.removeEdge source target kind file)
      (Function.update content ⟨source, target, kind⟩ none) := by
  refine ⟨?_, ?_, ?_, ?_, fun key => ?_, fun key => ?_⟩
  · exact (b.forward.csr_removeEdge source target kind file).trans h.forward_csr
  · exact (b.reverse.csr_removeEdge target source kind file).trans h.reverse_csr
  · have hdelta := b.forward.delta_removeEdge source target kind file
    rw [BidirectionalEdgeStore.removeEdge, hdelta]
    exact h.forward_numbered.issue rfl
  · have hdelta := b.reverse.delta_removeEdge target source kind file
    rw [BidirectionalEdgeStore.removeEdge, hdelta]
    exact h.reverse_numbered.issue rfl
  · refine (EdgeStore.fileOf_issue h.forward_numbered rfl
      (b.forward.delta_removeEdge source target kind file) key).trans ?_
    rw [h.forward_fileOf, Function.update_apply]
    exact if_congr eq_comm rfl rfl
  · refine (EdgeStore.fileOf_issue h.reverse_numbered rfl
      (b.reverse.delta_removeEdge target source kind file) key.turned).trans ?_
    rw [h.reverse_fileOf, Function.update_apply]
    refine if_congr ⟨fun heq => ?_, fun heq => ?_⟩ rfl rfl
    · exact congrArg EdgeKey.turned heq.symm
    · rw [heq]
      rfl

theorem Holds.addEdgeWithSpans (h : Holds b content) (source target : NodeId) (kind : EdgeKind)
    (file : FileId) (spans : List Span) :
    Holds (b.addEdgeWithSpans source target kind file spans)
      (Function.update content ⟨source, target, kind⟩ (some file)) := by
  refine ⟨h.forward_csr, h.reverse_csr, ?_, ?_, fun key => ?_, fun key => ?_⟩
  · have hdelta := b.forward.delta_addEdgeWithSpans source target kind file spans
    rw [BidirectionalEdgeStore.addEdgeWithSpans, hdelta]
    exact h.forward_numbered.issue rfl
  · have hdelta := b.reverse.delta_addEdgeWithSpans target source kind file spans
    rw [BidirectionalEdgeStore.addEdgeWithSpans, hdelta]
    exact h.reverse_numbered.issue rfl
  · refine (EdgeStore.fileOf_issue h.forward_numbered rfl
      (b.forward.delta_addEdgeWithSpans source target kind file spans) key).trans ?_
    rw [h.forward_fileOf, Function.update_apply]
    exact if_congr eq_comm rfl rfl
  · refine (EdgeStore.fileOf_issue h.reverse_numbered rfl
      (b.reverse.delta_addEdgeWithSpans target source kind file spans) key.turned).trans ?_
    rw [h.reverse_fileOf, Function.update_apply]
    refine if_congr ⟨fun heq => ?_, fun heq => ?_⟩ rfl rfl
    · exact congrArg EdgeKey.turned heq.symm
    · rw [heq]
      rfl

end Contents

section Inserted
variable {b : BidirectionalEdgeStore}

theorem latest_reversed {ops : List DeltaEdge} {key : EdgeKey}
    (hinj : ∀ d ∈ ops, ∀ d' ∈ ops, d.seq = d'.seq → d = d') {rev : List DeltaEdge}
    (hrev : ∀ d, d ∈ rev ↔ ∃ e ∈ ops, d = e.reversed) :
    latest rev key.turned = (latest ops key).map DeltaEdge.reversed := by
  cases hlatest : latest ops key with
  | none =>
    refine latest_eq_none_iff.mpr fun d hd heq => ?_
    obtain ⟨e, he, hd'⟩ := (hrev d).mp hd
    rw [hd'] at heq
    exact latest_eq_none_iff.mp hlatest e he (congrArg EdgeKey.turned heq)
  | some w =>
    obtain ⟨hmem, hkey, hmax⟩ := latest_spec hlatest
    have hwkey : w.reversed.edgeKey = key.turned := congrArg EdgeKey.turned hkey
    rw [← hwkey]
    refine latest_eq_of_lt ((hrev _).mpr ⟨w, hmem, rfl⟩) fun d hd heq => ?_
    obtain ⟨e, he, hd'⟩ := (hrev d).mp hd
    rw [hd'] at heq ⊢
    have hekey : e.edgeKey = key := (congrArg EdgeKey.turned heq).trans hkey
    cases Nat.lt_or_eq_of_le (hmax e he hekey) with
    | inl hlt => exact Or.inr hlt
    | inr hseq => exact Or.inl (congrArg DeltaEdge.reversed (hinj e he w hmem hseq))

structure Filled (b : BidirectionalEdgeStore) (edges : List PendingEdge) : Prop where
  forward_csr : b.forward.csr = none
  reverse_csr : b.reverse.csr = none
  forward_numbered : b.forward.delta.Numbered
  reverse_numbered : b.reverse.delta.Numbered
  mem_forward : ∀ d, d ∈ b.forward.delta.iter ↔ d ∈ numberPending 0 edges
  mem_reverse : ∀ d, d ∈ b.reverse.delta.iter ↔ ∃ e ∈ numberPending 0 edges, d = e.reversed

theorem phase4dBulkInsertEdges_new (edges : List (List PendingEdge))
    (hcount : edges.flatten.length ≤ u64Max) :
    ∃ b seq, phase4dBulkInsertEdges .new edges = some (b, seq) ∧ Filled b edges.flatten := by
  have hflat : (pendingEdgesToDelta edges 0).1.flatten = numberPending 0 edges.flatten :=
    pendingEdgesToDelta_flatten edges 0
  have htotal : ((pendingEdgesToDelta edges 0).1.map List.length).sum = edges.flatten.length := by
    rw [← List.length_flatten, hflat, length_numberPending]
  by_cases hnil : edges.flatten = []
  · have hinsert : phase4dBulkInsertEdges .new edges =
        some (.new, (pendingEdgesToDelta edges 0).2) := by
      refine if_neg ?_
      have hseq : BidirectionalEdgeStore.new.forward.seqCounter = 0 := rfl
      rw [hseq, htotal, hnil]
      exact Nat.lt_irrefl 0
    refine ⟨_, _, hinsert, rfl, rfl, DeltaBuffer.numbered_of_empty rfl,
      DeltaBuffer.numbered_of_empty rfl, fun d => ?_, fun d => ?_⟩
    · rw [hnil]
      rfl
    · rw [hnil]
      simp [numberPending, BidirectionalEdgeStore.new, EdgeStore.new]
  · have hpos : 0 < edges.flatten.length := List.length_pos_iff.mpr hnil
    have hadd : BidirectionalEdgeStore.addEdgesBulkOrdered .new (pendingEdgesToDelta edges 0).1
        edges.flatten.length = some ((pushAll .new (numberPending 0 edges.flatten)).advanceSeqTo
          edges.flatten.length) := by
      rw [BidirectionalEdgeStore.addEdgesBulkOrdered, hflat, length_numberPending,
        if_neg (fun hne => hne rfl)]
      have hfold := @foldlM_bulkPush_numberPending none .new 0 (fun p hp => by cases hp)
        edges.flatten
      rw [if_neg hnil, Nat.zero_add] at hfold
      have hseqs : BidirectionalEdgeStore.new.forward.seqCounter = 0 ∧
          BidirectionalEdgeStore.new.reverse.seqCounter = 0 := ⟨rfl, rfl⟩
      rw [hseqs.1, hseqs.2, hfold]
      have hsucc : wrappingSucc (edges.flatten.length - 1) = edges.flatten.length := by
        rw [wrappingSucc, Nat.sub_add_cancel hpos]
        exact Nat.mod_eq_of_lt (Nat.lt_succ_of_le hcount)
      simp only [hsucc]
    have hinsert : phase4dBulkInsertEdges .new edges =
        some ((pushAll .new (numberPending 0 edges.flatten)).advanceSeqTo edges.flatten.length,
          (pendingEdgesToDelta edges 0).2) := by
      have hseq : BidirectionalEdgeStore.new.forward.seqCounter = 0 := rfl
      rw [phase4dBulkInsertEdges, hseq]
      refine (if_pos (by rw [htotal]; exact hpos)).trans ?_
      rw [htotal, hadd]
      rfl
    have hlt : ∀ d ∈ numberPending 0 edges.flatten, d.seq < edges.flatten.length := by
      intro d hd
      obtain ⟨i, edge, hedge, heq⟩ := mem_numberPending.mp hd
      rw [heq, Nat.zero_add]
      exact (List.getElem?_eq_some_iff.mp hedge).1
    refine ⟨_, _, hinsert, ?_⟩
    rw [pushAll_eq]
    refine ⟨rfl, rfl, ?_, ?_, fun d => ?_, fun d => ?_⟩
    · exact numbered_foldl_push hlt fun d hd d' hd' => seq_inj_numberPending hd hd'
    · refine numbered_foldl_push (fun d hd => ?_) (fun d hd d' hd' heq => ?_)
      · obtain ⟨e, he, hd'⟩ := List.mem_map.mp hd
        rw [← hd']
        exact hlt e he
      · obtain ⟨e, he, hde⟩ := List.mem_map.mp hd
        obtain ⟨e', he', hde'⟩ := List.mem_map.mp hd'
        rw [← hde, ← hde'] at heq ⊢
        rw [seq_inj_numberPending he he' heq]
    · refine (iff_of_eq (congrArg (d ∈ ·) (DeltaBuffer.iter_advanceSeqTo _ _))).trans ?_
      rw [mem_iter_foldl_push]
      exact or_iff_left List.not_mem_nil
    · refine (iff_of_eq (congrArg (d ∈ ·) (DeltaBuffer.iter_advanceSeqTo _ _))).trans ?_
      rw [mem_iter_foldl_push, List.mem_map]
      refine (or_iff_left List.not_mem_nil).trans ?_
      exact exists_congr fun e => and_congr_right fun _ => eq_comm

variable {edges : List PendingEdge}

theorem Filled.holds (h : Filled b edges) : Holds b b.forward.fileOf := by
  refine ⟨h.forward_csr, h.reverse_csr, h.forward_numbered, h.reverse_numbered, fun _ => rfl,
    fun key => ?_⟩
  have hrev : ∀ d, d ∈ b.reverse.delta.iter ↔
      ∃ e ∈ b.forward.delta.iter, d = e.reversed := by
    intro d
    rw [h.mem_reverse]
    exact exists_congr fun e => and_congr_left fun _ => (h.mem_forward e).symm
  rw [EdgeStore.fileOf, latest_reversed h.forward_numbered.seq_inj hrev, EdgeStore.fileOf]
  cases latest b.forward.delta.iter key <;> rfl

theorem Filled.exists_edge (h : Filled b edges) {key : EdgeKey} {file : FileId}
    (hfile : b.forward.fileOf key = some file) :
    ∃ edge ∈ edges, edge.edgeKey = key ∧ edge.file = file := by
  rw [EdgeStore.fileOf] at hfile
  cases hlatest : latest b.forward.delta.iter key with
  | none =>
    rw [hlatest] at hfile
    cases hfile
  | some w =>
    obtain ⟨hmem, hkey, _⟩ := latest_spec hlatest
    obtain ⟨i, edge, hedge, heq⟩ := mem_numberPending.mp ((h.mem_forward w).mp hmem)
    simp only [hlatest] at hfile
    rw [heq] at hkey hfile
    cases hfile
    exact ⟨edge, List.mem_of_getElem? hedge, hkey, rfl⟩

theorem Filled.exists_file (h : Filled b edges) {edge : PendingEdge} (hedge : edge ∈ edges) :
    ∃ file, b.forward.fileOf edge.edgeKey = some file := by
  obtain ⟨i, hi⟩ := List.mem_iff_getElem?.mp hedge
  have hmem := (h.mem_forward _).mpr (mem_numberPending.mpr ⟨i, edge, hi, rfl⟩)
  obtain ⟨w, hw⟩ := exists_latest hmem
  obtain ⟨hwmem, _, _⟩ := latest_spec hw
  obtain ⟨j, edge', _, heq⟩ := mem_numberPending.mp ((h.mem_forward w).mp hwmem)
  have hadd : w.isAdd = true := by rw [heq]; rfl
  refine ⟨w.file, ?_⟩
  have hkey : latest b.forward.delta.iter edge.edgeKey = some w := hw
  rw [EdgeStore.fileOf, hkey]
  exact if_pos hadd

end Inserted

end Sqry
