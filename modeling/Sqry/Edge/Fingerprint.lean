import Sqry.Edge.Writers

/-!
What the writers of a store do to its fingerprint: the version of the compressed graph,
the number of buffered edges and the sequence counter. A writer that issues a number
raises the counter for good. Without such a writer, a run that only puts edges into the
buffer, or only takes edges out, cannot change the contents and restore the fingerprint.
-/

namespace Sqry

inductive StoreUpdate where
  | addEdgeWithSpans (source target : NodeId) (kind : EdgeKind) (file : FileId)
      (spans : List Span)
  | removeEdge (source target : NodeId) (kind : EdgeKind) (file : FileId)
  | pushCommitted (edges : List DeltaEdge) (reservationBytes : Nat)
  | clearFile (file : FileId)
  | tombstoneEdgesForNodes (dead : List NodeId)
  | keep

namespace EdgeStore

def update (st : EdgeStore) : StoreUpdate → EdgeStore
  | .addEdgeWithSpans source target kind file spans =>
    st.addEdgeWithSpans source target kind file spans
  | .removeEdge source target kind file => st.removeEdge source target kind file
  | .pushCommitted edges reservationBytes => (st.pushCommitted edges reservationBytes).1
  | .clearFile file => (st.clearFile file).1
  | .tombstoneEdgesForNodes dead => (st.tombstoneEdgesForNodes dead).1
  | .keep => st

def updateStep (st : EdgeStore) (u : StoreUpdate) : Option EdgeStore := some (st.update u)

/-- The call moves the sequence counter: it issues a number, or it commits edges whose
highest number the counter has not passed yet. The highest `u64` has no successor. -/
def Raises (st : EdgeStore) : StoreUpdate → Prop
  | .addEdgeWithSpans _ _ _ _ _ => True
  | .removeEdge _ _ _ _ => True
  | .pushCommitted edges reservationBytes =>
    bytesOf edges ≤ reservationBytes ∧
      ∃ m, maxSeq edges = some m ∧ st.seqCounter < wrappingSucc m
  | _ => False

def Commits : StoreUpdate → Prop
  | .pushCommitted edges reservationBytes => bytesOf edges ≤ reservationBytes ∧ edges ≠ []
  | _ => False

def Takes (st : EdgeStore) : StoreUpdate → Prop
  | .clearFile file => st.delta.edgesForFile file ≠ []
  | .tombstoneEdgesForNodes dead =>
    ∃ e ∈ st.delta.iter, touchesDead (deadSlotIndices dead) e = true
  | _ => False

def tombstoneCount (st : EdgeStore) : Nat := st.csrTombstones.count true

/-- What the type of a store promises: its counters describe its buffer, and its numbers
fit their machine types. -/
structure Sound (st : EdgeStore) : Prop where
  counted : st.delta.Counted
  version_le : st.csrVersion ≤ u64Max
  tombstones_le : st.csrTombstones.length ≤ u32Max

structure SameContents (st st' : EdgeStore) : Prop where
  tombstones_eq : st'.csrTombstones = st.csrTombstones
  edges_eq : ∀ f, st'.delta.edgesForFile f = st.delta.edgesForFile f
  edgeCount_eq : st'.delta.edgeCount = st.delta.edgeCount
  byteSize_eq : st'.delta.byteSize = st.delta.byteSize
  seqCounter_eq : st'.delta.seqCounter = st.delta.seqCounter

section Sweep

structure Swept (before : List Bool) (acc : List Bool × Nat) : Prop where
  length_eq : acc.1.length = before.length
  count_eq : acc.1.count true = before.count true + acc.2
  same : acc.2 = 0 → acc.1 = before

theorem Swept.ifDead {before : List Bool} {acc : List Bool × Nat} (h : Swept before acc)
    (slots : List Nat) (sourceSlotDead : Bool) (r : EdgeRef) :
    Swept before (tombstoneIfDead slots sourceSlotDead acc r) := by
  rw [tombstoneIfDead]
  split
  · exact h
  · rename_i hlt
    split
    · exact h
    · rename_i hclear
      split
      · have hindex : r.index < acc.1.length := Nat.lt_of_not_le hlt
        have hfalse : acc.1[r.index] = false := by
          rw [List.getD_eq_getElem _ _ hindex] at hclear
          exact Bool.eq_false_of_not_eq_true hclear
        refine ⟨?_, ?_, ?_⟩
        · rw [List.length_set]
          exact h.length_eq
        · rw [List.count_set hindex, hfalse, h.count_eq]
          simp only [Bool.false_beq, Bool.not_true, Bool.false_eq_true, if_false, beq_self_eq_true,
            if_true, Nat.sub_zero, Nat.add_assoc]
        · intro hzero
          exact absurd hzero (Nat.succ_ne_zero _)
      · exact h

theorem swept_tombstoneSweep (slots : List Nat) (csr : CsrGraph) (before : List Bool) :
    Swept before (tombstoneSweep slots csr before) := by
  rw [tombstoneSweep]
  apply List.foldlRecOn
  · exact ⟨rfl, rfl, fun _ => rfl⟩
  · intro acc hacc slot _
    rw [tombstoneRow]
    split
    · exact hacc
    · apply List.foldlRecOn
      · exact hacc
      · intro row hrow r _
        exact hrow.ifDead slots _ r

end Sweep

/-- The version went up `k` times, and each time at least one tombstone was added. -/
structure Marked (k : Nat) (st st' : EdgeStore) : Prop where
  version_eq : st'.csrVersion = (st.csrVersion + k) % (u64Max + 1)
  length_eq : st'.csrTombstones.length = st.csrTombstones.length
  count_le : st.tombstoneCount + k ≤ st'.tombstoneCount
  same : k = 0 → st'.csrTombstones = st.csrTombstones

theorem Marked.refl {st : EdgeStore} (h : st.Sound) : Marked 0 st st :=
  ⟨(Nat.mod_eq_of_lt (Nat.lt_succ_of_le h.version_le)).symm, rfl, Nat.le_refl _, fun _ => rfl⟩

theorem Marked.trans {k l : Nat} {st st' st'' : EdgeStore} (h : Marked k st st')
    (h' : Marked l st' st'') : Marked (k + l) st st'' := by
  refine ⟨?_, h'.length_eq.trans h.length_eq, ?_, ?_⟩
  · rw [h'.version_eq, h.version_eq, Nat.mod_add_mod, Nat.add_assoc]
  · have hfirst := h.count_le
    have hlast := h'.count_le
    omega
  · intro hzero
    obtain ⟨hk, hl⟩ := Nat.add_eq_zero_iff.mp hzero
    exact (h'.same hl).trans (h.same hk)

theorem Marked.eq_zero {k : Nat} {st st' : EdgeStore} (h : Marked k st st') (hs : st.Sound)
    (hversion : st'.csrVersion = st.csrVersion) : k = 0 := by
  have hcount : st'.tombstoneCount ≤ st'.csrTombstones.length := List.count_le_length
  have hbound := hs.tombstones_le
  have hmarked := h.count_le
  have hle := hs.version_le
  have heq := h.version_eq
  rw [hversion] at heq
  rw [h.length_eq] at hcount
  simp only [u32Max, u64Max] at hbound hle heq
  omega

section Calls
variable {edges : List DeltaEdge} {reservationBytes : Nat}
variable (st : EdgeStore)

theorem delta_pushCommitted (h : bytesOf edges ≤ reservationBytes) :
    (st.pushCommitted edges reservationBytes).1.delta =
      match maxSeq edges with
      | none => edges.foldl DeltaBuffer.push st.delta
      | some m => (edges.foldl DeltaBuffer.push st.delta).advanceSeqTo (wrappingSucc m) := by
  rw [pushCommitted]
  split
  · rename_i hgt
    exact absurd h (Nat.not_le_of_gt hgt)
  · rfl

theorem pushCommitted_refused (h : ¬ bytesOf edges ≤ reservationBytes) :
    (st.pushCommitted edges reservationBytes).1 = st := by
  rw [pushCommitted, if_pos (Nat.lt_of_not_le h)]

theorem csrTombstones_pushCommitted (edges : List DeltaEdge) (reservationBytes : Nat) :
    (st.pushCommitted edges reservationBytes).1.csrTombstones = st.csrTombstones ∧
      (st.pushCommitted edges reservationBytes).1.csrVersion = st.csrVersion := by
  rw [pushCommitted]
  split
  · exact ⟨rfl, rfl⟩
  · exact ⟨rfl, rfl⟩

theorem edgesForFile_pushCommitted (h : bytesOf edges ≤ reservationBytes) (f : FileId) :
    (st.pushCommitted edges reservationBytes).1.delta.edgesForFile f =
      st.delta.edgesForFile f ++ edges.filter fun e => e.file = f := by
  rw [delta_pushCommitted st h]
  split
  · exact DeltaBuffer.edgesForFile_foldl_push st.delta edges f
  · rw [DeltaBuffer.edgesForFile_advanceSeqTo]
    exact DeltaBuffer.edgesForFile_foldl_push st.delta edges f

theorem seqCounter_pushCommitted (h : bytesOf edges ≤ reservationBytes) :
    (st.pushCommitted edges reservationBytes).1.seqCounter =
      match maxSeq edges with
      | none => st.seqCounter
      | some m => max st.seqCounter (wrappingSucc m) := by
  rw [seqCounter, delta_pushCommitted st h]
  split
  · exact DeltaBuffer.seqCounter_foldl_push st.delta edges
  · rw [DeltaBuffer.seqCounter_advanceSeqTo, DeltaBuffer.seqCounter_foldl_push]
    rfl

def swept (st : EdgeStore) (slots : List Nat) : List Bool × Nat :=
  match st.csr with
  | none => (st.csrTombstones, 0)
  | some csr => tombstoneSweep slots csr st.csrTombstones

theorem swept_spec (slots : List Nat) :
    Swept st.csrTombstones (st.swept slots) := by
  rw [swept]
  split
  · exact ⟨rfl, rfl, fun _ => rfl⟩
  · exact swept_tombstoneSweep _ _ _

theorem tombstoneEdgesForNodes_nil {dead : List NodeId} (h : dead.isEmpty = true)
    : (st.tombstoneEdgesForNodes dead).1 = st := by
  rw [tombstoneEdgesForNodes, if_pos h]

theorem tombstoneEdgesForNodes_eq {dead : List NodeId} (h : dead.isEmpty = false)
    : (st.tombstoneEdgesForNodes dead).1 =
      ⟨st.csr, (st.swept (deadSlotIndices dead)).1,
        if (st.swept (deadSlotIndices dead)).2 > 0 then wrappingSucc st.csrVersion
        else st.csrVersion,
        st.delta.retainIf fun e => !touchesDead (deadSlotIndices dead) e⟩ := by
  rw [tombstoneEdgesForNodes, h]
  rfl

theorem marked_tombstoneEdgesForNodes {st : EdgeStore} (hs : st.Sound) (dead : List NodeId) :
    ∃ k, Marked k st (st.tombstoneEdgesForNodes dead).1 := by
  cases hdead : dead.isEmpty with
  | true =>
    rw [tombstoneEdgesForNodes_nil st hdead]
    exact ⟨0, Marked.refl hs⟩
  | false =>
    have hswept := st.swept_spec (deadSlotIndices dead)
    have hcount := hswept.count_eq
    rw [tombstoneEdgesForNodes_eq st hdead]
    by_cases hnew : (st.swept (deadSlotIndices dead)).2 > 0
    · refine ⟨1, ?_, hswept.length_eq, ?_, fun h => absurd h Nat.one_ne_zero⟩
      · exact if_pos hnew
      · rw [tombstoneCount, tombstoneCount, hcount]
        omega
    · refine ⟨0, ?_, hswept.length_eq, ?_, fun _ => ?_⟩
      · exact (if_neg hnew).trans (Marked.refl hs).version_eq
      · rw [tombstoneCount, tombstoneCount, hcount]
        omega
      · exact hswept.same (Nat.eq_zero_of_not_pos hnew)

end Calls

section Step
variable {st : EdgeStore} {u : StoreUpdate}

theorem seqCounter_lt_update (h : st.Raises u) :
    st.seqCounter < (st.update u).seqCounter := by
  cases u with
  | addEdgeWithSpans source target kind file spans => exact Nat.lt_succ_self _
  | removeEdge source target kind file =>
    rw [update, seqCounter, seqCounter, delta_removeEdge, DeltaBuffer.seqCounter_issue]
    exact Nat.lt_succ_self _
  | pushCommitted edges reservationBytes =>
    obtain ⟨hbytes, m, hm, hlt⟩ := h
    rw [update, seqCounter_pushCommitted st hbytes, hm]
    exact Nat.lt_of_lt_of_le hlt (Nat.le_max_right _ _)
  | clearFile file => exact h.elim
  | tombstoneEdgesForNodes dead => exact h.elim
  | keep => exact h.elim

theorem seqCounter_update (h : ¬ st.Raises u) :
    (st.update u).seqCounter = st.seqCounter := by
  cases u with
  | addEdgeWithSpans source target kind file spans => exact absurd trivial h
  | removeEdge source target kind file => exact absurd trivial h
  | pushCommitted edges reservationBytes =>
    by_cases hbytes : bytesOf edges ≤ reservationBytes
    · rw [update, seqCounter_pushCommitted st hbytes]
      cases hm : maxSeq edges with
      | none => rfl
      | some m =>
        have hle : ¬ st.seqCounter < wrappingSucc m := fun hlt => h ⟨hbytes, m, hm, hlt⟩
        exact Nat.max_eq_left (Nat.le_of_not_lt hle)
    · rw [update, pushCommitted_refused st hbytes]
  | clearFile file => exact DeltaBuffer.seqCounter_clearFile st.delta file
  | tombstoneEdgesForNodes dead =>
    cases hdead : dead.isEmpty with
    | true => rw [update, tombstoneEdgesForNodes_nil st hdead]
    | false =>
      rw [update, tombstoneEdgesForNodes_eq st hdead]
      rfl
  | keep => rfl

theorem marked_update (hs : st.Sound) (hquiet : ¬ st.Raises u)
    : ∃ k, Marked k st (st.update u) := by
  cases u with
  | addEdgeWithSpans source target kind file spans => exact absurd trivial hquiet
  | removeEdge source target kind file => exact absurd trivial hquiet
  | pushCommitted edges reservationBytes =>
    obtain ⟨htombstones, hversion⟩ := st.csrTombstones_pushCommitted edges reservationBytes
    have hrefl := Marked.refl hs
    refine ⟨0, ?_, congrArg List.length htombstones, ?_, fun _ => htombstones⟩
    · exact hversion.trans hrefl.version_eq
    · exact Nat.le_of_eq (congrArg (List.count true) htombstones).symm
  | clearFile file =>
    exact ⟨0, (Marked.refl hs).version_eq, rfl, Nat.le_refl _, fun _ => rfl⟩
  | tombstoneEdgesForNodes dead => exact marked_tombstoneEdgesForNodes hs dead
  | keep => exact ⟨0, Marked.refl hs⟩

theorem delta_update_tombstones (st : EdgeStore) (dead : List NodeId) :
    (st.tombstoneEdgesForNodes dead).1.delta = st.delta ∨
      (st.tombstoneEdgesForNodes dead).1.delta =
        st.delta.retainIf fun e => !touchesDead (deadSlotIndices dead) e := by
  cases hdead : dead.isEmpty with
  | true =>
    left
    rw [tombstoneEdgesForNodes_nil st hdead]
  | false =>
    right
    rw [tombstoneEdgesForNodes_eq st hdead]

theorem edges_shrink (hquiet : ¬ st.Raises u) (hcommits : ¬ Commits u) (f : FileId) :
    ((st.update u).delta.edgesForFile f).Sublist (st.delta.edgesForFile f) := by
  cases u with
  | addEdgeWithSpans source target kind file spans => exact absurd trivial hquiet
  | removeEdge source target kind file => exact absurd trivial hquiet
  | pushCommitted edges reservationBytes =>
    by_cases hbytes : bytesOf edges ≤ reservationBytes
    · have hnil : edges = [] := by
        by_contra hne
        exact hcommits ⟨hbytes, hne⟩
      rw [update, edgesForFile_pushCommitted st hbytes, hnil, List.filter_nil, List.append_nil]
    · rw [update, pushCommitted_refused st hbytes]
  | clearFile file =>
    have hbucket := DeltaBuffer.edgesForFile_clearFile st.delta file f
    rw [show (st.update (.clearFile file)).delta = (st.delta.clearFile file).1 from rfl, hbucket]
    split
    · exact List.nil_sublist _
    · exact List.Sublist.refl _
  | tombstoneEdgesForNodes dead =>
    rw [update]
    cases st.delta_update_tombstones dead with
    | inl h => rw [h]
    | inr h =>
      rw [h, DeltaBuffer.edgesForFile_retainIf]
      exact List.filter_sublist
  | keep => exact List.Sublist.refl _

theorem edges_grow (hquiet : ¬ st.Raises u) (htakes : ¬ st.Takes u) (f : FileId) :
    (st.delta.edgesForFile f).Sublist ((st.update u).delta.edgesForFile f) := by
  cases u with
  | addEdgeWithSpans source target kind file spans => exact absurd trivial hquiet
  | removeEdge source target kind file => exact absurd trivial hquiet
  | pushCommitted edges reservationBytes =>
    by_cases hbytes : bytesOf edges ≤ reservationBytes
    · rw [update, edgesForFile_pushCommitted st hbytes]
      exact List.sublist_append_left _ _
    · rw [update, pushCommitted_refused st hbytes]
  | clearFile file =>
    have hnil : st.delta.edgesForFile file = [] := by
      by_contra hne
      exact htakes hne
    have hbucket := DeltaBuffer.edgesForFile_clearFile st.delta file f
    rw [show (st.update (.clearFile file)).delta = (st.delta.clearFile file).1 from rfl, hbucket]
    split
    · rename_i heq
      rw [heq, hnil]
    · exact List.Sublist.refl _
  | tombstoneEdgesForNodes dead =>
    rw [update]
    cases st.delta_update_tombstones dead with
    | inl h => rw [h]
    | inr h =>
      have hall : (st.delta.edgesForFile f).filter
          (fun e => !touchesDead (deadSlotIndices dead) e) = st.delta.edgesForFile f := by
        rw [List.filter_eq_self]
        intro e he
        have hmem : e ∈ st.delta.iter := Buckets.mem_all_of_bucket he
        cases htouch : touchesDead (deadSlotIndices dead) e with
        | true => exact absurd ⟨e, hmem, htouch⟩ htakes
        | false => rfl
      rw [h, DeltaBuffer.edgesForFile_retainIf, hall]
  | keep => exact List.Sublist.refl _

theorem Sound.update (hs : st.Sound) (u : StoreUpdate) :
    (st.update u).Sound := by
  cases u with
  | addEdgeWithSpans source target kind file spans =>
    refine ⟨?_, hs.version_le, hs.tombstones_le⟩
    rw [EdgeStore.update, delta_addEdgeWithSpans]
    exact hs.counted.issue _
  | removeEdge source target kind file =>
    refine ⟨?_, ?_, ?_⟩
    · rw [EdgeStore.update, delta_removeEdge]
      exact hs.counted.issue _
    · rw [EdgeStore.update, version_removeEdge]
      exact hs.version_le
    · exact (st.tombstoneCsrEdge_length source target kind).trans_le hs.tombstones_le
  | pushCommitted edges reservationBytes =>
    obtain ⟨htombstones, hversion⟩ := st.csrTombstones_pushCommitted edges reservationBytes
    refine ⟨?_, hversion.trans_le hs.version_le,
      (congrArg List.length htombstones).trans_le hs.tombstones_le⟩
    rw [EdgeStore.update]
    by_cases hbytes : bytesOf edges ≤ reservationBytes
    · rw [delta_pushCommitted st hbytes]
      split
      · exact hs.counted.foldl_push edges
      · exact (hs.counted.foldl_push edges).advanceSeqTo _
    · rw [pushCommitted_refused st hbytes]
      exact hs.counted
  | clearFile file => exact ⟨hs.counted.clearFile file, hs.version_le, hs.tombstones_le⟩
  | tombstoneEdgesForNodes dead =>
    obtain ⟨k, hk⟩ := marked_tombstoneEdgesForNodes hs dead
    refine ⟨?_, ?_, hk.length_eq.trans_le hs.tombstones_le⟩
    · rw [EdgeStore.update]
      cases st.delta_update_tombstones dead with
      | inl h => rw [h]; exact hs.counted
      | inr h => rw [h]; exact hs.counted.retainIf _
    · rw [EdgeStore.update, hk.version_eq]
      exact Nat.le_of_lt_succ (Nat.mod_lt _ (Nat.succ_pos _))
  | keep => exact hs

end Step

section Runs

def OneWay (st : EdgeStore) (us : List StoreUpdate) : Prop :=
  StepSystem.RunOk updateStep (fun _ u => ¬ Commits u) st us ∨
    StepSystem.RunOk updateStep (fun s u => ¬ s.Takes u) st us

open StepSystem (run RunOk)

variable {st st' : EdgeStore} {us : List StoreUpdate}

theorem Sound.run (hs : st.Sound) (hrun : run updateStep st us = some st') : st'.Sound := by
  refine StepSystem.invariant_of_run ?_ hs hrun
  intro s u s' h hstep
  cases hstep
  exact h.update u

theorem marked_run (hs : st.Sound) (hquiet : RunOk updateStep (fun s u => ¬ s.Raises u) st us)
    (hrun : run updateStep st us = some st') : ∃ k, Marked k st st' := by
  have hpreserved : ∀ s u s', s.Sound ∧ (∃ k, Marked k st s) → ¬ s.Raises u →
      updateStep s u = some s' → s'.Sound ∧ ∃ k, Marked k st s' := by
    intro s u s' h hok hstep
    cases hstep
    obtain ⟨hsound, k, hk⟩ := h
    obtain ⟨l, hl⟩ := marked_update hsound hok
    exact ⟨hsound.update u, k + l, hk.trans hl⟩
  exact (StepSystem.invariant_of_runOk hpreserved ⟨hs, 0, Marked.refl hs⟩ hquiet hrun).2

theorem seqCounter_run (hquiet : RunOk updateStep (fun s u => ¬ s.Raises u) st us)
    (hrun : run updateStep st us = some st') : st'.seqCounter = st.seqCounter := by
  have hpreserved : ∀ s u s', s.seqCounter = st.seqCounter → ¬ s.Raises u →
      updateStep s u = some s' → s'.seqCounter = st.seqCounter := by
    intro s u s' h hok hstep
    cases hstep
    exact (seqCounter_update hok).trans h
  exact StepSystem.invariant_of_runOk hpreserved rfl hquiet hrun

theorem edges_shrink_run (hquiet : RunOk updateStep (fun s u => ¬ s.Raises u) st us)
    (hcommits : RunOk updateStep (fun _ u => ¬ Commits u) st us)
    (hrun : run updateStep st us = some st') (f : FileId) :
    (st'.delta.edgesForFile f).Sublist (st.delta.edgesForFile f) := by
  have hpreserved : ∀ s u s', (s.delta.edgesForFile f).Sublist (st.delta.edgesForFile f) →
      ¬ s.Raises u ∧ ¬ Commits u → updateStep s u = some s' →
      (s'.delta.edgesForFile f).Sublist (st.delta.edgesForFile f) := by
    intro s u s' h hok hstep
    cases hstep
    exact (edges_shrink hok.1 hok.2 f).trans h
  exact StepSystem.invariant_of_runOk hpreserved (List.Sublist.refl _)
    (StepSystem.runOk_and hquiet hcommits) hrun

theorem edges_grow_run (hquiet : RunOk updateStep (fun s u => ¬ s.Raises u) st us)
    (htakes : RunOk updateStep (fun s u => ¬ s.Takes u) st us)
    (hrun : run updateStep st us = some st') (f : FileId) :
    (st.delta.edgesForFile f).Sublist (st'.delta.edgesForFile f) := by
  have hpreserved : ∀ s u s', (st.delta.edgesForFile f).Sublist (s.delta.edgesForFile f) →
      ¬ s.Raises u ∧ ¬ s.Takes u → updateStep s u = some s' →
      (st.delta.edgesForFile f).Sublist (s'.delta.edgesForFile f) := by
    intro s u s' h hok hstep
    cases hstep
    exact h.trans (edges_grow hok.1 hok.2 f)
  exact StepSystem.invariant_of_runOk hpreserved (List.Sublist.refl _)
    (StepSystem.runOk_and hquiet htakes) hrun

theorem OneWay.append {st mid : EdgeStore} {us vs : List StoreUpdate} (h : st.OneWay (us ++ vs))
    (hfirst : run updateStep st us = some mid) :
    (RunOk updateStep (fun _ u => ¬ Commits u) st us ∧
      RunOk updateStep (fun _ u => ¬ Commits u) mid vs) ∨
    (RunOk updateStep (fun s u => ¬ s.Takes u) st us ∧
      RunOk updateStep (fun s u => ¬ s.Takes u) mid vs) := by
  cases h with
  | inl h => exact .inl (StepSystem.runOk_append h hfirst)
  | inr h => exact .inr (StepSystem.runOk_append h hfirst)

theorem deltaCount_le (hs : st.Sound) (hs' : st'.Sound)
    (h : ∀ f, (st.delta.edgesForFile f).Sublist (st'.delta.edgesForFile f)) :
    st.deltaCount ≤ st'.deltaCount := by
  rw [deltaCount, deltaCount, hs.counted.edgeCount_eq, hs'.counted.edgeCount_eq]
  exact (Buckets.all_subperm_all hs.counted.file_eq hs'.counted.file_eq h).length_le

theorem edgesForFile_eq_of_le (hs : st.Sound) (hs' : st'.Sound)
    (h : ∀ f, (st.delta.edgesForFile f).Sublist (st'.delta.edgesForFile f))
    (hle : st'.deltaCount ≤ st.deltaCount) (f : FileId) :
    st.delta.edgesForFile f = st'.delta.edgesForFile f := by
  rw [deltaCount, deltaCount, hs.counted.edgeCount_eq, hs'.counted.edgeCount_eq] at hle
  exact Buckets.bucket_eq_of_sublist hs.counted.file_eq hs'.counted.file_eq h hle f

theorem iter_perm_of_edgesForFile_eq (hs : st.Sound) (hs' : st'.Sound)
    (h : ∀ f, st'.delta.edgesForFile f = st.delta.edgesForFile f) :
    st'.delta.iter.Perm st.delta.iter :=
  Buckets.all_perm_of_bucket_eq hs'.counted.file_eq hs.counted.file_eq h

theorem sameContents_of_fingerprint {st mid st' : EdgeStore} (hs : st.Sound)
    {us vs : List StoreUpdate}
    (hquiet : RunOk updateStep (fun s u => ¬ s.Raises u) st (us ++ vs))
    (hway : st.OneWay (us ++ vs)) (hfirst : run updateStep st us = some mid)
    (hlast : run updateStep mid vs = some st') (hversion : st'.csrVersion = st.csrVersion)
    (hcount : st'.deltaCount = st.deltaCount) : st.SameContents mid := by
  obtain ⟨hquiet₁, hquiet₂⟩ := StepSystem.runOk_append hquiet hfirst
  have hmid := hs.run hfirst
  have hend := hmid.run hlast
  obtain ⟨k, hk⟩ := marked_run hs hquiet₁ hfirst
  obtain ⟨l, hl⟩ := marked_run hmid hquiet₂ hlast
  have hzero : k = 0 := Nat.eq_zero_of_add_eq_zero_right ((hk.trans hl).eq_zero hs hversion)
  -- The count of the state between the two halves lies between two equal counts.
  have hedges : ∀ f, mid.delta.edgesForFile f = st.delta.edgesForFile f := by
    cases hway.append hfirst with
    | inl hcommits =>
      have hdown := edges_shrink_run hquiet₁ hcommits.1 hfirst
      have hle := deltaCount_le hend hmid (edges_shrink_run hquiet₂ hcommits.2 hlast)
      exact edgesForFile_eq_of_le hmid hs hdown (hcount ▸ hle)
    | inr htakes =>
      have hup := edges_grow_run hquiet₁ htakes.1 hfirst
      have hle := deltaCount_le hmid hend (edges_grow_run hquiet₂ htakes.2 hlast)
      exact fun f => (edgesForFile_eq_of_le hs hmid hup (hcount ▸ hle) f).symm
  have hperm := iter_perm_of_edgesForFile_eq hs hmid hedges
  refine ⟨hk.same hzero, hedges, ?_, ?_, seqCounter_run hquiet₁ hfirst⟩
  · rw [hs.counted.edgeCount_eq, hmid.counted.edgeCount_eq, hperm.length_eq]
  · rw [hs.counted.byteSize_eq, hmid.counted.byteSize_eq, bytesOf_perm hperm]

end Runs

end EdgeStore
end Sqry
