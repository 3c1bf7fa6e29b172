import Sqry.Edge.Store

/-!
What the readers of the edge store return, in terms of the latest delta operation on each
key and of the row entries. Later modules use these descriptions, not the definitions.
-/

namespace Sqry

def StoreEdgeRef.key (x : StoreEdgeRef) : EdgeKey := ⟨x.source, x.target, x.kind⟩

def DeltaEdge.toRef (e : DeltaEdge) : StoreEdgeRef :=
  ⟨e.source, e.target, e.kind, e.seq, e.file, e.spans⟩

theorem DeltaEdge.key_toRef (e : DeltaEdge) : e.toRef.key = e.edgeKey := rfl

def latest (ops : List DeltaEdge) (key : EdgeKey) : Option DeltaEdge :=
  LastWriter.winner DeltaEdge.edgeKey DeltaEdge.seq key ops

variable {ops : List DeltaEdge}

theorem latest_spec {key : EdgeKey} {w : DeltaEdge} (h : latest ops key = some w) :
    w ∈ ops ∧ w.edgeKey = key ∧ ∀ d ∈ ops, d.edgeKey = key → d.seq ≤ w.seq :=
  LastWriter.winner_spec h

theorem latest_eq_none_iff {key : EdgeKey} :
    latest ops key = none ↔ ∀ d ∈ ops, d.edgeKey ≠ key :=
  LastWriter.winner_eq_none_iff

theorem exists_latest {d : DeltaEdge} (hd : d ∈ ops) :
    ∃ w, latest ops d.edgeKey = some w :=
  LastWriter.exists_winner hd rfl

theorem latest_eq_of_lt {w : DeltaEdge} (hw : w ∈ ops)
    (hmax : ∀ d ∈ ops, d.edgeKey = w.edgeKey → d = w ∨ d.seq < w.seq) :
    latest ops w.edgeKey = some w :=
  LastWriter.winner_eq_of_lt hw rfl hmax

namespace DeltaBuffer

structure Numbered (b : DeltaBuffer) : Prop where
  seq_lt : ∀ d ∈ b.iter, d.seq < b.seqCounter
  seq_inj : ∀ d ∈ b.iter, ∀ d' ∈ b.iter, d.seq = d'.seq → d = d'

variable {b : DeltaBuffer} {mk : Nat → DeltaEdge}

theorem numbered_of_empty (h : b.iter = []) : b.Numbered := by
  constructor
  · intro d hd
    rw [h] at hd
    cases hd
  · intro d hd
    rw [h] at hd
    cases hd

def issue (b : DeltaBuffer) (mk : Nat → DeltaEdge) : DeltaBuffer :=
  b.nextSeq.2.push (mk b.nextSeq.1)

theorem Counted.issue (h : b.Counted) (mk : Nat → DeltaEdge) :
    (b.issue mk).Counted := by
  have hnext : b.nextSeq.2.Counted := ⟨h.edgeCount_eq, h.byteSize_eq, h.file_eq⟩
  exact hnext.push _

theorem mem_iter_issue {d : DeltaEdge} :
    d ∈ (b.issue mk).iter ↔ d = mk b.seqCounter ∨ d ∈ b.iter := by
  rw [issue, mem_iter_push, iter_nextSeq]
  rfl

theorem seqCounter_issue (b : DeltaBuffer) (mk : Nat → DeltaEdge) :
    (b.issue mk).seqCounter = b.seqCounter + 1 := rfl

theorem Numbered.issue (h : b.Numbered) (hseq : (mk b.seqCounter).seq = b.seqCounter)
    : (b.issue mk).Numbered := by
  refine ⟨fun d hd => ?_, fun d hd d' hd' heq => ?_⟩
  · rw [seqCounter_issue]
    cases mem_iter_issue.mp hd with
    | inl hnew =>
      rw [hnew, hseq]
      exact Nat.lt_succ_self _
    | inr hold => exact Nat.lt_succ_of_lt (h.seq_lt d hold)
  · cases mem_iter_issue.mp hd with
    | inl hnew =>
      cases mem_iter_issue.mp hd' with
      | inl hnew' => exact hnew.trans hnew'.symm
      | inr hold' =>
        have hlt := h.seq_lt d' hold'
        rw [hnew, hseq] at heq
        exact absurd heq (Nat.ne_of_gt hlt)
    | inr hold =>
      cases mem_iter_issue.mp hd' with
      | inl hnew' =>
        have hlt := h.seq_lt d hold
        rw [hnew', hseq] at heq
        exact absurd heq (Nat.ne_of_lt hlt)
      | inr hold' => exact h.seq_inj d hold d' hold' heq

theorem Numbered.latest_perm (h : b.Numbered) {ops : List DeltaEdge} (hops : ops.Perm b.iter)
    (key : EdgeKey) : latest ops key = latest b.iter key :=
  (LastWriter.winner_perm hops.symm fun d hd d' hd' _ _ heq => h.seq_inj d hd d' hd' heq).symm

theorem Numbered.latest_issue (h : b.Numbered) (hseq : (mk b.seqCounter).seq = b.seqCounter)
    (key : EdgeKey) :
    latest (b.issue mk).iter key =
      if (mk b.seqCounter).edgeKey = key then some (mk b.seqCounter) else latest b.iter key := by
  have hissue := h.issue hseq
  have hperm : ((mk b.seqCounter) :: b.iter).Perm (b.issue mk).iter :=
    (iter_push b.nextSeq.2 (mk b.seqCounter)).symm
  by_cases hkey : (mk b.seqCounter).edgeKey = key
  · rw [if_pos hkey, ← hkey]
    apply latest_eq_of_lt (mem_iter_issue.mpr (.inl rfl))
    intro d hd _
    cases mem_iter_issue.mp hd with
    | inl hnew => exact .inl hnew
    | inr hold =>
      rw [hseq]
      exact .inr (h.seq_lt d hold)
  · rw [if_neg hkey, ← hissue.latest_perm hperm]
    exact LastWriter.winner_cons_of_ne hkey b.iter

end DeltaBuffer

namespace EdgeStore

theorem lookup_lww (ops : List DeltaEdge) (key : EdgeKey) :
    (ops.foldl updateDeltaLwwFromEdge ∅).lookup key =
      (latest ops key).map DeltaFromEntry.ofEdge := by
  have hrank : ∀ e, DeltaFromEntry.seq (DeltaFromEntry.ofEdge e) = DeltaEdge.seq e :=
    fun _ => rfl
  exact LastWriter.lookup_table hrank key ops

theorem lookup_fromSource (st : EdgeStore) (sourceIdx : Nat) (key : EdgeKey) :
    (st.buildDeltaLwwFromSource sourceIdx).lookup key =
      if key.source.index = sourceIdx then
        (latest st.delta.iter key).map DeltaFromEntry.ofEdge
      else none := by
  rw [buildDeltaLwwFromSource, lookup_lww]
  by_cases hkey : key.source.index = sourceIdx
  · rw [if_pos hkey, latest, LastWriter.winner_filter]
    · rfl
    · intro e he
      have hsource : e.source = key.source := congrArg EdgeKey.source he
      simpa [hsource] using hkey
  · rw [if_neg hkey]
    have hnone : latest (st.delta.iter.filter fun e => e.source.index = sourceIdx) key =
        none := by
      rw [latest_eq_none_iff]
      intro e he heq
      have hsource : e.source = key.source := congrArg EdgeKey.source heq
      rw [List.mem_filter, hsource] at he
      exact hkey (by simpa using he.2)
    rw [hnone]
    rfl

def Describes (deltaLww : AList fun _ : EdgeKey => DeltaFromEntry) (ops : List DeltaEdge)
    (inScope : EdgeKey → Prop) : Prop :=
  ∀ key entry, deltaLww.lookup key = some entry ↔
    inScope key ∧ ∃ w, latest ops key = some w ∧ entry = DeltaFromEntry.ofEdge w

theorem describes_lww (ops : List DeltaEdge) :
    Describes (ops.foldl updateDeltaLwwFromEdge ∅) ops fun _ => True := by
  intro key entry
  rw [lookup_lww, Option.map_eq_some_iff]
  simp only [true_and, eq_comm]

theorem describes_fromSource (st : EdgeStore) (sourceIdx : Nat) :
    Describes (st.buildDeltaLwwFromSource sourceIdx) st.delta.iter
      fun key => key.source.index = sourceIdx := by
  intro key entry
  rw [lookup_fromSource]
  by_cases hkey : key.source.index = sourceIdx
  · rw [if_pos hkey, Option.map_eq_some_iff]
    simp only [hkey, true_and, eq_comm]
  · simp [hkey]

variable {deltaLww : AList fun _ : EdgeKey => DeltaFromEntry} {inScope : EdgeKey → Prop}
  {ops : List DeltaEdge} {st : EdgeStore}

theorem shadowed_iff (hmap : Describes deltaLww ops inScope) {source : NodeId} {r : EdgeRef}
    (hscope : inScope ⟨source, r.target, r.kind⟩) :
    csrEdgeShadowedByDelta source r deltaLww = true ↔
      ∃ d ∈ ops, d.edgeKey = ⟨source, r.target, r.kind⟩ ∧ r.seq < d.seq := by
  rw [csrEdgeShadowedByDelta]
  cases hlookup : deltaLww.lookup ⟨source, r.target, r.kind⟩ with
  | none =>
    constructor
    · intro h
      cases h
    · rintro ⟨d, hd, hkey, -⟩
      obtain ⟨w, hw⟩ := exists_latest hd
      rw [hkey] at hw
      rw [(hmap _ _).mpr ⟨hscope, w, hw, rfl⟩] at hlookup
      cases hlookup
  | some entry =>
    obtain ⟨-, w, hw, hentry⟩ := (hmap _ _).mp hlookup
    obtain ⟨hmem, hkey, hmax⟩ := latest_spec hw
    have hseq : entry.seq = w.seq := by rw [hentry]; rfl
    simp only [gt_iff_lt, decide_eq_true_eq, hseq]
    constructor
    · intro hlt
      exact ⟨w, hmem, hkey, hlt⟩
    · rintro ⟨d, hd, hdkey, hlt⟩
      exact Nat.lt_of_lt_of_le hlt (hmax d hd hdkey)

theorem csrHasEdge_iff {sourceIdx seq : Nat} {target : NodeId} {kind : EdgeKind} :
    st.csrHasEdgeWithSeqAtLeast sourceIdx target kind seq = true ↔
      ∃ r ∈ st.csrEdgesOf sourceIdx, r.target = target ∧ r.kind = kind ∧ seq ≤ r.seq := by
  rw [csrHasEdgeWithSeqAtLeast, List.any_eq_true]
  simp only [Bool.and_eq_true, decide_eq_true_eq, ge_iff_le, and_assoc]

theorem Describes.toRef (hmap : Describes deltaLww ops inScope) {key : EdgeKey}
    {entry : DeltaFromEntry} (h : deltaLww.lookup key = some entry) :
    ∃ w, latest ops key = some w ∧ entry = DeltaFromEntry.ofEdge w ∧
      deltaEdgeRef key entry = w.toRef := by
  obtain ⟨-, w, hw, hentry⟩ := (hmap key entry).mp h
  obtain ⟨-, hkey, -⟩ := latest_spec hw
  refine ⟨w, hw, hentry, ?_⟩
  rw [hentry, ← hkey]
  rfl

theorem mem_liveAdds (hmap : Describes deltaLww ops inScope)
    {keep : Sigma (fun _ : EdgeKey => DeltaFromEntry) → Bool} {x : StoreEdgeRef} :
    x ∈ (deltaLww.entries.filter keep).map (fun b => deltaEdgeRef b.1 b.2) ↔
      ∃ w, inScope w.edgeKey ∧ latest ops w.edgeKey = some w ∧
        keep ⟨w.edgeKey, DeltaFromEntry.ofEdge w⟩ = true ∧ x = w.toRef := by
  rw [List.mem_map]
  constructor
  · rintro ⟨b, hb, rfl⟩
    obtain ⟨hmem, hkeep⟩ := List.mem_filter.mp hb
    have hlookup : deltaLww.lookup b.1 = some b.2 := AList.mem_lookup_iff.mpr hmem
    obtain ⟨hscope, -⟩ := (hmap _ _).mp hlookup
    obtain ⟨w, hw, hentry, href⟩ := hmap.toRef hlookup
    obtain ⟨-, hkey, -⟩ := latest_spec hw
    refine ⟨w, by rw [hkey]; exact hscope, by rw [hkey]; exact hw, ?_, href⟩
    rw [hkey, ← hentry]
    exact hkeep
  · rintro ⟨w, hscope, hw, hkeep, rfl⟩
    have hlookup := (hmap w.edgeKey (DeltaFromEntry.ofEdge w)).mpr ⟨hscope, w, hw, rfl⟩
    exact ⟨_, List.mem_filter.mpr ⟨AList.mem_lookup_iff.mp hlookup, hkeep⟩, rfl⟩

theorem nodup_keys_liveAdds (hmap : Describes deltaLww ops inScope)
    (keep : Sigma (fun _ : EdgeKey => DeltaFromEntry) → Bool) :
    (((deltaLww.entries.filter keep).map fun b => deltaEdgeRef b.1 b.2).map
      StoreEdgeRef.key).Nodup := by
  have hkeys : ((deltaLww.entries.filter keep).map fun b => deltaEdgeRef b.1 b.2).map
      StoreEdgeRef.key = (deltaLww.entries.filter keep).map Sigma.fst := by
    rw [List.map_map]
    apply List.map_congr_left
    intro b hb
    have hlookup : deltaLww.lookup b.1 = some b.2 :=
      AList.mem_lookup_iff.mpr (List.mem_filter.mp hb).1
    obtain ⟨w, hw, -, href⟩ := hmap.toRef hlookup
    rw [Function.comp_apply, href, DeltaEdge.key_toRef, (latest_spec hw).2.1]
  rw [hkeys]
  exact deltaLww.keys_nodup.sublist (List.filter_sublist.map Sigma.fst)

/-- The additions `edges_from` takes from the delta buffer. -/
def deltaPart (st : EdgeStore) (sourceIdx : Nat) : List StoreEdgeRef :=
  st.deltaEdgesFrom (st.buildDeltaLwwFromSource sourceIdx)

theorem mem_deltaPart {sourceIdx : Nat} {x : StoreEdgeRef} :
    x ∈ st.deltaPart sourceIdx ↔
      ∃ w, w.source.index = sourceIdx ∧ latest st.delta.iter w.edgeKey = some w ∧
        w.isAdd = true ∧
        (∀ r ∈ st.csrEdgesOf sourceIdx, r.target = w.target → r.kind = w.kind → r.seq < w.seq) ∧
        x = w.toRef := by
  rw [deltaPart, deltaEdgesFrom, mem_liveAdds (st.describes_fromSource sourceIdx)]
  apply exists_congr
  intro w
  apply and_congr_right
  intro hsource
  have hkeep : (DeltaFromEntry.ofEdge w).isAdd = w.isAdd := rfl
  have hnot : st.csrHasEdgeWithSeqAtLeast w.edgeKey.source.index w.target w.kind w.seq = false ↔
      ∀ r ∈ st.csrEdgesOf sourceIdx, r.target = w.target → r.kind = w.kind → r.seq < w.seq := by
    rw [← Bool.not_eq_true, csrHasEdge_iff]
    constructor
    · intro h r hr ht hk
      refine Nat.lt_of_not_le fun hle => h ⟨r, ?_, ht, hk, hle⟩
      rw [← hsource] at hr
      exact hr
    · rintro h ⟨r, hr, ht, hk, hle⟩
      have hrow : r ∈ st.csrEdgesOf sourceIdx := by
        rw [← hsource]
        exact hr
      exact Nat.not_lt_of_le hle (h r hrow ht hk)
  simp only [Bool.and_eq_true, Bool.not_eq_true', hkeep]
  rw [← hnot, and_assoc]
  rfl

theorem nodup_keys_deltaPart (st : EdgeStore) (sourceIdx : Nat) :
    ((st.deltaPart sourceIdx).map StoreEdgeRef.key).Nodup :=
  nodup_keys_liveAdds (st.describes_fromSource sourceIdx) _

theorem csrEdgesOf_of_le {i : Nat} (h : st.csrNodeCount ≤ i) :
    st.csrEdgesOf i = [] := by
  rw [csrEdgesOf]
  cases hcsr : st.csr with
  | none => rfl
  | some csr =>
    have hcount : csr.nodeCount ≤ i := by simpa only [csrNodeCount, hcsr] using h
    show csr.edgesOf i = []
    rw [CsrGraph.edgesOf, if_pos hcount]

def liveRow (st : EdgeStore) (i : Nat) : List EdgeRef :=
  (st.csrEdgesOf i).filter fun r => !st.isEdgeTombstoned r.index

theorem mem_liveRow {i : Nat} {r : EdgeRef} :
    r ∈ st.liveRow i ↔ r ∈ st.csrEdgesOf i ∧ st.isEdgeTombstoned r.index = false := by
  rw [liveRow, List.mem_filter, Bool.not_eq_true']

/-- A row entry that `edges_from` reports for the source. -/
def Reported (st : EdgeStore) (source : NodeId) (r : EdgeRef) : Prop :=
  st.isEdgeTombstoned r.index = false ∧
    ¬ ∃ d ∈ st.delta.iter, d.edgeKey = ⟨source, r.target, r.kind⟩ ∧ r.seq < d.seq

instance (st : EdgeStore) (source : NodeId) (r : EdgeRef) : Decidable (st.Reported source r) :=
  inferInstanceAs (Decidable (_ ∧ _))

theorem edgesFrom_eq (st : EdgeStore) (source : NodeId) :
    st.edgesFrom source =
      ((st.csrEdgesOf source.index).filter fun r => st.Reported source r).map
        (csrEdgeRef source) ++ st.deltaPart source.index := by
  rw [edgesFrom, csrEdgesFrom, deltaPart]
  congr 2
  apply List.filter_congr
  intro r _
  have hshadow := @shadowed_iff _ _ _ (st.describes_fromSource source.index) source r rfl
  rw [Bool.eq_iff_iff, decide_eq_true_eq, Reported, ← hshadow]
  simp only [Bool.and_eq_true, Bool.not_eq_true', Bool.not_eq_true]

theorem checkDelta_foldl (source target : NodeId) (kind : EdgeKind) (ops : List DeltaEdge)
    (acc : Option Nat × Bool) :
    ops.foldl (checkDeltaStep source target kind) acc =
      match acc.1, latest ops ⟨source, target, kind⟩ with
      | _, none => acc
      | none, some w => (some w.seq, w.isAdd)
      | some q, some w => if w.seq > q then (some w.seq, w.isAdd) else acc := by
  induction ops generalizing acc with
  | nil =>
    cases acc.1 <;> rfl
  | cons e ops ih =>
    rw [List.foldl_cons, ih]
    by_cases hkey : e.edgeKey = ⟨source, target, kind⟩
    · have hmatch : e.source = source ∧ e.target = target ∧ e.kind = kind := by
        cases hkey
        exact ⟨rfl, rfl, rfl⟩
      have hlatest : latest (e :: ops) ⟨source, target, kind⟩ =
          match latest ops ⟨source, target, kind⟩ with
          | none => some e
          | some w => if w.seq ≤ e.seq then some e else some w := by
        rw [latest, LastWriter.winner, if_pos hkey, ← latest]
        cases latest ops ⟨source, target, kind⟩ <;> rfl
      rw [hlatest, checkDeltaStep, if_pos hmatch]
      obtain ⟨q, b⟩ := acc
      cases q with
      | none =>
        cases latest ops ⟨source, target, kind⟩ with
        | none => rfl
        | some w =>
          by_cases hle : w.seq ≤ e.seq
          · simp [hle]
          · simp [hle, Nat.lt_of_not_le hle]
      | some q =>
        cases latest ops ⟨source, target, kind⟩ with
        | none =>
          by_cases hq : e.seq > q <;> simp [hq]
        | some w =>
          by_cases hle : w.seq ≤ e.seq
          · by_cases hq : e.seq > q
            · simp [hle, hq]
            · have hwq : ¬ w.seq > q := by omega
              simp [hle, hq, hwq]
          · by_cases hq : e.seq > q
            · have hwq : w.seq > q := by omega
              simp [hle, hq, hwq, Nat.lt_of_not_le hle]
            · simp [hle, hq]
    · have hmatch : ¬ (e.source = source ∧ e.target = target ∧ e.kind = kind) := by
        rintro ⟨rfl, rfl, rfl⟩
        exact hkey rfl
      have hlatest : latest (e :: ops) ⟨source, target, kind⟩ =
          latest ops ⟨source, target, kind⟩ := LastWriter.winner_cons_of_ne hkey ops
      rw [hlatest, checkDeltaStep, if_neg hmatch]

theorem checkDeltaForEdge_eq (st : EdgeStore) (source target : NodeId) (kind : EdgeKind) :
    st.checkDeltaForEdge source target kind =
      (latest st.delta.iter ⟨source, target, kind⟩).map DeltaEdge.isAdd := by
  rw [checkDeltaForEdge, checkDelta_foldl]
  cases latest st.delta.iter ⟨source, target, kind⟩ <;> rfl

theorem hasEdge_eq_of_latest {source target : NodeId} {kind : EdgeKind} {w : DeltaEdge}
    (h : latest st.delta.iter ⟨source, target, kind⟩ = some w) :
    st.hasEdge source target kind = w.isAdd := by
  rw [hasEdge, checkDeltaForEdge_eq, h]
  rfl

end EdgeStore
end Sqry

/-!
What the writers of the edge store change: the operation they issue, and the tombstone
that a removal sets.
-/

namespace Sqry.EdgeStore

variable (st : EdgeStore) (source target : NodeId) (kind : EdgeKind) (file : FileId)

@[simp] theorem tombstoneCsrEdge_delta
    : (st.tombstoneCsrEdge source target kind).delta = st.delta := by
  rw [tombstoneCsrEdge]
  split
  · rfl
  · split
    · rfl
    · split <;> rfl

@[simp] theorem tombstoneCsrEdge_csr : (st.tombstoneCsrEdge source target kind).csr = st.csr := by
  rw [tombstoneCsrEdge]
  split
  · rfl
  · split
    · rfl
    · split <;> rfl

theorem version_tombstoneCsrEdge :
    (st.tombstoneCsrEdge source target kind).csrVersion = st.csrVersion := by
  rw [tombstoneCsrEdge]
  split
  · rfl
  · split
    · rfl
    · split <;> rfl

theorem version_removeEdge : (st.removeEdge source target kind file).csrVersion = st.csrVersion :=
  st.version_tombstoneCsrEdge source target kind

theorem delta_addEdgeWithSpans (spans : List Span) :
    (st.addEdgeWithSpans source target kind file spans).delta =
      st.delta.issue fun seq => ⟨source, target, kind, seq, .add, file, spans⟩ := rfl

theorem delta_removeEdge : (st.removeEdge source target kind file).delta =
      st.delta.issue fun seq => DeltaEdge.new source target kind seq .remove file := by
  rw [removeEdge, tombstoneCsrEdge_delta]
  rfl

theorem csr_removeEdge : (st.removeEdge source target kind file).csr = st.csr :=
  st.tombstoneCsrEdge_csr source target kind

theorem csrEdgesOf_removeEdge (i : Nat) :
    (st.removeEdge source target kind file).csrEdgesOf i = st.csrEdgesOf i := by
  rw [csrEdgesOf, csrEdgesOf, csr_removeEdge]

def rowMatches (st : EdgeStore) (source target : NodeId) (kind : EdgeKind) : List EdgeRef :=
  (st.csrEdgesOf source.index).filter fun r => r.target = target && r.kind = kind

theorem mem_rowMatches {st : EdgeStore} {source target : NodeId} {kind : EdgeKind}
    {r : EdgeRef} : r ∈ st.rowMatches source target kind ↔
      r ∈ st.csrEdgesOf source.index ∧ r.target = target ∧ r.kind = kind := by
  simp only [rowMatches, List.mem_filter, Bool.and_eq_true, decide_eq_true_eq]

theorem tombstoneCsrEdge_length :
    (st.tombstoneCsrEdge source target kind).csrTombstones.length =
      st.csrTombstones.length := by
  rw [tombstoneCsrEdge]
  split
  · rfl
  · split
    · rfl
    · split
      · exact List.length_set
      · rfl

theorem isEdgeTombstoned_tombstoneCsrEdge (index : Nat) :
    (st.tombstoneCsrEdge source target kind).isEdgeTombstoned index = true ↔
      st.isEdgeTombstoned index = true ∨ (index < st.csrTombstones.length ∧
        (st.rowMatches source target kind).head?.map EdgeRef.index = some index) := by
  rw [tombstoneCsrEdge, rowMatches, csrEdgesOf]
  cases hcsr : st.csr with
  | none => simp
  | some csr =>
    have hfirst : ((csr.edgesOf source.index).filter fun r =>
        r.target = target && r.kind = kind).head? = firstMatch csr source target kind :=
      List.head?_filter
    simp only [hfirst]
    cases firstMatch csr source target kind with
    | none => simp
    | some r =>
      by_cases hr : r.index < st.csrTombstones.length
      · simp only [if_pos hr, isEdgeTombstoned, List.getD_eq_getElem?_getD, List.getElem?_set,
          Option.map_some, Option.some.injEq]
        by_cases hindex : r.index = index
        · subst hindex
          simp [hr]
        · simp [hindex]
      · simp only [if_neg hr, Option.map_some, Option.some.injEq]
        constructor
        · intro h
          exact .inl h
        · intro h
          cases h with
          | inl h => exact h
          | inr h => exact absurd (h.2 ▸ h.1) hr

def relist (st : EdgeStore) (edges : AList fun _ : FileId => List DeltaEdge) : EdgeStore :=
  { st with delta := { st.delta with edges := edges } }

end Sqry.EdgeStore
