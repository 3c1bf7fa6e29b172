import Sqry.Compaction.Rebuilt

/-!
Whether a compaction keeps what the readers see. The merge keeps one edge for each key of
a row, under a source of generation 0, and one for each key of the buffer. A reader sees
the same before and after when the row of the slot repeats no target and kind, and the
buffer holds no operation on an edge that is still live in the row.
-/

namespace Sqry

inductive StoreOp where
  | addEdge (source target : NodeId) (kind : EdgeKind) (file : FileId)
  | removeEdge (source target : NodeId) (kind : EdgeKind) (file : FileId)
  | compact (nodeCount : Nat)
  /-- The hash map of the buffer lists its files in another order. -/
  | relist (edges : AList fun _ : FileId => List DeltaEdge)

namespace StoreOp

def HandedOut : StoreOp → Prop
  | addEdge source target _ _ => 1 ≤ source.generation ∧ 1 ≤ target.generation
  | removeEdge source target _ _ => 1 ≤ source.generation ∧ 1 ≤ target.generation
  | compact _ => True
  | relist _ => True

end StoreOp

instance (st : EdgeStore) (nodeCount : Nat) : Decidable (Covers st nodeCount) :=
  inferInstanceAs (Decidable (∀ d ∈ _, _))

namespace EdgeStore

def step (st : EdgeStore) : StoreOp → Option EdgeStore
  | .addEdge source target kind file => some (st.addEdge source target kind file)
  | .removeEdge source target kind file => some (st.removeEdge source target kind file)
  | .compact nodeCount => if Covers st nodeCount then st.compact nodeCount .forward else none
  | .relist edges =>
    if edges.entries.Perm st.delta.edges.entries then
      some (st.relist edges)
    else none

/-- Sources of buffered operations have been handed out, and row entries are older than
all of them. -/
structure Layered (st : EdgeStore) : Prop where
  numbered : st.delta.Numbered
  generation_pos : ∀ d ∈ st.delta.iter, 1 ≤ d.source.generation
  row_lt : ∀ i, ∀ r ∈ st.csrEdgesOf i, ∀ d ∈ st.delta.iter, r.seq < d.seq
  row_lt_counter : ∀ i, ∀ r ∈ st.csrEdgesOf i, r.seq < st.delta.seqCounter

theorem layered_new : Layered EdgeStore.new := by
  refine ⟨DeltaBuffer.numbered_of_empty rfl, ?_, ?_, ?_⟩
  · intro d hd
    cases hd
  · intro i r hr
    cases hr
  · intro i r hr
    cases hr

variable {st st' : EdgeStore}

theorem Layered.issue (h : st.Layered) {mk : Nat → DeltaEdge}
    (hcsr : ∀ i, st'.csrEdgesOf i = st.csrEdgesOf i) (hdelta : st'.delta = st.delta.issue mk)
    (hseq : (mk st.delta.seqCounter).seq = st.delta.seqCounter)
    (hsource : 1 ≤ (mk st.delta.seqCounter).source.generation) : st'.Layered := by
  refine ⟨by rw [hdelta]; exact h.numbered.issue hseq, ?_, ?_, ?_⟩
  · intro d hd
    rw [hdelta] at hd
    cases DeltaBuffer.mem_iter_issue.mp hd with
    | inl hnew => rw [hnew]; exact hsource
    | inr hold => exact h.generation_pos d hold
  · intro i r hr d hd
    rw [hcsr] at hr
    rw [hdelta] at hd
    cases DeltaBuffer.mem_iter_issue.mp hd with
    | inl hnew => rw [hnew, hseq]; exact h.row_lt_counter i r hr
    | inr hold => exact h.row_lt i r hr d hold
  · intro i r hr
    rw [hcsr] at hr
    rw [hdelta, DeltaBuffer.seqCounter_issue]
    exact Nat.lt_succ_of_lt (h.row_lt_counter i r hr)

theorem Layered.compacted_lt {st : EdgeStore} (h : st.Layered) {e : MergedEdge}
    (he : e ∈ compactedEdges st) : e.seq < st.delta.seqCounter := by
  have hverdict : e.verdict ∈ (mergeDeltaEdges (compactionLog st)).1.map MergedEdge.verdict :=
    List.mem_map_of_mem he
  obtain ⟨w, hlatest, -, hseq⟩ := mem_merged_verdicts.mp hverdict
  have hw : w.seq = e.seq := hseq
  rw [← hw]
  cases List.mem_append.mp (latest_spec hlatest).1 with
  | inl hcsr =>
    obtain ⟨i, r, hr, rfl⟩ := mem_csrLog.mp hcsr
    exact h.row_lt_counter i r (mem_liveRow.mp hr).1
  | inr hdelta => exact h.numbered.seq_lt w hdelta

theorem Layered.compact (h : st.Layered) (hspec : Compacted st st') :
    st'.Layered := by
  have hiter : st'.delta.iter = [] := by
    rw [hspec.delta_eq]
    rfl
  refine ⟨DeltaBuffer.numbered_of_empty hiter, ?_, ?_, ?_⟩
  · intro d hd
    rw [hiter] at hd
    cases hd
  · intro i r _ d hd
    rw [hiter] at hd
    cases hd
  · intro i r hr
    have hentry := (hspec.rows i).mem_iff.mp (List.mem_map_of_mem hr)
    obtain ⟨e, he, heq⟩ := List.mem_map.mp hentry
    have hseq : e.seq = r.seq := congrArg RowEntry.seq heq
    rw [hspec.delta_eq, DeltaBuffer.seqCounter_clear, ← hseq]
    exact h.compacted_lt (List.mem_filter.mp he).1

theorem Layered.step {op : StoreOp} (h : st.Layered) (hop : op.HandedOut)
    (hstep : st.step op = some st') : st'.Layered := by
  cases op with
  | addEdge source target kind file =>
    cases hstep
    exact h.issue (fun _ => rfl) (st.delta_addEdgeWithSpans source target kind file []) rfl hop.1
  | removeEdge source target kind file =>
    cases hstep
    exact h.issue (st.csrEdgesOf_removeEdge source target kind file)
      (st.delta_removeEdge source target kind file) rfl hop.1
  | compact nodeCount =>
    rw [EdgeStore.step] at hstep
    split at hstep
    · rename_i hcovers
      exact h.compact (compact_spec hcovers hstep)
    · cases hstep
  | relist edges =>
    rw [EdgeStore.step] at hstep
    split at hstep
    · rename_i hperm
      cases hstep
      have hiter := Buckets.all_perm hperm
      refine ⟨⟨fun d hd => ?_, fun d hd d' hd' => ?_⟩, fun d hd => ?_, fun i r hr d hd => ?_,
        h.row_lt_counter⟩
      · exact h.numbered.seq_lt d (hiter.mem_iff.mp hd)
      · exact h.numbered.seq_inj d (hiter.mem_iff.mp hd) d' (hiter.mem_iff.mp hd')
      · exact h.generation_pos d (hiter.mem_iff.mp hd)
      · exact h.row_lt i r hr d (hiter.mem_iff.mp hd)
    · cases hstep

theorem layered_of_run {ops : List StoreOp} {st : EdgeStore} (hops : ∀ op ∈ ops, op.HandedOut)
    (hrun : StepSystem.run EdgeStore.step EdgeStore.new ops = some st) : st.Layered := by
  have hok : StepSystem.RunOk EdgeStore.step (fun _ op => op.HandedOut) EdgeStore.new ops :=
    StepSystem.runOk_of_forall_mem fun op hop _ => hops op hop
  exact StepSystem.invariant_of_runOk (fun _ _ _ h hop hstep => h.step hop hstep) layered_new
    hok hrun

section View

structure TargetKind where
  target : NodeId
  kind : EdgeKind
  deriving DecidableEq

def visible (st : EdgeStore) (n : NodeId) : List TargetKind :=
  (st.edgesFrom n).map fun x => ⟨x.target, x.kind⟩

def rowTargets (st : EdgeStore) (i : Nat) : List TargetKind :=
  (st.liveRow i).map fun r => ⟨r.target, r.kind⟩

/-- The live row of the slot repeats no edge, and the buffer has no operation of the node
on an edge that is live in the row. -/
def Unrepeated (st : EdgeStore) (n : NodeId) : Prop :=
  (st.rowTargets n.index).Nodup ∧
    ∀ r ∈ st.liveRow n.index, ∀ d ∈ st.delta.iter, d.edgeKey ≠ ⟨n, r.target, r.kind⟩

def keyTarget (k : EdgeKey) : TargetKind := ⟨k.target, k.kind⟩

theorem visible_of_compacted {st st' : EdgeStore} (h : Compacted st st') (n : NodeId) :
    (st'.visible n).Perm ((((compactedEdges st).filter fun e => e.source.index = n.index).map
      MergedEdge.edgeKey).map keyTarget) := by
  have hiter : st'.delta.iter = [] := by
    rw [h.delta_eq]
    rfl
  have hdelta : st'.deltaPart n.index = [] := by
    rw [List.eq_nil_iff_forall_not_mem]
    intro x hx
    obtain ⟨w, -, hlatest, -⟩ := mem_deltaPart.mp hx
    have hmem := (latest_spec hlatest).1
    rw [hiter] at hmem
    cases hmem
  have hall : ((st'.csrEdgesOf n.index).filter fun r => st'.Reported n r) =
      st'.csrEdgesOf n.index := by
    rw [List.filter_eq_self]
    intro r _
    refine decide_eq_true ⟨h.not_tombstoned r.index, ?_⟩
    intro ⟨d, hd, _⟩
    rw [hiter] at hd
    cases hd
  have hentries : st'.visible n = ((st'.csrEdgesOf n.index).map EdgeRef.entry).map
      fun e => ⟨e.target, e.kind⟩ := by
    rw [visible, edgesFrom_eq, hdelta, hall, List.append_nil, List.map_map, List.map_map]
    rfl
  have hkeys : (((compactedEdges st).filter fun e => e.source.index = n.index).map
      MergedEdge.edgeKey).map keyTarget =
        (((compactedEdges st).filter fun e => e.source.index = n.index).map
          MergedEdge.entry).map fun e => ⟨e.target, e.kind⟩ := by
    rw [List.map_map, List.map_map]
    rfl
  rw [hentries, hkeys]
  exact (h.rows n.index).map _

variable {st : EdgeStore}

theorem mem_compacted_keys {i : Nat} {key : EdgeKey} :
    key ∈ ((compactedEdges st).filter fun e => e.source.index = i).map MergedEdge.edgeKey ↔
      key.source.index = i ∧ ∃ w, latest (compactionLog st) key = some w ∧ w.isAdd = true := by
  rw [List.mem_map]
  constructor
  · intro ⟨e, he, hkey⟩
    obtain ⟨hmem, hsource⟩ := List.mem_filter.mp he
    have hverdict : e.verdict ∈ (mergeDeltaEdges (compactionLog st)).1.map MergedEdge.verdict :=
      List.mem_map_of_mem hmem
    obtain ⟨w, hlatest, hadd, -⟩ := mem_merged_verdicts.mp hverdict
    have hlatest' : latest (compactionLog st) key = some w := hkey ▸ hlatest
    have hindex : key.source.index = i := hkey ▸ of_decide_eq_true hsource
    exact ⟨hindex, w, hlatest', hadd⟩
  · intro ⟨hindex, w, hlatest, hadd⟩
    have hverdict : (⟨key, w.seq⟩ : Verdict) ∈
        (mergeDeltaEdges (compactionLog st)).1.map MergedEdge.verdict :=
      mem_merged_verdicts.mpr ⟨w, hlatest, hadd, rfl⟩
    obtain ⟨e, he, heq⟩ := List.mem_map.mp hverdict
    have hkey : e.edgeKey = key := congrArg Verdict.key heq
    have hsource : e.source.index = i := by
      rw [← hindex, ← hkey]
      rfl
    exact ⟨e, List.mem_filter.mpr ⟨he, decide_eq_true hsource⟩, hkey⟩

theorem exists_latest_csrLog_iff {key : EdgeKey} (hzero : key.source.generation = 0) :
    (∃ w, latest (csrLog st) key = some w ∧ w.isAdd = true) ↔
      keyTarget key ∈ st.rowTargets key.source.index := by
  constructor
  · intro ⟨w, hlatest, _⟩
    obtain ⟨hmem, hkey, -⟩ := latest_spec hlatest
    obtain ⟨i, r, hr, rfl⟩ := mem_csrLog.mp hmem
    rw [← hkey]
    exact List.mem_map.mpr ⟨r, hr, rfl⟩
  · intro hmem
    obtain ⟨r, hr, heq⟩ := List.mem_map.mp hmem
    let d : DeltaEdge :=
      ⟨⟨key.source.index, 0⟩, r.target, r.kind, r.seq, .add, 0, r.spans⟩
    have hd : d ∈ csrLog st := mem_csrLog.mpr ⟨_, r, hr, rfl⟩
    have hkey : d.edgeKey = key := by
      obtain ⟨⟨index, generation⟩, target, kind⟩ := key
      cases hzero
      cases heq
      rfl
    obtain ⟨w, hw⟩ := exists_latest hd
    rw [hkey] at hw
    obtain ⟨i, r', -, rfl⟩ := mem_csrLog.mp (latest_spec hw).1
    exact ⟨_, hw, rfl⟩

theorem compacted_keys_perm (h : st.Layered) (i : Nat) :
    (((compactedEdges st).filter fun e => e.source.index = i).map MergedEdge.edgeKey).Perm
      ((st.rowTargets i).dedup.map (fun t => ⟨⟨i, 0⟩, t.target, t.kind⟩) ++
        (st.deltaPart i).map StoreEdgeRef.key) := by
  have hkept : (((compactedEdges st).filter fun e => e.source.index = i).map
      MergedEdge.edgeKey).Nodup :=
    (nodup_merged_keys (compactionLog st)).sublist (List.filter_sublist.map _)
  have hbuffer : ∀ key : EdgeKey, key ∈ (st.deltaPart i).map StoreEdgeRef.key ↔
      key.source.index = i ∧ ∃ w, latest st.delta.iter key = some w ∧ w.isAdd = true := by
    intro key
    rw [List.mem_map]
    constructor
    · intro ⟨x, hx, hkey⟩
      obtain ⟨w, hsource, hlatest, hadd, -, rfl⟩ := mem_deltaPart.mp hx
      cases hkey
      exact ⟨hsource, w, hlatest, hadd⟩
    · intro ⟨hindex, w, hlatest, hadd⟩
      obtain ⟨hmem, hkey, -⟩ := latest_spec hlatest
      subst hkey
      exact ⟨w.toRef, mem_deltaPart.mpr ⟨w, hindex, hlatest, hadd,
        fun r hr _ _ => h.row_lt i r hr w hmem, rfl⟩, rfl⟩
  have hrows : ∀ key : EdgeKey,
      key ∈ (st.rowTargets i).dedup.map (fun t => (⟨⟨i, 0⟩, t.target, t.kind⟩ : EdgeKey)) ↔
        key.source = ⟨i, 0⟩ ∧ keyTarget key ∈ st.rowTargets i := by
    intro key
    rw [List.mem_map]
    constructor
    · intro ⟨t, ht, hkey⟩
      subst hkey
      exact ⟨rfl, List.mem_dedup.mp ht⟩
    · intro ⟨hsource, ht⟩
      refine ⟨keyTarget key, List.mem_dedup.mpr ht, ?_⟩
      rw [← hsource]
      rfl
  have hpos : ∀ key : EdgeKey, (∃ w, latest st.delta.iter key = some w ∧ w.isAdd = true) →
      1 ≤ key.source.generation := by
    intro key ⟨w, hlatest, _⟩
    obtain ⟨hmem, hkey, -⟩ := latest_spec hlatest
    rw [← hkey]
    exact h.generation_pos w hmem
  have hparts : ((st.rowTargets i).dedup.map
      (fun t => (⟨⟨i, 0⟩, t.target, t.kind⟩ : EdgeKey)) ++
        (st.deltaPart i).map StoreEdgeRef.key).Nodup := by
    refine List.Nodup.append ?_ (st.nodup_keys_deltaPart i) ?_
    · refine (List.nodup_dedup _).map ?_
      intro t t' heq
      cases t
      cases t'
      cases heq
      rfl
    · intro key hrow hbuf
      have hgen := hpos key ((hbuffer key).mp hbuf).2
      rw [((hrows key).mp hrow).1] at hgen
      exact Nat.not_succ_le_zero 0 hgen
  rw [List.perm_ext_iff_of_nodup hkept hparts]
  intro key
  rw [mem_compacted_keys, latest_compactionLog h.generation_pos, List.mem_append, hrows, hbuffer]
  by_cases hzero : key.source.generation = 0
  · have hnot : ¬ ∃ w, latest st.delta.iter key = some w ∧ w.isAdd = true := fun hex => by
      have hgen := hpos key hex
      rw [hzero] at hgen
      exact Nat.not_succ_le_zero 0 hgen
    rw [if_pos hzero, exists_latest_csrLog_iff hzero]
    have hsource : key.source = ⟨i, 0⟩ ↔ key.source.index = i := by
      obtain ⟨⟨index, generation⟩, target, kind⟩ := key
      cases hzero
      simp
    simp only [hnot, and_false, or_false, hsource]
    constructor
    · intro ⟨hindex, hmem⟩
      exact ⟨hindex, hindex ▸ hmem⟩
    · intro ⟨hindex, hmem⟩
      exact ⟨hindex, hindex.symm ▸ hmem⟩
  · rw [if_neg hzero]
    have hsource : ¬ key.source = ⟨i, 0⟩ := fun heq => hzero (congrArg NodeId.generation heq)
    simp only [hsource, false_and, false_or]

theorem perm_dedup_iff {α β : Type} [DecidableEq β] {f : α → β} {p : α → Bool} {l : List α}
    (hp : ∀ a ∈ l, ∀ b ∈ l, f a = f b → p a = p b) :
    ((l.map f).dedup).Perm ((l.filter p).map f) ↔ (l.map f).Nodup ∧ ∀ a ∈ l, p a = true := by
  constructor
  · intro hperm
    have hall : ∀ a ∈ l, p a = true := by
      intro a ha
      have hmem : f a ∈ (l.filter p).map f :=
        hperm.mem_iff.mp (List.mem_dedup.mpr (List.mem_map_of_mem ha))
      obtain ⟨b, hb, heq⟩ := List.mem_map.mp hmem
      obtain ⟨hbl, hbp⟩ := List.mem_filter.mp hb
      rw [hp a ha b hbl heq.symm]
      exact hbp
    rw [List.filter_eq_self.mpr hall] at hperm
    exact ⟨hperm.nodup_iff.mp (List.nodup_dedup _), hall⟩
  · intro ⟨hnodup, hall⟩
    rw [List.filter_eq_self.mpr hall, hnodup.dedup]

theorem visible_perm_iff {st st' : EdgeStore} (h : st.Layered) (hspec : Compacted st st')
    (n : NodeId) : (st'.visible n).Perm (st.visible n) ↔ st.Unrepeated n := by
  let shown : EdgeRef → Bool := fun r =>
    decide (¬ ∃ d ∈ st.delta.iter, d.edgeKey = ⟨n, r.target, r.kind⟩)
  have hbefore : st.visible n = (((st.liveRow n.index).filter shown).map
      fun r => ⟨r.target, r.kind⟩) ++ ((st.deltaPart n.index).map StoreEdgeRef.key).map
        keyTarget := by
    have hfilter : ((st.csrEdgesOf n.index).filter fun r => decide (st.Reported n r)) =
        (st.liveRow n.index).filter shown := by
      rw [liveRow, List.filter_filter]
      apply List.filter_congr
      intro r hr
      rw [Bool.eq_iff_iff, Bool.and_eq_true, Bool.not_eq_true']
      constructor
      · intro hreported
        obtain ⟨hlive, hnone⟩ := of_decide_eq_true hreported
        refine ⟨decide_eq_true ?_, hlive⟩
        intro hop
        obtain ⟨d, hd, hkey⟩ := hop
        exact hnone ⟨d, hd, hkey, h.row_lt _ r hr d hd⟩
      · intro hboth
        obtain ⟨hshown, hlive⟩ := hboth
        refine decide_eq_true ⟨hlive, ?_⟩
        intro hop
        obtain ⟨d, hd, hkey, -⟩ := hop
        exact of_decide_eq_true hshown ⟨d, hd, hkey⟩
    rw [visible, edgesFrom_eq, List.map_append, hfilter, List.map_map, List.map_map]
    rfl
  have hafter : (st'.visible n).Perm ((st.rowTargets n.index).dedup ++
      ((st.deltaPart n.index).map StoreEdgeRef.key).map keyTarget) := by
    have hperm := (visible_of_compacted hspec n).trans
      ((compacted_keys_perm h n.index).map keyTarget)
    rw [List.map_append, List.map_map] at hperm
    have hid : keyTarget ∘ (fun t : TargetKind => (⟨⟨n.index, 0⟩, t.target, t.kind⟩ : EdgeKey)) =
        id := rfl
    rw [hid, List.map_id] at hperm
    exact hperm
  have hcancel : (st'.visible n).Perm (st.visible n) ↔
      ((st.rowTargets n.index).dedup).Perm
        (((st.liveRow n.index).filter shown).map fun r => ⟨r.target, r.kind⟩) := by
    rw [hbefore]
    constructor
    · intro hperm
      exact (List.perm_append_right_iff _).mp (hafter.symm.trans hperm)
    · intro hperm
      exact hafter.trans (hperm.append_right _)
  have hsame : ∀ a ∈ st.liveRow n.index, ∀ b ∈ st.liveRow n.index,
      (⟨a.target, a.kind⟩ : TargetKind) = ⟨b.target, b.kind⟩ → shown a = shown b := by
    intro a _ b _ heq
    have ht : a.target = b.target := congrArg TargetKind.target heq
    have hk : a.kind = b.kind := congrArg TargetKind.kind heq
    simp only [shown, ht, hk]
  rw [hcancel, rowTargets, perm_dedup_iff hsame, Unrepeated]
  apply and_congr_right
  intro _
  apply forall_congr'
  intro r
  apply forall_congr'
  intro _
  simp only [shown, decide_eq_true_iff]
  constructor
  · intro hnone d hd hkey
    exact hnone ⟨d, hd, hkey⟩
  · intro hnone hop
    obtain ⟨d, hd, hkey⟩ := hop
    exact hnone d hd hkey

/-- One more compaction of a reachable store: it succeeds when everything fits, and then a
node sees the same edges as before exactly when the store repeats nothing for it. -/
theorem compact_preserves_visible_iff (ops : List StoreOp) (hops : ∀ op ∈ ops, op.HandedOut)
    (st : EdgeStore) (hrun : StepSystem.run EdgeStore.step EdgeStore.new ops = some st)
    (nodeCount : Nat) (hcovers : Covers st nodeCount) (direction : Direction) :
    (Compactable st nodeCount → ∃ st', st.compact nodeCount direction = some st') ∧
      ∀ st', st.compact nodeCount direction = some st' →
        ∀ n, (st'.visible n).Perm (st.visible n) ↔ st.Unrepeated n := by
  have hlayered := layered_of_run hops hrun
  refine ⟨fun h => exists_compact h direction, ?_⟩
  intro st' hcompact n
  exact visible_perm_iff hlayered (compact_spec hcovers hcompact) n

def addedTwice : List StoreOp :=
  [.addEdge ⟨0, 1⟩ ⟨1, 1⟩ .references 0, .compact 2, .addEdge ⟨0, 1⟩ ⟨1, 1⟩ .references 0]

theorem isSome_run_addedTwice :
    (StepSystem.run EdgeStore.step EdgeStore.new addedTwice).isSome = true := by
  decide

theorem compact_preserves_visible_addedTwice :
    ∃ st, StepSystem.run EdgeStore.step EdgeStore.new addedTwice = some st ∧ Covers st 2 ∧
      ∀ st', st.compact 2 .forward = some st' →
        ∀ n, (st'.visible n).Perm (st.visible n) ↔ st.Unrepeated n := by
  have hrun := (Option.some_get isSome_run_addedTwice).symm
  have hcovers : Covers (Option.get _ isSome_run_addedTwice) 2 := by decide
  refine ⟨_, hrun, hcovers, ?_⟩
  have hops : ∀ op ∈ addedTwice, op.HandedOut := by
    intro op hop
    simp only [addedTwice, List.mem_cons, List.not_mem_nil, or_false] at hop
    rcases hop with rfl | rfl | rfl
    · exact ⟨Nat.le_refl 1, Nat.le_refl 1⟩
    · trivial
    · exact ⟨Nat.le_refl 1, Nat.le_refl 1⟩
  exact (compact_preserves_visible_iff addedTwice hops _ hrun 2 hcovers .forward).2

theorem isSome_compact_addedTwice :
    ((Option.get _ isSome_run_addedTwice).compact 2 .forward).isSome = true := by
  decide

/-- The edge is seen once before the next compaction and twice after it. -/
theorem addedTwice_duplicated :
    ∃ st st', StepSystem.run EdgeStore.step EdgeStore.new addedTwice = some st ∧
      Covers st 2 ∧ st.compact 2 .forward = some st' ∧
        ¬ (st'.visible ⟨0, 1⟩).Perm (st.visible ⟨0, 1⟩) := by
  have hrun := (Option.some_get isSome_run_addedTwice).symm
  have hcompact := (Option.some_get isSome_compact_addedTwice).symm
  refine ⟨_, _, hrun, by decide, hcompact, ?_⟩
  intro hperm
  have hbefore : ((Option.get _ isSome_run_addedTwice).visible ⟨0, 1⟩).length = 1 := by decide
  have hafter : ((Option.get _ isSome_compact_addedTwice).visible ⟨0, 1⟩).length = 2 := by
    decide
  have hlen := hperm.length_eq
  rw [hbefore, hafter] at hlen
  cases hlen

end View

end EdgeStore
end Sqry
