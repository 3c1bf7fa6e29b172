import Mathlib.Data.List.Dedup
import Mathlib.Data.List.Induction
import Sqry.Edge.Writers

/-!
Runs of `add_edge` and `remove_edge` on a fresh store. The sequence number of a delta
operation is the position of its call, so the latest operation on a key is its last call,
and a row entry is tombstoned when some removal found it first in its row.
-/

namespace Sqry

structure EdgeCall where
  source : NodeId
  target : NodeId
  kind : EdgeKind
  op : DeltaOp
  file : FileId
  deriving DecidableEq

namespace EdgeCall

def edgeKey (c : EdgeCall) : EdgeKey := ⟨c.source, c.target, c.kind⟩

def apply (st : EdgeStore) (c : EdgeCall) : EdgeStore :=
  match c.op with
  | .add => st.addEdge c.source c.target c.kind c.file
  | .remove => st.removeEdge c.source c.target c.kind c.file

def toDelta (c : EdgeCall) (position : Nat) : DeltaEdge :=
  DeltaEdge.new c.source c.target c.kind position c.op c.file

end EdgeCall

namespace EdgeStore

def runCalls (st : EdgeStore) (calls : List EdgeCall) : EdgeStore :=
  calls.foldl EdgeCall.apply st

def lastCall (calls : List EdgeCall) (key : EdgeKey) : Option (EdgeCall × Nat) :=
  (calls.zipIdx.filter fun c => c.1.edgeKey = key).getLast?

structure SameUpToOrder (st st' : EdgeStore) : Prop where
  csr_eq : st'.csr = st.csr
  tombstones_eq : st'.csrTombstones = st.csrTombstones
  edges_perm : st'.delta.edges.entries.Perm st.delta.edges.entries

theorem SameUpToOrder.iter_perm {st st' : EdgeStore} (h : st.SameUpToOrder st') :
    st'.delta.iter.Perm st.delta.iter := Buckets.all_perm h.edges_perm

section Runs

theorem lastCall_concat (calls : List EdgeCall) (c : EdgeCall) (key : EdgeKey) :
    lastCall (calls ++ [c]) key =
      if c.edgeKey = key then some (c, calls.length) else lastCall calls key := by
  rw [lastCall, List.zipIdx_append, List.filter_append]
  by_cases hkey : c.edgeKey = key
  · simp [hkey]
  · simp [hkey, lastCall]

theorem exists_lastCall {calls : List EdgeCall} {c : EdgeCall} (hc : c ∈ calls) :
    ∃ p, lastCall calls c.edgeKey = some p ∧ p.1.edgeKey = c.edgeKey := by
  induction calls using List.reverseRecOn with
  | nil => cases hc
  | append_singleton calls d ih =>
    rw [lastCall_concat]
    by_cases hkey : d.edgeKey = c.edgeKey
    · rw [if_pos hkey]
      exact ⟨_, rfl, hkey⟩
    · rw [if_neg hkey]
      cases List.mem_append.mp hc with
      | inl hin => exact ih hin
      | inr hin => exact absurd (List.mem_singleton.mp hin ▸ rfl) hkey

theorem lastCall_edgeKey {calls : List EdgeCall} {key : EdgeKey} {p : EdgeCall × Nat}
    (h : lastCall calls key = some p) : p.1.edgeKey = key := by
  have hmem := List.mem_of_getLast? h
  simpa using (List.mem_filter.mp hmem).2

theorem apply_delta (st : EdgeStore) (c : EdgeCall) :
    (c.apply st).delta = st.delta.issue c.toDelta := by
  rw [EdgeCall.apply, DeltaBuffer.issue, EdgeCall.toDelta]
  cases hop : c.op with
  | add => rfl
  | remove => exact st.delta_removeEdge c.source c.target c.kind c.file

theorem apply_csr (st : EdgeStore) (c : EdgeCall) : (c.apply st).csr = st.csr := by
  rw [EdgeCall.apply]
  cases c.op with
  | add => rfl
  | remove => exact st.csr_removeEdge c.source c.target c.kind c.file

theorem runCalls_concat (st : EdgeStore) (calls : List EdgeCall) (c : EdgeCall) :
    st.runCalls (calls ++ [c]) = c.apply (st.runCalls calls) := by
  rw [runCalls, List.foldl_append]
  rfl

theorem runCalls_csr (st : EdgeStore) (calls : List EdgeCall) :
    (st.runCalls calls).csr = st.csr := by
  induction calls using List.reverseRecOn with
  | nil => rfl
  | append_singleton calls c ih => rw [runCalls_concat, apply_csr, ih]

theorem runCalls_numbered {st : EdgeStore} (hdelta : st.delta = DeltaBuffer.new)
    (calls : List EdgeCall) :
    (st.runCalls calls).delta.seqCounter = calls.length ∧
      (st.runCalls calls).delta.Numbered := by
  induction calls using List.reverseRecOn with
  | nil =>
    rw [runCalls, List.foldl_nil, hdelta]
    exact ⟨rfl, DeltaBuffer.numbered_of_empty rfl⟩
  | append_singleton calls c ih =>
    rw [runCalls_concat, apply_delta, DeltaBuffer.seqCounter_issue, ih.1]
    exact ⟨by simp, ih.2.issue rfl⟩

theorem latest_runCalls {st : EdgeStore} (hdelta : st.delta = DeltaBuffer.new)
    (calls : List EdgeCall) (key : EdgeKey) :
    latest (st.runCalls calls).delta.iter key =
      (lastCall calls key).map fun p => p.1.toDelta p.2 := by
  induction calls using List.reverseRecOn with
  | nil =>
    rw [runCalls, List.foldl_nil, hdelta]
    rfl
  | append_singleton calls c ih =>
    obtain ⟨hseq, hnumbered⟩ := runCalls_numbered hdelta calls
    have hkey : (c.toDelta (st.runCalls calls).delta.seqCounter).edgeKey = c.edgeKey := rfl
    rw [runCalls_concat, apply_delta, hnumbered.latest_issue rfl, hkey, ih, lastCall_concat, hseq]
    split <;> rfl

end Runs

section Tombstones

def FindsFirst (st : EdgeStore) (c : EdgeCall) (index : Nat) : Prop :=
  c.op = .remove ∧
    (st.rowMatches c.source c.target c.kind).head?.map EdgeRef.index = some index

instance (st : EdgeStore) (c : EdgeCall) (index : Nat) : Decidable (st.FindsFirst c index) :=
  inferInstanceAs (Decidable (_ ∧ _))

def HitByRemove (st : EdgeStore) (calls : List EdgeCall) (index : Nat) : Prop :=
  index < st.csrTombstones.length ∧ ∃ c ∈ calls, st.FindsFirst c index

instance (st : EdgeStore) (calls : List EdgeCall) (index : Nat) :
    Decidable (st.HitByRemove calls index) :=
  inferInstanceAs (Decidable (_ ∧ _))

theorem apply_tombstones (st : EdgeStore) (c : EdgeCall) (index : Nat) :
    (c.apply st).csrTombstones.length = st.csrTombstones.length ∧
      ((c.apply st).isEdgeTombstoned index = true ↔
        st.isEdgeTombstoned index = true ∨
          (index < st.csrTombstones.length ∧ st.FindsFirst c index)) := by
  cases hop : c.op with
  | add =>
    have hsame : (c.apply st).csrTombstones = st.csrTombstones := by
      rw [EdgeCall.apply, hop]
      rfl
    simp [isEdgeTombstoned, hsame, FindsFirst, hop]
  | remove =>
    have htomb : (c.apply st).csrTombstones =
        (st.tombstoneCsrEdge c.source c.target c.kind).csrTombstones := by
      rw [EdgeCall.apply, hop]
      rfl
    refine ⟨by rw [htomb, tombstoneCsrEdge_length], ?_⟩
    rw [isEdgeTombstoned, htomb, ← isEdgeTombstoned, isEdgeTombstoned_tombstoneCsrEdge,
      FindsFirst]
    simp only [hop, true_and]

theorem rowMatches_runCalls (st : EdgeStore) (calls : List EdgeCall) (source target : NodeId)
    (kind : EdgeKind) :
    (st.runCalls calls).rowMatches source target kind = st.rowMatches source target kind := by
  rw [rowMatches, rowMatches, csrEdgesOf, csrEdgesOf, runCalls_csr]

theorem runCalls_tombstones (st : EdgeStore) (hfresh : ∀ i, st.isEdgeTombstoned i = false)
    (calls : List EdgeCall) (index : Nat) :
    (st.runCalls calls).csrTombstones.length = st.csrTombstones.length ∧
      ((st.runCalls calls).isEdgeTombstoned index = true ↔ st.HitByRemove calls index) := by
  induction calls using List.reverseRecOn with
  | nil =>
    refine ⟨rfl, ?_⟩
    rw [runCalls, List.foldl_nil, hfresh]
    simp [HitByRemove]
  | append_singleton calls c ih =>
    obtain ⟨hlen, htomb⟩ := ih
    obtain ⟨hlen', htomb'⟩ := apply_tombstones (st.runCalls calls) c index
    rw [runCalls_concat]
    refine ⟨hlen'.trans hlen, ?_⟩
    have hfinds : (st.runCalls calls).FindsFirst c index ↔ st.FindsFirst c index := by
      rw [FindsFirst, FindsFirst, rowMatches_runCalls]
    rw [htomb', htomb, hlen, hfinds]
    simp only [HitByRemove, List.mem_append, List.mem_singleton]
    constructor
    · rintro (⟨hlt, d, hd, hfound⟩ | ⟨hlt, hfound⟩)
      · exact ⟨hlt, d, .inl hd, hfound⟩
      · exact ⟨hlt, c, .inr rfl, hfound⟩
    · rintro ⟨hlt, d, hd | rfl, hfound⟩
      · exact .inl ⟨hlt, d, hd, hfound⟩
      · exact .inr ⟨hlt, hfound⟩

end Tombstones

section Visibility

inductive Fresh : EdgeStore → Prop where
  | new : Fresh EdgeStore.new
  | withCsr (csr : CsrGraph) : Fresh (EdgeStore.withCsr csr)

theorem Fresh.delta_eq {st : EdgeStore} (h : st.Fresh) : st.delta = DeltaBuffer.new := by
  cases h <;> rfl

theorem Fresh.not_tombstoned {st : EdgeStore} (h : st.Fresh) (i : Nat) :
    st.isEdgeTombstoned i = false := by
  cases h with
  | new => rfl
  | withCsr csr =>
    show (List.replicate csr.edgeCount false).getD i false = false
    rw [List.getD_eq_getElem?_getD, List.getElem?_replicate]
    split <;> rfl

/-- The entries with this target and kind that `edges_from` returns. -/
def entriesFrom (st : EdgeStore) (source target : NodeId) (kind : EdgeKind) :
    List StoreEdgeRef :=
  (st.edgesFrom source).filter fun x => x.target = target && x.kind = kind

/-- Row entries numbered at least `q` that no removal has hit. -/
def survivors (st : EdgeStore) (calls : List EdgeCall) (source target : NodeId)
    (kind : EdgeKind) (q : Nat) : List EdgeRef :=
  (st.rowMatches source target kind).filter fun r =>
    q ≤ r.seq ∧ ¬ st.HitByRemove calls r.index

def addedAbove (st : EdgeStore) (calls : List EdgeCall) (target : NodeId) (kind : EdgeKind)
    (source : NodeId) : Bool :=
  match lastCall calls ⟨source, target, kind⟩ with
  | none => false
  | some (c, q) =>
    c.op = .add && (st.rowMatches source target kind).all fun r => r.seq < q

/-- Other generations of the slot of `source` from which the same edge was last added. -/
def rivals (st : EdgeStore) (calls : List EdgeCall) (source target : NodeId)
    (kind : EdgeKind) : List NodeId :=
  ((calls.map EdgeCall.source).dedup.filter fun other =>
    other ≠ source ∧ other.index = source.index).filter fun other =>
      st.addedAbove calls target kind other

structure AfterCalls (st : EdgeStore) (calls : List EdgeCall) (st' : EdgeStore) : Prop where
  csrEdgesOf_eq : ∀ i, st'.csrEdgesOf i = st.csrEdgesOf i
  tombstoned_iff : ∀ i, st'.isEdgeTombstoned i = true ↔ st.HitByRemove calls i
  latest_eq : ∀ key, latest st'.delta.iter key =
    (lastCall calls key).map fun p => p.1.toDelta p.2

variable {calls : List EdgeCall} {st st' : EdgeStore} {kind : EdgeKind} {c : EdgeCall}

theorem Fresh.afterCalls (h : st.Fresh) (horder : (st.runCalls calls).SameUpToOrder st')
    : st.AfterCalls calls st' := by
  refine ⟨fun i => ?_, fun i => ?_, fun key => ?_⟩
  · rw [csrEdgesOf, csrEdgesOf, horder.csr_eq, runCalls_csr]
  · rw [isEdgeTombstoned, horder.tombstones_eq]
    exact (runCalls_tombstones st h.not_tombstoned calls i).2
  · rw [(runCalls_numbered h.delta_eq calls).2.latest_perm horder.iter_perm]
    exact latest_runCalls h.delta_eq calls key

theorem AfterCalls.reported_iff (h : st.AfterCalls calls st') {source : NodeId} {r : EdgeRef}
    {q : Nat} (hlast : lastCall calls ⟨source, r.target, r.kind⟩ = some (c, q)) :
    st'.Reported source r ↔ q ≤ r.seq ∧ ¬ st.HitByRemove calls r.index := by
  have hlatest := h.latest_eq ⟨source, r.target, r.kind⟩
  rw [hlast, Option.map_some] at hlatest
  obtain ⟨hmem, hkey, hmax⟩ := latest_spec hlatest
  have hseq : (c.toDelta q).seq = q := rfl
  rw [Reported, ← Bool.not_eq_true, h.tombstoned_iff, and_comm]
  apply and_congr_left
  intro _
  constructor
  · intro hnone
    exact Nat.le_of_not_lt fun hlt => hnone ⟨c.toDelta q, hmem, hkey, hlt⟩
  · rintro hle ⟨d, hd, hdkey, hlt⟩
    have hdq := hmax d hd hdkey
    rw [hseq] at hdq
    exact Nat.not_lt_of_le (Nat.le_trans hdq hle) hlt

theorem AfterCalls.rowEntries_eq (h : st.AfterCalls calls st') {source target : NodeId} {q : Nat}
    (hlast : lastCall calls ⟨source, target, kind⟩ = some (c, q)) :
    ((((st'.csrEdgesOf source.index).filter fun r => st'.Reported source r).map
      (csrEdgeRef source)).filter fun x => x.target = target && x.kind = kind).length =
      (st.survivors calls source target kind q).length := by
  rw [List.filter_map, List.length_map, List.filter_filter, survivors, rowMatches,
    List.filter_filter, h.csrEdgesOf_eq]
  congr 1
  apply List.filter_congr
  intro r _
  rw [Bool.eq_iff_iff]
  simp only [Function.comp_apply, csrEdgeRef, Bool.and_eq_true]
  constructor
  · rintro ⟨⟨ht, hk⟩, hreported⟩
    cases of_decide_eq_true ht
    cases of_decide_eq_true hk
    have hsurvives := (h.reported_iff hlast).mp (of_decide_eq_true hreported)
    exact ⟨decide_eq_true hsurvives, ht, hk⟩
  · rintro ⟨hsurvives, ht, hk⟩
    cases of_decide_eq_true ht
    cases of_decide_eq_true hk
    have hreported := (h.reported_iff hlast).mpr (of_decide_eq_true hsurvives)
    exact ⟨⟨ht, hk⟩, decide_eq_true hreported⟩

theorem addedAbove_iff {st : EdgeStore} {target source : NodeId}
    : st.addedAbove calls target kind source = true ↔
      ∃ c q, lastCall calls ⟨source, target, kind⟩ = some (c, q) ∧ c.op = .add ∧
        ∀ r ∈ st.rowMatches source target kind, r.seq < q := by
  rw [addedAbove]
  cases lastCall calls ⟨source, target, kind⟩ with
  | none => simp
  | some p =>
    obtain ⟨c, q⟩ := p
    simp only [Bool.and_eq_true, decide_eq_true_eq, List.all_eq_true, Option.some.injEq,
      Prod.mk.injEq]
    constructor
    · rintro ⟨hadd, hall⟩
      exact ⟨c, q, ⟨rfl, rfl⟩, hadd, hall⟩
    · rintro ⟨c', q', ⟨rfl, rfl⟩, hadd, hall⟩
      exact ⟨hadd, hall⟩

theorem AfterCalls.mem_deltaSources (h : st.AfterCalls calls st') {i : Nat}
    {target other : NodeId} :
    other ∈ ((st'.deltaPart i).filter fun x => x.target = target && x.kind = kind).map
        StoreEdgeRef.source ↔
      other.index = i ∧ st.addedAbove calls target kind other = true := by
  rw [List.mem_map, addedAbove_iff]
  constructor
  · rintro ⟨x, hx, rfl⟩
    obtain ⟨hpart, htk⟩ := List.mem_filter.mp hx
    obtain ⟨w, hsource, hlatest, hadd, habove, rfl⟩ := mem_deltaPart.mp hpart
    rw [Bool.and_eq_true] at htk
    cases of_decide_eq_true htk.1
    cases of_decide_eq_true htk.2
    rw [h.latest_eq, Option.map_eq_some_iff] at hlatest
    obtain ⟨⟨c, q⟩, hlast, rfl⟩ := hlatest
    refine ⟨hsource, c, q, hlast, of_decide_eq_true hadd, fun r hr => ?_⟩
    obtain ⟨hrow, ht, hk⟩ := mem_rowMatches.mp hr
    exact habove r (by rw [h.csrEdgesOf_eq, ← hsource]; exact hrow) ht hk
  · rintro ⟨hindex, c, q, hlast, hadd, habove⟩
    have hkey := lastCall_edgeKey hlast
    have hlatest := h.latest_eq ⟨other, target, kind⟩
    rw [hlast, Option.map_some] at hlatest
    have hw : (c.toDelta q).edgeKey = ⟨other, target, kind⟩ := hkey
    have hsource : (c.toDelta q).source = other := congrArg EdgeKey.source hw
    have htarget : (c.toDelta q).target = target := congrArg EdgeKey.target hw
    have hkind : (c.toDelta q).kind = kind := congrArg EdgeKey.kind hw
    refine ⟨(c.toDelta q).toRef, List.mem_filter.mpr ⟨mem_deltaPart.mpr
      ⟨c.toDelta q, by rw [hsource, hindex], by rw [hw]; exact hlatest, decide_eq_true hadd,
        fun r hr ht hk => ?_, rfl⟩, ?_⟩, hsource⟩
    · apply habove r
      rw [mem_rowMatches, hindex, ← h.csrEdgesOf_eq]
      exact ⟨hr, ht.trans htarget, hk.trans hkind⟩
    · simp only [DeltaEdge.toRef, htarget, hkind, decide_true, Bool.and_self]

theorem nodup_deltaSources (st : EdgeStore) (i : Nat) (target : NodeId) (kind : EdgeKind) :
    (((st.deltaPart i).filter fun x => x.target = target && x.kind = kind).map
      StoreEdgeRef.source).Nodup := by
  have hkeys : (((st.deltaPart i).filter fun x => x.target = target && x.kind = kind).map
      StoreEdgeRef.key).Nodup :=
    (st.nodup_keys_deltaPart i).sublist (List.filter_sublist.map _)
  have hsame : ((st.deltaPart i).filter fun x => x.target = target && x.kind = kind).map
      StoreEdgeRef.key =
        (((st.deltaPart i).filter fun x => x.target = target && x.kind = kind).map
          StoreEdgeRef.source).map fun source => ⟨source, target, kind⟩ := by
    rw [List.map_map]
    apply List.map_congr_left
    intro x hx
    obtain ⟨ht, hk⟩ : x.target = target ∧ x.kind = kind := by
      simpa using (List.mem_filter.mp hx).2
    rw [StoreEdgeRef.key, ht, hk]
    rfl
  rw [hsame] at hkeys
  exact hkeys.of_map _

theorem mem_rivals {st : EdgeStore} {source target other : NodeId}
    : other ∈ st.rivals calls source target kind ↔
      other ≠ source ∧ other.index = source.index ∧
        st.addedAbove calls target kind other = true := by
  simp only [rivals, List.mem_filter, List.mem_dedup, List.mem_map, decide_eq_true_eq]
  constructor
  · rintro ⟨⟨-, hne, hindex⟩, hadded⟩
    exact ⟨hne, hindex, hadded⟩
  · rintro ⟨hne, hindex, hadded⟩
    obtain ⟨c, q, hlast, -, -⟩ := addedAbove_iff.mp hadded
    have hmem := (List.mem_filter.mp (List.mem_of_getLast? hlast)).1
    have hcall : c ∈ calls := by
      obtain ⟨n, hn⟩ := List.mem_iff_getElem?.mp hmem
      rw [List.getElem?_zipIdx, Option.map_eq_some_iff] at hn
      obtain ⟨d, hd, heq⟩ := hn
      cases heq
      exact List.mem_of_getElem? hd
    exact ⟨⟨⟨c, hcall, congrArg EdgeKey.source (lastCall_edgeKey hlast)⟩, hne, hindex⟩, hadded⟩

theorem AfterCalls.deltaEntries_length (h : st.AfterCalls calls st') (source target : NodeId)
    (kind : EdgeKind) :
    ((st'.deltaPart source.index).filter fun x => x.target = target && x.kind = kind).length =
      (if st.addedAbove calls target kind source = true then 1 else 0) +
        (st.rivals calls source target kind).length := by
  have hown : source ∉ st.rivals calls source target kind := fun hin =>
    (mem_rivals.mp hin).1 rfl
  have hrivals : (st.rivals calls source target kind).Nodup :=
    ((List.nodup_dedup _).filter _).filter _
  have hsources := st'.nodup_deltaSources source.index target kind
  rw [← List.length_map (f := StoreEdgeRef.source)]
  by_cases hadded : st.addedAbove calls target kind source = true
  · rw [if_pos hadded, Nat.add_comm, ← List.length_cons (a := source)]
    apply List.Perm.length_eq
    rw [List.perm_ext_iff_of_nodup hsources (List.nodup_cons.mpr ⟨hown, hrivals⟩)]
    intro other
    rw [h.mem_deltaSources, List.mem_cons, mem_rivals]
    by_cases hother : other = source
    · simp [hother, hadded]
    · simp [hother]
  · rw [if_neg hadded, Nat.zero_add]
    apply List.Perm.length_eq
    rw [List.perm_ext_iff_of_nodup hsources hrivals]
    intro other
    rw [h.mem_deltaSources, mem_rivals]
    by_cases hother : other = source
    · simp [hother, hadded]
    · simp [hother]

theorem AfterCalls.entriesFrom_length (h : st.AfterCalls calls st') {source target : NodeId}
    {q : Nat} (hlast : lastCall calls ⟨source, target, kind⟩ = some (c, q)) :
    (st'.entriesFrom source target kind).length =
      (st.survivors calls source target kind q).length +
        ((if st.addedAbove calls target kind source = true then 1 else 0) +
          (st.rivals calls source target kind).length) := by
  rw [entriesFrom, edgesFrom_eq, List.filter_append, List.length_append,
    h.rowEntries_eq hlast, h.deltaEntries_length]

/-- When exactly one entry is visible after an addition, and not exactly one after a
removal: the row entries that outrank the last call and the rivals of the source decide. -/
def VisibleRight (st : EdgeStore) (calls : List EdgeCall) (source target : NodeId)
    (kind : EdgeKind) : Prop :=
  match lastCall calls ⟨source, target, kind⟩ with
  | none => True
  | some (c, q) =>
    let others := (st.survivors calls source target kind q).length +
      (st.rivals calls source target kind).length
    if c.op = .add ∧ ∀ r ∈ st.rowMatches source target kind, r.seq < q then others = 0
    else if c.op = .add then others = 1
    else others ≠ 1

/-- The readers and the last call agree on a key exactly when `VisibleRight` holds. -/
theorem hasEdge_edgesFrom_lastCall_iff (st : EdgeStore) (hfresh : st.Fresh)
    (calls : List EdgeCall) (st' : EdgeStore) (horder : (st.runCalls calls).SameUpToOrder st')
    (c : EdgeCall) (hc : c ∈ calls) :
    ((st'.hasEdge c.source c.target c.kind = true ↔
        (st'.entriesFrom c.source c.target c.kind).length = 1) ∧
      (st'.hasEdge c.source c.target c.kind = true ↔
        ∃ last, lastCall calls c.edgeKey = some last ∧ last.1.op = .add)) ↔
      st.VisibleRight calls c.source c.target c.kind := by
  have hafter := hfresh.afterCalls horder
  obtain ⟨⟨d, q⟩, hlast, -⟩ := exists_lastCall hc
  have hlast' : lastCall calls ⟨c.source, c.target, c.kind⟩ = some (d, q) := hlast
  have hlatest := hafter.latest_eq ⟨c.source, c.target, c.kind⟩
  rw [hlast', Option.map_some] at hlatest
  have hhas : st'.hasEdge c.source c.target c.kind = true ↔ d.op = .add := by
    rw [hasEdge_eq_of_latest hlatest]
    exact decide_eq_true_iff
  have hcalls : (∃ last, lastCall calls c.edgeKey = some last ∧ last.1.op = .add) ↔
      d.op = .add := by
    rw [hlast]
    simp
  have hadded : st.addedAbove calls c.target c.kind c.source = true ↔
      d.op = .add ∧ ∀ r ∈ st.rowMatches c.source c.target c.kind, r.seq < q := by
    rw [addedAbove_iff, hlast']
    constructor
    · rintro ⟨c', q', heq, hadd, habove⟩
      cases heq
      exact ⟨hadd, habove⟩
    · rintro ⟨hadd, habove⟩
      exact ⟨d, q, rfl, hadd, habove⟩
  rw [hhas, hcalls, hafter.entriesFrom_length hlast', VisibleRight, hlast']
  simp only [and_true]
  by_cases habove : d.op = .add ∧ ∀ r ∈ st.rowMatches c.source c.target c.kind, r.seq < q
  · rw [if_pos habove, if_pos (hadded.mpr habove)]
    simp only [habove.1, true_iff]
    omega
  · rw [if_neg habove, if_neg (fun h => habove (hadded.mp h))]
    by_cases hadd : d.op = .add
    · simp only [hadd, if_true, true_iff]
      omega
    · simp only [hadd, if_false, false_iff]
      omega

def oneEdgeCsr (seq : Nat) : CsrGraph := ⟨2, [0, 1, 1], [⟨1, 1⟩], [.references], [seq], [[]]⟩

def removedThenAdded : List EdgeCall :=
  [⟨⟨0, 1⟩, ⟨1, 1⟩, .references, .remove, 0⟩, ⟨⟨0, 1⟩, ⟨1, 1⟩, .references, .add, 0⟩]

theorem hasEdge_edgesFrom_lastCall_removedThenAdded :
    (((withCsr (oneEdgeCsr 0)).runCalls removedThenAdded).hasEdge ⟨0, 1⟩ ⟨1, 1⟩ .references =
        true ↔
      (((withCsr (oneEdgeCsr 0)).runCalls removedThenAdded).entriesFrom ⟨0, 1⟩ ⟨1, 1⟩
        .references).length = 1) ∧
    (((withCsr (oneEdgeCsr 0)).runCalls removedThenAdded).hasEdge ⟨0, 1⟩ ⟨1, 1⟩ .references =
        true ↔
      ∃ last, lastCall removedThenAdded ⟨⟨0, 1⟩, ⟨1, 1⟩, .references⟩ = some last ∧
        last.1.op = .add) := by
  have hlast : lastCall removedThenAdded ⟨⟨0, 1⟩, ⟨1, 1⟩, .references⟩ =
      some (⟨⟨0, 1⟩, ⟨1, 1⟩, .references, .add, 0⟩, 1) := by decide
  refine (hasEdge_edgesFrom_lastCall_iff (withCsr (oneEdgeCsr 0)) (.withCsr _) removedThenAdded
    _ ⟨rfl, rfl, List.Perm.refl _⟩ ⟨⟨0, 1⟩, ⟨1, 1⟩, .references, .add, 0⟩ (by decide)).mpr ?_
  rw [VisibleRight, hlast]
  decide

/-- The row entry has number 1, and so has the addition: the edge exists and is not listed. -/
theorem removedThenAdded_not_listed :
    ((withCsr (oneEdgeCsr 1)).runCalls removedThenAdded).hasEdge ⟨0, 1⟩ ⟨1, 1⟩ .references =
        true ∧
      ¬ (((withCsr (oneEdgeCsr 1)).runCalls removedThenAdded).hasEdge ⟨0, 1⟩ ⟨1, 1⟩ .references =
          true ↔
        (((withCsr (oneEdgeCsr 1)).runCalls removedThenAdded).entriesFrom ⟨0, 1⟩ ⟨1, 1⟩
          .references).length = 1) := by
  decide

end Visibility
end EdgeStore
end Sqry
