import Sqry.Db.Memo
import Mathlib.Data.List.Count

/-!
When memoisation is transparent. A stored result is as good as a new one while everything
it was computed from reads the same. The table can only tell for what was recorded: a
nested call that hits leaves nothing in the scope of its caller, and a global revision
that only the callee tracks is not stored with the caller.
-/

namespace Sqry

open StepSystem (run RunOk)

variable {Key Value Content Edges Metadata : Type}

/-- The body reads only files from `files`, and the edges or the metadata only where that
is allowed. -/
def Exec.Declared (files : FileId → Prop) (edges metadata : Prop) :
    Exec Key Value Content Edges Metadata → Prop
  | .done _ => True
  | .readFile file next => files file ∧ ∀ c, (next c).Declared files edges metadata
  | .readEdges next => edges ∧ ∀ e, (next e).Declared files edges metadata
  | .readMetadata next => metadata ∧ ∀ m, (next m).Declared files edges metadata
  | .get _ next => ∀ v, (next v).Declared files edges metadata

def QueryFamily.Declared (fam : QueryFamily Key Value Content Edges Metadata)
    (inputs : FileInputStore) : Prop :=
  ∀ key, (fam.execute key).Declared (fun f => f ≠ FileId.INVALID ∧ inputs.revision f ≠ none)
    (fam.tracksEdgeRevision key = true) (fam.tracksMetadataRevision key = true)

/-- The two snapshots read the same on the files, and on the edges and the metadata where
these matter. -/
structure QuerySnapshot.Agrees (files : FileId → Prop) (edges metadata : Bool)
    (w w' : QuerySnapshot Content Edges Metadata) : Prop where
  contents_eq : ∀ f, files f → w'.contents f = w.contents f
  edges_eq : edges = true → w'.edges = w.edges
  metadata_eq : metadata = true → w'.metadata = w.metadata

namespace QueryFamily

variable (fam : QueryFamily Key Value Content Edges Metadata)

section Recompute

variable {fam}

theorem recomputeExec_mono {r r' : Key → Option Value} (h : ∀ k v, r k = some v → r' k = some v)
    (w : QuerySnapshot Content Edges Metadata) (e : Exec Key Value Content Edges Metadata)
    {v : Value} (hrun : recomputeExec r w e = some v) : recomputeExec r' w e = some v := by
  induction e with
  | done value => exact hrun
  | readFile file next ih => exact ih _ hrun
  | readEdges next ih => exact ih _ hrun
  | readMetadata next ih => exact ih _ hrun
  | get key next ih =>
    rw [recomputeExec] at hrun ⊢
    cases hkey : r key with
    | none =>
      rw [hkey] at hrun
      cases hrun
    | some value =>
      rw [hkey] at hrun
      rw [h key value hkey]
      exact ih value hrun

theorem recompute_succ {n : Nat} {w : QuerySnapshot Content Edges Metadata} {key : Key}
    {v : Value} (h : fam.recompute n w key = some v) : fam.recompute (n + 1) w key = some v := by
  induction n generalizing key v with
  | zero => cases h
  | succ n ih => exact recomputeExec_mono (fun _ _ hk => ih hk) w _ h

theorem recompute_mono {n m : Nat} (hle : n ≤ m) {w : QuerySnapshot Content Edges Metadata}
    {key : Key} {v : Value} (h : fam.recompute n w key = some v) :
    fam.recompute m w key = some v := by
  induction hle with
  | refl => exact h
  | step _ ih => exact recompute_succ ih

theorem recompute_unique {n m : Nat} {w : QuerySnapshot Content Edges Metadata} {key : Key}
    {v v' : Value} (h : fam.recompute n w key = some v) (h' : fam.recompute m w key = some v') :
    v = v' := by
  have hleft := recompute_mono (Nat.le_max_left n m) h
  have hright := recompute_mono (Nat.le_max_right n m) h'
  exact Option.some.inj (hleft.symm.trans hright)

end Recompute

variable [DecidableEq Key]

def hitFiles (db : QueryDb Key Value Content Edges Metadata) (key : Key) : List FileId :=
  match fam.getIfValid db key with
  | some cached => cached.fileDeps.map Prod.fst
  | none => []

def current (db : QueryDb Key Value Content Edges Metadata) : List FileId :=
  db.recorder.fileDeps.headD []

/-- The body of `caller` takes over what its nested calls depend on: it tracks the tiers
they track, and the files of a result that was a hit are recorded by the time it ends. -/
def InheritsExec (get : QueryDb Key Value Content Edges Metadata → Key →
      Option (Value × QueryDb Key Value Content Edges Metadata))
    (inherits : QueryDb Key Value Content Edges Metadata → Key → Prop) (caller : Key) :
    QueryDb Key Value Content Edges Metadata → List FileId →
      Exec Key Value Content Edges Metadata → Prop
  | db, owed, .done _ => ∀ f ∈ owed, f ∈ current db
  | db, owed, .readFile file next =>
    InheritsExec get inherits caller (db.recordFileDep file) owed
      (next (db.snapshot.contents file))
  | db, owed, .readEdges next => InheritsExec get inherits caller db owed (next db.snapshot.edges)
  | db, owed, .readMetadata next =>
    InheritsExec get inherits caller db owed (next db.snapshot.metadata)
  | db, owed, .get key next =>
    (fam.tracksEdgeRevision key = true → fam.tracksEdgeRevision caller = true) ∧
      (fam.tracksMetadataRevision key = true → fam.tracksMetadataRevision caller = true) ∧
      inherits db key ∧
      ∀ v db', get db key = some (v, db') →
        InheritsExec get inherits caller db' (owed ++ fam.hitFiles db key) (next v)

def Inherits : Nat → QueryDb Key Value Content Edges Metadata → Key → Prop
  | 0, _, _ => True
  | n + 1, db, key =>
    fam.getIfValid db key = none →
      fam.InheritsExec (fam.get n) (Inherits n) key db.enter [] (fam.execute key)

end QueryFamily

section Invariant

/-- The value is what the key has on every snapshot that agrees with `w`. -/
def QueryFamily.Determined (fam : QueryFamily Key Value Content Edges Metadata) (key : Key)
    (v : Value) (files : FileId → Prop) (w : QuerySnapshot Content Edges Metadata) : Prop :=
  ∀ w', w.Agrees files (fam.tracksEdgeRevision key) (fam.tracksMetadataRevision key) w' →
    ∃ n, fam.recompute n w' key = some v

def TierKept {α : Type} (cached : Option Nat) (current : Nat) (before now : α) : Prop :=
  ∀ r, cached = some r → r ≤ current ∧ (r = current → now = before)

/-- What is known about a stored result: it was determined by the files it names, and where
their revisions and the stored tiers have not moved, nothing has changed. -/
structure QueryFamily.EntryOk (fam : QueryFamily Key Value Content Edges Metadata)
    (db : QueryDb Key Value Content Edges Metadata) (key : Key) (cached : CachedResult Value)
    (w : QuerySnapshot Content Edges Metadata) : Prop where
  determined : fam.Determined key cached.value (fun f => f ∈ cached.fileDeps.map Prod.fst) w
  files_kept : ∀ dep ∈ cached.fileDeps, ∀ r, db.inputs.revision dep.1 = some r →
    dep.2 ≤ r ∧ (dep.2 = r → db.snapshot.contents dep.1 = w.contents dep.1)
  edges_kept : TierKept cached.edgeRevision db.edgeRevision w.edges db.snapshot.edges
  metadata_kept : TierKept cached.metadataRevision db.metadataRevision w.metadata
    db.snapshot.metadata

variable [DecidableEq Key]

def QueryFamily.CacheOk (fam : QueryFamily Key Value Content Edges Metadata)
    (db : QueryDb Key Value Content Edges Metadata) : Prop :=
  ∀ key cached, db.cache.lookup key = some cached → ∃ w, fam.EntryOk db key cached w

structure SameState (db db' : QueryDb Key Value Content Edges Metadata) : Prop where
  inputs_eq : db'.inputs = db.inputs
  snapshot_eq : db'.snapshot = db.snapshot
  edgeRevision_eq : db'.edgeRevision = db.edgeRevision
  metadataRevision_eq : db'.metadataRevision = db.metadataRevision

omit [DecidableEq Key] in
theorem SameState.refl (db : QueryDb Key Value Content Edges Metadata) : SameState db db :=
  ⟨rfl, rfl, rfl, rfl⟩

omit [DecidableEq Key] in
theorem SameState.trans {db db' db'' : QueryDb Key Value Content Edges Metadata}
    (h : SameState db db') (h' : SameState db' db'') : SameState db db'' :=
  ⟨h'.inputs_eq.trans h.inputs_eq, h'.snapshot_eq.trans h.snapshot_eq,
    h'.edgeRevision_eq.trans h.edgeRevision_eq,
    h'.metadataRevision_eq.trans h.metadataRevision_eq⟩

omit [DecidableEq Key] in
theorem QueryFamily.EntryOk.of_sameState {fam : QueryFamily Key Value Content Edges Metadata}
    {db db' : QueryDb Key Value Content Edges Metadata} {key : Key}
    {cached : CachedResult Value} {w : QuerySnapshot Content Edges Metadata}
    (h : fam.EntryOk db key cached w) (hsame : SameState db db') :
    fam.EntryOk db' key cached w := by
  refine ⟨h.determined, ?_, ?_, ?_⟩
  · rw [hsame.inputs_eq, hsame.snapshot_eq]
    exact h.files_kept
  · rw [hsame.edgeRevision_eq, hsame.snapshot_eq]
    exact h.edges_kept
  · rw [hsame.metadataRevision_eq, hsame.snapshot_eq]
    exact h.metadata_kept

theorem QueryFamily.CacheOk.of_sameState {fam : QueryFamily Key Value Content Edges Metadata}
    {db db' : QueryDb Key Value Content Edges Metadata} (h : fam.CacheOk db)
    (hsame : SameState db db') (hcache : db'.cache = db.cache) : fam.CacheOk db' := by
  intro key cached hlookup
  rw [hcache] at hlookup
  obtain ⟨w, hw⟩ := h key cached hlookup
  exact ⟨w, hw.of_sameState hsame⟩

end Invariant

section Call

variable [DecidableEq Key] {fam : QueryFamily Key Value Content Edges Metadata}

omit [DecidableEq Key] in
theorem tierValid_eq_true {tracks : Bool} {cached : Option Nat} {current : Nat}
    (h : QueryFamily.tierValid tracks cached current = true) (htracks : tracks = true) :
    cached = some current := by
  subst htracks
  cases cached with
  | none => cases h
  | some r => exact congrArg some (of_decide_eq_true h)

theorem determined_of_hit {db : QueryDb Key Value Content Edges Metadata} (hok : fam.CacheOk db)
    {key : Key} {cached : CachedResult Value} (h : fam.getIfValid db key = some cached) :
    fam.Determined key cached.value (fun f => f ∈ cached.fileDeps.map Prod.fst) db.snapshot := by
  obtain ⟨hlookup, hvalid⟩ := Option.filter_eq_some_iff.mp h
  obtain ⟨w, hentry⟩ := hok key cached hlookup
  obtain ⟨hfirst, hmetadata⟩ := Bool.and_eq_true_iff.mp hvalid
  obtain ⟨hfiles, hedges⟩ := Bool.and_eq_true_iff.mp hfirst
  intro w' hagrees
  refine hentry.determined w' ⟨?_, ?_, ?_⟩
  · intro f hf
    obtain ⟨dep, hdep, rfl⟩ := List.mem_map.mp hf
    have hrevision := of_decide_eq_true (List.all_eq_true.mp hfiles dep hdep)
    rw [hagrees.contents_eq _ hf]
    exact (hentry.files_kept dep hdep _ hrevision).2 rfl
  · intro htracks
    have hcached := tierValid_eq_true hedges htracks
    exact (hagrees.edges_eq htracks).trans ((hentry.edges_kept _ hcached).2 rfl)
  · intro htracks
    have hcached := tierValid_eq_true hmetadata htracks
    exact (hagrees.metadata_eq htracks).trans ((hentry.metadata_kept _ hcached).2 rfl)

def DependencyRecorder.WellScoped (r : DependencyRecorder) : Prop :=
  r.activeDepth = 0 ∨ r.activeDepth = r.fileDeps.length

structure DependencyRecorder.Inside (r : DependencyRecorder) (cur : List FileId)
    (rest : List (List FileId)) : Prop where
  fileDeps_eq : r.fileDeps = cur :: rest
  activeDepth_eq : r.activeDepth = rest.length + 1

/-- A finished call adds `raw` to the scope it was made from. -/
structure DependencyRecorder.Absorbs (r : DependencyRecorder) (raw : List FileId)
    (r' : DependencyRecorder) : Prop where
  activeDepth_eq : r'.activeDepth = r.activeDepth
  inside : ∀ cur rest, r.Inside cur rest → r'.Inside (cur ++ raw) rest

omit [DecidableEq Key] in
theorem inside_enter {r : DependencyRecorder} (h : r.WellScoped) :
    r.enter.Inside [] (if r.activeDepth = 0 then [] else r.fileDeps) := by
  refine ⟨rfl, ?_⟩
  cases h with
  | inl hzero =>
    rw [if_pos hzero]
    exact congrArg (· + 1) hzero
  | inr hlen =>
    by_cases hzero : r.activeDepth = 0
    · rw [if_pos hzero]
      exact congrArg (· + 1) hzero
    · rw [if_neg hzero]
      exact congrArg (· + 1) hlen

theorem inside_recordFileDep {r : DependencyRecorder} {cur : List FileId}
    {rest : List (List FileId)} (h : r.Inside cur rest) {file : FileId}
    (hfile : file ≠ FileId.INVALID) : (r.recordFileDep file).Inside (cur ++ [file]) rest := by
  rw [DependencyRecorder.recordFileDep, if_neg hfile, h.fileDeps_eq]
  exact ⟨rfl, h.activeDepth_eq⟩

theorem absorbs_finish {r r' : DependencyRecorder} {raw : List FileId}
    (hinside : r'.Inside raw (if r.activeDepth = 0 then [] else r.fileDeps))
    (hscoped : r.WellScoped) (inputs : FileInputStore) :
    r.Absorbs raw (r'.finish inputs).2 := by
  obtain ⟨fileDeps, depth⟩ := r'
  obtain ⟨hdeps, hdepth⟩ := hinside
  simp only at hdeps hdepth
  subst hdeps hdepth
  rw [DependencyRecorder.finish, DependencyRecorder.finishCurrentScope]
  by_cases hzero : r.activeDepth = 0
  · simp only [if_pos hzero, List.length_nil, Nat.zero_add, Nat.sub_self, Nat.lt_irrefl,
      decide_false, Bool.and_false, Bool.false_eq_true, if_false, if_true]
    refine ⟨hzero.symm, ?_⟩
    intro cur rest hcur
    rw [hcur.activeDepth_eq] at hzero
    cases hzero
  · have hlen : r.activeDepth = r.fileDeps.length := hscoped.resolve_left hzero
    simp only [if_neg hzero, Nat.add_sub_cancel, List.tail_cons, List.headD_cons]
    cases hscopes : r.fileDeps with
    | nil =>
      rw [hscopes] at hlen
      exact absurd hlen hzero
    | cons parent rest =>
      have hpos : 0 < (parent :: rest).length := Nat.succ_pos _
      simp only [decide_eq_true hpos, Bool.and_self, if_true]
      refine ⟨?_, ?_⟩
      · rw [hlen, hscopes]
      · intro cur rest' hcur
        have heq := hscopes.symm.trans hcur.fileDeps_eq
        cases heq
        exact ⟨rfl, rfl⟩

/-- What a call leaves behind: `raw` is what it adds to the scope it was made from. -/
structure Called (fam : QueryFamily Key Value Content Edges Metadata)
    (db : QueryDb Key Value Content Edges Metadata) (key : Key) (v : Value)
    (db' : QueryDb Key Value Content Edges Metadata) (raw : List FileId) : Prop where
  sameState : SameState db db'
  cacheOk : fam.CacheOk db'
  absorbs : db.recorder.Absorbs raw db'.recorder
  tracked : ∀ f ∈ raw, db.inputs.revision f ≠ none
  determined : fam.Determined key v (fun f => f ∈ raw ∨ f ∈ fam.hitFiles db key) db.snapshot

/-- What a body leaves behind that was run in the scope `cur`: it has recorded `raw` there,
and that covers what its nested hits left to it. -/
structure Executed (fam : QueryFamily Key Value Content Edges Metadata) (caller : Key)
    (db : QueryDb Key Value Content Edges Metadata)
    (e : Exec Key Value Content Edges Metadata) (owed cur : List FileId)
    (rest : List (List FileId)) (v : Value) (db' : QueryDb Key Value Content Edges Metadata)
    (raw : List FileId) : Prop where
  sameState : SameState db db'
  cacheOk : fam.CacheOk db'
  inside : db'.recorder.Inside (cur ++ raw) rest
  tracked : ∀ f ∈ raw, db.inputs.revision f ≠ none
  owed_recorded : ∀ f ∈ owed, f ∈ cur ++ raw
  determined : ∀ w', db.snapshot.Agrees (fun f => f ∈ cur ++ raw)
    (fam.tracksEdgeRevision caller) (fam.tracksMetadataRevision caller) w' →
      ∃ m, QueryFamily.recomputeExec (fam.recompute m w') w' e = some v

omit [DecidableEq Key] in
theorem QuerySnapshot.Agrees.mono {files files' : FileId → Prop} {edges edges' : Bool}
    {metadata metadata' : Bool} {w w' : QuerySnapshot Content Edges Metadata}
    (h : w.Agrees files edges metadata w') (hfiles : ∀ f, files' f → files f)
    (hedges : edges' = true → edges = true) (hmetadata : metadata' = true → metadata = true) :
    w.Agrees files' edges' metadata' w' :=
  ⟨fun f hf => h.contents_eq f (hfiles f hf), fun he => h.edges_eq (hedges he),
    fun hm => h.metadata_eq (hmetadata hm)⟩

theorem executed {get : QueryDb Key Value Content Edges Metadata → Key →
      Option (Value × QueryDb Key Value Content Edges Metadata)}
    {inherits : QueryDb Key Value Content Edges Metadata → Key → Prop}
    (hget : ∀ db key v db', fam.CacheOk db → fam.Declared db.inputs → db.recorder.WellScoped →
      inherits db key → get db key = some (v, db') → ∃ raw, Called fam db key v db' raw)
    {caller : Key} (e : Exec Key Value Content Edges Metadata)
    {db db' : QueryDb Key Value Content Edges Metadata} {owed cur : List FileId}
    {rest : List (List FileId)} {v : Value} (hok : fam.CacheOk db)
    (hdeclared : fam.Declared db.inputs) (hinside : db.recorder.Inside cur rest)
    (hbody : e.Declared (fun f => f ≠ FileId.INVALID ∧ db.inputs.revision f ≠ none)
      (fam.tracksEdgeRevision caller = true) (fam.tracksMetadataRevision caller = true))
    (hinherits : fam.InheritsExec get inherits caller db owed e)
    (hrun : QueryFamily.runExec get db e = some (v, db')) :
    ∃ raw, Executed fam caller db e owed cur rest v db' raw := by
  induction e generalizing db owed cur with
  | done value =>
    cases hrun
    refine ⟨[], SameState.refl _, hok, ?_, ?_, ?_, fun w' _ => ⟨0, rfl⟩⟩
    · rw [List.append_nil]
      exact hinside
    · intro f hf
      cases hf
    · intro f hf
      have hcur := hinherits f hf
      rw [QueryFamily.current, hinside.fileDeps_eq, List.headD_cons] at hcur
      rw [List.append_nil]
      exact hcur
  | readFile file next ih =>
    obtain ⟨hfile, hnext⟩ := hbody
    have hinside' := inside_recordFileDep hinside hfile.1
    have hok' : fam.CacheOk (db.recordFileDep file) := hok.of_sameState ⟨rfl, rfl, rfl, rfl⟩ rfl
    obtain ⟨raw, h⟩ := ih _ hok' hdeclared hinside' (hnext _) hinherits hrun
    have hassoc : cur ++ [file] ++ raw = cur ++ file :: raw := by simp
    refine ⟨file :: raw, ⟨h.sameState.inputs_eq, h.sameState.snapshot_eq,
      h.sameState.edgeRevision_eq, h.sameState.metadataRevision_eq⟩, h.cacheOk,
      hassoc ▸ h.inside, ?_, hassoc ▸ h.owed_recorded, ?_⟩
    · intro f hf
      cases List.mem_cons.mp hf with
      | inl heq => rw [heq]; exact hfile.2
      | inr hin => exact h.tracked f hin
    · intro w' hagrees
      have hcontents : w'.contents file = db.snapshot.contents file :=
        hagrees.contents_eq file (List.mem_append_right _ List.mem_cons_self)
      rw [← hassoc] at hagrees
      obtain ⟨m, hm⟩ := h.determined w' hagrees
      refine ⟨m, ?_⟩
      rw [QueryFamily.recomputeExec, hcontents]
      exact hm
  | readEdges next ih =>
    obtain ⟨raw, h⟩ := ih _ hok hdeclared hinside (hbody.2 _) hinherits hrun
    refine ⟨raw, h.sameState, h.cacheOk, h.inside, h.tracked, h.owed_recorded, ?_⟩
    intro w' hagrees
    have hedges := hagrees.edges_eq hbody.1
    simp only [QueryFamily.recomputeExec, hedges]
    exact h.determined w' hagrees
  | readMetadata next ih =>
    obtain ⟨raw, h⟩ := ih _ hok hdeclared hinside (hbody.2 _) hinherits hrun
    refine ⟨raw, h.sameState, h.cacheOk, h.inside, h.tracked, h.owed_recorded, ?_⟩
    intro w' hagrees
    have hmetadata := hagrees.metadata_eq hbody.1
    simp only [QueryFamily.recomputeExec, hmetadata]
    exact h.determined w' hagrees
  | get key next ih =>
    obtain ⟨hedges, hmetadata, hnested, hlater⟩ := hinherits
    rw [QueryFamily.runExec] at hrun
    cases hcall : get db key with
    | none =>
      rw [hcall] at hrun
      cases hrun
    | some result =>
      obtain ⟨value, mid⟩ := result
      rw [hcall] at hrun
      have hscoped : db.recorder.WellScoped :=
        .inr (by rw [hinside.fileDeps_eq, hinside.activeDepth_eq]; rfl)
      obtain ⟨first, hcalled⟩ := hget db key value mid hok hdeclared hscoped hnested hcall
      have hsame := hcalled.sameState
      have hmid := hcalled.absorbs.inside cur rest hinside
      have hbody' := hbody value
      rw [← hsame.inputs_eq] at hdeclared hbody'
      obtain ⟨second, h⟩ := ih value hcalled.cacheOk hdeclared hmid hbody'
        (hlater value mid hcall) hrun
      have hassoc : cur ++ first ++ second = cur ++ (first ++ second) :=
        List.append_assoc cur first second
      refine ⟨first ++ second, hsame.trans h.sameState, h.cacheOk, hassoc ▸ h.inside, ?_, ?_,
        ?_⟩
      · intro f hf
        cases List.mem_append.mp hf with
        | inl hin => exact hcalled.tracked f hin
        | inr hin => rw [← hsame.inputs_eq]; exact h.tracked f hin
      · intro f hf
        rw [← hassoc]
        exact h.owed_recorded f (List.mem_append_left _ hf)
      · -- What the nested call depends on was recorded by it, or is owed and recorded later.
        intro w' hagrees
        rw [← hassoc] at hagrees
        have hchild := hcalled.determined w' (hagrees.mono (fun f hf => ?_) hedges hmetadata)
        · obtain ⟨m, hm⟩ := hchild
          rw [← hsame.snapshot_eq] at hagrees
          obtain ⟨m', hm'⟩ := h.determined w' hagrees
          refine ⟨max m m', ?_⟩
          rw [QueryFamily.recomputeExec,
            QueryFamily.recompute_mono (Nat.le_max_left m m') hm]
          exact QueryFamily.recomputeExec_mono
            (fun k v hk => QueryFamily.recompute_mono (Nat.le_max_right m m') hk) w' _ hm'
        · cases hf with
          | inl hin => exact List.mem_append_left _ (List.mem_append_right _ hin)
          | inr hin => exact h.owed_recorded f (List.mem_append_right _ hin)

omit [DecidableEq Key] in
theorem tierKept_now {α : Type} {tracks : Bool} {current : Nat} {before now : α}
    (h : now = before) :
    TierKept (if tracks = true then some current else none) current before now := by
  intro r hr
  refine ⟨?_, fun _ => h⟩
  split at hr
  · exact (Option.some.inj hr).ge
  · cases hr

theorem cacheOk_store {db done : QueryDb Key Value Content Edges Metadata}
    (hok : fam.CacheOk done) {key : Key} {v : Value} {raw : List FileId}
    {rest : List (List FileId)} (hinside : done.recorder.Inside raw rest)
    (hsame : SameState db done) (htracked : ∀ f ∈ raw, db.inputs.revision f ≠ none)
    (hvalue : fam.Determined key v (fun f => f ∈ raw) db.snapshot) :
    fam.CacheOk (fam.store done key v) := by
  have hkept : ∀ key' cached, done.cache.lookup key' = some cached →
      ∃ w, fam.EntryOk (fam.store done key v) key' cached w := by
    intro key' cached hlookup
    obtain ⟨w, hw⟩ := hok key' cached hlookup
    exact ⟨w, hw.of_sameState ⟨rfl, rfl, rfl, rfl⟩⟩
  intro key' cached hlookup
  by_cases hstorable : fam.storable key v = true
  · have hcache : (fam.store done key v).cache =
        done.cache.insert key (fam.resultOf done key v) := if_pos hstorable
    rw [hcache] at hlookup
    by_cases hkey : key' = key
    · subst hkey
      rw [AList.lookup_insert] at hlookup
      cases hlookup
      have hdeps : ∀ dep : FileDep, dep ∈ (fam.resultOf done key' v).fileDeps ↔
          dep.1 ∈ raw ∧ done.inputs.revision dep.1 = some dep.2 := by
        intro dep
        rw [QueryFamily.resultOf, DependencyRecorder.fst_finish, mem_pairWithRevisions,
          hinside.fileDeps_eq, List.headD_cons]
      refine ⟨db.snapshot, ?_, ?_, ?_, ?_⟩
      · -- Every recorded file is tracked, so none is missing from the stored list.
        intro w' hagrees
        refine hvalue w' (hagrees.mono (fun f hf => ?_) id id)
        obtain ⟨r, hr⟩ := Option.ne_none_iff_exists'.mp (htracked f hf)
        rw [← hsame.inputs_eq] at hr
        exact List.mem_map.mpr ⟨(f, r), (hdeps (f, r)).mpr ⟨hf, hr⟩, rfl⟩
      · intro dep hdep r hr
        have hsaved := ((hdeps dep).mp hdep).2
        have heq : dep.2 = r := Option.some.inj (hsaved.symm.trans hr)
        exact ⟨heq.le, fun _ => congrArg (fun s => s.contents dep.1) hsame.snapshot_eq⟩
      · exact tierKept_now (congrArg QuerySnapshot.edges hsame.snapshot_eq)
      · exact tierKept_now (congrArg QuerySnapshot.metadata hsame.snapshot_eq)
    · rw [AList.lookup_insert_ne hkey] at hlookup
      exact hkept key' cached hlookup
  · have hcache : (fam.store done key v).cache = done.cache := if_neg hstorable
    rw [hcache] at hlookup
    exact hkept key' cached hlookup

theorem called {n : Nat} {db db' : QueryDb Key Value Content Edges Metadata} {key : Key}
    {v : Value} (hok : fam.CacheOk db) (hdeclared : fam.Declared db.inputs)
    (hscoped : db.recorder.WellScoped) (hinherits : fam.Inherits n db key)
    (hrun : fam.get n db key = some (v, db')) : ∃ raw, Called fam db key v db' raw := by
  induction n generalizing db db' key v with
  | zero => cases hrun
  | succ n ih =>
    rw [QueryFamily.get] at hrun
    cases hhit : fam.getIfValid db key with
    | some cached =>
      rw [hhit] at hrun
      cases hrun
      refine ⟨[], ⟨rfl, rfl, rfl, rfl⟩, hok.of_sameState ⟨rfl, rfl, rfl, rfl⟩ rfl,
        ⟨rfl, fun cur rest hcur => ?_⟩, fun f hf => ?_, ?_⟩
      · rw [List.append_nil]
        exact hcur
      · cases hf
      · intro w' hagrees
        refine determined_of_hit hok hhit w' (hagrees.mono (fun f hf => .inr ?_) id id)
        rw [QueryFamily.hitFiles, hhit]
        exact hf
    | none =>
      rw [hhit] at hrun
      cases hbody : QueryFamily.runExec (fam.get n) db.enter (fam.execute key) with
      | none =>
        simp only [hbody] at hrun
        cases hrun
      | some result =>
        obtain ⟨value, done⟩ := result
        simp only [hbody] at hrun
        cases hrun
        have hentered : fam.CacheOk db.enter := hok.of_sameState ⟨rfl, rfl, rfl, rfl⟩ rfl
        obtain ⟨raw, h⟩ := executed (fun _ _ _ _ h₁ h₂ h₃ h₄ h₅ => ih h₁ h₂ h₃ h₄ h₅)
          (fam.execute key) hentered hdeclared (inside_enter hscoped) (hdeclared key)
          (hinherits hhit) hbody
        have hsame : SameState db (fam.store done key v) :=
          ⟨h.sameState.inputs_eq, h.sameState.snapshot_eq, h.sameState.edgeRevision_eq,
            h.sameState.metadataRevision_eq⟩
        have hvalue : fam.Determined key v (fun f => f ∈ raw) db.snapshot := by
          intro w' hagrees
          obtain ⟨m, hm⟩ := h.determined w' hagrees
          exact ⟨m + 1, hm⟩
        refine ⟨raw, hsame, ?_, absorbs_finish h.inside hscoped done.inputs, h.tracked, ?_⟩
        · exact cacheOk_store h.cacheOk h.inside h.sameState h.tracked hvalue
        · intro w' hagrees
          exact hvalue w' (hagrees.mono (fun f hf => .inl hf) id id)

omit [DecidableEq Key] in
theorem agrees_refl {files : FileId → Prop} {edges metadata : Bool}
    (w : QuerySnapshot Content Edges Metadata) : w.Agrees files edges metadata w :=
  ⟨fun _ _ => rfl, fun _ => rfl, fun _ => rfl⟩

theorem runExec_returns {n : Nat}
    (hget : ∀ db key v, fam.CacheOk db → fam.Declared db.inputs → db.recorder.WellScoped →
      fam.Inherits n db key → fam.recompute n db.snapshot key = some v →
      ∃ db', fam.get n db key = some (v, db'))
    {caller : Key} (e : Exec Key Value Content Edges Metadata)
    {db : QueryDb Key Value Content Edges Metadata} {owed cur : List FileId}
    {rest : List (List FileId)} {v : Value} (hok : fam.CacheOk db)
    (hdeclared : fam.Declared db.inputs) (hinside : db.recorder.Inside cur rest)
    (hbody : e.Declared (fun f => f ≠ FileId.INVALID ∧ db.inputs.revision f ≠ none)
      (fam.tracksEdgeRevision caller = true) (fam.tracksMetadataRevision caller = true))
    (hinherits : fam.InheritsExec (fam.get n) (fam.Inherits n) caller db owed e)
    (hrun : QueryFamily.recomputeExec (fam.recompute n db.snapshot) db.snapshot e = some v) :
    ∃ db', QueryFamily.runExec (fam.get n) db e = some (v, db') := by
  induction e generalizing db owed cur with
  | done value =>
    cases hrun
    exact ⟨db, rfl⟩
  | readFile file next ih =>
    have hinside' := inside_recordFileDep hinside hbody.1.1
    have hok' : fam.CacheOk (db.recordFileDep file) := hok.of_sameState ⟨rfl, rfl, rfl, rfl⟩ rfl
    exact ih _ hok' hdeclared hinside' (hbody.2 _) hinherits hrun
  | readEdges next ih => exact ih _ hok hdeclared hinside (hbody.2 _) hinherits hrun
  | readMetadata next ih => exact ih _ hok hdeclared hinside (hbody.2 _) hinherits hrun
  | get key next ih =>
    obtain ⟨hedges, hmetadata, hnested, hlater⟩ := hinherits
    rw [QueryFamily.recomputeExec] at hrun
    cases hvalue : fam.recompute n db.snapshot key with
    | none =>
      rw [hvalue] at hrun
      cases hrun
    | some value =>
      rw [hvalue] at hrun
      have hscoped : db.recorder.WellScoped :=
        .inr (by rw [hinside.fileDeps_eq, hinside.activeDepth_eq]; rfl)
      obtain ⟨mid, hcall⟩ := hget db key value hok hdeclared hscoped hnested hvalue
      obtain ⟨first, hcalled⟩ := called hok hdeclared hscoped hnested hcall
      have hsame := hcalled.sameState
      have hmid := hcalled.absorbs.inside cur rest hinside
      have hbody' := hbody value
      rw [← hsame.inputs_eq] at hdeclared hbody'
      rw [← hsame.snapshot_eq] at hrun
      rw [QueryFamily.runExec, hcall]
      exact ih value hcalled.cacheOk hdeclared hmid hbody' (hlater value mid hcall) hrun

theorem get_returns {n : Nat} {db : QueryDb Key Value Content Edges Metadata} {key : Key}
    {v : Value} (hok : fam.CacheOk db) (hdeclared : fam.Declared db.inputs)
    (hscoped : db.recorder.WellScoped) (hinherits : fam.Inherits n db key)
    (hrun : fam.recompute n db.snapshot key = some v) :
    ∃ db', fam.get n db key = some (v, db') := by
  induction n generalizing db key v with
  | zero => cases hrun
  | succ n ih =>
    rw [QueryFamily.get]
    cases hhit : fam.getIfValid db key with
    | some cached =>
      obtain ⟨m, hm⟩ := determined_of_hit hok hhit db.snapshot (agrees_refl _)
      rw [QueryFamily.recompute_unique hrun hm]
      exact ⟨_, rfl⟩
    | none =>
      have hentered : fam.CacheOk db.enter := hok.of_sameState ⟨rfl, rfl, rfl, rfl⟩ rfl
      obtain ⟨done, hdone⟩ := runExec_returns (fun _ _ _ h₁ h₂ h₃ h₄ h₅ => ih h₁ h₂ h₃ h₄ h₅)
        (fam.execute key) hentered hdeclared (inside_enter hscoped) (hdeclared key)
        (hinherits hhit) hrun
      exact ⟨fam.store done key v, by simp only [hdone]⟩

end Call

section Changes

/-- Every file whose contents change is updated, and a global tier that changes is bumped. -/
structure SnapshotChange.Accompanied (c : SnapshotChange Content Edges Metadata)
    (w : QuerySnapshot Content Edges Metadata) : Prop where
  updated : ∀ f, c.snapshot.contents f ≠ w.contents f → f ∈ c.updates.map Prod.fst
  edges_bumped : c.snapshot.edges ≠ w.edges → 0 < c.edgeBumps
  metadata_bumped : c.snapshot.metadata ≠ w.metadata → 0 < c.metadataBumps

/-- No counter reaches the end of `u64`: a revision would stay where it is there, and a
global one would start again. -/
structure SnapshotChange.Counts (c : SnapshotChange Content Edges Metadata)
    (db : QueryDb Key Value Content Edges Metadata) : Prop where
  files : ∀ f r, db.inputs.revision f = some r → r + (c.updates.map Prod.fst).count f ≤ u64Max
  edges : db.edgeRevision + c.edgeBumps ≤ u64Max
  metadata : db.metadataRevision + c.metadataBumps ≤ u64Max

theorem bumpRevision_eq {revision k : Nat} (h : revision + k ≤ u64Max) :
    bumpRevision revision k = revision + k := by
  induction k generalizing revision with
  | zero => rfl
  | succ k ih =>
    have hsucc : wrappingSucc revision = revision + 1 := by
      rw [wrappingSucc, Nat.mod_eq_of_lt]
      omega
    rw [bumpRevision, hsucc, ih (by omega)]
    omega

theorem revision_updates (updates : List (FileId × List NodeId)) (s : FileInputStore)
    (f : FileId)
    (h : ∀ r, s.revision f = some r → r + (updates.map Prod.fst).count f ≤ u64Max) :
    (updates.foldl (fun s u => s.updateFile u.1 u.2) s).revision f =
      (s.revision f).map (· + (updates.map Prod.fst).count f) := by
  induction updates generalizing s with
  | nil =>
    cases hs : s.revision f <;> simp [hs]
  | cons u updates ih =>
    rw [List.foldl_cons, ih]
    · rw [FileInputStore.revision_updateFile, List.map_cons, List.count_cons]
      cases hs : s.revision f with
      | none => split <;> rfl
      | some r =>
        have hr := h r hs
        rw [List.map_cons, List.count_cons] at hr
        by_cases hf : f = u.1
        · simp only [hf, if_true, beq_self_eq_true, Option.map_some, saturatingSucc] at hr ⊢
          rw [Nat.min_eq_left (by omega)]
          exact congrArg some (by omega)
        · have hne : (u.1 == f) = false := beq_eq_false_iff_ne.mpr fun heq => hf heq.symm
          simp only [hf, hne, if_false, Option.map_some, Bool.false_eq_true, Nat.add_zero]
    · intro r hr
      rw [FileInputStore.revision_updateFile] at hr
      by_cases hf : f = u.1
      · rw [if_pos hf] at hr
        obtain ⟨q, hq, rfl⟩ := Option.map_eq_some_iff.mp hr
        have hbound := h q hq
        rw [List.map_cons, List.count_cons, hf, beq_self_eq_true, if_pos rfl] at hbound
        rw [saturatingSucc, Nat.min_eq_left (by omega), hf]
        omega
      · rw [if_neg hf] at hr
        have hbound := h r hr
        rw [List.map_cons, List.count_cons] at hbound
        omega

variable {fam : QueryFamily Key Value Content Edges Metadata}

theorem TierKept.bump {α : Type} {cached : Option Nat} {current bumps : Nat}
    {before now later : α} (h : TierKept cached current before now)
    (hbound : current + bumps ≤ u64Max) (hchange : later ≠ now → 0 < bumps) :
    TierKept cached (bumpRevision current bumps) before later := by
  intro r hr
  obtain ⟨hle, hsame⟩ := h r hr
  rw [bumpRevision_eq hbound]
  refine ⟨by omega, ?_⟩
  intro heq
  by_cases hlater : later = now
  · rw [hlater]
    exact hsame (by omega)
  · have hpos := hchange hlater
    omega

theorem revision_applyChange {db : QueryDb Key Value Content Edges Metadata}
    {c : SnapshotChange Content Edges Metadata} (hcounts : c.Counts db) (f : FileId) :
    (db.applyChange c).inputs.revision f =
      (db.inputs.revision f).map (· + (c.updates.map Prod.fst).count f) :=
  revision_updates c.updates db.inputs f (hcounts.files f)

theorem entryOk_applyChange {db : QueryDb Key Value Content Edges Metadata}
    {c : SnapshotChange Content Edges Metadata} (haccompanied : c.Accompanied db.snapshot)
    (hcounts : c.Counts db) {key : Key} {cached : CachedResult Value}
    {w : QuerySnapshot Content Edges Metadata} (h : fam.EntryOk db key cached w) :
    fam.EntryOk (db.applyChange c) key cached w := by
  refine ⟨h.determined, ?_, h.edges_kept.bump hcounts.edges haccompanied.edges_bumped,
    h.metadata_kept.bump hcounts.metadata haccompanied.metadata_bumped⟩
  intro dep hdep r hr
  rw [revision_applyChange hcounts] at hr
  obtain ⟨q, hq, rfl⟩ := Option.map_eq_some_iff.mp hr
  obtain ⟨hle, hsame⟩ := h.files_kept dep hdep q hq
  refine ⟨by omega, ?_⟩
  intro heq
  have hzero : (c.updates.map Prod.fst).count dep.1 = 0 := by omega
  have hcontents : c.snapshot.contents dep.1 = db.snapshot.contents dep.1 := by
    by_contra hne
    exact List.count_eq_zero.mp hzero (haccompanied.updated dep.1 hne)
  exact hcontents.trans (hsame (by omega))

theorem declared_applyChange {db : QueryDb Key Value Content Edges Metadata}
    {c : SnapshotChange Content Edges Metadata} (hcounts : c.Counts db)
    (h : fam.Declared db.inputs) : fam.Declared (db.applyChange c).inputs := by
  have hfiles : (fun f => f ≠ FileId.INVALID ∧ (db.applyChange c).inputs.revision f ≠ none) =
      fun f => f ≠ FileId.INVALID ∧ db.inputs.revision f ≠ none := by
    funext f
    simp only [revision_applyChange hcounts, ne_eq, Option.map_eq_none_iff]
  intro key
  rw [hfiles]
  exact h key

end Changes

section Runs

variable [DecidableEq Key] (fam : QueryFamily Key Value Content Edges Metadata)

def StepAccompanied (db : QueryDb Key Value Content Edges Metadata) :
    QueryOp Key Content Edges Metadata → Prop
  | .get _ _ => True
  | .change c => c.Accompanied db.snapshot

/-- The bodies that run take over what their nested calls depend on, and the counters that
move do not reach their end. -/
def StepCovers (db : QueryDb Key Value Content Edges Metadata) :
    QueryOp Key Content Edges Metadata → Prop
  | .get depth key => fam.Inherits depth db key
  | .change c => c.Counts db

structure BetweenOps (db : QueryDb Key Value Content Edges Metadata) : Prop where
  cacheOk : fam.CacheOk db
  declared : fam.Declared db.inputs
  idle : db.recorder.activeDepth = 0

variable {fam}

theorem betweenOps_step {db db' : QueryDb Key Value Content Edges Metadata}
    {op : QueryOp Key Content Edges Metadata} (h : BetweenOps fam db)
    (hok : StepAccompanied db op ∧ StepCovers fam db op) (hstep : fam.step db op = some db') :
    BetweenOps fam db' := by
  cases op with
  | get depth key =>
    obtain ⟨result, hget, rfl⟩ := Option.map_eq_some_iff.mp hstep
    obtain ⟨raw, hcalled⟩ := called h.cacheOk h.declared (.inl h.idle) hok.2 hget
    refine ⟨hcalled.cacheOk, ?_, hcalled.absorbs.activeDepth_eq.trans h.idle⟩
    rw [hcalled.sameState.inputs_eq]
    exact h.declared
  | change c =>
    cases hstep
    refine ⟨?_, declared_applyChange hok.2 h.declared, h.idle⟩
    intro key cached hlookup
    obtain ⟨w, hw⟩ := h.cacheOk key cached hlookup
    exact ⟨w, entryOk_applyChange hok.1 hok.2 hw⟩

/-- In every run whose bodies take over what their nested calls depend on, a call returns
the value of a recomputation in the current state, and it returns when that does. -/
theorem get_eq_recompute {snapshot : QuerySnapshot Content Edges Metadata}
    {inputs : FileInputStore} (hdeclared : fam.Declared inputs)
    {ops : List (QueryOp Key Content Edges Metadata)}
    {db : QueryDb Key Value Content Edges Metadata}
    (hrun : run fam.step (.new snapshot inputs) ops = some db)
    (haccompanied : RunOk fam.step StepAccompanied (.new snapshot inputs) ops)
    (hcovers : RunOk fam.step (StepCovers fam) (.new snapshot inputs) ops) {depth : Nat}
    {key : Key} (hinherits : fam.Inherits depth db key) :
    (∀ v db', fam.get depth db key = some (v, db') →
      ∃ n, fam.recompute n db.snapshot key = some v) ∧
    ∀ v, fam.recompute depth db.snapshot key = some v →
      ∃ db', fam.get depth db key = some (v, db') := by
  have hnew : BetweenOps fam (.new snapshot inputs) := by
    refine ⟨?_, hdeclared, rfl⟩
    intro key cached hlookup
    cases hlookup
  have h : BetweenOps fam db :=
    StepSystem.invariant_of_runOk (fun _ _ _ h hok hstep => betweenOps_step h hok hstep) hnew
      (StepSystem.runOk_and haccompanied hcovers) hrun
  refine ⟨?_, fun v hv => get_returns h.cacheOk h.declared (.inl h.idle) hinherits hv⟩
  intro v db' hget
  obtain ⟨raw, hcalled⟩ := called h.cacheOk h.declared (.inl h.idle) hinherits hget
  exact hcalled.determined db.snapshot (agrees_refl _)

end Runs

section Example

/-- Key `true` reads file 1, key `false` wraps it. -/
def wrapping : QueryFamily Bool Nat Nat Unit Unit where
  execute key := if key then .readFile 1 .done else .get true .done
  tracksEdgeRevision _ := false
  tracksMetadataRevision _ := false
  storable _ _ := true

def fileOne (content : Nat) : QuerySnapshot Nat Unit Unit :=
  ⟨fun f => if f = 1 then content else 0, (), ()⟩

def oneFile : FileInputStore := FileInputStore.new.insert 1 (FileInput.new [])

def rewritten : SnapshotChange Nat Unit Unit := ⟨fileOne 9, [(1, [])], 0, 0⟩

theorem declared_wrapping : wrapping.Declared oneFile := by
  intro key
  cases key with
  | true => exact ⟨⟨by decide, by decide⟩, fun _ => trivial⟩
  | false => exact fun _ => trivial

theorem accompanied_rewritten : rewritten.Accompanied (fileOne 4) := by
  refine ⟨?_, fun h => absurd rfl h, fun h => absurd rfl h⟩
  intro f hf
  by_contra hne
  have hone : f ≠ 1 := fun h => hne (h ▸ List.mem_singleton_self 1)
  exact hf (by simp [rewritten, fileOne, hone])

theorem counts_rewritten {db : QueryDb Bool Nat Nat Unit Unit}
    (hfiles : ∀ f r, db.inputs.revision f = some r → r ≤ 1) (hedges : db.edgeRevision = 0)
    (hmetadata : db.metadataRevision = 0) : rewritten.Counts db := by
  refine ⟨?_, ?_, ?_⟩
  · intro f r hr
    have hcount := List.count_le_length (a := f) (l := rewritten.updates.map Prod.fst)
    have hle := hfiles f r hr
    have hlen : (rewritten.updates.map Prod.fst).length = 1 := rfl
    simp only [u64Max]
    omega
  · rw [hedges]
    decide
  · rw [hmetadata]
    decide

theorem inherits_wrapping {db : QueryDb Bool Nat Nat Unit Unit}
    (h : wrapping.getIfValid db.enter true = none) : wrapping.Inherits 2 db false := by
  intro _
  refine ⟨id, id, ?_, ?_⟩
  · intro _ f hf
    cases hf
  · intro v db' _ f hf
    rw [QueryFamily.hitFiles, h] at hf
    cases hf

theorem revision_oneFile_le (f : FileId) (r : Nat) (h : oneFile.revision f = some r) : r ≤ 1 := by
  rw [oneFile, FileInputStore.revision_insert] at h
  split at h
  · exact (Option.some.inj h).ge
  · cases h

def wrapperFirst : List (QueryOp Bool Nat Unit Unit) := [.get 2 false, .change rewritten]

theorem isSome_wrapperFirst :
    (run wrapping.step (.new (fileOne 4) oneFile) wrapperFirst).isSome = true := by
  decide

def childFirst : List (QueryOp Bool Nat Unit Unit) :=
  [.get 1 true, .get 2 false, .change rewritten]

theorem isSome_childFirst :
    (run wrapping.step (.new (fileOne 4) oneFile) childFirst).isSome = true := by
  decide

end Example

/-- A wrapper that computed its child itself is transparent after the child's file changes. -/
theorem get_eq_recompute_wrapperFirst :
    let db := Option.get _ isSome_wrapperFirst
    (∀ v db', wrapping.get 2 db false = some (v, db') →
      ∃ n, wrapping.recompute n db.snapshot false = some v) ∧
    ∀ v, wrapping.recompute 2 db.snapshot false = some v →
      ∃ db', wrapping.get 2 db false = some (v, db') := by
  have haccompanied : RunOk wrapping.step StepAccompanied (.new (fileOne 4) oneFile)
      wrapperFirst := by
    refine ⟨trivial, fun db hdb => ⟨?_, fun _ _ => trivial⟩⟩
    cases hdb
    exact accompanied_rewritten
  have hcovers : RunOk wrapping.step (StepCovers wrapping) (.new (fileOne 4) oneFile)
      wrapperFirst := by
    refine ⟨inherits_wrapping rfl, fun db hdb => ⟨?_, fun _ _ => trivial⟩⟩
    cases hdb
    exact counts_rewritten revision_oneFile_le rfl rfl
  exact get_eq_recompute declared_wrapping (Option.some_get isSome_wrapperFirst).symm haccompanied
    hcovers (inherits_wrapping rfl)

/-- The child was a hit, so the wrapper is stored without its file and survives the change. -/
theorem childFirst_stale :
    let db := Option.get _ isSome_childFirst
    wrapping.Declared oneFile ∧
      RunOk wrapping.step StepAccompanied (.new (fileOne 4) oneFile) childFirst ∧
      (wrapping.get 2 db false).map Prod.fst = some 4 ∧
      ∀ n v, wrapping.recompute n db.snapshot false = some v → v = 9 := by
  refine ⟨declared_wrapping, ?_, by decide, ?_⟩
  · refine ⟨trivial, fun db hdb => ⟨trivial, fun db' hdb' => ⟨?_, fun _ _ => trivial⟩⟩⟩
    cases hdb
    cases hdb'
    exact accompanied_rewritten
  · intro n v hv
    have hnine : wrapping.recompute 2 (Option.get _ isSome_childFirst).snapshot false = some 9 :=
      rfl
    exact QueryFamily.recompute_unique hv hnine

end Sqry
