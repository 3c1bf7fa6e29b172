import Sqry.Db.Derived

/-!
A saved file loads back as it was. A file cut between two of its entries, or with an entry
too many, loads as well: it is read to its end, and the count in its header is not looked
at. Every other cut is refused and leaves the database as it was.
-/

namespace Sqry

variable {Value : Type}

theorem stageEntries_eq (pc : Postcard) (tail : List UInt8) (staged : List PersistedEntry) :
    stageEntries pc tail staged =
      match pc.entry.takeAll tail with
      | .error e => .error (.corrupt s!"entry decode: {e}")
      | .ok es => .ok (staged ++ es.filter fun e => isKnownBuiltin e.queryTypeId) := by
  induction hlen : tail.length using Nat.strongRecOn generalizing tail staged with
  | ind n ih =>
    rw [stageEntries]
    by_cases htail : tail = []
    · rw [htail, if_pos List.isEmpty_nil, Codec.takeAll_nil]
      exact congrArg Except.ok (List.append_nil staged).symm
    · rw [if_neg (by rwa [List.isEmpty_iff])]
      split
      · rename_i e he
        rw [pc.entry.takeAll_of_error htail he]
      · rename_i entry rest hok
        have hlt : rest.length < n := by
          rw [← hlen]
          exact pc.entry.length_of_take hok
        rw [pc.entry.takeAll_of_ok hok]
        split
        · rename_i hunknown
          rw [ih _ hlt _ _ rfl]
          cases pc.entry.takeAll rest with
          | error e => rfl
          | ok es =>
            simp only [Except.map]
            rw [List.filter_cons_of_neg (by simpa using hunknown)]
        · rename_i hknown
          rw [ih _ hlt _ _ rfl]
          cases pc.entry.takeAll rest with
          | error e => rfl
          | ok es =>
            simp only [Except.map]
            rw [List.filter_cons_of_pos (by simpa using hknown), List.append_assoc,
              List.singleton_append]

def DerivedDb.knownEntries (db : DerivedDb Value) : List PersistedEntry :=
  db.cache.iterPersistent.filter fun e => isKnownBuiltin e.queryTypeId

namespace DerivedDb

section Bytes

variable (pc : Postcard) (db fresh : DerivedDb Value) (sha : Bytes 32) (savedAt : Nat)

theorem loadDerived_header (hallowed : fresh.coldLoadAllowed = true) (tail : List UInt8) :
    fresh.loadDerived pc sha (pc.header.encode (db.derivedHeader sha savedAt) ++ tail) =
      match pc.entry.takeAll tail with
      | .error e => (.error (.corrupt s!"entry decode: {e}"), fresh)
      | .ok es =>
        (.ok (es.filter fun e => isKnownBuiltin e.queryTypeId).length,
          { fresh.commitStagedLoad (db.derivedHeader sha savedAt)
              (es.filter fun e => isKnownBuiltin e.queryTypeId) with
            coldLoadAllowed := false }) := by
  rw [loadDerived, hallowed, pc.header.take_encode_append]
  simp only [Bool.not_true, Bool.false_eq_true, if_false, stageEntries_eq]
  rw [if_neg (fun h => h rfl), if_neg (fun h => h rfl), if_neg (fun h => h rfl)]
  cases pc.entry.takeAll tail with
  | error e => rfl
  | ok es => rfl

def Rejected (bytes : List UInt8) : Prop :=
  ∃ detail, fresh.loadDerived pc sha bytes = (.error (.corrupt detail), fresh)

/-- The file cut after its first `k` entries. -/
def cutAfter (k : Nat) : List UInt8 :=
  serializeDerivedStream pc (db.derivedHeader sha savedAt) (db.cache.iterPersistent.take k)

theorem not_rejected_stream (hallowed : fresh.coldLoadAllowed = true)
    (es : List PersistedEntry) :
    ¬ fresh.Rejected pc sha
      (serializeDerivedStream pc (db.derivedHeader sha savedAt) es) := by
  intro h
  obtain ⟨detail, hdetail⟩ := h
  rw [serializeDerivedStream, loadDerived_header pc db fresh sha savedAt hallowed,
    pc.entry.takeAll_encodeAll] at hdetail
  cases (Prod.mk.inj hdetail).1

theorem not_rejected_extra (hallowed : fresh.coldLoadAllowed = true) (e : PersistedEntry) :
    ¬ fresh.Rejected pc sha (db.saveDerived pc sha savedAt ++ pc.entry.encode e) := by
  have hstream : db.saveDerived pc sha savedAt ++ pc.entry.encode e =
      serializeDerivedStream pc (db.derivedHeader sha savedAt)
        (db.cache.iterPersistent ++ [e]) := by
    rw [saveDerived, serializeDerivedStream, serializeDerivedStream, List.append_assoc,
      pc.entry.encodeAll_append, Codec.encodeAll, Codec.encodeAll, List.append_nil]
  rw [hstream]
  exact not_rejected_stream pc db fresh sha savedAt hallowed _

theorem rejected_of_header_cut {p v : List UInt8} (hallowed : fresh.coldLoadAllowed = true)
    (hsplit : pc.header.encode (db.derivedHeader sha savedAt) = p ++ v) (hv : v ≠ []) :
    fresh.Rejected pc sha p := by
  obtain ⟨e, he⟩ := pc.header.take_prefix hsplit hv
  refine ⟨s!"header decode: {e}", ?_⟩
  rw [loadDerived, hallowed, he]
  rfl

theorem rejected_iff_of_cut {p q : List UInt8} (hallowed : fresh.coldLoadAllowed = true)
    (hsplit : db.saveDerived pc sha savedAt = p ++ q) (hq : q ≠ []) :
    fresh.Rejected pc sha p ↔ ∀ k, p ≠ db.cutAfter pc sha savedAt k := by
  constructor
  · intro hrejected k hk
    rw [hk] at hrejected
    exact not_rejected_stream pc db fresh sha savedAt hallowed _ hrejected
  · intro hcut
    rw [saveDerived, serializeDerivedStream] at hsplit
    rcases List.append_eq_append_iff.mp hsplit with ⟨p', hp, hentries⟩ | ⟨v, hheader, hrest⟩
    · rcases pc.entry.takeAll_cut hentries hq with ⟨k, _, hk, _⟩ | ⟨⟨e, he⟩, _⟩
      · exact absurd (by rw [hp, hk]; rfl) (hcut k)
      · refine ⟨s!"entry decode: {e}", ?_⟩
        rw [hp, loadDerived_header pc db fresh sha savedAt hallowed, he]
    · by_cases hv : v = []
      · rw [hv, List.append_nil] at hheader
        refine absurd ?_ (hcut 0)
        rw [cutAfter, serializeDerivedStream, List.take_zero, Codec.encodeAll, List.append_nil,
          hheader]
      · exact rejected_of_header_cut pc db fresh sha savedAt hallowed hheader hv

end Bytes

section Restored

theorem savedRevision_of_nodupKeys {l : List (Σ _ : FileId, FileInput)} (h : l.NodupKeys)
    (f : FileId) :
    savedRevision f (l.map fun e => (e.1, e.2.revision)) =
      (l.dlookup f).map FileInput.revision := by
  induction l with
  | nil => rfl
  | cons e l ih =>
    obtain ⟨hhead, htail⟩ := List.nodupKeys_cons.mp h
    rw [List.map_cons, savedRevision, ih htail]
    by_cases hf : f = e.1
    · have hnone : l.dlookup f = none := by
        rw [List.dlookup_eq_none, hf]
        exact hhead
      rw [hnone, hf, List.dlookup_cons_eq]
      exact if_pos rfl
    · rw [List.dlookup_cons_ne _ _ hf]
      cases l.dlookup f with
      | some fi => rfl
      | none => exact if_neg hf

theorem savedRevision_allRevisions (s : FileInputStore) (f : FileId) :
    savedRevision f s.allRevisions = s.revision f :=
  savedRevision_of_nodupKeys s.entries.nodupKeys f

structure Restored (db : DerivedDb Value) (inputs : FileInputStore)
    (loaded : DerivedDb Value) : Prop where
  edgeRevision : loaded.edgeRevision = db.edgeRevision
  metadataRevision : loaded.metadataRevision = db.metadataRevision
  revision : ∀ f, loaded.inputs.revision f =
    match db.inputs.revision f with
    | some r => some r
    | none => inputs.revision f
  cache : ∀ key r, loaded.cache.entries.lookup key = some r ↔
    ∃ e ∈ db.knownEntries, key = e.key ∧ r = .ofEntry e
  entries : ∀ e, e ∈ loaded.cache.iterPersistent ↔ e ∈ db.knownEntries

variable (db : DerivedDb Value) (inputs : FileInputStore) (sha : Bytes 32) (savedAt : Nat)

theorem restored_commitStagedLoad :
    db.Restored inputs
      { (new inputs : DerivedDb Value).commitStagedLoad (db.derivedHeader sha savedAt)
          db.knownEntries with coldLoadAllowed := false } := by
  have hkeys : (db.knownEntries.map PersistedEntry.key).Nodup :=
    db.cache.nodup_keys_iterPersistent.sublist (List.filter_sublist.map PersistedEntry.key)
  have hcache : ∀ key (r : StoredResult Value),
      (db.knownEntries.foldl ShardedCache.insertValidated .new).entries.lookup key = some r ↔
        ∃ e ∈ db.knownEntries, key = e.key ∧ r = .ofEntry e := by
    intro key r
    rw [ShardedCache.lookup_foldl_insertValidated _ _ hkeys]
    constructor
    · intro h
      cases h with
      | inl hentry => exact hentry
      | inr hold => cases (AList.lookup_empty key).symm.trans hold.2
    · exact Or.inl
  refine ⟨rfl, rfl, ?_, hcache, ?_⟩
  · intro f
    have hrestore := FileInputStore.revision_restoreRevisions inputs db.inputs.allRevisions f
    rw [savedRevision_allRevisions] at hrestore
    exact hrestore
  · intro e
    rw [ShardedCache.mem_iterPersistent]
    constructor
    · intro h
      obtain ⟨key, r, hlookup, _, rfl⟩ := h
      obtain ⟨e', he', _, rfl⟩ := (hcache key r).mp hlookup
      exact he'
    · intro he
      exact ⟨e.key, .ofEntry e, (hcache _ _).mpr ⟨e, he, rfl, rfl⟩, rfl, rfl⟩

theorem loadDerived_saveDerived (pc : Postcard) :
    ∃ loaded, (new inputs : DerivedDb Value).loadDerived pc sha
        (db.saveDerived pc sha savedAt) = (.ok db.knownEntries.length, loaded) ∧
      db.Restored inputs loaded := by
  refine ⟨_, ?_, db.restored_commitStagedLoad inputs sha savedAt⟩
  rw [saveDerived, serializeDerivedStream, loadDerived_header pc db _ sha savedAt rfl,
    pc.entry.takeAll_encodeAll]
  rfl

end Restored

/-- A whole file is restored. A proper prefix is refused exactly when it is not the header
with the first entries, and an entry too many is never noticed. -/
theorem load_derived_all_or_nothing (pc : Postcard) (db : DerivedDb Value)
    (inputs : FileInputStore) (sha : Bytes 32) (savedAt : Nat) :
    (∃ loaded, (new inputs : DerivedDb Value).loadDerived pc sha
        (db.saveDerived pc sha savedAt) = (.ok db.knownEntries.length, loaded) ∧
      db.Restored inputs loaded) ∧
    (∀ p q, db.saveDerived pc sha savedAt = p ++ q → q ≠ [] →
      ((new inputs : DerivedDb Value).Rejected pc sha p ↔
        ∀ k, p ≠ db.cutAfter pc sha savedAt k)) ∧
    ∀ e, ¬ (new inputs : DerivedDb Value).Rejected pc sha
      (db.saveDerived pc sha savedAt ++ pc.entry.encode e) := by
  refine ⟨db.loadDerived_saveDerived inputs sha savedAt pc, ?_, ?_⟩
  · intro p q hsplit hq
    exact rejected_iff_of_cut pc db _ sha savedAt rfl hsplit hq
  · intro e
    exact not_rejected_extra pc db _ sha savedAt rfl e

section Example

/-- A database with one result of `CALLERS`. -/
def oneCaller : DerivedDb Unit :=
  { (new .new : DerivedDb Unit) with
    edgeRevision := 7
    cache := ShardedCache.new.insertQuery 1 true [1] () [2, 3] [] (some 7) none 1024 }

def sha44 : Bytes 32 := ⟨List.replicate 32 0x44, rfl⟩

theorem iterPersistent_oneCaller :
    oneCaller.cache.iterPersistent = [⟨1, [1], [2, 3], [], some 7, none⟩] := rfl

theorem load_derived_all_or_nothing_oneCaller :
    (∃ loaded, (new .new : DerivedDb Unit).loadDerived .wire sha44
        (oneCaller.saveDerived .wire sha44 0) = (.ok 1, loaded) ∧
      oneCaller.Restored .new loaded) ∧
    (new .new : DerivedDb Unit).Rejected .wire sha44 [] := by
  obtain ⟨hwhole, hcut, _⟩ := load_derived_all_or_nothing .wire oneCaller .new sha44 0
  have hne : ∀ es, serializeDerivedStream .wire (oneCaller.derivedHeader sha44 0) es ≠ [] := by
    intro es hnil
    exact Postcard.wire.header.encode_ne_nil _ (List.append_eq_nil_iff.mp hnil).1
  refine ⟨hwhole, (hcut [] _ rfl (hne _)).mpr ?_⟩
  intro k hk
  exact hne _ hk.symm

/-- The file of one entry, cut after its header, loads as a cache without entries. -/
theorem cut_after_header_loads :
    ¬ ∀ p q, oneCaller.saveDerived .wire sha44 0 = p ++ q → q ≠ [] →
      (new .new : DerivedDb Unit).Rejected .wire sha44 p := by
  intro h
  have hentry : Postcard.wire.entry.encodeAll oneCaller.cache.iterPersistent ≠ [] := by
    rw [iterPersistent_oneCaller, Codec.encodeAll]
    intro hnil
    exact Postcard.wire.entry.encode_ne_nil _ (List.append_eq_nil_iff.mp hnil).1
  have hstream := h (serializeDerivedStream .wire (oneCaller.derivedHeader sha44 0) [])
    (Postcard.wire.entry.encodeAll oneCaller.cache.iterPersistent)
    (by rw [saveDerived, serializeDerivedStream, serializeDerivedStream, Codec.encodeAll,
      List.append_nil]) hentry
  exact not_rejected_stream .wire oneCaller _ sha44 0 rfl [] hstream

end Example

end DerivedDb

end Sqry
