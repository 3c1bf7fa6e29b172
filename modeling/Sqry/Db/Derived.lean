import Sqry.Db.Memo
import Sqry.Lib.Codec

/-!
The derived-cache file: the persistent entries of the memo table after a header with the
revisions. Loading decodes the whole file before it changes the database. The number of
entries that the header gives is written and never read.
-/

namespace Sqry

section Format

abbrev Bytes (n : Nat) := List.Vector UInt8 n

def DERIVED_MAGIC : Bytes 16 :=
  ⟨[83, 81, 82, 89, 95, 68, 69, 82, 73, 86, 69, 68, 95, 86, 48, 50], rfl⟩

example : DERIVED_MAGIC.toList.map (fun b => Char.ofNat b.toNat) =
    "SQRY_DERIVED_V02".toList := by decide

def DERIVED_FORMAT_VERSION : Nat := 2

structure QueryDeps where
  fileDeps : List FileDep
  edgeRevision : Option Nat
  metadataRevision : Option Nat
  deriving DecidableEq

structure DerivedHeader where
  magic : Bytes 16
  formatVersion : Nat
  snapshotSha256 : Bytes 32
  edgeRevision : Nat
  metadataRevision : Nat
  fileRevisions : List (FileId × Nat)
  entryCount : Nat
  savedAt : Nat
  deriving DecidableEq

namespace DerivedHeader

def new (snapshotSha256 : Bytes 32) (edgeRevision metadataRevision : Nat)
    (fileRevisions : List (FileId × Nat)) (entryCount savedAt : Nat) : DerivedHeader :=
  ⟨DERIVED_MAGIC, DERIVED_FORMAT_VERSION, snapshotSha256, edgeRevision, metadataRevision,
    fileRevisions, entryCount, savedAt⟩

end DerivedHeader

structure PersistedEntry where
  queryTypeId : Nat
  rawKeyBytes : List UInt8
  rawResultBytes : List UInt8
  deps : QueryDeps
  deriving DecidableEq

instance : Nontrivial DerivedHeader where
  exists_pair_ne :=
    ⟨.new ⟨List.replicate 32 0, rfl⟩ 0 0 [] 0 0, .new ⟨List.replicate 32 0, rfl⟩ 1 0 [] 0 0,
      by decide⟩

instance : Nontrivial PersistedEntry where
  exists_pair_ne := ⟨⟨0, [], [], [], none, none⟩, ⟨1, [], [], [], none, none⟩, by decide⟩

/-- `postcard` at the two record types, with the texts of its errors. -/
structure Postcard where
  header : Codec UInt8 String DerivedHeader
  entry : Codec UInt8 String PersistedEntry

namespace Postcard

def eof : String := "Hit the end of buffer, expected more data"

def varint : Codec UInt8 String Nat := .varint eof

def bytes : Codec UInt8 String (List UInt8) := .list varint (.symbol eof)

def option : Codec UInt8 String (Option Nat) :=
  .option (.tag eof "Found an Option discriminant that wasn't 0 or 1") varint

def revisions : Codec UInt8 String (List (FileId × Nat)) := .list varint (varint.prod varint)

def deps : Codec UInt8 String QueryDeps :=
  (revisions.prod (option.prod option)).map
    { toFun := fun d => ⟨d.1, d.2.1, d.2.2⟩
      invFun := fun d => (d.fileDeps, d.edgeRevision, d.metadataRevision)
      left_inv := fun _ => rfl
      right_inv := fun _ => rfl }

/-- Fields in their order, integers as varints, arrays bare and vectors after their length.
A varint is not cut off at the width of its type here. -/
def wire : Postcard where
  header :=
    (((Codec.symbol eof).replicate 16).prod (varint.prod
      (((Codec.symbol eof).replicate 32).prod (varint.prod (varint.prod
        (revisions.prod (varint.prod varint))))))).map
      { toFun := fun h => ⟨h.1, h.2.1, h.2.2.1, h.2.2.2.1, h.2.2.2.2.1, h.2.2.2.2.2.1,
          h.2.2.2.2.2.2.1, h.2.2.2.2.2.2.2⟩
        invFun := fun h => (h.magic, h.formatVersion, h.snapshotSha256, h.edgeRevision,
          h.metadataRevision, h.fileRevisions, h.entryCount, h.savedAt)
        left_inv := fun _ => rfl
        right_inv := fun _ => rfl }
  entry :=
    (varint.prod (bytes.prod (bytes.prod deps))).map
      { toFun := fun e => ⟨e.1, e.2.1, e.2.2.1, e.2.2.2⟩
        invFun := fun e => (e.queryTypeId, e.rawKeyBytes, e.rawResultBytes, e.deps)
        left_inv := fun _ => rfl
        right_inv := fun _ => rfl }

end Postcard

def serializeDerivedStream (pc : Postcard) (header : DerivedHeader)
    (entries : List PersistedEntry) : List UInt8 :=
  pc.header.encode header ++ pc.entry.encodeAll entries

end Format

section Cache

structure QueryKey where
  typeHash : Nat
  rawKey : List UInt8
  deriving DecidableEq

structure StoredResult (Value : Type) extends CachedResult (Option Value) where
  rawKeyBytes : List UInt8
  rawResultBytes : List UInt8
  queryTypeId : Nat
  persistent : Bool

structure ShardedCache (Value : Type) where
  entries : AList fun _ : QueryKey => StoredResult Value
  keyed : ∀ {key result}, entries.lookup key = some result → result.persistent →
    key = ⟨result.queryTypeId, result.rawKeyBytes⟩

variable {Value : Type}

namespace StoredResult

def new (value : Value) (fileDeps : List FileDep) (edgeRevision metadataRevision : Option Nat) :
    StoredResult Value :=
  ⟨⟨some value, fileDeps, edgeRevision, metadataRevision⟩, [], [], 0, false⟩

def newPersistent (value : Value) (fileDeps : List FileDep)
    (edgeRevision metadataRevision : Option Nat) (rawKeyBytes rawResultBytes : List UInt8)
    (queryTypeId : Nat) : StoredResult Value :=
  ⟨⟨some value, fileDeps, edgeRevision, metadataRevision⟩, rawKeyBytes, rawResultBytes,
    queryTypeId, true⟩

/-- What `insert_validated` stores. -/
def ofEntry (e : PersistedEntry) : StoredResult Value :=
  ⟨⟨none, e.deps.fileDeps, e.deps.edgeRevision, e.deps.metadataRevision⟩, e.rawKeyBytes,
    e.rawResultBytes, e.queryTypeId, true⟩

/-- What `iter_persistent` yields for a persistent entry. -/
def toEntry (r : StoredResult Value) : PersistedEntry :=
  ⟨r.queryTypeId, r.rawKeyBytes, r.rawResultBytes,
    r.fileDeps, r.edgeRevision, r.metadataRevision⟩

end StoredResult

def PersistedEntry.key (e : PersistedEntry) : QueryKey := ⟨e.queryTypeId, e.rawKeyBytes⟩

namespace ShardedCache

def new : ShardedCache Value where
  entries := ∅
  keyed := by
    intro key result h
    rw [AList.lookup_empty] at h
    cases h

def insert (cache : ShardedCache Value) (key : QueryKey) (result : StoredResult Value)
    (hkey : result.persistent → key = ⟨result.queryTypeId, result.rawKeyBytes⟩) :
    ShardedCache Value where
  entries := cache.entries.insert key result
  keyed := by
    intro key' result' h
    by_cases hkey' : key' = key
    · rw [hkey', AList.lookup_insert] at h
      rw [hkey', ← Option.some.inj h]
      exact hkey
    · rw [AList.lookup_insert_ne hkey'] at h
      exact cache.keyed h

/-- `insert_query` for a query type with the given `QUERY_TYPE_ID` and `PERSISTENT`. -/
def insertQuery (cache : ShardedCache Value) (queryTypeId : Nat) (persistent : Bool)
    (rawKey : List UInt8) (value : Value) (rawValue : List UInt8) (fileDeps : List FileDep)
    (edgeRevision metadataRevision : Option Nat) (maxEntrySizeBytes : Nat) :
    ShardedCache Value :=
  if !persistent then
    cache.insert ⟨queryTypeId, rawKey⟩
      (.new value fileDeps edgeRevision metadataRevision) (fun h => Bool.noConfusion h)
  else if maxEntrySizeBytes < rawValue.length then cache
  else
    cache.insert ⟨queryTypeId, rawKey⟩
      (.newPersistent value fileDeps edgeRevision metadataRevision rawKey rawValue queryTypeId)
      (fun _ => rfl)

def insertValidated (cache : ShardedCache Value) (e : PersistedEntry) : ShardedCache Value :=
  cache.insert e.key (.ofEntry e) (fun _ => rfl)

def iterPersistent (cache : ShardedCache Value) : List PersistedEntry :=
  (cache.entries.entries.filter fun entry => entry.2.persistent).map fun entry =>
    entry.2.toEntry

theorem lookup_insertValidated (cache : ShardedCache Value) (e : PersistedEntry)
    (key : QueryKey) : (cache.insertValidated e).entries.lookup key =
      if key = e.key then some (.ofEntry e) else cache.entries.lookup key := by
  by_cases h : key = e.key
  · rw [if_pos h, h]
    exact AList.lookup_insert _
  · rw [if_neg h]
    exact AList.lookup_insert_ne h

theorem mem_iterPersistent {cache : ShardedCache Value} {e : PersistedEntry} :
    e ∈ cache.iterPersistent ↔
      ∃ key result, cache.entries.lookup key = some result ∧ result.persistent ∧
        result.toEntry = e := by
  rw [iterPersistent, List.mem_map]
  constructor
  · intro h
    obtain ⟨⟨key, result⟩, hmem, rfl⟩ := h
    rw [List.mem_filter] at hmem
    exact ⟨key, result, AList.mem_lookup_iff.mpr hmem.1, hmem.2, rfl⟩
  · intro h
    obtain ⟨key, result, hlookup, hpersistent, rfl⟩ := h
    refine ⟨⟨key, result⟩, ?_, rfl⟩
    rw [List.mem_filter]
    exact ⟨AList.mem_lookup_iff.mp hlookup, hpersistent⟩

theorem nodup_keys_iterPersistent (cache : ShardedCache Value) :
    (cache.iterPersistent.map PersistedEntry.key).Nodup := by
  have hkeys : cache.iterPersistent.map PersistedEntry.key =
      (cache.entries.entries.filter fun entry => entry.2.persistent).map Sigma.fst := by
    rw [iterPersistent, List.map_map]
    apply List.map_congr_left
    intro entry hmem
    rw [List.mem_filter] at hmem
    exact (cache.keyed (AList.mem_lookup_iff.mpr hmem.1) hmem.2).symm
  rw [hkeys]
  have hnodup : (cache.entries.entries.map Sigma.fst).Nodup := cache.entries.nodupKeys
  exact hnodup.sublist (List.filter_sublist.map Sigma.fst)

theorem lookup_foldl_insertValidated (es : List PersistedEntry) (cache : ShardedCache Value)
    (hkeys : (es.map PersistedEntry.key).Nodup) (key : QueryKey) (r : StoredResult Value) :
    (es.foldl insertValidated cache).entries.lookup key = some r ↔
      (∃ e ∈ es, key = e.key ∧ r = .ofEntry e) ∨
        ((∀ e ∈ es, key ≠ e.key) ∧ cache.entries.lookup key = some r) := by
  induction es generalizing cache with
  | nil => simp
  | cons e es ih =>
    rw [List.map_cons, List.nodup_cons] at hkeys
    rw [List.foldl_cons, ih _ hkeys.2, lookup_insertValidated]
    by_cases h : key = e.key
    · have hlater : ∀ e' ∈ es, key ≠ e'.key := by
        intro e' he' hkey
        exact hkeys.1 (List.mem_map.mpr ⟨e', he', by rw [← hkey, h]⟩)
      rw [if_pos h]
      constructor
      · intro hread
        rcases hread with ⟨e', he', hkey, _⟩ | ⟨_, hr⟩
        · exact absurd hkey (hlater e' he')
        · exact Or.inl ⟨e, List.mem_cons_self, h, (Option.some.inj hr).symm⟩
      · intro hread
        rcases hread with ⟨e', he', hkey, hr⟩ | ⟨hnone, _⟩
        · cases List.mem_cons.mp he' with
          | inl heq => exact Or.inr ⟨hlater, by rw [hr, heq]⟩
          | inr htail => exact absurd hkey (hlater e' htail)
        · exact absurd h (hnone e List.mem_cons_self)
    · simp [h]

end ShardedCache

end Cache

section Load

variable {Value : Type}

structure DerivedDb (Value : Type) where
  inputs : FileInputStore
  cache : ShardedCache Value
  edgeRevision : Nat
  metadataRevision : Nat
  coldLoadAllowed : Bool

inductive LoadError where
  | staleSnapshot
  | corrupt (detail : String)
  | alreadyLoaded
  deriving DecidableEq

/-- The 15 query types with ids `0x0001` to `0x000F`. -/
def isKnownBuiltin (id : Nat) : Bool := 1 ≤ id && id ≤ 15

/-- Decode the entries until the tail is empty; those of unknown types are skipped. A staged
entry has the fields of a persisted one. -/
def stageEntries (pc : Postcard) (tail : List UInt8) (staged : List PersistedEntry) :
    Except LoadError (List PersistedEntry) :=
  if tail.isEmpty then .ok staged
  else
    match _hread : pc.entry.take tail with
    | .error e => .error (.corrupt s!"entry decode: {e}")
    | .ok (entry, rest) =>
      if !isKnownBuiltin entry.queryTypeId then stageEntries pc rest staged
      else stageEntries pc rest (staged ++ [entry])
termination_by tail.length
decreasing_by
  · exact pc.entry.length_of_take _hread
  · exact pc.entry.length_of_take _hread

namespace DerivedDb

def new (inputs : FileInputStore) : DerivedDb Value := ⟨inputs, .new, 0, 0, true⟩

def derivedHeader (db : DerivedDb Value) (snapshotSha256 : Bytes 32) (savedAt : Nat) :
    DerivedHeader :=
  .new snapshotSha256 db.edgeRevision db.metadataRevision db.inputs.allRevisions
    db.cache.iterPersistent.length savedAt

/-- The bytes that `save_derived` writes. -/
def saveDerived (pc : Postcard) (db : DerivedDb Value) (snapshotSha256 : Bytes 32)
    (savedAt : Nat) : List UInt8 :=
  serializeDerivedStream pc (db.derivedHeader snapshotSha256 savedAt) db.cache.iterPersistent

def commitStagedLoad (db : DerivedDb Value) (header : DerivedHeader)
    (staged : List PersistedEntry) : DerivedDb Value :=
  { db with
    edgeRevision := header.edgeRevision
    metadataRevision := header.metadataRevision
    inputs := db.inputs.restoreRevisions header.fileRevisions
    cache := staged.foldl ShardedCache.insertValidated db.cache }

/-- `load_derived` on the bytes of the file: the number of entries applied, and the
database afterwards. -/
def loadDerived (pc : Postcard) (db : DerivedDb Value) (snapshotSha256 : Bytes 32)
    (bytes : List UInt8) : Except LoadError Nat × DerivedDb Value :=
  if !db.coldLoadAllowed then (.error .alreadyLoaded, db)
  else
    match pc.header.take bytes with
    | .error e => (.error (.corrupt s!"header decode: {e}"), db)
    | .ok (header, tail) =>
      if header.magic ≠ DERIVED_MAGIC then (.error (.corrupt "magic mismatch"), db)
      else if header.formatVersion ≠ DERIVED_FORMAT_VERSION then
        let version := header.formatVersion
        (.error (.corrupt
          s!"version mismatch: expected {DERIVED_FORMAT_VERSION}, got {version}"), db)
      else if header.snapshotSha256 ≠ snapshotSha256 then (.error .staleSnapshot, db)
      else
        match stageEntries pc tail [] with
        | .error e => (.error e, db)
        | .ok staged =>
          (.ok staged.length,
            { db.commitStagedLoad header staged with coldLoadAllowed := false })

end DerivedDb

end Load

end Sqry
