import Sqry.Db.Staleness
import Sqry.Edge.Store

/-!
The memo table of derived queries. What a query does is an interaction: it reads the
contents of files, which records them, the edges or the metadata, and gets the results of
other queries. A result is stored with the files recorded while it was computed and with
the global revisions that its own query type tracks.
-/

namespace Sqry

structure QuerySnapshot (Content Edges Metadata : Type) where
  contents : FileId → Content
  edges : Edges
  metadata : Metadata

/-- The body of an `execute` for a given key. -/
inductive Exec (Key Value Content Edges Metadata : Type) where
  | done (value : Value)
  /-- `record_file_dep(file)` and a read of the file. -/
  | readFile (file : FileId) (next : Content → Exec Key Value Content Edges Metadata)
  | readEdges (next : Edges → Exec Key Value Content Edges Metadata)
  | readMetadata (next : Metadata → Exec Key Value Content Edges Metadata)
  /-- A nested `QueryDb::get`. -/
  | get (key : Key) (next : Value → Exec Key Value Content Edges Metadata)

structure CachedResult (Value : Type) where
  value : Value
  fileDeps : List FileDep
  edgeRevision : Option Nat
  metadataRevision : Option Nat

/-- A family of query types. A key names a type together with an input of it. -/
structure QueryFamily (Key Value Content Edges Metadata : Type) where
  execute : Key → Exec Key Value Content Edges Metadata
  tracksEdgeRevision : Key → Bool
  tracksMetadataRevision : Key → Bool
  /-- Whether the serialised value fits the size limit of an entry. -/
  storable : Key → Value → Bool

structure QueryDb (Key Value Content Edges Metadata : Type) where
  inputs : FileInputStore
  cache : AList fun _ : Key => CachedResult Value
  edgeRevision : Nat
  metadataRevision : Nat
  snapshot : QuerySnapshot Content Edges Metadata
  cacheHits : Nat
  cacheMisses : Nat
  /-- The thread-local dependency recorder. -/
  recorder : DependencyRecorder

variable {Key Value Content Edges Metadata : Type}

namespace QueryDb

def new (snapshot : QuerySnapshot Content Edges Metadata) (inputs : FileInputStore) :
    QueryDb Key Value Content Edges Metadata :=
  ⟨inputs, ∅, 0, 0, snapshot, 0, 0, .empty⟩

def recordFileDep (db : QueryDb Key Value Content Edges Metadata) (file : FileId) :
    QueryDb Key Value Content Edges Metadata :=
  { db with recorder := db.recorder.recordFileDep file }

def enter (db : QueryDb Key Value Content Edges Metadata) :
    QueryDb Key Value Content Edges Metadata :=
  { db with cacheMisses := db.cacheMisses + 1, recorder := db.recorder.enter }

end QueryDb

namespace QueryFamily

variable (fam : QueryFamily Key Value Content Edges Metadata)

def tierValid (tracks : Bool) (cached : Option Nat) (current : Nat) : Bool :=
  if tracks then
    match cached with
    | some r => r = current
    | none => false
  else true

def validateCachedResult (db : QueryDb Key Value Content Edges Metadata) (key : Key)
    (cached : CachedResult Value) : Bool :=
  validateFileDeps cached.fileDeps db.inputs &&
    tierValid (fam.tracksEdgeRevision key) cached.edgeRevision db.edgeRevision &&
    tierValid (fam.tracksMetadataRevision key) cached.metadataRevision db.metadataRevision

variable [DecidableEq Key]

def getIfValid (db : QueryDb Key Value Content Edges Metadata) (key : Key) :
    Option (CachedResult Value) :=
  (db.cache.lookup key).filter (fam.validateCachedResult db key)

def resultOf (db : QueryDb Key Value Content Edges Metadata) (key : Key) (value : Value) :
    CachedResult Value :=
  ⟨value, (db.recorder.finish db.inputs).1,
    if fam.tracksEdgeRevision key then some db.edgeRevision else none,
    if fam.tracksMetadataRevision key then some db.metadataRevision else none⟩

def store (db : QueryDb Key Value Content Edges Metadata) (key : Key) (value : Value) :
    QueryDb Key Value Content Edges Metadata :=
  { db with
    recorder := (db.recorder.finish db.inputs).2
    cache :=
      if fam.storable key value then db.cache.insert key (fam.resultOf db key value)
      else db.cache }

/-- Run a body; `none` when a nested call does not return. -/
def runExec (get : QueryDb Key Value Content Edges Metadata → Key →
      Option (Value × QueryDb Key Value Content Edges Metadata)) :
    QueryDb Key Value Content Edges Metadata → Exec Key Value Content Edges Metadata →
      Option (Value × QueryDb Key Value Content Edges Metadata)
  | db, .done value => some (value, db)
  | db, .readFile file next =>
    runExec get (db.recordFileDep file) (next (db.snapshot.contents file))
  | db, .readEdges next => runExec get db (next db.snapshot.edges)
  | db, .readMetadata next => runExec get db (next db.snapshot.metadata)
  | db, .get key next =>
    match get db key with
    | none => none
    | some (value, db) => runExec get db (next value)

/-- `QueryDb::get`, with the number of nested calls that may be open. -/
def get : Nat → QueryDb Key Value Content Edges Metadata → Key →
    Option (Value × QueryDb Key Value Content Edges Metadata)
  | 0, _, _ => none
  | n + 1, db, key =>
    match fam.getIfValid db key with
    | some cached => some (cached.value, { db with cacheHits := db.cacheHits + 1 })
    | none =>
      match runExec (get n) db.enter (fam.execute key) with
      | none => none
      | some (value, db) => some (value, fam.store db key value)

omit [DecidableEq Key] in
def recomputeExec (recompute : Key → Option Value)
    (w : QuerySnapshot Content Edges Metadata) :
    Exec Key Value Content Edges Metadata → Option Value
  | .done value => some value
  | .readFile file next => recomputeExec recompute w (next (w.contents file))
  | .readEdges next => recomputeExec recompute w (next w.edges)
  | .readMetadata next => recomputeExec recompute w (next w.metadata)
  | .get key next =>
    match recompute key with
    | none => none
    | some value => recomputeExec recompute w (next value)

omit [DecidableEq Key] in
def recompute : Nat → QuerySnapshot Content Edges Metadata → Key → Option Value
  | 0, _, _ => none
  | n + 1, w, key => recomputeExec (recompute n w) w (fam.execute key)

end QueryFamily

section Operations

/-- A new snapshot with the updates and bumps that accompany it. -/
structure SnapshotChange (Content Edges Metadata : Type) where
  snapshot : QuerySnapshot Content Edges Metadata
  updates : List (FileId × List NodeId)
  edgeBumps : Nat
  metadataBumps : Nat

inductive QueryOp (Key Content Edges Metadata : Type) where
  | get (depth : Nat) (key : Key)
  | change (c : SnapshotChange Content Edges Metadata)

/-- `bump_edge_revision` and `bump_metadata_revision`, called a number of times. -/
def bumpRevision (revision : Nat) : Nat → Nat
  | 0 => revision
  | k + 1 => bumpRevision (wrappingSucc revision) k

namespace QueryDb

def applyChange (db : QueryDb Key Value Content Edges Metadata)
    (c : SnapshotChange Content Edges Metadata) : QueryDb Key Value Content Edges Metadata :=
  { db with
    snapshot := c.snapshot
    inputs := c.updates.foldl (fun s u => s.updateFile u.1 u.2) db.inputs
    edgeRevision := bumpRevision db.edgeRevision c.edgeBumps
    metadataRevision := bumpRevision db.metadataRevision c.metadataBumps }

end QueryDb

def QueryFamily.step [DecidableEq Key] (fam : QueryFamily Key Value Content Edges Metadata)
    (db : QueryDb Key Value Content Edges Metadata) :
    QueryOp Key Content Edges Metadata → Option (QueryDb Key Value Content Edges Metadata)
  | .get depth key => (fam.get depth db key).map Prod.snd
  | .change c => some (db.applyChange c)

end Operations

end Sqry
