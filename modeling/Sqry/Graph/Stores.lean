import Sqry.Graph.Merge
import Sqry.Graph.Snapshot
import Sqry.Lib.KeyIndex
import Sqry.Lib.KeyedSlots

/-!
The registry of files: the slots with their paths, the index from paths to slots, the slots
that may be used again, and the nodes recorded for each file. What normalises a path is a
parameter. Each operation returns the state it leaves, also when it reports an error.
-/

namespace Sqry
namespace Registry

inductive RegistryError (π : Type) where
  | capacityExhausted
  | canonicalizationFailed (path : π) (message : String)
  deriving DecidableEq, Repr

structure FileEntry (π : Type) where
  path : π
  language : Option Language
  isExternal : Bool
  contentHash : List UInt8
  indexedAt : Nat
  sourceUri : Option StringId

def defaultContentHash : List UInt8 := List.replicate 32 0

/-- `freeList` holds the most recently freed slot first. -/
structure FileRegistry (π : Type) [DecidableEq π] where
  entries : List (Option (FileEntry π))
  lookup : AList fun _ : π => Nat
  freeList : List Nat
  perFileNodes : AList fun _ : FileId => List NodeId

/-- What the system makes of a path, at best and strictly. -/
structure PathFunctions (π : Type) where
  normalizePath : π → π
  canonicalize : π → Except String π

namespace FileRegistry
variable {π : Type} [DecidableEq π]

def new : FileRegistry π := ⟨[none], ∅, [], ∅⟩

def allocate (r : FileRegistry π) (entry : FileEntry π) :
    FileRegistry π × Except (RegistryError π) FileId :=
  match r.freeList with
  | freeIdx :: freeList =>
    ({ r with
      entries := r.entries.set freeIdx (some entry)
      freeList := freeList
      lookup := r.lookup.insert entry.path freeIdx }, .ok freeIdx)
  | [] =>
    if r.entries.length > u32Max - 1 then (r, .error .capacityExhausted)
    else
      ({ r with
        entries := r.entries ++ [some entry]
        lookup := r.lookup.insert entry.path r.entries.length }, .ok r.entries.length)

/-- What the ways to register a path have in common. `known` changes the entry that is there. -/
def registerEntry (r : FileRegistry π) (known : FileEntry π → FileEntry π)
    (entry : FileEntry π) : FileRegistry π × Except (RegistryError π) FileId :=
  match r.lookup.lookup entry.path with
  | some index => ({ r with entries := r.entries.modify index (Option.map known) }, .ok index)
  | none => r.allocate entry

def newEntry (path : π) (language : Option Language) : FileEntry π :=
  ⟨path, language, false, defaultContentHash, 0, none⟩

def setLanguage (language : Option Language) (entry : FileEntry π) : FileEntry π :=
  match language with
  | some lang => { entry with language := some lang }
  | none => entry

def registerCanonicalWithLanguage (r : FileRegistry π) (path : π)
    (language : Option Language) : FileRegistry π × Except (RegistryError π) FileId :=
  r.registerEntry (setLanguage language) (newEntry path language)

def registerWithLanguage (paths : PathFunctions π) (r : FileRegistry π) (path : π)
    (language : Option Language) : FileRegistry π × Except (RegistryError π) FileId :=
  r.registerEntry (setLanguage language) (newEntry (paths.normalizePath path) language)

def register (paths : PathFunctions π) (r : FileRegistry π) (path : π) :
    FileRegistry π × Except (RegistryError π) FileId :=
  r.registerWithLanguage paths path none

def registerCanonical (r : FileRegistry π) (path : π) :
    FileRegistry π × Except (RegistryError π) FileId :=
  r.registerCanonicalWithLanguage path none

def tryRegisterStrict (paths : PathFunctions π) (r : FileRegistry π) (path : π) :
    FileRegistry π × Except (RegistryError π) FileId :=
  match paths.canonicalize path with
  | .error message => (r, .error (.canonicalizationFailed path message))
  | .ok canonical => r.registerEntry id (newEntry canonical none)

def markExternal (language : Option Language) (sourceUri : Option StringId)
    (entry : FileEntry π) : FileEntry π :=
  { setLanguage language { entry with isExternal := true } with
    sourceUri := sourceUri.or entry.sourceUri }

def registerExternalWithUri (r : FileRegistry π) (path : π) (language : Option Language)
    (sourceUri : Option StringId) : FileRegistry π × Except (RegistryError π) FileId :=
  r.registerEntry (markExternal language sourceUri)
    { newEntry path language with isExternal := true, sourceUri := sourceUri }

def registerExternal (r : FileRegistry π) (path : π) (language : Option Language) :
    FileRegistry π × Except (RegistryError π) FileId :=
  r.registerExternalWithUri path language none

def registerBatch (paths : PathFunctions π) :
    FileRegistry π → List (π × Option Language) →
      FileRegistry π × Except (RegistryError π) (List FileId)
  | r, [] => (r, .ok [])
  | r, (path, language) :: files =>
    match r.registerWithLanguage paths path language with
    | (r, .error e) => (r, .error e)
    | (r, .ok file) =>
      match registerBatch paths r files with
      | (r, .error e) => (r, .error e)
      | (r, .ok ids) => (r, .ok (file :: ids))

def resolve (r : FileRegistry π) (file : FileId) : Option π :=
  if file = FileId.INVALID then none else r.entries[file]?.join.map FileEntry.path

def unregister (r : FileRegistry π) (file : FileId) : FileRegistry π × Option π :=
  if file = FileId.INVALID then (r, none)
  else
    match r.entries[file]?.join with
    | none => (r, none)
    | some entry =>
      ({ entries := r.entries.set file none
         lookup := r.lookup.erase entry.path
         freeList := file :: r.freeList
         perFileNodes := r.perFileNodes.erase file }, some entry.path)

def recordNode (r : FileRegistry π) (file : FileId) (node : NodeId) : FileRegistry π :=
  { r with perFileNodes := Buckets.push r.perFileNodes file node }

def nodesForFile (r : FileRegistry π) (file : FileId) : List NodeId :=
  Buckets.bucket r.perFileNodes file

def takeNodes (r : FileRegistry π) (file : FileId) : FileRegistry π × List NodeId :=
  ({ r with perFileNodes := r.perFileNodes.erase file }, r.nodesForFile file)

def retainNodesInBuckets (r : FileRegistry π) (keep : NodeId → Bool) : FileRegistry π :=
  { r with
    perFileNodes := Buckets.rebucket (fun b => (b.filter keep).eraseDups) r.perFileNodes }

def clear (_ : FileRegistry π) : FileRegistry π := ⟨[none], ∅, [], ∅⟩

end FileRegistry
end Registry
end Sqry

/-!
The four indices of the nodes, by kind, name, qualified name and file, with the count of the
indexed nodes. The maps iterate in the order of their keys, which no result here depends on.
-/

namespace Sqry

abbrev IndexMap (κ : Type) : Type := AList fun _ : κ => List NodeId

abbrev StringRemap : Type := AList fun _ : StringId => StringId

structure AuxiliaryIndices where
  kindIndex : IndexMap NodeKind
  nameIndex : IndexMap StringId
  qualifiedNameIndex : IndexMap StringId
  fileIndex : IndexMap FileId
  nodeCount : Nat

namespace AuxiliaryIndices

def new : AuxiliaryIndices := ⟨∅, ∅, ∅, ∅, 0⟩

def len (x : AuxiliaryIndices) : Nat := x.nodeCount

def insertAll (x : AuxiliaryIndices) (id : NodeId) (kind : NodeKind) (name : StringId)
    (qualifiedName : Option StringId) (file : FileId) : AuxiliaryIndices :=
  { kindIndex := Buckets.push x.kindIndex kind id
    nameIndex := Buckets.push x.nameIndex name id
    qualifiedNameIndex :=
      match qualifiedName with
      | some qn => Buckets.push x.qualifiedNameIndex qn id
      | none => x.qualifiedNameIndex
    fileIndex := Buckets.push x.fileIndex file id
    nodeCount := x.nodeCount + 1 }

def add (x : AuxiliaryIndices) (id : NodeId) (kind : NodeKind) (name : StringId)
    (qualifiedName : Option StringId) (file : FileId) : AuxiliaryIndices × Bool :=
  if id ∈ Buckets.bucket x.kindIndex kind then (x, false)
  else (x.insertAll id kind name qualifiedName file, true)

section Index
variable {κ : Type} [DecidableEq κ]

def removeIdFromIndex (index : IndexMap κ) (key : κ) (id : NodeId) : IndexMap κ × Bool :=
  KeyIndex.removeItem index key id

def retainNonEmpty (index : IndexMap κ) : IndexMap κ := Buckets.rebucket id index

/-- `retain` on every bucket, and `retainNonEmpty`. -/
def retainIds (index : IndexMap κ) (keep : NodeId → Bool) : IndexMap κ :=
  Buckets.retain keep index

end Index

def removeQualified (index : IndexMap StringId) (qualifiedName : Option StringId) (id : NodeId) :
    IndexMap StringId :=
  match qualifiedName with
  | some qn => (removeIdFromIndex index qn id).1
  | none => index

def canonicalName (remap : StringRemap) (id : StringId) : StringId := (remap.lookup id).getD id

def remapStringKeyedIndex (index : IndexMap StringId) (remap : StringRemap) : IndexMap StringId :=
  let movers := index.keys.filter fun key => key ∈ remap
  if movers.isEmpty then index
  else
    retainNonEmpty (movers.foldl (fun index oldKey =>
      KeyIndex.mergeKey index oldKey (canonicalName remap oldKey)) index)

def rewriteStringIdsThroughRemap (x : AuxiliaryIndices) (remap : StringRemap) :
    AuxiliaryIndices :=
  if remap.entries.isEmpty then x
  else
    { x with
      nameIndex := remapStringKeyedIndex x.nameIndex remap
      qualifiedNameIndex := remapStringKeyedIndex x.qualifiedNameIndex remap }

def retainNodeIds (x : AuxiliaryIndices) (keep : NodeId → Bool) : AuxiliaryIndices :=
  let kindIndex := retainIds x.kindIndex keep
  { kindIndex := kindIndex
    nameIndex := retainIds x.nameIndex keep
    qualifiedNameIndex := retainIds x.qualifiedNameIndex keep
    fileIndex := retainIds x.fileIndex keep
    nodeCount := (Buckets.all kindIndex).length }

def remove (x : AuxiliaryIndices) (id : NodeId) (kind : NodeKind) (name : StringId)
    (qualifiedName : Option StringId) (file : FileId) : AuxiliaryIndices × Bool :=
  let (kindIndex, removed) := removeIdFromIndex x.kindIndex kind id
  ({ kindIndex := kindIndex
     nameIndex := (removeIdFromIndex x.nameIndex name id).1
     qualifiedNameIndex := removeQualified x.qualifiedNameIndex qualifiedName id
     fileIndex := (removeIdFromIndex x.fileIndex file id).1
     nodeCount := if removed then x.nodeCount - 1 else x.nodeCount }, removed)

structure NodeInfo where
  id : NodeId
  kind : NodeKind
  name : StringId
  qualifiedName : Option StringId

def removeNodesWithInfo : AuxiliaryIndices → List NodeInfo → AuxiliaryIndices × Nat
  | x, [] => (x, 0)
  | x, node :: nodes =>
    let (kindIndex, removed) := removeIdFromIndex x.kindIndex node.kind node.id
    let (x, count) := removeNodesWithInfo
      { x with
        kindIndex := kindIndex
        nameIndex := (removeIdFromIndex x.nameIndex node.name node.id).1
        qualifiedNameIndex :=
          removeQualified x.qualifiedNameIndex node.qualifiedName node.id } nodes
    (x, if removed then count + 1 else count)

def removeFileWithInfo (x : AuxiliaryIndices) (file : FileId) (nodes : List NodeInfo) :
    AuxiliaryIndices × Nat :=
  let (x, removedCount) := removeNodesWithInfo { x with fileIndex := x.fileIndex.erase file } nodes
  ({ x with nodeCount := x.nodeCount - removedCount }, removedCount)

def buildFromArena (arena : NodeArena FullNodeEntry) : AuxiliaryIndices :=
  arena.iter.foldl (fun x node =>
    if node.2.name = StringId.INVALID then x
    else x.insertAll node.1 node.2.kind node.2.name node.2.qualifiedName node.2.file) new

end AuxiliaryIndices
end Sqry

/-!
The stores of a graph that the passes over whole graphs read: the nodes, the edges, the files
and the indices.
-/

namespace Sqry

namespace Registry.FileRegistry
variable {π : Type} [DecidableEq π]

def iterFrom : Nat → List (Option (FileEntry π)) → List (FileId × π)
  | _, [] => []
  | index, none :: entries => iterFrom (index + 1) entries
  | index, some entry :: entries =>
    if index ≤ u32Max then (index, entry.path) :: iterFrom (index + 1) entries
    else iterFrom (index + 1) entries

def iter (r : FileRegistry π) : List (FileId × π) := iterFrom 1 (r.entries.drop 1)

end Registry.FileRegistry

def AuxiliaryIndices.byFile (x : AuxiliaryIndices) (file : FileId) : List NodeId :=
  Buckets.bucket x.fileIndex file

structure GraphStores (π : Type) [DecidableEq π] where
  nodes : NodeArena FullNodeEntry
  edges : BidirectionalEdgeStore
  files : Registry.FileRegistry π
  indices : AuxiliaryIndices

end Sqry
