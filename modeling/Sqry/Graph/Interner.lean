import Mathlib.Data.List.AList
import Sqry.Graph.Arena

/-!
The string interner: string slots, reference counts, a reverse lookup map and a stack
of recycled slots. Bulk allocation writes slots behind the map's back, and a flag says
that the map is stale until it is rebuilt. Operations that panic are `none`.
-/

namespace Sqry

def LOCAL_TAG_BIT : Nat := 2147483648

def hasLocalTag (index : Nat) : Bool := (index &&& LOCAL_TAG_BIT) != 0

inductive InternError where
  | capacityExhausted
  deriving DecidableEq, Repr

/-- `freeList` holds the most recently recycled slot first. -/
structure StringInterner where
  strings : List (Option String)
  lookup : AList fun _ : String => Nat
  refCounts : List Nat
  freeList : List Nat
  maxIds : Option Nat
  lookupStale : Bool

namespace StringInterner

def new : StringInterner := ⟨[none], ∅, [0], [], none, false⟩

def saturatingAdd (m n : Nat) : Nat := min (m + n) u32Max

/-- The part of `intern` that allocates a slot for a string it has not seen. -/
def allocate (x : StringInterner) (s : String) (refCount : Nat) :
    Option (StringInterner × Except InternError Nat) :=
  match x.freeList with
  | freeIdx :: rest =>
    if freeIdx < x.strings.length ∧ freeIdx < x.refCounts.length then
      some ({ x with
        strings := x.strings.set freeIdx (some s)
        refCounts := x.refCounts.set freeIdx refCount
        freeList := rest
        lookup := x.lookup.insert s freeIdx }, .ok freeIdx)
    else none
  | [] =>
    if x.strings.length > u32Max ∨ x.strings.length = u32Max ∨ hasLocalTag x.strings.length then
      some (x, .error .capacityExhausted)
    else
      some ({ x with
        strings := x.strings ++ [some s]
        refCounts := x.refCounts ++ [refCount]
        lookup := x.lookup.insert s x.strings.length }, .ok x.strings.length)

def limitReached (x : StringInterner) : Bool :=
  match x.maxIds with
  | some max => x.lookup.entries.length ≥ max
  | none => false

def intern (x : StringInterner) (s : String) :
    Option (StringInterner × Except InternError Nat) :=
  if x.lookupStale then none
  else
    match x.lookup.lookup s with
    | some index =>
      match x.refCounts[index]? with
      | some count =>
        some ({ x with refCounts := x.refCounts.set index (saturatingAdd count 1) }, .ok index)
      | none => none
    | none => if x.limitReached then some (x, .error .capacityExhausted) else x.allocate s 1

def internWithoutRef (x : StringInterner) (s : String) :
    Option (StringInterner × Except InternError Nat) :=
  if x.lookupStale then none
  else
    match x.lookup.lookup s with
    | some index => some (x, .ok index)
    | none => if x.limitReached then some (x, .error .capacityExhausted) else x.allocate s 0

def resolve (x : StringInterner) (id : Nat) : Option String :=
  if id = u32Max then none else x.strings[id]?.join

/-- `inc_ref` and `dec_ref` differ in how they change the count. -/
def updateRef (change : Nat → Nat) (x : StringInterner) (id : Nat) :
    Option (StringInterner × Option Nat) :=
  if id = u32Max then some (x, none)
  else
    match x.refCounts[id]? with
    | none => some (x, none)
    | some count =>
      match x.strings[id]? with
      | none => none
      | some none => some (x, none)
      | some (some _) =>
        some ({ x with refCounts := x.refCounts.set id (change count) }, some (change count))

def incRef : StringInterner → Nat → Option (StringInterner × Option Nat) :=
  updateRef fun count => saturatingAdd count 1

def decRef : StringInterner → Nat → Option (StringInterner × Option Nat) :=
  updateRef fun count => count - 1

/-- The body of the loop in `recycle_unreferenced`. -/
def recycleAt (x : StringInterner) (recycled index : Nat) : Option (StringInterner × Nat) :=
  match x.refCounts[index]? with
  | none => none
  | some 0 =>
    match x.strings[index]? with
    | some (some s) =>
      some ({ x with
        strings := x.strings.set index none
        lookup := x.lookup.erase s
        freeList := if index ≤ u32Max then index :: x.freeList else x.freeList },
        recycled + 1)
    | _ => some (x, recycled)
  | some (_ + 1) => some (x, recycled)

def recycleFrom : List Nat → StringInterner → Nat → Option (StringInterner × Nat)
  | [], x, recycled => some (x, recycled)
  | index :: rest, x, recycled =>
    match recycleAt x recycled index with
    | none => none
    | some (x, recycled) => recycleFrom rest x recycled

def recycleUnreferenced (x : StringInterner) : Option (StringInterner × Nat) :=
  if x.lookupStale then none
  else recycleFrom (List.range' 1 (x.strings.length - 1)) x 0

def clear (x : StringInterner) : StringInterner :=
  { x with
    strings := (x.strings.take 1).set 0 none
    lookup := ∅
    refCounts := (x.refCounts.take 1).set 0 0
    freeList := []
    lookupStale := false }

def allocRange (x : StringInterner) (count : Nat) : StringInterner × Except InternError Nat :=
  if x.strings.length > u32Max then (x, .error .capacityExhausted)
  else if count = 0 then (x, .ok x.strings.length)
  else if x.strings.length + count > u32Max then (x, .error .capacityExhausted)
  else if hasLocalTag (x.strings.length + count - 1) then (x, .error .capacityExhausted)
  else
    ({ x with
      strings := x.strings ++ List.replicate count none
      refCounts := x.refCounts.take (x.strings.length + count) ++
        List.replicate (x.strings.length + count - x.refCounts.length) 0
      lookupStale := true }, .ok x.strings.length)

/-- `bulk_slices_mut` for the range from `start` that the given values fill, together
with the writes of these values through the two slices. -/
def bulkWrite (x : StringInterner) (start : Nat) (values : List (Option String × Nat)) :
    Option StringInterner :=
  if start + values.length ≤ x.strings.length ∧ start + values.length ≤ x.refCounts.length then
    some { x with
      strings := x.strings.take start ++ values.map Prod.fst ++
        x.strings.drop (start + values.length)
      refCounts := x.refCounts.take start ++ values.map Prod.snd ++
        x.refCounts.drop (start + values.length)
      lookupStale := x.lookupStale || decide (0 < values.length) }
  else none

structure DedupState where
  interner : StringInterner
  canonical : AList fun _ : String => Nat
  remap : AList fun _ : Nat => Nat

/-- The body of the loop in `build_dedup_table`. -/
def dedupAt (d : DedupState) (idx : Nat) : Option DedupState :=
  match d.interner.strings[idx]? with
  | some (some s) =>
    match d.canonical.lookup s with
    | some canonIdx =>
      match d.interner.refCounts[idx]?, d.interner.refCounts[canonIdx]? with
      | some dupCount, some canonCount =>
        if idx > u32Max then none
        else
          some ⟨{ d.interner with
            strings := d.interner.strings.set idx none
            refCounts := (d.interner.refCounts.set canonIdx
              (saturatingAdd canonCount dupCount)).set idx 0
            freeList := idx :: d.interner.freeList },
            d.canonical, d.remap.insert idx canonIdx⟩
      | _, _ => none
    | none =>
      if idx > u32Max then none
      else some { d with canonical := d.canonical.insert s idx }
  | _ => some d

def dedupFrom : List Nat → DedupState → Option DedupState
  | [], d => some d
  | idx :: rest, d =>
    match dedupAt d idx with
    | none => none
    | some d => dedupFrom rest d

def buildDedupTable (x : StringInterner) : Option (StringInterner × AList fun _ : Nat => Nat) :=
  (dedupFrom (List.range' 1 (x.strings.length - 1)) ⟨x, ∅, ∅⟩).map fun d =>
    ({ d.interner with lookup := d.canonical, lookupStale := false }, d.remap)

def truncateTo (x : StringInterner) (savedLen : Nat) : Option StringInterner :=
  if savedLen ≥ 1 then
    some { x with
      strings := x.strings.take savedLen
      refCounts := x.refCounts.take savedLen
      lookupStale := false }
  else none

end StringInterner
end Sqry
