import Sqry.Graph.Snapshot
import Sqry.Lib.SortedGroups
import Sqry.Planner.Ir

/-!
The relation queries of the planner: one pass over the nodes for an index from slots to
live identifiers, and one over all forward edges. File dependencies are recorded on the
way in the source and left out here.
-/

namespace Sqry

inductive RelationKey where
  | pattern (p : StringPattern)
  | regex (r : RegexPattern)
  deriving DecidableEq, Repr

namespace RelationKey

def ofExact (raw : String) : RelationKey := .pattern (.ofExact raw)

end RelationKey

inductive RelationDirection where
  | forward | reverse | both
  deriving DecidableEq, Repr

inductive EndpointRole where
  | source | target | either
  deriving DecidableEq, Repr

/-- The glob, regex and case tables the matchers are built from. A pattern that does not
compile has no matcher. -/
structure PatternEngines where
  glob : String → Option (String → Bool)
  regex : RegexPattern → Option (String → Bool)
  toLowercase : String → String

inductive KeyMatcher where
  | pattern (p : StringPattern)
  | regex (isMatch : String → Bool)
  | regexReject

namespace RelationKind

def traversal : RelationKind → RelationDirection × EndpointRole
  | callers => (.reverse, .source)
  | callees => (.forward, .target)
  | imports => (.forward, .target)
  | exports => (.both, .either)
  | references => (.reverse, .source)
  | implements => (.forward, .target)

def edgeKindMatches (relation : RelationKind) (kind : EdgeKind) : Bool :=
  match relation, kind with
  | callers, .calls .. | callees, .calls .. => true
  | imports, .imports .. => true
  | exports, .exports .. => true
  | references, .calls .. | references, .references | references, .imports ..
  | references, .ffiCall .. => true
  | implements, .implements => true
  | _, _ => false

end RelationKind

namespace KeyMatcher

def build (engines : PatternEngines) : RelationKey → KeyMatcher
  | .pattern p => .pattern p
  | .regex r =>
    match engines.regex r with
    | some isMatch => .regex isMatch
    | none => .regexReject

end KeyMatcher

namespace GraphSnapshot
variable (engines : PatternEngines) (s : GraphSnapshot)

def caseAdjust (text : String) (caseInsensitive : Bool) : String :=
  if caseInsensitive then engines.toLowercase text else text

def matchEndpointName (entry : NodeEntry) (matcher : KeyMatcher) : Bool :=
  let texts := s.entryQueryTexts entry
  if texts.isEmpty then false
  else
    match matcher with
    | .pattern p =>
      match p.mode with
      | .exact =>
        texts.any fun candidate => s.languageAwareSegmentsMatch entry.file candidate p.raw
      | .glob =>
        match engines.glob p.raw with
        | none => false
        | some isMatch => texts.any isMatch
      | .startsWith =>
        let needle := caseAdjust engines p.raw p.caseInsensitive
        texts.any fun candidate =>
          textStartsWith (caseAdjust engines candidate p.caseInsensitive) needle
      | .endsWith =>
        let needle := caseAdjust engines p.raw p.caseInsensitive
        texts.any fun candidate =>
          needle.toList.isSuffixOf (caseAdjust engines candidate p.caseInsensitive).toList
      | .contains =>
        let needle := caseAdjust engines p.raw p.caseInsensitive
        texts.any fun candidate =>
          textContains (caseAdjust engines candidate p.caseInsensitive) needle
    | .regex isMatch => texts.any isMatch
    | .regexReject => false

def methodSegmentMatches (entry : NodeEntry) (matcher : KeyMatcher) : Bool :=
  match matcher with
  | .pattern p =>
    if p.mode ≠ .exact then false
    else
      match extractMethodName p.raw with
      | none => false
      | some method =>
        ((s.entryQueryTexts entry).filterMap extractMethodName).any fun candidateMethod =>
          candidateMethod = method
  | _ => false

def importsAliasOrWildcardMatches (edge : StoreEdgeRef) (matcher : KeyMatcher) : Bool :=
  match edge.kind, matcher with
  | .imports aliasName isWildcard, .pattern p =>
    if p.mode ≠ .exact then false
    else if isWildcard && p.raw = "*" then true
    else
      match aliasName.bind s.resolve with
      | none => false
      | some aliasText => textContains aliasText p.raw
  | _, _ => false

def relationEndpointHit (relation : RelationKind) (endpointEntry : NodeEntry)
    (edge : StoreEdgeRef) (matcher : KeyMatcher) : Bool :=
  if s.matchEndpointName engines endpointEntry matcher then true
  else if (relation = .callers ∨ relation = .callees) ∧
      s.methodSegmentMatches endpointEntry matcher then true
  else if relation = .imports ∧ s.importsAliasOrWildcardMatches edge matcher then true
  else false

def idxToId : AList fun _ : Nat => NodeId :=
  s.nodes.iter.foldl (fun table node => table.insert node.1.index node.1) ∅

def nodeHit (relation : RelationKind) (matcher : KeyMatcher) (node : NodeId × NodeEntry) :
    Option NodeId :=
  if node.2.isUnifiedLoser then none
  else if relation = .imports ∧ node.2.kind = .import ∧
      s.matchEndpointName engines node.2 matcher then some node.1
  else none

def consider (relation : RelationKind) (matcher : KeyMatcher) (resultId endpointId : NodeId)
    (edge : StoreEdgeRef) : Option NodeId :=
  if relation.traversal.2 = .either ∧ resultId = endpointId then none
  else
    match s.nodes.get resultId with
    | none => none
    | some resultEntry =>
      if resultEntry.isUnifiedLoser then none
      else
        match s.nodes.get endpointId with
        | none => none
        | some endpointEntry =>
          if s.relationEndpointHit engines relation endpointEntry edge matcher then
            some resultId
          else none

def edgeHits (relation : RelationKind) (matcher : KeyMatcher) (edge : StoreEdgeRef) :
    List NodeId :=
  if !relation.edgeKindMatches edge.kind then []
  else
    match s.idxToId.lookup edge.source.index, s.idxToId.lookup edge.target.index with
    | some src, some tgt =>
      match relation.traversal with
      | (.forward, .target) => (s.consider engines relation matcher src tgt edge).toList
      | (.reverse, .source) => (s.consider engines relation matcher tgt src edge).toList
      | (.both, .either) =>
        (s.consider engines relation matcher src tgt edge).toList ++
          (s.consider engines relation matcher tgt src edge).toList
      | _ => []
    | _, _ => []

def compareById (a b : NodeId) : Ordering :=
  (compare a.index b.index).then (compare a.generation b.generation)

instance : Std.TransCmp compareById :=
  inferInstanceAs (Std.TransCmp
    (compareLex (compareOn NodeId.index) (compareOn NodeId.generation)))

instance : Std.LawfulEqCmp compareById where
  eq_of_compare := by
    intro a b h
    rw [compareById, Ordering.then_eq_eq] at h
    cases a
    cases b
    simp only [Nat.compare_eq_eq] at h
    rw [h.1, h.2]

theorem heads_sortBy_eq_iff {l m : List NodeId} :
    SortedGroups.heads id (SortedGroups.sortBy compareById l) =
        SortedGroups.heads id (SortedGroups.sortBy compareById m) ↔
      ∀ a, a ∈ l ↔ a ∈ m := by
  have hmem : ∀ n : List NodeId, ∀ a,
      a ∈ SortedGroups.heads id (SortedGroups.sortBy compareById n) ↔ a ∈ n :=
    fun n a => SortedGroups.mem_heads_id.trans SortedGroups.mem_sortBy
  constructor
  · intro heq a
    rw [← hmem l, heq, hmem]
  · intro h
    refine SortedGroups.eq_of_strict (SortedGroups.strict_heads_sortBy l)
      (SortedGroups.strict_heads_sortBy m) fun a => ?_
    rw [hmem, hmem, h]

/-- `none` when the scan of all edges gives up. -/
def computeRelationSourceSet (relation : RelationKind) (key : RelationKey) :
    Option (List NodeId) :=
  let matcher := KeyMatcher.build engines key
  s.edges.forward.allLiveForwardEdges.map fun edges =>
    SortedGroups.heads id (SortedGroups.sortBy compareById
      (s.nodes.iter.filterMap (s.nodeHit engines relation matcher) ++
        edges.flatMap (s.edgeHits engines relation matcher)))

variable {engines s}

theorem lookup_foldl_insert {nodes : List (NodeId × NodeEntry)}
    {table : AList fun _ : Nat => NodeId} {index : Nat} :
    (nodes.foldl (fun table node => table.insert node.1.index node.1) table).lookup index =
      ((nodes.reverse.find? fun node => node.1.index = index).map Prod.fst).or
        (table.lookup index) := by
  induction nodes generalizing table with
  | nil => rfl
  | cons node nodes ih =>
    rw [List.foldl_cons, ih, List.reverse_cons, List.find?_append]
    cases nodes.reverse.find? fun node => node.1.index = index with
    | some later => rfl
    | none =>
      by_cases hindex : node.1.index = index
      · rw [← hindex, AList.lookup_insert]
        simp
      · rw [AList.lookup_insert_ne (Ne.symm hindex)]
        simp [hindex]

theorem lookup_idxToId {index : Nat} {id : NodeId} :
    s.idxToId.lookup index = some id ↔ id.index = index ∧ ∃ entry, (id, entry) ∈ s.nodes.iter := by
  rw [idxToId, lookup_foldl_insert, AList.lookup_empty, Option.or_none]
  constructor
  · intro h
    obtain ⟨node, hfind, hid⟩ := Option.map_eq_some_iff.mp h
    cases hid
    have hindex := List.find?_some hfind
    exact ⟨by simpa using hindex, node.2, List.mem_reverse.mp (List.mem_of_find?_eq_some hfind)⟩
  · intro ⟨hindex, entry, hmem⟩
    cases hfind : s.nodes.iter.reverse.find? fun node => node.1.index = index with
    | none =>
      have hnone := List.find?_eq_none.mp hfind (id, entry) (List.mem_reverse.mpr hmem)
      simp [hindex] at hnone
    | some node =>
      have hnode := List.mem_reverse.mp (List.mem_of_find?_eq_some hfind)
      have hsame : node.1.index = id.index := by
        have hfound := List.find?_some hfind
        simp only [decide_eq_true_eq] at hfound
        rw [hfound, hindex]
      rw [Option.map_some, (NodeArena.iter_inj hnode hmem hsame).1]

end GraphSnapshot
end Sqry
