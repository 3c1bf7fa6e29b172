import Sqry.Lib.MemoTable
import Sqry.Query.Relation

/-!
What the executor of plans reads of a snapshot: scans, traversals and the atomic
predicates. File dependencies are recorded on the way in the source and left out here.
-/

namespace Sqry

structure ScopeEntry where
  kind : ScopeKind
  byteSpan : Nat × Nat
  file : FileId

/-- The side tables about nodes, through their accessors. -/
structure NodeMetadata where
  isSynthetic : NodeId → Bool
  isAddressTaken : NodeId → Bool
  isCallsitePromiscuous : NodeId → Bool
  frameworkRoute : NodeId → Option FrameworkId
  cfgCondition : NodeId → Option String
  hasShapeDescriptor : NodeId → Bool

/-- The graph with the index by kind, the paths of its files and the side tables. The index
lists no live node under another kind than its own. -/
structure PlannerSnapshot extends GraphSnapshot where
  byKind : NodeKind → List NodeId
  byKind_kind : ∀ kind, ∀ node ∈ byKind kind, ∀ entry,
    nodes.get node = some entry → entry.kind = kind
  filePath : FileId → Option String
  metadata : NodeMetadata
  scopes : List ScopeEntry

/-- The glob compiler with its case flag, the case table, and the comparison of a condition
with the stored text of one. A glob that does not compile has no matcher. -/
structure PlanEngines where
  glob : String → Bool → Option (String → Bool)
  toLowercase : String → String
  cfgMatches : CfgMatcher → String → Bool

/-- `QueryDb` over one snapshot. The relation queries and the neighbours by shape are
functions of their keys. -/
structure PlannerDb where
  snapshot : PlannerSnapshot
  engines : PlanEngines
  get : RelationKind → RelationKey → List NodeId
  structuralNeighbors : NodeId → List NodeId

def dedupSort (v : List NodeId) : List NodeId :=
  SortedGroups.heads id (SortedGroups.sortBy GraphSnapshot.compareById v)

theorem mem_dedupSort {v : List NodeId} {node : NodeId} : node ∈ dedupSort v ↔ node ∈ v := by
  rw [dedupSort, SortedGroups.mem_heads_id, SortedGroups.mem_sortBy]

def EdgeKind.sameDiscriminant (a b : EdgeKind) : Bool := a.ctorIdx = b.ctorIdx

namespace PlanEngines
variable (engines : PlanEngines)

def literalMatches (p : StringPattern) (candidate : String) : Bool :=
  let needle := if p.caseInsensitive then engines.toLowercase p.raw else p.raw
  let haystack := if p.caseInsensitive then engines.toLowercase candidate else candidate
  match p.mode with
  | .exact => haystack = needle
  | .startsWith => textStartsWith haystack needle
  | .endsWith => needle.toList.isSuffixOf haystack.toList
  | .contains => textContains haystack needle
  | .glob => false

def compileString (p : StringPattern) : Option (String → Bool) :=
  match p.mode with
  | .glob => engines.glob p.raw p.caseInsensitive
  | _ => some (engines.literalMatches p)

def compileOrReject (p : StringPattern) : String → Bool :=
  (engines.compileString p).getD fun _ => false

def pathMatches (path : PathPattern) (candidate : String) : Bool :=
  match engines.glob path.glob false with
  | some isMatch => isMatch candidate
  | none => false

end PlanEngines

/-- The shapes `<…` and `…@digits` of generated names. -/
def isSyntheticPlaceholderName (name : String) : Bool :=
  textStartsWith name "<" ||
    match rsplitOnce name "@" with
    | some (_, rest) => !rest.isEmpty && rest.toList.all fun c => '0' ≤ c && c ≤ '9'
    | none => false

namespace PlannerSnapshot
variable (s : PlannerSnapshot)

def isNodeSynthetic (node : NodeId) : Bool :=
  s.metadata.isSynthetic node ||
    match s.nodes.get node with
    | none => false
    | some entry =>
      if entry.isUnifiedLoser then false
      else
        match s.resolve entry.name with
        | none => false
        | some name => isSyntheticPlaceholderName name

def displayEntryQualifiedName (entry : NodeEntry) (fallbackName : String) : String :=
  match entry.qualifiedName.bind s.resolve with
  | none => fallbackName
  | some qualified =>
    match s.files.languageForFile entry.file with
    | none => qualified
    | some language => displayGraphQualifiedName language qualified entry.kind entry.isStatic

def entryNameOrDisplayMatches (entry : NodeEntry) (isMatch : String → Bool) : Bool :=
  let simpleName := s.resolve entry.name
  if simpleName.any isMatch then true
  else
    match entry.qualifiedName.bind s.resolve with
    | none => false
    | some qualified =>
      if isMatch qualified then true
      else
        let display := s.displayEntryQualifiedName entry (simpleName.getD "")
        display != qualified && isMatch display

def entryNameMatches (node : NodeId) (entry : NodeEntry) (isMatch : String → Bool) : Bool :=
  if !s.entryNameOrDisplayMatches entry isMatch then false else !s.isNodeSynthetic node

def entryVisibility (entry : NodeEntry) : Option Visibility :=
  (entry.visibility.bind s.resolve).bind Visibility.parse

def entryInScope (node : NodeId) (kind : ScopeKind) : Bool :=
  match s.nodes.get node with
  | none => false
  | some entry =>
    s.scopes.any fun scope =>
      scope.kind = kind && scope.file = entry.file &&
        decide (scope.byteSpan.1 ≤ entry.startByte) && decide (entry.endByte ≤ scope.byteSpan.2)

def neighbours (node : NodeId) : PlanDirection → List StoreEdgeRef
  | .forward => s.edges.edgesFrom node
  | .reverse => s.edges.edgesTo node
  | .both => s.edges.edgesFrom node ++ s.edges.edgesTo node

def callsProbe : EdgeKind := .calls 0 false .direct

def hasKind (node : NodeId) (direction : PlanDirection) (probe : EdgeKind) : Bool :=
  (s.neighbours node direction).any fun edge => edge.kind.sameDiscriminant probe

def hasAnyInboundUse (node : NodeId) : Bool :=
  (s.edges.edgesTo node).any fun edge =>
    match edge.kind with
    | .calls .. | .references | .imports .. | .ffiCall .. | .grpcCall .. | .httpRequest ..
    | .webAssemblyCall | .implements | .inherits => true
    | _ => false

def nodeHasCallsResolvedVia (node : NodeId) (via : ResolvedVia) : Bool :=
  (s.edges.edgesFrom node).any fun edge =>
    match edge.kind with
    | .calls _ _ edgeVia => edgeVia = via
    | _ => false

def nodeHasWrapsEdge (node : NodeId) (filter : WrapKindFilter) : Bool :=
  (s.edges.edgesFrom node).any fun edge =>
    match edge.kind, filter with
    | .wraps _ _, .any => true
    | .wraps kind _, .kind want => kind = want
    | _, _ => false

def nodeReturnsType (node : NodeId) (typeName : String) : Bool :=
  (s.edges.edgesFrom node).any fun edge =>
    match edge.kind with
    | .typeOf (some .return) _ _ =>
      match s.nodes.get edge.target with
      | none => false
      | some target => s.resolve target.name = some typeName
    | _ => false

def relationEndpoint (role : EndpointRole) (node : NodeId) (edge : StoreEdgeRef) : NodeId :=
  match role with
  | .source => edge.source
  | .target => edge.target
  | .either => if edge.source = node then edge.target else edge.source

def relationNeighbours (node : NodeId) : RelationDirection → List StoreEdgeRef
  | .forward => s.edges.edgesFrom node
  | .reverse => s.edges.edgesTo node
  | .both => s.edges.edgesFrom node ++ s.edges.edgesTo node

def relationMatchesNodeViaSet (relation : RelationKind) (node : NodeId)
    (endpoints : List NodeId) : Bool :=
  (s.relationNeighbours node relation.traversal.1).any fun edge =>
    relation.edgeKindMatches edge.kind &&
      !(relation.traversal.2 = .either ∧ relationEndpoint relation.traversal.2 node edge = node) &&
      endpoints.contains (relationEndpoint relation.traversal.2 node edge)

end PlannerSnapshot

def newNodes : List NodeId → List NodeId → List NodeId
  | _, [] => []
  | visited, next :: rest =>
    if next ∈ visited then newNodes visited rest
    else next :: newNodes (next :: visited) rest

/-- The queue of the search holds one depth before the next, so it is taken depth by depth:
`frontier` is what stands in it at one depth. -/
def traverseLevels (next : NodeId → List NodeId) :
    Nat → List NodeId → List NodeId → List NodeId
  | 0, _, _ => []
  | depth + 1, frontier, visited =>
    match newNodes visited (frontier.flatMap next) with
    | [] => []
    | found => found ++ traverseLevels next depth found (found ++ visited)

namespace PlannerDb
variable (db : PlannerDb)

def scanMatch (visibility : Option Visibility) (compiledName : Option (String → Bool))
    (node : NodeId) (entry : NodeEntry) : Bool :=
  (match visibility with
    | none => true
    | some required => db.snapshot.entryVisibility entry = some required) &&
  (match compiledName with
    | none => true
    | some isMatch =>
      db.snapshot.entryNameOrDisplayMatches entry isMatch &&
        !db.snapshot.isNodeSynthetic node)

/-- By the index of a kind, or over all nodes but the absorbed ones. A name pattern that does
not compile is no condition. -/
def runScan (kind : Option NodeKind) (visibility : Option Visibility)
    (namePattern : Option StringPattern) : List NodeId :=
  let compiledName := namePattern.bind db.engines.compileString
  match kind with
  | some k =>
    dedupSort ((db.snapshot.byKind k).filter fun node =>
      match db.snapshot.nodes.get node with
      | none => false
      | some entry => db.scanMatch visibility compiledName node entry)
  | none =>
    dedupSort ((db.snapshot.nodes.iter.filter fun node =>
      !node.2.isUnifiedLoser && db.scanMatch visibility compiledName node.1 node.2).map Prod.fst)

def followsEdge (edgeKind : Option EdgeKind) (resolvedVia : Option ResolvedVia)
    (kind : EdgeKind) : Bool :=
  (match edgeKind with
    | none => true
    | some want => kind.sameDiscriminant want) &&
  (match resolvedVia, kind with
    | some want, .calls _ _ edgeVia => edgeVia = want
    | _, _ => true)

def nextNode (direction : PlanDirection) (current : NodeId) (edge : StoreEdgeRef) : NodeId :=
  match direction with
  | .forward => edge.target
  | .reverse => edge.source
  | .both => if edge.source = current then edge.target else edge.source

def nextNodes (direction : PlanDirection) (edgeKind : Option EdgeKind)
    (resolvedVia : Option ResolvedVia) (current : NodeId) : List NodeId :=
  ((db.snapshot.neighbours current direction).filter fun edge =>
    followsEdge edgeKind resolvedVia edge.kind).map (nextNode direction current)

def runTraversal (input : List NodeId) (direction : PlanDirection) (edgeKind : Option EdgeKind)
    (maxDepth : Nat) (resolvedVia : Option ResolvedVia) : List NodeId :=
  dedupSort (traverseLevels (db.nextNodes direction edgeKind resolvedVia) maxDepth input input)

def combine (op : SetOperation) (left right : List NodeId) : List NodeId :=
  match op with
  | .union => dedupSort (left ++ right)
  | .intersect => dedupSort (left.filter fun node => right.contains node)
  | .difference => dedupSort (left.filter fun node => !right.contains node)

def resolveShapeProbe (symbol : String) : Option NodeId :=
  (db.snapshot.nodes.iter.find? fun node =>
    !node.2.isUnifiedLoser && (node.2.kind = .function || node.2.kind = .method) &&
      db.snapshot.metadata.hasShapeDescriptor node.1 &&
      (db.snapshot.resolve node.2.name = some symbol ||
        node.2.qualifiedName.bind db.snapshot.resolve = some symbol)).map Prod.fst

def computeShapeNeighborSet (symbol : String) : List NodeId :=
  match db.resolveShapeProbe symbol with
  | none => []
  | some probe => db.structuralNeighbors probe

def checkLeaf (node : NodeId) (entry : NodeEntry) : LeafPredicate → Bool
  | .hasCaller => db.snapshot.hasKind node .reverse PlannerSnapshot.callsProbe
  | .hasCallee => db.snapshot.hasKind node .forward PlannerSnapshot.callsProbe
  | .isUnused => !db.snapshot.hasAnyInboundUse node
  | .isAddressTaken want => db.snapshot.metadata.isAddressTaken node = want
  | .hasCallsitePromiscuous want => db.snapshot.metadata.isCallsitePromiscuous node = want
  | .resolvedVia via => db.snapshot.nodeHasCallsResolvedVia node via
  | .frameworkEq framework => db.snapshot.metadata.frameworkRoute node = some framework
  | .resolvedViaEq set => set.any fun via => db.snapshot.nodeHasCallsResolvedVia node via
  | .shapeSimilar symbol => (db.computeShapeNeighborSet symbol).contains node
  | .inFile path =>
    match db.snapshot.filePath entry.file with
    | none => false
    | some text => db.engines.pathMatches path text
  | .inScope kind => db.snapshot.entryInScope node kind
  | .matchesName pattern =>
    db.snapshot.entryNameMatches node entry (db.engines.compileOrReject pattern)
  | .isDefinition want => entry.isDefinition = want
  | .isUnsafe want => entry.isUnsafe = want
  | .returns typeName => db.snapshot.nodeReturnsType node typeName
  | .cfgCondition matcher =>
    match db.snapshot.metadata.cfgCondition node with
    | none => false
    | some stored => db.engines.cfgMatches matcher stored
  | .wraps filter => db.snapshot.nodeHasWrapsEdge node filter

end PlannerDb
end Sqry

/-!
The executor of plans. It walks a plan with a cache of the results of whole subplans, which
a lookup may use only where no input set is carried, and a memo of neighbour sets by shape.
-/

namespace Sqry

structure PlanExecutor where
  sharedNodeCache : MemoTable.Table PlanNode (List NodeId)
  shapeNeighborMemo : MemoTable.Table String (List NodeId)

namespace PlanExecutor

def new : PlanExecutor := ⟨∅, ∅⟩

def appendChainPrefix (chainPrefix : PlanNode) (appendedSteps : List PlanNode) : PlanNode :=
  if appendedSteps.isEmpty then chainPrefix
  else
    match chainPrefix with
    | .chain steps => .chain (steps ++ appendedSteps)
    | other => .chain (other :: appendedSteps)

/-- The longest part of the remaining steps, up to a length, that the cache knows behind the
prefix. -/
def lookupUpTo (ex : PlanExecutor) (chainPrefix : PlanNode) (remaining : List PlanNode) :
    Nat → Option (List NodeId × Nat × PlanNode)
  | 0 => none
  | consumed + 1 =>
    let combinedPrefix := appendChainPrefix chainPrefix (remaining.take (consumed + 1))
    match ex.sharedNodeCache.lookup combinedPrefix with
    | some existing => some (existing, consumed + 1, combinedPrefix)
    | none => lookupUpTo ex chainPrefix remaining consumed

def lookupSharedChainPrefix (ex : PlanExecutor) (chainPrefix : PlanNode)
    (remaining : List PlanNode) : Option (List NodeId × Nat × PlanNode) :=
  ex.lookupUpTo chainPrefix remaining remaining.length

def cachedResult (ex : PlanExecutor) (node : PlanNode) (input : Option (List NodeId)) :
    Option (List NodeId) :=
  match input with
  | none => ex.sharedNodeCache.lookup node
  | some _ => none

def filterThreaded (check : NodeId → PlanExecutor → Bool × PlanExecutor) :
    List NodeId → PlanExecutor → List NodeId × PlanExecutor
  | [], ex => ([], ex)
  | node :: rest, ex =>
    let (keep, ex) := check node ex
    let (kept, ex) := filterThreaded check rest ex
    (if keep then node :: kept else kept, ex)

section Run
variable (db : PlannerDb)

def checkAtom (node : NodeId) (entry : NodeEntry) (p : LeafPredicate) (ex : PlanExecutor) :
    Bool × PlanExecutor :=
  match p with
  | .shapeSimilar symbol =>
    let (set, memo) :=
      MemoTable.fetch db.computeShapeNeighborSet symbol ex.shapeNeighborMemo
    (set.contains node, { ex with shapeNeighborMemo := memo })
  | p => (db.checkLeaf node entry p, ex)

mutual

def run (node : PlanNode) (input : Option (List NodeId)) (ex : PlanExecutor) :
    List NodeId × PlanExecutor :=
  match ex.cachedResult node input with
  | some existing => (existing, ex)
  | none =>
    match node with
    | .nodeScan kind visibility namePattern => (db.runScan kind visibility namePattern, ex)
    | .edgeTraversal direction edgeKind maxDepth resolvedVia =>
      (db.runTraversal (input.getD []) direction edgeKind maxDepth resolvedVia, ex)
    | .filter predicate =>
      let (kept, ex) := filterThreaded (checkPredicate predicate) (input.getD []) ex
      (dedupSort kept, ex)
    | .setOp op left right =>
      let (leftResult, ex) := run left none ex
      let (rightResult, ex) := run right none ex
      (PlannerDb.combine op leftResult rightResult, ex)
    | .chain steps => runChain steps ex

def runChain (steps : List PlanNode) (ex : PlanExecutor) : List NodeId × PlanExecutor :=
  match steps with
  | [] => ([], ex)
  | first :: rest =>
    let (current, ex) := run first none ex
    runChainContinuation rest first current 0 ex

/-- `skip` counts the steps that a result from the cache has dealt with. -/
def runChainContinuation (remaining : List PlanNode) (chainPrefix : PlanNode)
    (current : List NodeId) (skip : Nat) (ex : PlanExecutor) : List NodeId × PlanExecutor :=
  match remaining with
  | [] => (current, ex)
  | step :: rest =>
    match skip with
    | skip + 1 => runChainContinuation rest chainPrefix current skip ex
    | 0 =>
      match ex.lookupSharedChainPrefix chainPrefix (step :: rest) with
      | some (cachedResult, consumed, combinedPrefix) =>
        runChainContinuation rest combinedPrefix cachedResult (consumed - 1) ex
      | none =>
        let (next, ex) := run step (some current) ex
        runChainContinuation rest (appendChainPrefix chainPrefix [step]) next 0 ex

def checkPredicate (predicate : Predicate) (node : NodeId) (ex : PlanExecutor) :
    Bool × PlanExecutor :=
  match db.snapshot.nodes.get node with
  | none => (false, ex)
  | some entry =>
    match predicate with
    | .leaf p => checkAtom db node entry p ex
    | .relation kind value => relationMatchesViaDb kind value node ex
    | .and list => checkAll list node ex
    | .or list => checkAny list node ex
    | .not inner =>
      let (verdict, ex) := checkPredicate inner node ex
      (!verdict, ex)

def checkAll (list : List Predicate) (node : NodeId) (ex : PlanExecutor) : Bool × PlanExecutor :=
  match list with
  | [] => (true, ex)
  | inner :: list =>
    match checkPredicate inner node ex with
    | (true, ex) => checkAll list node ex
    | (false, ex) => (false, ex)

def checkAny (list : List Predicate) (node : NodeId) (ex : PlanExecutor) : Bool × PlanExecutor :=
  match list with
  | [] => (false, ex)
  | inner :: list =>
    match checkPredicate inner node ex with
    | (true, ex) => (true, ex)
    | (false, ex) => checkAny list node ex

def relationMatchesViaDb (relation : RelationKind) (value : PredicateValue) (node : NodeId)
    (ex : PlanExecutor) : Bool × PlanExecutor :=
  match value with
  | .pattern p => ((db.get relation (.pattern p)).contains node, ex)
  | .regex r => ((db.get relation (.regex r)).contains node, ex)
  | .subquery plan =>
    match ex.sharedNodeCache.lookup plan with
    | some existing =>
      (db.snapshot.relationMatchesNodeViaSet relation node existing, ex)
    | none =>
      let (result, ex) := run plan none ex
      (db.snapshot.relationMatchesNodeViaSet relation node result,
        { ex with sharedNodeCache := ex.sharedNodeCache.insert plan result })

end

end Run

end PlanExecutor

def executePlan (db : PlannerDb) (plan : QueryPlan) : List NodeId :=
  (PlanExecutor.run db plan.root none .new).1

end Sqry
