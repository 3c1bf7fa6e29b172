import Sqry.Edge.FastPath
import Sqry.Query.Relation

/-!
The one pass of the relation queries against the scan node by node, which its tests keep as the
reference. The pass takes all row entries that are not tombstoned. The scan asks the edge lists,
in which a later delta operation hides an entry.
-/

namespace Sqry
namespace GraphSnapshot

section Reference
variable (engines : PatternEngines) (s : GraphSnapshot)

def neighbours (node : NodeId) : RelationDirection → List StoreEdgeRef
  | .forward => s.edges.edgesFrom node
  | .reverse => s.edges.edgesTo node
  | .both => s.edges.edgesFrom node ++ s.edges.edgesTo node

def endpointOf (role : EndpointRole) (node : NodeId) (edge : StoreEdgeRef) : NodeId :=
  match role with
  | .source => edge.source
  | .target => edge.target
  | .either => if edge.source = node then edge.target else edge.source

/-- The tests of one edge are written out in the source; they are those of
`relation_endpoint_hit`. -/
def edgeMatches (relation : RelationKind) (matcher : KeyMatcher) (node : NodeId)
    (edge : StoreEdgeRef) : Bool :=
  if !relation.edgeKindMatches edge.kind then false
  else
    let endpointId := endpointOf relation.traversal.2 node edge
    if relation.traversal.2 = .either ∧ endpointId = node then false
    else
      match s.nodes.get endpointId with
      | none => false
      | some endpointEntry => s.relationEndpointHit engines relation endpointEntry edge matcher

def nodeHasMatchingEndpoint (relation : RelationKind) (matcher : KeyMatcher) (node : NodeId) :
    Bool :=
  (match relation, s.nodes.get node with
    | .imports, some entry =>
      decide (entry.kind = .import) && s.matchEndpointName engines entry matcher
    | _, _ => false) ||
    (s.neighbours node relation.traversal.1).any (s.edgeMatches engines relation matcher node)

def computeRelationSourceSetReference (relation : RelationKind) (key : RelationKey) :
    List NodeId :=
  let matcher := KeyMatcher.build engines key
  SortedGroups.heads id (SortedGroups.sortBy compareById
    ((s.nodes.iter.filter fun node => !node.2.isUnifiedLoser &&
      s.nodeHasMatchingEndpoint engines relation matcher node.1).map Prod.fst))

end Reference

section Edges
variable (s : GraphSnapshot)

def IsLive (a : NodeId) : Prop := ∃ entry, (a, entry) ∈ s.nodes.iter

structure EdgesJoinLive : Prop where
  bounded : s.nodes.slots.length ≤ u32Max
  generation_pos : ∀ a, s.IsLive a → 1 ≤ a.generation
  rows : ∀ i, ∀ r ∈ s.edges.forward.liveRow i, (∃ a, s.IsLive a ∧ a.index = i) ∧
    s.IsLive r.target
  delta : ∀ d ∈ s.edges.forward.delta.iter, s.IsLive d.source ∧ s.IsLive d.target

/-- The forward list of `a` has an edge of that kind to `b`. -/
def Shown (a b : NodeId) (kind : EdgeKind) : Prop :=
  s.IsLive a ∧ ∃ e ∈ s.edges.edgesFrom a, e.target = b ∧ e.kind = kind

def ListsMirror : Prop :=
  ∀ a b kind, s.IsLive a → s.IsLive b →
    ((∃ e ∈ s.edges.edgesFrom a, e.target = b ∧ e.kind = kind) ↔
      ∃ e ∈ s.edges.edgesTo b, e.source = a ∧ e.kind = kind)

/-- A row entry of `a` that a later delta operation has taken out of its list. -/
def Superseded (a b : NodeId) (kind : EdgeKind) : Prop :=
  s.IsLive a ∧ (∃ r ∈ s.edges.forward.liveRow a.index, r.target = b ∧ r.kind = kind) ∧
    ¬ ∃ e ∈ s.edges.edgesFrom a, e.target = b ∧ e.kind = kind

variable {s}

theorem get_eq_some_iff_mem_iter (h : s.EdgesJoinLive) {a : NodeId} {entry : NodeEntry} :
    s.nodes.get a = some entry ↔ (a, entry) ∈ s.nodes.iter := by
  rw [NodeArena.get_eq_some_iff, NodeArena.mem_iter]
  refine and_congr_left fun hholds => ?_
  obtain ⟨slot, hslot, _⟩ := hholds
  have hlt : a.index < u32Max :=
    Nat.lt_of_lt_of_le (List.getElem?_eq_some_iff.mp hslot).1 h.bounded
  exact ⟨fun _ => Nat.le_of_lt hlt, fun _ => Nat.ne_of_lt hlt⟩

theorem IsLive.eq {a b : NodeId} (ha : s.IsLive a) (hb : s.IsLive b) (h : a.index = b.index) :
    a = b := by
  obtain ⟨entry, hmem⟩ := ha
  obtain ⟨entry', hmem'⟩ := hb
  exact (NodeArena.iter_inj hmem hmem' h).1

theorem lookup_of_isLive {a : NodeId} (ha : s.IsLive a) : s.idxToId.lookup a.index = some a :=
  lookup_idxToId.mpr ⟨rfl, ha⟩

theorem source_of_mem_edgesFrom (h : s.EdgesJoinLive) {a : NodeId} (ha : s.IsLive a)
    {e : StoreEdgeRef} (he : e ∈ s.edges.edgesFrom a) : e.source = a := by
  rw [BidirectionalEdgeStore.edgesFrom, EdgeStore.edgesFrom_eq] at he
  cases List.mem_append.mp he with
  | inl hrow =>
    obtain ⟨r, _, rfl⟩ := List.mem_map.mp hrow
    rfl
  | inr hdelta =>
    obtain ⟨w, hindex, hw, _, _, rfl⟩ := EdgeStore.mem_deltaPart.mp hdelta
    exact (h.delta w (latest_spec hw).1).1.eq ha hindex

theorem target_of_mem_edgesTo {b : NodeId} {e : StoreEdgeRef} (he : e ∈ s.edges.edgesTo b) :
    e.target = b := by
  rw [BidirectionalEdgeStore.edgesTo] at he
  obtain ⟨r, _, rfl⟩ := List.mem_map.mp he
  rfl

theorem mem_allLive (h : s.EdgesJoinLive) {all : List StoreEdgeRef}
    (hall : s.edges.forward.allLiveForwardEdges = some all) {x : StoreEdgeRef} :
    x ∈ all ↔ (∃ i, ∃ r ∈ s.edges.forward.liveRow i, x = EdgeStore.csrEdgeRef ⟨i, 0⟩ r) ∨
      x ∈ s.edges.forward.deltaPart x.source.index := by
  have hrow : ∀ i, s.edges.forward.csrEdgesFrom ⟨i, 0⟩ i
      (s.edges.forward.delta.iter.foldl EdgeStore.updateDeltaLwwFromEdge ∅) =
        (s.edges.forward.liveRow i).map (EdgeStore.csrEdgeRef ⟨i, 0⟩) := by
    intro i
    rw [EdgeStore.csrEdgesFrom, EdgeStore.liveRow]
    congr 1
    apply List.filter_congr
    intro r _
    have hshadow : EdgeStore.csrEdgeShadowedByDelta ⟨i, 0⟩ r
        (s.edges.forward.delta.iter.foldl EdgeStore.updateDeltaLwwFromEdge ∅) = false := by
      rw [← Bool.not_eq_true, EdgeStore.shadowed_iff (EdgeStore.describes_lww _) trivial]
      intro hex
      obtain ⟨d, hd, hkey, _⟩ := hex
      have hsource : d.source = ⟨i, 0⟩ := congrArg EdgeKey.source hkey
      have hpos := h.generation_pos d.source (h.delta d hd).1
      rw [hsource] at hpos
      exact Nat.not_succ_le_zero 0 hpos
    rw [hshadow, Bool.not_false, Bool.and_true]
  rw [EdgeStore.allLiveForwardEdges] at hall
  by_cases hcount : s.edges.forward.csrNodeCount > u32Max + 1
  · rw [if_pos hcount] at hall
    cases hall
  · rw [if_neg hcount] at hall
    simp only [hrow] at hall
    cases hall
    rw [List.mem_append, ← EdgeStore.mem_allDeltaPart, List.mem_flatMap]
    refine or_congr ⟨fun hx => ?_, fun hx => ?_⟩ Iff.rfl
    · obtain ⟨i, _, hx⟩ := hx
      obtain ⟨r, hr, heq⟩ := List.mem_map.mp hx
      exact ⟨i, r, hr, heq.symm⟩
    · obtain ⟨i, r, hr, heq⟩ := hx
      refine ⟨i, List.mem_range.mpr (Nat.lt_of_not_le fun hle => ?_), ?_⟩
      · rw [EdgeStore.mem_liveRow, EdgeStore.csrEdgesOf_of_le hle] at hr
        cases hr.1
      · exact List.mem_map.mpr ⟨r, hr, heq.symm⟩

theorem exists_allLive_iff (h : s.EdgesJoinLive) {all : List StoreEdgeRef}
    (hall : s.edges.forward.allLiveForwardEdges = some all) {a b : NodeId} {kind : EdgeKind}
    (ha : s.IsLive a) :
    (∃ x ∈ all, x.source.index = a.index ∧ x.target = b ∧ x.kind = kind) ↔
      s.Shown a b kind ∨ s.Superseded a b kind := by
  constructor
  · intro hex
    obtain ⟨x, hx, hindex, htarget, hkind⟩ := hex
    by_cases hshown : ∃ e ∈ s.edges.edgesFrom a, e.target = b ∧ e.kind = kind
    · exact .inl ⟨ha, hshown⟩
    · cases (mem_allLive h hall).mp hx with
      | inl hrow =>
        obtain ⟨i, r, hr, rfl⟩ := hrow
        have hi : i = a.index := hindex
        exact .inr ⟨ha, ⟨r, hi ▸ hr, htarget, hkind⟩, hshown⟩
      | inr hdelta =>
        refine .inl ⟨ha, x, ?_, htarget, hkind⟩
        rw [BidirectionalEdgeStore.edgesFrom, EdgeStore.edgesFrom_eq, ← hindex]
        exact List.mem_append_right _ hdelta
  · intro hor
    cases hor with
    | inl hshown =>
      obtain ⟨_, e, he, htarget, hkind⟩ := hshown
      rw [BidirectionalEdgeStore.edgesFrom, EdgeStore.edgesFrom_eq] at he
      cases List.mem_append.mp he with
      | inl hrow =>
        obtain ⟨r, hr, rfl⟩ := List.mem_map.mp hrow
        obtain ⟨hmem, hreported⟩ := List.mem_filter.mp hr
        have hlive : r ∈ s.edges.forward.liveRow a.index :=
          EdgeStore.mem_liveRow.mpr ⟨hmem, (of_decide_eq_true hreported).1⟩
        exact ⟨_, (mem_allLive h hall).mpr (.inl ⟨a.index, r, hlive, rfl⟩), rfl, htarget,
          hkind⟩
      | inr hdelta =>
        have hindex := EdgeStore.source_of_mem_deltaPart hdelta
        refine ⟨e, (mem_allLive h hall).mpr (.inr ?_), hindex, htarget, hkind⟩
        rw [hindex]
        exact hdelta
    | inr hsuperseded =>
      obtain ⟨_, ⟨r, hr, htarget, hkind⟩, _⟩ := hsuperseded
      exact ⟨_, (mem_allLive h hall).mpr (.inl ⟨a.index, r, hr, rfl⟩), rfl, htarget, hkind⟩

theorem live_of_mem_allLive (h : s.EdgesJoinLive) {all : List StoreEdgeRef}
    (hall : s.edges.forward.allLiveForwardEdges = some all) {x : StoreEdgeRef} (hx : x ∈ all) :
    (∃ a, s.IsLive a ∧ a.index = x.source.index) ∧ s.IsLive x.target := by
  cases (mem_allLive h hall).mp hx with
  | inl hrow =>
    obtain ⟨i, r, hr, rfl⟩ := hrow
    exact h.rows i r hr
  | inr hdelta =>
    obtain ⟨w, _, hw, _, _, rfl⟩ := EdgeStore.mem_deltaPart.mp hdelta
    obtain ⟨hsource, htarget⟩ := h.delta w (latest_spec hw).1
    exact ⟨⟨w.source, hsource, rfl⟩, htarget⟩

end Edges

section Hits
variable {engines : PatternEngines} {s : GraphSnapshot} {relation : RelationKind}
  {matcher : KeyMatcher}

theorem relationEndpointHit_congr {entry : NodeEntry} {e e' : StoreEdgeRef}
    (h : e.kind = e'.kind) :
    s.relationEndpointHit engines relation entry e matcher =
      s.relationEndpointHit engines relation entry e' matcher := by
  have halias : s.importsAliasOrWildcardMatches e matcher =
      s.importsAliasOrWildcardMatches e' matcher := by
    rw [importsAliasOrWildcardMatches.eq_def, importsAliasOrWildcardMatches.eq_def, h]
  rw [relationEndpointHit, relationEndpointHit, halias]

variable (engines s relation matcher) in
def Considered (node endpoint : NodeId) (kind : EdgeKind) : Prop :=
  ¬ (relation.traversal.2 = .either ∧ node = endpoint) ∧
    (∃ entry, s.nodes.get node = some entry ∧ entry.isUnifiedLoser = false) ∧
    ∃ entry, s.nodes.get endpoint = some entry ∧
      s.relationEndpointHit engines relation entry
        ⟨node, endpoint, kind, 0, FileId.INVALID, []⟩ matcher = true

theorem consider_eq_some {node endpoint res : NodeId} {e : StoreEdgeRef} :
    s.consider engines relation matcher node endpoint e = some res ↔
      node = res ∧ s.Considered engines relation matcher node endpoint e.kind := by
  have hcongr : ∀ entry, s.relationEndpointHit engines relation entry e matcher =
      s.relationEndpointHit engines relation entry
        ⟨node, endpoint, e.kind, 0, FileId.INVALID, []⟩ matcher :=
    fun entry => relationEndpointHit_congr rfl
  rw [consider, Considered]
  by_cases hself : relation.traversal.2 = .either ∧ node = endpoint
  · simp [hself]
  · rw [if_neg hself]
    cases hnode : s.nodes.get node with
    | none => simp
    | some entry =>
      cases hloser : entry.isUnifiedLoser with
      | true => simp [hloser]
      | false =>
        cases hend : s.nodes.get endpoint with
        | none => simp [hloser]
        | some entry' =>
          simp [hloser, hcongr, hself, and_comm]

theorem traversal_cases (relation : RelationKind) :
    relation.traversal = (.forward, .target) ∨ relation.traversal = (.reverse, .source) ∨
      relation.traversal = (.both, .either) := by
  cases relation with
  | callees | imports | implements => exact .inl rfl
  | callers | references => exact .inr (.inl rfl)
  | exports => exact .inr (.inr rfl)

variable (engines s relation matcher) in
/-- An edge from `a` to `b` gives the node as a result. -/
def Gives (a b : NodeId) (kind : EdgeKind) (res : NodeId) : Prop :=
  relation.edgeKindMatches kind = true ∧
    match relation.traversal.1 with
    | .forward => a = res ∧ s.Considered engines relation matcher a b kind
    | .reverse => b = res ∧ s.Considered engines relation matcher b a kind
    | .both => (a = res ∧ s.Considered engines relation matcher a b kind) ∨
        (b = res ∧ s.Considered engines relation matcher b a kind)

theorem mem_edgeHits {x : StoreEdgeRef} {src tgt res : NodeId} (hsrc : s.IsLive src)
    (htgt : s.IsLive tgt) (hi : src.index = x.source.index) (hj : tgt.index = x.target.index) :
    res ∈ s.edgeHits engines relation matcher x ↔
      s.Gives engines relation matcher src tgt x.kind res := by
  rw [edgeHits, Gives, ← hi, ← hj, lookup_of_isLive hsrc, lookup_of_isLive htgt]
  cases relation.edgeKindMatches x.kind with
  | false => simp
  | true =>
    rcases traversal_cases relation with h | h | h
    · simp only [h, Bool.not_true, Bool.false_eq_true, if_false, Option.mem_toList,
        consider_eq_some, true_and]
    · simp only [h, Bool.not_true, Bool.false_eq_true, if_false, Option.mem_toList,
        consider_eq_some, true_and]
    · simp only [h, Bool.not_true, Bool.false_eq_true, if_false, List.mem_append,
        Option.mem_toList, consider_eq_some, true_and]

variable (engines s relation matcher) in
def ImportHit (res : NodeId) : Prop :=
  ∃ entry, (res, entry) ∈ s.nodes.iter ∧ entry.isUnifiedLoser = false ∧ relation = .imports ∧
    entry.kind = .import ∧ s.matchEndpointName engines entry matcher = true

theorem mem_nodeHits {res : NodeId} :
    res ∈ s.nodes.iter.filterMap (s.nodeHit engines relation matcher) ↔
      s.ImportHit engines relation matcher res := by
  rw [List.mem_filterMap]
  constructor
  · intro hex
    obtain ⟨node, hmem, hhit⟩ := hex
    rw [nodeHit] at hhit
    cases hloser : node.2.isUnifiedLoser with
    | true =>
      rw [hloser, if_pos rfl] at hhit
      cases hhit
    | false =>
      rw [hloser, if_neg Bool.false_ne_true] at hhit
      by_cases himport : relation = .imports ∧ node.2.kind = .import ∧
          s.matchEndpointName engines node.2 matcher = true
      · rw [if_pos himport] at hhit
        cases hhit
        exact ⟨node.2, hmem, hloser, himport⟩
      · rw [if_neg himport] at hhit
        cases hhit
  · intro hit
    obtain ⟨entry, hmem, hloser, himport⟩ := hit
    refine ⟨(res, entry), hmem, ?_⟩
    rw [nodeHit, hloser, if_neg Bool.false_ne_true, if_pos himport]

theorem mem_pass (h : s.EdgesJoinLive) {all : List StoreEdgeRef}
    (hall : s.edges.forward.allLiveForwardEdges = some all) {res : NodeId} :
    res ∈ s.nodes.iter.filterMap (s.nodeHit engines relation matcher) ++
        all.flatMap (s.edgeHits engines relation matcher) ↔
      s.ImportHit engines relation matcher res ∨
        ∃ a b kind, (s.Shown a b kind ∨ s.Superseded a b kind) ∧
          s.Gives engines relation matcher a b kind res := by
  rw [List.mem_append, mem_nodeHits, List.mem_flatMap]
  refine or_congr_right ⟨fun hex => ?_, fun hex => ?_⟩
  · obtain ⟨x, hx, hres⟩ := hex
    obtain ⟨⟨a, ha, hindex⟩, htarget⟩ := live_of_mem_allLive h hall hx
    exact ⟨a, x.target, x.kind,
      (exists_allLive_iff h hall ha).mp ⟨x, hx, hindex.symm, rfl, rfl⟩,
      (mem_edgeHits ha htarget hindex rfl).mp hres⟩
  · obtain ⟨a, b, kind, hseen, hgives⟩ := hex
    have ha : s.IsLive a := hseen.elim And.left And.left
    obtain ⟨x, hx, hindex, rfl, rfl⟩ := (exists_allLive_iff h hall ha).mpr hseen
    exact ⟨x, hx, (mem_edgeHits ha (live_of_mem_allLive h hall hx).2 hindex.symm rfl).mpr hgives⟩

theorem edgeMatches_iff {node : NodeId} {entry : NodeEntry}
    (hnode : s.nodes.get node = some entry) (hloser : entry.isUnifiedLoser = false)
    {e : StoreEdgeRef} :
    s.edgeMatches engines relation matcher node e = true ↔
      relation.edgeKindMatches e.kind = true ∧ s.Considered engines relation matcher node
        (endpointOf relation.traversal.2 node e) e.kind := by
  have hcongr : ∀ entry' endpoint, s.relationEndpointHit engines relation entry' e matcher =
      s.relationEndpointHit engines relation entry'
        ⟨node, endpoint, e.kind, 0, FileId.INVALID, []⟩ matcher :=
    fun entry' endpoint => relationEndpointHit_congr rfl
  have hexists : ∃ entry, s.nodes.get node = some entry ∧ entry.isUnifiedLoser = false :=
    ⟨entry, hnode, hloser⟩
  rw [edgeMatches, Considered, eq_comm (a := node)]
  generalize endpointOf relation.traversal.2 node e = endpoint
  cases relation.edgeKindMatches e.kind with
  | false => simp
  | true =>
    by_cases hself : relation.traversal.2 = .either ∧ endpoint = node
    · simp [hself]
    · simp only [Bool.not_true, Bool.false_eq_true, if_false, if_neg hself, true_and]
      cases hend : s.nodes.get endpoint with
      | none => simp
      | some entry' => simp [hcongr entry' endpoint, hexists, hself]

theorem Considered.live (h : s.EdgesJoinLive) {node endpoint : NodeId} {kind : EdgeKind}
    (hc : s.Considered engines relation matcher node endpoint kind) :
    s.IsLive node ∧ s.IsLive endpoint := by
  obtain ⟨_, ⟨entry, hnode, _⟩, entry', hend, _⟩ := hc
  exact ⟨⟨entry, (get_eq_some_iff_mem_iter h).mp hnode⟩,
    ⟨entry', (get_eq_some_iff_mem_iter h).mp hend⟩⟩

theorem exists_edgesFrom_iff {node : NodeId} (hlive : s.IsLive node)
    {p : NodeId → EdgeKind → Prop} :
    (∃ e ∈ s.edges.edgesFrom node, p e.target e.kind) ↔ ∃ b kind, s.Shown node b kind ∧ p b kind := by
  constructor
  · intro hex
    obtain ⟨e, he, hp⟩ := hex
    exact ⟨e.target, e.kind, ⟨hlive, e, he, rfl, rfl⟩, hp⟩
  · intro hex
    obtain ⟨b, kind, ⟨_, e, he, rfl, rfl⟩, hp⟩ := hex
    exact ⟨e, he, hp⟩

theorem exists_edgesTo_iff (hmirror : s.ListsMirror) {node : NodeId} (hlive : s.IsLive node)
    {p : NodeId → EdgeKind → Prop} (hp : ∀ a kind, p a kind → s.IsLive a) :
    (∃ e ∈ s.edges.edgesTo node, p e.source e.kind) ↔ ∃ a kind, s.Shown a node kind ∧ p a kind := by
  constructor
  · intro hex
    obtain ⟨e, he, hpe⟩ := hex
    have ha := hp e.source e.kind hpe
    exact ⟨e.source, e.kind,
      ⟨ha, (hmirror e.source node e.kind ha hlive).mpr ⟨e, he, rfl, rfl⟩⟩, hpe⟩
  · intro hex
    obtain ⟨a, kind, hshown, hpe⟩ := hex
    obtain ⟨e, he, rfl, rfl⟩ := (hmirror a node kind hshown.1 hlive).mp hshown.2
    exact ⟨e, he, hpe⟩

theorem exists_edge_iff (h : s.EdgesJoinLive) (hmirror : s.ListsMirror) {node : NodeId}
    {entry : NodeEntry} (hnode : s.nodes.get node = some entry)
    (hloser : entry.isUnifiedLoser = false) :
    (∃ e ∈ s.neighbours node relation.traversal.1,
      s.edgeMatches engines relation matcher node e = true) ↔
        ∃ a b kind, s.Shown a b kind ∧ s.Gives engines relation matcher a b kind node := by
  have hlive : s.IsLive node := ⟨entry, (get_eq_some_iff_mem_iter h).mp hnode⟩
  have hfrom := @exists_edgesFrom_iff s node hlive fun b kind =>
    relation.edgeKindMatches kind = true ∧ s.Considered engines relation matcher node b kind
  have hto := @exists_edgesTo_iff s hmirror node hlive (fun a kind =>
    relation.edgeKindMatches kind = true ∧ s.Considered engines relation matcher node a kind)
    fun a kind hp => (hp.2.live h).2
  simp only [edgeMatches_iff hnode hloser, Gives]
  rcases traversal_cases relation with ht | ht | ht
  · simp only [ht, neighbours, endpointOf]
    rw [hfrom]
    constructor
    · intro hex
      obtain ⟨b, kind, hshown, hkind, hc⟩ := hex
      exact ⟨node, b, kind, hshown, hkind, rfl, hc⟩
    · intro hex
      obtain ⟨a, b, kind, hshown, hkind, rfl, hc⟩ := hex
      exact ⟨b, kind, hshown, hkind, hc⟩
  · simp only [ht, neighbours, endpointOf]
    rw [hto]
    constructor
    · intro hex
      obtain ⟨a, kind, hshown, hkind, hc⟩ := hex
      exact ⟨a, node, kind, hshown, hkind, rfl, hc⟩
    · intro hex
      obtain ⟨a, b, kind, hshown, hkind, rfl, hc⟩ := hex
      exact ⟨a, kind, hshown, hkind, hc⟩
  · -- an edge of the forward list starts at the node, one of the reverse list ends there
    have hleft : ∀ e ∈ s.edges.edgesFrom node, endpointOf .either node e = e.target :=
      fun e he => if_pos (source_of_mem_edgesFrom h hlive he)
    have hright : ∀ e ∈ s.edges.edgesTo node, endpointOf .either node e = e.source := by
      intro e he
      rw [endpointOf, target_of_mem_edgesTo he]
      exact ite_eq_right_iff.mpr Eq.symm
    simp only [ht, neighbours, List.mem_append]
    constructor
    · intro hex
      obtain ⟨e, he | he, hkind, hc⟩ := hex
      · rw [hleft e he] at hc
        obtain ⟨b, kind, hshown, hkind', hc'⟩ := hfrom.mp ⟨e, he, hkind, hc⟩
        exact ⟨node, b, kind, hshown, hkind', .inl ⟨rfl, hc'⟩⟩
      · rw [hright e he] at hc
        obtain ⟨a, kind, hshown, hkind', hc'⟩ := hto.mp ⟨e, he, hkind, hc⟩
        exact ⟨a, node, kind, hshown, hkind', .inr ⟨rfl, hc'⟩⟩
    · intro hex
      obtain ⟨a, b, kind, hshown, hkind, hc⟩ := hex
      cases hc with
      | inl hc =>
        obtain ⟨rfl, hc⟩ := hc
        obtain ⟨e, he, hkind', hc'⟩ := hfrom.mpr ⟨b, kind, hshown, hkind, hc⟩
        exact ⟨e, .inl he, hkind', (hleft e he).symm ▸ hc'⟩
      | inr hc =>
        obtain ⟨rfl, hc⟩ := hc
        obtain ⟨e, he, hkind', hc'⟩ := hto.mpr ⟨a, kind, hshown, hkind, hc⟩
        exact ⟨e, .inr he, hkind', (hright e he).symm ▸ hc'⟩

theorem Gives.node {a b res : NodeId} {kind : EdgeKind}
    (hgives : s.Gives engines relation matcher a b kind res) :
    ∃ entry, s.nodes.get res = some entry ∧ entry.isUnifiedLoser = false := by
  obtain ⟨_, hcase⟩ := hgives
  rcases traversal_cases relation with ht | ht | ht
  · rw [ht] at hcase
    exact hcase.1 ▸ hcase.2.2.1
  · rw [ht] at hcase
    exact hcase.1 ▸ hcase.2.2.1
  · rw [ht] at hcase
    cases hcase with
    | inl hc => exact hc.1 ▸ hc.2.2.1
    | inr hc => exact hc.1 ▸ hc.2.2.1

theorem nodeHasMatchingEndpoint_iff (h : s.EdgesJoinLive) (hmirror : s.ListsMirror)
    {node : NodeId} {entry : NodeEntry} (hnode : s.nodes.get node = some entry)
    (hloser : entry.isUnifiedLoser = false) :
    s.nodeHasMatchingEndpoint engines relation matcher node = true ↔
      (relation = .imports ∧ entry.kind = .import ∧
        s.matchEndpointName engines entry matcher = true) ∨
        ∃ a b kind, s.Shown a b kind ∧ s.Gives engines relation matcher a b kind node := by
  rw [nodeHasMatchingEndpoint.eq_def, Bool.or_eq_true, List.any_eq_true,
    exists_edge_iff h hmirror hnode hloser, hnode]
  refine or_congr_left ?_
  cases relation <;> simp

theorem mem_reference (h : s.EdgesJoinLive) (hmirror : s.ListsMirror) {res : NodeId} :
    res ∈ (s.nodes.iter.filter fun node => !node.2.isUnifiedLoser &&
        s.nodeHasMatchingEndpoint engines relation matcher node.1).map Prod.fst ↔
      s.ImportHit engines relation matcher res ∨
        ∃ a b kind, s.Shown a b kind ∧ s.Gives engines relation matcher a b kind res := by
  rw [List.mem_map]
  constructor
  · intro hex
    obtain ⟨node, hfilter, rfl⟩ := hex
    obtain ⟨hmem, hcond⟩ := List.mem_filter.mp hfilter
    rw [Bool.and_eq_true, Bool.not_eq_true'] at hcond
    have hget := (get_eq_some_iff_mem_iter h).mpr hmem
    cases (nodeHasMatchingEndpoint_iff h hmirror hget hcond.1).mp hcond.2 with
    | inl himport => exact .inl ⟨node.2, hmem, hcond.1, himport⟩
    | inr hedge => exact .inr hedge
  · intro hor
    have hnode : ∃ entry, s.nodes.get res = some entry ∧ entry.isUnifiedLoser = false ∧
        s.nodeHasMatchingEndpoint engines relation matcher res = true := by
      cases hor with
      | inl himport =>
        obtain ⟨entry, hmem, hloser, himport⟩ := himport
        have hget := (get_eq_some_iff_mem_iter h).mpr hmem
        exact ⟨entry, hget, hloser,
          (nodeHasMatchingEndpoint_iff h hmirror hget hloser).mpr (.inl himport)⟩
      | inr hedge =>
        obtain ⟨a, b, kind, hshown, hgives⟩ := hedge
        obtain ⟨entry, hget, hloser⟩ := hgives.node
        exact ⟨entry, hget, hloser,
          (nodeHasMatchingEndpoint_iff h hmirror hget hloser).mpr
            (.inr ⟨a, b, kind, hshown, hgives⟩)⟩
    obtain ⟨entry, hget, hloser, hmatch⟩ := hnode
    refine ⟨(res, entry), List.mem_filter.mpr ⟨(get_eq_some_iff_mem_iter h).mp hget, ?_⟩, rfl⟩
    rw [hloser, hmatch]
    rfl

/-- Every node that a superseded row entry gives, an edge that is still shown gives as well, or it
is an import node with a matching name. -/
def SupersededGivesNothing (s : GraphSnapshot) (engines : PatternEngines)
    (relation : RelationKind) (matcher : KeyMatcher) : Prop :=
  ∀ a b kind res, s.Superseded a b kind → s.Gives engines relation matcher a b kind res →
    s.ImportHit engines relation matcher res ∨
      ∃ a' b' kind', s.Shown a' b' kind' ∧ s.Gives engines relation matcher a' b' kind' res

end Hits

/-- The one pass gives what the scan node by node gives just when superseded row entries give
nothing by themselves and every row index fits 32 bits. -/
theorem computeRelationSourceSet_eq_reference_iff (engines : PatternEngines) (s : GraphSnapshot)
    (h : s.EdgesJoinLive) (hmirror : s.ListsMirror) (relation : RelationKind)
    (key : RelationKey) :
    s.computeRelationSourceSet engines relation key =
        some (s.computeRelationSourceSetReference engines relation key) ↔
      s.edges.forward.csrNodeCount ≤ u32Max + 1 ∧
        s.SupersededGivesNothing engines relation (.build engines key) := by
  rw [computeRelationSourceSet, computeRelationSourceSetReference]
  cases hall : s.edges.forward.allLiveForwardEdges with
  | none =>
    have hcount : ¬ s.edges.forward.csrNodeCount ≤ u32Max + 1 := by
      intro hle
      rw [EdgeStore.allLiveForwardEdges, if_neg (Nat.not_lt.mpr hle)] at hall
      cases hall
    refine ⟨fun heq => ?_, fun hand => absurd hand.1 hcount⟩
    cases heq
  | some all =>
    have hcount : s.edges.forward.csrNodeCount ≤ u32Max + 1 := by
      by_contra hlt
      rw [EdgeStore.allLiveForwardEdges, if_pos (Nat.lt_of_not_le hlt)] at hall
      cases hall
    rw [Option.map_some, Option.some.injEq]
    rw [heads_sortBy_eq_iff]
    simp only [mem_pass h hall, mem_reference h hmirror, hcount, true_and]
    constructor
    · intro heq a b kind res hsuperseded hgives
      exact (heq res).mp (.inr ⟨a, b, kind, .inr hsuperseded, hgives⟩)
    · intro hnothing res
      refine ⟨fun hfound => ?_, fun hfound => ?_⟩
      · cases hfound with
        | inl himport => exact .inl himport
        | inr hedge =>
          obtain ⟨a, b, kind, hseen, hgives⟩ := hedge
          cases hseen with
          | inl hshown => exact .inr ⟨a, b, kind, hshown, hgives⟩
          | inr hsuperseded => exact hnothing a b kind res hsuperseded hgives
      · refine hfound.imp_right fun hedge => ?_
        obtain ⟨a, b, kind, hshown, hgives⟩ := hedge
        exact ⟨a, b, kind, .inl hshown, hgives⟩

section RemovedCall

def namedFunction (name : UInt8) : NodeEntry where
  kind := .function
  name := .ofUInt8 name
  file := 1
  qualifiedName := none
  visibility := none
  startByte := 0
  endByte := 0
  isStatic := false
  isUnsafe := false
  isDefinition := true

/-- `f` called `g` when the graph was compacted, and a bulk insertion has removed the call. -/
def removedCall : GraphSnapshot where
  nodes := ⟨[⟨1, .occupied (namedFunction 1)⟩, ⟨1, .occupied (namedFunction 2)⟩], none, 2⟩
  strings := ⟨[none, some "f", some "g"], ∅, [0, 1, 1], [], none, true⟩
  files := ⟨[none, some ⟨none⟩]⟩
  edges := BidirectionalEdgeStore.pushBoth
    ⟨.withCsr ⟨2, [0, 1, 1], [⟨1, 1⟩], [.calls 0 false .direct], [0], [[]]⟩,
      .withCsr ⟨2, [0, 0, 1], [⟨0, 1⟩], [.calls 0 false .direct], [0], [[]]⟩⟩
    ⟨⟨0, 1⟩, ⟨1, 1⟩, .calls 0 false .direct, 1, .remove, 1, []⟩

def noEngines : PatternEngines := ⟨fun _ => none, fun _ => none, id⟩

theorem live_removedCall {a : NodeId} (h : removedCall.IsLive a) : a = ⟨0, 1⟩ ∨ a = ⟨1, 1⟩ := by
  obtain ⟨entry, hmem⟩ := h
  have hiter : removedCall.nodes.iter =
      [(⟨0, 1⟩, namedFunction 1), (⟨1, 1⟩, namedFunction 2)] := rfl
  rw [hiter] at hmem
  cases List.mem_cons.mp hmem with
  | inl heq => exact .inl (congrArg Prod.fst heq)
  | inr hmem => exact .inr (congrArg Prod.fst (List.mem_singleton.mp hmem))

theorem edgesJoinLive_removedCall : removedCall.EdgesJoinLive := by
  have hf : removedCall.IsLive ⟨0, 1⟩ := ⟨namedFunction 1, List.mem_cons_self⟩
  have hg : removedCall.IsLive ⟨1, 1⟩ :=
    ⟨namedFunction 2, List.mem_cons_of_mem _ List.mem_cons_self⟩
  refine ⟨by decide, fun a ha => ?_, fun i r hr => ?_, fun d hd => ?_⟩
  · cases live_removedCall ha with
    | inl heq => rw [heq]
    | inr heq => rw [heq]
  · have hi : i = 0 ∧ r.target = ⟨1, 1⟩ := by
      match i with
      | 0 => exact ⟨rfl, (by decide : ∀ r ∈ removedCall.edges.forward.liveRow 0,
          r.target = ⟨1, 1⟩) r hr⟩
      | 1 => cases hr
      | i + 2 =>
        rw [EdgeStore.mem_liveRow, EdgeStore.csrEdgesOf_of_le (Nat.le_add_left 2 i)] at hr
        cases hr.1
    rw [hi.1, hi.2]
    exact ⟨⟨_, hf, rfl⟩, hg⟩
  · have hiter : removedCall.edges.forward.delta.iter =
        [⟨⟨0, 1⟩, ⟨1, 1⟩, .calls 0 false .direct, 1, .remove, 1, []⟩] := rfl
    rw [hiter, List.mem_singleton] at hd
    rw [hd]
    exact ⟨hf, hg⟩

theorem listsMirror_removedCall : removedCall.ListsMirror := by
  intro a b kind ha hb
  have hfrom : removedCall.edges.edgesFrom a = [] := by
    cases live_removedCall ha with
    | inl heq => rw [heq]; rfl
    | inr heq => rw [heq]; rfl
  have hto : removedCall.edges.edgesTo b = [] := by
    cases live_removedCall hb with
    | inl heq => rw [heq]; rfl
    | inr heq => rw [heq]; rfl
  rw [hfrom, hto]
  refine ⟨fun h => ?_, fun h => ?_⟩
  · obtain ⟨e, he, _⟩ := h
    cases he
  · obtain ⟨e, he, _⟩ := h
    cases he

theorem computeRelationSourceSet_removedCall :
    removedCall.computeRelationSourceSet noEngines .callees (.ofExact "f") =
        some (removedCall.computeRelationSourceSetReference noEngines .callees (.ofExact "f")) ↔
      removedCall.edges.forward.csrNodeCount ≤ u32Max + 1 ∧
        removedCall.SupersededGivesNothing noEngines .callees
          (.build noEngines (.ofExact "f")) :=
  computeRelationSourceSet_eq_reference_iff noEngines removedCall edgesJoinLive_removedCall
    listsMirror_removedCall .callees (.ofExact "f")

/-- The pass still finds the caller of `g`; the scan node by node does not. -/
theorem removed_call_still_found :
    ¬ ∀ (engines : PatternEngines) (s : GraphSnapshot), s.EdgesJoinLive → s.ListsMirror →
      ∀ relation key, s.computeRelationSourceSet engines relation key =
        some (s.computeRelationSourceSetReference engines relation key) := by
  intro h
  have heq := h noEngines removedCall edgesJoinLive_removedCall listsMirror_removedCall .callees
    (.ofExact "g")
  have hpass : removedCall.computeRelationSourceSet noEngines .callees (.ofExact "g") =
      some [⟨0, 1⟩] := by decide
  have hscan : removedCall.computeRelationSourceSetReference noEngines .callees (.ofExact "g") =
      [] := by decide
  rw [hpass, hscan] at heq
  cases heq

end RemovedCall

end GraphSnapshot
end Sqry
