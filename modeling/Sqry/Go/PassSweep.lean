import Sqry.Edge.FastPath
import Sqry.Edge.Withdraw
import Sqry.Go.PassOwned
import Sqry.Graph.CodeGraph

/-!
How the Go method-set pass takes back what it made before it runs again: the `Implements` edges
between the nodes of others, then its own nodes with all edges that touch them. The flags of a
stored entry are read by a function that is a parameter, the projection of that field.
-/

namespace Sqry

def NodeFlags.SYNTHETIC : Nat := 1 <<< 0

def NodeFlags.contains (flags other : Nat) : Bool := flags &&& other = other

namespace NodeMetadataStore
variable {μ δ : Type}

def getFlags (flagsOf : μ → Nat) (s : NodeMetadataStore μ δ) (id : NodeId) : Nat :=
  ((s.entries.lookup id).map flagsOf).getD 0

def isSynthetic (flagsOf : μ → Nat) (s : NodeMetadataStore μ δ) (id : NodeId) : Bool :=
  NodeFlags.contains (s.getFlags flagsOf id) NodeFlags.SYNTHETIC

end NodeMetadataStore

def Registry.FileRegistry.languageForFile {π : Type} [DecidableEq π] (r : FileRegistry π)
    (file : FileId) : Option Language :=
  if file = FileId.INVALID then none else r.entries[file]?.join.bind FileEntry.language

namespace CodeGraph
variable {π μ δ : Type} [DecidableEq π]

def qualifiedNameText (g : CodeGraph π μ δ) (entry : FullNodeEntry) : Option String :=
  entry.qualifiedName.bind fun id => g.strings.resolve id.index

def passCandidates (g : CodeGraph π μ δ) : List (NodeId × NodeKind × Option String) :=
  g.nodes.iter.filterMap fun node =>
    if node.2.kind = .method ∨ node.2.kind = .type then
      some (node.1, node.2.kind, g.qualifiedNameText node.2)
    else none

def passOwnedNodes (flagsOf : μ → Nat) (g : CodeGraph π μ δ) : List NodeId :=
  g.passCandidates.filterMap fun candidate =>
    let isSynthetic := g.macroMetadata.isSynthetic flagsOf candidate.1
    if isPassOwnedNode candidate.2.1 (candidate.2.2.getD "").toList isSynthetic then
      some candidate.1
    else none

def isPassImplements (g : CodeGraph π μ δ) (source target : NodeId) (kind : EdgeKind) : Bool :=
  if kind ≠ .implements then false
  else
    let targetName := (g.nodes.get target).bind g.qualifiedNameText
    if targetName.any fun name => textStartsWith name "<type:" then false
    else (g.nodes.get source).any fun entry => g.files.languageForFile entry.file = some .go

/-- The third phase; `none` when the scan of the edges panics. -/
def implementsToRemove (g : CodeGraph π μ δ) : Option (List StoreEdgeRef) :=
  g.edges.forward.allLiveForwardEdges.map fun edges =>
    edges.filter fun e => g.isPassImplements e.source e.target e.kind

def tombstoneAllPassOwned (flagsOf : μ → Nat) (g : CodeGraph π μ δ) :
    Option (CodeGraph π μ δ × Nat) :=
  let dead := g.passOwnedNodes flagsOf
  match g.implementsToRemove with
  | none => none
  | some edges =>
    let g := { g with edges := g.edges.removeEdges edges }
    if dead.isEmpty then some (g, 0)
    else
      some ({ g with
        edges := (g.edges.tombstoneEdgesForNodes dead).1
        nodes := g.nodes.removeAll dead
        files := g.files.retainNodesInBuckets fun id => id ∉ dead }, dead.length)

def PassOwned (flagsOf : μ → Nat) (g : CodeGraph π μ δ) (node : NodeId) : Prop :=
  ∃ entry, g.nodes.get node = some entry ∧
    isPassOwnedNode entry.kind ((g.qualifiedNameText entry).getD "").toList
      (g.macroMetadata.isSynthetic flagsOf node) = true

def Indexed (g : CodeGraph π μ δ) (node : NodeId) : Prop :=
  node ∈ Buckets.all g.indices.kindIndex ∨ node ∈ Buckets.all g.indices.nameIndex ∨
    node ∈ Buckets.all g.indices.qualifiedNameIndex ∨ node ∈ Buckets.all g.indices.fileIndex

def Withdrawn (flagsOf : μ → Nat) (g : CodeGraph π μ δ) (x : StoreEdgeRef) : Prop :=
  g.isPassImplements x.source x.target x.kind = true ∨ g.PassOwned flagsOf x.source ∨
    g.PassOwned flagsOf x.target

/-- Generations start at 1, both stores are in order, and what they buffer names live nodes. -/
structure Sweepable (g : CodeGraph π μ δ) : Prop where
  bounded : g.nodes.Bounded
  generation_pos : ∀ node, (g.nodes.get node).isSome → 1 ≤ node.generation
  forward : g.edges.forward.Sequenced
  reverse : g.edges.reverse.Sequenced
  forward_live : ∀ d ∈ g.edges.forward.delta.iter, d.isAdd = true →
    (g.nodes.get d.source).isSome ∧ (g.nodes.get d.target).isSome
  reverse_live : ∀ d ∈ g.edges.reverse.delta.iter, d.isAdd = true →
    (g.nodes.get d.source).isSome ∧ (g.nodes.get d.target).isSome

/-- Nothing that the pass made is left in `after`, and everything else is as it was. -/
structure Cleaned (flagsOf : μ → Nat) (g after : CodeGraph π μ δ) : Prop where
  removed : ∀ node, g.PassOwned flagsOf node → after.nodes.get node = none
  minted : ∀ node entry name, g.nodes.get node = some entry → g.qualifiedNameText entry = some name →
    MintedName entry.kind name.toList → g.macroMetadata.isSynthetic flagsOf node = true →
      after.nodes.get node = none
  kept : ∀ node, ¬ g.PassOwned flagsOf node → after.nodes.get node = g.nodes.get node
  edgesFrom : ∀ x : StoreEdgeRef, (g.nodes.get x.source).isSome → (g.nodes.get x.target).isSome →
    (x ∈ after.edges.edgesFrom x.source ↔
      x ∈ g.edges.edgesFrom x.source ∧ ¬ g.Withdrawn flagsOf x)
  edgesTo : ∀ x : StoreEdgeRef, (g.nodes.get x.source).isSome → (g.nodes.get x.target).isSome →
    (x ∈ after.edges.edgesTo x.target ↔ x ∈ g.edges.edgesTo x.target ∧ ¬ g.Withdrawn flagsOf x)
  recorded : ∀ file node, (g.nodes.get node).isSome →
    (node ∈ after.files.nodesForFile file ↔
      node ∈ g.files.nodesForFile file ∧ ¬ g.PassOwned flagsOf node)
  unindexed : ∀ node, g.PassOwned flagsOf node → ¬ after.Indexed node

end CodeGraph

section Nodes
variable {π μ δ : Type} [DecidableEq π] {flagsOf : μ → Nat} {g : CodeGraph π μ δ}

theorem mem_passOwnedNodes {node : NodeId} : node ∈ g.passOwnedNodes flagsOf ↔
    ∃ entry, (node, entry) ∈ g.nodes.iter ∧
      isPassOwnedNode entry.kind ((g.qualifiedNameText entry).getD "").toList
        (g.macroMetadata.isSynthetic flagsOf node) = true := by
  simp only [CodeGraph.passOwnedNodes, CodeGraph.passCandidates, List.mem_filterMap]
  constructor
  · intro h
    obtain ⟨candidate, ⟨found, hfound, hcandidate⟩, hown⟩ := h
    by_cases hkind : found.2.kind = .method ∨ found.2.kind = .type
    · rw [if_pos hkind] at hcandidate
      cases hcandidate
      by_cases howned : isPassOwnedNode found.2.kind
          ((g.qualifiedNameText found.2).getD "").toList
          (g.macroMetadata.isSynthetic flagsOf found.1) = true
      · rw [if_pos howned] at hown
        cases hown
        exact ⟨found.2, hfound, howned⟩
      · rw [if_neg howned] at hown
        cases hown
    · rw [if_neg hkind] at hcandidate
      cases hcandidate
  · intro h
    obtain ⟨entry, hiter, howned⟩ := h
    have hkind : entry.kind = .method ∨ entry.kind = .type := by
      by_contra hother
      rw [isPassOwnedNode, if_pos hother] at howned
      cases howned
    exact ⟨_, ⟨(node, entry), hiter, if_pos hkind⟩, if_pos howned⟩

theorem mem_passOwnedNodes_iff (h : g.nodes.Bounded) {node : NodeId}
    (hlive : (g.nodes.get node).isSome) :
    node ∈ g.passOwnedNodes flagsOf ↔ g.PassOwned flagsOf node := by
  rw [mem_passOwnedNodes]
  obtain ⟨entry, hget⟩ := Option.isSome_iff_exists.mp hlive
  have hentry := NodeArena.entryAt_of_get hget
  constructor
  · intro hmem
    obtain ⟨found, hiter, howned⟩ := hmem
    rw [NodeArena.mem_iter_iff h, hentry] at hiter
    cases hiter
    exact ⟨entry, hget, howned⟩
  · intro howned
    obtain ⟨found, hfound, howned⟩ := howned
    exact ⟨found, (NodeArena.mem_iter_iff h).mpr (NodeArena.entryAt_of_get hfound), howned⟩

theorem CodeGraph.PassOwned.isSome {node : NodeId} (h : g.PassOwned flagsOf node) :
    (g.nodes.get node).isSome := by
  obtain ⟨entry, hget, _⟩ := h
  rw [hget]
  rfl

theorem mem_deadSlots_iff (h : g.nodes.Bounded) {node : NodeId}
    (hlive : (g.nodes.get node).isSome) :
    node.index ∈ EdgeStore.deadSlotIndices (g.passOwnedNodes flagsOf) ↔
      g.PassOwned flagsOf node := by
  rw [← mem_passOwnedNodes_iff h hlive, EdgeStore.deadSlotIndices, List.mem_map]
  constructor
  · intro hmem
    obtain ⟨other, hother, hindex⟩ := hmem
    obtain ⟨entry, hget⟩ := Option.isSome_iff_exists.mp hlive
    obtain ⟨found, hiter, _⟩ := mem_passOwnedNodes.mp hother
    have hnode := (NodeArena.mem_iter_iff h).mpr (NodeArena.entryAt_of_get hget)
    rw [← (NodeArena.iter_inj hiter hnode hindex).1]
    exact hother
  · intro hmem
    exact ⟨node, hmem, rfl⟩

theorem touched_iff (h : g.nodes.Bounded) {source target : NodeId}
    (hsource : (g.nodes.get source).isSome) (htarget : (g.nodes.get target).isSome) :
    EdgeStore.Touched (EdgeStore.deadSlotIndices (g.passOwnedNodes flagsOf)) source target ↔
      g.PassOwned flagsOf source ∨ g.PassOwned flagsOf target :=
  or_congr (mem_deadSlots_iff h hsource) (mem_deadSlots_iff h htarget)

end Nodes

section Edges
variable {π μ δ : Type} [DecidableEq π] {flagsOf : μ → Nat} {g : CodeGraph π μ δ}

theorem isPassImplements_source {source target : NodeId} {kind : EdgeKind}
    (h : g.isPassImplements source target kind = true) :
    kind = .implements ∧ (g.nodes.get source).isSome := by
  rw [CodeGraph.isPassImplements] at h
  by_cases hkind : kind ≠ .implements
  · rw [if_pos hkind] at h
    cases h
  · rw [if_neg hkind] at h
    refine ⟨not_not.mp hkind, ?_⟩
    cases hget : g.nodes.get source with
    | some entry => rfl
    | none =>
      rw [hget] at h
      simp at h

/-- The scan never takes an edge from a row: their sources come back in generation 0, in which no
node lives. -/
theorem implementsToRemove_eq (h : g.Sweepable) : ∃ edges, g.implementsToRemove = some edges ∧
    ∀ e, e ∈ edges ↔ e ∈ g.edges.forward.deltaPart e.source.index ∧
      g.isPassImplements e.source e.target e.kind = true := by
  have hcount := Nat.not_lt_of_le h.forward.fitted.nodeCount_le
  rw [CodeGraph.implementsToRemove, EdgeStore.allLiveForwardEdges, if_neg hcount]
  refine ⟨_, rfl, fun e => ?_⟩
  rw [List.mem_filter, List.mem_append]
  refine and_congr_left fun hremoves => ?_
  have hdelta : e ∈ g.edges.forward.allDeltaPart ↔ _ := EdgeStore.mem_allDeltaPart
  refine (or_iff_right fun hrow => ?_).trans hdelta
  obtain ⟨slot, _, hrow⟩ := List.mem_flatMap.mp hrow
  rw [EdgeStore.csrEdgesFrom] at hrow
  obtain ⟨r, _, heq⟩ := List.mem_map.mp hrow
  have hpos := h.generation_pos e.source (isPassImplements_source hremoves).2
  rw [← heq] at hpos
  exact Nat.not_succ_le_zero 0 hpos

theorem same_of_index_eq (h : g.nodes.Bounded) {node other : NodeId}
    (hnode : (g.nodes.get node).isSome) (hother : (g.nodes.get other).isSome)
    (hindex : node.index = other.index) : node = other := by
  obtain ⟨entry, hget⟩ := Option.isSome_iff_exists.mp hnode
  obtain ⟨entry', hget'⟩ := Option.isSome_iff_exists.mp hother
  exact (NodeArena.iter_inj ((NodeArena.mem_iter_iff h).mpr (NodeArena.entryAt_of_get hget))
    ((NodeArena.mem_iter_iff h).mpr (NodeArena.entryAt_of_get hget')) hindex).1

theorem source_eq_of_mem_edgesFrom (h : g.nodes.Bounded) {st : EdgeStore}
    (hnames : ∀ d ∈ st.delta.iter, d.isAdd = true →
      (g.nodes.get d.source).isSome ∧ (g.nodes.get d.target).isSome)
    {asked : NodeId} (hasked : (g.nodes.get asked).isSome) {x : StoreEdgeRef}
    (hx : x ∈ st.edgesFrom asked) : x.source = asked := by
  cases EdgeStore.mem_edgesFrom.mp hx with
  | inl hrow =>
    obtain ⟨r, _, _, heq⟩ := hrow
    rw [heq]
    rfl
  | inr hdelta =>
    obtain ⟨w, hindex, hlatest, hadd, _, heq⟩ := hdelta
    rw [heq]
    exact same_of_index_eq h (hnames w (latest_spec hlatest).1 hadd).1 hasked hindex

theorem key_mem_iff {edges : List StoreEdgeRef}
    (hedges : ∀ e, e ∈ edges ↔ e ∈ g.edges.forward.deltaPart e.source.index ∧
      g.isPassImplements e.source e.target e.kind = true) {x : StoreEdgeRef} :
    x.key ∈ edges.map StoreEdgeRef.key ↔ g.isPassImplements x.source x.target x.kind = true ∧
      g.edges.forward.Buffered x.source x.target x.kind := by
  rw [EdgeStore.buffered_iff, List.mem_map]
  constructor
  · intro h
    obtain ⟨e, he, hkey⟩ := h
    obtain ⟨hdelta, hremoves⟩ := (hedges e).mp he
    have hsource : e.source = x.source := congrArg EdgeKey.source hkey
    have htarget : e.target = x.target := congrArg EdgeKey.target hkey
    have hkind : e.kind = x.kind := congrArg EdgeKey.kind hkey
    rw [hsource, htarget, hkind] at hremoves
    rw [hsource] at hdelta
    exact ⟨hremoves, e, hdelta, hkey⟩
  · intro h
    obtain ⟨hremoves, e, hdelta, hkey⟩ := h
    have hsource : e.source = x.source := congrArg EdgeKey.source hkey
    have htarget : e.target = x.target := congrArg EdgeKey.target hkey
    have hkind : e.kind = x.kind := congrArg EdgeKey.kind hkey
    refine ⟨e, (hedges e).mpr ?_, hkey⟩
    rw [hsource, htarget, hkind]
    exact ⟨hdelta, hremoves⟩

theorem mem_edgesFrom_taken (h : g.Sweepable) {edges : List StoreEdgeRef}
    (hedges : ∀ e, e ∈ edges ↔ e ∈ g.edges.forward.deltaPart e.source.index ∧
      g.isPassImplements e.source e.target e.kind = true) {x : StoreEdgeRef}
    (hsource : (g.nodes.get x.source).isSome) (htarget : (g.nodes.get x.target).isSome) :
    x ∈ ((g.edges.removeEdges edges).tombstoneEdgesForNodes
        (g.passOwnedNodes flagsOf)).1.edgesFrom x.source ↔
      x ∈ g.edges.edgesFrom x.source ∧ x.key ∉ edges.map StoreEdgeRef.key ∧
        ¬ (g.PassOwned flagsOf x.source ∨ g.PassOwned flagsOf x.target) := by
  have hsame : ∀ e ∈ edges, x.source.index = e.source.index → x.source = e.source :=
    fun e he => same_of_index_eq h.bounded hsource
      (isPassImplements_source ((hedges e).mp he).2).2
  have hfitted := (h.forward.removeEdges edges).fitted
  rw [BidirectionalEdgeStore.tombstoneEdgesForNodes_eq, BidirectionalEdgeStore.removeEdges_eq]
  refine (EdgeStore.mem_edgesFrom_sweep hfitted _).trans ?_
  rw [EdgeStore.mem_edgesFrom_removeEdges h.forward hsame,
    touched_iff h.bounded hsource htarget, and_assoc]
  rfl

theorem mem_edgesTo_taken (h : g.Sweepable) {edges : List StoreEdgeRef}
    (hedges : ∀ e, e ∈ edges ↔ e ∈ g.edges.forward.deltaPart e.source.index ∧
      g.isPassImplements e.source e.target e.kind = true) {x : StoreEdgeRef}
    (hsource : (g.nodes.get x.source).isSome) (htarget : (g.nodes.get x.target).isSome) :
    x ∈ ((g.edges.removeEdges edges).tombstoneEdgesForNodes
        (g.passOwnedNodes flagsOf)).1.edgesTo x.target ↔
      x ∈ g.edges.edgesTo x.target ∧ x.key ∉ edges.map StoreEdgeRef.key ∧
        ¬ (g.PassOwned flagsOf x.source ∨ g.PassOwned flagsOf x.target) := by
  have hsame : ∀ e ∈ edges.map BidirectionalEdgeStore.turned, x.target.index = e.source.index →
      x.target = e.source := by
    intro e he
    obtain ⟨d, hd, heq⟩ := List.mem_map.mp he
    obtain ⟨w, _, hlatest, hadd, _, hw⟩ := EdgeStore.mem_deltaPart.mp ((hedges d).mp hd).1
    have hlive := (h.forward_live w (latest_spec hlatest).1 hadd).2
    rw [← heq, hw]
    exact same_of_index_eq h.bounded htarget hlive
  have hfitted := (h.reverse.removeEdges (edges.map BidirectionalEdgeStore.turned)).fitted
  have hkeys : ∀ e : StoreEdgeRef, e.source = x.target → x = { e with
      source := e.target, target := x.target } →
        (e.key ∈ (edges.map BidirectionalEdgeStore.turned).map StoreEdgeRef.key ↔
          x.key ∈ edges.map StoreEdgeRef.key) := by
    intro e hesource hx
    have hturned : e.key = (BidirectionalEdgeStore.turned x).key := by
      rw [hx]
      exact congrArg (fun node => EdgeKey.mk node e.target e.kind) hesource
    rw [hturned, List.map_map, List.mem_map, List.mem_map]
    refine exists_congr fun d => and_congr_right fun _ => ?_
    simp only [Function.comp_apply, BidirectionalEdgeStore.turned, StoreEdgeRef.key,
      EdgeKey.mk.injEq]
    exact and_left_comm
  have hkept : ∀ e : StoreEdgeRef, e ∈ g.edges.reverse.edgesFrom x.target →
      x = { e with source := e.target, target := x.target } →
        (e ∈ ((g.edges.reverse.removeEdges (edges.map
            BidirectionalEdgeStore.turned)).tombstoneEdgesForNodes
              (g.passOwnedNodes flagsOf)).1.edgesFrom x.target ↔
          x.key ∉ edges.map StoreEdgeRef.key ∧
            ¬ (g.PassOwned flagsOf x.source ∨ g.PassOwned flagsOf x.target)) := by
    intro e he hx
    have htargets : e.target = x.source := (congrArg StoreEdgeRef.source hx).symm
    have hesource := source_eq_of_mem_edgesFrom h.bounded h.reverse_live htarget he
    rw [EdgeStore.mem_edgesFrom_sweep hfitted, EdgeStore.mem_edgesFrom_removeEdges h.reverse hsame,
      hkeys e hesource hx, htargets, touched_iff h.bounded htarget hsource, or_comm,
      and_iff_right he]
  rw [BidirectionalEdgeStore.tombstoneEdgesForNodes_eq, BidirectionalEdgeStore.removeEdges_eq,
    BidirectionalEdgeStore.mem_edgesTo, BidirectionalEdgeStore.mem_edgesTo]
  constructor
  · intro hx
    obtain ⟨e, he, hx⟩ := hx
    have hbefore := (EdgeStore.mem_edgesFrom_removeEdges h.reverse hsame).mp
      ((EdgeStore.mem_edgesFrom_sweep hfitted _).mp he).1
    exact ⟨⟨e, hbefore.1, hx⟩, (hkept e hbefore.1 hx).mp he⟩
  · intro hx
    obtain ⟨⟨e, he, hx⟩, hrest⟩ := hx
    exact ⟨e, (hkept e he hx).mpr hrest, hx⟩

end Edges

section Main
variable {π μ δ : Type} [DecidableEq π] {flagsOf : μ → Nat} {g : CodeGraph π μ δ}

theorem tombstoneAllPassOwned_eq (flagsOf : μ → Nat) {edges : List StoreEdgeRef}
    (hedges : g.implementsToRemove = some edges) :
    ∃ files count, g.tombstoneAllPassOwned flagsOf = some ({ g with
        edges := ((g.edges.removeEdges edges).tombstoneEdgesForNodes (g.passOwnedNodes flagsOf)).1
        nodes := g.nodes.removeAll (g.passOwnedNodes flagsOf)
        files := files }, count) ∧
      ∀ file node, node ∈ files.nodesForFile file ↔
        node ∈ g.files.nodesForFile file ∧ node ∉ g.passOwnedNodes flagsOf := by
  rw [CodeGraph.tombstoneAllPassOwned, hedges]
  cases hdead : g.passOwnedNodes flagsOf with
  | nil =>
    refine ⟨g.files, 0, rfl, fun file node => ?_⟩
    exact (and_iff_left List.not_mem_nil).symm
  | cons dead rest =>
    refine ⟨_, _, rfl, fun file node => ?_⟩
    have hbucket : Buckets.bucket (g.files.retainNodesInBuckets fun id =>
        decide (id ∉ dead :: rest)).perFileNodes file = _ := Buckets.bucket_rebucket rfl _ file
    rw [Registry.FileRegistry.nodesForFile, hbucket, List.mem_eraseDups, List.mem_filter,
      decide_eq_true_eq]
    rfl

/-- The run takes back all that the pass has made exactly when no edge of the pass between nodes
of others has left the buffer, and no index lists a node of the pass. -/
theorem pass_sweep_cleans_iff (flagsOf : μ → Nat) (g : CodeGraph π μ δ) (h : g.Sweepable) :
    (∃ after count, g.tombstoneAllPassOwned flagsOf = some (after, count) ∧
      g.Cleaned flagsOf after) ↔
      (∀ source target, (g.nodes.get source).isSome → (g.nodes.get target).isSome →
        ¬ g.PassOwned flagsOf source → ¬ g.PassOwned flagsOf target →
        g.isPassImplements source target .implements = true →
        (g.edges.forward.Sees source target .implements ∨
          g.edges.reverse.Sees target source .implements) →
        g.edges.forward.Buffered source target .implements) ∧
      ∀ node, g.PassOwned flagsOf node → ¬ g.Indexed node := by
  obtain ⟨edges, hremoved, hedges⟩ := implementsToRemove_eq h
  obtain ⟨files, count, hrun, hfiles⟩ := tombstoneAllPassOwned_eq flagsOf hremoved
  constructor
  · intro hcleaned
    obtain ⟨after, _, hafter, hcleaned⟩ := hcleaned
    rw [hrun] at hafter
    cases hafter
    refine ⟨?_, hcleaned.unindexed⟩
    intro source target hsource htarget hsourceKept htargetKept himplements hsees
    have hkept : ¬ (g.PassOwned flagsOf source ∨ g.PassOwned flagsOf target) :=
      not_or.mpr ⟨hsourceKept, htargetKept⟩
    cases hsees with
    | inl hforward =>
      obtain ⟨x, hx, hxtarget, hxkind⟩ := hforward
      have hxsource := source_eq_of_mem_edgesFrom h.bounded h.forward_live hsource hx
      subst hxsource hxtarget
      rw [← hxkind] at himplements ⊢
      by_contra hbuffered
      have hkey : x.key ∉ edges.map StoreEdgeRef.key :=
        fun hin => hbuffered ((key_mem_iff hedges).mp hin).2
      have hstays := (mem_edgesFrom_taken h hedges hsource htarget).mpr ⟨hx, hkey, hkept⟩
      exact ((hcleaned.edgesFrom x hsource htarget).mp hstays).2 (.inl himplements)
    | inr hreverse =>
      obtain ⟨e, he, hetarget, hekind⟩ := hreverse
      let x : StoreEdgeRef := { e with source := source, target := target }
      have hx : x ∈ g.edges.edgesTo target :=
        BidirectionalEdgeStore.mem_edgesTo.mpr ⟨e, he, by rw [hetarget]⟩
      have hxkind : x.kind = .implements := hekind
      by_contra hbuffered
      have hkey : x.key ∉ edges.map StoreEdgeRef.key :=
        fun hin => hbuffered (hxkind ▸ ((key_mem_iff hedges).mp hin).2)
      have hstays := (mem_edgesTo_taken (x := x) h hedges hsource htarget).mpr ⟨hx, hkey, hkept⟩
      refine ((hcleaned.edgesTo x hsource htarget).mp hstays).2 (.inl ?_)
      rw [hxkind]
      exact himplements
  · intro hcondition
    obtain ⟨hbuffered, hindexed⟩ := hcondition
    have hremovedNode : ∀ node, g.PassOwned flagsOf node →
        (g.nodes.removeAll (g.passOwnedNodes flagsOf)).get node = none := by
      intro node howned
      rw [NodeArena.get_removeAll,
        if_pos ((mem_passOwnedNodes_iff h.bounded howned.isSome).mpr howned)]
    -- of the edges between live nodes that both ends keep, those of the pass are taken
    have hwithdrawn : ∀ x : StoreEdgeRef, (g.nodes.get x.source).isSome →
        (g.nodes.get x.target).isSome → (g.edges.forward.Sees x.source x.target x.kind ∨
          g.edges.reverse.Sees x.target x.source x.kind) →
        (x.key ∉ edges.map StoreEdgeRef.key ∧
          ¬ (g.PassOwned flagsOf x.source ∨ g.PassOwned flagsOf x.target) ↔
            ¬ g.Withdrawn flagsOf x) := by
      intro x hsource htarget hsees
      rw [key_mem_iff hedges]
      refine (and_congr_left fun hkept => ?_).trans not_or.symm
      refine not_congr ⟨And.left, fun himplements => ?_⟩
      have hkind := (isPassImplements_source himplements).1
      obtain ⟨hsourceKept, htargetKept⟩ := not_or.mp hkept
      refine ⟨himplements, ?_⟩
      rw [hkind] at hsees himplements ⊢
      exact hbuffered _ _ hsource htarget hsourceKept htargetKept himplements hsees
    refine ⟨_, _, hrun, hremovedNode, ?_, ?_, ?_, ?_, ?_, hindexed⟩
    · intro node entry name hget hname hminted hsynthetic
      refine hremovedNode node ⟨entry, hget, ?_⟩
      rw [hname, hsynthetic]
      exact hminted.isPassOwnedNode
    · intro node hkept
      cases hlive : g.nodes.get node with
      | none =>
        have hget := NodeArena.get_removeAll g.nodes (g.passOwnedNodes flagsOf) node
        rw [hlive, ite_self] at hget
        exact hget
      | some entry =>
        have hsome : (g.nodes.get node).isSome := by rw [hlive]; rfl
        refine (NodeArena.get_removeAll _ _ _).trans ?_
        rw [if_neg fun hin => hkept ((mem_passOwnedNodes_iff h.bounded hsome).mp hin), hlive]
    · intro x hsource htarget
      rw [mem_edgesFrom_taken h hedges hsource htarget]
      exact and_congr_right fun hx => hwithdrawn x hsource htarget (.inl ⟨x, hx, rfl, rfl⟩)
    · intro x hsource htarget
      rw [mem_edgesTo_taken h hedges hsource htarget]
      refine and_congr_right fun hx => hwithdrawn x hsource htarget (.inr ?_)
      obtain ⟨e, he, heq⟩ := BidirectionalEdgeStore.mem_edgesTo.mp hx
      exact ⟨e, he, (congrArg StoreEdgeRef.source heq).symm, (congrArg StoreEdgeRef.kind heq).symm⟩
    · intro file node hlive
      rw [hfiles, mem_passOwnedNodes_iff h.bounded hlive]

end Main

section Example

def goNodes : NodeArena FullNodeEntry :=
  ⟨[⟨1, .occupied (FullNodeEntry.new .struct (.ofUInt8 1) 1)⟩,
    ⟨1, .occupied (FullNodeEntry.new .interface (.ofUInt8 2) 1)⟩], none, 2⟩

def goGraph (edges : BidirectionalEdgeStore) : CodeGraph String Nat Unit :=
  { (CodeGraph.new : CodeGraph String Nat Unit) with
    nodes := goNodes
    edges := edges
    files := (Registry.FileRegistry.new.registerCanonicalWithLanguage "a.go" (some .go)).1 }

def emittedImplements : BidirectionalEdgeStore :=
  BidirectionalEdgeStore.new.addEdge ⟨0, 1⟩ ⟨1, 1⟩ .implements 1

def compactedImplements : BidirectionalEdgeStore :=
  emittedImplements.swapCsrsAndClearDeltas
    ⟨2, [0, 1, 1], [⟨1, 1⟩], [.implements], [0], [[]]⟩
    ⟨2, [0, 0, 1], [⟨0, 1⟩], [.implements], [0], [[]]⟩

theorem get_goNodes {node : NodeId} (h : (goNodes.get node).isSome) :
    node = ⟨0, 1⟩ ∨ node = ⟨1, 1⟩ := by
  obtain ⟨entry, hget⟩ := Option.isSome_iff_exists.mp h
  obtain ⟨slot, hslot, hgen, _⟩ := NodeArena.get_eq_some hget
  obtain ⟨index, generation⟩ := node
  match index, hslot with
  | 0, hslot =>
    cases hslot
    cases hgen
    exact .inl rfl
  | 1, hslot =>
    cases hslot
    cases hgen
    exact .inr rfl

theorem sweepable_goGraph {edges : BidirectionalEdgeStore} (hforward : edges.forward.Sequenced)
    (hreverse : edges.reverse.Sequenced)
    (hforwardLive : ∀ d ∈ edges.forward.delta.iter,
      (goNodes.get d.source).isSome ∧ (goNodes.get d.target).isSome)
    (hreverseLive : ∀ d ∈ edges.reverse.delta.iter,
      (goNodes.get d.source).isSome ∧ (goNodes.get d.target).isSome) :
    (goGraph edges).Sweepable where
  bounded := (by decide : goNodes.slots.length ≤ u32Max + 1)
  generation_pos := by
    intro node hlive
    cases get_goNodes hlive with
    | inl heq => rw [heq]
    | inr heq => rw [heq]
  forward := hforward
  reverse := hreverse
  forward_live := fun d hd _ => hforwardLive d hd
  reverse_live := fun d hd _ => hreverseLive d hd

theorem sequenced_compacted {st : EdgeStore} {csr : CsrGraph} (hcsr : st.csr = some csr)
    (hvalid : csr.validate = .ok ()) (hcount : csr.nodeCount ≤ u32Max + 1)
    (hcovered : csr.edgeCount ≤ st.csrTombstones.length) (hempty : st.delta.iter = [])
    (hseq : ∀ i < csr.nodeCount, ∀ r ∈ csr.edgesOf i, r.seq < st.delta.seqCounter) :
    st.Sequenced := by
  refine ⟨⟨?_, ?_, ?_⟩, DeltaBuffer.numbered_of_empty hempty, ?_⟩
  · intro other hother
    rw [hcsr] at hother
    cases hother
    exact (CsrGraph.validate_eq_ok_iff csr).mp hvalid
  · rw [EdgeStore.csrNodeCount, hcsr]
    exact hcount
  · intro other hother
    rw [hcsr] at hother
    cases hother
    exact hcovered
  · intro i r hr
    rw [EdgeStore.csrEdgesOf, hcsr] at hr
    exact hseq i (CsrGraph.mem_edgesOf.mp hr).1 r hr

/-- The compacted edge stays. -/
theorem compactedImplements_stays : ¬ ∀ g : CodeGraph String Nat Unit, g.Sweepable →
    ∃ after count, g.tombstoneAllPassOwned id = some (after, count) ∧ g.Cleaned id after := by
  have hforward : compactedImplements.forward.Sequenced :=
    sequenced_compacted rfl rfl (by decide) (by decide) rfl (by decide)
  have hreverse : compactedImplements.reverse.Sequenced :=
    sequenced_compacted rfl rfl (by decide) (by decide) rfl (by decide)
  intro h
  obtain ⟨after, count, hrun, hcleaned⟩ := h (goGraph compactedImplements)
    (sweepable_goGraph hforward hreverse (by decide) (by decide))
  have hsame : (goGraph compactedImplements).tombstoneAllPassOwned id =
      some (goGraph compactedImplements, 0) := rfl
  rw [hsame] at hrun
  cases hrun
  have hgone := (hcleaned.edgesFrom ⟨⟨0, 1⟩, ⟨1, 1⟩, .implements, 0, FileId.INVALID, []⟩
    (by decide) (by decide)).mp (by decide)
  exact hgone.2 (.inl (by decide))

/-- The buffered one goes. -/
theorem pass_sweep_cleans_emittedImplements : (goGraph emittedImplements).Sweepable ∧
    ((∃ after count, (goGraph emittedImplements).tombstoneAllPassOwned id = some (after, count) ∧
      (goGraph emittedImplements).Cleaned id after) ↔
      (∀ source target, ((goGraph emittedImplements).nodes.get source).isSome →
        ((goGraph emittedImplements).nodes.get target).isSome →
        ¬ (goGraph emittedImplements).PassOwned id source →
        ¬ (goGraph emittedImplements).PassOwned id target →
        (goGraph emittedImplements).isPassImplements source target .implements = true →
        (emittedImplements.forward.Sees source target .implements ∨
          emittedImplements.reverse.Sees target source .implements) →
        emittedImplements.forward.Buffered source target .implements) ∧
      ∀ node, (goGraph emittedImplements).PassOwned id node →
        ¬ (goGraph emittedImplements).Indexed node) := by
  have hsweepable : (goGraph emittedImplements).Sweepable := by
    refine sweepable_goGraph (EdgeStore.sequenced_buffered rfl ?_)
      (EdgeStore.sequenced_buffered rfl ?_) ?_ ?_
    · exact ⟨by decide, by decide⟩
    · exact ⟨by decide, by decide⟩
    · decide
    · decide
  exact ⟨hsweepable, pass_sweep_cleans_iff id (goGraph emittedImplements) hsweepable⟩

end Example

end Sqry
