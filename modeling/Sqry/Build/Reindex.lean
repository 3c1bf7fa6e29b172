import Sqry.Edge.Withdraw
import Sqry.Graph.CodeGraph

/-!
What a re-indexing takes out before the changed files are parsed again: for each file the edges at
the nodes of its segment, and then the nodes. The edges are gathered from both directions, and of
neighbours that join the same slots by the same variant only the first is removed.
-/

namespace Sqry

def Registry.FileRegistry.get {π : Type} [DecidableEq π] (paths : PathFunctions π)
    (r : FileRegistry π) (path : π) : Option FileId := r.lookup.lookup (paths.normalizePath path)

def FileSegment.endSlot (s : FileSegment) : Nat := min (s.startSlot + s.slotCount) u32Max

def FileSegment.slots (s : FileSegment) : List Nat :=
  List.range' s.startSlot (s.endSlot - s.startSlot)

structure ReindexStats where
  filesReindexed : Nat
  nodesTombstoned : Nat
  edgesTombstoned : Nat
  nodesCommitted : Nat
  edgesInserted : Nat
  filesSkipped : Nat
  deriving DecidableEq, Repr

def ReindexStats.default : ReindexStats := ⟨0, 0, 0, 0, 0, 0⟩

/-- The orders in which the readers list what they took from the buffers by way of a hash map. -/
structure ListingOrders where
  out : NodeId → List StoreEdgeRef → List StoreEdgeRef
  into : NodeId → List StoreEdgeRef → List StoreEdgeRef
  out_perm : ∀ node edges, (out node edges).Perm edges
  into_perm : ∀ node edges, (into node edges).Perm edges

def EdgeStore.edgesFromIn (st : EdgeStore) (order : List StoreEdgeRef → List StoreEdgeRef)
    (source : NodeId) : List StoreEdgeRef :=
  let deltaLww := st.buildDeltaLwwFromSource source.index
  st.csrEdgesFrom source source.index deltaLww ++ order (st.deltaEdgesFrom deltaLww)

def BidirectionalEdgeStore.edgesAt (b : BidirectionalEdgeStore) (orders : ListingOrders)
    (node : NodeId) : List StoreEdgeRef :=
  b.forward.edgesFromIn (orders.out node) node ++
    (b.reverse.edgesFromIn (orders.into node) node).map fun e =>
      { e with source := e.target, target := node }

namespace NodeArena
variable {α : Type}

def nodeAt (a : NodeArena α) (idx : Nat) : Option NodeId :=
  match a.slots[idx]? with
  | none => none
  | some slot => if slot.isOccupied then some ⟨idx, slot.generation⟩ else none

def tombstoneSlot (acc : NodeArena α × Nat) (idx : Nat) : NodeArena α × Nat :=
  match acc.1.nodeAt idx with
  | none => acc
  | some node => ((acc.1.remove node).1, acc.2 + 1)

end NodeArena

def bySlots : StoreEdgeRef → StoreEdgeRef → Ordering :=
  compareLex (compareOn fun e => e.source.index) (compareOn fun e => e.target.index)

instance : Std.TransCmp bySlots :=
  inferInstanceAs (Std.TransCmp (compareLex (compareOn fun e : StoreEdgeRef => e.source.index)
    (compareOn fun e : StoreEdgeRef => e.target.index)))

def StoreEdgeRef.slots (e : StoreEdgeRef) : Nat × Nat := (e.source.index, e.target.index)

def StoreEdgeRef.slotsAndVariant (e : StoreEdgeRef) : (Nat × Nat) × Nat :=
  (e.slots, e.kind.ctorIdx)

namespace CodeGraph
variable {π μ δ : Type} [DecidableEq π]

/-- What `tombstone_old_edges` gathers. -/
def oldEdges (orders : ListingOrders) (g : CodeGraph π μ δ) (segment : FileSegment) :
    List StoreEdgeRef :=
  (segment.slots.filterMap g.nodes.nodeAt).flatMap (g.edges.edgesAt orders)

def edgesToRemove (orders : ListingOrders) (g : CodeGraph π μ δ) (segment : FileSegment) :
    List StoreEdgeRef :=
  SortedGroups.heads StoreEdgeRef.slotsAndVariant
    (SortedGroups.sortBy bySlots (g.oldEdges orders segment))

def tombstoneOldEdges (orders : ListingOrders) (g : CodeGraph π μ δ) (segment : FileSegment) :
    CodeGraph π μ δ × Nat :=
  ({ g with edges := g.edges.removeEdges (g.edgesToRemove orders segment) },
    (g.edgesToRemove orders segment).length)

def tombstoneOldNodes (g : CodeGraph π μ δ) (segment : FileSegment) : CodeGraph π μ δ × Nat :=
  let (nodes, count) := segment.slots.foldl NodeArena.tombstoneSlot (g.nodes, 0)
  ({ g with nodes := nodes }, count)

def skipFile (acc : CodeGraph π μ δ × ReindexStats) : CodeGraph π μ δ × ReindexStats :=
  (acc.1, { acc.2 with filesSkipped := acc.2.filesSkipped + 1 })

def reindexFile (paths : Registry.PathFunctions π) (orders : ListingOrders)
    (acc : CodeGraph π μ δ × ReindexStats) (path : π) : CodeGraph π μ δ × ReindexStats :=
  match acc.1.files.get paths path with
  | none => skipFile acc
  | some file =>
    match acc.1.fileSegments.get file with
    | none => skipFile acc
    | some oldSegment =>
      let (g, edgesTombstoned) := acc.1.tombstoneOldEdges orders oldSegment
      let (g, nodesTombstoned) := g.tombstoneOldNodes oldSegment
      ({ g with
        fileSegments := g.fileSegments.remove file
        files := (g.files.takeNodes file).1 },
        { acc.2 with
          filesReindexed := acc.2.filesReindexed + 1
          nodesTombstoned := acc.2.nodesTombstoned + nodesTombstoned
          edgesTombstoned := acc.2.edgesTombstoned + edgesTombstoned })

def reindexFiles (paths : Registry.PathFunctions π) (orders : ListingOrders) (g : CodeGraph π μ δ)
    (changedPaths : List π) : CodeGraph π μ δ × ReindexStats :=
  changedPaths.foldl (reindexFile paths orders) (g, ReindexStats.default)

def segmentOf (paths : Registry.PathFunctions π) (g : CodeGraph π μ δ) (path : π) :
    Option FileSegment := (g.files.get paths path).bind g.fileSegments.get

def reindexed (paths : Registry.PathFunctions π) (orders : ListingOrders) (g : CodeGraph π μ δ)
    (path : π) : CodeGraph π μ δ := (reindexFile paths orders (g, ReindexStats.default) path).1

/-- Among the edges that are gathered between the two slots, one with this key stands in front of a
run of its variant. -/
def Leads (orders : ListingOrders) (g : CodeGraph π μ δ) (segment : FileSegment) (key : EdgeKey) :
    Prop :=
  ∃ e ∈ SortedGroups.heads StoreEdgeRef.slotsAndVariant
    ((g.oldEdges orders segment).filter fun e => e.slots = (key.source.index, key.target.index)),
      e.key = key

def Taken (paths : Registry.PathFunctions π) (orders : ListingOrders) (key : EdgeKey) :
    List π → CodeGraph π μ δ → Prop
  | [], _ => False
  | path :: rest, g =>
    (∃ segment, g.segmentOf paths path = some segment ∧ g.Leads orders segment key) ∨
      Taken paths orders key rest (g.reindexed paths orders path)

def InChanged (paths : Registry.PathFunctions π) (g : CodeGraph π μ δ) (changed : List π)
    (slot : Nat) : Prop :=
  ∃ path ∈ changed, ∃ segment, g.segmentOf paths path = some segment ∧ slot ∈ segment.slots

def Tombstoned (before after : CodeGraph π μ δ) (slot : Nat) : Prop :=
  ∃ a, (before.nodes.get a).isSome ∧ after.nodes.get a = none ∧ a.index = slot

/-- The nodes are the live ones and perhaps others, one in a slot, and the edges join them. The two
directions show the same edges. -/
structure MirrorsOn (nodes : NodeId → Prop) (g : CodeGraph π μ δ) : Prop where
  forward_sequenced : g.edges.forward.Sequenced
  reverse_sequenced : g.edges.reverse.Sequenced
  live : ∀ a, (g.nodes.get a).isSome → nodes a
  sole : ∀ a b, nodes a → nodes b → a.index = b.index → a = b
  forward_joins : ∀ a, nodes a → ∀ e ∈ g.edges.forward.edgesFrom a, nodes e.source ∧ nodes e.target
  reverse_joins : ∀ a, nodes a → ∀ e ∈ g.edges.reverse.edgesFrom a, nodes e.source ∧ nodes e.target
  mirrored : ∀ source target kind, nodes source → nodes target →
    (g.edges.forward.Sees source target kind ↔ g.edges.reverse.Sees target source kind)

/-- No edge of a list of these nodes touches a slot that was tombstoned, and the others are as they
were. -/
structure LeavesNoEdge (nodes : NodeId → Prop) (before after : CodeGraph π μ δ) : Prop where
  gone : ∀ a, nodes a → ∀ e, e ∈ after.edges.edgesFrom a ∨ e ∈ after.edges.edgesTo a →
    ¬ Tombstoned before after e.source.index ∧ ¬ Tombstoned before after e.target.index
  kept : ∀ a, nodes a → ∀ e, ¬ Tombstoned before after e.source.index →
    ¬ Tombstoned before after e.target.index →
      (e ∈ before.edges.edgesFrom a → e ∈ after.edges.edgesFrom a) ∧
        (e ∈ before.edges.edgesTo a → e ∈ after.edges.edgesTo a)

end CodeGraph

section Gathered

theorem bySlots_isLE {a b : StoreEdgeRef} : (bySlots a b).isLE = true ↔
    a.slots.1 < b.slots.1 ∨ a.slots.1 = b.slots.1 ∧ a.slots.2 ≤ b.slots.2 := by
  rw [bySlots, compareLex, compareOn, compareOn, Ordering.isLE_then_iff_or, Nat.compare_eq_lt,
    Nat.compare_eq_eq, Nat.isLE_compare]
  rfl

variable {e : StoreEdgeRef}

theorem mem_edgesFromIn {st : EdgeStore} {order : List StoreEdgeRef → List StoreEdgeRef}
    (h : ∀ edges, (order edges).Perm edges) {source : NodeId} :
    e ∈ st.edgesFromIn order source ↔ e ∈ st.edgesFrom source := by
  rw [EdgeStore.edgesFromIn, EdgeStore.edgesFrom, List.mem_append, List.mem_append,
    (h _).mem_iff]

theorem mem_edgesAt {b : BidirectionalEdgeStore} {orders : ListingOrders} {node : NodeId} :
    e ∈ b.edgesAt orders node ↔ e ∈ b.edgesFrom node ∨ e ∈ b.edgesTo node := by
  rw [BidirectionalEdgeStore.edgesAt, List.mem_append, mem_edgesFromIn (orders.out_perm node),
    BidirectionalEdgeStore.edgesTo, List.mem_map, List.mem_map]
  simp only [mem_edgesFromIn (orders.into_perm node)]
  rfl

theorem EdgeStore.source_index_of_mem_edgesFrom {st : EdgeStore} {a : NodeId}
    (h : e ∈ st.edgesFrom a) : e.source.index = a.index := by
  cases EdgeStore.mem_edgesFrom.mp h with
  | inl hrow =>
    obtain ⟨r, _, _, heq⟩ := hrow
    rw [heq]
    rfl
  | inr hbuffered =>
    obtain ⟨w, hsource, _, _, _, heq⟩ := hbuffered
    rw [heq]
    exact hsource

end Gathered

namespace NodeArena
variable {α : Type}

theorem nodeAt_eq_some {a : NodeArena α} {idx : Nat} {node : NodeId} :
    a.nodeAt idx = some node ↔ node.index = idx ∧ ∃ entry, a.Holds node entry := by
  rw [nodeAt]
  constructor
  · intro h
    cases hslot : a.slots[idx]? with
    | none =>
      rw [hslot] at h
      cases h
    | some slot =>
      rw [hslot] at h
      obtain ⟨generation, state⟩ := slot
      cases state with
      | vacant next => cases h
      | occupied data =>
        cases h
        exact ⟨rfl, data, _, hslot, rfl, rfl⟩
  · intro h
    obtain ⟨hindex, entry, slot, hslot, hgen, hget⟩ := h
    obtain ⟨generation, state⟩ := slot
    rw [← hindex, hslot]
    cases state with
    | vacant next => cases hget
    | occupied data =>
      have hnode : (⟨node.index, generation⟩ : NodeId) = node := nodeId_ext rfl hgen
      rw [← hnode]
      rfl

theorem get_tombstoneSlot (acc : NodeArena α × Nat) (idx : Nat) (id : NodeId) :
    (tombstoneSlot acc idx).1.get id = if id.index = idx then none else acc.1.get id := by
  rw [tombstoneSlot]
  by_cases hid : id.index = idx
  · rw [if_pos hid]
    cases hget : acc.1.get id with
    | none =>
      cases acc.1.nodeAt idx with
      | none => exact hget
      | some node =>
        simp only [get_remove, hget, ite_self]
    | some entry =>
      have hnode : acc.1.nodeAt idx = some id :=
        nodeAt_eq_some.mpr ⟨hid, entry, holds_of_get hget⟩
      rw [hnode]
      simp only [get_remove, if_true]
  · rw [if_neg hid]
    cases hnode : acc.1.nodeAt idx with
    | none => rfl
    | some node =>
      have hne : id ≠ node := fun heq => hid (heq ▸ (nodeAt_eq_some.mp hnode).1)
      simp only [get_remove, if_neg hne]

theorem get_tombstoneSlots (slots : List Nat) (acc : NodeArena α × Nat) (id : NodeId) :
    (slots.foldl tombstoneSlot acc).1.get id = if id.index ∈ slots then none else acc.1.get id := by
  induction slots generalizing acc with
  | nil => rfl
  | cons idx slots ih =>
    rw [List.foldl_cons, ih, get_tombstoneSlot]
    by_cases hid : id.index = idx
    · rw [if_pos hid, ite_self, if_pos (List.mem_cons.mpr (.inl hid))]
    · rw [if_neg hid]
      simp only [List.mem_cons, hid, false_or]

end NodeArena

theorem FileSegmentTable.get_remove (t : FileSegmentTable) (file other : FileId) :
    (t.remove file).get other = if other = file then none else t.get other := by
  rw [remove]
  by_cases heq : other = file
  · rw [heq, if_pos rfl]
    by_cases hlt : file < t.segments.length
    · rw [if_pos hlt, get]
      simp only [List.getElem?_set_self hlt, Option.join_some]
    · rw [if_neg hlt, get, List.getElem?_eq_none (Nat.le_of_not_lt hlt)]
      rfl
  · rw [if_neg heq]
    by_cases hlt : file < t.segments.length
    · rw [if_pos hlt, get, get]
      simp only [List.getElem?_set_ne (Ne.symm heq)]
    · rw [if_neg hlt]

namespace CodeGraph
variable {π μ δ : Type} [DecidableEq π] {paths : Registry.PathFunctions π} {orders : ListingOrders}

section OneFile
variable {g : CodeGraph π μ δ} {segment : FileSegment}

theorem mem_edgesToRemove_iff {key : EdgeKey} :
    key ∈ (g.edgesToRemove orders segment).map StoreEdgeRef.key ↔ g.Leads orders segment key := by
  have hanti : ∀ c d : Nat × Nat, (c.1 < d.1 ∨ c.1 = d.1 ∧ c.2 ≤ d.2) →
      (d.1 < c.1 ∨ d.1 = c.1 ∧ d.2 ≤ c.2) → c = d := by
    intro c d hcd hdc
    exact Prod.ext (by omega) (by omega)
  have hsorted : (SortedGroups.sortBy bySlots (g.oldEdges orders segment)).Pairwise
      fun a b => a.slots.1 < b.slots.1 ∨ a.slots.1 = b.slots.1 ∧ a.slots.2 ≤ b.slots.2 :=
    (SortedGroups.sorted_sortBy _).imp fun {a b} hle => bySlots_isLE.mp hle
  have hvariant : ∀ a b : StoreEdgeRef, a.slotsAndVariant = b.slotsAndVariant →
      a.slots = b.slots := fun a b hab => congrArg Prod.fst hab
  have hheads :=
    SortedGroups.filter_heads hanti hvariant (key.source.index, key.target.index) hsorted
  have hties : ∀ a b : StoreEdgeRef, a.slots = b.slots → (bySlots a b).isLE = true := fun a b hab =>
    bySlots_isLE.mpr (.inr ⟨congrArg Prod.fst hab, le_of_eq (congrArg Prod.snd hab)⟩)
  rw [SortedGroups.filter_sortBy hties] at hheads
  rw [Leads, ← hheads, List.mem_map]
  refine exists_congr fun e => ?_
  rw [List.mem_filter, and_assoc]
  refine and_congr_right fun _ => (and_iff_right_of_imp fun heq => ?_).symm
  rw [← heq]
  exact decide_eq_true rfl

theorem mem_oldEdges {e : StoreEdgeRef} : e ∈ g.oldEdges orders segment ↔
    ∃ a, (g.nodes.get a).isSome ∧ a.index ∈ segment.slots ∧
      (e ∈ g.edges.edgesFrom a ∨ e ∈ g.edges.edgesTo a) := by
  rw [oldEdges, List.mem_flatMap]
  refine exists_congr fun a => ?_
  rw [mem_edgesAt, List.mem_filterMap, ← and_assoc]
  refine and_congr_left fun _ => ?_
  constructor
  · intro h
    obtain ⟨idx, hidx, hnode⟩ := h
    obtain ⟨hindex, entry, hholds⟩ := NodeArena.nodeAt_eq_some.mp hnode
    refine ⟨?_, hindex ▸ hidx⟩
    have hvalid : a.index ≠ u32Max := by
      rw [FileSegment.slots, List.mem_range'_1, FileSegment.endSlot] at hidx
      omega
    rw [NodeArena.get_eq_some_iff.mpr ⟨hvalid, hholds⟩]
    rfl
  · intro h
    obtain ⟨hlive, hidx⟩ := h
    obtain ⟨entry, hget⟩ := Option.isSome_iff_exists.mp hlive
    exact ⟨a.index, hidx, NodeArena.nodeAt_eq_some.mpr ⟨rfl, entry, NodeArena.holds_of_get hget⟩⟩

theorem Leads.touches {key : EdgeKey} (h : g.Leads orders segment key) :
    ∃ a, (g.nodes.get a).isSome ∧ a.index ∈ segment.slots ∧
      (a.index = key.source.index ∨ a.index = key.target.index) := by
  obtain ⟨e, he, hkey⟩ := h
  obtain ⟨a, hlive, hidx, hlist⟩ := mem_oldEdges.mp
    (List.mem_filter.mp ((SortedGroups.heads_sublist _).subset he)).1
  refine ⟨a, hlive, hidx, ?_⟩
  rw [← hkey]
  cases hlist with
  | inl hout => exact .inl (EdgeStore.source_index_of_mem_edgesFrom hout).symm
  | inr hinto =>
    obtain ⟨e', _, heq⟩ := BidirectionalEdgeStore.mem_edgesTo.mp hinto
    rw [heq]
    exact .inr rfl

theorem reindexed_cases (paths : Registry.PathFunctions π) (orders : ListingOrders)
    (g : CodeGraph π μ δ) (path : π) :
    (g.segmentOf paths path = none ∧ g.reindexed paths orders path = g) ∨
      ∃ file segment, g.files.get paths path = some file ∧
        g.fileSegments.get file = some segment ∧
        (g.reindexed paths orders path).edges =
          g.edges.removeEdges (g.edgesToRemove orders segment) ∧
        (g.reindexed paths orders path).nodes =
          (segment.slots.foldl NodeArena.tombstoneSlot (g.nodes, 0)).1 ∧
        (g.reindexed paths orders path).fileSegments = g.fileSegments.remove file ∧
        (g.reindexed paths orders path).files.lookup = g.files.lookup := by
  rw [segmentOf, reindexed, reindexFile]
  simp only
  cases hfile : g.files.get paths path with
  | none => exact .inl ⟨rfl, rfl⟩
  | some file =>
    simp only [Option.bind_some]
    cases hsegment : g.fileSegments.get file with
    | none => exact .inl ⟨rfl, rfl⟩
    | some segment => exact .inr ⟨file, segment, rfl, hsegment, rfl, rfl, rfl, rfl⟩

theorem reindexFile_fst (acc : CodeGraph π μ δ × ReindexStats) (path : π) :
    (reindexFile paths orders acc path).1 = acc.1.reindexed paths orders path := by
  rw [reindexed, reindexFile, reindexFile]
  simp only
  cases acc.1.files.get paths path with
  | none => rfl
  | some file =>
    simp only
    cases acc.1.fileSegments.get file with
    | none => rfl
    | some segment => rfl

theorem reindexFiles_fst (changed : List π) (acc : CodeGraph π μ δ × ReindexStats) :
    (changed.foldl (reindexFile paths orders) acc).1 =
      changed.foldl (reindexed paths orders) acc.1 := by
  induction changed generalizing acc with
  | nil => rfl
  | cons path changed ih => rw [List.foldl_cons, ih, reindexFile_fst, List.foldl_cons]

end OneFile

section Files
variable {g : CodeGraph π μ δ} {path : π}

theorem segmentOf_reindexed (g : CodeGraph π μ δ) {path other : π} {segment : FileSegment}
    (h : g.segmentOf paths path = some segment) :
    (g.reindexed paths orders path).segmentOf paths other =
      if g.files.get paths other = g.files.get paths path then none
      else g.segmentOf paths other := by
  cases reindexed_cases paths orders g path with
  | inl hskip =>
    rw [h] at hskip
    cases hskip.1
  | inr htaken =>
    obtain ⟨file, _, hfile, _, _, _, hsegments, hlookup⟩ := htaken
    rw [segmentOf, segmentOf, Registry.FileRegistry.get, hlookup, hfile, hsegments]
    rw [← Registry.FileRegistry.get]
    cases hother : g.files.get paths other with
    | none => simp
    | some other' =>
      rw [Option.bind_some, Option.bind_some, FileSegmentTable.get_remove]
      simp only [Option.some.injEq]

variable {changed : List π}

theorem inChanged_cons_of_none (h : g.segmentOf paths path = none) {slot : Nat}
    : g.InChanged paths (path :: changed) slot ↔ g.InChanged paths changed slot := by
  constructor
  · intro hin
    obtain ⟨p, hp, segment, hsegment, hslot⟩ := hin
    cases List.mem_cons.mp hp with
    | inl heq =>
      rw [heq, h] at hsegment
      cases hsegment
    | inr hmem => exact ⟨p, hmem, segment, hsegment, hslot⟩
  · intro hin
    obtain ⟨p, hp, hrest⟩ := hin
    exact ⟨p, List.mem_cons_of_mem path hp, hrest⟩

theorem inChanged_cons_of_some (orders : ListingOrders) {segment : FileSegment}
    (h : g.segmentOf paths path = some segment) {slot : Nat} :
    g.InChanged paths (path :: changed) slot ↔
      slot ∈ segment.slots ∨ (g.reindexed paths orders path).InChanged paths changed slot := by
  constructor
  · intro hin
    obtain ⟨p, hp, segment', hsegment, hslot⟩ := hin
    by_cases hsame : g.files.get paths p = g.files.get paths path
    · rw [segmentOf, hsame, ← segmentOf, h] at hsegment
      cases hsegment
      exact .inl hslot
    · cases List.mem_cons.mp hp with
      | inl heq => exact absurd (heq ▸ rfl) hsame
      | inr hmem =>
        refine .inr ⟨p, hmem, segment', ?_, hslot⟩
        rw [segmentOf_reindexed g h, if_neg hsame]
        exact hsegment
  · intro hin
    cases hin with
    | inl hslot => exact ⟨path, List.mem_cons_self, segment, h, hslot⟩
    | inr hrest =>
      obtain ⟨p, hp, segment', hsegment, hslot⟩ := hrest
      rw [segmentOf_reindexed g h] at hsegment
      by_cases hsame : g.files.get paths p = g.files.get paths path
      · rw [if_pos hsame] at hsegment
        cases hsegment
      · rw [if_neg hsame] at hsegment
        exact ⟨p, List.mem_cons_of_mem path hp, segment', hsegment, hslot⟩

theorem get_run (changed : List π) (g : CodeGraph π μ δ) (id : NodeId) :
    (changed.foldl (reindexed paths orders) g).nodes.get id = none ↔
      g.nodes.get id = none ∨ g.InChanged paths changed id.index := by
  induction changed generalizing g with
  | nil => simp [InChanged]
  | cons path changed ih =>
    rw [List.foldl_cons, ih]
    cases reindexed_cases paths orders g path with
    | inl hskip => rw [hskip.2, inChanged_cons_of_none hskip.1]
    | inr htaken =>
      obtain ⟨file, segment, hfile, hget, _, hnodes, _⟩ := htaken
      have hsegment : g.segmentOf paths path = some segment := by
        rw [segmentOf, hfile, Option.bind_some, hget]
      rw [inChanged_cons_of_some orders hsegment, hnodes, NodeArena.get_tombstoneSlots]
      by_cases hslot : id.index ∈ segment.slots
      · simp [hslot]
      · simp [hslot]

theorem Taken.touches {key : EdgeKey} {g : CodeGraph π μ δ} (h : Taken paths orders key changed g) :
    ∃ a, (g.nodes.get a).isSome ∧ g.InChanged paths changed a.index ∧
      (a.index = key.source.index ∨ a.index = key.target.index) := by
  induction changed generalizing g with
  | nil => cases h
  | cons path changed ih =>
    cases h with
    | inl hleads =>
      obtain ⟨segment, hsegment, hlead⟩ := hleads
      obtain ⟨a, hlive, hslot, hend⟩ := hlead.touches
      exact ⟨a, hlive, ⟨path, List.mem_cons_self, segment, hsegment, hslot⟩, hend⟩
    | inr hrest =>
      obtain ⟨a, hlive, hin, hend⟩ := ih hrest
      refine ⟨a, ?_, ?_, hend⟩
      · cases reindexed_cases paths orders g path with
        | inl hskip => rwa [hskip.2] at hlive
        | inr htaken =>
          obtain ⟨_, segment, _, _, _, hnodes, _⟩ := htaken
          rw [hnodes, NodeArena.get_tombstoneSlots] at hlive
          by_cases hslot : a.index ∈ segment.slots
          · rw [if_pos hslot] at hlive
            cases hlive
          · rwa [if_neg hslot] at hlive
      · cases hsegment : g.segmentOf paths path with
        | none =>
          cases reindexed_cases paths orders g path with
          | inl hskip =>
            rw [hskip.2] at hin
            exact (inChanged_cons_of_none hsegment).mpr hin
          | inr htaken =>
            obtain ⟨_, _, hfile, hget, _⟩ := htaken
            rw [segmentOf, hfile, Option.bind_some, hget] at hsegment
            cases hsegment
        | some segment => exact (inChanged_cons_of_some orders hsegment).mpr (.inr hin)

end Files

end CodeGraph
end Sqry
