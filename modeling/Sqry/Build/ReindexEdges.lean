import Sqry.Build.Reindex

/-!
The edges after a re-indexing. Each path takes out the edges whose keys lead a run, and an edge that
no path takes out stays, also at a slot that was tombstoned.
-/

namespace Sqry

namespace CodeGraph
variable {π μ δ : Type} [DecidableEq π] {paths : Registry.PathFunctions π} {orders : ListingOrders}

section Edges
variable {nodes : NodeId → Prop} {g : CodeGraph π μ δ}

/-- What a run keeps: the edges that the lists of the nodes show join the nodes, and there are no
live nodes but these. -/
structure Within (nodes : NodeId → Prop) (g : CodeGraph π μ δ) : Prop where
  forward_sequenced : g.edges.forward.Sequenced
  reverse_sequenced : g.edges.reverse.Sequenced
  live : ∀ a, (g.nodes.get a).isSome → nodes a
  forward_joins : ∀ a, nodes a → ∀ e ∈ g.edges.forward.edgesFrom a, nodes e.source ∧ nodes e.target
  reverse_joins : ∀ a, nodes a → ∀ e ∈ g.edges.reverse.edgesFrom a, nodes e.source ∧ nodes e.target

theorem MirrorsOn.within (h : g.MirrorsOn nodes) : g.Within nodes where
  forward_sequenced := h.forward_sequenced
  reverse_sequenced := h.reverse_sequenced
  live := h.live
  forward_joins := h.forward_joins
  reverse_joins := h.reverse_joins

theorem Within.joins_of_mem (h : g.Within nodes) {segment : FileSegment} {e : StoreEdgeRef}
    (he : e ∈ g.edgesToRemove orders segment) : nodes e.source ∧ nodes e.target := by
  obtain ⟨a, hlive, _, hlist⟩ := mem_oldEdges.mp
    (SortedGroups.mem_sortBy.mp ((SortedGroups.heads_sublist _).subset he))
  have ha := h.live a hlive
  cases hlist with
  | inl hout => exact h.forward_joins a ha e hout
  | inr hinto =>
    obtain ⟨e', he', heq⟩ := BidirectionalEdgeStore.mem_edgesTo.mp hinto
    rw [heq]
    exact ⟨(h.reverse_joins a ha e' he').2, ha⟩

theorem key_turned (e : StoreEdgeRef) :
    (BidirectionalEdgeStore.turned e).key = ⟨e.target, e.source, e.kind⟩ := rfl

theorem mem_map_key_turned {edges : List StoreEdgeRef} {e : StoreEdgeRef} :
    e.key ∈ (edges.map BidirectionalEdgeStore.turned).map StoreEdgeRef.key ↔
      (BidirectionalEdgeStore.turned e).key ∈ edges.map StoreEdgeRef.key := by
  rw [List.map_map, List.mem_map, List.mem_map]
  refine exists_congr fun x => and_congr_right fun _ => ?_
  rw [Function.comp_apply, key_turned, key_turned, StoreEdgeRef.key, StoreEdgeRef.key,
    EdgeKey.mk.injEq, EdgeKey.mk.injEq]
  exact and_left_comm

variable (hsole : ∀ a b, nodes a → nodes b → a.index = b.index → a = b)
include hsole

theorem Within.mem_reindexed (h : g.Within nodes) {path : π} {a : NodeId} (ha : nodes a)
    {e : StoreEdgeRef} :
    (e ∈ (g.reindexed paths orders path).edges.forward.edgesFrom a ↔
      e ∈ g.edges.forward.edgesFrom a ∧ ¬ ∃ segment, g.segmentOf paths path = some segment ∧
        g.Leads orders segment e.key) ∧
    (e ∈ (g.reindexed paths orders path).edges.reverse.edgesFrom a ↔
      e ∈ g.edges.reverse.edgesFrom a ∧ ¬ ∃ segment, g.segmentOf paths path = some segment ∧
        g.Leads orders segment (BidirectionalEdgeStore.turned e).key) := by
  cases reindexed_cases paths orders g path with
  | inl hskip => simp [hskip.1, hskip.2]
  | inr htaken =>
    obtain ⟨file, segment, hfile, hget, hedges, _⟩ := htaken
    have hsegment : g.segmentOf paths path = some segment := by
      rw [segmentOf, hfile, Option.bind_some, hget]
    have hkeys : ∀ key, (∃ segment', g.segmentOf paths path = some segment' ∧
        g.Leads orders segment' key) ↔
          key ∈ (g.edgesToRemove orders segment).map StoreEdgeRef.key := by
      intro key
      rw [mem_edgesToRemove_iff, hsegment]
      simp only [Option.some.injEq, exists_eq_left']
    rw [hedges, BidirectionalEdgeStore.removeEdges_eq, hkeys, hkeys, ← mem_map_key_turned]
    refine ⟨EdgeStore.mem_edgesFrom_removeEdges h.forward_sequenced fun e he hindex => ?_,
      EdgeStore.mem_edgesFrom_removeEdges h.reverse_sequenced fun e he hindex => ?_⟩
    · exact hsole a e.source ha (h.joins_of_mem he).1 hindex
    · obtain ⟨e', he', heq⟩ := List.mem_map.mp he
      rw [← heq] at hindex ⊢
      exact hsole a e'.target ha (h.joins_of_mem he').2 hindex

theorem Within.reindexed (h : g.Within nodes) (path : π) :
    (g.reindexed paths orders path).Within nodes where
  forward_sequenced := by
    cases reindexed_cases paths orders g path with
    | inl hskip =>
      rw [hskip.2]
      exact h.forward_sequenced
    | inr htaken =>
      obtain ⟨_, _, _, _, hedges, _⟩ := htaken
      rw [hedges, BidirectionalEdgeStore.removeEdges_eq]
      exact h.forward_sequenced.removeEdges _
  reverse_sequenced := by
    cases reindexed_cases paths orders g path with
    | inl hskip =>
      rw [hskip.2]
      exact h.reverse_sequenced
    | inr htaken =>
      obtain ⟨_, _, _, _, hedges, _⟩ := htaken
      rw [hedges, BidirectionalEdgeStore.removeEdges_eq]
      exact h.reverse_sequenced.removeEdges _
  live := by
    intro a hlive
    refine h.live a (Option.ne_none_iff_isSome.mp fun hnone => ?_)
    have hgone := (@get_run π μ δ _ paths orders [path] g a).mpr (.inl hnone)
    rw [List.foldl_cons, List.foldl_nil] at hgone
    rw [hgone] at hlive
    cases hlive
  forward_joins := fun a ha e he =>
    h.forward_joins a ha e ((h.mem_reindexed hsole ha).1.mp he).1
  reverse_joins := fun a ha e he =>
    h.reverse_joins a ha e ((h.mem_reindexed hsole ha).2.mp he).1

theorem Within.mem_run (changed : List π) {g : CodeGraph π μ δ} (h : g.Within nodes) {a : NodeId}
    (ha : nodes a) {e : StoreEdgeRef} :
    (e ∈ (changed.foldl (CodeGraph.reindexed paths orders) g).edges.forward.edgesFrom a ↔
      e ∈ g.edges.forward.edgesFrom a ∧ ¬ Taken paths orders e.key changed g) ∧
    (e ∈ (changed.foldl (CodeGraph.reindexed paths orders) g).edges.reverse.edgesFrom a ↔
      e ∈ g.edges.reverse.edgesFrom a ∧
        ¬ Taken paths orders (BidirectionalEdgeStore.turned e).key changed g) := by
  induction changed generalizing g with
  | nil => simp [Taken]
  | cons path changed ih =>
    obtain ⟨hforward, hreverse⟩ := ih (h.reindexed hsole path)
    obtain ⟨hforward', hreverse'⟩ :=
      @Within.mem_reindexed π μ δ _ paths orders nodes g hsole h path a ha e
    rw [List.foldl_cons, hforward, hreverse, hforward', hreverse', Taken, Taken, not_or, not_or,
      and_assoc, and_assoc]
    exact ⟨Iff.rfl, Iff.rfl⟩

theorem MirrorsOn.mem_edgesTo (h : g.Within nodes) {b : NodeId} (hb : nodes b)
    {x : StoreEdgeRef} : x ∈ g.edges.edgesTo b ↔
      x.target = b ∧ BidirectionalEdgeStore.turned x ∈ g.edges.reverse.edgesFrom b := by
  rw [BidirectionalEdgeStore.mem_edgesTo]
  constructor
  · intro hx
    obtain ⟨e, he, heq⟩ := hx
    have hsource : e.source = b := hsole e.source b (h.reverse_joins b hb e he).1 hb
      (EdgeStore.source_index_of_mem_edgesFrom he)
    rw [heq]
    refine ⟨rfl, ?_⟩
    rw [← hsource] at he ⊢
    exact he
  · intro hx
    obtain ⟨htarget, hturned⟩ := hx
    refine ⟨BidirectionalEdgeStore.turned x, hturned, ?_⟩
    rw [← htarget]
    rfl

theorem Within.mem_edgesTo_run (changed : List π) (h : g.Within nodes)
    (hrun : (changed.foldl (CodeGraph.reindexed paths orders) g).Within nodes) {b : NodeId}
    (hb : nodes b) {x : StoreEdgeRef} :
    x ∈ (changed.foldl (CodeGraph.reindexed paths orders) g).edges.edgesTo b ↔
      x ∈ g.edges.edgesTo b ∧ ¬ Taken paths orders x.key changed g := by
  rw [MirrorsOn.mem_edgesTo hsole hrun hb, MirrorsOn.mem_edgesTo hsole h hb,
    (h.mem_run hsole changed hb).2, and_assoc]
  rfl

theorem Within.run (changed : List π) {g : CodeGraph π μ δ} (h : g.Within nodes) :
    (changed.foldl (CodeGraph.reindexed paths orders) g).Within nodes := by
  induction changed generalizing g with
  | nil => exact h
  | cons path changed ih => exact ih (h.reindexed hsole path)

end Edges

section Main
variable {nodes : NodeId → Prop} {g : CodeGraph π μ δ}

def Touches (paths : Registry.PathFunctions π) (g : CodeGraph π μ δ) (changed : List π)
    (e : StoreEdgeRef) : Prop :=
  ∃ a, (a = e.source ∨ a = e.target) ∧ (g.nodes.get a).isSome ∧ g.InChanged paths changed a.index

theorem tombstoned_run_iff {changed : List π} {slot : Nat} :
    Tombstoned g (changed.foldl (reindexed paths orders) g) slot ↔
      ∃ a, (g.nodes.get a).isSome ∧ g.InChanged paths changed a.index ∧ a.index = slot := by
  refine exists_congr fun a => and_congr_right fun hlive => and_congr_left fun _ => ?_
  rw [get_run, or_iff_right]
  intro hnone
  rw [hnone] at hlive
  cases hlive

theorem touches_iff (hlive : ∀ a, (g.nodes.get a).isSome → nodes a)
    (hsole : ∀ a b, nodes a → nodes b → a.index = b.index → a = b) {changed : List π}
    {e : StoreEdgeRef} (hsource : nodes e.source) (htarget : nodes e.target) :
    g.Touches paths changed e ↔
      Tombstoned g (changed.foldl (reindexed paths orders) g) e.source.index ∨
        Tombstoned g (changed.foldl (reindexed paths orders) g) e.target.index := by
  rw [tombstoned_run_iff, tombstoned_run_iff]
  constructor
  · intro h
    obtain ⟨a, hend, ha, hin⟩ := h
    exact hend.imp (fun heq => ⟨a, ha, hin, congrArg _ heq⟩) fun heq => ⟨a, ha, hin, congrArg _ heq⟩
  · intro h
    cases h with
    | inl hgone =>
      obtain ⟨a, ha, hin, hindex⟩ := hgone
      exact ⟨a, .inl (hsole a _ (hlive a ha) hsource hindex), ha, hin⟩
    | inr hgone =>
      obtain ⟨a, ha, hin, hindex⟩ := hgone
      exact ⟨a, .inr (hsole a _ (hlive a ha) htarget hindex), ha, hin⟩

/-- No edge is left at a slot that a re-indexing tombstones, and the other edges are as they were,
exactly when for every edge at such a slot one with its key leads a run of its variant among the
edges that are gathered between the two slots for one of the files. -/
theorem reindexFiles_leavesNoEdge_iff (paths : Registry.PathFunctions π) (orders : ListingOrders)
    (nodes : NodeId → Prop) (g : CodeGraph π μ δ) (h : g.MirrorsOn nodes) (changed : List π) :
    LeavesNoEdge nodes g (reindexFiles paths orders g changed).1 ↔
      ∀ a, nodes a → ∀ e ∈ g.edges.edgesFrom a, g.Touches paths changed e →
        Taken paths orders e.key changed g := by
  have hwithin := h.within
  have hrun : (changed.foldl (reindexed paths orders) g).Within nodes :=
    hwithin.run h.sole changed
  rw [reindexFiles, reindexFiles_fst]
  constructor
  · intro hleaves a ha e he htouches
    by_contra hleft
    obtain ⟨hsource, htarget⟩ := h.forward_joins a ha e he
    have hafter := ((hwithin.mem_run h.sole changed ha).1).mpr ⟨he, hleft⟩
    have hgone := hleaves.gone a ha e (.inl hafter)
    cases (touches_iff h.live h.sole hsource htarget).mp htouches with
    | inl hslot => exact hgone.1 hslot
    | inr hslot => exact hgone.2 hslot
  · intro hall
    refine ⟨?_, ?_⟩
    · intro a ha e hlist
      have hjoins : nodes e.source ∧ nodes e.target ∧ ¬ g.Touches paths changed e := by
        cases hlist with
        | inl hout =>
          obtain ⟨he, hleft⟩ := ((hwithin.mem_run h.sole changed ha).1).mp hout
          obtain ⟨hsource, htarget⟩ := h.forward_joins a ha e he
          exact ⟨hsource, htarget, fun htouches => hleft (hall a ha e he htouches)⟩
        | inr hinto =>
          obtain ⟨he, hleft⟩ := (hwithin.mem_edgesTo_run h.sole changed hrun ha).mp hinto
          obtain ⟨htarget, hturned⟩ := (MirrorsOn.mem_edgesTo h.sole hwithin ha).mp he
          have hsource : nodes e.source := (h.reverse_joins a ha _ hturned).2
          -- the forward list of its source shows the edge too
          obtain ⟨e', he', htarget', hkind⟩ := (h.mirrored e.source a e.kind hsource ha).mpr
            ⟨_, hturned, rfl, rfl⟩
          have hsource' : e'.source = e.source :=
            h.sole _ _ (h.forward_joins e.source hsource e' he').1 hsource
              (EdgeStore.source_index_of_mem_edgesFrom he')
          have hkey : e'.key = e.key := by
            rw [StoreEdgeRef.key, hsource', htarget', hkind, ← htarget]
            rfl
          refine ⟨hsource, htarget ▸ ha, fun htouches => hleft ?_⟩
          rw [← hkey]
          refine hall e.source hsource e' he' ?_
          rw [Touches, hsource', htarget', ← htarget]
          exact htouches
      obtain ⟨hsource, htarget, hnot⟩ := hjoins
      rw [touches_iff h.live h.sole hsource htarget] at hnot
      exact not_or.mp hnot
    · intro a ha e hsource htarget
      have hleft : ¬ Taken paths orders e.key changed g := by
        intro htaken
        obtain ⟨n, hlive, hin, hend⟩ := htaken.touches
        cases hend with
        | inl hindex => exact hsource (tombstoned_run_iff.mpr ⟨n, hlive, hin, hindex⟩)
        | inr hindex => exact htarget (tombstoned_run_iff.mpr ⟨n, hlive, hin, hindex⟩)
      exact ⟨fun he => ((hwithin.mem_run h.sole changed ha).1).mpr ⟨he, hleft⟩,
        fun he => (hwithin.mem_edgesTo_run h.sole changed hrun ha).mpr ⟨he, hleft⟩⟩

end Main

end CodeGraph

section Example

def twoFunctions : List (NodeId × FullNodeEntry) :=
  [(⟨0, 1⟩, FullNodeEntry.new .function (.ofUInt8 1) 1),
    (⟨1, 1⟩, FullNodeEntry.new .function (.ofUInt8 2) 2)]

def callAnd (second : EdgeKind) : CodeGraph String Unit Unit :=
  let files := (Registry.FileRegistry.new.registerCanonical "a.c").1.registerCanonical "b.c"
  { (CodeGraph.new : CodeGraph String Unit Unit) with
    nodes := ⟨twoFunctions.map fun node => ⟨1, .occupied node.2⟩, none, 2⟩
    edges := (BidirectionalEdgeStore.new.addEdge ⟨0, 1⟩ ⟨1, 1⟩ (.calls 1 false .direct) 1).addEdge
      ⟨0, 1⟩ ⟨1, 1⟩ second 1
    files := (files.1.recordNode 1 ⟨0, 1⟩).recordNode 2 ⟨1, 1⟩
    fileSegments := (FileSegmentTable.new.recordRange 1 0 1).recordRange 2 1 1 }

def samePaths : Registry.PathFunctions String := ⟨id, .ok⟩

def sameOrders : ListingOrders :=
  ⟨fun _ edges => edges, fun _ edges => edges, fun _ _ => .rfl, fun _ _ => .rfl⟩

def isOfTwo (a : NodeId) : Prop := a ∈ [(⟨0, 1⟩ : NodeId), ⟨1, 1⟩]

theorem sequenced_addEdge_new (source target : NodeId) (kind second : EdgeKind) (file : FileId) :
    ((EdgeStore.new.addEdge source target kind file).addEdge source target second
      file).Sequenced := by
  have hfirst : (EdgeStore.new.addEdge source target kind file).delta.Numbered := by
    rw [EdgeStore.addEdge, EdgeStore.delta_addEdgeWithSpans]
    exact (DeltaBuffer.numbered_of_empty rfl).issue rfl
  refine EdgeStore.sequenced_buffered rfl ?_
  rw [EdgeStore.addEdge, EdgeStore.delta_addEdgeWithSpans]
  exact hfirst.issue rfl

theorem isOfTwo_of_live {second : EdgeKind} {a : NodeId}
    (h : ((callAnd second).nodes.get a).isSome) : isOfTwo a := by
  obtain ⟨entry, hget⟩ := Option.isSome_iff_exists.mp h
  obtain ⟨slot, hslot, hgen, _⟩ := NodeArena.get_eq_some hget
  obtain ⟨index, generation⟩ := a
  match index, hslot with
  | 0, hslot =>
    cases hslot
    cases hgen
    exact List.mem_cons_self
  | 1, hslot =>
    cases hslot
    cases hgen
    exact List.mem_cons_of_mem _ List.mem_cons_self

theorem mirrorsOn_callAnd {second : EdgeKind}
    (hforward : (callAnd second).edges.forward.edgesFrom ⟨0, 1⟩ =
      [⟨⟨0, 1⟩, ⟨1, 1⟩, second, 1, 1, []⟩, ⟨⟨0, 1⟩, ⟨1, 1⟩, .calls 1 false .direct, 0, 1, []⟩])
    (hreverse : (callAnd second).edges.reverse.edgesFrom ⟨1, 1⟩ =
      [⟨⟨1, 1⟩, ⟨0, 1⟩, second, 1, 1, []⟩, ⟨⟨1, 1⟩, ⟨0, 1⟩, .calls 1 false .direct, 0, 1, []⟩])
    (hnone : (callAnd second).edges.forward.edgesFrom ⟨1, 1⟩ = [])
    (hnone' : (callAnd second).edges.reverse.edgesFrom ⟨0, 1⟩ = []) :
    (callAnd second).MirrorsOn isOfTwo where
  forward_sequenced := sequenced_addEdge_new ..
  reverse_sequenced := sequenced_addEdge_new ..
  live := fun _ => isOfTwo_of_live
  sole := by
    have hall : ∀ a ∈ [(⟨0, 1⟩ : NodeId), ⟨1, 1⟩], ∀ b ∈ [(⟨0, 1⟩ : NodeId), ⟨1, 1⟩],
        a.index = b.index → a = b := by decide
    exact fun a b ha hb => hall a ha b hb
  forward_joins := by
    intro a ha e he
    have hends : ∀ e ∈ (callAnd second).edges.forward.edgesFrom a,
        e.source = ⟨0, 1⟩ ∧ e.target = ⟨1, 1⟩ := by
      simp only [isOfTwo, List.mem_cons, List.not_mem_nil, or_false] at ha
      cases ha with
      | inl heq =>
        rw [heq, hforward]
        simp
      | inr heq =>
        rw [heq, hnone]
        simp
    obtain ⟨hsource, htarget⟩ := hends e he
    rw [hsource, htarget]
    simp [isOfTwo]
  reverse_joins := by
    intro a ha e he
    have hends : ∀ e ∈ (callAnd second).edges.reverse.edgesFrom a,
        e.source = ⟨1, 1⟩ ∧ e.target = ⟨0, 1⟩ := by
      simp only [isOfTwo, List.mem_cons, List.not_mem_nil, or_false] at ha
      cases ha with
      | inl heq =>
        rw [heq, hnone']
        simp
      | inr heq =>
        rw [heq, hreverse]
        simp
    obtain ⟨hsource, htarget⟩ := hends e he
    rw [hsource, htarget]
    simp [isOfTwo]
  mirrored := by
    intro source target kind hsource htarget
    simp only [isOfTwo, List.mem_cons, List.not_mem_nil, or_false] at hsource htarget
    rw [EdgeStore.Sees, EdgeStore.Sees]
    cases hsource with
    | inl hs =>
      cases htarget with
      | inl ht =>
        rw [hs, ht, hforward, hnone']
        simp
      | inr ht =>
        rw [hs, ht, hforward, hreverse]
        simp
    | inr hs =>
      cases htarget with
      | inl ht =>
        rw [hs, ht, hnone, hnone']
        simp
      | inr ht =>
        rw [hs, ht, hnone, hreverse]
        simp

/-- Both edges go with the second file, since they are of different variants. -/
theorem reindexFiles_leavesNoEdge_callAndReference :
    (callAnd .references).MirrorsOn isOfTwo ∧
      (CodeGraph.LeavesNoEdge isOfTwo (callAnd .references)
          (CodeGraph.reindexFiles samePaths sameOrders (callAnd .references) ["b.c"]).1 ↔
        ∀ a, isOfTwo a → ∀ e ∈ (callAnd .references).edges.edgesFrom a,
          (callAnd .references).Touches samePaths ["b.c"] e →
            CodeGraph.Taken samePaths sameOrders e.key ["b.c"] (callAnd .references)) :=
  have h : (callAnd .references).MirrorsOn isOfTwo :=
    mirrorsOn_callAnd (by decide) (by decide) (by decide) (by decide)
  ⟨h, CodeGraph.reindexFiles_leavesNoEdge_iff samePaths sameOrders isOfTwo _ h ["b.c"]⟩

/-- Of two calls that differ in the number of arguments, one stays. -/
theorem second_call_stays : ¬ ∀ (orders : ListingOrders) (nodes : NodeId → Prop)
    (g : CodeGraph String Unit Unit) (changed : List String), g.MirrorsOn nodes →
      CodeGraph.LeavesNoEdge nodes g (CodeGraph.reindexFiles samePaths orders g changed).1 := by
  intro h
  have hleaves := h sameOrders isOfTwo (callAnd (.calls 2 false .direct)) ["b.c"]
    (mirrorsOn_callAnd (by decide) (by decide) (by decide) (by decide))
  have hstays : (⟨⟨0, 1⟩, ⟨1, 1⟩, .calls 1 false .direct, 0, 1, []⟩ : StoreEdgeRef) ∈
      (CodeGraph.reindexFiles samePaths sameOrders (callAnd (.calls 2 false .direct))
        ["b.c"]).1.edges.edgesFrom ⟨0, 1⟩ := by decide
  exact (hleaves.gone ⟨0, 1⟩ (by simp [isOfTwo]) _ (.inl hstays)).2
    ⟨⟨1, 1⟩, by decide, by decide, rfl⟩

end Example
end Sqry
