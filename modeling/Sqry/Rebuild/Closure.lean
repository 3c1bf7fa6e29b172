import Sqry.Edge.Sweep
import Sqry.Lib.Worklist
import Sqry.Rebuild.RebuildGraph

/-!
The files that are removed together with changed files: all that lead to one of them through the
owners of the ends of live edges. Taking them out of a copy takes every edge whose source they own,
whichever file wrote the edge.
-/

namespace Sqry

open SortedGroups (sortBy)

namespace CodeGraph
variable {π μ δ : Type} [DecidableEq π]

def reverseDependencyIndex (g : CodeGraph π μ δ) (file : FileId) : List FileId :=
  sortBy compare <| List.eraseDups <| (g.indices.byFile file).flatMap fun target =>
    (g.edges.edgesTo target).filterMap fun edge =>
      match g.nodes.get edge.source with
      | none => none
      | some entry => if entry.file ≠ file then some entry.file else none

/-- `none` when the steps run out. -/
def computeReverseDepClosure (steps : Nat) (changed : List FileId) (g : CodeGraph π μ δ) :
    Option (List FileId) :=
  Worklist.run g.reverseDependencyIndex steps changed changed

def Owns (g : CodeGraph π μ δ) (file : FileId) (node : NodeId) : Prop :=
  ∃ entry, g.nodes.get node = some entry ∧ entry.file = file

structure LiveEdge (g : CodeGraph π μ δ) (source target : NodeId) (kind : EdgeKind) : Prop where
  source_live : (g.nodes.get source).isSome
  target_live : (g.nodes.get target).isSome
  seen : g.edges.forward.Sees source target kind

/-- A chain of live edges leads from the file to a changed one. -/
inductive DependsOn (g : CodeGraph π μ δ) (changed : List FileId) : FileId → Prop where
  | changed {file : FileId} : file ∈ changed → DependsOn g changed file
  | edge {source target : NodeId} {kind : EdgeKind} {file dependent : FileId} :
      g.LiveEdge source target kind → g.Owns file target → g.Owns dependent source →
        DependsOn g changed file → DependsOn g changed dependent

/-- The two directions show the same edges, and the indices and the buckets of the files list the
nodes of the arena. A node that was merged into another is not indexed, and no edge touches it. -/
structure Consistent (g : CodeGraph π μ δ) : Prop where
  forward_fitted : g.edges.forward.Fitted
  reverse_fitted : g.edges.reverse.Fitted
  mirrored : ∀ source target kind, (g.nodes.get source).isSome → (g.nodes.get target).isSome →
    (g.edges.forward.Sees source target kind ↔ g.edges.reverse.Sees target source kind)
  indexed : ∀ file node, node ∈ g.indices.byFile file ↔
    ∃ entry, g.nodes.get node = some entry ∧ entry.file = file ∧ entry.name ≠ StringId.INVALID
  recorded_owned : ∀ file node, node ∈ g.files.nodesForFile file → g.Owns file node
  recorded : ∀ node entry, g.nodes.get node = some entry → entry.name ≠ StringId.INVALID →
    node ∈ g.files.nodesForFile entry.file
  unmerged : ∀ source target kind, g.LiveEdge source target kind →
    ∀ node entry, node = source ∨ node = target → g.nodes.get node = some entry →
      entry.name ≠ StringId.INVALID

/-- The least set of files that has the changed ones and the owners of the sources of the live
edges into its files. -/
structure LeastClosed (g : CodeGraph π μ δ) (changed closure : List FileId) : Prop where
  start : ∀ file ∈ changed, file ∈ closure
  closed : ∀ source target kind, g.LiveEdge source target kind → ∀ file dependent,
    g.Owns file target → g.Owns dependent source → file ∈ closure → dependent ∈ closure
  least : ∀ p : FileId → Prop, (∀ file ∈ changed, p file) →
    (∀ source target kind, g.LiveEdge source target kind → ∀ file dependent,
      g.Owns file target → g.Owns dependent source → p file → p dependent) →
    ∀ file ∈ closure, p file

end CodeGraph

def BidirectionalEdgeStore.SeenFromBoth (b : BidirectionalEdgeStore) (source target : NodeId)
    (kind : EdgeKind) : Prop :=
  b.forward.Sees source target kind ∧ b.reverse.Sees target source kind

section Closure
variable {π μ δ : Type} [DecidableEq π]

def Protects (g : CodeGraph π μ δ) (emitter : EdgeKey → FileId) (closure : List FileId) : Prop :=
  ∀ files : List FileId, (∀ file, file ∈ files ↔ file ∈ closure) → ∀ source target kind,
    g.LiveEdge source target kind → emitter ⟨source, target, kind⟩ ∉ closure →
      (g.cloneForRebuild.run (files.map .removeFile)).edges.SeenFromBoth source target kind

def ClosureProtects (g : CodeGraph π μ δ) (emitter : EdgeKey → FileId) (changed : List FileId) :
    Prop :=
  ∃ steps closure, CodeGraph.computeReverseDepClosure steps changed g = some closure ∧
    g.LeastClosed changed closure ∧ Protects g emitter closure

end Closure

section Index
variable {π μ δ : Type} [DecidableEq π] {g : CodeGraph π μ δ}
variable {file : FileId} {node : NodeId}

theorem CodeGraph.Owns.isSome (h : g.Owns file node) :
    (g.nodes.get node).isSome := by
  obtain ⟨entry, hget, _⟩ := h
  rw [hget]
  rfl

theorem CodeGraph.exists_owns (h : (g.nodes.get node).isSome) :
    ∃ file, g.Owns file node := by
  obtain ⟨entry, hget⟩ := Option.isSome_iff_exists.mp h
  exact ⟨entry.file, entry, hget, rfl⟩

theorem mem_edgesTo_source {b : BidirectionalEdgeStore} {target source : NodeId} :
    (∃ e ∈ b.edgesTo target, e.source = source) ↔ ∃ kind, b.reverse.Sees target source kind := by
  simp only [BidirectionalEdgeStore.edgesTo, List.mem_map, EdgeStore.Sees]
  constructor
  · intro h
    obtain ⟨e, ⟨r, hr, heq⟩, hsource⟩ := h
    rw [← heq] at hsource
    exact ⟨r.kind, r, hr, hsource, rfl⟩
  · intro h
    obtain ⟨kind, r, hr, htarget, _⟩ := h
    exact ⟨_, ⟨r, hr, rfl⟩, htarget⟩

theorem mem_reverseDependencyIndex {file dependent : FileId} :
    dependent ∈ g.reverseDependencyIndex file ↔
      dependent ≠ file ∧ ∃ target ∈ g.indices.byFile file, ∃ source kind,
        g.edges.reverse.Sees target source kind ∧ g.Owns dependent source := by
  rw [CodeGraph.reverseDependencyIndex, SortedGroups.mem_sortBy, List.mem_eraseDups,
    List.mem_flatMap]
  constructor
  · intro h
    obtain ⟨target, htarget, h⟩ := h
    obtain ⟨edge, hedge, hfile⟩ := List.mem_filterMap.mp h
    cases hget : g.nodes.get edge.source with
    | none =>
      rw [hget] at hfile
      cases hfile
    | some entry =>
      rw [hget] at hfile
      by_cases hne : entry.file ≠ file
      · simp only [if_pos hne, Option.some.injEq] at hfile
        obtain ⟨kind, hsees⟩ := mem_edgesTo_source.mp ⟨edge, hedge, rfl⟩
        exact ⟨hfile ▸ hne, target, htarget, edge.source, kind, hsees, entry, hget, hfile⟩
      · simp only [if_neg hne] at hfile
        cases hfile
  · intro h
    obtain ⟨hne, target, htarget, source, kind, hsees, entry, hget, hfile⟩ := h
    obtain ⟨edge, hedge, hsource⟩ := mem_edgesTo_source.mpr ⟨kind, hsees⟩
    refine ⟨target, htarget, List.mem_filterMap.mpr ⟨edge, hedge, ?_⟩⟩
    simp only [hsource, hget]
    rw [if_pos (hfile.symm ▸ hne), hfile]

def arenaFiles (g : CodeGraph π μ δ) : List FileId :=
  g.nodes.slots.filterMap fun slot => slot.get.map fun entry => entry.file

theorem mem_arenaFiles_of_owns (h : g.Owns file node) :
    file ∈ arenaFiles g := by
  obtain ⟨entry, hget, hfile⟩ := h
  obtain ⟨slot, hslot, _, hentry⟩ := NodeArena.get_eq_some hget
  refine List.mem_filterMap.mpr ⟨slot, List.mem_of_getElem? hslot, ?_⟩
  rw [hentry, ← hfile]
  rfl

theorem exists_closure (g : CodeGraph π μ δ) (changed : List FileId) :
    ∃ steps closure, CodeGraph.computeReverseDepClosure steps changed g = some closure := by
  have hnext : ∀ file, ∀ dependent ∈ g.reverseDependencyIndex file, dependent ∈ arenaFiles g := by
    intro file dependent hmem
    obtain ⟨hne, target, htarget, source, kind, hsees, howns⟩ :=
      mem_reverseDependencyIndex.mp hmem
    exact mem_arenaFiles_of_owns howns
  have hrun : ∃ closure, Worklist.run g.reverseDependencyIndex
      (changed.length + Worklist.missing (arenaFiles g) changed) changed changed = some closure :=
    Worklist.exists_run hnext (Nat.le_refl _)
  exact ⟨_, hrun⟩

theorem mem_reverseDependencyIndex_iff (hg : g.Consistent) {file dependent : FileId} :
    dependent ∈ g.reverseDependencyIndex file ↔ dependent ≠ file ∧
      ∃ source target kind, g.LiveEdge source target kind ∧ g.Owns file target ∧
        g.Owns dependent source := by
  rw [mem_reverseDependencyIndex]
  refine and_congr_right fun _ => ?_
  constructor
  · intro h
    obtain ⟨target, htarget, source, kind, hsees, howns⟩ := h
    obtain ⟨entry, hget, hfile, _⟩ := (hg.indexed file target).mp htarget
    have hsourceLive := howns.isSome
    have htargetLive : (g.nodes.get target).isSome := by rw [hget]; rfl
    exact ⟨source, target, kind, ⟨hsourceLive, htargetLive,
      (hg.mirrored source target kind hsourceLive htargetLive).mpr hsees⟩, ⟨entry, hget, hfile⟩,
      howns⟩
  · intro h
    obtain ⟨source, target, kind, hlive, ⟨entry, hget, hfile⟩, howns⟩ := h
    have hname := hg.unmerged source target kind hlive target entry (.inr rfl) hget
    exact ⟨target, (hg.indexed file target).mpr ⟨entry, hget, hfile, hname⟩, source, kind,
      (hg.mirrored source target kind hlive.source_live hlive.target_live).mp hlive.seen, howns⟩

theorem reached_iff_dependsOn (hg : g.Consistent) {changed : List FileId} :
    Worklist.Reached g.reverseDependencyIndex changed file ↔ g.DependsOn changed file := by
  constructor
  · intro h
    refine Worklist.Reached.mem_of_closed (fun x hx => .changed hx) ?_ h
    intro x hx y hy
    obtain ⟨_, source, target, kind, hlive, hfile, hdependent⟩ :=
      (mem_reverseDependencyIndex_iff hg).mp hy
    exact .edge hlive hfile hdependent hx
  · intro h
    induction h with
    | changed hfile => exact ⟨_, hfile, .refl⟩
    | @edge source target kind file dependent hlive hfile hdependent _ ih =>
      by_cases hself : dependent = file
      · rw [hself]
        exact ih
      · exact ih.step ((mem_reverseDependencyIndex_iff hg).mpr
          ⟨hself, source, target, kind, hlive, hfile, hdependent⟩)

theorem mem_closure_iff (hg : g.Consistent) {changed closure : List FileId} {steps : Nat}
    (h : CodeGraph.computeReverseDepClosure steps changed g = some closure) (file : FileId) :
    file ∈ closure ↔ g.DependsOn changed file :=
  (Worklist.mem_run_iff (Worklist.frontier_start _ changed) h).trans (reached_iff_dependsOn hg)

theorem leastClosed_of_mem_iff {changed closure : List FileId}
    (h : ∀ file, file ∈ closure ↔ g.DependsOn changed file) : g.LeastClosed changed closure := by
  refine ⟨fun file hfile => (h file).mpr (.changed hfile), ?_, ?_⟩
  · intro source target kind hlive file dependent hfile hdependent hmem
    exact (h dependent).mpr (.edge hlive hfile hdependent ((h file).mp hmem))
  · intro p hchanged hclosed file hmem
    have hdepends := (h file).mp hmem
    induction hdepends with
    | changed hfile => exact hchanged _ hfile
    | @edge source target kind file dependent hlive hfile hdependent hdepends ih =>
      exact hclosed source target kind hlive file dependent hfile hdependent
        (ih ((h file).mpr hdepends))

end Index

section Removed
variable {π μ δ : Type} [DecidableEq π]

def TouchesFile (g : CodeGraph π μ δ) (file : FileId) (source target : NodeId) : Prop :=
  EdgeStore.Touched (EdgeStore.deadSlotIndices (g.files.nodesForFile file)) source target

theorem seenFromBoth_sweep_iff {b : BidirectionalEdgeStore} (hforward : b.forward.Fitted)
    (hreverse : b.reverse.Fitted) (dead : List NodeId) {source target : NodeId}
    {kind : EdgeKind} :
    (b.tombstoneEdgesForNodes dead).1.SeenFromBoth source target kind ↔
      b.SeenFromBoth source target kind ∧
        ¬ EdgeStore.Touched (EdgeStore.deadSlotIndices dead) source target := by
  have hboth : (b.tombstoneEdgesForNodes dead).1 =
      ⟨(b.forward.tombstoneEdgesForNodes dead).1, (b.reverse.tombstoneEdgesForNodes dead).1⟩ := by
    rw [BidirectionalEdgeStore.tombstoneEdgesForNodes]
    cases hempty : dead.isEmpty with
    | true =>
      rw [EdgeStore.tombstoneEdgesForNodes_nil _ hempty,
        EdgeStore.tombstoneEdgesForNodes_nil _ hempty]
      rfl
    | false => rfl
  have hswap : EdgeStore.Touched (EdgeStore.deadSlotIndices dead) target source ↔
      EdgeStore.Touched (EdgeStore.deadSlotIndices dead) source target := or_comm
  rw [hboth, BidirectionalEdgeStore.SeenFromBoth, BidirectionalEdgeStore.SeenFromBoth,
    EdgeStore.sees_sweep_iff hforward, EdgeStore.sees_sweep_iff hreverse, hswap]
  exact and_and_right.symm

theorem fitted_sweep {b : BidirectionalEdgeStore} (hforward : b.forward.Fitted)
    (hreverse : b.reverse.Fitted) (dead : List NodeId) :
    (b.tombstoneEdgesForNodes dead).1.forward.Fitted ∧
      (b.tombstoneEdgesForNodes dead).1.reverse.Fitted := by
  rw [BidirectionalEdgeStore.tombstoneEdgesForNodes]
  cases dead.isEmpty with
  | true => exact ⟨hforward, hreverse⟩
  | false => exact ⟨hforward.sweep dead, hreverse.sweep dead⟩

theorem edges_rebuild_removeFile (r : RebuildGraph π μ δ) (file : FileId) :
    (r.removeFile file).1.edges =
      (r.edges.tombstoneEdgesForNodes (r.files.nodesForFile file)).1 := by
  rw [RebuildGraph.removeFile]
  cases hempty : (r.files.nodesForFile file).isEmpty with
  | true =>
    rw [BidirectionalEdgeStore.tombstoneEdgesForNodes, if_pos hempty]
    rfl
  | false => rfl

theorem seenFromBoth_run_iff (files : List FileId) (r : RebuildGraph π μ δ)
    (hforward : r.edges.forward.Fitted) (hreverse : r.edges.reverse.Fitted)
    {source target : NodeId} {kind : EdgeKind} :
    (r.run (files.map .removeFile)).edges.SeenFromBoth source target kind ↔
      r.edges.SeenFromBoth source target kind ∧
        ∀ file ∈ files, ¬ TouchesFile r.toCodeGraph file source target := by
  induction files generalizing r with
  | nil =>
    rw [List.map_nil]
    exact (and_iff_left fun _ hfile => absurd hfile List.not_mem_nil).symm
  | cons file files ih =>
    have hrun : r.run ((file :: files).map .removeFile) =
        (r.removeFile file).1.run (files.map .removeFile) := rfl
    have hedges := edges_rebuild_removeFile r file
    have hfitted := fitted_sweep hforward hreverse (r.files.nodesForFile file)
    rw [← hedges] at hfitted
    have hlater : ∀ other, ¬ TouchesFile r.toCodeGraph file source target →
        (¬ TouchesFile (r.removeFile file).1.toCodeGraph other source target ↔
          ¬ TouchesFile r.toCodeGraph other source target) := by
      intro other hfile
      rw [TouchesFile, nodesForFile_rebuild_removeFile]
      by_cases hother : other = file
      · rw [if_pos hother, hother]
        simp [EdgeStore.Touched, EdgeStore.deadSlotIndices, hfile]
      · rw [if_neg hother]
        rfl
    rw [hrun, ih _ hfitted.1 hfitted.2, hedges, seenFromBoth_sweep_iff hforward hreverse,
      List.forall_mem_cons, and_assoc]
    refine and_congr_right fun _ => and_congr_right fun hfile => ?_
    exact forall_congr' fun other => forall_congr' fun _ => hlater other hfile

end Removed

section Main
variable {π μ δ : Type} [DecidableEq π] {g : CodeGraph π μ δ}

theorem eq_of_index_eq {node other : NodeId} (h : (g.nodes.get node).isSome)
    (h' : (g.nodes.get other).isSome) (hindex : node.index = other.index) : node = other := by
  obtain ⟨entry, hget⟩ := Option.isSome_iff_exists.mp h
  obtain ⟨entry', hget'⟩ := Option.isSome_iff_exists.mp h'
  obtain ⟨slot, hslot, hgen, _⟩ := NodeArena.get_eq_some hget
  obtain ⟨slot', hslot', hgen', _⟩ := NodeArena.get_eq_some hget'
  rw [hindex, hslot'] at hslot
  cases hslot
  cases node
  cases other
  cases hindex
  cases hgen
  cases hgen'
  rfl

variable {source target : NodeId} {kind : EdgeKind}

theorem recorded_iff_owns (hg : g.Consistent) (hlive : g.LiveEdge source target kind)
    {node : NodeId} (hend : node = source ∨ node = target) {file : FileId} :
    node.index ∈ EdgeStore.deadSlotIndices (g.files.nodesForFile file) ↔ g.Owns file node := by
  have hnode : (g.nodes.get node).isSome := by
    cases hend with
    | inl heq => rw [heq]; exact hlive.source_live
    | inr heq => rw [heq]; exact hlive.target_live
  rw [EdgeStore.deadSlotIndices, List.mem_map]
  constructor
  · intro h
    obtain ⟨other, hother, hindex⟩ := h
    have howns := hg.recorded_owned file other hother
    rw [← eq_of_index_eq howns.isSome hnode hindex]
    exact howns
  · intro h
    obtain ⟨entry, hget, hfile⟩ := h
    have hname := hg.unmerged source target kind hlive node entry hend hget
    exact ⟨node, hfile ▸ hg.recorded node entry hget hname, rfl⟩

theorem touchesFile_iff (hg : g.Consistent) (hlive : g.LiveEdge source target kind)
    {file : FileId} :
    TouchesFile g file source target ↔ g.Owns file source ∨ g.Owns file target :=
  or_congr (recorded_iff_owns hg hlive (.inl rfl)) (recorded_iff_owns hg hlive (.inr rfl))

theorem seen_after_closure_iff (hg : g.Consistent) {changed files : List FileId}
    (hfiles : ∀ file, file ∈ files ↔ g.DependsOn changed file)
    (hlive : g.LiveEdge source target kind) :
    (g.cloneForRebuild.run (files.map .removeFile)).edges.SeenFromBoth source target kind ↔
      ∀ file, g.Owns file source → ¬ g.DependsOn changed file := by
  have hseen : g.edges.SeenFromBoth source target kind := ⟨hlive.seen,
    (hg.mirrored source target kind hlive.source_live hlive.target_live).mp hlive.seen⟩
  refine (seenFromBoth_run_iff files g.cloneForRebuild hg.forward_fitted hg.reverse_fitted).trans
    ((and_iff_right hseen).trans ?_)
  constructor
  · intro h file howns hdepends
    exact h file ((hfiles file).mpr hdepends) ((touchesFile_iff hg hlive).mpr (.inl howns))
  · intro h file hfile htouches
    have hdepends := (hfiles file).mp hfile
    cases (touchesFile_iff hg hlive).mp htouches with
    | inl hsource => exact h file hsource hdepends
    | inr htarget =>
      obtain ⟨dependent, hsource⟩ := CodeGraph.exists_owns hlive.source_live
      exact h dependent hsource (.edge hlive htarget hsource hdepends)

/-- The closure protects the files outside it exactly when every live edge out of one of its files
was written by one of its files. -/
theorem closure_protects_iff (g : CodeGraph π μ δ) (hg : g.Consistent) (emitter : EdgeKey → FileId)
    (changed : List FileId) :
    ClosureProtects g emitter changed ↔ ∀ source target kind, g.LiveEdge source target kind →
      ∀ file, g.Owns file source → g.DependsOn changed file →
        g.DependsOn changed (emitter ⟨source, target, kind⟩) := by
  constructor
  · intro h source target kind hlive file howns hdepends
    obtain ⟨steps, closure, hclosure, _, hprotects⟩ := h
    have hmem := mem_closure_iff hg hclosure
    by_contra houtside
    have hseen := hprotects closure (fun _ => Iff.rfl) source target kind hlive
      fun hin => houtside ((hmem _).mp hin)
    exact (seen_after_closure_iff hg hmem hlive).mp hseen file howns hdepends
  · intro h
    obtain ⟨steps, closure, hclosure⟩ := exists_closure g changed
    have hmem := mem_closure_iff hg hclosure
    refine ⟨steps, closure, hclosure, leastClosed_of_mem_iff hmem, ?_⟩
    intro files hfiles source target kind hlive houtside
    refine (seen_after_closure_iff hg (fun file => (hfiles file).trans (hmem file)) hlive).mpr ?_
    intro file howns hdepends
    exact houtside ((hmem _).mpr (h source target kind hlive file howns hdepends))

end Main

section Example

/-- `run` is declared in the first file beside `Config` and defined in the second one. The
declaration was merged into the definition. -/
def mergedNodes : List (NodeId × FullNodeEntry) :=
  [(⟨0, 1⟩, FullNodeEntry.new .function (.ofUInt8 1) 2),
    (⟨1, 1⟩, FullNodeEntry.new .struct (.ofUInt8 2) 1),
    (⟨2, 1⟩, (FullNodeEntry.new .function (.ofUInt8 1) 1).clear)]

def mergedDeclaration : CodeGraph String Unit Unit :=
  let nodes : NodeArena FullNodeEntry :=
    ⟨mergedNodes.map fun node => ⟨1, .occupied node.2⟩, none, 3⟩
  let files := (Registry.FileRegistry.new.registerCanonical "a.h").1.registerCanonical "b.c"
  { (CodeGraph.new : CodeGraph String Unit Unit) with
    nodes := nodes
    edges := BidirectionalEdgeStore.new.addEdge ⟨0, 1⟩ ⟨1, 1⟩ .references 1
    files := ((files.1.recordNode 2 ⟨0, 1⟩).recordNode 1 ⟨1, 1⟩).recordNode 1 ⟨2, 1⟩
    indices := AuxiliaryIndices.buildFromArena nodes }

theorem get_mergedDeclaration {node : NodeId} {entry : FullNodeEntry} :
    mergedDeclaration.nodes.get node = some entry ↔ (node, entry) ∈ mergedNodes := by
  constructor
  · intro h
    obtain ⟨slot, hslot, hgen, hget⟩ := NodeArena.get_eq_some h
    obtain ⟨index, generation⟩ := node
    match index, hslot with
    | 0, hslot =>
      cases hslot
      cases hgen
      cases hget
      decide
    | 1, hslot =>
      cases hslot
      cases hgen
      cases hget
      decide
    | 2, hslot =>
      cases hslot
      cases hgen
      cases hget
      decide
  · intro h
    have hall : ∀ p ∈ mergedNodes, mergedDeclaration.nodes.get p.1 = some p.2 := by decide
    exact hall (node, entry) h

theorem sees_mergedDeclaration {source target : NodeId} (kind : EdgeKind)
    (hsource : (mergedDeclaration.nodes.get source).isSome)
    (htarget : (mergedDeclaration.nodes.get target).isSome) :
    (mergedDeclaration.edges.forward.Sees source target kind ↔
        source = ⟨0, 1⟩ ∧ target = ⟨1, 1⟩ ∧ kind = .references) ∧
      (mergedDeclaration.edges.reverse.Sees target source kind ↔
        source = ⟨0, 1⟩ ∧ target = ⟨1, 1⟩ ∧ kind = .references) := by
  obtain ⟨entry, hget⟩ := Option.isSome_iff_exists.mp hsource
  obtain ⟨entry', hget'⟩ := Option.isSome_iff_exists.mp htarget
  have hrows : ∀ p ∈ mergedNodes, mergedDeclaration.edges.forward.edgesFrom p.1 =
        (if p.1 = ⟨0, 1⟩ then [⟨⟨0, 1⟩, ⟨1, 1⟩, .references, 0, 1, []⟩] else []) ∧
      mergedDeclaration.edges.reverse.edgesFrom p.1 =
        (if p.1 = ⟨1, 1⟩ then [⟨⟨1, 1⟩, ⟨0, 1⟩, .references, 0, 1, []⟩] else []) := by decide
  rw [EdgeStore.Sees, EdgeStore.Sees, (hrows _ (get_mergedDeclaration.mp hget)).1,
    (hrows _ (get_mergedDeclaration.mp hget')).2]
  constructor
  · by_cases heq : source = ⟨0, 1⟩
    · simp [heq, eq_comm]
    · simp [heq]
  · by_cases heq : target = ⟨1, 1⟩
    · simp [heq, eq_comm]
    · simp [heq]

theorem consistent_mergedDeclaration : mergedDeclaration.Consistent where
  forward_fitted := by
    refine ⟨?_, by decide, ?_⟩
    · intro csr hcsr
      cases hcsr
    · intro csr hcsr
      cases hcsr
  reverse_fitted := by
    refine ⟨?_, by decide, ?_⟩
    · intro csr hcsr
      cases hcsr
    · intro csr hcsr
      cases hcsr
  mirrored := by
    intro source target kind hsource htarget
    have hsees := sees_mergedDeclaration kind hsource htarget
    exact hsees.1.trans hsees.2.symm
  indexed := by
    have hindexed : (∀ b ∈ mergedDeclaration.indices.fileIndex.entries, ∀ node ∈ b.2,
        ∃ p ∈ mergedNodes, p.1 = node ∧ p.2.file = b.1 ∧ p.2.name ≠ StringId.INVALID) ∧
        ∀ p ∈ mergedNodes, p.2.name ≠ StringId.INVALID →
          p.1 ∈ mergedDeclaration.indices.byFile p.2.file := by decide
    intro file node
    constructor
    · intro h
      obtain ⟨b, hb, hkey, hmem⟩ := Buckets.mem_bucket_iff.mp h
      obtain ⟨p, hp, hnode, hfile, hname⟩ := hindexed.1 b hb node hmem
      exact ⟨p.2, get_mergedDeclaration.mpr (hnode ▸ hp), hfile.trans hkey, hname⟩
    · intro h
      obtain ⟨entry, hget, hfile, hname⟩ := h
      rw [← hfile]
      exact hindexed.2 _ (get_mergedDeclaration.mp hget) hname
  recorded_owned := by
    have hrecorded : ∀ b ∈ mergedDeclaration.files.perFileNodes.entries, ∀ node ∈ b.2,
        ∃ p ∈ mergedNodes, p.1 = node ∧ p.2.file = b.1 := by decide
    intro file node h
    obtain ⟨b, hb, hkey, hmem⟩ := Buckets.mem_bucket_iff.mp h
    obtain ⟨p, hp, hnode, hfile⟩ := hrecorded b hb node hmem
    exact ⟨p.2, get_mergedDeclaration.mpr (hnode ▸ hp), hfile.trans hkey⟩
  recorded := by
    have hrecorded : ∀ p ∈ mergedNodes, p.2.name ≠ StringId.INVALID →
        p.1 ∈ mergedDeclaration.files.nodesForFile p.2.file := by decide
    intro node entry hget hname
    exact hrecorded _ (get_mergedDeclaration.mp hget) hname
  unmerged := by
    have hnames : ∀ p ∈ mergedNodes, p.1 = ⟨0, 1⟩ ∨ p.1 = ⟨1, 1⟩ →
        p.2.name ≠ StringId.INVALID := by decide
    intro source target kind hlive node entry hend hget
    have hsees :=
      (sees_mergedDeclaration kind hlive.source_live hlive.target_live).1.mp hlive.seen
    rw [hsees.1, hsees.2.1] at hend
    exact hnames _ (get_mergedDeclaration.mp hget) hend

/-- The second file changes. The first one does not lead to it, and its edge goes. -/
theorem mergedDeclaration_unprotected : ¬ ∀ (g : CodeGraph String Unit Unit)
    (emitter : EdgeKey → FileId) (changed : List FileId), g.Consistent →
      (∀ key op, latest g.edges.forward.delta.iter key = some op → emitter key = op.file) →
        ClosureProtects g emitter changed := by
  intro h
  have hops : ∀ op ∈ mergedDeclaration.edges.forward.delta.iter, op.file = 1 := by decide
  obtain ⟨steps, closure, hclosure, _, hprotects⟩ := h mergedDeclaration (fun _ => 1) [2]
    consistent_mergedDeclaration fun key op hop => (hops op (latest_spec hop).1).symm
  have hrun : CodeGraph.computeReverseDepClosure 1 [2] mergedDeclaration = some [2] := by decide
  have hmem : ∀ file, file ∈ closure ↔ file ∈ [2] := fun file =>
    (mem_closure_iff consistent_mergedDeclaration hclosure file).trans
      (mem_closure_iff consistent_mergedDeclaration hrun file).symm
  have hseen := hprotects [2] (fun file => (hmem file).symm) ⟨0, 1⟩ ⟨1, 1⟩ .references
    ⟨by decide, by decide, by decide⟩ fun hin => by simpa using (hmem 1).mp hin
  exact absurd hseen.1 (by decide)

/-- When the first file changes, both go. -/
theorem closure_protects_mergedDeclaration : mergedDeclaration.Consistent ∧
    (ClosureProtects mergedDeclaration (fun _ => 1) [1] ↔
      ∀ source target kind, mergedDeclaration.LiveEdge source target kind →
        ∀ file, mergedDeclaration.Owns file source → mergedDeclaration.DependsOn [1] file →
          mergedDeclaration.DependsOn [1] 1) :=
  ⟨consistent_mergedDeclaration,
    closure_protects_iff mergedDeclaration consistent_mergedDeclaration (fun _ => 1) [1]⟩

end Example

end Sqry
