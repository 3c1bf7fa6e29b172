import Sqry.Bind.Plane
import Sqry.Rebuild.RebuildGraph

/-!
The handles of scopes after files and nodes left the graph. A scope goes with its node, an alias
with its import and a shadow with its variable; the provenance of scopes is not filtered, and no
table looks at the scope whose handle it stores.
-/

namespace Sqry

section Live
variable {π μ δ : Type} [DecidableEq π]

/-- The handle is invalid, or it still names the scope it named in `g₀`. -/
def NamesScope (g₀ g : CodeGraph π μ δ) (id : ScopeId) : Prop :=
  id = ScopeId.INVALID ∨
    (g.scopeArena.get id).isSome ∧ g.scopeArena.get id = g₀.scopeArena.get id

structure HandlesLive (g₀ g : CodeGraph π μ δ) : Prop where
  parent : ∀ id scope, g.scopeArena.get id = some scope → NamesScope g₀ g scope.parent
  aliases : ∀ entry ∈ g.aliasTable.entries, NamesScope g₀ g entry.scope
  shadows : ∀ entry ∈ g.shadowTable.entries, NamesScope g₀ g entry.scope
  stable : ∀ stable id, g.scopeProvenanceStore.scopeByStableId stable = some id →
    NamesScope g₀ g id
  provenance : ∀ id provenance, (id, provenance) ∈ g.scopeProvenanceStore.entries →
    (g.scopeArena.get id).isSome

/-- The scopes of the nodes that left are gone, no table got a new handle, and the provenance is
as it was. -/
structure Swept (g₀ g : CodeGraph π μ δ) (gone : List NodeId) : Prop where
  arena : ∀ id, g.scopeArena.get id =
    (g₀.scopeArena.get id).filter fun scope => scope.node ∉ gone
  aliases : ∀ entry ∈ g.aliasTable.entries, ∃ old ∈ g₀.aliasTable.entries, old.scope = entry.scope
  shadows : ∀ entry ∈ g.shadowTable.entries,
    ∃ old ∈ g₀.shadowTable.entries, old.scope = entry.scope
  provenance : g.scopeProvenanceStore = g₀.scopeProvenanceStore

variable {g₀ g : CodeGraph π μ δ} {gone : List NodeId}

theorem Swept.refl (g : CodeGraph π μ δ) : Swept g g [] := by
  refine ⟨fun id => ?_, fun entry hentry => ⟨entry, hentry, rfl⟩,
    fun entry hentry => ⟨entry, hentry, rfl⟩, rfl⟩
  cases g.scopeArena.get id with
  | none => rfl
  | some scope => simp [Option.filter]

theorem Swept.trans {g₁ : CodeGraph π μ δ} {gone' : List NodeId} (h : Swept g₀ g₁ gone)
    (h' : Swept g₁ g gone') : Swept g₀ g (gone ++ gone') := by
  refine ⟨fun id => ?_, fun entry hentry => ?_, fun entry hentry => ?_,
    h'.provenance.trans h.provenance⟩
  · rw [h'.arena, h.arena, Option.filter_filter]
    congr 1
    funext scope
    simp [not_or]
  · obtain ⟨middle, hmiddle, hscope⟩ := h'.aliases entry hentry
    obtain ⟨old, hold, hscope'⟩ := h.aliases middle hmiddle
    exact ⟨old, hold, hscope'.trans hscope⟩
  · obtain ⟨middle, hmiddle, hscope⟩ := h'.shadows entry hentry
    obtain ⟨old, hold, hscope'⟩ := h.shadows middle hmiddle
    exact ⟨old, hold, hscope'.trans hscope⟩

theorem Swept.congr {gone' : List NodeId} (h : Swept g₀ g gone)
    (hsame : ∀ node, node ∈ gone ↔ node ∈ gone') : Swept g₀ g gone' := by
  refine ⟨fun id => ?_, h.aliases, h.shadows, h.provenance⟩
  rw [h.arena]
  congr 1
  funext scope
  simp [hsame]

/-- The graphs have the same scopes, tables and provenance of scopes. -/
structure SameScopes (g g' : CodeGraph π μ δ) : Prop where
  arena : g'.scopeArena = g.scopeArena
  aliases : g'.aliasTable = g.aliasTable
  shadows : g'.shadowTable = g.shadowTable
  provenance : g'.scopeProvenanceStore = g.scopeProvenanceStore

theorem SameScopes.trans {g₁ g₂ g₃ : CodeGraph π μ δ} (h : SameScopes g₁ g₂)
    (h' : SameScopes g₂ g₃) : SameScopes g₁ g₃ :=
  ⟨h'.arena.trans h.arena, h'.aliases.trans h.aliases, h'.shadows.trans h.shadows,
    h'.provenance.trans h.provenance⟩

theorem Swept.of_same {g₁ g₂ : CodeGraph π μ δ} (h : Swept g₀ g gone) (h₁ : SameScopes g₁ g₀)
    (h₂ : SameScopes g g₂) : Swept g₁ g₂ gone := by
  refine ⟨fun id => ?_, fun entry hentry => ?_, fun entry hentry => ?_, ?_⟩
  · rw [h₂.arena, ← h₁.arena, h.arena]
  · rw [h₂.aliases] at hentry
    rw [← h₁.aliases]
    exact h.aliases entry hentry
  · rw [h₂.shadows] at hentry
    rw [← h₁.shadows]
    exact h.shadows entry hentry
  · rw [h₂.provenance, ← h₁.provenance, h.provenance]

theorem swept_retainNodes (g : CodeGraph π μ δ) (gone : List NodeId) :
    Swept g (g.retainNodes fun id => id ∉ gone) gone := by
  refine ⟨fun id => ScopeArena.get_retainByNode g.scopeArena _ id, fun entry hentry => ?_,
    fun entry hentry => ?_, rfl⟩
  · have hentry : entry ∈ AliasEntry.shape.retainByNode g.aliasTable.entries
        (fun id => id ∉ gone) := hentry
    exact List.mem_map.mp ((EntryShape.scopes_retainByNode g.aliasTable.entries _).subset
      (List.mem_map_of_mem (f := AliasEntry.shape.scope) hentry))
  · have hentry : entry ∈ ShadowEntry.shape.retainByNode g.shadowTable.entries
        (fun id => id ∉ gone) := hentry
    exact List.mem_map.mp ((EntryShape.scopes_retainByNode g.shadowTable.entries _).subset
      (List.mem_map_of_mem (f := ShadowEntry.shape.scope) hentry))

theorem swept_removeFile (g : CodeGraph π μ δ) (file : FileId) :
    Swept g (g.removeFile file).1 (g.files.nodesForFile file) := by
  rw [CodeGraph.removeFile]
  cases hbucket : g.files.nodesForFile file with
  | nil => exact (Swept.refl g).of_same ⟨rfl, rfl, rfl, rfl⟩ ⟨rfl, rfl, rfl, rfl⟩
  | cons first rest =>
    exact (swept_retainNodes ((g.releaseFile file).dropNodes (first :: rest))
      (first :: rest)).of_same ⟨rfl, rfl, rfl, rfl⟩ ⟨rfl, rfl, rfl, rfl⟩

theorem swept_removeFiles (files : List FileId) (g : CodeGraph π μ δ) :
    Swept g (g.removeFiles files) (files.flatMap g.files.nodesForFile) := by
  induction files generalizing g with
  | nil => exact Swept.refl g
  | cons file files ih =>
    refine ((swept_removeFile g file).trans (ih (g.removeFile file).1)).congr fun node => ?_
    rw [List.flatMap_cons, List.mem_append, List.mem_append]
    exact mem_or_flatMap_congr fun other =>
      mem_after_removal (nodesForFile_removeFile g file) other

theorem sameScopes_run (ops : List RebuildOp) (r : RebuildGraph π μ δ) :
    SameScopes r.toCodeGraph (r.run ops).toCodeGraph := by
  induction ops generalizing r with
  | nil => exact ⟨rfl, rfl, rfl, rfl⟩
  | cons op ops ih =>
    have hstep : SameScopes r.toCodeGraph (r.step op).toCodeGraph := by
      cases op with
      | tombstone id => exact ⟨rfl, rfl, rfl, rfl⟩
      | removeFile file =>
        rw [RebuildGraph.step, RebuildGraph.removeFile]
        split
        · exact ⟨rfl, rfl, rfl, rfl⟩
        · exact ⟨rfl, rfl, rfl, rfl⟩
    exact hstep.trans (ih (r.step op))

theorem swept_rewriteStringIds (g : CodeGraph π μ δ) (remap : StringRemap) :
    Swept g (g.rewriteStringIds remap) [] := by
  refine ⟨(Swept.refl g).arena, fun entry hentry => ?_, fun entry hentry => ?_, rfl⟩
  · have hentry : entry ∈ AliasEntry.shape.rewriteStringIdsThroughRemap g.aliasTable.entries
        remap := hentry
    exact List.mem_map.mp ((EntryShape.scopes_rewrite g.aliasTable.entries remap).subset
      (List.mem_map_of_mem (f := AliasEntry.shape.scope) hentry))
  · have hentry : entry ∈ ShadowEntry.shape.rewriteStringIdsThroughRemap g.shadowTable.entries
        remap := hentry
    exact List.mem_map.mp ((EntryShape.scopes_rewrite g.shadowTable.entries remap).subset
      (List.mem_map_of_mem (f := ShadowEntry.shape.scope) hentry))

theorem swept_finalize {r : RebuildGraph π μ δ} (h : r.finalize = some (.ok g)) :
    Swept r.toCodeGraph g r.tombstones := by
  obtain ⟨frozen, edges, hfrozen, _, hpublished⟩ := finalize_eq_ok h
  obtain ⟨strings, table, strings', recycled, _, _, heq⟩ := freezeStrings_eq_some hfrozen
  have hrewrite : Swept r.toCodeGraph frozen [] := by
    rw [heq]
    exact (swept_rewriteStringIds r.toCodeGraph (stringRemap table)).of_same ⟨rfl, rfl, rfl, rfl⟩
      ⟨rfl, rfl, rfl, rfl⟩
  rw [hpublished]
  exact hrewrite.trans ((swept_retainNodes frozen r.tombstones).of_same ⟨rfl, rfl, rfl, rfl⟩
    ⟨rfl, rfl, rfl, rfl⟩)

theorem swept_removal {removal : Removal} (h : removal.run g₀ = some g) :
    Swept g₀ g (removal.nodes g₀) := by
  cases removal with
  | inPlace files =>
    cases h
    exact swept_removeFiles files g₀
  | rebuild ops =>
    have hswept := swept_finalize (run_rebuild_eq_some h)
    have hsame := sameScopes_run ops g₀.cloneForRebuild
    refine (hswept.of_same ⟨hsame.arena, hsame.aliases, hsame.shadows, hsame.provenance⟩
      ⟨rfl, rfl, rfl, rfl⟩).congr fun node => ?_
    rw [mem_tombstones_run]
    simp [CodeGraph.cloneForRebuild, Removal.nodes]

theorem handlesLive_of_swept (hplane : PlaneDerived g₀) (hswept : Swept g₀ g gone)
    (h : ∀ node ∈ gone, ¬ g₀.ScopeWorthy node) : HandlesLive g₀ g := by
  have hsame : ∀ id, g.scopeArena.get id = g₀.scopeArena.get id := by
    intro id
    rw [hswept.arena]
    cases hget : g₀.scopeArena.get id with
    | none => rfl
    | some scope =>
      have hkept : scope.node ∉ gone := fun hgone =>
        h scope.node hgone ((hplane.scopes.worthy scope.node).mpr ⟨id, scope, hget, rfl⟩)
      simp [Option.filter, hkept]
  have hnames : ∀ {id : ScopeId}, (g₀.scopeArena.get id).isSome → NamesScope g₀ g id :=
    fun hsome => .inr ⟨by rw [hsame]; exact hsome, hsame _⟩
  refine ⟨fun id scope hget => ?_, fun entry hentry => ?_, fun entry hentry => ?_,
    fun stable id hlookup => ?_, fun id provenance hmem => ?_⟩
  · rw [hsame] at hget
    cases hplane.scopes.parent id scope hget with
    | inl hinvalid => exact .inl hinvalid
    | inr houter =>
      obtain ⟨outer, houter⟩ := houter
      exact hnames (by rw [houter]; rfl)
  · obtain ⟨old, hold, hscope⟩ := hswept.aliases entry hentry
    rw [← hscope]
    cases hplane.aliases old hold with
    | inl hinvalid => exact .inl hinvalid
    | inr hsome => exact hnames hsome
  · obtain ⟨old, hold, hscope⟩ := hswept.shadows entry hentry
    rw [← hscope]
    exact hnames (hplane.shadows old hold)
  · rw [hswept.provenance] at hlookup
    exact hnames (hplane.stable stable id hlookup)
  · rw [hswept.provenance] at hmem
    rw [hsame]
    exact (hplane.provenance id).mpr ⟨provenance, hmem⟩

theorem not_worthy_of_handlesLive (hplane : PlaneDerived g₀) (hswept : Swept g₀ g gone)
    (h : HandlesLive g₀ g) : ∀ node ∈ gone, ¬ g₀.ScopeWorthy node := by
  intro node hgone hworthy
  obtain ⟨id, scope, hget, hnode⟩ := (hplane.scopes.worthy node).mp hworthy
  obtain ⟨provenance, hmem⟩ := (hplane.provenance id).mp (by rw [hget]; rfl)
  have hsome := h.provenance id provenance (by rw [hswept.provenance]; exact hmem)
  rw [hswept.arena, hget] at hsome
  rw [← hnode] at hgone
  simp [Option.filter, hgone] at hsome

/-- No handle of a scope dangles after files and nodes left a graph with a derived binding plane,
exactly when none of the nodes that left makes a scope. -/
theorem scope_handles_live_iff (hash : StableHash π) (steps : Nat) (g g₀ g' : CodeGraph π μ δ)
    (stats : BindingDerivationStats) (removal : Removal)
    (hderive : g.deriveBindingPlaneGeneric hash steps = some (g₀, stats))
    (hrun : removal.run g₀ = some g') :
    HandlesLive g₀ g' ↔ ∀ node ∈ removal.nodes g₀, ¬ g₀.ScopeWorthy node := by
  have hplane := planeDerived_of_derive hderive
  have hswept := swept_removal hrun
  exact ⟨not_worthy_of_handlesLive hplane hswept, handlesLive_of_swept hplane hswept⟩

end Live

section Example

def oneFunction : CodeGraph String Unit Unit :=
  { (CodeGraph.new : CodeGraph String Unit Unit) with
    nodes := ⟨[⟨1, .occupied (FullNodeEntry.new .function (.ofUInt8 1) 1)⟩], none, 1⟩
    files := (Registry.FileRegistry.new.registerCanonical "a.rs").1.recordNode 1 ⟨0, 1⟩
    indices := (AuxiliaryIndices.new.add ⟨0, 1⟩ .function (.ofUInt8 1) none 1).1 }

theorem isSome_derive_oneFunction (hash : StableHash String) :
    (oneFunction.deriveBindingPlaneGeneric hash 1).isSome = true := rfl

/-- The file goes with its function; the record of the function's scope stays. -/
theorem scope_record_stays : ¬ ∃ hash : StableHash String, ∀ (steps : Nat)
    (g g₀ g' : CodeGraph String Unit Unit) (stats : BindingDerivationStats) (removal : Removal),
    g.deriveBindingPlaneGeneric hash steps = some (g₀, stats) → removal.run g₀ = some g' →
      HandlesLive g₀ g' := by
  intro h
  obtain ⟨hash, hlive⟩ := h
  obtain ⟨⟨g₀, stats⟩, hderive⟩ := Option.isSome_iff_exists.mp (isSome_derive_oneFunction hash)
  have hrun : (Removal.inPlace [1]).run g₀ = some (g₀.removeFiles [1]) := rfl
  have hstores := stores_derived hderive
  refine not_worthy_of_handlesLive (planeDerived_of_derive hderive) (swept_removal hrun)
    (hlive 1 oneFunction g₀ _ stats (.inPlace [1]) hderive hrun) ⟨0, 1⟩ ?_ ?_
  · simp only [Removal.nodes, hstores]
    decide
  · rw [hstores]
    exact ⟨⟨.function, ScopeId.INVALID, ⟨0, 1⟩, (0, 0), 1⟩, by decide, rfl⟩

/-- A file without nodes leaves the handles as they are. -/
theorem scope_handles_live_oneFunction : ∃ g₀ stats g',
    oneFunction.deriveBindingPlaneGeneric ⟨id, fun _ => []⟩ 1 = some (g₀, stats) ∧
      (Removal.inPlace [2]).run g₀ = some g' ∧
      (HandlesLive g₀ g' ↔ ∀ node ∈ (Removal.inPlace [2]).nodes g₀, ¬ g₀.ScopeWorthy node) := by
  obtain ⟨⟨g₀, stats⟩, hderive⟩ :=
    Option.isSome_iff_exists.mp (isSome_derive_oneFunction ⟨id, fun _ => []⟩)
  exact ⟨g₀, stats, g₀.removeFiles [2], hderive, rfl,
    scope_handles_live_iff ⟨id, fun _ => []⟩ 1 oneFunction g₀ _ stats (.inPlace [2]) hderive rfl⟩

end Example

end Sqry
