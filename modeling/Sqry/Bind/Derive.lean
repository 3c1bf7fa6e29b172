import Sqry.Bind.ScopeArena
import Sqry.Graph.Stores
import Sqry.Lib.Climb

/-!
The derivation of scopes: one scan of the delta indexes the edges, every node that makes a scope
gets one, and then each scope climbs the containers of its node to the first node with a scope.
Hash maps are association lists here; nothing depends on the order in which they iterate.
-/

namespace Sqry

structure BindingEdgeIndex where
  containsParents : AList fun _ : NodeId => NodeId
  importsByTarget : AList fun _ : NodeId => List (NodeId × EdgeKind)
  definesContainsBySource : AList fun _ : NodeId => List (NodeId × EdgeKind)

namespace BindingEdgeIndex

def empty : BindingEdgeIndex := ⟨∅, ∅, ∅⟩

def scan (index : BindingEdgeIndex) (e : DeltaEdge) : BindingEdgeIndex :=
  if !e.isAdd then index
  else
    match e.kind with
    | .contains =>
      { index with
        containsParents := index.containsParents.insert e.target e.source
        definesContainsBySource :=
          Buckets.push index.definesContainsBySource e.source (e.target, .contains) }
    | .defines =>
      { index with
        definesContainsBySource :=
          Buckets.push index.definesContainsBySource e.source (e.target, .defines) }
    | .imports aliasName isWildcard =>
      { index with
        importsByTarget :=
          Buckets.push index.importsByTarget e.target (e.source, .imports aliasName isWildcard) }
    | _ => index

end BindingEdgeIndex

def buildBindingEdgeIndex (edges : BidirectionalEdgeStore) : BindingEdgeIndex :=
  edges.forward.delta.iter.foldl BindingEdgeIndex.scan BindingEdgeIndex.empty

def nodeKindToScopeKind : NodeKind → Option ScopeKind
  | .module => some .module
  | .function | .method => some .function
  | .class | .struct | .enum => some .class
  | .interface | .trait => some .trait
  | _ => none

abbrev NodeToScope : Type := AList fun _ : NodeId => ScopeId

def scopeOf (nodes : NodeArena FullNodeEntry) (node : NodeId) : Option Scope :=
  match nodes.get node with
  | none => none
  | some entry =>
    match nodeKindToScopeKind entry.kind with
    | none => none
    | some kind =>
      some ⟨kind, ScopeId.INVALID, node, (entry.startByte, entry.endByte), entry.file⟩

def allocateScopes : List Scope → ScopeArena → NodeToScope → Option (ScopeArena × NodeToScope)
  | [], arena, nodeToScope => some (arena, nodeToScope)
  | scope :: scopes, arena, nodeToScope =>
    match arena.allocate scope with
    | none => none
    | some (arena, id) => allocateScopes scopes arena (nodeToScope.insert scope.node id)

def enclosingScopeIdViaIndex (steps : Nat) (start : NodeId) (map : NodeToScope)
    (containsParents : AList fun _ : NodeId => NodeId) : Option ScopeId :=
  (Climb.firstAbove (fun node => containsParents.lookup node) (fun node => map.lookup node)
    steps start).map fun found => found.getD ScopeId.INVALID

def stampParents (steps : Nat) (nodeToScope : NodeToScope)
    (containsParents : AList fun _ : NodeId => NodeId) :
    List ScopeId → ScopeArena → Option ScopeArena
  | [], arena => some arena
  | id :: ids, arena =>
    match arena.get id with
    | none => none
    | some scope =>
      match enclosingScopeIdViaIndex steps scope.node nodeToScope containsParents with
      | none => none
      | some parent =>
        match arena.setParent id parent with
        | .error _ => none
        | .ok arena => stampParents steps nodeToScope containsParents ids arena

namespace GraphStores
variable {π : Type} [DecidableEq π] (g : GraphStores π)

def listedNodes : List NodeId := g.files.iter.flatMap fun file => g.indices.byFile file.1

def listedScopes : List Scope := g.listedNodes.filterMap (scopeOf g.nodes)

/-- `none` when a loop does not end within `steps`, or where the source panics. -/
def deriveScopes (steps : Nat) (index : BindingEdgeIndex) : Option ScopeArena :=
  match allocateScopes g.listedScopes ScopeArena.new ∅ with
  | none => none
  | some (arena, nodeToScope) =>
    stampParents steps nodeToScope index.containsParents
      (nodeToScope.entries.map fun entry => entry.2) arena

def ScopeWorthy (node : NodeId) : Prop := ∃ scope ∈ g.listedScopes, scope.node = node

def HasContains (container node : NodeId) : Prop :=
  ∃ e ∈ g.edges.forward.delta.iter, e.isAdd ∧ e.kind = .contains ∧ e.source = container ∧
    e.target = node

/-- The container holds the node through one or more Contains edges, and no node strictly between
makes a scope. -/
inductive Encloses : NodeId → NodeId → Prop where
  | direct {node container} : g.HasContains container node → Encloses node container
  | through {node between container} : g.HasContains between node → ¬ g.ScopeWorthy between →
      Encloses between container → Encloses node container

end GraphStores

inductive Rooted (arena : ScopeArena) : ScopeId → Prop where
  | invalid : Rooted arena ScopeId.INVALID
  | parent {id scope} : arena.get id = some scope → Rooted arena scope.parent → Rooted arena id

structure ScopeForest {π : Type} [DecidableEq π] (g : GraphStores π) (arena : ScopeArena) :
    Prop where
  enclosed : ∀ id scope, arena.get id = some scope → scope.parent = ScopeId.INVALID ∨
    ∃ outer, arena.get scope.parent = some outer ∧ g.ScopeWorthy outer.node ∧
      outer.node ≠ scope.node ∧ g.Encloses scope.node outer.node
  rooted : ∀ id scope, arena.get id = some scope → Rooted arena id
  chain : ∀ id, ∃ steps chain, scopeChain arena steps id = some chain

def GraphStores.DerivesForest {π : Type} [DecidableEq π] (g : GraphStores π) : Prop :=
  ∃ steps arena, g.deriveScopes steps (buildBindingEdgeIndex g.edges) = some arena ∧
    ScopeForest g arena

section Index

theorem containsParents_foldl {l : List DeltaEdge} {index : BindingEdgeIndex}
    {node container : NodeId}
    (h : (l.foldl BindingEdgeIndex.scan index).containsParents.lookup node = some container) :
    index.containsParents.lookup node = some container ∨
      ∃ e ∈ l, e.isAdd ∧ e.kind = .contains ∧ e.source = container ∧ e.target = node := by
  induction l generalizing index with
  | nil => exact .inl h
  | cons e l ih =>
    cases ih h with
    | inr hlater =>
      obtain ⟨e', he', hadd⟩ := hlater
      exact .inr ⟨e', List.mem_cons_of_mem e he', hadd⟩
    | inl hscan =>
      rw [BindingEdgeIndex.scan] at hscan
      split at hscan
      · exact .inl hscan
      · rename_i hadd
        split at hscan
        · rename_i hkind
          by_cases htarget : e.target = node
          · refine .inr ⟨e, List.mem_cons_self, by simpa using hadd, hkind, ?_, htarget⟩
            rw [htarget, AList.lookup_insert] at hscan
            exact Option.some.inj hscan
          · rw [AList.lookup_insert_ne (Ne.symm htarget)] at hscan
            exact .inl hscan
        · exact .inl hscan
        · exact .inl hscan
        · exact .inl hscan

theorem GraphStores.hasContains_of_lookup {π : Type} [DecidableEq π] {g : GraphStores π}
    {node container : NodeId}
    (h : (buildBindingEdgeIndex g.edges).containsParents.lookup node = some container) :
    g.HasContains container node := by
  cases containsParents_foldl h with
  | inl hempty => cases hempty
  | inr hedge => exact hedge

end Index

section FirstPass

def freshScopes (scopes : List Scope) : List (Slot Scope) :=
  scopes.map fun scope => ⟨1, .occupied scope⟩

def Recorded (slots : List (Slot Scope)) (nodeToScope : NodeToScope) : Prop :=
  ∀ node id, nodeToScope.lookup node = some id → ∃ scope, slots[id.index]? =
    some ⟨1, .occupied scope⟩ ∧ id.generation = 1 ∧ scope.node = node

theorem allocateScopes_spec {scopes : List Scope} {arena arena' : ScopeArena}
    {map map' : NodeToScope} (hfree : arena.freeHead = none) (hrecorded : Recorded arena.slots map)
    (h : allocateScopes scopes arena map = some (arena', map')) :
    arena'.slots = arena.slots ++ freshScopes scopes ∧ Recorded arena'.slots map' ∧
      (∀ node, (map'.lookup node).isSome ↔
        (map.lookup node).isSome ∨ ∃ scope ∈ scopes, scope.node = node) ∧
      (scopes ≠ [] → ∃ node, map'.lookup node = some ⟨arena'.slots.length - 1, 1⟩) := by
  induction scopes generalizing arena map with
  | nil =>
    cases h
    refine ⟨(List.append_nil _).symm, hrecorded, fun node => ?_, fun hne => absurd rfl hne⟩
    simp
  | cons scope scopes ih =>
    have halloc : arena.slots.length ≤ u32Max := by
      by_contra hfull
      simp only [allocateScopes, ScopeArena.allocate, hfree, if_neg hfull] at h
      cases h
    simp only [allocateScopes, ScopeArena.allocate, hfree, if_pos halloc] at h
    have hnew : Recorded (arena.slots ++ [⟨1, .occupied scope⟩])
        (map.insert scope.node ⟨arena.slots.length, 1⟩) := by
      intro node id hlookup
      by_cases hnode : node = scope.node
      · rw [hnode, AList.lookup_insert] at hlookup
        cases hlookup
        exact ⟨scope, by simp, rfl, hnode.symm⟩
      · rw [AList.lookup_insert_ne hnode] at hlookup
        obtain ⟨scope', hslot, hgen, hscope⟩ := hrecorded node id hlookup
        have hlt := (List.getElem?_eq_some_iff.mp hslot).1
        exact ⟨scope', by rw [List.getElem?_append_left hlt]; exact hslot, hgen, hscope⟩
    obtain ⟨hslots, hrecorded', hlisted, hlast⟩ := ih rfl hnew h
    refine ⟨?_, hrecorded', fun node => ?_, fun _ => ?_⟩
    · rw [hslots, List.append_assoc]
      rfl
    · rw [hlisted]
      by_cases hnode : node = scope.node
      · rw [hnode, AList.lookup_insert]
        simp
      · simp [AList.lookup_insert_ne hnode, Ne.symm hnode]
    · cases scopes with
      | nil =>
        cases h
        exact ⟨scope.node, by simp⟩
      | cons next rest => exact hlast (List.cons_ne_nil next rest)

theorem allocateScopes_isSome {scopes : List Scope} {arena : ScopeArena} {map : NodeToScope}
    (hfree : arena.freeHead = none) (hlen : arena.slots.length + scopes.length ≤ u32Max + 1) :
    ∃ result, allocateScopes scopes arena map = some result := by
  induction scopes generalizing arena map with
  | nil => exact ⟨_, rfl⟩
  | cons scope scopes ih =>
    rw [List.length_cons] at hlen
    have halloc : arena.slots.length ≤ u32Max := by omega
    simp only [allocateScopes, ScopeArena.allocate, hfree, if_pos halloc]
    refine ih rfl ?_
    simp only [List.length_append, List.length_singleton]
    omega

theorem length_le_of_allocateScopes {scopes : List Scope} {arena : ScopeArena} {map : NodeToScope}
    {result : ScopeArena × NodeToScope} (hfree : arena.freeHead = none)
    (hlen : arena.slots.length ≤ u32Max + 1)
    (h : allocateScopes scopes arena map = some result) :
    arena.slots.length + scopes.length ≤ u32Max + 1 := by
  induction scopes generalizing arena map with
  | nil => exact hlen
  | cons scope scopes ih =>
    have halloc : arena.slots.length ≤ u32Max := by
      by_contra hfull
      simp only [allocateScopes, ScopeArena.allocate, hfree, if_neg hfull] at h
      cases h
    simp only [allocateScopes, ScopeArena.allocate, hfree, if_pos halloc] at h
    have hrest := ih rfl (by simp only [List.length_append, List.length_singleton]; omega) h
    simp only [List.length_append, List.length_singleton] at hrest
    rw [List.length_cons]
    omega

end FirstPass

section SecondPass
variable {steps : Nat} {nodeToScope : NodeToScope}
variable {containsParents : AList fun _ : NodeId => NodeId}

theorem stampParents_spec {ids : List ScopeId} {arena arena' : ScopeArena}
    (h : stampParents steps nodeToScope containsParents ids arena = some arena') :
    ∀ id, (∀ scope, arena.get id = some scope → ∃ parent,
        arena'.get id = some { scope with parent := parent } ∧
        (id ∈ ids → enclosingScopeIdViaIndex steps scope.node nodeToScope containsParents =
          some parent) ∧ (id ∉ ids → parent = scope.parent)) ∧
      (arena.get id = none → arena'.get id = none ∧ id ∉ ids) := by
  induction ids generalizing arena with
  | nil =>
    cases h
    intro id
    refine ⟨fun scope hget => ⟨scope.parent, hget, fun hmem => ?_, fun _ => rfl⟩,
      fun hget => ⟨hget, List.not_mem_nil⟩⟩
    cases hmem
  | cons first ids ih =>
    simp only [stampParents] at h
    cases hfirst : arena.get first with
    | none =>
      rw [hfirst] at h
      cases h
    | some scope =>
      simp only [hfirst] at h
      cases henclosing : enclosingScopeIdViaIndex steps scope.node nodeToScope
          containsParents with
      | none =>
        rw [henclosing] at h
        cases h
      | some parent =>
        obtain ⟨arena₁, hset, _, hself, hothers⟩ :=
          @ScopeArena.setParent_ok arena first parent scope hfirst
        simp only [henclosing, hset] at h
        intro id
        obtain ⟨hlive, hdead⟩ := ih h id
        by_cases hid : id = first
        · rw [hid] at hlive hdead ⊢
          refine ⟨fun scope' hget => ?_, fun hget => ?_⟩
          · rw [hfirst] at hget
            cases hget
            obtain ⟨parent', hget', hmem, hnot⟩ := hlive _ hself
            refine ⟨parent', hget', fun _ => ?_, fun hnotMem => ?_⟩
            · by_cases hagain : first ∈ ids
              · exact hmem hagain
              · rw [henclosing, hnot hagain]
            · exact absurd List.mem_cons_self hnotMem
          · rw [hfirst] at hget
            cases hget
        · rw [hothers id hid] at hlive hdead
          refine ⟨fun scope' hget => ?_, fun hget => ?_⟩
          · obtain ⟨parent', hget', hmem, hnot⟩ := hlive scope' hget
            refine ⟨parent', hget', fun hin => ?_, fun hnotIn => ?_⟩
            · cases List.mem_cons.mp hin with
              | inl heq => exact absurd heq hid
              | inr hrest => exact hmem hrest
            · exact hnot fun hrest => hnotIn (List.mem_cons_of_mem first hrest)
          · obtain ⟨hnone, hnotMem⟩ := hdead hget
            refine ⟨hnone, fun hin => ?_⟩
            cases List.mem_cons.mp hin with
            | inl heq => exact hid heq
            | inr hrest => exact hnotMem hrest

theorem length_stampParents {ids : List ScopeId} {arena arena' : ScopeArena}
    (h : stampParents steps nodeToScope containsParents ids arena = some arena') :
    arena'.slots.length = arena.slots.length := by
  induction ids generalizing arena with
  | nil =>
    cases h
    rfl
  | cons first ids ih =>
    simp only [stampParents] at h
    cases hfirst : arena.get first with
    | none =>
      rw [hfirst] at h
      cases h
    | some scope =>
      simp only [hfirst] at h
      cases henclosing : enclosingScopeIdViaIndex steps scope.node nodeToScope
          containsParents with
      | none =>
        rw [henclosing] at h
        cases h
      | some parent =>
        obtain ⟨arena₁, hset, hlength, _⟩ :=
          @ScopeArena.setParent_ok arena first parent scope hfirst
        simp only [henclosing, hset] at h
        exact (ih h).trans hlength

theorem stampParents_isSome {ids : List ScopeId} {arena : ScopeArena}
    (h : ∀ id ∈ ids, ∃ scope parent, arena.get id = some scope ∧
      enclosingScopeIdViaIndex steps scope.node nodeToScope containsParents = some parent) :
    ∃ arena', stampParents steps nodeToScope containsParents ids arena = some arena' := by
  induction ids generalizing arena with
  | nil => exact ⟨arena, rfl⟩
  | cons first ids ih =>
    obtain ⟨scope, parent, hget, henclosing⟩ := h first List.mem_cons_self
    obtain ⟨arena₁, hset, _, hself, hothers⟩ :=
      @ScopeArena.setParent_ok arena first parent scope hget
    simp only [stampParents, hget, henclosing, hset]
    refine ih fun id hid => ?_
    by_cases heq : id = first
    · rw [heq]
      exact ⟨_, parent, hself, henclosing⟩
    · obtain ⟨scope', parent', hget', henclosing'⟩ := h id (List.mem_cons_of_mem first hid)
      exact ⟨scope', parent', by rw [hothers id heq]; exact hget', henclosing'⟩

end SecondPass

section Forest
variable {π : Type} [DecidableEq π] {g : GraphStores π}

theorem get_of_recorded {arena : ScopeArena} {nodeToScope : NodeToScope} {node : NodeId}
    {id : ScopeId} (hrecorded : Recorded arena.slots nodeToScope)
    (hlen : arena.slots.length ≤ u32Max) (h : nodeToScope.lookup node = some id) :
    ∃ scope, arena.get id = some scope ∧ scope.node = node := by
  obtain ⟨scope, hslot, hgen, hnode⟩ := hrecorded node id h
  have hlt := (List.getElem?_eq_some_iff.mp hslot).1
  have hvalid : id.isInvalid = false := by
    rw [ScopeId.isInvalid, decide_eq_false_iff_not]
    omega
  exact ⟨scope, ScopeArena.get_eq_some.mpr ⟨hvalid, _, hslot, hgen.symm, rfl⟩, hnode⟩

theorem mem_values {nodeToScope : NodeToScope} {id : ScopeId} :
    id ∈ nodeToScope.entries.map (fun entry => entry.2) ↔
      ∃ node, nodeToScope.lookup node = some id := by
  simp only [List.mem_map]
  constructor
  · intro h
    obtain ⟨entry, hmem, hid⟩ := h
    exact ⟨entry.1, AList.mem_lookup_iff.mpr (by rw [← hid]; exact hmem)⟩
  · intro h
    obtain ⟨node, hlookup⟩ := h
    exact ⟨⟨node, id⟩, AList.mem_lookup_iff.mp hlookup, rfl⟩

theorem ends_of_rooted {steps : Nat} {arena arena' : ScopeArena} {nodeToScope : NodeToScope}
    {containsParents : AList fun _ : NodeId => NodeId}
    (hrecorded : Recorded arena.slots nodeToScope) (hlen : arena.slots.length ≤ u32Max)
    (hstamp : stampParents steps nodeToScope containsParents
      (nodeToScope.entries.map fun entry => entry.2) arena = some arena')
    {id : ScopeId} (h : Rooted arena' id) :
    ∀ node, nodeToScope.lookup node = some id →
      Climb.Ends (fun node => containsParents.lookup node) node := by
  induction h with
  | invalid =>
    intro node hlookup
    obtain ⟨scope, hget, _⟩ := get_of_recorded hrecorded hlen hlookup
    cases (ScopeArena.get_eq_some.mp hget).1
  | @parent id scope hscope _ ih =>
    intro node hlookup
    obtain ⟨scope₀, hget, hnode⟩ := get_of_recorded hrecorded hlen hlookup
    obtain ⟨parent, hget', henclosing, _⟩ := (stampParents_spec hstamp id).1 scope₀ hget
    rw [hscope] at hget'
    cases hget'
    have hparent := henclosing (mem_values.mpr ⟨node, hlookup⟩)
    rw [hnode] at hparent
    obtain ⟨found, hfound, heq⟩ := Option.map_eq_some_iff.mp hparent
    cases found with
    | none => exact Climb.ends_of_firstAbove_none hfound
    | some outer =>
      obtain ⟨container, hcontainer, habove⟩ := Climb.above_of_firstAbove hfound
      exact habove.ends (ih container (by rw [hcontainer, ← heq]; rfl))

theorem parent_of_mem_listedScopes {scope : Scope} (h : scope ∈ g.listedScopes) :
    scope.parent = ScopeId.INVALID := by
  obtain ⟨node, _, hscope⟩ := List.mem_filterMap.mp h
  simp only [scopeOf] at hscope
  split at hscope
  · cases hscope
  · split at hscope
    · cases hscope
    · cases hscope
      rfl

structure Allocated (g : GraphStores π) (arena : ScopeArena) (nodeToScope : NodeToScope) :
    Prop where
  slots_eq : arena.slots = freshScopes g.listedScopes
  recorded : Recorded arena.slots nodeToScope
  listed : ∀ node, (nodeToScope.lookup node).isSome ↔ g.ScopeWorthy node

theorem allocated_of_allocateScopes {arena : ScopeArena} {nodeToScope : NodeToScope}
    (h : allocateScopes g.listedScopes ScopeArena.new ∅ = some (arena, nodeToScope)) :
    Allocated g arena nodeToScope := by
  have hempty : Recorded ScopeArena.new.slots ∅ := by
    intro node id hlookup
    cases hlookup
  obtain ⟨hslots, hrecorded, hmarked, _⟩ := allocateScopes_spec rfl hempty h
  refine ⟨hslots, hrecorded, fun node => ?_⟩
  rw [hmarked]
  simp [GraphStores.ScopeWorthy]

section Derived
variable {steps : Nat} {index : BindingEdgeIndex} {arena₀ arena : ScopeArena}
variable {nodeToScope : NodeToScope}

theorem Allocated.length_eq (h : Allocated g arena₀ nodeToScope) :
    arena₀.slots.length = g.listedScopes.length := by
  rw [h.slots_eq]
  exact List.length_map _

theorem length_listedScopes_le
    (hallocate : allocateScopes g.listedScopes ScopeArena.new ∅ = some (arena₀, nodeToScope))
    (hstamp : stampParents steps nodeToScope index.containsParents
      (nodeToScope.entries.map fun entry => entry.2) arena₀ = some arena) :
    g.listedScopes.length ≤ u32Max := by
  have hempty : Recorded ScopeArena.new.slots ∅ := by
    intro node id hlookup
    cases hlookup
  obtain ⟨_, _, _, hlast⟩ := allocateScopes_spec rfl hempty hallocate
  have hcount := (allocated_of_allocateScopes hallocate).length_eq
  have hle := length_le_of_allocateScopes rfl (Nat.zero_le _) hallocate
  by_contra hfull
  have hne : g.listedScopes ≠ [] := by
    intro hnil
    rw [hnil] at hfull
    exact hfull (Nat.zero_le _)
  obtain ⟨node, hlookup⟩ := hlast hne
  have hfullLen : arena₀.slots.length - 1 = u32Max := by
    rw [hcount]
    simp only [ScopeArena.new, List.length_nil] at hle
    omega
  rw [hfullLen] at hlookup
  exact ((stampParents_spec hstamp ⟨u32Max, 1⟩).2 rfl).2 (mem_values.mpr ⟨node, hlookup⟩)

theorem deriveScopes_eq_some (h : g.deriveScopes steps index = some arena) :
    ∃ arena₀ nodeToScope, Allocated g arena₀ nodeToScope ∧ g.listedScopes.length ≤ u32Max ∧
      stampParents steps nodeToScope index.containsParents
        (nodeToScope.entries.map fun entry => entry.2) arena₀ = some arena := by
  simp only [GraphStores.deriveScopes] at h
  cases hallocate : allocateScopes g.listedScopes ScopeArena.new ∅ with
  | none =>
    rw [hallocate] at h
    cases h
  | some first =>
    obtain ⟨arena₀, nodeToScope⟩ := first
    simp only [hallocate] at h
    exact ⟨arena₀, nodeToScope, allocated_of_allocateScopes hallocate,
      length_listedScopes_le hallocate h, h⟩

variable (ha : Allocated g arena₀ nodeToScope) (hlen : g.listedScopes.length ≤ u32Max)
variable (hstamp : stampParents steps nodeToScope index.containsParents
  (nodeToScope.entries.map fun entry => entry.2) arena₀ = some arena)

include ha hlen hstamp

theorem get_of_stamped {node : NodeId} {id : ScopeId} (h : nodeToScope.lookup node = some id) :
    ∃ scope, arena.get id = some scope ∧ scope.node = node := by
  obtain ⟨scope₀, hget₀, hnode⟩ := get_of_recorded ha.recorded (ha.length_eq.le.trans hlen) h
  obtain ⟨parent, hget, _⟩ := (stampParents_spec hstamp id).1 scope₀ hget₀
  exact ⟨_, hget, hnode⟩

omit hlen in
theorem parent_of_stamped {id : ScopeId} {scope : Scope} (h : arena.get id = some scope) :
    g.ScopeWorthy scope.node ∧ (scope.parent = ScopeId.INVALID ∨ ∃ container,
      nodeToScope.lookup container = some scope.parent ∧
        Climb.Above (fun node => index.containsParents.lookup node)
          (fun node => nodeToScope.lookup node) scope.node container) := by
  cases hget₀ : arena₀.get id with
  | none =>
    rw [((stampParents_spec hstamp id).2 hget₀).1] at h
    cases h
  | some scope₀ =>
    obtain ⟨parent, hget, hmem, hnot⟩ := (stampParents_spec hstamp id).1 scope₀ hget₀
    rw [h] at hget
    cases hget
    have hlisted : scope₀ ∈ g.listedScopes := by
      obtain ⟨_, slot, hslot, _, hscope⟩ := ScopeArena.get_eq_some.mp hget₀
      rw [ha.slots_eq] at hslot
      obtain ⟨scope', hscope', hslot'⟩ := List.mem_map.mp (List.mem_of_getElem? hslot)
      rw [← hslot'] at hscope
      cases hscope
      exact hscope'
    refine ⟨⟨scope₀, hlisted, rfl⟩, ?_⟩
    by_cases hid : id ∈ nodeToScope.entries.map fun entry => entry.2
    · obtain ⟨found, hfound, heq⟩ := Option.map_eq_some_iff.mp (hmem hid)
      cases found with
      | none => exact .inl heq.symm
      | some outer =>
        obtain ⟨container, hcontainer, habove⟩ := Climb.above_of_firstAbove hfound
        exact .inr ⟨container, by rw [hcontainer, ← heq]; rfl, habove⟩
    · exact .inl ((hnot hid).trans (parent_of_mem_listedScopes hlisted))

end Derived

theorem ends_of_derived {steps : Nat} {arena : ScopeArena}
    (h : g.deriveScopes steps (buildBindingEdgeIndex g.edges) = some arena)
    (hrooted : ∀ id scope, arena.get id = some scope → Rooted arena id) :
    g.listedScopes.length ≤ u32Max ∧ ∀ node, g.ScopeWorthy node → Climb.Ends
      (fun node => (buildBindingEdgeIndex g.edges).containsParents.lookup node) node := by
  obtain ⟨arena₀, nodeToScope, ha, hlen, hstamp⟩ := deriveScopes_eq_some h
  refine ⟨hlen, fun node hworthy => ?_⟩
  obtain ⟨id, hlookup⟩ := Option.isSome_iff_exists.mp ((ha.listed node).mpr hworthy)
  obtain ⟨scope, hget, _⟩ := get_of_stamped ha hlen hstamp hlookup
  exact ends_of_rooted ha.recorded (ha.length_eq.le.trans hlen) hstamp (hrooted id scope hget) node
    hlookup

structure DerivedScopes (g : GraphStores π) (arena : ScopeArena) : Prop where
  length_le : arena.slots.length ≤ u32Max
  parent : ∀ id scope, arena.get id = some scope →
    scope.parent = ScopeId.INVALID ∨ ∃ outer, arena.get scope.parent = some outer
  worthy : ∀ node, g.ScopeWorthy node ↔ ∃ id scope, arena.get id = some scope ∧ scope.node = node

theorem derivedScopes_of_derived {steps : Nat} {index : BindingEdgeIndex} {arena : ScopeArena}
    (h : g.deriveScopes steps index = some arena) : DerivedScopes g arena := by
  obtain ⟨arena₀, nodeToScope, ha, hlen, hstamp⟩ := deriveScopes_eq_some h
  refine ⟨?_, fun id scope hget => ?_, fun node => ⟨fun hworthy => ?_, fun hscope => ?_⟩⟩
  · rw [length_stampParents hstamp]
    exact ha.length_eq.le.trans hlen
  · refine (parent_of_stamped ha hstamp hget).2.imp_right fun houter => ?_
    obtain ⟨container, hlookup, _⟩ := houter
    obtain ⟨outer, houter, _⟩ := get_of_stamped ha hlen hstamp hlookup
    exact ⟨outer, houter⟩
  · obtain ⟨id, hlookup⟩ := Option.isSome_iff_exists.mp ((ha.listed node).mpr hworthy)
    exact ⟨id, get_of_stamped ha hlen hstamp hlookup⟩
  · obtain ⟨id, scope, hget, hnode⟩ := hscope
    rw [← hnode]
    exact (parent_of_stamped ha hstamp hget).1

theorem encloses_of_above {nodeToScope : NodeToScope} {node container : NodeId}
    (hlisted : ∀ node, (nodeToScope.lookup node).isSome ↔ g.ScopeWorthy node)
    (h : Climb.Above (fun node => (buildBindingEdgeIndex g.edges).containsParents.lookup node)
      (fun node => nodeToScope.lookup node) node container) : g.Encloses node container := by
  induction h with
  | next hup => exact .direct (GraphStores.hasContains_of_lookup hup)
  | past hup hmark _ ih =>
    refine .through (GraphStores.hasContains_of_lookup hup) (fun hworthy => ?_) ih
    have hsome := (hlisted _).mpr hworthy
    rw [hmark] at hsome
    cases hsome

theorem chain_of_rooted {arena : ScopeArena} {id : ScopeId} (h : Rooted arena id) :
    ∃ steps chain, scopeChain arena steps id = some chain := by
  induction h with
  | invalid => exact ⟨1, [], rfl⟩
  | @parent id scope hget _ ih =>
    obtain ⟨steps, chain, hchain⟩ := ih
    have hvalid := (ScopeArena.get_eq_some.mp hget).1
    exact ⟨steps + 1, id :: chain, by simp [scopeChain, hvalid, hget, hchain]⟩

theorem exists_deriveScopes (hlen : g.listedScopes.length ≤ u32Max)
    (hends : ∀ node, g.ScopeWorthy node → Climb.Ends
      (fun node => (buildBindingEdgeIndex g.edges).containsParents.lookup node) node) :
    ∃ steps arena, g.deriveScopes steps (buildBindingEdgeIndex g.edges) = some arena := by
  have hroom : ScopeArena.new.slots.length + g.listedScopes.length ≤ u32Max + 1 := by
    simp only [ScopeArena.new, List.length_nil]
    omega
  obtain ⟨⟨arena₀, nodeToScope⟩, hallocate⟩ :=
    @allocateScopes_isSome g.listedScopes ScopeArena.new ∅ rfl hroom
  have ha := allocated_of_allocateScopes hallocate
  have hnodes : ∀ node ∈ nodeToScope.entries.map (fun entry => entry.1), Climb.Ends
      (fun node => (buildBindingEdgeIndex g.edges).containsParents.lookup node) node := by
    intro node hnode
    refine hends node ((ha.listed node).mp ?_)
    exact AList.lookup_isSome.mpr (AList.mem_keys.mp hnode)
  obtain ⟨steps, hsteps⟩ := Climb.exists_steps (fun node => nodeToScope.lookup node) hnodes
  have hstamped : ∃ arena, stampParents steps nodeToScope
      (buildBindingEdgeIndex g.edges).containsParents
      (nodeToScope.entries.map fun entry => entry.2) arena₀ = some arena := by
    refine stampParents_isSome fun id hid => ?_
    obtain ⟨node, hlookup⟩ := mem_values.mp hid
    obtain ⟨scope, hget, hnode⟩ :=
      get_of_recorded ha.recorded (ha.length_eq.le.trans hlen) hlookup
    obtain ⟨found, hfound⟩ := hsteps node
      (AList.mem_keys.mpr (AList.lookup_isSome.mp (by rw [hlookup]; rfl)))
    exact ⟨scope, _, hget, by rw [hnode, enclosingScopeIdViaIndex, hfound]; rfl⟩
  obtain ⟨arena, hstamp⟩ := hstamped
  exact ⟨steps, arena, by simp only [GraphStores.deriveScopes, hallocate]; exact hstamp⟩

theorem derivesForest_of_ends (hlen : g.listedScopes.length ≤ u32Max)
    (hends : ∀ node, g.ScopeWorthy node → Climb.Ends
      (fun node => (buildBindingEdgeIndex g.edges).containsParents.lookup node) node) :
    g.DerivesForest := by
  obtain ⟨steps, arena, hderive⟩ := exists_deriveScopes hlen hends
  obtain ⟨arena₀, nodeToScope, ha, hlen, hstamp⟩ := deriveScopes_eq_some hderive
  -- the chain of containers carries the induction, one scope for each step of it
  have hrootedNode : ∀ node, g.ScopeWorthy node → ∀ id scope, arena.get id = some scope →
      scope.node = node → Rooted arena id := by
    intro node hworthy
    have hacc := (hends node hworthy).transGen
    clear hworthy
    induction hacc with
    | intro node _ ih =>
      intro id scope hget hnode
      refine .parent hget ?_
      cases (parent_of_stamped ha hstamp hget).2 with
      | inl hinvalid =>
        rw [hinvalid]
        exact .invalid
      | inr houter =>
        obtain ⟨container, hlookup, habove⟩ := houter
        obtain ⟨outer, houter, hcontainer⟩ := get_of_stamped ha hlen hstamp hlookup
        rw [hnode] at habove
        exact ih container habove.transGen scope.parent outer houter hcontainer
  have hrooted : ∀ id scope, arena.get id = some scope → Rooted arena id := by
    intro id scope hget
    exact hrootedNode scope.node (parent_of_stamped ha hstamp hget).1 id scope hget rfl
  refine ⟨steps, arena, hderive, ⟨fun id scope hget => ?_, hrooted, fun id => ?_⟩⟩
  · obtain ⟨hworthy, hparent⟩ := parent_of_stamped ha hstamp hget
    refine hparent.imp_right fun houter => ?_
    obtain ⟨container, hlookup, habove⟩ := houter
    obtain ⟨outer, houter, hcontainer⟩ := get_of_stamped ha hlen hstamp hlookup
    rw [← hcontainer] at hlookup habove
    exact ⟨outer, houter, (ha.listed outer.node).mp (by rw [hlookup]; rfl),
      habove.ne (hends scope.node hworthy), encloses_of_above ha.listed habove⟩
  · cases hget : arena.get id with
    | none =>
      refine ⟨1, [], ?_⟩
      simp [scopeChain, hget]
    | some scope => exact chain_of_rooted (hrooted id scope hget)

/-- The derivation ends and its scopes form a forest exactly when there are handles for all scopes
and no node with a scope has a cycle among its recorded containers. -/
theorem derived_scopes_forest_iff (g : GraphStores π) :
    g.DerivesForest ↔ g.listedScopes.length ≤ u32Max ∧ ∀ node, g.ScopeWorthy node → Climb.Ends
      (fun node => (buildBindingEdgeIndex g.edges).containsParents.lookup node) node := by
  constructor
  · intro h
    obtain ⟨steps, arena, hderive, hforest⟩ := h
    exact ends_of_derived hderive hforest.rooted
  · intro h
    exact derivesForest_of_ends h.1 h.2

end Forest

section Example

def selfContained : GraphStores String where
  nodes := ⟨[⟨1, .occupied (.new .function (.ofUInt8 1) 1)⟩], none, 1⟩
  edges := BidirectionalEdgeStore.new.addEdge ⟨0, 1⟩ ⟨0, 1⟩ .contains 1
  files := (Registry.FileRegistry.new.registerCanonical "a.rs").1
  indices := (AuxiliaryIndices.new.add ⟨0, 1⟩ .function (.ofUInt8 1) none 1).1

/-- Its scope would be its own parent. -/
theorem self_contained_not_forest : ¬ ∀ g : GraphStores String, g.DerivesForest := by
  intro h
  obtain ⟨steps, arena, hderive, hforest⟩ := h selfContained
  have hends := (ends_of_derived hderive hforest.rooted).2 ⟨0, 1⟩
    ⟨⟨.function, ScopeId.INVALID, ⟨0, 1⟩, (0, 0), 1⟩, by decide, rfl⟩
  exact Climb.not_rel_of_acc hends rfl

end Example

end Sqry
