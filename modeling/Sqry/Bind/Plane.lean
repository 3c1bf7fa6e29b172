import Sqry.Bind.Derive
import Sqry.Graph.CodeGraph

/-!
The derivation of the whole binding plane: the scopes, then the aliases and the shadows in them, and
a provenance record for every scope. The hash that gives a scope its stable identity is a parameter.
-/

namespace Sqry

open SortedGroups (sortBy)

/-- What comes from outside: the hash, and the bytes of a path. -/
structure StableHash (π : Type) where
  blake3 : List UInt8 → List UInt8
  encodedBytes : π → List UInt8

def ScopeKind.discriminant : ScopeKind → UInt8
  | .module => 0
  | .function => 1
  | .class => 2
  | .namespaceScope => 3
  | .trait => 4
  | .impl => 5

def toLeBytes (n : Nat) : List UInt8 :=
  [n, n / 256, n / 256 ^ 2, n / 256 ^ 3].map fun byte => UInt8.ofNat (byte % 256)

namespace StableHash
variable {π : Type} (h : StableHash π)

def fromRegistryPath (path : π) : FileStableId := (h.blake3 (h.encodedBytes path)).take 16

def computeScopeStableId (fileStableId : FileStableId) (fileContentHash : List UInt8)
    (kind : ScopeKind) (byteSpan : Nat × Nat) : ScopeStableId :=
  (h.blake3 (fileStableId ++ fileContentHash ++ [kind.discriminant] ++ toLeBytes byteSpan.1 ++
    toLeBytes byteSpan.2)).take 16

end StableHash

namespace Registry.FileRegistry
variable {π : Type} [DecidableEq π]

/-- The part of `file_provenance` that is read here. -/
def contentHashOf (r : FileRegistry π) (file : FileId) : Option (List UInt8) :=
  if file = FileId.INVALID then none else r.entries[file]?.join.map FileEntry.contentHash

end Registry.FileRegistry

def buildNodeToScopeMap (scopes : List (ScopeId × Scope)) : NodeToScope :=
  scopes.foldl (fun map p => map.insert p.2.node p.1) ∅

def aliasOfEdge (nodeToScope : NodeToScope) (importNode : NodeId) (entry : FullNodeEntry)
    (edge : NodeId × EdgeKind) : Option (Option ScopeId × AliasEntry) :=
  match edge.2 with
  | .imports aliasName isWildcard =>
    let scope := nodeToScope.lookup edge.1
    some (scope, ⟨0, scope.getD ScopeId.INVALID, aliasName.getD entry.name,
      entry.qualifiedName.getD entry.name, importNode, isWildcard⟩)
  | _ => none

def shadowOfChild (nodes : NodeArena FullNodeEntry) (scope : ScopeId) (child : NodeId × EdgeKind) :
    Option ShadowEntry :=
  match child.2 with
  | .defines | .contains =>
    match nodes.get child.1 with
    | none => none
    | some entry =>
      match entry.kind with
      | .variable | .parameter => some ⟨0, scope, entry.name, child.1, entry.startByte⟩
      | _ => none
  | _ => none

namespace GraphStores
variable {π : Type} [DecidableEq π] (g : GraphStores π)

def rawAliases (scopes : ScopeArena) (index : BindingEdgeIndex) :
    List (Option ScopeId × AliasEntry) :=
  (Buckets.bucket g.indices.kindIndex .import).flatMap fun importNode =>
    match g.nodes.get importNode with
    | none => []
    | some entry =>
      (Buckets.bucket index.importsByTarget importNode).filterMap
        (aliasOfEdge (buildNodeToScopeMap scopes.iter) importNode entry)

/-- The table, and how many aliases have no scope; `none` when a position is no `u32`. -/
def deriveAliases (scopes : ScopeArena) (index : BindingEdgeIndex) : Option (AliasTable × Nat) :=
  let raw := g.rawAliases scopes index
  if raw.length ≤ u32Max + 1 then
    some (⟨AliasEntry.shape.renumber (sortBy AliasEntry.shape.order (raw.map Prod.snd))⟩,
      raw.countP fun p => p.1.isNone)
  else none

def rawShadows (scopes : ScopeArena) (index : BindingEdgeIndex) : List ShadowEntry :=
  (buildNodeToScopeMap (scopes.iter.filter fun p => p.2.kind = .function)).entries.flatMap
    fun function => (Buckets.bucket index.definesContainsBySource function.1).filterMap
      (shadowOfChild g.nodes function.2)

def deriveShadows (scopes : ScopeArena) (index : BindingEdgeIndex) : Option ShadowTable :=
  let raw := g.rawShadows scopes index
  if raw.length ≤ u32Max + 1 then
    some ⟨ShadowEntry.shape.renumber (sortBy ShadowEntry.shape.order raw)⟩
  else none

/-- The record of a scope; `none` when its file is not registered. -/
def provenanceOf (hash : StableHash π) (factEpoch : Nat) (scope : Scope) :
    Option ScopeProvenance :=
  match g.files.resolve scope.file with
  | none => none
  | some path =>
    let fileStable := hash.fromRegistryPath path
    let contentHash := (g.files.contentHashOf scope.file).getD (List.replicate 32 0)
    some ⟨factEpoch, factEpoch, fileStable,
      hash.computeScopeStableId fileStable contentHash scope.kind scope.byteSpan⟩

def stampProvenance (hash : StableHash π) (factEpoch : Nat) :
    List (ScopeId × Scope) → ScopeProvenanceStore → Option ScopeProvenanceStore
  | [], store => some store
  | (id, scope) :: scopes, store =>
    match g.provenanceOf hash factEpoch scope with
    | none => none
    | some provenance => stampProvenance hash factEpoch scopes (store.insert id provenance)

end GraphStores

structure BindingDerivationStats where
  scopes : Nat
  aliases : Nat
  aliasesWithInvalidScope : Nat
  shadows : Nat
  deriving DecidableEq, Repr

namespace CodeGraph
variable {π μ δ : Type} [DecidableEq π]

/-- `none` when a loop does not end within `steps`, or where the source panics. -/
def deriveBindingPlaneGeneric (hash : StableHash π) (steps : Nat) (g : CodeGraph π μ δ) :
    Option (CodeGraph π μ δ × BindingDerivationStats) :=
  let index := buildBindingEdgeIndex g.edges
  match g.deriveScopes steps index with
  | none => none
  | some scopeArena =>
    match g.deriveAliases scopeArena index with
    | none => none
    | some (aliasTable, invalidScopeCount) =>
      match g.deriveShadows scopeArena index with
      | none => none
      | some shadowTable =>
        match g.stampProvenance hash g.factEpoch scopeArena.iter
            (ScopeProvenanceStore.new.resizeTo scopeArena.slotCount) with
        | none => none
        | some scopeProvenanceStore =>
          some ({ g with
            scopeArena := scopeArena
            aliasTable := aliasTable
            shadowTable := shadowTable
            scopeProvenanceStore := scopeProvenanceStore },
            ⟨scopeArena.len, aliasTable.entries.length, invalidScopeCount,
              shadowTable.entries.length⟩)

end CodeGraph

section Handles

theorem lookup_buildNodeToScopeMap {scopes : List (ScopeId × Scope)} {node : NodeId}
    {id : ScopeId} (h : (buildNodeToScopeMap scopes).lookup node = some id) :
    ∃ scope, (id, scope) ∈ scopes := by
  have hfold : ∀ (l : List (ScopeId × Scope)) (map : NodeToScope),
      (l.foldl (fun map p => map.insert p.2.node p.1) map).lookup node = some id →
        map.lookup node = some id ∨ ∃ scope, (id, scope) ∈ l := by
    intro l
    induction l with
    | nil =>
      intro map hmap
      exact .inl hmap
    | cons p l ih =>
      intro map hmap
      cases ih _ hmap with
      | inl hinsert =>
        by_cases hnode : node = p.2.node
        · rw [hnode, AList.lookup_insert] at hinsert
          cases hinsert
          exact .inr ⟨p.2, List.mem_cons_self⟩
        · rw [AList.lookup_insert_ne hnode] at hinsert
          exact .inl hinsert
      | inr hlater =>
        obtain ⟨scope, hscope⟩ := hlater
        exact .inr ⟨scope, List.mem_cons_of_mem p hscope⟩
  cases hfold scopes ∅ h with
  | inl hempty => cases hempty
  | inr hscope => exact hscope

variable {π : Type} [DecidableEq π] {g : GraphStores π} {scopes : ScopeArena}
variable {index : BindingEdgeIndex}

theorem scope_of_rawAlias {raw : Option ScopeId × AliasEntry} (h : raw ∈ g.rawAliases scopes index) :
    raw.2.scope = ScopeId.INVALID ∨ ∃ scope, (raw.2.scope, scope) ∈ scopes.iter := by
  obtain ⟨importNode, _, hnode⟩ := List.mem_flatMap.mp h
  cases hget : g.nodes.get importNode with
  | none =>
    rw [hget] at hnode
    cases hnode
  | some entry =>
    simp only [hget] at hnode
    obtain ⟨edge, _, hedge⟩ := List.mem_filterMap.mp hnode
    simp only [aliasOfEdge] at hedge
    split at hedge
    · cases hedge
      cases hlookup : (buildNodeToScopeMap scopes.iter).lookup edge.1 with
      | none => exact .inl rfl
      | some id => exact .inr (lookup_buildNodeToScopeMap hlookup)
    · cases hedge

theorem scope_of_alias {table : AliasTable} {count : Nat}
    (h : g.deriveAliases scopes index = some (table, count)) :
    ∀ entry ∈ table.entries, entry.scope = ScopeId.INVALID ∨
      ∃ scope, (entry.scope, scope) ∈ scopes.iter := by
  simp only [GraphStores.deriveAliases] at h
  split at h
  · cases h
    intro entry hentry
    have hscope := List.mem_map_of_mem (f := AliasEntry.shape.scope) hentry
    rw [EntryShape.scopes_renumber, List.mem_map] at hscope
    obtain ⟨old, hold, heq⟩ := hscope
    obtain ⟨raw, hraw, hraw'⟩ := List.mem_map.mp (SortedGroups.mem_sortBy.mp hold)
    have hsame : raw.2.scope = entry.scope := by
      rw [hraw']
      exact heq
    rw [← hsame]
    exact scope_of_rawAlias hraw
  · cases h

theorem scope_of_shadow {table : ShadowTable} (h : g.deriveShadows scopes index = some table) :
    ∀ entry ∈ table.entries, ∃ scope, (entry.scope, scope) ∈ scopes.iter := by
  simp only [GraphStores.deriveShadows] at h
  split at h
  · cases h
    intro entry hentry
    have hscope := List.mem_map_of_mem (f := ShadowEntry.shape.scope) hentry
    rw [EntryShape.scopes_renumber, List.mem_map] at hscope
    obtain ⟨raw, hraw, heq⟩ := hscope
    obtain ⟨function, hfunction, hchild⟩ := List.mem_flatMap.mp (SortedGroups.mem_sortBy.mp hraw)
    obtain ⟨child, _, hshadow⟩ := List.mem_filterMap.mp hchild
    have hsame : raw.scope = function.2 := by
      simp only [shadowOfChild] at hshadow
      split at hshadow
      · split at hshadow
        · cases hshadow
        · split at hshadow
          · cases hshadow
            rfl
          · cases hshadow
            rfl
          · cases hshadow
      · split at hshadow
        · cases hshadow
        · split at hshadow
          · cases hshadow
            rfl
          · cases hshadow
            rfl
          · cases hshadow
      · cases hshadow
    have hentryScope : entry.scope = function.2 := heq.symm.trans hsame
    rw [hentryScope]
    obtain ⟨scope, hmem⟩ := lookup_buildNodeToScopeMap (AList.mem_lookup_iff.mpr hfunction)
    exact ⟨scope, (List.mem_filter.mp hmem).1⟩
  · cases h

theorem stampProvenance_spec {hash : StableHash π} {factEpoch : Nat}
    {l : List (ScopeId × Scope)} {store store' : ScopeProvenanceStore}
    (hnodup : (l.map fun p => p.1.index).Nodup)
    (h : g.stampProvenance hash factEpoch l store = some store') :
    (∀ id provenance, (id, provenance) ∈ store'.entries →
      (id, provenance) ∈ store.entries ∨ ∃ scope, (id, scope) ∈ l) ∧
    (∀ p ∈ l, ∃ provenance, (p.1, provenance) ∈ store'.entries) ∧
    (∀ id provenance, id.index ∉ l.map (fun p => p.1.index) →
      (id, provenance) ∈ store.entries → (id, provenance) ∈ store'.entries) ∧
    ∀ stable id, store'.scopeByStableId stable = some id →
      store.scopeByStableId stable = some id ∨ ∃ scope, (id, scope) ∈ l := by
  induction l generalizing store with
  | nil =>
    cases h
    refine ⟨fun _ _ hmem => .inl hmem, fun p hp => ?_, fun _ _ _ hmem => hmem,
      fun _ _ hlookup => .inl hlookup⟩
    cases hp
  | cons first l ih =>
    obtain ⟨firstId, firstScope⟩ := first
    simp only [GraphStores.stampProvenance] at h
    cases hprovenance : g.provenanceOf hash factEpoch firstScope with
    | none =>
      rw [hprovenance] at h
      cases h
    | some provenance₀ =>
      simp only [hprovenance] at h
      rw [List.map_cons, List.nodup_cons] at hnodup
      obtain ⟨hold, hnew, hframe, hstable⟩ := ih hnodup.2 h
      refine ⟨fun id provenance hmem => ?_, fun p hp => ?_, fun id provenance hnot hmem => ?_,
        fun stable id hlookup => ?_⟩
      · cases hold id provenance hmem with
        | inl hinsert =>
          cases ScopeProvenanceStore.mem_entries_insert.mp hinsert with
          | inl hfirst =>
            rw [hfirst.1]
            exact .inr ⟨firstScope, List.mem_cons_self⟩
          | inr hbefore => exact .inl hbefore.2
        | inr hlater =>
          obtain ⟨scope, hscope⟩ := hlater
          exact .inr ⟨scope, List.mem_cons_of_mem _ hscope⟩
      · cases List.mem_cons.mp hp with
        | inl heq =>
          rw [heq]
          exact ⟨provenance₀, hframe firstId provenance₀ hnodup.1
            (ScopeProvenanceStore.mem_entries_insert.mpr (.inl ⟨rfl, rfl⟩))⟩
        | inr hlater => exact hnew p hlater
      · rw [List.map_cons, List.mem_cons, not_or] at hnot
        exact hframe id provenance hnot.2
          (ScopeProvenanceStore.mem_entries_insert.mpr (.inr ⟨hnot.1, hmem⟩))
      · cases hstable stable id hlookup with
        | inl hinsert =>
          cases ScopeProvenanceStore.scopeByStableId_insert hinsert with
          | inl hfirst =>
            rw [hfirst]
            exact .inr ⟨firstScope, List.mem_cons_self⟩
          | inr hbefore => exact .inl hbefore
        | inr hlater =>
          obtain ⟨scope, hscope⟩ := hlater
          exact .inr ⟨scope, List.mem_cons_of_mem _ hscope⟩

end Handles

section Derived
variable {π μ δ : Type} [DecidableEq π]

/-- Every handle of a derived plane is invalid or live, and the live scopes are those with a
provenance record. -/
structure PlaneDerived (g : CodeGraph π μ δ) : Prop where
  scopes : DerivedScopes g.toGraphStores g.scopeArena
  aliases : ∀ entry ∈ g.aliasTable.entries, entry.scope = ScopeId.INVALID ∨
    (g.scopeArena.get entry.scope).isSome
  shadows : ∀ entry ∈ g.shadowTable.entries, (g.scopeArena.get entry.scope).isSome
  stable : ∀ stable id, g.scopeProvenanceStore.scopeByStableId stable = some id →
    (g.scopeArena.get id).isSome
  provenance : ∀ id, (g.scopeArena.get id).isSome ↔
    ∃ provenance, (id, provenance) ∈ g.scopeProvenanceStore.entries

theorem planeDerived_of_derive {hash : StableHash π} {steps : Nat} {g g₀ : CodeGraph π μ δ}
    {stats : BindingDerivationStats}
    (h : g.deriveBindingPlaneGeneric hash steps = some (g₀, stats)) : PlaneDerived g₀ := by
  simp only [CodeGraph.deriveBindingPlaneGeneric] at h
  cases hscopes : g.deriveScopes steps (buildBindingEdgeIndex g.edges) with
  | none =>
    rw [hscopes] at h
    cases h
  | some scopeArena =>
    simp only [hscopes] at h
    cases haliases : g.deriveAliases scopeArena (buildBindingEdgeIndex g.edges) with
    | none =>
      rw [haliases] at h
      cases h
    | some aliases =>
      simp only [haliases] at h
      cases hshadows : g.deriveShadows scopeArena (buildBindingEdgeIndex g.edges) with
      | none =>
        rw [hshadows] at h
        cases h
      | some shadowTable =>
        simp only [hshadows] at h
        cases hstamp : g.stampProvenance hash g.factEpoch scopeArena.iter
            (ScopeProvenanceStore.new.resizeTo scopeArena.slotCount) with
        | none =>
          rw [hstamp] at h
          cases h
        | some store =>
          simp only [hstamp] at h
          cases h
          have hderived := derivedScopes_of_derived hscopes
          have hlive : ∀ {id : ScopeId} {scope : Scope}, (id, scope) ∈ scopeArena.iter →
              (scopeArena.get id).isSome := by
            intro id scope hmem
            rw [ScopeArena.get_of_mem_iter hderived.length_le hmem]
            rfl
          obtain ⟨hold, hnew, _, hstable⟩ :=
            stampProvenance_spec scopeArena.nodup_iter hstamp
          refine ⟨hderived, fun entry hentry => ?_, fun entry hentry => ?_,
            fun stable id hlookup => ?_, fun id => ⟨fun hsome => ?_, fun hrecord => ?_⟩⟩
          · refine (scope_of_alias haliases entry hentry).imp_right fun hscope => ?_
            obtain ⟨scope, hmem⟩ := hscope
            exact hlive hmem
          · obtain ⟨scope, hmem⟩ := scope_of_shadow hshadows entry hentry
            exact hlive hmem
          · cases hstable stable id hlookup with
            | inl hempty => cases hempty
            | inr hscope =>
              obtain ⟨scope, hmem⟩ := hscope
              exact hlive hmem
          · obtain ⟨scope, hget⟩ := Option.isSome_iff_exists.mp hsome
            exact hnew (id, scope) (ScopeArena.mem_iter_of_get hget)
          · obtain ⟨provenance, hmem⟩ := hrecord
            cases hold id provenance hmem with
            | inl hempty =>
              rw [ScopeProvenanceStore.mem_entries_resizeTo] at hempty
              cases hempty
            | inr hscope =>
              obtain ⟨scope, hscope⟩ := hscope
              exact hlive hscope

theorem stores_derived {hash : StableHash π} {steps : Nat} {g g₀ : CodeGraph π μ δ}
    {stats : BindingDerivationStats}
    (h : g.deriveBindingPlaneGeneric hash steps = some (g₀, stats)) :
    g₀.toGraphStores = g.toGraphStores := by
  simp only [CodeGraph.deriveBindingPlaneGeneric] at h
  split at h
  · cases h
  · split at h
    · cases h
    · split at h
      · cases h
      · split at h
        · cases h
        · cases h
          rfl

end Derived

end Sqry
