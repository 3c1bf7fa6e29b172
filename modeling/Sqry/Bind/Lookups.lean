import Sqry.Bind.Plane
import Sqry.Lib.RangeIndex

/-!
The lookups in the tables of aliases and shadows against a scan of all entries. A lookup goes to the
range of its key, and an alias is found there by a binary search that does not look at wildcards.
-/

namespace Sqry

open RangeIndex (IsBinarySearch)

namespace AliasTable

def byScope (t : AliasTable) : AList fun _ : ScopeId => Nat × Nat :=
  RangeIndex.build AliasEntry.scope t.entries

def aliasesIn (t : AliasTable) (scope : ScopeId) : List AliasEntry :=
  RangeIndex.slice t.entries t.byScope scope

/-- `search` is `binary_search_by`, as a position where it succeeds. -/
def resolveAlias (search : List AliasEntry → (AliasEntry → Ordering) → Option Nat)
    (t : AliasTable) (scope : ScopeId) (symbol : StringId) : Option StringId :=
  let slice := t.aliasesIn scope
  let found := (search slice fun entry => compare entry.fromSymbol.index symbol.index).bind
    fun index => slice[index]?
  (found.filter fun entry => !entry.isWildcard).map AliasEntry.toSymbol

def serialize (t : AliasTable) : List AliasEntry := t.entries

def deserialize (entries : List AliasEntry) : AliasTable := ⟨entries⟩

inductive Reachable : AliasTable → Prop
  | new : Reachable new
  | derive {π : Type} [DecidableEq π] (g : GraphStores π) (scopes : ScopeArena)
      (index : BindingEdgeIndex) {t : AliasTable} {invalid : Nat}
      (h : g.deriveAliases scopes index = some (t, invalid)) : Reachable t
  | roundTrip {t : AliasTable} (h : Reachable t) : Reachable (deserialize t.serialize)
  | retainByNode {t : AliasTable} (h : Reachable t) (keep : NodeId → Bool) :
      Reachable (t.retainByNode keep)
  | rewrite {t : AliasTable} (h : Reachable t) (remap : StringRemap) :
      Reachable (t.rewriteStringIdsThroughRemap remap)

def ScanExact (search : List AliasEntry → (AliasEntry → Ordering) → Option Nat)
    (t : AliasTable) : Prop :=
  (∀ scope symbol,
    ((t.resolveAlias search scope symbol).isSome ↔ ∃ entry ∈ t.entries,
      entry.scope = scope ∧ entry.fromSymbol = symbol ∧ entry.isWildcard = false) ∧
    ∀ target, t.resolveAlias search scope symbol = some target → ∃ entry ∈ t.entries,
      entry.scope = scope ∧ entry.fromSymbol = symbol ∧ entry.isWildcard = false ∧
        entry.toSymbol = target) ∧
  (∀ scope, t.aliasesIn scope = t.entries.filter fun entry => decide (entry.scope = scope)) ∧
  ∀ (position : Nat) (entry : AliasEntry), t.entries[position]? = some entry → entry.id = position

end AliasTable

namespace ShadowEntry

def chain (entry : ShadowEntry) : ScopeId × StringId := (entry.scope, entry.symbol)

end ShadowEntry

namespace ShadowTable

def chains (t : ShadowTable) : AList fun _ : ScopeId × StringId => Nat × Nat :=
  RangeIndex.build ShadowEntry.chain t.entries

def effectiveBinding (t : ShadowTable) (scope : ScopeId) (symbol : StringId)
    (queryByteOffset : Nat) : Option NodeId :=
  ((RangeIndex.slice t.entries t.chains (scope, symbol)).reverse.find?
    fun entry => decide (entry.byteOffset < queryByteOffset)).map ShadowEntry.node

def serialize (t : ShadowTable) : List ShadowEntry := t.entries

def deserialize (entries : List ShadowEntry) : ShadowTable := ⟨entries⟩

inductive Reachable : ShadowTable → Prop
  | new : Reachable new
  | derive {π : Type} [DecidableEq π] (g : GraphStores π) (scopes : ScopeArena)
      (index : BindingEdgeIndex) {t : ShadowTable} (h : g.deriveShadows scopes index = some t) :
      Reachable t
  | roundTrip {t : ShadowTable} (h : Reachable t) : Reachable (deserialize t.serialize)
  | retainByNode {t : ShadowTable} (h : Reachable t) (keep : NodeId → Bool) :
      Reachable (t.retainByNode keep)
  | rewrite {t : ShadowTable} (h : Reachable t) (remap : StringRemap) :
      Reachable (t.rewriteStringIdsThroughRemap remap)

def Before (t : ShadowTable) (scope : ScopeId) (symbol : StringId) (offset : Nat)
    (entry : ShadowEntry) : Prop :=
  entry ∈ t.entries ∧ entry.scope = scope ∧ entry.symbol = symbol ∧ entry.byteOffset < offset

def ScanExact (t : ShadowTable) : Prop :=
  (∀ scope symbol offset,
    (∀ node, t.effectiveBinding scope symbol offset = some node →
      ∃ entry, t.Before scope symbol offset entry ∧ entry.node = node ∧
        ∀ other, t.Before scope symbol offset other → other.byteOffset ≤ entry.byteOffset) ∧
    (t.effectiveBinding scope symbol offset = none ↔
      ∀ entry, ¬ t.Before scope symbol offset entry)) ∧
  ∀ (position : Nat) (entry : ShadowEntry), t.entries[position]? = some entry → entry.id = position

end ShadowTable

instance : Std.TransCmp compareScopeIds :=
  inferInstanceAs (Std.TransCmp
    (compareLex (compareOn ScopeId.index) (compareOn ScopeId.generation)))

theorem eq_of_compareScopeIds {a b : ScopeId} (h : compareScopeIds a b = .eq) : a = b := by
  rw [compareScopeIds, Ordering.then_eq_eq] at h
  cases a
  cases b
  simp only [Nat.compare_eq_eq] at h
  rw [h.1, h.2]

def compareChains (a b : ScopeId × StringId) : Ordering :=
  (compareScopeIds a.1 b.1).then (compare a.2.index b.2.index)

instance : Std.TransCmp compareChains :=
  inferInstanceAs (Std.TransCmp (compareLex
    (compareLex (compareOn fun a : ScopeId × StringId => a.1.index)
      (compareOn fun a : ScopeId × StringId => a.1.generation))
    (compareOn fun a : ScopeId × StringId => a.2.index)))

theorem stringId_ext {a b : StringId} (h : a.index = b.index) : a = b := by
  cases a
  cases b
  cases h
  rfl

theorem eq_of_compareChains {a b : ScopeId × StringId} (h : compareChains a b = .eq) : a = b := by
  obtain ⟨hscope, hsymbol⟩ := Ordering.then_eq_eq.mp h
  exact Prod.ext (eq_of_compareScopeIds hscope) (stringId_ext (Nat.compare_eq_eq.mp hsymbol))

namespace EntryShape
variable {α : Type} {shape : EntryShape α} {position : α → Nat}

def Indexed (shape : EntryShape α) (position : α → Nat) (entries : List α) : Prop :=
  (entries.Pairwise fun a b => (shape.order a b).isLE = true) ∧
    ∀ (index : Nat) (entry : α), entries[index]? = some entry → position entry = index

section Operations
variable (hposition : ∀ index entry, position (shape.setId index entry) = index)
  (horder : ∀ i j a b, shape.order (shape.setId i a) (shape.setId j b) = shape.order a b)

include hposition horder

theorem indexed_renumber {entries : List α}
    (h : entries.Pairwise fun a b => (shape.order a b).isLE = true) :
    Indexed shape position (shape.renumber entries) := by
  refine ⟨?_, fun index entry hentry => ?_⟩
  · rw [List.pairwise_iff_getElem] at h ⊢
    intro i j hi hj hij
    simp only [renumber, List.length_mapIdx] at hi hj
    simp only [renumber, List.getElem_mapIdx, horder]
    exact h i j hi hj hij
  · rw [renumber, List.getElem?_mapIdx] at hentry
    obtain ⟨old, -, heq⟩ := Option.map_eq_some_iff.mp hentry
    rw [← heq, hposition]

theorem indexed_retainByNode {entries : List α} (h : Indexed shape position entries)
    (keep : NodeId → Bool) : Indexed shape position (shape.retainByNode entries keep) :=
  indexed_renumber hposition horder (h.1.sublist List.filter_sublist)

theorem indexed_rewrite [Std.TransCmp shape.order] {entries : List α}
    (h : Indexed shape position entries) (remap : StringRemap) :
    Indexed shape position (shape.rewriteStringIdsThroughRemap entries remap) := by
  rw [rewriteStringIdsThroughRemap]
  split
  · exact h
  · split
    · exact indexed_renumber hposition horder (SortedGroups.sorted_sortBy _)
    · exact h

end Operations

end EntryShape

instance : Std.TransCmp AliasEntry.shape.order :=
  inferInstanceAs (Std.TransCmp (compareLex
    (compareLex (compareOn fun a : AliasEntry => a.scope.index)
      (compareOn fun a : AliasEntry => a.scope.generation))
    (compareOn fun a : AliasEntry => a.fromSymbol.index)))

instance : Std.TransCmp ShadowEntry.shape.order :=
  inferInstanceAs (Std.TransCmp (compareLex
    (compareLex
      (compareLex (compareOn fun a : ShadowEntry => a.scope.index)
        (compareOn fun a : ShadowEntry => a.scope.generation))
      (compareOn fun a : ShadowEntry => a.symbol.index))
    (compareOn fun a : ShadowEntry => a.byteOffset)))

theorem AliasTable.Reachable.indexed {t : AliasTable} (h : t.Reachable) :
    AliasEntry.shape.Indexed AliasEntry.id t.entries := by
  have hposition : ∀ index entry, (AliasEntry.shape.setId index entry).id = index :=
    fun _ _ => rfl
  have horder : ∀ i j a b, AliasEntry.shape.order (AliasEntry.shape.setId i a)
      (AliasEntry.shape.setId j b) = AliasEntry.shape.order a b := fun _ _ _ _ => rfl
  induction h with
  | new => exact ⟨List.Pairwise.nil, fun index entry hentry => by cases hentry⟩
  | derive g scopes index h =>
    rw [GraphStores.deriveAliases] at h
    split at h
    · cases h
      exact EntryShape.indexed_renumber hposition horder (SortedGroups.sorted_sortBy _)
    · cases h
  | roundTrip _ ih => exact ih
  | retainByNode _ keep ih => exact EntryShape.indexed_retainByNode hposition horder ih keep
  | rewrite _ remap ih => exact EntryShape.indexed_rewrite hposition horder ih remap

theorem ShadowTable.Reachable.indexed {t : ShadowTable} (h : t.Reachable) :
    ShadowEntry.shape.Indexed ShadowEntry.id t.entries := by
  have hposition : ∀ index entry, (ShadowEntry.shape.setId index entry).id = index :=
    fun _ _ => rfl
  have horder : ∀ i j a b, ShadowEntry.shape.order (ShadowEntry.shape.setId i a)
      (ShadowEntry.shape.setId j b) = ShadowEntry.shape.order a b := fun _ _ _ _ => rfl
  induction h with
  | new => exact ⟨List.Pairwise.nil, fun index entry hentry => by cases hentry⟩
  | derive g scopes index h =>
    rw [GraphStores.deriveShadows] at h
    split at h
    · cases h
      exact EntryShape.indexed_renumber hposition horder (SortedGroups.sorted_sortBy _)
    · cases h
  | roundTrip _ ih => exact ih
  | retainByNode _ keep ih => exact EntryShape.indexed_retainByNode hposition horder ih keep
  | rewrite _ remap ih => exact EntryShape.indexed_rewrite hposition horder ih remap

namespace AliasTable
variable {t : AliasTable}

theorem aliasesIn_eq (h : AliasEntry.shape.Indexed AliasEntry.id t.entries) (scope : ScopeId) :
    t.aliasesIn scope = t.entries.filter fun entry => decide (entry.scope = scope) := by
  have hanti : ∀ k k' : ScopeId, (compareScopeIds k k').isLE = true →
      (compareScopeIds k' k).isLE = true → k = k' := fun k k' hle hge =>
    eq_of_compareScopeIds (Std.OrientedCmp.isLE_antisymm hle hge)
  refine RangeIndex.slice_build hanti (h.1.imp fun {a b} hle => ?_) scope
  exact Ordering.isLE_left_of_isLE_then hle

theorem mem_aliasesIn (h : AliasEntry.shape.Indexed AliasEntry.id t.entries) {scope : ScopeId}
    {entry : AliasEntry} :
    entry ∈ t.aliasesIn scope ↔ entry ∈ t.entries ∧ entry.scope = scope := by
  rw [aliasesIn_eq h, List.mem_filter, decide_eq_true_iff]

theorem ascending_aliasesIn (h : AliasEntry.shape.Indexed AliasEntry.id t.entries)
    (scope : ScopeId) (symbol : StringId) :
    RangeIndex.Ascending (fun entry => compare entry.fromSymbol.index symbol.index)
      (t.aliasesIn scope) := by
  have hsorted := h.1.sublist
    (List.filter_sublist (p := fun entry : AliasEntry => decide (entry.scope = scope)))
  rw [← aliasesIn_eq h] at hsorted
  refine hsorted.imp_of_mem fun {a b} ha hb hle => ?_
  have hscopes : compareScopeIds a.scope b.scope = .eq := by
    rw [((mem_aliasesIn h).mp ha).2, ((mem_aliasesIn h).mp hb).2]
    exact Std.ReflCmp.compare_self
  have hsymbols : a.fromSymbol.index ≤ b.fromSymbol.index := by
    have hthen : ((compareScopeIds a.scope b.scope).then
        (compare a.fromSymbol.index b.fromSymbol.index)).isLE = true := hle
    rw [hscopes] at hthen
    exact Nat.isLE_compare.mp hthen
  rw [Nat.compare_eq_gt, Nat.compare_eq_gt, Nat.compare_eq_lt, Nat.compare_eq_lt]
  omega

theorem resolveAlias_cases (h : AliasEntry.shape.Indexed AliasEntry.id t.entries)
    {search : List AliasEntry → (AliasEntry → Ordering) → Option Nat}
    (hsearch : IsBinarySearch search) (scope : ScopeId) (symbol : StringId) :
    (∃ entry ∈ t.entries, entry.scope = scope ∧ entry.fromSymbol = symbol ∧
      t.resolveAlias search scope symbol =
        if entry.isWildcard then none else some entry.toSymbol) ∨
    ((∀ entry ∈ t.entries, entry.scope = scope → entry.fromSymbol ≠ symbol) ∧
      t.resolveAlias search scope symbol = none) := by
  have hascending := ascending_aliasesIn h scope symbol
  rw [resolveAlias]
  cases hfound : search (t.aliasesIn scope) fun entry =>
      compare entry.fromSymbol.index symbol.index with
  | none =>
    refine Or.inr ⟨fun entry hentry hscope heq => ?_, by simp⟩
    refine hsearch.missed _ _ hascending hfound entry ((mem_aliasesIn h).mpr ⟨hentry, hscope⟩) ?_
    rw [heq]
    exact Nat.compare_eq_eq.mpr rfl
  | some index =>
    obtain ⟨entry, hentry, hprobe⟩ := hsearch.found _ _ index hascending hfound
    obtain ⟨hmem, hscope⟩ := (mem_aliasesIn h).mp (List.mem_of_getElem? hentry)
    refine Or.inl ⟨entry, hmem, hscope, stringId_ext (Nat.compare_eq_eq.mp hprobe), ?_⟩
    simp only [Option.bind_some, hentry]
    cases hwildcard : entry.isWildcard <;> simp [Option.filter, hwildcard]

end AliasTable

namespace ShadowTable
variable {t : ShadowTable}

theorem slice_chains (h : ShadowEntry.shape.Indexed ShadowEntry.id t.entries) (scope : ScopeId)
    (symbol : StringId) :
    (∀ entry, entry ∈ RangeIndex.slice t.entries t.chains (scope, symbol) ↔
      entry ∈ t.entries ∧ entry.scope = scope ∧ entry.symbol = symbol) ∧
    (RangeIndex.slice t.entries t.chains (scope, symbol)).Pairwise
      fun a b => a.byteOffset ≤ b.byteOffset := by
  have hanti : ∀ k k' : ScopeId × StringId, (compareChains k k').isLE = true →
      (compareChains k' k).isLE = true → k = k' := fun k k' hle hge =>
    eq_of_compareChains (Std.OrientedCmp.isLE_antisymm hle hge)
  have hslice : RangeIndex.slice t.entries t.chains (scope, symbol) =
      t.entries.filter fun entry => decide (entry.chain = (scope, symbol)) := by
    refine RangeIndex.slice_build hanti (h.1.imp fun {a b} hle => ?_) (scope, symbol)
    exact Ordering.isLE_left_of_isLE_then hle
  have hmem : ∀ entry, entry ∈ RangeIndex.slice t.entries t.chains (scope, symbol) ↔
      entry ∈ t.entries ∧ entry.chain = (scope, symbol) := by
    intro entry
    rw [hslice, List.mem_filter, decide_eq_true_iff]
  refine ⟨fun entry => ?_, ?_⟩
  · rw [hmem, ShadowEntry.chain, Prod.mk.injEq]
  · have hsorted := h.1.sublist
      (List.filter_sublist (p := fun entry : ShadowEntry => decide (entry.chain = (scope, symbol))))
    rw [← hslice] at hsorted
    refine hsorted.imp_of_mem fun {a b} ha hb hle => ?_
    have hchains : compareChains a.chain b.chain = .eq := by
      rw [((hmem a).mp ha).2, ((hmem b).mp hb).2]
      exact Std.ReflCmp.compare_self
    have hthen : ((compareChains a.chain b.chain).then
        (compare a.byteOffset b.byteOffset)).isLE = true := hle
    rw [hchains] at hthen
    exact Nat.isLE_compare.mp hthen

theorem scanExact (h : ShadowEntry.shape.Indexed ShadowEntry.id t.entries) : t.ScanExact := by
  refine ⟨fun scope symbol offset => ?_, h.2⟩
  obtain ⟨hmem, hsorted⟩ := slice_chains h scope symbol
  have hbefore : ∀ entry, t.Before scope symbol offset entry ↔
      entry ∈ RangeIndex.slice t.entries t.chains (scope, symbol) ∧
        decide (entry.byteOffset < offset) = true := by
    intro entry
    rw [hmem, Before, decide_eq_true_iff, and_assoc, and_assoc]
  refine ⟨fun node hnode => ?_, ?_⟩
  · obtain ⟨entry, hentry, heq⟩ := Option.map_eq_some_iff.mp hnode
    obtain ⟨hin, hoffset, hgreatest⟩ := RangeIndex.find?_reverse_spec hsorted hentry
    refine ⟨entry, (hbefore entry).mpr ⟨hin, hoffset⟩, heq, fun other hother => ?_⟩
    obtain ⟨hotherIn, hotherOffset⟩ := (hbefore other).mp hother
    exact hgreatest other hotherIn hotherOffset
  · rw [effectiveBinding, Option.map_eq_none_iff, List.find?_eq_none]
    refine forall_congr' fun entry => ?_
    rw [hbefore, List.mem_reverse]
    exact not_and.symm

end ShadowTable

/-- The lookups equal a scan, except that a search can land on a wildcard where the same symbol is
also imported by name. -/
theorem lookups_scan_exact_iff {t : AliasTable} {s : ShadowTable} (ht : t.Reachable)
    (hs : s.Reachable) :
    ((∀ search, IsBinarySearch search → t.ScanExact search) ∧ s.ScanExact) ↔
      ∀ a ∈ t.entries, ∀ b ∈ t.entries, a.scope = b.scope → a.fromSymbol = b.fromSymbol →
        a.isWildcard = b.isWildcard := by
  have hindexed := ht.indexed
  constructor
  · intro h a ha b hb hscope hsymbol
    have hone : ∀ c ∈ t.entries, ∀ d ∈ t.entries, c.scope = d.scope →
        c.fromSymbol = d.fromSymbol → c.isWildcard = true → d.isWildcard = false → False := by
      intro c hc d hd hscope hsymbol hcw hdw
      -- The search that lands on the wildcard keeps its promise as well.
      have hsearch := RangeIndex.isBinarySearch_preferring AliasEntry.isWildcard
      have hprobe : compare c.fromSymbol.index d.fromSymbol.index = .eq :=
        Nat.compare_eq_eq.mpr (by rw [hsymbol])
      obtain ⟨i, e, hfound, he, hew⟩ := @RangeIndex.preferring_spec _ AliasEntry.isWildcard _
        (fun entry => compare entry.fromSymbol.index d.fromSymbol.index) c
        ((AliasTable.mem_aliasesIn hindexed).mpr ⟨hc, hscope⟩) hprobe hcw
      have hnone : t.resolveAlias (RangeIndex.preferring AliasEntry.isWildcard) d.scope
          d.fromSymbol = none := by
        simp [AliasTable.resolveAlias, hfound, he, Option.filter, hew]
      have hsome := (((h.1 _ hsearch).1 d.scope d.fromSymbol).1).mpr ⟨d, hd, rfl, rfl, hdw⟩
      rw [hnone] at hsome
      cases hsome
    cases haw : a.isWildcard with
    | true =>
      cases hbw : b.isWildcard with
      | true => rfl
      | false => exact (hone a ha b hb hscope hsymbol haw hbw).elim
    | false =>
      cases hbw : b.isWildcard with
      | true => exact (hone b hb a ha hscope.symm hsymbol.symm hbw haw).elim
      | false => rfl
  · intro h
    refine ⟨fun search hsearch => ⟨fun scope symbol => ?_, AliasTable.aliasesIn_eq hindexed,
      hindexed.2⟩, ShadowTable.scanExact hs.indexed⟩
    cases AliasTable.resolveAlias_cases hindexed hsearch scope symbol with
    | inl hfound =>
      obtain ⟨entry, hentry, hscope, hsymbol, hresolve⟩ := hfound
      rw [hresolve]
      cases hwildcard : entry.isWildcard with
      | true =>
        refine ⟨⟨fun hsome => absurd hsome Bool.false_ne_true, fun hany => ?_⟩,
          fun target htarget => (Option.some_ne_none target htarget.symm).elim⟩
        obtain ⟨other, hother, hos, hoy, how⟩ := hany
        have hsame := h entry hentry other hother (hscope.trans hos.symm)
          (hsymbol.trans hoy.symm)
        rw [hwildcard, how] at hsame
        cases hsame
      | false =>
        refine ⟨⟨fun _ => ⟨entry, hentry, hscope, hsymbol, hwildcard⟩, fun _ => rfl⟩,
          fun target htarget => ?_⟩
        exact ⟨entry, hentry, hscope, hsymbol, hwildcard, Option.some.inj htarget⟩
    | inr hmissed =>
      obtain ⟨hnot, hresolve⟩ := hmissed
      rw [hresolve]
      refine ⟨⟨fun hsome => absurd hsome Bool.false_ne_true, fun hany => ?_⟩,
        fun target htarget => (Option.some_ne_none target htarget.symm).elim⟩
      obtain ⟨entry, hentry, hscope, hsymbol, -⟩ := hany
      exact absurd hsymbol (hnot entry hentry hscope)

section Instances

def importedTwice : GraphStores Unit where
  nodes := ⟨[⟨1, .occupied (FullNodeEntry.new .import (.ofUInt8 1) 1)⟩], none, 1⟩
  edges := BidirectionalEdgeStore.new
  files := Registry.FileRegistry.new
  indices :=
    { AuxiliaryIndices.new with kindIndex := Buckets.push ∅ NodeKind.import ⟨0, 1⟩ }

def importEdges : BindingEdgeIndex :=
  { buildBindingEdgeIndex BidirectionalEdgeStore.new with
    importsByTarget := Buckets.gather
      [(⟨0, 1⟩, ⟨7, 1⟩, .imports none false), (⟨0, 1⟩, ⟨7, 1⟩, .imports none true)] }

def mixedAliases : AliasTable :=
  ⟨[⟨0, ScopeId.INVALID, .ofUInt8 1, .ofUInt8 1, ⟨0, 1⟩, false⟩,
    ⟨1, ScopeId.INVALID, .ofUInt8 1, .ofUInt8 1, ⟨0, 1⟩, true⟩]⟩

theorem reachable_mixedAliases : mixedAliases.Reachable :=
  .derive importedTwice ScopeArena.new importEdges (show _ = some (mixedAliases, 2) by decide)

/-- The search lands on the wildcard behind the named import. -/
theorem wildcard_hides_alias : ¬ ∀ search, IsBinarySearch search →
    ∀ t : AliasTable, t.Reachable → t.ScanExact search := by
  intro h
  have hexact := h _ RangeIndex.isBinarySearch_rightmost _ reachable_mixedAliases
  have hsome := ((hexact.1 ScopeId.INVALID (.ofUInt8 1)).1).mpr
    ⟨⟨0, ScopeId.INVALID, .ofUInt8 1, .ofUInt8 1, ⟨0, 1⟩, false⟩, List.mem_cons_self, rfl, rfl, rfl⟩
  revert hsome
  decide

theorem lookups_scan_exact_iff_mixed :
    ((∀ search, IsBinarySearch search → mixedAliases.ScanExact search) ∧
        ShadowTable.new.ScanExact) ↔
      ∀ a ∈ mixedAliases.entries, ∀ b ∈ mixedAliases.entries, a.scope = b.scope →
        a.fromSymbol = b.fromSymbol → a.isWildcard = b.isWildcard :=
  lookups_scan_exact_iff reachable_mixedAliases .new

end Instances

end Sqry
