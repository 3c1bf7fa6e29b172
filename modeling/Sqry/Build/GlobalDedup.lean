import Sqry.Rebuild.StringTexts

/-!
The deduplication of the interned strings after all files were committed. The nodes and the
pending edges are rewritten to the slots that are kept. The hints of the Go plugin, which a
later pass reads, are not.
-/

namespace Sqry

open AuxiliaryIndices (canonicalName)

section State

structure PendingEdge where
  source : NodeId
  target : NodeId
  kind : EdgeKind
  file : FileId
  spans : List Span

inductive Receiver where
  | value
  | pointer
  deriving DecidableEq, Repr

inductive GoReceiverHintKind where
  | typePrefixed (typeText : String)
  | pointerPrefixed (typeText : String)
  | localIdent (bindingLocal : NodeId)
  | callReturn (calleeQn : String)

structure GoEmbeddingHint where
  outer : NodeId
  innerQualifiedName : StringId
  pointerness : Receiver
  file : FileId

structure GoNamedTypeConversionHint where
  callSite : NodeId
  targetTypeQualifiedName : StringId
  argumentNode : NodeId
  file : FileId

structure GoReceiverCallHint where
  callSite : NodeId
  calleeMethod : NodeId
  methodName : StringId
  receiver : GoReceiverHintKind
  argumentCount : Nat
  isAsync : Bool
  file : FileId

structure GoMethodReceiverHint where
  methodNode : NodeId
  receiverTypeQualifiedName : StringId
  receiverPointerness : Receiver
  file : FileId

structure GoMethodSignatureHint where
  methodNode : NodeId
  canonicalSignature : String
  file : FileId

structure GoFunctionSignatureHint where
  functionNode : NodeId
  canonicalSignature : String
  file : FileId

structure GoHints where
  embeddings : List GoEmbeddingHint
  namedTypeConversions : List GoNamedTypeConversionHint
  receiverCalls : List GoReceiverCallHint
  methodReceivers : List GoMethodReceiverHint
  methodSignatures : List GoMethodSignatureHint
  functionSignatures : List GoFunctionSignatureHint

def GoHints.stringIds (hints : GoHints) : List StringId :=
  hints.embeddings.map GoEmbeddingHint.innerQualifiedName ++
    hints.namedTypeConversions.map GoNamedTypeConversionHint.targetTypeQualifiedName ++
    hints.receiverCalls.map GoReceiverCallHint.methodName ++
    hints.methodReceivers.map GoMethodReceiverHint.receiverTypeQualifiedName

structure BuildState where
  strings : StringInterner
  nodes : NodeArena FullNodeEntry
  allEdges : List (List PendingEdge)
  goHints : GoHints

def remapPendingEdge (remap : StringRemap) (edge : PendingEdge) : PendingEdge :=
  { edge with kind := edge.kind.remapEdgeKindStringIds remap }

def phase4ApplyGlobalRemap (arena : NodeArena FullNodeEntry) (allEdges : List (List PendingEdge))
    (remap : StringRemap) : NodeArena FullNodeEntry × List (List PendingEdge) :=
  if remap.entries.isEmpty then (arena, allEdges)
  else
    (arena.mapEntries (AuxiliaryIndices.remapEntry remap),
      allEdges.map fun fileEdges => fileEdges.map (remapPendingEdge remap))

namespace BuildState

/-- Phases 4a and 4b. `none` stands for a panic. -/
def dedupStrings (b : BuildState) : Option BuildState :=
  match b.strings.buildDedupTable with
  | none => none
  | some (strings, table) =>
    let (nodes, allEdges) := phase4ApplyGlobalRemap b.nodes b.allEdges (stringRemap table)
    some { b with strings := strings, nodes := nodes, allEdges := allEdges }

def rewrittenIds (b : BuildState) : List StringId :=
  b.nodes.stringIds ++ b.allEdges.flatten.flatMap fun edge => edge.kind.stringIds

def carriedIds (b : BuildState) : List StringId := b.rewrittenIds ++ b.goHints.stringIds

def texts (b : BuildState) (ids : List StringId) : List (Option String) :=
  ids.map fun id => b.strings.resolve id.index

/-- Field by field the same text, and no field names a slot that was freed. -/
structure KeepsMeaning (before after : BuildState) : Prop where
  texts_eq : after.texts after.carriedIds = before.texts before.carriedIds
  notFreed : ∀ id ∈ after.carriedIds,
    ¬ (id.index ∈ after.strings.freeList ∧ id.index ∉ before.strings.freeList)

end BuildState

end State

section Table
variable {x : StringInterner}

open StringInterner (First exists_first dedupAt dedupFrom Deduplicated)

theorem freeList_dedupAt {d e : StringInterner.DedupState} {idx : Nat}
    (h : ∀ i, i ∈ d.interner.freeList ↔ i ∈ x.freeList ∨ i ∈ d.remap)
    (heq : dedupAt d idx = some e) (i : Nat) :
    i ∈ e.interner.freeList ↔ i ∈ x.freeList ∨ i ∈ e.remap := by
  rw [dedupAt] at heq
  split at heq
  · split at heq
    · split at heq
      · split at heq
        · cases heq
        · cases heq
          rw [List.mem_cons, AList.mem_insert, h]
          tauto
      · cases heq
    · split at heq
      · cases heq
      · cases heq
        exact h i
  · cases heq
    exact h i

theorem freeList_dedupFrom {indices : List Nat} {d e : StringInterner.DedupState}
    (h : ∀ i, i ∈ d.interner.freeList ↔ i ∈ x.freeList ∨ i ∈ d.remap)
    (heq : dedupFrom indices d = some e) (i : Nat) :
    i ∈ e.interner.freeList ↔ i ∈ x.freeList ∨ i ∈ e.remap := by
  induction indices generalizing d with
  | nil =>
    cases heq
    exact h i
  | cons idx rest ih =>
    rw [dedupFrom] at heq
    cases hnext : dedupAt d idx with
    | none =>
      rw [hnext] at heq
      cases heq
    | some d' =>
      rw [hnext] at heq
      exact ih (freeList_dedupAt h hnext) heq

/-- What the deduplication did to the interner, as the carriers of its identifiers see it. -/
structure Merged (x y : StringInterner) (remap : StringRemap) : Prop where
  length_le : x.strings.length ≤ u32Max
  remap_iff : ∀ id canon, remap.lookup id = some canon ↔ canon.index < id.index ∧
    ∃ s, x.strings[id.index]? = some (some s) ∧ First x s canon.index
  kept_iff : ∀ i s, y.resolve i = some s ↔ First x s i
  freed_iff : ∀ id : StringId, id.index ∈ y.freeList ↔ id.index ∈ x.freeList ∨ id ∈ remap

theorem exists_merged {bound : Nat} (h : x.Consistent bound) :
    ∃ y table, x.buildDedupTable = some (y, table) ∧ Merged x y (stringRemap table) := by
  obtain ⟨y, table, hdedup, hcons, _⟩ := StringInterner.buildDedupTable_spec h
  obtain ⟨d, hd, hyd⟩ := Option.map_eq_some_iff.mp hdedup
  have hspec := (Deduplicated.start h.sentinel).from hd
  have hlength : 1 + (x.strings.length - 1) = x.strings.length := by
    have hpos := (List.getElem?_eq_some_iff.mp h.sentinel).1
    omega
  rw [hlength] at hspec
  cases hyd
  have hle : x.strings.length ≤ u32Max := h.length_le.trans (by decide)
  have hlt : ∀ {i s}, x.strings[i]? = some (some s) → i < x.strings.length :=
    fun hs => (List.getElem?_eq_some_iff.mp hs).1
  have hkept : ∀ i s, d.interner.strings[i]? = some (some s) ↔ First x s i := by
    intro i s
    rw [hspec.strings_iff]
    constructor
    · intro hs
      exact hs.2 (hlt hs.1)
    · intro hs
      exact ⟨hs.holds, fun _ => hs⟩
  have hbound : ∀ i c, d.remap.lookup i = some c → i ≤ u32Max ∧ c ≤ u32Max := by
    intro i c hlookup
    obtain ⟨hi, hc, _⟩ := (hspec.remap_iff i c).mp hlookup
    omega
  refine ⟨_, d.remap, hdedup, hle, fun id canon => ?_, fun i s => ?_, fun id => ?_⟩
  · rw [lookup_stringRemap hbound, hspec.remap_iff]
    refine and_iff_right_of_imp fun hrest => ?_
    obtain ⟨_, s, hs, _⟩ := hrest
    exact hlt hs
  · rw [← hkept]
    refine StringInterner.resolve_eq_some ?_
    exact hcons.length_le.trans (by decide)
  · have hfree := @freeList_dedupFrom x _ ⟨x, ∅, ∅⟩ d (fun i => by simp [AList.notMem_empty]) hd
      id.index
    refine hfree.trans (or_congr_right ?_)
    rw [← AList.lookup_isSome, ← AList.lookup_isSome, Option.isSome_iff_exists,
      Option.isSome_iff_exists]
    constructor
    · intro hin
      obtain ⟨c, hc⟩ := hin
      exact ⟨⟨c, (hbound _ _ hc).2⟩, (lookup_stringRemap hbound id _).mpr hc⟩
    · intro hin
      obtain ⟨canon, hcanon⟩ := hin
      exact ⟨canon.index, (lookup_stringRemap hbound id canon).mp hcanon⟩

variable {y : StringInterner} {remap : StringRemap}

theorem Merged.mem_remap_iff (h : Merged x y remap) (id : StringId) :
    id ∈ remap ↔ ∃ s, x.strings[id.index]? = some (some s) ∧ ¬ First x s id.index := by
  rw [← AList.lookup_isSome, Option.isSome_iff_exists]
  constructor
  · intro hin
    obtain ⟨canon, hcanon⟩ := hin
    obtain ⟨hlt, s, hs, hfirst⟩ := (h.remap_iff id canon).mp hcanon
    exact ⟨s, hs, fun hown => absurd (hown.inj hfirst) (Nat.ne_of_gt hlt)⟩
  · intro hin
    obtain ⟨s, hs, hnot⟩ := hin
    obtain ⟨c, hc, hfirst⟩ := exists_first hs
    have hne : c ≠ id.index := fun heq => hnot (heq ▸ hfirst)
    exact ⟨⟨c, hc.trans id.index_le⟩,
      (h.remap_iff id _).mpr ⟨Nat.lt_of_le_of_ne hc hne, s, hs, hfirst⟩⟩

theorem Merged.canonical (h : Merged x y remap) (id : StringId) :
    canonicalName remap id ∉ remap ∧
      ∀ s, y.resolve (canonicalName remap id).index = some s ↔
        x.strings[id.index]? = some (some s) := by
  rw [canonicalName]
  cases hlookup : remap.lookup id with
  | none =>
    have hout : id ∉ remap := AList.lookup_eq_none.mp hlookup
    refine ⟨hout, fun s => ?_⟩
    rw [Option.getD_none, h.kept_iff]
    constructor
    · intro hs
      exact hs.holds
    · intro hs
      exact Classical.not_not.mp fun hnot => hout ((h.mem_remap_iff id).mpr ⟨s, hs, hnot⟩)
  | some canon =>
    obtain ⟨_, t, ht, hfirst⟩ := (h.remap_iff id canon).mp hlookup
    rw [Option.getD_some]
    constructor
    · intro hin
      obtain ⟨s, hs, hnot⟩ := (h.mem_remap_iff canon).mp hin
      exact hnot (hfirst.text_inj hs ▸ hfirst)
    · intro s
      rw [h.kept_iff, ht]
      constructor
      · intro hs
        rw [hs.text_inj hfirst.holds]
      · intro hs
        cases hs
        exact hfirst

theorem Merged.resolve_canonical (h : Merged x y remap) (id : StringId) :
    y.resolve (canonicalName remap id).index = x.resolve id.index := by
  refine Option.ext fun s => ?_
  rw [(h.canonical id).2, StringInterner.resolve_eq_some h.length_le]

theorem Merged.resolve_eq_iff (h : Merged x y remap) (id : StringId) :
    y.resolve id.index = x.resolve id.index ↔ id ∉ remap := by
  constructor
  · intro heq hin
    obtain ⟨s, hs, hnot⟩ := (h.mem_remap_iff id).mp hin
    rw [(StringInterner.resolve_eq_some h.length_le).mpr hs, h.kept_iff] at heq
    exact hnot heq
  · intro hout
    have hsame : canonicalName remap id = id := AuxiliaryIndices.canonicalName_of_notMem hout
    have hresolve := h.resolve_canonical id
    rwa [hsame] at hresolve

end Table

section Main
variable {b : BuildState} {x y : StringInterner} {remap : StringRemap}

theorem phase4_nodes (remap : StringRemap) (arena : NodeArena FullNodeEntry)
    (allEdges : List (List PendingEdge)) :
    (phase4ApplyGlobalRemap arena allEdges remap).1.stringIds =
      arena.stringIds.map (canonicalName remap) := by
  rw [phase4ApplyGlobalRemap]
  split
  · rename_i hempty
    rw [AuxiliaryIndices.canonicalName_of_isEmpty hempty, List.map_id]
  · exact arena.stringIds_mapEntries remap

theorem phase4_edges (remap : StringRemap) (arena : NodeArena FullNodeEntry)
    (allEdges : List (List PendingEdge)) :
    ((phase4ApplyGlobalRemap arena allEdges remap).2.flatten.flatMap fun edge =>
        edge.kind.stringIds) =
      (allEdges.flatten.flatMap fun edge => edge.kind.stringIds).map (canonicalName remap) := by
  rw [phase4ApplyGlobalRemap]
  split
  · rename_i hempty
    rw [AuxiliaryIndices.canonicalName_of_isEmpty hempty, List.map_id]
  · rw [← List.map_flatten, List.flatMap_map, List.map_flatMap]
    refine List.flatMap_congr fun edge _ => ?_
    exact EdgeKind.stringIds_mapStringIds (canonicalName remap) edge.kind

theorem dedupStrings_of_table {table : AList fun _ : Nat => Nat}
    (h : b.strings.buildDedupTable = some (y, table)) :
    ∃ after, b.dedupStrings = some after ∧ after.strings = y ∧
      after.rewrittenIds = b.rewrittenIds.map (canonicalName (stringRemap table)) ∧
      after.goHints = b.goHints := by
  have hafter : b.dedupStrings = some { b with
      strings := y
      nodes := (phase4ApplyGlobalRemap b.nodes b.allEdges (stringRemap table)).1
      allEdges := (phase4ApplyGlobalRemap b.nodes b.allEdges (stringRemap table)).2 } := by
    simp only [BuildState.dedupStrings, h]
  refine ⟨_, hafter, rfl, ?_, rfl⟩
  rw [BuildState.rewrittenIds, BuildState.rewrittenIds, List.map_append]
  exact congrArg₂ (· ++ ·) (phase4_nodes _ _ _) (phase4_edges _ _ _)

theorem Merged.keepsMeaning_iff {after : BuildState} (h : Merged b.strings y remap)
    (hstrings : after.strings = y)
    (hrewritten : after.rewrittenIds = b.rewrittenIds.map (canonicalName remap))
    (hhints : after.goHints = b.goHints) :
    b.KeepsMeaning after ↔ ∀ id ∈ b.goHints.stringIds, id ∉ remap := by
  have hsplit : after.texts after.carriedIds =
      b.texts b.rewrittenIds ++ after.texts b.goHints.stringIds := by
    rw [BuildState.carriedIds, hrewritten, hhints, BuildState.texts, List.map_append,
      List.map_map]
    refine congrArg₂ (· ++ ·) (List.map_congr_left fun id _ => ?_) rfl
    rw [Function.comp_apply, hstrings]
    exact h.resolve_canonical id
  constructor
  · intro hkeeps id hid
    have htexts := hkeeps.texts_eq
    rw [hsplit, BuildState.carriedIds, BuildState.texts, BuildState.texts, BuildState.texts,
      List.map_append, List.append_cancel_left_eq] at htexts
    have hsame := List.map_inj_left.mp htexts id hid
    rw [hstrings] at hsame
    exact (h.resolve_eq_iff id).mp hsame
  · intro hout
    refine ⟨?_, fun id hid hfreed => ?_⟩
    · rw [hsplit, BuildState.carriedIds, BuildState.texts, BuildState.texts, BuildState.texts,
        List.map_append, List.append_cancel_left_eq, hstrings]
      exact List.map_congr_left fun id hid => (h.resolve_eq_iff id).mpr (hout id hid)
    · rw [hstrings, h.freed_iff] at hfreed
      have hin : id ∈ remap := hfreed.1.resolve_left hfreed.2
      rw [BuildState.carriedIds, hrewritten, hhints] at hid
      cases List.mem_append.mp hid with
      | inl hrewritten =>
        obtain ⟨old, _, heq⟩ := List.mem_map.mp hrewritten
        exact (h.canonical old).1 (heq ▸ hin)
      | inr hhint => exact hout id hhint hin

/-- The deduplication succeeds. What the nodes, the pending edges and the hints carry keeps its
meaning exactly when every hint names the first slot that holds its text. -/
theorem dedupStrings_keepsMeaning_iff (ops : List InternerOp) (history : InternerHistory)
    (hfits : StepSystem.RunOk InternerHistory.step InternerHistory.Fits InternerHistory.start ops)
    (hrun : StepSystem.run InternerHistory.step InternerHistory.start ops = some history)
    (b : BuildState) (hstrings : b.strings = history.interner) :
    ∃ after, b.dedupStrings = some after ∧
      (b.KeepsMeaning after ↔ ∀ id ∈ b.goHints.stringIds, ∀ s,
        b.strings.resolve id.index = some s → b.strings.First s id.index) := by
  have hinv := StepSystem.invariant_of_runOk InternerHistory.invariant_step
    InternerHistory.invariant_start hfits hrun
  have hcons := hinv.consistent
  rw [← hstrings] at hcons
  obtain ⟨y, table, htable, hmerged⟩ := exists_merged hcons
  obtain ⟨after, hafter, hy, hrewritten, hhints⟩ := dedupStrings_of_table htable
  refine ⟨after, hafter, (hmerged.keepsMeaning_iff hy hrewritten hhints).trans ?_⟩
  refine forall₂_congr fun id _ => ?_
  rw [hmerged.mem_remap_iff, not_exists]
  refine forall_congr' fun s => ?_
  rw [StringInterner.resolve_eq_some hmerged.length_le, not_and, not_not]

end Main

section Example

def noGoHints : GoHints := ⟨[], [], [], [], [], []⟩

/-- One file declares a type and another one a method of it. Each has committed the name of the
type. -/
def twoFilesOneName : BuildState :=
  { strings :=
      ⟨[none, some "pkg.T", some "pkg.T", some "pkg.T.M"], ∅, [0, 1, 1, 1], [], none, true⟩
    nodes :=
      ⟨[⟨1, .occupied (FullNodeEntry.new .struct (.ofUInt8 1) 1)⟩,
        ⟨1, .occupied (FullNodeEntry.new .method (.ofUInt8 3) 2)⟩], none, 2⟩
    allEdges := [[], []]
    goHints := noGoHints }

def methodOfSecondFile : BuildState :=
  { twoFilesOneName with
    goHints := { noGoHints with methodReceivers := [⟨⟨1, 1⟩, .ofUInt8 2, .value, 2⟩] } }

theorem twoFilesOneName_run :
    StepSystem.RunOk InternerHistory.step InternerHistory.Fits InternerHistory.start
      [.allocRange 3, .bulkWrite 1 [(some "pkg.T", 1), (some "pkg.T", 1), (some "pkg.T.M", 1)]] ∧
    StepSystem.run InternerHistory.step InternerHistory.start
      [.allocRange 3, .bulkWrite 1 [(some "pkg.T", 1), (some "pkg.T", 1), (some "pkg.T.M", 1)]] =
        some ⟨twoFilesOneName.strings, some 1⟩ := by
  refine ⟨?_, rfl⟩
  refine StepSystem.runOk_cons_of_step ⟨trivial, fun _ h => by cases h⟩ rfl ?_
  exact StepSystem.runOk_cons_of_step
    ⟨fun _ => ⟨1, rfl, Nat.le_refl 1⟩, fun _ h => by cases h⟩ rfl trivial

theorem dedupStrings_keepsMeaning_twoFilesOneName :
    ∃ after, twoFilesOneName.dedupStrings = some after ∧
      (twoFilesOneName.KeepsMeaning after ↔ ∀ id ∈ twoFilesOneName.goHints.stringIds, ∀ s,
        twoFilesOneName.strings.resolve id.index = some s →
          twoFilesOneName.strings.First s id.index) :=
  dedupStrings_keepsMeaning_iff _ _ twoFilesOneName_run.1 twoFilesOneName_run.2 twoFilesOneName rfl

/-- The hint of the second file names a slot that is emptied. -/
theorem methodReceiver_lost : ¬ ∀ (ops : List InternerOp) (history : InternerHistory)
    (b : BuildState),
    StepSystem.RunOk InternerHistory.step InternerHistory.Fits InternerHistory.start ops →
      StepSystem.run InternerHistory.step InternerHistory.start ops = some history →
      b.strings = history.interner →
        ∃ after, b.dedupStrings = some after ∧ b.KeepsMeaning after := by
  intro h
  obtain ⟨after, hafter, hkeeps⟩ := h _ _ methodOfSecondFile twoFilesOneName_run.1
    twoFilesOneName_run.2 rfl
  have hlost : ∀ after, methodOfSecondFile.dedupStrings = some after →
      after.texts after.carriedIds = [some "pkg.T", some "pkg.T.M", none] := by
    intro after hsome
    cases hsome
    rfl
  have htexts := hkeeps.texts_eq
  rw [hlost after hafter] at htexts
  have hbefore : methodOfSecondFile.texts methodOfSecondFile.carriedIds =
      [some "pkg.T", some "pkg.T.M", some "pkg.T"] := rfl
  rw [hbefore] at htexts
  cases htexts

end Example

end Sqry
