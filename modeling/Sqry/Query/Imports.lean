import Sqry.Query.Relation

/-!
The predicate `imports:` in the two query engines. The evaluator probes a node: its own
name when it is an import, and the import edges read from it. The planner scans: import
nodes first, then all forward edges, with both ends looked up by slot. The evaluator looks
for the asked text inside a name; the planner compares names by segments.
-/

namespace Sqry
namespace GraphSnapshot
variable (s : GraphSnapshot)

section Evaluator

def importEdgeMatches (edge : StoreEdgeRef) (targetModule : String) : Bool :=
  match edge.kind with
  | .imports aliasName isWildcard =>
    let targetMatch :=
      match s.nodes.get edge.target with
      | none => false
      | some entry => s.importEntryMatches entry targetModule
    let aliasMatch :=
      match aliasName.bind s.resolve with
      | none => false
      | some aliasText =>
        match s.nodes.get edge.source with
        | none => false
        | some entry => s.importTextMatches entry.file aliasText targetModule
    let wildcardMatch := isWildcard && targetModule = "*"
    targetMatch || aliasMatch || wildcardMatch
  | _ => false

def matchImports (node : NodeId) (value : Value) : Bool :=
  match value with
  | .string targetModule =>
    match s.nodes.get node with
    | none => false
    | some entry =>
      if entry.kind = .import && s.importEntryMatches entry targetModule then true
      else (s.edges.edgesFrom node).any fun edge => s.importEdgeMatches edge targetModule
  | _ => false

end Evaluator

theorem exists_agree_iff {α : Type} (p q : α → Prop) :
    ((∃ a, p a) ↔ ∃ a, q a) ↔
      (∃ a, p a ∧ q a) ∨ ((∃ a, p a ∧ ¬ q a) ↔ ∃ a, q a ∧ ¬ p a) := by
  have hsplit : ∀ p q : α → Prop, (∃ a, p a) ↔ (∃ a, p a ∧ q a) ∨ ∃ a, p a ∧ ¬ q a := by
    intro p q
    constructor
    · intro ⟨a, ha⟩
      by_cases hq : q a
      · exact Or.inl ⟨a, ha, hq⟩
      · exact Or.inr ⟨a, ha, hq⟩
    · intro h
      cases h with
      | inl h => exact ⟨h.choose, h.choose_spec.1⟩
      | inr h => exact ⟨h.choose, h.choose_spec.1⟩
  have hboth : (∃ a, q a ∧ p a) ↔ ∃ a, p a ∧ q a := exists_congr fun a => and_comm
  rw [hsplit p q, hsplit q p, hboth]
  by_cases hshared : ∃ a, p a ∧ q a
  · simp only [hshared, true_or]
  · simp only [hshared, false_or]

/-- What can make a node import a module: the node itself, or an import edge. -/
inductive ImportEvidence where
  | own
  | edge (target : NodeId) (kind : EdgeKind)

/-- A name of the entry and a form of `asked` agree by segments. -/
def NamedBySegments (entry : NodeEntry) (asked : String) : Prop :=
  ∃ text ∈ s.entryQueryTexts entry, ∃ form ∈ s.askedForms entry.file asked,
    text = form ∨ LastSegments text.toList form.toList ∨ LastSegments form.toList text.toList

/-- A name of the entry has a form of `asked` inside. -/
def NamedBySubstring (entry : NodeEntry) (asked : String) : Prop :=
  ∃ text ∈ s.entryQueryTexts entry, ∃ form ∈ s.askedForms entry.file asked,
    form.toList <:+: text.toList

/-- The evidence the planner accepts. The target may be any node in the slot of the edge's
target. -/
def ScanAccepts (node : NodeId) (asked : String) : ImportEvidence → Prop
  | .own => ∃ entry, s.nodes.get node = some entry ∧ entry.kind = .import ∧
      s.NamedBySegments entry asked
  | .edge target kind =>
    (∃ edges, s.edges.forward.allLiveForwardEdges = some edges ∧
      ∃ e ∈ edges, e.source.index = node.index ∧ e.target = target ∧ e.kind = kind) ∧
    ∃ aliasName isWildcard, kind = .imports aliasName isWildcard ∧
    ∃ generation entry, s.nodes.get ⟨target.index, generation⟩ = some entry ∧
      (s.NamedBySegments entry asked ∨ (isWildcard = true ∧ asked = "*") ∨
        ∃ aliasText, aliasName.bind s.resolve = some aliasText ∧
          asked.toList <:+: aliasText.toList)

/-- The evidence the evaluator accepts. Alias and wildcard need no target; the alias is
read in the language of the edge's source, which must be live. -/
def ProbeAccepts (node : NodeId) (asked : String) : ImportEvidence → Prop
  | .own => ∃ entry, s.nodes.get node = some entry ∧ entry.kind = .import ∧
      s.NamedBySubstring entry asked
  | .edge target kind =>
    ∃ e ∈ s.edges.edgesFrom node, e.target = target ∧ e.kind = kind ∧
    ∃ aliasName isWildcard, kind = .imports aliasName isWildcard ∧
      ((∃ entry, s.nodes.get target = some entry ∧ s.NamedBySubstring entry asked) ∨
        (isWildcard = true ∧ asked = "*") ∨
        ∃ aliasText, aliasName.bind s.resolve = some aliasText ∧
          ∃ entry, s.nodes.get e.source = some entry ∧
            ∃ form ∈ s.askedForms entry.file asked, form.toList <:+: aliasText.toList)

variable {s}

section Evaluator

theorem importEntryMatches_iff {entry : NodeEntry} {asked : String} :
    s.importEntryMatches entry asked = true ↔ s.NamedBySubstring entry asked := by
  rw [importEntryMatches, List.any_eq_true]
  constructor
  · intro ⟨text, htext, hmatch⟩
    exact ⟨text, htext, importTextMatches_iff.mp hmatch⟩
  · intro ⟨text, htext, hmatch⟩
    exact ⟨text, htext, importTextMatches_iff.mpr hmatch⟩

theorem importEdgeMatches_iff {edge : StoreEdgeRef} {asked : String} :
    s.importEdgeMatches edge asked = true ↔
      ∃ aliasName isWildcard, edge.kind = .imports aliasName isWildcard ∧
        ((∃ entry, s.nodes.get edge.target = some entry ∧ s.NamedBySubstring entry asked) ∨
          (isWildcard = true ∧ asked = "*") ∨
          ∃ aliasText, aliasName.bind s.resolve = some aliasText ∧
            ∃ entry, s.nodes.get edge.source = some entry ∧
              ∃ form ∈ s.askedForms entry.file asked, form.toList <:+: aliasText.toList) := by
  rw [importEdgeMatches]
  cases hkind : edge.kind with
  | imports aliasName isWildcard =>
    have htarget : (match s.nodes.get edge.target with
        | none => false
        | some entry => s.importEntryMatches entry asked) = true ↔
        ∃ entry, s.nodes.get edge.target = some entry ∧ s.NamedBySubstring entry asked := by
      cases s.nodes.get edge.target with
      | none => simp
      | some entry => simp [importEntryMatches_iff]
    have halias : (match aliasName.bind s.resolve with
        | none => false
        | some aliasText =>
          match s.nodes.get edge.source with
          | none => false
          | some entry => s.importTextMatches entry.file aliasText asked) = true ↔
        ∃ aliasText, aliasName.bind s.resolve = some aliasText ∧
          ∃ entry, s.nodes.get edge.source = some entry ∧
            ∃ form ∈ s.askedForms entry.file asked, form.toList <:+: aliasText.toList := by
      cases aliasName.bind s.resolve with
      | none => simp
      | some aliasText =>
        cases s.nodes.get edge.source with
        | none => simp
        | some entry => simp [importTextMatches_iff]
    simp only [Bool.or_eq_true, htarget, halias, Bool.and_eq_true, decide_eq_true_eq]
    constructor
    · intro h
      refine ⟨aliasName, isWildcard, rfl, ?_⟩
      rw [or_assoc] at h
      exact h.imp_right Or.symm
    · intro ⟨aliasName', isWildcard', hsame, h⟩
      cases hsame
      rw [or_assoc]
      exact h.imp_right Or.symm
  | _ => simp

theorem matchImports_iff {node : NodeId} {entry : NodeEntry} {asked : String}
    (hlive : s.nodes.get node = some entry) :
    s.matchImports node (.string asked) = true ↔ ∃ evidence, s.ProbeAccepts node asked evidence := by
  have hown : (entry.kind = .import && s.importEntryMatches entry asked) = true ↔
      s.ProbeAccepts node asked .own := by
    rw [Bool.and_eq_true, decide_eq_true_eq, importEntryMatches_iff]
    constructor
    · intro h
      exact ⟨entry, hlive, h⟩
    · intro ⟨entry', hlive', h⟩
      rw [hlive] at hlive'
      cases hlive'
      exact h
  have hedges : ((s.edges.edgesFrom node).any fun edge => s.importEdgeMatches edge asked) = true ↔
      ∃ target kind, s.ProbeAccepts node asked (.edge target kind) := by
    rw [List.any_eq_true]
    constructor
    · intro ⟨e, he, hmatch⟩
      exact ⟨e.target, e.kind, e, he, rfl, rfl, importEdgeMatches_iff.mp hmatch⟩
    · intro ⟨target, kind, e, he, htarget, hkind, h⟩
      cases htarget
      cases hkind
      exact ⟨e, he, importEdgeMatches_iff.mpr h⟩
  rw [matchImports]
  simp only [hlive]
  constructor
  · intro h
    by_cases htake : (entry.kind = .import && s.importEntryMatches entry asked) = true
    · exact ⟨.own, hown.mp htake⟩
    · rw [if_neg htake] at h
      obtain ⟨target, kind, h⟩ := hedges.mp h
      exact ⟨.edge target kind, h⟩
  · intro ⟨evidence, h⟩
    by_cases htake : (entry.kind = .import && s.importEntryMatches entry asked) = true
    · rw [if_pos htake]
    · rw [if_neg htake]
      cases evidence with
      | own => exact absurd (hown.mpr h) htake
      | edge target kind => exact hedges.mpr ⟨target, kind, h⟩

end Evaluator

section Planner
variable {engines : PatternEngines}

theorem matchEndpointName_exact_iff {entry : NodeEntry} {asked : String} :
    s.matchEndpointName engines entry (.pattern (.ofExact asked)) = true ↔
      s.NamedBySegments entry asked := by
  have hany : ((s.entryQueryTexts entry).any fun candidate =>
      s.languageAwareSegmentsMatch entry.file candidate asked) = true ↔
      s.NamedBySegments entry asked := by
    rw [List.any_eq_true]
    constructor
    · intro ⟨text, htext, hmatch⟩
      obtain ⟨form, hform, hsegments⟩ := languageAwareSegmentsMatch_iff.mp hmatch
      exact ⟨text, htext, form, hform, segmentsMatch_iff.mp hsegments⟩
    · intro ⟨text, htext, form, hform, hsegments⟩
      exact ⟨text, htext,
        languageAwareSegmentsMatch_iff.mpr ⟨form, hform, segmentsMatch_iff.mpr hsegments⟩⟩
  rw [← hany, matchEndpointName]
  cases s.entryQueryTexts entry with
  | nil => simp
  | cons text texts => rfl

theorem importsAliasOrWildcardMatches_iff {edge : StoreEdgeRef} {asked : String}
    {aliasName : Option StringId} {isWildcard : Bool}
    (hkind : edge.kind = .imports aliasName isWildcard) :
    s.importsAliasOrWildcardMatches edge (.pattern (.ofExact asked)) = true ↔
      (isWildcard = true ∧ asked = "*") ∨
        ∃ aliasText, aliasName.bind s.resolve = some aliasText ∧
          asked.toList <:+: aliasText.toList := by
  obtain ⟨source, target, kind, seq, file, spans⟩ := edge
  cases hkind
  have htext : (match aliasName.bind s.resolve with
      | none => false
      | some aliasText => textContains aliasText asked) = true ↔
      ∃ aliasText, aliasName.bind s.resolve = some aliasText ∧
        asked.toList <:+: aliasText.toList := by
    cases aliasName.bind s.resolve with
    | none => simp
    | some aliasText => simp [textContains]
  have hread : s.importsAliasOrWildcardMatches
      ⟨source, target, .imports aliasName isWildcard, seq, file, spans⟩
      (.pattern (.ofExact asked)) =
      if isWildcard && asked = "*" then true
      else
        match aliasName.bind s.resolve with
        | none => false
        | some aliasText => textContains aliasText asked := rfl
  rw [hread, ← htext]
  by_cases hwild : (isWildcard && decide (asked = "*")) = true
  · rw [if_pos hwild]
    rw [Bool.and_eq_true, decide_eq_true_eq] at hwild
    exact ⟨fun _ => Or.inl hwild, fun _ => rfl⟩
  · rw [if_neg hwild]
    rw [Bool.and_eq_true, decide_eq_true_eq] at hwild
    exact ⟨Or.inr, fun h => h.resolve_left hwild⟩

theorem relationEndpointHit_imports_iff {endpointEntry : NodeEntry} {edge : StoreEdgeRef}
    {asked : String} {aliasName : Option StringId} {isWildcard : Bool}
    (hkind : edge.kind = .imports aliasName isWildcard) :
    s.relationEndpointHit engines .imports endpointEntry edge (.pattern (.ofExact asked)) = true ↔
      s.NamedBySegments endpointEntry asked ∨ (isWildcard = true ∧ asked = "*") ∨
        ∃ aliasText, aliasName.bind s.resolve = some aliasText ∧
          asked.toList <:+: aliasText.toList := by
  have hexact := @matchEndpointName_exact_iff s engines endpointEntry asked
  rw [relationEndpointHit, ← hexact, ← importsAliasOrWildcardMatches_iff hkind]
  by_cases hname : s.matchEndpointName engines endpointEntry (.pattern (.ofExact asked)) = true
  · simp [hname]
  · simp [hname]

theorem mem_iter_of_get {node : NodeId} {entry : NodeEntry}
    (hslots : s.nodes.slotCount ≤ u32Max + 1) (hlive : s.nodes.get node = some entry) :
    (node, entry) ∈ s.nodes.iter := by
  obtain ⟨_, slot, hslot, h⟩ := NodeArena.get_eq_some_iff.mp hlive
  have hlt : node.index < s.nodes.slotCount := (List.getElem?_eq_some_iff.mp hslot).1
  exact NodeArena.mem_iter.mpr ⟨by omega, slot, hslot, h⟩

theorem nodeHit_iff {node : NodeId} {entry : NodeEntry} {asked : String}
    (hslots : s.nodes.slotCount ≤ u32Max + 1) (hlive : s.nodes.get node = some entry)
    (hkept : entry.isUnifiedLoser = false) :
    node ∈ s.nodes.iter.filterMap (s.nodeHit engines .imports (.pattern (.ofExact asked))) ↔
      s.ScanAccepts node asked .own := by
  rw [List.mem_filterMap]
  constructor
  · intro ⟨⟨node', entry'⟩, hmem, hhit⟩
    rw [nodeHit] at hhit
    by_cases hloser : entry'.isUnifiedLoser = true
    · rw [if_pos hloser] at hhit
      cases hhit
    · rw [if_neg hloser] at hhit
      by_cases htake : RelationKind.imports = .imports ∧ entry'.kind = .import ∧
          s.matchEndpointName engines entry' (.pattern (.ofExact asked)) = true
      · rw [if_pos htake] at hhit
        cases hhit
        have hsame := (NodeArena.iter_inj hmem (mem_iter_of_get hslots hlive) rfl).2
        rw [hsame] at htake
        exact ⟨entry, hlive, htake.2.1, matchEndpointName_exact_iff.mp htake.2.2⟩
      · rw [if_neg htake] at hhit
        cases hhit
  · intro ⟨entry', hlive', hkind, hnamed⟩
    rw [hlive] at hlive'
    cases hlive'
    refine ⟨(node, entry), mem_iter_of_get hslots hlive, ?_⟩
    rw [nodeHit, hkept, if_neg Bool.false_ne_true,
      if_pos ⟨rfl, hkind, matchEndpointName_exact_iff.mpr hnamed⟩]

theorem consider_imports_iff {src tgt node : NodeId} {edge : StoreEdgeRef} {asked : String}
    {aliasName : Option StringId} {isWildcard : Bool}
    (hkind : edge.kind = .imports aliasName isWildcard) :
    s.consider engines .imports (.pattern (.ofExact asked)) src tgt edge = some node ↔
      src = node ∧ (∃ entry, s.nodes.get src = some entry ∧ entry.isUnifiedLoser = false) ∧
        ∃ entry, s.nodes.get tgt = some entry ∧
          (s.NamedBySegments entry asked ∨ (isWildcard = true ∧ asked = "*") ∨
            ∃ aliasText, aliasName.bind s.resolve = some aliasText ∧
              asked.toList <:+: aliasText.toList) := by
  have hrole : ¬ (RelationKind.imports.traversal.2 = .either ∧ src = tgt) := by
    simp [RelationKind.traversal]
  rw [consider, if_neg hrole]
  cases s.nodes.get src with
  | none => simp
  | some resultEntry =>
    cases hloser : resultEntry.isUnifiedLoser with
    | true => simp [hloser]
    | false =>
      cases s.nodes.get tgt with
      | none => simp [hloser]
      | some endpointEntry =>
        have hhit := @relationEndpointHit_imports_iff s engines endpointEntry edge asked
          aliasName isWildcard hkind
        simp only [hloser]
        rw [if_neg Bool.false_ne_true]
        by_cases h : s.relationEndpointHit engines .imports endpointEntry edge
            (.pattern (.ofExact asked)) = true
        · rw [if_pos h]
          constructor
          · intro hsame
            cases hsame
            exact ⟨rfl, ⟨resultEntry, rfl, hloser⟩, endpointEntry, rfl, hhit.mp h⟩
          · intro ⟨hsame, _⟩
            rw [hsame]
        · rw [if_neg h]
          constructor
          · intro hnone
            cases hnone
          · intro ⟨_, _, entry, hentry, hcase⟩
            cases hentry
            exact absurd (hhit.mpr hcase) h

theorem edgeHits_imports_iff {node : NodeId} {entry : NodeEntry} {edge : StoreEdgeRef}
    {asked : String} (hslots : s.nodes.slotCount ≤ u32Max + 1)
    (hlive : s.nodes.get node = some entry) (hkept : entry.isUnifiedLoser = false) :
    node ∈ s.edgeHits engines .imports (.pattern (.ofExact asked)) edge ↔
      edge.source.index = node.index ∧
      ∃ aliasName isWildcard, edge.kind = .imports aliasName isWildcard ∧
      ∃ generation entry, s.nodes.get ⟨edge.target.index, generation⟩ = some entry ∧
        (s.NamedBySegments entry asked ∨ (isWildcard = true ∧ asked = "*") ∨
          ∃ aliasText, aliasName.bind s.resolve = some aliasText ∧
            asked.toList <:+: aliasText.toList) := by
  rw [edgeHits]
  by_cases himports : ∃ aliasName isWildcard, edge.kind = .imports aliasName isWildcard
  · obtain ⟨aliasName, isWildcard, hkind⟩ := himports
    have hmatches : RelationKind.imports.edgeKindMatches edge.kind = true := by
      rw [hkind]
      rfl
    rw [hmatches, Bool.not_true, if_neg Bool.false_ne_true]
    constructor
    · intro h
      cases hsrc : s.idxToId.lookup edge.source.index with
      | none =>
        rw [hsrc] at h
        cases h
      | some src =>
        cases htgt : s.idxToId.lookup edge.target.index with
        | none =>
          rw [hsrc, htgt] at h
          cases h
        | some tgt =>
          rw [hsrc, htgt] at h
          have hconsider := Option.mem_toList.mp h
          obtain ⟨hsame, _, entry', hentry', hcase⟩ := (consider_imports_iff hkind).mp hconsider
          obtain ⟨hsource, _⟩ := lookup_idxToId.mp hsrc
          obtain ⟨htarget, _⟩ := lookup_idxToId.mp htgt
          rw [hsame] at hsource
          refine ⟨hsource.symm, aliasName, isWildcard, hkind, tgt.generation, entry', ?_, hcase⟩
          rw [← htarget]
          exact hentry'
    · intro ⟨hsource, aliasName', isWildcard', hkind', generation, entry', hentry', hcase⟩
      have hsrc : s.idxToId.lookup edge.source.index = some node :=
        lookup_idxToId.mpr ⟨hsource.symm, entry, mem_iter_of_get hslots hlive⟩
      have htgt : s.idxToId.lookup edge.target.index = some ⟨edge.target.index, generation⟩ :=
        lookup_idxToId.mpr ⟨rfl, entry', mem_iter_of_get hslots hentry'⟩
      rw [hsrc, htgt]
      exact Option.mem_toList.mpr ((consider_imports_iff hkind').mpr
        ⟨rfl, ⟨entry, hlive, hkept⟩, entry', hentry', hcase⟩)
  · have hmatches : RelationKind.imports.edgeKindMatches edge.kind = false := by
      cases hkind : edge.kind with
      | imports aliasName isWildcard => exact absurd ⟨aliasName, isWildcard, hkind⟩ himports
      | _ => rfl
    rw [hmatches, Bool.not_false, if_pos rfl]
    constructor
    · intro h
      cases h
    · intro ⟨_, aliasName, isWildcard, hkind, _⟩
      exact absurd ⟨aliasName, isWildcard, hkind⟩ himports

theorem mem_computeRelationSourceSet_imports {node : NodeId} {entry : NodeEntry}
    {asked : String} {set : List NodeId} (hslots : s.nodes.slotCount ≤ u32Max + 1)
    (hlive : s.nodes.get node = some entry) (hkept : entry.isUnifiedLoser = false)
    (hset : s.computeRelationSourceSet engines .imports (.ofExact asked) = some set) :
    node ∈ set ↔ ∃ evidence, s.ScanAccepts node asked evidence := by
  obtain ⟨edges, hedges, hheads⟩ := Option.map_eq_some_iff.mp hset
  rw [← hheads, SortedGroups.mem_heads_id, SortedGroups.mem_sortBy, List.mem_append]
  have hown := @nodeHit_iff s engines node entry asked hslots hlive hkept
  have hscan : node ∈ edges.flatMap (s.edgeHits engines .imports (.pattern (.ofExact asked))) ↔
      ∃ target kind, s.ScanAccepts node asked (.edge target kind) := by
    rw [List.mem_flatMap]
    constructor
    · intro ⟨e, he, hhit⟩
      obtain ⟨hsource, h⟩ := (edgeHits_imports_iff hslots hlive hkept).mp hhit
      exact ⟨e.target, e.kind, ⟨edges, hedges, e, he, hsource, rfl, rfl⟩, h⟩
    · intro ⟨target, kind, ⟨edges', hedges', e, he, hsource, htarget, hkind⟩, h⟩
      rw [hedges] at hedges'
      cases hedges'
      cases htarget
      cases hkind
      exact ⟨e, he, (edgeHits_imports_iff hslots hlive hkept).mpr ⟨hsource, h⟩⟩
  constructor
  · intro h
    cases h with
    | inl h => exact ⟨.own, hown.mp h⟩
    | inr h =>
      obtain ⟨target, kind, h⟩ := hscan.mp h
      exact ⟨.edge target kind, h⟩
  · intro ⟨evidence, h⟩
    cases evidence with
    | own => exact Or.inl (hown.mpr h)
    | edge target kind => exact Or.inr (hscan.mpr ⟨target, kind, h⟩)

end Planner

/-- The engines agree on a node exactly when some evidence convinces both, or when the
evidence that convinces one of them alone is missing on both sides or there on both. -/
theorem imports_engines_agree_iff (engines : PatternEngines) (s : GraphSnapshot)
    (node : NodeId) (entry : NodeEntry) (asked : String) (set : List NodeId)
    (hslots : s.nodes.slotCount ≤ u32Max + 1)
    (hlive : s.nodes.get node = some entry) (hkept : entry.isUnifiedLoser = false)
    (hset : s.computeRelationSourceSet engines .imports (.ofExact asked) = some set) :
    (node ∈ set ↔ s.matchImports node (.string asked) = true) ↔
      (∃ evidence, s.ScanAccepts node asked evidence ∧ s.ProbeAccepts node asked evidence) ∨
        ((∃ evidence, s.ScanAccepts node asked evidence ∧ ¬ s.ProbeAccepts node asked evidence) ↔
          ∃ evidence, s.ProbeAccepts node asked evidence ∧
            ¬ s.ScanAccepts node asked evidence) := by
  rw [mem_computeRelationSourceSet_imports hslots hlive hkept hset, matchImports_iff hlive]
  exact exists_agree_iff _ _

def oneImport (name : String) : GraphSnapshot where
  nodes := ⟨[⟨1, .occupied (.new .import ⟨1, by decide⟩ 1)⟩], none, 1⟩
  strings := ⟨[none, some name], AList.singleton name 1, [0, 1], [], none, false⟩
  files := ⟨[none, some ⟨some .python⟩]⟩
  edges := .new

def noPatterns : PatternEngines := ⟨fun _ => none, fun _ => none, id⟩

theorem imports_engines_agree_wholeName :
    (∃ evidence, (oneImport "numpy").ScanAccepts ⟨0, 1⟩ "numpy" evidence ∧
        (oneImport "numpy").ProbeAccepts ⟨0, 1⟩ "numpy" evidence) ∨
      ((∃ evidence, (oneImport "numpy").ScanAccepts ⟨0, 1⟩ "numpy" evidence ∧
          ¬ (oneImport "numpy").ProbeAccepts ⟨0, 1⟩ "numpy" evidence) ↔
        ∃ evidence, (oneImport "numpy").ProbeAccepts ⟨0, 1⟩ "numpy" evidence ∧
          ¬ (oneImport "numpy").ScanAccepts ⟨0, 1⟩ "numpy" evidence) :=
  (imports_engines_agree_iff noPatterns (oneImport "numpy") ⟨0, 1⟩
    (.new .import ⟨1, by decide⟩ 1) "numpy" [⟨0, 1⟩] (by decide) (by decide) (by decide)
    (by decide)).mp (by decide)

/-- The import `numpy` is found under `num` by the evaluator and not by the planner. -/
theorem part_of_import_name_splits_engines :
    ¬ ∀ (engines : PatternEngines) (s : GraphSnapshot) (node : NodeId) (entry : NodeEntry)
      (asked : String) (set : List NodeId), s.nodes.slotCount ≤ u32Max + 1 →
      s.nodes.get node = some entry → entry.isUnifiedLoser = false →
      s.computeRelationSourceSet engines .imports (.ofExact asked) = some set →
      (node ∈ set ↔ s.matchImports node (.string asked) = true) := by
  intro hagree
  have hcase := hagree noPatterns (oneImport "numpy") ⟨0, 1⟩ (.new .import ⟨1, by decide⟩ 1)
    "num" [] (by decide) (by decide) (by decide) (by decide)
  have hprobe : (oneImport "numpy").matchImports ⟨0, 1⟩ (.string "num") = true := by decide
  exact List.not_mem_nil (hcase.mpr hprobe)

end GraphSnapshot
end Sqry
