import Mathlib.Data.Prod.Lex
import Sqry.Graph.Merge
import Sqry.Lib.Champion

/-!
The body extents of staged nodes. Several declaration sites can offer an extent for one node, and
the one that ends last stays. Where the node is reported is settled beside it and is another
matter.
-/

namespace Sqry

inductive SpanOrigin where
  | declaration
  | bodylessDeclaration
  | callSite
  deriving DecidableEq, Repr

structure BodySpan where
  startLine : Nat
  startColumn : Nat
  endLine : Nat
  endColumn : Nat
  deriving DecidableEq, Repr

/-- `u32::try_from(value).unwrap_or(u32::MAX)`. -/
def clampU32 (value : Nat) : Nat := min value u32Max

namespace BodySpan

def fromSpan (span : Span) : BodySpan :=
  ⟨clampU32 (span.start.line + 1), clampU32 span.start.column, clampU32 (span.stop.line + 1),
    clampU32 span.stop.column⟩

def endsAfter (a b : BodySpan) : Bool :=
  decide (b.endLine < a.endLine) ||
    (decide (a.endLine = b.endLine) && decide (b.endColumn < a.endColumn))

def finish (a : BodySpan) : Nat ×ₗ Nat := toLex (a.endLine, a.endColumn)

theorem endsAfter_iff {a b : BodySpan} : a.endsAfter b = true ↔ b.finish < a.finish := by
  rw [endsAfter, finish, finish, Prod.Lex.toLex_lt_toLex, Bool.or_eq_true, Bool.and_eq_true,
    decide_eq_true_iff, decide_eq_true_iff, decide_eq_true_iff, @eq_comm Nat a.endLine]

end BodySpan

structure NodeMetadataFlags where
  isAsync : Bool
  isStatic : Bool
  isUnsafe : Bool
  isDefinition : Bool
  deriving DecidableEq, Repr

structure NodeMetadataUpdate where
  span : Option Span
  flags : NodeMetadataFlags
  visibility : Option StringId
  signature : Option StringId
  deriving DecidableEq, Repr

namespace FullNodeEntry

def applySpan (entry : FullNodeEntry) (span : Span) : FullNodeEntry :=
  let offered := BodySpan.fromSpan span
  if entry.startLine = 0 ∨ entry.endLine = 0 ∨ offered.endLine > entry.endLine ∨
      (offered.endLine = entry.endLine ∧ offered.endColumn > entry.endColumn) then
    { entry with
      startLine := offered.startLine
      startColumn := offered.startColumn
      endLine := offered.endLine
      endColumn := offered.endColumn }
  else entry

def applyNodeMetadata (entry : FullNodeEntry) (update : NodeMetadataUpdate) : FullNodeEntry :=
  let entry :=
    match update.span with
    | some span => entry.applySpan span
    | none => entry
  { entry with
    isAsync := entry.isAsync || update.flags.isAsync
    isStatic := entry.isStatic || update.flags.isStatic
    isUnsafe := entry.isUnsafe || update.flags.isUnsafe
    isDefinition := entry.isDefinition || update.flags.isDefinition
    visibility := entry.visibility.or update.visibility
    signature := entry.signature.or update.signature }

end FullNodeEntry

/-- The staged operations that add a node, with the identifiers they expect. The other operations
and what else is staged are left out: nothing here reads them. -/
structure StagingGraph where
  addNodes : List (FullNodeEntry × Option NodeId)
  declarationSpans : AList fun _ : NodeId => BodySpan

namespace StagingGraph

def offerDeclarationSpan (s : StagingGraph) (node : NodeId) (candidate : BodySpan) : StagingGraph :=
  match s.declarationSpans.lookup node with
  | some incumbent =>
    if candidate.endsAfter incumbent then
      { s with declarationSpans := s.declarationSpans.insert node candidate }
    else s
  | none => { s with declarationSpans := s.declarationSpans.insert node candidate }

def recordSpanOrigin (s : StagingGraph) (node : NodeId) (span : Span) (origin : SpanOrigin) :
    StagingGraph :=
  if origin ≠ .declaration then s else s.offerDeclarationSpan node (.fromSpan span)

def setDeclarationSpan (s : StagingGraph) (node : NodeId) (span : BodySpan) : StagingGraph :=
  s.offerDeclarationSpan node span

def declarationSpan (s : StagingGraph) (node : NodeId) : Option BodySpan :=
  s.declarationSpans.lookup node

def updateFirst (node : NodeId) (update : NodeMetadataUpdate) :
    List (FullNodeEntry × Option NodeId) → List (FullNodeEntry × Option NodeId) × Bool
  | [] => ([], false)
  | (entry, expected) :: ops =>
    if expected = some node then ((entry.applyNodeMetadata update, expected) :: ops, true)
    else
      let (ops, found) := updateFirst node update ops
      ((entry, expected) :: ops, found)

def updateNodeEntryTrackingSpanOrigin (s : StagingGraph) (node : NodeId)
    (update : NodeMetadataUpdate) (origin : SpanOrigin) : StagingGraph × Bool :=
  let (addNodes, found) := updateFirst node update s.addNodes
  let s := { s with addNodes := addNodes }
  match found, update.span with
  | true, some span => (s.recordSpanOrigin node span origin, found)
  | _, _ => (s, found)

end StagingGraph

inductive SpanOffer where
  | recordSpanOrigin (span : Span) (origin : SpanOrigin)
  | setDeclarationSpan (span : BodySpan)
  | updateNodeEntryTrackingSpanOrigin (update : NodeMetadataUpdate) (origin : SpanOrigin)
  deriving DecidableEq, Repr

namespace SpanOffer

def extent : SpanOffer → Option BodySpan
  | .recordSpanOrigin span origin => if origin = .declaration then some (.fromSpan span) else none
  | .setDeclarationSpan span => some span
  | .updateNodeEntryTrackingSpanOrigin update origin =>
    if origin = .declaration then update.span.map .fromSpan else none

def isDeclaration (offer : SpanOffer) : Bool := offer.extent.isSome

end SpanOffer

namespace StagingGraph

def offer (node : NodeId) (s : StagingGraph) : SpanOffer → StagingGraph
  | .recordSpanOrigin span origin => s.recordSpanOrigin node span origin
  | .setDeclarationSpan span => s.setDeclarationSpan node span
  | .updateNodeEntryTrackingSpanOrigin update origin =>
    (s.updateNodeEntryTrackingSpanOrigin node update origin).1

def offerAll (s : StagingGraph) (node : NodeId) (offers : List SpanOffer) : StagingGraph :=
  offers.foldl (offer node) s

def Staged (s : StagingGraph) (node : NodeId) : Prop := ∃ op ∈ s.addNodes, op.2 = some node

/-- The extent that stays is the same in every order of the offers, and the one that the
declarations alone would leave. -/
def OrderFree (s : StagingGraph) (node : NodeId) (offers : List SpanOffer) : Prop :=
  ∀ order : List SpanOffer, order.Perm offers →
    (s.offerAll node order).declarationSpan node =
      (s.offerAll node (offers.filter SpanOffer.isDeclaration)).declarationSpan node

section Offers
variable {s : StagingGraph} {node : NodeId}

theorem updateFirst_found {update : NodeMetadataUpdate} {ops : List (FullNodeEntry × Option NodeId)}
    (h : ∃ op ∈ ops, op.2 = some node) : (updateFirst node update ops).2 = true := by
  induction ops with
  | nil =>
    obtain ⟨op, hop, _⟩ := h
    cases hop
  | cons op ops ih =>
    rw [updateFirst]
    split
    · rfl
    · rename_i hother
      refine ih ?_
      obtain ⟨staged, hstaged, hexpected⟩ := h
      cases List.mem_cons.mp hstaged with
      | inl heq => exact absurd (heq ▸ hexpected) hother
      | inr hin => exact ⟨staged, hin, hexpected⟩

theorem expected_updateFirst (update : NodeMetadataUpdate)
    (ops : List (FullNodeEntry × Option NodeId)) :
    (updateFirst node update ops).1.map Prod.snd = ops.map Prod.snd := by
  induction ops with
  | nil => rfl
  | cons op ops ih =>
    rw [updateFirst]
    split
    · rfl
    · rw [List.map_cons, List.map_cons, ih]

theorem staged_iff : s.Staged node ↔ some node ∈ s.addNodes.map Prod.snd := by
  rw [Staged, List.mem_map]

theorem addNodes_offerDeclarationSpan (candidate : BodySpan) :
    (s.offerDeclarationSpan node candidate).addNodes = s.addNodes := by
  rw [offerDeclarationSpan]
  split
  · split <;> rfl
  · rfl

theorem addNodes_recordSpanOrigin (span : Span) (origin : SpanOrigin) :
    (s.recordSpanOrigin node span origin).addNodes = s.addNodes := by
  rw [recordSpanOrigin]
  split
  · rfl
  · exact addNodes_offerDeclarationSpan _

theorem Staged.offer (h : s.Staged node) (o : SpanOffer) : (s.offer node o).Staged node := by
  rw [staged_iff] at h ⊢
  cases o with
  | recordSpanOrigin span origin =>
    rw [StagingGraph.offer, addNodes_recordSpanOrigin]
    exact h
  | setDeclarationSpan span =>
    rw [StagingGraph.offer, setDeclarationSpan, addNodes_offerDeclarationSpan]
    exact h
  | updateNodeEntryTrackingSpanOrigin update origin =>
    have hkept := @expected_updateFirst node update s.addNodes
    rw [← hkept] at h
    simp only [StagingGraph.offer, updateNodeEntryTrackingSpanOrigin]
    split
    · rw [addNodes_recordSpanOrigin]
      exact h
    · exact h

theorem declarationSpan_offerDeclarationSpan (candidate : BodySpan) :
    (s.offerDeclarationSpan node candidate).declarationSpan node =
      Champion.settle BodySpan.finish (s.declarationSpan node) candidate := by
  rw [offerDeclarationSpan, declarationSpan, declarationSpan]
  cases hlookup : s.declarationSpans.lookup node with
  | none => exact AList.lookup_insert _
  | some incumbent =>
    by_cases hafter : candidate.endsAfter incumbent = true
    · rw [Champion.settle, if_pos (BodySpan.endsAfter_iff.mp hafter)]
      simp only [if_pos hafter]
      exact AList.lookup_insert _
    · rw [Champion.settle, if_neg fun hlt => hafter (BodySpan.endsAfter_iff.mpr hlt)]
      simp only [if_neg hafter]
      exact hlookup

theorem declarationSpan_offer (h : s.Staged node) (o : SpanOffer) :
    (s.offer node o).declarationSpan node =
      match o.extent with
      | some candidate => Champion.settle BodySpan.finish (s.declarationSpan node) candidate
      | none => s.declarationSpan node := by
  have hrecord : ∀ (s : StagingGraph) (span : Span) (origin : SpanOrigin),
      (s.recordSpanOrigin node span origin).declarationSpan node =
        if origin = .declaration then
          Champion.settle BodySpan.finish (s.declarationSpan node) (.fromSpan span)
        else s.declarationSpan node := by
    intro s span origin
    rw [recordSpanOrigin]
    by_cases hdeclaration : origin = .declaration
    · rw [if_neg (not_not.mpr hdeclaration), if_pos hdeclaration]
      exact declarationSpan_offerDeclarationSpan _
    · rw [if_pos hdeclaration, if_neg hdeclaration]
  cases o with
  | recordSpanOrigin span origin =>
    rw [offer, hrecord, SpanOffer.extent]
    split <;> rfl
  | setDeclarationSpan span => exact declarationSpan_offerDeclarationSpan span
  | updateNodeEntryTrackingSpanOrigin update origin =>
    have hfound : (updateFirst node update s.addNodes).2 = true := updateFirst_found h
    rw [offer, updateNodeEntryTrackingSpanOrigin, SpanOffer.extent]
    simp only [hfound]
    cases update.span with
    | none =>
      simp only [Option.map_none, ite_self]
      rfl
    | some span =>
      simp only [hrecord, Option.map_some]
      split <;> rfl

theorem declarationSpan_offerAll (h : s.Staged node) (offers : List SpanOffer) :
    (s.offerAll node offers).declarationSpan node =
      (offers.filterMap SpanOffer.extent).foldl (Champion.settle BodySpan.finish)
        (s.declarationSpan node) := by
  induction offers generalizing s with
  | nil => rfl
  | cons o offers ih =>
    have hlater := ih (h.offer o)
    rw [declarationSpan_offer h o] at hlater
    rw [List.filterMap_cons]
    cases hextent : o.extent with
    | none =>
      rw [hextent] at hlater
      exact hlater
    | some candidate =>
      rw [hextent] at hlater
      exact hlater

end Offers

/-- The order matters exactly when two declarations that end last begin at different places. -/
theorem orderFree_iff (s : StagingGraph) (node : NodeId) (hstaged : s.Staged node)
    (hfresh : s.declarationSpan node = none) (offers : List SpanOffer) :
    s.OrderFree node offers ↔
      ∀ a ∈ offers.filterMap SpanOffer.extent, ∀ b ∈ offers.filterMap SpanOffer.extent,
        (∀ c ∈ offers.filterMap SpanOffer.extent, c.endsAfter a = false ∧ c.endsAfter b = false) →
          a = b := by
  have hfirst : ∀ order, (s.offerAll node order).declarationSpan node =
      Champion.first BodySpan.finish (order.filterMap SpanOffer.extent) := by
    intro order
    rw [declarationSpan_offerAll hstaged, hfresh, Champion.first]
  have hfilter : (offers.filter SpanOffer.isDeclaration).filterMap SpanOffer.extent =
      offers.filterMap SpanOffer.extent := by
    rw [List.filterMap_filter]
    refine List.filterMap_congr fun o _ => ?_
    rw [SpanOffer.isDeclaration]
    cases o.extent <;> rfl
  have htop : ∀ a, Champion.Top BodySpan.finish (offers.filterMap SpanOffer.extent) a ↔
      a ∈ offers.filterMap SpanOffer.extent ∧
        ∀ c ∈ offers.filterMap SpanOffer.extent, c.endsAfter a = false := by
    intro a
    refine and_congr_right fun _ => forall₂_congr fun c _ => ?_
    rw [← Bool.not_eq_true, BodySpan.endsAfter_iff, not_lt]
  have hties : s.OrderFree node offers ↔ ∀ order : List SpanOffer, order.Perm offers →
      Champion.first BodySpan.finish (order.filterMap SpanOffer.extent) =
        Champion.first BodySpan.finish (offers.filterMap SpanOffer.extent) := by
    refine forall₂_congr fun order _ => ?_
    rw [hfirst, hfirst, hfilter]
  rw [hties, Champion.first_perm_iff]
  constructor
  · intro h a ha b hb hends
    exact h a b ((htop a).mpr ⟨ha, fun c hc => (hends c hc).1⟩)
      ((htop b).mpr ⟨hb, fun c hc => (hends c hc).2⟩)
  · intro h a b ha hb
    obtain ⟨ha, hatop⟩ := (htop a).mp ha
    obtain ⟨hb, hbtop⟩ := (htop b).mp hb
    exact h a ha b hb fun c hc => ⟨hatop c hc, hbtop c hc⟩

section Instances

def oneStaged : StagingGraph :=
  ⟨[(FullNodeEntry.new .function (.ofUInt8 1) 1, some ⟨0, 1⟩)], ∅⟩

def nestedExtents : List SpanOffer :=
  [.setDeclarationSpan ⟨1, 0, 9, 1⟩, .setDeclarationSpan ⟨2, 0, 9, 1⟩]

theorem staged_oneStaged : oneStaged.Staged ⟨0, 1⟩ := ⟨_, List.mem_cons_self, rfl⟩

theorem nestedExtents_not_orderFree : ¬ oneStaged.OrderFree ⟨0, 1⟩ nestedExtents := by
  intro h
  have hswapped := h [.setDeclarationSpan ⟨2, 0, 9, 1⟩, .setDeclarationSpan ⟨1, 0, 9, 1⟩]
    (List.Perm.swap _ _ _)
  revert hswapped
  decide

theorem orderFree_iff_nestedExtents :
    oneStaged.OrderFree ⟨0, 1⟩ nestedExtents ↔
      ∀ a ∈ nestedExtents.filterMap SpanOffer.extent,
        ∀ b ∈ nestedExtents.filterMap SpanOffer.extent,
          (∀ c ∈ nestedExtents.filterMap SpanOffer.extent,
            c.endsAfter a = false ∧ c.endsAfter b = false) → a = b :=
  orderFree_iff oneStaged ⟨0, 1⟩ staged_oneStaged rfl nestedExtents

end Instances

end StagingGraph
end Sqry
