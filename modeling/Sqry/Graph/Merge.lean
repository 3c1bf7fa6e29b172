import Sqry.Graph.Entries

/-!
The whole entry of a node, and the merge of a node into another one of the same symbol. The
node that is merged keeps its slot, its kind, its file and its position, and loses the rest.
-/

namespace Sqry

structure FullNodeEntry extends NodeEntry where
  startLine : Nat
  startColumn : Nat
  endLine : Nat
  endColumn : Nat
  signature : Option StringId
  doc : Option StringId
  isAsync : Bool
  bodyHash : Option (UInt64 × UInt64)
  deriving DecidableEq, Repr

namespace FullNodeEntry

def new (kind : NodeKind) (name : StringId) (file : FileId) : FullNodeEntry :=
  ⟨NodeEntry.new kind name file, 0, 0, 0, 0, none, none, false, none⟩

/-- The position of `loser` in the file of `winner`. -/
def takeSpan (winner loser : FullNodeEntry) : FullNodeEntry :=
  { winner with
    startLine := loser.startLine
    startColumn := loser.startColumn
    endLine := loser.endLine
    endColumn := loser.endColumn
    startByte := loser.startByte
    endByte := loser.endByte }

def mergeSpan (winner loser : FullNodeEntry) : FullNodeEntry :=
  if winner.startLine = 0 ∧ loser.startLine > 0 then winner.takeSpan loser
  else if winner.startLine > 0 ∧ loser.startLine > 0 ∧ winner.bodyHash = none then
    if loser.endLine - loser.startLine > winner.endLine - winner.startLine then
      winner.takeSpan loser
    else winner
  else winner

def merge (winner loser : FullNodeEntry) : FullNodeEntry :=
  let winner := winner.mergeSpan loser
  { winner with
    visibility := winner.visibility.or loser.visibility
    signature := winner.signature.or loser.signature
    doc := winner.doc.or loser.doc
    bodyHash := winner.bodyHash.or loser.bodyHash
    isAsync := winner.isAsync || loser.isAsync
    isStatic := winner.isStatic || loser.isStatic
    isUnsafe := winner.isUnsafe || loser.isUnsafe
    isDefinition := winner.isDefinition || loser.isDefinition }

def clear (loser : FullNodeEntry) : FullNodeEntry :=
  { loser with
    name := StringId.INVALID
    qualifiedName := none
    signature := none
    bodyHash := none
    doc := none
    visibility := none }

theorem mergeSpan_keys (winner loser : FullNodeEntry) :
    (winner.mergeSpan loser).kind = winner.kind ∧ (winner.mergeSpan loser).name = winner.name ∧
      (winner.mergeSpan loser).qualifiedName = winner.qualifiedName ∧
      (winner.mergeSpan loser).file = winner.file := by
  simp only [mergeSpan]
  split
  · exact ⟨rfl, rfl, rfl, rfl⟩
  · split
    · split
      · exact ⟨rfl, rfl, rfl, rfl⟩
      · exact ⟨rfl, rfl, rfl, rfl⟩
    · exact ⟨rfl, rfl, rfl, rfl⟩

theorem merge_keys (winner loser : FullNodeEntry) :
    (winner.merge loser).kind = winner.kind ∧ (winner.merge loser).name = winner.name ∧
      (winner.merge loser).qualifiedName = winner.qualifiedName ∧
      (winner.merge loser).file = winner.file := mergeSpan_keys winner loser

@[simp] theorem isUnifiedLoser_clear (loser : FullNodeEntry) :
    loser.clear.isUnifiedLoser = true := by
  simp [clear, NodeEntry.isUnifiedLoser]

end FullNodeEntry

inductive MergeError where
  | selfMerge
  | staleNodeId
  deriving DecidableEq, Repr

namespace NodeArena

def mergeNodeInto (a : NodeArena FullNodeEntry) (loser winner : NodeId) :
    NodeArena FullNodeEntry × Except MergeError Unit :=
  if loser = winner then (a, .error .selfMerge)
  else
    match a.get loser with
    | none => (a, .error .staleNodeId)
    | some loserEntry =>
      match a.getMut winner with
      | none => (a, .error .staleNodeId)
      | some winnerEntry =>
        let merged := a.write winner (winnerEntry.merge loserEntry)
        match merged.getMut loser with
        | none => (merged, .error .staleNodeId)
        | some loserMut => (merged.write loser loserMut.clear, .ok ())

section Merging
variable {a : NodeArena FullNodeEntry} {loser winner : NodeId}

theorem mergeNodeInto_of_none (hne : loser ≠ winner) (h : a.get loser = none) :
    a.mergeNodeInto loser winner = (a, .error .staleNodeId) := by
  simp only [mergeNodeInto, if_neg hne, h]

theorem mergeNodeInto_of_get {l w : FullNodeEntry} (hne : loser ≠ winner)
    (hloser : a.get loser = some l) (hwinner : a.get winner = some w) :
    a.mergeNodeInto loser winner =
      ((a.write winner (w.merge l)).write loser l.clear, .ok ()) := by
  have hkept : (a.write winner (w.merge l)).getMut loser = some l := by
    have hget := get_eq a loser
    rw [hloser] at hget
    by_cases hinvalid : loser.isInvalid
    · rw [if_pos hinvalid] at hget
      cases hget
    · rw [if_neg hinvalid] at hget
      rw [getMut_eq_get, get_eq, if_neg hinvalid, entryAt_write (entryAt_of_get hwinner),
        Function.update_of_ne hne]
      exact hget.symm
  rw [← getMut_eq_get] at hwinner
  simp only [mergeNodeInto, if_neg hne, hloser, hwinner, hkept]

end Merging

theorem mergeNodeInto_cases (a : NodeArena FullNodeEntry) (loser winner : NodeId) :
    (∃ e, a.mergeNodeInto loser winner = (a, .error e)) ∨
    ∃ l w, loser ≠ winner ∧ a.get loser = some l ∧ a.get winner = some w ∧
      a.mergeNodeInto loser winner =
        ((a.write winner (w.merge l)).write loser l.clear, .ok ()) := by
  by_cases hself : loser = winner
  · exact Or.inl ⟨.selfMerge, by rw [mergeNodeInto, if_pos hself]⟩
  · cases hloser : a.get loser with
    | none => exact Or.inl ⟨.staleNodeId, mergeNodeInto_of_none hself hloser⟩
    | some l =>
      cases hwinner : a.getMut winner with
      | none =>
        exact Or.inl ⟨.staleNodeId, by simp only [mergeNodeInto, if_neg hself, hloser, hwinner]⟩
      | some w =>
        exact Or.inr ⟨l, w, hself, rfl, hwinner, mergeNodeInto_of_get hself hloser hwinner⟩

theorem entryAt_mergeNodeInto {a : NodeArena FullNodeEntry} {loser winner : NodeId}
    {l w : FullNodeEntry} (hne : loser ≠ winner) (hloser : a.get loser = some l)
    (hwinner : a.get winner = some w) :
    ((a.write winner (w.merge l)).write loser l.clear).entryAt =
      Function.update (Function.update a.entryAt winner (some (w.merge l))) loser
        (some l.clear) := by
  have hfirst := entryAt_write (entryAt_of_get hwinner) (w.merge l)
  have hloserAt : (a.write winner (w.merge l)).entryAt loser = some l := by
    rw [hfirst, Function.update_of_ne hne]
    exact entryAt_of_get hloser
  rw [entryAt_write hloserAt, hfirst]

end NodeArena
end Sqry
