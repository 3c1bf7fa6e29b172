import Sqry.Build.Retarget
import Sqry.Lib.Champion

/-!
The unification of nodes that share a qualified name across files. Of every group one node is
picked, and the others are merged into it one after another. A merge can move a position from one
node to another, and would then leave it in a file that it does not belong to.
-/

namespace Sqry

def isSyntheticAnonymousSegment (segment : List Char) : Bool :=
  "<anon".toList.isPrefixOf segment || "anon:".toList.isPrefixOf segment

def hasSyntheticAnonymousSegment (qualifiedName : String) : Bool :=
  (splitFrom "::".toList 0 qualifiedName.toList).any isSyntheticAnonymousSegment

def CALL_COMPATIBLE_KINDS : List NodeKind :=
  [.function, .method, .macroItem, .constant, .lambdaTarget]

structure UnificationStats where
  candidatePairsExamined : Nat
  nodesMerged : Nat
  edgesRewritten : Nat
  nodesInert : Nat
  deriving DecidableEq, Repr

namespace NodeArena

def winnerOrder (a : NodeArena FullNodeEntry) (keys : NodeId → String) (x y : NodeId) : Ordering :=
  match a.get x, a.get y with
  | some ex, some ey =>
    if ex.bodyHash.isSome ≠ ey.bodyHash.isSome then
      if ex.bodyHash.isSome then .gt else .lt
    else
      match decide (ex.startLine > 0), decide (ey.startLine > 0) with
      | true, false => .gt
      | false, true => .lt
      | _, _ =>
        (compare (ex.endLine - ex.startLine) (ey.endLine - ey.startLine)).then
          ((compare (keys y) (keys x)).then (compare y.index x.index))
  | some _, none => .gt
  | none, some _ => .lt
  | none, none => .eq

def selectUnificationWinner (a : NodeArena FullNodeEntry) (keys : NodeId → String)
    (group : List NodeId) : Option NodeId := Champion.maxBy (a.winnerOrder keys) group

end NodeArena

structure Unification where
  nodes : NodeArena FullNodeEntry
  remap : NodeRemapTable
  nodesMerged : Nat
  nodesInert : Nat

namespace Unification

def mergeLoser (winner : NodeId) (u : Unification) (loser : NodeId) : Unification :=
  if loser = winner then u
  else
    match u.nodes.mergeNodeInto loser winner with
    | (nodes, .ok ()) =>
      ⟨nodes, ⟨u.remap.map.insert loser winner⟩, u.nodesMerged + 1, u.nodesInert + 1⟩
    | (nodes, .error _) => { u with nodes := nodes }

def unifyGroup (keys : NodeId → String) (u : Unification) (group : List NodeId) : Unification :=
  match u.nodes.selectUnificationWinner keys group with
  | some winner => group.foldl (mergeLoser winner) u
  | none => u

end Unification

namespace CodeGraph
variable {π μ δ : Type} [DecidableEq π]

section Pass
variable (lossy : π → String) (g : CodeGraph π μ δ)

def qnCandidate (node : NodeId × FullNodeEntry) : Option (StringId × NodeId) :=
  if node.2.kind ∉ CALL_COMPATIBLE_KINDS then none
  else node.2.qualifiedName.map fun qn => (qn, node.1)

def qnGroups : AList fun _ : StringId => List NodeId :=
  Buckets.gather (g.nodes.iter.filterMap qnCandidate)

def isAnonymousName (qn : StringId) : Bool :=
  match g.strings.resolve qn.index with
  | some text => hasSyntheticAnonymousSegment text
  | none => false

def byFile (group : List NodeId) : AList fun _ : FileId => List NodeId :=
  Buckets.gather (group.filterMap fun id => (g.nodes.get id).map fun entry => (entry.file, id))

def splitGroup (group : Sigma fun _ : StringId => List NodeId) : List (List NodeId) :=
  if group.2.length < 2 then []
  else if g.isAnonymousName group.1 then
    ((g.byFile group.2).entries.map Sigma.snd).filter fun ids => decide (2 ≤ ids.length)
  else [group.2]

def groupsToUnify : List (List NodeId) := g.qnGroups.entries.flatMap g.splitGroup

def unificationPathKey (id : NodeId) : String :=
  (((g.nodes.get id).bind fun entry => g.files.resolve entry.file).map lossy).getD ""

/-- `groups` are the groups in the order in which the two maps yield them. -/
def unifyGroups (groups : List (List NodeId)) : Unification :=
  groups.foldl (Unification.unifyGroup (g.unificationPathKey lossy)) ⟨g.nodes, ⟨∅⟩, 0, 0⟩

def phase4cPrimeUnifyCrossFileNodes (groups : List (List NodeId))
    (allEdges : List (List PendingEdge)) :
    CodeGraph π μ δ × List (List PendingEdge) × UnificationStats × NodeRemapTable :=
  let u := g.unifyGroups lossy groups
  if u.remap.isEmpty then
    ({ g with nodes := u.nodes }, allEdges, ⟨groups.length, u.nodesMerged, 0, u.nodesInert⟩, u.remap)
  else
    ({ g with nodes := u.nodes, edges := u.remap.applyToCommittedEdges g.edges },
      u.remap.applyToEdges allEdges,
      ⟨groups.length, u.nodesMerged, (allEdges.map List.length).sum, u.nodesInert⟩, u.remap)

end Pass

end CodeGraph

namespace FullNodeEntry

/-- The name, the place and the hash of the body at that place. -/
structure KeepsPlace (old new : FullNodeEntry) : Prop where
  name : new.name = old.name
  file : new.file = old.file
  startLine : new.startLine = old.startLine
  startColumn : new.startColumn = old.startColumn
  endLine : new.endLine = old.endLine
  endColumn : new.endColumn = old.endColumn
  bodyHash : new.bodyHash = old.bodyHash

theorem KeepsPlace.refl (entry : FullNodeEntry) : KeepsPlace entry entry :=
  ⟨rfl, rfl, rfl, rfl, rfl, rfl, rfl⟩

theorem KeepsPlace.trans {a b c : FullNodeEntry} (hab : KeepsPlace a b) (hbc : KeepsPlace b c) :
    KeepsPlace a c where
  name := hbc.name.trans hab.name
  file := hbc.file.trans hab.file
  startLine := hbc.startLine.trans hab.startLine
  startColumn := hbc.startColumn.trans hab.startColumn
  endLine := hbc.endLine.trans hab.endLine
  endColumn := hbc.endColumn.trans hab.endColumn
  bodyHash := hbc.bodyHash.trans hab.bodyHash

structure Outranks (winner loser : FullNodeEntry) : Prop where
  body : loser.bodyHash.isSome → winner.bodyHash.isSome
  real : 0 < loser.startLine → winner.startLine = 0 → winner.bodyHash.isSome
  width : winner.bodyHash = none → 0 < winner.startLine → 0 < loser.startLine →
    loser.endLine - loser.startLine ≤ winner.endLine - winner.startLine
  ownsRange : winner.bodyHash.isSome → 0 < winner.startLine

theorem Outranks.of_keepsPlace {winner winner' loser : FullNodeEntry} (h : Outranks winner loser)
    (hkeeps : KeepsPlace winner winner') : Outranks winner' loser where
  body hloser := by rw [hkeeps.bodyHash]; exact h.body hloser
  real hloser hzero := by
    rw [hkeeps.startLine] at hzero
    rw [hkeeps.bodyHash]
    exact h.real hloser hzero
  width hnone hpos hloser := by
    rw [hkeeps.bodyHash] at hnone
    rw [hkeeps.startLine] at hpos
    rw [hkeeps.endLine, hkeeps.startLine]
    exact h.width hnone hpos hloser
  ownsRange hsome := by
    rw [hkeeps.bodyHash] at hsome
    rw [hkeeps.startLine]
    exact h.ownsRange hsome

theorem Outranks.mergeSpan_eq {winner loser : FullNodeEntry} (h : Outranks winner loser) :
    winner.mergeSpan loser = winner := by
  rw [mergeSpan]
  split
  · rename_i hmissing
    have hpos := h.ownsRange (h.real hmissing.2 hmissing.1)
    rw [hmissing.1] at hpos
    exact absurd hpos (lt_irrefl 0)
  · split
    · rename_i hboth
      have hle := h.width hboth.2.2 hboth.1 hboth.2.1
      rw [if_neg (not_lt.mpr hle)]
    · rfl

theorem Outranks.keepsPlace_merge {winner loser : FullNodeEntry} (h : Outranks winner loser) :
    KeepsPlace winner (winner.merge loser) := by
  have hhash : winner.bodyHash.or loser.bodyHash = winner.bodyHash := by
    cases hwinner : winner.bodyHash with
    | some hash => rfl
    | none =>
      cases hloser : loser.bodyHash with
      | none => rfl
      | some hash =>
        have hsome := h.body (by rw [hloser]; rfl)
        rw [hwinner] at hsome
        cases hsome
  simp only [merge, h.mergeSpan_eq]
  exact ⟨rfl, rfl, rfl, rfl, rfl, rfl, hhash⟩

end FullNodeEntry

namespace NodeArena
variable {a : NodeArena FullNodeEntry} {keys : NodeId → String}

theorem winnerOrder_eq :
    a.winnerOrder keys =
      compareLex (compareOn fun id => (a.get id).map fun entry => entry.bodyHash.isSome)
        (compareLex (compareOn fun id => (a.get id).map fun entry => decide (entry.startLine > 0))
          (compareLex (compareOn fun id => (a.get id).map fun entry =>
              entry.endLine - entry.startLine)
            (compareLex (fun x y => compareOn (fun id => (a.get id).map fun _ => keys id) y x)
              fun x y => compareOn (fun id => (a.get id).map fun _ => id.index) y x))) := by
  funext x y
  simp only [winnerOrder, compareLex, compareOn]
  cases a.get x with
  | none => cases a.get y <;> rfl
  | some ex =>
    cases a.get y with
    | none => rfl
    | some ey =>
      simp only [Option.map_some]
      cases ex.bodyHash.isSome <;> cases ey.bodyHash.isSome <;>
        cases decide (ex.startLine > 0) <;> cases decide (ey.startLine > 0) <;> rfl

instance : Std.TransCmp (a.winnerOrder keys) := by
  rw [winnerOrder_eq]
  infer_instance

theorem winnerOrder_congr {b : NodeArena FullNodeEntry} {x y : NodeId} (hx : a.get x = b.get x)
    (hy : a.get y = b.get y) : a.winnerOrder keys x y = b.winnerOrder keys x y := by
  rw [winnerOrder, winnerOrder, hx, hy]

theorem selectUnificationWinner_congr {b : NodeArena FullNodeEntry} {group : List NodeId}
    (h : ∀ id ∈ group, a.get id = b.get id) :
    a.selectUnificationWinner keys group = b.selectUnificationWinner keys group :=
  Champion.maxBy_congr fun x hx y hy => winnerOrder_congr (h x hx) (h y hy)

theorem outranks_of_winnerOrder {x y : NodeId} {ex ey : FullNodeEntry}
    (h : (a.winnerOrder keys x y).isLE = true) (hx : a.get x = some ex) (hy : a.get y = some ey)
    (hrange : ey.bodyHash.isSome → 0 < ey.startLine) : ey.Outranks ex := by
  rw [winnerOrder, hx, hy] at h
  simp only at h
  by_cases hbody : ex.bodyHash.isSome = ey.bodyHash.isSome
  · rw [if_neg (not_not.mpr hbody)] at h
    have hfirst : ex.startLine = 0 ∨ 0 < ey.startLine := by
      by_contra hnot
      obtain ⟨hpos, hzero⟩ := not_or.mp hnot
      simp only [Nat.pos_of_ne_zero hpos, hzero, decide_true, decide_false] at h
      cases h
    refine ⟨fun hloser => hbody ▸ hloser, fun hloser hzero => ?_, fun _ hwinner hloser => ?_, hrange⟩
    · omega
    · simp only [hwinner, hloser, decide_true] at h
      exact Nat.isLE_compare.mp (Ordering.isLE_left_of_isLE_then h)
  · rw [if_pos hbody] at h
    have hwinner : ey.bodyHash.isSome := by
      cases hex : ex.bodyHash.isSome with
      | true =>
        rw [hex, if_pos rfl] at h
        cases h
      | false =>
        cases hey : ey.bodyHash.isSome with
        | true => rfl
        | false => exact absurd (hex.trans hey.symm) hbody
    refine ⟨fun _ => hwinner, fun _ _ => hwinner, fun hnone => ?_, hrange⟩
    rw [hnone] at hwinner
    cases hwinner

theorem selectUnificationWinner_spec {group : List NodeId} {winner : NodeId}
    (h : a.selectUnificationWinner keys group = some winner)
    (hlive : ∃ id ∈ group, (a.get id).isSome)
    (hrange : ∀ id ∈ group, ∀ entry, a.get id = some entry → entry.bodyHash.isSome →
      0 < entry.startLine) :
    winner ∈ group ∧ ∃ w, a.get winner = some w ∧
      ∀ id ∈ group, ∀ entry, a.get id = some entry → w.Outranks entry := by
  obtain ⟨hmem, hmax⟩ := Champion.maxBy_spec h
  obtain ⟨id, hid, hsome⟩ := hlive
  obtain ⟨entry, hentry⟩ := Option.isSome_iff_exists.mp hsome
  have hle := hmax id hid
  cases hwinner : a.get winner with
  | none =>
    rw [winnerOrder, hentry, hwinner] at hle
    cases hle
  | some w =>
    refine ⟨hmem, w, rfl, fun other hother e he => ?_⟩
    exact outranks_of_winnerOrder (hmax other hother) he hwinner (hrange winner hmem w hwinner)

end NodeArena

namespace Unification
variable {u : Unification} {winner : NodeId} {w : FullNodeEntry}

theorem mergeLoser_spec (hw : u.nodes.get winner = some w) {loser : NodeId}
    (hrank : loser ≠ winner → ∀ entry, u.nodes.get loser = some entry → w.Outranks entry) :
    (∃ w', (u.mergeLoser winner loser).nodes.get winner = some w' ∧ w.KeepsPlace w') ∧
      ∀ id, id ≠ winner → (u.mergeLoser winner loser).nodes.entryAt id =
        if id = loser ∧ ¬ id.isInvalid then (u.nodes.entryAt id).map FullNodeEntry.clear
        else u.nodes.entryAt id := by
  have hvalid : ¬ winner.isInvalid := by
    intro hinvalid
    rw [NodeArena.get_eq, if_pos hinvalid] at hw
    cases hw
  rw [mergeLoser]
  by_cases hself : loser = winner
  · rw [if_pos hself]
    refine ⟨⟨w, hw, .refl w⟩, fun id hid => ?_⟩
    rw [if_neg fun h => hid (h.1.trans hself)]
  · rw [if_neg hself]
    cases hloser : u.nodes.get loser with
    | none =>
      simp only [NodeArena.mergeNodeInto_of_none hself hloser]
      refine ⟨⟨w, hw, .refl w⟩, fun id _ => ?_⟩
      by_cases hsame : id = loser ∧ ¬ id.isInvalid
      · rw [NodeArena.get_eq, ← hsame.1, if_neg hsame.2] at hloser
        rw [if_pos hsame, hloser]
        rfl
      · rw [if_neg hsame]
    | some l =>
      simp only [NodeArena.mergeNodeInto_of_get hself hloser hw]
      have hentries := NodeArena.entryAt_mergeNodeInto hself hloser hw
      refine ⟨⟨w.merge l, ?_, (hrank hself l hloser).keepsPlace_merge⟩, fun id hid => ?_⟩
      · rw [NodeArena.get_eq, if_neg hvalid, hentries, Function.update_of_ne (Ne.symm hself),
          Function.update_self]
      · rw [hentries]
        by_cases hsame : id = loser
        · have hok : ¬ loser.isInvalid := by
            intro hinvalid
            rw [NodeArena.get_eq, if_pos hinvalid] at hloser
            cases hloser
          rw [hsame, Function.update_self, if_pos ⟨rfl, hok⟩, NodeArena.entryAt_of_get hloser]
          rfl
        · rw [Function.update_of_ne hsame, Function.update_of_ne hid, if_neg fun h => hsame h.1]

theorem foldl_mergeLoser (hw : u.nodes.get winner = some w) {members : List NodeId}
    (hnodup : members.Nodup)
    (hrank : ∀ id ∈ members, id ≠ winner → ∀ entry, u.nodes.get id = some entry →
      w.Outranks entry) :
    (∃ w', (members.foldl (mergeLoser winner) u).nodes.get winner = some w' ∧ w.KeepsPlace w') ∧
      ∀ id, id ≠ winner → (members.foldl (mergeLoser winner) u).nodes.entryAt id =
        if id ∈ members ∧ ¬ id.isInvalid then (u.nodes.entryAt id).map FullNodeEntry.clear
        else u.nodes.entryAt id := by
  induction members generalizing u w with
  | nil =>
    refine ⟨⟨w, hw, .refl w⟩, fun id _ => ?_⟩
    rw [if_neg fun h => List.not_mem_nil h.1]
    rfl
  | cons loser members ih =>
    obtain ⟨hnot, hrest⟩ := List.nodup_cons.mp hnodup
    obtain ⟨⟨w', hw', hkeeps⟩, hothers⟩ := mergeLoser_spec hw (hrank loser List.mem_cons_self)
    have hlater : ∀ id ∈ members, id ≠ winner → ∀ entry,
        (u.mergeLoser winner loser).nodes.get id = some entry → w'.Outranks entry := by
      intro id hid hne entry hentry
      have hother : ¬ (id = loser ∧ ¬ id.isInvalid) := fun h => hnot (h.1 ▸ hid)
      rw [NodeArena.get_eq, hothers id hne, if_neg hother, ← NodeArena.get_eq] at hentry
      exact (hrank id (List.mem_cons_of_mem loser hid) hne entry hentry).of_keepsPlace hkeeps
    obtain ⟨⟨w'', hw'', hkeeps'⟩, hothers'⟩ := ih hw' hrest hlater
    refine ⟨⟨w'', hw'', hkeeps.trans hkeeps'⟩, fun id hid => ?_⟩
    rw [List.foldl_cons, hothers' id hid, hothers id hid]
    by_cases hmem : id ∈ members
    · have hne : id ≠ loser := fun h => hnot (h ▸ hmem)
      simp [hmem, hne]
    · by_cases heq : id = loser
      · simp [hnot, heq]
      · simp [hmem, heq]

structure Mergeable (a : NodeArena FullNodeEntry) (group : List NodeId) : Prop where
  nodup : group.Nodup
  live : ∃ id ∈ group, (a.get id).isSome
  stored : ∀ id ∈ group, ∃ entry, a.entryAt id = some entry ∧ entry.qualifiedName.isSome ∧
    (entry.bodyHash.isSome → 0 < entry.startLine)

/-- What becomes of a group: the winner keeps its place, and the members that the arena resolves
are cleared. -/
def Merged (before after : NodeArena FullNodeEntry) (keys : NodeId → String)
    (group : List NodeId) : Prop :=
  ∃ winner w w', before.selectUnificationWinner keys group = some winner ∧ winner ∈ group ∧
    before.get winner = some w ∧ after.get winner = some w' ∧ w.KeepsPlace w' ∧
    (∀ id ∈ group, ∀ entry, before.get id = some entry → entry.bodyHash.isSome →
      w.bodyHash.isSome) ∧
    ∀ id ∈ group, id ≠ winner → after.entryAt id =
      if id.isInvalid then before.entryAt id else (before.entryAt id).map FullNodeEntry.clear

theorem get_congr {a b : NodeArena FullNodeEntry} {id : NodeId} (h : a.entryAt id = b.entryAt id) :
    a.get id = b.get id := by
  rw [NodeArena.get_eq, NodeArena.get_eq, h]

theorem Mergeable.congr {a b : NodeArena FullNodeEntry} {group : List NodeId}
    (h : Mergeable a group) (hsame : ∀ id ∈ group, b.entryAt id = a.entryAt id) :
    Mergeable b group where
  nodup := h.nodup
  live := by
    obtain ⟨id, hid, hlive⟩ := h.live
    exact ⟨id, hid, by rw [get_congr (hsame id hid)]; exact hlive⟩
  stored id hid := by
    rw [hsame id hid]
    exact h.stored id hid

theorem Merged.congr {before before' after after' : NodeArena FullNodeEntry}
    {keys : NodeId → String} {group : List NodeId} (h : Merged before after keys group)
    (hbefore : ∀ id ∈ group, before'.entryAt id = before.entryAt id)
    (hafter : ∀ id ∈ group, after'.entryAt id = after.entryAt id) :
    Merged before' after' keys group := by
  obtain ⟨winner, w, w', hselect, hmem, hw, hw', hkeeps, howner, hlosers⟩ := h
  refine ⟨winner, w, w', ?_, hmem, ?_, ?_, hkeeps, fun id hid entry hentry => ?_,
    fun id hid hne => ?_⟩
  · rw [← hselect]
    exact NodeArena.selectUnificationWinner_congr fun id hid => get_congr (hbefore id hid)
  · rw [get_congr (hbefore winner hmem), hw]
  · rw [get_congr (hafter winner hmem), hw']
  · rw [get_congr (hbefore id hid)] at hentry
    exact howner id hid entry hentry
  · rw [hafter id hid, hbefore id hid]
    exact hlosers id hid hne

variable {keys : NodeId → String}

theorem unifyGroup_spec {group : List NodeId} (h : Mergeable u.nodes group) :
    Merged u.nodes (u.unifyGroup keys group).nodes keys group ∧
      ∀ id, id ∉ group → (u.unifyGroup keys group).nodes.entryAt id = u.nodes.entryAt id := by
  have hne : group ≠ [] := by
    obtain ⟨id, hid, -⟩ := h.live
    exact List.ne_nil_of_mem hid
  obtain ⟨winner, hselect⟩ := Champion.exists_maxBy (u.nodes.winnerOrder keys) hne
  have hrange : ∀ id ∈ group, ∀ entry, u.nodes.get id = some entry → entry.bodyHash.isSome →
      0 < entry.startLine := by
    intro id hid entry hentry
    obtain ⟨stored, hstored, -, hbody⟩ := h.stored id hid
    rw [NodeArena.entryAt_of_get hentry] at hstored
    cases hstored
    exact hbody
  obtain ⟨hmem, w, hw, hrank⟩ := NodeArena.selectUnificationWinner_spec hselect h.live hrange
  obtain ⟨⟨w', hw', hkeeps⟩, hothers⟩ :=
    foldl_mergeLoser hw h.nodup fun id hid _ => hrank id hid
  have hstep : u.unifyGroup keys group = group.foldl (mergeLoser winner) u := by
    have hsame : u.nodes.selectUnificationWinner keys group = some winner := hselect
    rw [unifyGroup, hsame]
  rw [hstep]
  refine ⟨⟨winner, w, w', hselect, hmem, hw, hw', hkeeps, fun id hid entry hentry =>
    (hrank id hid entry hentry).body, fun id hid hid' => ?_⟩, fun id hid => ?_⟩
  · rw [hothers id hid']
    by_cases hinvalid : id.isInvalid
    · rw [if_neg fun h => h.2 hinvalid, if_pos hinvalid]
    · rw [if_pos ⟨hid, hinvalid⟩, if_neg hinvalid]
  · rw [hothers id fun heq => hid (heq ▸ hmem), if_neg fun h => hid h.1]

theorem foldl_unifyGroup {groups : List (List NodeId)} (hdisjoint : groups.Pairwise List.Disjoint)
    (h : ∀ group ∈ groups, Mergeable u.nodes group) :
    (∀ group ∈ groups, Merged u.nodes (groups.foldl (unifyGroup keys) u).nodes keys group) ∧
      ∀ id, (∀ group ∈ groups, id ∉ group) →
        (groups.foldl (unifyGroup keys) u).nodes.entryAt id = u.nodes.entryAt id := by
  induction groups generalizing u with
  | nil => exact ⟨fun group hgroup => absurd hgroup List.not_mem_nil, fun _ _ => rfl⟩
  | cons first groups ih =>
    obtain ⟨hfirst, hrest⟩ := List.pairwise_cons.mp hdisjoint
    obtain ⟨hmerged, hframe⟩ := @unifyGroup_spec u keys first (h first List.mem_cons_self)
    have hsame : ∀ group ∈ groups, ∀ id ∈ group,
        (u.unifyGroup keys first).nodes.entryAt id = u.nodes.entryAt id :=
      fun group hgroup id hid => hframe id fun hin => hfirst group hgroup hin hid
    obtain ⟨hlater, hlaterFrame⟩ := @ih (u.unifyGroup keys first) hrest fun group hgroup =>
      (h group (List.mem_cons_of_mem first hgroup)).congr (hsame group hgroup)
    rw [List.foldl_cons]
    refine ⟨List.forall_mem_cons.mpr ⟨?_, fun group hgroup => ?_⟩, fun id hid => ?_⟩
    · exact hmerged.congr (fun _ _ => rfl) fun id hid =>
        hlaterFrame id fun group hgroup hin => hfirst group hgroup hid hin
    · exact (hlater group hgroup).congr
        (fun id hid => (hsame group hgroup id hid).symm) fun _ _ => rfl
    · obtain ⟨hnot, hothers⟩ := List.forall_mem_cons.mp hid
      rw [hlaterFrame id hothers, hframe id hnot]

end Unification

namespace CodeGraph
variable {π μ δ : Type} [DecidableEq π]

section Groups
variable {g : CodeGraph π μ δ}

theorem qnCandidate_eq_some {node : NodeId × FullNodeEntry} {p : StringId × NodeId}
    (h : qnCandidate node = some p) : p.2 = node.1 ∧ node.2.qualifiedName = some p.1 := by
  rw [qnCandidate] at h
  split at h
  · cases h
  · obtain ⟨qn, hqn, heq⟩ := Option.map_eq_some_iff.mp h
    cases heq
    exact ⟨rfl, hqn⟩

theorem mem_qnGroup {b : Sigma fun _ : StringId => List NodeId} (h : b ∈ g.qnGroups.entries) :
    b.2.Nodup ∧ ∀ id ∈ b.2, ∃ entry, (id, entry) ∈ g.nodes.iter ∧
      entry.qualifiedName = some b.1 := by
  obtain ⟨hsub, hmem⟩ := Buckets.mem_of_mem_gather h
  have hids : ((g.nodes.iter.filterMap qnCandidate).map Prod.snd).Sublist
      (g.nodes.iter.map Prod.fst) :=
    Buckets.sublist_filterMap_snd fun _ _ _ hp => (qnCandidate_eq_some hp).1
  refine ⟨(hsub.trans hids).nodup (NodeArena.nodup_iter g.nodes), fun id hid => ?_⟩
  obtain ⟨node, hnode, hcandidate⟩ := List.mem_filterMap.mp (hmem id hid)
  obtain ⟨hsame, hqn⟩ := qnCandidate_eq_some hcandidate
  exact ⟨node.2, by rw [show id = node.1 from hsame]; exact hnode, hqn⟩

theorem mem_byFile {group : List NodeId} {b : Sigma fun _ : FileId => List NodeId}
    (h : b ∈ (g.byFile group).entries) :
    b.2.Sublist group ∧ ∀ id ∈ b.2, ∃ entry, g.nodes.get id = some entry ∧ entry.file = b.1 := by
  obtain ⟨hsub, hmem⟩ := Buckets.mem_of_mem_gather h
  have hfiled : ∀ id (p : FileId × NodeId),
      ((g.nodes.get id).map fun entry => (entry.file, id)) = some p →
        p.2 = id ∧ ∃ entry, g.nodes.get id = some entry ∧ entry.file = p.1 := by
    intro id p hp
    obtain ⟨entry, hentry, heq⟩ := Option.map_eq_some_iff.mp hp
    cases heq
    exact ⟨rfl, entry, hentry, rfl⟩
  have hids := @Buckets.sublist_filterMap_snd FileId NodeId NodeId
    (fun id => (g.nodes.get id).map fun entry => (entry.file, id)) id group
    fun id _ p hp => (hfiled id p hp).1
  rw [List.map_id] at hids
  refine ⟨hsub.trans hids, fun id hid => ?_⟩
  obtain ⟨other, -, hother⟩ := List.mem_filterMap.mp (hmem id hid)
  obtain ⟨hsame, hfile⟩ := hfiled other _ hother
  rw [show id = other from hsame]
  exact hfile

theorem splitGroup_spec {b : Sigma fun _ : StringId => List NodeId} :
    (g.splitGroup b).Pairwise List.Disjoint ∧
      ∀ group ∈ g.splitGroup b, group.Sublist b.2 ∧ 2 ≤ group.length := by
  rw [splitGroup]
  split
  · exact ⟨List.Pairwise.nil, fun group hgroup => absurd hgroup List.not_mem_nil⟩
  · rename_i hlarge
    split
    · refine ⟨List.Pairwise.filter _ (List.pairwise_map.mpr ?_), fun group hgroup => ?_⟩
      · have hkeys : (g.byFile b.2).entries.Pairwise fun c d => c.1 ≠ d.1 :=
          List.pairwise_map.mp (AList.keys_nodup _)
        refine hkeys.imp_of_mem fun {c d} hc hd hne id hidc hidd => hne ?_
        obtain ⟨entry, hentry, hfile⟩ := (mem_byFile hc).2 id hidc
        obtain ⟨entry', hentry', hfile'⟩ := (mem_byFile hd).2 id hidd
        rw [hentry] at hentry'
        cases hentry'
        exact hfile.symm.trans hfile'
      · obtain ⟨hin, hlength⟩ := List.mem_filter.mp hgroup
        obtain ⟨c, hc, heq⟩ := List.mem_map.mp hin
        rw [← heq]
        exact ⟨(mem_byFile hc).1, heq ▸ of_decide_eq_true hlength⟩
    · refine ⟨List.pairwise_singleton _ _, fun group hgroup => ?_⟩
      rw [List.mem_singleton.mp hgroup]
      exact ⟨List.Sublist.refl _, not_lt.mp hlarge⟩

theorem entryAt_of_mem_iter {id : NodeId} {entry : FullNodeEntry}
    (h : (id, entry) ∈ g.nodes.iter) : g.nodes.entryAt id = some entry :=
  NodeArena.entryAt_eq_some.mpr (NodeArena.mem_iter.mp h).2

theorem pairwise_groupsToUnify : g.groupsToUnify.Pairwise List.Disjoint := by
  refine List.pairwise_flatMap.mpr ⟨fun b _ => splitGroup_spec.1, ?_⟩
  have hkeys : g.qnGroups.entries.Pairwise fun b c => b.1 ≠ c.1 :=
    List.pairwise_map.mp (AList.keys_nodup _)
  refine hkeys.imp_of_mem fun {b c} hb hc hne group hgroup other hother id hid hid' => hne ?_
  have hidb := (splitGroup_spec.2 group hgroup).1.subset hid
  have hidc := (splitGroup_spec.2 other hother).1.subset hid'
  obtain ⟨entry, hentry, hqn⟩ := (mem_qnGroup hb).2 id hidb
  obtain ⟨entry', hentry', hqn'⟩ := (mem_qnGroup hc).2 id hidc
  have hsame := (entryAt_of_mem_iter hentry).symm.trans (entryAt_of_mem_iter hentry')
  cases hsame
  exact Option.some.inj (hqn.symm.trans hqn')

theorem mergeable_groupsToUnify
    (hbody : ∀ node ∈ g.nodes.iter, node.2.bodyHash.isSome → 0 < node.2.startLine)
    {group : List NodeId} (h : group ∈ g.groupsToUnify) :
    Unification.Mergeable g.nodes group := by
  obtain ⟨b, hb, hgroup⟩ := List.mem_flatMap.mp h
  obtain ⟨hsub, hlength⟩ := splitGroup_spec.2 group hgroup
  obtain ⟨hnodup, hmembers⟩ := mem_qnGroup hb
  refine ⟨hsub.nodup hnodup, ?_, fun id hid => ?_⟩
  · cases group with
    | nil => simp at hlength
    | cons first rest =>
      cases rest with
      | nil => simp at hlength
      | cons second rest =>
        obtain ⟨e, he, -⟩ := hmembers first (hsub.subset List.mem_cons_self)
        obtain ⟨e', he', -⟩ :=
          hmembers second (hsub.subset (List.mem_cons_of_mem first List.mem_cons_self))
        by_cases hfirst : first.isInvalid
        · refine ⟨second, List.mem_cons_of_mem first List.mem_cons_self, ?_⟩
          have hsecond : ¬ second.isInvalid := by
            intro hinvalid
            have hindex : first.index = second.index := by
              rw [NodeId.isInvalid, beq_iff_eq] at hfirst hinvalid
              rw [hfirst, hinvalid]
            obtain ⟨-, slot, hslot, hgen, -⟩ := NodeArena.mem_iter.mp he
            obtain ⟨-, slot', hslot', hgen', -⟩ := NodeArena.mem_iter.mp he'
            rw [← hindex, hslot] at hslot'
            cases hslot'
            have hsame := NodeArena.nodeId_ext hindex (hgen.symm.trans hgen')
            exact (List.nodup_cons.mp (hsub.nodup hnodup)).1 (hsame ▸ List.mem_cons_self)
          rw [NodeArena.get_eq, if_neg hsecond, entryAt_of_mem_iter he']
          rfl
        · refine ⟨first, List.mem_cons_self, ?_⟩
          rw [NodeArena.get_eq, if_neg hfirst, entryAt_of_mem_iter he]
          rfl
  · obtain ⟨entry, hentry, hqn⟩ := hmembers id (hsub.subset hid)
    exact ⟨entry, entryAt_of_mem_iter hentry, by rw [hqn]; rfl, hbody _ hentry⟩

/-- One member of the group keeps its name, its place and the hash of its body, which is there if
any member has one, and the others are losers. -/
def GroupUnified (before after : NodeArena FullNodeEntry) (keys : NodeId → String)
    (group : List NodeId) : Prop :=
  ∃ winner w w', before.selectUnificationWinner keys group = some winner ∧ winner ∈ group ∧
    before.entryAt winner = some w ∧ after.entryAt winner = some w' ∧ w.KeepsPlace w' ∧
    ((∃ id ∈ group, ∃ entry, before.entryAt id = some entry ∧ entry.bodyHash.isSome) →
      w.bodyHash.isSome) ∧
    ∀ id ∈ group, id ≠ winner →
      ∃ loser, before.entryAt id = some loser ∧ after.entryAt id = some loser.clear

def UnifiedInPlace (before after : NodeArena FullNodeEntry) (keys : NodeId → String)
    (groups : List (List NodeId)) : Prop :=
  (∀ group ∈ groups, GroupUnified before after keys group) ∧
    ∀ id, (∀ group ∈ groups, id ∉ group) → after.entryAt id = before.entryAt id

theorem groupUnified_of_merged {before after : NodeArena FullNodeEntry} {keys : NodeId → String}
    {group : List NodeId} (h : Unification.Merged before after keys group)
    (hstored : ∀ id ∈ group, ∃ entry, before.entryAt id = some entry)
    (hvalid : ∀ id ∈ group, ¬ id.isInvalid) : GroupUnified before after keys group := by
  obtain ⟨winner, w, w', hselect, hmem, hw, hw', hkeeps, howner, hlosers⟩ := h
  refine ⟨winner, w, w', hselect, hmem, NodeArena.entryAt_of_get hw, NodeArena.entryAt_of_get hw',
    hkeeps, fun hany => ?_, fun id hid hne => ?_⟩
  · obtain ⟨id, hid, entry, hentry, hbody⟩ := hany
    refine howner id hid entry ?_ hbody
    rw [NodeArena.get_eq, if_neg (hvalid id hid), hentry]
  · obtain ⟨loser, hloser⟩ := hstored id hid
    refine ⟨loser, hloser, ?_⟩
    rw [hlosers id hid hne, if_neg (hvalid id hid), hloser, Option.map_some]

theorem valid_of_groupUnified {before after : NodeArena FullNodeEntry} {keys : NodeId → String}
    {group : List NodeId} (h : Unification.Merged before after keys group)
    (hunified : GroupUnified before after keys group)
    (hnamed : ∀ id ∈ group, ∃ entry, before.entryAt id = some entry ∧ entry.qualifiedName.isSome) :
    ∀ id ∈ group, ¬ id.isInvalid := by
  intro id hid hinvalid
  obtain ⟨winner, w, w', hselect, -, hw, -, -, -, hlosers⟩ := h
  obtain ⟨other, -, -, hother, -, -, -, -, -, hcleared⟩ := hunified
  rw [hselect] at hother
  cases hother
  have hne : id ≠ winner := by
    intro heq
    rw [NodeArena.get_eq, ← heq, if_pos hinvalid] at hw
    cases hw
  obtain ⟨loser, hloser, hafter⟩ := hcleared id hid hne
  obtain ⟨entry, hentry, hqn⟩ := hnamed id hid
  rw [hlosers id hid hne, if_pos hinvalid, hentry] at hafter
  cases hafter
  cases hqn

theorem nodes_phase4cPrime (lossy : π → String) (groups : List (List NodeId))
    (allEdges : List (List PendingEdge)) :
    (g.phase4cPrimeUnifyCrossFileNodes lossy groups allEdges).1.nodes =
      (g.unifyGroups lossy groups).nodes := by
  simp only [phase4cPrimeUnifyCrossFileNodes]
  split <;> rfl

end Groups

section Order
variable {g : CodeGraph π μ δ} {groups : List (List NodeId)}

theorem merged_groups (lossy : π → String)
    (hbody : ∀ node ∈ g.nodes.iter, node.2.bodyHash.isSome → 0 < node.2.startLine)
    (horder : groups.Perm g.groupsToUnify) :
    (∀ group ∈ groups, Unification.Mergeable g.nodes group ∧
        Unification.Merged g.nodes (g.unifyGroups lossy groups).nodes
          (g.unificationPathKey lossy) group) ∧
      ∀ id, (∀ group ∈ groups, id ∉ group) →
        (g.unifyGroups lossy groups).nodes.entryAt id = g.nodes.entryAt id := by
  have hmergeable : ∀ group ∈ groups, Unification.Mergeable g.nodes group :=
    fun group hgroup => mergeable_groupsToUnify hbody (horder.mem_iff.mp hgroup)
  have hdisjoint : groups.Pairwise List.Disjoint :=
    (horder.pairwise_iff fun h => List.Disjoint.symm h).mpr pairwise_groupsToUnify
  obtain ⟨hmerged, hframe⟩ := @Unification.foldl_unifyGroup ⟨g.nodes, ⟨∅⟩, 0, 0⟩
    (g.unificationPathKey lossy) groups hdisjoint hmergeable
  exact ⟨fun group hgroup => ⟨hmergeable group hgroup, hmerged group hgroup⟩, hframe⟩

theorem Mergeable.named {a : NodeArena FullNodeEntry} {group : List NodeId}
    (h : Unification.Mergeable a group) :
    ∀ id ∈ group, ∃ entry, a.entryAt id = some entry ∧ entry.qualifiedName.isSome := by
  intro id hid
  obtain ⟨entry, hentry, hqn, -⟩ := h.stored id hid
  exact ⟨entry, hentry, hqn⟩

theorem isInvalid_iff {id : NodeId} : id.isInvalid ↔ id.index = u32Max := beq_iff_eq

end Order

/-- The pass keeps every node's place coherent exactly when no node in the last slot, which the
arena does not resolve, is a member of a group. -/
theorem unification_in_place_iff (lossy : π → String) (g : CodeGraph π μ δ)
    (hbody : ∀ node ∈ g.nodes.iter, node.2.bodyHash.isSome → 0 < node.2.startLine)
    (groups : List (List NodeId)) (horder : groups.Perm g.groupsToUnify)
    (allEdges : List (List PendingEdge)) :
    UnifiedInPlace g.nodes (g.phase4cPrimeUnifyCrossFileNodes lossy groups allEdges).1.nodes
        (g.unificationPathKey lossy) groups ↔
      ∀ group ∈ g.groupsToUnify, ∀ id ∈ group, id.index ≠ u32Max := by
  obtain ⟨hgroups, hframe⟩ := merged_groups lossy hbody horder
  rw [nodes_phase4cPrime]
  constructor
  · intro h group hgroup id hid hindex
    have hin := horder.mem_iff.mpr hgroup
    obtain ⟨hmergeable, hmerged⟩ := hgroups group hin
    exact valid_of_groupUnified hmerged (h.1 group hin) (Mergeable.named hmergeable) id hid
      (isInvalid_iff.mpr hindex)
  · intro h
    refine ⟨fun group hgroup => ?_, hframe⟩
    obtain ⟨hmergeable, hmerged⟩ := hgroups group hgroup
    refine groupUnified_of_merged hmerged (fun id hid => ?_) fun id hid hinvalid =>
      h group (horder.mem_iff.mp hgroup) id hid (isInvalid_iff.mp hinvalid)
    obtain ⟨entry, hentry, -⟩ := hmergeable.stored id hid
    exact ⟨entry, hentry⟩

section Instances

def namesake : FullNodeEntry :=
  { FullNodeEntry.new .function (.ofUInt8 1) 1 with qualifiedName := some (.ofUInt8 1) }

def namesakes (gap : Nat) : CodeGraph String Unit Unit :=
  { (new : CodeGraph String Unit Unit) with
    nodes := ⟨⟨1, .occupied namesake⟩ ::
      (List.replicate gap ⟨1, .vacant none⟩ ++ [⟨1, .occupied namesake⟩]), none, 2⟩ }

theorem iterFrom_gap (start gap : Nat) (h : start + gap ≤ u32Max) :
    NodeArena.iterFrom start
        (List.replicate gap ⟨1, .vacant none⟩ ++ [⟨1, .occupied namesake⟩]) =
      [(⟨start + gap, 1⟩, namesake)] := by
  induction gap generalizing start with
  | zero =>
    have hle : start ≤ u32Max := h
    simp [NodeArena.iterFrom, NodeArena.iterSlot, hle]
  | succ gap ih =>
    have hnext := ih (start + 1) (by omega)
    rw [List.replicate_succ, List.cons_append, NodeArena.iterFrom]
    simp only [NodeArena.iterSlot]
    rw [hnext, Nat.add_right_comm, Nat.add_assoc]

theorem iter_namesakes (gap : Nat) (h : 1 + gap ≤ u32Max) :
    (namesakes gap).nodes.iter = [(⟨0, 1⟩, namesake), (⟨1 + gap, 1⟩, namesake)] := by
  have hrest := iterFrom_gap 1 gap h
  have hfirst : NodeArena.iterSlot 0 (⟨1, .occupied namesake⟩ : Slot FullNodeEntry) =
      some (⟨0, 1⟩, namesake) := rfl
  simp only [namesakes, NodeArena.iter, NodeArena.iterFrom, hfirst, Nat.zero_add, hrest]

theorem namesakes_grouped (gap : Nat) (h : 1 + gap ≤ u32Max) :
    (namesakes gap).groupsToUnify = [[⟨0, 1⟩, ⟨1 + gap, 1⟩]] := by
  rw [groupsToUnify, qnGroups, iter_namesakes gap h]
  rfl

/-- The second function lies in the last slot and stays beside the winner. -/
theorem last_slot_keeps_name :
    (∀ node ∈ (namesakes (u32Max - 1)).nodes.iter,
        node.2.bodyHash.isSome → 0 < node.2.startLine) ∧
      ¬ UnifiedInPlace (namesakes (u32Max - 1)).nodes
        ((namesakes (u32Max - 1)).phase4cPrimeUnifyCrossFileNodes id
          (namesakes (u32Max - 1)).groupsToUnify []).1.nodes
        ((namesakes (u32Max - 1)).unificationPathKey id)
        (namesakes (u32Max - 1)).groupsToUnify := by
  have hlast : 1 + (u32Max - 1) = u32Max := rfl
  have hbody : ∀ node ∈ (namesakes (u32Max - 1)).nodes.iter,
      node.2.bodyHash.isSome → 0 < node.2.startLine := by
    rw [iter_namesakes _ (le_of_eq hlast)]
    intro node hnode hsome
    have hentry : node.2 = namesake := by
      cases List.mem_cons.mp hnode with
      | inl heq => rw [heq]
      | inr hin => rw [List.mem_singleton.mp hin]
    rw [hentry] at hsome
    cases hsome
  refine ⟨hbody, fun h => ?_⟩
  rw [nodes_phase4cPrime] at h
  have hin : [⟨0, 1⟩, ⟨u32Max, 1⟩] ∈ (namesakes (u32Max - 1)).groupsToUnify := by
    rw [namesakes_grouped _ (le_of_eq hlast), hlast]
    exact List.mem_singleton_self _
  obtain ⟨hmergeable, hmerged⟩ := (merged_groups id hbody (List.Perm.refl _)).1 _ hin
  exact valid_of_groupUnified hmerged (h.1 _ hin) (Mergeable.named hmergeable) ⟨u32Max, 1⟩
    (List.mem_cons_of_mem _ (List.mem_singleton_self _)) rfl

theorem unification_in_place_iff_neighbours :
    UnifiedInPlace (namesakes 0).nodes
        ((namesakes 0).phase4cPrimeUnifyCrossFileNodes id (namesakes 0).groupsToUnify []).1.nodes
        ((namesakes 0).unificationPathKey id) (namesakes 0).groupsToUnify ↔
      ∀ group ∈ (namesakes 0).groupsToUnify, ∀ id ∈ group, id.index ≠ u32Max :=
  unification_in_place_iff id (namesakes 0) (by decide) _ (List.Perm.refl _) []

end Instances

end CodeGraph

end Sqry
