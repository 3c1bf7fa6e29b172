import Sqry.Graph.IndicesSync

/-!
Runs of the arena and the indices together. The live nodes are those that hold an entry which
was not merged into another; every step keeps the indices in step with them, and so does a
rebuild of the indices.
-/

namespace Sqry

namespace NodeArena
variable {α : Type}

theorem nodup_iterFrom (start : Nat) (slots : List (Slot α)) :
    ((iterFrom start slots).map Prod.fst).Nodup := by
  induction slots generalizing start with
  | nil => exact List.nodup_nil
  | cons slot slots ih =>
    cases hslot : iterSlot start slot with
    | none => simpa only [iterFrom, hslot] using ih (start + 1)
    | some p =>
      obtain ⟨id, entry⟩ := p
      simp only [iterFrom, hslot, List.map_cons]
      refine List.nodup_cons.mpr ⟨?_, ih (start + 1)⟩
      intro hmem
      obtain ⟨node, hnode, hid⟩ := List.mem_map.mp hmem
      obtain ⟨i, other, _, hother⟩ := mem_iterFrom.mp hnode
      have hfirst := (iterSlot_eq_some.mp hslot).2.1
      have hlater := (iterSlot_eq_some.mp hother).2.1
      rw [← hid, hlater] at hfirst
      have hindex := congrArg NodeId.index hfirst
      simp only at hindex
      omega

theorem nodup_iter (a : NodeArena α) : (a.iter.map Prod.fst).Nodup := nodup_iterFrom 0 a.slots

theorem removeAll_spec {a : NodeArena α} (h : a.Bounded) (ids : List NodeId) :
    (a.removeAll ids).Bounded ∧
      ∀ id, (a.removeAll ids).entryAt id = a.entryAt id ∨
        id ∈ ids ∧ (a.removeAll ids).entryAt id = none := by
  induction ids generalizing a with
  | nil => exact ⟨h, fun id => Or.inl rfl⟩
  | cons first ids ih =>
    have hrest := ih (bounded_remove h first)
    refine ⟨hrest.1, ?_⟩
    intro id
    have hfirst : (a.remove first).1.entryAt id = a.entryAt id ∨
        id = first ∧ (a.remove first).1.entryAt id = none := by
      cases remove_cases a first with
      | inl hsame =>
        rw [hsame]
        exact Or.inl rfl
      | inr htaken =>
        obtain ⟨_, _, _, hentryAt, _⟩ := htaken
        rw [hentryAt]
        by_cases hne : id = first
        · rw [hne, Function.update_self]
          exact Or.inr ⟨rfl, rfl⟩
        · rw [Function.update_of_ne hne]
          exact Or.inl rfl
    cases hrest.2 id with
    | inr hgone => exact Or.inr ⟨List.mem_cons_of_mem first hgone.1, hgone.2⟩
    | inl hkept =>
      cases hfirst with
      | inl hsame => exact Or.inl (hkept.trans hsame)
      | inr hgone =>
        exact Or.inr ⟨hgone.1 ▸ List.mem_cons_self, hkept.trans hgone.2⟩

theorem entryAt_removeAll_filter {a : NodeArena α} (h : a.Bounded) (p : NodeId × α → Bool)
    (hnone : ∀ node ∈ (a.removeAll ((a.iter.filter p).map Prod.fst)).iter, p node = false)
    (id : NodeId) :
    (a.removeAll ((a.iter.filter p).map Prod.fst)).entryAt id =
      (a.entryAt id).filter fun entry => !p (id, entry) := by
  obtain ⟨hbounded, hspec⟩ := removeAll_spec h ((a.iter.filter p).map Prod.fst)
  cases hentry : a.entryAt id with
  | none =>
    cases hspec id with
    | inl hsame => rw [hsame, hentry]; rfl
    | inr hgone => rw [hgone.2]; rfl
  | some entry =>
    have hmem : (id, entry) ∈ a.iter := (mem_iter_iff h).mpr hentry
    cases hp : p (id, entry) with
    | true =>
      rw [Option.filter_some, hp]
      cases hspec id with
      | inr hgone => exact hgone.2
      | inl hsame =>
        rw [hentry] at hsame
        have hleft := hnone (id, entry) ((mem_iter_iff hbounded).mpr hsame)
        rw [hp] at hleft
        cases hleft
    | false =>
      rw [Option.filter_some, hp]
      cases hspec id with
      | inl hsame => rw [hsame, hentry]; rfl
      | inr hgone =>
        obtain ⟨node, hnode, hid⟩ := List.mem_map.mp hgone.1
        obtain ⟨hiter, hmeets⟩ := List.mem_filter.mp hnode
        have hsame := iter_inj hiter hmem (by rw [hid])
        have hnodeEq : node = (id, entry) := Prod.ext hsame.1 hsame.2
        rw [hnodeEq, hp] at hmeets
        cases hmeets

end NodeArena

namespace AuxiliaryIndices

theorem isUnifiedLoser_iff (entry : NodeEntry) :
    entry.isUnifiedLoser = true ↔ entry.name = StringId.INVALID := decide_eq_true_iff

def liveNodes (a : NodeArena FullNodeEntry) : Live :=
  fun id => (a.entryAt id).filter fun entry => !entry.isUnifiedLoser

section Rebuild

def indexNode (x : AuxiliaryIndices) (node : NodeId × FullNodeEntry) : AuxiliaryIndices :=
  if node.2.name = StringId.INVALID then x
  else x.insertAll node.1 node.2.kind node.2.name node.2.qualifiedName node.2.file

def liveNode (live : Live) (node : NodeId × FullNodeEntry) : Live :=
  if node.2.name = StringId.INVALID then live else Function.update live node.1 (some node.2)

theorem liveNode_ne (live : Live) (node : NodeId × FullNodeEntry) {id : NodeId}
    (h : id ≠ node.1) : liveNode live node id = live id := by
  rw [liveNode]
  by_cases hloser : node.2.name = StringId.INVALID
  · rw [if_pos hloser]
  · rw [if_neg hloser, Function.update_of_ne h]

theorem inStep_foldl (nodes : List (NodeId × FullNodeEntry)) {live : Live} {x : AuxiliaryIndices}
    (h : InStep live x) (hnew : ∀ node ∈ nodes, live node.1 = none)
    (hnodup : (nodes.map Prod.fst).Nodup) :
    InStep (nodes.foldl liveNode live) (nodes.foldl indexNode x) := by
  induction nodes generalizing live x with
  | nil => exact h
  | cons node nodes ih =>
    obtain ⟨hnot, hnodup⟩ := List.nodup_cons.mp hnodup
    have hfirst : InStep (liveNode live node) (indexNode x node) := by
      rw [liveNode, indexNode]
      by_cases hloser : node.2.name = StringId.INVALID
      · rw [if_pos hloser, if_pos hloser]
        exact h
      · rw [if_neg hloser, if_neg hloser]
        exact h.insertAll (hnew node List.mem_cons_self) node.2
    refine ih hfirst ?_ hnodup
    intro other hother
    have hne : other.1 ≠ node.1 := fun heq => hnot (heq ▸ List.mem_map_of_mem hother)
    rw [liveNode_ne live node hne]
    exact hnew other (List.mem_cons_of_mem node hother)

theorem foldl_liveNode (nodes : List (NodeId × FullNodeEntry)) (live : Live)
    (hnew : ∀ node ∈ nodes, live node.1 = none) (hnodup : (nodes.map Prod.fst).Nodup)
    (id : NodeId) (entry : FullNodeEntry) :
    nodes.foldl liveNode live id = some entry ↔
      live id = some entry ∨ (id, entry) ∈ nodes ∧ entry.name ≠ StringId.INVALID := by
  induction nodes generalizing live with
  | nil => simp
  | cons node nodes ih =>
    obtain ⟨hnot, hnodup⟩ := List.nodup_cons.mp hnodup
    have hlater : ∀ other ∈ nodes, liveNode live node other.1 = none := by
      intro other hother
      have hne : other.1 ≠ node.1 := fun heq => hnot (heq ▸ List.mem_map_of_mem hother)
      rw [liveNode_ne live node hne]
      exact hnew other (List.mem_cons_of_mem node hother)
    rw [List.foldl_cons, ih _ hlater hnodup, List.mem_cons]
    have hfirst := hnew node List.mem_cons_self
    by_cases hid : id = node.1
    · have hmem : (id, entry) ∉ nodes := fun hmem => hnot (hid ▸ List.mem_map_of_mem hmem)
      rw [hid, hfirst, liveNode]
      obtain ⟨id', entry'⟩ := node
      simp only at hid hfirst ⊢
      rw [hid] at hmem
      by_cases hloser : entry'.name = StringId.INVALID
      · rw [if_pos hloser, hfirst]
        simp only [reduceCtorEq, hmem, false_or, or_false, Prod.mk.injEq, true_and, false_and,
          false_iff, not_and, not_not]
        intro heq
        rw [heq]
        exact hloser
      · rw [if_neg hloser, Function.update_self]
        simp only [reduceCtorEq, hmem, false_or, or_false, Prod.mk.injEq, true_and, false_and,
          Option.some.injEq]
        constructor
        · intro heq
          rw [← heq]
          exact ⟨rfl, hloser⟩
        · intro heq
          exact heq.1.symm
    · have hne : (id, entry) ≠ node := fun heq => hid (by rw [← heq])
      rw [liveNode_ne live node hid]
      simp only [hne, false_or]

theorem inStep_buildFromArena {a : NodeArena FullNodeEntry} (h : a.Bounded) :
    InStep (liveNodes a) (buildFromArena a) := by
  have hfold := inStep_foldl a.iter inStep_new (fun _ _ => rfl) (NodeArena.nodup_iter a)
  have hlive : a.iter.foldl liveNode (fun _ => none) = liveNodes a := by
    funext id
    apply Option.ext
    intro entry
    rw [foldl_liveNode _ _ (fun _ _ => rfl) (NodeArena.nodup_iter a), NodeArena.mem_iter_iff h,
      liveNodes, Option.filter_eq_some_iff]
    simp [NodeEntry.isUnifiedLoser]
  rw [hlive] at hfold
  exact hfold

end Rebuild

section Steps

structure IndexedArena where
  arena : NodeArena FullNodeEntry
  indices : AuxiliaryIndices

inductive IndexOp where
  | insert (entry : FullNodeEntry)
  | remove (id : NodeId)
  | removeFile (file : FileId)
  | retain (keep : NodeId → Bool)
  | remap (remap : StringRemap)
  | unify (loser winner : NodeId)

def rewriteNodeEntries (a : NodeArena FullNodeEntry) (remap : StringRemap) :
    NodeArena FullNodeEntry :=
  if remap.entries.isEmpty then a else a.mapEntries (remapEntry remap)

def start : IndexedArena := ⟨NodeArena.new, new⟩

/-- A step that removes all nodes of a kind is one that the arena follows: it gives up every
one of them. -/
def step (s : IndexedArena) : IndexOp → Option IndexedArena
  | .insert entry =>
    match s.arena.alloc entry with
    | (arena, .ok id) => some ⟨arena,
        (s.indices.add id entry.kind entry.name entry.qualifiedName entry.file).1⟩
    | (arena, .error _) => some ⟨arena, s.indices⟩
  | .remove id =>
    match s.arena.remove id with
    | (arena, some entry) => some ⟨arena,
        (s.indices.remove id entry.kind entry.name entry.qualifiedName entry.file).1⟩
    | (arena, none) => some ⟨arena, s.indices⟩
  | .removeFile file =>
    let nodes := s.arena.iter.filter fun node => node.2.file = file
    let arena := s.arena.removeAll (nodes.map Prod.fst)
    if arena.iter.any fun node => node.2.file = file then none
    else some ⟨arena, (s.indices.removeFileWithInfo file (nodes.map infoOf)).1⟩
  | .retain keep =>
    let nodes := s.arena.iter.filter fun node => !keep node.1
    let arena := s.arena.removeAll (nodes.map Prod.fst)
    if arena.iter.any fun node => !keep node.1 then none
    else some ⟨arena, s.indices.retainNodeIds keep⟩
  | .remap remap =>
    some ⟨rewriteNodeEntries s.arena remap, s.indices.rewriteStringIdsThroughRemap remap⟩
  | .unify loser winner =>
    match s.arena.get loser with
    | none => some s
    | some entry =>
      match s.arena.mergeNodeInto loser winner with
      | (arena, .ok ()) => some ⟨arena,
          (s.indices.remove loser entry.kind entry.name entry.qualifiedName entry.file).1⟩
      | (arena, .error _) => some ⟨arena, s.indices⟩

def TargetsStay (_ : IndexedArena) : IndexOp → Prop
  | .remap remap => RemapStays remap
  | _ => True

def NamesValid (_ : IndexedArena) : IndexOp → Prop
  | .insert entry => entry.name ≠ StringId.INVALID
  | .remap remap => remap.lookup StringId.INVALID = none ∧
      ∀ old canon, remap.lookup old = some canon → canon ≠ StringId.INVALID
  | _ => True

structure Synced (s : IndexedArena) : Prop where
  bounded : s.arena.Bounded
  inStep : InStep (liveNodes s.arena) s.indices

theorem synced_start : Synced start := ⟨NodeArena.bounded_new, inStep_new⟩

variable {s s' : IndexedArena}
variable {a a' : NodeArena FullNodeEntry} {entry : FullNodeEntry} {id : NodeId}

theorem liveNodes_update {entry : Option FullNodeEntry}
    (h : a'.entryAt = Function.update a.entryAt id entry) :
    liveNodes a' = Function.update (liveNodes a) id
      (entry.filter fun entry => !entry.isUnifiedLoser) := by
  funext other
  rw [liveNodes, h]
  by_cases hne : other = id
  · rw [hne, Function.update_self, Function.update_self]
  · rw [Function.update_of_ne hne, Function.update_of_ne hne]
    rfl

theorem liveNodes_congr (h : a'.entryAt = a.entryAt) :
    liveNodes a' = liveNodes a := by
  funext id
  rw [liveNodes, h]
  rfl

theorem entryAt_of_liveNodes {a : NodeArena FullNodeEntry} (h : liveNodes a id = some entry)
    : a.entryAt id = some entry :=
  (Option.filter_eq_some_iff.mp h).1

theorem atMost_liveNodes {a : NodeArena FullNodeEntry} (h : a.entryAt id = some entry)
    : AtMost (liveNodes a) id entry := by
  intro other hother
  have hsame := entryAt_of_liveNodes hother
  rw [h] at hsame
  exact (Option.some.inj hsame).symm

theorem synced_insert (h : Synced s) (hname : entry.name ≠ StringId.INVALID)
    (hstep : step s (.insert entry) = some s') :
    Synced s' := by
  have hbounded := NodeArena.bounded_alloc h.bounded entry
  simp only [step] at hstep
  cases halloc : s.arena.alloc entry with
  | mk arena result =>
    rw [halloc] at hstep hbounded
    cases result with
    | error e =>
      cases hstep
      have hsame := NodeArena.entryAt_alloc_error (congrArg Prod.snd halloc)
      rw [halloc] at hsame
      refine ⟨hbounded, ?_⟩
      rw [liveNodes_congr hsame]
      exact h.inStep
    | ok id =>
      cases hstep
      obtain ⟨hnone, hentryAt⟩ := NodeArena.entryAt_alloc_ok (congrArg Prod.snd halloc)
      rw [halloc] at hentryAt
      refine ⟨hbounded, ?_⟩
      have hvalid : entry.isUnifiedLoser = false := decide_eq_false hname
      have hnew : liveNodes s.arena id = none := by
        rw [liveNodes, hnone]
        rfl
      rw [liveNodes_update hentryAt, Option.filter_some, hvalid]
      exact h.inStep.add hnew entry

theorem synced_remove (h : Synced s) (hstep : step s (.remove id) = some s') :
    Synced s' := by
  have hbounded := NodeArena.bounded_remove h.bounded id
  simp only [step] at hstep
  cases NodeArena.remove_cases s.arena id with
  | inl hsame =>
    rw [hsame] at hstep
    cases hstep
    exact h
  | inr htaken =>
    obtain ⟨entry, hresult, hentry, hentryAt, _⟩ := htaken
    cases hremove : s.arena.remove id with
    | mk arena result =>
      rw [hremove] at hstep hbounded hresult hentryAt
      cases hresult
      cases hstep
      refine ⟨hbounded, ?_⟩
      rw [liveNodes_update hentryAt]
      exact h.inStep.remove (atMost_liveNodes hentry)

theorem any_eq_false_of_not {α : Type} {p : α → Bool} {xs : List α} (h : ¬ xs.any p = true) :
    ∀ a ∈ xs, p a = false := by
  intro a ha
  cases hp : p a with
  | false => rfl
  | true => exact absurd (List.any_eq_true.mpr ⟨a, ha, hp⟩) h

theorem synced_removeFile (h : Synced s) {file : FileId}
    (hstep : step s (.removeFile file) = some s') : Synced s' := by
  simp only [step] at hstep
  split at hstep
  · cases hstep
  · rename_i hleft
    cases hstep
    have hentryAt := NodeArena.entryAt_removeAll_filter h.bounded _ (any_eq_false_of_not hleft)
    have hnodes : ∀ node ∈ s.arena.iter.filter (fun node => node.2.file = file),
        s.arena.entryAt node.1 = some node.2 ∧ node.2.file = file := by
      intro node hnode
      obtain ⟨hiter, hfile⟩ := List.mem_filter.mp hnode
      exact ⟨(NodeArena.mem_iter_iff h.bounded).mp hiter, of_decide_eq_true hfile⟩
    have hmem : ∀ id entry, s.arena.entryAt id = some entry →
        (id ∈ (s.arena.iter.filter fun node => node.2.file = file).map Prod.fst ↔
          entry.file = file) := by
      intro id entry hentry
      constructor
      · intro hid
        obtain ⟨node, hnode, hnodeId⟩ := List.mem_map.mp hid
        obtain ⟨hstored, hfile⟩ := hnodes node hnode
        rw [hnodeId, hentry] at hstored
        rw [Option.some.inj hstored]
        exact hfile
      · intro hfile
        exact List.mem_map.mpr ⟨(id, entry), List.mem_filter.mpr
          ⟨(NodeArena.mem_iter_iff h.bounded).mpr hentry, decide_eq_true hfile⟩, rfl⟩
    refine ⟨(NodeArena.removeAll_spec h.bounded _).1, ?_⟩
    have hindices := h.inStep.removeFileWithInfo
      (fun node hnode => atMost_liveNodes (hnodes node hnode).1)
      (fun id entry hlive => hmem id entry (entryAt_of_liveNodes hlive))
    have hlive : liveNodes (s.arena.removeAll
        ((s.arena.iter.filter fun node => node.2.file = file).map Prod.fst)) =
        dropNodes (liveNodes s.arena)
          ((s.arena.iter.filter fun node => node.2.file = file).map Prod.fst) := by
      funext id
      rw [liveNodes, hentryAt, dropNodes, liveNodes]
      cases hentry : s.arena.entryAt id with
      | none => simp
      | some entry =>
        by_cases hfile : entry.file = file
        · rw [if_pos ((hmem id entry hentry).mpr hfile)]
          simp [hfile]
        · rw [if_neg fun hid => hfile ((hmem id entry hentry).mp hid)]
          simp [Option.filter_some, hfile]
    rw [hlive]
    exact hindices

theorem synced_retain (h : Synced s) {keep : NodeId → Bool}
    (hstep : step s (.retain keep) = some s') : Synced s' := by
  simp only [step] at hstep
  split at hstep
  · cases hstep
  · rename_i hleft
    cases hstep
    have hentryAt := NodeArena.entryAt_removeAll_filter h.bounded _ (any_eq_false_of_not hleft)
    refine ⟨(NodeArena.removeAll_spec h.bounded _).1, ?_⟩
    have hlive : liveNodes (s.arena.removeAll
        ((s.arena.iter.filter fun node => !keep node.1).map Prod.fst)) =
        fun id => if keep id then liveNodes s.arena id else none := by
      funext id
      rw [liveNodes, hentryAt]
      cases hkeep : keep id with
      | true => simp [liveNodes, hkeep]
      | false => simp [hkeep]
    rw [hlive]
    exact h.inStep.retainNodeIds keep

theorem synced_remap (h : Synced s) {remap : StringRemap} (hstays : RemapStays remap)
    (hinvalid : remap.lookup StringId.INVALID = none)
    (htargets : ∀ old canon, remap.lookup old = some canon → canon ≠ StringId.INVALID)
    (hstep : step s (.remap remap) = some s') : Synced s' := by
  cases hstep
  have hentryAt : ∀ id, (rewriteNodeEntries s.arena remap).entryAt id =
      (s.arena.entryAt id).map (remapEntry remap) := by
    intro id
    rw [rewriteNodeEntries]
    by_cases hempty : remap.entries.isEmpty = true
    · rw [if_pos hempty]
      cases s.arena.entryAt id with
      | none => rfl
      | some entry => simp [remapEntry, canonicalName_of_isEmpty hempty]
    · rw [if_neg hempty, NodeArena.entryAt_mapEntries]
  have hloser : ∀ entry : FullNodeEntry,
      (remapEntry remap entry).isUnifiedLoser = entry.isUnifiedLoser := by
    intro entry
    have hname : canonicalName remap entry.name = StringId.INVALID ↔
        entry.name = StringId.INVALID := by
      rw [canonicalName]
      cases hlookup : remap.lookup entry.name with
      | none => rfl
      | some canon =>
        have hne : entry.name ≠ StringId.INVALID := by
          intro heq
          rw [heq, hinvalid] at hlookup
          cases hlookup
        exact iff_of_false (htargets _ _ hlookup) hne
    rw [Bool.eq_iff_iff, isUnifiedLoser_iff, isUnifiedLoser_iff]
    exact hname
  have hlive : liveNodes (rewriteNodeEntries s.arena remap) =
      fun id => (liveNodes s.arena id).map (remapEntry remap) := by
    funext id
    rw [liveNodes, hentryAt, liveNodes]
    cases s.arena.entryAt id with
    | none => rfl
    | some entry =>
      cases hentry : entry.isUnifiedLoser with
      | true => simp [Option.filter_some, hloser, hentry]
      | false => simp [Option.filter_some, hloser, hentry]
  refine ⟨?_, ?_⟩
  · simp only [rewriteNodeEntries]
    split
    · exact h.bounded
    · exact NodeArena.bounded_mapEntries h.bounded _
  · rw [hlive]
    exact h.inStep.rewriteStringIds hstays

theorem live_merge_keys {winner : NodeId} {w l : FullNodeEntry} (hwinner : a.get winner = some w)
    (hentryAt : a'.entryAt = Function.update a.entryAt winner (some (w.merge l))) (id : NodeId) :
    (liveNodes a' id).map indexKeys = (liveNodes a id).map indexKeys := by
  rw [liveNodes_update hentryAt]
  by_cases hne : id = winner
  · obtain ⟨hkind, hname, hqualified, hfile⟩ := FullNodeEntry.merge_keys w l
    have hloser : (w.merge l).isUnifiedLoser = w.isUnifiedLoser := by
      rw [Bool.eq_iff_iff, isUnifiedLoser_iff, isUnifiedLoser_iff, hname]
    rw [hne, Function.update_self, liveNodes, NodeArena.entryAt_of_get hwinner,
      Option.filter_some, Option.filter_some, hloser]
    cases w.isUnifiedLoser with
    | true => rfl
    | false => simp [indexKeys, hkind, hname, hqualified, hfile]
  · rw [Function.update_of_ne hne]

theorem synced_unify (h : Synced s) {loser winner : NodeId}
    (hstep : step s (.unify loser winner) = some s') : Synced s' := by
  simp only [step] at hstep
  cases NodeArena.mergeNodeInto_cases s.arena loser winner with
  | inl herror =>
    obtain ⟨e, hmerge⟩ := herror
    cases hget : s.arena.get loser with
    | none =>
      simp only [hget] at hstep
      cases hstep
      exact h
    | some entry =>
      simp only [hget, hmerge] at hstep
      cases hstep
      exact h
  | inr hmerged =>
    obtain ⟨l, w, hne, hloser, hwinner, hmerge⟩ := hmerged
    simp only [hloser, hmerge] at hstep
    cases hstep
    refine ⟨NodeArena.bounded_write (NodeArena.bounded_write h.bounded _ _) _ _, ?_⟩
    have hwinnerEntry := NodeArena.entryAt_write (NodeArena.entryAt_of_get hwinner) (w.merge l)
    have hloserAt : (s.arena.write winner (w.merge l)).entryAt loser = some l := by
      rw [hwinnerEntry, Function.update_of_ne hne]
      exact NodeArena.entryAt_of_get hloser
    -- the winner keeps its keys, and the loser goes as if it were removed
    have hmergedLive := h.inStep.congr (live_merge_keys hwinner hwinnerEntry)
    rw [liveNodes_update (NodeArena.entryAt_write hloserAt l.clear), Option.filter_some,
      FullNodeEntry.isUnifiedLoser_clear]
    exact hmergedLive.remove (atMost_liveNodes hloserAt)

theorem synced_step {op : IndexOp} (h : Synced s) (htargets : TargetsStay s op)
    (hnames : NamesValid s op) (hstep : step s op = some s') : Synced s' := by
  cases op with
  | insert entry => exact synced_insert h hnames hstep
  | remove id => exact synced_remove h hstep
  | removeFile file => exact synced_removeFile h hstep
  | retain keep => exact synced_retain h hstep
  | remap remap => exact synced_remap h htargets hnames.1 hnames.2 hstep
  | unify loser winner => exact synced_unify h hstep

end Steps

section Runs

structure SameIndex {κ : Type} [DecidableEq κ] (index rebuilt : IndexMap κ) : Prop where
  mem_iff : ∀ key id, id ∈ Buckets.bucket index key ↔ id ∈ Buckets.bucket rebuilt key
  nodup : ∀ key, (Buckets.bucket index key).Nodup
  nonempty : ∀ key ids, index.lookup key = some ids → ids ≠ []

/-- The indices are those that a rebuild gives, up to the order in the buckets, and `len` is
the number of the nodes that they hold. -/
structure Rebuilt (x rebuilt : AuxiliaryIndices) : Prop where
  kind : SameIndex x.kindIndex rebuilt.kindIndex
  name : SameIndex x.nameIndex rebuilt.nameIndex
  qualified : SameIndex x.qualifiedNameIndex rebuilt.qualifiedNameIndex
  file : SameIndex x.fileIndex rebuilt.fileIndex
  nodup : (Buckets.all x.kindIndex).Nodup
  len_eq : x.len = (Buckets.all x.kindIndex).length
  len_rebuilt : x.len = rebuilt.len

theorem sameIndex_of_indexed {κ : Type} [DecidableEq κ] {key : NodeId → Option κ}
    {index rebuilt : IndexMap κ} (h : KeyIndex.Indexed key index)
    (hrebuilt : KeyIndex.Indexed key rebuilt) : SameIndex index rebuilt where
  mem_iff := by
    intro k id
    rw [h.mem_iff, hrebuilt.mem_iff]
  nodup := h.nodup
  nonempty := h.nonempty

theorem Synced.rebuilt {s : IndexedArena} (h : Synced s) :
    Rebuilt s.indices (buildFromArena s.arena) := by
  have hbuild := inStep_buildFromArena h.bounded
  have hlen : s.indices.len = (Buckets.all s.indices.kindIndex).length := h.inStep.count
  refine ⟨sameIndex_of_indexed h.inStep.kind hbuild.kind,
    sameIndex_of_indexed h.inStep.name hbuild.name,
    sameIndex_of_indexed h.inStep.qualified hbuild.qualified,
    sameIndex_of_indexed h.inStep.file hbuild.file, h.inStep.kind.nodup_all, hlen, ?_⟩
  rw [hlen, h.inStep.kind.length_all hbuild.kind]
  exact hbuild.count.symm

/-- After every step the indices are those a rebuild from the arena would give, as long as the
mark of merged nodes is neither inserted as a name nor rewritten nor rewritten to. -/
theorem indices_rebuilt (ops : List IndexOp) {s : IndexedArena}
    (htargets : StepSystem.RunOk step TargetsStay start ops)
    (hnames : StepSystem.RunOk step NamesValid start ops)
    (hrun : StepSystem.run step start ops = some s) :
    Rebuilt s.indices (buildFromArena s.arena) := by
  have preserved : ∀ (s : IndexedArena) (op : IndexOp) (s' : IndexedArena), Synced s →
      TargetsStay s op ∧ NamesValid s op → step s op = some s' → Synced s' := by
    intro s op s' hs hok hstep
    exact synced_step hs hok.1 hok.2 hstep
  exact (StepSystem.invariant_of_runOk preserved synced_start
    (StepSystem.runOk_and htargets hnames) hrun).rebuilt

def sampleEntry (kind : NodeKind) (name : UInt8) (file : FileId) : FullNodeEntry :=
  { FullNodeEntry.new kind (StringId.ofUInt8 name) file with
    qualifiedName := some (StringId.ofUInt8 name) }

/-- Three functions, the names of two of them merged, then one of these merged into the other,
and the file of the third removed. -/
def sampleRun : List IndexOp :=
  [.insert (sampleEntry .function 1 1), .insert (sampleEntry .function 2 2),
    .insert (sampleEntry .method 3 3),
    .remap (AList.singleton (StringId.ofUInt8 2) (StringId.ofUInt8 1)),
    .unify ⟨1, 1⟩ ⟨0, 1⟩, .removeFile 3]

theorem sampleRun_remap {old canon : StringId}
    (h : (AList.singleton (StringId.ofUInt8 2) (StringId.ofUInt8 1) : StringRemap).lookup old =
      some canon) : old = StringId.ofUInt8 2 ∧ canon = StringId.ofUInt8 1 := by
  have hmem := AList.mem_lookup_iff.mp h
  rw [AList.singleton_entries, List.mem_singleton] at hmem
  cases hmem
  exact ⟨rfl, rfl⟩

theorem sampleRun_targets (op : IndexOp) (hop : op ∈ sampleRun) (s : IndexedArena) :
    TargetsStay s op := by
  simp only [sampleRun, List.mem_cons, List.not_mem_nil, or_false] at hop
  rcases hop with rfl | rfl | rfl | rfl | rfl | rfl
  case inr.inr.inr.inl =>
    intro old canon hold
    rw [(sampleRun_remap hold).2]
    rfl
  all_goals trivial

theorem sampleRun_names (op : IndexOp) (hop : op ∈ sampleRun) (s : IndexedArena) :
    NamesValid s op := by
  simp only [sampleRun, List.mem_cons, List.not_mem_nil, or_false] at hop
  rcases hop with rfl | rfl | rfl | rfl | rfl | rfl
  case inr.inr.inr.inl =>
    refine ⟨rfl, ?_⟩
    intro old canon hold
    rw [(sampleRun_remap hold).2]
    decide
  case inr.inr.inr.inr.inl => trivial
  case inr.inr.inr.inr.inr => trivial
  all_goals
    simp only [NamesValid]
    decide

theorem indices_rebuilt_sampleRun : ∃ s, StepSystem.run step start sampleRun = some s ∧
    Buckets.bucket s.indices.nameIndex (StringId.ofUInt8 1) = [⟨0, 1⟩] ∧ s.indices.len = 1 ∧
    Rebuilt s.indices (buildFromArena s.arena) :=
  ⟨_, rfl, rfl, rfl, indices_rebuilt sampleRun
    (StepSystem.runOk_of_forall_mem fun op hop s => sampleRun_targets op hop s)
    (StepSystem.runOk_of_forall_mem fun op hop s => sampleRun_names op hop s) rfl⟩

/-- A node inserted under the mark is found by its kind, and a rebuild loses it. -/
theorem marked_insert_not_rebuilt : ∃ s,
    StepSystem.run step start [.insert (FullNodeEntry.new .function StringId.INVALID 1)] = some s ∧
    s.indices.len = 1 ∧ (buildFromArena s.arena).len = 0 ∧
    ¬ Rebuilt s.indices (buildFromArena s.arena) := by
  refine ⟨_, rfl, rfl, rfl, ?_⟩
  intro h
  exact absurd h.len_rebuilt (by decide)

end Runs

end AuxiliaryIndices
end Sqry
