import Sqry.Graph.ArenaRuns
import Sqry.Graph.CodeGraph

/-!
The fact epochs of the snapshots that are written to one path, and the provenance records of the
nodes in them. A save reads the epoch of the file that is there, and takes over the records that
the graph in memory carries. A graph carries records only when it was loaded.
-/

namespace Sqry

def NodeProvenance.fresh (epoch : Nat) (contentHash : List UInt8) : NodeProvenance :=
  ⟨epoch, epoch, contentHash⟩

namespace NodeProvenanceStore

def resizeTo (s : NodeProvenanceStore) (arenaSlotCount : Nat) : NodeProvenanceStore :=
  ⟨s.slots.take arenaSlotCount ++ List.replicate (arenaSlotCount - s.slots.length) none⟩

def insert (s : NodeProvenanceStore) (id : NodeId) (provenance : NodeProvenance) :
    NodeProvenanceStore :=
  ⟨(s.slots ++ List.replicate (id.index + 1 - s.slots.length) none).set id.index
    (some (id.generation, provenance))⟩

theorem lookup_eq_some_iff {s : NodeProvenanceStore} {id : NodeId} {provenance : NodeProvenance} :
    s.lookup id = some provenance ↔ s.slots[id.index]? = some (some (id.generation, provenance)) := by
  rw [lookup]
  cases hslot : s.slots[id.index]? with
  | none => simp
  | some slot =>
    cases slot with
    | none => simp
    | some record =>
      obtain ⟨generation, stored⟩ := record
      by_cases hgen : generation = id.generation
      · simp [hgen]
      · simp [hgen]

theorem lookup_insert (s : NodeProvenanceStore) (id : NodeId) (provenance : NodeProvenance)
    {other : NodeId} {found : NodeProvenance} :
    (s.insert id provenance).lookup other = some found ↔
      id = other ∧ provenance = found ∨ id.index ≠ other.index ∧ s.lookup other = some found := by
  rw [lookup_eq_some_iff, lookup_eq_some_iff, insert]
  by_cases hindex : id.index = other.index
  · have hlt : other.index <
        (s.slots ++ List.replicate (other.index + 1 - s.slots.length) none).length := by
      rw [List.length_append, List.length_replicate]
      omega
    rw [hindex, List.getElem?_set_self hlt]
    constructor
    · intro heq
      simp only [Option.some.injEq, Prod.mk.injEq] at heq
      cases id
      cases other
      cases hindex
      cases heq.1
      exact Or.inl ⟨rfl, heq.2⟩
    · intro hor
      cases hor with
      | inl heq => rw [heq.1, heq.2]
      | inr hne => exact absurd rfl hne.1
  · have hne : id ≠ other := fun heq => hindex (congrArg NodeId.index heq)
    rw [List.getElem?_set_ne hindex]
    constructor
    · intro hslot
      refine Or.inr ⟨hindex, ?_⟩
      by_cases hlt : other.index < s.slots.length
      · rw [List.getElem?_append_left hlt] at hslot
        exact hslot
      · rw [List.getElem?_append_right (Nat.le_of_not_lt hlt)] at hslot
        have hreplicate := List.eq_of_mem_replicate (List.mem_of_getElem? hslot)
        cases hreplicate
    · intro hor
      have hslot := (hor.resolve_left fun heq => hne heq.1).2
      rw [List.getElem?_append_left (List.getElem?_eq_some_iff.mp hslot).1]
      exact hslot

theorem lookup_resizeTo_new (n : Nat) (id : NodeId) : (new.resizeTo n).lookup id = none := by
  refine Option.eq_none_iff_forall_ne_some.mpr fun provenance hsome => ?_
  rw [lookup_eq_some_iff, resizeTo, new] at hsome
  have hmem := List.mem_of_getElem? hsome
  rw [List.take_nil, List.nil_append] at hmem
  cases List.eq_of_mem_replicate hmem

theorem lookup_foldl_insert {α : Type} {record : NodeId × α → NodeProvenance}
    {nodes : List (NodeId × α)} {s : NodeProvenanceStore} (hempty : ∀ id, s.lookup id = none)
    (hslots : ∀ p ∈ nodes, ∀ q ∈ nodes, p.1.index = q.1.index → p = q) {id : NodeId}
    {found : NodeProvenance} :
    (nodes.foldl (fun store node => store.insert node.1 (record node)) s).lookup id = some found ↔
      ∃ entry, (id, entry) ∈ nodes ∧ record (id, entry) = found := by
  induction nodes using List.reverseRecOn with
  | nil => simp [hempty]
  | append_singleton nodes node ih =>
    have hinit : ∀ p ∈ nodes, ∀ q ∈ nodes, p.1.index = q.1.index → p = q := fun p hp q hq =>
      hslots p (List.mem_append_left _ hp) q (List.mem_append_left _ hq)
    have hlast : node ∈ nodes ++ [node] := List.mem_append_right _ List.mem_cons_self
    rw [List.foldl_append, List.foldl_cons, List.foldl_nil, lookup_insert, ih hinit]
    constructor
    · intro hor
      cases hor with
      | inl heq =>
        obtain ⟨hid, hrecord⟩ := heq
        subst hid
        exact ⟨node.2, hlast, hrecord⟩
      | inr hbefore =>
        obtain ⟨-, entry, hmem, hrecord⟩ := hbefore
        exact ⟨entry, List.mem_append_left _ hmem, hrecord⟩
    · intro ⟨entry, hmem, hrecord⟩
      by_cases hindex : node.1.index = id.index
      · have hsame := hslots node hlast (id, entry) hmem hindex
        rw [hsame]
        exact Or.inl ⟨rfl, hrecord⟩
      · refine Or.inr ⟨hindex, entry, ?_, hrecord⟩
        cases List.mem_append.mp hmem with
        | inl hin => exact hin
        | inr hin => exact absurd (by rw [← List.mem_singleton.mp hin]) hindex

end NodeProvenanceStore

def nodeContentHash (entry : FullNodeEntry) : List UInt8 :=
  match entry.bodyHash with
  | some hash =>
    ((List.range 16).map fun i =>
      UInt8.ofNat ((hash.1.toNat * 2 ^ 64 + hash.2.toNat) / 256 ^ i)) ++ List.replicate 16 0
  | none => List.replicate 32 0

/-- `prev_epoch + 1` wraps. -/
def nextFactEpoch (prevEpoch : Option Nat) (nowSecs : UInt64) : Nat :=
  max ((prevEpoch.getD 0 + 1) % (u64Max + 1)) nowSecs.toNat

namespace CodeGraph
variable {π μ δ : Type} [DecidableEq π]

def recordNodes (g : CodeGraph π μ δ) (record : NodeId × FullNodeEntry → NodeProvenance) :
    NodeProvenanceStore :=
  g.nodes.iter.foldl (fun store node => store.insert node.1 (record node))
    (NodeProvenanceStore.new.resizeTo g.nodes.slotCount)

def buildProvenanceFromSnapshot (g : CodeGraph π μ δ) (epoch : Nat) : NodeProvenanceStore :=
  g.recordNodes fun node => .fresh epoch (nodeContentHash node.2)

def mergeProvenanceFromSnapshot (g : CodeGraph π μ δ) (epoch : Nat) : NodeProvenanceStore :=
  g.recordNodes fun node =>
    match g.nodeProvenance.lookup node.1 with
    | some existing => ⟨existing.firstSeenEpoch, epoch, nodeContentHash node.2⟩
    | none => .fresh epoch (nodeContentHash node.2)

def resolveProvenance (g : CodeGraph π μ δ) (epoch : Nat) : NodeProvenanceStore :=
  if g.factEpoch > 0 then g.mergeProvenanceFromSnapshot epoch
  else g.buildProvenanceFromSnapshot epoch

end CodeGraph

def stampFileIndexedAt {π : Type} (entries : List (Option (Registry.FileEntry π))) (epoch : Nat) :
    List (Option (Registry.FileEntry π)) :=
  entries.mapIdx fun i entry =>
    if i = 0 ∨ i > u32Max then entry else entry.map fun entry => { entry with indexedAt := epoch }

structure SavedSnapshot (π μ δ : Type) [DecidableEq π] where
  factEpoch : Nat
  data : CodeGraph π μ δ

section Files
variable {π μ δ : Type} [DecidableEq π]

def CodeGraph.saved (g : CodeGraph π μ δ) (factEpoch : Nat) : SavedSnapshot π μ δ :=
  ⟨factEpoch, { g with
    nodeProvenance := g.resolveProvenance factEpoch
    files := { g.files with entries := stampFileIndexedAt g.files.entries factEpoch } }⟩

def SavedSnapshot.loaded (s : SavedSnapshot π μ δ) : CodeGraph π μ δ :=
  { s.data with factEpoch := s.factEpoch, epoch := 0 }

def CodeGraph.IsLive (g : CodeGraph π μ δ) (id : NodeId) : Prop :=
  ∃ entry, (id, entry) ∈ g.nodes.iter

instance (g : CodeGraph π μ δ) (id : NodeId) : Decidable (g.IsLive id) :=
  decidable_of_iff (id ∈ g.nodes.iter.map Prod.fst) (by simp [CodeGraph.IsLive])

end Files

/-- The graph in memory, the files that were written to the path, of which the last one is there,
and how many of them there were at the last load. -/
structure SaveWorld (π μ δ : Type) [DecidableEq π] where
  graph : CodeGraph π μ δ
  written : List (SavedSnapshot π μ δ)
  loadedAt : Nat

inductive SaveOp where
  | save (nowSecs : UInt64) (replaced : Bool)
  | load
  | insert (entry : FullNodeEntry)
  | remove (id : NodeId)
  | allocRange (count : Nat) (placeholder : FullNodeEntry)

namespace SaveWorld
variable {π μ δ : Type} [DecidableEq π]

def start : SaveWorld π μ δ := ⟨CodeGraph.new, [], 0⟩

def epochOnDisk (w : SaveWorld π μ δ) : Option Nat :=
  w.written.getLast?.map SavedSnapshot.factEpoch

/-- `none` when a range of slots cannot be allocated at all. -/
def step (w : SaveWorld π μ δ) : SaveOp → Option (SaveWorld π μ δ)
  | .save nowSecs replaced =>
    if replaced then
      some { w with
        written := w.written ++ [w.graph.saved (nextFactEpoch w.epochOnDisk nowSecs)] }
    else some w
  | .load =>
    match w.written.getLast? with
    | none => some w
    | some s => some { w with graph := s.loaded, loadedAt := w.written.length }
  | .insert entry =>
    some { w with graph := { w.graph with nodes := (w.graph.nodes.alloc entry).1 } }
  | .remove id =>
    some { w with graph := { w.graph with nodes := (w.graph.nodes.remove id).1 } }
  | .allocRange count placeholder =>
    (w.graph.nodes.allocRange count placeholder).map fun result =>
      { w with graph := { w.graph with nodes := result.1 } }

/-- The epochs grow from file to file, and in each file a live node has a record with the epoch of
the first file it was live in and the epoch of this one. -/
def Kept (written : List (SavedSnapshot π μ δ)) : Prop :=
  (written.map SavedSnapshot.factEpoch).Pairwise (· < ·) ∧
    ∀ s ∈ written, ∀ id, s.data.IsLive id → ∃ record,
      s.data.nodeProvenance.lookup id = some record ∧ record.lastSeenEpoch = s.factEpoch ∧
        ∃ first, written.find? (fun t => decide (t.data.IsLive id)) = some first ∧
          record.firstSeenEpoch = first.factEpoch

def HistoryKept (w : SaveWorld π μ δ) : Prop := Kept w.written

/-- A save writes no node for a second time that was not in a file before the last load, and the
epoch on disk can grow. -/
def Renews (w : SaveWorld π μ δ) : SaveOp → Prop
  | .save _ true =>
    w.epochOnDisk ≠ some u64Max ∧
      ∀ id, w.graph.IsLive id → (∃ s ∈ w.written, s.data.IsLive id) →
        ∃ s ∈ w.written.take w.loadedAt, s.data.IsLive id
  | _ => True

end SaveWorld

namespace NodeArena
open ArenaHistory (Dead)
variable {α : Type}

/-- One arena came later than another: what was dead stays dead, and what was live is live or
dead. -/
structure Follows (a b : NodeArena α) : Prop where
  dead : ∀ id, Dead (a.slots.map Slot.view) id → Dead (b.slots.map Slot.view) id
  live : ∀ id entry, (id, entry) ∈ a.iter →
    (∃ entry', (id, entry') ∈ b.iter) ∨ Dead (b.slots.map Slot.view) id

variable {id : NodeId}

theorem mem_iter_view {a : NodeArena α} {entry : α} :
    (id, entry) ∈ a.iter ↔ id.index ≤ u32Max ∧
      (a.slots.map Slot.view)[id.index]? = some (id.generation, some entry) := by
  rw [mem_iter, List.getElem?_map]
  refine and_congr_right fun _ => ?_
  cases a.slots[id.index]? with
  | none => simp
  | some slot => simp [Slot.view, Prod.ext_iff]

theorem not_dead_of_mem_iter {a : NodeArena α} {entry : α} (h : (id, entry) ∈ a.iter)
    : ¬ Dead (a.slots.map Slot.view) id := by
  intro ⟨v, hv, hdead⟩
  rw [(mem_iter_view.mp h).2] at hv
  cases hv
  cases hdead with
  | inl hlt => exact Nat.lt_irrefl _ hlt
  | inr heq => cases heq.2

theorem Follows.refl (a : NodeArena α) : a.Follows a :=
  ⟨fun _ h => h, fun _ entry h => Or.inl ⟨entry, h⟩⟩

theorem Follows.trans {a b c : NodeArena α} (hab : a.Follows b) (hbc : b.Follows c) :
    a.Follows c := by
  refine ⟨fun id h => hbc.dead id (hab.dead id h), fun id entry h => ?_⟩
  cases hab.live id entry h with
  | inl hlive =>
    obtain ⟨entry', h'⟩ := hlive
    exact hbc.live id entry' h'
  | inr hdead => exact Or.inr (hbc.dead id hdead)

theorem Follows.live_between {a b c : NodeArena α} (hab : a.Follows b) (hbc : b.Follows c)
    {entry entry' : α} (ha : (id, entry) ∈ a.iter) (hc : (id, entry') ∈ c.iter) :
    ∃ entry, (id, entry) ∈ b.iter := by
  cases hab.live id entry ha with
  | inl hlive => exact hlive
  | inr hdead => exact absurd (hbc.dead id hdead) (not_dead_of_mem_iter hc)

theorem follows_append {a b : NodeArena α} {more : List (Nat × Option α)}
    (h : b.slots.map Slot.view = a.slots.map Slot.view ++ more) : a.Follows b := by
  refine ⟨fun id hdead => ?_, fun id entry hlive => Or.inl ⟨entry, ?_⟩⟩
  · rw [h]
    exact ArenaHistory.dead_append hdead
  · obtain ⟨hle, hview⟩ := mem_iter_view.mp hlive
    refine mem_iter_view.mpr ⟨hle, ?_⟩
    rw [h, List.getElem?_append_left (List.getElem?_eq_some_iff.mp hview).1]
    exact hview

theorem follows_alloc (a : NodeArena α) (entry : α) : a.Follows (a.alloc entry).1 := by
  cases view_alloc a entry with
  | inl herror =>
    obtain ⟨_, -, hslots⟩ := herror
    exact follows_append ((congrArg _ hslots).trans (List.append_nil _).symm)
  | inr hok =>
    cases hok with
    | inr happend => exact follows_append happend.2
    | inl hreuse =>
      obtain ⟨i, g, -, hi, hview⟩ := hreuse
      refine ⟨fun id hdead => ?_, fun id entry' hlive => Or.inl ⟨entry', ?_⟩⟩
      · rw [hview]
        exact ArenaHistory.dead_set_next hdead hi
      · obtain ⟨hle, hat⟩ := mem_iter_view.mp hlive
        have hne : i ≠ id.index := by
          intro heq
          rw [heq, hat] at hi
          cases hi
        refine mem_iter_view.mpr ⟨hle, ?_⟩
        rw [hview, List.getElem?_set_ne hne]
        exact hat

theorem follows_remove (a : NodeArena α) (id : NodeId) : a.Follows (a.remove id).1 := by
  cases view_remove a id with
  | inl hsame =>
    rw [hsame]
    exact .refl a
  | inr hremoved =>
    obtain ⟨removed, -, hat, hview⟩ := hremoved
    refine ⟨fun other hdead => ?_, fun other entry hlive => ?_⟩
    · rw [hview]
      exact ArenaHistory.dead_set_vacant hdead hat
    · obtain ⟨hle, hother⟩ := mem_iter_view.mp hlive
      by_cases hindex : id.index = other.index
      · rw [hindex, hother] at hat
        have hgen : other.generation = id.generation :=
          (Prod.mk.inj (Option.some.inj hat)).1
        have hlt := (List.getElem?_eq_some_iff.mp hother).1
        refine Or.inr ⟨(id.generation, none), ?_, Or.inr ⟨hgen, rfl⟩⟩
        rw [hview, hindex, List.getElem?_set_self hlt]
      · refine Or.inl ⟨entry, mem_iter_view.mpr ⟨hle, ?_⟩⟩
        rw [hview, List.getElem?_set_ne hindex]
        exact hother

theorem follows_allocRange {a a' : NodeArena α} {count : Nat} {placeholder : α}
    {r : Except ArenaError Nat} (h : a.allocRange count placeholder = some (a', r)) :
    a.Follows a' := by
  obtain ⟨more, hview⟩ := view_allocRange h
  exact follows_append hview

end NodeArena

namespace SaveWorld
variable {π μ δ : Type} [DecidableEq π]

section Records
variable {g : CodeGraph π μ δ}

def firstSeen (g : CodeGraph π μ δ) (epoch : Nat) (id : NodeId) : Nat :=
  if g.factEpoch > 0 then
    ((g.nodeProvenance.lookup id).map NodeProvenance.firstSeenEpoch).getD epoch
  else epoch

theorem lookup_recordNodes {record : NodeId × FullNodeEntry → NodeProvenance} {id : NodeId}
    {found : NodeProvenance} :
    (g.recordNodes record).lookup id = some found ↔
      ∃ entry, (id, entry) ∈ g.nodes.iter ∧ record (id, entry) = found := by
  refine NodeProvenanceStore.lookup_foldl_insert
    (NodeProvenanceStore.lookup_resizeTo_new _) fun p hp q hq hindex => ?_
  obtain ⟨hid, hentry⟩ := NodeArena.iter_inj hp hq hindex
  exact Prod.ext hid hentry

theorem lookup_resolveProvenance {epoch : Nat} {id : NodeId} {found : NodeProvenance} :
    (g.resolveProvenance epoch).lookup id = some found ↔
      ∃ entry, (id, entry) ∈ g.nodes.iter ∧
        ⟨firstSeen g epoch id, epoch, nodeContentHash entry⟩ = found := by
  rw [CodeGraph.resolveProvenance, firstSeen]
  by_cases hepoch : g.factEpoch > 0
  · rw [if_pos hepoch, if_pos hepoch, CodeGraph.mergeProvenanceFromSnapshot, lookup_recordNodes]
    refine exists_congr fun entry => and_congr_right fun _ => ?_
    cases g.nodeProvenance.lookup id with
    | none => simp [NodeProvenance.fresh]
    | some existing => simp
  · rw [if_neg hepoch, if_neg hepoch, CodeGraph.buildProvenanceFromSnapshot, lookup_recordNodes]
    exact Iff.rfl

end Records

section Files
variable {written : List (SavedSnapshot π μ δ)} {s : SavedSnapshot π μ δ}

def KeptLast (written : List (SavedSnapshot π μ δ)) (s : SavedSnapshot π μ δ) : Prop :=
  (∀ t ∈ written, t.factEpoch < s.factEpoch) ∧
    ∀ id, s.data.IsLive id → ∃ record,
      s.data.nodeProvenance.lookup id = some record ∧ record.lastSeenEpoch = s.factEpoch ∧
        record.firstSeenEpoch =
          ((written.find? fun t => decide (t.data.IsLive id)).getD s).factEpoch

theorem kept_append : Kept (written ++ [s]) ↔ Kept written ∧ KeptLast written s := by
  have hold : ∀ t ∈ written, ∀ id, t.data.IsLive id →
      (written ++ [s]).find? (fun t => decide (t.data.IsLive id)) =
        written.find? fun t => decide (t.data.IsLive id) := by
    intro t ht id hlive
    rw [List.find?_append, Option.or_of_isSome]
    rw [List.find?_isSome]
    exact ⟨t, ht, decide_eq_true hlive⟩
  have hnew : ∀ id, s.data.IsLive id →
      (written ++ [s]).find? (fun t => decide (t.data.IsLive id)) =
        some ((written.find? fun t => decide (t.data.IsLive id)).getD s) := by
    intro id hlive
    rw [List.find?_append, List.find?_cons, decide_eq_true hlive]
    cases written.find? fun t => decide (t.data.IsLive id) with
    | none => rfl
    | some t => rfl
  rw [Kept, Kept, KeptLast, List.map_append, List.pairwise_append]
  constructor
  · intro ⟨hepochs, hrecords⟩
    refine ⟨⟨hepochs.1, fun t ht id hlive => ?_⟩, fun t ht => ?_, fun id hlive => ?_⟩
    · rw [← hold t ht id hlive]
      exact hrecords t (List.mem_append_left _ ht) id hlive
    · exact hepochs.2.2 _ (List.mem_map_of_mem ht) _ List.mem_cons_self
    · obtain ⟨record, hlookup, hlast, first, hfind, hfirst⟩ :=
        hrecords s (List.mem_append_right _ List.mem_cons_self) id hlive
      rw [hnew id hlive] at hfind
      cases hfind
      exact ⟨record, hlookup, hlast, hfirst⟩
  · intro ⟨⟨hepochs, hrecords⟩, hlater, hlasts⟩
    refine ⟨⟨hepochs, List.pairwise_singleton _ _, fun a ha b hb => ?_⟩, fun t ht id hlive => ?_⟩
    · obtain ⟨t, ht, rfl⟩ := List.mem_map.mp ha
      cases List.mem_singleton.mp hb
      exact hlater t ht
    · cases List.mem_append.mp ht with
      | inl hin =>
        rw [hold t hin id hlive]
        exact hrecords t hin id hlive
      | inr hin =>
        cases List.mem_singleton.mp hin
        obtain ⟨record, hlookup, hlast, hfirst⟩ := hlasts id hlive
        exact ⟨record, hlookup, hlast, _, hnew id hlive, hfirst⟩

end Files

/-- What holds in every run: where the records in memory come from, and that each file and the
graph in memory follow the files before. -/
structure Inv (w : SaveWorld π μ δ) : Prop where
  origin : w.loadedAt = 0 ∧ w.graph.factEpoch = 0 ∨
    ∃ i s, w.loadedAt = i + 1 ∧ w.written[i]? = some s ∧
      w.graph.nodeProvenance = s.data.nodeProvenance ∧ w.graph.factEpoch = s.factEpoch
  chain : w.written.Pairwise fun s t => s.data.nodes.Follows t.data.nodes
  follows : ∀ s ∈ w.written, s.data.nodes.Follows w.graph.nodes
  recorded : ∀ s ∈ w.written, ∀ id record, s.data.nodeProvenance.lookup id = some record →
    s.data.IsLive id
  bounded : ∀ s ∈ w.written, s.factEpoch ≤ u64Max
  first_pos : ∀ s, w.written.head? = some s → 0 < s.factEpoch

theorem inv_start : Inv (start : SaveWorld π μ δ) :=
  ⟨Or.inl ⟨rfl, rfl⟩, List.Pairwise.nil, fun s hs => (by cases hs), fun s hs => (by cases hs),
    fun s hs => (by cases hs), fun s hs => by cases hs⟩

section Steps
variable {w w' : SaveWorld π μ δ}

theorem Inv.withNodes (h : Inv w) {nodes : NodeArena FullNodeEntry}
    (hfollows : w.graph.nodes.Follows nodes) :
    Inv { w with graph := { w.graph with nodes := nodes } } :=
  ⟨h.origin, h.chain, fun s hs => (h.follows s hs).trans hfollows, h.recorded, h.bounded,
    h.first_pos⟩

theorem nextFactEpoch_le (prev : Option Nat) (nowSecs : UInt64) :
    nextFactEpoch prev nowSecs ≤ u64Max := by
  have hnow := nowSecs.toNat_lt
  rw [nextFactEpoch]
  refine Nat.max_le.mpr ⟨Nat.le_of_lt_succ (Nat.mod_lt _ (Nat.succ_pos _)), ?_⟩
  simp only [u64Max]
  omega

theorem Inv.save (h : Inv w) (nowSecs : UInt64) :
    Inv { w with
      written := w.written ++ [w.graph.saved (nextFactEpoch w.epochOnDisk nowSecs)] } where
  origin := by
    cases h.origin with
    | inl hnew => exact Or.inl hnew
    | inr hloaded =>
      obtain ⟨i, s, hi, hs, hrest⟩ := hloaded
      refine Or.inr ⟨i, s, hi, ?_, hrest⟩
      show (w.written ++ _)[i]? = some s
      rw [List.getElem?_append_left (List.getElem?_eq_some_iff.mp hs).1]
      exact hs
  chain := by
    refine List.pairwise_append.mpr ⟨h.chain, List.pairwise_singleton _ _, fun s hs t ht => ?_⟩
    rw [List.mem_singleton.mp ht]
    exact h.follows s hs
  follows := by
    intro s hs
    cases List.mem_append.mp hs with
    | inl hin => exact h.follows s hin
    | inr hin =>
      rw [List.mem_singleton.mp hin]
      exact .refl _
  recorded := by
    intro s hs id record hlookup
    cases List.mem_append.mp hs with
    | inl hin => exact h.recorded s hin id record hlookup
    | inr hin =>
      rw [List.mem_singleton.mp hin] at hlookup ⊢
      obtain ⟨entry, hmem, -⟩ := lookup_resolveProvenance.mp hlookup
      exact ⟨entry, hmem⟩
  bounded := by
    intro s hs
    cases List.mem_append.mp hs with
    | inl hin => exact h.bounded s hin
    | inr hin =>
      rw [List.mem_singleton.mp hin]
      exact nextFactEpoch_le _ _
  first_pos := by
    intro s hs
    cases hwritten : w.written with
    | nil =>
      simp only [hwritten, epochOnDisk, List.nil_append, List.head?_cons, List.getLast?_nil,
        Option.map_none, Option.some.injEq] at hs
      rw [← hs]
      exact Nat.lt_of_lt_of_le Nat.zero_lt_one (Nat.le_max_left _ _)
    | cons t rest =>
      simp only [hwritten, List.cons_append, List.head?_cons] at hs
      refine h.first_pos s ?_
      rw [hwritten, List.head?_cons]
      exact hs

variable {s : SavedSnapshot π μ δ}

theorem Inv.load (h : Inv w) (hlast : w.written.getLast? = some s) :
    Inv { w with graph := s.loaded, loadedAt := w.written.length } := by
  obtain ⟨before, hwritten⟩ := List.getLast?_eq_some_iff.mp hlast
  refine ⟨Or.inr ⟨before.length, s, ?_, ?_, rfl, rfl⟩, h.chain, fun t ht => ?_, h.recorded,
    h.bounded, h.first_pos⟩
  · show w.written.length = _
    rw [hwritten, List.length_append, List.length_singleton]
  · show w.written[before.length]? = some s
    rw [hwritten, List.getElem?_concat_length]
  · have hchain := h.chain
    have hmem : t ∈ w.written := ht
    rw [hwritten] at hchain hmem
    cases List.mem_append.mp hmem with
    | inl hin => exact (List.pairwise_append.mp hchain).2.2 t hin s List.mem_cons_self
    | inr hin =>
      rw [List.mem_singleton.mp hin]
      exact .refl _

theorem inv_step (h : Inv w) {op : SaveOp} (hstep : w.step op = some w') : Inv w' := by
  cases op with
  | save nowSecs replaced =>
    rw [step] at hstep
    split at hstep
    · cases hstep
      exact h.save nowSecs
    · cases hstep
      exact h
  | load =>
    rw [step] at hstep
    cases hlast : w.written.getLast? with
    | none =>
      rw [hlast] at hstep
      cases hstep
      exact h
    | some s =>
      rw [hlast] at hstep
      cases hstep
      exact h.load hlast
  | insert entry =>
    cases hstep
    exact h.withNodes (NodeArena.follows_alloc _ entry)
  | remove id =>
    cases hstep
    exact h.withNodes (NodeArena.follows_remove _ id)
  | allocRange count placeholder =>
    obtain ⟨result, hresult, heq⟩ := Option.map_eq_some_iff.mp hstep
    cases heq
    exact h.withNodes (NodeArena.follows_allocRange hresult)

theorem epoch_le_last (hkept : Kept w.written) {s t : SavedSnapshot π μ δ}
    (hlast : w.written.getLast? = some s) (ht : t ∈ w.written) : t.factEpoch ≤ s.factEpoch := by
  obtain ⟨before, hwritten⟩ := List.getLast?_eq_some_iff.mp hlast
  have hepochs := hkept.1
  rw [hwritten] at hepochs ht
  rw [List.map_append, List.pairwise_append] at hepochs
  cases List.mem_append.mp ht with
  | inl hin =>
    exact Nat.le_of_lt (hepochs.2.2 _ (List.mem_map_of_mem hin) _ List.mem_cons_self)
  | inr hin => rw [List.mem_singleton.mp hin]

theorem epochs_grow_iff (h : Inv w) (hkept : Kept w.written) (nowSecs : UInt64) :
    (∀ t ∈ w.written, t.factEpoch < nextFactEpoch w.epochOnDisk nowSecs) ↔
      w.epochOnDisk ≠ some u64Max := by
  cases hlast : w.written.getLast? with
  | none =>
    rw [List.getLast?_eq_none_iff] at hlast
    simp [hlast, epochOnDisk]
  | some s =>
    have hmem := List.mem_of_getLast? hlast
    have hdisk : w.epochOnDisk = some s.factEpoch := by rw [epochOnDisk, hlast, Option.map_some]
    rw [hdisk]
    constructor
    · intro hgrow heq
      have hlt := hgrow s hmem
      have hle := nextFactEpoch_le (some s.factEpoch) nowSecs
      rw [Option.some.inj heq] at hlt hle
      exact absurd hlt (Nat.not_lt_of_le hle)
    · intro hne t ht
      have hle := epoch_le_last hkept hlast ht
      have hbound := h.bounded s hmem
      have hlt : s.factEpoch ≠ u64Max := fun heq => hne (congrArg some heq)
      rw [nextFactEpoch, Option.getD_some, Nat.mod_eq_of_lt (by omega)]
      exact Nat.lt_of_lt_of_le (by omega) (Nat.le_max_left _ _)

theorem epoch_pos (h : Inv w) (hkept : Kept w.written) (hs : s ∈ w.written) : 0 < s.factEpoch := by
  cases hwritten : w.written with
  | nil =>
    rw [hwritten] at hs
    cases hs
  | cons t rest =>
    have hfirst := h.first_pos t (by rw [hwritten, List.head?_cons])
    have hepochs := hkept.1
    rw [hwritten] at hs hepochs
    cases List.mem_cons.mp hs with
    | inl heq => rw [heq]; exact hfirst
    | inr hin =>
      exact Nat.lt_trans hfirst
        ((List.pairwise_cons.mp hepochs).1 _ (List.mem_map_of_mem hin))

theorem live_in_loaded (h : Inv w) {id : NodeId} (hlive : w.graph.IsLive id) {i : Nat}
    (hi : w.loadedAt = i + 1) (hs : w.written[i]? = some s)
    (hbefore : ∃ t ∈ w.written.take w.loadedAt, t.data.IsLive id) : s.data.IsLive id := by
  obtain ⟨t, ht, entry, hentry⟩ := hbefore
  obtain ⟨entry', hentry'⟩ := hlive
  obtain ⟨k, hk⟩ := List.mem_iff_getElem?.mp ht
  rw [hi, List.getElem?_take] at hk
  split at hk
  · rename_i hlt
    have hsmem := List.mem_of_getElem? hs
    by_cases heq : k = i
    · rw [heq, hs] at hk
      cases hk
      exact ⟨entry, hentry⟩
    · obtain ⟨hki, hkget⟩ := List.getElem?_eq_some_iff.mp hk
      obtain ⟨hii, higet⟩ := List.getElem?_eq_some_iff.mp hs
      have hchain := List.pairwise_iff_getElem.mp h.chain k i hki hii (by omega)
      rw [hkget, higet] at hchain
      exact hchain.live_between (h.follows s hsmem) hentry hentry'
  · cases hk

theorem firstSeen_iff (h : Inv w) (hkept : Kept w.written) {epoch : Nat}
    (hgrow : ∀ t ∈ w.written, t.factEpoch < epoch) {id : NodeId} (hlive : w.graph.IsLive id) :
    firstSeen w.graph epoch id =
        ((w.written.find? fun t => decide (t.data.IsLive id)).getD
          (w.graph.saved epoch)).factEpoch ↔
      ((∃ s ∈ w.written, s.data.IsLive id) →
        ∃ s ∈ w.written.take w.loadedAt, s.data.IsLive id) := by
  cases hfind : w.written.find? fun t => decide (t.data.IsLive id) with
  | none =>
    have hnever : ∀ t ∈ w.written, ¬ t.data.IsLive id := by
      intro t ht
      have hnot := List.find?_eq_none.mp hfind t ht
      simpa using hnot
    have hright : firstSeen w.graph epoch id = epoch := by
      rw [firstSeen]
      split
      · rename_i hpos
        cases h.origin with
        | inl hnew => omega
        | inr hloaded =>
          obtain ⟨i, s, -, hs, hstore, -⟩ := hloaded
          have hsmem := List.mem_of_getElem? hs
          cases hlookup : w.graph.nodeProvenance.lookup id with
          | none => rfl
          | some record =>
            rw [hstore] at hlookup
            exact absurd (h.recorded s hsmem id record hlookup) (hnever s hsmem)
      · rfl
    exact ⟨fun _ ⟨t, ht, hlivet⟩ => absurd hlivet (hnever t ht), fun _ => hright⟩
  | some t =>
    have ht : t ∈ w.written := List.mem_of_find?_eq_some hfind
    have htlive : t.data.IsLive id := by simpa using List.find?_some hfind
    rw [Option.getD_some]
    constructor
    · intro hfirst _
      have hlt := hgrow t ht
      rw [← hfirst, firstSeen] at hlt
      split at hlt
      · rename_i hpos
        cases h.origin with
        | inl hnew => omega
        | inr hloaded =>
          obtain ⟨i, s, hi, hs, hstore, -⟩ := hloaded
          cases hlookup : w.graph.nodeProvenance.lookup id with
          | none =>
            rw [hlookup] at hlt
            exact absurd hlt (Nat.lt_irrefl _)
          | some record =>
            rw [hstore] at hlookup
            refine ⟨s, ?_, h.recorded s (List.mem_of_getElem? hs) id record hlookup⟩
            rw [hi]
            refine List.mem_iff_getElem?.mpr ⟨i, ?_⟩
            rw [List.getElem?_take, if_pos (Nat.lt_succ_self i)]
            exact hs
      · exact absurd hlt (Nat.lt_irrefl _)
    · intro hloads
      have hbefore := hloads ⟨t, ht, htlive⟩
      cases h.origin with
      | inl hnew =>
        obtain ⟨s, hs, -⟩ := hbefore
        rw [hnew.1, List.take_zero] at hs
        cases hs
      | inr hloaded =>
        obtain ⟨i, s, hi, hs, hstore, hepoch⟩ := hloaded
        have hsmem := List.mem_of_getElem? hs
        have hslive := live_in_loaded h hlive hi hs hbefore
        obtain ⟨record, hlookup, -, first, hfirst, hseen⟩ := hkept.2 s hsmem id hslive
        rw [hfind] at hfirst
        cases hfirst
        have hpos : w.graph.factEpoch > 0 := by
          rw [hepoch]
          exact epoch_pos h hkept hsmem
        rw [firstSeen, if_pos hpos, hstore, hlookup]
        exact hseen

theorem keptLast_saved_iff (h : Inv w) (hkept : Kept w.written) (nowSecs : UInt64) :
    KeptLast w.written (w.graph.saved (nextFactEpoch w.epochOnDisk nowSecs)) ↔
      w.Renews (.save nowSecs true) := by
  rw [KeptLast, Renews, ← epochs_grow_iff h hkept nowSecs]
  refine and_congr_right fun hgrow => forall_congr' fun id => ?_
  refine forall_congr' fun hlive => ?_
  rw [← firstSeen_iff h hkept hgrow hlive]
  constructor
  · intro ⟨record, hlookup, _, hfirst⟩
    obtain ⟨entry, -, heq⟩ := lookup_resolveProvenance.mp hlookup
    rw [← heq] at hfirst
    exact hfirst
  · intro hfirst
    obtain ⟨entry, hentry⟩ := hlive
    exact ⟨_, lookup_resolveProvenance.mpr ⟨entry, hentry, rfl⟩, rfl, hfirst⟩

theorem kept_step_iff (h : Inv w) (hkept : Kept w.written) {op : SaveOp}
    (hstep : w.step op = some w') : Kept w'.written ↔ w.Renews op := by
  cases op with
  | save nowSecs replaced =>
    cases replaced with
    | true =>
      cases hstep
      rw [← keptLast_saved_iff h hkept nowSecs, kept_append]
      exact and_iff_right hkept
    | false =>
      cases hstep
      exact ⟨fun _ => trivial, fun _ => hkept⟩
  | load =>
    rw [step] at hstep
    cases hlast : w.written.getLast? with
    | none =>
      rw [hlast] at hstep
      cases hstep
      exact ⟨fun _ => trivial, fun _ => hkept⟩
    | some s =>
      rw [hlast] at hstep
      cases hstep
      exact ⟨fun _ => trivial, fun _ => hkept⟩
  | insert entry =>
    cases hstep
    exact ⟨fun _ => trivial, fun _ => hkept⟩
  | remove id =>
    cases hstep
    exact ⟨fun _ => trivial, fun _ => hkept⟩
  | allocRange count placeholder =>
    obtain ⟨result, -, heq⟩ := Option.map_eq_some_iff.mp hstep
    cases heq
    exact ⟨fun _ => trivial, fun _ => hkept⟩

theorem kept_of_run {ops : List SaveOp} (hrun : StepSystem.run step w ops = some w')
    (hkept : Kept w'.written) : Kept w.written := by
  refine not_not.mp fun hlost => ?_
  refine @StepSystem.invariant_of_run _ _ step (fun w => ¬ Kept w.written)
    (fun s op s' hnot hstep hkept => ?_) _ _ _ hlost hrun hkept
  cases op with
  | save nowSecs replaced =>
    cases replaced with
    | true =>
      cases hstep
      exact hnot (kept_append.mp hkept).1
    | false =>
      cases hstep
      exact hnot hkept
  | load =>
    rw [step] at hstep
    cases hlast : s.written.getLast? with
    | none =>
      rw [hlast] at hstep
      cases hstep
      exact hnot hkept
    | some file =>
      rw [hlast] at hstep
      cases hstep
      exact hnot hkept
  | insert entry =>
    cases hstep
    exact hnot hkept
  | remove id =>
    cases hstep
    exact hnot hkept
  | allocRange count placeholder =>
    obtain ⟨result, -, heq⟩ := Option.map_eq_some_iff.mp hstep
    cases heq
    exact hnot hkept

theorem kept_run_iff (h : Inv w) (hkept : Kept w.written) {ops : List SaveOp}
    (hrun : StepSystem.run step w ops = some w') :
    Kept w'.written ↔ StepSystem.RunOk step Renews w ops := by
  induction ops generalizing w with
  | nil =>
    cases hrun
    exact ⟨fun _ => trivial, fun _ => hkept⟩
  | cons op ops ih =>
    obtain ⟨middle, hstep, hrest⟩ := StepSystem.run_cons_some hrun
    have hat := kept_step_iff h hkept hstep
    constructor
    · intro hend
      have hmiddle := kept_of_run hrest hend
      exact StepSystem.runOk_cons_of_step (hat.mp hmiddle) hstep
        ((ih (inv_step h hstep) hmiddle hrest).mp hend)
    · intro hok
      exact (ih (inv_step h hstep) (hat.mpr hok.1) hrest).mpr (hok.2 middle hstep)

end Steps

theorem kept_nil : @Kept π μ δ _ [] :=
  ⟨List.Pairwise.nil, fun s hs => by cases hs⟩

/-- The files written to a path keep the history of their nodes exactly when no save renews the
record of a node that an earlier file had. -/
theorem node_history_kept_iff {ops : List SaveOp} {w : SaveWorld π μ δ}
    (hrun : StepSystem.run step (start : SaveWorld π μ δ) ops = some w) :
    w.HistoryKept ↔ StepSystem.RunOk step Renews (start : SaveWorld π μ δ) ops :=
  kept_run_iff inv_start kept_nil hrun

section Runs

def oneFunction : FullNodeEntry := .new .function (.ofUInt8 1) 1

def savedLoadedSaved : List SaveOp :=
  [.insert oneFunction, .save 5 true, .load, .save 7 true]

/-- A graph that is loaded between two saves keeps its history. -/
theorem node_history_kept_savedLoadedSaved : ∃ w : SaveWorld Unit Unit Unit,
    StepSystem.run step start savedLoadedSaved = some w ∧ w.HistoryKept := by
  refine ⟨_, rfl, (@node_history_kept_iff Unit Unit Unit _ savedLoadedSaved _ rfl).mpr
    ⟨trivial, fun w₁ h₁ => ⟨?_, fun w₂ h₂ => ⟨trivial, fun w₃ h₃ => ⟨?_, fun _ _ => trivial⟩⟩⟩⟩⟩
  · cases h₁
    exact ⟨fun heq => (by cases heq), fun id _ ⟨s, hs, _⟩ => by cases hs⟩
  · cases h₁
    cases h₂
    cases h₃
    exact ⟨by decide +kernel, fun id _ hbefore => hbefore⟩

/-- A graph that stays in memory and is saved twice: the second file says that the function was
first seen by the second save. -/
theorem node_history_lost_savedTwice : ∃ w : SaveWorld Unit Unit Unit,
    StepSystem.run step start [.insert oneFunction, .save 5 true, .save 7 true] = some w ∧
      ¬ w.HistoryKept := by
  refine ⟨_, rfl, fun hkept => ?_⟩
  obtain ⟨record, hlookup, -, first, hfind, hfirst⟩ := hkept.2 _
    (List.mem_cons_of_mem _ List.mem_cons_self) ⟨0, 1⟩ (by decide +kernel)
  have hseen := congrArg (Option.map NodeProvenance.firstSeenEpoch) hlookup
  have hepoch := congrArg (Option.map SavedSnapshot.factEpoch) hfind
  rw [Option.map_some, hfirst, ← Option.map_some, ← hepoch] at hseen
  revert hseen
  decide +kernel

end Runs

end SaveWorld
end Sqry
