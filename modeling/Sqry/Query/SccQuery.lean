import Mathlib.Algebra.Order.BigOperators.Group.List
import Mathlib.Algebra.Order.Group.Nat
import Sqry.Lib.Tarjan
import Sqry.Query.Relation

/-!
The strongly connected components for one edge kind as a query over a snapshot. The search runs
over hash maps, which are functions of the node here, and keeps in each frame the neighbours that
were read when the node was entered. What `edges_from` returns for a node is a parameter, since
its order differs from run to run.
-/

namespace Sqry

open Components (Reaches Mutual)
open Tarjan (Search Inv)

structure CachedSccData where
  nodeToComponent : NodeId → Option Nat
  components : List (List NodeId)
  edgeKind : EdgeKind

def CachedSccData.componentOf (scc : CachedSccData) (node : NodeId) : Option Nat :=
  scc.nodeToComponent node

/-- The frames and the stack have their last element in front. The counter needs no more than
32 bits, because the arena has no more slots. -/
structure SccState where
  indexCounter : Nat
  stack : List NodeId
  onStack : NodeId → Bool
  indices : NodeId → Option Nat
  lowlinks : NodeId → Option Nat
  components : List (List NodeId)
  work : List (NodeId × Nat × List NodeId)

namespace SccState

def new : SccState := ⟨0, [], fun _ => false, fun _ => none, fun _ => none, [], []⟩

section Moves
variable (neighboursOf : NodeId → List NodeId) (st : SccState)

def enter (node : NodeId) : SccState :=
  { st with
    indices := Function.update st.indices node (some st.indexCounter)
    lowlinks := Function.update st.lowlinks node (some st.indexCounter)
    indexCounter := st.indexCounter + 1
    stack := node :: st.stack
    onStack := Function.update st.onStack node true
    work := (node, 0, neighboursOf node) :: st.work }

/-- A smaller bound replaces the low link, `none` when the node has none. -/
def lowerTo (node : NodeId) (bound : Nat) : Option SccState :=
  match st.lowlinks node with
  | none => none
  | some low =>
    if bound < low then
      some { st with lowlinks := Function.update st.lowlinks node (some bound) }
    else some st

def popComponent (node : NodeId) : List NodeId → List NodeId × List NodeId
  | [] => ([], [])
  | w :: stack =>
    if w = node then ([w], stack)
    else (w :: (popComponent node stack).1, (popComponent node stack).2)

def popRoot (node : NodeId) : SccState :=
  let (component, rest) := popComponent node st.stack
  { st with
    stack := rest
    onStack := fun v => if v ∈ component then false else st.onStack v
    components := st.components ++ [component] }

/-- All neighbours of a node are processed; `none` is a lookup that fails. -/
def finish (node : NodeId) (rest : List (NodeId × Nat × List NodeId)) : Option SccState :=
  match st.indices node, st.lowlinks node with
  | some nodeIdx, some nodeLow =>
    let st := if nodeLow = nodeIdx then st.popRoot node else st
    let st := { st with work := rest }
    match rest with
    | [] => some st
    | (parent, _, _) :: _ => st.lowerTo parent nodeLow
  | _, _ => none

def process (node : NodeId) (pos : Nat) (neighbors : List NodeId)
    (rest : List (NodeId × Nat × List NodeId)) : Option SccState :=
  match neighbors[pos]? with
  | some neighbor =>
    let st := { st with work := (node, pos + 1, neighbors) :: rest }
    match st.indices neighbor with
    | none => some (st.enter neighboursOf neighbor)
    | some neighborIdx =>
      if st.onStack neighbor then st.lowerTo node neighborIdx else some st
  | none => st.finish node rest

end Moves

/-- The loop over the frames, `none` when `fuel` passes are not enough. -/
def drain (neighboursOf : NodeId → List NodeId) : Nat → SccState → Option SccState
  | fuel, st =>
    match st.work with
    | [] => some st
    | (node, pos, neighbors) :: rest =>
      match fuel with
      | 0 => none
      | fuel + 1 =>
        match st.process neighboursOf node pos neighbors rest with
        | none => none
        | some st => drain neighboursOf fuel st

def searchAll (neighboursOf : NodeId → List NodeId) (fuel : Nat) :
    List NodeId → SccState → Option SccState
  | [], st => some st
  | start :: starts, st =>
    if (st.indices start).isSome then searchAll neighboursOf fuel starts st
    else
      match drain neighboursOf fuel (enter neighboursOf { st with work := [] } start) with
      | none => none
      | some st => searchAll neighboursOf fuel starts st

end SccState

def recordComponents (table : NodeId → Option Nat) :
    Nat → List (List NodeId) → NodeId → Option Nat
  | _, [] => table
  | idx, component :: components =>
    recordComponents
      (component.foldl (fun table nid => Function.update table nid (some (min idx u32Max))) table)
      (idx + 1) components

namespace GraphSnapshot
variable (s : GraphSnapshot)

def kindNeighbours (edgesFrom : NodeId → List StoreEdgeRef) (key : EdgeKind) (node : NodeId) :
    List NodeId :=
  SortedGroups.sortBy compareById
    (((edgesFrom node).filter fun e => e.kind.ctorIdx = key.ctorIdx).map StoreEdgeRef.target)

def nonLosers : List NodeId :=
  (s.nodes.iter.filter fun node => !node.2.isUnifiedLoser).map Prod.fst

/-- `none` when a lookup fails or `fuel` passes are not enough for a start node. -/
def sccQuery (edgesFrom : NodeId → List StoreEdgeRef) (key : EdgeKind) (fuel : Nat) :
    Option CachedSccData :=
  match SccState.searchAll (kindNeighbours edgesFrom key) fuel s.nonLosers .new with
  | none => none
  | some st => some ⟨recordComponents (fun _ => none) 0 st.components, st.components, key⟩

def Joined : Prop := ∀ node, ∀ edge ∈ s.edges.edgesFrom node, edge.target ∈ s.nonLosers

def Reads (edgesFrom : NodeId → List StoreEdgeRef) : Prop :=
  ∀ node, (edgesFrom node).Perm (s.edges.edgesFrom node)

def successorsBy (key : EdgeKind) (node : NodeId) : List NodeId :=
  ((s.edges.edgesFrom node).filter fun e => e.kind.ctorIdx = key.ctorIdx).map StoreEdgeRef.target

end GraphSnapshot

namespace SccState

section Pop
variable {node : NodeId}

theorem popComponent_split {above below : List NodeId} (h : node ∉ above) :
    popComponent node (above ++ node :: below) = (above ++ [node], below) := by
  induction above with
  | nil => rw [List.nil_append, popComponent, if_pos rfl, List.nil_append]
  | cons w above ih =>
    have hne : w ≠ node := fun heq => h (heq ▸ List.mem_cons_self)
    rw [List.cons_append, popComponent, if_neg hne,
      ih fun hin => h (List.mem_cons_of_mem w hin)]
    rfl

theorem lowerTo_eq {st : SccState} {low : Nat} (hlow : st.lowlinks node = some low) (bound : Nat) :
    st.lowerTo node bound =
      some { st with lowlinks := Function.update st.lowlinks node (some (min low bound)) } := by
  rw [lowerTo, hlow]
  by_cases hlt : bound < low
  · simp only [if_pos hlt, Nat.min_eq_right (Nat.le_of_lt hlt)]
  · have hsame : Function.update st.lowlinks node (some low) = st.lowlinks := by
      rw [← hlow]
      exact Function.update_eq_self node st.lowlinks
    simp only [if_neg hlt, Nat.min_eq_left (Nat.le_of_not_lt hlt), hsame]

end Pop

def search (st : SccState) : Search NodeId :=
  ⟨st.indices, st.indexCounter, fun v => (st.lowlinks v).getD 0, st.stack,
    st.work.map fun frame => (frame.1, frame.2.1), st.components⟩

structure Holds (neighboursOf : NodeId → List NodeId) (nodes : List NodeId) (st : SccState) :
    Prop where
  inv : Inv neighboursOf none st.search
  onStack : ∀ v, st.onStack v = true ↔ v ∈ st.stack
  lowlinks : ∀ v, st.indices v ≠ none → ∃ low, st.lowlinks v = some low
  cached : ∀ frame ∈ st.work, frame.2.2 = neighboursOf frame.1
  known : ∀ v, st.indices v ≠ none → v ∈ nodes

section Passes
variable {neighboursOf : NodeId → List NodeId} {nodes : List NodeId} {st : SccState}
  {node : NodeId} {pos : Nat} {neighbors : List NodeId}
  {rest : List (NodeId × Nat × List NodeId)}

theorem getD_update (lowlinks : NodeId → Option Nat) (node : NodeId) (low : Nat) :
    (fun v => (Function.update lowlinks node (some low) v).getD 0) =
      Function.update (fun v => (lowlinks v).getD 0) node low := by
  funext v
  by_cases heq : v = node
  · rw [heq, Function.update_self, Function.update_self, Option.getD_some]
  · rw [Function.update_of_ne heq, Function.update_of_ne heq]

theorem search_enter : (st.enter neighboursOf node).search = st.search.enter node := by
  rw [search, Search.enter, enter, getD_update]
  rfl

variable {low : Nat}

theorem search_lowered (hlow : st.lowlinks node = some low) (bound : Nat) :
    search { st with lowlinks := Function.update st.lowlinks node (some (min low bound)) } =
      st.search.lower node bound := by
  have hget : st.search.low node = low := by
    show (st.lowlinks node).getD 0 = low
    rw [hlow, Option.getD_some]
  rw [search, getD_update, Search.lower, hget]
  rfl

theorem Holds.enter (hinv : Inv neighboursOf (some node) st.search)
    (honStack : ∀ v, st.onStack v = true ↔ v ∈ st.stack)
    (hlowlinks : ∀ v, st.indices v ≠ none → ∃ low, st.lowlinks v = some low)
    (hcached : ∀ frame ∈ st.work, frame.2.2 = neighboursOf frame.1)
    (hknown : ∀ v, st.indices v ≠ none → v ∈ nodes) (hnode : node ∈ nodes) :
    Holds neighboursOf nodes (st.enter neighboursOf node) := by
  refine ⟨by rw [search_enter]; exact hinv.enter, fun v => ?_, fun v hv => ?_,
    fun frame hframe => ?_, fun v hv => ?_⟩
  · show Function.update st.onStack node true v = true ↔ v ∈ node :: st.stack
    by_cases heq : v = node
    · rw [heq, Function.update_self]
      exact ⟨fun _ => List.mem_cons_self, fun _ => rfl⟩
    · rw [Function.update_of_ne heq, honStack v, List.mem_cons]
      exact ⟨Or.inr, fun hv => hv.resolve_left heq⟩
  · show ∃ low, Function.update st.lowlinks node (some st.indexCounter) v = some low
    by_cases heq : v = node
    · exact ⟨st.indexCounter, by rw [heq, Function.update_self]⟩
    · rw [Function.update_of_ne heq]
      refine hlowlinks v ?_
      rw [← Function.update_of_ne heq (some st.indexCounter) st.indices]
      exact hv
  · cases List.mem_cons.mp hframe with
    | inl heq => rw [heq]
    | inr hin => exact hcached frame hin
  · by_cases heq : v = node
    · rw [heq]
      exact hnode
    · refine hknown v ?_
      rw [← Function.update_of_ne heq (some st.indexCounter) st.indices]
      exact hv

theorem lowlinks_lowered (h : ∀ v, st.indices v ≠ none → ∃ low, st.lowlinks v = some low)
    (v : NodeId) (hv : st.indices v ≠ none) :
    ∃ low', Function.update st.lowlinks node (some low) v = some low' := by
  by_cases heq : v = node
  · exact ⟨low, by rw [heq, Function.update_self]⟩
  · rw [Function.update_of_ne heq]
    exact h v hv

theorem frames_search (hwork : st.work = (node, pos, neighbors) :: rest) :
    st.search.frames = (node, pos) :: rest.map fun frame => (frame.1, frame.2.1) := by
  rw [search, hwork, List.map_cons]

theorem Holds.visited (h : Holds neighboursOf nodes st)
    (hwork : st.work = (node, pos, neighbors) :: rest) : st.indices node ≠ none := by
  refine h.inv.numbered.visited (h.inv.linked.mem_stack ?_)
  rw [Search.path, frames_search hwork, List.map_cons]
  exact List.mem_cons_self

theorem num_search {i : Nat} (h : st.indices node = some i) : st.search.num node = i := by
  show (st.indices node).getD 0 = i
  rw [h, Option.getD_some]

theorem low_search (h : st.lowlinks node = some low) : st.search.low node = low := by
  show (st.lowlinks node).getD 0 = low
  rw [h, Option.getD_some]

theorem finish_root (h : Holds neighboursOf nodes st)
    (hwork : st.work = (node, pos, neighbors) :: rest) (hend : (neighboursOf node)[pos]? = none)
    {i : Nat} (hi : st.indices node = some i) (hroot : st.lowlinks node = some i) :
    Holds neighboursOf nodes { st.popRoot node with work := rest } := by
  have hframes := frames_search hwork
  have hmem : node ∈ st.stack := h.inv.linked.mem_stack (by
    rw [Search.path, hframes, List.map_cons]
    exact List.mem_cons_self)
  obtain ⟨above, below, hstack, hnot⟩ := List.eq_append_cons_of_mem hmem
  have hnodup : (above ++ node :: below).Nodup := hstack ▸ h.inv.numbered.nodup
  have hpop : st.popRoot node = { st with
      stack := below
      onStack := fun v => if v ∈ above ++ [node] then false else st.onStack v
      components := st.components ++ [above ++ [node]] } := by
    rw [popRoot, hstack, popComponent_split hnot]
  rw [hpop]
  refine ⟨?_, fun v => ?_, h.lowlinks, fun frame hframe => ?_, h.known⟩
  · refine h.inv.emit hframes hend ?_ hstack
    rw [low_search hroot, num_search hi]
  · have hv := h.onStack v
    rw [hstack, List.append_cons, List.mem_append] at hv
    rw [List.append_cons] at hnodup
    show (if v ∈ above ++ [node] then false else st.onStack v) = true ↔ v ∈ below
    by_cases hin : v ∈ above ++ [node]
    · rw [if_pos hin]
      constructor
      · intro hfalse
        cases hfalse
      · intro hbelow
        exact absurd rfl ((List.nodup_append.mp hnodup).2.2 v hin v hbelow)
    · rw [if_neg hin, hv]
      exact ⟨fun hor => hor.resolve_left hin, Or.inr⟩
  · refine h.cached frame ?_
    rw [hwork]
    exact List.mem_cons_of_mem _ hframe

theorem finish_inner (h : Holds neighboursOf nodes st)
    (hwork : st.work = (node, pos, neighbors) :: rest) (hend : (neighboursOf node)[pos]? = none)
    {i low : Nat} (hi : st.indices node = some i) (hlow : st.lowlinks node = some low)
    (hinner : low ≠ i) :
    ∃ parent k cached rest' parentLow, rest = (parent, k, cached) :: rest' ∧
      st.lowlinks parent = some parentLow ∧
      Holds neighboursOf nodes { st with
        work := rest
        lowlinks := Function.update st.lowlinks parent (some (min parentLow low)) } := by
  have hframes := frames_search hwork
  have hpath : node ∈ st.search.path := by
    rw [Search.path, hframes, List.map_cons]
    exact List.mem_cons_self
  have hnum : st.search.num node = i := num_search hi
  have hget : st.search.low node = low := low_search hlow
  have hle : low ≤ i := by
    rw [← hget, ← hnum]
    exact h.inv.lowered.le node hpath
  obtain ⟨y, hy, hynum, hreach⟩ := h.inv.lowered.sound node hpath
  rw [hget] at hynum
  obtain ⟨before, j, rest', hrest⟩ := Tarjan.exists_frame h.inv.linked hframes hy (by
    rw [hynum, hnum]
    omega)
  have hedge : node ∈ neighboursOf before := Tarjan.edge_of_frames h.inv.linked hframes hrest
  have hne : node ≠ before := by
    intro heq
    have hlt := Tarjan.lt_of_path_cons (q := before) h.inv.numbered h.inv.linked hframes
      (by rw [hrest]; exact List.mem_cons_self)
    rw [← heq] at hlt
    exact Nat.lt_irrefl _ hlt
  cases hcase : rest with
  | nil =>
    rw [hcase] at hrest
    cases hrest
  | cons frame frames =>
    obtain ⟨parent, k, cached⟩ := frame
    rw [hcase, List.map_cons] at hrest
    obtain ⟨hhead, htail⟩ := List.cons.inj hrest
    cases hhead
    have hvisited : st.indices parent ≠ none := by
      refine h.inv.numbered.visited (h.inv.linked.mem_stack ?_)
      rw [Search.path, hframes, hcase]
      exact List.mem_cons_of_mem _ List.mem_cons_self
    obtain ⟨parentLow, hparentLow⟩ := h.lowlinks parent hvisited
    refine ⟨parent, k, cached, frames, parentLow, rfl, hparentLow, ?_⟩
    have hlower := h.inv.lower hy ((Reaches.edge hedge).trans hreach)
    rw [hynum] at hlower
    have hleave := hlower.leave hframes hend
    rw [Tarjan.low_lower hne, hget] at hleave
    have hinv := hleave (by
      show low < st.search.num node
      rw [hnum]
      omega) (by
      intro q k' rest'' hq
      rw [hcase, List.map_cons] at hq
      cases hq
      rw [Tarjan.low_lower_self]
      exact Nat.min_le_right _ _)
    rw [← search_lowered hparentLow] at hinv
    rw [hcase] at hinv
    refine ⟨hinv, h.onStack, lowlinks_lowered h.lowlinks, fun frame hframe => ?_, h.known⟩
    refine h.cached frame ?_
    rw [hwork, hcase]
    exact List.mem_cons_of_mem _ hframe

theorem Holds.leave (h : Holds neighboursOf nodes st)
    (hwork : st.work = (node, pos, neighbors) :: rest) (hend : (neighboursOf node)[pos]? = none) :
    ∃ st', st.finish node rest = some st' ∧ st'.work = rest ∧ st'.indices = st.indices ∧
      Holds neighboursOf nodes st' := by
  obtain ⟨i, hi⟩ := Option.ne_none_iff_exists'.mp (h.visited hwork)
  obtain ⟨low, hlow⟩ := h.lowlinks node (h.visited hwork)
  have hframes := frames_search hwork
  by_cases hroot : low = i
  · rw [hroot] at hlow
    have hleft := finish_root h hwork hend hi hlow
    cases hcase : rest with
    | nil =>
      refine ⟨{ st.popRoot node with work := [] }, ?_, rfl, rfl, hcase ▸ hleft⟩
      simp only [finish, hi, hlow, if_true]
    | cons frame frames =>
      obtain ⟨parent, k, cached⟩ := frame
      have hpath : parent ∈ (rest.map fun frame => (frame.1, frame.2.1)).map Prod.fst := by
        rw [hcase]
        exact List.mem_cons_self
      have hlt := Tarjan.lt_of_path_cons h.inv.numbered h.inv.linked hframes hpath
      have hmem : parent ∈ st.search.path := by
        rw [Search.path, hframes, List.map_cons]
        exact List.mem_cons_of_mem _ hpath
      obtain ⟨parentLow, hparentLow⟩ := h.lowlinks parent
        (h.inv.numbered.visited (h.inv.linked.mem_stack hmem))
      -- the parent's low link is already smaller, so that nothing is passed on
      have hle := h.inv.lowered.le parent hmem
      rw [low_search hparentLow] at hle
      rw [num_search hi] at hlt
      refine ⟨{ st.popRoot node with work := (parent, k, cached) :: frames }, ?_, rfl, rfl,
        hcase ▸ hleft⟩
      simp only [finish, hi, hlow, if_true, lowerTo]
      show (match st.lowlinks parent with
        | none => none
        | some low => if i < low then _ else _) = _
      rw [hparentLow]
      exact if_neg (by omega)
  · obtain ⟨parent, k, cached, rest', parentLow, hrest, hparentLow, hleft⟩ :=
      finish_inner h hwork hend hi hlow hroot
    refine ⟨_, ?_, ?_, ?_, hleft⟩
    · rw [finish, hi, hlow]
      simp only [if_neg hroot, hrest]
      exact @lowerTo_eq parent { st with work := (parent, k, cached) :: rest' } _ hparentLow low
    · rfl
    · rfl

theorem Holds.process (hnodes : ∀ u, ∀ v ∈ neighboursOf u, v ∈ nodes)
    (h : Holds neighboursOf nodes st) (hwork : st.work = (node, pos, neighbors) :: rest) :
    ∃ st', st.process neighboursOf node pos neighbors rest = some st' ∧
      Holds neighboursOf nodes st' ∧
      ((∃ next, st.indices next = none ∧ next ∈ nodes ∧ pos < neighbors.length ∧
          st'.indices = Function.update st.indices next (some st.indexCounter) ∧
          st'.work = (next, 0, neighboursOf next) :: (node, pos + 1, neighbors) :: rest) ∨
        pos < neighbors.length ∧ st'.indices = st.indices ∧
          st'.work = (node, pos + 1, neighbors) :: rest ∨
        st'.indices = st.indices ∧ st'.work = rest) := by
  have hcached : neighbors = neighboursOf node := by
    refine h.cached (node, pos, neighbors) ?_
    rw [hwork]
    exact List.mem_cons_self
  have hframes := frames_search hwork
  have hadvanced : ∀ frame ∈ (node, pos + 1, neighbors) :: rest,
      frame.2.2 = neighboursOf frame.1 := by
    intro frame hframe
    cases List.mem_cons.mp hframe with
    | inl heq => rw [heq, hcached]
    | inr hin =>
      refine h.cached frame ?_
      rw [hwork]
      exact List.mem_cons_of_mem _ hin
  cases hnext : neighbors[pos]? with
  | none =>
    obtain ⟨st', hfinish, hwork', hindices, hholds⟩ := h.leave hwork (hcached ▸ hnext)
    refine ⟨st', ?_, hholds, Or.inr (Or.inr ⟨hindices, hwork'⟩)⟩
    simp only [SccState.process, hnext, hfinish]
  | some next =>
    have hget : (neighboursOf node)[pos]? = some next := hcached ▸ hnext
    have hedge : next ∈ neighboursOf node := List.mem_of_getElem? hget
    have hlt : pos < neighbors.length := (List.getElem?_eq_some_iff.mp hnext).1
    have hin := hnodes node next hedge
    cases hindex : st.indices next with
    | none =>
      refine ⟨_, ?_, @Holds.enter _ _ { st with work := (node, pos + 1, neighbors) :: rest } _
          (h.inv.push hframes hget (not_not.mpr hindex)) h.onStack h.lowlinks hadvanced h.known
          hin, Or.inl ⟨next, hindex, hin, hlt, rfl, rfl⟩⟩
      simp only [SccState.process, hnext, hindex]
    | some i =>
      have hold : st.search.Visited next := by
        show st.indices next ≠ none
        rw [hindex]
        exact Option.some_ne_none i
      have hnum : st.search.num next = i := num_search hindex
      by_cases hstack : st.onStack next = true
      · have hmem : next ∈ st.stack := (h.onStack next).mp hstack
        obtain ⟨low, hlow⟩ := h.lowlinks node (h.visited hwork)
        have hlower := h.inv.lower hmem (Reaches.edge hedge)
        rw [hnum] at hlower
        have hpass := hlower.pass hframes hget hold fun _ => by
          rw [Tarjan.low_lower_self]
          exact (Nat.min_le_right _ _).trans_eq hnum.symm
        rw [← search_lowered hlow] at hpass
        refine ⟨{ st with
            work := (node, pos + 1, neighbors) :: rest
            lowlinks := Function.update st.lowlinks node (some (min low i)) }, ?_,
          ⟨hpass, h.onStack, lowlinks_lowered h.lowlinks, hadvanced, h.known⟩,
          Or.inr (Or.inl ⟨hlt, rfl, rfl⟩)⟩
        simp only [SccState.process, hnext, hindex, hstack, if_true]
        exact @lowerTo_eq node { st with work := (node, pos + 1, neighbors) :: rest } _ hlow i
      · have hpass := h.inv.pass hframes hget hold fun hmem =>
          absurd ((h.onStack next).mpr hmem) hstack
        refine ⟨{ st with work := (node, pos + 1, neighbors) :: rest }, ?_,
          ⟨hpass, h.onStack, h.lowlinks, hadvanced, h.known⟩,
          Or.inr (Or.inl ⟨hlt, rfl, rfl⟩)⟩
        simp only [SccState.process, hnext, hindex, hstack, if_false, Bool.false_eq_true]

end Passes

section Loop
variable {neighboursOf : NodeId → List NodeId} {nodes : List NodeId} {st : SccState}

/-- Passes that the frames still take: one for each neighbour that was not looked at, and one
to leave the node. -/
def weight (work : List (NodeId × Nat × List NodeId)) : Nat :=
  (work.map fun frame => frame.2.2.length - frame.2.1 + 1).sum

def unvisited (neighboursOf : NodeId → List NodeId) (nodes : List NodeId)
    (indices : NodeId → Option Nat) : Nat :=
  (nodes.map fun v => if indices v = none then (neighboursOf v).length + 2 else 0).sum

theorem unvisited_le (indices : NodeId → Option Nat) :
    unvisited neighboursOf nodes indices ≤ unvisited neighboursOf nodes fun _ => none := by
  refine List.sum_le_sum fun v _ => ?_
  split
  · exact Nat.le_refl _
  · exact Nat.zero_le _

theorem unvisited_update {indices : NodeId → Option Nat} {node : NodeId} (hnode : node ∈ nodes)
    (hnew : indices node = none) (i : Nat) :
    unvisited neighboursOf nodes (Function.update indices node (some i)) +
        ((neighboursOf node).length + 2) ≤ unvisited neighboursOf nodes indices := by
  have hle : ∀ l : List NodeId,
      unvisited neighboursOf l (Function.update indices node (some i)) ≤
        unvisited neighboursOf l indices := by
    intro l
    refine List.sum_le_sum fun v _ => ?_
    by_cases heq : v = node
    · rw [heq, Function.update_self, if_neg (Option.some_ne_none i)]
      exact Nat.zero_le _
    · rw [Function.update_of_ne heq]
  obtain ⟨before, after, rfl⟩ := List.append_of_mem hnode
  have hbefore := hle before
  have hafter := hle after
  rw [unvisited] at hbefore hafter
  rw [unvisited] at hbefore hafter
  rw [unvisited, unvisited, List.map_append, List.map_append, List.sum_append, List.sum_append,
    List.map_cons, List.map_cons, List.sum_cons, List.sum_cons, Function.update_self, if_pos hnew,
    if_neg (Option.some_ne_none i)]
  omega

theorem Holds.pass (hnodes : ∀ u, ∀ v ∈ neighboursOf u, v ∈ nodes)
    (h : Holds neighboursOf nodes st) {node : NodeId} {pos : Nat} {neighbors : List NodeId}
    {rest : List (NodeId × Nat × List NodeId)} (hwork : st.work = (node, pos, neighbors) :: rest) :
    ∃ st', st.process neighboursOf node pos neighbors rest = some st' ∧
      Holds neighboursOf nodes st' ∧ (∀ u, st.indices u ≠ none → st'.indices u ≠ none) ∧
      unvisited neighboursOf nodes st'.indices + weight st'.work <
        unvisited neighboursOf nodes st.indices + weight st.work := by
  obtain ⟨st', hprocess, hholds, hcases⟩ := h.process hnodes hwork
  refine ⟨st', hprocess, hholds, ?_⟩
  rw [hwork]
  cases hcases with
  | inl hnext =>
    obtain ⟨next, hnew, hin, hlt, hindices, hwork'⟩ := hnext
    have hfewer := @unvisited_update neighboursOf _ _ _ hin hnew st.indexCounter
    rw [hindices, hwork']
    refine ⟨fun u hu => ?_, ?_⟩
    · by_cases heq : u = next
      · rw [heq, Function.update_self]
        exact Option.some_ne_none _
      · rw [Function.update_of_ne heq]
        exact hu
    · simp only [weight, List.map_cons, List.sum_cons]
      omega
  | inr hold =>
    cases hold with
    | inl hpassed =>
      rw [hpassed.2.1, hpassed.2.2]
      refine ⟨fun _ hu => hu, ?_⟩
      have hlt := hpassed.1
      simp only [weight, List.map_cons, List.sum_cons]
      omega
    | inr hleft =>
      rw [hleft.1, hleft.2]
      refine ⟨fun _ hu => hu, ?_⟩
      simp only [weight, List.map_cons, List.sum_cons]
      omega

variable {fuel : Nat}

theorem Holds.drain (hnodes : ∀ u, ∀ v ∈ neighboursOf u, v ∈ nodes)
    (h : Holds neighboursOf nodes st)
    (hfuel : unvisited neighboursOf nodes st.indices + weight st.work ≤ fuel) :
    ∃ st', SccState.drain neighboursOf fuel st = some st' ∧ st'.work = [] ∧
      Holds neighboursOf nodes st' ∧ ∀ u, st.indices u ≠ none → st'.indices u ≠ none := by
  induction fuel generalizing st with
  | zero =>
    cases hwork : st.work with
    | nil => exact ⟨st, by rw [SccState.drain, hwork], hwork, h, fun _ hu => hu⟩
    | cons frame rest =>
      obtain ⟨_, _, _, _, hlt⟩ := h.pass hnodes hwork
      omega
  | succ fuel ih =>
    cases hwork : st.work with
    | nil => exact ⟨st, by rw [SccState.drain, hwork], hwork, h, fun _ hu => hu⟩
    | cons frame rest =>
      obtain ⟨node, pos, neighbors⟩ := frame
      obtain ⟨st₁, hprocess, hholds, hmono₁, hlt⟩ := h.pass hnodes hwork
      obtain ⟨st', hdrain, hwork', hholds', hmono⟩ := ih hholds (by omega)
      refine ⟨st', ?_, hwork', hholds', fun u hu => hmono u (hmono₁ u hu)⟩
      rw [SccState.drain]
      simp only [hwork, hprocess, hdrain]

theorem Holds.searchAll (hnodes : ∀ u, ∀ v ∈ neighboursOf u, v ∈ nodes)
    (hfuel : unvisited neighboursOf nodes (fun _ => none) ≤ fuel) {starts : List NodeId}
    (hstarts : ∀ v ∈ starts, v ∈ nodes) (h : Holds neighboursOf nodes st) (hwork : st.work = []) :
    ∃ st', SccState.searchAll neighboursOf fuel starts st = some st' ∧ st'.work = [] ∧
      Holds neighboursOf nodes st' ∧
      ∀ u, st.indices u ≠ none ∨ u ∈ starts → st'.indices u ≠ none := by
  induction starts generalizing st with
  | nil =>
    exact ⟨st, rfl, hwork, h, fun u hu => hu.resolve_right fun hin => by cases hin⟩
  | cons start starts ih =>
    have htail : ∀ v ∈ starts, v ∈ nodes := fun v hv => hstarts v (List.mem_cons_of_mem start hv)
    cases hindex : st.indices start with
    | some i =>
      obtain ⟨st', hsearch, hwork', hholds, hmono⟩ := ih htail h hwork
      refine ⟨st', ?_, hwork', hholds, fun u hu => hmono u ?_⟩
      · rw [SccState.searchAll, hindex]
        exact hsearch
      · cases hu with
        | inl hu => exact Or.inl hu
        | inr hu =>
          cases List.mem_cons.mp hu with
          | inl heq =>
            rw [heq, hindex]
            exact Or.inl (Option.some_ne_none i)
          | inr hin => exact Or.inr hin
    | none =>
      have hstart : start ∈ nodes := hstarts start List.mem_cons_self
      have hframes : st.search.frames = [] := by rw [search, hwork, List.map_nil]
      have hempty : { st with work := [] } = st := by rw [← hwork]
      have hentered : Holds neighboursOf nodes (SccState.enter neighboursOf st start) :=
        Holds.enter (h.inv.begin hframes (not_not.mpr hindex)) h.onStack h.lowlinks h.cached
          h.known hstart
      have hfewer := @unvisited_update neighboursOf _ _ _ hstart hindex st.indexCounter
      have hall := @unvisited_le neighboursOf nodes st.indices
      have henough :
          unvisited neighboursOf nodes (SccState.enter neighboursOf st start).indices +
            weight (SccState.enter neighboursOf st start).work ≤ fuel := by
        simp only [SccState.enter, hwork, weight, List.map_cons, List.sum_cons, List.map_nil,
          List.sum_nil]
        omega
      obtain ⟨st₁, hdrain, hwork₁, hholds₁, hmono₁⟩ := hentered.drain hnodes henough
      obtain ⟨st', hsearch, hwork', hholds, hmono⟩ := ih htail hholds₁ hwork₁
      refine ⟨st', ?_, hwork', hholds, fun u hu => hmono u ?_⟩
      · rw [SccState.searchAll, hindex, hempty]
        simp only [Option.isSome_none, Bool.false_eq_true, if_false, hdrain]
        exact hsearch
      · have hkept : ∀ v, st.indices v ≠ none ∨ v = start → st₁.indices v ≠ none := by
          intro v hv
          refine hmono₁ v ?_
          show Function.update st.indices start (some st.indexCounter) v ≠ none
          by_cases heq : v = start
          · rw [heq, Function.update_self]
            exact Option.some_ne_none _
          · rw [Function.update_of_ne heq]
            exact hv.resolve_right heq
        cases hu with
        | inl hu => exact Or.inl (hkept u (Or.inl hu))
        | inr hu =>
          cases List.mem_cons.mp hu with
          | inl heq => exact Or.inl (hkept u (Or.inr heq))
          | inr hin => exact Or.inr hin

theorem holds_new : Holds neighboursOf nodes .new where
  inv := Tarjan.inv_start _
  onStack v := ⟨fun h => (by cases h), fun h => by cases h⟩
  lowlinks v h := absurd rfl h
  cached frame h := by cases h
  known v h := absurd rfl h

theorem searchAll_ordered (hnodes : ∀ u, ∀ v ∈ neighboursOf u, v ∈ nodes)
    (hfuel : unvisited neighboursOf nodes (fun _ => none) ≤ fuel) :
    ∃ st, SccState.searchAll neighboursOf fuel nodes .new = some st ∧
      Components.Ordered neighboursOf st.components ∧
      ∀ v, v ∈ st.components.flatten ↔ v ∈ nodes := by
  obtain ⟨st, hsearch, hwork, hholds, hvisited⟩ :=
    holds_new.searchAll hnodes hfuel (fun _ hv => hv) rfl
  have hstack : st.search.stack = [] :=
    hholds.inv.stack_eq_nil (by rw [search, hwork, List.map_nil])
  have hiff : ∀ v, st.indices v ≠ none ↔ v ∈ st.components.flatten := by
    intro v
    have hvisit := hholds.inv.numbered.visited_iff v
    rw [hstack] at hvisit
    exact hvisit.trans ⟨fun h => h.resolve_left (by simp), Or.inr⟩
  refine ⟨st, hsearch, hholds.inv.ordered, fun v => ?_⟩
  rw [← hiff]
  exact ⟨hholds.known v, fun hv => hvisited v (Or.inr hv)⟩

end Loop
end SccState

section Record
variable {table : NodeId → Option Nat} {idx : Nat} {components : List (List NodeId)}
  {node : NodeId}

theorem foldl_recordNode (value : Nat) (component : List NodeId) :
    component.foldl (fun table nid => Function.update table nid (some value)) table node =
      if node ∈ component then some value else table node := by
  induction component generalizing table with
  | nil => simp
  | cons nid component ih =>
    rw [List.foldl_cons, ih]
    by_cases hin : node ∈ component
    · rw [if_pos hin, if_pos (List.mem_cons_of_mem nid hin)]
    · rw [if_neg hin]
      by_cases heq : node = nid
      · rw [heq, Function.update_self, if_pos List.mem_cons_self]
      · rw [Function.update_of_ne heq, if_neg]
        intro hmem
        cases List.mem_cons.mp hmem with
        | inl hself => exact heq hself
        | inr htail => exact hin htail

theorem recordComponents_of_notMem (h : node ∉ components.flatten) :
    recordComponents table idx components node = table node := by
  induction components generalizing table idx with
  | nil => rfl
  | cons component components ih =>
    rw [List.flatten_cons, List.mem_append, not_or] at h
    rw [recordComponents, ih h.2, foldl_recordNode, if_neg h.1]

theorem recordComponents_of_mem {k : Nat} {component : List NodeId}
    (hnodup : components.flatten.Nodup) (hk : components[k]? = some component)
    (hmem : node ∈ component) :
    recordComponents table idx components node = some (min (idx + k) u32Max) := by
  induction components generalizing table idx k with
  | nil => cases hk
  | cons first components ih =>
    rw [List.flatten_cons, List.nodup_append] at hnodup
    cases k with
    | zero =>
      cases hk
      have hafter : node ∉ components.flatten := fun hin =>
        hnodup.2.2 node hmem node hin rfl
      rw [recordComponents, recordComponents_of_notMem hafter, foldl_recordNode, if_pos hmem,
        Nat.add_zero]
    | succ k =>
      rw [List.getElem?_cons_succ] at hk
      rw [recordComponents, ih hnodup.2.1 hk, Nat.add_right_comm, Nat.add_assoc]

end Record

theorem length_le_flatten {components : List (List NodeId)}
    (h : ∀ component ∈ components, component ≠ []) :
    components.length ≤ components.flatten.length := by
  induction components with
  | nil => exact Nat.le_refl _
  | cons component components ih =>
    have hrest := ih fun c hc => h c (List.mem_cons_of_mem component hc)
    have hfirst := List.length_pos_of_ne_nil (h component List.mem_cons_self)
    rw [List.flatten_cons, List.length_append, List.length_cons]
    omega

namespace GraphSnapshot
variable {s : GraphSnapshot}

/-- The components divide the nodes that were not absorbed by mutual reachability, and the map
names the component of each. -/
structure SccExact (s : GraphSnapshot) (key : EdgeKind) (scc : CachedSccData) : Prop where
  nodup : scc.components.flatten.Nodup
  nonempty : ∀ component ∈ scc.components, component ≠ []
  covers : ∀ node, node ∈ scc.components.flatten ↔ node ∈ s.nonLosers
  classes : ∀ component ∈ scc.components, ∀ u ∈ component, ∀ v,
    v ∈ component ↔ Mutual (s.successorsBy key) u v
  componentOf : ∀ node i, scc.componentOf node = some i ↔
    ∃ component, scc.components[i]? = some component ∧ node ∈ component

variable {edgesFrom : NodeId → List StoreEdgeRef}

theorem mem_kindNeighbours (h : s.Reads edgesFrom) {key : EdgeKind} {u v : NodeId} :
    v ∈ kindNeighbours edgesFrom key u ↔ v ∈ s.successorsBy key u := by
  rw [kindNeighbours, SortedGroups.mem_sortBy, successorsBy]
  exact (((h u).filter _).map _).mem_iff

theorem kindNeighbours_eq {edgesFrom edgesFrom' : NodeId → List StoreEdgeRef}
    (h : s.Reads edgesFrom) (h' : s.Reads edgesFrom') (key : EdgeKind) :
    kindNeighbours edgesFrom key = kindNeighbours edgesFrom' key := by
  funext node
  exact SortedGroups.sortBy_eq_of_perm ((((h node).trans (h' node).symm).filter _).map _)
    fun _ _ _ _ heq => Std.LawfulEqCmp.eq_of_compare heq

theorem reads_self : s.Reads s.edges.edgesFrom := fun _ => List.Perm.refl _

theorem sccQuery_eq (h : s.Reads edgesFrom) (key : EdgeKind) (fuel : Nat) :
    s.sccQuery edgesFrom key fuel = s.sccQuery s.edges.edgesFrom key fuel := by
  rw [sccQuery, sccQuery, kindNeighbours_eq h reads_self]

theorem length_nonLosers : s.nonLosers.length ≤ u32Max + 1 := by
  rw [nonLosers, List.length_map]
  exact Nat.le_trans (List.length_filter_le _ _) s.nodes.length_iter

def sccPasses (s : GraphSnapshot) (key : EdgeKind) : Nat :=
  SccState.unvisited (kindNeighbours s.edges.edgesFrom key) s.nonLosers fun _ => none

theorem sccQuery_exact (hjoined : s.Joined) (key : EdgeKind) (h : s.Reads edgesFrom) {fuel : Nat}
    (hfuel : s.sccPasses key ≤ fuel) :
    ∃ scc, s.sccQuery edgesFrom key fuel = some scc ∧ s.SccExact key scc := by
  have hnodes : ∀ u, ∀ v ∈ kindNeighbours s.edges.edgesFrom key u, v ∈ s.nonLosers := by
    intro u v hv
    obtain ⟨edge, hedge, htarget⟩ := List.mem_map.mp ((mem_kindNeighbours reads_self).mp hv)
    rw [← htarget]
    exact hjoined u edge (List.mem_filter.mp hedge).1
  obtain ⟨st, hsearch, hordered, hflat⟩ := SccState.searchAll_ordered hnodes hfuel
  have hsame : Mutual (kindNeighbours s.edges.edgesFrom key) = Mutual (s.successorsBy key) := by
    have hreaches : (fun u v => v ∈ kindNeighbours s.edges.edgesFrom key u) =
        fun u v => v ∈ s.successorsBy key u := by
      funext u v
      exact propext (mem_kindNeighbours reads_self)
    funext u v
    rw [Mutual, Mutual, Reaches, Reaches, hreaches]
  rw [sccQuery_eq h, sccQuery, hsearch]
  refine ⟨_, rfl, hordered.nodup, hordered.nonempty, hflat, fun component hc u hu v => ?_,
    fun node i => ?_⟩
  · rw [← hsame]
    exact (hordered.exact component hc u hu v).symm
  · have hplace : ∀ {k : Nat} {component : List NodeId}, st.components[k]? = some component →
        node ∈ component → recordComponents (fun _ => none) 0 st.components node = some k := by
      intro k component hk hmem
      have hlt := (List.getElem?_eq_some_iff.mp hk).1
      have hlength := length_le_flatten hordered.nonempty
      have hnodes := length_nonLosers (s := s)
      have hsub := (List.subperm_of_subset hordered.nodup fun v hv => (hflat v).mp hv).length_le
      rw [recordComponents_of_mem hordered.nodup hk hmem, Nat.zero_add, Nat.min_eq_left (by omega)]
    constructor
    · intro hrecord
      by_cases hmem : node ∈ st.components.flatten
      · obtain ⟨component, hc, hnode⟩ := List.mem_flatten.mp hmem
        obtain ⟨k, hk⟩ := List.mem_iff_getElem?.mp hc
        have hrecorded : recordComponents (fun _ => none) 0 st.components node = some i := hrecord
        rw [hplace hk hnode] at hrecorded
        cases hrecorded
        exact ⟨component, hk, hnode⟩
      · have hrecorded : recordComponents (fun _ => none) 0 st.components node = some i := hrecord
        rw [recordComponents_of_notMem hmem] at hrecorded
        cases hrecorded
    · intro ⟨component, hk, hmem⟩
      exact hplace hk hmem

end GraphSnapshot
end Sqry
