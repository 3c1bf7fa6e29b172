import Mathlib.Algebra.Order.BigOperators.Group.Finset
import Sqry.Analysis.Scc

/-!
The search keeps the invariant of Tarjan's algorithm: a popped frame and its node become a
node of the path, and every pass of the loop is one of the moves. The loop ends, because a
pass visits a node or looks at a further neighbour or leaves a node.
-/

namespace Sqry.TarjanState

open Tarjan (Search Inv)
open Components (Reaches)

def search (st : TarjanState) (frames : List (Nat × Nat)) : Search Nat :=
  ⟨st.indices, st.index, st.lowlinks, st.stack, frames, st.sccs⟩

def dfsOf (pending : Option Nat) (frames : List (Nat × Nat)) : List (Nat × Nat) :=
  match pending with
  | some v => (v, 0) :: frames
  | none => frames

structure Holds (neighbors : Nat → List Nat) (nodeCount : Nat) (pending : Option Nat)
    (frames : List (Nat × Nat)) (st : TarjanState) : Prop where
  inv : Inv neighbors pending (st.search frames)
  onStack : ∀ v, st.onStack v = true ↔ v ∈ st.stack
  bounded : ∀ v, st.indices v ≠ none → v < nodeCount
  pending_lt : ∀ v, pending = some v → v < nodeCount

section Passes
variable {neighbors : Nat → List Nat} {nodeCount : Nat} {st : TarjanState}
  {frames rest : List (Nat × Nat)} {node j : Nat}

theorem visit_of_visited (h : st.indices node ≠ none) : st.visit node = st := by
  rw [visit, if_neg]
  rw [Option.isNone_iff_eq_none]
  exact h

theorem visit_of_new (h : st.indices node = none) :
    st.visit node = { st with
      indices := Function.update st.indices node (some st.index)
      lowlinks := Function.update st.lowlinks node st.index
      index := st.index + 1
      stack := node :: st.stack
      onStack := Function.update st.onStack node true } := by
  rw [visit, if_pos]
  rw [Option.isNone_iff_eq_none]
  exact h

theorem Holds.visit (h : Holds neighbors nodeCount (some node) frames st) :
    Holds neighbors nodeCount none ((node, 0) :: frames) (st.visit node) := by
  have hnew : st.indices node = none := not_not.mp (h.inv.linked.pending node rfl).1
  rw [visit_of_new hnew]
  refine ⟨h.inv.enter, fun v => ?_, fun v hv => ?_, fun v hv => by cases hv⟩
  · show Function.update st.onStack node true v = true ↔ v ∈ node :: st.stack
    by_cases heq : v = node
    · rw [heq, Function.update_self]
      exact ⟨fun _ => List.mem_cons_self, fun _ => rfl⟩
    · rw [Function.update_of_ne heq, h.onStack v, List.mem_cons]
      exact ⟨Or.inr, fun hv => hv.resolve_left heq⟩
  · by_cases heq : v = node
    · rw [heq]
      exact h.pending_lt node rfl
    · refine h.bounded v ?_
      rw [← Function.update_of_ne heq (some st.index) st.indices]
      exact hv

theorem popScc_split {above below : List Nat} (h : node ∉ above) :
    popScc node (above ++ node :: below) = some (above ++ [node], below) := by
  induction above with
  | nil => rw [List.nil_append, popScc, if_pos rfl, List.nil_append]
  | cons member above ih =>
    have hne : member ≠ node := fun heq => h (heq ▸ List.mem_cons_self)
    rw [List.cons_append, popScc, if_neg hne,
      ih fun hin => h (List.mem_cons_of_mem member hin)]
    rfl

theorem num_search {i : Nat} (h : st.indices node = some i) : (st.search frames).num node = i := by
  show (st.indices node).getD 0 = i
  rw [h, Option.getD_some]

theorem finish_root (h : Holds neighbors nodeCount none ((node, j) :: rest) st)
    (hend : (neighbors node)[j]? = none) {i : Nat} (hi : st.indices node = some i)
    (hroot : st.lowlinks node = i) :
    ∃ above below, popScc node st.stack = some (above ++ [node], below) ∧
      Holds neighbors nodeCount none rest { st with
        stack := below
        onStack := fun v => if v ∈ above ++ [node] then false else st.onStack v
        sccs := st.sccs ++ [above ++ [node]] } := by
  have hmem : node ∈ st.stack := h.inv.linked.mem_stack List.mem_cons_self
  obtain ⟨above, below, hstack, hnot⟩ := List.eq_append_cons_of_mem hmem
  have hnodup : (above ++ node :: below).Nodup := hstack ▸ h.inv.numbered.nodup
  refine ⟨above, below, ?_, ?_, fun v => ?_, h.bounded, fun v hv => by cases hv⟩
  · rw [hstack]
    exact popScc_split hnot
  · exact h.inv.emit rfl hend (hroot.trans (num_search hi).symm) hstack
  · have hv := h.onStack v
    rw [hstack, List.append_cons, List.mem_append] at hv
    rw [List.append_cons] at hnodup
    show (if v ∈ above ++ [node] then false else st.onStack v) = true ↔ v ∈ below
    by_cases hin : v ∈ above ++ [node]
    · rw [if_pos hin]
      constructor
      · intro hfalse
        cases hfalse
      · intro hbelow
        exact absurd rfl ((List.nodup_append.mp hnodup).2.2 v hin v hbelow)
    · rw [if_neg hin, hv]
      exact ⟨fun hor => hor.resolve_left hin, Or.inr⟩

theorem finish_inner (h : Holds neighbors nodeCount none ((node, j) :: rest) st)
    (hend : (neighbors node)[j]? = none) {i : Nat} (hi : st.indices node = some i)
    (hinner : st.lowlinks node ≠ i) :
    ∃ parent k rest', rest = (parent, k) :: rest' ∧
      Holds neighbors nodeCount none rest { st with
        lowlinks := Function.update st.lowlinks parent
          (min (st.lowlinks parent) (st.lowlinks node)) } := by
  have hpath : node ∈ (st.search ((node, j) :: rest)).path := List.mem_cons_self
  have hle : st.lowlinks node ≤ i := (h.inv.lowered.le node hpath).trans_eq (num_search hi)
  obtain ⟨y, hy, hnum, hreach⟩ := h.inv.lowered.sound node hpath
  have hynum : (st.search ((node, j) :: rest)).num y = st.lowlinks node := hnum
  have hnode : (st.search ((node, j) :: rest)).num node = i := num_search hi
  obtain ⟨parent, k, rest', hrest⟩ := Tarjan.exists_frame h.inv.linked rfl hy
    (show (st.search ((node, j) :: rest)).num y < (st.search ((node, j) :: rest)).num node by
      rw [hynum, hnode]
      omega)
  have hedge : node ∈ neighbors parent := Tarjan.edge_of_frames h.inv.linked rfl hrest
  have hlower := h.inv.lower hy ((Reaches.edge hedge).trans hreach)
  rw [hynum] at hlower
  have hne : node ≠ parent := by
    intro heq
    have hlt := Tarjan.lt_of_path_cons h.inv.numbered h.inv.linked rfl
      (show parent ∈ rest.map Prod.fst by rw [hrest]; exact List.mem_cons_self)
    rw [← heq] at hlt
    exact Nat.lt_irrefl _ hlt
  have hlow : ((st.search ((node, j) :: rest)).lower parent (st.lowlinks node)).low node =
      st.lowlinks node := Tarjan.low_lower hne
  refine ⟨parent, k, rest', hrest, ?_, h.onStack, h.bounded, fun v hv => by cases hv⟩
  refine hlower.leave rfl hend ?_ fun q k' rest'' hq => ?_
  · rw [hlow]
    show st.lowlinks node < (st.search ((node, j) :: rest)).num node
    rw [hnode]
    omega
  · rw [hrest] at hq
    cases hq
    rw [hlow, Tarjan.low_lower_self]
    exact Nat.min_le_right _ _

theorem Holds.leave (h : Holds neighbors nodeCount none ((node, j) :: rest) st)
    (hdfs : st.dfsStack = rest) (hend : (neighbors node)[j]? = none) :
    ∃ st', st.finish node = some st' ∧ st'.dfsStack = rest ∧ st'.indices = st.indices ∧
      Holds neighbors nodeCount none rest st' := by
  have hvisited : st.indices node ≠ none :=
    h.inv.numbered.visited (h.inv.linked.mem_stack List.mem_cons_self)
  obtain ⟨i, hi⟩ := Option.ne_none_iff_exists'.mp hvisited
  have hnode : (st.search ((node, j) :: rest)).num node = i := num_search hi
  cases hrest : rest with
  | nil =>
    have hroot : st.lowlinks node = i := by
      by_contra hinner
      obtain ⟨_, _, _, hcons, _⟩ := finish_inner h hend hi hinner
      rw [hrest] at hcons
      cases hcons
    obtain ⟨above, below, hpop, hholds⟩ := finish_root h hend hi hroot
    rw [hrest] at hholds hdfs
    refine ⟨_, ?_, ?_, ?_, hholds⟩
    · rw [finish, hdfs]
      simp only [hi, hroot, if_true, hpop]
      rw [hdfs]
    · exact hdfs
    · rfl
  | cons frame rest' =>
    obtain ⟨parent, k⟩ := frame
    have hlt := Tarjan.lt_of_path_cons h.inv.numbered h.inv.linked rfl
      (show parent ∈ rest.map Prod.fst by rw [hrest]; exact List.mem_cons_self)
    have hne : node ≠ parent := by
      intro heq
      rw [← heq] at hlt
      exact Nat.lt_irrefl _ hlt
    by_cases hroot : st.lowlinks node = i
    · -- the parent's low link is already smaller, so that passing it on changes nothing
      have hparent : st.lowlinks parent ≤ (st.search ((node, j) :: rest)).num parent :=
        h.inv.lowered.le parent (List.mem_cons_of_mem _ (by
          show parent ∈ rest.map Prod.fst
          rw [hrest]
          exact List.mem_cons_self))
      have hmin : min (st.lowlinks parent) i = st.lowlinks parent :=
        Nat.min_eq_left (by omega)
      have hsame : Function.update st.lowlinks parent (st.lowlinks parent) = st.lowlinks :=
        Function.update_eq_self parent st.lowlinks
      obtain ⟨above, below, hpop, hholds⟩ := finish_root h hend hi hroot
      rw [hrest] at hholds hdfs
      refine ⟨_, ?_, ?_, ?_, hholds⟩
      · rw [finish, hdfs]
        simp only [hi, hroot, hmin, hsame, if_true, hpop]
      · exact hdfs
      · rfl
    · obtain ⟨parent', k', rest'', hcons, hholds⟩ := finish_inner h hend hi hroot
      rw [hrest] at hcons
      cases hcons
      rw [hrest] at hholds hdfs
      refine ⟨_, ?_, ?_, ?_, hholds⟩
      · rw [finish, hdfs]
        simp only [hi, Function.update_of_ne hne, if_neg hroot]
      · exact hdfs
      · rfl

theorem Holds.process (hbound : ∀ u, ∀ v ∈ neighbors u, v < nodeCount)
    (h : Holds neighbors nodeCount none ((node, j) :: rest) st) (hdfs : st.dfsStack = rest) :
    ∃ st' pending frames', st.process neighbors nodeCount node j = some st' ∧
      st'.dfsStack = dfsOf pending frames' ∧ st'.indices = st.indices ∧
      Holds neighbors nodeCount pending frames' st' ∧
      (frames' = (node, j + 1) :: rest ∧ j < (neighbors node).length ∨
        frames' = rest ∧ pending = none) := by
  have hvisited : st.indices node ≠ none :=
    h.inv.numbered.visited (h.inv.linked.mem_stack List.mem_cons_self)
  cases hnext : (neighbors node)[j]? with
  | none =>
    obtain ⟨st', hfinish, hdfs', hindices, hholds⟩ := h.leave hdfs hnext
    refine ⟨st', none, rest, ?_, hdfs', hindices, hholds, Or.inr ⟨rfl, rfl⟩⟩
    rw [TarjanState.process, visit_of_visited hvisited]
    simp only [hnext, hfinish]
  | some next =>
    have hedge : next ∈ neighbors node := List.mem_of_getElem? hnext
    have hlt := hbound node next hedge
    have hj : j < (neighbors node).length := (List.getElem?_eq_some_iff.mp hnext).1
    cases hindex : st.indices next with
    | none =>
      refine ⟨{ st with dfsStack := (next, 0) :: (node, j + 1) :: rest }, some next,
        (node, j + 1) :: rest, ?_, rfl, rfl, ⟨h.inv.push rfl hnext (not_not.mpr hindex), h.onStack, h.bounded,
          fun v hv => ?_⟩, Or.inl ⟨rfl, hj⟩⟩
      · rw [TarjanState.process, visit_of_visited hvisited]
        simp only [hnext, if_neg (Nat.not_le_of_lt hlt), hindex, hdfs]
      · cases hv
        exact hlt
    | some i =>
      have hold : (st.search ((node, j) :: rest)).Visited next := by
        rw [Search.Visited]
        show st.indices next ≠ none
        rw [hindex]
        exact Option.some_ne_none i
      have hnum : (st.search ((node, j) :: rest)).num next = i := num_search hindex
      by_cases hstack : st.onStack next = true
      · have hmem : next ∈ st.stack := (h.onStack next).mp hstack
        have hlower := h.inv.lower hmem (Reaches.edge hedge)
        rw [hnum] at hlower
        have hpass := hlower.pass rfl hnext hold fun _ => by
          rw [Tarjan.low_lower_self]
          exact (Nat.min_le_right _ _).trans_eq hnum.symm
        refine ⟨{ st with
            dfsStack := (node, j + 1) :: rest
            lowlinks := Function.update st.lowlinks node (min (st.lowlinks node) i) },
          none, (node, j + 1) :: rest, ?_, rfl, rfl,
          ⟨hpass, h.onStack, h.bounded, fun v hv => by cases hv⟩, Or.inl ⟨rfl, hj⟩⟩
        rw [TarjanState.process, visit_of_visited hvisited]
        simp only [hnext, if_neg (Nat.not_le_of_lt hlt), hindex, hdfs, hstack, if_true]
      · have hpass := h.inv.pass rfl hnext hold fun hmem =>
          absurd ((h.onStack next).mpr hmem) hstack
        refine ⟨{ st with dfsStack := (node, j + 1) :: rest }, none, (node, j + 1) :: rest, ?_,
          rfl, rfl, ⟨hpass, h.onStack, h.bounded, fun v hv => by cases hv⟩, Or.inl ⟨rfl, hj⟩⟩
        rw [TarjanState.process, visit_of_visited hvisited]
        simp only [hnext, if_neg (Nat.not_le_of_lt hlt), hindex, hdfs, hstack, if_false,
          Bool.false_eq_true]

end Passes

section Loop
variable {neighbors : Nat → List Nat} {nodeCount : Nat} {st : TarjanState}

/-- Passes that the frames still take: one for each neighbour that was not looked at, and one
to leave the node. -/
def weight (neighbors : Nat → List Nat) : List (Nat × Nat) → Nat
  | [] => 0
  | (v, j) :: frames => (neighbors v).length - j + 1 + weight neighbors frames

def unvisited (neighbors : Nat → List Nat) (nodeCount : Nat) (st : TarjanState) : Nat :=
  ∑ v ∈ Finset.range nodeCount, if st.indices v = none then (neighbors v).length + 2 else 0

theorem unvisited_visit (neighbors : Nat → List Nat) {node : Nat} (hnew : st.indices node = none) (hlt : node < nodeCount) :
    unvisited neighbors nodeCount (st.visit node) + ((neighbors node).length + 2) =
      unvisited neighbors nodeCount st := by
  have hmem : node ∈ Finset.range nodeCount := Finset.mem_range.mpr hlt
  have hindices : (st.visit node).indices = Function.update st.indices node (some st.index) := by
    rw [visit_of_new hnew]
  rw [unvisited, unvisited, hindices, ← Finset.add_sum_erase _ _ hmem,
    ← Finset.add_sum_erase _ _ hmem, Function.update_self, if_neg (Option.some_ne_none _),
    if_pos hnew, Nat.zero_add, Nat.add_comm]
  congr 1
  refine Finset.sum_congr rfl fun v hv => ?_
  rw [Function.update_of_ne (Finset.ne_of_mem_erase hv)]

theorem unvisited_congr {st' : TarjanState} (h : st'.indices = st.indices) :
    unvisited neighbors nodeCount st' = unvisited neighbors nodeCount st := by
  rw [unvisited, unvisited, h]

theorem unvisited_le (neighbors : Nat → List Nat) (nodeCount : Nat) (st : TarjanState) :
    unvisited neighbors nodeCount st ≤ unvisited neighbors nodeCount .new := by
  refine Finset.sum_le_sum fun v _ => ?_
  split
  · exact Nat.le_refl _
  · exact Nat.zero_le _

theorem Holds.pass (hbound : ∀ u, ∀ v ∈ neighbors u, v < nodeCount) {pending : Option Nat}
    {frames dfsStack : List (Nat × Nat)} {node j : Nat}
    (h : Holds neighbors nodeCount pending frames st)
    (hdfs : dfsOf pending frames = (node, j) :: dfsStack) :
    ∃ st' pending' frames',
      TarjanState.process neighbors nodeCount { st with dfsStack := dfsStack } node j = some st' ∧
      st'.dfsStack = dfsOf pending' frames' ∧ Holds neighbors nodeCount pending' frames' st' ∧
      (∀ u, st.indices u ≠ none ∨ pending = some u → st'.indices u ≠ none) ∧
      unvisited neighbors nodeCount st' + weight neighbors frames' <
        unvisited neighbors nodeCount st + weight neighbors frames := by
  cases pending with
  | some v =>
    cases hdfs
    have hpopped : Holds neighbors nodeCount (some node) frames { st with dfsStack := frames } :=
      ⟨h.inv, h.onStack, h.bounded, h.pending_lt⟩
    generalize hst₀ : ({ st with dfsStack := frames } : TarjanState) = st₀ at hpopped ⊢
    have hindices₀ : st.indices = st₀.indices := by rw [← hst₀]
    have hnew : st₀.indices node = none := not_not.mp (hpopped.inv.linked.pending node rfl).1
    have hcount := unvisited_visit neighbors hnew (h.pending_lt node rfl)
    have hdfs₀ : (st₀.visit node).dfsStack = frames := by rw [visit_of_new hnew, ← hst₀]
    have hvisited : (st₀.visit node).indices node ≠ none :=
      hpopped.visit.inv.numbered.visited
        (hpopped.visit.inv.linked.mem_stack List.mem_cons_self)
    obtain ⟨st', pending', frames', hprocess, hdfs', hindices, hholds, hframes⟩ :=
      hpopped.visit.process hbound hdfs₀
    have hcount' : unvisited neighbors nodeCount st' =
        unvisited neighbors nodeCount (st₀.visit node) := unvisited_congr hindices
    have hcount₀ : unvisited neighbors nodeCount st = unvisited neighbors nodeCount st₀ :=
      unvisited_congr hindices₀
    refine ⟨st', pending', frames', ?_, hdfs', hholds, fun u hu => ?_, ?_⟩
    · rw [← hprocess, TarjanState.process, TarjanState.process, visit_of_visited hvisited]
    · rw [hindices]
      by_cases heq : u = node
      · rw [heq]
        exact hvisited
      · rw [visit_of_new hnew]
        show Function.update st₀.indices node (some st₀.index) u ≠ none
        rw [Function.update_of_ne heq, ← hindices₀]
        refine hu.resolve_right fun hpending => ?_
        cases hpending
        exact heq rfl
    · rw [hcount', hcount₀]
      cases hframes with
      | inl hadvance =>
        rw [hadvance.1, weight]
        omega
      | inr hleave =>
        rw [hleave.1]
        omega
  | none =>
    have hframes : frames = (node, j) :: dfsStack := hdfs
    subst hframes
    have hvisited : st.indices node ≠ none :=
      h.inv.numbered.visited (h.inv.linked.mem_stack List.mem_cons_self)
    have hpopped : Holds neighbors nodeCount none ((node, j) :: dfsStack)
        { st with dfsStack := dfsStack } := ⟨h.inv, h.onStack, h.bounded, h.pending_lt⟩
    obtain ⟨st', pending', frames', hprocess, hdfs', hindices, hholds, hframes⟩ :=
      hpopped.process hbound rfl
    have hcount : unvisited neighbors nodeCount st' = unvisited neighbors nodeCount st :=
      unvisited_congr hindices
    refine ⟨st', pending', frames', hprocess, hdfs', hholds, fun u hu => ?_, ?_⟩
    · rw [hindices]
      exact hu.resolve_right fun hpending => by cases hpending
    · rw [hcount]
      cases hframes with
      | inl hadvance =>
        rw [hadvance.1, weight, weight]
        omega
      | inr hleave =>
        rw [hleave.1, weight]
        omega

theorem Holds.drain (hbound : ∀ u, ∀ v ∈ neighbors u, v < nodeCount) {fuel : Nat}
    {pending : Option Nat} {frames : List (Nat × Nat)}
    (h : Holds neighbors nodeCount pending frames st) (hdfs : st.dfsStack = dfsOf pending frames)
    (hfuel : unvisited neighbors nodeCount st + weight neighbors frames ≤ fuel) :
    ∃ st', drain neighbors nodeCount fuel st = some st' ∧ st'.dfsStack = [] ∧
      Holds neighbors nodeCount none [] st' ∧
      ∀ u, st.indices u ≠ none ∨ pending = some u → st'.indices u ≠ none := by
  induction fuel generalizing st pending frames with
  | zero =>
    cases hframes : dfsOf pending frames with
    | nil =>
      cases pending with
      | some v => cases hframes
      | none =>
        have hnil : frames = [] := hframes
        rw [hnil] at h
        rw [hframes] at hdfs
        refine ⟨st, ?_, hdfs, h, fun u hu => hu.resolve_right fun hp => by cases hp⟩
        rw [TarjanState.drain, hdfs]
    | cons frame dfsStack =>
      obtain ⟨_, _, _, _, _, _, _, hlt⟩ := h.pass hbound hframes
      omega
  | succ fuel ih =>
    cases hframes : dfsOf pending frames with
    | nil =>
      cases pending with
      | some v => cases hframes
      | none =>
        have hnil : frames = [] := hframes
        rw [hnil] at h
        rw [hframes] at hdfs
        refine ⟨st, ?_, hdfs, h, fun u hu => hu.resolve_right fun hp => by cases hp⟩
        rw [TarjanState.drain, hdfs]
    | cons frame dfsStack =>
      obtain ⟨node, j⟩ := frame
      obtain ⟨st₁, pending₁, frames₁, hprocess, hdfs₁, hholds₁, hmono₁, hlt⟩ :=
        h.pass hbound hframes
      obtain ⟨st', hdrain, hdfs', hholds', hmono⟩ := ih hholds₁ hdfs₁ (by omega)
      refine ⟨st', ?_, hdfs', hholds', fun u hu => hmono u (Or.inl (hmono₁ u hu))⟩
      rw [hframes] at hdfs
      rw [TarjanState.drain]
      simp only [hdfs, hprocess, hdrain]

theorem drain_mono {fuel fuel' : Nat} (hle : fuel ≤ fuel') {st' : TarjanState}
    (h : TarjanState.drain neighbors nodeCount fuel st = some st') :
    TarjanState.drain neighbors nodeCount fuel' st = some st' := by
  induction fuel generalizing st fuel' with
  | zero =>
    rw [TarjanState.drain] at h
    cases hdfs : st.dfsStack with
    | nil =>
      simp only [hdfs] at h
      rw [TarjanState.drain]
      simp only [hdfs]
      exact h
    | cons frame dfsStack =>
      simp only [hdfs] at h
      cases h
  | succ fuel ih =>
    obtain ⟨more, rfl⟩ : ∃ more, fuel' = more + 1 := ⟨fuel' - 1, by omega⟩
    rw [TarjanState.drain] at h ⊢
    cases hdfs : st.dfsStack with
    | nil =>
      simp only [hdfs] at h ⊢
      exact h
    | cons frame dfsStack =>
      simp only [hdfs] at h ⊢
      cases hprocess : TarjanState.process neighbors nodeCount
          { st with dfsStack := dfsStack } frame.1 frame.2 with
      | none =>
        simp only [hprocess] at h
        cases h
      | some st₁ =>
        simp only [hprocess] at h ⊢
        exact ih (by omega) h

theorem searchAll_mono {fuel fuel' : Nat} (hle : fuel ≤ fuel') {starts : List Nat}
    {st' : TarjanState} (h : TarjanState.searchAll neighbors nodeCount fuel starts st = some st') :
    TarjanState.searchAll neighbors nodeCount fuel' starts st = some st' := by
  induction starts generalizing st with
  | nil => exact h
  | cons start starts ih =>
    rw [TarjanState.searchAll] at h ⊢
    split at h
    next hold =>
      rw [if_pos hold]
      exact ih h
    next hnew =>
      rw [if_neg hnew]
      cases hdrain : TarjanState.drain neighbors nodeCount fuel
          { st with dfsStack := [(start, 0)] } with
      | none =>
        simp only [hdrain] at h
        cases h
      | some st₁ =>
        simp only [hdrain] at h
        simp only [drain_mono hle hdrain]
        exact ih h

theorem Holds.searchAll (hbound : ∀ u, ∀ v ∈ neighbors u, v < nodeCount) {fuel : Nat}
    (hfuel : unvisited neighbors nodeCount .new ≤ fuel) {starts : List Nat}
    (hstarts : ∀ v ∈ starts, v < nodeCount) (h : Holds neighbors nodeCount none [] st)
    (hdfs : st.dfsStack = []) :
    ∃ st', searchAll neighbors nodeCount fuel starts st = some st' ∧
      Holds neighbors nodeCount none [] st' ∧
      ∀ u, st.indices u ≠ none ∨ u ∈ starts → st'.indices u ≠ none := by
  induction starts generalizing st with
  | nil => exact ⟨st, rfl, h, fun u hu => hu.resolve_right fun hin => by cases hin⟩
  | cons start starts ih =>
    have htail : ∀ v ∈ starts, v < nodeCount := fun v hv =>
      hstarts v (List.mem_cons_of_mem start hv)
    cases hindex : st.indices start with
    | some i =>
      obtain ⟨st', hsearch, hholds, hmono⟩ := ih htail h hdfs
      refine ⟨st', ?_, hholds, fun u hu => hmono u ?_⟩
      · rw [TarjanState.searchAll, hindex]
        exact hsearch
      · cases hu with
        | inl hu => exact Or.inl hu
        | inr hu =>
          cases List.mem_cons.mp hu with
          | inl heq =>
            rw [heq, hindex]
            exact Or.inl (Option.some_ne_none i)
          | inr hin => exact Or.inr hin
    | none =>
      have hbegin : Holds neighbors nodeCount (some start) []
          { st with dfsStack := [(start, 0)] } :=
        ⟨h.inv.begin rfl (not_not.mpr hindex), h.onStack, h.bounded, fun v hv => by
          cases hv
          exact hstarts start List.mem_cons_self⟩
      have hle := Nat.le_trans (unvisited_le neighbors nodeCount
        { st with dfsStack := [(start, 0)] }) hfuel
      obtain ⟨st₁, hdrain, hdfs₁, hholds₁, hmono₁⟩ := hbegin.drain hbound rfl hle
      obtain ⟨st', hsearch, hholds, hmono⟩ := ih htail hholds₁ hdfs₁
      refine ⟨st', ?_, hholds, fun u hu => hmono u ?_⟩
      · rw [TarjanState.searchAll, hindex]
        simp only [Option.isSome_none, Bool.false_eq_true, if_false, hdrain]
        exact hsearch
      · cases hu with
        | inl hu => exact Or.inl (hmono₁ u (Or.inl hu))
        | inr hu =>
          cases List.mem_cons.mp hu with
          | inl heq => exact Or.inl (hmono₁ u (Or.inr (congrArg some heq.symm)))
          | inr hin => exact Or.inr hin

theorem holds_new : Holds neighbors nodeCount none [] .new where
  inv := Tarjan.inv_start _
  onStack v := ⟨fun h => (by cases h), fun h => by cases h⟩
  bounded v h := absurd rfl h
  pending_lt v h := by cases h

theorem searchAll_ordered (hbound : ∀ u, ∀ v ∈ neighbors u, v < nodeCount) {fuel : Nat}
    (hfuel : unvisited neighbors nodeCount .new ≤ fuel) :
    ∃ st, searchAll neighbors nodeCount fuel (List.range nodeCount) .new = some st ∧
      Components.Ordered neighbors st.sccs ∧ ∀ v, v ∈ st.sccs.flatten ↔ v < nodeCount := by
  obtain ⟨st, hsearch, hholds, hvisited⟩ := holds_new.searchAll hbound hfuel
    (fun v hv => List.mem_range.mp hv) rfl
  have hstack : st.stack = [] := hholds.inv.stack_eq_nil rfl
  have hiff : ∀ v, st.indices v ≠ none ↔ v ∈ st.sccs.flatten := by
    intro v
    have hvisit := hholds.inv.numbered.visited_iff v
    have hempty : (st.search []).stack = [] := hstack
    rw [hempty] at hvisit
    exact hvisit.trans ⟨fun h => h.resolve_left (by simp), Or.inr⟩
  refine ⟨st, hsearch, hholds.inv.ordered, fun v => ?_⟩
  rw [← hiff]
  exact ⟨hholds.bounded v, fun hlt => hvisited v (Or.inr (List.mem_range.mpr hlt))⟩

end Loop
end Sqry.TarjanState
