import Mathlib.Data.List.Chain
import Mathlib.Data.List.Nodup
import Sqry.Lib.Components

/-!
Tarjan's search for strongly connected components, as an invariant of its moves. The nodes
are numbered as they are visited, visited nodes wait on a stack until their component is
complete, and the frames hold the path from the start node with the place in each node's
successor list. A node of the path owns the waiting nodes that were numbered from it on and
before the next node of the path; its low link bounds the edges that leave them.
-/

namespace Tarjan

open Components (Reaches Mutual Ordered)

universe u
variable {α : Type u}

structure Search (α : Type u) where
  index : α → Option Nat
  next : Nat
  low : α → Nat
  stack : List α
  frames : List (α × Nat)
  comps : List (List α)

namespace Search

def num (s : Search α) (v : α) : Nat := (s.index v).getD 0

def Visited (s : Search α) (v : α) : Prop := s.index v ≠ none

def path (s : Search α) : List α := s.frames.map Prod.fst

def Scanned (s : Search α) (succ : α → List α) (u v : α) : Prop :=
  v ∈ succ u ∧ ∀ j, (u, j) ∈ s.frames → v ∈ (succ u).take j

/-- The last node of the path that was not numbered after `u`. -/
def Owner (s : Search α) (p u : α) : Prop :=
  p ∈ s.path ∧ s.num p ≤ s.num u ∧ ∀ q ∈ s.path, s.num q ≤ s.num u → s.num q ≤ s.num p

end Search

structure Numbered (s : Search α) : Prop where
  lt_next : ∀ v, s.Visited v → s.num v < s.next
  sorted : s.stack.Pairwise fun u v => s.num v < s.num u
  visited_iff : ∀ v, s.Visited v ↔ v ∈ s.stack ∨ v ∈ s.comps.flatten
  separate : ∀ v ∈ s.stack, v ∉ s.comps.flatten

/-- The path runs through the stack, and the waiting nodes hang together with it. -/
structure Linked (succ : α → List α) (pending : Option α) (s : Search α) : Prop where
  path : s.path.Sublist s.stack
  chain : s.path.IsChain fun v u => v ∈ succ u
  scanned : ∀ u ∈ s.stack, ∀ v, s.Scanned succ u v → s.Visited v ∨ pending = some v
  back : ∀ u ∈ s.stack, u ∉ s.path → ∃ v ∈ s.stack, s.num v < s.num u ∧ Reaches succ u v
  owned : ∀ u ∈ s.stack, ∃ p, s.Owner p u ∧ Reaches succ p u
  pending : ∀ v, pending = some v →
    ¬ s.Visited v ∧ ∀ p j, s.frames.head? = some (p, j) → v ∈ succ p

structure Lowered (succ : α → List α) (s : Search α) : Prop where
  le : ∀ p ∈ s.path, s.low p ≤ s.num p
  sound : ∀ p ∈ s.path, ∃ v ∈ s.stack, s.num v = s.low p ∧ Reaches succ p v
  complete : ∀ p u v, u ∈ s.stack → s.Owner p u → s.Scanned succ u v → v ∈ s.stack →
    s.low p ≤ s.num v

/-- The invariant; a pending node is about to be visited from the end of the path. -/
structure Inv (succ : α → List α) (pending : Option α) (s : Search α) : Prop where
  ordered : Ordered succ s.comps
  numbered : Numbered s
  linked : Linked succ pending s
  lowered : Lowered succ s

section Facts
variable {succ : α → List α} {pending : Option α} {s : Search α}

theorem Numbered.visited (h : Numbered s) {v : α} (hv : v ∈ s.stack) : s.Visited v :=
  (h.visited_iff v).mpr (Or.inl hv)

theorem Numbered.inj (h : Numbered s) {u v : α} (hu : u ∈ s.stack) (hv : v ∈ s.stack)
    (heq : s.num u = s.num v) : u = v := by
  by_contra hne
  have hsymm : Std.Symm fun u v => s.num u ≠ s.num v := ⟨fun _ _ h h' => h h'.symm⟩
  have hdistinct : s.stack.Pairwise fun u v => s.num u ≠ s.num v :=
    h.sorted.imp fun {a b} hlt => Nat.ne_of_gt hlt
  exact hdistinct.forall hu hv hne heq

theorem Numbered.nodup (h : Numbered s) : s.stack.Nodup := by
  refine h.sorted.imp fun {a b} hlt heq => ?_
  rw [heq] at hlt
  exact Nat.lt_irrefl _ hlt

theorem Linked.mem_stack (h : Linked succ pending s) {p : α} (hp : p ∈ s.path) : p ∈ s.stack :=
  h.path.subset hp

theorem Owner.unique (hnum : Numbered s) (hpath : s.path ⊆ s.stack) {p q u : α}
    (hp : s.Owner p u) (hq : s.Owner q u) : p = q := by
  refine hnum.inj (hpath hp.1) (hpath hq.1) (Nat.le_antisymm ?_ ?_)
  · exact hq.2.2 p hp.1 hp.2.1
  · exact hp.2.2 q hq.1 hq.2.1

theorem Owner.self (p : α) (hp : p ∈ s.path) : s.Owner p p :=
  ⟨hp, Nat.le_refl _, fun _ _ h => h⟩

theorem owner_of_top (hnum : Numbered s) (hlink : Linked succ pending s) {p : α} {j : Nat}
    {rest : List (α × Nat)} (hframes : s.frames = (p, j) :: rest) {u : α}
    (hle : s.num p ≤ s.num u) : s.Owner p u := by
  have hpath : s.path = p :: rest.map Prod.fst := by rw [Search.path, hframes, List.map_cons]
  refine ⟨by rw [hpath]; exact List.mem_cons_self, hle, fun q hq _ => ?_⟩
  have hsorted : s.path.Pairwise fun u v => s.num v < s.num u := hnum.sorted.sublist hlink.path
  rw [hpath] at hsorted hq
  cases List.mem_cons.mp hq with
  | inl heq => exact Nat.le_of_eq (congrArg s.num heq)
  | inr hrest => exact Nat.le_of_lt ((List.pairwise_cons.mp hsorted).1 q hrest)

theorem lt_of_path_cons (hnum : Numbered s) (hlink : Linked succ pending s) {p q : α} {j : Nat}
    {rest : List (α × Nat)} (hframes : s.frames = (p, j) :: rest) (hq : q ∈ rest.map Prod.fst) :
    s.num q < s.num p := by
  have hsorted : s.path.Pairwise fun u v => s.num v < s.num u := hnum.sorted.sublist hlink.path
  rw [Search.path, hframes, List.map_cons] at hsorted
  exact (List.pairwise_cons.mp hsorted).1 q hq

end Facts

section Start
variable {succ : α → List α}

theorem inv_start (low : α → Nat) : Inv succ none ⟨fun _ => none, 0, low, [], [], []⟩ where
  ordered := Components.ordered_nil
  numbered :=
    { lt_next := fun v hv => absurd rfl hv
      sorted := List.Pairwise.nil
      visited_iff := fun v => ⟨fun hv => absurd rfl hv, fun hv => by
        cases hv with
        | inl hv => cases hv
        | inr hv => cases hv⟩
      separate := fun v hv => by cases hv }
  linked :=
    { path := List.Sublist.refl _
      chain := List.isChain_nil
      scanned := fun u hu => by cases hu
      back := fun u hu => by cases hu
      owned := fun u hu => by cases hu
      pending := fun v hv => by cases hv }
  lowered :=
    { le := fun p hp => by cases hp
      sound := fun p hp => by cases hp
      complete := fun p u v hu => by cases hu }

theorem Inv.stack_eq_nil {s : Search α} (h : Inv succ none s) (hframes : s.frames = []) :
    s.stack = [] := by
  refine List.eq_nil_iff_forall_not_mem.mpr fun u hu => ?_
  obtain ⟨p, howner, -⟩ := h.linked.owned u hu
  have hp := howner.1
  rw [Search.path, hframes] at hp
  cases hp

theorem Inv.begin {s : Search α} (h : Inv succ none s) (hframes : s.frames = []) {v : α}
    (hv : ¬ s.Visited v) : Inv succ (some v) s where
  ordered := h.ordered
  numbered := h.numbered
  lowered := h.lowered
  linked :=
    { h.linked with
      scanned := fun u hu w hw => by
        rw [h.stack_eq_nil hframes] at hu
        cases hu
      pending := fun w hw => by
        cases hw
        refine ⟨hv, fun p j hhead => ?_⟩
        rw [hframes] at hhead
        cases hhead }

end Start

section Enter
variable [DecidableEq α] {succ : α → List α} {s : Search α} {v : α}

def Search.enter (s : Search α) (v : α) : Search α :=
  { s with
    index := Function.update s.index v (some s.next)
    next := s.next + 1
    low := Function.update s.low v s.next
    stack := v :: s.stack
    frames := (v, 0) :: s.frames }

theorem index_enter_self : (s.enter v).index v = some s.next := Function.update_self ..

theorem index_enter {u : α} (hne : u ≠ v) : (s.enter v).index u = s.index u :=
  Function.update_of_ne hne ..

theorem low_enter_self : (s.enter v).low v = s.next := Function.update_self ..

theorem low_enter {u : α} (hne : u ≠ v) : (s.enter v).low u = s.low u :=
  Function.update_of_ne hne ..

theorem num_enter_self : (s.enter v).num v = s.next := by
  rw [Search.num, index_enter_self, Option.getD_some]

theorem num_enter {u : α} (hne : u ≠ v) : (s.enter v).num u = s.num u := by
  rw [Search.num, index_enter hne, Search.num]

theorem visited_enter {u : α} : (s.enter v).Visited u ↔ u = v ∨ s.Visited u := by
  rw [Search.Visited]
  by_cases h : u = v
  · subst h
    rw [index_enter_self]
    simp
  · rw [index_enter h]
    simp [h, Search.Visited]

theorem scanned_enter {u w : α} (h : (s.enter v).Scanned succ u w) :
    u ≠ v ∧ s.Scanned succ u w := by
  obtain ⟨hedge, htake⟩ := h
  refine ⟨fun heq => ?_, hedge, fun j hj => htake j (List.mem_cons_of_mem _ hj)⟩
  have hnone := htake 0 (by rw [heq]; exact List.mem_cons_self)
  rw [List.take_zero] at hnone
  cases hnone

theorem owner_enter (hnum : Numbered s) (hlink : Linked succ (some v) s) {p u : α}
    (hu : u ∈ s.stack) : (s.enter v).Owner p u ↔ s.Owner p u := by
  have hnew : ∀ w ∈ s.stack, w ≠ v := fun w hw heq =>
    (hlink.pending v rfl).1 (heq ▸ hnum.visited hw)
  have hold : ∀ q ∈ s.path, (s.enter v).num q = s.num q := fun q hq =>
    num_enter (hnew q (hlink.mem_stack hq))
  have hlt := hnum.lt_next u (hnum.visited hu)
  have hpath : (s.enter v).path = v :: s.path := rfl
  rw [Search.Owner, Search.Owner, hpath, num_enter (hnew u hu)]
  constructor
  · intro ⟨hp, hle, hmax⟩
    cases List.mem_cons.mp hp with
    | inl heq =>
      rw [heq, num_enter_self] at hle
      omega
    | inr hp =>
      rw [hold p hp] at hle hmax
      refine ⟨hp, hle, fun q hq hqle => ?_⟩
      have hmaxq := hmax q (List.mem_cons_of_mem v hq)
      rw [hold q hq] at hmaxq
      exact hmaxq hqle
  · intro ⟨hp, hle, hmax⟩
    rw [hold p hp]
    refine ⟨List.mem_cons_of_mem v hp, hle, fun q hq hqle => ?_⟩
    cases List.mem_cons.mp hq with
    | inl heq =>
      rw [heq, num_enter_self] at hqle
      omega
    | inr hq =>
      rw [hold q hq] at hqle ⊢
      exact hmax q hq hqle

theorem Inv.enter (h : Inv succ (some v) s) : Inv succ none (s.enter v) := by
  obtain ⟨hordered, hnum, hlink, hlow⟩ := h
  obtain ⟨hunvisited, hedge⟩ := hlink.pending v rfl
  have hnew : ∀ w ∈ s.stack, w ≠ v := fun w hw heq => hunvisited (heq ▸ hnum.visited hw)
  have hold : ∀ w ∈ s.stack, (s.enter v).num w = s.num w := fun w hw => num_enter (hnew w hw)
  have hlt : ∀ w ∈ s.stack, s.num w < s.next := fun w hw => hnum.lt_next w (hnum.visited hw)
  have hself : (s.enter v).Owner v v := Owner.self v List.mem_cons_self
  refine ⟨hordered, ⟨fun w hw => ?_, ?_, fun w => ?_, fun w hw => ?_⟩,
    ⟨hlink.path.cons_cons v, ?_, fun u hu w hw => ?_, fun u hu hpath => ?_, fun u hu => ?_,
      fun w hw => by cases hw⟩,
    ⟨fun p hp => ?_, fun p hp => ?_, fun p u w hu howner hscan hw => ?_⟩⟩
  · cases visited_enter.mp hw with
    | inl heq =>
      rw [heq, num_enter_self]
      exact Nat.lt_succ_self s.next
    | inr hw =>
      have hne : w ≠ v := fun heq => hunvisited (heq ▸ hw)
      rw [num_enter hne]
      exact Nat.lt_succ_of_lt (hnum.lt_next w hw)
  · refine List.pairwise_cons.mpr ⟨fun w hw => ?_, hnum.sorted.imp_of_mem fun ha hb hab => ?_⟩
    · rw [num_enter_self, hold w hw]
      exact hlt w hw
    · rw [hold _ ha, hold _ hb]
      exact hab
  · rw [visited_enter, hnum.visited_iff, ← or_assoc]
    exact or_congr_left List.mem_cons.symm
  · cases List.mem_cons.mp hw with
    | inl heq =>
      rw [heq]
      exact fun hin => hunvisited ((hnum.visited_iff v).mpr (Or.inr hin))
    | inr hw => exact hnum.separate w hw
  · show (v :: s.path).IsChain _
    have hchain := hlink.chain
    rw [Search.path] at hchain ⊢
    cases hf : s.frames with
    | nil => exact List.isChain_singleton v
    | cons f rest =>
      rw [hf] at hchain
      exact List.isChain_cons_cons.mpr ⟨hedge f.1 f.2 (by rw [hf]; rfl), hchain⟩
  · obtain ⟨hne, hscan⟩ := scanned_enter hw
    have hmem : u ∈ s.stack := (List.mem_cons.mp hu).resolve_left hne
    refine Or.inl (visited_enter.mpr ?_)
    cases hlink.scanned u hmem w hscan with
    | inl hvisited => exact Or.inr hvisited
    | inr heq =>
      cases heq
      exact Or.inl rfl
  · cases List.mem_cons.mp hu with
    | inl heq =>
      rw [heq] at hpath
      exact absurd List.mem_cons_self hpath
    | inr hu =>
      obtain ⟨w, hw, hlt, hreach⟩ := hlink.back u hu fun hp => hpath (List.mem_cons_of_mem v hp)
      refine ⟨w, List.mem_cons_of_mem v hw, ?_, hreach⟩
      rw [hold w hw, hold u hu]
      exact hlt
  · cases List.mem_cons.mp hu with
    | inl heq =>
      rw [heq]
      exact ⟨v, hself, Reaches.refl v⟩
    | inr hu =>
      obtain ⟨p, howner, hreach⟩ := hlink.owned u hu
      exact ⟨p, (owner_enter hnum hlink hu).mpr howner, hreach⟩
  · cases List.mem_cons.mp hp with
    | inl heq =>
      rw [heq, num_enter_self, low_enter_self]
    | inr hp =>
      have hmem := hlink.mem_stack hp
      rw [hold p hmem, low_enter (hnew p hmem)]
      exact hlow.le p hp
  · cases List.mem_cons.mp hp with
    | inl heq =>
      refine ⟨v, List.mem_cons_self, ?_, heq ▸ Reaches.refl v⟩
      rw [heq, num_enter_self, low_enter_self]
    | inr hp =>
      have hmem := hlink.mem_stack hp
      obtain ⟨w, hw, heq, hreach⟩ := hlow.sound p hp
      refine ⟨w, List.mem_cons_of_mem v hw, ?_, hreach⟩
      rw [hold w hw, heq, low_enter (hnew p hmem)]
  · obtain ⟨hne, hscan⟩ := scanned_enter hscan
    have hmem : u ∈ s.stack := (List.mem_cons.mp hu).resolve_left hne
    have howner := (owner_enter hnum hlink hmem).mp howner
    have hpmem := hlink.mem_stack howner.1
    rw [low_enter (hnew p hpmem)]
    cases List.mem_cons.mp hw with
    | inl heq =>
      rw [heq, num_enter_self]
      exact Nat.le_trans (hlow.le p howner.1) (Nat.le_of_lt (hlt p hpmem))
    | inr hw =>
      rw [hold w hw]
      exact hlow.complete p u w hmem howner hscan hw

end Enter
section Advance
variable {succ : α → List α} {s : Search α} {p v : α} {j : Nat} {rest : List (α × Nat)}

def Search.advance (s : Search α) (p : α) (j : Nat) (rest : List (α × Nat)) : Search α :=
  { s with frames := (p, j + 1) :: rest }

theorem path_advance (hframes : s.frames = (p, j) :: rest) :
    (s.advance p j rest).path = s.path := by
  rw [Search.path, Search.path, hframes]
  rfl

theorem owner_advance (hframes : s.frames = (p, j) :: rest) {q u : α} :
    (s.advance p j rest).Owner q u ↔ s.Owner q u := by
  rw [Search.Owner, Search.Owner, path_advance hframes]
  exact Iff.rfl

theorem scanned_advance (hframes : s.frames = (p, j) :: rest) (hv : (succ p)[j]? = some v)
    {u w : α} (h : (s.advance p j rest).Scanned succ u w) :
    s.Scanned succ u w ∨ u = p ∧ w = v := by
  obtain ⟨hedge, htake⟩ := h
  by_cases hlast : u = p ∧ w = v
  · exact Or.inr hlast
  · refine Or.inl ⟨hedge, fun k hk => ?_⟩
    rw [hframes] at hk
    cases List.mem_cons.mp hk with
    | inr hrest => exact htake k (List.mem_cons_of_mem _ hrest)
    | inl heq =>
      cases heq
      have hin := htake (j + 1) List.mem_cons_self
      rw [List.take_add_one, hv, List.mem_append] at hin
      cases hin with
      | inl hin => exact hin
      | inr hin => exact absurd ⟨rfl, List.mem_singleton.mp hin⟩ hlast

theorem Inv.push (h : Inv succ none s) (hframes : s.frames = (p, j) :: rest)
    (hv : (succ p)[j]? = some v) (hnew : ¬ s.Visited v) :
    Inv succ (some v) (s.advance p j rest) := by
  obtain ⟨hordered, hnum, hlink, hlow⟩ := h
  have hpath := path_advance hframes
  refine ⟨hordered, ⟨hnum.lt_next, hnum.sorted, hnum.visited_iff, hnum.separate⟩,
    ⟨?_, ?_, fun u hu w hw => ?_, fun u hu hup => ?_, fun u hu => ?_, fun w hw => ?_⟩,
    ⟨fun q hq => ?_, fun q hq => ?_, fun q u w hu howner hscan hw => ?_⟩⟩
  · rw [hpath]
    exact hlink.path
  · rw [hpath]
    exact hlink.chain
  · cases scanned_advance hframes hv hw with
    | inl hscan => exact Or.inl ((hlink.scanned u hu w hscan).resolve_right fun h => by cases h)
    | inr hlast => exact Or.inr (congrArg some hlast.2.symm)
  · rw [hpath] at hup
    exact hlink.back u hu hup
  · obtain ⟨q, howner, hreach⟩ := hlink.owned u hu
    exact ⟨q, (owner_advance hframes).mpr howner, hreach⟩
  · cases hw
    refine ⟨hnew, fun q k hhead => ?_⟩
    cases hhead
    exact List.mem_of_getElem? hv
  · rw [hpath] at hq
    exact hlow.le q hq
  · rw [hpath] at hq
    exact hlow.sound q hq
  · cases scanned_advance hframes hv hscan with
    | inl hscan => exact hlow.complete q u w hu ((owner_advance hframes).mp howner) hscan hw
    | inr hlast =>
      rw [hlast.2] at hw
      exact absurd (hnum.visited hw) hnew

theorem Inv.pass (h : Inv succ none s) (hframes : s.frames = (p, j) :: rest)
    (hv : (succ p)[j]? = some v) (hold : s.Visited v)
    (hbound : v ∈ s.stack → s.low p ≤ s.num v) : Inv succ none (s.advance p j rest) := by
  obtain ⟨hordered, hnum, hlink, hlow⟩ := h
  have hpath := path_advance hframes
  have hpmem : p ∈ s.path := by
    rw [Search.path, hframes]
    exact List.mem_cons_self
  refine ⟨hordered, ⟨hnum.lt_next, hnum.sorted, hnum.visited_iff, hnum.separate⟩,
    ⟨?_, ?_, fun u hu w hw => ?_, fun u hu hup => ?_, fun u hu => ?_, fun w hw => by cases hw⟩,
    ⟨fun q hq => ?_, fun q hq => ?_, fun q u w hu howner hscan hw => ?_⟩⟩
  · rw [hpath]
    exact hlink.path
  · rw [hpath]
    exact hlink.chain
  · cases scanned_advance hframes hv hw with
    | inl hscan => exact hlink.scanned u hu w hscan
    | inr hlast =>
      rw [hlast.2]
      exact Or.inl hold
  · rw [hpath] at hup
    exact hlink.back u hu hup
  · obtain ⟨q, howner, hreach⟩ := hlink.owned u hu
    exact ⟨q, (owner_advance hframes).mpr howner, hreach⟩
  · rw [hpath] at hq
    exact hlow.le q hq
  · rw [hpath] at hq
    exact hlow.sound q hq
  · have howner := (owner_advance hframes).mp howner
    cases scanned_advance hframes hv hscan with
    | inl hscan => exact hlow.complete q u w hu howner hscan hw
    | inr hlast =>
      rw [hlast.2] at hw ⊢
      rw [hlast.1] at howner
      rw [Owner.unique hnum hlink.path.subset howner (Owner.self p hpmem)]
      exact hbound hw

variable [DecidableEq α]

def Search.lower (s : Search α) (p : α) (bound : Nat) : Search α :=
  { s with low := Function.update s.low p (min (s.low p) bound) }

theorem low_lower_self {bound : Nat} : (s.lower p bound).low p = min (s.low p) bound :=
  Function.update_self ..

theorem low_lower {bound : Nat} {q : α} (hne : q ≠ p) : (s.lower p bound).low q = s.low q :=
  Function.update_of_ne hne ..

theorem low_lower_le {bound : Nat} (q : α) : (s.lower p bound).low q ≤ s.low q := by
  by_cases h : q = p
  · rw [h, low_lower_self]
    exact Nat.min_le_left _ _
  · rw [low_lower h]

theorem Lowered.lower (h : Lowered succ s) (hv : v ∈ s.stack) (hreach : Reaches succ p v) :
    Lowered succ (s.lower p (s.num v)) where
  le q hq := Nat.le_trans (low_lower_le q) (h.le q hq)
  sound q hq := by
    by_cases hqp : q = p
    · rw [hqp, low_lower_self]
      cases Nat.le_total (s.low p) (s.num v) with
      | inl hle =>
        rw [Nat.min_eq_left hle]
        rw [hqp] at hq
        exact h.sound p hq
      | inr hle =>
        rw [Nat.min_eq_right hle]
        exact ⟨v, hv, rfl, hreach⟩
    · rw [low_lower hqp]
      exact h.sound q hq
  complete q u w hu howner hscan hw :=
    Nat.le_trans (low_lower_le q) (h.complete q u w hu howner hscan hw)

theorem Inv.lower {pending : Option α} (h : Inv succ pending s) (hv : v ∈ s.stack)
    (hreach : Reaches succ p v) : Inv succ pending (s.lower p (s.num v)) :=
  ⟨h.ordered, ⟨h.numbered.lt_next, h.numbered.sorted, h.numbered.visited_iff, h.numbered.separate⟩,
    ⟨h.linked.path, h.linked.chain, h.linked.scanned, h.linked.back, h.linked.owned,
      h.linked.pending⟩,
    h.lowered.lower hv hreach⟩

end Advance

section Leave
variable {succ : α → List α} {s : Search α} {p : α} {j : Nat} {rest : List (α × Nat)}

def Search.pop (s : Search α) (rest : List (α × Nat)) : Search α := { s with frames := rest }

theorem path_cons (hframes : s.frames = (p, j) :: rest) : s.path = p :: (s.pop rest).path := by
  rw [Search.path, hframes]
  rfl

theorem scanned_pop (hframes : s.frames = (p, j) :: rest) (hend : (succ p)[j]? = none) {u w : α}
    (h : (s.pop rest).Scanned succ u w) : s.Scanned succ u w := by
  refine ⟨h.1, fun k hk => ?_⟩
  rw [hframes] at hk
  cases List.mem_cons.mp hk with
  | inr hrest => exact h.2 k hrest
  | inl heq =>
    cases heq
    rw [List.take_of_length_le (List.getElem?_eq_none_iff.mp hend)]
    exact h.1

theorem scanned_of_not_path {u w : α} (hu : u ∉ s.path) (hw : w ∈ succ u) :
    s.Scanned succ u w :=
  ⟨hw, fun _ hk => absurd (List.mem_map_of_mem hk) hu⟩

theorem scanned_top (hnum : Numbered s) (hlink : Linked succ none s)
    (hframes : s.frames = (p, j) :: rest) (hend : (succ p)[j]? = none) {w : α}
    (hw : w ∈ succ p) : s.Scanned succ p w := by
  refine scanned_pop hframes hend (scanned_of_not_path (fun hp => ?_) hw)
  exact Nat.lt_irrefl _ (lt_of_path_cons hnum hlink hframes hp)

theorem owner_pop (hframes : s.frames = (p, j) :: rest) {q u : α} (hq : q ∈ (s.pop rest).path) (h : s.Owner q u) :
    (s.pop rest).Owner q u := by
  obtain ⟨-, hle, hmax⟩ := h
  refine ⟨hq, hle, fun r hr => hmax r ?_⟩
  rw [path_cons hframes]
  exact List.mem_cons_of_mem p hr

theorem owner_pop_top (hnum : Numbered s) (hlink : Linked succ none s)
    (hframes : s.frames = (p, j) :: rest) {q : α} {k : Nat} {rest' : List (α × Nat)} (hrest : rest = (q, k) :: rest')
    {u : α} (hle : s.num p ≤ s.num u) : (s.pop rest).Owner q u := by
  have hqpath : q ∈ rest.map Prod.fst := by
    rw [hrest]
    exact List.mem_cons_self
  have hqlt := lt_of_path_cons hnum hlink hframes hqpath
  have hsorted : s.path.Pairwise fun u v => s.num v < s.num u := hnum.sorted.sublist hlink.path
  refine ⟨hqpath, Nat.le_trans (Nat.le_of_lt hqlt) hle, fun r hr _ => ?_⟩
  rw [path_cons hframes, List.pairwise_cons, Search.path, Search.pop, hrest, List.map_cons,
    List.pairwise_cons] at hsorted
  rw [Search.path, Search.pop, hrest, List.map_cons] at hr
  cases List.mem_cons.mp hr with
  | inl heq => exact Nat.le_of_eq (congrArg s.num heq)
  | inr hr => exact Nat.le_of_lt (hsorted.2.1 r hr)

theorem owner_of_pop (hframes : s.frames = (p, j) :: rest) {q u : α} (hlt : s.num u < s.num p) (h : (s.pop rest).Owner q u) :
    s.Owner q u := by
  obtain ⟨hq, hle, hmax⟩ := h
  refine ⟨?_, hle, fun r hr hrle => ?_⟩
  · rw [path_cons hframes]
    exact List.mem_cons_of_mem p hq
  · rw [path_cons hframes] at hr
    cases List.mem_cons.mp hr with
    | inl heq =>
      rw [heq] at hrle
      omega
    | inr hr => exact hmax r hr hrle

theorem mem_path_of_pop (hframes : s.frames = (p, j) :: rest) {q : α}
    (hq : q ∈ (s.pop rest).path) : q ∈ s.path := by
  rw [path_cons hframes]
  exact List.mem_cons_of_mem p hq

theorem edge_of_frames (hlink : Linked succ none s) (hframes : s.frames = (p, j) :: rest) {q : α}
    {k : Nat} {rest' : List (α × Nat)} (hrest : rest = (q, k) :: rest') : p ∈ succ q := by
  have hchain := hlink.chain
  rw [Search.path, hframes, hrest, List.map_cons, List.map_cons] at hchain
  exact (List.isChain_cons_cons.mp hchain).1

theorem exists_frame (hlink : Linked succ none s) (hframes : s.frames = (p, j) :: rest) {v : α}
    (hv : v ∈ s.stack) (hlt : s.num v < s.num p) : ∃ q k rest', rest = (q, k) :: rest' := by
  obtain ⟨q, ⟨hq, hle, -⟩, -⟩ := hlink.owned v hv
  rw [path_cons hframes] at hq
  cases List.mem_cons.mp hq with
  | inl heq =>
    rw [heq] at hle
    omega
  | inr hq =>
    cases hrest : rest with
    | nil =>
      rw [Search.path, Search.pop, hrest] at hq
      cases hq
    | cons f rest' => exact ⟨f.1, f.2, rest', rfl⟩

theorem Inv.leave (h : Inv succ none s) (hframes : s.frames = (p, j) :: rest)
    (hend : (succ p)[j]? = none) (hlt : s.low p < s.num p)
    (hbefore : ∀ q k rest', rest = (q, k) :: rest' → s.low q ≤ s.low p) :
    Inv succ none (s.pop rest) := by
  obtain ⟨hordered, hnum, hlink, hlow⟩ := h
  have hppath : p ∈ s.path := by
    rw [path_cons hframes]
    exact List.mem_cons_self
  obtain ⟨y, hy, hynum, hpy⟩ := hlow.sound p hppath
  obtain ⟨q, k, rest', hrest⟩ := exists_frame hlink hframes hy (by omega)
  have hedge := edge_of_frames hlink hframes hrest
  have hsub : (s.pop rest).path.Sublist s.stack := by
    have hpath := hlink.path
    rw [path_cons hframes] at hpath
    exact List.sublist_of_cons_sublist hpath
  refine ⟨hordered, ⟨hnum.lt_next, hnum.sorted, hnum.visited_iff, hnum.separate⟩,
    ⟨hsub, ?_, fun u hu w hw => hlink.scanned u hu w (scanned_pop hframes hend hw),
      fun u hu hup => ?_, fun u hu => ?_, fun w hw => by cases hw⟩,
    ⟨fun r hr => hlow.le r (mem_path_of_pop hframes hr),
      fun r hr => hlow.sound r (mem_path_of_pop hframes hr),
      fun r u w hu howner hscan hw => ?_⟩⟩
  · have hchain := hlink.chain
    rw [path_cons hframes] at hchain
    exact hchain.tail
  · by_cases hup' : u = p
    · rw [hup']
      exact ⟨y, hy, show s.num y < s.num p by omega, hpy⟩
    · refine hlink.back u hu fun hin => ?_
      rw [path_cons hframes] at hin
      exact hup ((List.mem_cons.mp hin).resolve_left hup')
  · obtain ⟨r, howner, hreach⟩ := hlink.owned u hu
    by_cases hrp : r = p
    · rw [hrp] at howner hreach
      exact ⟨q, owner_pop_top hnum hlink hframes hrest howner.2.1,
        (Reaches.edge hedge).trans hreach⟩
    · have hr := howner.1
      rw [path_cons hframes] at hr
      exact ⟨r, owner_pop hframes ((List.mem_cons.mp hr).resolve_left hrp) howner, hreach⟩
  · have hscan := scanned_pop hframes hend hscan
    by_cases hpu : s.num p ≤ s.num u
    · -- the owner before was `p`, and is now the node before it
      have hrq : r = q := Owner.unique
        (⟨hnum.lt_next, hnum.sorted, hnum.visited_iff, hnum.separate⟩ : Numbered (s.pop rest))
        hsub.subset howner (owner_pop_top hnum hlink hframes hrest hpu)
      rw [hrq]
      exact Nat.le_trans (hbefore q k rest' hrest)
        (hlow.complete p u w hu (owner_of_top hnum hlink hframes hpu) hscan hw)
    · exact hlow.complete r u w hu (owner_of_pop hframes (Nat.lt_of_not_le hpu) howner) hscan hw

end Leave

section Emit
variable {succ : α → List α} {s : Search α} {p : α} {j : Nat} {rest : List (α × Nat)}
  {above below : List α}

def Search.emit (s : Search α) (rest : List (α × Nat)) (component below : List α) : Search α :=
  { s with frames := rest, stack := below, comps := s.comps ++ [component] }

theorem mem_segment (hnum : Numbered s) (hstack : s.stack = above ++ p :: below) {u : α} :
    u ∈ above ++ [p] ↔ u ∈ s.stack ∧ s.num p ≤ s.num u := by
  have hsorted := hnum.sorted
  rw [hstack, List.pairwise_append, List.pairwise_cons] at hsorted
  obtain ⟨-, ⟨hbelow, -⟩, habove⟩ := hsorted
  rw [hstack, List.mem_append, List.mem_append, List.mem_singleton, List.mem_cons]
  constructor
  · intro hu
    cases hu with
    | inl hu => exact ⟨Or.inl hu, Nat.le_of_lt (habove u hu p List.mem_cons_self)⟩
    | inr hu => exact ⟨Or.inr (Or.inl hu), Nat.le_of_eq (congrArg s.num hu.symm)⟩
  · intro ⟨hu, hle⟩
    cases hu with
    | inl hu => exact Or.inl hu
    | inr hu =>
      cases hu with
      | inl hu => exact Or.inr hu
      | inr hu => exact absurd (hbelow u hu) (Nat.not_lt_of_le hle)

theorem mem_below (hnum : Numbered s) (hstack : s.stack = above ++ p :: below) {u : α} :
    u ∈ below ↔ u ∈ s.stack ∧ s.num u < s.num p := by
  have hsorted := hnum.sorted
  rw [hstack, List.pairwise_append, List.pairwise_cons] at hsorted
  obtain ⟨-, ⟨hbelow, -⟩, habove⟩ := hsorted
  rw [hstack, List.mem_append, List.mem_cons]
  constructor
  · intro hu
    exact ⟨Or.inr (Or.inr hu), hbelow u hu⟩
  · intro ⟨hu, hlt⟩
    cases hu with
    | inl hu => exact absurd (habove u hu p List.mem_cons_self) (Nat.lt_asymm hlt)
    | inr hu =>
      cases hu with
      | inl hu =>
        rw [hu] at hlt
        exact absurd hlt (Nat.lt_irrefl _)
      | inr hu => exact hu

theorem segment_closed (h : Inv succ none s) (hframes : s.frames = (p, j) :: rest)
    (hend : (succ p)[j]? = none) (hroot : s.low p = s.num p) {u v : α} (hu : u ∈ s.stack)
    (hle : s.num p ≤ s.num u) (hv : v ∈ succ u) :
    v ∈ s.comps.flatten ∨ v ∈ s.stack ∧ s.num p ≤ s.num v := by
  obtain ⟨-, hnum, hlink, hlow⟩ := h
  have hscan : s.Scanned succ u v := by
    by_cases hup : u = p
    · rw [hup] at hv ⊢
      exact scanned_top hnum hlink hframes hend hv
    · refine scanned_of_not_path (fun hin => ?_) hv
      rw [path_cons hframes] at hin
      have hlt := lt_of_path_cons hnum hlink hframes ((List.mem_cons.mp hin).resolve_left hup)
      omega
  have hvisited := (hlink.scanned u hu v hscan).resolve_right fun h => by cases h
  cases (hnum.visited_iff v).mp hvisited with
  | inr hemitted => exact Or.inl hemitted
  | inl hstack =>
    have hbound := hlow.complete p u v hu (owner_of_top hnum hlink hframes hle) hscan hstack
    exact Or.inr ⟨hstack, by omega⟩

theorem segment_reaches (h : Inv succ none s) (hframes : s.frames = (p, j) :: rest)
    (hend : (succ p)[j]? = none) (hroot : s.low p = s.num p) {u : α} (hu : u ∈ s.stack)
    (hle : s.num p ≤ s.num u) : Reaches succ u p := by
  -- by induction on the number: an inner node reaches an earlier one, without leaving
  induction hn : s.num u using Nat.strongRecOn generalizing u with
  | ind n ih =>
    by_cases hup : u = p
    · rw [hup]
      exact Reaches.refl p
    · have hnot : u ∉ s.path := by
        intro hin
        rw [path_cons hframes] at hin
        have hlt := lt_of_path_cons h.numbered h.linked hframes
          ((List.mem_cons.mp hin).resolve_left hup)
        omega
      obtain ⟨v, hv, hlt, hreach⟩ := h.linked.back u hu hnot
      have hclosed : ∀ x, x ∈ s.comps.flatten ∨ x ∈ s.stack ∧ s.num p ≤ s.num x →
          ∀ y ∈ succ x, y ∈ s.comps.flatten ∨ y ∈ s.stack ∧ s.num p ≤ s.num y := by
        intro x hx y hy
        cases hx with
        | inl hx => exact Or.inl (h.ordered.closed_flatten x hx y hy)
        | inr hx => exact segment_closed h hframes hend hroot hx.1 hx.2 hy
      cases hreach.mem_of_closed hclosed (Or.inr ⟨hu, hle⟩) with
      | inl hemitted => exact absurd hemitted (h.numbered.separate v hv)
      | inr hin => exact hreach.trans (ih (s.num v) (hn ▸ hlt) hv hin.2 rfl)

theorem segment_ordered (h : Inv succ none s) (hframes : s.frames = (p, j) :: rest)
    (hend : (succ p)[j]? = none) (hroot : s.low p = s.num p)
    (hstack : s.stack = above ++ p :: below) : Ordered succ (s.comps ++ [above ++ [p]]) := by
  have hsegment : ∀ u, u ∈ above ++ [p] ↔ u ∈ s.stack ∧ s.num p ≤ s.num u := fun u =>
    mem_segment h.numbered hstack
  have hnodup : (above ++ [p]).Nodup := by
    have hall := h.numbered.nodup
    rw [hstack, List.append_cons] at hall
    exact hall.sublist (List.sublist_append_left _ _)
  have hroot_mem : p ∈ above ++ [p] := List.mem_append_right _ List.mem_cons_self
  refine h.ordered.append hroot_mem hnodup (fun u hu => ?_) (fun u hu v hv => ?_) fun u hu => ?_
  · exact h.numbered.separate u ((hsegment u).mp hu).1
  · obtain ⟨hmem, hle⟩ := (hsegment u).mp hu
    rw [hsegment]
    exact segment_closed h hframes hend hroot hmem hle hv
  · obtain ⟨hmem, hle⟩ := (hsegment u).mp hu
    obtain ⟨q, howner, hreach⟩ := h.linked.owned u hmem
    have hq : q = p := Owner.unique h.numbered h.linked.path.subset howner
      (owner_of_top h.numbered h.linked hframes hle)
    rw [hq] at hreach
    exact ⟨hreach, segment_reaches h hframes hend hroot hmem hle⟩

theorem sublist_below {l : List α} (hnodup : (above ++ p :: below).Nodup)
    (h : (p :: l).Sublist (above ++ p :: below)) : l.Sublist below := by
  induction above with
  | nil => exact List.cons_sublist_cons.mp h
  | cons a above ih =>
    rw [List.cons_append] at h hnodup
    obtain ⟨hnot, htail⟩ := List.nodup_cons.mp hnodup
    cases h with
    | cons _ h => exact ih htail h
    | cons_cons _ h => exact absurd (List.mem_append_right _ List.mem_cons_self) hnot

theorem Inv.emit (h : Inv succ none s) (hframes : s.frames = (p, j) :: rest)
    (hend : (succ p)[j]? = none) (hroot : s.low p = s.num p)
    (hstack : s.stack = above ++ p :: below) :
    Inv succ none (s.emit rest (above ++ [p]) below) := by
  have hordered := segment_ordered h hframes hend hroot hstack
  obtain ⟨-, hnum, hlink, hlow⟩ := h
  have hbelow : ∀ u, u ∈ below ↔ u ∈ s.stack ∧ s.num u < s.num p := fun u =>
    mem_below hnum hstack
  have hnodup := hnum.nodup
  rw [hstack] at hnodup
  have hsub : (s.pop rest).path.Sublist below := by
    have hpath := hlink.path
    rw [path_cons hframes, hstack] at hpath
    exact sublist_below hnodup hpath
  refine ⟨hordered, ⟨hnum.lt_next, ?_, fun v => ?_, fun v hv => ?_⟩,
    ⟨hsub, ?_, fun u hu w hw => ?_, fun u hu hup => ?_, fun u hu => ?_, fun w hw => by cases hw⟩,
    ⟨fun q hq => hlow.le q (mem_path_of_pop hframes hq), fun q hq => ?_,
      fun q u w hu howner hscan hw => ?_⟩⟩
  · have hsorted := hnum.sorted
    rw [hstack] at hsorted
    exact (List.pairwise_cons.mp (List.pairwise_append.mp hsorted).2.1).2
  · show s.Visited v ↔ v ∈ below ∨ v ∈ (s.comps ++ [above ++ [p]]).flatten
    rw [hnum.visited_iff, hstack, List.flatten_append, List.flatten_singleton]
    simp only [List.mem_append, List.mem_cons, List.not_mem_nil, or_false]
    tauto
  · show v ∉ (s.comps ++ [above ++ [p]]).flatten
    obtain ⟨hmem, hlt⟩ := (hbelow v).mp hv
    rw [List.flatten_append, List.flatten_singleton, List.mem_append, mem_segment hnum hstack]
    intro hin
    cases hin with
    | inl hin => exact hnum.separate v hmem hin
    | inr hin => exact absurd hlt (Nat.not_lt_of_le hin.2)
  · have hchain := hlink.chain
    rw [path_cons hframes] at hchain
    exact hchain.tail
  · exact hlink.scanned u ((hbelow u).mp hu).1 w (scanned_pop hframes hend hw)
  · obtain ⟨hmem, hlt⟩ := (hbelow u).mp hu
    have hnot : u ∉ s.path := by
      intro hin
      rw [path_cons hframes] at hin
      cases List.mem_cons.mp hin with
      | inl heq =>
        rw [heq] at hlt
        exact Nat.lt_irrefl _ hlt
      | inr hin => exact hup hin
    obtain ⟨v, hv, hvlt, hreach⟩ := hlink.back u hmem hnot
    exact ⟨v, (hbelow v).mpr ⟨hv, Nat.lt_trans hvlt hlt⟩, hvlt, hreach⟩
  · obtain ⟨hmem, hlt⟩ := (hbelow u).mp hu
    obtain ⟨q, howner, hreach⟩ := hlink.owned u hmem
    have hq := howner.1
    rw [path_cons hframes] at hq
    cases List.mem_cons.mp hq with
    | inl heq =>
      have hle := howner.2.1
      rw [heq] at hle
      omega
    | inr hq => exact ⟨q, owner_pop hframes hq howner, hreach⟩
  · obtain ⟨v, hv, heq, hreach⟩ := hlow.sound q (mem_path_of_pop hframes hq)
    refine ⟨v, (hbelow v).mpr ⟨hv, ?_⟩, heq, hreach⟩
    have hle := hlow.le q (mem_path_of_pop hframes hq)
    have hlt := lt_of_path_cons hnum hlink hframes hq
    omega
  · obtain ⟨hmem, hlt⟩ := (hbelow u).mp hu
    exact hlow.complete q u w hmem (owner_of_pop hframes hlt howner)
      (scanned_pop hframes hend hscan) ((hbelow w).mp hw).1

end Emit
end Tarjan
