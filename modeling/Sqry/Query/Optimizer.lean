import Mathlib.Data.List.Perm.Basic
import Sqry.Lib.SortedGroups
import Sqry.Query.SubqueryTransparent

/-!
The optimizer of queries: nested operators of one kind are flattened, and the operands of a
conjunction are put in the order in which they are cheap to test. Conditions are leaves, also
those with a subquery in them.
-/

namespace Sqry

open SortedGroups (sortBy)

structure FieldDescriptor where
  name : String
  indexed : Bool
  deriving DecidableEq, Repr

structure FieldRegistry where
  fields : AList fun _ : String => FieldDescriptor
  aliases : AList fun _ : String => String

namespace FieldRegistry

def get (registry : FieldRegistry) (name : String) : Option FieldDescriptor :=
  match registry.fields.lookup name with
  | some descriptor => some descriptor
  | none =>
    match registry.aliases.lookup name with
    | some canonical => registry.fields.lookup canonical
    | none => none

end FieldRegistry

namespace Optimizer
variable (registry : FieldRegistry)

inductive Connective where
  | and | or
  deriving DecidableEq, Repr

def Connective.of : Connective → List Expr → Expr
  | .and, operands => .and operands
  | .or, operands => .or operands

mutual

def flattenOperand (kind : Connective) : Expr → List Expr
  | .and nested =>
    match kind with
    | .and => flatten kind nested
    | .or => [.and nested]
  | .or nested =>
    match kind with
    | .and => [.or nested]
    | .or => flatten kind nested
  | other => [other]

def flatten (kind : Connective) : List Expr → List Expr
  | [] => []
  | operand :: operands => flattenOperand kind operand ++ flatten kind operands

end

def flattenAnd : List Expr → List Expr := flatten .and

def flattenOr : List Expr → List Expr := flatten .or

def estimateSelectivity (field : String) : Nat :=
  match field with
  | "kind" => 10
  | "name" => 1
  | "path" => 30
  | "lang" => 40
  | "scope" => 35
  | "text" => 50
  | _ => 45

def analyzeOperand : Expr → Bool × Nat
  | .condition field _ _ _ =>
    ((registry.get field).any FieldDescriptor.indexed, estimateSelectivity field)
  | _ => (false, 50)

def compareOperands (a b : Expr) : Ordering :=
  let (aIndexed, aSelectivity) := analyzeOperand registry a
  let (bIndexed, bSelectivity) := analyzeOperand registry b
  match aIndexed, bIndexed with
  | true, false => .lt
  | false, true => .gt
  | _, _ => compare aSelectivity bSelectivity

def isCondition : Expr → Bool
  | .condition .. => true
  | _ => false

def conditionsFirst (operands : List Expr) : List Expr :=
  sortBy (compareOperands registry) (operands.filter isCondition) ++
    operands.filter fun operand => !isCondition operand

def reorderAnd : List Expr → Expr
  | [] => .and []
  | [operand] => operand
  | operands => .and (conditionsFirst registry operands)

mutual

def optimize : Expr → Expr
  | .and operands => reorderAnd registry (flattenAnd (optimizeAll operands))
  | .or operands => .or (flattenOr (optimizeAll operands))
  | .not operand => .not (optimize operand)
  | .condition field operator value span => .condition field operator value span
  | .join left edge right span => .join (optimize left) edge (optimize right) span

def optimizeAll : List Expr → List Expr
  | [] => []
  | operand :: operands => optimize operand :: optimizeAll operands

end

structure Assignment where
  condition : String → Operator → Value → QuerySpan → Bool
  join : Bool → JoinEdgeKind → Bool → QuerySpan → Bool

mutual

def truth (assignment : Assignment) : Expr → Bool
  | .and operands => truthAll assignment operands
  | .or operands => truthAny assignment operands
  | .not operand => !truth assignment operand
  | .condition field operator value span => assignment.condition field operator value span
  | .join left edge right span =>
    assignment.join (truth assignment left) edge (truth assignment right) span

def truthAll (assignment : Assignment) : List Expr → Bool
  | [] => true
  | operand :: operands => truth assignment operand && truthAll assignment operands

def truthAny (assignment : Assignment) : List Expr → Bool
  | [] => false
  | operand :: operands => truth assignment operand || truthAny assignment operands

end

mutual

def conditions : Expr → List Expr
  | .and operands => conditionsOfAll operands
  | .or operands => conditionsOfAll operands
  | .not operand => conditions operand
  | .condition field operator value span => [.condition field operator value span]
  | .join left _ right _ => conditions left ++ conditions right

def conditionsOfAll : List Expr → List Expr
  | [] => []
  | operand :: operands => conditions operand ++ conditionsOfAll operands

end

def Is (kind : Connective) (e : Expr) : Prop := ∃ operands, e = kind.of operands

def Before (a b : Expr) : Prop :=
  (analyzeOperand registry a).1 = true ∧ (analyzeOperand registry b).1 = false ∨
    (analyzeOperand registry a).1 = (analyzeOperand registry b).1 ∧
      (analyzeOperand registry a).2 ≤ (analyzeOperand registry b).2

def Ordered (operands : List Expr) : Prop :=
  ∃ simple compound, operands = simple ++ compound ∧ (∀ e ∈ simple, isCondition e = true) ∧
    (∀ e ∈ compound, isCondition e = false) ∧ simple.Pairwise (Before registry)

/-- No operator has an operand of its own kind, and conjunctions are ordered and have no single
operand, everywhere in the expression. -/
inductive Optimized : Expr → Prop where
  | condition (field : String) (operator : Operator) (value : Value) (span : QuerySpan) :
      Optimized (.condition field operator value span)
  | not {operand : Expr} : Optimized operand → Optimized (.not operand)
  | join {left right : Expr} (edge : JoinEdgeKind) (span : QuerySpan) :
      Optimized left → Optimized right → Optimized (.join left edge right span)
  | or {operands : List Expr} : (∀ e ∈ operands, Optimized e) → (∀ e ∈ operands, ¬ Is .or e) →
      Optimized (.or operands)
  | and {operands : List Expr} : (∀ e ∈ operands, Optimized e) → (∀ e ∈ operands, ¬ Is .and e) →
      operands.length ≠ 1 → Ordered registry operands → Optimized (.and operands)

structure Preserves (e : Expr) : Prop where
  conditions : (conditions (optimize registry e)).Perm (conditions e)
  truth : ∀ assignment, truth assignment (optimize registry e) = truth assignment e
  sides : ∀ left edge right span, e = .join left edge right span →
    ∃ left' right', optimize registry e = .join left' edge right' span ∧
      ∀ assignment, Optimizer.truth assignment left' = Optimizer.truth assignment left ∧
        Optimizer.truth assignment right' = Optimizer.truth assignment right
  idempotent : optimize registry (optimize registry e) = optimize registry e
  optimized : Optimized registry (optimize registry e)

section Lists
variable {registry} {assignment : Assignment}
variable (l : List Expr)

theorem optimizeAll_eq : optimizeAll registry l = l.map (optimize registry) := by
  induction l with
  | nil => rfl
  | cons e l ih => rw [optimizeAll, ih, List.map_cons]

theorem truthAll_eq : truthAll assignment l = l.all (truth assignment) := by
  induction l with
  | nil => rfl
  | cons e l ih => rw [truthAll, ih, List.all_cons]

theorem truthAny_eq : truthAny assignment l = l.any (truth assignment) := by
  induction l with
  | nil => rfl
  | cons e l ih => rw [truthAny, ih, List.any_cons]

theorem conditionsOfAll_eq : conditionsOfAll l = l.flatMap conditions := by
  induction l with
  | nil => rfl
  | cons e l ih => rw [conditionsOfAll, ih, List.flatMap_cons]

end Lists

section Flatten
variable {registry} {kind : Connective}

theorem flatten_eq (l : List Expr) : flatten kind l = l.flatMap (flattenOperand kind) := by
  induction l with
  | nil => rfl
  | cons e l ih => rw [flatten, ih, List.flatMap_cons]

theorem flattenOperand_of (operands : List Expr) :
    flattenOperand kind (kind.of operands) = flatten kind operands := by
  cases kind with
  | and => rfl
  | or => rfl

theorem flattenOperand_of_not_is {e : Expr} (h : ¬ Is kind e) : flattenOperand kind e = [e] := by
  cases e with
  | and nested =>
    cases kind with
    | and => exact absurd ⟨nested, rfl⟩ h
    | or => rfl
  | or nested =>
    cases kind with
    | and => rfl
    | or => exact absurd ⟨nested, rfl⟩ h
  | not _ | condition _ _ _ _ | join _ _ _ _ => rfl

variable {l : List Expr}

theorem flatten_of_not_is (h : ∀ e ∈ l, ¬ Is kind e) : flatten kind l = l := by
  induction l with
  | nil => rfl
  | cons e l ih =>
    rw [flatten, flattenOperand_of_not_is (h e List.mem_cons_self),
      ih fun x hx => h x (List.mem_cons_of_mem e hx)]
    rfl

theorem inductOnKind {motive : Expr → Prop} (kind : Connective) (e : Expr)
    (of : ∀ es, (∀ x ∈ es, motive x) → motive (kind.of es))
    (other : ∀ x, ¬ Is kind x → motive x) : motive e := by
  induction e using Expr.inductOn with
  | or es ih =>
    cases kind with
    | or => exact of es ih
    | and =>
      refine other _ fun his => ?_
      obtain ⟨operands, heq⟩ := his
      cases heq
  | and es ih =>
    cases kind with
    | and => exact of es ih
    | or =>
      refine other _ fun his => ?_
      obtain ⟨operands, heq⟩ := his
      cases heq
  | not _ _ | condition _ _ _ _ _ | join _ _ _ _ _ _ =>
    refine other _ fun his => ?_
    obtain ⟨operands, heq⟩ := his
    cases kind <;> cases heq

theorem not_is_of_mem_flattenOperand {e x : Expr} (h : x ∈ flattenOperand kind e) :
    ¬ Is kind x := by
  induction e using inductOnKind kind generalizing x with
  | of es ih =>
    rw [flattenOperand_of, flatten_eq, List.mem_flatMap] at h
    obtain ⟨e, he, hx⟩ := h
    exact ih e he hx
  | other e hother =>
    rw [flattenOperand_of_not_is hother, List.mem_singleton] at h
    rw [h]
    exact hother

theorem not_is_of_mem_flatten {x : Expr} (h : x ∈ flatten kind l) :
    ¬ Is kind x := by
  rw [flatten_eq, List.mem_flatMap] at h
  obtain ⟨e, _, hx⟩ := h
  exact not_is_of_mem_flattenOperand hx

def truthOf (assignment : Assignment) : Connective → List Expr → Bool
  | .and, operands => operands.all (truth assignment)
  | .or, operands => operands.any (truth assignment)

variable (assignment : Assignment)

theorem truth_of (operands : List Expr) :
    truth assignment (kind.of operands) = truthOf assignment kind operands := by
  cases kind with
  | and => exact truthAll_eq operands
  | or => exact truthAny_eq operands

theorem truthOf_singleton (e : Expr) :
    truthOf assignment kind [e] = truth assignment e := by
  cases kind with
  | and => simp [truthOf]
  | or => simp [truthOf]

theorem truthOf_flatMap {assignment : Assignment} {f : Expr → List Expr}
    (h : ∀ e ∈ l, truthOf assignment kind (f e) = truth assignment e) :
    truthOf assignment kind (l.flatMap f) = truthOf assignment kind l := by
  induction l with
  | nil => rfl
  | cons e l ih =>
    have hfirst := h e List.mem_cons_self
    have hrest := ih fun x hx => h x (List.mem_cons_of_mem e hx)
    cases kind with
    | and =>
      simp only [truthOf] at hfirst hrest ⊢
      rw [List.flatMap_cons, List.all_append, List.all_cons, hfirst, hrest]
    | or =>
      simp only [truthOf] at hfirst hrest ⊢
      rw [List.flatMap_cons, List.any_append, List.any_cons, hfirst, hrest]

theorem truthOf_flattenOperand (e : Expr) :
    truthOf assignment kind (flattenOperand kind e) = truth assignment e := by
  induction e using inductOnKind kind with
  | of es ih => rw [flattenOperand_of, flatten_eq, truthOf_flatMap ih, truth_of]
  | other e hother => rw [flattenOperand_of_not_is hother, truthOf_singleton]

theorem truthOf_flatten (l : List Expr) :
    truthOf assignment kind (flatten kind l) = truthOf assignment kind l := by
  rw [flatten_eq]
  exact truthOf_flatMap fun e _ => truthOf_flattenOperand assignment e

theorem conditions_of (operands : List Expr) :
    conditions (kind.of operands) = operands.flatMap conditions := by
  cases kind with
  | and => exact conditionsOfAll_eq operands
  | or => exact conditionsOfAll_eq operands

theorem conditions_flattenOperand (e : Expr) :
    (flattenOperand kind e).flatMap conditions = conditions e := by
  induction e using inductOnKind kind with
  | of es ih =>
    rw [flattenOperand_of, flatten_eq, List.flatMap_assoc, conditions_of]
    exact List.flatMap_congr ih
  | other e hother => rw [flattenOperand_of_not_is hother, List.flatMap_singleton]

theorem conditions_flatten (l : List Expr) :
    (flatten kind l).flatMap conditions = l.flatMap conditions := by
  rw [flatten_eq, List.flatMap_assoc]
  exact List.flatMap_congr fun e _ => conditions_flattenOperand e

theorem Optimized.operands (h : Optimized registry (kind.of l)) :
    (∀ e ∈ l, Optimized registry e) ∧ ∀ e ∈ l, ¬ Is kind e := by
  cases kind with
  | and =>
    cases h with
    | and hall hnot _ _ => exact ⟨hall, hnot⟩
  | or =>
    cases h with
    | or hall hnot => exact ⟨hall, hnot⟩

theorem Optimized.of_mem_flatten (h : ∀ e ∈ l, Optimized registry e) {x : Expr}
    (hx : x ∈ flatten kind l) : Optimized registry x := by
  rw [flatten_eq, List.mem_flatMap] at hx
  obtain ⟨e, he, hx⟩ := hx
  have hopt := h e he
  by_cases his : Is kind e
  · obtain ⟨operands, heq⟩ := his
    rw [heq] at hopt hx
    obtain ⟨hall, hnot⟩ := hopt.operands
    rw [flattenOperand_of, flatten_of_not_is hnot] at hx
    exact hall x hx
  · rw [flattenOperand_of_not_is his, List.mem_singleton] at hx
    rw [hx]
    exact hopt

end Flatten

section Reorder
variable {registry} {l : List Expr}

theorem isLE_compareOperands {a b : Expr} :
    (compareOperands registry a b).isLE = true ↔ Before registry a b := by
  rw [compareOperands, Before]
  cases analyzeOperand registry a with
  | mk aIndexed aSelectivity =>
    cases analyzeOperand registry b with
    | mk bIndexed bSelectivity =>
      cases aIndexed <;> cases bIndexed <;> simp [Nat.isLE_compare]

theorem before_total (a b : Expr) : Before registry a b ∨ Before registry b a := by
  rw [Before, Before]
  cases (analyzeOperand registry a).1 <;> cases (analyzeOperand registry b).1 <;>
    simp [Nat.le_total]

theorem Before.trans {a b c : Expr} (hab : Before registry a b) (hbc : Before registry b c) :
    Before registry a c := by
  cases hab with
  | inl hab =>
    cases hbc with
    | inl hbc => rw [hab.2] at hbc; cases hbc.1
    | inr hbc => exact .inl ⟨hab.1, hbc.1 ▸ hab.2⟩
  | inr hab =>
    cases hbc with
    | inl hbc => exact .inl ⟨hab.1.trans hbc.1, hbc.2⟩
    | inr hbc => exact .inr ⟨hab.1.trans hbc.1, hab.2.trans hbc.2⟩

theorem pairwise_sortBy (l : List Expr) :
    (sortBy (compareOperands registry) l).Pairwise (Before registry) := by
  have htotal : Std.Total fun a b : Expr => (compareOperands registry a b).isLE = true :=
    ⟨fun a b => by simpa only [isLE_compareOperands] using before_total a b⟩
  have htrans : IsTrans Expr fun a b => (compareOperands registry a b).isLE = true :=
    ⟨fun a b c => by simpa only [isLE_compareOperands] using Before.trans⟩
  exact (List.pairwise_insertionSort _ l).imp fun h => isLE_compareOperands.mp h

theorem sortBy_of_pairwise (h : l.Pairwise (Before registry)) :
    sortBy (compareOperands registry) l = l :=
  (h.imp fun hab => isLE_compareOperands.mpr hab).insertionSort_eq

theorem conditionsFirst_perm (registry : FieldRegistry) (l : List Expr) :
    (conditionsFirst registry l).Perm l :=
  ((SortedGroups.perm_sortBy _ _).append_right _).trans (List.filter_append_perm isCondition l)

theorem ordered_conditionsFirst (registry : FieldRegistry) (l : List Expr) :
    Ordered registry (conditionsFirst registry l) := by
  refine ⟨_, _, rfl, fun e he => ?_, fun e he => ?_, pairwise_sortBy _⟩
  · exact (List.mem_filter.mp (SortedGroups.mem_sortBy.mp he)).2
  · simpa using (List.mem_filter.mp he).2

theorem conditionsFirst_of_ordered (h : Ordered registry l) : conditionsFirst registry l = l := by
  obtain ⟨simple, compound, heq, hsimple, hcompound, hsorted⟩ := h
  have hfirst : (simple ++ compound).filter isCondition = simple := by
    have hnone : compound.filter isCondition = [] :=
      List.filter_eq_nil_iff.mpr fun e he => by simp [hcompound e he]
    rw [List.filter_append, List.filter_eq_self.mpr hsimple, hnone, List.append_nil]
  have hlast : ((simple ++ compound).filter fun e => !isCondition e) = compound := by
    have hnone : (simple.filter fun e => !isCondition e) = [] :=
      List.filter_eq_nil_iff.mpr fun e he => by simp [hsimple e he]
    have hall : (compound.filter fun e => !isCondition e) = compound :=
      List.filter_eq_self.mpr fun e he => by simp [hcompound e he]
    rw [List.filter_append, hnone, hall, List.nil_append]
  rw [heq, conditionsFirst, hfirst, hlast, sortBy_of_pairwise hsorted]

theorem reorderAnd_cases (registry : FieldRegistry) (l : List Expr) :
    (∃ e, l = [e] ∧ reorderAnd registry l = e) ∨
      l.length ≠ 1 ∧ reorderAnd registry l = .and (conditionsFirst registry l) := by
  cases l with
  | nil => exact .inr ⟨by simp, rfl⟩
  | cons e l =>
    cases l with
    | nil => exact .inl ⟨e, rfl, rfl⟩
    | cons e' l => exact .inr ⟨by simp, rfl⟩

theorem truth_reorderAnd (assignment : Assignment) (l : List Expr) :
    truth assignment (reorderAnd registry l) = truthOf assignment .and l := by
  cases reorderAnd_cases registry l with
  | inl hsingle =>
    obtain ⟨e, hl, heq⟩ := hsingle
    rw [heq, hl, truthOf_singleton]
  | inr hseveral =>
    rw [hseveral.2]
    refine (@truth_of .and assignment _).trans ?_
    rw [Bool.eq_iff_iff, truthOf, truthOf, List.all_eq_true, List.all_eq_true]
    exact forall_congr' fun e => by rw [(conditionsFirst_perm registry l).mem_iff]

theorem conditions_reorderAnd (l : List Expr) :
    (conditions (reorderAnd registry l)).Perm (l.flatMap conditions) := by
  cases reorderAnd_cases registry l with
  | inl hsingle =>
    obtain ⟨e, hl, heq⟩ := hsingle
    rw [heq, hl, List.flatMap_singleton]
  | inr hseveral =>
    rw [hseveral.2]
    refine (List.Perm.of_eq (@conditions_of .and _)).trans ?_
    exact (conditionsFirst_perm registry l).flatMap_right conditions

theorem optimized_reorderAnd (hall : ∀ e ∈ l, Optimized registry e)
    (hnot : ∀ e ∈ l, ¬ Is .and e) : Optimized registry (reorderAnd registry l) := by
  cases reorderAnd_cases registry l with
  | inl hsingle =>
    obtain ⟨e, hl, heq⟩ := hsingle
    rw [heq]
    exact hall e (hl ▸ List.mem_singleton_self e)
  | inr hseveral =>
    have hperm := conditionsFirst_perm registry l
    rw [hseveral.2]
    refine .and (fun e he => hall e (hperm.mem_iff.mp he))
      (fun e he => hnot e (hperm.mem_iff.mp he)) ?_ (ordered_conditionsFirst registry l)
    rw [hperm.length_eq]
    exact hseveral.1

end Reorder

section Optimize
variable {registry} {kind : Connective}
variable {es : List Expr}

theorem truthOf_optimized (assignment : Assignment)
    (ih : ∀ e ∈ es, truth assignment (optimize registry e) = truth assignment e) :
    truthOf assignment kind (flatten kind (optimizeAll registry es)) =
      truth assignment (kind.of es) := by
  rw [truthOf_flatten, optimizeAll_eq, List.map_eq_flatMap, truth_of]
  refine truthOf_flatMap fun e he => ?_
  rw [truthOf_singleton, ih e he]

theorem truth_optimize (assignment : Assignment) (e : Expr) :
    truth assignment (optimize registry e) = truth assignment e := by
  induction e using Expr.inductOn with
  | and es ih =>
    rw [optimize, truth_reorderAnd]
    exact truthOf_optimized assignment ih
  | or es ih =>
    rw [optimize]
    exact (@truth_of .or assignment _).trans (truthOf_optimized assignment ih)
  | not e ih => rw [optimize, truth, truth, ih]
  | condition field operator value span _ => rfl
  | join left edge right span ihl ihr => rw [optimize, truth, truth, ihl, ihr]

theorem conditions_optimized
    (ih : ∀ e ∈ es, (conditions (optimize registry e)).Perm (conditions e)) :
    ((flatten kind (optimizeAll registry es)).flatMap conditions).Perm
      (conditions (kind.of es)) := by
  rw [conditions_flatten, optimizeAll_eq, conditions_of, List.flatMap_map]
  exact List.Perm.flatMap_left es ih

theorem conditions_optimize (e : Expr) :
    (conditions (optimize registry e)).Perm (conditions e) := by
  induction e using Expr.inductOn with
  | and es ih =>
    rw [optimize]
    exact (conditions_reorderAnd _).trans (conditions_optimized ih)
  | or es ih =>
    rw [optimize]
    exact (List.Perm.of_eq (@conditions_of .or _)).trans (conditions_optimized ih)
  | not e ih =>
    rw [optimize, conditions, conditions]
    exact ih
  | condition field operator value span _ => exact .rfl
  | join left edge right span ihl ihr =>
    rw [optimize, conditions, conditions]
    exact ihl.append ihr

theorem optimized_of_mem (ih : ∀ e ∈ es, Optimized registry (optimize registry e)) {x : Expr}
    (hx : x ∈ flatten kind (optimizeAll registry es)) : Optimized registry x := by
  refine Optimized.of_mem_flatten (fun e he => ?_) hx
  rw [optimizeAll_eq] at he
  obtain ⟨e', he', heq⟩ := List.mem_map.mp he
  rw [← heq]
  exact ih e' he'

theorem optimized_optimize (registry : FieldRegistry) (e : Expr) :
    Optimized registry (optimize registry e) := by
  induction e using Expr.inductOn with
  | and es ih =>
    rw [optimize]
    exact optimized_reorderAnd (fun x hx => optimized_of_mem ih hx)
      fun x hx => not_is_of_mem_flatten hx
  | or es ih =>
    rw [optimize]
    exact .or (fun x hx => optimized_of_mem ih hx) fun x hx => not_is_of_mem_flatten hx
  | not e ih => exact .not ih
  | condition field operator value span _ => exact .condition field operator value span
  | join left edge right span ihl ihr => exact .join edge span ihl ihr

theorem optimize_of_optimized {e : Expr} (h : Optimized registry e) : optimize registry e = e := by
  induction h with
  | condition field operator value span => rfl
  | not _ ih => rw [optimize, ih]
  | join edge span _ _ ihl ihr => rw [optimize, ihl, ihr]
  | @or es _ hnot ih =>
    rw [optimize, optimizeAll_eq, List.map_congr_left ih, List.map_id', flattenOr,
      flatten_of_not_is hnot]
  | @and es _ hnot hlength hordered ih =>
    rw [optimize, optimizeAll_eq, List.map_congr_left ih, List.map_id', flattenAnd,
      flatten_of_not_is hnot]
    cases reorderAnd_cases registry es with
    | inl hsingle =>
      obtain ⟨e, hes, _⟩ := hsingle
      exact absurd (by rw [hes]; rfl) hlength
    | inr hseveral => rw [hseveral.2, conditionsFirst_of_ordered hordered]

/-- The optimizer keeps what a query means and leaves nothing to optimize. -/
theorem optimize_preserves (registry : FieldRegistry) (e : Expr) : Preserves registry e where
  conditions := conditions_optimize e
  truth := fun assignment => truth_optimize assignment e
  sides := fun left edge right span heq => by
    refine ⟨optimize registry left, optimize registry right, by rw [heq, optimize],
      fun assignment => ⟨?_, ?_⟩⟩
    · exact truth_optimize assignment left
    · exact truth_optimize assignment right
  idempotent := optimize_of_optimized (optimized_optimize registry e)
  optimized := optimized_optimize registry e

end Optimize

section Evaluated
open GraphEvalContext

variable {tests : NodeTests} {lookup : QuerySpan → Expr → Option (List NodeId)} {node : NodeId}

/-- What the tests say of the conditions. A join is no test of a node. -/
def assignmentOf (tests : NodeTests) (lookup : QuerySpan → Expr → Option (List NodeId))
    (node : NodeId) : Assignment where
  condition field operator value span :=
    tests.satisfies lookup node (.condition field operator value span)
  join _ _ _ _ := false

theorem satisfies_eq_truth (e : Expr) :
    tests.satisfies lookup node e = truth (assignmentOf tests lookup node) e := by
  induction e using Expr.inductOn with
  | or es ih =>
    rw [NodeTests.satisfies, truth]
    induction es with
    | nil => rfl
    | cons e es ihes =>
      rw [NodeTests.satisfiesAny, truthAny, ih e List.mem_cons_self,
        ihes fun x hx => ih x (List.mem_cons_of_mem e hx)]
  | and es ih =>
    rw [NodeTests.satisfies, truth]
    induction es with
    | nil => rfl
    | cons e es ihes =>
      rw [NodeTests.satisfiesAll, truthAll, ih e List.mem_cons_self,
        ihes fun x hx => ih x (List.mem_cons_of_mem e hx)]
  | not e ih => rw [NodeTests.satisfies, truth, ih]
  | condition field operator value span _ => rfl
  | join left edge right span _ _ => rw [NodeTests.satisfies, truth, assignmentOf]

theorem collectSubqueryExprs_eq (e : Expr) :
    collectSubqueryExprs e = (conditions e).flatMap collectSubqueryExprs := by
  induction e using Expr.inductOn with
  | or es ih | and es ih =>
    rw [collectSubqueryExprs, collectSubqueryOperands_eq, conditions, conditionsOfAll_eq,
      List.flatMap_assoc]
    exact List.flatMap_congr ih
  | not e ih => rw [collectSubqueryExprs, conditions, ih]
  | condition field operator value span _ => rw [conditions, List.flatMap_singleton]
  | join left edge right span ihl ihr =>
    rw [collectSubqueryExprs, conditions, List.flatMap_append, ihl, ihr]

theorem collect_optimize (registry : FieldRegistry) (e : Expr) :
    (collectSubqueryExprs (optimize registry e)).Perm (collectSubqueryExprs e) := by
  rw [collectSubqueryExprs_eq, collectSubqueryExprs_eq e]
  exact (conditions_optimize e).flatMap_right _

/-- An optimized query is evaluated to what the query itself is evaluated to, where the spans tell
its subqueries apart. -/
theorem evaluateAll_optimize (registry : FieldRegistry) {ctx : GraphEvalContext} {expr : Expr}
    {found found' : List NodeId} (hfresh : ctx.subqueryCache = ∅) (htell : SpansTell expr)
    (h : ctx.evaluateAll expr = .ok found)
    (h' : ctx.evaluateAll (optimize registry expr) = .ok found') : found' = found := by
  have hmem : ∀ p, p ∈ collectSubqueryExprs (optimize registry expr) ↔
      p ∈ collectSubqueryExprs expr := fun p => (collect_optimize registry expr).mem_iff
  have htell' : SpansTell (optimize registry expr) := fun p hp q hq =>
    htell p ((hmem p).mp hp) q ((hmem q).mp hq)
  obtain ⟨cache, hown, hfound⟩ := evaluateAll_satisfying hfresh htell h
  obtain ⟨-, -, hfound'⟩ := evaluateAll_satisfying hfresh htell' h'
  rw [hfound cache hown, hfound' cache fun p hp => hown p ((hmem p).mp hp)]
  simp only [satisfies_eq_truth, truth_optimize]

theorem evaluateAll_optimize_callers : ∃ found,
    oneCall.evaluateAll (.and [ofKind "function", callersOfKind "function" .synthetic]) =
      .ok found ∧ found = [⟨0, 1⟩] :=
  ⟨_, rfl, @evaluateAll_optimize ⟨∅, ∅⟩ oneCall
    (.and [.and [callersOfKind "function" .synthetic, ofKind "function"]]) _ _ rfl
    (fun p hp q hq _ => by rw [List.mem_singleton.mp hp, List.mem_singleton.mp hq]) (by decide)
    rfl⟩

end Evaluated

end Optimizer
end Sqry
