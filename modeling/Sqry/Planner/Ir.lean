import Sqry.Query.Ast
import Sqry.Bind.ScopeArena

/-!
The plans of the planner. Predicates that carry no plan are a type of their own, and the
six relations share one constructor.
-/

namespace Sqry

inductive MatchMode where
  | exact | glob | startsWith | endsWith | contains
  deriving DecidableEq, Repr

structure StringPattern where
  raw : String
  mode : MatchMode
  caseInsensitive : Bool
  deriving DecidableEq, Repr

def StringPattern.ofExact (raw : String) : StringPattern := ⟨raw, .exact, false⟩

structure RegexPattern where
  pattern : String
  flags : RegexFlags
  deriving DecidableEq, Repr

structure PathPattern where
  glob : String
  deriving DecidableEq, Repr

inductive Visibility where
  | «public» | «private»
  deriving DecidableEq, Repr

def Visibility.parse (text : String) : Option Visibility :=
  let lowered := String.ofList (text.toList.map Char.toLower)
  if lowered = "public" ∨ lowered = "pub" ∨ lowered = "exported" then some .public
  else if lowered = "private" ∨ lowered = "priv" ∨ lowered = "internal" then some .private
  else none

inductive FrameworkId where
  | aspNetCore | actix | axum | chi | django | express | fastApi | fastify | flask | gin
  | koa | laravel | nestJs | rails | rocket | sinatra | spring | starlette | symfony
  deriving DecidableEq, Repr

/-- `Direction` of the planner, relative to the input of a traversal. -/
inductive PlanDirection where
  | forward | reverse | both
  deriving DecidableEq, Repr

inductive SetOperation where
  | union | intersect | difference
  deriving DecidableEq, Repr

inductive WrapKindFilter where
  | any
  | kind (k : WrapKind)
  deriving DecidableEq, Repr

/-- Conditions of conditional compilation, in a shape that two languages share. -/
inductive CfgAst where
  | flag (name : String)
  | not (inner : CfgAst)
  | all (items : List CfgAst)
  | any (items : List CfgAst)

namespace CfgAst

@[elab_as_elim]
theorem inductOn {motive : CfgAst → Prop} (ast : CfgAst)
    (flag : ∀ name, motive (.flag name))
    (not : ∀ inner, motive inner → motive (.not inner))
    (all : ∀ items, (∀ item ∈ items, motive item) → motive (.all items))
    (any : ∀ items, (∀ item ∈ items, motive item) → motive (.any items)) : motive ast := by
  refine @CfgAst.rec motive (fun items => ∀ item ∈ items, motive item) flag not all any ?_ ?_ ast
  · intro item h
    cases h
  · intro head tail hhead htail item h
    cases List.mem_cons.mp h with
    | inl heq => rw [heq]; exact hhead
    | inr hmem => exact htail item hmem

mutual

def beq : CfgAst → CfgAst → Bool
  | .flag a, .flag b => a = b
  | .not a, .not b => beq a b
  | .all as, .all bs => beqList as bs
  | .any as, .any bs => beqList as bs
  | _, _ => false

def beqList : List CfgAst → List CfgAst → Bool
  | [], [] => true
  | a :: as, b :: bs => beq a b && beqList as bs
  | _, _ => false

end

theorem beqList_iff {as : List CfgAst} (h : ∀ a ∈ as, ∀ b, beq a b = true ↔ a = b)
    (bs : List CfgAst) : beqList as bs = true ↔ as = bs := by
  induction as generalizing bs with
  | nil => cases bs <;> simp [beqList]
  | cons a as ih =>
    cases bs with
    | nil => simp [beqList]
    | cons b bs =>
      rw [beqList, Bool.and_eq_true, h a List.mem_cons_self b,
        ih (fun a' ha' => h a' (List.mem_cons_of_mem a ha')) bs, List.cons.injEq]

theorem beq_iff (a b : CfgAst) : beq a b = true ↔ a = b := by
  induction a using CfgAst.inductOn generalizing b with
  | flag name => cases b <;> simp [beq]
  | not inner ih => cases b <;> simp [beq, ih]
  | all items ih => cases b <;> simp [beq, beqList_iff ih]
  | any items ih => cases b <;> simp [beq, beqList_iff ih]

instance : DecidableEq CfgAst := fun a b => decidable_of_iff _ (beq_iff a b)

end CfgAst

inductive CfgMatcher where
  | semantic (ast : CfgAst)
  | literal (text : String)
  deriving DecidableEq

inductive LeafPredicate where
  | hasCaller
  | hasCallee
  | isUnused
  | isAddressTaken (want : Bool)
  | resolvedVia (via : ResolvedVia)
  | hasCallsitePromiscuous (want : Bool)
  | frameworkEq (framework : FrameworkId)
  | resolvedViaEq (set : List ResolvedVia)
  | shapeSimilar (symbol : String)
  | inFile (path : PathPattern)
  | inScope (kind : ScopeKind)
  | matchesName (pattern : StringPattern)
  | isDefinition (want : Bool)
  | isUnsafe (want : Bool)
  | returns (typeName : String)
  | cfgCondition (matcher : CfgMatcher)
  | wraps (filter : WrapKindFilter)
  deriving DecidableEq

inductive RelationKind where
  | callers | callees | imports | exports | references | implements
  deriving DecidableEq, Repr

mutual

inductive PlanNode where
  | nodeScan (kind : Option NodeKind) (visibility : Option Visibility)
      (namePattern : Option StringPattern)
  | edgeTraversal (direction : PlanDirection) (edgeKind : Option EdgeKind) (maxDepth : Nat)
      (resolvedVia : Option ResolvedVia)
  | filter (predicate : Predicate)
  | setOp (op : SetOperation) (left right : PlanNode)
  | chain (steps : List PlanNode)

inductive Predicate where
  | leaf (p : LeafPredicate)
  | relation (kind : RelationKind) (value : PredicateValue)
  | and (list : List Predicate)
  | or (list : List Predicate)
  | not (inner : Predicate)

inductive PredicateValue where
  | pattern (p : StringPattern)
  | regex (r : RegexPattern)
  | subquery (plan : PlanNode)

end

structure QueryPlan where
  root : PlanNode

theorem PlanNode.inductOn {onNode : PlanNode → Prop} {onPredicate : Predicate → Prop}
    (nodeScan : ∀ kind visibility namePattern,
      onNode (.nodeScan kind visibility namePattern))
    (edgeTraversal : ∀ direction edgeKind maxDepth resolvedVia,
      onNode (.edgeTraversal direction edgeKind maxDepth resolvedVia))
    (filter : ∀ predicate, onPredicate predicate → onNode (.filter predicate))
    (setOp : ∀ op left right, onNode left → onNode right → onNode (.setOp op left right))
    (chain : ∀ steps, (∀ step ∈ steps, onNode step) → onNode (.chain steps))
    (leaf : ∀ p, onPredicate (.leaf p))
    (relation : ∀ kind value, (∀ plan, value = .subquery plan → onNode plan) →
      onPredicate (.relation kind value))
    (and : ∀ list, (∀ p ∈ list, onPredicate p) → onPredicate (.and list))
    (or : ∀ list, (∀ p ∈ list, onPredicate p) → onPredicate (.or list))
    (not : ∀ inner, onPredicate inner → onPredicate (.not inner)) (node : PlanNode) :
    onNode node := by
  refine @PlanNode.rec onNode onPredicate (fun v => ∀ plan, v = .subquery plan → onNode plan)
    (fun steps => ∀ step ∈ steps, onNode step) (fun list => ∀ p ∈ list, onPredicate p)
    nodeScan edgeTraversal filter setOp chain leaf relation and or not ?_ ?_ ?_ ?_ ?_ ?_ ?_ node
  · intro p plan h
    cases h
  · intro r plan h
    cases h
  · intro plan hplan plan' h
    cases h
    exact hplan
  · intro step h
    cases h
  · intro head tail hhead htail step h
    cases List.mem_cons.mp h with
    | inl heq => rw [heq]; exact hhead
    | inr hmem => exact htail step hmem
  · intro p h
    cases h
  · intro head tail hhead htail p h
    cases List.mem_cons.mp h with
    | inl heq => rw [heq]; exact hhead
    | inr hmem => exact htail p hmem

namespace PlanNode

mutual

def beq : PlanNode → PlanNode → Bool
  | .nodeScan k v n, .nodeScan k' v' n' => k = k' && v = v' && n = n'
  | .edgeTraversal d k m v, .edgeTraversal d' k' m' v' => d = d' && k = k' && m = m' && v = v'
  | .filter p, .filter p' => beqPredicate p p'
  | .setOp op l r, .setOp op' l' r' => op = op' && beq l l' && beq r r'
  | .chain steps, .chain steps' => beqSteps steps steps'
  | _, _ => false

def beqPredicate : Predicate → Predicate → Bool
  | .leaf p, .leaf p' => p = p'
  | .relation k v, .relation k' v' => k = k' && beqValue v v'
  | .and l, .and l' => beqPredicates l l'
  | .or l, .or l' => beqPredicates l l'
  | .not p, .not p' => beqPredicate p p'
  | _, _ => false

def beqValue : PredicateValue → PredicateValue → Bool
  | .pattern p, .pattern p' => p = p'
  | .regex r, .regex r' => r = r'
  | .subquery plan, .subquery plan' => beq plan plan'
  | _, _ => false

def beqSteps : List PlanNode → List PlanNode → Bool
  | [], [] => true
  | s :: ss, s' :: ss' => beq s s' && beqSteps ss ss'
  | _, _ => false

def beqPredicates : List Predicate → List Predicate → Bool
  | [], [] => true
  | p :: ps, p' :: ps' => beqPredicate p p' && beqPredicates ps ps'
  | _, _ => false

end

theorem beqSteps_iff {ss : List PlanNode} (h : ∀ s ∈ ss, ∀ s', beq s s' = true ↔ s = s')
    (ss' : List PlanNode) : beqSteps ss ss' = true ↔ ss = ss' := by
  induction ss generalizing ss' with
  | nil => cases ss' <;> simp [beqSteps]
  | cons s ss ih =>
    cases ss' with
    | nil => simp [beqSteps]
    | cons s' ss' =>
      rw [beqSteps, Bool.and_eq_true, h s List.mem_cons_self s',
        ih (fun t ht => h t (List.mem_cons_of_mem s ht)) ss', List.cons.injEq]

theorem beqPredicates_iff {ps : List Predicate}
    (h : ∀ p ∈ ps, ∀ p', beqPredicate p p' = true ↔ p = p') (ps' : List Predicate) :
    beqPredicates ps ps' = true ↔ ps = ps' := by
  induction ps generalizing ps' with
  | nil => cases ps' <;> simp [beqPredicates]
  | cons p ps ih =>
    cases ps' with
    | nil => simp [beqPredicates]
    | cons p' ps' =>
      rw [beqPredicates, Bool.and_eq_true, h p List.mem_cons_self p',
        ih (fun t ht => h t (List.mem_cons_of_mem p ht)) ps', List.cons.injEq]

theorem beq_iff (a : PlanNode) : ∀ b, beq a b = true ↔ a = b := by
  refine @PlanNode.inductOn (fun a => ∀ b, beq a b = true ↔ a = b)
    (fun p => ∀ q, beqPredicate p q = true ↔ p = q) ?_ ?_ ?_ ?_ ?_ ?_ ?_ ?_ ?_ ?_ a
  · intro kind visibility namePattern b
    cases b <;> simp [beq, and_assoc]
  · intro direction edgeKind maxDepth resolvedVia b
    cases b <;> simp [beq, and_assoc]
  · intro predicate ih b
    cases b <;> simp [beq, ih]
  · intro op left right ihl ihr b
    cases b <;> simp [beq, ihl, ihr, and_assoc]
  · intro steps ih b
    cases b <;> simp [beq, beqSteps_iff ih]
  · intro p q
    cases q <;> simp [beqPredicate]
  · intro kind value ih q
    cases q with
    | relation kind' value' =>
      cases value with
      | subquery plan => cases value' <;> simp [beqPredicate, beqValue, ih plan rfl]
      | _ => cases value' <;> simp [beqPredicate, beqValue]
    | _ => simp [beqPredicate]
  · intro list ih q
    cases q <;> simp [beqPredicate, beqPredicates_iff ih]
  · intro list ih q
    cases q <;> simp [beqPredicate, beqPredicates_iff ih]
  · intro inner ih q
    cases q <;> simp [beqPredicate, ih]

instance : DecidableEq PlanNode := fun a b => decidable_of_iff _ (beq_iff a b)

def isContextFree : PlanNode → Bool
  | .nodeScan .. | .setOp .. => true
  | _ => false

mutual

def operatorCount : PlanNode → Nat
  | .nodeScan .. | .edgeTraversal .. | .filter _ => 1
  | .setOp _ left right => 1 + operatorCount left + operatorCount right
  | .chain steps => 1 + operatorCountSteps steps

def operatorCountSteps : List PlanNode → Nat
  | [] => 0
  | step :: steps => operatorCount step + operatorCountSteps steps

end

end PlanNode
end Sqry
