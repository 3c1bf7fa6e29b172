import Sqry.Planner.Execute
import Sqry.Query.CostGate

/-!
The gate before the executor of plans. It carries a flag that says whether something narrows the
nodes a pattern is tested on, and lets patterns pass under it. The executor starts a scan, the
operands of a set operation and a subquery from all nodes.
-/

namespace Sqry

structure PlannerCostGateError where
  predicateShape : String
  nodeCount : Nat
  nodeLimit : Nat
  scopeHint : String
  minPrefixLen : Nat
  docUrl : String
  deriving DecidableEq, Repr

/-- The bytes of the longest part of a glob between its `*`, `?` and `[`. -/
def longestLiteral (glob : String) : Nat :=
  ((glob.toList.splitOnP fun c => c = '*' || c = '?' || c = '[').map fun part =>
    (String.ofList part).utf8ByteSize).foldl max 0

def nodeIntroducesScope : PlanNode → Bool
  | .nodeScan (some _) _ _ => true
  | .nodeScan _ (some _) _ => true
  | .filter (.leaf (.inFile _)) => true
  | .filter (.leaf (.inScope _)) => true
  | _ => false

def narrowsScope : Predicate → Bool
  | .leaf (.inFile _) => true
  | .leaf (.inScope _) => true
  | _ => false

namespace CostGate
variable (gate : CostGate)

def andThen (first rest : Except PlannerCostGateError Unit) : Except PlannerCostGateError Unit :=
  match first with
  | .error e => .error e
  | .ok () => rest

def reject (predicateShape : String) (nodeCount : Nat) : PlannerCostGateError where
  predicateShape := predicateShape
  nodeCount := nodeCount
  nodeLimit := gate.cfg.nodeCountThreshold.getD 0
  scopeHint := joinParts ", " SCOPE_FILTER_FIELDS
  minPrefixLen := gate.cfg.minPrefixLen
  docUrl := QUERY_TOO_BROAD_DOC_URL

def checkNamePattern (pattern : StringPattern) (scopeInScope : Bool) (nodeCount : Nat) :
    Except PlannerCostGateError Unit :=
  if !gate.capEngaged nodeCount || scopeInScope then .ok ()
  else
    match pattern.mode with
    | .exact => .ok ()
    | .startsWith =>
      if pattern.raw.utf8ByteSize > gate.cfg.minPrefixLen then .ok ()
      else .error (gate.reject "name:<prefix-elided>*" nodeCount)
    | .endsWith =>
      if pattern.raw.utf8ByteSize > gate.cfg.minLiteralLen then .ok ()
      else .error (gate.reject "name:*<suffix-elided>" nodeCount)
    | .contains =>
      if pattern.raw.utf8ByteSize > gate.cfg.minLiteralLen then .ok ()
      else .error (gate.reject "name:*<contains-elided>*" nodeCount)
    | .glob =>
      if longestLiteral pattern.raw > gate.cfg.minLiteralLen then .ok ()
      else .error (gate.reject "name:<glob-elided>" nodeCount)

def checkRegex (regex : RegexPattern) (scopeInScope : Bool) (nodeCount : Nat) :
    Except PlannerCostGateError Unit :=
  if !gate.capEngaged nodeCount || scopeInScope then .ok ()
  else if gate.regexShapeIsAcceptable regex.pattern then .ok ()
  else .error (gate.reject "references~=<elided>" nodeCount)

mutual

def walkNode (scopeInScope : Bool) (nodeCount : Nat) :
    PlanNode → Except PlannerCostGateError Unit
  | .nodeScan kind visibility namePattern =>
    match namePattern with
    | some pattern =>
      gate.checkNamePattern pattern (scopeInScope || kind.isSome || visibility.isSome) nodeCount
    | none => .ok ()
  | .edgeTraversal .. => .ok ()
  | .filter predicate => checkPredicate scopeInScope nodeCount predicate
  | .setOp _ left right =>
    andThen (walkNode scopeInScope nodeCount left) (walkNode scopeInScope nodeCount right)
  | .chain steps => walkSteps scopeInScope nodeCount steps

def walkSteps (chainScope : Bool) (nodeCount : Nat) :
    List PlanNode → Except PlannerCostGateError Unit
  | [] => .ok ()
  | step :: steps =>
    andThen (walkNode chainScope nodeCount step)
      (walkSteps (chainScope || nodeIntroducesScope step) nodeCount steps)

def checkPredicate (scopeInScope : Bool) (nodeCount : Nat) :
    Predicate → Except PlannerCostGateError Unit
  | .and list => checkPredicates (scopeInScope || list.any narrowsScope) nodeCount list
  | .or list => checkPredicates scopeInScope nodeCount list
  | .not inner => checkPredicate scopeInScope nodeCount inner
  | .leaf (.matchesName pattern) => gate.checkNamePattern pattern scopeInScope nodeCount
  | .leaf _ => .ok ()
  | .relation _ value => checkPredicateValue scopeInScope nodeCount value

def checkPredicates (scopeInScope : Bool) (nodeCount : Nat) :
    List Predicate → Except PlannerCostGateError Unit
  | [] => .ok ()
  | p :: list =>
    andThen (checkPredicate scopeInScope nodeCount p)
      (checkPredicates scopeInScope nodeCount list)

def checkPredicateValue (scopeInScope : Bool) (nodeCount : Nat) :
    PredicateValue → Except PlannerCostGateError Unit
  | .pattern _ => .ok ()
  | .regex regex => gate.checkRegex regex scopeInScope nodeCount
  | .subquery plan => walkNode scopeInScope nodeCount plan

end

def checkPlan (plan : QueryPlan) (nodeCount : Nat) : Except PlannerCostGateError Unit :=
  gate.walkNode false nodeCount plan.root

end CostGate

section Scans

def bareScan : Option NodeKind → Option Visibility → Option StringPattern → Option StringPattern
  | none, none, namePattern => namePattern
  | _, _, _ => none

mutual

/-- The name patterns of the bare scans that the executor comes to: in steps, operands and
subqueries. -/
def bareScans : PlanNode → List StringPattern
  | .nodeScan kind visibility namePattern => (bareScan kind visibility namePattern).toList
  | .edgeTraversal .. => []
  | .filter predicate => bareScansOfPredicate predicate
  | .setOp _ left right => bareScans left ++ bareScans right
  | .chain steps => bareScansOfSteps steps

def bareScansOfSteps : List PlanNode → List StringPattern
  | [] => []
  | step :: steps => bareScans step ++ bareScansOfSteps steps

def bareScansOfPredicate : Predicate → List StringPattern
  | .and list => bareScansOfPredicates list
  | .or list => bareScansOfPredicates list
  | .not inner => bareScansOfPredicate inner
  | .leaf _ => []
  | .relation _ value => bareScansOfValue value

def bareScansOfPredicates : List Predicate → List StringPattern
  | [] => []
  | p :: list => bareScansOfPredicate p ++ bareScansOfPredicates list

def bareScansOfValue : PredicateValue → List StringPattern
  | .subquery plan => bareScans plan
  | _ => []

end

end Scans

inductive GateItem where
  | bareScan (pattern : StringPattern)
  | name (pattern : StringPattern)
  | regex (regex : RegexPattern)
  deriving DecidableEq, Repr

section Items

mutual

def gateItems (covered : Bool) : PlanNode → List (Bool × GateItem)
  | .nodeScan kind visibility namePattern =>
    match namePattern with
    | some pattern =>
      if kind.isSome || visibility.isSome then [(true, .name pattern)]
      else [(covered, .bareScan pattern)]
    | none => []
  | .edgeTraversal .. => []
  | .filter predicate => gateItemsOfPredicate covered predicate
  | .setOp _ left right => gateItems covered left ++ gateItems covered right
  | .chain steps => gateItemsOfSteps covered steps

def gateItemsOfSteps (covered : Bool) : List PlanNode → List (Bool × GateItem)
  | [] => []
  | step :: steps =>
    gateItems covered step ++ gateItemsOfSteps (covered || nodeIntroducesScope step) steps

def gateItemsOfPredicate (covered : Bool) : Predicate → List (Bool × GateItem)
  | .and list => gateItemsOfPredicates (covered || list.any narrowsScope) list
  | .or list => gateItemsOfPredicates covered list
  | .not inner => gateItemsOfPredicate covered inner
  | .leaf (.matchesName pattern) => [(covered, .name pattern)]
  | .leaf _ => []
  | .relation _ value => gateItemsOfValue covered value

def gateItemsOfPredicates (covered : Bool) : List Predicate → List (Bool × GateItem)
  | [] => []
  | p :: list => gateItemsOfPredicate covered p ++ gateItemsOfPredicates covered list

def gateItemsOfValue (covered : Bool) : PredicateValue → List (Bool × GateItem)
  | .pattern _ => []
  | .regex regex => [(covered, .regex regex)]
  | .subquery plan => gateItems covered plan

end

end Items

namespace CostGate
variable (gate : CostGate) (nodeCount : Nat)

def Admits : GateItem → Prop
  | .bareScan pattern => gate.checkNamePattern pattern false nodeCount = .ok ()
  | .name pattern => gate.checkNamePattern pattern false nodeCount = .ok ()
  | .regex regex => gate.checkRegex regex false nodeCount = .ok ()

def LetsNoScanThrough (plan : QueryPlan) : Prop :=
  gate.checkPlan plan nodeCount = .ok () →
    ∀ pattern ∈ bareScans plan.root, gate.checkNamePattern pattern false nodeCount = .ok ()

/-- No bare scan whose pattern is refused stands under the flag, unless something else of the plan
is refused. -/
def NothingHidden (plan : QueryPlan) : Prop :=
  (∃ item, (false, item) ∈ gateItems false plan.root ∧ ¬ gate.Admits nodeCount item) ∨
    ∀ pattern, (true, .bareScan pattern) ∈ gateItems false plan.root →
      gate.Admits nodeCount (.bareScan pattern)

variable {gate} {nodeCount}

section Walk

theorem andThen_eq_ok {first rest : Except PlannerCostGateError Unit} :
    andThen first rest = .ok () ↔ first = .ok () ∧ rest = .ok () := by
  cases first with
  | error e =>
    refine ⟨fun h => ?_, fun h => ?_⟩
    · cases h
    · cases h.1
  | ok u => exact ⟨fun h => ⟨rfl, h⟩, fun h => h.2⟩

theorem checkNamePattern_eq_ok {pattern : StringPattern} {covered : Bool} :
    gate.checkNamePattern pattern covered nodeCount = .ok () ↔
      covered = true ∨ gate.checkNamePattern pattern false nodeCount = .ok () := by
  cases covered with
  | true => simp [checkNamePattern]
  | false => simp

theorem checkRegex_eq_ok {regex : RegexPattern} {covered : Bool} :
    gate.checkRegex regex covered nodeCount = .ok () ↔
      covered = true ∨ gate.checkRegex regex false nodeCount = .ok () := by
  cases covered with
  | true => simp [checkRegex]
  | false => simp

def AllAdmitted (gate : CostGate) (nodeCount : Nat) (items : List (Bool × GateItem)) : Prop :=
  ∀ item ∈ items, item.1 = true ∨ gate.Admits nodeCount item.2

theorem allAdmitted_append {items items' : List (Bool × GateItem)} :
    AllAdmitted gate nodeCount (items ++ items') ↔
      AllAdmitted gate nodeCount items ∧ AllAdmitted gate nodeCount items' :=
  List.forall_mem_append

theorem allAdmitted_nil : AllAdmitted gate nodeCount [] := fun _ h => absurd h List.not_mem_nil

theorem allAdmitted_singleton {item : Bool × GateItem} :
    AllAdmitted gate nodeCount [item] ↔ item.1 = true ∨ gate.Admits nodeCount item.2 :=
  List.forall_mem_singleton

theorem walkSteps_eq_ok {steps : List PlanNode}
    (ih : ∀ step ∈ steps, ∀ covered, gate.walkNode covered nodeCount step = .ok () ↔
      AllAdmitted gate nodeCount (gateItems covered step)) (covered : Bool) :
    gate.walkSteps covered nodeCount steps = .ok () ↔
      AllAdmitted gate nodeCount (gateItemsOfSteps covered steps) := by
  induction steps generalizing covered with
  | nil => exact ⟨fun _ => allAdmitted_nil, fun _ => rfl⟩
  | cons step steps ih' =>
    rw [walkSteps, andThen_eq_ok, gateItemsOfSteps, allAdmitted_append,
      ih step List.mem_cons_self, ih' fun s hs => ih s (List.mem_cons_of_mem step hs)]

theorem checkPredicates_eq_ok {list : List Predicate}
    (ih : ∀ p ∈ list, ∀ covered, gate.checkPredicate covered nodeCount p = .ok () ↔
      AllAdmitted gate nodeCount (gateItemsOfPredicate covered p)) (covered : Bool) :
    gate.checkPredicates covered nodeCount list = .ok () ↔
      AllAdmitted gate nodeCount (gateItemsOfPredicates covered list) := by
  induction list with
  | nil => exact ⟨fun _ => allAdmitted_nil, fun _ => rfl⟩
  | cons p list ih' =>
    rw [checkPredicates, andThen_eq_ok, gateItemsOfPredicates, allAdmitted_append,
      ih p List.mem_cons_self, ih' fun q hq => ih q (List.mem_cons_of_mem p hq)]

theorem walkScan_eq_ok (kind : Option NodeKind) (visibility : Option Visibility)
    (namePattern : Option StringPattern) (covered : Bool) :
    gate.walkNode covered nodeCount (.nodeScan kind visibility namePattern) = .ok () ↔
      AllAdmitted gate nodeCount (gateItems covered (.nodeScan kind visibility namePattern)) := by
  cases namePattern with
  | none => exact ⟨fun _ => allAdmitted_nil, fun _ => rfl⟩
  | some pattern =>
    rw [walkNode, gateItems, checkNamePattern_eq_ok]
    cases hfilter : kind.isSome || visibility.isSome with
    | true =>
      rw [Bool.or_assoc, hfilter, Bool.or_true]
      exact ⟨fun _ => allAdmitted_singleton.mpr (.inl rfl), fun _ => .inl rfl⟩
    | false =>
      rw [Bool.or_assoc, hfilter, Bool.or_false, if_neg Bool.false_ne_true]
      exact (@allAdmitted_singleton gate nodeCount (covered, .bareScan pattern)).symm

theorem walkNode_eq_ok (node : PlanNode) : ∀ covered,
    gate.walkNode covered nodeCount node = .ok () ↔
      AllAdmitted gate nodeCount (gateItems covered node) := by
  refine @PlanNode.inductOn (fun node => ∀ covered, gate.walkNode covered nodeCount node = .ok () ↔
    AllAdmitted gate nodeCount (gateItems covered node)) (fun p => ∀ covered,
    gate.checkPredicate covered nodeCount p = .ok () ↔
      AllAdmitted gate nodeCount (gateItemsOfPredicate covered p)) ?_ ?_ ?_ ?_ ?_ ?_ ?_ ?_ ?_ ?_ node
  · exact walkScan_eq_ok
  · intro direction edgeKind maxDepth resolvedVia covered
    exact ⟨fun _ => allAdmitted_nil, fun _ => rfl⟩
  · intro predicate ih covered
    exact ih covered
  · intro op left right ihl ihr covered
    rw [walkNode, andThen_eq_ok, gateItems, allAdmitted_append, ihl, ihr]
  · intro steps ih covered
    exact walkSteps_eq_ok ih covered
  · intro p covered
    cases p with
    | matchesName pattern =>
      rw [checkPredicate, gateItemsOfPredicate, checkNamePattern_eq_ok]
      exact (@allAdmitted_singleton gate nodeCount (covered, .name pattern)).symm
    | _ => exact ⟨fun _ => allAdmitted_nil, fun _ => rfl⟩
  · intro kind value ih covered
    cases value with
    | pattern p => exact ⟨fun _ => allAdmitted_nil, fun _ => rfl⟩
    | regex regex =>
      rw [checkPredicate, checkPredicateValue, gateItemsOfPredicate, gateItemsOfValue,
        checkRegex_eq_ok]
      exact (@allAdmitted_singleton gate nodeCount (covered, .regex regex)).symm
    | subquery plan => exact ih plan rfl covered
  · intro list ih covered
    exact checkPredicates_eq_ok ih _
  · intro list ih covered
    exact checkPredicates_eq_ok ih covered
  · intro inner ih covered
    exact ih covered

end Walk

section Positions

theorem mem_bareScansOfSteps {steps : List PlanNode} {pattern : StringPattern}
    (ih : ∀ step ∈ steps, ∀ covered, pattern ∈ bareScans step ↔
      ∃ flag, (flag, .bareScan pattern) ∈ gateItems covered step) (covered : Bool) :
    pattern ∈ bareScansOfSteps steps ↔
      ∃ flag, (flag, .bareScan pattern) ∈ gateItemsOfSteps covered steps := by
  induction steps generalizing covered with
  | nil => simp [bareScansOfSteps, gateItemsOfSteps]
  | cons step steps ih' =>
    simp only [bareScansOfSteps, gateItemsOfSteps, List.mem_append, exists_or]
    rw [ih step List.mem_cons_self covered,
      ih' (fun s hs => ih s (List.mem_cons_of_mem step hs)) (covered || nodeIntroducesScope step)]

theorem mem_bareScansOfPredicates {list : List Predicate} {pattern : StringPattern}
    (ih : ∀ p ∈ list, ∀ covered, pattern ∈ bareScansOfPredicate p ↔
      ∃ flag, (flag, .bareScan pattern) ∈ gateItemsOfPredicate covered p) (covered : Bool) :
    pattern ∈ bareScansOfPredicates list ↔
      ∃ flag, (flag, .bareScan pattern) ∈ gateItemsOfPredicates covered list := by
  induction list with
  | nil => simp [bareScansOfPredicates, gateItemsOfPredicates]
  | cons p list ih' =>
    simp only [bareScansOfPredicates, gateItemsOfPredicates, List.mem_append, exists_or]
    rw [ih p List.mem_cons_self covered, ih' fun q hq => ih q (List.mem_cons_of_mem p hq)]

theorem mem_bareScans (pattern : StringPattern) (node : PlanNode) : ∀ covered,
    pattern ∈ bareScans node ↔ ∃ flag, (flag, .bareScan pattern) ∈ gateItems covered node := by
  refine @PlanNode.inductOn (fun node => ∀ covered, pattern ∈ bareScans node ↔
    ∃ flag, (flag, .bareScan pattern) ∈ gateItems covered node) (fun p => ∀ covered,
    pattern ∈ bareScansOfPredicate p ↔
      ∃ flag, (flag, .bareScan pattern) ∈ gateItemsOfPredicate covered p)
    ?_ ?_ ?_ ?_ ?_ ?_ ?_ ?_ ?_ ?_ node
  · intro kind visibility namePattern covered
    cases kind <;> cases visibility <;> cases namePattern <;>
      simp [bareScans, bareScan, gateItems, eq_comm]
  · intro direction edgeKind maxDepth resolvedVia covered
    simp [bareScans, gateItems]
  · intro predicate ih covered
    exact ih covered
  · intro op left right ihl ihr covered
    simp only [bareScans, gateItems, List.mem_append, exists_or]
    rw [ihl covered, ihr covered]
  · intro steps ih covered
    exact mem_bareScansOfSteps ih covered
  · intro p covered
    cases p <;> simp [bareScansOfPredicate, gateItemsOfPredicate]
  · intro kind value ih covered
    cases value with
    | pattern p => simp [bareScansOfPredicate, bareScansOfValue, gateItemsOfPredicate,
        gateItemsOfValue]
    | regex r => simp [bareScansOfPredicate, bareScansOfValue, gateItemsOfPredicate,
        gateItemsOfValue]
    | subquery plan => exact ih plan rfl covered
  · intro list ih covered
    exact mem_bareScansOfPredicates ih _
  · intro list ih covered
    exact mem_bareScansOfPredicates ih covered
  · intro inner ih covered
    exact ih covered

end Positions

/-- The gate lets no scan through just when none is hidden under its flag. -/
theorem letsNoScanThrough_iff (gate : CostGate) (nodeCount : Nat) (plan : QueryPlan) :
    gate.LetsNoScanThrough nodeCount plan ↔ gate.NothingHidden nodeCount plan := by
  have hpass : gate.checkPlan plan nodeCount = .ok () ↔
      AllAdmitted gate nodeCount (gateItems false plan.root) := walkNode_eq_ok plan.root false
  rw [LetsNoScanThrough, hpass, NothingHidden]
  constructor
  · intro h
    by_cases hall : AllAdmitted gate nodeCount (gateItems false plan.root)
    · exact .inr fun pattern hmem =>
        h hall pattern ((mem_bareScans pattern plan.root false).mpr ⟨true, hmem⟩)
    · rw [AllAdmitted] at hall
      simp only [not_forall, not_or] at hall
      obtain ⟨item, hmem, hflag, hrefused⟩ := hall
      cases item with
      | mk flag item =>
        rw [Bool.not_eq_true] at hflag
        exact .inl ⟨item, hflag ▸ hmem, hrefused⟩
  · intro h hall pattern hmem
    obtain ⟨flag, hitem⟩ := (mem_bareScans pattern plan.root false).mp hmem
    cases flag with
    | false => exact (hall _ hitem).resolve_left Bool.false_ne_true
    | true =>
      cases h with
      | inl hrefused =>
        obtain ⟨item, hmem', hnot⟩ := hrefused
        exact absurd ((hall _ hmem').resolve_left Bool.false_ne_true) hnot
      | inr hhidden => exact hhidden pattern hitem

/-- `kind:function callers:(name:*foo*)` passes, and its subquery scans all nodes for a short
part of a name. -/
theorem subquery_scan_let_through :
    ¬ ∀ (gate : CostGate) (nodeCount : Nat) (plan : QueryPlan),
      gate.LetsNoScanThrough nodeCount plan := by
  intro h
  have hscan := h ⟨.default, fun _ => none⟩ 1000000
    ⟨.chain [.nodeScan (some .function) none none, .filter (.relation .callers
      (.subquery (.nodeScan none none (some ⟨"foo", .contains, false⟩))))]⟩
    (by decide) ⟨"foo", .contains, false⟩ (by decide)
  revert hscan
  decide

end CostGate
end Sqry
