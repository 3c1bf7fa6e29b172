import Sqry.Planner.Execute

/-!
What a plan means over a snapshot, without caches: a function of the plan and of the nodes
it is given. An executor whose tables hold meanings returns the meaning of what it runs,
and its tables hold meanings afterwards.
-/

namespace Sqry

namespace PlannerDb
variable (db : PlannerDb)

mutual

def evaluate (node : PlanNode) (input : List NodeId) : List NodeId :=
  match node with
  | .nodeScan kind visibility namePattern => db.runScan kind visibility namePattern
  | .edgeTraversal direction edgeKind maxDepth resolvedVia =>
    db.runTraversal input direction edgeKind maxDepth resolvedVia
  | .filter predicate => dedupSort (input.filter (satisfies predicate))
  | .setOp op left right => combine op (evaluate left []) (evaluate right [])
  | .chain steps => evaluateSteps steps []

def evaluateSteps (steps : List PlanNode) (input : List NodeId) : List NodeId :=
  match steps with
  | [] => input
  | step :: steps => evaluateSteps steps (evaluate step input)

def satisfies (predicate : Predicate) (node : NodeId) : Bool :=
  match db.snapshot.nodes.get node with
  | none => false
  | some entry =>
    match predicate with
    | .leaf p => db.checkLeaf node entry p
    | .relation kind value => relationHolds kind value node
    | .and list => satisfiesAll list node
    | .or list => satisfiesAny list node
    | .not inner => !satisfies inner node

def satisfiesAll (list : List Predicate) (node : NodeId) : Bool :=
  match list with
  | [] => true
  | inner :: list => satisfies inner node && satisfiesAll list node

def satisfiesAny (list : List Predicate) (node : NodeId) : Bool :=
  match list with
  | [] => false
  | inner :: list => satisfies inner node || satisfiesAny list node

def relationHolds (relation : RelationKind) (value : PredicateValue) (node : NodeId) : Bool :=
  match value with
  | .pattern p => (db.get relation (.pattern p)).contains node
  | .regex r => (db.get relation (.regex r)).contains node
  | .subquery plan => db.snapshot.relationMatchesNodeViaSet relation node (evaluate plan [])

end

theorem evaluateSteps_append (steps more : List PlanNode) (input : List NodeId) :
    db.evaluateSteps (steps ++ more) input =
      db.evaluateSteps more (db.evaluateSteps steps input) := by
  induction steps generalizing input with
  | nil => rfl
  | cons step steps ih =>
    rw [List.cons_append, evaluateSteps, evaluateSteps]
    exact ih (db.evaluate step input)

theorem evaluate_appendChainPrefix (chainPrefix : PlanNode) (steps : List PlanNode) :
    db.evaluate (PlanExecutor.appendChainPrefix chainPrefix steps) [] =
      db.evaluateSteps steps (db.evaluate chainPrefix []) := by
  cases steps with
  | nil => rfl
  | cons step steps =>
    cases chainPrefix with
    | chain before => exact db.evaluateSteps_append before (step :: steps) []
    | _ => rfl

end PlannerDb

namespace PlanExecutor
variable {db : PlannerDb}

structure Faithful (db : PlannerDb) (ex : PlanExecutor) : Prop where
  cache : MemoTable.Agrees (fun plan => db.evaluate plan []) ex.sharedNodeCache
  memo : MemoTable.Agrees db.computeShapeNeighborSet ex.shapeNeighborMemo

theorem faithful_new : Faithful db .new := ⟨MemoTable.agrees_empty, MemoTable.agrees_empty⟩

theorem Faithful.remember {ex : PlanExecutor} (h : Faithful db ex) {plan : PlanNode}
    {result : List NodeId} (hresult : result = db.evaluate plan []) :
    Faithful db { ex with sharedNodeCache := ex.sharedNodeCache.insert plan result } :=
  ⟨MemoTable.agrees_insert h.cache hresult, h.memo⟩

structure Computes {α : Type} (db : PlannerDb) (outcome : α × PlanExecutor) (value : α) :
    Prop where
  value_eq : outcome.1 = value
  faithful : Faithful db outcome.2

theorem filterThreaded_computes {check : NodeId → PlanExecutor → Bool × PlanExecutor}
    {verdict : NodeId → Bool}
    (hcheck : ∀ node ex, Faithful db ex → Computes db (check node ex) (verdict node))
    (nodes : List NodeId) (ex : PlanExecutor) (h : Faithful db ex) :
    Computes db (filterThreaded check nodes ex) (nodes.filter verdict) := by
  induction nodes generalizing ex with
  | nil => exact ⟨rfl, h⟩
  | cons node rest ih =>
    obtain ⟨hkeep, hfirst⟩ := hcheck node ex h
    obtain ⟨hkept, hrest⟩ := ih (check node ex).2 hfirst
    refine ⟨?_, hrest⟩
    show (if (check node ex).1 then
        node :: (filterThreaded check rest (check node ex).2).1
      else (filterThreaded check rest (check node ex).2).1) = _
    rw [hkeep, hkept, List.filter_cons]

theorem checkAtom_computes (node : NodeId) (entry : NodeEntry) (p : LeafPredicate)
    (ex : PlanExecutor) (h : Faithful db ex) :
    Computes db (checkAtom db node entry p ex) (db.checkLeaf node entry p) := by
  cases p with
  | shapeSimilar symbol =>
    refine ⟨?_, h.cache, MemoTable.agrees_fetch h.memo symbol⟩
    show (MemoTable.fetch db.computeShapeNeighborSet symbol ex.shapeNeighborMemo).1.contains
      node = _
    rw [MemoTable.fetch_fst h.memo]
    rfl
  | _ => exact ⟨rfl, h⟩

section Chain

theorem lookupUpTo_eq_some {ex : PlanExecutor} {chainPrefix combinedPrefix : PlanNode}
    {remaining : List PlanNode} {result : List NodeId} {limit consumed : Nat}
    (h : ex.lookupUpTo chainPrefix remaining limit = some (result, consumed, combinedPrefix)) :
    0 < consumed ∧ combinedPrefix = appendChainPrefix chainPrefix (remaining.take consumed) ∧
      ex.sharedNodeCache.lookup combinedPrefix = some result := by
  induction limit with
  | zero => cases h
  | succ limit ih =>
    rw [lookupUpTo] at h
    cases hlookup : ex.sharedNodeCache.lookup
        (appendChainPrefix chainPrefix (remaining.take (limit + 1))) with
    | none =>
      rw [hlookup] at h
      exact ih h
    | some existing =>
      rw [hlookup] at h
      cases h
      exact ⟨Nat.succ_pos limit, rfl, hlookup⟩

/-- The loop over the remaining steps carries the meaning of the prefix it has dealt with. -/
theorem runChainContinuation_computes {remaining : List PlanNode}
    (hsteps : ∀ step ∈ remaining, ∀ input ex, Faithful db ex →
      Computes db (run db step input ex) (db.evaluate step (input.getD [])))
    {chainPrefix : PlanNode} {current : List NodeId} {skip : Nat} {ex : PlanExecutor}
    (hcurrent : current = db.evaluate chainPrefix []) (h : Faithful db ex) :
    Computes db (runChainContinuation db remaining chainPrefix current skip ex)
      (db.evaluateSteps (remaining.drop skip) current) := by
  induction remaining generalizing chainPrefix current skip ex with
  | nil =>
    rw [List.drop_nil]
    exact ⟨rfl, h⟩
  | cons step rest ih =>
    have hrest := fun s hs => hsteps s (List.mem_cons_of_mem step hs)
    cases skip with
    | succ skip => exact ih hrest hcurrent h
    | zero =>
      rw [runChainContinuation, List.drop_zero]
      cases hlookup : ex.lookupSharedChainPrefix chainPrefix (step :: rest) with
      | none =>
        obtain ⟨hvalue, hnext⟩ := hsteps step List.mem_cons_self (some current) ex h
        have hshared : (run db step (some current) ex).1 =
            db.evaluate (appendChainPrefix chainPrefix [step]) [] := by
          rw [hvalue, db.evaluate_appendChainPrefix, ← hcurrent]
          rfl
        have hloop := @ih hrest (appendChainPrefix chainPrefix [step])
          (run db step (some current) ex).1 0 (run db step (some current) ex).2
          hshared hnext
        rw [List.drop_zero] at hloop
        exact ⟨hloop.value_eq.trans (congrArg (db.evaluateSteps rest) hvalue),
          hloop.faithful⟩
      | some hit =>
        obtain ⟨result, consumed, combinedPrefix⟩ := hit
        obtain ⟨hpos, hcombined, hcached⟩ := lookupUpTo_eq_some hlookup
        have hresult : result = db.evaluate combinedPrefix [] :=
          h.cache combinedPrefix result hcached
        have hloop := @ih hrest combinedPrefix result (consumed - 1) ex hresult h
        have hskip : (step :: rest).drop consumed = rest.drop (consumed - 1) := by
          cases consumed with
          | zero => exact absurd hpos (Nat.lt_irrefl 0)
          | succ consumed => rfl
        have hsplit : db.evaluateSteps (step :: rest) current =
            db.evaluateSteps (rest.drop (consumed - 1)) result := by
          calc db.evaluateSteps (step :: rest) current
              = db.evaluateSteps ((step :: rest).take consumed ++
                  (step :: rest).drop consumed) current := by rw [List.take_append_drop]
            _ = db.evaluateSteps ((step :: rest).drop consumed)
                  (db.evaluateSteps ((step :: rest).take consumed) current) :=
                db.evaluateSteps_append _ _ _
            _ = db.evaluateSteps (rest.drop (consumed - 1)) result := by
                rw [hskip, hresult, hcombined, db.evaluate_appendChainPrefix, hcurrent]
        rw [hsplit]
        exact hloop

end Chain

theorem checkAll_computes {list : List Predicate}
    (hlist : ∀ p ∈ list, ∀ node ex, Faithful db ex →
      Computes db (checkPredicate db p node ex) (db.satisfies p node))
    (node : NodeId) (ex : PlanExecutor) (h : Faithful db ex) :
    Computes db (checkAll db list node ex) (db.satisfiesAll list node) := by
  induction list generalizing ex with
  | nil => exact ⟨rfl, h⟩
  | cons inner list ih =>
    obtain ⟨hvalue, hnext⟩ := hlist inner List.mem_cons_self node ex h
    have hrest := ih (fun p hp => hlist p (List.mem_cons_of_mem inner hp))
    rw [checkAll, PlannerDb.satisfiesAll, ← hvalue]
    cases hinner : checkPredicate db inner node ex with
    | mk verdict ex' =>
      rw [hinner] at hnext
      cases verdict with
      | true => exact hrest ex' hnext
      | false => exact ⟨rfl, hnext⟩

theorem checkAny_computes {list : List Predicate}
    (hlist : ∀ p ∈ list, ∀ node ex, Faithful db ex →
      Computes db (checkPredicate db p node ex) (db.satisfies p node))
    (node : NodeId) (ex : PlanExecutor) (h : Faithful db ex) :
    Computes db (checkAny db list node ex) (db.satisfiesAny list node) := by
  induction list generalizing ex with
  | nil => exact ⟨rfl, h⟩
  | cons inner list ih =>
    obtain ⟨hvalue, hnext⟩ := hlist inner List.mem_cons_self node ex h
    have hrest := ih (fun p hp => hlist p (List.mem_cons_of_mem inner hp))
    rw [checkAny, PlannerDb.satisfiesAny, ← hvalue]
    cases hinner : checkPredicate db inner node ex with
    | mk verdict ex' =>
      rw [hinner] at hnext
      cases verdict with
      | true => exact ⟨rfl, hnext⟩
      | false => exact hrest ex' hnext

theorem relationMatchesViaDb_computes {relation : RelationKind} {value : PredicateValue}
    (hvalue : ∀ plan, value = .subquery plan → ∀ input ex, Faithful db ex →
      Computes db (run db plan input ex) (db.evaluate plan (input.getD [])))
    (node : NodeId) (ex : PlanExecutor) (h : Faithful db ex) :
    Computes db (relationMatchesViaDb db relation value node ex)
      (db.relationHolds relation value node) := by
  cases value with
  | pattern p => exact ⟨rfl, h⟩
  | regex r => exact ⟨rfl, h⟩
  | subquery plan =>
    rw [relationMatchesViaDb, PlannerDb.relationHolds]
    cases hlookup : ex.sharedNodeCache.lookup plan with
    | some existing =>
      refine ⟨?_, h⟩
      show db.snapshot.relationMatchesNodeViaSet relation node existing = _
      rw [h.cache plan existing hlookup]
    | none =>
      obtain ⟨hrun, hnext⟩ := hvalue plan rfl none ex h
      refine ⟨?_, hnext.remember hrun⟩
      show db.snapshot.relationMatchesNodeViaSet relation node (run db plan none ex).1 = _
      rw [hrun]
      rfl

theorem run_computes_of_dispatch {node : PlanNode} {input : Option (List NodeId)}
    {ex : PlanExecutor} {value : List NodeId} (h : Faithful db ex)
    (hvalue : input = none → value = db.evaluate node [])
    (hmiss : ex.cachedResult node input = none → Computes db (run db node input ex) value) :
    Computes db (run db node input ex) value := by
  cases hcached : ex.cachedResult node input with
  | none => exact hmiss hcached
  | some existing =>
    have hrun : run db node input ex = (existing, ex) := by
      rw [run.eq_def, hcached]
    rw [hrun]
    refine ⟨?_, h⟩
    cases input with
    | some nodes => cases hcached
    | none =>
      rw [hvalue rfl]
      exact h.cache node existing hcached

theorem run_computes (node : PlanNode) : ∀ input ex, Faithful db ex →
    Computes db (run db node input ex) (db.evaluate node (input.getD [])) := by
  refine @PlanNode.inductOn
    (fun node => ∀ input ex, Faithful db ex →
      Computes db (run db node input ex) (db.evaluate node (input.getD [])))
    (fun p => ∀ node ex, Faithful db ex →
      Computes db (checkPredicate db p node ex) (db.satisfies p node))
    ?_ ?_ ?_ ?_ ?_ ?_ ?_ ?_ ?_ ?_ node
  · intro kind visibility namePattern input ex h
    refine run_computes_of_dispatch h (fun _ => rfl) fun hmiss => ?_
    rw [run, hmiss]
    exact ⟨rfl, h⟩
  · intro direction edgeKind maxDepth resolvedVia input ex h
    refine run_computes_of_dispatch h (fun hnone => by rw [hnone]; rfl) fun hmiss => ?_
    rw [run, hmiss]
    exact ⟨rfl, h⟩
  · intro predicate ih input ex h
    refine run_computes_of_dispatch h (fun hnone => by rw [hnone]; rfl) fun hmiss => ?_
    rw [run, hmiss]
    obtain ⟨hkept, hnext⟩ := filterThreaded_computes ih (input.getD []) ex h
    exact ⟨congrArg dedupSort hkept, hnext⟩
  · intro op left right ihl ihr input ex h
    refine run_computes_of_dispatch h (fun _ => rfl) fun hmiss => ?_
    rw [run, hmiss]
    obtain ⟨hleft, hmid⟩ := ihl none ex h
    obtain ⟨hright, hnext⟩ := ihr none (run db left none ex).2 hmid
    refine ⟨?_, hnext⟩
    show PlannerDb.combine op (run db left none ex).1
      (run db right none (run db left none ex).2).1 = _
    rw [hleft, hright]
    rfl
  · intro steps ih input ex h
    refine run_computes_of_dispatch h (fun _ => rfl) fun hmiss => ?_
    rw [run, hmiss]
    cases steps with
    | nil => exact ⟨rfl, h⟩
    | cons first rest =>
      obtain ⟨hfirst, hmid⟩ := ih first List.mem_cons_self none ex h
      have hloop := @runChainContinuation_computes db rest
        (fun step hstep => ih step (List.mem_cons_of_mem first hstep)) first
        (run db first none ex).1 0 (run db first none ex).2 hfirst hmid
      rw [List.drop_zero] at hloop
      exact ⟨hloop.value_eq.trans (congrArg (db.evaluateSteps rest) hfirst), hloop.faithful⟩
  · intro p node ex h
    rw [checkPredicate, PlannerDb.satisfies]
    cases db.snapshot.nodes.get node with
    | none => exact ⟨rfl, h⟩
    | some entry => exact checkAtom_computes node entry p ex h
  · intro kind value ih node ex h
    rw [checkPredicate, PlannerDb.satisfies]
    cases db.snapshot.nodes.get node with
    | none => exact ⟨rfl, h⟩
    | some entry => exact relationMatchesViaDb_computes ih node ex h
  · intro list ih node ex h
    rw [checkPredicate, PlannerDb.satisfies]
    cases db.snapshot.nodes.get node with
    | none => exact ⟨rfl, h⟩
    | some entry => exact checkAll_computes ih node ex h
  · intro list ih node ex h
    rw [checkPredicate, PlannerDb.satisfies]
    cases db.snapshot.nodes.get node with
    | none => exact ⟨rfl, h⟩
    | some entry => exact checkAny_computes ih node ex h
  · intro inner ih node ex h
    rw [checkPredicate, PlannerDb.satisfies]
    cases db.snapshot.nodes.get node with
    | none => exact ⟨rfl, h⟩
    | some entry =>
      obtain ⟨hinner, hnext⟩ := ih node ex h
      exact ⟨congrArg not hinner, hnext⟩

end PlanExecutor

theorem executePlan_eq_evaluate (db : PlannerDb) (plan : QueryPlan) :
    executePlan db plan = db.evaluate plan.root [] :=
  (PlanExecutor.run_computes plan.root none .new PlanExecutor.faithful_new).value_eq

end Sqry
