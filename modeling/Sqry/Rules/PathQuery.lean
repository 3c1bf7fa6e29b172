import Sqry.Lib.Walks
import Sqry.Traverse.Pruning

/-!
Path queries of the rule engine: the paths that go around an avoid set. The endpoints are given by
the nodes they resolve to. The cap on paths is spent before the avoided ones are taken out, so the
marker of an exhausted budget counts what is left.
-/

namespace Sqry
namespace Rules

open Kernel

inductive PathKind where
  | any | calls | dependency
  deriving DecidableEq, Repr

def edgeFilterForPath : PathKind → EdgeFilter
  | .any => EdgeFilter.all
  | .calls => ⟨true, false, false, false, false, false, false, false, none⟩
  | .dependency => ⟨true, true, true, true, false, false, false, false, none⟩

def edgeClassForPath : PathKind → RuleEdgeClass
  | .any | .dependency => .structural
  | .calls => .call

inductive RuleStep where
  | pathConstructed (source target : NodeId) (length : Nat) (edgeClasses : List RuleEdgeClass)
      (nodes : List NodeId)
  | pathBudgetExhausted
  deriving DecidableEq, Repr

structure PathQuery where
  sources : List NodeId
  targets : List NodeId
  kind : PathKind
  maxDepth : Nat
  maxPaths : Option Nat
  avoid : Option (List NodeId)
  deriving DecidableEq, Repr

section Execute
variable (s : PlannerSnapshot) (fuel : Nat) (q : PathQuery)

/-- `trace_path` with a confidence of zero, across languages. -/
def tracePath (target : NodeId) : Option (List (List NodeId)) :=
  returnedPaths s ⟨.outgoing, edgeFilterForPath q.kind, q.maxDepth, none, none, q.maxPaths⟩
    (simplePathStrategy target (.finite 0) true) q.sources fuel

def PathQuery.avoidNodes : List NodeId := q.avoid.getD []

def constructed (path : List NodeId) : Option RuleStep :=
  match path.head?, path.getLast? with
  | some source, some target =>
    some (.pathConstructed source target (min (path.length - 1) u32Max)
      [edgeClassForPath q.kind] path)
  | _, _ => none

def collectPath (acc : List RuleStep × List (List NodeId)) (path : List NodeId) :
    List RuleStep × List (List NodeId) :=
  if !q.avoidNodes.isEmpty && path.any fun node => q.avoidNodes.contains node then acc
  else (acc.1 ++ (constructed q path).toList, acc.2 ++ [path])

def collectTarget (acc : List RuleStep × List (List NodeId)) (target : NodeId) :
    Option (List RuleStep × List (List NodeId)) :=
  (tracePath s fuel q target).map fun returned => returned.foldl (collectPath q) acc

def exhausted (paths : List (List NodeId)) : Bool :=
  match q.maxPaths with
  | none => false
  | some limit => paths.length ≥ limit

/-- The steps and the paths; `none` when the fuel runs out. -/
def executePathQuery : Option (Except RuleError (List RuleStep × List (List NodeId))) :=
  if q.maxDepth = 0 then
    some (.error (.invalidRuleSource "path query max_depth must be greater than zero"))
  else
    (q.targets.foldlM (collectTarget s fuel q) ([], [])).map fun acc =>
      .ok (if exhausted q acc.2 then acc.1 ++ [.pathBudgetExhausted] else acc.1, acc.2)

end Execute

section Meaning
variable (s : PlannerSnapshot) (q : PathQuery)

/-- A way from a source along admissible edges, through nodes of the graph that are not avoided. -/
structure IsAvoidingWalk (target : NodeId) (walk : List NodeId) : Prop where
  first : ∃ source ∈ q.sources, walk.head? = some source
  last : walk.getLast? = some target
  short : walk.length - 1 ≤ q.maxDepth
  joined : walk.IsChain fun a b =>
    links s .outgoing (edgeFilterForPath q.kind) (fun _ => true) a b ≠ []
  shown : ∀ node ∈ walk, s.materializes node = true
  avoiding : ∀ node ∈ walk, node ∉ q.avoidNodes

/-- Every path is one that is asked for; without the marker, no target is left out. -/
structure Truthful (steps : List RuleStep) (paths : List (List NodeId)) : Prop where
  sound : ∀ path ∈ paths, ∃ target ∈ q.targets, IsAvoidingWalk s q target path
  complete : .pathBudgetExhausted ∉ steps → ∀ target ∈ q.targets, target ∉ q.sources →
    (∃ walk, IsAvoidingWalk s q target walk) → ∃ path ∈ paths, path.getLast? = some target

def enumeration (target : NodeId) : List (List NodeId) :=
  collected s .outgoing (edgeFilterForPath q.kind) (fun _ => true) (fun _ => true) target q.sources
    q.maxDepth

def survives (path : List NodeId) : Bool :=
  path.all fun node => s.materializes node && !q.avoidNodes.contains node

/-- Under a cap, the paths within it that survive come up to the cap over all targets, or to every
target with an avoiding way fewer paths than the cap come before the first that survives. -/
def CapTruthful : Prop :=
  ∀ cap, q.maxPaths = some cap →
    cap ≤ (q.targets.map fun target =>
        ((enumeration s q target).take (max cap 1)).countP (survives s q)).sum ∨
      ∀ target ∈ q.targets, target ∉ q.sources → (∃ walk, IsAvoidingWalk s q target walk) →
        (enumeration s q target).findIdx (survives s q) < max cap 1

end Meaning

section First
variable {α : Type}

theorem exists_mem_take_iff {p : α → Bool} {l : List α} {n : Nat} :
    (∃ x ∈ l.take n, p x = true) ↔ (∃ x ∈ l, p x = true) ∧ l.findIdx p < n := by
  constructor
  · rintro ⟨x, hx, hp⟩
    refine ⟨⟨x, List.mem_of_mem_take hx, hp⟩, ?_⟩
    obtain ⟨i, hi, rfl⟩ := List.mem_take_iff_getElem.mp hx
    refine Nat.lt_of_not_le fun hle => ?_
    have hlt : i < l.findIdx p := by omega
    exact absurd hp (by simpa using List.not_of_lt_findIdx hlt)
  · rintro ⟨⟨x, hx, hp⟩, hn⟩
    have hlt : l.findIdx p < l.length := List.findIdx_lt_length_of_exists ⟨x, hx, hp⟩
    refine ⟨l[l.findIdx p], List.mem_take_iff_getElem.mpr ⟨l.findIdx p, by omega, rfl⟩, ?_⟩
    exact List.findIdx_getElem

end First

section Runs
variable {s : PlannerSnapshot} {q : PathQuery}

theorem followsKind_zero : followsKind (.finite 0) true = fun _ => true := by
  funext kind
  have hpos : 0 ≤ edgeConfidence kind := by
    unfold edgeConfidence
    split <;> decide +kernel
  rw [followsKind, isFollowableEdge, Threshold.isMetBy, decide_eq_true hpos]
  rfl

theorem survives_iff {path : List NodeId} : survives s q path = true ↔
    isShown s path = true ∧ ∀ node ∈ path, node ∉ q.avoidNodes := by
  simp only [survives, isShown, List.all_eq_true, Bool.and_eq_true, Bool.not_eq_true',
    List.contains_eq_mem, decide_eq_false_iff_not]
  exact ⟨fun h => ⟨fun node hnode => (h node hnode).1, fun node hnode => (h node hnode).2⟩,
    fun h node hnode => ⟨h.1 node hnode, h.2 node hnode⟩⟩

def survivors (s : PlannerSnapshot) (q : PathQuery) (target : NodeId) : List (List NodeId) :=
  (firstPaths q.maxPaths (enumeration s q target)).filter (survives s q)

theorem foldl_collectPath (returned : List (List NodeId))
    (acc : List RuleStep × List (List NodeId)) :
    (returned.filter (isShown s)).foldl (collectPath q) acc =
      (acc.1 ++ (returned.filter (survives s q)).filterMap (constructed q),
        acc.2 ++ returned.filter (survives s q)) := by
  induction returned generalizing acc with
  | nil => simp
  | cons path returned ih =>
    have hpath : survives s q path = true ↔ isShown s path = true ∧
        ¬(!q.avoidNodes.isEmpty && path.any fun node => q.avoidNodes.contains node) = true := by
      rw [survives_iff]
      refine and_congr_right fun _ => ?_
      cases havoid : q.avoidNodes with
      | nil => simp
      | cons node nodes => simp
    rw [List.filter_cons, List.filter_cons]
    by_cases hshown : isShown s path = true
    · rw [if_pos hshown, List.foldl_cons, ih, collectPath]
      by_cases havoid : (!q.avoidNodes.isEmpty &&
          path.any fun node => q.avoidNodes.contains node) = true
      · rw [if_pos havoid, if_neg fun h => (hpath.mp h).2 havoid]
      · rw [if_neg havoid, if_pos (hpath.mpr ⟨hshown, havoid⟩)]
        cases hstep : constructed q path <;> simp [hstep]
    · rw [if_neg hshown, ih, if_neg fun h => hshown (hpath.mp h).1]

theorem foldlM_collectTarget (targets : List NodeId) : ∃ least, ∀ fuel, least ≤ fuel → ∀ acc,
    targets.foldlM (collectTarget s fuel q) acc =
      some (acc.1 ++ (targets.flatMap (survivors s q)).filterMap (constructed q),
        acc.2 ++ targets.flatMap (survivors s q)) := by
  induction targets with
  | nil => exact ⟨0, fun fuel _ acc => by simp⟩
  | cons target targets ih =>
    obtain ⟨least, hleast⟩ := ih
    obtain ⟨least', hleast'⟩ := @returnedPaths_eq s _ _ _ _
      (simplePathStrategy_isPathStrategy target (.finite 0) true) .outgoing
      (edgeFilterForPath q.kind) q.maxDepth q.maxPaths q.sources
    refine ⟨max least least', fun fuel hfuel acc => ?_⟩
    have htarget : collectTarget s fuel q acc target =
        some (acc.1 ++ (survivors s q target).filterMap (constructed q),
          acc.2 ++ survivors s q target) := by
      rw [collectTarget, tracePath, hleast' fuel (Nat.le_trans (Nat.le_max_right _ _) hfuel),
        Option.map_some, shownPaths, followsKind_zero, foldl_collectPath]
      rfl
    rw [List.foldlM_cons, htarget]
    refine (hleast fuel (Nat.le_trans (Nat.le_max_left _ _) hfuel) _).trans ?_
    simp [List.filterMap_append]

theorem executePathQuery_eq (hdepth : q.maxDepth ≠ 0) : ∃ least, ∀ fuel, least ≤ fuel →
    executePathQuery s fuel q =
      some (.ok ((q.targets.flatMap (survivors s q)).filterMap (constructed q) ++
          (if exhausted q (q.targets.flatMap (survivors s q)) then [.pathBudgetExhausted] else []),
        q.targets.flatMap (survivors s q))) := by
  obtain ⟨least, hleast⟩ := @foldlM_collectTarget s q q.targets
  refine ⟨least, fun fuel hfuel => ?_⟩
  rw [executePathQuery, if_neg hdepth, hleast fuel hfuel, Option.map_some]
  simp only [List.nil_append]
  split <;> simp

end Runs

section Truth
variable {s : PlannerSnapshot} {q : PathQuery} {target : NodeId}

theorem isAvoidingWalk_of_survives {path : List NodeId}
    (h : IsSimplePath s .outgoing (edgeFilterForPath q.kind) (fun _ => true) q.sources target
      q.maxDepth path) (hsurvives : survives s q path = true) : IsAvoidingWalk s q target path := by
  obtain ⟨hshown, havoid⟩ := survives_iff.mp hsurvives
  exact ⟨h.first, h.last, h.short, h.joined, List.all_eq_true.mp hshown, havoid⟩

theorem IsAvoidingWalk.exists_survivor {walk : List NodeId} (h : IsAvoidingWalk s q target walk)
    (hsource : target ∉ q.sources) : ∃ path ∈ enumeration s q target, survives s q path = true := by
  obtain ⟨path, hhead, hlast, hnodup, hsub, hlength, hchain⟩ := Walks.exists_nodup_chain h.joined
  rw [h.last] at hlast
  have hshort := h.short
  have hfirst : ∃ source ∈ q.sources, path.head? = some source := hhead ▸ h.first
  have hlong : 1 ≤ path.length - 1 := by
    obtain ⟨source, hmem, heq⟩ := hfirst
    match path, heq, hlast with
    | [_], heq, hlast =>
      cases heq
      cases hlast
      exact absurd hmem hsource
    | _ :: _ :: _, _, _ => simp
  have hinner : ∀ node ∈ path.tail.dropLast, node ≠ target := by
    rintro node hnode rfl
    obtain ⟨before, rfl⟩ := List.getLast?_eq_some_iff.mp hlast
    cases before with
    | nil => cases hnode
    | cons first before =>
      rw [List.cons_append, List.tail_cons, List.dropLast_concat] at hnode
      have hdisjoint := (List.nodup_append.mp (List.nodup_cons.mp hnodup).2).2.2
      exact hdisjoint node hnode node List.mem_cons_self rfl
  refine ⟨path, mem_collected.mpr ⟨hfirst, hlast, hlong, by omega, hnodup, hinner, hchain⟩, ?_⟩
  rw [survives_iff, isShown, List.all_eq_true]
  exact ⟨fun node hnode => h.shown node (hsub hnode), fun node hnode => h.avoiding node (hsub hnode)⟩

theorem mem_firstPaths {maxPaths : Option Nat} {paths : List (List NodeId)} {path : List NodeId}
    (h : path ∈ firstPaths maxPaths paths) : path ∈ paths := by
  cases maxPaths with
  | none => exact h
  | some k => exact List.mem_of_mem_take h

theorem getLast?_of_mem_survivors {path : List NodeId} (h : path ∈ survivors s q target) :
    path.getLast? = some target :=
  (mem_collected.mp (mem_firstPaths (List.mem_filter.mp h).1)).last

theorem exists_returned_iff (htarget : target ∈ q.targets) :
    (∃ path ∈ q.targets.flatMap (survivors s q), path.getLast? = some target) ↔
      ∃ path ∈ firstPaths q.maxPaths (enumeration s q target), survives s q path = true := by
  constructor
  · rintro ⟨path, hpath, hlast⟩
    obtain ⟨other, -, hmem⟩ := List.mem_flatMap.mp hpath
    have hsame := (getLast?_of_mem_survivors hmem).symm.trans hlast
    cases hsame
    exact ⟨path, List.mem_filter.mp hmem⟩
  · rintro ⟨path, hpath, hsurvives⟩
    have hmem : path ∈ survivors s q target := List.mem_filter.mpr ⟨hpath, hsurvives⟩
    exact ⟨path, List.mem_flatMap.mpr ⟨target, htarget, hmem⟩, getLast?_of_mem_survivors hmem⟩

theorem mem_steps_iff {paths : List (List NodeId)} :
    RuleStep.pathBudgetExhausted ∈ paths.filterMap (constructed q) ++
        (if exhausted q paths then [.pathBudgetExhausted] else []) ↔
      ∃ cap, q.maxPaths = some cap ∧ cap ≤ paths.length := by
  have hnot : RuleStep.pathBudgetExhausted ∉ paths.filterMap (constructed q) := by
    intro hmem
    obtain ⟨path, -, hstep⟩ := List.mem_filterMap.mp hmem
    rw [constructed] at hstep
    split at hstep <;> cases hstep
  rw [List.mem_append, or_iff_right hnot, exhausted]
  cases q.maxPaths with
  | none => simp
  | some limit => simp

theorem truthful_iff : Truthful s q
    ((q.targets.flatMap (survivors s q)).filterMap (constructed q) ++
      (if exhausted q (q.targets.flatMap (survivors s q)) then [.pathBudgetExhausted] else []))
    (q.targets.flatMap (survivors s q)) ↔ CapTruthful s q := by
  have hcount : ∀ cap, q.maxPaths = some cap → (q.targets.flatMap (survivors s q)).length =
      (q.targets.map fun target =>
        ((enumeration s q target).take (max cap 1)).countP (survives s q)).sum := by
    intro cap hcap
    rw [List.length_flatMap]
    refine congrArg List.sum (List.map_congr_left fun target _ => ?_)
    rw [survivors, hcap, List.countP_eq_length_filter]
    rfl
  constructor
  · intro h cap hcap
    by_cases hle : cap ≤ (q.targets.flatMap (survivors s q)).length
    · exact .inl (hcount cap hcap ▸ hle)
    · refine .inr fun target htarget hsource hwalk => ?_
      have hquiet : RuleStep.pathBudgetExhausted ∉ _ := fun hmem => by
        obtain ⟨cap', hcap', hle'⟩ := mem_steps_iff.mp hmem
        cases hcap.symm.trans hcap'
        exact hle hle'
      have hreturned := (exists_returned_iff htarget).mp
        (h.complete hquiet target htarget hsource hwalk)
      rw [hcap] at hreturned
      exact (exists_mem_take_iff.mp hreturned).2
  · intro h
    refine ⟨fun path hpath => ?_, fun hquiet target htarget hsource hwalk => ?_⟩
    · obtain ⟨target, htarget, hmem⟩ := List.mem_flatMap.mp hpath
      obtain ⟨hfirst, hsurvives⟩ := List.mem_filter.mp hmem
      exact ⟨target, htarget,
        isAvoidingWalk_of_survives (mem_collected.mp (mem_firstPaths hfirst)) hsurvives⟩
    · obtain ⟨walk, hwalk'⟩ := hwalk
      have hthere := hwalk'.exists_survivor hsource
      refine (exists_returned_iff htarget).mpr ?_
      cases hcap : q.maxPaths with
      | none => exact hthere
      | some cap =>
        cases h cap hcap with
        | inl hle => exact absurd (mem_steps_iff.mpr ⟨cap, hcap, hcount cap hcap ▸ hle⟩) hquiet
        | inr hfirst =>
          exact exists_mem_take_iff.mpr ⟨hthere, hfirst target htarget hsource ⟨walk, hwalk'⟩⟩

end Truth

/-- A path query ends, and its silence is truthful just when the cap on paths leaves it so. -/
theorem path_query_truthful_iff (s : PlannerSnapshot) (q : PathQuery) (hdepth : 1 ≤ q.maxDepth) :
    ∃ steps paths, (∃ least, ∀ fuel, least ≤ fuel →
        executePathQuery s fuel q = some (.ok (steps, paths))) ∧
      (Truthful s q steps paths ↔ CapTruthful s q) :=
  ⟨_, _, executePathQuery_eq (Nat.one_le_iff_ne_zero.mp hdepth), truthful_iff⟩

section Guarded

def guardedSink : PlannerSnapshot :=
  functionGraph 4 [(0, 2, .calls 0 false .direct), (2, 3, .calls 0 false .direct),
    (0, 1, .calls 0 false .direct), (1, 3, .calls 0 false .direct)]

def aroundGuard : PathQuery :=
  ⟨[function 0], [function 3], .calls, 5, some 1, some [function 1]⟩

theorem path_query_truthful_guardedSink : 1 ≤ aroundGuard.maxDepth ∧
    ∃ steps paths, (∃ least, ∀ fuel, least ≤ fuel →
        executePathQuery guardedSink fuel aroundGuard = some (.ok (steps, paths))) ∧
      (Truthful guardedSink aroundGuard steps paths ↔ CapTruthful guardedSink aroundGuard) :=
  ⟨by decide, path_query_truthful_iff guardedSink aroundGuard (by decide)⟩

/-- The guarded path uses the cap up, and nothing is reported. -/
theorem guardedSink_missed :
    executePathQuery guardedSink 6 aroundGuard = some (.ok ([], [])) ∧
      ¬Truthful guardedSink aroundGuard [] [] := by
  refine ⟨by decide +kernel, fun h => ?_⟩
  have hwalk : IsAvoidingWalk guardedSink aroundGuard (function 3)
      [function 0, function 2, function 3] := by
    refine ⟨⟨function 0, List.mem_cons_self, rfl⟩, rfl, by decide, ?_, ?_, ?_⟩
    · decide +kernel
    · decide +kernel
    · decide +kernel
  obtain ⟨path, hpath, -⟩ :=
    h.complete List.not_mem_nil _ List.mem_cons_self (by decide) ⟨_, hwalk⟩
  cases hpath

end Guarded

end Rules
end Sqry
