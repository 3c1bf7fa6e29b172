import Sqry.Traverse.Paths

/-!
What path enumeration collects: just the simple paths to the target within the depth, in the order
of their lengths. A path comes once for every choice of edges along it, so parallel edges repeat it.
-/

namespace Sqry
namespace Kernel

open TreeSearch (level harvest)

section Meaning
variable (s : PlannerSnapshot) (direction : TraversalDirection) (filter : EdgeFilter)
  (accept : EdgeKind → Bool)

def links (a b : NodeId) : List StoreEdgeRef :=
  (s.collectEdges a direction).filter fun edge =>
    filter.acceptsKind edge.kind && accept edge.kind &&
      decide (PlannerSnapshot.neighborOf edge a = b)

structure IsSimplePath (seeds : List NodeId) (target : NodeId) (maxDepth : Nat)
    (path : List NodeId) : Prop where
  first : ∃ seed ∈ seeds, path.head? = some seed
  last : path.getLast? = some target
  long : 1 ≤ path.length - 1
  short : path.length - 1 ≤ maxDepth
  distinct : path.Nodup
  inner : ∀ node ∈ path.tail.dropLast, node ≠ target
  joined : path.IsChain fun a b => links s direction filter accept a b ≠ []

structure IsTrail (seeds : List NodeId) (target : NodeId) (path : List NodeId) : Prop where
  first : ∃ seed ∈ seeds, path.head? = some seed
  distinct : path.Nodup
  inner : ∀ node ∈ path.tail.dropLast, node ≠ target
  joined : path.IsChain fun a b => links s direction filter accept a b ≠ []

end Meaning

section Trails
variable {s : PlannerSnapshot} {direction : TraversalDirection} {filter : EdgeFilter}
  {accept : EdgeKind → Bool} {seeds : List NodeId} {target : NodeId}
variable {path : List NodeId} {current next : NodeId}

theorem count_nextNodes (hlast : path.getLast? = some current) (hnew : next ∉ path) :
    (nextNodes s direction filter accept (fun _ => true) path).count next =
      (links s direction filter accept current next).length := by
  rw [nextNodes, hlast]
  simp only [List.count_eq_countP, List.countP_map, List.countP_filter, links]
  rw [← List.countP_eq_length_filter]
  refine List.countP_congr fun edge _ => ?_
  simp only [follows, Function.comp_apply, beq_iff_eq, Bool.and_eq_true, decide_eq_true_iff]
  constructor
  · rintro ⟨heq, ⟨hkind, haccept⟩, -, -⟩
    exact ⟨⟨hkind, haccept⟩, heq⟩
  · rintro ⟨⟨hkind, haccept⟩, heq⟩
    exact ⟨heq, ⟨hkind, haccept⟩, heq ▸ hnew, trivial⟩

theorem mem_nextNodes (hlast : path.getLast? = some current) :
    next ∈ nextNodes s direction filter accept (fun _ => true) path ↔
      next ∉ path ∧ links s direction filter accept current next ≠ [] := by
  by_cases hnew : next ∈ path
  · refine iff_of_false (fun hmem => ?_) fun h => h.1 hnew
    rw [nextNodes, hlast] at hmem
    obtain ⟨edge, hedge, rfl⟩ := List.mem_map.mp hmem
    have hfollows := (List.mem_filter.mp hedge).2
    simp only [follows, Bool.and_eq_true, decide_eq_true_iff] at hfollows
    exact hfollows.2.1 hnew
  · rw [← List.count_pos_iff, count_nextNodes hlast hnew, List.length_pos_iff]
    exact ⟨fun h => ⟨hnew, h⟩, fun h => h.2⟩

theorem tail_ne_target (hne : path ≠ []) :
    (∀ node ∈ path.tail, node ≠ target) ↔
      (∀ node ∈ path.tail.dropLast, node ≠ target) ∧ isComplete target path = false := by
  cases path with
  | nil => exact absurd rfl hne
  | cons first rest =>
    rw [List.tail_cons]
    cases List.eq_nil_or_concat' rest with
    | inl hnil =>
      subst hnil
      simp [isComplete]
    | inr hconcat =>
      obtain ⟨inner, last, rfl⟩ := hconcat
      have hlast : (first :: (inner ++ [last])).getLast? = some last := by
        rw [← List.cons_append, List.getLast?_concat]
      simp only [List.dropLast_concat, isComplete, hlast, List.mem_append, List.mem_singleton,
        List.length_cons, List.length_append]
      simp [or_imp, forall_and]

theorem isTrail_concat (hlast : path.getLast? = some current) :
    IsTrail s direction filter accept seeds target (path ++ [next]) ↔
      IsTrail s direction filter accept seeds target path ∧ isComplete target path = false ∧
        next ∈ nextNodes s direction filter accept (fun _ => true) path := by
  have hne : path ≠ [] := by
    rintro rfl
    cases hlast
  have htail : (path ++ [next]).tail.dropLast = path.tail := by
    rw [List.tail_append_of_ne_nil hne, List.dropLast_concat]
  have hhead : (path ++ [next]).head? = path.head? := List.head?_append_of_ne_nil path hne
  rw [mem_nextNodes hlast]
  constructor
  · intro h
    have hinner := h.inner
    rw [htail, tail_ne_target hne] at hinner
    obtain ⟨hjoined, -, hlink⟩ := List.isChain_append.mp h.joined
    have hdistinct := List.nodup_append.mp h.distinct
    refine ⟨⟨hhead ▸ h.first, hdistinct.1, hinner.1, hjoined⟩, hinner.2, ?_, ?_⟩
    · exact fun hmem => hdistinct.2.2 next hmem next List.mem_cons_self rfl
    · exact hlink current hlast next rfl
  · rintro ⟨h, hdone, hnew, hlink⟩
    refine ⟨hhead ▸ h.first, ?_, ?_, ?_⟩
    · refine List.nodup_append.mpr ⟨h.distinct, List.nodup_singleton next, ?_⟩
      rintro node hnode other hother rfl
      exact hnew (List.mem_singleton.mp hother ▸ hnode)
    · rw [htail, tail_ne_target hne]
      exact ⟨h.inner, hdone⟩
    · refine List.isChain_append.mpr ⟨h.joined, List.isChain_singleton next, ?_⟩
      intro a ha b hb
      cases hb
      rw [hlast] at ha
      cases ha
      exact hlink

theorem exists_concat {k : Nat} (h : path.length = k + 2) :
    ∃ shorter current next, path = shorter ++ [next] ∧ shorter.length = k + 1 ∧
      shorter.getLast? = some current := by
  cases List.eq_nil_or_concat' path with
  | inl hnil =>
    rw [hnil] at h
    cases h
  | inr hconcat =>
    obtain ⟨shorter, next, rfl⟩ := hconcat
    have hlength : shorter.length = k + 1 := by
      rw [List.length_append, List.length_singleton] at h
      omega
    have hne : shorter ≠ [] := List.ne_nil_of_length_eq_add_one hlength
    exact ⟨shorter, shorter.getLast hne, next, rfl, hlength, List.getLast?_eq_some_getLast hne⟩

theorem mem_level {k : Nat} :
    path ∈ level (extensions s direction filter accept fun _ => true) (isComplete target) k
        (seeds.map fun node => [node]) ↔
      IsTrail s direction filter accept seeds target path ∧ path.length = k + 1 := by
  induction k generalizing path with
  | zero =>
    rw [level, List.mem_map]
    constructor
    · rintro ⟨seed, hseed, rfl⟩
      refine ⟨⟨⟨seed, hseed, rfl⟩, List.nodup_singleton seed, fun node hnode => ?_,
        List.isChain_singleton seed⟩, rfl⟩
      cases hnode
    · rintro ⟨h, hlength⟩
      obtain ⟨seed, hseed, hhead⟩ := h.first
      obtain ⟨node, rfl⟩ := List.length_eq_one_iff.mp hlength
      cases hhead
      exact ⟨_, hseed, rfl⟩
  | succ k ih =>
    constructor
    · intro hmem
      have hlength : path.length = k + 2 := TreeSearch.length_of_mem_level hmem
      obtain ⟨shorter, current, next, rfl, hshorter, hlast⟩ := exists_concat hlength
      rw [TreeSearch.level_succ, extensions, TreeSearch.mem_expand_grow] at hmem
      obtain ⟨hpath, hdone, hnext⟩ := hmem
      exact ⟨(isTrail_concat hlast).mpr ⟨(ih.mp hpath).1, hdone, hnext⟩, hlength⟩
    · rintro ⟨h, hlength⟩
      obtain ⟨shorter, current, next, rfl, hshorter, hlast⟩ := exists_concat hlength
      obtain ⟨hpath, hdone, hnext⟩ := (isTrail_concat hlast).mp h
      rw [TreeSearch.level_succ, extensions, TreeSearch.mem_expand_grow]
      exact ⟨ih.mpr ⟨hpath, hshorter⟩, hdone, hnext⟩

theorem count_level_le_one (hseeds : seeds.Nodup) {k : Nat}
    (h : IsTrail s direction filter accept seeds target path) (hlength : path.length = k + 1) :
    (level (extensions s direction filter accept fun _ => true) (isComplete target) k
        (seeds.map fun node => [node])).count path ≤ 1 ↔
      path.IsChain fun a b => (links s direction filter accept a b).length ≤ 1 := by
  induction k generalizing path with
  | zero =>
    obtain ⟨node, rfl⟩ := List.length_eq_one_iff.mp hlength
    refine iff_of_true ?_ (List.isChain_singleton node)
    refine List.nodup_iff_count_le_one.mp (hseeds.map fun a b hab => ?_) [node]
    exact (List.cons.inj hab).1
  | succ k ih =>
    obtain ⟨shorter, current, next, rfl, hshorter, hlast⟩ := exists_concat hlength
    obtain ⟨hpath, hdone, hnext⟩ := (isTrail_concat hlast).mp h
    obtain ⟨hnew, hlink⟩ := (mem_nextNodes hlast).mp hnext
    have hcount := ih hpath hshorter
    have hpos : 0 < (level (extensions s direction filter accept fun _ => true)
        (isComplete target) k (seeds.map fun node => [node])).count shorter :=
      List.count_pos_iff.mpr (mem_level.mpr ⟨hpath, hshorter⟩)
    have hlinks := List.length_pos_iff.mpr hlink
    rw [TreeSearch.level_succ, extensions, TreeSearch.count_expand_grow hdone,
      count_nextNodes hlast hnew, List.isChain_append]
    constructor
    · intro hle
      refine ⟨hcount.mp (Nat.le_trans (Nat.le_mul_of_pos_right _ hlinks) hle),
        List.isChain_singleton next, fun a ha b hb => ?_⟩
      cases hb
      rw [hlast] at ha
      cases ha
      exact Nat.le_trans (Nat.le_mul_of_pos_left _ hpos) hle
    · rintro ⟨hchain, -, hlast'⟩
      exact Nat.mul_le_mul (hcount.mpr hchain) (hlast' current hlast next rfl)

end Trails

section Exact
variable {s : PlannerSnapshot} {direction : TraversalDirection} {filter : EdgeFilter}
  {accept : EdgeKind → Bool} {seeds : List NodeId} {target : NodeId} {maxDepth : Nat}

theorem isComplete_iff {path : List NodeId} :
    isComplete target path = true ↔ path.getLast? = some target ∧ 1 < path.length := by
  rw [isComplete, Bool.and_eq_true, decide_eq_true_iff, decide_eq_true_iff]

theorem mem_collected {path : List NodeId} :
    path ∈ collected s direction filter accept (fun _ => true) target seeds maxDepth ↔
      IsSimplePath s direction filter accept seeds target maxDepth path := by
  rw [collected, TreeSearch.mem_harvest, isComplete_iff]
  constructor
  · rintro ⟨⟨hlast, hlong⟩, k, hk, hmem⟩
    obtain ⟨h, hlength⟩ := mem_level.mp hmem
    exact ⟨h.first, hlast, by omega, by omega, h.distinct, h.inner, h.joined⟩
  · intro h
    have hlong := h.long
    refine ⟨⟨h.last, by omega⟩, path.length - 1, h.short, mem_level.mpr ⟨?_, by omega⟩⟩
    exact ⟨h.first, h.distinct, h.inner, h.joined⟩

theorem nodup_collected_iff (hseeds : seeds.Nodup) :
    (collected s direction filter accept (fun _ => true) target seeds maxDepth).Nodup ↔
      ∀ path, IsSimplePath s direction filter accept seeds target maxDepth path →
        path.IsChain fun a b => (links s direction filter accept a b).length ≤ 1 := by
  rw [collected, TreeSearch.nodup_harvest_iff fun _ _ hpath =>
    TreeSearch.length_of_mem_level hpath]
  constructor
  · intro h path hpath
    have hlong := hpath.long
    have htrail : IsTrail s direction filter accept seeds target path :=
      ⟨hpath.first, hpath.distinct, hpath.inner, hpath.joined⟩
    have hlength : path.length = path.length - 1 + 1 := by omega
    refine (count_level_le_one hseeds htrail hlength).mp (h _ hpath.short path ?_ ?_)
    · exact mem_level.mpr ⟨htrail, hlength⟩
    · exact isComplete_iff.mpr ⟨hpath.last, by omega⟩
  · intro h k hk path hmem hdone
    obtain ⟨htrail, hlength⟩ := mem_level.mp hmem
    refine (count_level_le_one hseeds htrail hlength).mpr (h path (mem_collected.mp ?_))
    exact TreeSearch.mem_harvest.mpr ⟨hdone, k, hk, hmem⟩

theorem collected_ordered :
    (collected s direction filter accept (fun _ => true) target seeds maxDepth).Pairwise
      fun a b => a.length ≤ b.length :=
  TreeSearch.harvest_ordered (fun _ _ hpath => TreeSearch.length_of_mem_level hpath) maxDepth

end Exact

/-- What an enumeration is for: every simple path to the target once, by length, and under a limit
the first of them. -/
structure EnumeratesPaths (s : PlannerSnapshot) (direction : TraversalDirection)
    (filter : EdgeFilter) (accept : EdgeKind → Bool) (seeds : List NodeId) (target : NodeId)
    (maxDepth k : Nat) (paths limited : List (List NodeId)) : Prop where
  mem_iff : ∀ path, path ∈ paths ↔
    IsSimplePath s direction filter accept seeds target maxDepth path
  once : paths.Nodup
  ordered : paths.Pairwise fun a b => a.length ≤ b.length
  limited_eq : limited = paths.take k

/-- No two nodes that follow each other in a simple path are joined by two accepted edges; and no
simple path is there under a limit of zero. -/
def SinglyLinked (s : PlannerSnapshot) (direction : TraversalDirection) (filter : EdgeFilter)
    (accept : EdgeKind → Bool) (seeds : List NodeId) (target : NodeId) (maxDepth k : Nat) : Prop :=
  ∀ path, IsSimplePath s direction filter accept seeds target maxDepth path →
    k ≠ 0 ∧ path.IsChain fun a b => (links s direction filter accept a b).length ≤ 1

theorem firstPaths_eq_take_iff {k : Nat} {paths : List (List NodeId)} :
    firstPaths (some k) paths = paths.take k ↔ k ≠ 0 ∨ paths = [] := by
  rw [firstPaths]
  cases k with
  | zero => simp
  | succ k => simp

theorem enumeratesPaths_iff (s : PlannerSnapshot) {seeds : List NodeId} (hseeds : seeds.Nodup)
    (target : NodeId) (direction : TraversalDirection) (filter : EdgeFilter)
    (accept : EdgeKind → Bool) (maxDepth k : Nat) :
    EnumeratesPaths s direction filter accept seeds target maxDepth k
        (collected s direction filter accept (fun _ => true) target seeds maxDepth)
        (firstPaths (some k)
          (collected s direction filter accept (fun _ => true) target seeds maxDepth)) ↔
      SinglyLinked s direction filter accept seeds target maxDepth k := by
  constructor
  · intro h path hpath
    refine ⟨?_, (nodup_collected_iff hseeds).mp h.once path hpath⟩
    cases firstPaths_eq_take_iff.mp h.limited_eq with
    | inl hk => exact hk
    | inr hnil =>
      have hmem := mem_collected.mpr hpath
      rw [hnil] at hmem
      cases hmem
  · intro h
    refine ⟨fun path => mem_collected, ?_, collected_ordered, ?_⟩
    · exact (nodup_collected_iff hseeds).mpr fun path hpath => (h path hpath).2
    · rw [firstPaths_eq_take_iff]
      cases hcollected : collected s direction filter accept (fun _ => true) target seeds maxDepth with
      | nil => exact .inr rfl
      | cons path paths =>
        exact .inl (h path (mem_collected.mp (hcollected ▸ List.mem_cons_self))).1

/-- The enumeration ends, and it meets its purpose just when the simple paths are singly linked. -/
theorem runPathBfs_enumerates_iff (s : PlannerSnapshot) {seeds : List NodeId}
    (hseeds : seeds.Nodup) (target : NodeId) (direction : TraversalDirection)
    (filter : EdgeFilter) (maxDepth k : Nat) (minConfidence : Threshold)
    (allowCrossLanguage : Bool) : ∃ paths limited,
      (∃ least, ∀ fuel, least ≤ fuel →
        pathsOf s ⟨direction, filter, maxDepth, none, none, none⟩
            (simplePathStrategy target minConfidence allowCrossLanguage) seeds fuel =
          some paths ∧
        pathsOf s ⟨direction, filter, maxDepth, none, none, some k⟩
            (simplePathStrategy target minConfidence allowCrossLanguage) seeds fuel =
          some limited) ∧
      (EnumeratesPaths s direction filter (followsKind minConfidence allowCrossLanguage) seeds
          target maxDepth k paths limited ↔
        SinglyLinked s direction filter (followsKind minConfidence allowCrossLanguage) seeds target
          maxDepth k) := by
  have hstrategy := simplePathStrategy_isPathStrategy target minConfidence allowCrossLanguage
  obtain ⟨least, hrun⟩ := @run_collects s _ _ _ _ hstrategy direction filter maxDepth none seeds
  obtain ⟨least', hrun'⟩ :=
    @run_collects s _ _ _ _ hstrategy direction filter maxDepth (some k) seeds
  refine ⟨_, _, ⟨max least least', fun fuel hfuel => ?_⟩, enumeratesPaths_iff s hseeds target
    direction filter (followsKind minConfidence allowCrossLanguage) maxDepth k⟩
  obtain ⟨st, heq, hpaths, -⟩ := hrun fuel (Nat.le_trans (Nat.le_max_left _ _) hfuel)
  obtain ⟨st', heq', hpaths', -⟩ := hrun' fuel (Nat.le_trans (Nat.le_max_right _ _) hfuel)
  rw [pathsOf, pathsOf, heq, heq', Option.map_some, Option.map_some, hpaths, hpaths']
  exact ⟨rfl, rfl⟩

section Doubled

def callAndReference : PlannerSnapshot :=
  functionGraph 2 [(0, 1, .calls 0 false .direct), (0, 1, .references)]

/-- The one simple path is collected twice. -/
theorem callAndReference_repeats :
    pathsOf callAndReference ⟨.outgoing, EdgeFilter.all, 5, none, none, none⟩
        (simplePathStrategy (function 1) (.finite 0) true) [function 0] 4 =
      some [[function 0, function 1], [function 0, function 1]] ∧
    ¬∃ paths limited, pathsOf callAndReference ⟨.outgoing, EdgeFilter.all, 5, none, none, none⟩
        (simplePathStrategy (function 1) (.finite 0) true) [function 0] 4 = some paths ∧
      EnumeratesPaths callAndReference .outgoing EdgeFilter.all (followsKind (.finite 0) true)
        [function 0] (function 1) 5 1 paths limited := by
  have hpaths : pathsOf callAndReference ⟨.outgoing, EdgeFilter.all, 5, none, none, none⟩
      (simplePathStrategy (function 1) (.finite 0) true) [function 0] 4 =
        some [[function 0, function 1], [function 0, function 1]] := by decide +kernel
  refine ⟨hpaths, ?_⟩
  rintro ⟨paths, limited, heq, h⟩
  rw [hpaths] at heq
  cases heq
  exact absurd h.once (by decide)

theorem runPathBfs_enumerates_iff_callAndReference : ∃ paths limited,
    (∃ least, ∀ fuel, least ≤ fuel →
      pathsOf callAndReference ⟨.outgoing, EdgeFilter.all, 5, none, none, none⟩
          (simplePathStrategy (function 1) (.finite 0) true) [function 0] fuel = some paths ∧
      pathsOf callAndReference ⟨.outgoing, EdgeFilter.all, 5, none, none, some 1⟩
          (simplePathStrategy (function 1) (.finite 0) true) [function 0] fuel = some limited) ∧
    (EnumeratesPaths callAndReference .outgoing EdgeFilter.all (followsKind (.finite 0) true)
        [function 0] (function 1) 5 1 paths limited ↔
      SinglyLinked callAndReference .outgoing EdgeFilter.all (followsKind (.finite 0) true)
        [function 0] (function 1) 5 1) :=
  runPathBfs_enumerates_iff callAndReference (by decide) (function 1) .outgoing EdgeFilter.all 5 1
    (.finite 0) true

end Doubled

end Kernel
end Sqry
