import Mathlib.Algebra.Order.Field.Rat
import Sqry.Graph.CodeGraph
import Sqry.Lib.Banding
import Sqry.Query.Relation

/-!
Structural neighbours: an index of the bands of all sketches, and a probe that refines the nodes
it shares a bucket with. A share of lanes is a multiple of 1/64, which the source's floats
represent exactly, so that shares and the floor are rational numbers here.
-/

namespace Sqry

def MINHASH_LANES : Nat := 64

structure ShapeHash128 where
  high : UInt64
  low : UInt64
  deriving DecidableEq, Repr

def ShapeHash128.isZero (hash : ShapeHash128) : Bool := hash.high = 0 && hash.low = 0

structure ShapeDescriptor where
  shapeHash : ShapeHash128
  minhash : Vector UInt32 MINHASH_LANES
  flags : UInt8
  deriving DecidableEq

namespace ShapeDescriptor

def UNHASHABLE : UInt8 := 1

def isUnhashable (descriptor : ShapeDescriptor) : Bool := descriptor.flags &&& UNHASHABLE ≠ 0

end ShapeDescriptor

structure BandingConfig where
  structuralLshBands : Nat
  structuralLshRows : Nat
  deriving DecidableEq, Repr

def DEFAULT_LSH_BANDS : Nat := 16

def DEFAULT_LSH_ROWS : Nat := 4

def resolveBanding (config : BandingConfig) : Nat × Nat :=
  if config.structuralLshBands = 0 ∨ config.structuralLshRows = 0 ∨
      config.structuralLshBands * config.structuralLshRows > MINHASH_LANES then
    (DEFAULT_LSH_BANDS, DEFAULT_LSH_ROWS)
  else (config.structuralLshBands, config.structuralLshRows)

def FNV_OFFSET : UInt64 := 0xcbf29ce484222325

def FNV_PRIME : UInt64 := 0x100000001b3

def leBytes (lane : UInt32) : List UInt8 :=
  [lane.toUInt8, (lane >>> 8).toUInt8, (lane >>> 16).toUInt8, (lane >>> 24).toUInt8]

def bandHash (bandIndex : Nat) (lanes : List UInt32) : UInt64 :=
  lanes.foldl
    (fun h lane => (leBytes lane).foldl (fun h b => (h ^^^ b.toUInt64) * FNV_PRIME) h)
    (FNV_OFFSET ^^^ UInt64.ofNat bandIndex * FNV_PRIME)

def minhashJaccard (a b : Vector UInt32 MINHASH_LANES) : ℚ :=
  (Banding.agreeing a.toList b.toList : ℚ) / MINHASH_LANES

abbrev BandTable := AList fun _ : UInt64 => List NodeId

structure StructuralLshIndex where
  bands : Nat
  rows : Nat
  bandTables : List BandTable

namespace StructuralLshIndex

def bandHashes (index : StructuralLshIndex) (minhash : Vector UInt32 MINHASH_LANES) :
    List UInt64 :=
  (List.range index.bands).map fun b => bandHash b (Banding.slice index.rows minhash.toList b)

def bucketOf (exclude : NodeId) (probe : BandTable × UInt64) : List NodeId :=
  match probe.1.lookup probe.2 with
  | some bucket => bucket.filter fun n => n ≠ exclude
  | none => []

def candidatesFor (index : StructuralLshIndex) (minhash : Vector UInt32 MINHASH_LANES)
    (exclude : NodeId) : List NodeId :=
  SortedGroups.heads id (SortedGroups.sortBy GraphSnapshot.compareById
    ((index.bandTables.zip (index.bandHashes minhash)).flatMap (bucketOf exclude)))

end StructuralLshIndex

def postDescriptor (rows : Nat) (tables : List BandTable)
    (node : Sigma fun _ : NodeId => ShapeDescriptor) : List BandTable :=
  if node.2.isUnhashable then tables
  else tables.mapIdx fun b table =>
    Buckets.push table (bandHash b (Banding.slice rows node.2.minhash.toList b)) node.1

def buildLshIndex (config : BandingConfig) (descriptors : AList fun _ : NodeId => ShapeDescriptor) :
    StructuralLshIndex :=
  let (bands, rows) := resolveBanding config
  { bands := bands
    rows := rows
    bandTables := (descriptors.entries.foldl (postDescriptor rows) (List.replicate bands ∅)).map
      (Buckets.mapBuckets (SortedGroups.sortBy GraphSnapshot.compareById)) }

structure StructuralNeighbor where
  node : NodeId
  shapeHashExact : Bool
  jaccard : ℚ
  deriving DecidableEq

namespace StructuralNeighbor

def byRank : StructuralNeighbor → StructuralNeighbor → Ordering :=
  compareLex (fun a b => compare b.shapeHashExact a.shapeHashExact)
    (compareLex (fun a b => compare b.jaccard a.jaccard)
      fun a b => GraphSnapshot.compareById a.node b.node)

end StructuralNeighbor

section Probe
variable {π μ : Type} [DecidableEq π] (config : BandingConfig) (g : CodeGraph π μ ShapeDescriptor)

def refineCandidate (probe : ShapeDescriptor) (similarityFloor : ℚ) (candidate : NodeId) :
    Option StructuralNeighbor :=
  match g.macroMetadata.shapeDescriptors.lookup candidate with
  | none => none
  | some descriptor =>
    if descriptor.isUnhashable then none
    else if minhashJaccard probe.minhash descriptor.minhash < similarityFloor then none
    else some
      { node := candidate
        shapeHashExact := !probe.shapeHash.isZero && descriptor.shapeHash = probe.shapeHash
        jaccard := minhashJaccard probe.minhash descriptor.minhash }

def rankedNeighbors (probe : NodeId) (similarityFloor : ℚ) : List StructuralNeighbor :=
  match g.macroMetadata.shapeDescriptors.lookup probe with
  | none => []
  | some probeDesc =>
    if probeDesc.isUnhashable then []
    else
      let index := buildLshIndex config g.macroMetadata.shapeDescriptors
      SortedGroups.sortBy StructuralNeighbor.byRank
        ((index.candidatesFor probeDesc.minhash probe).filterMap
          (refineCandidate g probeDesc similarityFloor))

def structuralNeighbors (probe : NodeId) (similarityFloor : ℚ) (maxResults : Nat) :
    List StructuralNeighbor :=
  (rankedNeighbors config g probe similarityFloor).take maxResults

end Probe
theorem resolveBanding_lanes (config : BandingConfig) :
    (resolveBanding config).1 * (resolveBanding config).2 ≤ MINHASH_LANES := by
  rw [resolveBanding]
  split
  · decide
  · rename_i hvalid
    simp only [not_or] at hvalid
    exact Nat.le_of_not_lt hvalid.2.2

theorem resolveBanding_of_usable {config : BandingConfig} (hbands : 0 < config.structuralLshBands)
    (hrows : 0 < config.structuralLshRows)
    (hlanes : config.structuralLshBands * config.structuralLshRows ≤ MINHASH_LANES) :
    resolveBanding config = (config.structuralLshBands, config.structuralLshRows) := by
  rw [resolveBanding, if_neg]
  simp only [not_or]
  exact ⟨Nat.ne_of_gt hbands, Nat.ne_of_gt hrows, Nat.not_lt_of_le hlanes⟩

section Index
variable {rows : Nat}

def bandOf (rows b : Nat) (descriptor : ShapeDescriptor) : UInt64 :=
  bandHash b (Banding.slice rows descriptor.minhash.toList b)

theorem mem_bucket_foldl_post (entries : List (Sigma fun _ : NodeId => ShapeDescriptor))
    (tables : List BandTable) :
    (entries.foldl (postDescriptor rows) tables).length = tables.length ∧
      ∀ (b : Nat) table', (entries.foldl (postDescriptor rows) tables)[b]? = some table' →
        ∃ table, tables[b]? = some table ∧ ∀ hash node, node ∈ Buckets.bucket table' hash ↔
          node ∈ Buckets.bucket table hash ∨ ∃ descriptor, ⟨node, descriptor⟩ ∈ entries ∧
            descriptor.isUnhashable = false ∧ bandOf rows b descriptor = hash := by
  induction entries generalizing tables with
  | nil => exact ⟨rfl, fun b table' h => ⟨table', h, by simp⟩⟩
  | cons entry entries ih =>
    rw [List.foldl_cons]
    obtain ⟨hlength, hbuckets⟩ := ih (postDescriptor rows tables entry)
    cases hhash : entry.2.isUnhashable with
    | true =>
      have hpost : postDescriptor rows tables entry = tables := by
        rw [postDescriptor, if_pos hhash]
      rw [hpost] at hlength hbuckets ⊢
      refine ⟨hlength, fun b table' h => ?_⟩
      obtain ⟨table, htable, hmem⟩ := hbuckets b table' h
      refine ⟨table, htable, fun hash node => (hmem hash node).trans (or_congr_right ?_)⟩
      refine exists_congr fun descriptor => and_congr_left fun hdescriptor => ?_
      rw [List.mem_cons]
      refine ⟨Or.inr, fun hin => hin.resolve_left fun heq => ?_⟩
      rw [← heq] at hhash
      exact absurd (hhash.symm.trans hdescriptor.1) (by decide)
    | false =>
      have hpost : postDescriptor rows tables entry = tables.mapIdx fun b table =>
          Buckets.push table (bandOf rows b entry.2) entry.1 := by
        rw [postDescriptor, hhash]
        rfl
      rw [hpost] at hlength hbuckets ⊢
      refine ⟨hlength.trans List.length_mapIdx, fun b table' h => ?_⟩
      obtain ⟨pushed, hpushed, hmem⟩ := hbuckets b table' h
      rw [List.getElem?_mapIdx, Option.map_eq_some_iff] at hpushed
      obtain ⟨table, htable, hpush⟩ := hpushed
      refine ⟨table, htable, fun hash node => (hmem hash node).trans ?_⟩
      rw [← hpush, Buckets.bucket_push]
      by_cases hsame : hash = bandOf rows b entry.2
      · rw [if_pos hsame, ← hsame, List.mem_append, List.mem_singleton, or_assoc]
        refine or_congr_right ?_
        constructor
        · intro hcases
          cases hcases with
          | inl hnode => exact ⟨entry.2, hnode ▸ List.mem_cons_self, hhash, hsame.symm⟩
          | inr hlater =>
            obtain ⟨descriptor, hin, hrest⟩ := hlater
            exact ⟨descriptor, List.mem_cons_of_mem entry hin, hrest⟩
        · intro hfound
          obtain ⟨descriptor, hin, hrest⟩ := hfound
          cases List.mem_cons.mp hin with
          | inl heq => exact Or.inl (congrArg Sigma.fst heq)
          | inr hin => exact Or.inr ⟨descriptor, hin, hrest⟩
      · rw [if_neg hsame]
        refine or_congr_right (exists_congr fun descriptor =>
          and_congr_left fun hdescriptor => ?_)
        rw [List.mem_cons]
        refine ⟨Or.inr, fun hin => hin.resolve_left fun heq => hsame ?_⟩
        rw [← heq]
        exact hdescriptor.2.symm

variable {descriptors : AList fun _ : NodeId => ShapeDescriptor} {config : BandingConfig}

theorem mem_bucket_sorted {table : BandTable} {hash : UInt64} {node : NodeId} :
    node ∈ Buckets.bucket
        (Buckets.mapBuckets (SortedGroups.sortBy GraphSnapshot.compareById) table) hash ↔
      node ∈ Buckets.bucket table hash := by
  rw [Buckets.bucket, Buckets.lookup_mapBuckets, Buckets.bucket]
  cases table.lookup hash with
  | none => exact Iff.rfl
  | some bucket => exact SortedGroups.mem_sortBy

theorem mem_bucketOf {table : BandTable} {hash : UInt64} {exclude node : NodeId} :
    node ∈ StructuralLshIndex.bucketOf exclude (table, hash) ↔
      node ≠ exclude ∧ node ∈ Buckets.bucket table hash := by
  rw [StructuralLshIndex.bucketOf, Buckets.bucket]
  cases table.lookup hash with
  | none => simp
  | some bucket => simp [and_comm]

theorem mem_candidatesFor {minhash : Vector UInt32 MINHASH_LANES} {exclude node : NodeId} :
    node ∈ (buildLshIndex config descriptors).candidatesFor minhash exclude ↔
      node ≠ exclude ∧ ∃ b descriptor, b < (resolveBanding config).1 ∧
        descriptors.lookup node = some descriptor ∧ descriptor.isUnhashable = false ∧
        bandOf (resolveBanding config).2 b descriptor =
          bandHash b (Banding.slice (resolveBanding config).2 minhash.toList b) := by
  obtain ⟨hlength, hbuckets⟩ := @mem_bucket_foldl_post (resolveBanding config).2
    descriptors.entries (List.replicate (resolveBanding config).1 ∅)
  rw [List.length_replicate] at hlength
  have hempty : ∀ (b : Nat) (table : BandTable),
      (List.replicate (resolveBanding config).1 (∅ : BandTable))[b]? = some table → table = ∅ :=
    fun b table h => List.eq_of_mem_replicate (List.mem_of_getElem? h)
  rw [StructuralLshIndex.candidatesFor, SortedGroups.mem_heads_id, SortedGroups.mem_sortBy,
    List.mem_flatMap]
  constructor
  · intro h
    obtain ⟨⟨table, hash⟩, hprobe, hnode⟩ := h
    obtain ⟨hne, hbucket⟩ := mem_bucketOf.mp hnode
    obtain ⟨b, hb⟩ := List.mem_iff_getElem?.mp hprobe
    obtain ⟨htable, hhash⟩ := List.getElem?_zip_eq_some.mp hb
    dsimp only at htable hhash
    obtain ⟨filled, hfilled, hsorted⟩ :=
      Option.map_eq_some_iff.mp ((List.getElem?_map).symm.trans htable)
    obtain ⟨start, hstart, hmem⟩ := hbuckets b filled hfilled
    rw [← hsorted, mem_bucket_sorted, hmem hash node, hempty b start hstart,
      Buckets.bucket_empty] at hbucket
    obtain ⟨descriptor, hin, hhashable, hband⟩ := hbucket.resolve_left List.not_mem_nil
    obtain ⟨hlt, hrange⟩ := List.getElem?_eq_some_iff.mp hhash
    have hbands : b < (resolveBanding config).1 := by
      simpa [StructuralLshIndex.bandHashes, buildLshIndex] using hlt
    refine ⟨hne, b, descriptor, hbands, AList.mem_lookup_iff.mpr hin, hhashable, ?_⟩
    rw [hband, ← hrange]
    simp [StructuralLshIndex.bandHashes, buildLshIndex]
  · intro h
    obtain ⟨hne, b, descriptor, hb, hlookup, hhashable, hband⟩ := h
    obtain ⟨filled, hfilled⟩ : ∃ filled, (descriptors.entries.foldl
        (postDescriptor (resolveBanding config).2)
        (List.replicate (resolveBanding config).1 ∅))[b]? = some filled :=
      ⟨_, List.getElem?_eq_getElem (Nat.lt_of_lt_of_eq hb hlength.symm)⟩
    obtain ⟨start, _, hmem⟩ := hbuckets b filled hfilled
    refine ⟨(Buckets.mapBuckets (SortedGroups.sortBy GraphSnapshot.compareById) filled,
      bandOf (resolveBanding config).2 b descriptor), ?_, mem_bucketOf.mpr ⟨hne, ?_⟩⟩
    · refine @List.mem_of_getElem? _ _ b _ (List.getElem?_zip_eq_some.mpr ⟨?_, ?_⟩)
      · exact (List.getElem?_map).trans (congrArg _ hfilled)
      · rw [hband]
        simp [StructuralLshIndex.bandHashes, buildLshIndex, hb]
    · rw [mem_bucket_sorted, hmem]
      exact Or.inr ⟨descriptor, AList.mem_lookup_iff.mp hlookup, hhashable, rfl⟩

end Index

section Neighbors
variable {π μ : Type} [DecidableEq π] {config : BandingConfig}
  {g : CodeGraph π μ ShapeDescriptor} {probe : NodeId} {p : ShapeDescriptor} {similarityFloor : ℚ}

def CodeGraph.HashableAs (g : CodeGraph π μ ShapeDescriptor) (node : NodeId)
    (descriptor : ShapeDescriptor) : Prop :=
  g.macroMetadata.shapeDescriptors.lookup node = some descriptor ∧
    descriptor.isUnhashable = false

def ShapeDescriptor.agreeingLanes (p d : ShapeDescriptor) : Nat :=
  Banding.agreeing p.minhash.toList d.minhash.toList

def ShapeDescriptor.differingLanes (p d : ShapeDescriptor) (lanes : Nat) : Nat :=
  Banding.differing (p.minhash.toList.take lanes) (d.minhash.toList.take lanes)

theorem CodeGraph.HashableAs.unique {node : NodeId} {d d' : ShapeDescriptor}
    (h : g.HashableAs node d) (h' : g.HashableAs node d') : d = d' :=
  Option.some.inj (h.1.symm.trans h'.1)

theorem length_minhash (d : ShapeDescriptor) : d.minhash.toList.length = MINHASH_LANES :=
  Vector.length_toList

theorem jaccard_lt_iff (p d : ShapeDescriptor) :
    minhashJaccard p.minhash d.minhash < similarityFloor ↔
      (p.agreeingLanes d : ℚ) < similarityFloor * MINHASH_LANES :=
  div_lt_iff₀ (by decide)

def SharesBand (config : BandingConfig) (p d : ShapeDescriptor) : Prop :=
  ∃ b, b < (resolveBanding config).1 ∧
    bandOf (resolveBanding config).2 b d = bandOf (resolveBanding config).2 b p

theorem mem_rankedNeighbors (hp : g.HashableAs probe p) {n : StructuralNeighbor} :
    n ∈ rankedNeighbors config g probe similarityFloor ↔
      n.node ≠ probe ∧ ∃ d, g.HashableAs n.node d ∧ SharesBand config p d ∧
        similarityFloor * MINHASH_LANES ≤ p.agreeingLanes d ∧
        n.shapeHashExact = (!p.shapeHash.isZero && d.shapeHash = p.shapeHash) ∧
        n.jaccard = minhashJaccard p.minhash d.minhash := by
  simp only [rankedNeighbors, hp.1, hp.2, Bool.false_eq_true, if_false]
  rw [SortedGroups.mem_sortBy, List.mem_filterMap]
  constructor
  · intro h
    obtain ⟨candidate, hcandidate, hrefine⟩ := h
    obtain ⟨hne, b, d, hb, hlookup, hhashable, hband⟩ := mem_candidatesFor.mp hcandidate
    simp only [refineCandidate, hlookup, hhashable, Bool.false_eq_true, if_false] at hrefine
    split at hrefine
    · cases hrefine
    · rename_i hfloor
      cases hrefine
      rw [jaccard_lt_iff, not_lt] at hfloor
      exact ⟨hne, d, ⟨hlookup, hhashable⟩, ⟨b, hb, hband⟩, hfloor, rfl, rfl⟩
  · intro h
    obtain ⟨hne, d, hd, ⟨b, hb, hband⟩, hfloor, hexact, hjaccard⟩ := h
    refine ⟨n.node, mem_candidatesFor.mpr ⟨hne, b, d, hb, hd.1, hd.2, hband⟩, ?_⟩
    rw [← not_lt, ← jaccard_lt_iff] at hfloor
    simp only [refineCandidate, hd.1, hd.2, Bool.false_eq_true, if_false, if_neg hfloor]
    cases n
    simp only at hexact hjaccard
    rw [hexact, hjaccard]

theorem sharesBand_of_differing {d : ShapeDescriptor}
    (h : p.differingLanes d ((resolveBanding config).1 * (resolveBanding config).2) <
      (resolveBanding config).1) : SharesBand config p d := by
  have hlength : p.minhash.toList.length = d.minhash.toList.length := by
    rw [length_minhash, length_minhash]
  obtain ⟨b, hb, hslice⟩ := Banding.exists_slice_eq hlength h
  exact ⟨b, hb, by rw [bandOf, bandOf, hslice]⟩

theorem node_of_refineCandidate {candidate : NodeId} {n : StructuralNeighbor}
    (h : refineCandidate g p similarityFloor candidate = some n) : n.node = candidate := by
  rw [refineCandidate] at h
  split at h
  · cases h
  · split at h
    · cases h
    · split at h
      · cases h
      · cases h
        rfl

theorem nodes_filterMap_sublist (candidates : List NodeId) :
    ((candidates.filterMap (refineCandidate g p similarityFloor)).map
      StructuralNeighbor.node).Sublist candidates := by
  induction candidates with
  | nil => exact .slnil
  | cons candidate candidates ih =>
    rw [List.filterMap_cons]
    cases hrefine : refineCandidate g p similarityFloor candidate with
    | none => exact ih.cons candidate
    | some n =>
      rw [List.map_cons, node_of_refineCandidate hrefine]
      exact ih.cons_cons candidate

theorem nodup_candidatesFor (index : StructuralLshIndex) (minhash : Vector UInt32 MINHASH_LANES)
    (exclude : NodeId) : (index.candidatesFor minhash exclude).Nodup :=
  (SortedGroups.strict_heads_sortBy _).imp fun {a b} hlt heq => by
    have hself : GraphSnapshot.compareById b b = .eq := Std.ReflCmp.compare_self
    rw [heq, hself] at hlt
    cases hlt

theorem nodup_nodes_rankedNeighbors (hp : g.HashableAs probe p) :
    ((rankedNeighbors config g probe similarityFloor).map StructuralNeighbor.node).Nodup := by
  simp only [rankedNeighbors, hp.1, hp.2, Bool.false_eq_true, if_false]
  refine (((SortedGroups.perm_sortBy _ _).map _).nodup_iff).mpr ?_
  exact (nodup_candidatesFor _ _ _).sublist (nodes_filterMap_sublist _)

instance : Std.TransCmp StructuralNeighbor.byRank :=
  have : Std.TransCmp fun a b : StructuralNeighbor =>
      compare b.shapeHashExact a.shapeHashExact :=
    @Std.TransCmp.opposite _ (compareOn StructuralNeighbor.shapeHashExact) inferInstance
  have : Std.TransCmp fun a b : StructuralNeighbor => compare b.jaccard a.jaccard :=
    @Std.TransCmp.opposite _ (compareOn StructuralNeighbor.jaccard) inferInstance
  have : Std.TransCmp fun a b : StructuralNeighbor =>
      GraphSnapshot.compareById a.node b.node :=
    inferInstanceAs (Std.TransCmp (compareLex
      (compareOn fun a : StructuralNeighbor => a.node.index)
      (compareOn fun a : StructuralNeighbor => a.node.generation)))
  inferInstanceAs (Std.TransCmp (compareLex _ (compareLex _ _)))

theorem exact_rankedNeighbors (hp : g.HashableAs probe p) :
    (rankedNeighbors config g probe similarityFloor).Pairwise fun a b =>
      b.shapeHashExact = true → a.shapeHashExact = true := by
  simp only [rankedNeighbors, hp.1, hp.2, Bool.false_eq_true, if_false]
  refine (SortedGroups.sorted_sortBy _).imp fun {a b} hle hb => ?_
  cases ha : a.shapeHashExact with
  | true => rfl
  | false =>
    rw [StructuralNeighbor.byRank, compareLex, ha, hb] at hle
    cases hle

structure FindsNeighbors (config : BandingConfig) (g : CodeGraph π μ ShapeDescriptor)
    (probe : NodeId) (p : ShapeDescriptor) (similarityFloor : ℚ)
    (found : List StructuralNeighbor) : Prop where
  lanes : (resolveBanding config).1 * (resolveBanding config).2 ≤ MINHASH_LANES
  usable : 0 < config.structuralLshBands → 0 < config.structuralLshRows →
    config.structuralLshBands * config.structuralLshRows ≤ MINHASH_LANES →
    resolveBanding config = (config.structuralLshBands, config.structuralLshRows)
  sound : ∀ n ∈ found, n.node ≠ probe ∧ ∃ d, g.HashableAs n.node d ∧
    similarityFloor * MINHASH_LANES ≤ p.agreeingLanes d
  complete : ∀ node d, g.HashableAs node d → node ≠ probe →
    similarityFloor * MINHASH_LANES ≤ p.agreeingLanes d →
    p.differingLanes d ((resolveBanding config).1 * (resolveBanding config).2) <
      (resolveBanding config).1 → node ∈ found.map StructuralNeighbor.node
  completeOfAgreeing : ∀ node d, g.HashableAs node d → node ≠ probe →
    similarityFloor * MINHASH_LANES ≤ p.agreeingLanes d →
    MINHASH_LANES < (resolveBanding config).1 + p.agreeingLanes d →
    node ∈ found.map StructuralNeighbor.node
  once : (found.map StructuralNeighbor.node).Nodup
  exact_iff : ∀ n ∈ found, ∀ d, g.HashableAs n.node d →
    (n.shapeHashExact = true ↔ p.shapeHash.isZero = false ∧ d.shapeHash = p.shapeHash)
  exactFirst : found.Pairwise fun a b => b.shapeHashExact = true → a.shapeHashExact = true

theorem findsNeighbors_rankedNeighbors (hp : g.HashableAs probe p) :
    FindsNeighbors config g probe p similarityFloor
      (rankedNeighbors config g probe similarityFloor) := by
  have hcomplete : ∀ node d, g.HashableAs node d → node ≠ probe →
      similarityFloor * MINHASH_LANES ≤ p.agreeingLanes d →
      p.differingLanes d ((resolveBanding config).1 * (resolveBanding config).2) <
        (resolveBanding config).1 →
      node ∈ (rankedNeighbors config g probe similarityFloor).map StructuralNeighbor.node := by
    intro node d hd hne hfloor hfew
    exact List.mem_map.mpr ⟨⟨node, _, _⟩, (mem_rankedNeighbors hp).mpr
      ⟨hne, d, hd, sharesBand_of_differing hfew, hfloor, rfl, rfl⟩, rfl⟩
  constructor
  case lanes => exact resolveBanding_lanes config
  case usable => exact resolveBanding_of_usable
  case sound =>
    intro n hn
    obtain ⟨hne, d, hd, _, hfloor, _⟩ := (mem_rankedNeighbors hp).mp hn
    exact ⟨hne, d, hd, hfloor⟩
  case complete => exact hcomplete
  case completeOfAgreeing =>
    intro node d hd hne hfloor hagree
    refine hcomplete node d hd hne hfloor ?_
    have hlength : p.minhash.toList.length = d.minhash.toList.length := by
      rw [length_minhash, length_minhash]
    have hsum := Banding.agreeing_add_differing hlength
    rw [length_minhash] at hsum
    have hprefix := Banding.differing_take_le hlength
      ((resolveBanding config).1 * (resolveBanding config).2)
    rw [ShapeDescriptor.agreeingLanes] at hagree
    rw [ShapeDescriptor.differingLanes]
    omega
  case once => exact nodup_nodes_rankedNeighbors hp
  case exact_iff =>
    intro n hn d hd
    obtain ⟨_, d', hd', _, _, hexact, _⟩ := (mem_rankedNeighbors hp).mp hn
    rw [hexact, hd.unique hd', Bool.and_eq_true, Bool.not_eq_true', decide_eq_true_iff]
  case exactFirst => exact exact_rankedNeighbors hp

theorem mem_nodes_rankedNeighbors (hp : g.HashableAs probe p) {node : NodeId}
    {d : ShapeDescriptor} (hd : g.HashableAs node d) :
    node ∈ (rankedNeighbors config g probe similarityFloor).map StructuralNeighbor.node ↔
      node ≠ probe ∧ SharesBand config p d ∧
        similarityFloor * MINHASH_LANES ≤ p.agreeingLanes d := by
  rw [List.mem_map]
  constructor
  · intro h
    obtain ⟨n, hn, hnode⟩ := h
    obtain ⟨hne, d', hd', hband, hfloor, _⟩ := (mem_rankedNeighbors hp).mp hn
    rw [hnode] at hne hd'
    rw [hd.unique hd']
    exact ⟨hne, hband, hfloor⟩
  · intro h
    obtain ⟨hne, hband, hfloor⟩ := h
    exact ⟨⟨node, _, _⟩,
      (mem_rankedNeighbors hp).mpr ⟨hne, d, hd, hband, hfloor, rfl, rfl⟩, rfl⟩

theorem SharesBand.symm {d : ShapeDescriptor} (h : SharesBand config p d) :
    SharesBand config d p := by
  obtain ⟨b, hb, hband⟩ := h
  exact ⟨b, hb, hband.symm⟩

/-- A probe finds what it should, and is found by what it finds, wherever nothing is cut off. -/
theorem structuralNeighbors_finds (hp : g.HashableAs probe p) (maxResults : Nat)
    (hall : (rankedNeighbors config g probe similarityFloor).length ≤ maxResults) :
    FindsNeighbors config g probe p similarityFloor
        (structuralNeighbors config g probe similarityFloor maxResults) ∧
      ∀ node d, g.HashableAs node d → ∀ maxResults',
        (rankedNeighbors config g node similarityFloor).length ≤ maxResults' →
        (node ∈ (structuralNeighbors config g probe similarityFloor maxResults).map
            StructuralNeighbor.node ↔
          probe ∈ (structuralNeighbors config g node similarityFloor maxResults').map
            StructuralNeighbor.node) := by
  rw [structuralNeighbors, List.take_of_length_le hall]
  refine ⟨findsNeighbors_rankedNeighbors hp, fun node d hd maxResults' hall' => ?_⟩
  rw [structuralNeighbors, List.take_of_length_le hall', mem_nodes_rankedNeighbors hp hd,
    mem_nodes_rankedNeighbors hd hp]
  have hagree : p.agreeingLanes d = d.agreeingLanes p := Banding.agreeing_comm _ _
  rw [hagree]
  constructor
  · intro h
    exact ⟨h.1.symm, h.2.1.symm, h.2.2⟩
  · intro h
    exact ⟨h.1.symm, h.2.1.symm, h.2.2⟩

end Neighbors

def uniformSketch (lane : UInt32) : ShapeDescriptor :=
  ⟨⟨1, 2⟩, Vector.replicate MINHASH_LANES lane, 0⟩

def twinFunctions : CodeGraph Unit Unit ShapeDescriptor :=
  { (CodeGraph.new : CodeGraph Unit Unit ShapeDescriptor) with
    macroMetadata :=
      ⟨∅, (AList.singleton ⟨0, 1⟩ (uniformSketch 7)).insert ⟨1, 1⟩ (uniformSketch 7)⟩ }

theorem structuralNeighbors_finds_twin :
    FindsNeighbors ⟨16, 4⟩ twinFunctions ⟨0, 1⟩ (uniformSketch 7) (1 / 2)
        (structuralNeighbors ⟨16, 4⟩ twinFunctions ⟨0, 1⟩ (1 / 2)
          (rankedNeighbors ⟨16, 4⟩ twinFunctions ⟨0, 1⟩ (1 / 2)).length) ∧
      ∀ node d, twinFunctions.HashableAs node d → ∀ maxResults,
        (rankedNeighbors ⟨16, 4⟩ twinFunctions node (1 / 2)).length ≤ maxResults →
        (node ∈ (structuralNeighbors ⟨16, 4⟩ twinFunctions ⟨0, 1⟩ (1 / 2)
            (rankedNeighbors ⟨16, 4⟩ twinFunctions ⟨0, 1⟩ (1 / 2)).length).map
            StructuralNeighbor.node ↔
          ⟨0, 1⟩ ∈ (structuralNeighbors ⟨16, 4⟩ twinFunctions node (1 / 2) maxResults).map
            StructuralNeighbor.node) :=
  structuralNeighbors_finds ⟨rfl, rfl⟩ _ (Nat.le_refl _)

end Sqry
