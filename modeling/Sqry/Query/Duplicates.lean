import Sqry.Graph.CodeGraph
import Sqry.Lib.Ranking
import Sqry.Query.Relation

/-!
The groups of nodes that count as duplicates of each other. Nodes are filed under a hash of 64
bits, and the groups are drained from that map in an order that differs from run to run.
-/

namespace Sqry

inductive DuplicateType where
  | body | signature | struct
  deriving DecidableEq, Repr

structure DuplicateConfig where
  maxResults : Nat
  isExactOnly : Bool
  maxMembersPerGroup : Nat
  deriving DecidableEq, Repr

structure DuplicateGroup where
  hash : UInt64
  bodyHash128 : Option (UInt64 × UInt64)
  nodeIds : List NodeId
  totalMembers : Nat
  membersTruncated : Bool
  deriving DecidableEq, Repr

/-- What the hasher of the standard library returns for a text, and for a text with a kind. -/
structure DefaultHasher where
  text : String → UInt64
  textAndKind : String → NodeKind → UInt64

def foldBodyHash (hash : UInt64 × UInt64) : UInt64 := hash.1 ^^^ hash.2

def DuplicateType.relevantKinds : DuplicateType → List NodeKind
  | .body => [.function, .method]
  | .signature => [.function, .method]
  | .struct => [.struct, .class]

def DuplicateConfig.keepsGroup (config : DuplicateConfig) (nodes : List NodeId) : Bool :=
  if config.isExactOnly then decide (nodes.length > 1) else decide (nodes.length > 1)

theorem DuplicateConfig.keepsGroup_iff {config : DuplicateConfig} {nodes : List NodeId} :
    config.keepsGroup nodes = true ↔ 2 ≤ nodes.length := by
  rw [keepsGroup, ite_self, decide_eq_true_iff]
  exact Iff.rfl

namespace CodeGraph
variable {π μ δ : Type} [DecidableEq π]

section Groups
variable (hasher : DefaultHasher) (lossy : π → String) (g : CodeGraph π μ δ)

def resolve (id : StringId) : Option String := g.strings.resolve id.index

def computeHash (dupType : DuplicateType) (id : NodeId) : Option UInt64 :=
  match g.nodes.get id with
  | none => none
  | some entry =>
    if entry.isUnifiedLoser then none
    else
      match dupType with
      | .body => entry.bodyHash.map foldBodyHash
      | .signature =>
        match entry.signature.bind g.resolve with
        | some sig => some (hasher.text sig)
        | none => (g.resolve entry.name).map fun name => hasher.textAndKind name entry.kind
      | .struct =>
        if entry.kind = .struct ∨ entry.kind = .class then
          ((entry.qualifiedName.bind g.resolve).or (g.resolve entry.name)).map
            fun name => hasher.textAndKind name entry.kind
        else none

def hashed (dupType : DuplicateType) (node : NodeId × FullNodeEntry) : Option (UInt64 × NodeId) :=
  if node.2.isUnifiedLoser then none
  else if node.2.kind ∉ dupType.relevantKinds then none
  else (g.computeHash hasher dupType node.1).map fun hash => (hash, node.1)

def hashToNodes (dupType : DuplicateType) : AList fun _ : UInt64 => List NodeId :=
  Buckets.gather (g.nodes.iter.filterMap (g.hashed hasher dupType))

def groupBodyHash (dupType : DuplicateType) (ids : List NodeId) : Option (UInt64 × UInt64) :=
  if dupType = .body then
    ids.head?.bind fun id => (g.nodes.get id).bind fun entry =>
      if entry.isUnifiedLoser then none else entry.bodyHash
  else none

def memberPath (id : NodeId) : String :=
  (((g.nodes.get id).bind fun entry => g.files.resolve entry.file).map lossy).getD ""

def memberName (id : NodeId) : String :=
  ((g.nodes.get id).bind fun entry => g.resolve entry.name).getD ""

def memberOrder (a b : NodeId) : Ordering :=
  (compare (g.memberPath lossy a) (g.memberPath lossy b)).then
    ((compare (g.memberName a) (g.memberName b)).then (GraphSnapshot.compareById a b))

def duplicateGroup (dupType : DuplicateType) (config : DuplicateConfig)
    (drained : Sigma fun _ : UInt64 => List NodeId) : Option DuplicateGroup :=
  if config.keepsGroup drained.2 then
    let nodeIds := SortedGroups.sortBy (g.memberOrder lossy) drained.2
    let membersTruncated :=
      decide (config.maxMembersPerGroup > 0) && decide (nodeIds.length > config.maxMembersPerGroup)
    some
      { hash := drained.1
        bodyHash128 := g.groupBodyHash dupType drained.2
        nodeIds := if membersTruncated then nodeIds.take config.maxMembersPerGroup else nodeIds
        totalMembers := nodeIds.length
        membersTruncated := membersTruncated }
  else none

/-- `drained` are the entries of `hashToNodes` in the order in which its iterator yields them. -/
def buildDuplicateGroupsGraph (dupType : DuplicateType) (config : DuplicateConfig)
    (drained : List (Sigma fun _ : UInt64 => List NodeId)) : List DuplicateGroup :=
  let groups := drained.filterMap (g.duplicateGroup lossy dupType config)
  (Ranking.descending DuplicateGroup.totalMembers groups).take config.maxResults

def carriers (dupType : DuplicateType) (hash : UInt64) : List NodeId :=
  ((g.nodes.iter.filterMap (g.hashed hasher dupType)).filter
    fun node => decide (node.1 = hash)).map Prod.snd

def carriedHashes (dupType : DuplicateType) : List UInt64 :=
  ((g.nodes.iter.filterMap (g.hashed hasher dupType)).map Prod.fst).dedup

def DuplicateReportOrderFree (dupType : DuplicateType) (config : DuplicateConfig) : Prop :=
  ∀ drained drained' : List (Sigma fun _ : UInt64 => List NodeId),
    drained.Perm (g.hashToNodes hasher dupType).entries →
      drained'.Perm (g.hashToNodes hasher dupType).entries →
        g.buildDuplicateGroupsGraph lossy dupType config drained =
          g.buildDuplicateGroupsGraph lossy dupType config drained'

def bodyHashOf (id : NodeId) : Option (UInt64 × UInt64) :=
  (g.nodes.get id).bind fun entry =>
    if entry.isUnifiedLoser then none
    else if entry.kind ∉ DuplicateType.body.relevantKinds then none
    else entry.bodyHash

def bodiesWith (hash : UInt64 × UInt64) : List NodeId :=
  (g.nodes.iter.map Prod.fst).filter fun id => decide (g.bodyHashOf id = some hash)

def BodyGroupsExact (groups : List DuplicateGroup) : Prop :=
  (groups.map DuplicateGroup.bodyHash128).Nodup ∧
    (∀ group ∈ groups, ∃ hash, group.bodyHash128 = some hash ∧
      group.nodeIds.Perm (g.bodiesWith hash)) ∧
    ∀ hash, 2 ≤ (g.bodiesWith hash).length ↔ ∃ group ∈ groups, group.bodyHash128 = some hash

end Groups

section Filed
variable {hasher : DefaultHasher} {lossy : π → String} {g : CodeGraph π μ δ}
variable {dupType : DuplicateType} {config : DuplicateConfig}

theorem bucket_hashToNodes (hash : UInt64) :
    Buckets.bucket (g.hashToNodes hasher dupType) hash = g.carriers hasher dupType hash :=
  Buckets.bucket_gather _ hash

variable {b : Sigma fun _ : UInt64 => List NodeId} {group : DuplicateGroup}

theorem mem_hashToNodes :
    b ∈ (g.hashToNodes hasher dupType).entries ↔
      b.1 ∈ g.carriedHashes hasher dupType ∧ b.2 = g.carriers hasher dupType b.1 := by
  have hkeys : ∀ k, k ∈ (g.hashToNodes hasher dupType).keys ↔
      k ∈ g.carriedHashes hasher dupType := by
    intro k
    rw [hashToNodes, Buckets.mem_keys_gather, carriedHashes, List.mem_dedup]
  constructor
  · intro h
    refine ⟨(hkeys b.1).mp (List.mem_map_of_mem h), ?_⟩
    rw [← bucket_hashToNodes]
    exact Buckets.snd_of_mem_gather h
  · intro ⟨hkey, hbucket⟩
    obtain ⟨c, hc, heq⟩ := List.mem_map.mp ((hkeys b.1).mpr hkey)
    have hcb : c = b := by
      refine Sigma.ext heq (heq_of_eq ?_)
      rw [hbucket, ← heq, ← bucket_hashToNodes]
      exact Buckets.snd_of_mem_gather hc
    rw [← hcb]
    exact hc

theorem duplicateGroup_eq_some (h : g.duplicateGroup lossy dupType config b = some group) :
    2 ≤ b.2.length ∧ group.hash = b.1 ∧ group.bodyHash128 = g.groupBodyHash dupType b.2 ∧
      group.totalMembers = b.2.length ∧
      (config.maxMembersPerGroup = 0 → group.nodeIds.Perm b.2) := by
  rw [duplicateGroup] at h
  split at h
  · rename_i hkept
    cases h
    refine ⟨DuplicateConfig.keepsGroup_iff.mp hkept, rfl, rfl, (SortedGroups.perm_sortBy _ b.2).length_eq, fun hzero => ?_⟩
    simp only [hzero, gt_iff_lt, lt_irrefl, decide_false, Bool.false_and, Bool.false_eq_true,
      if_false]
    exact SortedGroups.perm_sortBy _ b.2
  · cases h

theorem exists_duplicateGroup (h : 2 ≤ b.2.length) :
    ∃ group, g.duplicateGroup lossy dupType config b = some group := by
  rw [duplicateGroup, if_pos (DuplicateConfig.keepsGroup_iff.mpr h)]
  exact ⟨_, rfl⟩

theorem mem_groups :
    group ∈ (g.hashToNodes hasher dupType).entries.filterMap
        (g.duplicateGroup lossy dupType config) ↔
      group.hash ∈ g.carriedHashes hasher dupType ∧
        g.duplicateGroup lossy dupType config
          ⟨group.hash, g.carriers hasher dupType group.hash⟩ = some group := by
  rw [List.mem_filterMap]
  constructor
  · intro ⟨b, hb, hgroup⟩
    obtain ⟨hkey, hbucket⟩ := mem_hashToNodes.mp hb
    obtain ⟨-, hhash, -⟩ := duplicateGroup_eq_some hgroup
    rw [hhash, ← hbucket]
    exact ⟨hkey, hgroup⟩
  · intro ⟨hkey, hgroup⟩
    exact ⟨_, mem_hashToNodes.mpr ⟨hkey, rfl⟩, hgroup⟩

theorem exists_group {hash : UInt64} (h : 2 ≤ (g.carriers hasher dupType hash).length) :
    ∃ group, group ∈ (g.hashToNodes hasher dupType).entries.filterMap
        (g.duplicateGroup lossy dupType config) ∧ group.hash = hash ∧
      group.totalMembers = (g.carriers hasher dupType hash).length := by
  obtain ⟨group, hgroup⟩ := @exists_duplicateGroup _ _ _ _ lossy g dupType config
    ⟨hash, g.carriers hasher dupType hash⟩ h
  obtain ⟨-, hhash, -, htotal, -⟩ := duplicateGroup_eq_some hgroup
  refine ⟨group, mem_groups.mpr ⟨?_, by rw [hhash]; exact hgroup⟩, hhash, htotal⟩
  rw [hhash, carriedHashes, List.mem_dedup]
  obtain ⟨id, hid⟩ := List.exists_mem_of_length_pos (Nat.lt_of_lt_of_le Nat.zero_lt_two h)
  rw [carriers] at hid
  obtain ⟨node, hnode, -⟩ := List.mem_map.mp hid
  obtain ⟨hin, heq⟩ := List.mem_filter.mp hnode
  exact List.mem_map.mpr ⟨node, hin, of_decide_eq_true heq⟩

theorem above_groups (h : 2 ≤ group.totalMembers) :
    Ranking.above DuplicateGroup.totalMembers
        ((g.hashToNodes hasher dupType).entries.filterMap (g.duplicateGroup lossy dupType config))
        group =
      (g.carriedHashes hasher dupType).countP fun hash =>
        decide (group.totalMembers < (g.carriers hasher dupType hash).length) := by
  have hkeys : ((g.hashToNodes hasher dupType).entries.map Sigma.fst).Perm
      (g.carriedHashes hasher dupType) :=
    (List.perm_ext_iff_of_nodup (AList.keys_nodup _) (List.nodup_dedup _)).mpr fun _ =>
      Buckets.mem_keys_gather.trans List.mem_dedup.symm
  rw [Ranking.above, List.countP_filterMap, ← hkeys.countP_eq, List.countP_map]
  refine List.countP_congr fun b hb => ?_
  obtain ⟨-, hbucket⟩ := mem_hashToNodes.mp hb
  rw [Function.comp_apply, ← hbucket]
  by_cases hlarge : 2 ≤ b.2.length
  · obtain ⟨other, hother⟩ := @exists_duplicateGroup _ _ _ _ lossy g dupType config b hlarge
    obtain ⟨-, -, -, htotal, -⟩ := duplicateGroup_eq_some hother
    rw [hother, Option.map_some, htotal]
    exact Iff.rfl
  · have hnone : g.duplicateGroup lossy dupType config b = none := by
      rw [duplicateGroup, if_neg fun hkept => hlarge (DuplicateConfig.keepsGroup_iff.mp hkept)]
    rw [hnone]
    simp only [Option.map_none, Option.getD_none, Bool.false_eq_true, decide_eq_true_eq, false_iff]
    omega

end Filed

/-- The order shows when two hashes of equally many nodes tie around the cut, and otherwise not:
a tie is harmless only where larger groups fill the whole report. -/
theorem duplicateReport_orderFree_iff (hasher : DefaultHasher) (lossy : π → String)
    (g : CodeGraph π μ δ) (dupType : DuplicateType) (config : DuplicateConfig) :
    g.DuplicateReportOrderFree hasher lossy dupType config ↔
      ∀ hash other : UInt64, hash ≠ other →
        2 ≤ (g.carriers hasher dupType hash).length →
          (g.carriers hasher dupType other).length = (g.carriers hasher dupType hash).length →
            config.maxResults ≤ (g.carriedHashes hasher dupType).countP fun larger =>
              decide ((g.carriers hasher dupType hash).length <
                (g.carriers hasher dupType larger).length) := by
  have hruns : g.DuplicateReportOrderFree hasher lossy dupType config ↔
      ∀ drained : List (Sigma fun _ : UInt64 => List NodeId),
        drained.Perm (g.hashToNodes hasher dupType).entries →
          g.buildDuplicateGroupsGraph lossy dupType config drained =
            g.buildDuplicateGroupsGraph lossy dupType config
              (g.hashToNodes hasher dupType).entries := by
    constructor
    · intro h drained hdrained
      exact h drained _ hdrained (List.Perm.refl _)
    · intro h drained drained' hdrained hdrained'
      rw [h drained hdrained, h drained' hdrained']
  rw [hruns]
  refine Ranking.take_descending_perm_iff.trans ?_
  constructor
  · intro h hash other hne hlarge htie
    obtain ⟨a, ha, hahash, hatotal⟩ :=
      @exists_group _ _ _ _ hasher lossy g dupType config hash hlarge
    obtain ⟨b, hb, hbhash, hbtotal⟩ :=
      @exists_group _ _ _ _ hasher lossy g dupType config other (htie ▸ hlarge)
    have hdiffer : a ≠ b := fun heq => hne (by rw [← hahash, heq, hbhash])
    have hfront := h a ha b hb hdiffer (by rw [hatotal, hbtotal, htie])
    rw [above_groups (hatotal ▸ hlarge), hatotal] at hfront
    exact hfront
  · intro h a ha b hb hne htie
    obtain ⟨-, hagroup⟩ := mem_groups.mp ha
    obtain ⟨-, hbgroup⟩ := mem_groups.mp hb
    obtain ⟨hlarge, -, -, hatotal, -⟩ := duplicateGroup_eq_some hagroup
    obtain ⟨-, -, -, hbtotal, -⟩ := duplicateGroup_eq_some hbgroup
    have hhashes : a.hash ≠ b.hash := by
      intro heq
      rw [heq, hbgroup] at hagroup
      exact hne (Option.some.inj hagroup).symm
    have hfront := h a.hash b.hash hhashes hlarge (by rw [← hbtotal, ← htie, hatotal])
    rw [above_groups (by rw [hatotal]; exact hlarge), hatotal]
    exact hfront

section Bodies
variable {hasher : DefaultHasher} {lossy : π → String} {g : CodeGraph π μ δ}
variable {config : DuplicateConfig}

theorem hashed_body {node : NodeId × FullNodeEntry} (h : node ∈ g.nodes.iter) :
    g.hashed hasher .body node =
      (g.bodyHashOf node.1).map fun hash => (foldBodyHash hash, node.1) := by
  have hentry : g.nodes.entryAt node.1 = some node.2 :=
    NodeArena.entryAt_eq_some.mpr (NodeArena.mem_iter.mp h).2
  rw [hashed, bodyHashOf, computeHash, NodeArena.get_eq, hentry]
  by_cases hinvalid : node.1.isInvalid
  · simp [hinvalid]
  · by_cases hloser : node.2.isUnifiedLoser
    · simp [hinvalid, hloser]
    · by_cases hkind : node.2.kind ∉ DuplicateType.body.relevantKinds
      · simp [hinvalid, hloser, hkind]
      · simp [hinvalid, hloser, not_not.mp hkind, Function.comp_def]

theorem carriers_body (hash : UInt64) :
    g.carriers hasher .body hash =
      (g.nodes.iter.map Prod.fst).filter fun id =>
        decide ((g.bodyHashOf id).map foldBodyHash = some hash) := by
  have hwalk : ∀ nodes : List (NodeId × FullNodeEntry), (∀ node ∈ nodes, node ∈ g.nodes.iter) →
      ((nodes.filterMap (g.hashed hasher .body)).filter
          fun node => decide (node.1 = hash)).map Prod.snd =
        (nodes.map Prod.fst).filter fun id =>
          decide ((g.bodyHashOf id).map foldBodyHash = some hash) := by
    intro nodes
    induction nodes with
    | nil => exact fun _ => rfl
    | cons node nodes ih =>
      intro hin
      have hrest := ih fun other hother => hin other (List.mem_cons_of_mem node hother)
      have hnode := @hashed_body _ _ _ _ hasher g node (hin node List.mem_cons_self)
      rw [List.map_cons]
      cases hbody : g.bodyHashOf node.1 with
      | none =>
        rw [hbody, Option.map_none] at hnode
        rw [List.filterMap_cons_none hnode, hrest, List.filter_cons_of_neg (by simp [hbody])]
      | some body =>
        rw [hbody, Option.map_some] at hnode
        rw [List.filterMap_cons_some hnode]
        by_cases hfold : foldBodyHash body = hash
        · rw [List.filter_cons_of_pos (by simpa using hfold), List.map_cons, hrest,
            List.filter_cons_of_pos (by simpa [hbody] using hfold)]
        · rw [List.filter_cons_of_neg (by simpa using hfold), hrest,
            List.filter_cons_of_neg (by simpa [hbody] using hfold)]
  exact hwalk g.nodes.iter fun _ h => h

theorem mem_carriers_body {hash : UInt64} {id : NodeId} :
    id ∈ g.carriers hasher .body hash ↔
      ∃ body, id ∈ g.bodiesWith body ∧ foldBodyHash body = hash := by
  rw [carriers_body, List.mem_filter, decide_eq_true_iff, Option.map_eq_some_iff]
  constructor
  · intro ⟨hin, body, hbody, hfold⟩
    exact ⟨body, List.mem_filter.mpr ⟨hin, decide_eq_true hbody⟩, hfold⟩
  · intro ⟨body, hwith, hfold⟩
    obtain ⟨hin, hbody⟩ := List.mem_filter.mp hwith
    exact ⟨hin, body, of_decide_eq_true hbody, hfold⟩

theorem bodyHashOf_of_mem {body : UInt64 × UInt64} {id : NodeId} (h : id ∈ g.bodiesWith body) :
    g.bodyHashOf id = some body := of_decide_eq_true (List.mem_filter.mp h).2

theorem groupBodyHash_carriers {hash : UInt64} (h : 0 < (g.carriers hasher .body hash).length) :
    ∃ body id, id ∈ g.carriers hasher .body hash ∧ id ∈ g.bodiesWith body ∧
      foldBodyHash body = hash ∧
        g.groupBodyHash .body (g.carriers hasher .body hash) = some body := by
  obtain ⟨id, rest, hcons⟩ := List.exists_cons_of_ne_nil (List.ne_nil_of_length_pos h)
  have hmem : id ∈ g.carriers hasher .body hash := by
    rw [hcons]
    exact List.mem_cons_self
  obtain ⟨body, hwith, hfold⟩ := mem_carriers_body.mp hmem
  refine ⟨body, id, hmem, hwith, hfold, ?_⟩
  have hbody := bodyHashOf_of_mem hwith
  rw [groupBodyHash, if_pos rfl, hcons, List.head?_cons, Option.bind_some]
  rw [bodyHashOf] at hbody
  obtain ⟨entry, hentry, hkept⟩ := Option.bind_eq_some_iff.mp hbody
  rw [hentry, Option.bind_some]
  split at hkept
  · cases hkept
  · rename_i hloser
    rw [if_neg hloser]
    split at hkept
    · cases hkept
    · exact hkept

theorem perm_buildDuplicateGroups {drained : List (Sigma fun _ : UInt64 => List NodeId)}
    (hresults : g.nodes.iter.length ≤ config.maxResults)
    (h : drained.Perm (g.hashToNodes hasher .body).entries) :
    (g.buildDuplicateGroupsGraph lossy .body config drained).Perm
      ((g.hashToNodes hasher .body).entries.filterMap (g.duplicateGroup lossy .body config)) := by
  have hgroups := h.filterMap (g.duplicateGroup lossy .body config)
  have hranked := (@Ranking.perm_descending _ DuplicateGroup.totalMembers
    (drained.filterMap (g.duplicateGroup lossy .body config))).trans hgroups
  have hlength : (Ranking.descending DuplicateGroup.totalMembers
      (drained.filterMap (g.duplicateGroup lossy .body config))).length ≤ config.maxResults := by
    rw [hranked.length_eq]
    refine le_trans (List.length_filterMap_le _ _) (le_trans ?_ hresults)
    exact le_trans (Buckets.length_gather_le _) (List.length_filterMap_le _ _)
  rw [buildDuplicateGroupsGraph]
  simp only [List.take_of_length_le hlength]
  exact hranked

theorem nodup_hash_groups :
    (((g.hashToNodes hasher .body).entries.filterMap
      (g.duplicateGroup lossy .body config)).map DuplicateGroup.hash).Nodup := by
  have hsub : ∀ entries : List (Sigma fun _ : UInt64 => List NodeId),
      ((entries.filterMap (g.duplicateGroup lossy .body config)).map DuplicateGroup.hash).Sublist
        (entries.map Sigma.fst) := by
    intro entries
    induction entries with
    | nil => exact List.Sublist.refl _
    | cons b entries ih =>
      cases hgroup : g.duplicateGroup lossy .body config b with
      | none =>
        rw [List.filterMap_cons_none hgroup]
        exact ih.cons b.1
      | some group =>
        obtain ⟨-, hhash, -⟩ := duplicateGroup_eq_some hgroup
        rw [List.filterMap_cons_some hgroup, List.map_cons, List.map_cons, hhash]
        exact ih.cons_cons b.1
  exact (hsub _).nodup (AList.keys_nodup _)

end Bodies

/-- The classes are those of the folded hashes: they are the classes of the body hashes exactly when
no two of the hashes in the graph fold to one. -/
theorem bodyGroups_exact_iff (hasher : DefaultHasher) (lossy : π → String) (g : CodeGraph π μ δ)
    (config : DuplicateConfig) (hmembers : config.maxMembersPerGroup = 0)
    (hresults : g.nodes.iter.length ≤ config.maxResults) :
    (∀ drained : List (Sigma fun _ : UInt64 => List NodeId),
        drained.Perm (g.hashToNodes hasher .body).entries →
          g.BodyGroupsExact (g.buildDuplicateGroupsGraph lossy .body config drained)) ↔
      ∀ hash other : UInt64 × UInt64, g.bodiesWith hash ≠ [] → g.bodiesWith other ≠ [] →
        foldBodyHash hash = foldBodyHash other → hash = other := by
  constructor
  · intro h hash other hhash hother hfold
    obtain ⟨-, hclasses, -⟩ := h _ (List.Perm.refl _)
    by_contra hne
    obtain ⟨a, ha⟩ := List.exists_mem_of_ne_nil _ hhash
    obtain ⟨b, hb⟩ := List.exists_mem_of_ne_nil _ hother
    have hab : a ≠ b := by
      intro heq
      have hsame := bodyHashOf_of_mem ha
      rw [heq, bodyHashOf_of_mem hb] at hsame
      exact hne (Option.some.inj hsame).symm
    have hina : a ∈ g.carriers hasher .body (foldBodyHash hash) :=
      mem_carriers_body.mpr ⟨hash, ha, rfl⟩
    have hinb : b ∈ g.carriers hasher .body (foldBodyHash hash) :=
      mem_carriers_body.mpr ⟨other, hb, hfold.symm⟩
    have hlarge : 2 ≤ (g.carriers hasher .body (foldBodyHash hash)).length := by
      have hsub : [a, b].Subperm (g.carriers hasher .body (foldBodyHash hash)) := by
        refine List.subperm_of_subset (by simpa using hab) fun c hc => ?_
        cases List.mem_cons.mp hc with
        | inl heq => exact heq ▸ hina
        | inr hin => exact List.mem_singleton.mp hin ▸ hinb
      exact hsub.length_le
    obtain ⟨group, hgroup, hgroupHash, -⟩ :=
      @exists_group _ _ _ _ hasher lossy g .body config _ hlarge
    have hreported := (perm_buildDuplicateGroups hresults (List.Perm.refl _)).mem_iff.mpr hgroup
    obtain ⟨body, -, hmembersOf⟩ := hclasses group hreported
    obtain ⟨-, -, -, -, hnodes⟩ := duplicateGroup_eq_some (mem_groups.mp hgroup).2
    have hbody : ∀ c ∈ g.carriers hasher .body (foldBodyHash hash), g.bodyHashOf c = some body := by
      intro c hc
      refine bodyHashOf_of_mem (hmembersOf.mem_iff.mp ((hnodes hmembers).mem_iff.mpr ?_))
      rw [hgroupHash]
      exact hc
    have hahash := hbody a hina
    have hbhash := hbody b hinb
    rw [bodyHashOf_of_mem ha] at hahash
    rw [bodyHashOf_of_mem hb] at hbhash
    exact hne (Option.some.inj (hahash.trans hbhash.symm))
  · intro hinjective drained hdrained
    have hreport := @perm_buildDuplicateGroups _ _ _ _ hasher lossy g config _ hresults hdrained
    have hclass : ∀ body, g.bodiesWith body ≠ [] →
        g.carriers hasher .body (foldBodyHash body) = g.bodiesWith body := by
      intro body hbody
      rw [carriers_body, bodiesWith]
      refine List.filter_congr fun id hid => ?_
      rw [decide_eq_decide, Option.map_eq_some_iff]
      constructor
      · intro ⟨other, hother, hfold⟩
        have hwith : id ∈ g.bodiesWith other := List.mem_filter.mpr ⟨hid, decide_eq_true hother⟩
        rw [hother, hinjective other body (List.ne_nil_of_mem hwith) hbody hfold]
      · intro hwith
        exact ⟨body, hwith, rfl⟩
    have hgroups : ∀ group ∈ (g.hashToNodes hasher .body).entries.filterMap
        (g.duplicateGroup lossy .body config),
        ∃ body, group.bodyHash128 = some body ∧ foldBodyHash body = group.hash ∧
          g.carriers hasher .body group.hash = g.bodiesWith body ∧
          2 ≤ (g.bodiesWith body).length ∧ group.nodeIds.Perm (g.bodiesWith body) := by
      intro group hgroup
      obtain ⟨hlarge, -, hreported, -, hnodes⟩ :=
        duplicateGroup_eq_some (mem_groups.mp hgroup).2
      obtain ⟨body, id, -, hwith, hfold, hhead⟩ := groupBodyHash_carriers
        (Nat.lt_of_lt_of_le Nat.zero_lt_two hlarge)
      have hsame := hclass body (List.ne_nil_of_mem hwith)
      rw [hfold] at hsame
      refine ⟨body, hreported.trans hhead, hfold, hsame, hsame ▸ hlarge, ?_⟩
      rw [← hsame]
      exact hnodes hmembers
    refine ⟨?_, fun group hgroup => ?_, fun body => ⟨fun hlarge => ?_, fun hreported => ?_⟩⟩
    · rw [(hreport.map DuplicateGroup.bodyHash128).nodup_iff]
      have hnodup := @nodup_hash_groups _ _ _ _ hasher lossy g config
      rw [List.map_congr_left fun group hgroup => ?_,
        ← List.map_map (g := fun body : Option (UInt64 × UInt64) => foldBodyHash (body.getD 0))
          (f := DuplicateGroup.bodyHash128)] at hnodup
      · exact hnodup.of_map _
      · obtain ⟨body, hbody, hfold, -⟩ := hgroups group hgroup
        rw [Function.comp_apply, hbody, Option.getD_some, hfold]
    · obtain ⟨body, hbody, -, -, -, hnodes⟩ := hgroups group (hreport.mem_iff.mp hgroup)
      exact ⟨body, hbody, hnodes⟩
    · have hne : g.bodiesWith body ≠ [] :=
        List.ne_nil_of_length_pos (Nat.lt_of_lt_of_le Nat.zero_lt_two hlarge)
      have hcarriers := hclass body hne
      obtain ⟨group, hgroup, hhash, -⟩ := @exists_group _ _ _ _ hasher lossy g .body config
        (foldBodyHash body) (hcarriers ▸ hlarge)
      obtain ⟨other, hother, hfold, -, hmany, -⟩ := hgroups group hgroup
      have hsame : other = body := hinjective other body
        (List.ne_nil_of_length_pos (Nat.lt_of_lt_of_le Nat.zero_lt_two hmany)) hne
        (hfold.trans hhash)
      exact ⟨group, hreport.mem_iff.mpr hgroup, hsame ▸ hother⟩
    · obtain ⟨group, hgroup, hbody⟩ := hreported
      obtain ⟨other, hother, -, -, hmany, -⟩ := hgroups group (hreport.mem_iff.mp hgroup)
      rw [hother] at hbody
      exact Option.some.inj hbody ▸ hmany

section Instances

def hashedFunctions (hashes : List (UInt64 × UInt64)) : CodeGraph String Unit Unit :=
  { (new : CodeGraph String Unit Unit) with
    nodes := ⟨hashes.map fun hash =>
      ⟨1, .occupied { FullNodeEntry.new .function (.ofUInt8 1) 1 with bodyHash := some hash }⟩,
      none, hashes.length⟩ }

def blindHasher : DefaultHasher := ⟨fun _ => 0, fun _ _ => 0⟩

/-- The two hashes differ and fold to one. -/
theorem swapped_halves_share_group : ¬ ∀ drained : List (Sigma fun _ : UInt64 => List NodeId),
    drained.Perm ((hashedFunctions [(1, 2), (2, 1)]).hashToNodes blindHasher .body).entries →
      (hashedFunctions [(1, 2), (2, 1)]).BodyGroupsExact
        ((hashedFunctions [(1, 2), (2, 1)]).buildDuplicateGroupsGraph id .body ⟨1000, false, 0⟩
          drained) := by
  intro h
  obtain ⟨-, -, hreported⟩ := h _ (List.Perm.refl _)
  have hone : 2 ≤ ((hashedFunctions [(1, 2), (2, 1)]).bodiesWith (1, 2)).length :=
    (hreported (1, 2)).mpr (by decide)
  revert hone
  decide

theorem bodyGroups_exact_iff_distinct :
    (∀ drained : List (Sigma fun _ : UInt64 => List NodeId),
        drained.Perm
            ((hashedFunctions [(1, 2), (3, 4), (3, 4)]).hashToNodes blindHasher .body).entries →
          (hashedFunctions [(1, 2), (3, 4), (3, 4)]).BodyGroupsExact
            ((hashedFunctions [(1, 2), (3, 4), (3, 4)]).buildDuplicateGroupsGraph id .body
              ⟨1000, false, 0⟩ drained)) ↔
      ∀ hash other : UInt64 × UInt64,
        (hashedFunctions [(1, 2), (3, 4), (3, 4)]).bodiesWith hash ≠ [] →
          (hashedFunctions [(1, 2), (3, 4), (3, 4)]).bodiesWith other ≠ [] →
            foldBodyHash hash = foldBodyHash other → hash = other :=
  bodyGroups_exact_iff blindHasher id _ ⟨1000, false, 0⟩ rfl (by decide)

/-- Two groups of two, reported in the order in which the map yields them. -/
theorem equal_groups_follow_map_order :
    ¬ (hashedFunctions [(1, 0), (1, 0), (2, 0), (2, 0)]).DuplicateReportOrderFree blindHasher id
      .body ⟨1, false, 10⟩ := by
  intro h
  have hswapped := h _ _ (List.Perm.refl _) (List.reverse_perm _)
  revert hswapped
  decide

end Instances

end CodeGraph
end Sqry
