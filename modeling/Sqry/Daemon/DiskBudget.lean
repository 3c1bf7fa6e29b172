import Sqry.Lib.BudgetSweep
import Sqry.Lib.SortedGroups

/-!
The disk budgets of revision artifacts. One pass in the order of age removes artifacts while the
global budget or the one of their repository is exceeded; it is the sweep of `BudgetSweep` as
long as the sizes add up to less than the running totals can hold.
-/

namespace Sqry

def u64SaturatingSub (a b : UInt64) : UInt64 := if b ≤ a then a - b else 0

def u64SaturatingAdd (a b : UInt64) : UInt64 :=
  if a.toNat + b.toNat < 2 ^ 64 then a + b else UInt64.ofNat (2 ^ 64 - 1)

structure RevisionDiskBudgetPolicy where
  globalLimitBytes : UInt64
  repoLimitBytes : UInt64
  deriving DecidableEq, Repr

structure ArtifactInventoryEntry where
  repoIdentityHash : String
  artifactId : String
  sizeBytes : UInt64
  modifiedAt : Nat
  hasManifest : Bool
  hasGraph : Bool
  deriving DecidableEq, Repr

namespace ArtifactInventoryEntry

def isPartial (entry : ArtifactInventoryEntry) : Bool := !entry.hasManifest || !entry.hasGraph

def identity (entry : ArtifactInventoryEntry) : String × String :=
  (entry.repoIdentityHash, entry.artifactId)

def byIdentity : ArtifactInventoryEntry → ArtifactInventoryEntry → Ordering :=
  compareLex (compareOn repoIdentityHash) (compareOn artifactId)

def byAge : ArtifactInventoryEntry → ArtifactInventoryEntry → Ordering :=
  compareLex (compareOn modifiedAt) (compareOn artifactId)

instance : Std.TransCmp byAge :=
  inferInstanceAs (Std.TransCmp (compareLex (compareOn modifiedAt) (compareOn artifactId)))

end ArtifactInventoryEntry

structure RevisionArtifactStore where
  entries : List ArtifactInventoryEntry
  distinct : (entries.map ArtifactInventoryEntry.identity).Nodup

namespace RevisionArtifactStore

def inventory (store : RevisionArtifactStore) : List ArtifactInventoryEntry :=
  SortedGroups.sortBy ArtifactInventoryEntry.byIdentity store.entries

/-- `dir_size` of the directory of an artifact. -/
def artifactSize (store : RevisionArtifactStore) (identity : String × String) : UInt64 :=
  match store.entries.find? fun entry => entry.identity = identity with
  | some entry => entry.sizeBytes
  | none => 0

def removeArtifact (store : RevisionArtifactStore) (identity : String × String) :
    RevisionArtifactStore × UInt64 :=
  (⟨store.entries.filter fun entry => entry.identity ≠ identity,
      store.distinct.sublist (List.filter_sublist.map _)⟩,
    store.artifactSize identity)

def complete (store : RevisionArtifactStore) : List ArtifactInventoryEntry :=
  store.entries.filter fun entry => !entry.isPartial

end RevisionArtifactStore

structure RevisionGcApplySummary where
  reclaimedBytes : UInt64
  removedArtifacts : List String
  deriving DecidableEq, Repr

structure RevisionDiskBudgetExceeded where
  limitBytes : UInt64
  requestedBytes : UInt64
  currentBytes : UInt64
  deriving DecidableEq, Repr

structure ValuesOrder where
  values : List UInt64 → List UInt64
  values_perm : ∀ totals, (values totals).Perm totals

def ValuesOrder.listed : ValuesOrder := ⟨id, fun _ => .rfl⟩

def totalBytes (entries : List ArtifactInventoryEntry) : UInt64 :=
  entries.foldl (fun sum entry => sum + entry.sizeBytes) 0

def addToRepo (totals : AList fun _ : String => UInt64) (entry : ArtifactInventoryEntry) :
    AList fun _ : String => UInt64 :=
  totals.insert entry.repoIdentityHash
    ((totals.lookup entry.repoIdentityHash).getD 0 + entry.sizeBytes)

def repoTotals (entries : List ArtifactInventoryEntry) : AList fun _ : String => UInt64 :=
  entries.foldl addToRepo ∅

/-- The loop between two entries. `removed` are the entries removed so far, from which the
summary takes the names. -/
structure DiskSweep where
  store : RevisionArtifactStore
  globalBytes : UInt64
  repoBytes : AList fun _ : String => UInt64
  reclaimedBytes : UInt64
  removed : List ArtifactInventoryEntry

namespace DiskSweep

def repoValues (sweep : DiskSweep) : List UInt64 := sweep.repoBytes.entries.map Sigma.snd

def withinBudgets (policy : RevisionDiskBudgetPolicy) (sweep : DiskSweep) : Bool :=
  sweep.globalBytes ≤ policy.globalLimitBytes &&
    sweep.repoValues.all fun bytes => bytes ≤ policy.repoLimitBytes

def repoOver (policy : RevisionDiskBudgetPolicy) (sweep : DiskSweep)
    (entry : ArtifactInventoryEntry) : Bool :=
  (sweep.repoBytes.lookup entry.repoIdentityHash).any fun bytes => policy.repoLimitBytes < bytes

def remove (sweep : DiskSweep) (entry : ArtifactInventoryEntry) : DiskSweep :=
  let (store, removed) := sweep.store.removeArtifact entry.identity
  { store := store
    globalBytes := u64SaturatingSub sweep.globalBytes removed
    repoBytes :=
      match sweep.repoBytes.lookup entry.repoIdentityHash with
      | some repoTotal =>
        sweep.repoBytes.insert entry.repoIdentityHash (u64SaturatingSub repoTotal removed)
      | none => sweep.repoBytes
    reclaimedBytes := u64SaturatingAdd sweep.reclaimedBytes removed
    removed := sweep.removed ++ [entry] }

/-- `for entry in entries`. -/
def run (policy : RevisionDiskBudgetPolicy) (protectedIds : List String) :
    List ArtifactInventoryEntry → DiskSweep → DiskSweep
  | [], sweep => sweep
  | entry :: entries, sweep =>
    if sweep.withinBudgets policy then sweep
    else if sweep.globalBytes ≤ policy.globalLimitBytes && !sweep.repoOver policy entry then
      run policy protectedIds entries sweep
    else if protectedIds.contains entry.artifactId then run policy protectedIds entries sweep
    else run policy protectedIds entries (sweep.remove entry)

end DiskSweep

namespace RevisionArtifactStore

def agedEntries (store : RevisionArtifactStore) : List ArtifactInventoryEntry :=
  SortedGroups.sortBy ArtifactInventoryEntry.byAge
    (store.inventory.filter fun entry => !entry.isPartial)

def startSweep (store : RevisionArtifactStore) : DiskSweep :=
  ⟨store, totalBytes store.agedEntries, repoTotals store.agedEntries, 0, []⟩

/-- The loop of `enforce_disk_budgets`. -/
def sweep (store : RevisionArtifactStore) (policy : RevisionDiskBudgetPolicy)
    (protectedIds : List String) : DiskSweep :=
  DiskSweep.run policy protectedIds store.agedEntries store.startSweep

end RevisionArtifactStore

def DiskSweep.outcome (policy : RevisionDiskBudgetPolicy) (order : ValuesOrder)
    (sweep : DiskSweep) : Except RevisionDiskBudgetExceeded RevisionGcApplySummary :=
  if policy.globalLimitBytes < sweep.globalBytes then
    .error ⟨policy.globalLimitBytes, 0, sweep.globalBytes⟩
  else
    match (order.values sweep.repoValues).find? fun bytes => policy.repoLimitBytes < bytes with
    | some currentBytes => .error ⟨policy.repoLimitBytes, 0, currentBytes⟩
    | none =>
      .ok ⟨sweep.reclaimedBytes, sweep.removed.map ArtifactInventoryEntry.artifactId⟩

def enforceDiskBudgets (order : ValuesOrder) (store : RevisionArtifactStore)
    (policy : RevisionDiskBudgetPolicy) (protectedIds : List String) :
    RevisionArtifactStore × Except RevisionDiskBudgetExceeded RevisionGcApplySummary :=
  let sweep := store.sweep policy protectedIds
  (sweep.store, sweep.outcome policy order)

def diskBudgets (policy : RevisionDiskBudgetPolicy) :
    BudgetSweep.Budgets ArtifactInventoryEntry (Option String) where
  weight entry := entry.sizeBytes.toNat
  covers
    | none, _ => true
    | some repo, entry => entry.repoIdentityHash = repo
  limit
    | none => policy.globalLimitBytes.toNat
    | some _ => policy.repoLimitBytes.toNat

def artifactBytes (entries : List ArtifactInventoryEntry) : Nat :=
  (entries.map fun entry => entry.sizeBytes.toNat).sum

section Totals
variable (policy : RevisionDiskBudgetPolicy)

theorem total_none (entries : List ArtifactInventoryEntry) :
    (diskBudgets policy).total none entries = artifactBytes entries := by
  have hall : entries.filter ((diskBudgets policy).covers none) = entries :=
    List.filter_eq_self.mpr fun _ _ => rfl
  rw [BudgetSweep.Budgets.total, hall]
  rfl

theorem total_le (i : Option String) (entries : List ArtifactInventoryEntry) :
    (diskBudgets policy).total i entries ≤ artifactBytes entries :=
  (List.filter_sublist.map _).sum_le_sum fun _ _ => Nat.zero_le _

theorem toNat_foldl_size (entries : List ArtifactInventoryEntry) (sum : UInt64)
    (h : sum.toNat + artifactBytes entries < 2 ^ 64) :
    (entries.foldl (fun sum entry => sum + entry.sizeBytes) sum).toNat =
      sum.toNat + artifactBytes entries := by
  induction entries generalizing sum with
  | nil => rfl
  | cons entry entries ih =>
    have hcons : artifactBytes (entry :: entries) =
        entry.sizeBytes.toNat + artifactBytes entries := rfl
    have hsum : (sum + entry.sizeBytes).toNat = sum.toNat + entry.sizeBytes.toNat := by
      rw [UInt64.toNat_add, Nat.mod_eq_of_lt (by omega)]
    rw [List.foldl_cons, ih (sum + entry.sizeBytes) (by omega), hsum, hcons, Nat.add_assoc]

variable {totals : AList fun _ : String => UInt64} {entries : List ArtifactInventoryEntry}

theorem toNat_totalBytes (h : artifactBytes entries < 2 ^ 64) :
    (totalBytes entries).toNat = artifactBytes entries := by
  have hsum := toNat_foldl_size entries 0 (by simpa using h)
  rw [totalBytes, hsum]
  exact Nat.zero_add _

structure RepoTotals (totals : AList fun _ : String => UInt64)
    (entries : List ArtifactInventoryEntry) : Prop where
  total : ∀ repo bytes, totals.lookup repo = some bytes →
    bytes.toNat = (diskBudgets policy).total (some repo) entries
  listed : ∀ entry ∈ entries, entry.repoIdentityHash ∈ totals

variable {policy}

theorem RepoTotals.total_of_not_mem (h : RepoTotals policy totals entries) {repo : String}
    (hrepo : repo ∉ totals) : (diskBudgets policy).total (some repo) entries = 0 := by
  have hnone : entries.filter ((diskBudgets policy).covers (some repo)) = [] := by
    rw [List.filter_eq_nil_iff]
    intro entry hentry hcovers
    have hsame : entry.repoIdentityHash = repo := of_decide_eq_true hcovers
    exact hrepo (hsame ▸ h.listed entry hentry)
  rw [BudgetSweep.Budgets.total, hnone]
  rfl

theorem RepoTotals.getD (h : RepoTotals policy totals entries) (repo : String) :
    ((totals.lookup repo).getD 0).toNat = (diskBudgets policy).total (some repo) entries := by
  cases hlookup : totals.lookup repo with
  | some bytes => exact h.total repo bytes hlookup
  | none => rw [h.total_of_not_mem (AList.lookup_eq_none.mp hlookup)]; rfl

theorem RepoTotals.forall_le_iff (h : RepoTotals policy totals entries) :
    (∀ bytes ∈ totals.entries.map Sigma.snd, bytes ≤ policy.repoLimitBytes) ↔
      ∀ repo, (diskBudgets policy).total (some repo) entries ≤ policy.repoLimitBytes.toNat := by
  constructor
  · intro hall repo
    cases hlookup : totals.lookup repo with
    | some bytes =>
      rw [← h.total repo bytes hlookup]
      have hmem := AList.mem_lookup_iff.mp hlookup
      exact UInt64.le_iff_toNat_le.mp (hall bytes (List.mem_map_of_mem hmem))
    | none =>
      rw [h.total_of_not_mem (AList.lookup_eq_none.mp hlookup)]
      exact Nat.zero_le _
  · intro hall bytes hbytes
    obtain ⟨pair, hpair, hsnd⟩ := List.mem_map.mp hbytes
    have hlookup : totals.lookup pair.1 = some pair.2 := AList.mem_lookup_iff.mpr hpair
    rw [← hsnd, UInt64.le_iff_toNat_le, h.total pair.1 pair.2 hlookup]
    exact hall pair.1

theorem repoTotals_foldl (entries seen : List ArtifactInventoryEntry)
    (h : RepoTotals policy totals seen) (hfit : artifactBytes (seen ++ entries) < 2 ^ 64) :
    RepoTotals policy (entries.foldl addToRepo totals) (seen ++ entries) := by
  induction entries generalizing seen totals with
  | nil =>
    rw [List.append_nil]
    exact h
  | cons entry entries ih =>
    have hassoc : seen ++ entry :: entries = seen ++ [entry] ++ entries := by simp
    rw [hassoc] at hfit ⊢
    refine ih (seen ++ [entry]) ⟨?_, ?_⟩ hfit
    · intro repo bytes hlookup
      rw [BudgetSweep.Budgets.total_append]
      by_cases hrepo : repo = entry.repoIdentityHash
      · rw [addToRepo, hrepo, AList.lookup_insert] at hlookup
        cases hlookup
        have hcovers : (diskBudgets policy).covers (some repo) entry = true :=
          decide_eq_true hrepo.symm
        have hold := h.getD entry.repoIdentityHash
        have hbound : (diskBudgets policy).total (some repo) (seen ++ [entry]) < 2 ^ 64 :=
          Nat.lt_of_le_of_lt (BudgetSweep.Budgets.total_mono _ (List.sublist_append_left _ _) _)
            (Nat.lt_of_le_of_lt (total_le policy _ _) hfit)
        rw [BudgetSweep.Budgets.total_append, if_pos hcovers, hrepo] at hbound
        rw [if_pos hcovers, UInt64.toNat_add, hold, hrepo]
        exact Nat.mod_eq_of_lt hbound
      · rw [addToRepo, AList.lookup_insert_ne hrepo] at hlookup
        have hcovers : (diskBudgets policy).covers (some repo) entry = false :=
          decide_eq_false (Ne.symm hrepo)
        rw [hcovers, if_neg Bool.false_ne_true, Nat.add_zero]
        exact h.total repo bytes hlookup
    · intro other hother
      rw [addToRepo, AList.mem_insert]
      cases List.mem_append.mp hother with
      | inl hseen => exact Or.inr (h.listed other hseen)
      | inr hlast => exact Or.inl (congrArg _ (List.mem_singleton.mp hlast))

end Totals

namespace RevisionArtifactStore
variable {store : RevisionArtifactStore} {entry : ArtifactInventoryEntry}

theorem nodup_entries (store : RevisionArtifactStore) : store.entries.Nodup :=
  store.distinct.of_map _

theorem nodup_complete (store : RevisionArtifactStore) : store.complete.Nodup :=
  store.nodup_entries.filter _

theorem identity_inj (hentry : entry ∈ store.entries) {other : ArtifactInventoryEntry}
    (hother : other ∈ store.entries) : other.identity = entry.identity ↔ other = entry :=
  ⟨List.inj_on_of_nodup_map store.distinct hother hentry, congrArg _⟩

theorem artifactSize_identity (hentry : entry ∈ store.entries) :
    store.artifactSize entry.identity = entry.sizeBytes := by
  rw [artifactSize]
  cases hfind : store.entries.find? fun other => other.identity = entry.identity with
  | none =>
    have hnot := List.find?_eq_none.mp hfind entry hentry
    exact absurd (decide_eq_true rfl) hnot
  | some other =>
    have hsame : other.identity = entry.identity := by simpa using List.find?_some hfind
    rw [(identity_inj hentry (List.mem_of_find?_eq_some hfind)).mp hsame]

theorem entries_removeArtifact (hentry : entry ∈ store.entries) :
    (store.removeArtifact entry.identity).1.entries = store.entries.filter (· ≠ entry) := by
  refine List.filter_congr fun other hother => ?_
  rw [decide_eq_decide]
  exact not_congr (identity_inj hentry hother)

theorem complete_removeArtifact (hentry : entry ∈ store.entries) :
    (store.removeArtifact entry.identity).1.complete = store.complete.filter (· ≠ entry) := by
  rw [complete, entries_removeArtifact hentry, complete, List.filter_filter, List.filter_filter]
  exact List.filter_congr fun _ _ => Bool.and_comm _ _

end RevisionArtifactStore

section Loop
variable {policy : RevisionDiskBudgetPolicy} {protectedIds : List String}

structure Accounts (policy : RevisionDiskBudgetPolicy) (sweep : DiskSweep) : Prop where
  global : sweep.globalBytes.toNat = (diskBudgets policy).total none sweep.store.complete
  repos : RepoTotals policy sweep.repoBytes sweep.store.complete

namespace Accounts
variable {sweep : DiskSweep} {entry : ArtifactInventoryEntry}

theorem withinBudgets_iff (h : Accounts policy sweep) :
    sweep.withinBudgets policy = true ↔ (diskBudgets policy).Fits sweep.store.complete := by
  rw [DiskSweep.withinBudgets, Bool.and_eq_true, decide_eq_true_iff, List.all_eq_true,
    UInt64.le_iff_toNat_le, h.global]
  simp only [decide_eq_true_eq, DiskSweep.repoValues]
  rw [h.repos.forall_le_iff]
  constructor
  · intro hfits i
    cases i with
    | none => exact hfits.1
    | some repo => exact hfits.2 repo
  · intro hfits
    exact ⟨hfits none, fun repo => hfits (some repo)⟩

theorem repoOver_iff (h : Accounts policy sweep) (hentry : entry ∈ sweep.store.complete) :
    sweep.repoOver policy entry = true ↔ policy.repoLimitBytes.toNat <
      (diskBudgets policy).total (some entry.repoIdentityHash) sweep.store.complete := by
  rw [DiskSweep.repoOver]
  cases hlookup : sweep.repoBytes.lookup entry.repoIdentityHash with
  | none => exact absurd (h.repos.listed entry hentry) (AList.lookup_eq_none.mp hlookup)
  | some bytes =>
    rw [← h.repos.total _ bytes hlookup, Option.any_some, decide_eq_true_iff,
      UInt64.lt_iff_toNat_lt]

theorem skip_iff (h : Accounts policy sweep) (hentry : entry ∈ sweep.store.complete) :
    (decide (sweep.globalBytes ≤ policy.globalLimitBytes) && !sweep.repoOver policy entry) = true ↔
      ¬ (diskBudgets policy).Due sweep.store.complete entry := by
  rw [Bool.and_eq_true, decide_eq_true_iff, UInt64.le_iff_toNat_le, h.global,
    Bool.not_eq_true', ← Bool.not_eq_true, h.repoOver_iff hentry]
  constructor
  · intro hmet hdue
    obtain ⟨i, hcovers, hlt⟩ := hdue
    cases i with
    | none => exact Nat.not_lt_of_le hmet.1 hlt
    | some repo =>
      have hrepo : entry.repoIdentityHash = repo := of_decide_eq_true hcovers
      exact hmet.2 (hrepo ▸ hlt)
  · intro hdue
    constructor
    · exact Nat.le_of_not_lt fun hlt => hdue ⟨none, rfl, hlt⟩
    · exact fun hlt => hdue ⟨some entry.repoIdentityHash, decide_eq_true rfl, hlt⟩

theorem toNat_saturatingSub {total size : UInt64} {rest : Nat}
    (h : rest + size.toNat = total.toNat) : (u64SaturatingSub total size).toNat = rest := by
  have hle : size ≤ total := UInt64.le_iff_toNat_le.mpr (by omega)
  rw [u64SaturatingSub, if_pos hle, UInt64.toNat_sub_of_le _ _ hle]
  omega

theorem remove (h : Accounts policy sweep) (hentry : entry ∈ sweep.store.complete) :
    Accounts policy (sweep.remove entry) := by
  have hmem : entry ∈ sweep.store.entries := (List.mem_filter.mp hentry).1
  have hcomplete : (sweep.remove entry).store.complete =
      sweep.store.complete.filter (· ≠ entry) :=
    RevisionArtifactStore.complete_removeArtifact hmem
  have hsize := RevisionArtifactStore.artifactSize_identity hmem
  have htotal := BudgetSweep.Budgets.total_filter_ne (diskBudgets policy)
    sweep.store.nodup_complete hentry
  have hlisted := h.repos.listed entry hentry
  obtain ⟨bytes, hbytes⟩ := Option.isSome_iff_exists.mp (AList.lookup_isSome.mpr hlisted)
  have hrepos : (sweep.remove entry).repoBytes = sweep.repoBytes.insert entry.repoIdentityHash
      (u64SaturatingSub bytes entry.sizeBytes) := by
    simp only [DiskSweep.remove, RevisionArtifactStore.removeArtifact, hbytes, hsize]
  refine ⟨?_, ?_, ?_⟩
  · rw [hcomplete]
    change (u64SaturatingSub sweep.globalBytes (sweep.store.artifactSize entry.identity)).toNat = _
    rw [hsize]
    refine toNat_saturatingSub ?_
    rw [h.global, ← htotal none]
    rfl
  · intro repo left hlookup
    rw [hrepos] at hlookup
    rw [hcomplete]
    by_cases hrepo : repo = entry.repoIdentityHash
    · rw [hrepo, AList.lookup_insert] at hlookup
      cases hlookup
      have hcovers : (diskBudgets policy).covers (some repo) entry = true :=
        decide_eq_true hrepo.symm
      refine toNat_saturatingSub ?_
      rw [h.repos.total _ bytes hbytes, ← hrepo, ← htotal (some repo), if_pos hcovers]
      rfl
    · rw [AList.lookup_insert_ne hrepo] at hlookup
      have hcovers : (diskBudgets policy).covers (some repo) entry = false :=
        decide_eq_false (Ne.symm hrepo)
      rw [h.repos.total repo left hlookup, ← htotal (some repo), hcovers,
        if_neg Bool.false_ne_true, Nat.add_zero]
  · intro other hother
    rw [hcomplete] at hother
    rw [hrepos, AList.mem_insert]
    exact Or.inr (h.repos.listed other (List.mem_filter.mp hother).1)

end Accounts

def isProtected (protectedIds : List String) (entry : ArtifactInventoryEntry) : Bool :=
  protectedIds.contains entry.artifactId

structure SweptTo (policy : RevisionDiskBudgetPolicy) (protectedIds : List String)
    (start : DiskSweep) (entries removed : List ArtifactInventoryEntry) (last : DiskSweep) :
    Prop where
  sweeps : BudgetSweep.Sweeps (diskBudgets policy) (isProtected protectedIds)
    start.store.complete entries removed
  trace : last.removed = start.removed ++ removed
  kept : last.store.entries = BudgetSweep.left start.store.entries removed
  accounts : Accounts policy last

theorem sweptTo_run {entries : List ArtifactInventoryEntry} (hnodup : entries.Nodup)
    {sweep : DiskSweep} (h : Accounts policy sweep)
    (hentries : ∀ entry ∈ entries, entry ∈ sweep.store.complete) :
    ∃ removed, SweptTo policy protectedIds sweep entries removed
      (DiskSweep.run policy protectedIds entries sweep) := by
  induction entries generalizing sweep with
  | nil =>
    exact ⟨[], .done, (List.append_nil _).symm, (BudgetSweep.left_nil _).symm, h⟩
  | cons entry entries ih =>
    obtain ⟨hfresh, hnodup⟩ := List.nodup_cons.mp hnodup
    have hentry := hentries entry List.mem_cons_self
    have hrest : ∀ other ∈ entries, other ∈ sweep.store.complete :=
      fun other hother => hentries other (List.mem_cons_of_mem entry hother)
    rw [DiskSweep.run]
    by_cases hwithin : sweep.withinBudgets policy = true
    · rw [if_pos hwithin]
      exact ⟨[], BudgetSweep.sweeps_of_fits (h.withinBudgets_iff.mp hwithin) _,
        (List.append_nil _).symm, (BudgetSweep.left_nil _).symm, h⟩
    · rw [if_neg hwithin]
      by_cases hskip : (decide (sweep.globalBytes ≤ policy.globalLimitBytes) &&
          !sweep.repoOver policy entry) = true
      · rw [if_pos hskip]
        obtain ⟨removed, hswept⟩ := ih hnodup h hrest
        exact ⟨removed, .skip ((h.skip_iff hentry).mp hskip) hswept.sweeps, hswept.trace,
          hswept.kept, hswept.accounts⟩
      · rw [if_neg hskip]
        have hdue := not_not.mp ((h.skip_iff hentry).not.mp hskip)
        cases hprotected : isProtected protectedIds entry with
        | true =>
          obtain ⟨removed, hswept⟩ := ih hnodup h hrest
          rw [isProtected] at hprotected
          rw [if_pos hprotected]
          exact ⟨removed, .hold hprotected hswept.sweeps, hswept.trace, hswept.kept,
            hswept.accounts⟩
        | false =>
          have hmem : entry ∈ sweep.store.entries := (List.mem_filter.mp hentry).1
          have hcomplete : (sweep.remove entry).store.complete =
              sweep.store.complete.filter (· ≠ entry) :=
            RevisionArtifactStore.complete_removeArtifact hmem
          obtain ⟨removed, hswept⟩ := ih hnodup (h.remove hentry) (by
            intro other hother
            rw [hcomplete]
            refine List.mem_filter.mpr ⟨hrest other hother, decide_eq_true ?_⟩
            exact fun hsame => hfresh (hsame ▸ hother))
          rw [isProtected] at hprotected
          rw [if_neg (Bool.eq_false_iff.mp hprotected)]
          refine ⟨entry :: removed, ?_, ?_, ?_, hswept.accounts⟩
          · exact .remove hprotected hdue (hcomplete ▸ hswept.sweeps)
          · rw [hswept.trace]
            exact List.append_assoc _ _ _
          · rw [hswept.kept, BudgetSweep.left_cons,
              ← RevisionArtifactStore.entries_removeArtifact hmem]
            rfl

end Loop

namespace RevisionArtifactStore
variable (store : RevisionArtifactStore) (policy : RevisionDiskBudgetPolicy)

theorem perm_agedEntries : store.agedEntries.Perm store.complete :=
  (SortedGroups.perm_sortBy _ _).trans ((SortedGroups.perm_sortBy _ _).filter _)

theorem artifactBytes_agedEntries : artifactBytes store.agedEntries = artifactBytes store.complete :=
  (store.perm_agedEntries.map _).sum_nat

theorem accounts_startSweep (h : artifactBytes store.complete < 2 ^ 64) :
    Accounts policy store.startSweep := by
  rw [← store.artifactBytes_agedEntries] at h
  have hempty : RepoTotals policy ∅ [] :=
    ⟨fun _ _ hlookup => absurd hlookup (Option.some_ne_none _).symm, nofun⟩
  have htotals := repoTotals_foldl store.agedEntries [] hempty h
  rw [List.nil_append] at htotals
  refine ⟨?_, ?_, ?_⟩
  · rw [total_none]
    exact (toNat_totalBytes h).trans store.artifactBytes_agedEntries
  · intro repo bytes hlookup
    rw [htotals.total repo bytes hlookup]
    exact BudgetSweep.Budgets.total_perm _ store.perm_agedEntries _
  · intro entry hentry
    exact htotals.listed entry (store.perm_agedEntries.mem_iff.mpr hentry)

theorem sweptTo_sweep (protectedIds : List String) (h : artifactBytes store.complete < 2 ^ 64) :
    ∃ removed, SweptTo policy protectedIds store.startSweep store.agedEntries removed
      (store.sweep policy protectedIds) :=
  sweptTo_run (store.perm_agedEntries.nodup_iff.mpr store.nodup_complete)
    (store.accounts_startSweep policy h) fun _ hentry => store.perm_agedEntries.mem_iff.mp hentry

theorem agedEntries_byAge :
    store.agedEntries.Pairwise fun older newer => older.modifiedAt ≤ newer.modifiedAt := by
  refine (SortedGroups.sorted_sortBy _).imp fun {older newer} hle => ?_
  rw [ArtifactInventoryEntry.byAge, compareLex] at hle
  by_contra hlt
  have hgt : compareOn ArtifactInventoryEntry.modifiedAt older newer = .gt :=
    Nat.compare_eq_gt.mpr (Nat.lt_of_not_le hlt)
  rw [hgt] at hle
  cases hle

end RevisionArtifactStore

theorem isOk_outcome_iff {policy : RevisionDiskBudgetPolicy} {sweep : DiskSweep}
    (order : ValuesOrder) :
    (sweep.outcome policy order).isOk = true ↔ sweep.withinBudgets policy = true := by
  rw [DiskSweep.outcome, DiskSweep.withinBudgets, Bool.and_eq_true, decide_eq_true_iff,
    List.all_eq_true]
  by_cases hglobal : policy.globalLimitBytes < sweep.globalBytes
  · rw [if_pos hglobal]
    constructor
    · intro hok
      cases hok
    · intro hwithin
      exact absurd hwithin.1 (UInt64.not_le.mpr hglobal)
  · rw [if_neg hglobal]
    have hfind : ((order.values sweep.repoValues).find?
        fun bytes => policy.repoLimitBytes < bytes) = none ↔
        ∀ bytes ∈ sweep.repoValues, decide (bytes ≤ policy.repoLimitBytes) = true := by
      rw [List.find?_eq_none]
      simp only [(order.values_perm _).mem_iff, decide_eq_true_eq, UInt64.not_lt]
    rw [← hfind]
    cases hfound : (order.values sweep.repoValues).find?
        fun bytes => policy.repoLimitBytes < bytes with
    | none => exact ⟨fun _ => ⟨UInt64.not_lt.mp hglobal, rfl⟩, fun _ => rfl⟩
    | some bytes => exact ⟨nofun, fun hwithin => absurd hwithin.2 (Option.some_ne_none _)⟩

structure Enforced (order : ValuesOrder) (store : RevisionArtifactStore)
    (policy : RevisionDiskBudgetPolicy) (protectedIds : List String) : Prop where
  ok_iff : (enforceDiskBudgets order store policy protectedIds).2.isOk = true ↔
    (diskBudgets policy).Fits (store.complete.filter (isProtected protectedIds))
  fits : (enforceDiskBudgets order store policy protectedIds).2.isOk = true →
    (diskBudgets policy).Fits (enforceDiskBudgets order store policy protectedIds).1.complete
  protectedKept : ∀ entry ∈ store.entries, isProtected protectedIds entry = true →
    entry ∈ (enforceDiskBudgets order store policy protectedIds).1.entries
  oldestFirst : ∀ removed ∈ store.complete,
    removed ∉ (enforceDiskBudgets order store policy protectedIds).1.entries →
    ∀ kept ∈ (enforceDiskBudgets order store policy protectedIds).1.complete,
    kept.repoIdentityHash = removed.repoIdentityHash → isProtected protectedIds kept = false →
    ¬ kept.modifiedAt < removed.modifiedAt
  kept_iff : ∀ entry, entry ∈ (enforceDiskBudgets order store policy protectedIds).1.entries ↔
    entry ∈ store.entries ∧ entry ∉ (store.sweep policy protectedIds).removed
  needed : ∀ before entry later,
    (store.sweep policy protectedIds).removed = before ++ entry :: later →
    (diskBudgets policy).Due (BudgetSweep.left store.complete before) entry

theorem enforced_of_lt {store : RevisionArtifactStore} (h : artifactBytes store.complete < 2 ^ 64)
    (order : ValuesOrder) (policy : RevisionDiskBudgetPolicy) (protectedIds : List String) :
    Enforced order store policy protectedIds := by
  obtain ⟨removed, hswept⟩ := store.sweptTo_sweep policy protectedIds h
  have hsweeps := hswept.sweeps
  have hremoved : (store.sweep policy protectedIds).removed = removed := hswept.trace
  have hentries : (enforceDiskBudgets order store policy protectedIds).1.entries =
      BudgetSweep.left store.entries removed := hswept.kept
  have hcomplete : (enforceDiskBudgets order store policy protectedIds).1.complete =
      BudgetSweep.left store.complete removed := by
    rw [RevisionArtifactStore.complete, hentries, BudgetSweep.left, List.filter_filter,
      BudgetSweep.left, RevisionArtifactStore.complete, List.filter_filter]
    exact List.filter_congr fun _ _ => Bool.and_comm _ _
  have hok : (enforceDiskBudgets order store policy protectedIds).2.isOk = true ↔
      (diskBudgets policy).Fits (BudgetSweep.left store.complete removed) := by
    rw [← hcomplete]
    exact (isOk_outcome_iff order).trans hswept.accounts.withinBudgets_iff
  have haged : ∀ entry ∈ store.complete, entry ∈ store.agedEntries :=
    fun entry hentry => store.perm_agedEntries.mem_iff.mpr hentry
  have hfree : ∀ entry ∈ removed, isProtected protectedIds entry = false :=
    fun entry hentry => BudgetSweep.held_of_mem_removed hsweeps hentry
  constructor
  case ok_iff => exact hok.trans (BudgetSweep.fits_left_iff hsweeps haged)
  case fits =>
    intro hisOk
    rw [hcomplete]
    exact hok.mp hisOk
  case protectedKept =>
    intro entry hentry hprotected
    rw [hentries]
    refine List.mem_filter.mpr ⟨hentry, decide_eq_true fun hmem => ?_⟩
    exact absurd (hprotected.symm.trans (hfree entry hmem)) (by decide)
  case oldestFirst =>
    intro gone hgone hnot kept hkept hrepo hunprotected
    rw [hentries, BudgetSweep.left, List.mem_filter, not_and] at hnot
    rw [hcomplete] at hkept
    obtain ⟨hkept, hleft⟩ := List.mem_filter.mp hkept
    have hmem : gone ∈ removed :=
      not_not.mp fun hout => hnot (List.mem_filter.mp hgone).1 (decide_eq_true hout)
    refine Nat.not_lt_of_le (BudgetSweep.rel_of_kept hsweeps store.agedEntries_byAge hmem
      (haged kept hkept) (of_decide_eq_true hleft) hunprotected ?_)
    intro i hcovers
    cases i with
    | none => rfl
    | some repo => exact decide_eq_true (hrepo.trans (of_decide_eq_true hcovers))
  case kept_iff =>
    intro entry
    rw [hentries, hremoved, BudgetSweep.left, List.mem_filter, decide_eq_true_iff]
  case needed =>
    intro before entry later hsplit
    rw [hremoved] at hsplit
    exact BudgetSweep.due_of_removed hsweeps hsplit

def RevisionDiskBudgetPolicy.unlimited : RevisionDiskBudgetPolicy :=
  ⟨UInt64.ofNat (2 ^ 64 - 1), UInt64.ofNat (2 ^ 64 - 1)⟩

theorem withinBudgets_unlimited (sweep : DiskSweep) :
    sweep.withinBudgets .unlimited = true := by
  have hle : ∀ bytes : UInt64, bytes ≤ UInt64.ofNat (2 ^ 64 - 1) :=
    fun bytes => UInt64.le_iff_toNat_le.mpr (Nat.le_of_lt_succ bytes.toNat_lt)
  rw [DiskSweep.withinBudgets, Bool.and_eq_true, List.all_eq_true]
  exact ⟨decide_eq_true (hle _), fun bytes _ => decide_eq_true (hle bytes)⟩

/-- The promises hold for a store under all policies if and only if its sizes can be added up. -/
theorem enforceDiskBudgets_enforced_iff (store : RevisionArtifactStore) :
    (∀ order policy protectedIds, Enforced order store policy protectedIds) ↔
      artifactBytes store.complete < 2 ^ 64 := by
  constructor
  · intro h
    have hall := h .listed .unlimited (store.complete.map ArtifactInventoryEntry.artifactId)
    have hok : (enforceDiskBudgets .listed store .unlimited
        (store.complete.map ArtifactInventoryEntry.artifactId)).2.isOk = true :=
      (isOk_outcome_iff _).mpr (withinBudgets_unlimited _)
    have hfits := hall.ok_iff.mp hok none
    have hprotected : store.complete.filter
        (isProtected (store.complete.map ArtifactInventoryEntry.artifactId)) = store.complete := by
      refine List.filter_eq_self.mpr fun entry hentry => ?_
      exact List.contains_iff_mem.mpr (List.mem_map_of_mem hentry)
    rw [hprotected, total_none] at hfits
    exact Nat.lt_of_le_of_lt hfits (by decide)
  · intro h order policy protectedIds
    exact enforced_of_lt h order policy protectedIds

def halves : RevisionArtifactStore :=
  ⟨[⟨"repo", "a", UInt64.ofNat (2 ^ 63), 1, true, true⟩,
    ⟨"repo", "b", UInt64.ofNat (2 ^ 63), 2, true, true⟩], by decide⟩

/-- Their sizes add up to nothing, so limits of one byte are found to be met. -/
theorem halves_fit_one_byte :
    (enforceDiskBudgets .listed halves ⟨1, 1⟩ ["a", "b"]).2 = .ok ⟨0, []⟩ ∧
      ¬ Enforced .listed halves ⟨1, 1⟩ ["a", "b"] := by
  have hok : (enforceDiskBudgets .listed halves ⟨1, 1⟩ ["a", "b"]).2 = .ok ⟨0, []⟩ := by decide
  refine ⟨hok, fun h => ?_⟩
  have hfits := h.ok_iff.mp (hok ▸ rfl) none
  revert hfits
  decide

end Sqry
