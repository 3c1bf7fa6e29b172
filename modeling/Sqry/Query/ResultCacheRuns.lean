import Sqry.Query.ResultCache

/-!
Runs of the result cache. What the controller shows is compared with the entries that are there
and with what was recorded for each; an insertion has one entry under way between the recording
and the storing.
-/

namespace Sqry
namespace ResultCache

section Operations
variable {κ σ : Type} [DecidableEq κ] (p : CachePolicy κ σ)

inductive Operation (κ : Type) where
  | insert (key : κ) (results : List NodeId)
  | get (key : κ)
  | clear

def step (c : ResultCache κ σ) : Operation κ → Option (ResultCache κ σ)
  | .insert key results => some (c.insert p key results)
  | .get key => some (c.get p key).1
  | .clear => some (c.clear p)

def recordedBytes (entries : List (κ × CachedResults)) : Nat :=
  Ledger.total (fun e => e.2.recorded) entries

structure Exact (c : ResultCache κ σ) : Prop where
  totalEntries : c.budget.totalEntries = c.entries.length
  estimatedMemory : c.budget.estimatedMemory = recordedBytes c.entries
  not_wrapped : c.budget.wrapped = false

def RecordedUnit (c : ResultCache κ σ) (e : κ × CachedResults) : Prop :=
  e.2.recorded = c.budget.config.estimatedSymbolSize

def policyVictims (c : ResultCache κ σ) : List (κ × CachedResults) :=
  c.entries.filter fun e => e.1 ∈ (p.drainEvictions c.policy).2

def budgetVictims (c : ResultCache κ σ) : List (κ × CachedResults) :=
  match c.budget.checkBudget with
  | .evict count _ => c.entries.drop (c.entries.length - min count c.entries.length)
  | .none => []

def capacityVictims (c : ResultCache κ σ) : List (κ × CachedResults) :=
  if c.entries.length = c.capacity then c.entries.getLast?.toList else []

/-- The entries recorded when the insertion of `key` meets the budget. -/
def beforeBudget (c : ResultCache κ σ) (key : κ) (results : List NodeId) : ResultCache κ σ :=
  let c := handlePolicyEvictions p c
  c.recordNew (c.find key).isSome (c.estimatedBytes results)

/-- Every entry that the step evicts was recorded with the size of one symbol, an update does
not evict its own key, and what a new entry adds fits the counters. -/
def EvictsUnits (c : ResultCache κ σ) : Operation κ → Prop
  | .clear => True
  | .get _ => ∀ e ∈ policyVictims p c, c.RecordedUnit e
  | .insert key results =>
    let recorded := beforeBudget p c key results
    let enforced := enforceBudget p recorded
    (∀ e ∈ policyVictims p c, c.RecordedUnit e) ∧
    (∀ e ∈ budgetVictims recorded, c.RecordedUnit e ∧ e.1 ≠ key) ∧
    ((recorded.find key).isNone →
      recorded.entries.length + 1 < usizeValues ∧
      recordedBytes recorded.entries + c.estimatedBytes results < usizeValues ∧
      ((p.admits enforced.policy key (c.estimatedBytes results)).2 = true →
        ∀ e ∈ capacityVictims enforced, c.RecordedUnit e))

instance (c : ResultCache κ σ) (e : κ × CachedResults) : Decidable (c.RecordedUnit e) :=
  inferInstanceAs (Decidable (_ = _))

instance (c : ResultCache κ σ) (op : Operation κ) : Decidable (EvictsUnits p c op) :=
  match op with
  | .clear => isTrue trivial
  | .get _ => inferInstanceAs (Decidable (∀ e ∈ _, _))
  | .insert _ _ => inferInstanceAs (Decidable (_ ∧ _ ∧ _))

/-- The controller when `n` entries of `b` bytes are recorded that are not stored. -/
structure Accounts (c : ResultCache κ σ) (n b : Nat) : Prop where
  nodup : (c.entries.map Prod.fst).Nodup
  entries_le : c.entries.length ≤ c.capacity
  capacity_pos : 0 < c.capacity
  totalEntries : c.budget.totalEntries = c.entries.length + n
  estimatedMemory : c.budget.estimatedMemory = recordedBytes c.entries + b
  entries_lt : c.entries.length + n < usizeValues
  memory_lt : recordedBytes c.entries + b < usizeValues
  not_wrapped : c.budget.wrapped = false

end Operations

variable {κ σ : Type} [DecidableEq κ] {p : CachePolicy κ σ} {c : ResultCache κ σ} {n b : Nat}

theorem fetchSub_eq {counter amount : Nat} (hle : amount ≤ counter)
    (hlt : counter < usizeValues) : CacheBudgetController.fetchSub counter amount =
      counter - amount := by
  have hmod : amount % usizeValues = amount := Nat.mod_eq_of_lt (Nat.lt_of_le_of_lt hle hlt)
  have hsum : counter + (usizeValues - amount) = counter - amount + usizeValues := by omega
  rw [CacheBudgetController.fetchSub, hmod, hsum, Nat.add_mod_right,
    Nat.mod_eq_of_lt (Nat.lt_of_le_of_lt (Nat.sub_le _ _) hlt)]

omit [DecidableEq κ] in
theorem Accounts.evict (h : Accounts c n b) {entries : List (κ × CachedResults)}
    {e : κ × CachedResults} (hperm : (e :: entries).Perm c.entries) (hunit : c.RecordedUnit e)
    (policy : σ) :
    Accounts { c with entries := entries, budget := c.recordEviction, policy := policy } n b := by
  have hlength : entries.length + 1 = c.entries.length := hperm.length_eq
  have hbytes : e.2.recorded + recordedBytes entries = recordedBytes c.entries :=
    Ledger.total_perm (f := fun e : κ × CachedResults => e.2.recorded) hperm
  have hentries := h.entries_lt
  have hmemory := h.memory_lt
  rw [RecordedUnit] at hunit
  have htotal : CacheBudgetController.fetchSub c.budget.totalEntries 1 = entries.length + n := by
    rw [h.totalEntries, fetchSub_eq (by omega) hentries]
    omega
  have hestimated : CacheBudgetController.fetchSub c.budget.estimatedMemory
      c.budget.config.estimatedSymbolSize = recordedBytes entries + b := by
    rw [h.estimatedMemory, fetchSub_eq (by omega) hmemory]
    omega
  refine ⟨?_, ?_, h.capacity_pos, htotal, hestimated, ?_, ?_, ?_⟩
  · exact (List.nodup_cons.mp ((hperm.map Prod.fst).nodup_iff.mpr h.nodup)).2
  · have hle := h.entries_le
    change entries.length ≤ c.capacity
    omega
  · change entries.length + n < usizeValues
    omega
  · change recordedBytes entries + b < usizeValues
    omega
  · simp only [recordEviction, CacheBudgetController.recordRemove, h.not_wrapped, h.totalEntries,
      h.estimatedMemory, Bool.false_or, Bool.or_eq_false_iff, decide_eq_false_iff_not]
    omega

omit [DecidableEq κ] in
theorem Accounts.withPolicy (h : Accounts c n b) (policy : σ) :
    Accounts { c with policy := policy } n b :=
  ⟨h.nodup, h.entries_le, h.capacity_pos, h.totalEntries, h.estimatedMemory, h.entries_lt,
    h.memory_lt, h.not_wrapped⟩

section Lookup

def keys (c : ResultCache κ σ) : List κ := c.entries.map Prod.fst

omit [DecidableEq κ] in
theorem cons_eraseP_perm {α : Type} {q : α → Bool} {xs : List α} {a : α}
    (h : xs.find? q = some a) : (a :: xs.eraseP q).Perm xs := by
  induction xs with
  | nil => cases h
  | cons x xs ih =>
    cases hx : q x with
    | true =>
      rw [List.find?_cons_of_pos hx] at h
      cases h
      rw [List.eraseP_cons_of_pos hx]
    | false =>
      rw [List.find?_cons_of_neg (by simp [hx])] at h
      rw [List.eraseP_cons_of_neg (by simp [hx])]
      exact (List.Perm.swap x a _).trans ((ih h).cons x)

theorem find_isSome {key : κ} : (c.find key).isSome ↔ key ∈ c.keys := by
  rw [find, Option.isSome_map, List.find?_isSome, keys, List.mem_map]
  simp

theorem pop_perm {key : κ} {found : CachedResults} (h : c.find key = some found) :
    ((key, found) :: c.pop key).Perm c.entries := by
  rw [find, Option.map_eq_some_iff] at h
  obtain ⟨e, he, hfound⟩ := h
  have hkey : e.1 = key := by simpa using List.find?_some he
  have heq : e = (key, found) := Prod.ext hkey hfound
  rw [← heq]
  exact cons_eraseP_perm he

end Lookup

section PolicyEvictions

omit [DecidableEq κ] in
@[simp] theorem recordEviction_config (c : ResultCache κ σ) :
    c.recordEviction.config = c.budget.config :=
  CacheBudgetController.recordRemove_config _ _ _

theorem popEvicted_config (c : ResultCache κ σ) (key : κ) :
    (c.popEvicted key).budget.config = c.budget.config := by
  cases hfind : c.find key with
  | none => simp only [popEvicted, hfind]
  | some found => simp only [popEvicted, hfind, recordEviction_config]

theorem popEvicted_subset (c : ResultCache κ σ) (key : κ) :
    (c.popEvicted key).entries ⊆ c.entries := by
  intro e he
  simp only [popEvicted] at he
  cases hfind : c.find key with
  | none => simpa only [hfind] using he
  | some found =>
    simp only [hfind] at he
    exact List.mem_of_mem_eraseP he

theorem Accounts.popEvicted (h : Accounts c n b) {key : κ}
    (hunit : ∀ e ∈ c.entries, e.1 = key → c.RecordedUnit e) :
    Accounts (c.popEvicted key) n b := by
  simp only [ResultCache.popEvicted]
  cases hfind : c.find key with
  | none => exact h
  | some found =>
    have hperm := pop_perm hfind
    exact h.evict hperm (hunit _ (hperm.subset List.mem_cons_self) rfl) c.policy

theorem Accounts.popAllEvicted (evicted : List κ) (h : Accounts c n b)
    (hunit : ∀ e ∈ c.entries, e.1 ∈ evicted → c.RecordedUnit e) :
    Accounts (evicted.foldl ResultCache.popEvicted c) n b := by
  induction evicted generalizing c with
  | nil => exact h
  | cons key evicted ih =>
    have hfirst := h.popEvicted fun e he hkey =>
      hunit e he (hkey ▸ List.mem_cons_self)
    refine ih hfirst ?_
    intro e he hmem
    have hbefore := hunit e (popEvicted_subset c key he) (List.mem_cons_of_mem key hmem)
    rw [RecordedUnit] at hbefore ⊢
    rw [popEvicted_config, hbefore]

theorem Accounts.handlePolicyEvictions (h : Accounts c n b)
    (hunit : ∀ e ∈ policyVictims p c, c.RecordedUnit e) :
    Accounts (handlePolicyEvictions p c) n b := by
  apply (h.withPolicy _).popAllEvicted
  intro e he hmem
  exact hunit e (List.mem_filter.mpr ⟨he, decide_eq_true hmem⟩)

theorem foldl_popEvicted_config (evicted : List κ) (c : ResultCache κ σ) :
    (evicted.foldl popEvicted c).budget.config = c.budget.config := by
  induction evicted generalizing c with
  | nil => rfl
  | cons key evicted ih => rw [List.foldl_cons, ih, popEvicted_config]

theorem handlePolicyEvictions_config (c : ResultCache κ σ) :
    (handlePolicyEvictions p c).budget.config = c.budget.config :=
  foldl_popEvicted_config _ _

end PolicyEvictions

section BudgetEvictions

omit [DecidableEq κ] in
theorem Accounts.popLru (h : Accounts c n b)
    (hunit : ∀ e, c.entries.getLast? = some e → c.RecordedUnit e) :
    Accounts (popLru p c) n b := by
  simp only [ResultCache.popLru]
  cases hlast : c.entries.getLast? with
  | none => exact h
  | some e =>
    have hsplit := List.dropLast_append_getLast? e hlast
    have hperm : (e :: c.entries.dropLast).Perm c.entries := by
      have hswap := List.perm_append_singleton e c.entries.dropLast
      rw [hsplit] at hswap
      exact hswap.symm
    exact h.evict hperm (hunit e hlast) _

omit [DecidableEq κ] in
theorem popLru_entries (c : ResultCache κ σ) : (popLru p c).entries = c.entries.dropLast := by
  simp only [ResultCache.popLru]
  cases hlast : c.entries.getLast? with
  | none =>
    rw [List.getLast?_eq_none_iff.mp hlast]
    rfl
  | some e => rfl

omit [DecidableEq κ] in
theorem popLru_config (c : ResultCache κ σ) :
    (popLru p c).budget.config = c.budget.config := by
  cases hlast : c.entries.getLast? with
  | none => simp only [ResultCache.popLru, hlast]
  | some e => simp only [ResultCache.popLru, hlast, recordEviction_config]

omit [DecidableEq κ] in
theorem popLruTimes_entries (m : Nat) (c : ResultCache κ σ) :
    (popLruTimes p m c).entries = c.entries.take (c.entries.length - m) := by
  induction m generalizing c with
  | zero => simp [popLruTimes]
  | succ m ih =>
    rw [popLruTimes, ih, popLru_entries, List.length_dropLast, List.dropLast_eq_take,
      List.take_take]
    congr 1
    omega

omit [DecidableEq κ] in
theorem drop_succ_last {α : Type} (xs : List α) (m : Nat) :
    (∀ x, xs.getLast? = some x → x ∈ xs.drop (xs.length - (m + 1))) ∧
      xs.dropLast.drop (xs.dropLast.length - m) ⊆ xs.drop (xs.length - (m + 1)) := by
  induction xs using List.reverseRecOn with
  | nil =>
    refine ⟨fun x hx => ?_, fun x hx => ?_⟩
    · cases hx
    · simp at hx
  | append_singleton xs last _ =>
    have hdrop : (xs ++ [last]).drop ((xs ++ [last]).length - (m + 1)) =
        xs.drop (xs.length - m) ++ [last] := by
      have hlength : (xs ++ [last]).length - (m + 1) = xs.length - m := by
        rw [List.length_append, List.length_singleton]
        omega
      rw [hlength, List.drop_append_of_le_length (Nat.sub_le _ _)]
    rw [hdrop]
    refine ⟨fun x hx => ?_, fun x hx => ?_⟩
    · rw [List.getLast?_concat] at hx
      cases hx
      exact List.mem_append_right _ (List.mem_singleton_self last)
    · rw [List.dropLast_concat] at hx
      exact List.mem_append_left _ hx

omit [DecidableEq κ] in
theorem Accounts.popLruTimes (m : Nat) (h : Accounts c n b)
    (hunit : ∀ e ∈ c.entries.drop (c.entries.length - m), c.RecordedUnit e) :
    Accounts (popLruTimes p m c) n b := by
  induction m generalizing c with
  | zero => exact h
  | succ m ih =>
    obtain ⟨hlast, hothers⟩ := drop_succ_last c.entries m
    refine ih (h.popLru fun e he => hunit e (hlast e he)) ?_
    intro e he
    rw [popLru_entries] at he
    have hbefore := hunit e (hothers he)
    rw [RecordedUnit] at hbefore ⊢
    rw [popLru_config, hbefore]

omit [DecidableEq κ] in
theorem Accounts.enforceBudget (h : Accounts c n b)
    (hunit : ∀ e ∈ budgetVictims c, c.RecordedUnit e) : Accounts (enforceBudget p c) n b := by
  simp only [ResultCache.enforceBudget, budgetVictims] at hunit ⊢
  cases hcheck : c.budget.checkBudget with
  | none => exact h
  | evict count reason =>
    simp only [hcheck] at hunit
    have hevicted := h.popLruTimes (p := p) (min count c.entries.length) hunit
    exact ⟨hevicted.nodup, hevicted.entries_le, hevicted.capacity_pos, hevicted.totalEntries,
      hevicted.estimatedMemory, hevicted.entries_lt, hevicted.memory_lt, hevicted.not_wrapped⟩

omit [DecidableEq κ] in
theorem enforceBudget_entries (c : ResultCache κ σ) :
    (enforceBudget p c).entries ++ budgetVictims c = c.entries := by
  cases hcheck : c.budget.checkBudget with
  | none => simp only [enforceBudget, budgetVictims, hcheck, List.append_nil]
  | evict count reason =>
    have hentries : (enforceBudget p c).entries =
        (popLruTimes p (min count c.entries.length) c).entries := by
      simp only [enforceBudget, hcheck, evictEntries]
    have hvictims : budgetVictims c =
        c.entries.drop (c.entries.length - min count c.entries.length) := by
      simp only [budgetVictims, hcheck]
    rw [hentries, hvictims, popLruTimes_entries, List.take_append_drop]

end BudgetEvictions

section Insertion

theorem find_isNone {key : κ} : (c.find key).isNone ↔ key ∉ c.keys := by
  rw [← find_isSome, ← Option.not_isSome]
  simp

omit [DecidableEq κ] in
theorem Accounts.recordInsert {bytes : Nat} (h : Accounts c 0 0)
    (hentries : c.entries.length + 1 < usizeValues)
    (hmemory : recordedBytes c.entries + bytes < usizeValues) :
    Accounts { c with budget := c.budget.recordInsert 1 bytes } 1 bytes := by
  refine ⟨h.nodup, h.entries_le, h.capacity_pos, ?_, ?_, hentries, hmemory, h.not_wrapped⟩
  · simp only [CacheBudgetController.recordInsert]
    rw [h.totalEntries, Nat.add_zero, Nat.mod_eq_of_lt hentries]
  · simp only [CacheBudgetController.recordInsert]
    rw [h.estimatedMemory, Nat.add_zero, Nat.mod_eq_of_lt hmemory]

omit [DecidableEq κ] in
theorem Accounts.takeBack {bytes : Nat} (h : Accounts c 1 bytes) :
    Accounts { c with budget := c.budget.recordRemove 1 bytes } 0 0 := by
  have hentries := h.entries_lt
  have hmemory := h.memory_lt
  have hstored : c.entries.length + 0 < usizeValues := by omega
  have hbytes : recordedBytes c.entries + 0 < usizeValues := by omega
  refine ⟨h.nodup, h.entries_le, h.capacity_pos, ?_, ?_, hstored, hbytes, ?_⟩
  · simp only [CacheBudgetController.recordRemove]
    rw [h.totalEntries, fetchSub_eq (by omega) hentries]
    omega
  · simp only [CacheBudgetController.recordRemove]
    rw [h.estimatedMemory, fetchSub_eq (by omega) hmemory]
    omega
  · simp only [CacheBudgetController.recordRemove, h.not_wrapped, h.totalEntries,
      h.estimatedMemory, Bool.false_or, Bool.or_eq_false_iff, decide_eq_false_iff_not]
    omega

theorem Accounts.putNew {key : κ} {bytes : Nat} (h : Accounts c 1 bytes) (hnew : key ∉ c.keys)
    (hroom : c.entries.length < c.capacity) (results : List NodeId) :
    Accounts (c.put key results bytes) 0 0 := by
  have hfind : c.find key = none := by simpa using find_isNone.mpr hnew
  have hput : c.put key results bytes =
      { c with entries := (key, ⟨results, bytes⟩) :: c.entries } := by
    simp only [put, hfind, if_neg (Nat.ne_of_lt hroom)]
  have hentries := h.entries_lt
  have hmemory := h.memory_lt
  have htotal := h.totalEntries
  have hestimated := h.estimatedMemory
  have hbytes : recordedBytes ((key, ⟨results, bytes⟩) :: c.entries) =
      bytes + recordedBytes c.entries := rfl
  rw [hput]
  refine ⟨List.nodup_cons.mpr ⟨hnew, h.nodup⟩, hroom, h.capacity_pos, ?_, ?_, ?_, ?_,
    h.not_wrapped⟩
  · simpa using htotal
  · simp only [hbytes, hestimated]
    omega
  · simpa using hentries
  · simp only [hbytes]
    omega

theorem Accounts.putUpdate {key : κ} (h : Accounts c 0 0) (hkey : key ∈ c.keys)
    (results : List NodeId) (bytes : Nat) : Accounts (c.put key results bytes) 0 0 := by
  obtain ⟨old, hfind⟩ := Option.isSome_iff_exists.mp (find_isSome.mpr hkey)
  have hperm := pop_perm hfind
  have hput : c.put key results bytes =
      { c with entries := (key, ⟨results, old.recorded⟩) :: c.pop key } := by
    simp only [put, hfind]
  have hlength : ((key, (⟨results, old.recorded⟩ : CachedResults)) :: c.pop key).length =
      c.entries.length := hperm.length_eq
  have hsame : recordedBytes ((key, old) :: c.pop key) = recordedBytes c.entries :=
    Ledger.total_perm (f := fun e : κ × CachedResults => e.2.recorded) hperm
  have hbytes : recordedBytes ((key, (⟨results, old.recorded⟩ : CachedResults)) :: c.pop key) =
      recordedBytes c.entries := hsame
  rw [hput]
  refine ⟨(hperm.map Prod.fst).nodup_iff.mpr h.nodup, ?_, h.capacity_pos, ?_, ?_, ?_, ?_,
    h.not_wrapped⟩
  · simpa only [hlength] using h.entries_le
  · simpa only [hlength] using h.totalEntries
  · simpa only [hbytes] using h.estimatedMemory
  · simpa only [hlength] using h.entries_lt
  · simpa only [hbytes] using h.memory_lt

omit [DecidableEq κ] in
theorem Accounts.makeRoom (h : Accounts c n b) (hunit : ∀ e ∈ capacityVictims c, c.RecordedUnit e) :
    Accounts (makeRoom p c false) n b ∧
      (ResultCache.makeRoom p c false).entries.length < (ResultCache.makeRoom p c false).capacity ∧
      (ResultCache.makeRoom p c false).entries ⊆ c.entries := by
  have hle := h.entries_le
  have hpos := h.capacity_pos
  by_cases hfull : c.entries.length = c.capacity
  · have hmake : ResultCache.makeRoom p c false = ResultCache.popLru p c := by
      simp only [ResultCache.makeRoom, hfull, and_self, if_true]
    have hcapacity : (ResultCache.popLru p c).capacity = c.capacity := by
      simp only [ResultCache.popLru]
      cases c.entries.getLast? with
      | none => rfl
      | some e => rfl
    rw [hmake, popLru_entries, hcapacity, List.length_dropLast]
    refine ⟨h.popLru fun e he => hunit e ?_, by omega, List.dropLast_subset _⟩
    simp only [capacityVictims, if_pos hfull, he]
    exact List.mem_singleton_self e
  · have hmake : ResultCache.makeRoom p c false = c := by
      simp only [ResultCache.makeRoom, hfull, false_and, if_false]
    rw [hmake]
    exact ⟨h, by omega, fun e he => he⟩

theorem Accounts.admitNew {key : κ} {bytes : Nat} (h : Accounts c 1 bytes) (hnew : key ∉ c.keys)
    (results : List NodeId)
    (hunit : (p.admits c.policy key bytes).2 = true → ∀ e ∈ capacityVictims c, c.RecordedUnit e) :
    Accounts (admitEntry p c key results false bytes) 0 0 := by
  cases hadmission : p.admits c.policy key bytes with
  | mk policy admitted =>
    rw [hadmission] at hunit
    cases admitted with
    | false =>
      simp only [admitEntry, hadmission, Bool.false_eq_true, if_false]
      exact (h.withPolicy policy).takeBack
    | true =>
      simp only [admitEntry, hadmission, Bool.false_eq_true, if_false, if_true]
      obtain ⟨hroom, hlength, hsubset⟩ := (h.withPolicy policy).makeRoom (p := p) (hunit rfl)
      refine hroom.putNew ?_ hlength results
      intro hmem
      exact hnew (List.map_subset Prod.fst hsubset hmem)

theorem Accounts.admitUpdate {key : κ} (h : Accounts c 0 0) (hkey : key ∈ c.keys)
    (results : List NodeId) (bytes : Nat) :
    Accounts (admitEntry p c key results true bytes) 0 0 := by
  cases hadmission : p.admits c.policy key bytes with
  | mk policy admitted =>
    cases admitted with
    | false =>
      simp only [admitEntry, hadmission, Bool.false_eq_true, if_false, if_true]
      exact h.withPolicy policy
    | true =>
      simp only [admitEntry, hadmission, if_true, ResultCache.makeRoom, Bool.true_eq_false,
        and_false, if_false]
      exact (h.withPolicy policy).putUpdate hkey results 0

omit [DecidableEq κ] in
theorem recordedUnit_congr {c' : ResultCache κ σ} (h : c'.budget.config = c.budget.config)
    (e : κ × CachedResults) : c'.RecordedUnit e ↔ c.RecordedUnit e := by
  rw [RecordedUnit, RecordedUnit, h]

omit [DecidableEq κ] in
theorem popLruTimes_config (m : Nat) (c : ResultCache κ σ) :
    (popLruTimes p m c).budget.config = c.budget.config := by
  induction m generalizing c with
  | zero => rfl
  | succ m ih => rw [popLruTimes, ih, popLru_config]

omit [DecidableEq κ] in
theorem enforceBudget_config (c : ResultCache κ σ) :
    (ResultCache.enforceBudget p c).budget.config = c.budget.config := by
  cases hcheck : c.budget.checkBudget with
  | none => simp only [enforceBudget, hcheck]
  | evict count reason =>
    have hconfig := popLruTimes_config (p := p) (min count c.entries.length) c
    simpa only [enforceBudget, hcheck, CacheBudgetController.recordClamp, evictEntries] using
      hconfig

omit [DecidableEq κ] in
theorem keys_enforceBudget {key : κ} (c : ResultCache κ σ) :
    key ∈ c.keys ↔ key ∈ (ResultCache.enforceBudget p c).keys ∨ ∃ e ∈ budgetVictims c, e.1 = key := by
  rw [keys, ← enforceBudget_entries (p := p) c, List.map_append, List.mem_append, keys]
  exact or_congr_right List.mem_map

theorem Accounts.insertUpdate {key : κ} (h : Accounts c 0 0) (hkey : (c.find key).isSome)
    (hbudget : ∀ e ∈ budgetVictims c, c.RecordedUnit e ∧ e.1 ≠ key) (results : List NodeId)
    (bytes : Nat) :
    Accounts (admitEntry p (ResultCache.enforceBudget p c) key results true bytes) 0 0 := by
  refine (h.enforceBudget fun e he => (hbudget e he).1).admitUpdate ?_ results bytes
  cases (keys_enforceBudget (p := p) c).mp (find_isSome.mp hkey) with
  | inl hkept => exact hkept
  | inr hvictim =>
    obtain ⟨e, he, heq⟩ := hvictim
    exact absurd heq (hbudget e he).2

theorem Accounts.insertNew {key : κ} {bytes : Nat} (h : Accounts c 1 bytes)
    (hnew : (c.find key).isNone) (hbudget : ∀ e ∈ budgetVictims c, c.RecordedUnit e)
    (results : List NodeId)
    (hunit : (p.admits (ResultCache.enforceBudget p c).policy key bytes).2 = true →
      ∀ e ∈ capacityVictims (ResultCache.enforceBudget p c), c.RecordedUnit e) :
    Accounts (admitEntry p (ResultCache.enforceBudget p c) key results false bytes) 0 0 := by
  refine (h.enforceBudget hbudget).admitNew ?_ results ?_
  · intro hmem
    exact find_isNone.mp hnew ((keys_enforceBudget (p := p) c).mpr (Or.inl hmem))
  · intro hadmission e he
    rw [recordedUnit_congr (enforceBudget_config c)]
    exact hunit hadmission e he

theorem insert_eq (c : ResultCache κ σ) (key : κ) (results : List NodeId) :
    c.insert p key results = admitEntry p (enforceBudget p (beforeBudget p c key results)) key
      results ((ResultCache.handlePolicyEvictions p c).find key).isSome (c.estimatedBytes results) := by
  have hbytes : (ResultCache.handlePolicyEvictions p c).estimatedBytes results = c.estimatedBytes results := by
    rw [estimatedBytes, handlePolicyEvictions_config, estimatedBytes]
  simp only [ResultCache.insert, beforeBudget, hbytes]

end Insertion

section Runs

theorem Accounts.insert {key : κ} {results : List NodeId} (h : Accounts c 0 0)
    (hunit : EvictsUnits p c (.insert key results)) : Accounts (c.insert p key results) 0 0 := by
  obtain ⟨hpolicy, hbudget, hnew⟩ := hunit
  have hevicted := h.handlePolicyEvictions hpolicy
  have hconfig := handlePolicyEvictions_config (p := p) c
  have hbytes : (ResultCache.handlePolicyEvictions p c).estimatedBytes results = c.estimatedBytes results := by
    rw [estimatedBytes, hconfig, estimatedBytes]
  rw [insert_eq]
  cases hfind : ((ResultCache.handlePolicyEvictions p c).find key).isSome with
  | true =>
    have hbefore : beforeBudget p c key results = ResultCache.handlePolicyEvictions p c := by
      simp only [beforeBudget, hfind, recordNew, if_true]
    rw [hbefore] at hbudget ⊢
    apply hevicted.insertUpdate hfind
    intro e he
    rw [recordedUnit_congr hconfig]
    exact hbudget e he
  | false =>
    have hnone : ((ResultCache.handlePolicyEvictions p c).find key).isNone := by
      simpa using hfind
    have hbefore : beforeBudget p c key results =
        { ResultCache.handlePolicyEvictions p c with
          budget := (ResultCache.handlePolicyEvictions p c).budget.recordInsert 1
            (c.estimatedBytes results) } := by
      simp only [beforeBudget, hfind, recordNew, Bool.false_eq_true, if_false, hbytes]
    rw [hbefore] at hbudget hnew ⊢
    obtain ⟨hentries, hmemory, hcapacity⟩ := hnew hnone
    have hrecorded := hevicted.recordInsert hentries hmemory
    have hsame : ({ ResultCache.handlePolicyEvictions p c with
        budget := (ResultCache.handlePolicyEvictions p c).budget.recordInsert 1
          (c.estimatedBytes results) } : ResultCache κ σ).budget.config = c.budget.config := by
      simpa only [CacheBudgetController.recordInsert] using hconfig
    refine hrecorded.insertNew hnone ?_ results ?_
    · intro e he
      rw [recordedUnit_congr hsame]
      exact (hbudget e he).1
    · intro hadmission e he
      rw [recordedUnit_congr hsame]
      exact hcapacity hadmission e he

theorem Accounts.get {key : κ} (h : Accounts c 0 0) (hunit : EvictsUnits p c (.get key)) :
    Accounts (c.get p key).1 0 0 := by
  have hevicted := h.handlePolicyEvictions hunit
  cases hfind : (ResultCache.handlePolicyEvictions p c).find key with
  | none =>
    simp only [ResultCache.get, hfind]
    exact hevicted
  | some found =>
    have hperm := pop_perm hfind
    have hlength : ((key, found) :: (ResultCache.handlePolicyEvictions p c).pop key).length =
        (ResultCache.handlePolicyEvictions p c).entries.length := hperm.length_eq
    have hbytes : recordedBytes ((key, found) :: (ResultCache.handlePolicyEvictions p c).pop key) =
        recordedBytes (ResultCache.handlePolicyEvictions p c).entries :=
      Ledger.total_perm (f := fun e : κ × CachedResults => e.2.recorded) hperm
    simp only [ResultCache.get, hfind]
    refine ⟨(hperm.map Prod.fst).nodup_iff.mpr hevicted.nodup, ?_, hevicted.capacity_pos,
      ?_, ?_, ?_, ?_, hevicted.not_wrapped⟩
    · simpa only [hlength] using hevicted.entries_le
    · simpa only [hlength] using hevicted.totalEntries
    · simpa only [hbytes] using hevicted.estimatedMemory
    · simpa only [hlength] using hevicted.entries_lt
    · simpa only [hbytes] using hevicted.memory_lt

theorem usizeValues_pos : 0 < usizeValues := by
  rw [usizeValues]
  decide

omit [DecidableEq κ] in
theorem Accounts.clear (h : Accounts c 0 0) : Accounts (c.clear p) 0 0 :=
  ⟨List.nodup_nil, Nat.zero_le _, h.capacity_pos, rfl, rfl, usizeValues_pos, usizeValues_pos,
    h.not_wrapped⟩

omit [DecidableEq κ] in
theorem accounts_withBudget (capacity : Nat) (config : BudgetConfig) (policy : σ) :
    Accounts (withBudget capacity config policy : ResultCache κ σ) 0 0 :=
  ⟨List.nodup_nil, Nat.zero_le _, Nat.le_max_right _ _, rfl, rfl, usizeValues_pos,
    usizeValues_pos, rfl⟩

theorem accounts_step {op : Operation κ} {c' : ResultCache κ σ} (h : Accounts c 0 0)
    (hunit : EvictsUnits p c op) (hstep : step p c op = some c') : Accounts c' 0 0 := by
  cases op with
  | insert key results =>
    cases hstep
    exact h.insert hunit
  | get key =>
    cases hstep
    exact h.get hunit
  | clear =>
    cases hstep
    exact h.clear

omit [DecidableEq κ] in
theorem Accounts.exact (h : Accounts c 0 0) : Exact c :=
  ⟨h.totalEntries, h.estimatedMemory, h.not_wrapped⟩

/-- In a run whose evictions all take off what was recorded, the controller is right about the
cache after every step. -/
theorem accounting_exact (capacity : Nat) (config : BudgetConfig) (policy : σ)
    (ops : List (Operation κ))
    (hunits : StepSystem.RunOk (step p) (EvictsUnits p) (withBudget capacity config policy) ops)
    (hrun : StepSystem.run (step p) (withBudget capacity config policy) ops = some c) :
    Exact c :=
  (StepSystem.invariant_of_runOk (fun _ _ _ h hunit hstep => accounts_step h hunit hstep)
    (accounts_withBudget capacity config policy) hunits hrun).exact

def sampleKey (n : Nat) : CacheKey := ⟨n, 0, 0, 0, 0⟩

def sampleCache : ResultCache CacheKey Unit := withBudget 1 BudgetConfig.default ()

def insertTwo (first second : List NodeId) : ResultCache CacheKey Unit :=
  (sampleCache.insert (.lru CacheKey) (sampleKey 1) first).insert (.lru CacheKey) (sampleKey 2)
    second

theorem step_insert (c : ResultCache CacheKey Unit) (key : CacheKey) (results : List NodeId) :
    step (.lru CacheKey) c (.insert key results) = some (c.insert (.lru CacheKey) key results) :=
  rfl

theorem run_insertTwo (first second : List NodeId) :
    StepSystem.run (step (.lru CacheKey)) sampleCache
      [.insert (sampleKey 1) first, .insert (sampleKey 2) second] =
        some (insertTwo first second) := by
  simp only [StepSystem.run, step, Option.bind_some, insertTwo]

theorem accounting_exact_insertTwo :
    ((insertTwo [⟨1, 1⟩] [⟨2, 1⟩]).entries.map Prod.fst = [sampleKey 2] ∧
      (insertTwo [⟨1, 1⟩] [⟨2, 1⟩]).budget.estimatedMemory = 512) ∧
    Exact (insertTwo [⟨1, 1⟩] [⟨2, 1⟩]) := by
  refine ⟨⟨by decide +kernel, by decide +kernel⟩, ?_⟩
  have hfirst : EvictsUnits (.lru CacheKey) sampleCache (.insert (sampleKey 1) [⟨1, 1⟩]) := by
    decide +kernel
  have hsecond : EvictsUnits (.lru CacheKey)
      (sampleCache.insert (.lru CacheKey) (sampleKey 1) [⟨1, 1⟩])
      (.insert (sampleKey 2) [⟨2, 1⟩]) := by
    decide +kernel
  have hlast : StepSystem.RunOk (step (.lru CacheKey)) (EvictsUnits (.lru CacheKey))
      (insertTwo [⟨1, 1⟩] [⟨2, 1⟩]) [] := trivial
  exact accounting_exact 1 BudgetConfig.default () _
    (StepSystem.runOk_cons_of_step hfirst (step_insert _ _ _)
      (StepSystem.runOk_cons_of_step hsecond (step_insert _ _ _) hlast))
    (run_insertTwo _ _)

/-- Nothing was recorded for the empty results, and the eviction of one takes 512 bytes off. -/
theorem empty_results_wrap :
    StepSystem.run (step (.lru CacheKey)) sampleCache
      [.insert (sampleKey 1) [], .insert (sampleKey 2) []] = some (insertTwo [] []) ∧
    recordedBytes (insertTwo [] []).entries = 0 ∧
    (insertTwo [] []).budget.estimatedMemory = 18446744073709551104 ∧
    ¬ Exact (insertTwo [] []) := by
  refine ⟨run_insertTwo [] [], by decide +kernel, by decide +kernel, ?_⟩
  intro h
  have hwrapped : (insertTwo [] []).budget.wrapped = true := by decide +kernel
  rw [h.not_wrapped] at hwrapped
  cases hwrapped

end Runs

end ResultCache
end Sqry
