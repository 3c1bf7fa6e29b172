import Sqry.Lib.Ledger
import Sqry.Query.ParsedQuery
import Sqry.Graph.Arena

/-!
The result cache with a budget controller of its own. The cache of a third party is the list of
its entries, the most recently used first; the eviction policy is a parameter. Each entry also
carries the bytes that were recorded for it, and the controller whether a removal took more than
was there: neither is part of the source. Hit and eviction statistics are left out.
-/

namespace Sqry

/-- The number of values of a `usize`. -/
@[irreducible] def usizeValues : Nat := 18446744073709551616

structure BudgetConfig where
  maxEntries : Nat
  maxMemoryBytes : Nat
  estimatedSymbolSize : Nat

def BudgetConfig.default : BudgetConfig := ⟨10000, 104857600, 512⟩

inductive ClampReason where
  | entryLimit
  | memoryLimit
  deriving DecidableEq, Repr

inductive ClampAction where
  | none
  | evict (count : Nat) (reason : ClampReason)
  deriving DecidableEq, Repr

structure CacheBudgetController where
  config : BudgetConfig
  totalEntries : Nat
  estimatedMemory : Nat
  clampCount : Nat
  wrapped : Bool

namespace CacheBudgetController

def withConfig (config : BudgetConfig) : CacheBudgetController := ⟨config, 0, 0, 0, false⟩

def recordInsert (b : CacheBudgetController) (entryCount estimatedBytes : Nat) :
    CacheBudgetController :=
  { b with
    totalEntries := (b.totalEntries + entryCount) % usizeValues
    estimatedMemory := (b.estimatedMemory + estimatedBytes) % usizeValues }

def fetchSub (counter amount : Nat) : Nat :=
  (counter + (usizeValues - amount % usizeValues)) % usizeValues

def recordRemove (b : CacheBudgetController) (entryCount estimatedBytes : Nat) :
    CacheBudgetController :=
  { b with
    totalEntries := fetchSub b.totalEntries entryCount
    estimatedMemory := fetchSub b.estimatedMemory estimatedBytes
    wrapped := b.wrapped || decide (b.totalEntries < entryCount) ||
      decide (b.estimatedMemory < estimatedBytes) }

@[simp] theorem recordRemove_config (b : CacheBudgetController) (entryCount bytes : Nat) :
    (b.recordRemove entryCount bytes).config = b.config := rfl

def checkBudget (b : CacheBudgetController) : ClampAction :=
  let entriesOver := b.totalEntries - b.config.maxEntries
  let memoryOver := b.estimatedMemory - b.config.maxMemoryBytes
  if entriesOver > 0 ∨ memoryOver > 0 then
    let forMemory :=
      if memoryOver > 0 then max (memoryOver / b.config.estimatedSymbolSize) 1 else 0
    .evict (max entriesOver forMemory)
      (if entriesOver > memoryOver then .entryLimit else .memoryLimit)
  else .none

def recordClamp (b : CacheBudgetController) : CacheBudgetController :=
  { b with clampCount := (b.clampCount + 1) % usizeValues }

def reset (b : CacheBudgetController) : CacheBudgetController :=
  { b with totalEntries := 0, estimatedMemory := 0 }

end CacheBudgetController

structure CachePolicy (κ σ : Type) where
  admits : σ → κ → Nat → σ × Bool
  recordHit : σ → κ → σ
  invalidate : σ → κ → σ
  drainEvictions : σ → σ × List κ
  reset : σ → σ

def CachePolicy.lru (κ : Type) : CachePolicy κ Unit where
  admits _ _ _ := ((), true)
  recordHit _ _ := ()
  invalidate _ _ := ()
  drainEvictions _ := ((), [])
  reset _ := ()

structure CachedResults where
  results : List NodeId
  recorded : Nat

structure ResultCache (κ σ : Type) where
  entries : List (κ × CachedResults)
  capacity : Nat
  budget : CacheBudgetController
  policy : σ

namespace ResultCache
variable {κ σ : Type} [DecidableEq κ] (p : CachePolicy κ σ)

def withBudget (capacity : Nat) (config : BudgetConfig) (policy : σ) : ResultCache κ σ :=
  ⟨[], max capacity 1, .withConfig config, policy⟩

def find (c : ResultCache κ σ) (key : κ) : Option CachedResults :=
  (c.entries.find? fun e => e.1 = key).map Prod.snd

def pop (c : ResultCache κ σ) (key : κ) : List (κ × CachedResults) :=
  c.entries.eraseP fun e => e.1 = key

def recordEviction (c : ResultCache κ σ) : CacheBudgetController :=
  c.budget.recordRemove 1 c.budget.config.estimatedSymbolSize

def popEvicted (c : ResultCache κ σ) (key : κ) : ResultCache κ σ :=
  match c.find key with
  | none => c
  | some _ => { c with entries := c.pop key, budget := c.recordEviction }

def handlePolicyEvictions (c : ResultCache κ σ) : ResultCache κ σ :=
  let (policy, evicted) := p.drainEvictions c.policy
  evicted.foldl popEvicted { c with policy := policy }

def popLru (c : ResultCache κ σ) : ResultCache κ σ :=
  match c.entries.getLast? with
  | none => c
  | some evicted =>
    { c with
      entries := c.entries.dropLast
      budget := c.recordEviction
      policy := p.invalidate c.policy evicted.1 }

def popLruTimes : Nat → ResultCache κ σ → ResultCache κ σ
  | 0, c => c
  | n + 1, c => popLruTimes n (popLru p c)

def evictEntries (c : ResultCache κ σ) (count : Nat) : ResultCache κ σ :=
  popLruTimes p (min count c.entries.length) c

def get (c : ResultCache κ σ) (key : κ) : ResultCache κ σ × Option (List NodeId) :=
  let c := handlePolicyEvictions p c
  match c.find key with
  | some found =>
    ({ c with entries := (key, found) :: c.pop key, policy := p.recordHit c.policy key },
      some found.results)
  | none => (c, none)

def estimatedBytes (c : ResultCache κ σ) (results : List NodeId) : Nat :=
  results.length * c.budget.config.estimatedSymbolSize % usizeValues

def recordNew (c : ResultCache κ σ) (isUpdate : Bool) (bytes : Nat) : ResultCache κ σ :=
  if isUpdate then c else { c with budget := c.budget.recordInsert 1 bytes }

def enforceBudget (c : ResultCache κ σ) : ResultCache κ σ :=
  match c.budget.checkBudget with
  | .evict count _ =>
    let c := evictEntries p c count
    { c with budget := c.budget.recordClamp }
  | .none => c

/-- `put` of the cache. What was recorded for a key stays; a key that is not there comes with
`bytes`. -/
def put (c : ResultCache κ σ) (key : κ) (results : List NodeId) (bytes : Nat) :
    ResultCache κ σ :=
  match c.find key with
  | some old => { c with entries := (key, ⟨results, old.recorded⟩) :: c.pop key }
  | none =>
    { c with
      entries := (key, ⟨results, bytes⟩) ::
        if c.entries.length = c.capacity then c.entries.dropLast else c.entries }

def makeRoom (c : ResultCache κ σ) (isUpdate : Bool) : ResultCache κ σ :=
  if c.entries.length = c.capacity ∧ isUpdate = false then popLru p c else c

def admitEntry (c : ResultCache κ σ) (key : κ) (results : List NodeId) (isUpdate : Bool)
    (bytes : Nat) : ResultCache κ σ :=
  let (policy, admitted) := p.admits c.policy key bytes
  let c := { c with policy := policy }
  if admitted then (makeRoom p c isUpdate).put key results (if isUpdate then 0 else bytes)
  else if isUpdate then c
  else { c with budget := c.budget.recordRemove 1 bytes }

def insert (c : ResultCache κ σ) (key : κ) (results : List NodeId) : ResultCache κ σ :=
  let c := handlePolicyEvictions p c
  let isUpdate := (c.find key).isSome
  let bytes := c.estimatedBytes results
  admitEntry p (enforceBudget p (c.recordNew isUpdate bytes)) key results isUpdate bytes

def clear (c : ResultCache κ σ) : ResultCache κ σ :=
  { c with entries := [], budget := c.budget.reset, policy := p.reset c.policy }

end ResultCache
end Sqry
