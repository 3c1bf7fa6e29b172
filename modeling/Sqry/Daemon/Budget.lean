import Sqry.Daemon.Workspace
import Sqry.Lib.Ledger

/-!
The daemon's memory budget: the admission counters, and the sections under the admission
lock that reserve, evict and reap. Byte counts are `u64`: additions and subtractions saturate,
and the sum of the retained bytes wraps as in a release build.
-/

namespace Sqry.Daemon

def addBytes (m n : Nat) : Nat := min (m + n) u64Max

theorem addBytes_of_le {m n : Nat} (h : m + n ≤ u64Max) : addBytes m n = m + n :=
  Nat.min_eq_left h

structure DaemonMemoryConfig where
  memoryLimitMb : Nat
  deriving DecidableEq, Repr

def DaemonMemoryConfig.memoryLimitBytes (c : DaemonMemoryConfig) : Nat :=
  min (c.memoryLimitMb * (1024 * 1024)) u64Max

structure RetainedEntry where
  bytes : Nat
  graph : CodeGraph
  deriving DecidableEq, Repr

structure AdmissionState where
  loadedBytes : Nat
  reservedBytes : Nat
  retainedOld : List RetainedEntry
  deriving DecidableEq, Repr

namespace AdmissionState

def retainedTotalBytes (s : AdmissionState) : Nat :=
  Ledger.total (·.bytes) s.retainedOld % (u64Max + 1)

def totalCommittedBytes (s : AdmissionState) : Nat :=
  addBytes (addBytes s.loadedBytes s.reservedBytes) s.retainedTotalBytes

/-- The authoritative phase of `reserve_rebuild`. -/
def reserve (s : AdmissionState) (limit bytes : Nat) : Option AdmissionState :=
  if addBytes s.totalCommittedBytes bytes ≤ limit then
    some { s with reservedBytes := addBytes s.reservedBytes bytes }
  else none

def evict (s : AdmissionState) (old : RetainedEntry) : AdmissionState :=
  { s with loadedBytes := s.loadedBytes - old.bytes, retainedOld := s.retainedOld ++ [old] }

/-- `reap_once`: an entry goes once nobody else holds its graph. -/
def reap (s : AdmissionState) (readers : List CodeGraph) : AdmissionState :=
  { s with retainedOld := s.retainedOld.filter fun e => readers.contains e.graph }

def total (s : AdmissionState) : Nat :=
  s.loadedBytes + s.reservedBytes + Ledger.total (·.bytes) s.retainedOld

theorem totalCommittedBytes_eq {s : AdmissionState} (h : s.total ≤ u64Max) :
    s.totalCommittedBytes = s.total := by
  rw [total] at h
  have hfirst : addBytes s.loadedBytes s.reservedBytes = s.loadedBytes + s.reservedBytes :=
    addBytes_of_le (by omega)
  rw [totalCommittedBytes, retainedTotalBytes, Nat.mod_eq_of_lt (by omega), hfirst,
    addBytes_of_le h, total]

theorem total_evict {s : AdmissionState} {old : RetainedEntry} (h : old.bytes ≤ s.loadedBytes) :
    (s.evict old).total = s.total := by
  simp only [total, evict, Ledger.total_append, Ledger.total_cons, Ledger.total_nil]
  omega

end AdmissionState
end Sqry.Daemon
