import MultithreadingBible.RwLocks.Machine

/-!
# Alternating reader-writer lock

A lock that admits up to `n_max_readers` readers or up to `n_max_writers` writers.  When the last thread
of one kind leaves and threads of the other kind wait, the turn changes: the kind that leaves is not
allowed in before the other one has used the lock.

* `AltLock` — the fields of `rw_lock_t`.  What it has twice, for readers and for writers, is a function
  of the access.
* `rwLockRdLock`, `rwLockWrLock`, `rwLockUnlock` — the functions of the lock.  The code of readers and
  the code of writers are the same up to the exchange of the two.
* `altMachine` — all interleavings of threads that lock and unlock one lock.
-/

namespace MultithreadingBible
namespace AltLock

open Lib
open RwLocks (Access)

/-- The other access. -/
def other : Access → Access
  | .reader => .writer
  | .writer => .reader

@[simp] theorem other_other (k : Access) : other (other k) = k := by
  cases k <;> rfl

theorem other_ne (k : Access) : other k ≠ k := by
  cases k <;> simp [other]

theorem eq_other {k k' : Access} (h : k' ≠ k) : k' = other k := by
  cases k <;> cases k' <;> first | rfl | exact absurd rfl h

/-- `rw_lock_t`, without its mutex and condition variables. -/
structure RwLock where
  /-- `dont_allow_readers` and `dont_allow_writers` -/
  dontAllow : Access → Bool
  nLocks : Nat
  /-- `n_reader_waiting` and `n_writer_waiting` -/
  nWaiting : Access → Nat
  /-- `is_locked_by_reader` and `is_locked_by_writer` -/
  isLockedBy : Access → Bool
  /-- `n_max_readers` and `n_max_writers` -/
  nMax : Access → Nat

namespace RwLock

/-- `rw_lock_init`, which leaves `n_locks` alone. -/
def init (m : RwLock) : RwLock where
  dontAllow _ := false
  nLocks := m.nLocks
  nWaiting _ := 0
  isLockedBy _ := false
  nMax
    | .reader => 0xFFFF
    | .writer => 1

/-- `rw_lock_set_max_readers_writers` -/
def setMaxReadersWriters (m : RwLock) (maxReaders maxWriters : UInt16) : RwLock :=
  { m with
    nMax
      | .reader => maxReaders.toNat
      | .writer => maxWriters.toNat }

/-- Case 1 of `rw_lock_rd_lock` and `rw_lock_wr_lock`. -/
def isUnlocked (m : RwLock) (k : Access) : Bool :=
  !m.isLockedBy .reader && !m.isLockedBy .writer && decide (1 ≤ m.nMax k) && !m.dontAllow k

/-- The condition of the loop of `rw_lock_rd_lock` and `rw_lock_wr_lock`. -/
def mustWait (m : RwLock) (k : Access) : Bool :=
  m.isLockedBy (other k) || m.nLocks == m.nMax k || m.dontAllow k

/-- `is_locked_by_reader = …` or `is_locked_by_writer = …` -/
def setLockedBy (m : RwLock) (k : Access) (b : Bool) : RwLock :=
  { m with isLockedBy := Function.update m.isLockedBy k b }

/-- `dont_allow_readers = …` or `dont_allow_writers = …` -/
def setDontAllow (m : RwLock) (k : Access) (b : Bool) : RwLock :=
  { m with dontAllow := Function.update m.dontAllow k b }

/-- `n_reader_waiting++` or `n_writer_waiting++` -/
def countWaiting (m : RwLock) (k : Access) : RwLock :=
  { m with nWaiting := Function.update m.nWaiting k (countUp 16 (m.nWaiting k)) }

/-- `n_reader_waiting--` or `n_writer_waiting--` -/
def uncountWaiting (m : RwLock) (k : Access) : RwLock :=
  { m with nWaiting := Function.update m.nWaiting k (countDown 16 (m.nWaiting k)) }

/-- `n_locks++` -/
def countLock (m : RwLock) : RwLock :=
  { m with nLocks := countUp 16 m.nLocks }

/-- `n_locks--` -/
def uncountLock (m : RwLock) : RwLock :=
  { m with nLocks := countDown 16 m.nLocks }

end RwLock

/-- What the thread that asked for the lock does at the end of a critical section. -/
inductive LockResult where
  /-- It waits. -/
  | waits (m : RwLock)
  /-- It has the lock. -/
  | granted (m : RwLock)

/-- `rw_lock_rd_lock` and `rw_lock_wr_lock` from the loop on: `none` when the assertion fails. -/
def lockLoop (k : Access) (m : RwLock) : Option LockResult :=
  if m.mustWait k then some (.waits (m.countWaiting k))
  else
    let m := if m.nLocks = 0 then m.setLockedBy k true else m
    let m := m.countLock
    if m.isLockedBy (other k) then none else some (.granted m)

/-- `rw_lock_rd_lock` and `rw_lock_wr_lock` up to the first wait: `none` when an assertion fails. -/
def lock (k : Access) (m : RwLock) : Option LockResult :=
  if m.isUnlocked k then
    if m.nLocks == 0 then some (.granted (m.countLock.setLockedBy k true)) else none
  else lockLoop k m

def rwLockRdLock (m : RwLock) : Option LockResult := lock .reader m

def rwLockWrLock (m : RwLock) : Option LockResult := lock .writer m

/-- `rw_lock_unlock` of a lock held by threads of kind `k`. -/
def unlockOf (k : Access) (m : RwLock) : Option (RwLock × List (Note Access)) :=
  if m.isLockedBy (other k) then none
  else
    let m := m.uncountLock
    if m.nLocks != 0 then
      -- replacement property: the slot goes to another thread of the same kind
      if m.nWaiting k != 0 then some (m, [.signal k]) else some (m, [])
    else if m.nWaiting (other k) != 0 then
      some (((m.setDontAllow k true).setDontAllow (other k) false).setLockedBy k false,
        [.broadcast (other k)])
    else if m.nWaiting k != 0 then
      some ((m.setDontAllow (other k) false).setLockedBy k false, [.broadcast k])
    else some ((m.setDontAllow (other k) false).setLockedBy k false, [])

/-- `rw_lock_unlock`: the lock afterwards and the notifications sent, `none` when an assertion
fails. -/
def rwLockUnlock (m : RwLock) : Option (RwLock × List (Note Access)) :=
  if m.nLocks == 0 then none
  else if m.isLockedBy .writer then unlockOf .writer m
  else if m.isLockedBy .reader then unlockOf .reader m
  else none

/-- A lock allocated with all bytes zero. -/
def zeroLock : RwLock where
  dontAllow _ := false
  nLocks := 0
  nWaiting _ := 0
  isLockedBy _ := false
  nMax _ := 0

/-- A lock ready for use. -/
def readyLock (maxReaders maxWriters : UInt16) : RwLock :=
  zeroLock.init.setMaxReadersWriters maxReaders maxWriters

/-- Where a thread is. -/
inductive AltLoc where
  /-- Without the lock, outside all calls. -/
  | idle
  /-- In the wait of the loop. -/
  | wait (k : Access)
  /-- In possession of the lock. -/
  | inside (k : Access)
  deriving DecidableEq

abbrev AltEffect := Effect RwLock Access AltLoc

/-- A thread waits or goes on. -/
def LockResult.effect (k : Access) : LockResult → AltEffect
  | .waits m => .done m [] (.waiting k (.wait k))
  | .granted m => .done m [] (.running (.inside k))

/-- What a thread does next.  A thread without the lock asks for it to do `x`. -/
def altExec (l : AltLoc) (x : Access) (m : RwLock) : AltEffect :=
  match l with
  | .idle =>
      match x with
      | .reader => .call (rwLockRdLock m) (LockResult.effect .reader)
      | .writer => .call (rwLockWrLock m) (LockResult.effect .writer)
  | .wait k => .call (lockLoop k (m.uncountWaiting k)) (LockResult.effect k)
  | .inside _ => .call (rwLockUnlock m) fun (m, notes) => .done m notes (.running .idle)

/-- Threads that use one lock. -/
def altProgram (τ : Type*) (spurious : Bool) : Program τ RwLock Access AltLoc Access where
  exec _ := altExec
  spuriousWakeups := spurious

abbrev AltConfig (τ : Type*) := Config τ RwLock Access AltLoc

/-- All runs of threads that lock and unlock one lock. -/
def altMachine (τ : Type*) [DecidableEq τ] [Fintype τ] (spurious : Bool)
    (maxReaders maxWriters : UInt16) : Machine (AltConfig τ) (Act τ Access) :=
  (altProgram τ spurious).machine fun s =>
    s.mem = readyLock maxReaders maxWriters ∧ ∀ t, s.thr t = .running .idle

/-- All threads are outside. -/
def startConfig (τ : Type*) (maxReaders maxWriters : UInt16) : AltConfig τ :=
  ⟨readyLock maxReaders maxWriters, fun _ => .running .idle⟩

theorem startConfig_init {τ : Type*} [DecidableEq τ] [Fintype τ] {spurious : Bool}
    {maxReaders maxWriters : UInt16} :
    (altMachine τ spurious maxReaders maxWriters).init (startConfig τ maxReaders maxWriters) :=
  ⟨rfl, fun _ => rfl⟩

end AltLock
end MultithreadingBible
