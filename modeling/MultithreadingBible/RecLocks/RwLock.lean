import MultithreadingBible.RwLocks.Machine

/-!
# Recursive reader-writer lock

A lock that any number of readers may hold, each of them several times, or one writer, also several
times.  `n_locks` counts the holds in both cases; only a writer is known by name.

* `RwLock` — the fields of `rw_lock_t`.
* `rwLockRdLock`, `rwLockWrLock`, `rwLockUnlock` — the functions of the lock.
* `recMachine` — all interleavings of threads that unlock what they hold.

`pthread_self()` is the thread itself, and a `writer_thread` of 0 is `none`.
-/

namespace MultithreadingBible
namespace RecLocks

open Lib
open RwLocks (Access)

/-- `rw_lock_t`, without its mutex and condition variable. -/
structure RwLock (τ : Type*) where
  nLocks : Nat
  nReaderWaiting : Nat
  nWriterWaiting : Nat
  isLockedByReader : Bool
  isLockedByWriter : Bool
  writerThread : Option τ

variable {τ : Type*}

namespace RwLock

/-- `rw_lock_init`, which leaves `n_locks` alone. -/
def init (m : RwLock τ) : RwLock τ :=
  { m with
    nReaderWaiting := 0
    nWriterWaiting := 0
    isLockedByReader := false
    isLockedByWriter := false
    writerThread := none }

/-- `n_reader_waiting++` or `n_writer_waiting++` -/
def countWaiting (m : RwLock τ) : Access → RwLock τ
  | .reader => { m with nReaderWaiting := countUp 16 m.nReaderWaiting }
  | .writer => { m with nWriterWaiting := countUp 16 m.nWriterWaiting }

/-- `n_reader_waiting--` or `n_writer_waiting--` -/
def uncountWaiting (m : RwLock τ) : Access → RwLock τ
  | .reader => { m with nReaderWaiting := countDown 16 m.nReaderWaiting }
  | .writer => { m with nWriterWaiting := countDown 16 m.nWriterWaiting }

end RwLock

/-- What the thread that asked for the lock does at the end of a critical section. -/
inductive LockResult (τ : Type*) where
  /-- It waits. -/
  | waits (m : RwLock τ)
  /-- It has the lock. -/
  | granted (m : RwLock τ)

/-- Case 3 of `rw_lock_rd_lock`: `none` when an assertion fails. -/
def rdLockLoop (m : RwLock τ) : Option (LockResult τ) :=
  if m.isLockedByWriter then
    if m.nLocks != 0 && !m.isLockedByReader && m.writerThread.isSome then
      some (.waits (m.countWaiting .reader))
    else none
  else
    let m := if m.nLocks == 0 then { m with isLockedByReader := true } else m
    let m := { m with nLocks := countUp 16 m.nLocks }
    if !m.isLockedByWriter && m.writerThread.isNone then some (.granted m) else none

/-- `rw_lock_rd_lock` up to the first wait: `none` when an assertion fails. -/
def rwLockRdLock (m : RwLock τ) : Option (LockResult τ) :=
  if !m.isLockedByReader && !m.isLockedByWriter then
    if m.nLocks == 0 && m.writerThread.isNone then
      some (.granted { m with nLocks := countUp 16 m.nLocks, isLockedByReader := true })
    else none
  else if m.isLockedByReader then
    if !m.isLockedByWriter && m.nLocks != 0 && m.writerThread.isNone then
      some (.granted { m with nLocks := countUp 16 m.nLocks })
    else none
  else rdLockLoop m

/-- Case 3 of `rw_lock_wr_lock`: `none` when an assertion fails. -/
def wrLockLoop (self : τ) (m : RwLock τ) : Option (LockResult τ) :=
  if m.isLockedByReader || m.isLockedByWriter then
    let sane :=
      if m.isLockedByReader then !m.isLockedByWriter && m.nLocks != 0 && m.writerThread.isNone
      else !m.isLockedByReader && m.nLocks != 0 && m.writerThread.isSome
    if sane then some (.waits (m.countWaiting .writer)) else none
  else if m.nLocks == 0 && m.writerThread.isNone then
    some (.granted
      { m with
        isLockedByWriter := true
        nLocks := countUp 16 m.nLocks
        writerThread := some self })
  else none

section Code

variable [DecidableEq τ]

/-- `rw_lock_wr_lock` up to the first wait: `none` when an assertion fails. -/
def rwLockWrLock (self : τ) (m : RwLock τ) : Option (LockResult τ) :=
  if !m.isLockedByReader && !m.isLockedByWriter then
    if m.nLocks == 0 && m.writerThread.isNone then
      some (.granted
        { m with
          nLocks := countUp 16 m.nLocks
          isLockedByWriter := true
          writerThread := some self })
    else none
  else if m.isLockedByWriter && m.writerThread == some self then
    if !m.isLockedByReader && m.nLocks != 0 then
      some (.granted { m with nLocks := countUp 16 m.nLocks })
    else none
  else wrLockLoop self m

/-- `pthread_cond_broadcast`, if anybody waits. -/
def wakeAll (m : RwLock τ) : List (Note Unit) :=
  if m.nReaderWaiting != 0 || m.nWriterWaiting != 0 then [.broadcast ()] else []

/-- `rw_lock_unlock`: the lock afterwards and the notifications sent, `none` when an assertion
fails. -/
def rwLockUnlock (self : τ) (m : RwLock τ) : Option (RwLock τ × List (Note Unit)) :=
  if m.nLocks == 0 then none
  else if m.isLockedByWriter then
    if m.writerThread == some self && !m.isLockedByReader then
      let m := { m with nLocks := countDown 16 m.nLocks }
      if m.nLocks != 0 then some (m, [])
      else some ({ m with isLockedByWriter := false, writerThread := none }, wakeAll m)
    else none
  else if m.isLockedByReader then
    if !m.isLockedByWriter && m.writerThread.isNone then
      let m := { m with nLocks := countDown 16 m.nLocks }
      if m.nLocks != 0 then some (m, []) else some ({ m with isLockedByReader := false }, wakeAll m)
    else none
  else none

/-- Where a thread is, and how often it holds the lock to read and to write. -/
inductive RecLoc where
  /-- Outside all calls. -/
  | ready (reads writes : Nat)
  /-- In the wait of a call that asks for `k`. -/
  | wait (k : Access) (reads writes : Nat)
  deriving DecidableEq

/-- What a thread outside all calls calls. -/
inductive RecCall where
  | lock (k : Access)
  | unlock

abbrev RecEffect (τ : Type*) := Effect (RwLock τ) Unit RecLoc

/-- A thread with one hold more. -/
def afterGrant (k : Access) (reads writes : Nat) : RecLoc :=
  match k with
  | .reader => .ready (reads + 1) writes
  | .writer => .ready reads (writes + 1)

/-- A thread with one hold less. -/
def afterUnlock (reads writes : Nat) : RecLoc :=
  if reads = 0 then .ready reads (writes - 1) else .ready (reads - 1) writes

/-- A thread waits or goes on. -/
def LockResult.effect (k : Access) (reads writes : Nat) : LockResult τ → RecEffect τ
  | .waits m => .done m [] (.waiting () (.wait k reads writes))
  | .granted m => .done m [] (.running (afterGrant k reads writes))

/-- What a thread does next.  It unlocks only what it holds. -/
def recExec (t : τ) (l : RecLoc) (x : RecCall) (m : RwLock τ) : RecEffect τ :=
  match l with
  | .ready reads writes =>
      match x with
      | .lock .reader => .call (rwLockRdLock m) (LockResult.effect .reader reads writes)
      | .lock .writer => .call (rwLockWrLock t m) (LockResult.effect .writer reads writes)
      | .unlock =>
          if reads + writes = 0 then .blocked
          else
            .call (rwLockUnlock t m) fun (m, notes) =>
              .done m notes (.running (afterUnlock reads writes))
  | .wait .reader reads writes =>
      .call (rdLockLoop (m.uncountWaiting .reader)) (LockResult.effect .reader reads writes)
  | .wait .writer reads writes =>
      .call (wrLockLoop t (m.uncountWaiting .writer)) (LockResult.effect .writer reads writes)

/-- Threads that use one lock. -/
def recProgram (τ : Type*) [DecidableEq τ] (spurious : Bool) :
    Program τ (RwLock τ) Unit RecLoc RecCall where
  exec := recExec
  spuriousWakeups := spurious

end Code

abbrev RecConfig (τ : Type*) := Config τ (RwLock τ) Unit RecLoc

/-- A lock allocated with all bytes zero. -/
def zeroLock (τ : Type*) : RwLock τ := ⟨0, 0, 0, false, false, none⟩

/-- A lock ready for use, which nobody holds. -/
def freshLock (τ : Type*) : RecConfig τ :=
  ⟨(zeroLock τ).init, fun _ => .running (.ready 0 0)⟩

/-- All runs of threads that lock and unlock one lock. -/
def recMachine (τ : Type*) [DecidableEq τ] [Fintype τ] (spurious : Bool) :
    Machine (RecConfig τ) (Act τ RecCall) :=
  (recProgram τ spurious).machine fun s => s = freshLock τ

/-- The holds of a thread, to read and to write. -/
def RecLoc.holds : RecLoc → Access → Nat
  | .ready reads _, .reader | .wait _ reads _, .reader => reads
  | .ready _ writes, .writer | .wait _ _ writes, .writer => writes

/-- The acquisitions that were not given back yet. -/
def outstanding [Fintype τ] (s : RecConfig τ) : Nat :=
  tally s.thr fun l => l.holds .reader + l.holds .writer

/-- A step does not take the number of outstanding acquisitions to `2 ^ 16`. -/
def staysFew [DecidableEq τ] [Fintype τ] (spurious : Bool) (s : RecConfig τ) (a : Act τ RecCall) :
    Bool :=
  match (recProgram τ spurious).step s a with
  | .next s' => decide (outstanding s' < 65536)
  | _ => true

end RecLocks
end MultithreadingBible
