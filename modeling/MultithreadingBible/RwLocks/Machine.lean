import MultithreadingBible.Lib.CondVar
import MultithreadingBible.Lib.Counter

/-!
# Customisable reader-writer lock

A lock that admits up to `n_max_readers` readers or up to `n_max_writers` writers and can be biased
towards one of them.  Every function runs under the lock's one mutex, so a step is a piece of a
function between two waits.

* `RwLock` — the fields of `rw_lock_t` and the functions that change them.
* `rwExec` — what a thread does from each location.
* `rwMachine` — all interleavings.

The `uint16_t` fields are natural numbers with explicit wrap-around.
-/

namespace MultithreadingBible
namespace RwLocks

open Lib

/-- `RW_LOCK_BIASEDNESS_NEUTRAL` to `RW_LOCK_BIASEDNESS_OPPOSITE` -/
inductive Biasedness where
  | neutral
  | readers
  | writers
  | opposite
  deriving DecidableEq

/-- The condition variables of a lock. -/
inductive RwCv where
  | cv
  | cvReaders
  | cvWriters
  deriving DecidableEq

/-- `rw_lock_t`, without its mutex and condition variables. -/
structure RwLock where
  nLocks : Nat
  nReaderWaiting : Nat
  nWriterWaiting : Nat
  isLockedByReader : Bool
  isLockedByWriter : Bool
  nMaxReaders : Nat
  nMaxWriters : Nat
  biasedness : Biasedness
  whoUsedCs : Bool

/-- Whether a thread wants the lock to read or to write. -/
inductive Access where
  | reader
  | writer
  deriving DecidableEq

/-- Where a thread is. -/
inductive RwLoc where
  /-- Without the lock, outside all calls. -/
  | idle
  /-- In the wait of `rw_lock_block_reader_thread` or `rw_lock_block_writer_thread`, in the case for
  the bias `b`. -/
  | wait (k : Access) (b : Biasedness)
  /-- In possession of the lock. -/
  | inside (k : Access)
  deriving DecidableEq

/-- A lock allocated with all bytes zero. -/
def zeroLock : RwLock where
  nLocks := 0
  nReaderWaiting := 0
  nWriterWaiting := 0
  isLockedByReader := false
  isLockedByWriter := false
  nMaxReaders := 0
  nMaxWriters := 0
  biasedness := .neutral
  whoUsedCs := false

namespace RwLock

/-- `rw_lock_init`, which leaves `n_locks` alone. -/
def init (m : RwLock) : RwLock :=
  { m with
    nReaderWaiting := 0
    nWriterWaiting := 0
    isLockedByReader := false
    isLockedByWriter := false
    nMaxReaders := 0xFFFF
    nMaxWriters := 1
    biasedness := .neutral
    whoUsedCs := true }

/-- `rw_lock_set_max_readers_writers` -/
def setMaxReadersWriters (m : RwLock) (maxReaders maxWriters : UInt16) : RwLock :=
  { m with nMaxReaders := maxReaders.toNat, nMaxWriters := maxWriters.toNat }

/-- `rw_lock_set_biasedness` -/
def setBiasedness (m : RwLock) (b : Biasedness) : RwLock :=
  { m with biasedness := b }

/-- `rw_lock_was_cs_used_by_reader_last_time` -/
def wasCsUsedByReaderLastTime (m : RwLock) : Bool := m.whoUsedCs

/-- `rw_lock_was_cs_used_by_writer_last_time` -/
def wasCsUsedByWriterLastTime (m : RwLock) : Bool := !m.whoUsedCs

/-- Whether one of the two loops of `rw_lock_rd_lock` or `rw_lock_wr_lock` blocks the thread. -/
def mustWait (m : RwLock) : Access → Bool
  | .reader =>
      (m.isLockedByWriter || m.nLocks == m.nMaxReaders) ||
        (m.nLocks == 0 && m.nWriterWaiting != 0 && m.biasedness == .opposite &&
          m.wasCsUsedByReaderLastTime)
  | .writer =>
      (m.isLockedByReader || m.nLocks == m.nMaxWriters) ||
        (m.nLocks == 0 && m.nReaderWaiting != 0 && m.biasedness == .opposite &&
          m.wasCsUsedByWriterLastTime)

/-- The end of `rw_lock_rd_lock` and `rw_lock_wr_lock`. -/
def enter (m : RwLock) : Access → RwLock
  | .reader =>
      { m with
        isLockedByReader := m.isLockedByReader || m.nLocks == 0
        nLocks := countUp 16 m.nLocks }
  | .writer =>
      { m with
        isLockedByWriter := m.isLockedByWriter || m.nLocks == 0
        nLocks := countUp 16 m.nLocks }

/-- `n_reader_waiting++` or `n_writer_waiting++` -/
def countWaiting (m : RwLock) : Access → RwLock
  | .reader => { m with nReaderWaiting := countUp 16 m.nReaderWaiting }
  | .writer => { m with nWriterWaiting := countUp 16 m.nWriterWaiting }

/-- `n_reader_waiting--` or `n_writer_waiting--` -/
def uncountWaiting (m : RwLock) : Access → RwLock
  | .reader => { m with nReaderWaiting := countDown 16 m.nReaderWaiting }
  | .writer => { m with nWriterWaiting := countDown 16 m.nWriterWaiting }

end RwLock

/-- The condition variable a thread is sent to: `none` where the `switch` ends in an assertion
failure. -/
def blockCv (k : Access) (b : Biasedness) : Option RwCv :=
  match k, b with
  | _, .neutral => some .cv
  | .reader, .readers => some .cvReaders
  | .reader, .writers => none
  | .writer, .readers => none
  | .writer, .writers => some .cvWriters
  | _, .opposite => none

/-- Whether control falls from the end of a wait into the next `case`, which fails an assertion: the
case `RW_LOCK_BIASEDNESS_WRITERS` of `rw_lock_block_writer_thread` has no `break`. -/
def fallsThrough (k : Access) (b : Biasedness) : Bool :=
  match k, b with
  | .writer, .writers => true
  | _, _ => false

/-- `pthread_cond_broadcast` or `pthread_cond_signal` -/
def notify (broadcast : Bool) (c : RwCv) : Note RwCv :=
  if broadcast then .broadcast c else .signal c

def rwLockSignal (m : RwLock) (broadcast exitThreadIsReader : Bool) : List (Note RwCv) :=
  if m.nReaderWaiting == 0 && m.nWriterWaiting == 0 then []
  else
    match m.biasedness with
    | .neutral => [.broadcast .cv]
    | .readers =>
        if m.nReaderWaiting != 0 then [notify broadcast .cvReaders]
        else if broadcast then [.broadcast .cvWriters]
        else [.signal .cvReaders]
    | .writers =>
        if m.nWriterWaiting != 0 then [notify broadcast .cvWriters]
        else [notify broadcast .cvReaders]
    | .opposite =>
        if exitThreadIsReader then
          if m.nWriterWaiting != 0 then [notify broadcast .cvWriters]
          else [notify broadcast .cvReaders]
        else
          if m.nReaderWaiting != 0 then [notify broadcast .cvReaders]
          else if broadcast then [.broadcast .cvWriters]
          else [.signal .cvReaders]

/-- `rw_lock_unlock`: the lock afterwards and the notifications sent, `none` when its assertion
fails. -/
def rwLockUnlock (m : RwLock) : Option (RwLock × List (Note RwCv)) :=
  if m.nLocks == 0 then none
  else
    let m := { m with nLocks := countDown 16 m.nLocks }
    if m.isLockedByWriter then
      if m.nLocks == 0 then
        let m := { m with isLockedByWriter := false, whoUsedCs := false }
        some (m, rwLockSignal m true false)
      else if m.nWriterWaiting != 0 then
        if m.biasedness == .neutral then some (m, rwLockSignal m true false)
        else some (m, [.signal .cvWriters])
      else some (m, [])
    else if m.isLockedByReader then
      if m.nLocks == 0 then
        let m := { m with isLockedByReader := false, whoUsedCs := true }
        some (m, rwLockSignal m true true)
      else if m.nReaderWaiting != 0 then
        if m.biasedness == .neutral then some (m, rwLockSignal m true true)
        else some (m, [.signal .cvReaders])
      else some (m, [])
    else some (m, [])

abbrev RwEffect := Effect RwLock RwCv RwLoc

/-- `rw_lock_rd_lock` and `rw_lock_wr_lock` from `EVALUATE_ALL_CONDNS_AGAIN` on. -/
def lockLoop (k : Access) (m : RwLock) : RwEffect :=
  if m.mustWait k then
    .call (blockCv k m.biasedness) fun c =>
      .done (m.countWaiting k) [] (.waiting c (.wait k m.biasedness))
  else .done (m.enter k) [] (.running (.inside k))

/-- What a thread does next.  A thread without the lock asks for it to do `x`. -/
def rwExec (l : RwLoc) (x : Access) (m : RwLock) : RwEffect :=
  match l with
  | .idle => lockLoop x m
  | .wait k b =>
      let m := m.uncountWaiting k
      if fallsThrough k b then .abort else lockLoop k m
  | .inside _ =>
      .call (rwLockUnlock m) fun (m, notes) => .done m notes (.running .idle)

/-- Threads that use one lock. -/
def rwProgram (τ : Type*) (spurious : Bool) : Program τ RwLock RwCv RwLoc Access where
  exec _ := rwExec
  spuriousWakeups := spurious

abbrev RwConfig (τ : Type*) := Config τ RwLock RwCv RwLoc

/-- A lock ready for use. -/
def readyLock (b : Biasedness) (maxReaders maxWriters : UInt16) : RwLock :=
  (zeroLock.init.setMaxReadersWriters maxReaders maxWriters).setBiasedness b

/-- All runs of threads that lock and unlock one lock. -/
def rwMachine (τ : Type*) [DecidableEq τ] [Fintype τ] (spurious : Bool) (b : Biasedness)
    (maxReaders maxWriters : UInt16) : Machine (RwConfig τ) (Act τ Access) :=
  (rwProgram τ spurious).machine fun s =>
    s.mem = readyLock b maxReaders maxWriters ∧ ∀ t, s.thr t = .running .idle

/-- All threads are outside. -/
def startConfig (τ : Type*) (b : Biasedness) (maxReaders maxWriters : UInt16) : RwConfig τ :=
  ⟨readyLock b maxReaders maxWriters, fun _ => .running .idle⟩

theorem startConfig_init {τ : Type*} [DecidableEq τ] [Fintype τ] {spurious : Bool} {b : Biasedness}
    {maxReaders maxWriters : UInt16} :
    (rwMachine τ spurious b maxReaders maxWriters).init (startConfig τ b maxReaders maxWriters) :=
  ⟨rfl, fun _ => rfl⟩

end RwLocks
end MultithreadingBible
