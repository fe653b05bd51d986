import MultithreadingBible.Lib.CondVar
import MultithreadingBible.Lib.Counter

/-!
# Wait queues that cache a mutex

The wait queues the map-reduce library and the traffic light are built on.  A queue learns the mutex
of its application when a thread first tests its condition.

* `waitQueueBroadcast` — a broadcast by a caller that has locked the mutex itself (`lock_mutex` is false).
* `WaitQueue.countUp` / `WaitQueue.countDown` — the counting around the wait of
  `wait_queue_test_and_wait`.  Its test depends on the application.
-/

namespace MultithreadingBible
namespace MapReduceLib

open Lib

/-- `wait_queue_t`, without its condition variable; the mutexes of the application are `M`. -/
structure WaitQueue (M : Type*) where
  threadWaitCount : Nat
  applnMutex : Option M

section Functions

variable {M κ : Type*}

def waitQueueInit : WaitQueue M where
  threadWaitCount := 0
  applnMutex := none

/-- `wq->appln_mutex = locked_appln_mutex` -/
def WaitQueue.cacheMutex (wq : WaitQueue M) (lockedApplnMutex : M) : WaitQueue M :=
  { wq with applnMutex := some lockedApplnMutex }

/-- `thread_wait_count++` -/
def WaitQueue.countUp (wq : WaitQueue M) : WaitQueue M :=
  { wq with threadWaitCount := Lib.countUp 32 wq.threadWaitCount }

/-- `thread_wait_count--` -/
def WaitQueue.countDown (wq : WaitQueue M) : WaitQueue M :=
  { wq with threadWaitCount := Lib.countDown 32 wq.threadWaitCount }

/-- What `wait_queue_broadcast` sends to the condition variable `cv` of the queue. -/
def waitQueueBroadcast (wq : WaitQueue M) (cv : κ) : List (Note κ) :=
  if wq.applnMutex.isNone then []
  else if wq.threadWaitCount = 0 then []
  else [.broadcast cv]

end Functions

section Specs

variable {M κ : Type*} {wq : WaitQueue M} {mutex : M} {cv : κ}

@[simp] theorem cacheMutex_applnMutex : (wq.cacheMutex mutex).applnMutex = some mutex := rfl

@[simp] theorem cacheMutex_threadWaitCount :
    (wq.cacheMutex mutex).threadWaitCount = wq.threadWaitCount := rfl

@[simp] theorem countUp_applnMutex : wq.countUp.applnMutex = wq.applnMutex := rfl

@[simp] theorem countDown_applnMutex : wq.countDown.applnMutex = wq.applnMutex := rfl

/-- A queue that knows its mutex and has counted a thread sends a broadcast. -/
theorem waitQueueBroadcast_eq (cv : κ) (hmutex : wq.applnMutex.isSome = true)
    (hcount : wq.threadWaitCount ≠ 0) :
    waitQueueBroadcast wq cv = [.broadcast cv] := by
  unfold waitQueueBroadcast
  rw [if_neg, if_neg hcount]
  rw [Option.isNone_iff_eq_none, ← Option.not_isSome_iff_eq_none]
  exact not_not.mpr hmutex

end Specs

end MapReduceLib
end MultithreadingBible
