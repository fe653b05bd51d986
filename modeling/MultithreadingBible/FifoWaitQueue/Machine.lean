import MultithreadingBible.GlueThread.Represent
import MultithreadingBible.Lib.CondVar
import MultithreadingBible.Lib.Counter
import MultithreadingBible.Lib.History

/-!
# FIFO wait queues

The wait queue of `section_thread_wait_queues`.  In its FIFO mode every blocked thread waits on a
condition variable of its own, a `cv_t`, and `fifo_thread_q` links the `cv_t`s of the blocked threads.
A signal takes the first of them off the list, and a thread that wakes up takes its own off the list if
it is still there.

* `WaitQueue` — the fields of `wait_queue_t`.  Its list head is a cell in the heap.
* `waitQueueBlock` / `waitQueueResume` — the loop of `wait_queue_test_and_wait` up to and after its
  wait.
* `waitQueueSignal` / `waitQueueBroadcast` — the notifications they send.
* `fifoMachine` — threads that use one FIFO wait queue.  All calls hold the application mutex, so each
  is one step; what the application's function answers is the scheduler's choice.

The memory has a history of who blocked, who was signalled and who resumed.  The code does not read it.
-/

namespace MultithreadingBible
namespace FifoWaitQueue

open Lib GlueThread

/-- `wait_queue_t`, without its condition variable and its list head.  Of the cached mutex only whether
it is set matters, as there is one. -/
structure WaitQueue where
  threadWaitCount : Nat
  applnMutex : Bool
  isFifoEnabled : Bool

/-- The head of `fifo_thread_q`, and the `glue` of the `cv_t` a thread uses. -/
inductive WqAddr (τ : Type*) where
  | fifoThreadQ
  | glue (t : τ)
  deriving DecidableEq

/-- The condition variable of the queue, and that of the `cv_t` with a given `glue`. -/
inductive WqCv (τ : Type*) where
  | queue
  | thread (glue : WqAddr τ)
  deriving DecidableEq

def waitQueueInit (isFifo : Bool) : WaitQueue where
  threadWaitCount := 0
  applnMutex := false
  isFifoEnabled := isFifo

/-- `wq->appln_mutex = locked_appln_mutex` -/
def WaitQueue.cacheMutex (wq : WaitQueue) : WaitQueue := { wq with applnMutex := true }

/-- `wq->thread_wait_count++` -/
def WaitQueue.countUp (wq : WaitQueue) : WaitQueue :=
  { wq with threadWaitCount := Lib.countUp 32 wq.threadWaitCount }

/-- `wq->thread_wait_count--` -/
def WaitQueue.countDown (wq : WaitQueue) : WaitQueue :=
  { wq with threadWaitCount := Lib.countDown 32 wq.threadWaitCount }

/-- What happens to a thread at a wait queue. -/
inductive WqEventKind where
  /-- It blocked. -/
  | blocked
  /-- Its condition variable was taken off the list and signalled. -/
  | signalled
  /-- It woke up and has the mutex again. -/
  | resumed
  deriving DecidableEq

/-- Where a thread is. -/
inductive WqLoc where
  /-- Outside all calls. -/
  | idle
  /-- In the wait of `wait_queue_test_and_wait`. -/
  | wait
  deriving DecidableEq

/-- What a thread calls, with the answer of the application's function where it is asked. -/
inductive WqCall where
  | testAndWait (shouldBlock : Bool)
  | signal (lockMutex : Bool)
  | broadcast (lockMutex : Bool)

/-- A wait queue, the cells, and the history of the threads. -/
structure WqMem (τ : Type*) where
  wq : WaitQueue
  heap : Heap (WqAddr τ)
  log : List (Event τ WqEventKind)

abbrev WqEffect (τ : Type*) := Effect (WqMem τ) (WqCv τ) WqLoc

variable {τ : Type*}

/-- The thread whose condition variable is signalled. -/
def signalEvent : Note (WqCv τ) → Option (Event τ WqEventKind)
  | .signal (.thread (.glue t)) => some ⟨t, .signalled⟩
  | _ => none

variable [DecidableEq τ]

section Functions

/-- A pass through the loop of `wait_queue_test_and_wait` up to its wait: the queue, the heap and the
condition variable the thread waits on.  In its `first` pass the thread gets a new `cv_t`. -/
def waitQueueBlock (fuel : Nat) (wq : WaitQueue) (hp : Heap (WqAddr τ)) (t : τ) (first : Bool) :
    Option (WaitQueue × Heap (WqAddr τ) × WqCv τ) :=
  if wq.isFifoEnabled then
    let hp := if first then initGlthread hp (.glue t) else hp
    (glthreadAddLast fuel hp .fifoThreadQ (.glue t)).map fun hp => (wq.countUp, hp, .thread (.glue t))
  else some (wq.countUp, hp, .queue)

/-- The loop of `wait_queue_test_and_wait` after its wait. -/
def waitQueueResume (wq : WaitQueue) (hp : Heap (WqAddr τ)) (t : τ) :
    WaitQueue × Heap (WqAddr τ) :=
  let hp := if wq.isFifoEnabled then removeGlthread hp (.glue t) else hp
  (wq.countDown, hp)

/-- `wait_queue_signal`: the notification it sends, and the heap. -/
def waitQueueSignal (wq : WaitQueue) (hp : Heap (WqAddr τ)) :
    List (Note (WqCv τ)) × Heap (WqAddr τ) :=
  if !wq.applnMutex then ([], hp)
  else if wq.threadWaitCount == 0 then ([], hp)
  else if wq.isFifoEnabled then
    match dequeueGlthreadFirst hp .fifoThreadQ with
    | (none, hp) => ([], hp)
    | (some glnode, hp) => ([.signal (.thread glnode)], hp)
  else ([.signal .queue], hp)

/-- The loop of `wait_queue_broadcast`. -/
def broadcastLoop : Nat → Heap (WqAddr τ) → Option (List (Note (WqCv τ)) × Heap (WqAddr τ))
  | 0, hp =>
      match dequeueGlthreadFirst hp .fifoThreadQ with
      | (none, hp) => some ([], hp)
      | (some _, _) => none
  | fuel + 1, hp =>
      match dequeueGlthreadFirst hp .fifoThreadQ with
      | (none, hp) => some ([], hp)
      | (some glnode, hp) =>
          (broadcastLoop fuel hp).map fun r => (.signal (.thread glnode) :: r.1, r.2)

/-- `wait_queue_broadcast`: the notifications it sends, and the heap. -/
def waitQueueBroadcast (fuel : Nat) (wq : WaitQueue) (hp : Heap (WqAddr τ)) :
    Option (List (Note (WqCv τ)) × Heap (WqAddr τ)) :=
  if !wq.applnMutex then some ([], hp)
  else if wq.threadWaitCount == 0 then some ([], hp)
  else if wq.isFifoEnabled then broadcastLoop fuel hp
  else some ([.broadcast .queue], hp)

end Functions

variable [Fintype τ]

/-- The loop of `wait_queue_test_and_wait`. -/
def fifoLoop (t : τ) (first shouldBlock : Bool) (m : WqMem τ) : WqEffect τ :=
  if shouldBlock then
    .call (waitQueueBlock (Fintype.card τ) m.wq m.heap t first) fun (wq, hp, c) =>
      .done ⟨wq, hp, m.log ++ [⟨t, .blocked⟩]⟩ [] (.waiting c .wait)
  else .done m [] (.running .idle)

/-- What a thread does next. -/
def fifoExec (t : τ) (l : WqLoc) (x : WqCall) (m : WqMem τ) : WqEffect τ :=
  match l, x with
  | .idle, .testAndWait shouldBlock =>
      fifoLoop t true shouldBlock { m with wq := m.wq.cacheMutex }
  | .idle, .signal _ =>
      let (notes, hp) := waitQueueSignal m.wq m.heap
      .done ⟨m.wq, hp, m.log ++ notes.filterMap signalEvent⟩ notes (.running .idle)
  | .idle, .broadcast _ =>
      .call (waitQueueBroadcast (Fintype.card τ) m.wq m.heap) fun (notes, hp) =>
        .done ⟨m.wq, hp, m.log ++ notes.filterMap signalEvent⟩ notes (.running .idle)
  | .wait, .testAndWait shouldBlock =>
      let (wq, hp) := waitQueueResume m.wq m.heap t
      fifoLoop t false shouldBlock ⟨wq, hp, m.log ++ [⟨t, .resumed⟩]⟩
  | .wait, _ => .blocked

/-- Threads that use one wait queue. -/
def fifoProgram (spurious : Bool) : Program τ (WqMem τ) (WqCv τ) WqLoc WqCall where
  exec := fifoExec
  spuriousWakeups := spurious

abbrev WqConfig (τ : Type*) := Config τ (WqMem τ) (WqCv τ) WqLoc

/-- Nobody has used the queue yet. -/
def freshFifoQueue (τ : Type*) : WqConfig τ :=
  ⟨⟨waitQueueInit true, fun _ => Glthread.null, []⟩, fun _ => .running .idle⟩

/-- All runs of threads that use one FIFO wait queue. -/
def fifoMachine (spurious : Bool) : Machine (WqConfig τ) (Act τ WqCall) :=
  (fifoProgram spurious).machine fun s => s = freshFifoQueue τ

/-- The threads that have blocked, have not been signalled through the queue since and have not resumed,
in the order in which they blocked last. -/
def waitingThreads (log : List (Event τ WqEventKind)) : List τ :=
  standing (fun k => k == .blocked) log

/-- The threads that were signalled through the queue and have not resumed. -/
def signalledThreads (log : List (Event τ WqEventKind)) : List τ :=
  standing (fun k => k == .signalled) log

end FifoWaitQueue
end MultithreadingBible
