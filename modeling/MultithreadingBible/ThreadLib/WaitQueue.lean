import MultithreadingBible.GlueThread.Represent
import MultithreadingBible.Lib.CondVar
import MultithreadingBible.Lib.Counter

/-!
# Wait queues

A wait queue blocks threads until a function of the application says otherwise.  In its common mode
all of them wait on one condition variable; in its priority mode each waits on its own, and a list
keeps the order in which they are to be woken.

* `WaitQueue` — the fields of `wait_queue_t`.  Its list head is a cell in the heap.
* `waitQueueTest` — the assertions of `wait_queue_test_and_wait` before its loop, and the mutex it
  catches there.
* `waitQueueBlock` / `waitQueueResume` — the loop of `wait_queue_test_and_wait` up to and after its
  wait.
* `waitQueueSignal` / `waitQueueBroadcast` — the notifications they send.

The functions are generic in the addresses of cells, so that a monitor can keep its queues and its own
list in one heap.
-/

namespace MultithreadingBible
namespace ThreadLib

open Lib GlueThread

/-- `wait_queue_t`, without its list head, condition variable and comparison function. -/
structure WaitQueue (M : Type*) where
  priorityFlag : Bool
  threadWaitCount : Nat
  applnMutex : Option M
  autoUnlockApplnMutex : Bool

/-- The condition variable of the queue with a given head, and that of the thread with a given
`wait_glue`. -/
inductive WqCv (A : Type*) where
  | queue (head : A)
  | thread (waitGlue : A)
  deriving DecidableEq

section Functions

variable {M : Type*}

def waitQueueInit (priorityFlag : Bool) : WaitQueue M where
  priorityFlag := priorityFlag
  threadWaitCount := 0
  applnMutex := none
  autoUnlockApplnMutex := true

def waitQueueSetAutoUnlockApplnMutex (wq : WaitQueue M) (state : Bool) : WaitQueue M :=
  { wq with autoUnlockApplnMutex := state }

/-- `wq->appln_mutex = locked_appln_mutex` -/
def WaitQueue.cacheMutex (wq : WaitQueue M) (lockedApplnMutex : M) : WaitQueue M :=
  { wq with applnMutex := some lockedApplnMutex }

/-- `thread_wait_count++` -/
def WaitQueue.countUp (wq : WaitQueue M) : WaitQueue M :=
  { wq with threadWaitCount := Lib.countUp 32 wq.threadWaitCount }

/-- `thread_wait_count--` -/
def WaitQueue.countDown (wq : WaitQueue M) : WaitQueue M :=
  { wq with threadWaitCount := Lib.countDown 32 wq.threadWaitCount }

/-- `wait_queue_test_and_wait` between the first answer of the application's function, which came with
`lockedApplnMutex`, and the loop. -/
def waitQueueTest {τ : Type*} [DecidableEq M] (wq : WaitQueue M) (currThread : Option τ)
    (lockedApplnMutex : Option M) : Option (WaitQueue M) :=
  if wq.priorityFlag && currThread.isNone then none
  else
    match lockedApplnMutex, wq.applnMutex with
    | none, _ => none
    | some locked, none => some (wq.cacheMutex locked)
    | some locked, some cached => if cached = locked then some wq else none

variable {A : Type*} [DecidableEq A]

/-- A pass through the loop of `wait_queue_test_and_wait` up to its wait: the queue, the heap and the
condition variable the thread waits on. -/
def waitQueueBlock (compFn : A → A → Int) (fuel : Nat) (wq : WaitQueue M) (hp : Heap A)
    (head waitGlue : A) : Option (WaitQueue M × Heap A × WqCv A) :=
  if wq.applnMutex.isNone then none
  else
    let wq := wq.countUp
    if !wq.priorityFlag then some (wq, hp, .queue head)
    else
      (glthreadPriorityInsert fuel compFn hp head waitGlue).map fun hp =>
        (wq, hp, .thread waitGlue)

/-- The loop of `wait_queue_test_and_wait` after its wait. -/
def waitQueueResume (wq : WaitQueue M) (hp : Heap A) (waitGlue : A) : WaitQueue M × Heap A :=
  let wq := wq.countDown
  (wq, if wq.priorityFlag then removeGlthread hp waitGlue else hp)

/-- What `wait_queue_test_and_wait` returns to `currThread`, which `blocked` or did not: in the common
mode nothing is known about who was woken. -/
def waitQueueReturn {τ : Type*} (wq : WaitQueue M) (blocked : Bool) (currThread : τ) : Option τ :=
  if blocked && !wq.priorityFlag then none else some currThread

/-- The notification `wait_queue_signal` sends. -/
def waitQueueSignal (wq : WaitQueue M) (hp : Heap A) (head : A) (lockMutex : Bool) :
    List (Note (WqCv A)) :=
  if lockMutex && wq.applnMutex.isNone then []
  else if wq.threadWaitCount == 0 then []
  else if !wq.priorityFlag then [.signal (.queue head)]
  else
    match base hp head with
    | none => []
    | some firstNode => [.signal (.thread firstNode)]

/-- The notifications `wait_queue_broadcast` sends. -/
def waitQueueBroadcast (fuel : Nat) (wq : WaitQueue M) (hp : Heap A) (head : A) (lockMutex : Bool) :
    Option (List (Note (WqCv A))) :=
  if lockMutex && wq.applnMutex.isNone then some []
  else if wq.threadWaitCount == 0 then some []
  else if !wq.priorityFlag then some [.broadcast (.queue head)]
  else (iterateGlthread hp fuel (base hp head)).map fun nodes => nodes.map fun a => .signal (.thread a)

end Functions

section Specs

variable {M A : Type*} [DecidableEq A] {ι : Type*} [DecidableEq ι] {hp : Heap A} {hd : ι → A}
  {L : ι → List A} {dom : A → Prop} {compFn : A → A → Int} {fuel : Nat} {wq wq' : WaitQueue M}
  {mutex : M} {i : ι} {a : A}

@[simp] theorem countUp_priorityFlag : wq.countUp.priorityFlag = wq.priorityFlag := rfl

@[simp] theorem countDown_priorityFlag : wq.countDown.priorityFlag = wq.priorityFlag := rfl

@[simp] theorem countUp_applnMutex : wq.countUp.applnMutex = wq.applnMutex := rfl

@[simp] theorem countDown_applnMutex : wq.countDown.applnMutex = wq.applnMutex := rfl

@[simp] theorem cacheMutex_priorityFlag : (wq.cacheMutex mutex).priorityFlag = wq.priorityFlag := rfl

@[simp] theorem cacheMutex_threadWaitCount :
    (wq.cacheMutex mutex).threadWaitCount = wq.threadWaitCount := rfl

@[simp] theorem cacheMutex_applnMutex : (wq.cacheMutex mutex).applnMutex = some mutex := rfl

section Test

variable {τ : Type*} [DecidableEq M] {t : τ}

/-- What a thread that brings the mutex does to a wait queue before the loop, unless an assertion
fails. -/
theorem eq_of_waitQueueTest (h : waitQueueTest wq (some t) (some mutex) = some wq') :
    wq' = wq.cacheMutex mutex := by
  cases wq with
  | mk priorityFlag threadWaitCount applnMutex autoUnlockApplnMutex =>
      cases applnMutex with
      | none => simpa [waitQueueTest] using h.symm
      | some cached =>
          simp only [waitQueueTest, Option.isNone_some, Bool.and_false, Bool.false_eq_true, if_false,
            Option.ite_none_right_eq_some, Option.some.injEq] at h
          rw [← h.2, ← h.1]
          rfl

/-- The assertions before the loop hold if no other mutex was caught earlier. -/
theorem waitQueueTest_eq (h : ∀ cached, wq.applnMutex = some cached → cached = mutex) :
    waitQueueTest wq (some t) (some mutex) = some (wq.cacheMutex mutex) := by
  cases wq with
  | mk priorityFlag threadWaitCount applnMutex autoUnlockApplnMutex =>
      cases applnMutex with
      | none => simp [waitQueueTest]
      | some cached =>
          have hsame : cached = mutex := h cached rfl
          simp [waitQueueTest, hsame, WaitQueue.cacheMutex]

end Test

/-- In the priority mode a thread joins the list before it waits on its own condition variable. -/
theorem waitQueueBlock_priority (h : Forest hp hd L dom) (hprio : wq.priorityFlag = true)
    (hcached : wq.applnMutex.isSome = true) (ha : dom a) (hfree : ∀ j, a ∉ L j)
    (hfuel : (L i).length ≤ fuel) :
    ∃ hp', waitQueueBlock compFn fuel wq hp (hd i) a = some (wq.countUp, hp', .thread a) ∧
      Forest hp' hd (Function.update L i (insertBefore compFn a (L i))) dom := by
  have hex : ∃ hp', glthreadPriorityInsert fuel compFn hp (hd i) a = some hp' ∧
      Forest hp' hd (Function.update L i (insertBefore compFn a (L i))) dom :=
    h.priorityInsert ha hfree hfuel
  obtain ⟨hp', hins, hforest⟩ := hex
  refine ⟨hp', ?_, hforest⟩
  simp [waitQueueBlock, Option.isNone_eq_false_iff.mpr hcached, hprio, hins]

theorem waitQueueBlock_common (hcommon : wq.priorityFlag = false)
    (hcached : wq.applnMutex.isSome = true) (head : A) :
    waitQueueBlock compFn fuel wq hp head a = some (wq.countUp, hp, .queue head) := by
  simp [waitQueueBlock, Option.isNone_eq_false_iff.mpr hcached, hcommon]

/-- In the priority mode a thread leaves the list after its wait. -/
theorem waitQueueResume_priority (h : Forest hp hd L dom) (hprio : wq.priorityFlag = true)
    (ha : a ∈ L i) :
    (waitQueueResume wq hp a).1 = wq.countDown ∧
      Forest (waitQueueResume wq hp a).2 hd (Function.update L i ((L i).erase a)) dom := by
  refine ⟨rfl, ?_⟩
  unfold waitQueueResume
  simp only [countDown_priorityFlag, hprio, if_true]
  exact h.remove ha

theorem waitQueueResume_common (hcommon : wq.priorityFlag = false) :
    waitQueueResume wq hp a = (wq.countDown, hp) := by
  simp [waitQueueResume, hcommon]

end Specs

end ThreadLib
end MultithreadingBible
