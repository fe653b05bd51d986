import MultithreadingBible.GlueThread.Placement
import MultithreadingBible.Lib.CondVar

/-!
# A basic monitor

A monitor grants a resource to many readers or to one writer.  Threads that use the resource are on
`resource_using_threads_q`, threads that must wait are on the wait queue of their kind, each blocked
on its own condition variable, and the last user to release the resource hands it on.

* `Monitor` — the fields of `monitor_t`; its lists are heads in the heap.
* `monitorRequestAccessPermission` / `monitorInformResourceReleased` — the two calls.  Both are one
  critical section of `monitor_talk_mutex`, but for the wait inside the first.
* `monitorMachine` — threads that request, use and release in a loop, without spurious wake-ups.
-/

namespace MultithreadingBible
namespace Monitors

open Lib GlueThread

/-- `THREAD_READER` and `THREAD_WRITER` -/
inductive ThreadOp where
  | reader
  | writer
  deriving DecidableEq

/-- `MON_RES_AVAILABLE`, and `MON_RES_BUSY_BY_READER` and `MON_RES_BUSY_BY_WRITER`. -/
inductive ResourceStatus where
  | available
  | busyBy (k : ThreadOp)
  deriving DecidableEq

/-- The lists of a monitor: `reader_thread_wait_q`, `writer_thread_wait_q` and
`resource_using_threads_q`. -/
inductive MonitorList where
  | threadWaitQ (k : ThreadOp)
  | resourceUsingThreadsQ
  deriving DecidableEq

/-- The cells of a monitor and of its clients. -/
inductive MonitorAddr (τ : Type*) where
  | head (i : MonitorList)
  | waitGlue (t : τ)
  deriving DecidableEq

/-- `monitor_t`, without its name and mutex, and the cells. -/
structure Monitor (τ : Type*) where
  resourceStatus : ResourceStatus
  heap : Heap (MonitorAddr τ)

/-- Where a client is. -/
inductive MonitorLoc where
  /-- Outside both calls, without a grant. -/
  | idle
  /-- In the wait of `monitor_wait_list_client_thread`. -/
  | wait
  /-- Using the resource, which it was granted at once or after a wait. -/
  | holds (waited : Bool)
  deriving DecidableEq

/-- The client uses the resource. -/
def MonitorLoc.isUsing : MonitorLoc → Bool
  | .holds _ => true
  | _ => false

/-- Each thread waits on its own condition variable. -/
abbrev MonitorEffect (τ : Type*) := Effect (Monitor τ) τ MonitorLoc

/-- `init_monitor`, with the cells of threads that were just created. -/
def initMonitor (τ : Type*) : Monitor τ where
  resourceStatus := .available
  heap _ := Glthread.null

variable {τ : Type*} [DecidableEq τ]

/-- `monitor_wait_list_client_thread`, up to its wait. -/
def monitorWaitListClientThread (threadOp : ThreadOp) (t : τ) (m : Monitor τ) : Monitor τ :=
  let heap := initGlthread m.heap (.waitGlue t)
  { m with heap := glthreadAddNext heap (.head (.threadWaitQ threadOp)) (.waitGlue t) }

/-- `monitor_request_access_permission`, up to the wait. -/
def monitorRequestAccessPermission (threadOp : ThreadOp) (t : τ) (m : Monitor τ) :
    MonitorEffect τ :=
  let heap := glthreadAddNext m.heap (.head .resourceUsingThreadsQ) (.waitGlue t)
  if m.resourceStatus = .available then
    .done ⟨.busyBy threadOp, heap⟩ [] (.running (.holds false))
  else if threadOp = .reader ∧ m.resourceStatus = .busyBy .reader then
    .done { m with heap := heap } [] (.running (.holds false))
  else .done (monitorWaitListClientThread threadOp t m) [] (.waiting t .wait)

/-- `monitor_request_access_permission`, after the wait. -/
def monitorResume (threadOp : ThreadOp) (t : τ) (m : Monitor τ) : MonitorEffect τ :=
  .done ⟨.busyBy threadOp, removeGlthread m.heap (.waitGlue t)⟩ [] (.running (.holds true))

/-- `dequeue_glthread_first` on a wait queue and `wait_glue_to_thread` of the cell it returns. -/
def dequeueThread (k : ThreadOp) (hp : Heap (MonitorAddr τ)) : Option (τ × Heap (MonitorAddr τ)) :=
  match dequeueGlthreadFirst hp (.head (.threadWaitQ k)) with
  | (some (.waitGlue u), hp) => some (u, hp)
  | _ => none

/-- The loop of `monitor_inform_resource_released` that wakes all waiting readers. -/
def awakenReaders : Nat → Monitor τ → Option (Monitor τ × List (Note τ))
  | fuel, m =>
      if isGlthreadListEmpty m.heap (.head (.threadWaitQ .reader)) then some (m, [])
      else
        match fuel with
        | 0 => none
        | fuel + 1 =>
            (dequeueThread .reader m.heap).bind fun (u, hp) =>
              (awakenReaders fuel ⟨.busyBy .reader, hp⟩).map fun (m, notes) =>
                (m, .signal u :: notes)

/-- The monitor after `monitor_inform_resource_released` took the caller off the list of users. -/
def Monitor.unlist (m : Monitor τ) (t : τ) : Monitor τ :=
  { m with heap := initGlthread (removeGlthread m.heap (.waitGlue t)) (.waitGlue t) }

def monitorInformResourceReleased (fuel : Nat) (t : τ) (m : Monitor τ) :
    Option (Monitor τ × List (Note τ)) :=
  let m := m.unlist t
  if !isGlthreadListEmpty m.heap (.head .resourceUsingThreadsQ) then some (m, [])
  else if isGlthreadListEmpty m.heap (.head (.threadWaitQ .reader)) then
    if isGlthreadListEmpty m.heap (.head (.threadWaitQ .writer)) then
      some ({ m with resourceStatus := .available }, [])
    else
      (dequeueThread .writer m.heap).map fun (u, hp) => (⟨.busyBy .writer, hp⟩, [.signal u])
  else awakenReaders fuel m

section Machine

variable [Fintype τ] (threadOp : τ → ThreadOp)

/-- What a client does next. -/
def monitorExec (t : τ) (l : MonitorLoc) (_ : Unit) (m : Monitor τ) : MonitorEffect τ :=
  match l with
  | .idle => monitorRequestAccessPermission (threadOp t) t m
  | .wait => monitorResume (threadOp t) t m
  | .holds _ =>
      .call (monitorInformResourceReleased (Fintype.card τ) t m) fun (m, notes) =>
        .done m notes (.running .idle)

/-- Clients of one monitor. -/
def monitorProgram : Program τ (Monitor τ) τ MonitorLoc Unit where
  exec := monitorExec threadOp
  spuriousWakeups := false

abbrev MonitorConfig (τ : Type*) := Config τ (Monitor τ) τ MonitorLoc

/-- Nobody has used the monitor yet. -/
def freshMonitor (τ : Type*) : MonitorConfig τ :=
  ⟨initMonitor τ, fun _ => .running .idle⟩

/-- All runs of the clients of one monitor. -/
def monitorMachine : Machine (MonitorConfig τ) (Act τ Unit) :=
  (monitorProgram threadOp).machine fun s => s = freshMonitor τ

end Machine

/-- Everything a client can do. -/
inductive MonitorMove [Fintype τ] (threadOp : τ → ThreadOp) (t : τ) (m : Monitor τ) :
    MonitorLoc → Monitor τ → List (Note τ) → Status τ MonitorLoc → Prop
  | grant (hyes : m.resourceStatus = .available ∨
      (threadOp t = .reader ∧ m.resourceStatus = .busyBy .reader)) :
      MonitorMove threadOp t m .idle
        ⟨.busyBy (threadOp t), glthreadAddNext m.heap (.head .resourceUsingThreadsQ) (.waitGlue t)⟩
        [] (.running (.holds false))
  | block (hbusy : m.resourceStatus ≠ .available) :
      MonitorMove threadOp t m .idle (monitorWaitListClientThread (threadOp t) t m) []
        (.waiting t .wait)
  | resume :
      MonitorMove threadOp t m .wait
        ⟨.busyBy (threadOp t), removeGlthread m.heap (.waitGlue t)⟩ [] (.running (.holds true))
  | release {waited : Bool} {m' : Monitor τ} {notes : List (Note τ)}
      (h : monitorInformResourceReleased (Fintype.card τ) t m = some (m', notes)) :
      MonitorMove threadOp t m (.holds waited) m' notes (.running .idle)

/-- A step of a client is one of the listed moves. -/
theorem monitorMove_of_exec [Fintype τ] {threadOp : τ → ThreadOp} {t : τ} {l : MonitorLoc}
    {x : Unit} {m m' : Monitor τ} {notes : List (Note τ)} {st : Status τ MonitorLoc}
    (h : monitorExec threadOp t l x m = .done m' notes st) :
    MonitorMove threadOp t m l m' notes st := by
  cases l with
  | idle =>
      simp only [monitorExec, monitorRequestAccessPermission] at h
      split at h
      · next hfree =>
        cases h
        exact .grant (.inl hfree)
      · next hbusy =>
        split at h
        · next hreaders =>
          cases h
          have hmove := MonitorMove.grant (t := t) (.inr hreaders)
          rwa [show ResourceStatus.busyBy (threadOp t) = m.resourceStatus by
            rw [hreaders.1, hreaders.2]] at hmove
        · cases h
          exact .block hbusy
  | wait =>
      cases h
      exact .resume
  | holds waited =>
      obtain ⟨⟨m₁, notes₁⟩, hr, hdone⟩ := Effect.call_eq_done.mp h
      cases hdone
      exact .release hr

end Monitors
end MultithreadingBible
