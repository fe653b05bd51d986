import MultithreadingBible.ThreadLib.WaitQueue

/-!
# Monitors

A monitor admits up to a number of readers or up to a number of writers to a resource.  A thread that
is not admitted waits in the wait queue of its kind; the queues call back a function of the monitor to
decide, and leave its mutex locked.

* `Monitor` — the fields of `monitor_t`.  What it has twice, for readers and for writers, is a function
  of the kind.
* `monitorIsResourceAvailable` … `monitorInformResourceReleased` — the functions of the monitor.
* `monitorExec` — what a thread does from each location of the loop request, use, release.
* `monitorMachine` — all interleavings.  A thread may be a reader in one round and a writer in the
  next.

`monitor_request_access_permission` has two critical sections, one for the shutdown test and one for
the admission, and `monitor_inform_resource_released` reads `is_deleted` after its only one.
-/

namespace MultithreadingBible
namespace ThreadLib

open Lib GlueThread

/-- `THREAD_READER` and `THREAD_WRITER` -/
inductive ThreadOp where
  | reader
  | writer
  deriving DecidableEq

/-- The other kind. -/
def ThreadOp.other : ThreadOp → ThreadOp
  | .reader => .writer
  | .writer => .reader

instance : Fintype ThreadOp := ⟨{.reader, .writer}, by intro k; cases k <;> simp⟩

theorem ThreadOp.other_ne (k : ThreadOp) : k.other ≠ k := by
  cases k <;> simp [other]

theorem ThreadOp.eq_other {k k' : ThreadOp} (h : k' ≠ k) : k' = k.other := by
  cases k <;> cases k' <;> first | rfl | exact absurd rfl h

/-- `MON_RES_AVAILABLE`, and `MON_RES_BUSY_BY_READER` and `MON_RES_BUSY_BY_WRITER`. -/
inductive ResourceStatus where
  | available
  | busyBy (k : ThreadOp)
  deriving DecidableEq

/-- The lists of a monitor: its wait queues and `active_threads_in_cs`. -/
inductive MonitorList where
  | queue (k : ThreadOp)
  | active
  deriving DecidableEq

/-- The cells of a monitor and of the threads that use it. -/
inductive MonitorAddr (τ : Type*) where
  | head (i : MonitorList)
  | waitGlue (t : τ)
  deriving DecidableEq

/-- The mutexes that a wait queue of a monitor can be given. -/
inductive MonitorMutex where
  | monitorTalkMutex
  deriving DecidableEq

/-- `monitor_t`, without its name and mutex.  `whoAccessedCsLast` is `none` for `THREAD_ANY`. -/
structure Monitor where
  waitQ : ThreadOp → WaitQueue MonitorMutex
  resourceStatus : ResourceStatus
  maxLimit : ThreadOp → Nat
  nCurr : ThreadOp → Nat
  switchTo : ThreadOp → Nat
  strictAlternation : Bool
  whoAccessedCsLast : Option ThreadOp
  shutdown : Bool
  isDeleted : Bool

/-- Where a thread is. -/
inductive MonitorLoc where
  /-- Outside all calls, without a grant. -/
  | idle
  /-- In `monitor_request_access_permission`, past the shutdown test. -/
  | admission (k : ThreadOp)
  /-- In the wait of the queue. -/
  | wait (k : ThreadOp)
  /-- Granted access. -/
  | holds (k : ThreadOp)
  /-- Returned from `monitor_request_access_permission` because of the shutdown. -/
  | turnedAway (k : ThreadOp)
  /-- In `monitor_inform_resource_released`, before `is_deleted` is read. -/
  | informed
  deriving DecidableEq

/-- What a thread outside all calls calls. -/
inductive MonitorCall where
  | request (k : ThreadOp)
  | shutDown

/-- A monitor, the cells, how often it was freed, and whether it was touched afterwards. -/
structure MonitorMem (τ : Type*) where
  monitor : Monitor
  heap : Heap (MonitorAddr τ)
  freed : Nat
  touched : Bool

abbrev MonitorEffect (τ : Type*) := Effect (MonitorMem τ) (WqCv (MonitorAddr τ)) MonitorLoc

namespace Monitor

/-- `init_monitor(NULL, …)`, which leaves the unlocking of the mutex to the monitor. -/
def init (maxReaders maxWriters : UInt16) : Monitor where
  waitQ _ := waitQueueSetAutoUnlockApplnMutex (waitQueueInit true) false
  resourceStatus := .available
  maxLimit
    | .reader => maxReaders.toNat
    | .writer => maxWriters.toNat
  nCurr _ := 0
  switchTo _ := 0
  strictAlternation := false
  whoAccessedCsLast := none
  shutdown := false
  isDeleted := false

/-- `monitor_set_strict_alternation_behavior` -/
def setStrictAlternationBehavior (m : Monitor) : Option Monitor :=
  if m.maxLimit .reader == 1 && m.maxLimit .writer == 1 then
    some { m with strictAlternation := true }
  else none

/-- `monitor_is_resource_available` -/
def isResourceAvailable (m : Monitor) (k : ThreadOp) : Bool :=
  let rc := decide (m.nCurr k < m.maxLimit k)
  match m.resourceStatus with
  | .available =>
      if m.strictAlternation then
        rc &&
          match m.whoAccessedCsLast with
          | none => true
          | some last => k == last.other
      else rc
  | .busyBy k' => k == k' && rc

/-- `monitor_is_resource_not_available`, with the mutex it locks when it is given a place for it. -/
def isResourceNotAvailable (m : Monitor) (k : ThreadOp) (mutex : Bool) :
    Bool × Option MonitorMutex :=
  (!m.isResourceAvailable k, if mutex then some .monitorTalkMutex else none)

/-- `monitor_check_and_delete_monitor` -/
def checkAndDeleteMonitor (m : Monitor) : Monitor :=
  if (m.waitQ .writer).threadWaitCount != 0 || (m.waitQ .reader).threadWaitCount != 0 ||
      m.resourceStatus != .available then m
  else { m with isDeleted := true }

/-- `monitor_set_resource_status` -/
def setResourceStatus (m : Monitor) : Option ThreadOp → Monitor
  | none => checkAndDeleteMonitor { m with resourceStatus := .available }
  | some k => { m with whoAccessedCsLast := some k, resourceStatus := .busyBy k }

/-- `monitor_shut_down` -/
def shutDown (m : Monitor) : Monitor := { m with shutdown := true }

/-- A change of one of the wait queues. -/
def setWaitQ (m : Monitor) (k : ThreadOp) (wq : WaitQueue MonitorMutex) : Monitor :=
  { m with waitQ := Function.update m.waitQ k wq }

/-- A change of `n_curr_readers` or `n_curr_writers`. -/
def setNCurr (m : Monitor) (k : ThreadOp) (n : Nat) : Monitor :=
  { m with nCurr := Function.update m.nCurr k n }

/-- A change of `switch_from_writers_to_readers` or `switch_from_readers_to_writers`. -/
def setSwitchTo (m : Monitor) (k : ThreadOp) (n : Nat) : Monitor :=
  { m with switchTo := Function.update m.switchTo k n }

/-- The counters after a grant: the end of `monitor_request_access_permission`. -/
def countGrant (m : Monitor) (k : ThreadOp) : Monitor :=
  let m := m.setNCurr k (countUp 16 (m.nCurr k))
  let m := m.setResourceStatus (some k)
  if m.nCurr k == 1 then m.setSwitchTo k (countUp 16 (m.switchTo k)) else m

/-- The counters after a release: the two cases of `monitor_inform_resource_released`. -/
def countRelease (m : Monitor) (k : ThreadOp) : Option Monitor :=
  if m.nCurr k == 0 then none
  else
    let m := m.setNCurr k (countDown 16 (m.nCurr k))
    some (if m.nCurr k == 0 then m.setResourceStatus none else m)

end Monitor

variable {τ : Type*} [DecidableEq τ]

/-- The end of `monitor_request_access_permission`, after the wait queue returned. -/
def grantAccess (t : τ) (k : ThreadOp) (m : MonitorMem τ) : MonitorMem τ :=
  { m with
    heap := glthreadAddNext (initGlthread m.heap (.waitGlue t)) (.head .active) (.waitGlue t)
    monitor := m.monitor.countGrant k }

/-- The notifications of `monitor_inform_resource_released`. -/
def releaseNotes (fuel : Nat) (k : ThreadOp) (m : Monitor) (hp : Heap (MonitorAddr τ)) :
    Option (List (Note (WqCv (MonitorAddr τ)))) :=
  if (m.waitQ k).threadWaitCount != 0 then
    some (waitQueueSignal (m.waitQ k) hp (.head (.queue k)) false)
  else if m.nCurr k == 0 && (m.waitQ k.other).threadWaitCount != 0 then
    waitQueueBroadcast fuel (m.waitQ k.other) hp (.head (.queue k.other)) false
  else some []

/-- The critical section of `monitor_inform_resource_released`. -/
def monitorInformResourceReleased (fuel : Nat) (t : τ) (k : ThreadOp) (m : MonitorMem τ) :
    Option (MonitorMem τ × List (Note (WqCv (MonitorAddr τ)))) :=
  let hp := initGlthread (removeGlthread m.heap (.waitGlue t)) (.waitGlue t)
  (m.monitor.countRelease k).bind fun mon =>
    (releaseNotes fuel k mon hp).map fun notes => ({ m with monitor := mon, heap := hp }, notes)

section Exec

variable [Fintype τ] (compFn : MonitorAddr τ → MonitorAddr τ → Int)

/-- The loop of `wait_queue_test_and_wait` as the monitor calls it, and what follows the grant. -/
def admissionLoop (t : τ) (k : ThreadOp) (shouldBlock blocked : Bool) (m : MonitorMem τ) :
    MonitorEffect τ :=
  if shouldBlock then
    .call (waitQueueBlock compFn (Fintype.card τ) (m.monitor.waitQ k) m.heap (.head (.queue k))
        (.waitGlue t))
      fun (wq, hp, c) =>
        .done { m with monitor := m.monitor.setWaitQ k wq, heap := hp } [] (.waiting c (.wait k))
  else
    .call (waitQueueReturn (m.monitor.waitQ k) blocked t) fun thread =>
      .done (grantAccess thread k m) [] (.running (.holds k))

/-- What a thread does next, as long as the monitor is there. -/
def monitorStep (frees : Bool) (t : τ) (l : MonitorLoc) (x : MonitorCall) (m : MonitorMem τ) :
    MonitorEffect τ :=
  match l with
  | .idle =>
      match x with
      | .request k =>
          if !isGlthreadListEmpty m.heap (.waitGlue t) then .abort
          else if m.monitor.shutdown then .done m [] (.running (.turnedAway k))
          else .done m [] (.running (.admission k))
      | .shutDown => .done { m with monitor := m.monitor.shutDown } [] (.running .idle)
  | .admission k =>
      let (shouldBlock, lockedApplnMutex) := m.monitor.isResourceNotAvailable k true
      .call (waitQueueTest (m.monitor.waitQ k) (some t) lockedApplnMutex) fun wq =>
        admissionLoop compFn t k shouldBlock false { m with monitor := m.monitor.setWaitQ k wq }
  | .wait k =>
      let (wq, hp) := waitQueueResume (m.monitor.waitQ k) m.heap (.waitGlue t)
      let m := { m with monitor := m.monitor.setWaitQ k wq, heap := hp }
      admissionLoop compFn t k (m.monitor.isResourceNotAvailable k false).1 true m
  | .holds k | .turnedAway k =>
      .call (monitorInformResourceReleased (Fintype.card τ) t k m) fun (m, notes) =>
        .done m notes (.running .informed)
  | .informed =>
      if m.monitor.isDeleted && frees then .done { m with freed := m.freed + 1 } [] (.running .idle)
      else .done m [] (.running .idle)

/-- What a thread does next.  Once the monitor was freed only the fact that it is touched matters, and
whether it is freed again. -/
def monitorExec (frees : Bool) (t : τ) (l : MonitorLoc) (x : MonitorCall) (m : MonitorMem τ) :
    MonitorEffect τ :=
  if m.freed = 0 then monitorStep compFn frees t l x m
  else
    let again := decide (l = .informed) && m.monitor.isDeleted
    .done { m with touched := true, freed := m.freed + again.toNat } [] (.running .idle)

/-- Threads that use one monitor.  Without `frees` the monitor is never freed. -/
def monitorProgram (frees spurious : Bool) :
    Program τ (MonitorMem τ) (WqCv (MonitorAddr τ)) MonitorLoc MonitorCall where
  exec := monitorExec compFn frees
  spuriousWakeups := spurious

abbrev MonitorConfig (τ : Type*) := Config τ (MonitorMem τ) (WqCv (MonitorAddr τ)) MonitorLoc

/-- Nobody has used the monitor yet. -/
def freshMonitor (τ : Type*) (strict : Bool) (maxReaders maxWriters : UInt16) : MonitorConfig τ :=
  ⟨⟨{ Monitor.init maxReaders maxWriters with strictAlternation := strict }, fun _ => Glthread.null,
    0, false⟩, fun _ => .running .idle⟩

/-- All runs of threads that use one monitor. -/
def monitorMachine (frees spurious strict : Bool) (maxReaders maxWriters : UInt16) :
    Machine (MonitorConfig τ) (Act τ MonitorCall) :=
  (monitorProgram compFn frees spurious).machine fun s =>
    s = freshMonitor τ strict maxReaders maxWriters

end Exec

/-- A thread comes to the test of its wait queue. -/
inductive Enters (t : τ) (m : MonitorMem τ) : MonitorLoc → ThreadOp → MonitorMem τ → Prop
  | first (k : ThreadOp) : Enters t m (.admission k) k
      { m with
        monitor := m.monitor.setWaitQ k ((m.monitor.waitQ k).cacheMutex .monitorTalkMutex) }
  | again (k : ThreadOp) : Enters t m (.wait k) k
      { m with
        monitor := m.monitor.setWaitQ k
          (waitQueueResume (m.monitor.waitQ k) m.heap (.waitGlue t)).1
        heap := (waitQueueResume (m.monitor.waitQ k) m.heap (.waitGlue t)).2 }

/-- Everything a thread can do as long as the monitor is there. -/
inductive MonitorMove [Fintype τ] (compFn : MonitorAddr τ → MonitorAddr τ → Int) (frees : Bool)
    (t : τ) (x : MonitorCall) (m : MonitorMem τ) : MonitorLoc → MonitorMem τ →
      List (Note (WqCv (MonitorAddr τ))) → Status (WqCv (MonitorAddr τ)) MonitorLoc → Prop
  | request {k : ThreadOp} (hopen : m.monitor.shutdown = false) :
      MonitorMove compFn frees t x m .idle m [] (.running (.admission k))
  | turnAway {k : ThreadOp} (hclosed : m.monitor.shutdown = true) :
      MonitorMove compFn frees t x m .idle m [] (.running (.turnedAway k))
  | shutDown (hx : x = .shutDown) :
      MonitorMove compFn frees t x m .idle { m with monitor := m.monitor.shutDown } []
        (.running .idle)
  | block {l : MonitorLoc} {k : ThreadOp} {m₁ : MonitorMem τ} {wq : WaitQueue MonitorMutex}
      {hp : Heap (MonitorAddr τ)} {c : WqCv (MonitorAddr τ)} (hin : Enters t m l k m₁)
      (hno : m₁.monitor.isResourceAvailable k = false)
      (h : waitQueueBlock compFn (Fintype.card τ) (m₁.monitor.waitQ k) m₁.heap (.head (.queue k))
        (.waitGlue t) = some (wq, hp, c)) :
      MonitorMove compFn frees t x m l
        { m₁ with monitor := m₁.monitor.setWaitQ k wq, heap := hp } [] (.waiting c (.wait k))
  | grant {l : MonitorLoc} {k : ThreadOp} {m₁ : MonitorMem τ} (hin : Enters t m l k m₁)
      (hyes : m₁.monitor.isResourceAvailable k = true) :
      MonitorMove compFn frees t x m l (grantAccess t k m₁) [] (.running (.holds k))
  | release {k : ThreadOp} {m' : MonitorMem τ} {notes : List (Note (WqCv (MonitorAddr τ)))}
      (h : monitorInformResourceReleased (Fintype.card τ) t k m = some (m', notes)) :
      MonitorMove compFn frees t x m (.holds k) m' notes (.running .informed)
  | lateRelease {k : ThreadOp} {m' : MonitorMem τ} {notes : List (Note (WqCv (MonitorAddr τ)))}
      (h : monitorInformResourceReleased (Fintype.card τ) t k m = some (m', notes)) :
      MonitorMove compFn frees t x m (.turnedAway k) m' notes (.running .informed)
  | leave (hstays : (m.monitor.isDeleted && frees) = false) :
      MonitorMove compFn frees t x m .informed m [] (.running .idle)
  | free (hdeleted : m.monitor.isDeleted = true) (hfrees : frees = true) :
      MonitorMove compFn frees t x m .informed { m with freed := m.freed + 1 } [] (.running .idle)

section Moves

variable [Fintype τ] {compFn : MonitorAddr τ → MonitorAddr τ → Int} {frees : Bool} {t : τ}
  {x : MonitorCall} {l : MonitorLoc} {k : ThreadOp} {m m₁ m' : MonitorMem τ}
  {notes : List (Note (WqCv (MonitorAddr τ)))} {st : Status (WqCv (MonitorAddr τ)) MonitorLoc}

omit [DecidableEq τ] [Fintype τ] in
theorem eq_of_waitQueueReturn {wq : WaitQueue MonitorMutex} {blocked : Bool} {thread : τ}
    (h : waitQueueReturn wq blocked t = some thread) : thread = t := by
  unfold waitQueueReturn at h
  split at h
  · cases h
  · exact (Option.some.inj h).symm

theorem monitorMove_of_admissionLoop {shouldBlock blocked : Bool} (hin : Enters t m l k m₁)
    (hblock : (!m₁.monitor.isResourceAvailable k) = shouldBlock)
    (h : admissionLoop compFn t k shouldBlock blocked m₁ = .done m' notes st) :
    MonitorMove compFn frees t x m l m' notes st := by
  unfold admissionLoop at h
  rw [← hblock] at h
  split at h
  · next hno =>
    obtain ⟨⟨wq, hp, c⟩, hb, h⟩ := Effect.call_eq_done.mp h
    cases h
    exact .block hin (by simpa using hno) hb
  · next hyes =>
    obtain ⟨thread, hr, h⟩ := Effect.call_eq_done.mp h
    cases h
    rw [eq_of_waitQueueReturn hr]
    exact .grant hin (by simpa using hyes)

/-- A step of a thread is one of the listed moves. -/
theorem monitorMove_of_step (h : monitorStep compFn frees t l x m = .done m' notes st) :
    MonitorMove compFn frees t x m l m' notes st := by
  cases l with
  | idle =>
      cases x with
      | request k =>
          simp only [monitorStep] at h
          split at h
          · cases h
          · split at h
            · next hclosed =>
              cases h
              exact .turnAway hclosed
            · next hopen =>
              cases h
              exact .request (by simpa using hopen)
      | shutDown =>
          cases h
          exact .shutDown rfl
  | admission k =>
      obtain ⟨wq, htest, h⟩ := Effect.call_eq_done.mp h
      rw [eq_of_waitQueueTest htest] at h
      -- the answer was given before the mutex was caught, which is not a part of it
      exact monitorMove_of_admissionLoop (.first k) rfl h
  | wait k => exact monitorMove_of_admissionLoop (.again k) rfl h
  | holds k =>
      obtain ⟨⟨m₂, notes₂⟩, hr, h⟩ := Effect.call_eq_done.mp h
      cases h
      exact .release hr
  | turnedAway k =>
      obtain ⟨⟨m₂, notes₂⟩, hr, h⟩ := Effect.call_eq_done.mp h
      cases h
      exact .lateRelease hr
  | informed =>
      simp only [monitorStep] at h
      split at h
      · next hdel =>
        cases h
        rw [Bool.and_eq_true] at hdel
        exact .free hdel.1 hdel.2
      · next hstays =>
        cases h
        exact .leave (by simpa using hstays)

theorem countGrant_shutdown (m : Monitor) (k : ThreadOp) :
    (m.countGrant k).shutdown = m.shutdown := by
  unfold Monitor.countGrant
  dsimp only
  split <;> rfl

theorem countRelease_shutdown {m m' : Monitor} (h : m.countRelease k = some m') :
    m'.shutdown = m.shutdown := by
  unfold Monitor.countRelease at h
  split at h
  · cases h
  · simp only [Option.some.injEq] at h
    rw [← h]
    split
    · simp only [Monitor.setResourceStatus, Monitor.checkAndDeleteMonitor]
      split <;> rfl
    · rfl

theorem release_frame
    (h : monitorInformResourceReleased (Fintype.card τ) t k m = some (m', notes)) :
    m'.monitor.shutdown = m.monitor.shutdown ∧ m'.freed = m.freed ∧ m'.touched = m.touched := by
  simp only [monitorInformResourceReleased, Option.bind_eq_some_iff, Option.map_eq_some_iff] at h
  obtain ⟨mon, hmon, notes', -, heq⟩ := h
  cases heq
  exact ⟨countRelease_shutdown hmon, rfl, rfl⟩

omit [Fintype τ] in
theorem Enters.frame (hin : Enters t m l k m₁) :
    m₁.monitor.shutdown = m.monitor.shutdown ∧ m₁.freed = m.freed ∧ m₁.touched = m.touched := by
  cases hin <;> exact ⟨rfl, rfl, rfl⟩

/-- Only `monitor_shut_down` sets the shutdown flag. -/
theorem MonitorMove.shutdown (hmove : MonitorMove compFn frees t x m l m' notes st) :
    m'.monitor.shutdown = m.monitor.shutdown ∨ (x = .shutDown ∧ m'.monitor.shutdown = true) := by
  cases hmove with
  | request | turnAway | leave | free => exact .inl rfl
  | shutDown hx => exact .inr ⟨hx, rfl⟩
  | block hin => exact .inl hin.frame.1
  | grant hin => exact .inl ((countGrant_shutdown _ _).trans hin.frame.1)
  | release h => exact .inl (release_frame h).1
  | lateRelease h => exact .inl (release_frame h).1

/-- Only a thread that finds `is_deleted` set frees the monitor. -/
theorem MonitorMove.freed (hmove : MonitorMove compFn frees t x m l m' notes st) :
    m'.touched = m.touched ∧ (m'.freed = m.freed ∨
      (frees = true ∧ m.monitor.isDeleted = true ∧ l = .informed ∧ st = .running .idle ∧
        m' = { m with freed := m.freed + 1 })) := by
  cases hmove with
  | request | turnAway | leave => exact ⟨rfl, .inl rfl⟩
  | shutDown hx => exact ⟨rfl, .inl rfl⟩
  | block hin => exact ⟨hin.frame.2.2, .inl hin.frame.2.1⟩
  | grant hin => exact ⟨hin.frame.2.2, .inl hin.frame.2.1⟩
  | release h => exact ⟨(release_frame h).2.2, .inl (release_frame h).2.1⟩
  | lateRelease h => exact ⟨(release_frame h).2.2, .inl (release_frame h).2.1⟩
  | free hdeleted hfrees => exact ⟨rfl, .inr ⟨hfrees, hdeleted, rfl, rfl, rfl⟩⟩

end Moves

end ThreadLib
end MultithreadingBible
