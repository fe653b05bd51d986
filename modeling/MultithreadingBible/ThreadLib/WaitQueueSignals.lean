import MultithreadingBible.ThreadLib.WaitQueue

/-!
# Wait queues: whom a signal reaches

Threads that use one wait queue: they test and wait, signal and broadcast.  What the application's
function answers is the scheduler's choice.

A signal of a queue in the priority mode goes to the thread at the head of the list, and only that
thread takes itself off the list, once it runs.  Signals sent before that go to the same thread and
are lost (`signals_notify`).
-/

namespace MultithreadingBible
namespace ThreadLib

open Lib GlueThread

/-- The cells of one wait queue and its threads. -/
inductive WqAddr (τ : Type*) where
  | head
  | waitGlue (t : τ)
  deriving DecidableEq

/-- Where a thread is. -/
inductive WqLoc where
  /-- Outside all calls. -/
  | idle
  /-- In the wait of `wait_queue_test_and_wait`. -/
  | wait
  deriving DecidableEq

/-- What a thread calls, with the answer of the application's function where it is asked. -/
inductive WqCall where
  | testAndWait (shouldBlock : Bool)
  | signal (lockMutex : Bool)
  | broadcast (lockMutex : Bool)

/-- A wait queue and the cells.  Its application has one mutex. -/
structure WqMem (τ : Type*) where
  wq : WaitQueue Unit
  heap : Heap (WqAddr τ)

abbrev WqEffect (τ : Type*) := Effect (WqMem τ) (WqCv (WqAddr τ)) WqLoc

variable {τ : Type*} [DecidableEq τ] [Fintype τ]

section Exec

variable (compFn : WqAddr τ → WqAddr τ → Int)

/-- The loop of `wait_queue_test_and_wait`. -/
def wqLoop (t : τ) (shouldBlock : Bool) (m : WqMem τ) : WqEffect τ :=
  if shouldBlock then
    .call (waitQueueBlock compFn (Fintype.card τ) m.wq m.heap .head (.waitGlue t))
      fun (wq, hp, c) => .done ⟨wq, hp⟩ [] (.waiting c .wait)
  else .done m [] (.running .idle)

/-- What a thread does next. -/
def wqExec (t : τ) (l : WqLoc) (x : WqCall) (m : WqMem τ) : WqEffect τ :=
  match l, x with
  | .idle, .testAndWait shouldBlock =>
      .call (waitQueueTest m.wq (some t) (some ())) fun wq =>
        wqLoop compFn t shouldBlock { m with wq := wq }
  | .idle, .signal lockMutex =>
      .done m (waitQueueSignal m.wq m.heap .head lockMutex) (.running .idle)
  | .idle, .broadcast lockMutex =>
      .call (waitQueueBroadcast (Fintype.card τ) m.wq m.heap .head lockMutex) fun notes =>
        .done m notes (.running .idle)
  | .wait, .testAndWait shouldBlock =>
      let (wq, hp) := waitQueueResume m.wq m.heap (.waitGlue t)
      wqLoop compFn t shouldBlock ⟨wq, hp⟩
  | .wait, _ => .blocked

/-- Threads that use one wait queue. -/
def wqProgram (spurious : Bool) : Program τ (WqMem τ) (WqCv (WqAddr τ)) WqLoc WqCall where
  exec := wqExec compFn
  spuriousWakeups := spurious

abbrev WqConfig (τ : Type*) := Config τ (WqMem τ) (WqCv (WqAddr τ)) WqLoc

/-- Nobody has used the queue yet. -/
def freshQueue (τ : Type*) (priorityFlag : Bool) : WqConfig τ :=
  ⟨⟨waitQueueInit priorityFlag, fun _ => Glthread.null⟩, fun _ => .running .idle⟩

/-- All runs of threads that use one wait queue. -/
def wqMachine (spurious priorityFlag : Bool) : Machine (WqConfig τ) (Act τ WqCall) :=
  (wqProgram compFn spurious).machine fun s => s = freshQueue τ priorityFlag

end Exec

/-- Everything a thread can do. -/
inductive WqMove (compFn : WqAddr τ → WqAddr τ → Int) (t : τ) (m : WqMem τ) :
    WqLoc → WqMem τ → List (Note (WqCv (WqAddr τ))) → Status (WqCv (WqAddr τ)) WqLoc → Prop
  | pass : WqMove compFn t m .idle { m with wq := m.wq.cacheMutex () } [] (.running .idle)
  | block {wq : WaitQueue Unit} {hp : Heap (WqAddr τ)} {c : WqCv (WqAddr τ)}
      (h : waitQueueBlock compFn (Fintype.card τ) (m.wq.cacheMutex ()) m.heap .head (.waitGlue t) =
        some (wq, hp, c)) : WqMove compFn t m .idle ⟨wq, hp⟩ [] (.waiting c .wait)
  | signal (lockMutex : Bool) :
      WqMove compFn t m .idle m (waitQueueSignal m.wq m.heap .head lockMutex) (.running .idle)
  | broadcast {lockMutex : Bool} {notes : List (Note (WqCv (WqAddr τ)))}
      (h : waitQueueBroadcast (Fintype.card τ) m.wq m.heap .head lockMutex = some notes) :
      WqMove compFn t m .idle m notes (.running .idle)
  | leave {wq : WaitQueue Unit} {hp : Heap (WqAddr τ)}
      (hr : waitQueueResume m.wq m.heap (.waitGlue t) = (wq, hp)) :
      WqMove compFn t m .wait ⟨wq, hp⟩ [] (.running .idle)
  | again {wq wq' : WaitQueue Unit} {hp hp' : Heap (WqAddr τ)} {c : WqCv (WqAddr τ)}
      (hr : waitQueueResume m.wq m.heap (.waitGlue t) = (wq, hp))
      (h : waitQueueBlock compFn (Fintype.card τ) wq hp .head (.waitGlue t) = some (wq', hp', c)) :
      WqMove compFn t m .wait ⟨wq', hp'⟩ [] (.waiting c .wait)

section Moves

variable {compFn : WqAddr τ → WqAddr τ → Int} {t : τ} {l : WqLoc} {x : WqCall} {m m' : WqMem τ}
  {notes : List (Note (WqCv (WqAddr τ)))} {st : Status (WqCv (WqAddr τ)) WqLoc}

theorem wqLoop_eq_done {shouldBlock : Bool} (h : wqLoop compFn t shouldBlock m = .done m' notes st) :
    (m' = m ∧ notes = [] ∧ st = .running .idle) ∨
      ∃ wq hp c, waitQueueBlock compFn (Fintype.card τ) m.wq m.heap .head (.waitGlue t) =
        some (wq, hp, c) ∧ m' = ⟨wq, hp⟩ ∧ notes = [] ∧ st = .waiting c .wait := by
  unfold wqLoop at h
  split at h
  · obtain ⟨⟨wq, hp, c⟩, hb, h⟩ := Effect.call_eq_done.mp h
    cases h
    exact .inr ⟨wq, hp, c, hb, rfl, rfl, rfl⟩
  · cases h
    exact .inl ⟨rfl, rfl, rfl⟩

/-- A step of a thread is one of the listed moves. -/
theorem wqMove_of_exec (h : wqExec compFn t l x m = .done m' notes st) :
    WqMove compFn t m l m' notes st := by
  cases l with
  | idle =>
      cases x with
      | testAndWait shouldBlock =>
          obtain ⟨wq₁, htest, h⟩ := Effect.call_eq_done.mp h
          rw [eq_of_waitQueueTest htest] at h
          rcases wqLoop_eq_done h with ⟨rfl, rfl, rfl⟩ | ⟨wq, hp, c, hb, rfl, rfl, rfl⟩
          · exact .pass
          · exact .block hb
      | signal lockMutex =>
          cases h
          exact .signal lockMutex
      | broadcast lockMutex =>
          obtain ⟨notes', hb, h⟩ := Effect.call_eq_done.mp h
          cases h
          exact .broadcast hb
  | wait =>
      cases x with
      | testAndWait shouldBlock =>
          rcases wqLoop_eq_done h with ⟨rfl, rfl, rfl⟩ | ⟨wq, hp, c, hb, rfl, rfl, rfl⟩
          · exact .leave rfl
          · exact .again rfl hb
      | signal lockMutex | broadcast lockMutex => cases h

end Moves

section Invariant

variable {compFn : WqAddr τ → WqAddr τ → Int} {spurious priorityFlag : Bool} {s s' : WqConfig τ}
  {L : Unit → List (WqAddr τ)} {t : τ} {x : WqCall} {notes : List (Note (WqCv (WqAddr τ)))}
  {st : Status (WqCv (WqAddr τ)) WqLoc}

/-- The condition variable a thread waits on. -/
def wqCvOf (priorityFlag : Bool) (t : τ) : WqCv (WqAddr τ) :=
  if priorityFlag then .thread (.waitGlue t) else .queue .head

/-- A status that a thread can have. -/
def WqPlaced (priorityFlag : Bool) (t : τ) : Status (WqCv (WqAddr τ)) WqLoc → Prop
  | .running l => l = .idle
  | .waiting c l | .notified c l => c = wqCvOf priorityFlag t ∧ l = .wait

/-- In the wait of the queue. -/
def WqLoc.isWait : WqLoc → Bool
  | .wait => true
  | .idle => false

/-- The queue and its list describe the threads `inWait`, of which there are `k`. -/
structure QueueOk (priorityFlag : Bool) (m : WqMem τ) (inWait : τ → Prop) (k : Nat) : Prop where
  list : ∃ L : Unit → List (WqAddr τ), Forest m.heap (fun _ => .head) L (fun a => a ≠ .head) ∧
    ∀ t, .waitGlue t ∈ L () ↔ priorityFlag = true ∧ inWait t
  count : m.wq.threadWaitCount = k % 2 ^ 32
  flag : m.wq.priorityFlag = priorityFlag

section QueueOk

variable {m : WqMem τ} {inWait : τ → Prop} {k : Nat}

omit [DecidableEq τ] [Fintype τ] in
theorem QueueOk.congr {inWait' : τ → Prop} (h : QueueOk priorityFlag m inWait k)
    (hiff : ∀ t, inWait' t ↔ inWait t) : QueueOk priorityFlag m inWait' k where
  list := by
    obtain ⟨L, hforest, hmem⟩ := h.list
    exact ⟨L, hforest, fun t => by rw [hmem, hiff]⟩
  count := h.count
  flag := h.flag

theorem length_le_of_forest {hp : Heap (WqAddr τ)} {L : Unit → List (WqAddr τ)}
    (h : Forest hp (fun _ => .head) L (fun a => a ≠ .head)) :
    (L ()).length ≤ Fintype.card τ := by
  apply length_le_card WqAddr.waitGlue (h.nodup ())
  intro a ha
  cases a with
  | head => exact absurd rfl (h.sub () _ ha)
  | waitGlue t => exact ⟨t, rfl⟩

/-- A thread joins the wait. -/
theorem QueueOk.block (h : QueueOk priorityFlag m inWait k)
    (compFn : WqAddr τ → WqAddr τ → Int) (ht : ¬ inWait t)
    (hcached : m.wq.applnMutex.isSome = true) :
    ∃ hp, waitQueueBlock compFn (Fintype.card τ) m.wq m.heap .head (.waitGlue t) =
        some (m.wq.countUp, hp, wqCvOf priorityFlag t) ∧
      QueueOk priorityFlag ⟨m.wq.countUp, hp⟩ (fun u => u = t ∨ inWait u) (k + 1) := by
  have hcount : m.wq.countUp.threadWaitCount = (k + 1) % 2 ^ 32 := by
    show countUp 32 m.wq.threadWaitCount = _
    rw [h.count, countUp_mod]
  obtain ⟨L, hforest, hmem⟩ := h.list
  have hflag := h.flag
  cases priorityFlag with
  | true =>
      have hfree : ∀ j, .waitGlue t ∉ L j := fun _ hin => ht ((hmem t).mp hin).2
      obtain ⟨hp, hblock, hforest'⟩ := waitQueueBlock_priority (i := ()) hforest hflag hcached
        (by simp) hfree (length_le_of_forest hforest)
      refine ⟨hp, hblock, ⟨_, hforest', fun u => ?_⟩, hcount, hflag⟩
      rw [Function.update_self, (perm_insertBefore _ _ _).mem_iff, List.mem_cons, hmem]
      simp
  | false =>
      refine ⟨m.heap, waitQueueBlock_common hflag hcached _, ⟨L, hforest, fun u => ?_⟩, hcount, hflag⟩
      rw [hmem]
      simp

omit [Fintype τ] in
/-- A thread leaves the wait. -/
theorem QueueOk.resume (h : QueueOk priorityFlag m inWait (k + 1)) (ht : inWait t) :
    (waitQueueResume m.wq m.heap (.waitGlue t)).1 = m.wq.countDown ∧
      QueueOk priorityFlag ⟨m.wq.countDown, (waitQueueResume m.wq m.heap (.waitGlue t)).2⟩
        (fun u => u ≠ t ∧ inWait u) k := by
  have hcount : m.wq.countDown.threadWaitCount = k % 2 ^ 32 := by
    show countDown 32 m.wq.threadWaitCount = _
    rw [h.count, countDown_mod]
  obtain ⟨L, hforest, hmem⟩ := h.list
  have hflag := h.flag
  cases priorityFlag with
  | true =>
      have hin : .waitGlue t ∈ L () := (hmem t).mpr ⟨rfl, ht⟩
      obtain ⟨hwq, hforest'⟩ := waitQueueResume_priority hforest hflag hin
      refine ⟨hwq, ⟨_, hforest', fun u => ?_⟩, hcount, hflag⟩
      rw [Function.update_self, (hforest.nodup ()).mem_erase_iff, hmem]
      simp
  | false =>
      rw [waitQueueResume_common hflag]
      refine ⟨rfl, ⟨L, hforest, fun u => ?_⟩, hcount, hflag⟩
      rw [hmem]
      simp

omit [DecidableEq τ] [Fintype τ] in
theorem QueueOk.cacheMutex (h : QueueOk priorityFlag m inWait k) :
    QueueOk priorityFlag ⟨m.wq.cacheMutex (), m.heap⟩ inWait k :=
  ⟨h.list, h.count, h.flag⟩

end QueueOk

/-- The number of threads in the wait. -/
def waitTally (s : WqConfig τ) : Nat := tally s.thr fun l => l.isWait.toNat

/-- The invariant of all runs. -/
structure WqInv (priorityFlag : Bool) (s : WqConfig τ) : Prop where
  queue : QueueOk priorityFlag s.mem (fun t => (s.thr t).loc = .wait) (waitTally s)
  cached : ∀ t, (s.thr t).loc = .wait → s.mem.wq.applnMutex.isSome = true
  placed : ∀ t, WqPlaced priorityFlag t (s.thr t)

omit [DecidableEq τ] in
theorem WqInv.init : WqInv priorityFlag (freshQueue τ priorityFlag) where
  queue := by
    refine ⟨⟨fun _ => [], ⟨fun _ => ⟨rfl, trivial⟩, fun _ => List.nodup_nil, ?_, ?_, ?_, ?_,
      fun _ _ _ => rfl⟩, ?_⟩, ?_, rfl⟩
    · intro i j hij
      exact absurd (Subsingleton.elim i j) hij
    · intro _ a ha
      cases ha
    · intro _ hne
      exact hne rfl
    · intro i j _
      exact Subsingleton.elim i j
    · intro t
      simp [freshQueue]
    · have hzero : waitTally (freshQueue τ priorityFlag) = 0 := tally_eq_zero.mpr fun _ => rfl
      rw [hzero]
      rfl
  cached t ht := by cases ht
  placed _ := rfl

theorem WqInv.placed_step (h : WqInv priorityFlag s)
    (hran : (wqProgram compFn spurious).Ran s t x s' notes st) (hst : WqPlaced priorityFlag t st)
    (u : τ) : WqPlaced priorityFlag u (s'.thr u) :=
  hran.forall_status h.placed hst (fun _ _ _ hp => hp) u

/-- The other threads are in the wait if they were. -/
theorem isWait_step (hran : (wqProgram compFn spurious).Ran s t x s' notes st) (u : τ) :
    (s'.thr u).loc = .wait ↔ (if u = t then st.loc else (s.thr u).loc) = .wait := by
  split
  · next hu => rw [hu, hran.self]
  · next hu => rw [hran.loc_of_ne hu]

theorem waitTally_step (hran : (wqProgram compFn spurious).Ran s t x s' notes st) :
    waitTally s' + (s.thr t).loc.isWait.toNat = waitTally s + st.loc.isWait.toNat :=
  hran.tally fun l => l.isWait.toNat

/-- The queue once a thread that wakes up has taken itself off it. -/
theorem WqInv.resumed (h : WqInv priorityFlag s) (hl : (s.thr t).loc = .wait) {wq : WaitQueue Unit}
    {hp : Heap (WqAddr τ)}
    (hr : waitQueueResume s.mem.wq s.mem.heap (.waitGlue t) = (wq, hp)) :
    wq = s.mem.wq.countDown ∧ ∃ k, waitTally s = k + 1 ∧
      QueueOk priorityFlag ⟨wq, hp⟩ (fun u => u ≠ t ∧ (s.thr u).loc = .wait) k := by
  have hpos : 0 < waitTally s := by
    apply tally_pos.mpr
    exact ⟨t, by rw [hl]; exact Nat.one_pos⟩
  obtain ⟨k, hk⟩ : ∃ k, waitTally s = k + 1 := ⟨waitTally s - 1, by omega⟩
  have hold := h.queue
  rw [hk] at hold
  obtain ⟨hwq, hqueue⟩ := hold.resume hl
  rw [hr] at hwq hqueue
  change wq = s.mem.wq.countDown at hwq
  rw [← hwq] at hqueue
  exact ⟨hwq, k, hk, hqueue⟩

/-- **Every step keeps the invariant.** -/
theorem WqInv.step (h : WqInv priorityFlag s)
    (hran : (wqProgram compFn spurious).Ran s t x s' notes st) : WqInv priorityFlag s' := by
  have htally := waitTally_step hran
  have hwait := isWait_step hran
  have hmove := wqMove_of_exec hran.exec
  generalize hl : (s.thr t).loc = l at hmove htally
  generalize hm : s'.mem = m' at hmove
  -- the steps that leave the thread outside leave the queue as it is
  have hstay : l = .idle → st = .running .idle →
      (∀ u, (s'.thr u).loc = .wait ↔ (s.thr u).loc = .wait) ∧ waitTally s' = waitTally s := by
    rintro rfl rfl
    refine ⟨fun u => ?_, by simpa [WqLoc.isWait] using htally⟩
    rw [hwait]
    split
    · next hu => rw [hu, hl]; rfl
    · rfl
  cases hmove with
  | pass =>
      obtain ⟨hsame, hcount⟩ := hstay rfl rfl
      refine ⟨?_, ?_, h.placed_step hran rfl⟩
      · rw [hm, hcount]
        exact h.queue.cacheMutex.congr hsame
      · intro u _
        rw [hm]
        rfl
  | signal | broadcast =>
      obtain ⟨hsame, hcount⟩ := hstay rfl rfl
      refine ⟨?_, ?_, h.placed_step hran rfl⟩
      · rw [hm, hcount]
        exact h.queue.congr hsame
      · intro u hu
        rw [hm]
        exact h.cached u ((hsame u).mp hu)
  | @block wq hp c hb =>
      have hnot : ¬ (s.thr t).loc = .wait := by rw [hl]; simp
      obtain ⟨hp', hb', hqueue⟩ := h.queue.cacheMutex.block compFn hnot rfl
      rw [hb'] at hb
      cases hb
      have hcount : waitTally s' = waitTally s + 1 := by simpa [WqLoc.isWait] using htally
      refine ⟨?_, ?_, h.placed_step hran ⟨rfl, rfl⟩⟩
      · rw [hm, hcount]
        apply hqueue.congr
        intro u
        rw [hwait]
        by_cases hu : u = t <;> simp [hu]
      · intro u _
        rw [hm]
        rfl
  | @leave wq hp hr =>
      obtain ⟨hwq, k, hk, hqueue⟩ := h.resumed hl hr
      have hcount : waitTally s' = k := by
        simp only [WqLoc.isWait, Bool.toNat_true, Status.loc_running, Bool.toNat_false] at htally
        omega
      refine ⟨?_, ?_, h.placed_step hran rfl⟩
      · rw [hm, hcount]
        apply hqueue.congr
        intro u
        rw [hwait]
        by_cases hu : u = t <;> simp [hu]
      · intro u _
        rw [hm, hwq]
        exact h.cached t hl
  | @again wq wq' hp hp' c hr hb =>
      obtain ⟨hwq, k, hk, hqueue⟩ := h.resumed hl hr
      obtain ⟨hp₂, hb', hqueue'⟩ := hqueue.block compFn (t := t) (by simp) (by
        rw [hwq]
        exact h.cached t hl)
      rw [hb'] at hb
      cases hb
      have hcount : waitTally s' = k + 1 := by
        simp only [WqLoc.isWait, Bool.toNat_true, Status.loc_waiting] at htally
        omega
      refine ⟨?_, ?_, h.placed_step hran ⟨rfl, rfl⟩⟩
      · rw [hm, hcount]
        apply hqueue'.congr
        intro u
        rw [hwait]
        by_cases hu : u = t <;> simp [hu]
      · intro u _
        rw [hm, hwq]
        exact h.cached t hl

/-- A spurious wake-up leaves the queue as it is. -/
theorem WqInv.woken (h : WqInv priorityFlag s) {c : WqCv (WqAddr τ)} {l : WqLoc}
    (hw : s.thr t = .waiting c l) :
    WqInv priorityFlag ⟨s.mem, Function.update s.thr t (.notified c l)⟩ := by
  have hloc : ∀ u, (Function.update s.thr t (.notified c l) u).loc = (s.thr u).loc :=
    loc_update_notified hw
  refine ⟨?_, ?_, ?_⟩
  · rw [show waitTally ⟨s.mem, Function.update s.thr t (.notified c l)⟩ = waitTally s from
      tally_congr hloc _]
    exact h.queue.congr fun u => by rw [hloc]
  · intro u hu
    exact h.cached u (hloc u ▸ hu)
  · exact forall_status_of_woken hw h.placed fun _ _ _ hp => hp

theorem wqInv_reachable (h : (wqMachine compFn spurious priorityFlag).Reachable s) :
    WqInv priorityFlag s := by
  apply Program.invariant _ _ _ h
  · rintro s rfl
    exact .init
  · intro s t x picks s' notes st hinv _ hran
    exact hinv.step hran
  · intro s t c l hinv _ hw
    exact hinv.woken hw

/-- No step fails: the mutex was caught by then, and an insertion always finds its place. -/
theorem wqExec_ne_abort (h : WqInv priorityFlag s) : wqExec compFn t (s.thr t).loc x s.mem ≠ .abort := by
  have hloop : ∀ {m : WqMem τ} {inWait : τ → Prop} {k : Nat} {b : Bool},
      QueueOk priorityFlag m inWait k → ¬ inWait t → m.wq.applnMutex.isSome = true →
        wqLoop compFn t b m ≠ .abort := by
    intro m inWait k b hqueue ht hcached
    obtain ⟨hp, hblock, -⟩ := hqueue.block compFn ht hcached
    unfold wqLoop
    split
    · simp [hblock, Effect.call]
    · simp
  cases hl : (s.thr t).loc with
  | idle =>
      cases x with
      | testAndWait b =>
          have htest : waitQueueTest s.mem.wq (some t) (some ()) = some (s.mem.wq.cacheMutex ()) :=
            waitQueueTest_eq fun _ _ => rfl
          simp only [wqExec, htest, Effect.call]
          exact hloop h.queue.cacheMutex (by rw [hl]; simp) rfl
      | signal lockMutex => simp [wqExec]
      | broadcast lockMutex =>
          obtain ⟨L, hforest, -⟩ := h.queue.list
          have hiter := hforest.iterate (i := ()) (length_le_of_forest hforest)
          simp only [wqExec, waitQueueBroadcast, hiter]
          split
          · simp [Effect.call]
          · split
            · simp [Effect.call]
            · split <;> simp [Effect.call]
  | wait =>
      cases x with
      | testAndWait b =>
          have hpos : 0 < waitTally s := tally_pos.mpr ⟨t, by rw [hl]; exact Nat.one_pos⟩
          obtain ⟨k, hk⟩ : ∃ k, waitTally s = k + 1 := ⟨waitTally s - 1, by omega⟩
          have hold := h.queue
          rw [hk] at hold
          obtain ⟨hwq, hqueue⟩ := hold.resume hl
          rw [← hwq] at hqueue
          exact hloop hqueue (by simp) (h.cached t hl)
      | signal lockMutex | broadcast lockMutex => simp [wqExec]

end Invariant

section Signals

variable {compFn : WqAddr τ → WqAddr τ → Int} {spurious priorityFlag : Bool} {s s' : WqConfig τ}
  {t u : τ} {picks : List (Option τ)} {lockMutex : Bool}

/-- The threads that wait without having been notified. -/
def blocked (s : WqConfig τ) : Finset τ :=
  Finset.univ.filter fun t => (s.thr t).isWaiting = true

/-- The threads that were notified between two states. -/
def notifiedSince (s s' : WqConfig τ) : Finset τ := blocked s \ blocked s'

/-- The blocked threads that the next signal can reach. -/
def inReach (s : WqConfig τ) : Finset τ :=
  (blocked s).filter fun t => s.mem.wq.threadWaitCount ≠ 0 ∧
    (s.mem.wq.priorityFlag = false ∨ base s.mem.heap .head = some (.waitGlue t))

/-- What one signal does to the threads. -/
inductive Signalled (s s' : WqConfig τ) : Prop
  | lost (hmem : s'.mem = s.mem) (hthr : s'.thr = s.thr) (hnone : inReach s = ∅)
  | reached (v : τ) (c : WqCv (WqAddr τ)) (hmem : s'.mem = s.mem) (hv : v ∈ inReach s)
      (hthr : s'.thr = Function.update s.thr v (.notified c .wait))

omit [DecidableEq τ] in
theorem mem_blocked : t ∈ blocked s ↔ (s.thr t).isWaiting = true := by
  simp [blocked]

theorem mem_inReach : t ∈ inReach s ↔ (s.thr t).isWaiting = true ∧
    s.mem.wq.threadWaitCount ≠ 0 ∧
      (s.mem.wq.priorityFlag = false ∨ base s.mem.heap .head = some (.waitGlue t)) := by
  simp [inReach, mem_blocked]

omit [DecidableEq τ] in
theorem WqInv.waiting_of_isWaiting (h : WqInv priorityFlag s) (hw : (s.thr t).isWaiting = true) :
    s.thr t = .waiting (wqCvOf priorityFlag t) .wait := by
  obtain ⟨c, l, hthr⟩ := Status.isWaiting_iff.mp hw
  have hp := h.placed t
  rw [hthr] at hp ⊢
  rw [hp.1, hp.2]

/-- The signal that `wait_queue_signal` sends is for the threads in reach. -/
theorem WqInv.signal_notes (h : WqInv priorityFlag s) (lockMutex : Bool) :
    (waitQueueSignal s.mem.wq s.mem.heap .head lockMutex = [] ∧ inReach s = ∅) ∨
      ∃ c, waitQueueSignal s.mem.wq s.mem.heap .head lockMutex = [.signal c] ∧
        ∀ v, v ∈ inReach s ↔ s.thr v = .waiting c .wait := by
  have hnone : (∀ v, (s.thr v).isWaiting = true → s.mem.wq.threadWaitCount ≠ 0 →
      ¬ (s.mem.wq.priorityFlag = false ∨ base s.mem.heap .head = some (.waitGlue v))) →
      inReach s = ∅ := by
    intro hall
    apply Finset.eq_empty_of_forall_notMem
    intro v hv
    obtain ⟨hw, hcount, hcase⟩ := mem_inReach.mp hv
    exact hall v hw hcount hcase
  unfold waitQueueSignal
  split
  · next hmutex =>
    refine .inl ⟨rfl, hnone fun v hw _ => ?_⟩
    -- without a cached mutex nobody waits
    have hcached := h.cached v (by rw [h.waiting_of_isWaiting hw]; rfl)
    simp [Option.isNone_eq_false_iff.mpr hcached] at hmutex
  · split
    · next hzero =>
      refine .inl ⟨rfl, hnone fun v _ hcount => ?_⟩
      exact absurd (by simpa using hzero) hcount
    · next hcount =>
      have hcount : s.mem.wq.threadWaitCount ≠ 0 := by simpa using hcount
      have hflag := h.queue.flag
      split
      · next hcommon =>
        have hcommon : s.mem.wq.priorityFlag = false := by simpa using hcommon
        -- an ordinary queue: everybody waits on the same condition variable
        refine .inr ⟨.queue .head, rfl, fun v => ?_⟩
        rw [mem_inReach]
        constructor
        · rintro ⟨hw, -, -⟩
          rw [h.waiting_of_isWaiting hw, ← hflag, hcommon]
          rfl
        · intro hthr
          exact ⟨by rw [hthr]; rfl, hcount, .inl hcommon⟩
      · next hprio =>
        have hprio : s.mem.wq.priorityFlag = true := by simpa using hprio
        -- a priority queue: the signal is for the thread of the first cell
        obtain ⟨L, hforest, hmem⟩ := h.queue.list
        split
        · next hbase =>
          refine .inl ⟨rfl, hnone fun v _ _ => ?_⟩
          simp [hbase, hprio]
        · next a hbase =>
          refine .inr ⟨.thread a, rfl, fun v => ?_⟩
          rw [mem_inReach, hbase, hprio]
          constructor
          · rintro ⟨hw, -, hcase⟩
            have ha : a = .waitGlue v := by simpa using hcase
            rw [h.waiting_of_isWaiting hw, ← hflag, hprio, ha]
            rfl
          · intro hthr
            have hw : (s.thr v).isWaiting = true := by rw [hthr]; rfl
            have hthr' := h.waiting_of_isWaiting hw
            rw [hthr, ← hflag, hprio] at hthr'
            have ha : a = .waitGlue v := by
              injection hthr' with hc
              simpa [wqCvOf] using hc
            exact ⟨hw, hcount, .inr (by rw [ha])⟩

/-- One call of `wait_queue_signal`. -/
theorem WqInv.signalled (h : WqInv priorityFlag s) (hidle : s.thr u = .running .idle)
    (hstep : (wqProgram compFn spurious).step s (.run u (.signal lockMutex) picks) = .next s') :
    Signalled s s' := by
  have hexec : (wqProgram compFn spurious).exec u (s.thr u).loc (.signal lockMutex) s.mem =
      .done s.mem (waitQueueSignal s.mem.wq s.mem.heap .head lockMutex) (.running .idle) := by
    rw [hidle]
    rfl
  have hself : Function.update s.thr u (.running .idle) = s.thr := by
    rw [← hidle, Function.update_eq_self]
  have hmem : s'.mem = s.mem := by
    obtain ⟨notes, st, hran⟩ := Program.ran_of_step hstep
    have := hran.exec
    rw [hexec] at this
    injection this with hmem
    exact hmem.symm
  rcases h.signal_notes lockMutex with ⟨hnotes, hnone⟩ | ⟨c, hnotes, hreach⟩
  · rw [hnotes] at hexec
    rw [Program.step_of_silent picks (by rw [hidle]; rfl) hexec, hself] at hstep
    cases hstep
    exact .lost rfl rfl hnone
  · rw [hnotes] at hexec
    rcases Program.signal_of_step hexec hstep with ⟨hno, hthr⟩ | ⟨v, l, hvu, hv, hthr⟩
    · refine .lost hmem (hthr.trans hself) ?_
      apply Finset.eq_empty_of_forall_notMem
      intro v hv
      exact hno v _ ((hreach v).mp hv)
    · have hl : l = .wait := by
        have hp := h.placed v
        rw [hv] at hp
        exact hp.2
      rw [hl] at hv
      refine .reached v c hmem ((hreach v).mpr hv) ?_
      rw [hthr, hl, Function.update_comm hvu, hself]

theorem Signalled.blocked_subset (h : Signalled s s') : blocked s' ⊆ blocked s := by
  cases h with
  | lost hmem hthr =>
      unfold blocked
      rw [hthr]
  | reached v c hmem hv hthr =>
      intro w hw
      rw [mem_blocked, hthr] at hw
      by_cases hwv : w = v
      · rw [hwv, Function.update_self] at hw
        cases hw
      · rw [Function.update_of_ne hwv] at hw
        exact mem_blocked.mpr hw

/-- A signal takes one thread out of reach, if there is one. -/
theorem Signalled.erase (h : Signalled s s') :
    (blocked s' = blocked s ∧ inReach s' = inReach s ∧ inReach s = ∅) ∨
      ∃ v ∈ inReach s, blocked s' = (blocked s).erase v ∧ inReach s' = (inReach s).erase v := by
  cases h with
  | lost hmem hthr hnone =>
      refine .inl ⟨?_, ?_, hnone⟩
      · unfold blocked
        rw [hthr]
      · ext w
        rw [mem_inReach, mem_inReach, hmem, hthr]
  | reached v c hmem hv hthr =>
      have hwaiting : ∀ w, (s'.thr w).isWaiting = true ↔ w ≠ v ∧ (s.thr w).isWaiting = true := by
        intro w
        rw [hthr]
        by_cases hwv : w = v
        · simp [hwv]
        · simp [hwv]
      refine .inr ⟨v, hv, ?_, ?_⟩
      · ext w
        rw [Finset.mem_erase, mem_blocked, mem_blocked, hwaiting]
      · ext w
        rw [Finset.mem_erase, mem_inReach, mem_inReach, hwaiting, hmem, and_assoc]

/-- Only calls of `wait_queue_signal`. -/
def SignalsOnly (as : List (Act τ WqCall)) : Prop :=
  ∀ a ∈ as, ∃ u lockMutex picks, a = .run u (.signal lockMutex) picks

/-- A call of `wait_queue_signal` that is carried out is one signal. -/
theorem WqInv.signalled_of_step (h : WqInv priorityFlag s)
    (hstep : (wqMachine compFn spurious priorityFlag).step s (.run u (.signal lockMutex) picks) =
      .next s') : Signalled s s' := by
  obtain ⟨notes, st, hran⟩ := Program.ran_of_step hstep
  have hexec : wqExec compFn u (s.thr u).loc (.signal lockMutex) s.mem = .done s'.mem notes st :=
    hran.exec
  have hidle : s.thr u = .running .idle := by
    have hp := h.placed u
    have hawake := hran.awake
    cases hthr : s.thr u with
    | running l =>
        rw [hthr] at hp
        rw [show l = .idle from hp]
    | waiting c l =>
        rw [hthr] at hawake
        cases hawake
    | notified c l =>
        rw [hthr] at hp hexec
        rw [show l = .wait from hp.2] at hexec
        cases hexec
  exact h.signalled hidle hstep

/-- **Run of signals**: as many threads are notified as there are signals, up to those in reach. -/
theorem WqInv.signals (h : WqInv priorityFlag s) {as : List (Act τ WqCall)} (hall : SignalsOnly as)
    (hrun : (wqMachine compFn spurious priorityFlag).exec s as = .next s') :
    blocked s' ⊆ blocked s ∧
      (blocked s).card = (blocked s').card + min as.length (inReach s).card := by
  induction as generalizing s with
  | nil =>
      cases hrun
      simp
  | cons a as ih =>
      obtain ⟨u, lockMutex, picks, rfl⟩ := hall a (by simp)
      rw [Machine.exec_cons] at hrun
      cases hstep : (wqMachine compFn spurious priorityFlag).step s
          (.run u (.signal lockMutex) picks) with
      | blocked => simp [hstep, Outcome.bind] at hrun
      | abort => simp [hstep, Outcome.bind] at hrun
      | next s₁ =>
          simp only [hstep, Outcome.bind] at hrun
          have hsig := h.signalled_of_step hstep
          have hinv : WqInv priorityFlag s₁ := by
            obtain ⟨notes, st, hran⟩ := Program.ran_of_step hstep
            exact h.step hran
          obtain ⟨hsub, hcard⟩ := ih hinv (fun b hb => hall b (by simp [hb])) hrun
          refine ⟨hsub.trans hsig.blocked_subset, ?_⟩
          rw [List.length_cons]
          rcases hsig.erase with ⟨hblocked, hreach, hnone⟩ | ⟨v, hv, hblocked, hreach⟩
          · rw [← hblocked, hcard, hreach, hnone]
            simp
          · have hvb : v ∈ blocked s := Finset.mem_of_mem_filter v hv
            have hpos := Finset.card_pos.mpr ⟨v, hv⟩
            have hpos' := Finset.card_pos.mpr ⟨v, hvb⟩
            rw [hblocked, hreach, Finset.card_erase_of_mem hvb, Finset.card_erase_of_mem hv] at hcard
            omega

/-- `k` signals reach as many blocked threads as they should: there is nothing to do, or
`thread_wait_count` is not zero and either all threads wait on the common condition variable, or one
notification is enough and the thread at the head of the list still waits for it. -/
def SignalsReach (s : WqConfig τ) (k : Nat) : Prop :=
  min k (blocked s).card = 0 ∨
    (s.mem.wq.threadWaitCount ≠ 0 ∧
      (s.mem.wq.priorityFlag = false ∨
        (min k (blocked s).card = 1 ∧
          ∃ v ∈ blocked s, base s.mem.heap .head = some (.waitGlue v))))

theorem card_inReach_common (hcount : s.mem.wq.threadWaitCount ≠ 0)
    (hcommon : s.mem.wq.priorityFlag = false) : inReach s = blocked s := by
  ext v
  simp [mem_inReach, mem_blocked, hcount, hcommon]

theorem card_inReach_le_one (hprio : s.mem.wq.priorityFlag = true) : (inReach s).card ≤ 1 := by
  apply Finset.card_le_one.mpr
  intro v hv w hw
  have hbv : base s.mem.heap .head = some (.waitGlue v) := by
    simpa [hprio] using (mem_inReach.mp hv).2.2
  have hbw : base s.mem.heap .head = some (.waitGlue w) := by
    simpa [hprio] using (mem_inReach.mp hw).2.2
  rw [hbv] at hbw
  simpa using hbw

/-- What the condition says about the threads in reach. -/
theorem signalsReach_iff {k : Nat} :
    SignalsReach s k ↔ min k (inReach s).card = min k (blocked s).card := by
  have hsub : (inReach s).card ≤ (blocked s).card :=
    Finset.card_le_card (Finset.filter_subset _ _)
  constructor
  · rintro (hzero | ⟨hcount, hcommon | ⟨hone, v, hv, hbase⟩⟩)
    · omega
    · rw [card_inReach_common hcount hcommon]
    · have hmem : v ∈ inReach s :=
        mem_inReach.mpr ⟨mem_blocked.mp hv, hcount, .inr hbase⟩
      have hpos := Finset.card_pos.mpr ⟨v, hmem⟩
      omega
  · intro heq
    by_cases hzero : min k (blocked s).card = 0
    · exact .inl hzero
    · -- a signal that is due finds somebody in reach
      have hpos : 0 < (inReach s).card := by omega
      obtain ⟨v, hv⟩ := Finset.card_pos.mp hpos
      obtain ⟨hw, hcount, hcase⟩ := mem_inReach.mp hv
      refine .inr ⟨hcount, ?_⟩
      cases hprio : s.mem.wq.priorityFlag with
      | false => exact .inl rfl
      | true =>
          have hle := card_inReach_le_one hprio
          rw [hprio] at hcase
          exact .inr ⟨by omega, v, mem_blocked.mpr hw, by simpa using hcase⟩

/-- **Whom signals reach**: `k` calls of `wait_queue_signal` in a row notify as many threads as they
should, exactly under the condition above. -/
theorem signals_notify (h : (wqMachine compFn spurious priorityFlag).Reachable s)
    {as : List (Act τ WqCall)} (hall : SignalsOnly as)
    (hrun : (wqMachine compFn spurious priorityFlag).exec s as = .next s') :
    (notifiedSince s s').card = min as.length (blocked s).card ↔ SignalsReach s as.length := by
  obtain ⟨hsub, hcard⟩ := (wqInv_reachable h).signals hall hrun
  have hnotified : (notifiedSince s s').card = min as.length (inReach s).card := by
    unfold notifiedSince
    rw [Finset.card_sdiff_of_subset hsub, hcard]
    omega
  rw [hnotified, signalsReach_iff]

/-- Two threads block. -/
def twoBlocked (a b : τ) : List (Act τ WqCall) :=
  [.run a (.testAndWait true) [], .run b (.testAndWait true) []]

theorem signals_notify_trace :
    ∃ s s' : WqConfig (Fin 3),
      (wqMachine (fun _ _ => 1) false false).exec s
        [.run 2 (.signal true) [some 1], .run 2 (.signal false) [some 0]] = .next s' ∧
      (notifiedSince s s').card = 2 := by
  have hrun : ((wqMachine (fun _ _ => 1) false false).exec (freshQueue (Fin 3) false)
      (twoBlocked 0 1)).holds (fun s =>
        decide ((blocked s).card = 2 ∧ s.mem.wq.threadWaitCount ≠ 0 ∧
          s.mem.wq.priorityFlag = false) &&
        ((wqMachine (fun _ _ => 1) false false).exec s
          [.run 2 (.signal true) [some 1], .run 2 (.signal false) [some 0]]).holds
            fun _ => true) = true := by
    decide +kernel
  obtain ⟨s, hs, hp⟩ := Machine.exists_reachable_of_exec rfl hrun
  obtain ⟨hstate, hnext⟩ := Bool.and_eq_true_iff.mp hp
  obtain ⟨hblocked, hcount, hcommon⟩ := of_decide_eq_true hstate
  obtain ⟨s', hs', -⟩ := Outcome.holds_iff.mp hnext
  have hsignals : SignalsOnly
      [.run 2 (.signal true) [some 1], (.run 2 (.signal false) [some 0] : Act (Fin 3) WqCall)] := by
    simp [SignalsOnly]
  refine ⟨s, s', hs', ?_⟩
  rw [(signals_notify hs hsignals hs').mpr (.inr ⟨hcount, .inl hcommon⟩), hblocked]
  rfl

/-- In the priority mode the second signal goes to the thread that the first one notified. -/
theorem signals_wasted :
    ∃ s s' : WqConfig (Fin 3), (wqMachine (fun _ _ => 1) false true).Reachable s ∧
      (wqMachine (fun _ _ => 1) false true).exec s
        [.run 2 (.signal true) [some 0], .run 2 (.signal true) [none]] = .next s' ∧
      (blocked s).card = 2 ∧ (notifiedSince s s').card = 1 ∧
      s'.thr 1 = .waiting (.thread (.waitGlue 1)) .wait := by
  have hrun : ((wqMachine (fun _ _ => 1) false true).exec (freshQueue (Fin 3) true)
      (twoBlocked 0 1)).holds (fun s =>
        ((wqMachine (fun _ _ => 1) false true).exec s
          [.run 2 (.signal true) [some 0], .run 2 (.signal true) [none]]).holds fun s' =>
            decide ((blocked s).card = 2 ∧ (notifiedSince s s').card = 1 ∧
              s'.thr 1 = .waiting (.thread (.waitGlue 1)) .wait)) = true := by
    decide +kernel
  obtain ⟨s, hs, hp⟩ := Machine.exists_reachable_of_exec rfl hrun
  obtain ⟨s', hs', hp'⟩ := Outcome.holds_iff.mp hp
  exact ⟨s, s', hs, hs', of_decide_eq_true hp'⟩

end Signals

end ThreadLib
end MultithreadingBible
