import MultithreadingBible.FifoWaitQueue.Machine

/-!
# FIFO wait queues: the list and the history

`fifo_thread_q` links the `cv_t`s of the threads that stand blocked in the history (`Links`, `QueueOk`).

* `fifoExec_spec` — what a step does to the queue and to the history, without the heap.
* `FifoInv` — which of the events of a thread is the last one while it is in the wait: that it blocked, or
  that it was signalled.  It holds in every reachable state (`fifoInv_reachable`).
-/

namespace MultithreadingBible
namespace FifoWaitQueue

open Lib GlueThread

variable {τ : Type*}

section History

variable [DecidableEq τ] {log : List (Event τ WqEventKind)} {t u : τ}

theorem mem_waitingThreads : t ∈ waitingThreads log ↔ lastKind t log = some .blocked := by
  unfold waitingThreads
  rw [mem_standing]
  constructor
  · rintro ⟨k, hk, hp⟩
    rw [hk, eq_of_beq hp]
  · intro h
    exact ⟨.blocked, h, rfl⟩

theorem mem_signalledThreads : t ∈ signalledThreads log ↔ lastKind t log = some .signalled := by
  unfold signalledThreads
  rw [mem_standing]
  constructor
  · rintro ⟨k, hk, hp⟩
    rw [hk, eq_of_beq hp]
  · intro h
    exact ⟨.signalled, h, rfl⟩

theorem nodup_waitingThreads (log : List (Event τ WqEventKind)) : (waitingThreads log).Nodup :=
  nodup_standing _ log

/-- A thread that blocks is the last one. -/
theorem waitingThreads_blocked (ht : t ∉ waitingThreads log) :
    waitingThreads (log ++ [⟨t, .blocked⟩]) = waitingThreads log ++ [t] := by
  unfold waitingThreads at ht ⊢
  rw [standing_concat_of_mem rfl, List.erase_of_not_mem ht]

/-- A thread that resumes is not waiting any more. -/
theorem waitingThreads_resumed :
    waitingThreads (log ++ [⟨t, .resumed⟩]) = (waitingThreads log).erase t :=
  standing_concat_of_not_mem rfl

/-- When the first threads are signalled, the others are left in order. -/
theorem waitingThreads_signalled {ts rest : List τ} (h : waitingThreads log = ts ++ rest) :
    waitingThreads (log ++ ts.map fun t => ⟨t, .signalled⟩) = rest :=
  standing_append_drop rfl h

end History

/-- The notifications that reach the given threads. -/
def signalsTo (ts : List τ) : List (Note (WqCv τ)) :=
  ts.map fun t => .signal (.thread (.glue t))

theorem mem_signalsTo {ts : List τ} {c : WqCv τ} :
    Note.signal c ∈ signalsTo ts ↔ ∃ t ∈ ts, c = .thread (.glue t) := by
  unfold signalsTo
  rw [List.mem_map]
  constructor
  · rintro ⟨t, ht, heq⟩
    injection heq with hc
    exact ⟨t, ht, hc.symm⟩
  · rintro ⟨t, ht, hc⟩
    exact ⟨t, ht, by rw [hc]⟩

theorem broadcast_not_mem_signalsTo {ts : List τ} {c : WqCv τ} :
    Note.broadcast c ∉ signalsTo ts := by
  simp [signalsTo]

theorem filterMap_signalsTo (ts : List τ) :
    (signalsTo ts).filterMap signalEvent = ts.map fun t => ⟨t, .signalled⟩ := by
  unfold signalsTo
  rw [List.filterMap_map]
  induction ts with
  | nil => rfl
  | cons t ts ih => rw [List.filterMap_cons, List.map_cons, ih]; rfl

/-- The list of a FIFO queue links the `glue` of the given threads, in order. -/
def Links (hp : Heap (WqAddr τ)) (ts : List τ) : Prop :=
  Forest hp (fun _ : Unit => .fifoThreadQ) (fun _ => ts.map .glue) fun a => ∃ t, a = .glue t

section Links

variable {hp : Heap (WqAddr τ)} {ts : List τ} {t : τ}

theorem glue_injective : Function.Injective (WqAddr.glue : τ → WqAddr τ) := by
  intro t u h
  injection h

theorem links_init : Links (fun _ => Glthread.null : Heap (WqAddr τ)) [] := by
  refine ⟨fun _ => ⟨rfl, trivial⟩, fun _ => List.nodup_nil, ?_, ?_, ?_, fun _ _ _ => rfl, ?_⟩
  · intro i j hij
    exact absurd rfl hij
  · intro _ a ha
    cases ha
  · rintro _ ⟨t, ht⟩
    cases ht
  · intro a _ _
    rfl

variable [DecidableEq τ]

/-- New lists of the only queue. -/
private theorem update_unit {β : Type*} (f : Unit → β) (x : β) :
    Function.update f () x = fun _ => x := by
  funext u
  rw [Function.update_self]

theorem Links.length_le [Fintype τ] (h : Links hp ts) : ts.length ≤ Fintype.card τ := by
  have hlen := length_le_card WqAddr.glue (h.nodup ()) (h.sub ())
  rwa [List.length_map] at hlen

theorem Links.iterate [Fintype τ] (h : Links hp ts) :
    iterateGlthread hp (Fintype.card τ) (base hp .fifoThreadQ) = some (ts.map .glue) := by
  apply Forest.iterate h (i := ())
  rw [List.length_map]
  exact h.length_le

/-- A new `cv_t` is not linked. -/
theorem Links.initGlthread_eq (h : Links hp ts) (ht : t ∉ ts) : initGlthread hp (.glue t) = hp := by
  have hnull : hp (.glue t) = Glthread.null := by
    apply Forest.unlinked h _ ⟨t, rfl⟩
    intro _ hmem
    exact ht ((List.mem_map_of_injective glue_injective).mp hmem)
  rw [initGlthread, ← hnull, Function.update_eq_self]

theorem Links.addLast [Fintype τ] (h : Links hp ts) (ht : t ∉ ts) :
    ∃ hp', glthreadAddLast (Fintype.card τ) hp .fifoThreadQ (.glue t) = some hp' ∧
      Links hp' (ts ++ [t]) := by
  have hfree : ∀ _ : Unit, WqAddr.glue t ∉ ts.map .glue := fun _ hmem =>
    ht ((List.mem_map_of_injective glue_injective).mp hmem)
  have hfuel : (ts.map WqAddr.glue).length ≤ Fintype.card τ := by
    rw [List.length_map]
    exact h.length_le
  obtain ⟨hp', hadd, hforest⟩ := Forest.addLast h (i := ()) ⟨t, rfl⟩ hfree hfuel
  refine ⟨hp', hadd, ?_⟩
  unfold Links
  rw [update_unit] at hforest
  rwa [List.map_append]

/-- A thread takes its `cv_t` off the list, if it is there. -/
theorem Links.remove (h : Links hp ts) (t : τ) : Links (removeGlthread hp (.glue t)) (ts.erase t) := by
  by_cases ht : t ∈ ts
  · have hforest := Forest.remove h (i := ()) (List.mem_map_of_mem ht)
    unfold Links
    rw [update_unit] at hforest
    rwa [List.map_erase glue_injective]
  · have hnull : hp (.glue t) = Glthread.null := by
      apply Forest.unlinked h _ ⟨t, rfl⟩
      intro _ hmem
      exact ht ((List.mem_map_of_injective glue_injective).mp hmem)
    rw [List.erase_of_not_mem ht]
    unfold removeGlthread
    rw [hnull]
    exact h

/-- The first `cv_t` is taken off the list. -/
theorem Links.dequeue_cons (h : Links hp (t :: ts)) :
    ∃ hp', dequeueGlthreadFirst hp .fifoThreadQ = (some (.glue t), hp') ∧ Links hp' ts := by
  rcases Forest.dequeueFirst h () with ⟨hnil, -⟩ | ⟨a, zs, hL, hdeq, hforest⟩
  · cases hnil
  · rw [List.map_cons] at hL
    injection hL with ha hzs
    refine ⟨_, ha ▸ hdeq, ?_⟩
    unfold Links
    rw [update_unit, ← hzs] at hforest
    rwa [ha]

theorem Links.dequeue_nil (h : Links hp []) :
    dequeueGlthreadFirst hp .fifoThreadQ = (none, hp) := by
  rcases Forest.dequeueFirst h () with ⟨-, hdeq⟩ | ⟨a, zs, hL, -, -⟩
  · exact hdeq
  · cases hL

end Links

section Moves

variable [DecidableEq τ]

/-- The queue is in its FIFO mode, and its list links the threads that stand blocked. -/
structure QueueOk (m : WqMem τ) : Prop where
  fifo : m.wq.isFifoEnabled = true
  links : Links m.heap (waitingThreads m.log)

/-- The threads that a call signals. -/
def released (wq : WaitQueue) (log : List (Event τ WqEventKind)) : WqCall → List τ
  | .testAndWait _ => []
  | .signal _ =>
      if wq.applnMutex && wq.threadWaitCount != 0 then (waitingThreads log).take 1 else []
  | .broadcast _ => if wq.applnMutex && wq.threadWaitCount != 0 then waitingThreads log else []

/-- Everything a thread can do to the queue and to the history. -/
inductive FifoMove (t : τ) (wq : WaitQueue) (log : List (Event τ WqEventKind)) :
    WqLoc → WqCall → WaitQueue → List (Event τ WqEventKind) → List (Note (WqCv τ)) →
      Status (WqCv τ) WqLoc → Prop
  | pass : FifoMove t wq log .idle (.testAndWait false) wq.cacheMutex log [] (.running .idle)
  | block : FifoMove t wq log .idle (.testAndWait true) wq.cacheMutex.countUp
      (log ++ [⟨t, .blocked⟩]) [] (.waiting (.thread (.glue t)) .wait)
  | release (x : WqCall) : FifoMove t wq log .idle x wq
      (log ++ (released wq log x).map fun t => ⟨t, .signalled⟩) (signalsTo (released wq log x))
      (.running .idle)
  | leave : FifoMove t wq log .wait (.testAndWait false) wq.countDown (log ++ [⟨t, .resumed⟩]) []
      (.running .idle)
  | again : FifoMove t wq log .wait (.testAndWait true) wq.countDown.countUp
      (log ++ [⟨t, .resumed⟩] ++ [⟨t, .blocked⟩]) [] (.waiting (.thread (.glue t)) .wait)

end Moves

section Specs

variable [DecidableEq τ] {m : WqMem τ} {hp : Heap (WqAddr τ)} {ts : List τ} {t : τ} {wq : WaitQueue}

/-- What a call signals is the begin of the list. -/
theorem released_append_drop (wq : WaitQueue) (log : List (Event τ WqEventKind)) (x : WqCall) :
    waitingThreads log =
      released wq log x ++ (waitingThreads log).drop (released wq log x).length := by
  cases x with
  | testAndWait shouldBlock => rfl
  | signal lockMutex =>
      cases hactive : wq.applnMutex && wq.threadWaitCount != 0 with
      | false => simp [released, hactive]
      | true =>
          have hfirst : released wq log (.signal lockMutex) = (waitingThreads log).take 1 :=
            if_pos hactive
          rw [hfirst]
          cases waitingThreads log with
          | nil => rfl
          | cons t ts => rfl
  | broadcast lockMutex =>
      cases hactive : wq.applnMutex && wq.threadWaitCount != 0 with
      | false => simp [released, hactive]
      | true => simp [released, hactive]

/-- A signal takes the first thread off the list. -/
theorem QueueOk.signal (h : QueueOk m) (lockMutex : Bool) : ∃ hp',
    waitQueueSignal m.wq m.heap = (signalsTo (released m.wq m.log (.signal lockMutex)), hp') ∧
      Links hp' ((waitingThreads m.log).drop (released m.wq m.log (.signal lockMutex)).length) := by
  have hlinks := h.links
  unfold waitQueueSignal released
  cases m.wq.applnMutex with
  | false => exact ⟨m.heap, rfl, hlinks⟩
  | true =>
      by_cases hzero : m.wq.threadWaitCount = 0
      · rw [hzero]
        exact ⟨m.heap, rfl, hlinks⟩
      · have hne : (m.wq.threadWaitCount == 0) = false := beq_false_of_ne hzero
        have hne' : (m.wq.threadWaitCount != 0) = true := bne_iff_ne.mpr hzero
        rw [hne, hne', h.fifo]
        cases hall : waitingThreads m.log with
        | nil =>
            rw [hall] at hlinks
            rw [hlinks.dequeue_nil]
            exact ⟨m.heap, rfl, hlinks⟩
        | cons t ts =>
            rw [hall] at hlinks
            obtain ⟨hp', hdeq, hlinks'⟩ := hlinks.dequeue_cons
            rw [hdeq]
            exact ⟨hp', rfl, hlinks'⟩

/-- The loop of a broadcast takes everything off the list. -/
theorem broadcastLoop_eq (h : Links hp ts) {fuel : Nat} (hfuel : ts.length ≤ fuel) :
    ∃ hp', broadcastLoop fuel hp = some (signalsTo ts, hp') ∧ Links hp' [] := by
  induction ts generalizing hp fuel with
  | nil =>
      have hdeq := h.dequeue_nil
      refine ⟨hp, ?_, h⟩
      cases fuel with
      | zero => unfold broadcastLoop; rw [hdeq]; rfl
      | succ fuel => unfold broadcastLoop; rw [hdeq]; rfl
  | cons t ts ih =>
      obtain ⟨hp₁, hdeq, hlinks⟩ := h.dequeue_cons
      cases fuel with
      | zero => exact absurd hfuel (Nat.not_succ_le_zero _)
      | succ fuel =>
          obtain ⟨hp', hloop, hnil⟩ := ih hlinks (Nat.le_of_succ_le_succ hfuel)
          refine ⟨hp', ?_, hnil⟩
          unfold broadcastLoop
          rw [hdeq]
          show (broadcastLoop fuel hp₁).map _ = _
          rw [hloop]
          rfl

theorem QueueOk.broadcast [Fintype τ] (h : QueueOk m) (lockMutex : Bool) : ∃ hp',
    waitQueueBroadcast (Fintype.card τ) m.wq m.heap =
        some (signalsTo (released m.wq m.log (.broadcast lockMutex)), hp') ∧
      Links hp' ((waitingThreads m.log).drop (released m.wq m.log (.broadcast lockMutex)).length) := by
  have hlinks := h.links
  unfold waitQueueBroadcast released
  cases m.wq.applnMutex with
  | false => exact ⟨m.heap, rfl, hlinks⟩
  | true =>
      by_cases hzero : m.wq.threadWaitCount = 0
      · rw [hzero]
        exact ⟨m.heap, rfl, hlinks⟩
      · have hne : (m.wq.threadWaitCount == 0) = false := beq_false_of_ne hzero
        have hne' : (m.wq.threadWaitCount != 0) = true := bne_iff_ne.mpr hzero
        obtain ⟨hp', hloop, hnil⟩ := broadcastLoop_eq hlinks hlinks.length_le
        rw [hne, hne', h.fifo]
        refine ⟨hp', hloop, ?_⟩
        show Links hp' ((waitingThreads m.log).drop (waitingThreads m.log).length)
        rwa [List.drop_length]

/-- A thread that is not on the list joins it at its end. -/
theorem waitQueueBlock_fifo [Fintype τ] (hfifo : wq.isFifoEnabled = true) (h : Links hp ts)
    (ht : t ∉ ts) (first : Bool) :
    ∃ hp', waitQueueBlock (Fintype.card τ) wq hp t first =
        some (wq.countUp, hp', .thread (.glue t)) ∧ Links hp' (ts ++ [t]) := by
  obtain ⟨hp', hadd, hlinks⟩ := h.addLast ht
  refine ⟨hp', ?_, hlinks⟩
  have hinit : (if first = true then initGlthread hp (.glue t) else hp) = hp := by
    split
    · exact h.initGlthread_eq ht
    · rfl
  unfold waitQueueBlock
  rw [if_pos hfifo]
  show (glthreadAddLast _ (if first = true then _ else hp) _ _).map _ = _
  rw [hinit, hadd]
  rfl

theorem waitQueueResume_fifo (hfifo : wq.isFifoEnabled = true) (hp : Heap (WqAddr τ)) (t : τ) :
    waitQueueResume wq hp t = (wq.countDown, removeGlthread hp (.glue t)) := by
  simp [waitQueueResume, hfifo]

/-- The queue after the thread has woken up. -/
theorem QueueOk.resume (h : QueueOk m) (t : τ) :
    QueueOk (⟨m.wq.countDown, removeGlthread m.heap (.glue t), m.log ++ [⟨t, .resumed⟩]⟩ :
      WqMem τ) := by
  refine ⟨h.fifo, ?_⟩
  show Links _ (waitingThreads (m.log ++ [⟨t, .resumed⟩]))
  rw [waitingThreads_resumed]
  exact h.links.remove t

/-- A call that signals leaves the rest on the list. -/
theorem QueueOk.release (h : QueueOk m) {hp' : Heap (WqAddr τ)} {x : WqCall}
    (hlinks : Links hp' ((waitingThreads m.log).drop (released m.wq m.log x).length)) :
    QueueOk (⟨m.wq, hp', m.log ++ (released m.wq m.log x).map fun t => ⟨t, .signalled⟩⟩ : WqMem τ) := by
  refine ⟨h.fifo, ?_⟩
  show Links hp' (waitingThreads (m.log ++ _))
  rwa [waitingThreads_signalled (released_append_drop m.wq m.log x)]

variable [Fintype τ] {l : WqLoc}

/-- A pass through the loop for a thread that is not on the list. -/
theorem fifoLoop_true (h : QueueOk m) (ht : t ∉ waitingThreads m.log) (first : Bool) :
    ∃ hp', fifoLoop t first true m =
        .done ⟨m.wq.countUp, hp', m.log ++ [⟨t, .blocked⟩]⟩ [] (.waiting (.thread (.glue t)) .wait) ∧
      QueueOk (⟨m.wq.countUp, hp', m.log ++ [⟨t, .blocked⟩]⟩ : WqMem τ) := by
  obtain ⟨hp', hblock, hlinks⟩ := waitQueueBlock_fifo h.fifo h.links ht first
  refine ⟨hp', ?_, h.fifo, ?_⟩
  · unfold fifoLoop
    rw [if_pos rfl, hblock]
    rfl
  · show Links hp' (waitingThreads (m.log ++ [⟨t, .blocked⟩]))
    rwa [waitingThreads_blocked ht]

/-- A step of a thread is one of the listed moves and keeps the list right, or the thread is in the wait
and has no such call. -/
theorem fifoExec_spec (h : QueueOk m) (hidle : l = .idle → t ∉ waitingThreads m.log) (x : WqCall) :
    fifoExec t l x m = .blocked ∨
      ∃ m' notes st, fifoExec t l x m = .done m' notes st ∧ QueueOk m' ∧
        FifoMove t m.wq m.log l x m'.wq m'.log notes st := by
  cases l with
  | idle =>
      cases x with
      | testAndWait shouldBlock =>
          have hcached : QueueOk { m with wq := m.wq.cacheMutex } := ⟨h.fifo, h.links⟩
          cases shouldBlock with
          | false => exact .inr ⟨_, _, _, rfl, hcached, .pass⟩
          | true =>
              obtain ⟨hp', hloop, hok⟩ := fifoLoop_true hcached (hidle rfl) true
              exact .inr ⟨_, _, _, hloop, hok, .block⟩
      | signal lockMutex =>
          obtain ⟨hp', hsig, hlinks⟩ := h.signal lockMutex
          refine .inr ⟨_, _, _, ?_, h.release hlinks, .release (.signal lockMutex)⟩
          unfold fifoExec
          rw [hsig]
          dsimp only
          rw [filterMap_signalsTo]
      | broadcast lockMutex =>
          obtain ⟨hp', hsig, hlinks⟩ := h.broadcast lockMutex
          refine .inr ⟨_, _, _, ?_, h.release hlinks, .release (.broadcast lockMutex)⟩
          unfold fifoExec
          rw [hsig]
          show Effect.done _ _ _ = _
          rw [filterMap_signalsTo]
  | wait =>
      cases x with
      | signal lockMutex => exact .inl rfl
      | broadcast lockMutex => exact .inl rfl
      | testAndWait shouldBlock =>
          have hresume := h.resume t
          have hexec : fifoExec t .wait (.testAndWait shouldBlock) m = fifoLoop t false shouldBlock
              ⟨m.wq.countDown, removeGlthread m.heap (.glue t), m.log ++ [⟨t, .resumed⟩]⟩ := by
            unfold fifoExec
            rw [waitQueueResume_fifo h.fifo]
          cases shouldBlock with
          | false => exact .inr ⟨_, _, _, hexec, hresume, .leave⟩
          | true =>
              have hfree : t ∉ waitingThreads (m.log ++ [⟨t, .resumed⟩]) := by
                rw [waitingThreads_resumed]
                exact (nodup_waitingThreads m.log).not_mem_erase
              obtain ⟨hp', hloop, hok⟩ := fifoLoop_true hresume hfree false
              exact .inr ⟨_, _, _, hexec.trans hloop, hok, .again⟩

end Specs

/-- Which event of a thread is its last one. -/
def FifoPlaced (t : τ) (last : Option WqEventKind) : Status (WqCv τ) WqLoc → Prop
  | .running l => l = .idle ∧ (last = none ∨ last = some .resumed)
  | .waiting c l => c = .thread (.glue t) ∧ l = .wait ∧ last = some .blocked
  | .notified c l => c = .thread (.glue t) ∧ l = .wait ∧
      (last = some .blocked ∨ last = some .signalled)

/-- A thread that was signalled or not stays right when it is notified. -/
theorem FifoPlaced.wake {last : Option WqEventKind} {c : WqCv τ} {l : WqLoc}
    (h : FifoPlaced t last (.waiting c l)) : FifoPlaced t last (.notified c l) :=
  ⟨h.1, h.2.1, .inl h.2.2⟩

section Invariant

variable [DecidableEq τ] [Fintype τ] {spurious : Bool} {s s' : WqConfig τ} {t u : τ} {x : WqCall}
  {notes : List (Note (WqCv τ))} {st : Status (WqCv τ) WqLoc}

/-- How much a thread adds to `thread_wait_count`. -/
def WqLoc.waits : WqLoc → Nat
  | .idle => 0
  | .wait => 1

/-- What holds of a FIFO wait queue and its threads. -/
structure FifoInv (s : WqConfig τ) : Prop where
  queue : QueueOk s.mem
  placed : ∀ t, FifoPlaced t (lastKind t s.mem.log) (s.thr t)
  count : s.mem.wq.threadWaitCount = tally s.thr WqLoc.waits % 2 ^ 32
  cached : ∀ t, (s.thr t).loc = .wait → s.mem.wq.applnMutex = true

theorem FifoInv.init : FifoInv (freshFifoQueue τ) where
  queue := ⟨rfl, links_init⟩
  placed t := ⟨rfl, .inl rfl⟩
  count := by
    have hzero : tally (freshFifoQueue τ).thr WqLoc.waits = 0 := tally_eq_zero.mpr fun _ => rfl
    rw [hzero]
    rfl
  cached t h := by cases h

/-- The last event of a thread that is in no call. -/
theorem FifoInv.idle (h : FifoInv s) (hl : (s.thr t).loc = .idle) :
    lastKind t s.mem.log = none ∨ lastKind t s.mem.log = some .resumed := by
  have hp := h.placed t
  cases hthr : s.thr t with
  | running l =>
      rw [hthr] at hp
      exact hp.2
  | waiting c l =>
      rw [hthr] at hp hl
      rw [show l = .wait from hp.2.1] at hl
      cases hl
  | notified c l =>
      rw [hthr] at hp hl
      rw [show l = .wait from hp.2.1] at hl
      cases hl

theorem FifoInv.not_mem_of_idle (h : FifoInv s) (hl : (s.thr t).loc = .idle) :
    t ∉ waitingThreads s.mem.log := by
  rw [mem_waitingThreads]
  intro hlast
  rcases h.idle hl with hnone | hresumed
  · rw [hnone] at hlast
    cases hlast
  · rw [hresumed] at hlast
    cases hlast

/-- The events of the moving thread are not those of the others. -/
theorem placed_of_ne (h : FifoInv s) (hran : (fifoProgram spurious).Ran s t x s' [] st)
    (hlog : ∀ u, u ≠ t → lastKind u s'.mem.log = lastKind u s.mem.log) (hu : u ≠ t) :
    FifoPlaced u (lastKind u s'.mem.log) (s'.thr u) := by
  rw [hran.other_of_nil hu, hlog u hu]
  exact h.placed u

/-- A released thread has been notified, the others are as before. -/
theorem FifoInv.released_thr (h : FifoInv s) {ts : List τ}
    (hts : ∀ u ∈ ts, u ∈ waitingThreads s.mem.log)
    (hran : (fifoProgram spurious).Ran s t x s' (signalsTo ts) st) (hu : u ≠ t) :
    s'.thr u = if u ∈ ts then (s.thr u).wake (.thread (.glue u)) else s.thr u := by
  have hp := h.placed u
  split
  · next hmem =>
    have hlast := mem_waitingThreads.mp (hts u hmem)
    cases hthr : s.thr u with
    | running l =>
        rw [hthr, hlast] at hp
        rcases hp.2 with hnone | hresumed
        · cases hnone
        · cases hresumed
    | waiting c l =>
        rw [hthr] at hp
        rw [show c = .thread (.glue u) from hp.1] at hthr ⊢
        -- only `u` waits on its condition variable, so the signal reaches it
        obtain ⟨v, l', hvt, hv, hv'⟩ := hran.signal (mem_signalsTo.mpr ⟨u, hmem, rfl⟩) ⟨u, l, hthr⟩
        have hpv := h.placed v
        rw [hv] at hpv
        have hvu : v = u := by
          have hglue := hpv.1
          injection hglue with hglue
          exact (glue_injective hglue).symm
        subst hvu
        rw [hthr] at hv
        cases hv
        rw [hv']
        simp [Status.wake]
    | notified c l => rw [hran.notified_of_ne hu hthr]; rfl
  · next hmem =>
    rcases hran.other hu with hsame | ⟨c, l, hw, -, hnote⟩
    · exact hsame
    · rw [hw] at hp
      rcases hnote with hsig | hbc
      · obtain ⟨v, hv, hc⟩ := mem_signalsTo.mp hsig
        rw [show c = .thread (.glue u) from hp.1] at hc
        injection hc with hglue
        rw [← glue_injective hglue] at hv
        exact absurd hv hmem
      · exact absurd hbc broadcast_not_mem_signalsTo

/-- A step keeps the list right and is one of the listed moves. -/
theorem FifoInv.move (h : FifoInv s) (hran : (fifoProgram spurious).Ran s t x s' notes st) :
    QueueOk s'.mem ∧
      FifoMove t s.mem.wq s.mem.log (s.thr t).loc x s'.mem.wq s'.mem.log notes st := by
  have hexec : fifoExec t (s.thr t).loc x s.mem = .done s'.mem notes st := hran.exec
  rcases fifoExec_spec h.queue (fun hl => h.not_mem_of_idle hl) x with
    hblocked | ⟨m', notes', st', hdone, hok, hmove⟩
  · rw [hblocked] at hexec
    cases hexec
  · rw [hdone] at hexec
    injection hexec with hm hnotes hst
    subst hm hnotes hst
    exact ⟨hok, hmove⟩

theorem FifoInv.placed_step (h : FifoInv s) (hran : (fifoProgram spurious).Ran s t x s' notes st)
    (u : τ) : FifoPlaced u (lastKind u s'.mem.log) (s'.thr u) := by
  have hmove := (h.move hran).2
  have hself := hran.self
  generalize hl : (s.thr t).loc = l at hmove
  generalize hwq : s'.mem.wq = wq at hmove
  generalize hlog : s'.mem.log = log at hmove
  by_cases hu : u = t
  · subst hu
    rw [hself]
    cases hmove with
    | pass => exact ⟨rfl, h.idle hl⟩
    | block => exact ⟨rfl, rfl, lastKind_concat_self _ _ _⟩
    | release x =>
        -- a thread does not signal itself, as it is in no call
        refine ⟨rfl, ?_⟩
        rw [lastKind_append_map, if_neg]
        · exact h.idle hl
        · intro hmem
          apply h.not_mem_of_idle hl
          rw [released_append_drop s.mem.wq s.mem.log x]
          exact List.mem_append_left _ hmem
    | leave => exact ⟨rfl, .inr (lastKind_concat_self _ _ _)⟩
    | again => exact ⟨rfl, rfl, lastKind_concat_self _ _ _⟩
  · cases hmove with
    | pass =>
        rw [hran.other_of_nil hu]
        exact h.placed u
    | block =>
        rw [hran.other_of_nil hu, lastKind_concat_of_ne _ _ hu]
        exact h.placed u
    | release x =>
        have hsub : ∀ v ∈ released s.mem.wq s.mem.log x, v ∈ waitingThreads s.mem.log := by
          intro v hv
          rw [released_append_drop s.mem.wq s.mem.log x]
          exact List.mem_append_left _ hv
        have hp := h.placed u
        rw [h.released_thr hsub hran hu, lastKind_append_map]
        split
        · next hmem =>
          have hlast := mem_waitingThreads.mp (hsub u hmem)
          cases hthr : s.thr u with
          | running l =>
              rw [hthr, hlast] at hp
              rcases hp.2 with hnone | hresumed
              · cases hnone
              · cases hresumed
          | waiting c l =>
              rw [hthr] at hp
              rw [show c = .thread (.glue u) from hp.1]
              simp only [Status.wake, if_true]
              exact ⟨rfl, hp.2.1, .inr rfl⟩
          | notified c l =>
              rw [hthr] at hp
              exact ⟨hp.1, hp.2.1, .inr rfl⟩
        · exact hp
    | leave =>
        rw [hran.other_of_nil hu, lastKind_concat_of_ne _ _ hu]
        exact h.placed u
    | again =>
        rw [hran.other_of_nil hu, lastKind_concat_of_ne _ _ hu, lastKind_concat_of_ne _ _ hu]
        exact h.placed u

theorem FifoInv.count_step (h : FifoInv s) (hran : (fifoProgram spurious).Ran s t x s' notes st) :
    s'.mem.wq.threadWaitCount = tally s'.thr WqLoc.waits % 2 ^ 32 := by
  have hmove := (h.move hran).2
  have htally := hran.tally WqLoc.waits
  have hcount := h.count
  have hpos := le_tally s.thr WqLoc.waits t
  generalize (s.thr t).loc = l at hmove htally hpos
  generalize s'.mem.wq = wq at hmove
  generalize s'.mem.log = log at hmove
  cases hmove with
  | pass =>
      rw [show tally s'.thr WqLoc.waits = tally s.thr WqLoc.waits from htally]
      exact hcount
  | block =>
      rw [show tally s'.thr WqLoc.waits = tally s.thr WqLoc.waits + 1 from htally]
      show Lib.countUp 32 s.mem.wq.threadWaitCount = _
      rw [hcount, countUp_mod]
  | release x =>
      rw [show tally s'.thr WqLoc.waits = tally s.thr WqLoc.waits from htally]
      exact hcount
  | leave =>
      rw [← show tally s'.thr WqLoc.waits + 1 = tally s.thr WqLoc.waits from htally] at hcount
      show Lib.countDown 32 s.mem.wq.threadWaitCount = _
      rw [hcount, countDown_mod]
  | again =>
      -- the thread leaves the wait and is back in it
      obtain ⟨n, hn⟩ := Nat.exists_eq_add_of_lt (show 0 < tally s.thr WqLoc.waits from hpos)
      have heq : tally s'.thr WqLoc.waits + 1 = tally s.thr WqLoc.waits + 1 := htally
      rw [Nat.succ.inj heq]
      rw [hn, Nat.zero_add] at hcount ⊢
      show Lib.countUp 32 (Lib.countDown 32 s.mem.wq.threadWaitCount) = _
      rw [hcount, countDown_mod, countUp_mod]

theorem FifoInv.cached_step (h : FifoInv s) (hran : (fifoProgram spurious).Ran s t x s' notes st)
    (u : τ) (hu : (s'.thr u).loc = .wait) : s'.mem.wq.applnMutex = true := by
  have hmove := (h.move hran).2
  have hkeep : ∀ u, (s.thr u).loc = .wait → s.mem.wq.applnMutex = true := h.cached
  have hself := hran.self
  generalize hl : (s.thr t).loc = l at hmove
  generalize s'.mem.wq = wq at hmove
  generalize s'.mem.log = log at hmove
  cases hmove with
  | pass => rfl
  | block => rfl
  | release x =>
      by_cases hut : u = t
      · rw [hut, hself] at hu
        cases hu
      · rw [hran.loc_of_ne hut] at hu
        exact hkeep u hu
  | leave => exact hkeep t hl
  | again => exact hkeep t hl

/-- **Step lemma**: every step keeps the invariant. -/
theorem FifoInv.step (h : FifoInv s) (hran : (fifoProgram spurious).Ran s t x s' notes st) :
    FifoInv s' where
  queue := (h.move hran).1
  placed := h.placed_step hran
  count := h.count_step hran
  cached := h.cached_step hran

/-- A thread may wake up without having been signalled. -/
theorem FifoInv.woken (h : FifoInv s) {c : WqCv τ} {l : WqLoc} (hw : s.thr t = .waiting c l) :
    FifoInv (⟨s.mem, Function.update s.thr t (.notified c l)⟩ : WqConfig τ) where
  queue := h.queue
  placed u := by
    show FifoPlaced u _ (Function.update s.thr t (.notified c l) u)
    have hp := h.placed u
    by_cases hu : u = t
    · subst hu
      rw [hw] at hp
      rw [Function.update_self]
      exact hp.wake
    · rw [Function.update_of_ne hu]
      exact hp
  count := by
    rw [tally_congr (loc_update_notified hw)]
    exact h.count
  cached u hu := by
    rw [loc_update_notified hw] at hu
    exact h.cached u hu

/-- **Run lemma**: the invariant holds in every reachable state. -/
theorem fifoInv_reachable (h : (fifoMachine spurious).Reachable s) : FifoInv s := by
  apply Program.invariant (I := fun s => FifoInv s) _ _ _ h
  · intro s hs
    rw [show s = freshFifoQueue τ from hs]
    exact FifoInv.init
  · intro s t x picks s' notes st hinv _ hran
    exact hinv.step hran
  · intro s t c l hinv _ hw
    exact hinv.woken hw

end Invariant

end FifoWaitQueue
end MultithreadingBible
