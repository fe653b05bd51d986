import MultithreadingBible.ThreadLib.AssemblyLineCycles
import MultithreadingBible.ThreadLib.AssemblyLineRuns

/-!
# Assembly lines: the rotation

Runs in which items enter the line only while all workers wait for the next cycle, and at most one
between two cycles.  Nothing is asked about the order of the workers within a cycle, nor about the
pushes that leave their items to the wait list.

* `lineEvents` — what a step does to the items, and `Recorded` — that it tells the calls of the work
  functions and the finished items.
* `BetweenCycles` — the steps that put an item onto the line between two cycles, and all others that put
  none.
* `Rotates` — every item meets every worker in order, each in its cycle.
-/

namespace MultithreadingBible
namespace ThreadLib

open Lib

variable {n : Nat} {α : Type*}

section Property

instance (s : AslConfig n α) : Decidable (Idle s) :=
  inferInstanceAs (Decidable (∀ i, s.thr (.worker i) = .waiting (.worker i) .test))

/-- What a worker does to the item in its slot. -/
def workerEvents (i : Fin n) (l : AslLoc) (m : AssemblyLine) : List LineEvent :=
  match m.aslQ.elem (m.currSlot i), l with
  | some x, .work => [.worked i x]
  | some x, .remove => [.removed i x]
  | _, _ => []

/-- The slot of the first worker is filled. -/
def enteredEvents (m m' : AssemblyLine) : List LineEvent :=
  match m.aslQ.elem (m.currSlot 0), m'.aslQ.elem (m.currSlot 0) with
  | none, some x => [.entered x]
  | _, _ => []

/-- Waiting workers are released. -/
def startedEvents (s s' : AslConfig n α) : List LineEvent :=
  if ∃ i, (s.thr (.worker i)).isWaiting = true ∧ (s'.thr (.worker i)).isWaiting = false then [.started]
  else []

/-- What a step does to the items. -/
def lineEvents (s : AslConfig n α) (a : Act (AslThread n α) Unit) (s' : AslConfig n α) :
    List LineEvent :=
  match a with
  | .run (.worker i) _ _ => workerEvents i (s.thr (.worker i)).loc s.mem
  | _ => enteredEvents s.mem s'.mem ++ startedEvents s s'

/-- The worker that works on `x` in an event. -/
def LineEvent.worker? (x : Nat) : LineEvent → Option Nat
  | .worked i y => if y = x then some i else none
  | _ => none

/-- The workers that have worked on `x`, in their order. -/
def workersOf (log : List LineEvent) (x : Nat) : List Nat := log.filterMap (LineEvent.worker? x)

/-- Whoever puts an item onto the line finds all workers waiting, and no other item put there since the
last cycle was started. -/
def BetweenCycles [DecidableEq α] [Fintype α] (s : AslConfig n α × List LineEvent)
    (a : Act (AslThread n α) Unit) : Prop :=
  ∀ s', (aslProgram n α).step s.1 a = .next s' → entries (lineEvents s.1 a s') ≠ [] →
    Idle s.1 ∧ ∀ e ∈ entries s.2, e.2 ≠ cycles s.2

instance [DecidableEq α] [Fintype α] (s : AslConfig n α × List LineEvent)
    (a : Act (AslThread n α) Unit) : Decidable (BetweenCycles s a) :=
  match h : (aslProgram n α).step s.1 a with
  | .next s' =>
      decidable_of_iff (entries (lineEvents s.1 a s') ≠ [] →
        Idle s.1 ∧ ∀ e ∈ entries s.2, e.2 ≠ cycles s.2) (by simp [BetweenCycles, h])
  | .blocked => .isTrue (by simp [BetweenCycles, h])
  | .abort => .isTrue (by simp [BetweenCycles, h])

/-- The work functions were called, and items were finished, as the events say. -/
structure Recorded (m : AssemblyLine) (log : List LineEvent) : Prop where
  calls : ∀ x, m.works x = workersOf log x
  finished : m.finished = removedItems log

/-- The events are the calls of the work functions and the items that are finished.  Before every
cycle the slot of the first worker is free until an item enters, every item is worked on and taken
off in its cycles, items leave in the order in which they entered, and the line counts them. -/
structure Rotates (s : AslConfig n α) (log : List LineEvent) : Prop where
  recorded : Recorded s.mem log
  free : Idle s → (∀ e ∈ entries log, e.2 ≠ cycles log) → s.mem.aslQ.elem (s.mem.currSlot 0) = none
  timely : EachAfter (Timely n) log
  worked : Idle s → ∀ x k, (x, k) ∈ entries log → ∀ i, i < n → k + i < cycles log → .worked i x ∈ log
  removed : Idle s → ∀ x k, (x, k) ∈ entries log → k + n ≤ cycles log → x ∈ removedItems log
  order : removedItems log <+: (entries log).map Prod.fst
  count : s.mem.aslQ.count + (removedItems log).length = (entries log).length

/-- All runs, with what happened to the items. -/
def rotationMachine (n : Nat) (α : Type*) [DecidableEq α] [Fintype α] :
    Machine (AslConfig n α × List LineEvent) (Act (AslThread n α) Unit) :=
  (aslMachine n α).recording lineEvents

/-- The stages of the workers; between two cycles all of them are before their tests. -/
def turnOf (s : AslConfig n α) (i : Nat) : Stage :=
  if h : i < n then stageOf (!decide (Idle s)) (s.thr (.worker ⟨i, h⟩)) else .pre

/-- Where the threads can be. -/
structure Standing (s : AslConfig n α) : Prop where
  workers : ∀ i, WorkerShape i (s.thr (.worker i))
  apps : ∀ a, s.thr (.app a) = .running .outside
  engine : ∀ c l, s.thr .engine = .waiting c l → c = .engine
  ready : (s.thr .engine).loc = .gather → s.mem.nWorkersReady = waitingWorkers s
  cycling : ¬ Idle s → (s.thr .engine).loc = .gather

/-- The wait list holds the items `ws`, which have not entered yet. -/
structure Queued (entry : Nat → Option Nat) (ws : List Nat) (m : AssemblyLine) : Prop where
  holds : m.waitLstFq.Holds ws
  nodup : ws.Nodup
  fresh : ∀ x ∈ ws, x < m.pushed ∧ ∀ k, entry k ≠ some x
  old : ∀ k x, entry k = some x → x < m.pushed

/-- The boundaries at which the items entered explain the line, the events and the wait list. -/
structure RotationInv (s : AslConfig n α) (log : List LineEvent) : Prop where
  standing : Standing s
  line : ∃ entry b c ws, Rotated n entry b c (turnOf s) s.mem ∧ Logged n entry c (turnOf s) log ∧
    cycles log = c + (if Idle s then 0 else 1) ∧ Queued entry ws s.mem

end Property

section Facts

variable {s s' : AslConfig n α} {log : List LineEvent}

theorem turnOf_of_lt {i : Nat} (hi : i < n) :
    turnOf s i = stageOf (!decide (Idle s)) (s.thr (.worker ⟨i, hi⟩)) := dif_pos hi

/-- Between two cycles no worker has tested its slot. -/
theorem turnOf_idle (hidle : Idle s) : turnOf s = fun _ => .pre := by
  ext i
  unfold turnOf
  split
  · rw [hidle, decide_eq_true hidle]
    rfl
  · rfl

/-- A worker that goes on is within a cycle. -/
theorem not_idle_of_awake {i : Fin n} (hi : (s.thr (.worker i)).isWaiting = false) : ¬ Idle s := by
  intro hidle
  rw [hidle i] at hi
  cases hi

/-- All workers are counted between two cycles only. -/
theorem Standing.idle (h : Standing s) (hall : waitingWorkers s = n) : Idle s :=
  idle_of_waitingWorkers h.workers hall

theorem turnOf_update {i : Fin n} {st : Status (AslCv n) AslLoc}
    (hbefore : ¬ Idle s) (hafter : ¬ Idle s') (hself : s'.thr (.worker i) = st)
    (hworkers : ∀ j, j ≠ i → s'.thr (.worker j) = s.thr (.worker j)) :
    turnOf s' = Function.update (turnOf s) i (stageOf true st) := by
  ext j
  by_cases hji : j = i
  · subst hji
    rw [Function.update_self, turnOf_of_lt i.isLt, decide_eq_false hafter, hself]
    rfl
  · rw [Function.update_of_ne hji]
    unfold turnOf
    rw [decide_eq_false hafter, decide_eq_false hbefore]
    split
    · next hj => rw [hworkers _ fun heq => hji (by rw [← heq])]
    · rfl

theorem enteredEvents_of_eq {m m' : AssemblyLine} (h : m'.aslQ = m.aslQ) : enteredEvents m m' = [] := by
  unfold enteredEvents
  rw [h]
  split
  · next hnone hsome =>
    rw [hnone] at hsome
    cases hsome
  · rfl

theorem startedEvents_of_eq (h : ∀ i, s'.thr (.worker i) = s.thr (.worker i)) :
    startedEvents s s' = [] := by
  unfold startedEvents
  rw [if_neg]
  rintro ⟨i, hi, hi'⟩
  rw [h i, hi] at hi'
  cases hi'

/-- The invariant contains the property. -/
theorem RotationInv.rotates (h : RotationInv s log) (hrec : Recorded s.mem log) : Rotates s log := by
  obtain ⟨entry, b, c, ws, hline, hlog, hcycles, -⟩ := h.line
  have hpos := hline.pos
  have hboundary : Idle s → turnOf s = (fun _ => .pre) ∧ cycles log = c := by
    intro hidle
    rw [if_pos hidle] at hcycles
    exact ⟨turnOf_idle hidle, hcycles⟩
  refine ⟨hrec, fun hidle hnone => ?_, hlog.timely, fun hidle x k hk i hi hlt => ?_,
    fun hidle x k hk hle => ?_, ?_, ?_⟩
  · obtain ⟨hturn, hc⟩ := hboundary hidle
    rw [(hline.elem_currSlot hpos (by rw [hturn]; rfl)).2, ago_zero, Option.eq_none_iff_forall_ne_some]
    intro x hx
    exact hnone (x, c) ((hlog.entered x c).mpr hx) hc.symm
  · obtain ⟨-, hc⟩ := hboundary hidle
    rw [hc] at hlt
    exact (hlog.worked k x i ((hlog.entered x k).mp hk) hi).mpr (.inl hlt)
  · obtain ⟨hturn, hc⟩ := hboundary hidle
    rw [hlog.removed, hturn, leftItems, mem_upTo]
    refine ⟨k, ?_, (hlog.entered x k).mp hk⟩
    rw [hc] at hle
    show k < c + 1 - n
    omega
  · rw [hlog.removed, hlog.items]
    apply isPrefix_upTo
    split <;> omega
  · rw [hlog.removed, hline.count, ← hlog.items, List.length_map]

end Facts

section Recorded

variable {s s' : AslConfig n α} {log : List LineEvent} {m m' : AssemblyLine} {i : Fin n} {l : AslLoc}
  {notes : List (Note (AslCv n))} {st : Status (AslCv n) AslLoc}

/-- Elsewhere a worker does nothing to the item. -/
theorem workerEvents_eq_nil (hwork : l ≠ .work) (hremove : l ≠ .remove) : workerEvents i l m = [] := by
  cases l <;> first | exact absurd rfl hwork | exact absurd rfl hremove | simp [workerEvents]

theorem workersOf_append (log log' : List LineEvent) (x : Nat) :
    workersOf (log ++ log') x = workersOf log x ++ workersOf log' x := List.filterMap_append

/-- A step that calls no work function and finishes no item. -/
theorem Recorded.quiet (h : Recorded m log) (hworks : m'.works = m.works)
    (hfinished : m'.finished = m.finished) {es : List LineEvent}
    (hes : ∀ e ∈ es, (∀ x, e.worker? x = none) ∧ e.removed? = none) : Recorded m' (log ++ es) where
  calls x := by
    have hnone : workersOf es x = [] := List.filterMap_eq_nil_iff.mpr fun e he => (hes e he).1 x
    rw [workersOf_append, hnone, List.append_nil, hworks, h.calls]
  finished := by
    have hnone : removedItems es = [] := List.filterMap_eq_nil_iff.mpr fun e he => (hes e he).2
    rw [removedItems, List.filterMap_append, ← removedItems, ← removedItems, hnone, List.append_nil,
      hfinished, h.finished]

/-- What a worker does is recorded where it does it. -/
theorem Recorded.worker_step (h : Recorded m log) (hexec : workerThreadInit i l m = .done m' notes st) :
    Recorded m' (log ++ workerEvents i l m) := by
  cases l with
  | test =>
      simp only [workerThreadInit] at hexec
      rw [workerEvents_eq_nil (by simp) (by simp)]
      split at hexec <;> cases hexec <;> exact h.quiet rfl rfl fun e he => absurd he List.not_mem_nil
  | work =>
      simp only [workerThreadInit] at hexec
      split at hexec
      · cases hexec
      · next item hitem =>
        cases hexec
        have hevents : workerEvents i .work m = [.worked i item] := by simp [workerEvents, hitem]
        rw [hevents]
        refine ⟨fun x => ?_, by rw [removedItems_concat, h.finished]; simp [LineEvent.removed?]⟩
        rw [workersOf_append, ← h.calls]
        by_cases hx : x = item
        · subst hx
          simp [workersOf, LineEvent.worker?]
        · simp [workersOf, LineEvent.worker?, hx, Ne.symm hx]
  | remove =>
      obtain ⟨⟨finishedObj, q⟩, hinsert, hexec⟩ := Effect.call_eq_done.mp hexec
      cases finishedObj with
      | none => cases hexec
      | some item =>
          cases hexec
          have hitem : m.aslQ.elem (m.currSlot i) = some item := elem_of_fifoInsert hinsert
          have hevents : workerEvents i .remove m = [.removed i item] := by simp [workerEvents, hitem]
          rw [hevents]
          refine ⟨fun x => ?_, by rw [removedItems_concat, h.finished]; rfl⟩
          rw [workersOf_append, ← h.calls]
          simp [workersOf, LineEvent.worker?]
  | decrement | report =>
      rw [workerEvents_eq_nil (by simp) (by simp)]
      cases hexec
      refine h.quiet ?_ ?_ fun e he => absurd he List.not_mem_nil <;> rfl
  | unborn | gather | halted | outside => cases hexec

theorem quiet_of_enqueue {item : Nat} (h : assemblyLineEnqueueNewItem m item = some m') :
    m'.works = m.works ∧ m'.finished = m.finished := by
  unfold assemblyLineEnqueueNewItem at h
  split at h
  · cases h
  · obtain ⟨_, -, rfl⟩ := Option.map_eq_some_iff.mp h
    exact ⟨rfl, rfl⟩

/-- The engine calls no work function and finishes no item. -/
theorem quiet_of_engine (h : aslEngineFn n l m = .done m' notes st) :
    m'.works = m.works ∧ m'.finished = m.finished := by
  have hend : ∀ {m₁ : AssemblyLine}, endCycle n m₁ = .done m' notes st →
      m'.works = m₁.works ∧ m'.finished = m₁.finished := by
    intro m₁ h
    unfold endCycle startCycle at h
    split at h <;> cases h <;> exact ⟨rfl, rfl⟩
  cases l with
  | unborn =>
      simp only [aslEngineFn, startCycle] at h
      split at h <;> cases h
      exact ⟨rfl, rfl⟩
  | gather =>
      simp only [aslEngineFn] at h
      split at h
      · cases h
        exact ⟨rfl, rfl⟩
      · obtain ⟨⟨waitLstItem, q⟩, -, h⟩ := Effect.call_eq_done.mp h
        cases waitLstItem with
        | none =>
            obtain ⟨hworks, hfinished⟩ := hend h
            exact ⟨hworks, hfinished⟩
        | some item =>
            obtain ⟨m₁, henq, h⟩ := Effect.call_eq_done.mp h
            obtain ⟨hworks, hfinished⟩ := quiet_of_enqueue henq
            exact ⟨(hend h).1.trans hworks, (hend h).2.trans hfinished⟩
  | halted =>
      cases h
      exact ⟨rfl, rfl⟩
  | test | work | remove | decrement | report | outside => cases h

/-- Neither does a push. -/
theorem quiet_of_push (h : assemblyLinePushNewItem m = (.done m' notes st : AslEffect n)) :
    m'.works = m.works ∧ m'.finished = m.finished := by
  obtain ⟨m₁, hstore, h⟩ := Effect.call_eq_done.mp h
  have hengine : m'.works = m₁.works ∧ m'.finished = m₁.finished := by
    unfold assemblyLineEngineStart at h
    split at h
    · cases h
      exact ⟨rfl, rfl⟩
    · split at h <;> cases h <;> exact ⟨rfl, rfl⟩
  unfold storeNewItem at hstore
  dsimp only at hstore
  split at hstore
  · obtain ⟨hworks, hfinished⟩ := quiet_of_enqueue hstore
    exact ⟨hengine.1.trans hworks, hengine.2.trans hfinished⟩
  · split at hstore
    · obtain ⟨_, -, rfl⟩ := Option.map_eq_some_iff.mp hstore
      exact hengine
    · cases hstore

theorem quiet_events (s s' : AslConfig n α) (m m' : AssemblyLine) :
    ∀ e ∈ enteredEvents m m' ++ startedEvents s s', (∀ x, e.worker? x = none) ∧ e.removed? = none := by
  intro e he
  rcases List.mem_append.mp he with he | he
  · unfold enteredEvents at he
    split at he
    · rw [List.mem_singleton.mp he]
      exact ⟨fun _ => rfl, rfl⟩
    · cases he
  · unfold startedEvents at he
    split at he
    · rw [List.mem_singleton.mp he]
      exact ⟨fun _ => rfl, rfl⟩
    · cases he

/-- **Every step is recorded.** -/
theorem Recorded.step [DecidableEq α] (h : Recorded s.mem log) {t : AslThread n α} {x : Unit}
    {picks : List (Option (AslThread n α))} (hran : (aslProgram n α).Ran s t x s' notes st) :
    Recorded s'.mem (log ++ lineEvents s (.run t x picks) s') := by
  cases t with
  | worker i => exact h.worker_step hran.exec
  | engine =>
      obtain ⟨hworks, hfinished⟩ := quiet_of_engine hran.exec
      exact h.quiet hworks hfinished (quiet_events s s' _ _)
  | app a =>
      obtain ⟨hworks, hfinished⟩ := quiet_of_push hran.exec
      exact h.quiet hworks hfinished (quiet_events s s' _ _)

end Recorded

section Queued

variable {entry : Nat → Option Nat} {ws : List Nat} {item : Nat} {m m' : AssemblyLine}

/-- The wait list and the pushes are as before. -/
theorem Queued.congr (h : Queued entry ws m) (hwaits : m'.waitLstFq = m.waitLstFq)
    (hpushed : m'.pushed = m.pushed) : Queued entry ws m' where
  holds := by rw [hwaits]; exact h.holds
  nodup := h.nodup
  fresh := by rw [hpushed]; exact h.fresh
  old := by rw [hpushed]; exact h.old

/-- The next number is given away, and its item is neither in the wait list nor on the line. -/
theorem Queued.push (h : Queued entry ws m) :
    Queued entry ws { m with pushed := m.pushed + 1 } ∧ m.pushed ∉ ws ∧
      ∀ k, entry k ≠ some m.pushed := by
  refine ⟨⟨h.holds, h.nodup, fun y hy => ?_, fun k y hk => ?_⟩, fun hin => ?_, fun k hk => ?_⟩
  · obtain ⟨hlt, hnew⟩ := h.fresh y hy
    exact ⟨Nat.lt_succ_of_lt hlt, hnew⟩
  · exact Nat.lt_succ_of_lt (h.old k y hk)
  · exact lt_irrefl _ (h.fresh _ hin).1
  · exact lt_irrefl _ (h.old k _ hk)

/-- An item that does not wait enters. -/
theorem Queued.enter (h : Queued entry ws m) (hin : item ∉ ws) (hlt : item < m.pushed) (c : Nat) :
    Queued (Function.update entry c (some item)) ws m := by
  refine ⟨h.holds, h.nodup, fun y hy => ⟨(h.fresh y hy).1, fun k hk => ?_⟩, fun k y hk => ?_⟩
  · by_cases hkc : k = c
    · rw [hkc, Function.update_self, Option.some_inj] at hk
      exact hin (hk ▸ hy)
    · rw [Function.update_of_ne hkc] at hk
      exact (h.fresh y hy).2 k hk
  · by_cases hkc : k = c
    · rw [hkc, Function.update_self, Option.some_inj] at hk
      exact hk ▸ hlt
    · rw [Function.update_of_ne hkc] at hk
      exact h.old k y hk

/-- The item that is dequeued had been waiting. -/
theorem Queued.deque (h : Queued entry ws m) {q : FifoQueue Nat}
    (hdeq : fifoDeque m.waitLstFq = some (some item, q)) :
    (∀ k, entry k ≠ some item) ∧ item < m.pushed ∧
      ∃ ws', item ∉ ws' ∧ Queued entry ws' { m with waitLstFq := q } := by
  cases ws with
  | nil =>
      rw [fifoDeque_nil h.holds] at hdeq
      cases hdeq
  | cons y ws =>
      obtain ⟨q', hdeq', hholds, -⟩ := fifoDeque_cons h.holds
      rw [hdeq'] at hdeq
      cases hdeq
      obtain ⟨hlt, hnew⟩ := h.fresh item List.mem_cons_self
      obtain ⟨hin, hnodup⟩ := List.nodup_cons.mp h.nodup
      refine ⟨hnew, hlt, ws, hin, hholds, hnodup, fun y hy => ?_, h.old⟩
      exact h.fresh y (List.mem_cons_of_mem _ hy)

/-- Nothing is dequeued from an empty wait list, which stays as it is. -/
theorem Queued.deque_none (h : Queued entry ws m) {q : FifoQueue Nat}
    (hdeq : fifoDeque m.waitLstFq = some (none, q)) : q = m.waitLstFq := by
  cases ws with
  | nil =>
      rw [fifoDeque_nil h.holds] at hdeq
      cases hdeq
      rfl
  | cons y ws =>
      obtain ⟨q', hdeq', -⟩ := fifoDeque_cons h.holds
      rw [hdeq'] at hdeq
      cases hdeq

/-- An item that was pushed joins the wait list. -/
theorem Queued.append (h : Queued entry ws m) {q : FifoQueue Nat} (hq : q.Holds (ws ++ [item]))
    (hin : item ∉ ws) (hlt : item < m.pushed) (hnew : ∀ k, entry k ≠ some item) :
    Queued entry (ws ++ [item]) { m with waitLstFq := q } := by
  refine ⟨hq, ?_, fun y hy => ?_, h.old⟩
  · rw [List.nodup_append']
    exact ⟨h.nodup, List.nodup_singleton item, by simpa using hin⟩
  · rcases List.mem_append.mp hy with hy | hy
    · exact h.fresh y hy
    · rw [List.mem_singleton.mp hy]
      exact ⟨hlt, hnew⟩

end Queued

section Workers

variable [DecidableEq α] {s s' : AslConfig n α} {log log' : List LineEvent} {x : Unit}
  {notes : List (Note (AslCv n))} {st : Status (AslCv n) AslLoc} {i : Fin n}

/-- A worker goes on within a cycle, and sends nothing. -/
theorem RotationInv.worker_goes (h : RotationInv s log)
    (hran : (aslProgram n α).Ran s (.worker i) x s' [] st) {m : AssemblyLine} (hm : m = s'.mem)
    (hshape : WorkerShape i st) (hstays : st.isWaiting = false)
    (hready : m.nWorkersReady = s.mem.nWorkersReady) (hwaits : m.waitLstFq = s.mem.waitLstFq)
    (hpushed : m.pushed = s.mem.pushed) (hcycles : cycles log' = cycles log)
    (hline : ∀ entry b c, Rotated n entry b c (turnOf s) s.mem → Logged n entry c (turnOf s) log →
      cycles log = c + 1 → Rotated n entry b c (Function.update (turnOf s) i (stageOf true st)) m ∧
        Logged n entry c (Function.update (turnOf s) i (stageOf true st)) log') :
    RotationInv s' log' := by
  subst hm
  obtain ⟨hworkers, happs⟩ := others_of_worker h.standing.workers h.standing.apps hran (by simp)
  have hengine : s'.thr .engine = s.thr .engine := hran.other_of_nil (by simp)
  -- the cycle goes on as long as this worker does
  have hbefore : ¬ Idle s := not_idle_of_awake hran.awake
  have hafter : ¬ Idle s' := @not_idle_of_awake _ _ _ i (by rw [hran.self]; exact hstays)
  refine ⟨⟨fun j => ?_, happs, ?_, fun hloc => ?_, fun _ => ?_⟩, ?_⟩
  · by_cases hj : j = i
    · rw [hj, hran.self]
      exact hshape
    · rw [hworkers j hj]
      exact h.standing.workers j
  · rw [hengine]
    exact h.standing.engine
  · rw [hengine] at hloc
    rw [hready, h.standing.ready hloc,
      waitingWorkers_goes hworkers hran.awake (by rw [hran.self]; exact hstays)]
  · rw [hengine]
    exact h.standing.cycling hbefore
  · obtain ⟨entry, b, c, ws, hrot, hlog, hcyc, hqueue⟩ := h.line
    rw [if_neg hbefore] at hcyc
    obtain ⟨hrot', hlog'⟩ := hline entry b c hrot hlog hcyc
    rw [← turnOf_update hbefore hafter hran.self hworkers] at hrot' hlog'
    refine ⟨entry, b, c, ws, hrot', hlog', ?_, hqueue.congr hwaits hpushed⟩
    rw [if_neg hafter, hcycles, hcyc]

/-- A worker reports that it is ready; the last one to report ends the cycle. -/
theorem RotationInv.worker_report (h : RotationInv s log)
    (hran : (aslProgram n α).Ran s (.worker i) x s' notes st)
    (hthr : s.thr (.worker i) = .running .report) : RotationInv s' log := by
  have hexec : workerThreadInit i (s.thr (.worker i)).loc s.mem = .done s'.mem notes st := hran.exec
  rw [hthr] at hexec
  simp only [Status.loc_running, workerThreadInit, Effect.done.injEq] at hexec
  obtain ⟨hm, hnotes, rfl⟩ := hexec
  obtain ⟨hworkers, happs⟩ := others_of_worker h.standing.workers h.standing.apps hran (by
    intro note hnote
    rw [← hnotes] at hnote
    split at hnote
    · simpa using hnote
    · simp at hnote)
  have hself := hran.self
  have hbefore : ¬ Idle s := not_idle_of_awake hran.awake
  have hloc : (s'.thr .engine).loc = (s.thr .engine).loc := hran.loc_of_ne (by simp)
  have hpost : ∀ j, j < n → Idle s' → turnOf s j = .post := by
    intro j hj hidle
    rw [turnOf_of_lt hj, decide_eq_false hbefore]
    by_cases hji : (⟨j, hj⟩ : Fin n) = i
    · rw [hji, hthr]
      rfl
    · rw [← hworkers _ hji, hidle]
      rfl
  refine ⟨⟨fun j => ?_, happs, fun c l hw => ?_, fun hgather => ?_, fun _ => ?_⟩, ?_⟩
  · by_cases hj : j = i
    · rw [hj, hself]
      exact .waiting
    · rw [hworkers j hj]
      exact h.standing.workers j
  · exact h.standing.engine c l (hran.waiting_of_ne (by simp) hw)
  · rw [hloc] at hgather
    rw [waitingWorkers_report hworkers hran.awake (by rw [hself]; rfl), ← h.standing.ready hgather, ← hm]
  · rw [hloc]
    exact h.standing.cycling hbefore
  · obtain ⟨entry, b, c, ws, hrot, hlog, hcyc, hqueue⟩ := h.line
    rw [if_neg hbefore] at hcyc
    have hqueue' : Queued entry ws s'.mem := hqueue.congr (by rw [← hm]) (by rw [← hm])
    -- the report of the last worker ends the cycle
    by_cases hidle : Idle s'
    · refine ⟨entry, below n b, c + 1, ws, ?_, ?_, ?_, hqueue'⟩
      · rw [turnOf_idle hidle, ← hm]
        exact (hrot.turn fun j hj => hpost j hj hidle).congr rfl rfl
      · rw [turnOf_idle hidle]
        exact hlog.turn hrot fun j hj => hpost j hj hidle
      · rw [if_pos hidle, hcyc]
    · -- a worker that waits within a cycle is where it was before its report
      have hturn : turnOf s' = turnOf s := by
        rw [turnOf_update hbefore hidle hself hworkers]
        ext j
        by_cases hji : j = i
        · rw [hji, Function.update_self, turnOf_of_lt i.isLt, decide_eq_false hbefore, hthr]
          rfl
        · rw [Function.update_of_ne hji]
      refine ⟨entry, b, c, ws, ?_, ?_, ?_, hqueue'⟩
      · rw [hturn, ← hm]
        exact hrot.congr rfl rfl
      · rw [hturn]
        exact hlog
      · rw [if_neg hidle, hcyc]

/-- A step of a worker. -/
theorem RotationInv.worker_step (h : RotationInv s log)
    (hran : (aslProgram n α).Ran s (.worker i) x s' notes st) :
    RotationInv s' (log ++ workerEvents i (s.thr (.worker i)).loc s.mem) := by
  have hexec : workerThreadInit i (s.thr (.worker i)).loc s.mem = .done s'.mem notes st := hran.exec
  have hturn : turnOf s i = stageOf true (s.thr (.worker i)) := by
    rw [turnOf_of_lt i.isLt, decide_eq_false (not_idle_of_awake hran.awake)]
    rfl
  have hshape := h.standing.workers i
  have hawake := hran.awake
  generalize hthr : s.thr (.worker i) = old at hexec hturn hshape hawake
  -- what a worker finds that is not done with its slot
  have hfinds : (stageOf true old).passed = false → ∀ {entry b c}, Rotated n entry b c (turnOf s) s.mem →
      s.mem.aslQ.elem (s.mem.currSlot i) = ago entry c i := by
    intro hpassed entry b c hrot
    exact (hrot.elem_currSlot i.isLt (by rw [hturn]; exact hpassed)).2
  have hnone : ∀ l, l ≠ .work → l ≠ .remove → log ++ workerEvents i l s.mem = log := by
    intro l hwork hremove
    rw [workerEvents_eq_nil hwork hremove, List.append_nil]
  cases hshape with
  | waiting => cases hawake
  | notified =>
      rw [Status.loc_notified, hnone .test (by simp) (by simp)]
      simp only [Status.loc_notified, workerThreadInit] at hexec
      split at hexec
      · next hsome =>
        rw [Effect.done.injEq] at hexec
        obtain ⟨hm, rfl, rfl⟩ := hexec
        apply h.worker_goes hran hm .work rfl rfl rfl rfl rfl
        intro entry b c hrot hlog _
        rw [hfinds rfl hrot] at hsome
        refine ⟨hrot.stage i.isLt (by rw [hturn]; rfl) (by simp [stageOf]) (by simp [stageOf])
          (fun _ => ?_) (by simp [stageOf, Stage.passed]), hlog.stage hrot (.inl ?_)⟩
        · exact Option.isSome_iff_ne_none.mp hsome
        · rw [hturn]
          exact ⟨rfl, rfl⟩
      · next hempty =>
        rw [Effect.done.injEq] at hexec
        obtain ⟨hm, rfl, rfl⟩ := hexec
        apply h.worker_goes hran hm .decrement rfl rfl rfl rfl rfl
        intro entry b c hrot hlog _
        rw [hfinds rfl hrot, Option.not_isSome_iff_eq_none] at hempty
        exact ⟨hrot.stage i.isLt (by rw [hturn]; rfl) (by simp [stageOf]) (by simp [stageOf])
          (by simp [stageOf]) (fun _ _ => hempty), hlog.stage hrot (.inr hempty)⟩
  | work =>
      simp only [Status.loc_running, workerThreadInit] at hexec
      split at hexec
      · cases hexec
      · next item hitem =>
        rw [Effect.done.injEq] at hexec
        obtain ⟨hm, rfl, rfl⟩ := hexec
        have hevents : workerEvents i .work s.mem = [.worked i item] := by
          simp [workerEvents, hitem]
        rw [Status.loc_running, hevents]
        have hline : ∀ entry b c, Rotated n entry b c (turnOf s) s.mem →
            Logged n entry c (turnOf s) log → cycles log = c + 1 →
            Rotated n entry b c (Function.update (turnOf s) i (if i.val = n - 1 then .rem else .mid))
              s.mem ∧ Logged n entry c (Function.update (turnOf s) i
                (if i.val = n - 1 then .rem else .mid)) (log ++ [.worked i item]) := by
          intro entry b c hrot hlog hcyc
          rw [hfinds rfl hrot] at hitem
          exact ⟨hrot.work i.isLt hturn, hlog.work hrot i.isLt hturn hitem hcyc⟩
        have hcycles : cycles (log ++ [.worked i item]) = cycles log := by
          rw [cycles_concat]
          rfl
        by_cases hlast : i.val = n - 1
        · simp only [if_pos hlast] at hran hline
          apply h.worker_goes hran hm .remove rfl rfl rfl rfl hcycles
          intro entry b c hrot hlog hcyc
          obtain ⟨hrot', hlog'⟩ := hline entry b c hrot hlog hcyc
          exact ⟨hrot'.congr rfl rfl, hlog'⟩
        · simp only [if_neg hlast] at hran hline
          apply h.worker_goes hran hm .decrement rfl rfl rfl rfl hcycles
          intro entry b c hrot hlog hcyc
          obtain ⟨hrot', hlog'⟩ := hline entry b c hrot hlog hcyc
          exact ⟨hrot'.congr rfl rfl, hlog'⟩
  | remove =>
      obtain ⟨entry₀, b₀, c₀, -, hrot₀, -⟩ := h.line
      have hfull := hrot₀.full i i.isLt (.inr hturn)
      rw [← hfinds rfl hrot₀] at hfull
      obtain ⟨item, hitem⟩ := Option.ne_none_iff_exists'.mp hfull
      simp only [Status.loc_running, workerThreadInit, fifoInsert_none hrot₀.random hitem,
        Effect.call, Effect.done.injEq] at hexec
      obtain ⟨hm, rfl, rfl⟩ := hexec
      have hevents : workerEvents i .remove s.mem = [.removed i item] := by
        simp [workerEvents, hitem]
      rw [Status.loc_running, hevents]
      apply h.worker_goes hran hm .decrement rfl rfl rfl rfl
      · rw [cycles_concat]
        rfl
      · intro entry b c hrot hlog hcyc
        refine ⟨hrot.remove i.isLt hturn hitem, hlog.remove hrot i.isLt hturn ?_ hcyc⟩
        rw [← hfinds rfl hrot]
        exact hitem
  | decrement =>
      rw [Status.loc_running, hnone .decrement (by simp) (by simp)]
      simp only [Status.loc_running, workerThreadInit, Effect.done.injEq] at hexec
      obtain ⟨hm, rfl, rfl⟩ := hexec
      apply h.worker_goes hran hm .report rfl rfl rfl rfl rfl
      intro entry b c hrot hlog _
      refine ⟨hrot.decrement i.isLt hturn, hlog.stage hrot (.inl ?_)⟩
      rw [hturn]
      exact ⟨rfl, rfl⟩
  | report =>
      rw [Status.loc_running, hnone .report (by simp) (by simp)]
      exact h.worker_report hran hthr

end Workers

section Others

variable {s s' : AslConfig n α} {log : List LineEvent} {x : Unit}
  {notes : List (Note (AslCv n))} {st : Status (AslCv n) AslLoc} {m : AssemblyLine}

theorem enteredEvents_of_enqueue {m' : AssemblyLine} {item : Nat}
    (hnone : m.aslQ.elem (m.currSlot 0) = none)
    (hitem : m'.aslQ.elem = Function.update m.aslQ.elem (m.currSlot 0) (some item)) :
    enteredEvents m m' = [.entered item] := by
  rw [enteredEvents, hnone, hitem, Function.update_self]

/-- An item enters between two cycles. -/
theorem RotationInv.enter (h : RotationInv s log) (hidle : Idle s)
    (hfree : ∀ e ∈ entries log, e.2 ≠ cycles log) (item pushed : Nat) (q : FifoQueue Nat)
    (hqueue : ∀ entry ws, Queued entry ws s.mem → (∀ k, entry k ≠ some item) ∧
      ∀ c, ∃ ws', Queued (Function.update entry c (some item)) ws'
        { s.mem with waitLstFq := q, pushed := pushed }) :
    RotationInv
      ⟨{ s.mem with
          aslQ := { s.mem.aslQ with
            elem := Function.update s.mem.aslQ.elem (s.mem.currSlot 0) (some item)
            count := s.mem.aslQ.count + 1 }
          waitLstFq := q
          pushed := pushed }, s.thr⟩ (log ++ [.entered item]) := by
  obtain ⟨entry, b, c, ws, hrot, hlog, hcyc, hwaits⟩ := h.line
  obtain ⟨hnew, hqueued⟩ := hqueue entry ws hwaits
  obtain ⟨ws', hwaits'⟩ := hqueued c
  rw [if_pos hidle, Nat.add_zero] at hcyc
  rw [turnOf_idle hidle] at hrot hlog
  have hnone : entry c = none := by
    rw [Option.eq_none_iff_forall_ne_some]
    intro y hy
    exact hfree (y, c) ((hlog.entered y c).mpr hy) hcyc.symm
  refine ⟨⟨h.standing.workers, h.standing.apps, h.standing.engine, h.standing.ready,
    h.standing.cycling⟩, Function.update entry c (some item), b, c, ws', ?_, ?_, ?_,
    hwaits'.congr rfl rfl⟩
  · rw [turnOf_idle (by exact hidle)]
    exact (hrot.enter pushed hnone hnew).congr rfl rfl
  · rw [turnOf_idle (by exact hidle)]
    exact hlog.enter hrot.pos hcyc hnone hnew
  · rw [if_pos (by exact hidle), cycles_concat, hcyc]
    rfl

/-- The workers, the line and the wait list are as before. -/
theorem RotationInv.congr (h : RotationInv s log)
    (hworkers : ∀ i, s'.thr (.worker i) = s.thr (.worker i))
    (happs : ∀ a, s'.thr (.app a) = .running .outside)
    (hengine : ∀ c l, s'.thr .engine = .waiting c l → c = .engine)
    (hloc : (s'.thr .engine).loc = .gather → (s.thr .engine).loc = .gather)
    (hcycling : ¬ Idle s → (s'.thr .engine).loc = .gather)
    (hmem : s'.mem.aslQ = s.mem.aslQ ∧ s'.mem.currSlot = s.mem.currSlot ∧
      s'.mem.nWorkersReady = s.mem.nWorkersReady)
    (hqueue : ∀ entry ws, Queued entry ws s.mem → ∃ ws', Queued entry ws' s'.mem) :
    RotationInv s' log := by
  obtain ⟨hq, hslot, hready⟩ := hmem
  have hidle : Idle s' ↔ Idle s := by
    simp only [Idle, hworkers]
  have hturn : turnOf s' = turnOf s := by
    ext i
    unfold turnOf
    split
    · rw [hworkers, decide_eq_decide.mpr hidle]
    · rfl
  refine
    ⟨⟨fun i => ?_, happs, hengine, fun hgather => ?_, fun hbusy => hcycling (hidle.not.mp hbusy)⟩,
      ?_⟩
  · rw [hworkers]
    exact h.standing.workers i
  · rw [hready, h.standing.ready (hloc hgather)]
    unfold waitingWorkers
    simp only [hworkers]
  · obtain ⟨entry, b, c, ws, hrot, hlog, hcyc, hwaits⟩ := h.line
    obtain ⟨ws', hwaits'⟩ := hqueue entry ws hwaits
    refine ⟨entry, b, c, ws', ?_, ?_, ?_, hwaits'⟩
    · rw [hturn]
      exact hrot.congr hq hslot
    · rw [hturn]
      exact hlog
    · rw [hcyc]
      by_cases hbusy : Idle s
      · rw [if_pos hbusy, if_pos (hidle.mpr hbusy)]
      · rw [if_neg hbusy, if_neg (hidle.not.mpr hbusy)]

variable [DecidableEq α]

/-- The engine waits, and wakes nobody. -/
theorem RotationInv.engine_waits (h : RotationInv ⟨m, s.thr⟩ log) {l : AslLoc}
    (hran : (aslProgram n α).Ran s .engine x s' [] (.waiting .engine l))
    (hgather : l = .gather → (s.thr .engine).loc = .gather) (hcycling : ¬ Idle s → l = .gather)
    (hmem : s'.mem.aslQ = m.aslQ ∧ s'.mem.currSlot = m.currSlot ∧
      s'.mem.nWorkersReady = m.nWorkersReady)
    (hwaits : s'.mem.waitLstFq = m.waitLstFq) (hpushed : s'.mem.pushed = m.pushed) :
    RotationInv s' (log ++ startedEvents s s') := by
  have hself : s'.thr .engine = .waiting .engine l := hran.self
  have hworkers : ∀ i, s'.thr (.worker i) = s.thr (.worker i) := fun i => hran.other_of_nil (by simp)
  rw [startedEvents_of_eq hworkers, List.append_nil]
  refine h.congr hworkers (fun a => ?_) (fun c l' hw => ?_) (fun hloc => ?_) (fun hbusy => ?_) hmem
    fun entry ws hqueue => ⟨ws, hqueue.congr hwaits hpushed⟩
  · rw [hran.other_of_nil (by simp)]
    exact h.standing.apps a
  · rw [hself, Status.waiting.injEq] at hw
    exact hw.1.symm
  · rw [hself] at hloc
    exact hgather hloc
  · rw [hself]
    exact hcycling hbusy

/-- The engine starts a cycle. -/
theorem RotationInv.start (h : RotationInv ⟨m, s.thr⟩ log) (hn : 2 ≤ n) (hidle : Idle s)
    (hran : (aslProgram n α).Ran s .engine x s' notes st)
    (hexec : startCycle n m = .done s'.mem notes st) :
    RotationInv s' (log ++ startedEvents s s') ∧ s'.mem.aslQ = m.aslQ := by
  have hoff : ∀ a, s.thr (.app a) = .running .outside := h.standing.apps
  obtain ⟨hnotified, hzero, happs⟩ := woken_of_startCycle hoff hidle hran hexec
  simp only [startCycle, Effect.done.injEq] at hexec
  obtain ⟨hm, -, rfl⟩ := hexec
  have hengine : s'.thr .engine = .waiting .engine .gather := hran.self
  have hbusy : ¬ Idle s' := @not_idle_of_awake _ _ _ ⟨0, by omega⟩ (by rw [hnotified]; rfl)
  have hstarted : startedEvents s s' = [.started] := by
    unfold startedEvents
    rw [if_pos]
    refine ⟨⟨0, by omega⟩, ?_, ?_⟩
    · rw [hidle]
      rfl
    · rw [hnotified]
      rfl
  have hturn : turnOf s' = fun _ => .pre := by
    ext i
    unfold turnOf
    split
    · rw [hnotified]
      rfl
    · rfl
  refine ⟨⟨⟨fun i => ?_, happs, fun c l hw => ?_, fun _ => ?_, fun _ => ?_⟩, ?_⟩, ?_⟩
  · rw [hnotified i]
    exact .notified
  · rw [hengine, Status.waiting.injEq] at hw
    exact hw.1.symm
  · rw [hzero, ← hm]
  · rw [hengine]
    rfl
  · obtain ⟨entry, b, c, ws, hrot, hlog, hcyc, hqueue⟩ := h.line
    rw [turnOf_idle (by exact hidle)] at hrot hlog
    rw [if_pos (by exact hidle)] at hcyc
    refine ⟨entry, b, c, ws, ?_, ?_, ?_, ?_⟩
    · rw [hturn, ← hm]
      exact hrot.congr rfl rfl
    · rw [hturn, hstarted]
      exact hlog.start
    · rw [hstarted, cycles_concat, hcyc, if_neg hbusy]
      rfl
    · exact hqueue.congr (by rw [← hm]) (by rw [← hm])
  · rw [← hm]

/-- The engine ends a cycle: it starts the next one or halts. -/
theorem RotationInv.finishCycle (h : RotationInv ⟨m, s.thr⟩ log) (hn : 2 ≤ n) (hidle : Idle s)
    (hran : (aslProgram n α).Ran s .engine x s' notes st)
    (hexec : endCycle n m = .done s'.mem notes st) :
    RotationInv s' (log ++ startedEvents s s') ∧ s'.mem.aslQ = m.aslQ := by
  unfold endCycle at hexec
  split at hexec
  · exact h.start hn hidle hran hexec
  · rw [Effect.done.injEq] at hexec
    obtain ⟨hm, rfl, rfl⟩ := hexec
    refine ⟨h.engine_waits hran (fun hl => (by cases hl)) (fun hbusy => absurd hidle hbusy) ?_ ?_ ?_, ?_⟩
    · rw [← hm]
      exact ⟨rfl, rfl, rfl⟩
    · rw [← hm]
    · rw [← hm]
    · rw [← hm]

/-- All workers are ready: the item that has waited longest enters, if there is one, and the cycle
ends. -/
theorem RotationInv.gather_step (h : RotationInv s log) (hn : 2 ≤ n) (hidle : Idle s)
    (hran : (aslProgram n α).Ran s .engine x s' notes st) (hready : s.mem.nWorkersReady = n)
    (hexec : aslEngineFn n .gather s.mem = .done s'.mem notes st)
    (hbetween : entries (enteredEvents s.mem s'.mem ++ startedEvents s s') ≠ [] →
      Idle s ∧ ∀ e ∈ entries log, e.2 ≠ cycles log) :
    RotationInv s' (log ++ (enteredEvents s.mem s'.mem ++ startedEvents s s')) := by
  simp only [aslEngineFn, if_neg (not_not.mpr hready)] at hexec
  obtain ⟨⟨waitLstItem, q⟩, hdeq, hexec⟩ := Effect.call_eq_done.mp hexec
  obtain ⟨entry₀, b₀, c₀, ws₀, hrot₀, -, -, hqueue₀⟩ := h.line
  cases waitLstItem with
  | none =>
      rw [hqueue₀.deque_none hdeq] at hexec
      obtain ⟨hinv, haslQ⟩ := RotationInv.finishCycle (m := s.mem) h hn hidle hran hexec
      rw [enteredEvents_of_eq haslQ, List.nil_append]
      exact hinv
  | some item =>
      obtain ⟨m₁, henq, hexec⟩ := Effect.call_eq_done.mp hexec
      obtain ⟨hnone, rfl⟩ := eq_of_enqueue (m := { s.mem with waitLstFq := q }) hrot₀.random henq
      have hentered : enteredEvents s.mem s'.mem = [.entered item] := by
        have haslQ : ∀ m' notes st, endCycle n m' = .done s'.mem notes st →
            s'.mem.aslQ = m'.aslQ := by
          intro m' notes st hdone
          unfold endCycle startCycle at hdone
          split at hdone <;> rw [Effect.done.injEq] at hdone <;> rw [← hdone.1]
        apply enteredEvents_of_enqueue hnone
        rw [haslQ _ _ _ hexec]
      obtain ⟨-, hfree⟩ := hbetween (by
        rw [hentered]
        simp [entries, entriesFrom, entryOf])
      have hinv := h.enter hidle hfree item s.mem.pushed q (by
        intro entry ws hqueue
        obtain ⟨hnew, hlt, ws', hin, hqueue'⟩ := hqueue.deque hdeq
        exact ⟨hnew, fun c => ⟨ws', hqueue'.enter hin hlt c⟩⟩)
      obtain ⟨hinv', -⟩ := RotationInv.finishCycle hinv hn hidle hran hexec
      rw [hentered, ← List.append_assoc]
      exact hinv'

/-- A step of the engine. -/
theorem RotationInv.engine_step (h : RotationInv s log) (hn : 2 ≤ n)
    (hran : (aslProgram n α).Ran s .engine x s' notes st)
    (hbetween : entries (enteredEvents s.mem s'.mem ++ startedEvents s s') ≠ [] →
      Idle s ∧ ∀ e ∈ entries log, e.2 ≠ cycles log) :
    RotationInv s' (log ++ (enteredEvents s.mem s'.mem ++ startedEvents s s')) := by
  have hexec : aslEngineFn n (s.thr .engine).loc s.mem = .done s'.mem notes st := hran.exec
  have hidle : (s.thr .engine).loc ≠ .gather → Idle s := by
    intro hloc
    by_contra hbusy
    exact hloc (h.standing.cycling hbusy)
  -- a cycle is started, and no item enters
  have hstart : Idle s → startCycle n s.mem = .done s'.mem notes st →
      RotationInv s' (log ++ (enteredEvents s.mem s'.mem ++ startedEvents s s')) := by
    intro hidle hexec
    obtain ⟨hinv, hq⟩ := RotationInv.start (m := s.mem) h hn hidle hran hexec
    rw [enteredEvents_of_eq hq, List.nil_append]
    exact hinv
  cases hloc : (s.thr .engine).loc with
  | unborn =>
      rw [hloc] at hexec
      simp only [aslEngineFn] at hexec
      split at hexec
      · exact hstart (hidle (by rw [hloc]; simp)) hexec
      · cases hexec
  | halted =>
      rw [hloc] at hexec
      exact hstart (hidle (by rw [hloc]; simp)) hexec
  | gather =>
      rw [hloc] at hexec
      by_cases hready : s.mem.nWorkersReady = n
      · have hall : waitingWorkers s = n := by rw [← h.standing.ready hloc, hready]
        exact h.gather_step hn (h.standing.idle hall) hran hready hexec hbetween
      · -- woken too early, the engine waits again
        simp only [aslEngineFn, if_pos hready, Effect.done.injEq] at hexec
        obtain ⟨hm, rfl, rfl⟩ := hexec
        rw [enteredEvents_of_eq (by rw [hm]), List.nil_append]
        apply RotationInv.engine_waits (m := s.mem) h hran (fun _ => hloc) (fun _ => rfl)
        · rw [← hm]
          exact ⟨rfl, rfl, rfl⟩
        · rw [← hm]
        · rw [← hm]
  | _ =>
      rw [hloc] at hexec
      cases hexec

/-- The engine is created or woken, and nothing else happens. -/
theorem rest_of_engineStart {m' : AssemblyLine}
    (h : (assemblyLineEngineStart m : AslEffect n) = .done m' notes st) :
    m'.aslQ = m.aslQ ∧ m'.currSlot = m.currSlot ∧ m'.nWorkersReady = m.nWorkersReady ∧
      m'.waitLstFq = m.waitLstFq ∧ m'.pushed = m.pushed ∧
      (∀ note, note ∈ notes → note = .signal .engine) ∧ st = .running .outside := by
  unfold assemblyLineEngineStart at h
  split at h
  · rw [Effect.done.injEq] at h
    obtain ⟨rfl, rfl, rfl⟩ := h
    exact ⟨rfl, rfl, rfl, rfl, rfl, by simp, rfl⟩
  · split at h
    · rw [Effect.done.injEq] at h
      obtain ⟨rfl, rfl, rfl⟩ := h
      exact ⟨rfl, rfl, rfl, rfl, rfl, by simp, rfl⟩
    · rw [Effect.done.injEq] at h
      obtain ⟨rfl, rfl, rfl⟩ := h
      exact ⟨rfl, rfl, rfl, rfl, rfl, by simp, rfl⟩

/-- A push. -/
theorem RotationInv.push_step (h : RotationInv s log) {a : α}
    (hran : (aslProgram n α).Ran s (.app a) x s' notes st)
    (hbetween : entries (enteredEvents s.mem s'.mem ++ startedEvents s s') ≠ [] →
      Idle s ∧ ∀ e ∈ entries log, e.2 ≠ cycles log) :
    RotationInv s' (log ++ (enteredEvents s.mem s'.mem ++ startedEvents s s')) := by
  have hexec : assemblyLinePushNewItem s.mem = .done s'.mem notes st := hran.exec
  obtain ⟨m₁, hstore, hengine⟩ := Effect.call_eq_done.mp hexec
  obtain ⟨hq, hslot, hready, hwaits, hpushed, hnotes, rfl⟩ := rest_of_engineStart hengine
  obtain ⟨hothers, happs⟩ := others_of_ran h.standing.workers h.standing.apps hran hnotes
  have hworkers : ∀ i, s'.thr (.worker i) = s.thr (.worker i) := fun i => hothers i (by simp)
  have happs' : ∀ c, s'.thr (.app c) = .running .outside := by
    intro c
    by_cases hc : (.app c : AslThread n α) = .app a
    · rw [hc, hran.self]
    · exact happs c hc
  have hloc : (s'.thr .engine).loc = (s.thr .engine).loc := hran.loc_of_ne (by simp)
  have hcv : ∀ c l, s'.thr .engine = .waiting c l → c = .engine := fun c l hw =>
    h.standing.engine c l (hran.waiting_of_ne (by simp) hw)
  rw [startedEvents_of_eq hworkers, List.append_nil] at hbetween ⊢
  obtain ⟨entry₀, b₀, c₀, -, hrot₀, -⟩ := h.line
  rcases storeNewItem_cases hstore hrot₀.random with ⟨-, hnone, rfl⟩ | ⟨-, q, rfl, hholds⟩
  · have hentered : enteredEvents s.mem s'.mem = [.entered s.mem.pushed] := by
      apply enteredEvents_of_enqueue hnone
      rw [hq]
    rw [hentered] at hbetween ⊢
    obtain ⟨hidle, hfree⟩ := hbetween (by simp [entries, entriesFrom, entryOf])
    have hinv := h.enter hidle hfree s.mem.pushed (s.mem.pushed + 1) s.mem.waitLstFq (by
        intro entry ws hqueue
        obtain ⟨hqueue', hin, hnew⟩ := hqueue.push
        exact ⟨hnew, fun c => ⟨ws, hqueue'.enter hin (Nat.lt_succ_self _) c⟩⟩)
    exact hinv.congr hworkers happs' hcv (fun hgather => hloc ▸ hgather)
      (fun hbusy => absurd hidle hbusy) ⟨hq, hslot, hready⟩
      fun entry ws hqueue => ⟨ws, hqueue.congr hwaits hpushed⟩
  · rw [@enteredEvents_of_eq s.mem s'.mem hq, List.append_nil]
    refine h.congr hworkers happs' hcv (fun hgather => hloc ▸ hgather)
      (fun hbusy => hloc ▸ h.standing.cycling hbusy) ⟨hq, hslot, hready⟩ fun entry ws hqueue => ?_
    obtain ⟨hqueue', hin, hnew⟩ := hqueue.push
    have hjoined := hqueue'.append (hholds ws hqueue.holds).1 hin (Nat.lt_succ_self _) hnew
    exact ⟨_, hjoined.congr hwaits hpushed⟩

end Others

section Runs

variable [DecidableEq α] [Fintype α] {s : AslConfig n α} {log : List LineEvent}

omit [DecidableEq α] [Fintype α] in
theorem rotationInv_fresh (hn : 2 ≤ n) : RotationInv (freshAssemblyLine n α) [] := by
  have hidle : Idle (freshAssemblyLine n α) := fun _ => rfl
  have hempty : ∀ c, upTo (fun _ => none) c = [] := by
    intro c
    simp [upTo]
  refine ⟨⟨fun _ => .waiting, fun _ => rfl, fun c l hw => (by cases hw), fun hloc => (by cases hloc),
    fun hbusy => absurd hidle hbusy⟩, fun _ => none, 0, 0, [], ?_, ?_, ?_, ?_⟩
  · rw [turnOf_idle hidle]
    refine ⟨by omega, rfl, fun i hi => ?_, fun i hi => ?_, fun i _ hr => (by cases hr),
      fun i _ hf => (by simp at hf), ?_, fun _ _ => rfl, fun k k' y hk => (by cases hk)⟩
    · show i = ringAt n 0 i
      unfold ringAt
      split <;> omega
    · rw [if_neg (by simp [Stage.passed])]
      unfold ago
      split <;> rfl
    · rw [leftItems, hempty, hempty]
      rfl
  · rw [turnOf_idle hidle]
    refine ⟨fun y k => ?_, ?_, ?_, fun k y i hk => (by cases hk), fun i y hin => (by cases hin),
      EachAfter.nil⟩
    · simp [entries, entriesFrom]
    · rw [hempty]
      rfl
    · rw [leftItems, hempty]
      rfl
  · rw [if_pos hidle]
    rfl
  · exact ⟨holds_fifoInitQ (by decide), List.nodup_nil, fun y hy => (by cases hy),
      fun k y hk => (by cases hk)⟩

/-- **One item meets every worker in order**, each in its cycle, for any size of the line, any order
of the workers within the cycles, and any items that enter between them. -/
theorem assemblyLine_rotates (hn : 2 ≤ n)
    (h : (rotationMachine n α).ReachableUnder BetweenCycles (s, log)) : Rotates s log := by
  have hinv : RotationInv s log ∧ Recorded s.mem log := by
    refine Machine.ReachableUnder.invariant (I := fun x => RotationInv x.1 x.2 ∧ Recorded x.1.mem x.2)
      ?_ ?_ h
    · rintro ⟨s, log⟩ ⟨hs, hlog⟩
      cases hs
      cases hlog
      exact ⟨rotationInv_fresh hn, fun _ => rfl, rfl⟩
    · rintro ⟨s, log⟩ a ⟨s', log'⟩ ⟨hinv, hrec⟩ hcond hstep
      obtain ⟨hnext, hlog'⟩ := Machine.step_of_recording hstep
      have hlog' : log' = log ++ lineEvents s a s' := hlog'
      rw [hlog']
      cases a with
      | spurious t =>
          have hno := (Program.spurious_of_step hnext).1
          cases hno
      | run t x picks =>
          obtain ⟨notes, st, hran⟩ := Program.ran_of_step hnext
          refine ⟨?_, hrec.step hran⟩
          cases t with
          | worker i => exact hinv.worker_step hran
          | engine => exact hinv.engine_step hn hran (hcond s' hnext)
          | app a => exact hinv.push_step hran (hcond s' hnext)
  exact hinv.1.rotates hinv.2

end Runs

/-- The second of two items enters while the first one is on the line, and leaves after it. -/
theorem assemblyLine_rotates_trace : ∃ (s : AslConfig 2 Unit) (log : List LineEvent), Rotates s log ∧
    entries log = [(0, 0), (1, 1)] ∧ removedItems log = [0] ∧ .worked 0 1 ∈ log := by
  have hrun : ((rotationMachine 2 Unit).execUnder (fun s a => decide (BetweenCycles s a))
      (freshAssemblyLine 2 Unit, [])
      ([pushes, engineStarts, pushes] ++ [goes 0, goes 0, goes 0, goes 0, goes 1, goes 1,
        wakesEngine 1, engineStarts, goes 1, goes 0, goes 0, goes 1, goes 1])).holds
      (fun x => decide (entries x.2 = [(0, 0), (1, 1)] ∧ removedItems x.2 = [0] ∧
        .worked 0 1 ∈ x.2)) = true := by
    decide +kernel
  obtain ⟨⟨s, log⟩, hs, hp⟩ := Outcome.holds_iff.mp hrun
  have hreach := (Machine.reachableUnder_of_execUnder (.init (Machine.recording_init rfl)) hs).mono
    fun s a hcond => of_decide_eq_true hcond
  exact ⟨s, log, assemblyLine_rotates (by decide) hreach, of_decide_eq_true hp⟩

end ThreadLib
end MultithreadingBible
