import MultithreadingBible.ThreadLib.AssemblyLineSlots

/-!
# Assembly lines: the invariant

`AslInv` adds to `LineOk` where the threads are: outside a cycle all workers wait, and within one the
engine waits until the last of them reports.  There is one lemma for the steps of each kind of thread.
Pushes are the steps that may go wrong, as they look at the number of items on the line only;
`timelyPush` are those that find the line as they expect it.
-/

namespace MultithreadingBible
namespace ThreadLib

open Lib

variable {n : Nat} {α : Type*}

/-- The engine waits for the workers. -/
def inCycle (s : AslConfig n α) : Bool := decide ((s.thr .engine).loc = .gather)

/-- The stage of a worker with a given status. -/
def stageOf (running : Bool) : Status (AslCv n) AslLoc → Stage
  | .waiting _ _ => if running then .post else .pre
  | .notified _ _ => .pre
  | .running .work => .busy
  | .running .remove => .rem
  | .running .decrement => .mid
  | .running .report => .post
  | .running _ => .pre

/-- The stages of the workers. -/
def stage (s : AslConfig n α) (i : Nat) : Stage :=
  if h : i < n then stageOf (inCycle s) (s.thr (.worker ⟨i, h⟩)) else .pre

/-- A push finds a free slot or a free place in the wait list. -/
def roomToPush (s : AslConfig n α) : Act (AslThread n α) Unit → Bool
  | .run (.app _) _ _ => decide (s.mem.aslQ.count = 0) || !isQueueFull s.mem.waitLstFq
  | _ => true

/-- A push that finds the line empty overtakes no waiting item, and meets the first worker before the
test of its slot, or after its move, with the last worker done with that slot.  A push that finds items
on the line does not leave its item to be put into a slot that was filled during the cycle. -/
def timelyPush (s : AslConfig n α) : Act (AslThread n α) Unit → Bool
  | .run (.app _) _ _ =>
      if s.mem.aslQ.count = 0 then
        decide (s.mem.waitLstFq.count = 0 ∧ (stage s 0 = .pre ∨
          (stage s 0 = .post ∧ (stage s (n - 1)).passed = true)))
      else
        !(decide (stage s 0 = .post) && (stage s (n - 1)).passed &&
          (s.mem.aslQ.elem (s.mem.currSlot 0)).isSome)
  | _ => true

/-- Where a worker can be. -/
inductive WorkerShape (i : Fin n) : Status (AslCv n) AslLoc → Prop
  | waiting : WorkerShape i (.waiting (.worker i) .test)
  | notified : WorkerShape i (.notified (.worker i) .test)
  | work : WorkerShape i (.running .work)
  | remove : WorkerShape i (.running .remove)
  | decrement : WorkerShape i (.running .decrement)
  | report : WorkerShape i (.running .report)

/-- All workers wait for the next cycle. -/
def Idle (s : AslConfig n α) : Prop := ∀ i, s.thr (.worker i) = .waiting (.worker i) .test

/-- The number of workers that are not at work. -/
def waitingWorkers (s : AslConfig n α) : Nat :=
  (Finset.univ.filter fun i : Fin n => (s.thr (.worker i)).isWaiting = true).card

/-- Where the engine can be, and what it relies on there. -/
inductive EngineOk (s : AslConfig n α) : Prop
  | unborn (hthr : s.thr .engine = .running .unborn) (hidle : Idle s)
      (hstate : s.mem.aslState ≠ .wait) (hnew : s.mem.aslEngineThread = false → s.mem.pushed = 0)
  | gather (hthr : s.thr .engine = .waiting .engine .gather) (hstate : s.mem.aslState ≠ .wait)
      (hborn : s.mem.aslEngineThread = true) (hready : s.mem.nWorkersReady = waitingWorkers s)
      (hlt : waitingWorkers s < n)
  | gathered (hthr : s.thr .engine = .notified .engine .gather) (hidle : Idle s)
      (hstate : s.mem.aslState ≠ .wait) (hborn : s.mem.aslEngineThread = true)
      (hready : s.mem.nWorkersReady = n)
  | halted (hthr : s.thr .engine = .waiting .engine .halted) (hidle : Idle s)
      (hstate : s.mem.aslState = .wait) (hborn : s.mem.aslEngineThread = true)
      (hline : s.mem.aslQ.count = 0) (hwaits : s.mem.waitLstFq.count = 0)
  | restarted (hthr : s.thr .engine = .notified .engine .halted) (hidle : Idle s)
      (hstate : s.mem.aslState ≠ .wait) (hborn : s.mem.aslEngineThread = true)

/-- The invariant of all runs with timely pushes. -/
structure AslInv (s : AslConfig n α) : Prop where
  workers : ∀ i, WorkerShape i (s.thr (.worker i))
  apps : ∀ a, s.thr (.app a) = .running .outside
  engine : EngineOk s
  line : ∃ b ws, LineOk n b ws (stage s) s.mem ∧ s.mem.waitLstFq.Holds ws ∧
    s.mem.waitLstFq.size = 50

section Facts

variable {s s' : AslConfig n α}

theorem stage_of_lt {i : Nat} (hi : i < n) :
    stage s i = stageOf (inCycle s) (s.thr (.worker ⟨i, hi⟩)) := dif_pos hi

/-- Where all workers are at the same stage. -/
theorem stage_eq_const {st : Stage} (hpre : st = .pre)
    (h : ∀ i : Fin n, stageOf (inCycle s) (s.thr (.worker i)) = st) :
    stage s = fun _ => st := by
  ext i
  unfold stage
  split
  · exact h _
  · exact hpre.symm

/-- Outside a cycle no worker has tested its slot. -/
theorem stage_idle (hidle : Idle s) (hout : inCycle s = false) : stage s = fun _ => .pre := by
  refine stage_eq_const rfl fun i => ?_
  rw [hidle i, hout]
  rfl

/-- At the end of a cycle all workers have moved. -/
theorem stage_gathered (hidle : Idle s) (hin : inCycle s = true) {i : Nat} (hi : i < n) :
    stage s i = .post := by
  rw [stage_of_lt hi, hidle, hin]
  rfl

theorem waitingWorkers_eq (hwaiting : ∀ i, (s.thr (.worker i)).isWaiting = true) :
    waitingWorkers s = n := by
  unfold waitingWorkers
  rw [Finset.filter_true_of_mem fun i _ => hwaiting i, Finset.card_univ, Fintype.card_fin]

/-- A worker that is not at work is counted. -/
theorem exists_working (hlt : waitingWorkers s < n) :
    ∃ i, (s.thr (.worker i)).isWaiting = false := by
  by_contra hno
  have hwaiting : ∀ i, (s.thr (.worker i)).isWaiting = true := by
    intro i
    by_contra hi
    exact hno ⟨i, by simpa using hi⟩
  have hall := waitingWorkers_eq hwaiting
  omega

/-- The waiting workers after a worker has gone on. -/
theorem waitingWorkers_goes {i : Fin n} (hworkers : ∀ j, j ≠ i → s'.thr (.worker j) = s.thr (.worker j))
    (hawake : (s.thr (.worker i)).isWaiting = false) (hstays : (s'.thr (.worker i)).isWaiting = false) :
    waitingWorkers s' = waitingWorkers s := by
  unfold waitingWorkers
  congr 1
  ext j
  rw [Finset.mem_filter, Finset.mem_filter]
  by_cases hj : j = i
  · rw [hj, hstays, hawake]
  · rw [hworkers j hj]

/-- The waiting workers after a worker has reported. -/
theorem waitingWorkers_report {i : Fin n}
    (hworkers : ∀ j, j ≠ i → s'.thr (.worker j) = s.thr (.worker j))
    (hawake : (s.thr (.worker i)).isWaiting = false) (hwaits : (s'.thr (.worker i)).isWaiting = true) :
    waitingWorkers s' = waitingWorkers s + 1 := by
  have hinsert : (Finset.univ.filter fun j : Fin n => (s'.thr (.worker j)).isWaiting = true) =
      insert i (Finset.univ.filter fun j : Fin n => (s.thr (.worker j)).isWaiting = true) := by
    ext j
    by_cases hj : j = i
    · simp [hj, hwaits]
    · simp [hj, hworkers j hj]
  unfold waitingWorkers
  rw [hinsert, Finset.card_insert_of_notMem]
  simp [hawake]

/-- Where all workers are counted, all of them wait for the next cycle. -/
theorem idle_of_waitingWorkers (hshapes : ∀ i, WorkerShape i (s.thr (.worker i)))
    (hall : waitingWorkers s = n) : Idle s := by
  intro j
  have huniv : (Finset.univ.filter fun j : Fin n => (s.thr (.worker j)).isWaiting = true) =
      Finset.univ := by
    rw [← Finset.card_eq_iff_eq_univ, Fintype.card_fin]
    exact hall
  have hj := Finset.filter_eq_self.mp huniv j (Finset.mem_univ j)
  have hshape := hshapes j
  generalize s.thr (.worker j) = stj at hj hshape ⊢
  cases hshape <;> first | rfl | cases hj

/-- While a worker is at work the engine waits. -/
theorem AslInv.gather (h : AslInv s) {i : Fin n} (hi : (s.thr (.worker i)).isWaiting = false) :
    s.thr .engine = .waiting .engine .gather ∧ s.mem.aslState ≠ .wait ∧
      s.mem.aslEngineThread = true ∧ s.mem.nWorkersReady = waitingWorkers s ∧
      waitingWorkers s < n := by
  have hbusy : ¬ Idle s := by
    intro hidle
    rw [hidle i] at hi
    cases hi
  cases h.engine with
  | unborn _ hidle => exact absurd hidle hbusy
  | gather hthr hstate hborn hready hlt => exact ⟨hthr, hstate, hborn, hready, hlt⟩
  | gathered _ hidle => exact absurd hidle hbusy
  | halted _ hidle => exact absurd hidle hbusy
  | restarted _ hidle => exact absurd hidle hbusy

end Facts

section Steps

variable [DecidableEq α] {s s' : AslConfig n α} {x : Unit} {notes : List (Note (AslCv n))}
  {st : Status (AslCv n) AslLoc}

omit [DecidableEq α] in
/-- Only the engine waits for the engine's condition. -/
theorem engine_of_waiting (hshapes : ∀ i, WorkerShape i (s.thr (.worker i)))
    (happs : ∀ a, s.thr (.app a) = .running .outside) {t : AslThread n α} {l : AslLoc}
    (hw : s.thr t = .waiting .engine l) : t = .engine := by
  cases t with
  | engine => rfl
  | worker j =>
      have hshape := hshapes j
      rw [hw] at hshape
      cases hshape
  | app a =>
      rw [happs a] at hw
      cases hw

/-- A thread that signals at most the engine disturbs no other thread. -/
theorem others_of_ran (hshapes : ∀ i, WorkerShape i (s.thr (.worker i)))
    (happs : ∀ a, s.thr (.app a) = .running .outside) {t : AslThread n α}
    (hran : (aslProgram n α).Ran s t x s' notes st)
    (hnotes : ∀ note, note ∈ notes → note = .signal .engine) :
    (∀ j, .worker j ≠ t → s'.thr (.worker j) = s.thr (.worker j)) ∧
      ∀ a, .app a ≠ t → s'.thr (.app a) = .running .outside := by
  have hother : ∀ u, u ≠ .engine → u ≠ t → s'.thr u = s.thr u := by
    intro u hengine hu
    rcases hran.other hu with hsame | ⟨c, l, hold, -, hnote⟩
    · exact hsame
    · have hc : c = .engine := by
        rcases hnote with hnote | hnote
        · exact Note.signal.inj (hnotes _ hnote)
        · cases hnotes _ hnote
      exact absurd (engine_of_waiting hshapes happs (hc ▸ hold)) hengine
  constructor
  · intro j hj
    exact hother (.worker j) (by simp) hj
  · intro a ha
    rw [hother (.app a) (by simp) ha, happs a]

/-- A worker that signals at most the engine disturbs no other thread. -/
theorem others_of_worker (hshapes : ∀ i, WorkerShape i (s.thr (.worker i)))
    (happs : ∀ a, s.thr (.app a) = .running .outside) {i : Fin n}
    (hran : (aslProgram n α).Ran s (.worker i) x s' notes st)
    (hnotes : ∀ note, note ∈ notes → note = .signal .engine) :
    (∀ j, j ≠ i → s'.thr (.worker j) = s.thr (.worker j)) ∧
      ∀ a, s'.thr (.app a) = .running .outside := by
  obtain ⟨hworkers, happs'⟩ := others_of_ran hshapes happs hran hnotes
  exact ⟨fun j hj => hworkers j (by simpa using hj), fun a => happs' a (by simp)⟩

/-- A worker goes on within a cycle, and sends nothing. -/
theorem AslInv.worker_silent (h : AslInv s) {i : Fin n}
    (hran : (aslProgram n α).Ran s (.worker i) x s' [] st) {m : AssemblyLine} (hm : m = s'.mem)
    (hshape : WorkerShape i st) (hstays : st.isWaiting = false)
    (hq : m.waitLstFq = s.mem.waitLstFq) (hstate : m.aslState = s.mem.aslState)
    (hborn : m.aslEngineThread = s.mem.aslEngineThread)
    (hready : m.nWorkersReady = s.mem.nWorkersReady)
    (hline : ∀ b ws, LineOk n b ws (stage s) s.mem →
      LineOk n b ws (Function.update (stage s) i (stageOf true st)) m) : AslInv s' := by
  subst hm
  obtain ⟨hengine, hstate₀, hborn₀, hready₀, hlt⟩ := h.gather hran.awake
  obtain ⟨hworkers, happs⟩ := others_of_worker h.workers h.apps hran (by simp)
  have hengine' : s'.thr .engine = .waiting .engine .gather := by
    rw [hran.other_of_nil (u := .engine) (by simp), hengine]
  have hin : inCycle s = true := by simp [inCycle, hengine]
  have hin' : inCycle s' = true := by simp [inCycle, hengine']
  have hstage : stage s' = Function.update (stage s) i (stageOf true st) := by
    ext j
    by_cases hji : j = i
    · subst hji
      rw [Function.update_self, stage_of_lt i.isLt, hin', hran.self]
    · rw [Function.update_of_ne hji]
      unfold stage
      split
      · next hj =>
        rw [hin, hin', hworkers _ fun heq => hji (by rw [← heq])]
      · rfl
  have hcount : waitingWorkers s' = waitingWorkers s :=
    waitingWorkers_goes hworkers hran.awake (by rw [hran.self]; exact hstays)
  refine ⟨fun j => ?_, happs, .gather hengine' ?_ ?_ ?_ ?_, ?_⟩
  · by_cases hj : j = i
    · rw [hj, hran.self]
      exact hshape
    · rw [hworkers j hj]
      exact h.workers j
  · rw [hstate]
    exact hstate₀
  · rw [hborn, hborn₀]
  · rw [hready, hready₀, hcount]
  · rw [hcount]
    exact hlt
  · obtain ⟨b, ws, hok, hholds, hsize⟩ := h.line
    refine ⟨b, ws, ?_, hq ▸ hholds, hq ▸ hsize⟩
    rw [hstage]
    exact hline b ws hok

/-- A worker reports that it is ready. -/
theorem AslInv.worker_report (h : AslInv s) {i : Fin n}
    (hran : (aslProgram n α).Ran s (.worker i) x s' notes st)
    (hthr : s.thr (.worker i) = .running .report) : AslInv s' := by
  obtain ⟨hengine, hstate, hborn, hready, hlt⟩ := h.gather hran.awake
  have hexec : workerThreadInit i (s.thr (.worker i)).loc s.mem = .done s'.mem notes st := hran.exec
  rw [hthr] at hexec
  simp only [Status.loc_running, workerThreadInit, Effect.done.injEq] at hexec
  obtain ⟨hm, hnotes, rfl⟩ := hexec
  obtain ⟨hworkers, happs⟩ := others_of_worker h.workers h.apps hran (by
    intro note hnote
    rw [← hnotes] at hnote
    split at hnote
    · simpa using hnote
    · simp at hnote)
  have hself := hran.self
  have hgather : (s'.thr .engine).loc = .gather := by
    rw [hran.loc_of_ne (by simp), hengine]
    rfl
  -- who reports and who waits are at the same stage of the cycle
  have hstage : stage s' = stage s := by
    ext j
    unfold stage
    split
    · next hj =>
      by_cases hji : (⟨j, hj⟩ : Fin n) = i
      · rw [hji, hself, hthr]
        simp [stageOf, inCycle, hgather]
      · rw [hworkers _ hji]
        simp [inCycle, hgather, hengine]
    · rfl
  -- one more worker waits
  have hcount : waitingWorkers s' = waitingWorkers s + 1 :=
    waitingWorkers_report hworkers hran.awake (by rw [hself]; rfl)
  have hshapes : ∀ j, WorkerShape j (s'.thr (.worker j)) := by
    intro j
    by_cases hj : j = i
    · rw [hj, hself]
      exact .waiting
    · rw [hworkers j hj]
      exact h.workers j
  have hlines : ∃ b ws, LineOk n b ws (stage s') s'.mem ∧ s'.mem.waitLstFq.Holds ws ∧
      s'.mem.waitLstFq.size = 50 := by
    obtain ⟨b, ws, hok, hholds, hsize⟩ := h.line
    rw [hstage, ← hm]
    exact ⟨b, ws, hok.congr rfl rfl rfl rfl rfl, hholds, hsize⟩
  refine ⟨hshapes, happs, ?_, hlines⟩
  by_cases hlast : s.mem.nWorkersReady + 1 = n
  · -- the last worker to report wakes the engine
    rw [if_pos hlast] at hnotes
    have hall : waitingWorkers s' = n := by omega
    refine .gathered ?_ (idle_of_waitingWorkers hshapes hall) (by rw [← hm]; exact hstate)
      (by rw [← hm]; exact hborn) (by rw [← hm]; exact hlast)
    · obtain ⟨u, l, hu, hold, hnew⟩ := hran.signal (c := .engine) (by rw [← hnotes]; simp)
        ⟨.engine, .gather, hengine⟩
      obtain rfl := engine_of_waiting h.workers h.apps hold
      rw [hengine] at hold
      cases hold
      exact hnew
  · rw [if_neg hlast] at hnotes
    subst hnotes
    refine .gather ?_ (by rw [← hm]; exact hstate) (by rw [← hm]; exact hborn) ?_ (by omega)
    · rw [hran.other_of_nil (by simp), hengine]
    · rw [hcount, ← hready, ← hm]

/-- A step of a worker. -/
theorem AslInv.worker_step (h : AslInv s) {i : Fin n}
    (hran : (aslProgram n α).Ran s (.worker i) x s' notes st) : AslInv s' := by
  have hexec : workerThreadInit i (s.thr (.worker i)).loc s.mem = .done s'.mem notes st := hran.exec
  have hin : inCycle s = true := by simp [inCycle, (h.gather hran.awake).1]
  have hstage : stage s i = stageOf true (s.thr (.worker i)) := by
    rw [stage_of_lt i.isLt, hin]
  have hshape := h.workers i
  have hawake := hran.awake
  generalize hthr : s.thr (.worker i) = old at hexec hstage hshape hawake
  cases hshape with
  | waiting => cases hawake
  | notified =>
      -- the slot is empty or holds an item, and the worker goes on accordingly
      have htest : ∀ b ws, LineOk n b ws (stage s) s.mem → LineOk n b ws (Function.update (stage s) i
          (if (s.mem.aslQ.elem (s.mem.currSlot i)).isSome then .busy else .mid)) s.mem :=
        fun b ws hok => hok.test i.isLt hstage
      simp only [Status.loc_notified, workerThreadInit] at hexec
      split at hexec
      · next hsome =>
        rw [Effect.done.injEq] at hexec
        obtain ⟨hm, rfl, rfl⟩ := hexec
        rw [if_pos hsome] at htest
        exact h.worker_silent hran hm .work rfl rfl rfl rfl rfl htest
      · next hnone =>
        rw [Effect.done.injEq] at hexec
        obtain ⟨hm, rfl, rfl⟩ := hexec
        rw [if_neg hnone] at htest
        exact h.worker_silent hran hm .decrement rfl rfl rfl rfl rfl htest
  | work =>
      simp only [Status.loc_running, workerThreadInit] at hexec
      split at hexec
      · cases hexec
      · next item hitem =>
        rw [Effect.done.injEq] at hexec
        obtain ⟨hm, rfl, rfl⟩ := hexec
        have hwork : ∀ b ws, LineOk n b ws (stage s) s.mem → _ :=
          fun b ws hok => hok.work i.isLt hstage hitem
        -- only the last worker takes items out of the line
        by_cases hlast : i.val = n - 1
        · simp only [if_pos hlast] at hran hwork
          exact h.worker_silent hran hm .remove rfl rfl rfl rfl rfl hwork
        · simp only [if_neg hlast] at hran hwork
          exact h.worker_silent hran hm .decrement rfl rfl rfl rfl rfl hwork
  | remove =>
      obtain ⟨b₀, ws₀, hok₀, -, -⟩ := h.line
      -- the item is still there: nobody else writes to this slot
      have hfull := hok₀.full i i.isLt (.inr hstage)
      rw [← hok₀.slot_eq i.isLt (by rw [hstage]; simp [stageOf])] at hfull
      obtain ⟨item, hitem⟩ := Option.ne_none_iff_exists'.mp hfull
      simp only [Status.loc_running, workerThreadInit, fifoInsert_none hok₀.random hitem,
        Effect.call, Effect.done.injEq] at hexec
      obtain ⟨hm, rfl, rfl⟩ := hexec
      exact h.worker_silent hran hm .decrement rfl rfl rfl rfl rfl
        fun b ws hok => hok.remove i.isLt hstage hitem
  | decrement =>
      simp only [Status.loc_running, workerThreadInit, Effect.done.injEq] at hexec
      obtain ⟨hm, rfl, rfl⟩ := hexec
      exact h.worker_silent hran hm .report rfl rfl rfl rfl rfl
        fun b ws hok => hok.decrement i.isLt hstage
  | report => exact h.worker_report hran hthr

/-- The start of a cycle wakes all workers, and nobody else. -/
theorem woken_of_startCycle (happs : ∀ a, s.thr (.app a) = .running .outside) (hidle : Idle s)
    (hran : (aslProgram n α).Ran s .engine x s' notes st) {m : AssemblyLine}
    (hexec : startCycle n m = .done s'.mem notes st) :
    (∀ i, s'.thr (.worker i) = .notified (.worker i) .test) ∧ waitingWorkers s' = 0 ∧
      ∀ a, s'.thr (.app a) = .running .outside := by
  simp only [startCycle, Effect.done.injEq] at hexec
  obtain ⟨-, hnotes, -⟩ := hexec
  have hnotified : ∀ i, s'.thr (.worker i) = .notified (.worker i) .test := by
    intro i
    obtain ⟨u, l, hu, hold, hnew⟩ := hran.signal (c := .worker i) (by rw [← hnotes]; simp)
      ⟨.worker i, .test, hidle i⟩
    cases u with
    | engine => exact absurd rfl hu
    | worker j =>
        rw [hidle j] at hold
        cases hold
        exact hnew
    | app a =>
        rw [happs a] at hold
        cases hold
  refine ⟨hnotified, ?_, fun a => ?_⟩
  · unfold waitingWorkers
    rw [Finset.card_eq_zero, Finset.filter_eq_empty_iff]
    intro i _
    rw [hnotified i]
    exact Bool.false_ne_true
  · rcases hran.other (u := .app a) (by simp) with hsame | ⟨c, l, hold, -⟩
    · rw [hsame, happs a]
    · rw [happs a] at hold
      cases hold

/-- The engine starts a cycle. -/
theorem AslInv.start (h : AslInv s) (hn : 2 ≤ n) (hidle : Idle s)
    (hran : (aslProgram n α).Ran s .engine x s' notes st) {b : Nat} {ws : List Nat}
    {m : AssemblyLine} (hexec : startCycle n m = .done s'.mem notes st)
    (hborn : m.aslEngineThread = true) (hline : LineOk n b ws (fun _ => .pre) m)
    (hholds : m.waitLstFq.Holds ws) (hsize : m.waitLstFq.size = 50) : AslInv s' := by
  obtain ⟨hnotified, hzero, happs⟩ := woken_of_startCycle h.apps hidle hran hexec
  simp only [startCycle, Effect.done.injEq] at hexec
  obtain ⟨hm, -, rfl⟩ := hexec
  have hengine : s'.thr .engine = .waiting .engine .gather := hran.self
  have hstage : stage s' = fun _ => .pre := by
    refine stage_eq_const rfl fun i => ?_
    rw [hnotified i]
    rfl
  refine ⟨fun i => ?_, happs, .gather hengine ?_ ?_ ?_ ?_, b, ws, ?_⟩
  · rw [hnotified i]
    exact .notified
  · rw [← hm]
    simp
  · rw [← hm]
    exact hborn
  · rw [hzero, ← hm]
  · rw [hzero]
    omega
  · rw [hstage, ← hm]
    exact ⟨hline.congr rfl rfl rfl rfl rfl, hholds, hsize⟩

/-- The engine ends a cycle: it starts the next one or halts. -/
theorem AslInv.finishCycle (h : AslInv s) (hn : 2 ≤ n) (hidle : Idle s)
    (hran : (aslProgram n α).Ran s .engine x s' notes st) {b : Nat} {ws : List Nat}
    {m : AssemblyLine} (hexec : endCycle n m = .done s'.mem notes st)
    (hborn : m.aslEngineThread = true) (hline : LineOk n b ws (fun _ => .pre) m)
    (hholds : m.waitLstFq.Holds ws) (hsize : m.waitLstFq.size = 50)
    (hempty : m.aslQ.count = 0 → ws = []) : AslInv s' := by
  unfold endCycle at hexec
  split at hexec
  · exact h.start hn hidle hran hexec hborn hline hholds hsize
  · next hzero =>
    rw [not_not] at hzero
    rw [Effect.done.injEq] at hexec
    obtain ⟨hm, rfl, rfl⟩ := hexec
    have hengine : s'.thr .engine = .waiting .engine .halted := hran.self
    have hidle' : Idle s' := by
      intro i
      rw [hran.other_of_nil (by simp), hidle i]
    have hout : inCycle s' = false := by simp [inCycle, hengine]
    have hwaits : m.waitLstFq.count = 0 := by
      rw [hholds.count, hempty hzero]
      rfl
    refine ⟨fun i => ?_, fun a => ?_, .halted hengine hidle' ?_ ?_ ?_ ?_, b, ws, ?_⟩
    · rw [hidle' i]
      exact .waiting
    · rw [hran.other_of_nil (by simp), h.apps a]
    · rw [← hm]
    · rw [← hm]
      exact hborn
    · rw [← hm]
      exact hzero
    · rw [← hm]
      exact hwaits
    · rw [stage_idle hidle' hout, ← hm]
      exact ⟨hline.congr rfl rfl rfl rfl rfl, hholds, hsize⟩

/-- `assembly_line_enqueue_new_item` into a free slot. -/
theorem assemblyLineEnqueueNewItem_spec {m : AssemblyLine} (hrandom : m.aslQ.randomAccess = true)
    (hnone : m.aslQ.elem (m.currSlot 0) = none) (x : Nat) :
    assemblyLineEnqueueNewItem m x = some
      { m with
        aslQ := { m.aslQ with
          elem := Function.update m.aslQ.elem (m.currSlot 0) (some x)
          count := m.aslQ.count + 1 } } := by
  simp [assemblyLineEnqueueNewItem, hnone, fifoInsert_some hrandom hnone]

/-- What the engine does when all workers have reported. -/
theorem gather_spec {m : AssemblyLine} {b : Nat} {ws : List Nat} {σ : Nat → Stage}
    (hn : 2 ≤ n) (hline : LineOk n b ws σ m) (hpost : ∀ i, i < n → σ i = .post)
    (hholds : m.waitLstFq.Holds ws) (hready : m.nWorkersReady = n) :
    ∃ m' ws', aslEngineFn n .gather m = endCycle n m' ∧
      LineOk n (below n b) ws' (fun _ => .pre) m' ∧ m'.waitLstFq.Holds ws' ∧
      m'.waitLstFq.size = m.waitLstFq.size ∧ m'.aslEngineThread = m.aslEngineThread ∧
      (m'.aslQ.count = 0 → ws' = []) := by
  have hturn := hline.turn hpost
  have hslot : m.currSlot 0 = below n b := by
    rw [hline.slot 0 (by omega), if_pos (hpost 0 (by omega)), ringAt_zero hturn.base]
  cases ws with
  | nil =>
      refine ⟨m, [], ?_, hturn, hholds, rfl, rfl, fun _ => rfl⟩
      simp only [aslEngineFn]
      rw [if_neg (not_not.mpr hready), fifoDeque_nil hholds]
      rfl
  | cons x ws =>
      obtain ⟨q, hdeq, hq, hsize⟩ := fifoDeque_cons hholds
      have hnone : m.aslQ.elem (below n b) = none := by
        by_contra hne
        have hpassed : (σ (n - 1)).passed = true := by
          rw [hpost (n - 1) (by omega)]
          rfl
        have hnil := (hline.next hpassed hne).2
        cases hnil
      have henq := assemblyLineEnqueueNewItem_spec (m := { m with waitLstFq := q }) hline.random
        (by rw [hslot]; exact hnone) x
      have hturn' : LineOk n (below n b) (x :: ws) (fun _ => .pre) { m with waitLstFq := q } :=
        hturn.congr rfl rfl rfl rfl rfl
      have hline' := hturn'.enqueue hn hnone
      refine ⟨_, ws, ?_, hline', hq, hsize, rfl, fun hzero => ?_⟩
      · simp only [aslEngineFn]
        rw [if_neg (not_not.mpr hready), hdeq]
        simp only [Effect.call]
        rw [henq]
      · cases hzero

/-- A step of the engine. -/
theorem AslInv.engine_step (h : AslInv s) (hn : 2 ≤ n)
    (hran : (aslProgram n α).Ran s .engine x s' notes st) : AslInv s' := by
  have hexec : aslEngineFn n (s.thr .engine).loc s.mem = .done s'.mem notes st := hran.exec
  have hawake := hran.awake
  obtain ⟨b, ws, hok, hholds, hsize⟩ := h.line
  cases h.engine with
  | unborn hthr hidle =>
      have hout : inCycle s = false := by simp [inCycle, hthr]
      rw [hthr] at hexec
      simp only [Status.loc_running, aslEngineFn] at hexec
      split at hexec
      · next hborn =>
        exact h.start hn hidle hran hexec hborn (stage_idle hidle hout ▸ hok) hholds hsize
      · cases hexec
  | gather hthr =>
      rw [hthr] at hawake
      cases hawake
  | gathered hthr hidle hstate hborn hready =>
      have hin : inCycle s = true := by simp [inCycle, hthr]
      obtain ⟨m, ws', heq, hline, hq, hsize', hborn', hempty⟩ :=
        gather_spec hn hok (fun i hi => stage_gathered hidle hin hi) hholds hready
      rw [hthr, Status.loc_notified, heq] at hexec
      exact h.finishCycle hn hidle hran hexec (hborn'.trans hborn) hline hq (hsize'.trans hsize) hempty
  | halted hthr =>
      rw [hthr] at hawake
      cases hawake
  | restarted hthr hidle hstate hborn =>
      have hout : inCycle s = false := by simp [inCycle, hthr]
      rw [hthr] at hexec
      exact h.start hn hidle hran hexec hborn (stage_idle hidle hout ▸ hok) hholds hsize

/-- `assembly_line_enqueue_new_item` finds the slot of the first worker free. -/
theorem eq_of_enqueue {m m' : AssemblyLine} {item : Nat} (hrandom : m.aslQ.randomAccess = true)
    (h : assemblyLineEnqueueNewItem m item = some m') :
    m.aslQ.elem (m.currSlot 0) = none ∧
      m' = { m with
        aslQ := { m.aslQ with
          elem := Function.update m.aslQ.elem (m.currSlot 0) (some item)
          count := m.aslQ.count + 1 } } := by
  cases hslot : m.aslQ.elem (m.currSlot 0) with
  | some y => simp [assemblyLineEnqueueNewItem, hslot] at h
  | none =>
      rw [assemblyLineEnqueueNewItem_spec hrandom hslot, Option.some.injEq] at h
      exact ⟨rfl, h.symm⟩

/-- What a push stores: an item on the empty line, or in the wait list. -/
theorem storeNewItem_cases {m m' : AssemblyLine} (h : storeNewItem m = some m')
    (hrandom : m.aslQ.randomAccess = true) :
    (m.aslQ.count = 0 ∧ m.aslQ.elem (m.currSlot 0) = none ∧
      m' = { m with
        aslQ := { m.aslQ with
          elem := Function.update m.aslQ.elem (m.currSlot 0) (some m.pushed)
          count := m.aslQ.count + 1 }
        pushed := m.pushed + 1 }) ∨
    m.aslQ.count ≠ 0 ∧ ∃ q, m' = { m with waitLstFq := q, pushed := m.pushed + 1 } ∧
      ∀ ws, m.waitLstFq.Holds ws → q.Holds (ws ++ [m.pushed]) ∧ q.size = m.waitLstFq.size := by
  unfold storeNewItem at h
  dsimp only at h
  split at h
  · next hzero =>
    exact .inl ⟨hzero, eq_of_enqueue (m := { m with pushed := m.pushed + 1 }) hrandom h⟩
  · next hcount =>
    split at h
    · next hnotfull =>
      obtain ⟨⟨stored, q⟩, henq, hm'⟩ := Option.map_eq_some_iff.mp h
      refine .inr ⟨hcount, q, hm'.symm, fun ws hholds => ?_⟩
      obtain ⟨q', henq', hq', hsize⟩ := fifoEnqueue_spec hholds (by simpa using hnotfull) m.pushed
      rw [henq'] at henq
      cases henq
      exact ⟨hq', hsize⟩
    · cases h

/-- A push with room stores its item. -/
theorem exists_storeNewItem {m : AssemblyLine} {b : Nat} {ws : List Nat} {σ : Nat → Stage}
    (hline : LineOk n b ws σ m) (hholds : m.waitLstFq.Holds ws)
    (hroom : m.aslQ.count = 0 ∨ isQueueFull m.waitLstFq = false) : ∃ m', storeNewItem m = some m' := by
  unfold storeNewItem
  dsimp only
  split
  · next hzero =>
    have hnone := hline.items_eq_nil.mp (hline.count_eq_zero.mp hzero) _ hline.currSlot_lt
    exact ⟨_, assemblyLineEnqueueNewItem_spec (m := { m with pushed := m.pushed + 1 }) hline.random
      hnone m.pushed⟩
  · next hcount =>
    have hnotfull := hroom.resolve_left hcount
    obtain ⟨q, henq, -⟩ := fifoEnqueue_spec hholds hnotfull m.pushed
    rw [hnotfull, henq]
    exact ⟨_, rfl⟩

/-- What `assembly_line_push_new_item` does to the line. -/
theorem storeNewItem_spec {m : AssemblyLine} {b : Nat} {ws : List Nat} {σ : Nat → Stage}
    (hn : 2 ≤ n) (hline : LineOk n b ws σ m) (hholds : m.waitLstFq.Holds ws)
    (hroom : m.aslQ.count = 0 ∨ isQueueFull m.waitLstFq = false)
    (hfree : m.aslQ.count = 0 → m.waitLstFq.count = 0 ∧
      (σ 0 = .pre ∨ σ 0 = .post ∧ (σ (n - 1)).passed = true))
    (hwait : m.aslQ.count ≠ 0 → ¬ (σ 0 = .post ∧ (σ (n - 1)).passed = true ∧
      m.aslQ.elem (m.currSlot 0) ≠ none)) :
    ∃ m' ws', storeNewItem m = some m' ∧ LineOk n b ws' σ m' ∧ m'.waitLstFq.Holds ws' ∧
      m'.waitLstFq.size = m.waitLstFq.size ∧ m'.aslState = m.aslState ∧
      m'.aslEngineThread = m.aslEngineThread ∧ m'.nWorkersReady = m.nWorkersReady := by
  obtain ⟨m', hstore⟩ := exists_storeNewItem hline hholds hroom
  rcases storeNewItem_cases hstore hline.random with ⟨hcount, hnone, rfl⟩ | ⟨hcount, q, rfl, hq⟩
  · obtain ⟨hnowait, hwhere⟩ := hfree hcount
    have hnil : ws = [] := by
      rw [hholds.count, List.length_eq_zero_iff] at hnowait
      exact hnowait
    subst hnil
    have hempty := hline.count_eq_zero.mp hcount
    exact ⟨_, [], hstore, hline.push hn hempty hwhere, hholds, rfl, rfl, rfl, rfl⟩
  · have hnext : (σ (n - 1)).passed = true → m.aslQ.elem (below n b) = none := by
      intro hpassed
      by_contra hne
      have hpost := (hline.next hpassed hne).1
      refine hwait hcount ⟨hpost, hpassed, ?_⟩
      rw [hline.slot 0 (by omega), if_pos hpost, ringAt_zero (below_lt (by omega) hline.base)]
      exact hne
    obtain ⟨hholds', hsize⟩ := hq ws hholds
    exact ⟨_, ws ++ [m.pushed], hstore, (hline.wait hnext).congr rfl rfl rfl rfl rfl, hholds', hsize,
      rfl, rfl, rfl⟩

omit [DecidableEq α] in
/-- The engine is where it was, and has been born. -/
theorem EngineOk.congr (h : EngineOk s) (hthr : s'.thr .engine = s.thr .engine)
    (hworkers : ∀ i, s'.thr (.worker i) = s.thr (.worker i)) (hnowait : s.mem.aslState ≠ .wait)
    (hstate : s'.mem.aslState ≠ .wait) (hborn : s'.mem.aslEngineThread = true)
    (hready : s'.mem.nWorkersReady = s.mem.nWorkersReady) : EngineOk s' := by
  have hcount : waitingWorkers s' = waitingWorkers s := by
    unfold waitingWorkers
    simp only [hworkers]
  cases h with
  | unborn hthr₀ hidle =>
      refine .unborn (hthr.trans hthr₀) (fun i => (hworkers i).trans (hidle i)) hstate fun hno => ?_
      rw [hborn] at hno
      cases hno
  | gather hthr₀ _ _ hready₀ hlt =>
      exact .gather (hthr.trans hthr₀) hstate hborn (by rw [hready, hready₀, hcount])
        (by rw [hcount]; exact hlt)
  | gathered hthr₀ hidle _ _ hready₀ =>
      exact .gathered (hthr.trans hthr₀) (fun i => (hworkers i).trans (hidle i)) hstate hborn
        (hready.trans hready₀)
  | halted _ _ hwait => exact absurd hwait hnowait
  | restarted hthr₀ hidle =>
      exact .restarted (hthr.trans hthr₀) (fun i => (hworkers i).trans (hidle i)) hstate hborn

/-- What a push leaves, whatever becomes of the engine: it is not in a cycle after that if it was
not before. -/
theorem AslInv.pushed (h : AslInv s) {a : α} (hran : (aslProgram n α).Ran s (.app a) x s' notes st)
    (hnotes : ∀ note, note ∈ notes → note = .signal .engine) (hst : st = .running .outside)
    {m : AssemblyLine} (hm : m = s'.mem) {b : Nat} {ws : List Nat} (hline : LineOk n b ws (stage s) m)
    (hholds : m.waitLstFq.Holds ws) (hsize : m.waitLstFq.size = 50) :
    (∀ i, s'.thr (.worker i) = s.thr (.worker i)) ∧ (EngineOk s' → AslInv s') := by
  subst hm
  obtain ⟨hothers, happs⟩ := others_of_ran h.workers h.apps hran hnotes
  have hworkers : ∀ i, s'.thr (.worker i) = s.thr (.worker i) := fun i => hothers i (by simp)
  have hstage : stage s' = stage s := by
    ext j
    unfold stage inCycle
    rw [hran.loc_of_ne (u := .engine) (by simp)]
    split
    · rw [hworkers]
    · rfl
  refine ⟨hworkers, fun hengine => ⟨fun i => ?_, fun c => ?_, hengine, b, ws, ?_, hholds, hsize⟩⟩
  · rw [hworkers]
    exact h.workers i
  · by_cases hc : (.app c : AslThread n α) = .app a
    · rw [hc, hran.self, hst]
    · exact happs c hc
  · rw [hstage]
    exact hline

/-- A push that finds the line as it expects it. -/
theorem AslInv.push_step (h : AslInv s) (hn : 2 ≤ n) {a : α} {picks : List (Option (AslThread n α))}
    (hran : (aslProgram n α).Ran s (.app a) x s' notes st)
    (hroom : roomToPush s (.run (.app a) x picks) = true)
    (htimely : timelyPush s (.run (.app a) x picks) = true) : AslInv s' := by
  have hexec : assemblyLinePushNewItem s.mem = .done s'.mem notes st := hran.exec
  obtain ⟨b, ws, hok, hholds, hsize⟩ := h.line
  have hstore := storeNewItem_spec hn hok hholds (by simpa [roomToPush] using hroom)
    (fun hzero => by simpa [timelyPush, hzero] using htimely)
    (fun hne hbad => by
      obtain ⟨hpost, hpassed, hfull⟩ := hbad
      simp [timelyPush, hne, hpost, hpassed, hfull] at htimely)
  obtain ⟨m, ws', hstored, hline, hq, hsize', hstate', hborn', hready'⟩ := hstore
  rw [hsize] at hsize'
  unfold assemblyLinePushNewItem at hexec
  rw [hstored] at hexec
  simp only [Effect.call, assemblyLineEngineStart] at hexec
  split at hexec
  · next hunborn =>
    -- the first push creates the engine
    rw [Effect.done.injEq] at hexec
    obtain ⟨hm, rfl, rfl⟩ := hexec
    obtain ⟨hworkers, hinv⟩ := h.pushed hran (by simp) rfl hm
      (hline.congr rfl rfl rfl rfl rfl) hq hsize'
    rw [hborn'] at hunborn
    have hnowait : s.mem.aslState ≠ .wait := by
      cases h.engine with
      | unborn _ _ hstate => exact hstate
      | gather _ _ hborn => simp [hborn] at hunborn
      | gathered _ _ _ hborn => simp [hborn] at hunborn
      | halted _ _ _ hborn => simp [hborn] at hunborn
      | restarted _ _ _ hborn => simp [hborn] at hunborn
    refine hinv (h.engine.congr (hran.other_of_nil (by simp)) hworkers hnowait ?_ ?_ ?_)
    · rw [← hm]
      exact hstate' ▸ hnowait
    · rw [← hm]
    · rw [← hm]
      exact hready'
  · next hborn₀ =>
    have hborn : s.mem.aslEngineThread = true := by simpa [hborn'] using hborn₀
    split at hexec
    · next hwait =>
      -- the engine has halted, and is woken
      rw [hstate'] at hwait
      rw [Effect.done.injEq] at hexec
      obtain ⟨hm, rfl, rfl⟩ := hexec
      obtain ⟨hworkers, hinv⟩ := h.pushed hran (by simp) rfl hm
        (hline.congr rfl rfl rfl rfl rfl) hq hsize'
      cases h.engine with
      | unborn hthr hidle hstate => exact absurd hwait hstate
      | gather hthr hstate => exact absurd hwait hstate
      | gathered hthr hidle hstate => exact absurd hwait hstate
      | restarted hthr hidle hstate => exact absurd hwait hstate
      | halted hthr hidle =>
          refine hinv (.restarted ?_ (fun i => (hworkers i).trans (hidle i)) ?_ ?_)
          · obtain ⟨u, l, hu, hold, hnew⟩ := hran.signal (c := .engine) (by simp)
              ⟨.engine, .halted, hthr⟩
            obtain rfl := engine_of_waiting h.workers h.apps hold
            rw [hthr] at hold
            cases hold
            exact hnew
          · rw [← hm]
            simp
          · rw [← hm]
            exact hborn'.trans hborn
    · next hnowait =>
      rw [hstate'] at hnowait
      rw [Effect.done.injEq] at hexec
      obtain ⟨hm, rfl, rfl⟩ := hexec
      obtain ⟨hworkers, hinv⟩ := h.pushed hran (by simp) rfl hm hline hq hsize'
      refine hinv (h.engine.congr (hran.other_of_nil (by simp)) hworkers hnowait ?_ ?_ ?_)
      · rw [← hm, hstate']
        exact hnowait
      · rw [← hm, hborn', hborn]
      · rw [← hm, hready']

end Steps

end ThreadLib
end MultithreadingBible
