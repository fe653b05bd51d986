import MultithreadingBible.ThreadLib.WaitQueue
import Mathlib.Data.Fintype.Sum

/-!
# Thread pools

A pool is a list of threads that have nothing to do.  A dispatch takes the first of them off the list,
writes the task into it and fires it, which creates the thread when it never ran and signals its
condition variable otherwise.  The thread runs the task, links itself in again, posts the semaphore
written into it, if any, and waits for its next task.  The pool mutex covers the list; the thread's
fields are written and read without it.

* `PoolThread` — the fields of `thread_t` a pool uses.
* `threadPoolInsertNewThread` / `threadPoolGetThread` / `threadPoolThreadStage3Fn` — the critical
  sections.
* `callerExec` / `poolThreadExec` — what the callers of `thread_pool_dispatch_thread` and the pool
  threads do from each location.
* `poolMachine` — all interleavings.

The memory also keeps book: which dispatches got a thread, which of them has a thread checked out, what
was invoked, and what was posted.  No step looks at these records, except that nobody adds a thread
to the pool twice.
-/

namespace MultithreadingBible
namespace ThreadLib

open Lib GlueThread

/-- The cells of a pool: `pool_head` and the `wait_glue` of each thread. -/
inductive PoolAddr (ω : Type*) where
  | head
  | waitGlue (w : ω)
  deriving DecidableEq

def waitGlueToThread {ω : Type*} : PoolAddr ω → Option ω
  | .head => none
  | .waitGlue w => some w

/-- `thread_t` of a pool thread, with the `thread_execution_data_t` its `arg` points to.  Of
`thread_fn` it matters whether it is null; a semaphore is named by the dispatch that made it. -/
structure PoolThread (F A : Type*) where
  threadCreated : Bool
  threadFn : Bool
  semaphore : Option Nat
  stage2Fn : Option F
  stage2Arg : Option A

def createThread (F A : Type*) : PoolThread F A where
  threadCreated := false
  threadFn := false
  semaphore := none
  stage2Fn := none
  stage2Arg := none

/-- A call of `thread_pool_dispatch_thread` that got a thread. -/
structure Dispatch (τ ω F A : Type*) where
  caller : τ
  thread : ω
  fn : F
  arg : Option A
  blockCaller : Bool
  deriving DecidableEq

/-- A task that was invoked: by which thread, for which dispatch, and what. -/
structure Invocation (ω F A : Type*) where
  thread : ω
  dispatch : Option Nat
  fn : F
  arg : Option A
  deriving DecidableEq

/-- The end of a task: the dispatch it was for, and the semaphore that was posted. -/
structure Completion where
  dispatch : Option Nat
  posted : Option Nat
  deriving DecidableEq

/-- What `thread_pool_thread_stage1_fn` does next, after it got a thread. -/
inductive Stage1 where
  | setSemaphore
  | setFn
  | setArg
  | fire
  | semWait
  | clearSemaphore
  deriving DecidableEq

/-- Where a caller or a pool thread is. -/
inductive PoolLoc (τ ω F A : Type*) where
  /-- A caller outside all calls. -/
  | idle
  /-- A caller in `thread_pool_thread_stage1_fn`, for the dispatch with the given number. -/
  | stage1 (pc : Stage1) (d : Nat) (D : Dispatch τ ω F A)
  /-- A pool thread before its `pthread_create`. -/
  | notStarted
  /-- A pool thread about to read `thread_stage2_fn`. -/
  | stage2
  /-- A pool thread about to call it. -/
  | invoke (fn : F)
  /-- A pool thread about to lock the pool mutex. -/
  | stage3
  /-- A pool thread in `pthread_cond_wait`. -/
  | parked
  deriving DecidableEq

/-- What a caller outside all calls calls. -/
inductive PoolCall (ω F A : Type*) where
  | dispatch (fn : F) (arg : Option A) (blockCaller : Bool)
  | insert (w : ω)

/-- The pool, its threads and semaphores, and the records of what happened. -/
structure PoolMem (τ ω F A : Type*) where
  heap : Heap (PoolAddr ω)
  thread : ω → PoolThread F A
  sem : Nat → Nat
  inserted : ω → Bool
  dispatches : List (Dispatch τ ω F A)
  checkedOut : ω → Option Nat
  invoked : List (Invocation ω F A)
  completed : List Completion

abbrev PoolEffect (τ ω F A : Type*) := Effect (PoolMem τ ω F A) ω (PoolLoc τ ω F A)

namespace PoolMem

variable {τ ω F A : Type*} [DecidableEq ω]

/-- A write to a thread. -/
def setThread (m : PoolMem τ ω F A) (w : ω) (f : PoolThread F A → PoolThread F A) :
    PoolMem τ ω F A :=
  { m with thread := Function.update m.thread w (f (m.thread w)) }

/-- A dispatch got its thread. -/
def checkOut (m : PoolMem τ ω F A) (D : Dispatch τ ω F A) : PoolMem τ ω F A :=
  { m with
    dispatches := m.dispatches ++ [D]
    checkedOut := Function.update m.checkedOut D.thread (some m.dispatches.length) }

/-- A thread calls its `thread_stage2_fn`. -/
def invoke (m : PoolMem τ ω F A) (w : ω) (fn : F) : PoolMem τ ω F A :=
  { m with invoked := m.invoked ++ [⟨w, m.checkedOut w, fn, (m.thread w).stage2Arg⟩] }

/-- `sem_init(sem0_1, 0, 0)` and `thread->semaphore = sem0_1`, or the null pointer. -/
def cacheSemaphore (m : PoolMem τ ω F A) (d : Nat) (D : Dispatch τ ω F A) : PoolMem τ ω F A :=
  if D.blockCaller then
    { m with sem := Function.update m.sem d 0 }.setThread D.thread
      fun th => { th with semaphore := some d }
  else m.setThread D.thread fun th => { th with semaphore := none }

/-- `if (thread->semaphore) sem_post(thread->semaphore)` -/
def postSemaphore (m : PoolMem τ ω F A) (w : ω) : PoolMem τ ω F A :=
  match (m.thread w).semaphore with
  | none => m
  | some d => { m with sem := Function.update m.sem d (m.sem d + 1) }

/-- A thread is back in the pool. -/
def complete (m : PoolMem τ ω F A) (w : ω) : PoolMem τ ω F A :=
  { m with
    completed := m.completed ++ [⟨m.checkedOut w, (m.thread w).semaphore⟩]
    checkedOut := Function.update m.checkedOut w none }

end PoolMem

section Exec

variable {τ ω F A : Type*} [DecidableEq τ] [DecidableEq ω] [Fintype ω]
  (compFn : PoolAddr ω → PoolAddr ω → Int)

/-- `glthread_priority_insert` on the pool. -/
def poolInsert (hp : Heap (PoolAddr ω)) (w : ω) : Option (Heap (PoolAddr ω)) :=
  glthreadPriorityInsert (Fintype.card ω) compFn hp .head (.waitGlue w)

def threadPoolInsertNewThread (w : ω) (m : PoolMem τ ω F A) : Option (PoolMem τ ω F A) :=
  if !isGlthreadListEmpty m.heap (.waitGlue w) then none
  else if (m.thread w).threadFn then none
  else
    (poolInsert compFn m.heap w).map fun hp =>
      { m with heap := hp, inserted := Function.update m.inserted w true }

def threadPoolGetThread (m : PoolMem τ ω F A) : Option ω × PoolMem τ ω F A :=
  let (glthread, hp) := dequeueGlthreadFirst m.heap .head
  (glthread.bind waitGlueToThread, { m with heap := hp })

/-- `thread_pool_thread_stage3_fn` up to its wait. -/
def threadPoolThreadStage3Fn (w : ω) (m : PoolMem τ ω F A) : Option (PoolMem τ ω F A) :=
  (poolInsert compFn m.heap w).map fun hp => ({ m with heap := hp }.postSemaphore w).complete w

/-- Where a caller goes after it fired the thread. -/
def afterFire (d : Nat) (D : Dispatch τ ω F A) : PoolLoc τ ω F A :=
  if D.blockCaller then .stage1 .semWait d D else .idle

def threadPoolRunThread (d : Nat) (D : Dispatch τ ω F A) (m : PoolMem τ ω F A) :
    PoolEffect τ ω F A :=
  if !isGlthreadListEmpty m.heap (.waitGlue D.thread) then .abort
  else if !(m.thread D.thread).threadCreated then
    .done (m.setThread D.thread fun th => { th with threadCreated := true }) []
      (.running (afterFire d D))
  else .done m [.signal D.thread] (.running (afterFire d D))

/-- The rest of `thread_pool_thread_stage1_fn` once it got a thread. -/
def stage1Exec (pc : Stage1) (d : Nat) (D : Dispatch τ ω F A) (m : PoolMem τ ω F A) :
    PoolEffect τ ω F A :=
  match pc with
  | .setSemaphore => .done (m.cacheSemaphore d D) [] (.running (.stage1 .setFn d D))
  | .setFn =>
      .done (m.setThread D.thread fun th => { th with stage2Fn := some D.fn }) []
        (.running (.stage1 .setArg d D))
  | .setArg =>
      -- the last fields, with `thread_fn` among them
      .done (m.setThread D.thread fun th => { th with stage2Arg := D.arg, threadFn := true }) []
        (.running (.stage1 .fire d D))
  | .fire => threadPoolRunThread d D m
  | .semWait =>
      if m.sem d = 0 then .blocked
      else
        .done { m with sem := Function.update m.sem d (m.sem d - 1) } []
          (.running (.stage1 .clearSemaphore d D))
  | .clearSemaphore =>
      .done (m.setThread D.thread fun th => { th with semaphore := none }) [] (.running .idle)

/-- What a caller does next. -/
def callerExec (c : τ) (l : PoolLoc τ ω F A) (x : PoolCall ω F A) (m : PoolMem τ ω F A) :
    PoolEffect τ ω F A :=
  match l, x with
  | .idle, .dispatch fn arg blockCaller =>
      match threadPoolGetThread m with
      | (none, m) => .done m [] (.running .idle)
      | (some w, m) =>
          let D : Dispatch τ ω F A := ⟨c, w, fn, arg, blockCaller⟩
          .done (m.checkOut D) [] (.running (.stage1 .setSemaphore m.dispatches.length D))
  | .idle, .insert w =>
      if m.inserted w then .blocked
      else .call (threadPoolInsertNewThread compFn w m) fun m => .done m [] (.running .idle)
  | .stage1 pc d D, _ => stage1Exec pc d D m
  | _, _ => .blocked

/-- What a pool thread does next: the loop of `thread_fn_execute_stage2_and_stage3`. -/
def poolThreadExec (w : ω) (l : PoolLoc τ ω F A) (m : PoolMem τ ω F A) : PoolEffect τ ω F A :=
  match l with
  | .notStarted =>
      if (m.thread w).threadCreated then .done m [] (.running .stage2) else .blocked
  | .stage2 => .call (m.thread w).stage2Fn fun fn => .done m [] (.running (.invoke fn))
  | .invoke fn => .done (m.invoke w fn) [] (.running .stage3)
  | .stage3 =>
      .call (threadPoolThreadStage3Fn compFn w m) fun m => .done m [] (.waiting w .parked)
  | .parked => .done m [] (.running .stage2)
  | _ => .blocked

/-- Callers and the threads of one pool, without spurious wake-ups. -/
def poolProgram : Program (τ ⊕ ω) (PoolMem τ ω F A) ω (PoolLoc τ ω F A) (PoolCall ω F A) where
  exec t l x m :=
    match t with
    | .inl c => callerExec compFn c l x m
    | .inr w => poolThreadExec compFn w l m
  spuriousWakeups := false

abbrev PoolConfig (τ ω F A : Type*) := Config (τ ⊕ ω) (PoolMem τ ω F A) ω (PoolLoc τ ω F A)

/-- The pool is empty and no thread was ever created. -/
def freshPool (τ ω F A : Type*) : PoolConfig τ ω F A where
  mem :=
    { heap := fun _ => Glthread.null
      thread := fun _ => createThread F A
      sem := fun _ => 0
      inserted := fun _ => false
      dispatches := []
      checkedOut := fun _ => none
      invoked := []
      completed := [] }
  thr
    | .inl _ => .running .idle
    | .inr _ => .running .notStarted

/-- All runs of callers and the threads of one pool. -/
def poolMachine [Fintype τ] :
    Machine (PoolConfig τ ω F A) (Act (τ ⊕ ω) (PoolCall ω F A)) :=
  (poolProgram compFn).machine fun s => s = freshPool τ ω F A

end Exec

/-- Everything a caller or a pool thread can do. -/
inductive PoolMove {τ ω F A : Type*} [DecidableEq ω] [Fintype ω]
    (compFn : PoolAddr ω → PoolAddr ω → Int) (m : PoolMem τ ω F A) :
    τ ⊕ ω → PoolLoc τ ω F A → PoolMem τ ω F A → List (Note ω) → Status ω (PoolLoc τ ω F A) → Prop
  | empty {c : τ} {m' : PoolMem τ ω F A} (h : threadPoolGetThread m = (none, m')) :
      PoolMove compFn m (.inl c) .idle m' [] (.running .idle)
  | checkOut {c : τ} {D : Dispatch τ ω F A} {m' : PoolMem τ ω F A} (hcaller : D.caller = c)
      (h : threadPoolGetThread m = (some D.thread, m')) :
      PoolMove compFn m (.inl c) .idle (m'.checkOut D) []
        (.running (.stage1 .setSemaphore m'.dispatches.length D))
  | insert {c : τ} {w : ω} {m' : PoolMem τ ω F A} (hnew : m.inserted w = false)
      (h : threadPoolInsertNewThread compFn w m = some m') :
      PoolMove compFn m (.inl c) .idle m' [] (.running .idle)
  | setSemaphore {c : τ} {d : Nat} {D : Dispatch τ ω F A} :
      PoolMove compFn m (.inl c) (.stage1 .setSemaphore d D) (m.cacheSemaphore d D) []
        (.running (.stage1 .setFn d D))
  | setFn {c : τ} {d : Nat} {D : Dispatch τ ω F A} :
      PoolMove compFn m (.inl c) (.stage1 .setFn d D)
        (m.setThread D.thread fun th => { th with stage2Fn := some D.fn }) []
        (.running (.stage1 .setArg d D))
  | setArg {c : τ} {d : Nat} {D : Dispatch τ ω F A} :
      PoolMove compFn m (.inl c) (.stage1 .setArg d D)
        (m.setThread D.thread fun th => { th with stage2Arg := D.arg, threadFn := true }) []
        (.running (.stage1 .fire d D))
  | create {c : τ} {d : Nat} {D : Dispatch τ ω F A}
      (hno : (m.thread D.thread).threadCreated = false) :
      PoolMove compFn m (.inl c) (.stage1 .fire d D)
        (m.setThread D.thread fun th => { th with threadCreated := true }) []
        (.running (afterFire d D))
  | signal {c : τ} {d : Nat} {D : Dispatch τ ω F A}
      (hyes : (m.thread D.thread).threadCreated = true) :
      PoolMove compFn m (.inl c) (.stage1 .fire d D) m [.signal D.thread]
        (.running (afterFire d D))
  | semWait {c : τ} {d : Nat} {D : Dispatch τ ω F A} (hpos : m.sem d ≠ 0) :
      PoolMove compFn m (.inl c) (.stage1 .semWait d D)
        { m with sem := Function.update m.sem d (m.sem d - 1) } []
        (.running (.stage1 .clearSemaphore d D))
  | clearSemaphore {c : τ} {d : Nat} {D : Dispatch τ ω F A} :
      PoolMove compFn m (.inl c) (.stage1 .clearSemaphore d D)
        (m.setThread D.thread fun th => { th with semaphore := none }) [] (.running .idle)
  | start {w : ω} (hyes : (m.thread w).threadCreated = true) :
      PoolMove compFn m (.inr w) .notStarted m [] (.running .stage2)
  | read {w : ω} {fn : F} (h : (m.thread w).stage2Fn = some fn) :
      PoolMove compFn m (.inr w) .stage2 m [] (.running (.invoke fn))
  | invoke {w : ω} {fn : F} :
      PoolMove compFn m (.inr w) (.invoke fn) (m.invoke w fn) [] (.running .stage3)
  | park {w : ω} {m' : PoolMem τ ω F A} (h : threadPoolThreadStage3Fn compFn w m = some m') :
      PoolMove compFn m (.inr w) .stage3 m' [] (.waiting w .parked)
  | resume {w : ω} : PoolMove compFn m (.inr w) .parked m [] (.running .stage2)

section Moves

variable {τ ω F A : Type*} [DecidableEq ω] [Fintype ω]
  {compFn : PoolAddr ω → PoolAddr ω → Int} {m m' : PoolMem τ ω F A} {notes : List (Note ω)}
  {st : Status ω (PoolLoc τ ω F A)} {l : PoolLoc τ ω F A} {x : PoolCall ω F A}

theorem poolMove_of_stage1Exec {c : τ} {pc : Stage1} {d : Nat} {D : Dispatch τ ω F A}
    (h : stage1Exec pc d D m = .done m' notes st) :
    PoolMove compFn m (.inl c) (.stage1 pc d D) m' notes st := by
  cases pc with
  | setSemaphore => cases h; exact .setSemaphore
  | setFn => cases h; exact .setFn
  | setArg => cases h; exact .setArg
  | clearSemaphore => cases h; exact .clearSemaphore
  | semWait =>
      simp only [stage1Exec] at h
      split at h
      case isTrue => cases h
      case isFalse hpos =>
        cases h
        exact .semWait hpos
  | fire =>
      simp only [stage1Exec, threadPoolRunThread] at h
      split at h
      case isTrue => cases h
      case isFalse =>
        split at h
        case isTrue hno =>
          cases h
          exact .create (by simpa using hno)
        case isFalse hyes =>
          cases h
          exact .signal (by simpa using hyes)

theorem poolMove_of_callerExec {c : τ} (h : callerExec compFn c l x m = .done m' notes st) :
    PoolMove compFn m (.inl c) l m' notes st := by
  cases l with
  | idle =>
      cases x with
      | dispatch fn arg blockCaller =>
          simp only [callerExec] at h
          split at h
          case h_1 m₁ hget =>
            cases h
            exact .empty hget
          case h_2 w m₁ hget =>
            cases h
            exact .checkOut rfl hget
      | insert w =>
          simp only [callerExec] at h
          split at h
          case isTrue => cases h
          case isFalse hnew =>
            obtain ⟨m₁, hins, h⟩ := Effect.call_eq_done.mp h
            cases h
            exact .insert (by simpa using hnew) hins
  | stage1 pc d D => exact poolMove_of_stage1Exec h
  | notStarted | stage2 | invoke | stage3 | parked => cases h

theorem poolMove_of_poolThreadExec {w : ω} (h : poolThreadExec compFn w l m = .done m' notes st) :
    PoolMove compFn m (.inr w) l m' notes st := by
  cases l with
  | idle => cases h
  | stage1 pc d D => cases h
  | notStarted =>
      simp only [poolThreadExec] at h
      split at h
      case isTrue hyes =>
        cases h
        exact .start hyes
      case isFalse => cases h
  | stage2 =>
      obtain ⟨fn, hfn, h⟩ := Effect.call_eq_done.mp h
      cases h
      exact .read hfn
  | invoke fn => cases h; exact .invoke
  | stage3 =>
      obtain ⟨m₁, hpark, h⟩ := Effect.call_eq_done.mp h
      cases h
      exact .park hpark
  | parked => cases h; exact .resume

variable [DecidableEq τ]

/-- A step is one of the listed moves. -/
theorem poolMove_of_ran {s s' : PoolConfig τ ω F A} {t : τ ⊕ ω}
    (h : (poolProgram compFn).Ran s t x s' notes st) :
    PoolMove compFn s.mem t (s.thr t).loc s'.mem notes st := by
  have hexec := h.exec
  cases t with
  | inl c => exact poolMove_of_callerExec hexec
  | inr w => exact poolMove_of_poolThreadExec hexec

end Moves

end ThreadLib
end MultithreadingBible
