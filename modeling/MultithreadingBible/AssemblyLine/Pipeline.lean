import Mathlib.Data.Fintype.Sum
import Mathlib.Tactic.DeriveFintype
import MultithreadingBible.GlueThread.Represent
import MultithreadingBible.Lib.CondVar
import MultithreadingBible.Lib.Counter

/-!
# A pipeline of stages

Every stage has a queue of objects and one worker thread, which takes the objects out in order, lets
the callback of the stage process them and hands them over to the stage the callback names.  Callers
enqueue objects at the root stage; whoever destroys the pipeline first waits until no worker is in
operation.

* `Asl` — the fields of `asl_t` and of its stages, and the calls of the callbacks so far.
* `workerThreadFn`, `aslEnqueue`, `aslDestroy` — the code of the three kinds of threads.  A worker holds
  the mutex of its queue while it counts itself out or in, and hands objects over under the mutex of the
  other queue.
* `AslMem` — a pipeline and the number of objects it accepted, which is observed and not seen by the code.
* `aslMachine` — all interleavings, from the state in which the stages were built, up to the moment the
  workers are about to be cancelled.

`calloc` gives the objects 0, 1, 2, ... to the calls of `asl_enqueue`.
-/

namespace MultithreadingBible
namespace AssemblyLine

open Lib GlueThread

/-- The worker of each stage, the callers of `asl_enqueue`, and the caller of `asl_destroy`. -/
inductive AslThread (σ γ : Type*) where
  | worker (S : σ)
  | caller (c : γ)
  | destroyer
  deriving DecidableEq, Fintype

/-- `cv` of a stage and of the pipeline. -/
inductive AslCv (σ : Type*) where
  | stage (S : σ)
  | asl
  deriving DecidableEq

/-- The cells of the queues and of the objects. -/
inductive AslAddr (σ : Type*) where
  | head (S : σ)
  | glue (o : Nat)
  deriving DecidableEq

/-- Where a thread is. -/
inductive AslLoc (σ : Type*) where
  /-- A worker, before it tests its queue, which it holds the mutex of after a wait. -/
  | check (held : Bool)
  /-- A worker that found its queue empty, before it counts itself out. -/
  | countOut
  /-- A worker that counted itself out, before it waits. -/
  | sleep
  /-- A worker in its wait. -/
  | wake
  /-- A worker after its wait, before it counts itself in. -/
  | countIn
  /-- A worker with an object, before the callback. -/
  | process (o : Nat)
  /-- A worker with a finished object. -/
  | emit (o : Nat)
  /-- A worker with an object for the stage `next`. -/
  | handOver (next : σ) (o : Nat)
  /-- A caller outside `asl_enqueue`. -/
  | outside
  /-- A caller whose object was accepted. -/
  | accepted (o : Nat)
  /-- Before `asl_destroy`. -/
  | destroy
  /-- In the wait of `asl_destroy`. -/
  | drain
  /-- In `asl_destroy`, about to cancel the workers. -/
  | cancel
  deriving DecidableEq

/-- `asl_t` and its stages, how many objects `calloc` gave to `asl_enqueue`, and the calls of the
callbacks so far: which stages each object went through with which answers, the objects each stage
processed with where they came from and where they were sent, and the emitted objects. -/
structure Asl (σ : Type*) where
  acceptNewObject : Bool
  nWorkersInOperation : Nat
  qMutex : σ → Bool
  heap : Heap (AslAddr σ)
  allocated : Nat
  path : Nat → List (σ × Option σ)
  processed : σ → List (Nat × Option σ × Option σ)
  emitted : List Nat

abbrev AslEffect (σ : Type*) := Effect (Asl σ) (AslCv σ) (AslLoc σ)

/-- The pipeline after its stages were built: every worker counted itself. -/
def newAsl (σ : Type*) [Fintype σ] : Asl σ where
  acceptNewObject := true
  nWorkersInOperation := Fintype.card σ % 2 ^ 8
  qMutex _ := false
  heap _ := Glthread.null
  allocated := 0
  path _ := []
  processed _ := []
  emitted := []

section Code

variable {σ : Type*} [DecidableEq σ]

def Asl.source (m : Asl σ) (o : Nat) : Option σ := (m.path o).getLast?.map Prod.fst

/-- `asl_workers_in_operation`, and the notification it sends. -/
def aslWorkersInOperation (increment : Bool) (m : Asl σ) : Asl σ × List (Note (AslCv σ)) :=
  if increment then ({ m with nWorkersInOperation := countUp 8 m.nWorkersInOperation }, [])
  else
    ({ m with nWorkersInOperation := countDown 8 m.nWorkersInOperation },
      if m.acceptNewObject = false then [.signal .asl] else [])

/-- `asl_stage_enqueue`, when the mutex of the queue is free. -/
def aslStageEnqueue (S : σ) (o : Nat) (m : Asl σ) : Option (Asl σ × List (Note (AslCv σ))) :=
  let notes := if isGlthreadListEmpty m.heap (.head S) then [.signal (.stage S)] else []
  (glthreadAddLast m.allocated m.heap (.head S) (.glue o)).map fun heap =>
    ({ m with heap := heap }, notes)

def dequeueObject (S : σ) (m : Asl σ) : Option (Nat × Heap (AslAddr σ)) :=
  match dequeueGlthreadFirst m.heap (.head S) with
  | (some (.glue o), heap) => some (o, heap)
  | _ => none

/-- The callback of stage `S` is called for an object and answers `answer`, which sends the object
to `dest`. -/
def Asl.process (m : Asl σ) (S : σ) (o : Nat) (answer dest : Option σ) : Asl σ :=
  { m with
    path := Function.update m.path o (m.path o ++ [(S, answer)])
    processed := Function.update m.processed S (m.processed S ++ [(o, m.source o, dest)]) }

/-- The loop of `worker_thread_fn`, piece by piece.  `next0` is `next_stage[0]` of the stages, and
`answer` what the callback returns. -/
def workerThreadFn (next0 : σ → Option σ) (S : σ) (l : AslLoc σ) (answer : Option σ) (m : Asl σ) :
    AslEffect σ :=
  match l with
  | .check held =>
      if !held && m.qMutex S then .blocked
      else if isGlthreadListEmpty m.heap (.head S) then
        .done { m with qMutex := Function.update m.qMutex S true } [] (.running .countOut)
      else
        .call (dequeueObject S m) fun (o, heap) =>
          .done { m with heap := heap, qMutex := Function.update m.qMutex S false } []
            (.running (.process o))
  | .countOut =>
      let (m, notes) := aslWorkersInOperation false m
      .done m notes (.running .sleep)
  | .sleep =>
      .done { m with qMutex := Function.update m.qMutex S false } [] (.waiting (.stage S) .wake)
  | .wake =>
      if m.qMutex S then .blocked
      else .done { m with qMutex := Function.update m.qMutex S true } [] (.running .countIn)
  | .countIn =>
      let (m, notes) := aslWorkersInOperation true m
      .done m notes (.running (.check true))
  | .process o =>
      -- by default the object goes to the next stage, and out of the last one
      match answer.or (next0 S) with
      | none => .done (m.process S o answer none) [] (.running (.emit o))
      | some next => .done (m.process S o answer (some next)) [] (.running (.handOver next o))
  | .emit o => .done { m with emitted := m.emitted ++ [o] } [] (.running (.check false))
  | .handOver next o =>
      if m.qMutex next then .blocked
      else
        .call (aslStageEnqueue next o m) fun (m, notes) => .done m notes (.running (.check false))
  | _ => .blocked

/-- `asl_enqueue`, piece by piece. -/
def aslEnqueue (root : σ) (l : AslLoc σ) (m : Asl σ) : AslEffect σ :=
  match l with
  | .outside =>
      if m.acceptNewObject = false then .done m [] (.running .outside)
      else
        .done
          { m with
            heap := initGlthread m.heap (.glue m.allocated)
            allocated := m.allocated + 1 }
          [] (.running (.accepted m.allocated))
  | .accepted o =>
      if m.qMutex root then .blocked
      else .call (aslStageEnqueue root o m) fun (m, notes) => .done m notes (.running .outside)
  | _ => .blocked

/-- The loop of `asl_destroy`. -/
def aslDrain (m : Asl σ) : AslEffect σ :=
  if m.nWorkersInOperation ≠ 0 then .done m [] (.waiting .asl .drain)
  else .done m [] (.running .cancel)

/-- `asl_destroy` up to the cancellation of the workers, piece by piece. -/
def aslDestroy (destroys : Bool) (l : AslLoc σ) (m : Asl σ) : AslEffect σ :=
  match l with
  | .destroy => if destroys then aslDrain { m with acceptNewObject := false } else .blocked
  | .drain => aslDrain m
  | _ => .blocked

end Code

structure AslMem (σ : Type*) extends Asl σ where
  accepted : Nat

section Machine

variable {σ γ : Type*} [DecidableEq σ]

/-- What a thread does next to the pipeline. -/
def aslCode (next0 : σ → Option σ) (root : σ) (destroys : Bool) (t : AslThread σ γ) (l : AslLoc σ)
    (answer : Option σ) (m : Asl σ) : AslEffect σ :=
  match t with
  | .worker S => workerThreadFn next0 S l answer m
  | .caller _ => aslEnqueue root l m
  | .destroyer => aslDestroy destroys l m

/-- How many objects a piece of code accepts that begins at `l` and ends in `st`. -/
def acceptances (l : AslLoc σ) (st : Status (AslCv σ) (AslLoc σ)) : Nat :=
  match l, st with
  | .outside, .running (.accepted _) => 1
  | _, _ => 0

def aslExec (next0 : σ → Option σ) (root : σ) (destroys : Bool) (t : AslThread σ γ) (l : AslLoc σ)
    (answer : Option σ) (m : AslMem σ) : Effect (AslMem σ) (AslCv σ) (AslLoc σ) :=
  (aslCode next0 root destroys t l answer m.toAsl).observed fun asl st =>
    ⟨asl, m.accepted + acceptances l st⟩

/-- The threads of a pipeline.  Without `destroys` it is never destroyed. -/
def aslProgram (γ : Type*) (next0 : σ → Option σ) (root : σ) (destroys spurious : Bool) :
    Program (AslThread σ γ) (AslMem σ) (AslCv σ) (AslLoc σ) (Option σ) where
  exec := aslExec next0 root destroys
  spuriousWakeups := spurious

abbrev AslConfig (σ γ : Type*) := Config (AslThread σ γ) (AslMem σ) (AslCv σ) (AslLoc σ)

/-- All stages were built, and nothing was enqueued. -/
def freshAsl (σ γ : Type*) [Fintype σ] : AslConfig σ γ where
  mem := ⟨newAsl σ, 0⟩
  thr
    | .worker _ => .running (.check false)
    | .caller _ => .running .outside
    | .destroyer => .running .destroy

def aslMachine [Fintype σ] (γ : Type*) [DecidableEq γ] [Fintype γ] (next0 : σ → Option σ) (root : σ)
    (destroys spurious : Bool) : Machine (AslConfig σ γ) (Act (AslThread σ γ) (Option σ)) :=
  (aslProgram γ next0 root destroys spurious).machine fun s => s = freshAsl σ γ

end Machine

end AssemblyLine
end MultithreadingBible
