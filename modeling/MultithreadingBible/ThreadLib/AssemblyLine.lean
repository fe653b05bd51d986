import Mathlib.Data.Fintype.Sum
import Mathlib.Data.List.FinRange
import Mathlib.Tactic.DeriveFintype
import MultithreadingBible.Lib.CondVar
import MultithreadingBible.ThreadLib.FifoQueue

/-!
# Assembly lines

`n` workers stand at the slots of a ring.  In every cycle each worker tests its slot, works on the item
in it, and moves one slot down, so that an item meets the workers in order; the last worker takes it
out.  An engine starts the cycles, and applications push items at any time.

* `AssemblyLine` — the fields of `assembly_line_t` and of its workers, and what was done so far.
* `workerThreadInit`, `aslEngineFn`, `assemblyLinePushNewItem` — the code of the three kinds of threads.
* `aslMachine` — all interleavings, from the state after `assembly_line_init_worker_threads`.

An item is known by the number of its push, which the code does not look at.
-/

namespace MultithreadingBible
namespace ThreadLib

open Lib

inductive AslState where
  | notStarted
  | inProgress
  | wait
  | stopped
  deriving DecidableEq

/-- The threads of an assembly line with `n` workers, and the applications. -/
inductive AslThread (n : Nat) (α : Type*) where
  | worker (i : Fin n)
  | engine
  | app (a : α)
  deriving DecidableEq, Fintype

/-- Workers and the engine wait on their own condition variables. -/
inductive AslCv (n : Nat) where
  | worker (i : Fin n)
  | engine
  deriving DecidableEq

/-- Where a thread is. -/
inductive AslLoc where
  /-- A worker, before the test of its slot. -/
  | test
  /-- A worker that found an item in its slot. -/
  | work
  /-- The last worker, after its work. -/
  | remove
  /-- A worker, before it moves to the next slot. -/
  | decrement
  /-- A worker, before it reports that it is ready. -/
  | report
  /-- The engine before it was created. -/
  | unborn
  /-- The engine, waiting for the workers. -/
  | gather
  /-- The engine, waiting for items. -/
  | halted
  /-- An application. -/
  | outside
  deriving DecidableEq

/-- `assembly_line_t`, of its threads only `curr_slot` of the workers and whether the engine exists,
with what was done so far: how many items were pushed, which work functions each item met, and which
items were finished. -/
structure AssemblyLine where
  aslState : AslState
  aslQ : FifoQueue Nat
  /-- At most `asl_size`, so it does not wrap around. -/
  nWorkersReady : Nat
  aslEngineThread : Bool
  waitLstFq : FifoQueue Nat
  currSlot : Nat → Nat
  pushed : Nat
  works : Nat → List Nat
  finished : List Nat

abbrev AslEffect (n : Nat) := Effect AssemblyLine (AslCv n) AslLoc

/-- `assembly_line_get_new_assembly_line` and `assembly_line_init_worker_threads` -/
def newAssemblyLine (n : Nat) : AssemblyLine where
  aslState := .notStarted
  aslQ := fifoInitQ n true
  nWorkersReady := n
  aslEngineThread := false
  waitLstFq := fifoInitQ 50 false
  currSlot i := i
  pushed := 0
  works _ := []
  finished := []

def assemblyLineEnqueueNewItem (m : AssemblyLine) (object : Nat) : Option AssemblyLine :=
  if (m.aslQ.elem (m.currSlot 0)).isSome then none
  else
    (fifoInsertOrReplaceAtIndex m.aslQ (some object) (m.currSlot 0)).map fun (_, q) =>
      { m with aslQ := q }

/-- The loop of `worker_thread_init`, piece by piece, of a worker that is initialized. -/
def workerThreadInit {n : Nat} (i : Fin n) (l : AslLoc) (m : AssemblyLine) : AslEffect n :=
  match l with
  | .test =>
      if (m.aslQ.elem (m.currSlot i)).isSome then .done m [] (.running .work)
      else .done m [] (.running .decrement)
  | .work =>
      -- the slot is read again for the call of the work function
      match m.aslQ.elem (m.currSlot i) with
      | none => .abort
      | some item =>
          .done { m with works := Function.update m.works item (m.works item ++ [i.val]) } []
            (.running (if i.val = n - 1 then .remove else .decrement))
  | .remove =>
      .call (fifoInsertOrReplaceAtIndex m.aslQ none (m.currSlot i)) fun (finishedObj, q) =>
        match finishedObj with
        | none => .abort
        | some item =>
            .done { m with aslQ := q, finished := m.finished ++ [item] } [] (.running .decrement)
  | .decrement =>
      .done { m with currSlot := Function.update m.currSlot i (below n (m.currSlot i)) } []
        (.running .report)
  | .report =>
      let ready := m.nWorkersReady + 1
      .done { m with nWorkersReady := ready } (if ready = n then [.signal .engine] else [])
        (.waiting (.worker i) .test)
  | _ => .blocked

/-- The start of the loop of `asl_engine_fn`, up to the wait for the workers.  The list of workers is
in the order opposite to their creation. -/
def startCycle (n : Nat) (m : AssemblyLine) : AslEffect n :=
  .done { m with aslState := .inProgress, nWorkersReady := 0 }
    ((List.finRange n).reverse.map fun i => .signal (.worker i)) (.waiting .engine .gather)

/-- The end of the loop of `asl_engine_fn`. -/
def endCycle (n : Nat) (m : AssemblyLine) : AslEffect n :=
  if m.aslQ.count ≠ 0 then startCycle n m
  else .done { m with aslState := .wait } [] (.waiting .engine .halted)

/-- `asl_engine_fn`, piece by piece. -/
def aslEngineFn (n : Nat) (l : AslLoc) (m : AssemblyLine) : AslEffect n :=
  match l with
  | .unborn => if m.aslEngineThread then startCycle n m else .blocked
  | .gather =>
      if m.nWorkersReady ≠ n then .done m [] (.waiting .engine .gather)
      else
        .call (fifoDeque m.waitLstFq) fun (waitLstItem, q) =>
          let m := { m with waitLstFq := q }
          match waitLstItem with
          | none => endCycle n m
          | some item => .call (assemblyLineEnqueueNewItem m item) (endCycle n)
  | .halted => startCycle n m
  | _ => .blocked

def assemblyLineEngineStart {n : Nat} (m : AssemblyLine) : AslEffect n :=
  if !m.aslEngineThread then .done { m with aslEngineThread := true } [] (.running .outside)
  else if m.aslState = .wait then
    .done { m with aslState := .inProgress } [.signal .engine] (.running .outside)
  else .done m [] (.running .outside)

/-- The part of `assembly_line_push_new_item` that stores the item. -/
def storeNewItem (m : AssemblyLine) : Option AssemblyLine :=
  let newItem := m.pushed
  let m := { m with pushed := newItem + 1 }
  if m.aslQ.count = 0 then assemblyLineEnqueueNewItem m newItem
  else if !isQueueFull m.waitLstFq then
    (fifoEnqueue m.waitLstFq (some newItem)).map fun (_, q) => { m with waitLstFq := q }
  else none

def assemblyLinePushNewItem {n : Nat} (m : AssemblyLine) : AslEffect n :=
  .call (storeNewItem m) assemblyLineEngineStart

section Machine

variable {n : Nat} {α : Type*}

/-- What a thread does next. -/
def aslExec (t : AslThread n α) (l : AslLoc) (_ : Unit) (m : AssemblyLine) : AslEffect n :=
  match t with
  | .worker i => workerThreadInit i l m
  | .engine => aslEngineFn n l m
  | .app _ => assemblyLinePushNewItem m

/-- The threads of an assembly line. -/
def aslProgram (n : Nat) (α : Type*) :
    Program (AslThread n α) AssemblyLine (AslCv n) AslLoc Unit where
  exec := aslExec
  spuriousWakeups := false

abbrev AslConfig (n : Nat) (α : Type*) := Config (AslThread n α) AssemblyLine (AslCv n) AslLoc

/-- All workers wait for the first cycle. -/
def freshAssemblyLine (n : Nat) (α : Type*) : AslConfig n α where
  mem := newAssemblyLine n
  thr
    | .worker i => .waiting (.worker i) .test
    | .engine => .running .unborn
    | .app _ => .running .outside

/-- All runs of an assembly line. -/
def aslMachine (n : Nat) (α : Type*) [DecidableEq α] [Fintype α] :
    Machine (AslConfig n α) (Act (AslThread n α) Unit) :=
  (aslProgram n α).machine fun s => s = freshAssemblyLine n α

end Machine

end ThreadLib
end MultithreadingBible
