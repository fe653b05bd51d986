import MultithreadingBible.MapReduceLib.WaitQueue
import Mathlib.Data.Fintype.Sum
import Mathlib.Data.Fintype.Sigma
import Mathlib.Tactic.DeriveFintype

/-!
# Map-reduce

`map_reduce_start` splits the data of an application, starts one thread for each mapper, waits until all
of them are done, and starts the reducer.  The mappers announce their completion on a wait queue, the
reducer with a semaphore.

* `MrApp` — the functions of an application, by what they return.
* `MapReduce` — the memory, with the calls of these functions on record (`log`).
* `mapperWrapper`, `reducerWrapper`, `mapReduceStart` — the code of the threads.  A critical section of
  `mr_mutex` is one step, and so are the call of an application's function and its return.
-/

namespace MultithreadingBible
namespace MapReduceLib

open Lib

/-- `mr_iovec_t` -/
structure Iovec (D : Type*) where
  base : Option D
  dataLen : Nat
  deriving DecidableEq

def mapReduceMaxMapper : Nat := 8

/-- An array of pointers to `mr_iovec_t`, with a slot for each mapper.  The arrays of the source have
`mapReduceMaxMapper` slots, of which the first `n_mappers` are used, so `n` is at most that. -/
abbrev Slots (n : Nat) (D : Type*) := Fin n → Option (Iovec D)

/-- What an application sets in a `map_reduce_t`, with the functions that may be missing. -/
structure MrApp (n : Nat) (D : Type*) where
  appData : Option (Iovec D)
  inputDataSplitter : Option (Iovec D) → Slots n D → Slots n D
  mapperFn : Fin n → Option (Iovec D) → Option (Iovec D)
  reducerFn : Slots n D → Iovec D
  reducerOutputReader : Bool
  mapperInputArrayCleanup : Bool
  mapperOutputArrayCleanup : Bool
  reducerOutputCleanup : Bool

/-- The calls and returns of an application's functions. -/
inductive MrEvent (n : Nat) (D : Type*) where
  | split (slots : Slots n D)
  | mapperCalled (i : Fin n) (input : Option (Iovec D))
  | mapperReturned (i : Fin n) (result : Option (Iovec D))
  | reducerCalled (results : Slots n D)
  | reducerReturned (result : Iovec D)
  | outputRead (result : Iovec D)
  | inputCleanup (input : Iovec D)
  | outputCleanup (result : Iovec D)
  | reducerOutputCleanup (result : Iovec D)

/-- `map_reduce_t`, without what the application sets.  A thread is there or not. -/
structure MapReduce (n : Nat) (D : Type*) where
  mappersInProgress : Nat
  wqUntilAllMappersFinish : WaitQueue Unit
  mapperInputArray : Slots n D
  mapperResultArray : Slots n D
  mapperThreadArray : Fin n → Bool
  reducerThread : Bool
  reducerResult : Iovec D
  reducerFinishedSemaphore : Nat
  isReducerInProgress : Bool
  log : List (MrEvent n D)

/-- The threads of a map-reduce. -/
inductive MrThread (n : Nat) where
  | caller
  | mapper (i : Fin n)
  | reducer
  deriving DecidableEq, Fintype

/-- Where the caller is in `map_reduce_start`. -/
inductive CallerLoc where
  | start
  /-- About to start the mapper thread `i`, or to wait if there is none. -/
  | launch (i : Nat)
  | wait
  | launchReducer
  | semWait
  | read
  | cleanup
  | finished
  deriving DecidableEq

/-- Where a thread is in `mapper_wrapper`. -/
inductive MapperLoc (D : Type*) where
  | start
  /-- In `mapper_fn`. -/
  | mapping (input : Option (Iovec D))
  | mapped
  | exit
  deriving DecidableEq

/-- Where a thread is in `reducer_wrapper`. -/
inductive ReducerLoc where
  | start
  | reduce
  /-- In `reducer_fn`. -/
  | reducing
  | reduced
  | post
  | exit
  deriving DecidableEq

/-- Where a thread is. -/
inductive MrLoc (D : Type*) where
  | caller (l : CallerLoc)
  | mapper (l : MapperLoc D)
  | reducer (l : ReducerLoc)
  deriving DecidableEq

section Code

variable {n : Nat} {D : Type*}

/-- The caller waits on the condition variable of the wait queue. -/
abbrev MrEffect (n : Nat) (D : Type*) := Effect (MapReduce n D) Unit (MrLoc D)

def mapReduceInit (n : Nat) (D : Type*) : MapReduce n D where
  mappersInProgress := n
  wqUntilAllMappersFinish := waitQueueInit
  mapperInputArray _ := none
  mapperResultArray _ := none
  mapperThreadArray _ := false
  reducerThread := false
  reducerResult := ⟨none, 0⟩
  reducerFinishedSemaphore := 0
  isReducerInProgress := false
  log := []

/-- Put a call or a return on record. -/
def MapReduce.record (m : MapReduce n D) (events : List (MrEvent n D)) : MapReduce n D :=
  { m with log := m.log ++ events }

def wqIsAnyMapperInProgress (m : MapReduce n D) : Bool := m.mappersInProgress != 0

/-- A loop of `map_reduce_cleanup` that calls a cleanup function, if there is one, on the slots of an
array: the calls. -/
def cleanupCalls (cleanup : Bool) (call : Iovec D → MrEvent n D) (slots : Slots n D) :
    List (MrEvent n D) :=
  if cleanup then (List.finRange n).filterMap fun i => (slots i).map call else []

/-- The array after such a loop. -/
def cleanupSlots (cleanup : Bool) (slots : Slots n D) : Slots n D :=
  if cleanup then fun _ => none else slots

variable (app : MrApp n D)

def mapReduceCleanup (m : MapReduce n D) : MapReduce n D :=
  let reducerCleanup := m.reducerResult.dataLen != 0 && app.reducerOutputCleanup
  { m with
    mapperInputArray := cleanupSlots app.mapperInputArrayCleanup m.mapperInputArray
    mapperResultArray := cleanupSlots app.mapperOutputArrayCleanup m.mapperResultArray
    mapperThreadArray := fun _ => false
    reducerThread := false
    reducerResult := if reducerCleanup then ⟨none, 0⟩ else m.reducerResult
    log := m.log ++ (cleanupCalls app.mapperInputArrayCleanup .inputCleanup m.mapperInputArray ++
      cleanupCalls app.mapperOutputArrayCleanup .outputCleanup m.mapperResultArray ++
      if reducerCleanup then [.reducerOutputCleanup m.reducerResult] else []) }

def mapperWrapper (i : Fin n) (l : MapperLoc D) (m : MapReduce n D) : MrEffect n D :=
  match l with
  | .start =>
      if m.mapperThreadArray i then
        let input := m.mapperInputArray i
        .done (m.record [.mapperCalled i input]) [] (.running (.mapper (.mapping input)))
      else .blocked
  | .mapping input =>
      let result := app.mapperFn i input
      .done
        ({ m with
          mapperResultArray := Function.update m.mapperResultArray i result }.record
            [.mapperReturned i result])
        [] (.running (.mapper .mapped))
  | .mapped =>
      .done { m with mappersInProgress := countDown 8 m.mappersInProgress }
        (waitQueueBroadcast m.wqUntilAllMappersFinish ()) (.running (.mapper .exit))
  | .exit => .blocked

def reducerWrapper (l : ReducerLoc) (m : MapReduce n D) : MrEffect n D :=
  match l with
  | .start =>
      if m.reducerThread then
        .done { m with isReducerInProgress := true } [] (.running (.reducer .reduce))
      else .blocked
  | .reduce => .done (m.record [.reducerCalled m.mapperResultArray]) [] (.running (.reducer .reducing))
  | .reducing =>
      let result := app.reducerFn m.mapperResultArray
      .done ({ m with reducerResult := result }.record [.reducerReturned result]) []
        (.running (.reducer .reduced))
  | .reduced => .done { m with isReducerInProgress := false } [] (.running (.reducer .post))
  | .post =>
      .done { m with reducerFinishedSemaphore := m.reducerFinishedSemaphore + 1 } []
        (.running (.reducer .exit))
  | .exit => .blocked

/-- The loop of `wait_queue_test_and_wait`, and what follows it in `map_reduce_start` up to the unlocking
of the mutex. -/
def awaitMappers (m : MapReduce n D) : MrEffect n D :=
  if wqIsAnyMapperInProgress m then
    .done { m with wqUntilAllMappersFinish := m.wqUntilAllMappersFinish.countUp } []
      (.waiting () (.caller .wait))
  else if m.mappersInProgress ≠ 0 then .abort
  else .call m.wqUntilAllMappersFinish.applnMutex fun _ =>
    .done m [] (.running (.caller .launchReducer))

def mapReduceStart (l : CallerLoc) (m : MapReduce n D) : MrEffect n D :=
  match l with
  | .start =>
      if m.mappersInProgress = n then
        let slots := app.inputDataSplitter app.appData m.mapperInputArray
        .done ({ m with mapperInputArray := slots, mappersInProgress := n }.record [.split slots]) []
          (.running (.caller (.launch 0)))
      else .abort
  | .launch i =>
      if hi : i < n then
        if m.mapperThreadArray ⟨i, hi⟩ then .abort
        else
          .done { m with mapperThreadArray := Function.update m.mapperThreadArray ⟨i, hi⟩ true } []
            (.running (.caller (.launch (i + 1))))
      else
        awaitMappers
          { m with wqUntilAllMappersFinish := m.wqUntilAllMappersFinish.cacheMutex () }
  | .wait => awaitMappers { m with wqUntilAllMappersFinish := m.wqUntilAllMappersFinish.countDown }
  | .launchReducer => .done { m with reducerThread := true } [] (.running (.caller .semWait))
  | .semWait =>
      if m.reducerFinishedSemaphore = 0 then .blocked
      else
        .done { m with reducerFinishedSemaphore := m.reducerFinishedSemaphore - 1 } []
          (.running (.caller .read))
  | .read =>
      .done (m.record (if app.reducerOutputReader then [.outputRead m.reducerResult] else [])) []
        (.running (.caller .cleanup))
  | .cleanup => .done (mapReduceCleanup app m) [] (.running (.caller .finished))
  | .finished => .blocked

/-- What a thread does next. -/
def mrExec (t : MrThread n) (l : MrLoc D) (_ : Unit) (m : MapReduce n D) : MrEffect n D :=
  match t, l with
  | .caller, .caller l => mapReduceStart app l m
  | .mapper i, .mapper l => mapperWrapper app i l m
  | .reducer, .reducer l => reducerWrapper app l m
  | _, _ => .blocked

/-- The threads of one call of `map_reduce_start`. -/
def mrProgram (spurious : Bool) : Program (MrThread n) (MapReduce n D) Unit (MrLoc D) Unit where
  exec := mrExec app
  spuriousWakeups := spurious

abbrev MrConfig (n : Nat) (D : Type*) := Config (MrThread n) (MapReduce n D) Unit (MrLoc D)

/-- A fresh `map_reduce_t`, when `map_reduce_start` is called. -/
def freshMapReduce (n : Nat) (D : Type*) : MrConfig n D :=
  ⟨mapReduceInit n D, fun
    | .caller => .running (.caller .start)
    | .mapper _ => .running (.mapper .start)
    | .reducer => .running (.reducer .start)⟩

/-- All runs of `map_reduce_start`. -/
def mrMachine (spurious : Bool) : Machine (MrConfig n D) (Act (MrThread n) Unit) :=
  (mrProgram app spurious).machine fun s => s = freshMapReduce n D

end Code

end MapReduceLib
end MultithreadingBible
