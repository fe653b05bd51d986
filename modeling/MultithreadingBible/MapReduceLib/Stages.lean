import MultithreadingBible.MapReduceLib.Machine

/-!
# The stages of a map-reduce

What the locations of the threads say about each other, about the memory and about the calls on record.

* `StageOk` — the caller is past a stage only when the other threads are.
* `MemOk` — the memory, by the stage.
* `LogOk` — the calls on record, by the stage: those of different mappers come in any order.
* `CallerMove` / `MapperMove` / `ReducerMove` — everything a step of a thread can do.
-/

namespace MultithreadingBible
namespace MapReduceLib

open Lib

variable {n : Nat} {D : Type*}

section App

variable (app : MrApp n D)

/-- What the splitter puts into the slots. -/
def MrApp.slots : Slots n D := app.inputDataSplitter app.appData fun _ => none

/-- What the mappers make of their slots. -/
def MrApp.results : Slots n D := fun i => app.mapperFn i (app.slots i)

/-- What the reducer makes of all results. -/
def MrApp.output : Iovec D := app.reducerFn app.results

/-- The calls after the reducer finished, before the cleanup. -/
def MrApp.reading : List (MrEvent n D) :=
  if app.reducerOutputReader then [.outputRead app.output] else []

/-- The calls of the cleanup. -/
def MrApp.cleaning : List (MrEvent n D) :=
  cleanupCalls app.mapperInputArrayCleanup .inputCleanup app.slots ++
    cleanupCalls app.mapperOutputArrayCleanup .outputCleanup app.results ++
    if app.output.dataLen != 0 && app.reducerOutputCleanup then [.reducerOutputCleanup app.output]
    else []

/-- The mapper whose function is called or returns. -/
def MrEvent.mapper : MrEvent n D → Option (Fin n)
  | .mapperCalled i _ => some i
  | .mapperReturned i _ => some i
  | _ => none

/-- The calls and returns of a mapper's function so far. -/
def MapperLoc.events (i : Fin n) : MapperLoc D → List (MrEvent n D)
  | .start => []
  | .mapping _ => [.mapperCalled i (app.slots i)]
  | .mapped | .exit => [.mapperCalled i (app.slots i), .mapperReturned i (app.results i)]

/-- The calls and returns of the reducer's function so far. -/
def ReducerLoc.events : ReducerLoc → List (MrEvent n D)
  | .start | .reduce => []
  | .reducing => [.reducerCalled app.results]
  | .reduced | .post | .exit => [.reducerCalled app.results, .reducerReturned app.output]

/-- The caller's calls before the mappers. -/
def CallerLoc.opening : CallerLoc → List (MrEvent n D)
  | .start => []
  | _ => [.split app.slots]

/-- The caller's calls after the reducer finished. -/
def CallerLoc.closing : CallerLoc → List (MrEvent n D)
  | .cleanup => app.reading
  | .finished => app.reading ++ app.cleaning
  | _ => []

end App

/-- The function of a mapper returned. -/
def MapperLoc.returned : MapperLoc D → Bool
  | .mapped | .exit => true
  | _ => false

/-- A mapper announced its completion. -/
def MapperLoc.exited : MapperLoc D → Bool
  | .exit => true
  | _ => false

/-- The function of the reducer returned. -/
def ReducerLoc.returned : ReducerLoc → Bool
  | .reduced | .post | .exit => true
  | _ => false

/-- The thread of mapper `i` was started. -/
def CallerLoc.launched : CallerLoc → Nat → Bool
  | .start, _ => false
  | .launch k, i => decide (i < k)
  | _, _ => true

/-- The caller found all mappers done. -/
def CallerLoc.joined : CallerLoc → Bool
  | .launchReducer | .semWait | .read | .cleanup | .finished => true
  | _ => false

/-- The thread of the reducer was started. -/
def CallerLoc.startedReducer : CallerLoc → Bool
  | .semWait | .read | .cleanup | .finished => true
  | _ => false

/-- The caller found the reducer done. -/
def CallerLoc.reduced : CallerLoc → Bool
  | .read | .cleanup | .finished => true
  | _ => false

theorem CallerLoc.joined_of_startedReducer {c : CallerLoc} (h : c.startedReducer = true) :
    c.joined = true := by
  cases c <;> first | rfl | exact absurd h Bool.false_ne_true

theorem CallerLoc.startedReducer_of_reduced {c : CallerLoc} (h : c.reduced = true) :
    c.startedReducer = true := by
  cases c <;> first | rfl | exact absurd h Bool.false_ne_true

/-- Before the reducer finished the caller made no closing calls. -/
theorem CallerLoc.closing_of_not_reduced (app : MrApp n D) {c : CallerLoc} (h : c.reduced = false) :
    c.closing app = [] := by
  cases c <;> first | rfl | exact absurd h.symm Bool.false_ne_true

/-- The caller is past a stage only when the other threads are. -/
structure StageOk (c : CallerLoc) (f : Fin n → MapperLoc D) (r : ReducerLoc) : Prop where
  unlaunched : ∀ i : Fin n, c.launched i = false → f i = .start
  joined : c.joined = true → ∀ i, f i = .exit
  started : r ≠ .start → c.startedReducer = true
  reduced : c.reduced = true → r = .exit

/-- The memory, by the stage. -/
structure MemOk (app : MrApp n D) (c : CallerLoc) (f : Fin n → MapperLoc D) (r : ReducerLoc)
    (m : MapReduce n D) : Prop where
  inProgress : m.mappersInProgress = (Finset.univ.filter fun i => (f i).exited = false).card
  fresh : c = .start → m.mapperInputArray = fun _ => none
  inputs : c ≠ .start → c ≠ .finished → m.mapperInputArray = app.slots
  mapping : ∀ i input, f i = .mapping input → input = app.slots i
  results : c ≠ .finished → ∀ i, (f i).returned = true → m.mapperResultArray i = app.results i
  threads : c ≠ .finished → ∀ i : Fin n, m.mapperThreadArray i = c.launched i
  reducerThread : c ≠ .finished → m.reducerThread = c.startedReducer
  output : c ≠ .finished → r.returned = true → m.reducerResult = app.output
  semaphore : m.reducerFinishedSemaphore = if c.reduced = false ∧ r = .exit then 1 else 0
  waitCount : m.wqUntilAllMappersFinish.threadWaitCount = if c = .wait then 1 else 0
  mutex : c = .wait → m.wqUntilAllMappersFinish.applnMutex.isSome = true

/-- The calls on record, by the stage. -/
def LogOk (app : MrApp n D) (c : CallerLoc) (f : Fin n → MapperLoc D) (r : ReducerLoc)
    (log : List (MrEvent n D)) : Prop :=
  ∃ ms : List (MrEvent n D), log = c.opening app ++ ms ++ r.events app ++ c.closing app ∧
    (∀ e ∈ ms, e.mapper.isSome = true) ∧
    ∀ i, ms.filter (fun e => e.mapper == some i) = (f i).events app i

section Moves

variable (app : MrApp n D)

/-- A step of the mapper `i`. -/
inductive MapperMove (i : Fin n) (m : MapReduce n D) :
    MapperLoc D → MapReduce n D → List (Note Unit) → MapperLoc D → Prop
  | call (hthread : m.mapperThreadArray i = true) :
      MapperMove i m .start (m.record [.mapperCalled i (m.mapperInputArray i)]) []
        (.mapping (m.mapperInputArray i))
  | store (input : Option (Iovec D)) :
      MapperMove i m (.mapping input)
        ({ m with
          mapperResultArray := Function.update m.mapperResultArray i (app.mapperFn i input) }.record
            [.mapperReturned i (app.mapperFn i input)]) [] .mapped
  | done :
      MapperMove i m .mapped { m with mappersInProgress := countDown 8 m.mappersInProgress }
        (waitQueueBroadcast m.wqUntilAllMappersFinish ()) .exit

/-- A step of the reducer. -/
inductive ReducerMove (m : MapReduce n D) : ReducerLoc → MapReduce n D → ReducerLoc → Prop
  | begin (hthread : m.reducerThread = true) :
      ReducerMove m .start { m with isReducerInProgress := true } .reduce
  | call : ReducerMove m .reduce (m.record [.reducerCalled m.mapperResultArray]) .reducing
  | store :
      ReducerMove m .reducing
        ({ m with reducerResult := app.reducerFn m.mapperResultArray }.record
          [.reducerReturned (app.reducerFn m.mapperResultArray)]) .reduced
  | done : ReducerMove m .reduced { m with isReducerInProgress := false } .post
  | post :
      ReducerMove m .post { m with reducerFinishedSemaphore := m.reducerFinishedSemaphore + 1 } .exit

/-- The caller is about to test whether any mapper is in progress, on the memory it has by then. -/
inductive CallerTests (m : MapReduce n D) : CallerLoc → MapReduce n D → Prop
  | first {k : Nat} (hk : n ≤ k) :
      CallerTests m (.launch k)
        { m with wqUntilAllMappersFinish := m.wqUntilAllMappersFinish.cacheMutex () }
  | again :
      CallerTests m .wait { m with wqUntilAllMappersFinish := m.wqUntilAllMappersFinish.countDown }

/-- A step of the caller, which may end in its wait. -/
inductive CallerMove (m : MapReduce n D) : CallerLoc → MapReduce n D → Bool → CallerLoc → Prop
  | split (hall : m.mappersInProgress = n) :
      CallerMove m .start
        ({ m with
          mapperInputArray := app.inputDataSplitter app.appData m.mapperInputArray
          mappersInProgress := n }.record [.split (app.inputDataSplitter app.appData m.mapperInputArray)])
        false (.launch 0)
  | launch {k : Nat} (hk : k < n) :
      CallerMove m (.launch k)
        { m with mapperThreadArray := Function.update m.mapperThreadArray ⟨k, hk⟩ true } false
        (.launch (k + 1))
  | block {c : CallerLoc} {m₁ : MapReduce n D} (htest : CallerTests m c m₁)
      (hprogress : m₁.mappersInProgress ≠ 0) :
      CallerMove m c { m₁ with wqUntilAllMappersFinish := m₁.wqUntilAllMappersFinish.countUp } true .wait
  | pass {c : CallerLoc} {m₁ : MapReduce n D} (htest : CallerTests m c m₁)
      (hdone : m₁.mappersInProgress = 0) : CallerMove m c m₁ false .launchReducer
  | launchReducer : CallerMove m .launchReducer { m with reducerThread := true } false .semWait
  | semWait (hpos : m.reducerFinishedSemaphore ≠ 0) :
      CallerMove m .semWait
        { m with reducerFinishedSemaphore := m.reducerFinishedSemaphore - 1 } false .read
  | read :
      CallerMove m .read
        (m.record (if app.reducerOutputReader then [.outputRead m.reducerResult] else [])) false .cleanup
  | cleanup : CallerMove m .cleanup (mapReduceCleanup app m) false .finished

variable {app} {m m' : MapReduce n D} {notes : List (Note Unit)} {st : Status Unit (MrLoc D)}

theorem mapperMove_of_exec {i : Fin n} {l : MapperLoc D}
    (h : mapperWrapper app i l m = .done m' notes st) :
    ∃ l', st = .running (.mapper l') ∧ MapperMove app i m l m' notes l' := by
  cases l with
  | start =>
      simp only [mapperWrapper] at h
      split at h
      · next hthread =>
        cases h
        exact ⟨_, rfl, .call hthread⟩
      · cases h
  | mapping input =>
      cases h
      exact ⟨_, rfl, .store input⟩
  | mapped =>
      cases h
      exact ⟨_, rfl, .done⟩
  | exit => cases h

theorem reducerMove_of_exec {l : ReducerLoc} (h : reducerWrapper app l m = .done m' notes st) :
    ∃ l', notes = [] ∧ st = .running (.reducer l') ∧ ReducerMove app m l m' l' := by
  cases l with
  | start =>
      simp only [reducerWrapper] at h
      split at h
      · next hthread =>
        cases h
        exact ⟨_, rfl, rfl, .begin hthread⟩
      · cases h
  | reduce =>
      cases h
      exact ⟨_, rfl, rfl, .call⟩
  | reducing =>
      cases h
      exact ⟨_, rfl, rfl, .store⟩
  | reduced =>
      cases h
      exact ⟨_, rfl, rfl, .done⟩
  | post =>
      cases h
      exact ⟨_, rfl, rfl, .post⟩
  | exit => cases h

/-- The status of the caller after its step. -/
def callerStatus (D : Type*) (blocked : Bool) (c : CallerLoc) : Status Unit (MrLoc D) :=
  if blocked then .waiting () (.caller c) else .running (.caller c)

theorem callerMove_of_test {c : CallerLoc} {m₁ : MapReduce n D} (htest : CallerTests m c m₁)
    (h : awaitMappers m₁ = .done m' notes st) :
    ∃ blocked c', notes = [] ∧ st = callerStatus D blocked c' ∧ CallerMove app m c m' blocked c' := by
  simp only [awaitMappers] at h
  split at h
  · next hany =>
    cases h
    exact ⟨true, _, rfl, rfl, .block htest (by simpa [wqIsAnyMapperInProgress] using hany)⟩
  · split at h
    · cases h
    · next hdone =>
      obtain ⟨mutex, -, h⟩ := Effect.call_eq_done.mp h
      cases h
      exact ⟨false, _, rfl, rfl, .pass htest (not_not.mp hdone)⟩

theorem callerMove_of_exec {c : CallerLoc} (h : mapReduceStart app c m = .done m' notes st) :
    ∃ blocked c', notes = [] ∧ st = callerStatus D blocked c' ∧ CallerMove app m c m' blocked c' := by
  cases c with
  | start =>
      simp only [mapReduceStart] at h
      split at h
      · next hall =>
        cases h
        exact ⟨false, _, rfl, rfl, .split hall⟩
      · cases h
  | launch k =>
      simp only [mapReduceStart] at h
      split at h
      · next hk =>
        split at h
        · cases h
        · cases h
          exact ⟨false, _, rfl, rfl, .launch hk⟩
      · next hk => exact callerMove_of_test (.first (Nat.le_of_not_lt hk)) h
  | wait => exact callerMove_of_test .again h
  | launchReducer =>
      cases h
      exact ⟨false, _, rfl, rfl, .launchReducer⟩
  | semWait =>
      simp only [mapReduceStart] at h
      split at h
      · cases h
      · next hpos =>
        cases h
        exact ⟨false, _, rfl, rfl, .semWait hpos⟩
  | read =>
      cases h
      exact ⟨false, _, rfl, rfl, .read⟩
  | cleanup =>
      cases h
      exact ⟨false, _, rfl, rfl, .cleanup⟩
  | finished => cases h

end Moves

end MapReduceLib
end MultithreadingBible
