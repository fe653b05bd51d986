import MultithreadingBible.Lib.CondVar
import MultithreadingBible.Lib.Counter

/-!
# Thread barrier

A barrier makes threads wait until `threshold` of them have come.  The last one to come does not
wait: it closes the barrier and wakes one waiter, every waiter that leaves wakes the next, and the last
one to leave opens the barrier again for the threads that came in the meantime.

* `Barrier` — the fields of `th_barrier_t`.
* `barricade` / `leaveBarricade` — `thread_barrier_barricade` up to and after its wait on `cv`.
  `thread_barrier_wait` is the same code under another name.
* `barrierMachine` — all interleavings of threads that call it again and again.

The machine is observed: beside the barrier it has a log of the calls, who passed the busy check and who
returned, which the code does not see.
-/

namespace MultithreadingBible
namespace ThreadLib

open Lib

/-- `th_barrier_t`, without its mutex and condition variables. -/
structure Barrier where
  threshold : Nat
  currWaitCount : Nat
  isReadyAgain : Bool

/-- The condition variables of a barrier. -/
inductive BarrierCv where
  | cv
  | busyCv
  deriving DecidableEq

/-- Where a thread is. -/
inductive BarrierLoc where
  /-- Outside all calls. -/
  | idle
  /-- In the wait on `busy_cv`. -/
  | busy
  /-- In the wait on `cv`. -/
  | barricaded
  deriving DecidableEq

/-- What the log records about a call: that it passed the busy check, and that it returned. -/
inductive BarrierEvent (τ : Type*) where
  | arrive (t : τ)
  | leave (t : τ)
  deriving DecidableEq

def threadBarrierInit (count : UInt32) : Barrier where
  threshold := count.toNat
  currWaitCount := 0
  isReadyAgain := true

abbrev BarrierEffect := Effect Barrier BarrierCv BarrierLoc

/-- `thread_barrier_barricade` from the busy check on. -/
def barricade (b : Barrier) : BarrierEffect :=
  if b.isReadyAgain == false then .done b [] (.waiting .busyCv .busy)
  else if countUp 32 b.currWaitCount == b.threshold then
    .done { b with isReadyAgain := false } [.signal .cv] (.running .idle)
  else
    .done { b with currWaitCount := countUp 32 b.currWaitCount } [] (.waiting .cv .barricaded)

/-- `thread_barrier_barricade` after the wait on `cv`. -/
def leaveBarricade (b : Barrier) : BarrierEffect :=
  let b := { b with currWaitCount := countDown 32 b.currWaitCount }
  if b.currWaitCount == 0 then
    .done { b with isReadyAgain := true } [.broadcast .busyCv] (.running .idle)
  else .done b [.signal .cv] (.running .idle)

/-- `thread_barrier_barricade`, piece by piece. -/
def threadBarrierBarricade (l : BarrierLoc) (b : Barrier) : BarrierEffect :=
  match l with
  | .idle | .busy => barricade b
  | .barricaded => leaveBarricade b

/-- The barrier and the log. -/
structure BarrierMem (τ : Type*) where
  barrier : Barrier
  log : List (BarrierEvent τ)

variable {τ : Type*}

/-- What is seen of a piece of `thread_barrier_barricade` that began at `l` and ended in `st`. -/
def barrierEvents (t : τ) (l : BarrierLoc) (st : Status BarrierCv BarrierLoc) : List (BarrierEvent τ) :=
  if l = .barricaded then [.leave t]
  else
    match st with
    | .waiting .busyCv _ => []
    | .waiting .cv _ => [.arrive t]
    | _ => [.arrive t, .leave t]

/-- What a thread does next to the barrier, and what goes into the log. -/
def barrierExec (t : τ) (l : BarrierLoc) (m : BarrierMem τ) :
    Effect (BarrierMem τ) BarrierCv BarrierLoc :=
  (threadBarrierBarricade l m.barrier).observed fun b st => ⟨b, m.log ++ barrierEvents t l st⟩

/-- Threads that use one barrier, on a platform without spurious wake-ups. -/
def barrierProgram (τ : Type*) : Program τ (BarrierMem τ) BarrierCv BarrierLoc Unit where
  exec t l _ m := barrierExec t l m
  spuriousWakeups := false

abbrev BarrierConfig (τ : Type*) := Config τ (BarrierMem τ) BarrierCv BarrierLoc

/-- All runs of threads that call `thread_barrier_barricade` on one barrier. -/
def barrierMachine (τ : Type*) [DecidableEq τ] [Fintype τ] (count : UInt32) :
    Machine (BarrierConfig τ) (Act τ Unit) :=
  (barrierProgram τ).machine fun s =>
    s.mem = ⟨threadBarrierInit count, []⟩ ∧ ∀ t, s.thr t = .running .idle

/-- Nobody has called yet. -/
def freshBarrier (τ : Type*) (count : UInt32) : BarrierConfig τ :=
  ⟨⟨threadBarrierInit count, []⟩, fun _ => .running .idle⟩

theorem freshBarrier_init [DecidableEq τ] [Fintype τ] {count : UInt32} :
    (barrierMachine τ count).init (freshBarrier τ count) :=
  ⟨rfl, fun _ => rfl⟩

/-- Everything a thread can do. -/
inductive BarrierMove (t : τ) (m : BarrierMem τ) :
    BarrierLoc → BarrierMem τ → List (Note BarrierCv) → Status BarrierCv BarrierLoc → Prop
  | busy {l : BarrierLoc} (hl : l ≠ .barricaded) (hbusy : m.barrier.isReadyAgain = false) :
      BarrierMove t m l m [] (.waiting .busyCv .busy)
  | last {l : BarrierLoc} (hl : l ≠ .barricaded) (hready : m.barrier.isReadyAgain = true)
      (hlast : countUp 32 m.barrier.currWaitCount = m.barrier.threshold) :
      BarrierMove t m l
        ⟨{ m.barrier with isReadyAgain := false }, m.log ++ [.arrive t, .leave t]⟩ [.signal .cv]
        (.running .idle)
  | arrive {l : BarrierLoc} (hl : l ≠ .barricaded) (hready : m.barrier.isReadyAgain = true)
      (hlast : countUp 32 m.barrier.currWaitCount ≠ m.barrier.threshold) :
      BarrierMove t m l
        ⟨{ m.barrier with currWaitCount := countUp 32 m.barrier.currWaitCount },
          m.log ++ [.arrive t]⟩ [] (.waiting .cv .barricaded)
  | reopen (hlast : countDown 32 m.barrier.currWaitCount = 0) :
      BarrierMove t m .barricaded
        ⟨{ m.barrier with
            currWaitCount := countDown 32 m.barrier.currWaitCount
            isReadyAgain := true },
          m.log ++ [.leave t]⟩ [.broadcast .busyCv] (.running .idle)
  | leave (hlast : countDown 32 m.barrier.currWaitCount ≠ 0) :
      BarrierMove t m .barricaded
        ⟨{ m.barrier with currWaitCount := countDown 32 m.barrier.currWaitCount },
          m.log ++ [.leave t]⟩ [.signal .cv] (.running .idle)

section Moves

variable {t : τ} {l : BarrierLoc} {m m' : BarrierMem τ} {notes : List (Note BarrierCv)}
  {st : Status BarrierCv BarrierLoc}

theorem barrierMove_of_barricade {b : Barrier} (hl : l ≠ .barricaded)
    (h : barricade m.barrier = .done b notes st) :
    BarrierMove t m l ⟨b, m.log ++ barrierEvents t l st⟩ notes st := by
  unfold barrierEvents
  rw [if_neg hl]
  unfold barricade at h
  split at h
  · next hbusy =>
    cases h
    rw [List.append_nil]
    exact .busy hl (by simpa using hbusy)
  · next hready =>
    split at h
    · next hlast =>
      cases h
      exact .last hl (by simpa using hready) (by simpa using hlast)
    · next hlast =>
      cases h
      exact .arrive hl (by simpa using hready) (by simpa using hlast)

/-- A step of a thread is one of the listed moves. -/
theorem barrierMove_of_exec (h : barrierExec t l m = .done m' notes st) :
    BarrierMove t m l m' notes st := by
  obtain ⟨b, hcode, rfl⟩ := Effect.observed_eq_done.mp h
  cases l with
  | idle => exact barrierMove_of_barricade (by simp) hcode
  | busy => exact barrierMove_of_barricade (by simp) hcode
  | barricaded =>
      simp only [threadBarrierBarricade, leaveBarricade] at hcode
      split at hcode
      · next hlast =>
        cases hcode
        exact .reopen (by simpa using hlast)
      · next hlast =>
        cases hcode
        exact .leave (by simpa using hlast)

end Moves

end ThreadLib
end MultithreadingBible
