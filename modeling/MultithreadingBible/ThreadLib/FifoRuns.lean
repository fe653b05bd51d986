import MultithreadingBible.Lib.Recording
import MultithreadingBible.ThreadLib.FifoQueue

/-!
# A `Fifo_Queue` is a bounded queue

The calls of `Fifo_enqueue` and `Fifo_deque` on a queue made by `Fifo_initQ(size, false)`, one after
another.

* `storedAfter`, `answerTo` -- a list of at most `size` elements, what a call does to it and is answered.
* `queueMachine` -- the queue on which the calls are made.
* `fifo_isQueue` -- every call is answered as by the list; what was dequeued is what was enqueued,
  in this order; the fields of the queue describe the list, and the slots that hold none of it are
  null.
-/

namespace MultithreadingBible
namespace ThreadLib

open Lib

variable {α : Type*}

/-- The calls on a queue that is not used for random access. -/
inductive QueueCall (α : Type*) where
  | enqueue (ptr : Option α)
  | deque
  deriving DecidableEq

/-- What a call returns. -/
inductive QueueAnswer (α : Type*) where
  | enqueued (b : Bool)
  | dequeued (ptr : Option α)
  deriving DecidableEq

/-- The elements stored after a call, oldest first. -/
def storedAfter (size : Nat) (xs : List α) : QueueCall α → List α
  | .enqueue none => xs
  | .enqueue (some x) => if xs.length < size then xs ++ [x] else xs
  | .deque => xs.tail

/-- The answer to a call when the elements `xs` are stored. -/
def answerTo (size : Nat) (xs : List α) : QueueCall α → QueueAnswer α
  | .enqueue ptr => .enqueued (ptr.isSome && decide (xs.length < size))
  | .deque => .dequeued xs.head?

section Enqueuing

variable {size : Nat} {xs : List α}

theorem storedAfter_room (x : α) (h : xs.length < size) :
    storedAfter size xs (.enqueue (some x)) = xs ++ [x] := if_pos h

theorem storedAfter_full (x : α) (h : ¬ xs.length < size) :
    storedAfter size xs (.enqueue (some x)) = xs := if_neg h

theorem answerTo_room (x : α) (h : xs.length < size) :
    answerTo size xs (.enqueue (some x)) = .enqueued true := by
  rw [answerTo, decide_eq_true h]
  rfl

theorem answerTo_full (x : α) (h : ¬ xs.length < size) :
    answerTo size xs (.enqueue (some x)) = .enqueued false := by
  rw [answerTo, decide_eq_false h]
  rfl

end Enqueuing

/-- The elements stored after the calls of a log. -/
def stored (size : Nat) (log : List (QueueCall α × QueueAnswer α)) : List α :=
  log.foldl (fun xs r => storedAfter size xs r.1) []

/-- The pointer that a call put into the queue. -/
def takenIn : QueueCall α × QueueAnswer α → Option α
  | (.enqueue ptr, .enqueued b) => if b then ptr else none
  | (.enqueue _, .dequeued _) => none
  | (.deque, _) => none

/-- The pointer that a call got out of the queue. -/
def handedOut : QueueCall α × QueueAnswer α → Option α
  | (_, .enqueued _) => none
  | (_, .dequeued ptr) => ptr

/-- Carry out a call. -/
def QueueCall.run (q : FifoQueue α) : QueueCall α → Option (QueueAnswer α × FifoQueue α)
  | .enqueue ptr => (fifoEnqueue q ptr).map fun r => (.enqueued r.1, r.2)
  | .deque => (fifoDeque q).map fun r => (.dequeued r.1, r.2)

/-- A queue and the calls made on it so far, with their answers. -/
structure QueueSession (α : Type*) where
  queue : FifoQueue α
  log : List (QueueCall α × QueueAnswer α)

/-- A queue of the given size on which calls are made one after another. -/
def queueMachine (α : Type*) (size : Nat) : Machine (QueueSession α) (QueueCall α) where
  init s := s = ⟨fifoInitQ size false, []⟩
  step s call :=
    match call.run s.queue with
    | some (answer, q) => .next ⟨q, s.log ++ [(call, answer)]⟩
    | none => .abort

/-- Every slot but the first `n` ones from the front down is null. -/
def FifoQueue.NullBeyond (q : FifoQueue α) (n : Nat) : Prop :=
  ∀ i, (∀ k < n, i ≠ (below q.size)^[k] q.front) → q.elem i = none

section Slots

variable {q q' : FifoQueue α} {xs : List α} {x : α}

theorem nullBeyond_fifoInitQ (size : Nat) : (fifoInitQ size false : FifoQueue α).NullBeyond 0 :=
  fun _ _ => rfl

/-- The slot of a new element is one of the stored ones from then on. -/
theorem FifoQueue.NullBeyond.enqueue (hnull : q.NullBeyond xs.length) (h : q.Holds xs)
    (hnotfull : isQueueFull q = false) (hok : fifoEnqueue q (some x) = some (true, q')) :
    q'.NullBeyond (xs ++ [x]).length := by
  rw [fifoEnqueue_eq h hnotfull] at hok
  cases hok
  intro i hi
  rw [List.length_append] at hi
  show Function.update q.elem ((below q.size)^[xs.length] q.front) (some x) i = none
  rw [Function.update_of_ne (hi xs.length (Nat.lt_succ_self _))]
  exact hnull i fun k hk => hi k (Nat.lt_succ_of_lt hk)

/-- The slot of the element that leaves is cleared. -/
theorem FifoQueue.NullBeyond.deque (hnull : q.NullBeyond (x :: xs).length) (h : q.Holds (x :: xs))
    (hok : fifoDeque q = some (some x, q')) : q'.NullBeyond xs.length := by
  rw [fifoDeque_eq h] at hok
  cases hok
  intro i hi
  show Function.update q.elem q.front none i = none
  by_cases hfront : i = q.front
  · rw [hfront, Function.update_self]
  · rw [Function.update_of_ne hfront]
    refine hnull i fun k hk => ?_
    cases k with
    | zero => exact hfront
    | succ k =>
        have hlt : k < xs.length := Nat.lt_of_succ_lt_succ hk
        have hcons : xs ≠ [] := List.ne_nil_of_length_pos (by omega)
        have hne := hi k hlt
        rw [if_neg hcons] at hne
        exact hne

theorem FifoQueue.Holds.rear_lt (h : q.Holds xs) : q.rear < q.size := by
  rw [h.rear]
  have hsize : 0 < q.size := Nat.lt_of_le_of_lt (Nat.zero_le _) h.front
  generalize xs.length - 1 = k
  induction k with
  | zero => exact h.front
  | succ k ih =>
      rw [Function.iterate_succ_apply']
      exact below_lt hsize ih

end Slots

/-- A queue of the given size that stores `xs` and nothing else. -/
structure Stores (size : Nat) (q : FifoQueue α) (xs : List α) : Prop where
  holds : q.Holds xs
  null : q.NullBeyond xs.length
  sized : q.size = size

/-- **Refinement**: a call is answered as by the list of the stored elements, and the queue then
stores the list after the call.  An enqueuing that is refused leaves the queue as it was. -/
theorem Stores.run {size : Nat} {q : FifoQueue α} {xs : List α} (h : Stores size q xs)
    (call : QueueCall α) :
    ∃ q', call.run q = some (answerTo size xs call, q') ∧ Stores size q' (storedAfter size xs call) ∧
      (answerTo size xs call = .enqueued false → q' = q) := by
  obtain ⟨hholds, hnull, hsize⟩ := h
  cases call with
  | deque =>
      cases xs with
      | nil =>
          refine ⟨q, ?_, ⟨hholds, hnull, hsize⟩, fun _ => rfl⟩
          rw [QueueCall.run, fifoDeque_nil hholds]
          rfl
      | cons x xs =>
          obtain ⟨q', hok, hholds', hsize'⟩ := fifoDeque_cons hholds
          refine ⟨q', ?_, ⟨hholds', hnull.deque hholds hok, hsize'.trans hsize⟩, fun h => by cases h⟩
          rw [QueueCall.run, hok]
          rfl
  | enqueue ptr =>
      cases ptr with
      | none =>
          refine ⟨q, ?_, ⟨hholds, hnull, hsize⟩, fun _ => rfl⟩
          simp [QueueCall.run, fifoEnqueue, hholds.ordered, answerTo]
      | some x =>
          cases hfull : isQueueFull q with
          | true =>
              have hlength : ¬ xs.length < size := by
                have heq := (isQueueFull_iff hholds).mp hfull
                omega
              rw [answerTo_full x hlength, storedAfter_full x hlength]
              refine ⟨q, ?_, ⟨hholds, hnull, hsize⟩, fun _ => rfl⟩
              simp [QueueCall.run, fifoEnqueue, hholds.ordered, hfull]
          | false =>
              have hlength : xs.length < size := hsize ▸ hholds.lt_of_not_full hfull
              obtain ⟨q', hok, hholds', hsize'⟩ := fifoEnqueue_spec hholds hfull x
              rw [answerTo_room x hlength, storedAfter_room x hlength]
              refine ⟨q', ?_, ⟨hholds', hnull.enqueue hholds hfull hok, hsize'.trans hsize⟩,
                fun h => by cases h⟩
              rw [QueueCall.run, hok]
              rfl

section Runs

variable {size : Nat} {s : QueueSession α}

theorem stored_concat (log : List (QueueCall α × QueueAnswer α)) (r : QueueCall α × QueueAnswer α) :
    stored size (log ++ [r]) = storedAfter size (stored size log) r.1 := by
  rw [stored, List.foldl_append]
  rfl

/-- The calls of a log were answered as by the list of what was stored before them. -/
def AnsweredInTurn (size : Nat) (log : List (QueueCall α × QueueAnswer α)) : Prop :=
  EachAfter (fun before r => r.2 = answerTo size (stored size before) r.1) log

/-- What came in went out in the same order, or is stored. -/
theorem AnsweredInTurn.fifo {log : List (QueueCall α × QueueAnswer α)} (h : AnsweredInTurn size log) :
    log.filterMap takenIn = log.filterMap handedOut ++ stored size log := by
  induction log using List.reverseRecOn with
  | nil => rfl
  | append_singleton log r ih =>
      obtain ⟨hlog, hr⟩ := EachAfter.of_concat h
      have ih := ih hlog
      obtain ⟨call, answer⟩ := r
      rw [List.filterMap_append, List.filterMap_append, stored_concat, ih]
      -- the answer is that of the list
      change answer = answerTo size (stored size log) call at hr
      subst hr
      cases call with
      | deque =>
          cases stored size log with
          | nil => simp [List.filterMap_cons, takenIn, handedOut, answerTo, storedAfter]
          | cons x xs => simp [List.filterMap_cons, takenIn, handedOut, answerTo, storedAfter]
      | enqueue ptr =>
          cases ptr with
          | none => simp [takenIn, handedOut, answerTo, storedAfter]
          | some x =>
              by_cases hroom : (stored size log).length < size
              · simp [takenIn, handedOut, answerTo, storedAfter, hroom]
              · simp [takenIn, handedOut, answerTo, storedAfter, hroom]

/-- The invariant of the calls on a queue. -/
structure QueueSessionOk (size : Nat) (s : QueueSession α) : Prop where
  stores : Stores size s.queue (stored size s.log)
  answered : AnsweredInTurn size s.log

theorem QueueSessionOk.step {s' : QueueSession α} {call : QueueCall α} (h : QueueSessionOk size s)
    (hstep : (queueMachine α size).step s call = .next s') : QueueSessionOk size s' := by
  obtain ⟨q', hok, hstores, -⟩ := h.stores.run call
  simp only [queueMachine, hok, Outcome.next.injEq] at hstep
  rw [← hstep]
  refine ⟨?_, h.answered.concat rfl⟩
  rw [stored_concat]
  exact hstores

theorem queueSessionOk (hsize : 0 < size) (hs : (queueMachine α size).Reachable s) :
    QueueSessionOk size s := by
  refine hs.invariant (I := fun s => QueueSessionOk size s) ?_ fun s call s' h _ hstep => h.step hstep
  intro s hinit
  rw [hinit]
  exact ⟨⟨holds_fifoInitQ hsize, nullBeyond_fifoInitQ size, rfl⟩, .nil⟩

/-- **A queue is a bounded queue.**  In every sequence of calls on a queue with room for at least
one element, each call is answered as by the list of the elements stored before it; what was
dequeued followed by what is stored is what was enqueued; the count is the number of stored
elements, front and rear are slots, the stored elements lie in the slots from the front down, and
every other slot is null; no assertion fails; and an enqueuing that is refused leaves the queue as
it was. -/
theorem fifo_isQueue (hsize : 1 ≤ size) (hs : (queueMachine α size).Reachable s) :
    AnsweredInTurn size s.log ∧
      s.log.filterMap takenIn = s.log.filterMap handedOut ++ stored size s.log ∧
      (s.queue.count = (stored size s.log).length ∧ s.queue.count ≤ size ∧ s.queue.front < size ∧
        s.queue.rear < size) ∧
      (∀ k (hk : k < (stored size s.log).length),
        s.queue.elem ((below size)^[k] s.queue.front) = some (stored size s.log)[k]) ∧
      (∀ i, (∀ k < (stored size s.log).length, i ≠ (below size)^[k] s.queue.front) →
        s.queue.elem i = none) ∧
      ∀ call, ∃ s', (queueMachine α size).step s call = .next s' ∧
        (answerTo size (stored size s.log) call = .enqueued false → s'.queue = s.queue) := by
  have h := queueSessionOk hsize hs
  obtain ⟨hholds, hnull, hsized⟩ := h.stores
  have hrear := hholds.rear_lt
  have hfront := hholds.front
  have hroom := hholds.room
  have helem := hholds.elem
  unfold FifoQueue.NullBeyond at hnull
  rw [hsized] at hrear hfront hroom hnull helem
  refine ⟨h.answered, h.answered.fifo, ⟨hholds.count, ?_, hfront, hrear⟩, helem, hnull, fun call => ?_⟩
  · rw [hholds.count]
    exact hroom
  · obtain ⟨q', hok, -, hsame⟩ := h.stores.run call
    refine ⟨⟨q', s.log ++ [(call, answerTo size (stored size s.log) call)]⟩, ?_, hsame⟩
    simp only [queueMachine, hok]

/-- A queue of one slot. -/
theorem fifo_isQueue_trace :
    ∃ s : QueueSession Nat, s.queue.count = 1 ∧ s.log.filterMap handedOut = [7] ∧
      s.log.filterMap takenIn = s.log.filterMap handedOut ++ stored 1 s.log := by
  have hrun : ((queueMachine Nat 1).exec ⟨fifoInitQ 1 false, []⟩
      [.enqueue (some 7), .enqueue (some 8), .deque, .enqueue (some 9)]).holds
      (fun s => decide (s.queue.count = 1) && decide (s.log.filterMap handedOut = [7])) = true := by
    decide +kernel
  obtain ⟨s, hs, hp⟩ := Machine.exists_reachable_of_exec rfl hrun
  rw [Bool.and_eq_true, decide_eq_true_eq, decide_eq_true_eq] at hp
  obtain ⟨-, hfifo, -⟩ := fifo_isQueue (by decide) hs
  exact ⟨s, hp.1, hp.2, hfifo⟩

end Runs

end ThreadLib
end MultithreadingBible
