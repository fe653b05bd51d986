import MultithreadingBible.Lib.Ring

/-!
# `Queue_t`

A queue of `Q_DEFAULT_SIZE` pointers in an array that is used as a ring and filled upwards.  A null
pointer is `none`.  Where the queue is empty `front` and `rear` agree, and an element that is put
into the empty queue moves neither of them.

* `Queue.Holds` — the elements of a queue, oldest first.
* `enqueue_spec`, `deque_spec` — the operations on them.
-/

namespace MultithreadingBible
namespace ProducerConsumer

open Lib

def qDefaultSize : Nat := 5

/-- `Queue_t`, without its mutex and condition variable. -/
structure Queue (α : Type*) where
  elem : Nat → Option α
  front : Nat
  rear : Nat
  count : Nat

variable {α : Type*}

def initQ : Queue α where
  elem _ := none
  front := 0
  rear := 0
  count := 0

def isQueueEmpty (q : Queue α) : Bool := q.count == 0

def isQueueFull (q : Queue α) : Bool := q.count == qDefaultSize

def enqueue (q : Queue α) (ptr : Option α) : Bool × Queue α :=
  if ptr.isNone then (false, q)
  else if isQueueFull q then (false, q)
  else if isQueueEmpty q then
    (true, { q with elem := Function.update q.elem q.front ptr, count := q.count + 1 })
  else
    let rear := above qDefaultSize q.rear
    (true, { q with rear := rear, elem := Function.update q.elem rear ptr, count := q.count + 1 })

def deque (q : Queue α) : Option α × Queue α :=
  if isQueueEmpty q then (none, q)
  else
    let elem := q.elem q.front
    let q := { q with elem := Function.update q.elem q.front none, count := q.count - 1 }
    if q.front = q.rear then (elem, q)
    else (elem, { q with front := above qDefaultSize q.front })

/-- The queue holds `xs`, oldest first. -/
structure Queue.Holds (q : Queue α) (xs : List α) : Prop where
  front : q.front < qDefaultSize
  count : q.count = xs.length
  room : xs.length ≤ qDefaultSize
  rear : q.rear = ringAt qDefaultSize q.front (xs.length - 1)
  elem : ∀ k (hk : k < xs.length), q.elem (ringAt qDefaultSize q.front k) = some xs[k]

section Specs

variable {q : Queue α} {xs : List α} {x : α}

theorem holds_initQ : (initQ : Queue α).Holds [] where
  front := Nat.succ_pos 4
  count := rfl
  room := Nat.zero_le _
  rear := rfl
  elem k hk := absurd hk (Nat.not_lt_zero k)

theorem isQueueFull_iff (h : q.Holds xs) : isQueueFull q = true ↔ xs.length = qDefaultSize := by
  unfold isQueueFull
  rw [h.count, beq_iff_eq]

theorem isQueueEmpty_iff (h : q.Holds xs) : isQueueEmpty q = true ↔ xs = [] := by
  unfold isQueueEmpty
  rw [h.count, beq_iff_eq, List.length_eq_zero_iff]

/-- A queue that is not full takes one more element, at its end. -/
theorem enqueue_spec (h : q.Holds xs) (hroom : isQueueFull q = false) (x : α) :
    (enqueue q (some x)).2.Holds (xs ++ [x]) := by
  have hle := h.room
  have hlt : xs.length < qDefaultSize := by
    have hne : xs.length ≠ qDefaultSize := by
      rw [ne_eq, ← isQueueFull_iff h, hroom]
      exact Bool.false_ne_true
    omega
  have hlen : (xs ++ [x]).length = xs.length + 1 := List.length_append
  cases hempty : isQueueEmpty q with
  | true =>
      -- an empty queue keeps `rear`, which is `front`
      have hnil := (isQueueEmpty_iff h).mp hempty
      subst hnil
      have hq : (enqueue q (some x)).2 =
          { q with elem := Function.update q.elem q.front (some x), count := q.count + 1 } := by
        simp [enqueue, hroom, hempty]
      rw [hq]
      refine ⟨h.front, ?_, hlt, h.rear, fun k hk => ?_⟩
      · show q.count + 1 = 1
        rw [h.count]
        rfl
      · have hzero : k = 0 := Nat.lt_one_iff.mp hk
        subst hzero
        show Function.update q.elem q.front (some x) (ringAt qDefaultSize q.front 0) = some x
        rw [ringAt_zero h.front, Function.update_self]
  | false =>
      have hpos : 0 < xs.length := by
        rw [List.length_pos_iff, ne_eq, ← isQueueEmpty_iff h, hempty]
        exact Bool.false_ne_true
      -- else `rear` moves on to the first free slot
      have hrear : above qDefaultSize q.rear = ringAt qDefaultSize q.front xs.length := by
        rw [h.rear, above_ringAt h.front (by omega), Nat.sub_add_cancel hpos]
      have hq : (enqueue q (some x)).2 =
          { q with
            rear := ringAt qDefaultSize q.front xs.length
            elem := Function.update q.elem (ringAt qDefaultSize q.front xs.length) (some x)
            count := q.count + 1 } := by
        simp [enqueue, hroom, hempty, hrear]
      rw [hq]
      refine ⟨h.front, ?_, ?_, ?_, fun k hk => ?_⟩
      · show q.count + 1 = _
        rw [h.count, hlen]
      · rw [hlen]
        exact hlt
      · rw [hlen]
        rfl
      · show Function.update q.elem (ringAt qDefaultSize q.front xs.length) (some x)
          (ringAt qDefaultSize q.front k) = _
        rw [hlen] at hk
        by_cases hlast : k = xs.length
        · subst hlast
          rw [Function.update_self, List.getElem_concat_length rfl]
        · have hbefore : k < xs.length := by omega
          rw [Function.update_of_ne, h.elem k hbefore, List.getElem_append_left hbefore]
          rw [ne_eq, ringAt_inj (by omega) hlt]
          exact hlast

/-- The oldest element leaves a queue that is not empty. -/
theorem deque_spec (h : q.Holds (x :: xs)) : (deque q).1 = some x ∧ (deque q).2.Holds xs := by
  have hsome : isQueueEmpty q = false := by
    rw [Bool.eq_false_iff, ne_eq, isQueueEmpty_iff h]
    exact List.cons_ne_nil x xs
  have hroom : xs.length + 1 ≤ qDefaultSize := h.room
  have hfirst : q.elem q.front = some x := by
    have hzero := h.elem 0 (Nat.succ_pos _)
    rwa [ringAt_zero h.front] at hzero
  have hcount : q.count - 1 = xs.length := by
    rw [h.count]
    rfl
  -- the slot that is emptied holds none of the others
  have hrest : ∀ k (hk : k < xs.length),
      Function.update q.elem q.front none (ringAt qDefaultSize q.front (k + 1)) = some xs[k] := by
    intro k hk
    rw [Function.update_of_ne, h.elem (k + 1) (Nat.succ_lt_succ hk)]
    · rfl
    · intro heq
      have hzero := (ringAt_inj (n := qDefaultSize) (b := q.front) (i := k + 1) (j := 0) (by omega)
        (by omega)).mp (by rw [heq, ringAt_zero h.front])
      omega
  by_cases hlast : q.front = q.rear
  · have hnil : xs = [] := by
      have hrear := h.rear
      rw [← hlast] at hrear
      have hinj := (ringAt_inj (n := qDefaultSize) (b := q.front) (i := 0) (j := xs.length) (by omega)
        (by omega)).mp (by rw [ringAt_zero h.front]; exact hrear)
      exact List.length_eq_zero_iff.mp hinj.symm
    subst hnil
    have hq : deque q =
        (some x, { q with elem := Function.update q.elem q.front none, count := q.count - 1 }) := by
      simp [deque, hsome, hlast, ← hfirst]
    rw [hq]
    refine ⟨rfl, h.front, hcount, Nat.zero_le _, ?_, fun k hk => absurd hk (Nat.not_lt_zero k)⟩
    exact h.rear
  · have hpos : 0 < xs.length := by
      apply Nat.pos_of_ne_zero
      intro hzero
      apply hlast
      rw [h.rear, List.length_cons, hzero]
      exact (ringAt_zero h.front).symm
    have hq : deque q =
        (some x, { q with
          elem := Function.update q.elem q.front none
          front := above qDefaultSize q.front
          count := q.count - 1 }) := by
      simp [deque, hsome, hlast, hfirst]
    rw [hq]
    refine ⟨rfl, above_lt h.front, hcount, Nat.le_of_succ_le hroom, ?_, fun k hk => ?_⟩
    · show q.rear = ringAt qDefaultSize (above qDefaultSize q.front) (xs.length - 1)
      rw [ringAt_above h.front (by omega), h.rear, Nat.sub_add_cancel hpos]
      rfl
    · show Function.update q.elem q.front none (ringAt qDefaultSize (above qDefaultSize q.front) k) = _
      rw [ringAt_above h.front (by omega)]
      exact hrest k hk

end Specs

end ProducerConsumer
end MultithreadingBible
