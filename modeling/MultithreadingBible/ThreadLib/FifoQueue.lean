import MultithreadingBible.Lib.Ring

/-!
# `Fifo_Queue`

A queue of pointers in an array that is used as a ring.  It is filled downwards: the oldest element is
at `front`, the newest at `rear`.  A queue made for random access is only used through
`Fifo_insert_or_replace_at_index`, the others only through `Fifo_enqueue` and `Fifo_deque`; to do
otherwise fails an assertion, which is `none` here.  A null pointer is `none` too.

* `FifoQueue.Holds` — the elements of a queue, oldest first.
* `fifoEnqueue_spec`, `fifoDeque_spec` — the operations on them.
-/

namespace MultithreadingBible
namespace ThreadLib

open Lib

structure FifoQueue (α : Type*) where
  elem : Nat → Option α
  front : Nat
  rear : Nat
  count : Nat
  size : Nat
  randomAccess : Bool

variable {α : Type*}

def fifoInitQ (size : Nat) (randomAccess : Bool) : FifoQueue α where
  elem _ := none
  front := size - 1
  rear := size - 1
  count := 0
  size := size
  randomAccess := randomAccess

def isQueueEmpty (q : FifoQueue α) : Bool := q.count == 0

def isQueueFull (q : FifoQueue α) : Bool := q.count == q.size

def fifoEnqueue (q : FifoQueue α) (ptr : Option α) : Option (Bool × FifoQueue α) :=
  if q.randomAccess then none
  else if ptr.isNone then some (false, q)
  else if isQueueFull q then some (false, q)
  else if isQueueEmpty q then
    some (true, { q with elem := Function.update q.elem q.rear ptr, count := q.count + 1 })
  else
    let rear := below q.size q.rear
    some (true,
      { q with rear := rear, elem := Function.update q.elem rear ptr, count := q.count + 1 })

def fifoDeque (q : FifoQueue α) : Option (Option α × FifoQueue α) :=
  if q.randomAccess then none
  else if isQueueEmpty q then some (none, q)
  else
    let elem := q.elem q.front
    let q := { q with elem := Function.update q.elem q.front none }
    if q.front = q.rear then some (elem, { q with count := q.count - 1 })
    else some (elem, { q with front := below q.size q.front, count := q.count - 1 })

def fifoInsertOrReplaceAtIndex (q : FifoQueue α) (newData : Option α) (index : Nat) :
    Option (Option α × FifoQueue α) :=
  if !q.randomAccess then none
  else
    let ptr := q.elem index
    let q := { q with elem := Function.update q.elem index newData }
    if ptr.isNone && newData.isSome then some (ptr, { q with count := q.count + 1 })
    else if ptr.isSome && newData.isNone then some (ptr, { q with count := q.count - 1 })
    else some (ptr, q)

/-- The queue holds `xs`, oldest first. -/
structure FifoQueue.Holds (q : FifoQueue α) (xs : List α) : Prop where
  ordered : q.randomAccess = false
  front : q.front < q.size
  count : q.count = xs.length
  room : xs.length ≤ q.size
  rear : q.rear = (below q.size)^[xs.length - 1] q.front
  elem : ∀ k (hk : k < xs.length), q.elem ((below q.size)^[k] q.front) = some xs[k]

section Specs

variable {q : FifoQueue α} {xs : List α} {x : α}

theorem holds_fifoInitQ {size : Nat} (hsize : 0 < size) :
    (fifoInitQ size false : FifoQueue α).Holds [] := by
  refine ⟨rfl, Nat.sub_lt hsize Nat.one_pos, rfl, Nat.zero_le _, rfl, fun k hk => ?_⟩
  simp at hk

theorem isQueueFull_iff (h : q.Holds xs) : isQueueFull q = true ↔ xs.length = q.size := by
  unfold isQueueFull
  rw [h.count, beq_iff_eq]

theorem isQueueEmpty_iff (h : q.Holds xs) : isQueueEmpty q = true ↔ xs = [] := by
  unfold isQueueEmpty
  rw [h.count, beq_iff_eq, List.length_eq_zero_iff]

/-- A new element goes into the slot below those of the others. -/
theorem fifoEnqueue_eq (h : q.Holds xs) (hnotfull : isQueueFull q = false) (x : α) :
    fifoEnqueue q (some x) = some (true,
      { q with
        rear := (below q.size)^[xs.length] q.front
        elem := Function.update q.elem ((below q.size)^[xs.length] q.front) (some x)
        count := xs.length + 1 }) := by
  cases hempty : isQueueEmpty q with
  | true =>
      have hnil := (isQueueEmpty_iff h).mp hempty
      subst hnil
      have hrear : q.rear = q.front := h.rear
      simp [fifoEnqueue, h.ordered, hnotfull, hempty, hrear, h.count]
  | false =>
      have hpos : 0 < xs.length := by
        rw [List.length_pos_iff, ne_eq, ← isQueueEmpty_iff h, hempty]
        exact Bool.false_ne_true
      have hrear : below q.size q.rear = (below q.size)^[xs.length] q.front := by
        rw [h.rear, ← Function.iterate_succ_apply' (below q.size), Nat.succ_eq_add_one,
          Nat.sub_one_add_one (by omega)]
      simp [fifoEnqueue, h.ordered, hnotfull, hempty, hrear, h.count]

theorem FifoQueue.Holds.lt_of_not_full (h : q.Holds xs) (hnotfull : isQueueFull q = false) :
    xs.length < q.size := by
  have hne : xs.length ≠ q.size := by
    rw [ne_eq, ← isQueueFull_iff h, hnotfull]
    exact Bool.false_ne_true
  have hle := h.room
  omega

/-- A queue that is not full takes one more element, at its end. -/
theorem fifoEnqueue_spec (h : q.Holds xs) (hnotfull : isQueueFull q = false) (x : α) :
    ∃ q', fifoEnqueue q (some x) = some (true, q') ∧ q'.Holds (xs ++ [x]) ∧ q'.size = q.size := by
  have hroom := h.lt_of_not_full hnotfull
  refine ⟨_, fifoEnqueue_eq h hnotfull x, ⟨h.ordered, h.front, ?_, ?_, ?_, fun k hk => ?_⟩, rfl⟩
  · rw [List.length_append]
    rfl
  · rw [List.length_append]
    exact hroom
  · rw [List.length_append]
    rfl
  · show Function.update q.elem ((below q.size)^[xs.length] q.front) (some x)
      ((below q.size)^[k] q.front) = _
    rw [List.length_append] at hk
    have hk' : k < xs.length + 1 := hk
    by_cases hlast : k = xs.length
    · subst hlast
      rw [Function.update_self, List.getElem_concat_length rfl]
    · have hlt : k < xs.length := by omega
      rw [Function.update_of_ne, h.elem k hlt, List.getElem_append_left hlt]
      rw [ne_eq, below_iterate_inj h.front (by omega) (by omega)]
      exact hlast

theorem fifoDeque_nil (h : q.Holds []) : fifoDeque q = some (none, q) := by
  have hempty := (isQueueEmpty_iff h).mpr rfl
  simp [fifoDeque, h.ordered, hempty]

/-- The front slot is emptied; the last element leaves the front where it is. -/
theorem fifoDeque_eq (h : q.Holds (x :: xs)) :
    fifoDeque q = some (some x,
      { q with
        elem := Function.update q.elem q.front none
        front := if xs = [] then q.front else below q.size q.front
        count := xs.length }) := by
  have hsome : isQueueEmpty q = false := by
    rw [Bool.eq_false_iff, ne_eq, isQueueEmpty_iff h]
    exact List.cons_ne_nil x xs
  have hfirst : q.elem q.front = some x := h.elem 0 (Nat.succ_pos _)
  have hcount : q.count - 1 = xs.length := by
    rw [h.count]
    rfl
  have hroom := h.room
  rw [List.length_cons] at hroom
  by_cases hlast : q.front = q.rear
  · have hnil : xs = [] := by
      have hrear := h.rear
      rw [← hlast] at hrear
      have hinj := (below_iterate_inj h.front (j := 0) (k := xs.length) (by omega)
        (by omega)).mp hrear
      exact List.length_eq_zero_iff.mp hinj.symm
    simp [fifoDeque, h.ordered, hsome, hlast, ← hfirst, hnil, hcount]
  · have hcons : xs ≠ [] := by
      intro hnil
      apply hlast
      rw [h.rear, hnil]
      rfl
    simp [fifoDeque, h.ordered, hsome, hlast, hfirst, hcons, hcount]

/-- The oldest element leaves the queue. -/
theorem fifoDeque_cons (h : q.Holds (x :: xs)) :
    ∃ q', fifoDeque q = some (some x, q') ∧ q'.Holds xs ∧ q'.size = q.size := by
  have hroom := h.room
  rw [List.length_cons] at hroom
  -- the cell that is emptied holds none of the others
  have hrest : ∀ k (hk : k < xs.length),
      Function.update q.elem q.front none ((below q.size)^[k + 1] q.front) = some xs[k] := by
    intro k hk
    rw [Function.update_of_ne, h.elem (k + 1) (Nat.succ_lt_succ hk)]
    · rfl
    · intro heq
      have hzero := (below_iterate_inj h.front (j := k + 1) (k := 0) (by omega) (by omega)).mp heq
      omega
  refine ⟨_, fifoDeque_eq h, ?_, rfl⟩
  by_cases hnil : xs = []
  · subst hnil
    exact ⟨h.ordered, h.front, rfl, Nat.zero_le _, h.rear, fun k hk => absurd hk (Nat.not_lt_zero k)⟩
  · have hpos : 0 < xs.length := List.length_pos_iff.mpr hnil
    rw [if_neg hnil]
    refine ⟨h.ordered, below_lt (by omega) h.front, rfl, Nat.le_of_succ_le hroom, ?_, hrest⟩
    show q.rear = (below q.size)^[xs.length - 1] (below q.size q.front)
    rw [← Function.iterate_succ_apply, h.rear, List.length_cons]
    congr 1
    omega

/-- An element is put into an empty cell of a queue made for random access. -/
theorem fifoInsert_some {index : Nat} (hrandom : q.randomAccess = true)
    (hnone : q.elem index = none) (x : α) :
    fifoInsertOrReplaceAtIndex q (some x) index = some (none,
      { q with elem := Function.update q.elem index (some x), count := q.count + 1 }) := by
  simp [fifoInsertOrReplaceAtIndex, hrandom, hnone]

/-- An element is taken out of its cell. -/
theorem fifoInsert_none {index : Nat} (hrandom : q.randomAccess = true)
    (hsome : q.elem index = some x) :
    fifoInsertOrReplaceAtIndex q none index = some (some x,
      { q with elem := Function.update q.elem index none, count := q.count - 1 }) := by
  simp [fifoInsertOrReplaceAtIndex, hrandom, hsome]

/-- What comes back was in the cell. -/
theorem elem_of_fifoInsert {newData old : Option α} {index : Nat} {q' : FifoQueue α}
    (h : fifoInsertOrReplaceAtIndex q newData index = some (old, q')) : q.elem index = old := by
  unfold fifoInsertOrReplaceAtIndex at h
  dsimp only at h
  split at h
  · cases h
  · split at h
    · exact congrArg Prod.fst (Option.some.inj h)
    · split at h <;> exact congrArg Prod.fst (Option.some.inj h)

end Specs

end ThreadLib
end MultithreadingBible
