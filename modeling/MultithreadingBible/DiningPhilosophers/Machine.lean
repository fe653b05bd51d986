import Mathlib.Algebra.Group.Fin.Basic
import MultithreadingBible.Lib.CondVar

/-!
# Dining philosophers

Philosophers around a table, with a spoon between every two neighbours.  A philosopher takes its
left spoon, for which it waits, and then its right spoon, for which it does not: if it is used, the
philosopher puts back the left one and starts again.

* `Spoon` — a spoon, with the philosopher that has its mutex locked.
* `philosopherGetAccessBothSpoons`, `philEat`, `philosopherReleaseBothSpoons` — the functions, cut
  at their calls of a mutex or of a condition variable.
* `philMachine` — all philosophers run `philosopher_fn`.

`philEat` reads the spoons without a mutex.  Reading the number of no philosopher aborts.
-/

namespace MultithreadingBible
namespace DiningPhilosophers

open Lib

/-- `N_PHILOSOPHER` philosophers, two at least, and as many spoons. -/
abbrev PhilId (n : Nat) := Fin (n + 2)

/-- `spoon_t`, with the owner of its mutex. -/
structure Spoon (n : Nat) where
  isUsed : Bool
  phil : Option (PhilId n)
  mutex : Option (PhilId n)
  deriving DecidableEq

/-- The array of spoons. -/
abbrev Table (n : Nat) := PhilId n → Spoon n

/-- Where a philosopher is. -/
inductive PhilLoc where
  /-- In `philosopher_get_access_both_spoons`, before the mutex of the left spoon, -/
  | lockLeft
  /-- with it, -/
  | testLeft
  /-- in the wait for the left spoon, -/
  | relockLeft
  /-- with the left spoon, before the mutex of the right one, -/
  | lockRight
  /-- with that mutex, -/
  | testRight
  /-- about to put back the left spoon, before its mutex, -/
  | lockLeftAgain
  /-- with both mutexes, -/
  | dropLeft
  /-- and with that of the right spoon. -/
  | unlockRight
  /-- In `phil_eat`, before its assertions and after them. -/
  | eat
  | enjoy
  /-- In `philosopher_release_both_spoons`, before both mutexes, -/
  | releaseLockLeft
  | releaseLockRight
  /-- with both, and with that of the right spoon. -/
  | releaseLeft
  | releaseRight
  deriving DecidableEq

section Code

variable {n : Nat}

/-- Philosophers wait on the condition variables of spoons. -/
abbrev PhilEffect (n : Nat) := Effect (Table n) (PhilId n) PhilLoc

def philGetRightSpoon (phil : PhilId n) : PhilId n :=
  if phil.val = 0 then ⟨n + 2 - 1, by omega⟩ else ⟨phil.val - 1, by omega⟩

def philGetLeftSpoon (phil : PhilId n) : PhilId n := phil

/-- Another owner of a mutex. -/
def setMutex (m : Table n) (o : PhilId n) (owner : Option (PhilId n)) : Table n :=
  Function.update m o { m o with mutex := owner }

/-- `is_used` and `phil` of a spoon. -/
def setSpoon (m : Table n) (o : PhilId n) (isUsed : Bool) (phil : Option (PhilId n)) : Table n :=
  Function.update m o { m o with isUsed := isUsed, phil := phil }

/-- `pthread_mutex_lock` -/
def mutexLock (phil o : PhilId n) (m : Table n) (l : PhilLoc) : PhilEffect n :=
  match (m o).mutex with
  | some _ => .blocked
  | none => .done (setMutex m o (some phil)) [] (.running l)

def philosopherGetAccessBothSpoons (phil : PhilId n) (l : PhilLoc) (m : Table n) : PhilEffect n :=
  let leftSpoon := philGetLeftSpoon phil
  let rightSpoon := philGetRightSpoon phil
  match l with
  | .lockLeft => mutexLock phil leftSpoon m .testLeft
  | .relockLeft => mutexLock phil leftSpoon m .testLeft
  | .testLeft =>
      if (m leftSpoon).isUsed ∧ (m leftSpoon).phil ≠ some phil then
        .done (setMutex m leftSpoon none) [] (.waiting leftSpoon .relockLeft)
      else
        .done (setMutex (setSpoon m leftSpoon true (some phil)) leftSpoon none) []
          (.running .lockRight)
  | .lockRight => mutexLock phil rightSpoon m .testRight
  | .testRight =>
      if (m rightSpoon).isUsed = false then
        .done (setMutex (setSpoon m rightSpoon true (some phil)) rightSpoon none) [] (.running .eat)
      else if (m rightSpoon).phil ≠ some phil then
        -- the number of the other philosopher is printed
        .call (m rightSpoon).phil fun _ => .done m [] (.running .lockLeftAgain)
      else .done (setMutex m rightSpoon none) [] (.running .eat)
  | .lockLeftAgain => mutexLock phil leftSpoon m .dropLeft
  | .dropLeft =>
      if (m leftSpoon).isUsed = true ∧ (m leftSpoon).phil = some phil then
        .done (setMutex (setSpoon m leftSpoon false none) leftSpoon none) [] (.running .unlockRight)
      else .abort
  | .unlockRight => .done (setMutex m rightSpoon none) [] (.running .lockLeft)
  | _ => .blocked

def philEat (phil : PhilId n) (l : PhilLoc) (m : Table n) : PhilEffect n :=
  let leftSpoon := philGetLeftSpoon phil
  let rightSpoon := philGetRightSpoon phil
  match l with
  | .eat =>
      if (m leftSpoon).phil = some phil ∧ (m rightSpoon).phil = some phil ∧
          (m leftSpoon).isUsed = true ∧ (m rightSpoon).isUsed = true then
        .done m [] (.running .enjoy)
      else .abort
  | .enjoy => .done m [] (.running .releaseLockLeft)
  | _ => .blocked

def philosopherReleaseBothSpoons (phil : PhilId n) (l : PhilLoc) (m : Table n) : PhilEffect n :=
  let leftSpoon := philGetLeftSpoon phil
  let rightSpoon := philGetRightSpoon phil
  match l with
  | .releaseLockLeft => mutexLock phil leftSpoon m .releaseLockRight
  | .releaseLockRight => mutexLock phil rightSpoon m .releaseLeft
  | .releaseLeft =>
      if (m leftSpoon).phil = some phil ∧ (m leftSpoon).isUsed = true ∧
          (m rightSpoon).phil = some phil ∧ (m rightSpoon).isUsed = true then
        .done (setMutex (setSpoon m leftSpoon false none) leftSpoon none) [.signal leftSpoon]
          (.running .releaseRight)
      else .abort
  | .releaseRight =>
      .done (setMutex (setSpoon m rightSpoon false none) rightSpoon none) [.signal rightSpoon]
        (.running .lockLeft)
  | _ => .blocked

def philosopherFn (phil : PhilId n) (l : PhilLoc) (_ : Unit) (m : Table n) : PhilEffect n :=
  match l with
  | .eat | .enjoy => philEat phil l m
  | .releaseLockLeft | .releaseLockRight | .releaseLeft | .releaseRight =>
      philosopherReleaseBothSpoons phil l m
  | _ => philosopherGetAccessBothSpoons phil l m

/-- All philosophers. -/
def philProgram (n : Nat) (spurious : Bool) : Program (PhilId n) (Table n) (PhilId n) PhilLoc Unit where
  exec := philosopherFn
  spuriousWakeups := spurious

abbrev PhilConfig (n : Nat) := Config (PhilId n) (Table n) (PhilId n) PhilLoc

/-- The start of `main`. -/
def laidTable (n : Nat) : PhilConfig n :=
  ⟨fun _ => ⟨false, none, none⟩, fun _ => .running .lockLeft⟩

/-- All runs of the philosophers. -/
def philMachine (n : Nat) (spurious : Bool) : Machine (PhilConfig n) (Act (PhilId n) Unit) :=
  (philProgram n spurious).machine fun s => s = laidTable n

end Code

section Ring

variable {n : Nat} {phil : PhilId n}

/-- The right spoon of a philosopher is the left one of its neighbour. -/
theorem philGetRightSpoon_add_one (phil : PhilId n) : philGetRightSpoon (phil + 1) = phil := by
  apply Fin.ext
  unfold philGetRightSpoon
  have hval : (phil + 1).val = if phil.val = n + 1 then 0 else phil.val + 1 := by
    rw [Fin.val_add_one]
    simp [Fin.ext_iff]
  have hlt := phil.isLt
  split
  · next hzero =>
    rw [hval] at hzero
    split at hzero
    · next hlast =>
      show n + 2 - 1 = phil.val
      omega
    · omega
  · next hpos =>
    rw [hval] at hpos
    show (phil + 1).val - 1 = phil.val
    rw [hval]
    split at hpos
    · exact absurd rfl hpos
    · next hlast =>
      rw [if_neg hlast]
      omega

/-- Whose right spoon this is. -/
theorem eq_add_one_of_right {o : PhilId n} (h : philGetRightSpoon phil = o) : phil = o + 1 := by
  have hphil : phil = (phil - 1) + 1 := (sub_add_cancel phil 1).symm
  rw [hphil, philGetRightSpoon_add_one] at h
  rw [hphil, h]

/-- A philosopher has two spoons. -/
theorem right_ne_left (phil : PhilId n) : philGetRightSpoon phil ≠ philGetLeftSpoon phil := by
  intro h
  have heq : phil = phil + 1 := eq_add_one_of_right h
  have hone : (1 : PhilId n) = 0 := left_eq_add.mp heq
  have hval := congrArg Fin.val hone
  simp at hval

/-- What passes from neighbour to neighbour is true of all. -/
theorem forall_of_succ {p : PhilId n → Prop} (h : ∀ i, p i → p (i + 1)) {i : PhilId n} (hi : p i) :
    ∀ j, p j := by
  have hup : ∀ i : PhilId n, p i → ∀ k, ∀ hk : i.val + k < n + 2, p ⟨i.val + k, hk⟩ := by
    intro i hi k
    induction k with
    | zero => exact fun _ => hi
    | succ k ih =>
        intro hk
        have hlt : i.val + k < n + 2 := by omega
        have hnext := h _ (ih hlt)
        have heq : (⟨i.val + k, hlt⟩ : PhilId n) + 1 = ⟨i.val + (k + 1), hk⟩ := by
          apply Fin.ext
          rw [Fin.val_add_one_of_lt]
          · rfl
          · rw [Fin.lt_def]
            show i.val + k < n + 1
            omega
        rwa [heq] at hnext
  -- up to the last one, and on from the first one
  have hlast : p (Fin.last (n + 1)) := by
    have hlt := i.isLt
    have hp := hup i hi (n + 1 - i.val) (by omega)
    have heq : (⟨i.val + (n + 1 - i.val), by omega⟩ : PhilId n) = Fin.last (n + 1) := by
      apply Fin.ext
      show i.val + (n + 1 - i.val) = n + 1
      omega
    rwa [heq] at hp
  have hzero : p 0 := by
    have hnext := h _ hlast
    rwa [Fin.last_add_one] at hnext
  intro j
  have hj := hup 0 hzero j.val (by simp)
  have heq : (⟨(0 : PhilId n).val + j.val, by simp⟩ : PhilId n) = j := by
    apply Fin.ext
    simp
  rwa [heq] at hj

end Ring

end DiningPhilosophers
end MultithreadingBible
