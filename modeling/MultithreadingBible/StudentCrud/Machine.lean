import MultithreadingBible.Lib.CondVar
import MultithreadingBible.StudentCrud.StudentList

/-!
# Threads that read, update, create and delete students

Any number of threads of the four kinds, each in its endless loop, over any roll numbers.  One step of a
thread is one call: of a lock, of the list, or of a reference count.

* `Crud` — the list and the students, and who brought which count to zero and destroyed which student.
* `readerFn`, `updateFn`, `createFn`, `deleteFn` — the code of the threads.
* `crudMachine` — all interleavings, from the empty list.

Reading a student that is not allocated, and unlocking a lock that is not held, count as failed
assertions.
-/

namespace MultithreadingBible
namespace StudentCrud

open Lib

inductive ThType where
  | readerTh
  | updateTh
  | createTh
  | deleteTh
  deriving DecidableEq

/-- Where a thread is. -/
inductive CrudLoc where
  /-- Before the lock of the list. -/
  | idle
  /-- A reader or an updater, with the list locked for reading: before the lookup, -/
  | lookup (rollNo : UInt32)
  /-- after it found nothing, -/
  | unlockRead
  /-- or a student, before it counts itself, -/
  | use (o : Nat)
  /-- before it locks the student, -/
  | lockStudent (o : Nat)
  /-- and before it unlocks the list. -/
  | unlockList (write : Bool) (o : Nat)
  /-- A reader or an updater, with the student locked. -/
  | work (write : Bool) (o : Nat)
  | unlockStudent (write : Bool) (o : Nat)
  /-- A thread that is done with a student, before it counts itself out. -/
  | done (o : Nat)
  /-- A thread that brought the count to zero. -/
  | destroy (o : Nat)
  /-- A creator, with the list locked for writing. -/
  | createLookup (rollNo : UInt32)
  | malloc (rollNo : UInt32)
  | insert (o : Nat)
  | countIn (o : Nat)
  /-- A creator or a deleter that is done with the list. -/
  | unlockWrite
  /-- A deleter, with the list locked for writing. -/
  | remove (rollNo : UInt32)
  | useRemoved (o : Nat)
  | countOut (o : Nat)
  | unlockRemoved (o : Nat)
  deriving DecidableEq

/-- The memory of the program, and two logs of students and threads. -/
structure Crud (τ : Type*) where
  students : Students
  /-- The address of the next student. -/
  next : Nat
  studLst : StudLst
  /-- Who brought the count of which student to zero. -/
  zeroed : List (Nat × τ)
  destroyed : List (Nat × τ)

abbrev CrudEffect (τ : Type*) := Effect (Crud τ) Empty CrudLoc

/-- The memory at the start of `main`. -/
def newCrud (τ : Type*) : Crud τ := ⟨fun _ => none, 0, ⟨[], 0, .free⟩, [], []⟩

section Code

variable {τ : Type*}

/-- Another lock of the list. -/
def Crud.setLock (m : Crud τ) (lk : RwLock) : Crud τ :=
  { m with studLst := { m.studLst with rwLock := lk } }

/-- Another value of a student. -/
def Crud.setStudent (m : Crud τ) (o : Nat) (stud : Option Student) : Crud τ :=
  { m with students := Function.update m.students o stud }

@[simp] theorem Crud.students_setStudent (m : Crud τ) (o : Nat) (stud : Option Student) :
    (m.setStudent o stud).students = Function.update m.students o stud := rfl

@[simp] theorem Crud.studLst_setStudent (m : Crud τ) (o : Nat) (stud : Option Student) :
    (m.setStudent o stud).studLst = m.studLst := rfl

/-- The list is unlocked. -/
def unlockStudLst (m : Crud τ) (l : CrudLoc) : CrudEffect τ :=
  .call m.studLst.rwLock.unlock fun lk => .done (m.setLock lk) [] (.running l)

/-- The list is locked, if it is free. -/
def lockStudLst (write : Bool) (m : Crud τ) (l : CrudLoc) : CrudEffect τ :=
  match m.studLst.rwLock.lock write with
  | none => .blocked
  | some lk => .done (m.setLock lk) [] (.running l)

/-- A student changes, if it is allocated. -/
def onStudent (m : Crud τ) (o : Nat) (f : Student → Student) (l : CrudLoc) : CrudEffect τ :=
  .call (m.students o) fun stud => .done (m.setStudent o (some (f stud))) [] (.running l)

/-- The end of each loop: a thread is done with a student, and destroys it if it was the last one. -/
def doneWithStudent (t : τ) (l : CrudLoc) (m : Crud τ) : CrudEffect τ :=
  match l with
  | .done o =>
      .call (m.students o) fun stud =>
        .call (threadUsingObjectDone stud) fun (zero, stud) =>
          let m := m.setStudent o (some stud)
          if zero then
            .done { m with zeroed := m.zeroed ++ [(o, t)] } [] (.running (.destroy o))
          else .done m [] (.running .idle)
  | .destroy o =>
      .call (studentDestroy m.students o) fun students =>
        .done { m with students := students, destroyed := m.destroyed ++ [(o, t)] } []
          (.running .idle)
  | _ => .blocked

/-- What `update_fn` makes of a student. -/
def updateStudent (stud : Student) : Student :=
  { stud with totalMarks := (stud.totalMarks + 5) % 2 ^ 32 % 100 }

/-- The loop of `reader_fn` and of `update_fn`, which locks the student for writing. -/
def accessFn (write : Bool) (t : τ) (l : CrudLoc) (rollNo : UInt32) (m : Crud τ) : CrudEffect τ :=
  match l with
  | .idle => lockStudLst false m (.lookup rollNo)
  | .lookup rollNo =>
      .call (studentLstLookup m.students rollNo m.studLst.lst) fun found =>
        match found with
        | none => .done m [] (.running .unlockRead)
        | some o => .done m [] (.running (.use o))
  | .unlockRead => unlockStudLst m .idle
  | .use o => onStudent m o threadUsingObject (.lockStudent o)
  | .lockStudent o =>
      .call (m.students o) fun stud =>
        match stud.rwLock.lock write with
        | none => .blocked
        | some lk => onStudent m o (fun stud => { stud with rwLock := lk }) (.unlockList write o)
  | .unlockList write o => unlockStudLst m (.work write o)
  | .work write o =>
      onStudent m o (fun stud => if write then updateStudent stud else stud)
        (.unlockStudent write o)
  | .unlockStudent _ o =>
      .call (m.students o) fun stud =>
        .call stud.rwLock.unlock fun lk =>
          onStudent m o (fun stud => { stud with rwLock := lk }) (.done o)
  | l => doneWithStudent t l m

def readerFn (t : τ) (l : CrudLoc) (rollNo : UInt32) (m : Crud τ) : CrudEffect τ :=
  accessFn false t l rollNo m

def updateFn (t : τ) (l : CrudLoc) (rollNo : UInt32) (m : Crud τ) : CrudEffect τ :=
  accessFn true t l rollNo m

def createFn (l : CrudLoc) (rollNo : UInt32) (m : Crud τ) : CrudEffect τ :=
  match l with
  | .idle => lockStudLst true m (.createLookup rollNo)
  | .createLookup rollNo =>
      .call (studentLstLookup m.students rollNo m.studLst.lst) fun found =>
        match found with
        | some _ => .done m [] (.running .unlockWrite)
        | none => .done m [] (.running (.malloc rollNo))
  | .malloc rollNo =>
      .done
        { m.setStudent m.next (some (studentMalloc rollNo)) with next := m.next + 1 } []
        (.running (.insert m.next))
  | .insert o =>
      .call (studentLstInsert m.students m.studLst o) fun (inserted, studLst) =>
        if inserted then .done { m with studLst := studLst } [] (.running (.countIn o)) else .abort
  | .countIn o => onStudent m o refCountInc .unlockWrite
  | .unlockWrite => unlockStudLst m .idle
  | _ => .blocked

def deleteFn (t : τ) (l : CrudLoc) (rollNo : UInt32) (m : Crud τ) : CrudEffect τ :=
  match l with
  | .idle => lockStudLst true m (.remove rollNo)
  | .remove rollNo =>
      .call (studentLstRemove m.students m.studLst rollNo) fun (removed, studLst) =>
        match removed with
        | none => .done { m with studLst := studLst } [] (.running .unlockWrite)
        | some o => .done { m with studLst := studLst } [] (.running (.useRemoved o))
  | .unlockWrite => unlockStudLst m .idle
  | .useRemoved o => onStudent m o threadUsingObject (.countOut o)
  | .countOut o =>
      .call (m.students o) fun stud =>
        .call (refCountDec stud) fun (zero, stud) =>
          if zero then .abort else onStudent m o (fun _ => stud) (.unlockRemoved o)
  | .unlockRemoved o => unlockStudLst m (.done o)
  | l => doneWithStudent t l m

end Code

section Machine

variable {τ : Type*}

/-- What a thread does next. -/
def crudExec (kind : τ → ThType) (t : τ) (l : CrudLoc) (rollNo : UInt32) (m : Crud τ) :
    CrudEffect τ :=
  match kind t with
  | .readerTh => readerFn t l rollNo m
  | .updateTh => updateFn t l rollNo m
  | .createTh => createFn l rollNo m
  | .deleteTh => deleteFn t l rollNo m

/-- The threads of `main`, any number of each kind. -/
def crudProgram (kind : τ → ThType) : Program τ (Crud τ) Empty CrudLoc UInt32 where
  exec := crudExec kind
  spuriousWakeups := false

abbrev CrudConfig (τ : Type*) := Config τ (Crud τ) Empty CrudLoc

/-- The list is empty, and all threads are at the top of their loops. -/
def freshCrud (τ : Type*) : CrudConfig τ := ⟨newCrud τ, fun _ => .running .idle⟩

/-- All runs of the program. -/
def crudMachine [DecidableEq τ] [Fintype τ] (kind : τ → ThType) :
    Machine (CrudConfig τ) (Act τ UInt32) :=
  (crudProgram kind).machine fun s => s = freshCrud τ

end Machine

end StudentCrud
end MultithreadingBible
