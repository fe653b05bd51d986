import Mathlib.Logic.Function.Basic
import MultithreadingBible.Lib.Counter
import MultithreadingBible.Lib.RwLock

/-!
# The list of students

Student objects with their reference counts, and the list that holds them.  An object is known by its
address; addresses are not used again.

* `Student`, `StudLst` — the objects and the list, whose length is kept in a counter beside it.
* `refCountInc`, `refCountDec` — the reference count, of 32 bits.
* `studentLstLookup`, `studentLstInsert`, `studentLstRemove` — the list functions, which fail when they
  read an object that is not allocated.
-/

namespace MultithreadingBible
namespace StudentCrud

open Lib

structure Student where
  rollNo : UInt32
  totalMarks : Nat
  refCount : Nat
  rwLock : RwLock
  deriving DecidableEq

/-- The allocated students. -/
abbrev Students := Nat → Option Student

/-- `stud_lst_t`, with the addresses in the list from its head on. -/
structure StudLst where
  lst : List Nat
  nodeCount : Nat
  rwLock : RwLock

def refCountInc (stud : Student) : Student := { stud with refCount := countUp 32 stud.refCount }

/-- `ref_count_dec`, which answers whether the count became zero. -/
def refCountDec (stud : Student) : Option (Bool × Student) :=
  if stud.refCount = 0 then none
  else
    some (countDown 32 stud.refCount == 0, { stud with refCount := countDown 32 stud.refCount })

def threadUsingObject (stud : Student) : Student := refCountInc stud

def threadUsingObjectDone (stud : Student) : Option (Bool × Student) := refCountDec stud

def studentMalloc (rollNo : UInt32) : Student := ⟨rollNo, 0, 0, .free⟩

/-- `student_destroy`, with the assertion of `ref_count_destroy`.  The lock must be free. -/
def studentDestroy (students : Students) (o : Nat) : Option Students :=
  (students o).bind fun stud =>
    if stud.refCount = 0 ∧ stud.rwLock = .free then some (Function.update students o none) else none

def studentLstLookup (students : Students) (rollNo : UInt32) : List Nat → Option (Option Nat)
  | [] => some none
  | o :: os =>
      (students o).bind fun stud =>
        if stud.rollNo = rollNo then some (some o) else studentLstLookup students rollNo os

/-- `singly_ll_get_node_by_data_ptr`, which looks at as many nodes as the counter says. -/
def singlyLlGetNodeByDataPtr (l : StudLst) (o : Nat) : Bool := decide (o ∈ l.lst.take l.nodeCount)

def singlyLlAddNodeByVal (l : StudLst) (o : Nat) : StudLst :=
  if singlyLlGetNodeByDataPtr l o then l
  else { l with lst := o :: l.lst, nodeCount := countUp 32 l.nodeCount }

def singlyLlDeleteNodeByDataPtr (l : StudLst) (o : Nat) : StudLst :=
  if singlyLlGetNodeByDataPtr l o then
    { l with lst := l.lst.erase o, nodeCount := countDown 32 l.nodeCount }
  else l

def studentLstInsert (students : Students) (l : StudLst) (o : Nat) : Option (Bool × StudLst) :=
  (students o).bind fun stud =>
    (studentLstLookup students stud.rollNo l.lst).map fun found =>
      if found.isSome then (false, l) else (true, singlyLlAddNodeByVal l o)

def studentLstRemove (students : Students) (l : StudLst) (rollNo : UInt32) :
    Option (Option Nat × StudLst) :=
  (studentLstLookup students rollNo l.lst).map fun found =>
    match found with
    | none => (none, l)
    | some o => (some o, singlyLlDeleteNodeByDataPtr l o)

section Lookup

variable {students : Students} {l : StudLst}

/-- No student of the list has this roll number. -/
def Absent (students : Students) (os : List Nat) (rollNo : UInt32) : Prop :=
  ∀ o ∈ os, ∀ stud, students o = some stud → stud.rollNo ≠ rollNo

/-- A lookup among allocated students finds one with the roll number if there is one. -/
theorem studentLstLookup_spec (rollNo : UInt32) {os : List Nat}
    (halloc : ∀ o ∈ os, (students o).isSome = true) :
    (studentLstLookup students rollNo os = some none ∧ Absent students os rollNo) ∨
      ∃ o stud, studentLstLookup students rollNo os = some (some o) ∧ o ∈ os ∧
        students o = some stud ∧ stud.rollNo = rollNo := by
  induction os with
  | nil =>
      refine .inl ⟨rfl, ?_⟩
      intro o ho
      cases ho
  | cons o os ih =>
      obtain ⟨stud, hstud⟩ := Option.isSome_iff_exists.mp (halloc o List.mem_cons_self)
      by_cases hroll : stud.rollNo = rollNo
      · refine .inr ⟨o, stud, ?_, List.mem_cons_self, hstud, hroll⟩
        simp [studentLstLookup, hstud, hroll]
      · have hnext : studentLstLookup students rollNo (o :: os) =
            studentLstLookup students rollNo os := by
          simp [studentLstLookup, hstud, hroll]
        rw [hnext]
        rcases ih fun o' ho' => halloc o' (List.mem_cons_of_mem _ ho') with
          ⟨hnone, habsent⟩ | ⟨o', stud', hfound, ho', hstud', hroll'⟩
        · refine .inl ⟨hnone, ?_⟩
          intro o' ho' stud' hstud'
          rcases List.mem_cons.mp ho' with rfl | ho'
          · rw [hstud] at hstud'
            cases hstud'
            exact hroll
          · exact habsent o' ho' stud' hstud'
        · exact .inr ⟨o', stud', hfound, List.mem_cons_of_mem _ ho', hstud', hroll'⟩

theorem not_singlyLlGetNodeByDataPtr {o : Nat} (ho : o ∉ l.lst) :
    singlyLlGetNodeByDataPtr l o = false := by
  unfold singlyLlGetNodeByDataPtr
  rw [decide_eq_false_iff_not]
  exact fun hmem => ho (List.mem_of_mem_take hmem)

/-- A new student of a new roll number goes to the head of the list. -/
theorem studentLstInsert_eq {o : Nat} {stud : Student} (hstud : students o = some stud)
    (halloc : ∀ o ∈ l.lst, (students o).isSome = true) (habsent : Absent students l.lst stud.rollNo)
    (ho : o ∉ l.lst) :
    studentLstInsert students l o =
      some (true, { l with lst := o :: l.lst, nodeCount := countUp 32 l.nodeCount }) := by
  rcases studentLstLookup_spec stud.rollNo halloc with
    ⟨hnone, -⟩ | ⟨o', stud', -, ho', hstud', hroll⟩
  · simp [studentLstInsert, hstud, hnone, singlyLlAddNodeByVal, not_singlyLlGetNodeByDataPtr ho]
  · exact absurd hroll (habsent o' ho' stud' hstud')

/-- A student leaves the list, as long as the counter counts all of the list. -/
theorem studentLstRemove_spec (rollNo : UInt32) (halloc : ∀ o ∈ l.lst, (students o).isSome = true)
    (hcount : l.nodeCount = l.lst.length) :
    studentLstRemove students l rollNo = some (none, l) ∨
      ∃ o, o ∈ l.lst ∧ studentLstRemove students l rollNo =
        some (some o, { l with lst := l.lst.erase o, nodeCount := countDown 32 l.nodeCount }) := by
  rcases studentLstLookup_spec rollNo halloc with ⟨hnone, -⟩ | ⟨o, stud, hfound, ho, -, -⟩
  · exact .inl (by simp [studentLstRemove, hnone])
  · refine .inr ⟨o, ho, ?_⟩
    have hget : singlyLlGetNodeByDataPtr l o = true := by
      simpa [singlyLlGetNodeByDataPtr, hcount] using ho
    simp [studentLstRemove, hfound, singlyLlDeleteNodeByDataPtr, hget]

end Lookup

end StudentCrud
end MultithreadingBible
