import Mathlib.Logic.Function.Basic
import Mathlib.Data.List.Basic

/-!
# The `gluethread` library

An intrusive doubly linked list: every object carries a `glthread_t` cell with a `left` and a
`right` pointer, and a list is a bare cell (its head) followed by the cells of its members.  Cells
live at addresses; a heap maps every address to its cell.  A null pointer is `none`.

The functions below follow `glthread.c`.  The loop of `glthread_priority_insert` and the iteration
macro, which `glthread_add_last` and `delete_glthread_list` use, run on fuel and give `none` when it
is used up, which the representation lemmas rule out for well-formed lists.
-/

namespace MultithreadingBible
namespace GlueThread

structure Glthread (A : Type*) where
  left : Option A
  right : Option A
  deriving DecidableEq

namespace Glthread

variable {A : Type*}

@[ext] theorem ext' {g g' : Glthread A} (hl : g.left = g'.left) (hr : g.right = g'.right) :
    g = g' := by
  cases g; cases g'; simp_all

/-- The cell that is in no list. -/
def null : Glthread A := ⟨none, none⟩

@[simp] theorem null_left : (null : Glthread A).left = none := rfl

@[simp] theorem null_right : (null : Glthread A).right = none := rfl

end Glthread

/-- The cells in memory. -/
abbrev Heap (A : Type*) := A → Glthread A

variable {A : Type*} [DecidableEq A]

/-- `a->left = v` -/
def setLeft (hp : Heap A) (a : A) (v : Option A) : Heap A :=
  Function.update hp a ⟨v, (hp a).right⟩

/-- `a->right = v` -/
def setRight (hp : Heap A) (a : A) (v : Option A) : Heap A :=
  Function.update hp a ⟨(hp a).left, v⟩

def initGlthread (hp : Heap A) (glthread : A) : Heap A :=
  Function.update hp glthread Glthread.null

def isGlthreadListEmpty (hp : Heap A) (glthreadptr : A) : Bool :=
  (hp glthreadptr).right.isNone && (hp glthreadptr).left.isNone

/-- `BASE` and `glthread_get_first_node` -/
def base (hp : Heap A) (glthreadptr : A) : Option A :=
  (hp glthreadptr).right

def glthreadAddNext (hp : Heap A) (currGlthread newGlthread : A) : Heap A :=
  match (hp currGlthread).right with
  | none => setLeft (setRight hp currGlthread (some newGlthread)) newGlthread (some currGlthread)
  | some temp =>
      let hp := setRight hp currGlthread (some newGlthread)
      let hp := setLeft hp newGlthread (some currGlthread)
      let hp := setRight hp newGlthread (some temp)
      setLeft hp temp (some newGlthread)

def glthreadAddBefore (hp : Heap A) (currGlthread newGlthread : A) : Heap A :=
  match (hp currGlthread).left with
  | none =>
      let hp := setLeft hp newGlthread none
      let hp := setRight hp newGlthread (some currGlthread)
      setLeft hp currGlthread (some newGlthread)
  | some temp =>
      let hp := setRight hp temp (some newGlthread)
      let hp := setLeft hp newGlthread (some temp)
      let hp := setRight hp newGlthread (some currGlthread)
      setLeft hp currGlthread (some newGlthread)

def removeGlthread (hp : Heap A) (currGlthread : A) : Heap A :=
  match (hp currGlthread).left, (hp currGlthread).right with
  | none, some r => setRight (setLeft hp r none) currGlthread none
  | none, none => hp
  | some l, none => setLeft (setRight hp l none) currGlthread none
  | some l, some r =>
      let hp := setRight hp l (some r)
      let hp := setLeft hp r (some l)
      let hp := setLeft hp currGlthread none
      setRight hp currGlthread none

def dequeueGlthreadFirst (hp : Heap A) (baseGlthread : A) : Option A × Heap A :=
  match (hp baseGlthread).right with
  | none => (none, hp)
  | some temp => (some temp, removeGlthread hp temp)

/-- The loop of `glthread_priority_insert`: `prev` trails `curr` by one member. -/
def priorityInsertLoop (compFn : A → A → Int) (hp : Heap A) (glthreadHead glthread : A) :
    Nat → Option A → Option A → Option (Heap A)
  | _, none, none => none
  | _, some prev, none => some (glthreadAddNext hp prev glthread)
  | 0, _, some _ => none
  | fuel + 1, prev, some curr =>
      if compFn glthread curr ≠ -1 then
        priorityInsertLoop compFn hp glthreadHead glthread fuel (some curr) (hp curr).right
      else some (glthreadAddNext hp (prev.getD glthreadHead) glthread)

/-- `glthread_priority_insert`.  `compFn` compares the objects the two cells are embedded in. -/
def glthreadPriorityInsert (fuel : Nat) (compFn : A → A → Int) (hp : Heap A)
    (glthreadHead glthread : A) : Option (Heap A) :=
  let hp := initGlthread hp glthread
  match (hp glthreadHead).right with
  | none =>
      -- the list is empty, or (never for a list head) only has a left neighbour
      if isGlthreadListEmpty hp glthreadHead then some (glthreadAddNext hp glthreadHead glthread)
      else priorityInsertLoop compFn hp glthreadHead glthread fuel none none
  | some first =>
      if (hp first).right.isNone then
        -- only one node
        if compFn glthread first = -1 then some (glthreadAddNext hp glthreadHead glthread)
        else some (glthreadAddNext hp first glthread)
      else priorityInsertLoop compFn hp glthreadHead glthread fuel none (some first)

/-- The cells that `ITERATE_GLTHREAD_BEGIN` visits from `curr` on. -/
def iterateGlthread (hp : Heap A) : Nat → Option A → Option (List A)
  | _, none => some []
  | 0, some _ => none
  | fuel + 1, some curr => (iterateGlthread hp fuel (hp curr).right).map (curr :: ·)

/-- `glthread_add_last`: the new cell goes behind the last cell visited, or behind the head. -/
def glthreadAddLast (fuel : Nat) (hp : Heap A) (glthreadHead newGlthread : A) : Option (Heap A) :=
  (iterateGlthread hp fuel (base hp glthreadHead)).map fun visited =>
    glthreadAddNext hp (visited.getLast?.getD glthreadHead) newGlthread

/-- The loop of `delete_glthread_list`: the macro reads the right neighbour before the body clears it. -/
def deleteListLoop (hp : Heap A) : Nat → Option A → Option (Heap A)
  | _, none => some hp
  | 0, some _ => none
  | fuel + 1, some glthreadptr =>
      deleteListLoop (removeGlthread hp glthreadptr) fuel (hp glthreadptr).right

def deleteGlthreadList (fuel : Nat) (hp : Heap A) (glthreadHead : A) : Option (Heap A) :=
  deleteListLoop hp fuel (base hp glthreadHead)

end GlueThread
end MultithreadingBible
