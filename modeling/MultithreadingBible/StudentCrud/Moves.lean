import MultithreadingBible.Lib.RefCounted
import MultithreadingBible.StudentCrud.Machine

/-!
# What the threads can do

* `CrudLoc.holds`, `CrudLoc.holdsStudent`, `CrudLoc.role` — what a thread has at each of its locations.
* `Ready` — what the code relies on at each location, besides that locks may be held.
* `CrudMove` — everything a piece of code can do where it finds what it relies on.
-/

namespace MultithreadingBible
namespace StudentCrud

open Lib RefCounted

/-- Whether a thread has the list locked for writing, or for reading. -/
def CrudLoc.holds (write : Bool) : CrudLoc → Bool
  | .lookup _ | .unlockRead | .use _ | .lockStudent _ | .unlockList _ _ => !write
  | .createLookup _ | .malloc _ | .insert _ | .countIn _ | .unlockWrite | .remove _
  | .useRemoved _ | .countOut _ | .unlockRemoved _ => write
  | _ => false

/-- Whether a thread has the student `o` locked for writing, or for reading. -/
def CrudLoc.holdsStudent (write : Bool) (o : Nat) : CrudLoc → Bool
  | .unlockList w o' | .work w o' | .unlockStudent w o' => decide (o' = o) && write == w
  | _ => false

/-- The student a thread has taken, and what it is to it. -/
def CrudLoc.student : CrudLoc → Option (Nat × Role)
  | .lockStudent o | .unlockList _ o | .work _ o | .unlockStudent _ o | .done o
  | .unlockRemoved o => some (o, .user)
  | .useRemoved o => some (o, .removed)
  | .countOut o => some (o, .dropping)
  | .insert o => some (o, .born)
  | .countIn o => some (o, .inserted)
  | .destroy o => some (o, .dying)
  | _ => none

/-- What a thread is to the student `o`. -/
def CrudLoc.role (o : Nat) (l : CrudLoc) : Option Role :=
  match l.student with
  | some (o', r) => if o' = o then some r else none
  | none => none

variable {τ : Type*}

/-- What the code relies on at each location. -/
def Ready (m : Crud τ) : CrudLoc → Prop
  | .lookup _ | .createLookup _ => ∀ o ∈ m.studLst.lst, (m.students o).isSome = true
  | .remove _ =>
      (∀ o ∈ m.studLst.lst, (m.students o).isSome = true) ∧
        m.studLst.nodeCount = m.studLst.lst.length
  | .unlockRead | .unlockList _ _ | .unlockWrite | .unlockRemoved _ =>
      ∃ lk, m.studLst.rwLock.unlock = some lk
  | .use o | .lockStudent o | .work _ o | .useRemoved o | .countIn o =>
      ∃ stud, m.students o = some stud
  | .unlockStudent _ o => ∃ stud lk, m.students o = some stud ∧ stud.rwLock.unlock = some lk
  | .done o => ∃ stud c, m.students o = some stud ∧ stud.refCount = c + 1
  | .destroy o => ∃ stud, m.students o = some stud ∧ stud.refCount = 0 ∧ stud.rwLock = .free
  | .insert o => ∃ stud, m.students o = some stud ∧ Absent m.students m.studLst.lst stud.rollNo ∧
      o ∉ m.studLst.lst ∧ ∀ o ∈ m.studLst.lst, (m.students o).isSome = true
  | .countOut o => ∃ stud c, m.students o = some stud ∧ stud.refCount = c + 2
  | .idle | .malloc _ => True

/-- How the list is looked at. -/
inductive Looks (m : Crud τ) : CrudLoc → CrudLoc → Prop
  | missing {rollNo : UInt32} : Looks m (.lookup rollNo) .unlockRead
  | found {rollNo : UInt32} {o : Nat} (ho : o ∈ m.studLst.lst) : Looks m (.lookup rollNo) (.use o)
  | exists {rollNo : UInt32} : Looks m (.createLookup rollNo) .unlockWrite
  | absent {rollNo : UInt32} (habsent : Absent m.students m.studLst.lst rollNo) :
      Looks m (.createLookup rollNo) (.malloc rollNo)
  | nothing {rollNo : UInt32} : Looks m (.remove rollNo) .unlockWrite

/-- How the list is locked. -/
inductive Enters : Bool → CrudLoc → Prop
  | lookup {rollNo : UInt32} : Enters false (.lookup rollNo)
  | create {rollNo : UInt32} : Enters true (.createLookup rollNo)
  | remove {rollNo : UInt32} : Enters true (.remove rollNo)

/-- How the list is unlocked. -/
inductive Leaves : CrudLoc → CrudLoc → Prop
  | reader : Leaves .unlockRead .idle
  | work {write : Bool} {o : Nat} : Leaves (.unlockList write o) (.work write o)
  | writer : Leaves .unlockWrite .idle
  | removed {o : Nat} : Leaves (.unlockRemoved o) (.done o)

/-- Everything a piece of code can do. -/
inductive CrudMove (m : Crud τ) : τ → CrudLoc → Crud τ → CrudLoc → Prop
  | enter {t : τ} {write : Bool} {l' : CrudLoc} {lk : RwLock} (hl : Enters write l')
      (hlock : m.studLst.rwLock.lock write = some lk) : CrudMove m t .idle (m.setLock lk) l'
  | leave {t : τ} {l l' : CrudLoc} {lk : RwLock} (hl : Leaves l l')
      (hunlock : m.studLst.rwLock.unlock = some lk) : CrudMove m t l (m.setLock lk) l'
  | look {t : τ} {l l' : CrudLoc} (hl : Looks m l l') : CrudMove m t l m l'
  | use {t : τ} {o : Nat} {stud : Student} (hstud : m.students o = some stud) :
      CrudMove m t (.use o) (m.setStudent o (some (threadUsingObject stud))) (.lockStudent o)
  | lockStudent {t : τ} {write : Bool} {o : Nat} {stud : Student} {lk : RwLock}
      (hstud : m.students o = some stud) (hlock : stud.rwLock.lock write = some lk) :
      CrudMove m t (.lockStudent o) (m.setStudent o (some { stud with rwLock := lk }))
        (.unlockList write o)
  | work {t : τ} {write : Bool} {o : Nat} {stud : Student} (marks : Nat)
      (hstud : m.students o = some stud) :
      CrudMove m t (.work write o) (m.setStudent o (some { stud with totalMarks := marks }))
        (.unlockStudent write o)
  | unlockStudent {t : τ} {write : Bool} {o : Nat} {stud : Student} {lk : RwLock}
      (hstud : m.students o = some stud) (hunlock : stud.rwLock.unlock = some lk) :
      CrudMove m t (.unlockStudent write o) (m.setStudent o (some { stud with rwLock := lk }))
        (.done o)
  | drop {t : τ} {o c : Nat} {stud : Student} (hstud : m.students o = some stud)
      (hcount : stud.refCount = c + 1) (hmore : c ≠ 0) :
      CrudMove m t (.done o) (m.setStudent o (some { stud with refCount := c })) .idle
  | zero {t : τ} {o : Nat} {stud : Student} (hstud : m.students o = some stud)
      (hcount : stud.refCount = 1) :
      CrudMove m t (.done o)
        { m.setStudent o (some { stud with refCount := 0 }) with zeroed := m.zeroed ++ [(o, t)] }
        (.destroy o)
  | destroy {t : τ} {o : Nat} {stud : Student} (hstud : m.students o = some stud) :
      CrudMove m t (.destroy o)
        { m.setStudent o none with destroyed := m.destroyed ++ [(o, t)] } .idle
  | malloc {t : τ} {rollNo : UInt32} :
      CrudMove m t (.malloc rollNo)
        { m.setStudent m.next (some (studentMalloc rollNo)) with next := m.next + 1 }
        (.insert m.next)
  | insert {t : τ} {o : Nat} {stud : Student} (hstud : m.students o = some stud)
      (habsent : Absent m.students m.studLst.lst stud.rollNo) :
      CrudMove m t (.insert o)
        { m with
          studLst :=
            { m.studLst with lst := o :: m.studLst.lst, nodeCount := countUp 32 m.studLst.nodeCount } }
        (.countIn o)
  | countIn {t : τ} {o : Nat} {stud : Student} (hstud : m.students o = some stud) :
      CrudMove m t (.countIn o) (m.setStudent o (some (refCountInc stud))) .unlockWrite
  | remove {t : τ} {rollNo : UInt32} {o : Nat} (ho : o ∈ m.studLst.lst) :
      CrudMove m t (.remove rollNo)
        { m with
          studLst :=
            { m.studLst with
              lst := m.studLst.lst.erase o
              nodeCount := countDown 32 m.studLst.nodeCount } }
        (.useRemoved o)
  | useRemoved {t : τ} {o : Nat} {stud : Student} (hstud : m.students o = some stud) :
      CrudMove m t (.useRemoved o) (m.setStudent o (some (threadUsingObject stud))) (.countOut o)
  | countOut {t : τ} {o c : Nat} {stud : Student} (hstud : m.students o = some stud)
      (hcount : stud.refCount = c + 2) :
      CrudMove m t (.countOut o) (m.setStudent o (some { stud with refCount := c + 1 }))
        (.unlockRemoved o)

/-- The code waits for a lock, or does one of the moves. -/
def CrudMoves (m : Crud τ) (t : τ) (l : CrudLoc) (effect : CrudEffect τ) : Prop :=
  effect = .blocked ∨ ∃ m' l', effect = .done m' [] (.running l') ∧ CrudMove m t l m' l'

variable {m : Crud τ} {t : τ} {l : CrudLoc}

theorem lockStudLst_moves {write : Bool} {l' : CrudLoc} (hl : Enters write l') :
    CrudMoves m t .idle (lockStudLst write m l') := by
  unfold lockStudLst
  cases hlock : m.studLst.rwLock.lock write with
  | none => exact .inl rfl
  | some lk => exact .inr ⟨_, _, rfl, .enter hl hlock⟩

theorem unlockStudLst_moves {l' : CrudLoc} (hl : Leaves l l')
    (hready : ∃ lk, m.studLst.rwLock.unlock = some lk) : CrudMoves m t l (unlockStudLst m l') := by
  obtain ⟨lk, hunlock⟩ := hready
  rw [unlockStudLst, hunlock]
  exact .inr ⟨_, _, rfl, .leave hl hunlock⟩

theorem doneWithStudent_moves (hready : Ready m l) : CrudMoves m t l (doneWithStudent t l m) := by
  cases l with
  | done o =>
      obtain ⟨stud, c, hstud, hcount⟩ := hready
      have hdown : countDown 32 stud.refCount = c := by
        rw [countDown_eq (by omega)]
        omega
      have hdone : threadUsingObjectDone stud = some (c == 0, { stud with refCount := c }) := by
        rw [threadUsingObjectDone, refCountDec, if_neg (by omega), hdown]
      simp only [doneWithStudent, hstud, hdone, Effect.call]
      by_cases hc : c = 0
      · subst hc
        exact .inr ⟨_, _, rfl, .zero hstud hcount⟩
      · rw [if_neg (by simpa using hc)]
        exact .inr ⟨_, _, rfl, .drop hstud hcount hc⟩
  | destroy o =>
      obtain ⟨stud, hstud, hcount, hfree⟩ := hready
      have hdestroy : studentDestroy m.students o = some (Function.update m.students o none) := by
        simp [studentDestroy, hstud, hcount, hfree]
      simp only [doneWithStudent, hdestroy, Effect.call]
      exact .inr ⟨_, _, rfl, .destroy hstud⟩
  | _ => exact .inl rfl

theorem accessFn_moves (write : Bool) (rollNo : UInt32) (hready : Ready m l) :
    CrudMoves m t l (accessFn write t l rollNo m) := by
  cases l with
  | idle => exact lockStudLst_moves .lookup
  | lookup rollNo =>
      unfold accessFn
      dsimp only
      rcases studentLstLookup_spec rollNo hready with ⟨hnone, -⟩ | ⟨o, -, hfound, ho, -⟩
      · rw [hnone]
        exact .inr ⟨_, _, rfl, .look .missing⟩
      · rw [hfound]
        exact .inr ⟨_, _, rfl, .look (.found ho)⟩
  | unlockRead => exact unlockStudLst_moves .reader hready
  | use o =>
      obtain ⟨stud, hstud⟩ := hready
      unfold accessFn
      simp only [onStudent, hstud]
      exact .inr ⟨_, _, rfl, .use hstud⟩
  | lockStudent o =>
      obtain ⟨stud, hstud⟩ := hready
      unfold accessFn
      simp only [onStudent, hstud, Effect.call]
      cases hlock : stud.rwLock.lock write with
      | none => exact .inl rfl
      | some lk => exact .inr ⟨_, _, rfl, .lockStudent hstud hlock⟩
  | unlockList w o => exact unlockStudLst_moves .work hready
  | work w o =>
      obtain ⟨stud, hstud⟩ := hready
      unfold accessFn
      simp only [onStudent, hstud, Effect.call]
      cases w with
      | false => exact .inr ⟨_, _, rfl, .work stud.totalMarks hstud⟩
      | true => exact .inr ⟨_, _, rfl, .work _ hstud⟩
  | unlockStudent w o =>
      obtain ⟨stud, lk, hstud, hunlock⟩ := hready
      unfold accessFn
      simp only [onStudent, hstud, hunlock, Effect.call]
      exact .inr ⟨_, _, rfl, .unlockStudent hstud hunlock⟩
  | done o => exact doneWithStudent_moves hready
  | destroy o => exact doneWithStudent_moves hready
  | _ => exact .inl rfl

theorem createFn_moves (rollNo : UInt32) (hready : Ready m l) :
    CrudMoves m t l (createFn l rollNo m) := by
  cases l with
  | idle => exact lockStudLst_moves .create
  | createLookup rollNo =>
      unfold createFn
      dsimp only
      rcases studentLstLookup_spec rollNo hready with ⟨hnone, habsent⟩ | ⟨o, -, hfound, -⟩
      · rw [hnone]
        exact .inr ⟨_, _, rfl, .look (.absent habsent)⟩
      · rw [hfound]
        exact .inr ⟨_, _, rfl, .look .exists⟩
  | malloc rollNo => exact .inr ⟨_, _, rfl, .malloc⟩
  | insert o =>
      obtain ⟨stud, hstud, habsent, ho, halloc⟩ := hready
      unfold createFn
      simp only [studentLstInsert_eq hstud halloc habsent ho, Effect.call]
      exact .inr ⟨_, _, rfl, .insert hstud habsent⟩
  | countIn o =>
      obtain ⟨stud, hstud⟩ := hready
      unfold createFn
      simp only [onStudent, hstud]
      exact .inr ⟨_, _, rfl, .countIn hstud⟩
  | unlockWrite => exact unlockStudLst_moves .writer hready
  | _ => exact .inl rfl

theorem deleteFn_moves (rollNo : UInt32) (hready : Ready m l) :
    CrudMoves m t l (deleteFn t l rollNo m) := by
  cases l with
  | idle => exact lockStudLst_moves .remove
  | remove rollNo =>
      unfold deleteFn
      dsimp only
      rcases studentLstRemove_spec rollNo hready.1 hready.2 with hnone | ⟨o, ho, hremoved⟩
      · rw [hnone]
        exact .inr ⟨_, _, rfl, .look .nothing⟩
      · rw [hremoved]
        exact .inr ⟨_, _, rfl, .remove ho⟩
  | unlockWrite => exact unlockStudLst_moves .writer hready
  | useRemoved o =>
      obtain ⟨stud, hstud⟩ := hready
      unfold deleteFn
      simp only [onStudent, hstud]
      exact .inr ⟨_, _, rfl, .useRemoved hstud⟩
  | countOut o =>
      obtain ⟨stud, c, hstud, hcount⟩ := hready
      have hdown : countDown 32 stud.refCount = c + 1 := by
        rw [countDown_eq (by omega)]
        omega
      have hdec : refCountDec stud = some (false, { stud with refCount := c + 1 }) := by
        rw [refCountDec, if_neg (by omega), hdown]
        rfl
      unfold deleteFn
      simp only [onStudent, hstud, hdec, Effect.call]
      exact .inr ⟨_, _, rfl, .countOut hstud hcount⟩
  | unlockRemoved o => exact unlockStudLst_moves .removed hready
  | done o => exact doneWithStudent_moves hready
  | destroy o => exact doneWithStudent_moves hready
  | _ => exact .inl rfl

/-- Where the code finds what it relies on, it does not fail. -/
theorem crudExec_moves (kind : τ → ThType) (rollNo : UInt32) (hready : Ready m l) :
    CrudMoves m t l (crudExec kind t l rollNo m) := by
  unfold crudExec
  cases kind t with
  | readerTh => exact accessFn_moves false rollNo hready
  | updateTh => exact accessFn_moves true rollNo hready
  | createTh => exact createFn_moves rollNo hready
  | deleteTh => exact deleteFn_moves rollNo hready

end StudentCrud
end MultithreadingBible
