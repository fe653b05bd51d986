import MultithreadingBible.StudentCrud.Locks

/-!
# What the reference counts count

* `Room` — no count is about to wrap around.
* `ListOk` — every student is in a phase of its life, the list holds each roll number once, and threads on
  their way to or from the list know what they rely on.  Every step with room keeps this.
-/

namespace MultithreadingBible
namespace StudentCrud

open Lib RefCounted

variable {τ : Type*}

/-- How many threads are what to a student. -/
def roleCount [Fintype τ] (thr : τ → Status Empty CrudLoc) (o : Nat) (r : Role) : Nat :=
  tally thr fun l => if l.role o = some r then 1 else 0

/-- Whether a student is in the list. -/
def listed (m : Crud τ) (o : Nat) : Nat := if o ∈ m.studLst.lst then 1 else 0

/-- The reference count of a student, if it is allocated. -/
def countOf (m : Crud τ) (o : Nat) : Option Nat := (m.students o).map Student.refCount

/-- The roll number that a creator has found to be new. -/
def CrudLoc.newRollNo (students : Students) : CrudLoc → Option UInt32
  | .malloc rollNo => some rollNo
  | .insert o => (students o).map Student.rollNo
  | _ => none

/-- No count is about to wrap around: of references, or of the nodes of the list. -/
def Room (m : Crud τ) : CrudLoc → Prop
  | .use o | .useRemoved o => ∀ stud ∈ m.students o, stud.refCount + 1 < 2 ^ 32
  | .remove _ => m.studLst.lst.length < 2 ^ 32
  | _ => True

instance (m : Crud τ) : DecidablePred (Room m)
  | .use o => inferInstanceAs (Decidable (∀ stud ∈ m.students o, stud.refCount + 1 < 2 ^ 32))
  | .useRemoved o =>
      inferInstanceAs (Decidable (∀ stud ∈ m.students o, stud.refCount + 1 < 2 ^ 32))
  | .remove _ => inferInstanceAs (Decidable (m.studLst.lst.length < 2 ^ 32))
  | .idle | .lookup _ | .unlockRead | .lockStudent _ | .unlockList _ _ | .work _ _
  | .unlockStudent _ _ | .done _ | .destroy _ | .createLookup _ | .malloc _ | .insert _
  | .countIn _ | .unlockWrite | .countOut _ | .unlockRemoved _ => .isTrue trivial

section Moves

variable {m m' : Crud τ} {t : τ} {l l' : CrudLoc}

theorem listed_of_mem {o : Nat} (ho : o ∈ m.studLst.lst) : listed m o = 1 := if_pos ho

theorem listed_of_not_mem {o : Nat} (ho : o ∉ m.studLst.lst) : listed m o = 0 := if_neg ho

theorem countOf_of_some {o : Nat} {stud : Student} (hstud : m.students o = some stud) :
    countOf m o = some stud.refCount := by
  rw [countOf, hstud]
  rfl

theorem countOf_setStudent (m : Crud τ) (o : Nat) (stud : Student) :
    countOf (m.setStudent o (some stud)) o = some stud.refCount := by
  rw [countOf, Crud.students_setStudent, Function.update_self]
  rfl

theorem countOf_setStudent_of_ne (m : Crud τ) {o o' : Nat} (ho : o ≠ o') (stud : Option Student) :
    countOf (m.setStudent o' stud) o = countOf m o := by
  rw [countOf, Crud.students_setStudent, Function.update_of_ne ho, countOf]

theorem isSome_of_countOf {o : Nat} (h : (countOf m o).isSome = true) :
    ∃ stud, m.students o = some stud := by
  rw [countOf, Option.isSome_map] at h
  exact Option.isSome_iff_exists.mp h

/-- A thread that has a student locked uses it. -/
theorem CrudLoc.role_of_holdsStudent {w : Bool} {o : Nat} (h : l.holdsStudent w o = true) :
    l.role o = some .user := by
  cases l with
  | unlockList _ _ | work _ _ | unlockStudent _ _ =>
      simp only [CrudLoc.holdsStudent, Bool.and_eq_true, decide_eq_true_eq] at h
      simp [CrudLoc.role, CrudLoc.student, h.1]
  | _ => cases h

/-- What a thread is to a student tells where it is. -/
theorem CrudLoc.eq_countIn {o : Nat} (h : l.role o = some .inserted) : l = .countIn o := by
  cases l <;> simp [CrudLoc.role, CrudLoc.student] at h
  rw [h]

/-- A thread is nothing to the students it has not taken. -/
theorem CrudLoc.role_of_ne {o o' : Nat} {r : Role} (hl : l.student = some (o', r)) (ho : o ≠ o') :
    l.role o = none := by
  unfold CrudLoc.role
  rw [hl]
  exact if_neg (Ne.symm ho)

theorem CrudLoc.role_self {o : Nat} {r : Role} (hl : l.student = some (o, r)) :
    l.role o = some r := by
  unfold CrudLoc.role
  rw [hl]
  exact if_pos rfl

theorem CrudLoc.role_of_none {o : Nat} (hl : l.student = none) : l.role o = none := by
  unfold CrudLoc.role
  rw [hl]

/-- A thread has taken at most one student. -/
theorem CrudLoc.eq_of_role {o o' : Nat} (h : l.role o ≠ none) (hl : ∀ p ∈ l.student, p.1 = o') :
    o = o' := by
  cases hstudent : l.student with
  | none => exact absurd (CrudLoc.role_of_none hstudent) h
  | some p =>
      by_contra ho
      rw [← hl p hstudent] at ho
      exact h (CrudLoc.role_of_ne hstudent ho)

theorem CrudLoc.ne_of_role {o o' : Nat} {r : Role} (h : l.role o = none) (hl : l.student = some (o', r)) :
    o ≠ o' := by
  rintro rfl
  rw [CrudLoc.role_self hl] at h
  cases h

/-- A step leaves the students alone that its thread has nothing to do with. -/
theorem CrudMove.untouched (h : CrudMove m t l m' l') {o : Nat} (hl : l.role o = none)
    (hl' : l'.role o = none) : listed m' o = listed m o ∧ countOf m' o = countOf m o := by
  cases h with
  | enter _ _ | leave _ _ | look _ => exact ⟨rfl, rfl⟩
  | lockStudent _ _ | use _ | malloc =>
      exact ⟨rfl, countOf_setStudent_of_ne m (CrudLoc.ne_of_role hl' rfl) _⟩
  | work _ _ | unlockStudent _ _ | drop _ _ _ | zero _ _ | destroy _ | countIn _ | useRemoved _
  | countOut _ _ => exact ⟨rfl, countOf_setStudent_of_ne m (CrudLoc.ne_of_role hl rfl) _⟩
  | insert _ _ => exact ⟨by simp [listed, CrudLoc.ne_of_role hl rfl], rfl⟩
  | remove _ => exact ⟨by simp [listed, List.mem_erase_of_ne (CrudLoc.ne_of_role hl' rfl)], rfl⟩

/-- A student that a step has to do with is the one its thread has taken. -/
theorem CrudLoc.eq_of_touched {o o' : Nat} (h : ¬ (l.role o = none ∧ l'.role o = none))
    (hl : ∀ p ∈ l.student, p.1 = o') (hl' : ∀ p ∈ l'.student, p.1 = o') : o = o' := by
  by_cases hrole : l.role o = none
  · exact CrudLoc.eq_of_role (fun hrole' => h ⟨hrole, hrole'⟩) hl'
  · exact CrudLoc.eq_of_role hrole hl

theorem countOf_setStudent_same {o o' : Nat} {stud stud' : Student} (hstud : m.students o' = some stud)
    (hcount : stud'.refCount = stud.refCount) :
    countOf (m.setStudent o' (some stud')) o = countOf m o := by
  by_cases ho : o = o'
  · subst ho
    rw [countOf_setStudent, countOf_of_some hstud, hcount]
  · exact countOf_setStudent_of_ne m ho _

section Phases

variable {o c : Nat} {n n' : Role → Nat} {stud : Student}
  (hphase : Phase n (listed m o) (countOf m o))

include hphase

/-- A thread finds a student in the list and counts itself as a user. -/
theorem phase_use (hshift : Shift n none (some .user) n') (hstud : m.students o = some stud)
    (hmem : o ∈ m.studLst.lst) (huse : n .inserted = 0) (hroom : stud.refCount + 1 < 2 ^ 32) :
    Phase n' (listed m o) (countOf (m.setStudent o (some (threadUsingObject stud))) o) := by
  rw [listed_of_mem hmem, countOf_of_some hstud] at hphase
  rw [countOf_setStudent, threadUsingObject, refCountInc, countUp_eq hroom, listed_of_mem hmem]
  exact hphase.use huse hshift

/-- A user drops a reference that is not the last. -/
theorem phase_drop (hshift : Shift n (some .user) none n') (hstud : m.students o = some stud)
    (hcount : stud.refCount = c + 1) (hmore : c ≠ 0) :
    Phase n' (listed m o) (countOf (m.setStudent o (some { stud with refCount := c })) o) := by
  rw [countOf_of_some hstud, hcount] at hphase
  rw [countOf_setStudent]
  exact hphase.drop hmore hshift

/-- Whoever drops the last reference has to destroy the student. -/
theorem phase_zero (hshift : Shift n (some .user) (some .dying) n')
    (hstud : m.students o = some stud) (hcount : stud.refCount = 1) :
    Phase n' (listed m o) (countOf (m.setStudent o (some { stud with refCount := 0 })) o) := by
  rw [countOf_of_some hstud, hcount] at hphase
  rw [countOf_setStudent]
  exact hphase.dropLast hshift

theorem phase_destroy (hshift : Shift n (some .dying) none n') :
    Phase n' (listed m o) (countOf (m.setStudent o none) o) := by
  have hgone : countOf (m.setStudent o none) o = none := by
    rw [countOf, Crud.students_setStudent, Function.update_self]
    rfl
  rw [hgone]
  exact hphase.destroy hshift

/-- A student is allocated where none was. -/
theorem phase_malloc (hshift : Shift n none (some .born) n') (hnew : m.students o = none)
    (rollNo : UInt32) :
    Phase n' (listed m o) (countOf (m.setStudent o (some (studentMalloc rollNo))) o) := by
  have habsent : countOf m o = none := by
    rw [countOf, hnew]
    rfl
  rw [habsent] at hphase
  rw [countOf_setStudent]
  exact hphase.alloc hshift

/-- The list's own reference is counted. -/
theorem phase_countIn (hshift : Shift n (some .inserted) none n') (hstud : m.students o = some stud) :
    Phase n' (listed m o) (countOf (m.setStudent o (some (refCountInc stud))) o) := by
  obtain ⟨-, -, hzero⟩ := hphase.of_inserted (hshift.pos rfl (by simp))
  rw [countOf_of_some hstud, Option.some.injEq] at hzero
  rw [countOf_setStudent, refCountInc, hzero, countUp_eq (by decide)]
  exact hphase.countIn hshift

/-- Whoever took a student from the list counts itself as a user. -/
theorem phase_useRemoved (hshift : Shift n (some .removed) (some .dropping) n')
    (hstud : m.students o = some stud) (hroom : stud.refCount + 1 < 2 ^ 32) :
    Phase n' (listed m o) (countOf (m.setStudent o (some (threadUsingObject stud))) o) := by
  rw [countOf_of_some hstud] at hphase
  rw [countOf_setStudent, threadUsingObject, refCountInc, countUp_eq hroom]
  exact hphase.useRemoved hshift

/-- It then gives the reference of the list back. -/
theorem phase_countOut (hshift : Shift n (some .dropping) (some .user) n')
    (hstud : m.students o = some stud) (hcount : stud.refCount = c + 2) :
    Phase n' (listed m o) (countOf (m.setStudent o (some { stud with refCount := c + 1 })) o) := by
  rw [countOf_of_some hstud, hcount] at hphase
  rw [countOf_setStudent]
  exact (hphase.countOut hshift).2

end Phases

/-- What a step does to the life of one student. -/
theorem CrudMove.phase (h : CrudMove m t l m' l') {o : Nat} {n n' : Role → Nat}
    (hphase : Phase n (listed m o) (countOf m o)) (hshift : Shift n (l.role o) (l'.role o) n')
    (hroom : Room m l) (hnodup : m.studLst.lst.Nodup) (hfound : l = .use o → o ∈ m.studLst.lst)
    (hnew : m.students m.next = none)
    (hcounted : l.holds false = true ∨ (∃ rollNo, l = .remove rollNo) → n .inserted = 0) :
    Phase n' (listed m' o) (countOf m' o) := by
  -- nothing changes for the student
  have hkeep : l.role o = l'.role o → listed m' o = listed m o → countOf m' o = countOf m o →
      Phase n' (listed m' o) (countOf m' o) := by
    intro hrole hlisted hcount
    rw [hrole] at hshift
    rw [hshift.eq, hlisted, hcount]
    exact hphase
  by_cases hnone : l.role o = none ∧ l'.role o = none
  · obtain ⟨hlisted, hcount⟩ := h.untouched hnone.1 hnone.2
    exact hkeep (hnone.1.trans hnone.2.symm) hlisted hcount
  -- from here on it is the student that the thread has taken, takes or gives up
  cases h with
  | enter hl _ => exact hkeep (by cases hl <;> rfl) rfl rfl
  | leave hl _ => exact hkeep (by cases hl <;> rfl) rfl rfl
  | look hl => exact hkeep (by cases hl <;> rfl) rfl rfl
  | lockStudent hstud _ => exact hkeep rfl rfl (countOf_setStudent_same hstud rfl)
  | work _ hstud => exact hkeep rfl rfl (countOf_setStudent_same hstud rfl)
  | unlockStudent hstud _ => exact hkeep rfl rfl (countOf_setStudent_same hstud rfl)
  | @use o' stud hstud =>
      obtain rfl : o = o' :=
        CrudLoc.eq_of_touched hnone (by simp [CrudLoc.student]) (by simp [CrudLoc.student])
      rw [CrudLoc.role_of_none rfl, CrudLoc.role_self rfl] at hshift
      exact phase_use hphase hshift hstud (hfound rfl) (hcounted (.inl rfl)) (hroom _ hstud)
  | @drop o' c stud hstud hcount hmore =>
      obtain rfl : o = o' :=
        CrudLoc.eq_of_touched hnone (by simp [CrudLoc.student]) (by simp [CrudLoc.student])
      rw [CrudLoc.role_self rfl, CrudLoc.role_of_none rfl] at hshift
      exact phase_drop hphase hshift hstud hcount hmore
  | @zero o' stud hstud hcount =>
      obtain rfl : o = o' :=
        CrudLoc.eq_of_touched hnone (by simp [CrudLoc.student]) (by simp [CrudLoc.student])
      rw [CrudLoc.role_self rfl, CrudLoc.role_self rfl] at hshift
      exact phase_zero hphase hshift hstud hcount
  | @destroy o' stud hstud =>
      obtain rfl : o = o' :=
        CrudLoc.eq_of_touched hnone (by simp [CrudLoc.student]) (by simp [CrudLoc.student])
      rw [CrudLoc.role_self rfl, CrudLoc.role_of_none rfl] at hshift
      exact phase_destroy hphase hshift
  | @malloc rollNo =>
      obtain rfl : o = m.next :=
        CrudLoc.eq_of_touched hnone (by simp [CrudLoc.student]) (by simp [CrudLoc.student])
      rw [CrudLoc.role_of_none rfl, CrudLoc.role_self rfl] at hshift
      exact phase_malloc hphase hshift hnew rollNo
  | @insert o' stud hstud habsent =>
      obtain rfl : o = o' :=
        CrudLoc.eq_of_touched hnone (by simp [CrudLoc.student]) (by simp [CrudLoc.student])
      rw [CrudLoc.role_self rfl, CrudLoc.role_self rfl] at hshift
      rw [listed_of_mem List.mem_cons_self]
      exact hphase.insert hshift
  | @countIn o' stud hstud =>
      obtain rfl : o = o' :=
        CrudLoc.eq_of_touched hnone (by simp [CrudLoc.student]) (by simp [CrudLoc.student])
      rw [CrudLoc.role_self rfl, CrudLoc.role_of_none rfl] at hshift
      exact phase_countIn hphase hshift hstud
  | @remove rollNo o' hmem =>
      obtain rfl : o = o' :=
        CrudLoc.eq_of_touched hnone (by simp [CrudLoc.student]) (by simp [CrudLoc.student])
      rw [CrudLoc.role_of_none rfl, CrudLoc.role_self rfl] at hshift
      rw [listed_of_mem hmem] at hphase
      rw [listed_of_not_mem (by simpa using List.Nodup.not_mem_erase hnodup)]
      exact hphase.remove (hcounted (.inr ⟨rollNo, rfl⟩)) hshift
  | @useRemoved o' stud hstud =>
      obtain rfl : o = o' :=
        CrudLoc.eq_of_touched hnone (by simp [CrudLoc.student]) (by simp [CrudLoc.student])
      rw [CrudLoc.role_self rfl, CrudLoc.role_self rfl] at hshift
      exact phase_useRemoved hphase hshift hstud (hroom _ hstud)
  | @countOut o' c stud hstud hcount =>
      obtain rfl : o = o' :=
        CrudLoc.eq_of_touched hnone (by simp [CrudLoc.student]) (by simp [CrudLoc.student])
      rw [CrudLoc.role_self rfl, CrudLoc.role_self rfl] at hshift
      exact phase_countOut hphase hshift hstud hcount

/-- The roll number of a student, if it is allocated. -/
def rollNoOf (m : Crud τ) (o : Nat) : Option UInt32 := (m.students o).map Student.rollNo

theorem absent_iff {os : List Nat} {rollNo : UInt32} :
    Absent m.students os rollNo ↔ ∀ o ∈ os, rollNoOf m o ≠ some rollNo := by
  constructor
  · intro h o ho hroll
    obtain ⟨stud, hstud, hroll⟩ := Option.map_eq_some_iff.mp hroll
    exact h o ho stud hstud hroll
  · intro h o ho stud hstud hroll
    apply h o ho
    rw [rollNoOf, hstud, Option.map_some, hroll]

/-- Students keep their roll numbers as long as they are allocated. -/
theorem CrudMove.rollNoOf_eq (h : CrudMove m t l m' l') (o : Nat) :
    rollNoOf m' o = rollNoOf m o ∨ (o = m.next ∧ ∃ rollNo, l = .malloc rollNo ∧
      l' = .insert o ∧ m'.studLst = m.studLst ∧ rollNoOf m' o = some rollNo) ∨ l = .destroy o := by
  have hsame : ∀ {o' : Nat} {stud stud' : Student}, m.students o' = some stud →
      stud'.rollNo = stud.rollNo →
      (Function.update m.students o' (some stud') o).map Student.rollNo = rollNoOf m o := by
    intro o' stud stud' hstud hroll
    by_cases ho : o = o'
    · subst ho
      rw [Function.update_self, rollNoOf, hstud, Option.map_some, Option.map_some, hroll]
    · rw [Function.update_of_ne ho, rollNoOf]
  cases h with
  | use hstud => exact .inl (hsame hstud rfl)
  | lockStudent hstud _ => exact .inl (hsame hstud rfl)
  | work _ hstud => exact .inl (hsame hstud rfl)
  | unlockStudent hstud _ => exact .inl (hsame hstud rfl)
  | drop hstud _ _ => exact .inl (hsame hstud rfl)
  | zero hstud _ => exact .inl (hsame hstud rfl)
  | countIn hstud => exact .inl (hsame hstud rfl)
  | useRemoved hstud => exact .inl (hsame hstud rfl)
  | countOut hstud _ => exact .inl (hsame hstud rfl)
  | @destroy o' stud hstud =>
      by_cases ho : o = o'
      · exact .inr (.inr (by rw [ho]))
      · exact .inl (congrArg (Option.map Student.rollNo) (Function.update_of_ne ho _ _))
  | @malloc rollNo =>
      by_cases ho : o = m.next
      · subst ho
        refine .inr (.inl ⟨rfl, rollNo, rfl, rfl, rfl, ?_⟩)
        show (Function.update m.students m.next (some (studentMalloc rollNo)) m.next).map _ = _
        rw [Function.update_self]
        rfl
      · exact .inl (congrArg (Option.map Student.rollNo) (Function.update_of_ne ho _ _))
  | _ => exact .inl rfl

/-- The list changes under its lock only. -/
theorem CrudMove.studLst_eq (h : CrudMove m t l m' l') :
    (m'.studLst.lst = m.studLst.lst ∧ m'.studLst.nodeCount = m.studLst.nodeCount) ∨
    (∃ o, l = .insert o ∧ m'.students = m.students ∧ m'.studLst.lst = o :: m.studLst.lst ∧
      m'.studLst.nodeCount = countUp 32 m.studLst.nodeCount) ∨
    ∃ o rollNo, l = .remove rollNo ∧ o ∈ m.studLst.lst ∧
      m'.studLst.lst = m.studLst.lst.erase o ∧
      m'.studLst.nodeCount = countDown 32 m.studLst.nodeCount := by
  cases h with
  | @insert o stud _ _ => exact .inr (.inl ⟨o, rfl, rfl, rfl, rfl⟩)
  | @remove rollNo o ho => exact .inr (.inr ⟨o, rollNo, rfl, ho, rfl, rfl⟩)
  | _ => exact .inl ⟨rfl, rfl⟩

theorem CrudMove.lst_of_not_holds (h : CrudMove m t l m' l') (hl : l.holds true = false) :
    m'.studLst.lst = m.studLst.lst := by
  rcases h.studLst_eq with ⟨hlst, -⟩ | ⟨o, rfl, -⟩ | ⟨o, rollNo, rfl, -⟩
  · exact hlst
  · cases hl
  · cases hl

theorem CrudMove.found {o : Nat} (h : CrudMove m t l m' (.use o)) : o ∈ m'.studLst.lst := by
  cases h with
  | enter hl _ => cases hl
  | leave hl _ => cases hl
  | look hl =>
      cases hl with
      | found ho => exact ho

/-- How a creator gets to know that a roll number is new. -/
theorem CrudMove.newRollNo (h : CrudMove m t l m' l') {rollNo : UInt32}
    (hl' : l'.newRollNo m'.students = some rollNo) :
    m'.studLst.lst = m.studLst.lst ∧
      (l.newRollNo m.students = some rollNo ∨ Absent m.students m.studLst.lst rollNo) := by
  cases h with
  | enter hl _ => cases hl <;> cases hl'
  | leave hl _ => cases hl <;> cases hl'
  | look hl =>
      cases hl with
      | absent habsent =>
          cases hl'
          exact ⟨rfl, .inr habsent⟩
      | _ => cases hl'
  | @malloc rollNo' =>
      have hnew : (Function.update m.students m.next (some (studentMalloc rollNo')) m.next).map
          Student.rollNo = some rollNo := hl'
      rw [Function.update_self] at hnew
      exact ⟨rfl, .inl hnew⟩
  | _ => cases hl'

/-- Addresses from `next` on are not allocated. -/
theorem CrudMove.fresh (h : CrudMove m t l m' l') (hfresh : ∀ o, m.next ≤ o → m.students o = none)
    (o : Nat) (ho : m'.next ≤ o) : m'.students o = none := by
  have hset : ∀ {o' : Nat} {stud : Student} (x : Option Student), m.students o' = some stud →
      m.next ≤ o → Function.update m.students o' x o = none := by
    intro o' stud x hstud hle
    have hne : o ≠ o' := by
      rintro rfl
      rw [hfresh o hle] at hstud
      cases hstud
    rw [Function.update_of_ne hne]
    exact hfresh o hle
  cases h with
  | use hstud => exact hset _ hstud ho
  | lockStudent hstud _ => exact hset _ hstud ho
  | work _ hstud => exact hset _ hstud ho
  | unlockStudent hstud _ => exact hset _ hstud ho
  | drop hstud _ _ => exact hset _ hstud ho
  | zero hstud _ => exact hset _ hstud ho
  | destroy hstud => exact hset _ hstud ho
  | countIn hstud => exact hset _ hstud ho
  | useRemoved hstud => exact hset _ hstud ho
  | countOut hstud _ => exact hset _ hstud ho
  | malloc =>
      have hne : o ≠ m.next := Nat.ne_of_gt ho
      exact (Function.update_of_ne hne _ _).trans (hfresh o (Nat.le_of_succ_le ho))
  | _ => exact hfresh o ho

end Moves

section Invariant

variable [Fintype τ] {s s' : CrudConfig τ} {t : τ} {l' : CrudLoc}

/-- The students, the list and the threads fit together. -/
structure ListOk (s : CrudConfig τ) : Prop where
  phase : ∀ o, Phase (roleCount s.thr o) (listed s.mem o) (countOf s.mem o)
  nodup : s.mem.studLst.lst.Nodup
  nodeCount : s.mem.studLst.nodeCount = s.mem.studLst.lst.length % 2 ^ 32
  unique : ∀ o ∈ s.mem.studLst.lst, ∀ o' ∈ s.mem.studLst.lst,
    rollNoOf s.mem o = rollNoOf s.mem o' → o = o'
  found : ∀ t o, (s.thr t).loc = .use o → o ∈ s.mem.studLst.lst
  absent : ∀ t rollNo, (s.thr t).loc.newRollNo s.mem.students = some rollNo →
    Absent s.mem.students s.mem.studLst.lst rollNo
  fresh : ∀ o, s.mem.next ≤ o → s.mem.students o = none

/-- A thread counts for what it is. -/
theorem roleCount_pos {o : Nat} {r : Role} (ht : (s.thr t).loc.role o = some r) :
    0 < roleCount s.thr o r := by
  have hle := le_tally s.thr (fun l => if l.role o = some r then 1 else 0) t
  simp only [ht, if_true] at hle
  exact hle

/-- Students in the list are allocated. -/
theorem ListOk.allocated (h : ListOk s) {o : Nat} (ho : o ∈ s.mem.studLst.lst) :
    ∃ stud, s.mem.students o = some stud := by
  have hphase := h.phase o
  rw [listed_of_mem ho] at hphase
  exact isSome_of_countOf hphase.isSome_of_listed

/-- Students that a thread has taken are allocated. -/
theorem ListOk.allocated_of_role (h : ListOk s) {o : Nat} {r : Role}
    (ht : (s.thr t).loc.role o = some r) : ∃ stud, s.mem.students o = some stud :=
  isSome_of_countOf ((h.phase o).isSome_of_pos (roleCount_pos ht))

/-- The code finds what it relies on. -/
theorem ListOk.ready (h : ListOk s) (hlocks : LocksOk s) (t : τ) (hroom : Room s.mem (s.thr t).loc) :
    Ready s.mem (s.thr t).loc := by
  have hall : ∀ o ∈ s.mem.studLst.lst, (s.mem.students o).isSome = true := fun o ho =>
    Option.isSome_iff_exists.mpr (h.allocated ho)
  have hrole : ∀ {o : Nat} {r : Role}, (s.thr t).loc.student = some (o, r) →
      0 < roleCount s.thr o r ∧ ∃ stud, s.mem.students o = some stud := fun hstudent =>
    ⟨roleCount_pos (CrudLoc.role_self hstudent), h.allocated_of_role (CrudLoc.role_self hstudent)⟩
  cases hl : (s.thr t).loc with
  | idle => trivial
  | malloc rollNo => trivial
  | lookup rollNo => exact hall
  | createLookup rollNo => exact hall
  | remove rollNo =>
      rw [hl] at hroom
      exact ⟨hall, h.nodeCount.trans (Nat.mod_eq_of_lt hroom)⟩
  | unlockRead => exact hlocks.unlock (t := t) (w := false) (by rw [hl]; rfl)
  | unlockList write o => exact hlocks.unlock (t := t) (w := false) (by rw [hl]; rfl)
  | unlockWrite => exact hlocks.unlock (t := t) (w := true) (by rw [hl]; rfl)
  | unlockRemoved o => exact hlocks.unlock (t := t) (w := true) (by rw [hl]; rfl)
  | use o => exact h.allocated (h.found t o hl)
  | lockStudent o => exact (hrole (by rw [hl]; rfl)).2
  | work write o => exact (hrole (by rw [hl]; rfl)).2
  | useRemoved o => exact (hrole (by rw [hl]; rfl)).2
  | countIn o => exact (hrole (by rw [hl]; rfl)).2
  | unlockStudent write o =>
      obtain ⟨stud, hstud⟩ := (hrole (o := o) (by rw [hl]; rfl)).2
      have hholds : (s.thr t).loc.holdsStudent write o = true := by
        rw [hl]
        simp [CrudLoc.holdsStudent]
      obtain ⟨lk, hlk⟩ := hlocks.unlockStudent hstud hholds
      exact ⟨stud, lk, hstud, hlk⟩
  | done o =>
      obtain ⟨hpos, stud, hstud⟩ := hrole (o := o) (by rw [hl]; rfl)
      obtain ⟨c, hc, hcount, -⟩ := (h.phase o).live_of_pos (.inl hpos)
      rw [countOf_of_some hstud, Option.some.injEq] at hc
      refine ⟨stud, c - 1, hstud, ?_⟩
      omega
  | countOut o =>
      obtain ⟨hpos, stud, hstud⟩ := hrole (o := o) (by rw [hl]; rfl)
      obtain ⟨c, hc, hcount, -⟩ := (h.phase o).live_of_pos (.inr (.inr hpos))
      rw [countOf_of_some hstud, Option.some.injEq] at hc
      refine ⟨stud, c - 2, hstud, ?_⟩
      omega
  | destroy o =>
      obtain ⟨hpos, stud, hstud⟩ := hrole (o := o) (by rw [hl]; rfl)
      obtain ⟨honly, -, hzero⟩ := (h.phase o).of_dying hpos
      rw [countOf_of_some hstud, Option.some.injEq] at hzero
      refine ⟨stud, hstud, hzero, ?_⟩
      -- nobody uses the student, so nobody has it locked
      have hholds : ∀ w, tally s.thr (fun l => (l.holdsStudent w o).toNat) = 0 := by
        intro w
        rw [tally_eq_zero]
        intro u
        by_contra hno
        have hholds : (s.thr u).loc.holdsStudent w o = true := by simpa using hno
        have huser := roleCount_pos (CrudLoc.role_of_holdsStudent hholds)
        rw [honly .user] at huser
        cases huser
      have hheld := hlocks.student o stud hstud
      rw [hholds, hholds] at hheld
      exact hheld.eq_free
  | insert o =>
      obtain ⟨hpos, stud, hstud⟩ := hrole (o := o) (by rw [hl]; rfl)
      obtain ⟨-, hlisted, -⟩ := (h.phase o).of_born hpos
      refine ⟨stud, hstud, ?_, ?_, hall⟩
      · apply h.absent t
        rw [hl, CrudLoc.newRollNo, hstud]
        rfl
      · intro ho
        rw [listed_of_mem ho] at hlisted
        cases hlisted

/-- A creator counts for the list before anybody else sees the student. -/
theorem LocksOk.counted [DecidableEq τ] (h : LocksOk s) {o : Nat}
    (hl : (s.thr t).loc.holds false = true ∨ ∃ rollNo, (s.thr t).loc = .remove rollNo) :
    roleCount s.thr o .inserted = 0 := by
  unfold roleCount
  rw [tally_eq_zero]
  intro u
  by_contra hno
  have hrole : (s.thr u).loc.role o = some .inserted := by
    by_contra hnot
    exact hno (if_neg hnot)
  have hcountIn := CrudLoc.eq_countIn hrole
  have hholds : (s.thr u).loc.holds true = true := by
    rw [hcountIn]
    rfl
  rcases hl with hl | ⟨rollNo, hl⟩
  · rw [h.no_writer hl u] at hholds
    cases hholds
  · have hne : u ≠ t := by
      rintro rfl
      rw [hl] at hcountIn
      cases hcountIn
    rw [h.alone (t := t) (by rw [hl]; rfl) hne true] at hholds
    cases hholds

variable [DecidableEq τ] (h : ListOk s) (hlocks : LocksOk s) (hstep : Stepped s t s' l')

include h hlocks hstep

omit hlocks [DecidableEq τ] in
/-- Students in the list keep their roll numbers. -/
theorem ListOk.rollNoOf_eq {o : Nat} (ho : o ∈ s.mem.studLst.lst) :
    rollNoOf s'.mem o = rollNoOf s.mem o := by
  obtain ⟨stud, hstud⟩ := h.allocated ho
  rcases hstep.move.rollNoOf_eq o with heq | ⟨rfl, -⟩ | hl
  · exact heq
  · rw [h.fresh _ (Nat.le_refl _)] at hstud
    cases hstud
  · have hrole : (s.thr t).loc.role o = some .dying := by
      rw [hl]
      exact CrudLoc.role_self rfl
    obtain ⟨-, hlisted, -⟩ := (h.phase o).of_dying (roleCount_pos hrole)
    rw [listed_of_mem ho] at hlisted
    cases hlisted

theorem ListOk.step_phase (hroom : Room s.mem (s.thr t).loc) (o : Nat) :
    Phase (roleCount s'.thr o) (listed s'.mem o) (countOf s'.mem o) := by
  have hshift : Shift (roleCount s.thr o) ((s.thr t).loc.role o) (l'.role o)
      (roleCount s'.thr o) :=
    fun r => hstep.tally fun l => if l.role o = some r then 1 else 0
  exact hstep.move.phase (h.phase o) hshift hroom h.nodup (h.found t o)
    (h.fresh _ (Nat.le_refl _)) hlocks.counted

omit hlocks [DecidableEq τ] in
theorem ListOk.step_nodup : s'.mem.studLst.lst.Nodup := by
  rcases hstep.move.studLst_eq with ⟨hlst, -⟩ | ⟨o, hl, -, hlst, -⟩ | ⟨o, rollNo, -, -, hlst, -⟩
  · rw [hlst]
    exact h.nodup
  · rw [hlst]
    have hrole : (s.thr t).loc.role o = some .born := by
      rw [hl]
      exact CrudLoc.role_self rfl
    obtain ⟨-, hlisted, -⟩ := (h.phase o).of_born (roleCount_pos hrole)
    apply List.nodup_cons.mpr ⟨_, h.nodup⟩
    intro ho
    rw [listed_of_mem ho] at hlisted
    cases hlisted
  · rw [hlst]
    exact h.nodup.erase o

omit hlocks [DecidableEq τ] in
theorem ListOk.step_nodeCount :
    s'.mem.studLst.nodeCount = s'.mem.studLst.lst.length % 2 ^ 32 := by
  rcases hstep.move.studLst_eq with
    ⟨hlst, hcount⟩ | ⟨o, -, -, hlst, hcount⟩ | ⟨o, rollNo, -, ho, hlst, hcount⟩
  · rw [hlst, hcount]
    exact h.nodeCount
  · rw [hlst, hcount, h.nodeCount, countUp_mod, List.length_cons]
  · have hlength : s.mem.studLst.lst.length = s'.mem.studLst.lst.length + 1 := by
      rw [hlst, List.length_erase_of_mem ho]
      have hpos := List.length_pos_of_mem ho
      omega
    rw [hcount, h.nodeCount, hlength, countDown_mod]

omit hlocks [DecidableEq τ] in
/-- A new roll number is inserted. -/
theorem ListOk.step_unique : ∀ o ∈ s'.mem.studLst.lst, ∀ o' ∈ s'.mem.studLst.lst,
    rollNoOf s'.mem o = rollNoOf s'.mem o' → o = o' := by
  have hold : ∀ o ∈ s.mem.studLst.lst, ∀ o' ∈ s.mem.studLst.lst,
      rollNoOf s'.mem o = rollNoOf s'.mem o' → o = o' := by
    intro o ho o' ho' heq
    rw [h.rollNoOf_eq hstep ho, h.rollNoOf_eq hstep ho'] at heq
    exact h.unique o ho o' ho' heq
  rcases hstep.move.studLst_eq with
    ⟨hlst, -⟩ | ⟨o₁, hl, hstudents, hlst, -⟩ | ⟨o₁, rollNo, -, -, hlst, -⟩
  · rw [hlst]
    exact hold
  · obtain ⟨stud, hstud⟩ := h.allocated_of_role (t := t) (o := o₁) (r := .born)
      (by rw [hl]; exact CrudLoc.role_self rfl)
    have habsent := h.absent t stud.rollNo (by rw [hl, CrudLoc.newRollNo, hstud]; rfl)
    rw [absent_iff] at habsent
    have hroll : rollNoOf s'.mem o₁ = some stud.rollNo := by
      rw [rollNoOf, hstudents, hstud]
      rfl
    intro o ho o' ho' heq
    rw [hlst] at ho ho'
    rcases List.mem_cons.mp ho with hnew | hmem
    · rcases List.mem_cons.mp ho' with hnew' | hmem'
      · rw [hnew, hnew']
      · rw [hnew, hroll, h.rollNoOf_eq hstep hmem'] at heq
        exact absurd heq.symm (habsent o' hmem')
    · rcases List.mem_cons.mp ho' with hnew' | hmem'
      · rw [hnew', hroll, h.rollNoOf_eq hstep hmem] at heq
        exact absurd heq (habsent o hmem)
      · exact hold o hmem o' hmem' heq
  · rw [hlst]
    intro o ho o' ho'
    exact hold o (List.mem_of_mem_erase ho) o' (List.mem_of_mem_erase ho')

/-- A reader that found a student has the list locked. -/
theorem ListOk.step_found (u : τ) (o : Nat) (hu : (s'.thr u).loc = .use o) :
    o ∈ s'.mem.studLst.lst := by
  by_cases hut : u = t
  · subst hut
    rw [hstep.self] at hu
    subst hu
    exact hstep.move.found
  · rw [hstep.other u hut] at hu
    have hholds := hlocks.no_writer (t := u) (by rw [hu]; rfl) t
    rw [hstep.move.lst_of_not_holds hholds]
    exact h.found u o hu

/-- So has a creator that found nothing. -/
theorem ListOk.step_absent (u : τ) (rollNo : UInt32)
    (hu : (s'.thr u).loc.newRollNo s'.mem.students = some rollNo) :
    Absent s'.mem.students s'.mem.studLst.lst rollNo := by
  -- as long as the list is the same, so are its roll numbers
  have hframe : s'.mem.studLst.lst = s.mem.studLst.lst →
      Absent s.mem.students s.mem.studLst.lst rollNo →
      Absent s'.mem.students s'.mem.studLst.lst rollNo := by
    intro hlst habsent
    rw [absent_iff] at habsent ⊢
    rw [hlst]
    intro o ho
    rw [h.rollNoOf_eq hstep ho]
    exact habsent o ho
  by_cases hut : u = t
  · subst hut
    rw [hstep.self] at hu
    obtain ⟨hlst, hold | habsent⟩ := hstep.move.newRollNo hu
    · exact hframe hlst (h.absent u rollNo hold)
    · exact hframe hlst habsent
  · rw [hstep.other u hut] at hu
    have hholds : (s.thr u).loc.holds true = true := by
      cases hl : (s.thr u).loc <;> rw [hl] at hu <;> first | rfl | cases hu
    have hlst := hstep.move.lst_of_not_holds (hlocks.alone hholds (Ne.symm hut) true)
    apply hframe hlst
    apply h.absent u
    cases hl : (s.thr u).loc with
    | malloc rollNo' =>
        rw [hl] at hu
        exact hu
    | insert o =>
        rw [hl] at hu
        -- nobody else has taken the new student
        have hrole : (s.thr u).loc.role o = some .born := by
          rw [hl]
          exact CrudLoc.role_self rfl
        rcases hstep.move.rollNoOf_eq o with heq | ⟨rfl, -⟩ | hdestroy
        · exact heq.symm.trans hu
        · obtain ⟨stud, hstud⟩ := h.allocated_of_role hrole
          rw [h.fresh _ (Nat.le_refl _)] at hstud
          cases hstud
        · obtain ⟨honly, -⟩ := (h.phase o).of_born (roleCount_pos hrole)
          have hdying : (s.thr t).loc.role o = some .dying := by
            rw [hdestroy]
            exact CrudLoc.role_self rfl
          have hpos := roleCount_pos hdying
          rw [honly .dying] at hpos
          cases hpos
    | _ =>
        rw [hl] at hu
        cases hu

theorem ListOk.step (hroom : Room s.mem (s.thr t).loc) : ListOk s' where
  phase := h.step_phase hlocks hstep hroom
  nodup := h.step_nodup hstep
  nodeCount := h.step_nodeCount hstep
  unique := h.step_unique hstep
  found := h.step_found hlocks hstep
  absent := h.step_absent hlocks hstep
  fresh := hstep.move.fresh h.fresh

end Invariant

end StudentCrud
end MultithreadingBible
