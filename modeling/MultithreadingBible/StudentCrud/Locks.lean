import MultithreadingBible.StudentCrud.Moves

/-!
# The locks of the list and of the students

The list is locked by as many readers as there are threads at locations that hold it for reading, and
likewise for writing, and so is each student.  So nobody looks at the list while somebody changes it.

* `CrudMove.lock`, `CrudMove.studentLock` — what a move does to the locks.
* `LocksOk` — the locks fit the threads, over all steps.
-/

namespace MultithreadingBible
namespace StudentCrud

open Lib RefCounted

variable {τ : Type*}

/-- One thread moves, and all others stay where they are. -/
structure Stepped (s : CrudConfig τ) (t : τ) (s' : CrudConfig τ) (l' : CrudLoc) : Prop where
  move : CrudMove s.mem t (s.thr t).loc s'.mem l'
  self : (s'.thr t).loc = l'
  other : ∀ u, u ≠ t → (s'.thr u).loc = (s.thr u).loc

section Moves

variable {m m' : Crud τ} {t : τ} {l l' : CrudLoc}

/-- A move locks the list, unlocks it, or leaves its lock alone. -/
theorem CrudMove.lock (h : CrudMove m t l m' l') :
    RwLock.Changed m.studLst.rwLock m'.studLst.rwLock l.holds l'.holds := by
  cases h with
  | @enter write l' lk hl hlock =>
      apply RwLock.Changed.locked write hlock
      · exact fun w => rfl
      · intro w
        cases hl <;> cases w <;> rfl
  | leave hl hunlock =>
      cases hl with
      | reader => exact .unlocked false hunlock (fun w => by cases w <;> rfl) fun w => rfl
      | work => exact .unlocked false hunlock (fun w => by cases w <;> rfl) fun w => rfl
      | writer => exact .unlocked true hunlock (fun w => by cases w <;> rfl) fun w => rfl
      | removed => exact .unlocked true hunlock (fun w => by cases w <;> rfl) fun w => rfl
  | look hl => exact .kept rfl fun w => by cases hl <;> rfl
  | _ => exact .kept rfl fun w => rfl

/-- A move locks a student, unlocks it, leaves its lock alone, or makes the student. -/
theorem CrudMove.studentLock (h : CrudMove m t l m' l') (o : Nat) {stud' : Student}
    (hstud' : m'.students o = some stud') :
    (∃ stud, m.students o = some stud ∧ RwLock.Changed stud.rwLock stud'.rwLock
      (fun w => l.holdsStudent w o) fun w => l'.holdsStudent w o) ∨
    o = m.next ∧ stud'.rwLock = .free ∧ ∀ w, l'.holdsStudent w o = l.holdsStudent w o := by
  have hsame : m.students o = some stud' → (∀ w, l'.holdsStudent w o = l.holdsStudent w o) →
      ∃ stud, m.students o = some stud ∧ RwLock.Changed stud.rwLock stud'.rwLock
        (fun w => l.holdsStudent w o) fun w => l'.holdsStudent w o :=
    fun hstud hholds => ⟨stud', hstud, .kept rfl hholds⟩
  -- the lock is kept where the student is, and where another one changes
  have hkeep : ∀ {o' : Nat} {stud x : Student}, m.students o' = some stud →
      (m.setStudent o' (some x)).students o = some stud' → x.rwLock = stud.rwLock →
      (∀ w, l'.holdsStudent w o = l.holdsStudent w o) →
      ∃ stud, m.students o = some stud ∧ RwLock.Changed stud.rwLock stud'.rwLock
        (fun w => l.holdsStudent w o) fun w => l'.holdsStudent w o := by
    intro o' stud x hstud hset hx hholds
    by_cases ho : o = o'
    · subst ho
      rw [Crud.students_setStudent, Function.update_self, Option.some.injEq] at hset
      exact ⟨stud, hstud, .kept (by rw [← hset, hx]) hholds⟩
    · rw [Crud.students_setStudent, Function.update_of_ne ho] at hset
      exact hsame hset hholds
  cases h with
  | enter hl _ => exact .inl (hsame hstud' fun w => by cases hl <;> rfl)
  | leave hl _ => exact .inl (hsame hstud' fun w => by cases hl <;> rfl)
  | look hl => exact .inl (hsame hstud' fun w => by cases hl <;> rfl)
  | insert _ _ => exact .inl (hsame hstud' fun w => rfl)
  | remove _ => exact .inl (hsame hstud' fun w => rfl)
  | use hstud => exact .inl (hkeep hstud hstud' rfl fun w => rfl)
  | work _ hstud => exact .inl (hkeep hstud hstud' rfl fun w => rfl)
  | drop hstud _ _ => exact .inl (hkeep hstud hstud' rfl fun w => rfl)
  | zero hstud _ => exact .inl (hkeep hstud hstud' rfl fun w => rfl)
  | countIn hstud => exact .inl (hkeep hstud hstud' rfl fun w => rfl)
  | useRemoved hstud => exact .inl (hkeep hstud hstud' rfl fun w => rfl)
  | countOut hstud _ => exact .inl (hkeep hstud hstud' rfl fun w => rfl)
  | @lockStudent write o' stud lk hstud hlock =>
      by_cases ho : o = o'
      · subst ho
        rw [Crud.students_setStudent, Function.update_self, Option.some.injEq] at hstud'
        subst hstud'
        refine .inl ⟨stud, hstud, .locked write hlock (fun w => rfl) ?_⟩
        intro w
        cases w <;> cases write <;> simp [CrudLoc.holdsStudent]
      · rw [Crud.students_setStudent, Function.update_of_ne ho] at hstud'
        apply Or.inl
        apply hsame hstud'
        intro w
        simp [CrudLoc.holdsStudent, Ne.symm ho]
  | @unlockStudent write o' stud lk hstud hunlock =>
      by_cases ho : o = o'
      · subst ho
        rw [Crud.students_setStudent, Function.update_self, Option.some.injEq] at hstud'
        subst hstud'
        refine .inl ⟨stud, hstud, .unlocked write hunlock ?_ fun w => rfl⟩
        intro w
        cases w <;> cases write <;> simp [CrudLoc.holdsStudent]
      · rw [Crud.students_setStudent, Function.update_of_ne ho] at hstud'
        apply Or.inl
        apply hsame hstud'
        intro w
        simp [CrudLoc.holdsStudent, Ne.symm ho]
  | @destroy o' stud hstud =>
      have ho : o ≠ o' := by
        rintro rfl
        simp [Crud.setStudent] at hstud'
      exact .inl (hsame ((Function.update_of_ne ho _ _).symm.trans hstud') fun w => rfl)
  | malloc =>
      by_cases ho : o = m.next
      · subst ho
        have hnew := (Function.update_self _ _ _).symm.trans hstud'
        cases hnew
        exact .inr ⟨rfl, rfl, fun w => rfl⟩
      · exact .inl (hsame ((Function.update_of_ne ho _ _).symm.trans hstud') fun w => rfl)

end Moves

variable [Fintype τ] {s s' : CrudConfig τ} {t : τ} {l' : CrudLoc}

/-- The locks fit the threads. -/
structure LocksOk (s : CrudConfig τ) : Prop where
  list : s.mem.studLst.rwLock.HeldBy (tally s.thr fun l => (l.holds false).toNat)
    (tally s.thr fun l => (l.holds true).toNat)
  student : ∀ o stud, s.mem.students o = some stud →
    stud.rwLock.HeldBy (tally s.thr fun l => (l.holdsStudent false o).toNat)
      (tally s.thr fun l => (l.holdsStudent true o).toNat)

/-- Nobody has the list locked for writing while somebody reads it. -/
theorem LocksOk.no_writer (h : LocksOk s) (ht : (s.thr t).loc.holds false = true) (u : τ) :
    (s.thr u).loc.holds true = false := by
  have hreader := le_tally s.thr (fun l => (l.holds false).toNat) t
  have hwriter := le_tally s.thr (fun l => (l.holds true).toNat) u
  simp only [ht, Bool.toNat_true] at hreader
  rcases h.list.excl with hzero | hzero
  · omega
  · rw [hzero] at hwriter
    simpa using hwriter

/-- Whoever has the list locked for writing has it alone. -/
theorem LocksOk.alone [DecidableEq τ] (h : LocksOk s) (ht : (s.thr t).loc.holds true = true)
    {u : τ} (hu : u ≠ t) (w : Bool) : (s.thr u).loc.holds w = false := by
  cases w with
  | false =>
      by_contra hholds
      rw [Bool.not_eq_false] at hholds
      rw [h.no_writer hholds t] at ht
      cases ht
  | true =>
      have hpair := add_le_tally s.thr (fun l => (l.holds true).toNat) hu
      have hle := h.list.writer_le
      simp only [ht, Bool.toNat_true] at hpair
      have hzero : ((s.thr u).loc.holds true).toNat = 0 := by omega
      simpa using hzero

/-- Whoever has a lock of the list can unlock it. -/
theorem LocksOk.unlock (h : LocksOk s) {w : Bool} (ht : (s.thr t).loc.holds w = true) :
    ∃ lk, s.mem.studLst.rwLock.unlock = some lk := by
  apply h.list.exists_unlock
  have hle := le_tally s.thr (fun l => (l.holds w).toNat) t
  simp only [ht, Bool.toNat_true] at hle
  cases w with
  | false => exact .inl hle
  | true => exact .inr hle

theorem LocksOk.unlockStudent (h : LocksOk s) {w : Bool} {o : Nat} {stud : Student}
    (hstud : s.mem.students o = some stud) (ht : (s.thr t).loc.holdsStudent w o = true) :
    ∃ lk, stud.rwLock.unlock = some lk := by
  apply (h.student o stud hstud).exists_unlock
  have hle := le_tally s.thr (fun l => (l.holdsStudent w o).toNat) t
  simp only [ht, Bool.toNat_true] at hle
  cases w with
  | false => exact .inl hle
  | true => exact .inr hle

/-- One thread moves. -/
theorem Stepped.tally [DecidableEq τ] (h : Stepped s t s' l') (w : CrudLoc → Nat) :
    Lib.tally s'.thr w + w (s.thr t).loc = Lib.tally s.thr w + w l' := by
  rw [← h.self]
  exact tally_step w h.other

/-- The locks fit the threads after a step as well.  Nobody has a new student locked. -/
theorem LocksOk.step [DecidableEq τ] (h : LocksOk s) (hstep : Stepped s t s' l')
    (hnew : ∀ u w, (s.thr u).loc.holdsStudent w s.mem.next = false) : LocksOk s' where
  list := by
    have hn : ∀ w, Lib.tally s'.thr (fun l => (l.holds w).toNat) + ((s.thr t).loc.holds w).toNat =
        Lib.tally s.thr (fun l => (l.holds w).toNat) + (l'.holds w).toNat :=
      fun w => hstep.tally fun l => (l.holds w).toNat
    exact h.list.step hstep.move.lock hn
  student o stud' hstud' := by
    have hn : ∀ w, Lib.tally s'.thr (fun l => (l.holdsStudent w o).toNat) +
        ((s.thr t).loc.holdsStudent w o).toNat =
        Lib.tally s.thr (fun l => (l.holdsStudent w o).toNat) + (l'.holdsStudent w o).toNat :=
      fun w => hstep.tally fun l => (l.holdsStudent w o).toNat
    rcases hstep.move.studentLock o hstud' with ⟨stud, hstud, hchanged⟩ | ⟨rfl, hfree, hholds⟩
    · exact (h.student o stud hstud).step hchanged hn
    · have hzero : ∀ w, Lib.tally s.thr (fun l => (l.holdsStudent w s.mem.next).toNat) = 0 := by
        intro w
        rw [tally_eq_zero]
        intro u
        rw [hnew u w]
        rfl
      have hfree' : stud'.rwLock.HeldBy
          (Lib.tally s.thr fun l => (l.holdsStudent false s.mem.next).toNat)
          (Lib.tally s.thr fun l => (l.holdsStudent true s.mem.next).toNat) := by
        rw [hfree, hzero, hzero]
        exact .free
      exact hfree'.step (.kept rfl hholds) hn

end StudentCrud
end MultithreadingBible
