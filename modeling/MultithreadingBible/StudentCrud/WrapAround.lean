import Mathlib.Data.Fintype.Option
import MultithreadingBible.StudentCrud.Safety

/-!
# Where the counts are not what they seem

Three states in which a reference count is not the number of references: inside the critical section
of a creator, after as many readers as a count of 32 bits has values, and after a deletion from a
list of as many students as there are roll numbers.

* `exists_created` — what one loop of a creator does when nobody is in its way.
* `Crowd` — readers that have all found the same student.
* `Filled` — a list with one student for each of the first roll numbers.
-/

namespace MultithreadingBible
namespace StudentCrud

open Lib RefCounted

/-- A lookup does not read students outside the list. -/
theorem studentLstLookup_update {students : Students} {o : Nat} {os : List Nat} (ho : o ∉ os)
    (x : Option Student) (rollNo : UInt32) :
    studentLstLookup (Function.update students o x) rollNo os =
      studentLstLookup students rollNo os := by
  induction os with
  | nil => rfl
  | cons o' os ih =>
      rw [List.mem_cons, not_or] at ho
      have hne : o' ≠ o := Ne.symm ho.1
      simp only [studentLstLookup, Function.update_of_ne hne, ih ho.2]

/-- A student that is allocated changes. -/
theorem onStudent_eq {τ : Type*} {m : Crud τ} {o : Nat} {stud : Student}
    (hstud : m.students o = some stud)
    (f : Student → Student) (l : CrudLoc) :
    onStudent m o f l = .done (m.setStudent o (some (f stud))) [] (.running l) := by
  rw [onStudent, hstud, Effect.call]

section Run

variable {τ : Type*} [Fintype τ] [DecidableEq τ] {kind : τ → ThType} {t : τ}

/-- A thread does what its code says. -/
theorem reachable_next {m m' : Crud τ} {thr : τ → Status Empty CrudLoc} {l l' : CrudLoc}
    (hs : (crudMachine kind).Reachable ⟨m, Function.update thr t (.running l)⟩) (x : UInt32)
    (hexec : crudExec kind t l x m = .done m' [] (.running l')) :
    (crudMachine kind).Reachable ⟨m', Function.update thr t (.running l')⟩ := by
  have hstep : (crudMachine kind).step ⟨m, Function.update thr t (.running l)⟩ (.run t x []) =
      .next ⟨m', Function.update (Function.update thr t (.running l)) t (.running l')⟩ := by
    have hself : Function.update thr t (.running l) t = (.running l : Status Empty CrudLoc) :=
      Function.update_self t _ thr
    apply Program.step_of_silent
    · show Status.isWaiting (Function.update thr t (.running l) t) = false
      rw [hself]
      rfl
    · show crudExec kind t (Function.update thr t (.running l) t).loc x m = _
      rw [hself]
      exact hexec
  rw [Function.update_idem] at hstep
  exact hs.step trivial hstep

/-- A creator takes the lock and allocates a student with a new roll number. -/
theorem exists_malloced {s : CrudConfig τ} (hs : (crudMachine kind).Reachable s)
    (hkind : kind t = .createTh) (hthr : s.thr t = .running .idle)
    (hfree : s.mem.studLst.rwLock = .free) {rollNo : UInt32}
    (hlookup : studentLstLookup s.mem.students rollNo s.mem.studLst.lst = some none) :
    ∃ m, (crudMachine kind).Reachable
        ⟨m, Function.update s.thr t (.running (.insert s.mem.next))⟩ ∧
      m.students = Function.update s.mem.students s.mem.next (some (studentMalloc rollNo)) ∧
      m.next = s.mem.next + 1 ∧ m.studLst = { s.mem.studLst with rwLock := ⟨0, true⟩ } := by
  have hexec : ∀ l x m, crudExec kind t l x m = createFn l x m := by
    intro l x m
    simp only [crudExec, hkind]
  have h₀ : (crudMachine kind).Reachable
      ⟨s.mem, Function.update s.thr t (.running .idle)⟩ := by
    rw [← hthr, Function.update_eq_self]
    exact hs
  have hlock : crudExec kind t .idle rollNo s.mem =
      .done (s.mem.setLock ⟨0, true⟩) [] (.running (.createLookup rollNo)) := by
    rw [hexec]
    show lockStudLst true s.mem (.createLookup rollNo) = _
    rw [lockStudLst, hfree]
    rfl
  have h₁ := reachable_next h₀ rollNo hlock
  have hfound : crudExec kind t (.createLookup rollNo) 0 (s.mem.setLock ⟨0, true⟩) =
      .done (s.mem.setLock ⟨0, true⟩) [] (.running (.malloc rollNo)) := by
    rw [hexec]
    show Effect.call (studentLstLookup s.mem.students rollNo s.mem.studLst.lst) _ = _
    rw [hlookup]
    rfl
  have h₂ := reachable_next h₁ 0 hfound
  have h₃ := reachable_next h₂ 0 (hexec (.malloc rollNo) 0 (s.mem.setLock ⟨0, true⟩))
  exact ⟨_, h₃, rfl, rfl, rfl⟩

/-- A creator adds a student with a new roll number, if nobody has the list locked. -/
theorem exists_created {s : CrudConfig τ} (hs : (crudMachine kind).Reachable s)
    (hkind : kind t = .createTh) (hthr : s.thr t = .running .idle)
    (hfree : s.mem.studLst.rwLock = .free) {rollNo : UInt32}
    (hlookup : studentLstLookup s.mem.students rollNo s.mem.studLst.lst = some none)
    (hnext : s.mem.next ∉ s.mem.studLst.lst) :
    ∃ s', (crudMachine kind).Reachable s' ∧ s'.thr = s.thr ∧ s'.mem.next = s.mem.next + 1 ∧
      s'.mem.students = Function.update s.mem.students s.mem.next
        (some (refCountInc (studentMalloc rollNo))) ∧
      s'.mem.studLst =
        ⟨s.mem.next :: s.mem.studLst.lst, countUp 32 s.mem.studLst.nodeCount, .free⟩ := by
  have hexec : ∀ l x m, crudExec kind t l x m = createFn l x m := by
    intro l x m
    simp only [crudExec, hkind]
  obtain ⟨m, h₃, hstudents, hm, hlst⟩ := exists_malloced hs hkind hthr hfree hlookup
  have hnew : m.students s.mem.next = some (studentMalloc rollNo) := by
    rw [hstudents, Function.update_self]
  have habsent : studentLstLookup m.students rollNo m.studLst.lst = some none := by
    rw [hstudents, hlst]
    exact (studentLstLookup_update hnext _ rollNo).trans hlookup
  have hget : singlyLlGetNodeByDataPtr m.studLst s.mem.next = false := by
    rw [hlst]
    exact not_singlyLlGetNodeByDataPtr hnext
  have hinsert : crudExec kind t (.insert s.mem.next) 0 m =
      .done
        { m with
          studLst :=
            { m.studLst with
              lst := s.mem.next :: m.studLst.lst, nodeCount := countUp 32 m.studLst.nodeCount } }
        [] (.running (.countIn s.mem.next)) := by
    rw [hexec]
    show Effect.call (studentLstInsert m.students m.studLst s.mem.next) _ = _
    rw [studentLstInsert, hnew]
    show Effect.call ((studentLstLookup m.students rollNo m.studLst.lst).map _) _ = _
    rw [habsent]
    show (if true = true then Effect.done { m with studLst := singlyLlAddNodeByVal _ _ } [] _
      else .abort) = _
    rw [if_pos rfl, singlyLlAddNodeByVal, hget]
    rfl
  obtain ⟨m₁, h₄, hm₁⟩ : ∃ m₁, (crudMachine kind).Reachable
      ⟨m₁, Function.update s.thr t (.running (.countIn s.mem.next))⟩ ∧
      m₁.students = m.students ∧ m₁.next = m.next ∧ m₁.studLst =
        ⟨s.mem.next :: s.mem.studLst.lst, countUp 32 s.mem.studLst.nodeCount, ⟨0, true⟩⟩ := by
    refine ⟨_, reachable_next h₃ 0 hinsert, rfl, rfl, ?_⟩
    rw [hlst]
  obtain ⟨hstudents₁, hnext₁, hlst₁⟩ := hm₁
  rw [← hstudents₁] at hnew hstudents
  have hcount : crudExec kind t (.countIn s.mem.next) 0 m₁ =
      .done (m₁.setStudent s.mem.next (some (refCountInc (studentMalloc rollNo)))) []
        (.running .unlockWrite) :=
    (hexec _ _ _).trans (onStudent_eq hnew refCountInc .unlockWrite)
  have h₅ := reachable_next h₄ 0 hcount
  -- and the list is unlocked again
  have hunlock : crudExec kind t .unlockWrite 0
      (m₁.setStudent s.mem.next (some (refCountInc (studentMalloc rollNo)))) =
      .done
        ((m₁.setStudent s.mem.next (some (refCountInc (studentMalloc rollNo)))).setLock .free) []
        (.running .idle) := by
    rw [hexec]
    show unlockStudLst (m₁.setStudent s.mem.next (some (refCountInc (studentMalloc rollNo)))) .idle = _
    rw [unlockStudLst, Crud.studLst_setStudent, hlst₁]
    rfl
  have h₆ := reachable_next h₅ 0 hunlock
  refine ⟨_, h₆, ?_, hnext₁.trans hm, ?_, ?_⟩
  · show Function.update s.thr t (.running .idle) = s.thr
    rw [← hthr, Function.update_eq_self]
  · show Function.update m₁.students s.mem.next _ = _
    rw [hstudents, Function.update_idem]
  · show { m₁.studLst with rwLock := .free } = _
    rw [hlst₁]

end Run

section Readers

variable {N : Nat}

/-- One creator, and readers. -/
def readersAndCreator (N : Nat) : Option (Fin N) → ThType
  | none => .createTh
  | some _ => .readerTh

/-- The first `k` readers have found the only student, and counted themselves. -/
structure Crowd (s : CrudConfig (Option (Fin N))) (k : Nat) : Prop where
  student : s.mem.students 0 = some ⟨0, 0, (k + 1) % 2 ^ 32, .free⟩
  lst : s.mem.studLst.lst = [0]
  writer : s.mem.studLst.rwLock.writer = false
  idle : ∀ i : Fin N, k ≤ i.val → s.thr (some i) = .running .idle
  nobody : ∀ t, (s.thr t).loc.holds true = false

/-- The creator comes first. -/
theorem exists_crowd (N : Nat) :
    ∃ s, (crudMachine (readersAndCreator N)).Reachable s ∧ Crowd s 0 := by
  have hfresh : (crudMachine (readersAndCreator N)).Reachable (freshCrud (Option (Fin N))) :=
    .init rfl
  have hnew : (freshCrud (Option (Fin N))).mem.next ∉
      (freshCrud (Option (Fin N))).mem.studLst.lst := List.not_mem_nil
  obtain ⟨s, hs, hthr, -, hstudents, hlst⟩ :=
    exists_created (t := none) hfresh rfl rfl rfl (rfl : studentLstLookup _ 0 [] = _) hnew
  refine ⟨s, hs, ?_⟩
  constructor
  · rw [hstudents]
    show Function.update _ 0 _ 0 = _
    rw [Function.update_self]
    simp [refCountInc, studentMalloc, countUp]
  · rw [hlst]
    rfl
  · rw [hlst]
    rfl
  · intro i _
    rw [hthr]
    rfl
  · intro t
    rw [hthr]
    rfl

/-- The next reader comes. -/
theorem Crowd.next {s : CrudConfig (Option (Fin N))} {k : Nat} (h : Crowd s k) (hk : k < N)
    (hs : (crudMachine (readersAndCreator N)).Reachable s) :
    ∃ s', (crudMachine (readersAndCreator N)).Reachable s' ∧ Crowd s' (k + 1) := by
  let t : Option (Fin N) := some ⟨k, hk⟩
  obtain ⟨lk, hlock, hwriter⟩ : ∃ lk, s.mem.studLst.rwLock.lock false = some lk ∧
      lk.writer = false := by
    refine ⟨{ s.mem.studLst.rwLock with readers := s.mem.studLst.rwLock.readers + 1 }, ?_, h.writer⟩
    simp [RwLock.lock, RwLock.rdlock, h.writer]
  have hlookup : studentLstLookup s.mem.students 0 s.mem.studLst.lst = some (some 0) := by
    simp [studentLstLookup, h.student, h.lst]
  have h₀ : (crudMachine (readersAndCreator N)).Reachable
      ⟨s.mem, Function.update s.thr t (.running .idle)⟩ := by
    rw [← h.idle ⟨k, hk⟩ (Nat.le_refl k), Function.update_eq_self]
    exact hs
  -- it locks the list for reading,
  have hlock₁ : crudExec (readersAndCreator N) t .idle 0 s.mem =
      .done (s.mem.setLock lk) [] (.running (.lookup 0)) := by
    show lockStudLst false s.mem (.lookup 0) = _
    rw [lockStudLst, hlock]
  have h₁ := reachable_next h₀ 0 hlock₁
  -- finds the student,
  have hlookup₂ : crudExec (readersAndCreator N) t (.lookup 0) 0 (s.mem.setLock lk) =
      .done (s.mem.setLock lk) [] (.running (.use 0)) := by
    show Effect.call (studentLstLookup s.mem.students 0 s.mem.studLst.lst) _ = _
    rw [hlookup]
    rfl
  have h₂ := reachable_next h₁ 0 hlookup₂
  have hstud : (s.mem.setLock lk).students 0 = some ⟨0, 0, (k + 1) % 2 ^ 32, .free⟩ := h.student
  -- and counts itself
  have huse₃ : crudExec (readersAndCreator N) t (.use 0) 0 (s.mem.setLock lk) = _ :=
    onStudent_eq hstud threadUsingObject (.lockStudent 0)
  have h₃ := reachable_next h₂ 0 huse₃
  refine ⟨_, h₃, ?_⟩
  constructor
  · show Function.update s.mem.students 0 _ 0 = _
    rw [Function.update_self, threadUsingObject, refCountInc, countUp_mod]
    rfl
  · exact h.lst
  · exact hwriter
  · intro i hi
    have hne : some i ≠ t := by
      intro heq
      have hval := congrArg Fin.val (Option.some.inj heq)
      simp only at hval
      omega
    show Function.update s.thr t _ (some i) = _
    rw [Function.update_of_ne hne]
    exact h.idle i (by omega)
  · intro u
    show (Function.update s.thr t _ u).loc.holds true = false
    by_cases hu : u = t
    · rw [hu, Function.update_self]
      rfl
    · rw [Function.update_of_ne hu]
      exact h.nobody u

/-- Any number of readers come. -/
theorem exists_crowd_of_le (N : Nat) {k : Nat} (hk : k ≤ N) :
    ∃ s, (crudMachine (readersAndCreator N)).Reachable s ∧ Crowd s k := by
  induction k with
  | zero => exact exists_crowd N
  | succ k ih =>
      obtain ⟨s, hs, hcrowd⟩ := ih (Nat.le_of_succ_le hk)
      exact hcrowd.next hk hs

/-- A count of 32 bits is zero again when as many readers have come as it can count: nobody changes the
list, which holds the student, and the count is not the number of references. -/
theorem Crowd.not_countsReferences {s : CrudConfig (Option (Fin N))} (h : Crowd s (2 ^ 32 - 1)) :
    ¬ CountsReferences s := by
  intro hcounts
  have hzero := hcounts 0 _ h.student
  have hlisted : listed s.mem 0 = 1 := by
    apply listed_of_mem
    rw [h.lst]
    exact List.mem_singleton_self 0
  rw [hlisted] at hzero
  simp only at hzero
  omega

end Readers

section Full

/-- A creator and a deleter. -/
def creatorAndDeleter : Bool → ThType
  | false => .createTh
  | true => .deleteTh

/-- The list holds students with the first `k` roll numbers, and both threads are at the top of their
loops. -/
structure Filled (s : CrudConfig Bool) (k : Nat) : Prop where
  idle : ∀ t, s.thr t = .running .idle
  free : s.mem.studLst.rwLock = .free
  length : s.mem.studLst.lst.length = k
  nodeCount : s.mem.studLst.nodeCount = k % 2 ^ 32
  old : ∀ o ∈ s.mem.studLst.lst, o < s.mem.next
  student : ∀ o ∈ s.mem.studLst.lst, ∃ rollNo, rollNo.toNat < k ∧
    s.mem.students o = some (refCountInc (studentMalloc rollNo))

theorem Filled.fresh : Filled (freshCrud Bool) 0 where
  idle _ := rfl
  free := rfl
  length := rfl
  nodeCount := rfl
  old o ho := by cases ho
  student o ho := by cases ho

theorem Filled.allocated {s : CrudConfig Bool} {k : Nat} (h : Filled s k) :
    ∀ o ∈ s.mem.studLst.lst, (s.mem.students o).isSome = true := by
  intro o ho
  obtain ⟨rollNo, -, hstud⟩ := h.student o ho
  rw [hstud]
  rfl

/-- The creator adds a student with the next roll number. -/
theorem Filled.next {s : CrudConfig Bool} {k : Nat} (h : Filled s k) (hk : k < 2 ^ 32)
    (hs : (crudMachine creatorAndDeleter).Reachable s) :
    ∃ s', (crudMachine creatorAndDeleter).Reachable s' ∧ Filled s' (k + 1) := by
  have hroll : (UInt32.ofNat k).toNat = k := by
    rw [UInt32.toNat_ofNat', Nat.mod_eq_of_lt hk]
  have hlookup : studentLstLookup s.mem.students (.ofNat k) s.mem.studLst.lst = some none := by
    rcases studentLstLookup_spec (.ofNat k) h.allocated with
      ⟨hnone, -⟩ | ⟨o, stud, -, ho, hstud, heq⟩
    · exact hnone
    · obtain ⟨rollNo, hlt, hstud'⟩ := h.student o ho
      rw [hstud'] at hstud
      cases hstud
      have hroll' : rollNo = .ofNat k := heq
      rw [hroll', hroll] at hlt
      exact absurd hlt (Nat.lt_irrefl k)
  have hnew : s.mem.next ∉ s.mem.studLst.lst := fun ho => Nat.lt_irrefl _ (h.old _ ho)
  obtain ⟨s', hs', hthr, hnext, hstudents, hlst⟩ :=
    exists_created (t := false) hs rfl (h.idle false) h.free hlookup hnew
  refine ⟨s', hs', ?_⟩
  constructor
  · intro t
    rw [hthr]
    exact h.idle t
  · rw [hlst]
  · rw [hlst, List.length_cons, h.length]
  · rw [hlst, h.nodeCount]
    exact countUp_mod 32 k
  · intro o ho
    rw [hlst] at ho
    rw [hnext]
    rcases List.mem_cons.mp ho with rfl | ho
    · exact Nat.lt_succ_self _
    · exact Nat.lt_succ_of_lt (h.old o ho)
  · intro o ho
    rw [hlst] at ho
    rw [hstudents]
    rcases List.mem_cons.mp ho with rfl | ho
    · refine ⟨.ofNat k, ?_, Function.update_self _ _ _⟩
      omega
    · obtain ⟨rollNo, hlt, hstud⟩ := h.student o ho
      refine ⟨rollNo, Nat.lt_succ_of_lt hlt, ?_⟩
      rw [Function.update_of_ne (Nat.ne_of_lt (h.old o ho))]
      exact hstud

/-- The list may hold students with all roll numbers. -/
theorem exists_filled {k : Nat} (hk : k ≤ 2 ^ 32) :
    ∃ s, (crudMachine creatorAndDeleter).Reachable s ∧ Filled s k := by
  induction k with
  | zero => exact ⟨freshCrud Bool, .init rfl, .fresh⟩
  | succ k ih =>
      obtain ⟨s, hs, hfilled⟩ := ih (Nat.le_of_succ_le hk)
      exact hfilled.next hk hs

/-- A deleter whose student nobody else counts counts it down to zero and destroys it. -/
theorem exists_destroyed {m : Crud Bool} {thr : Bool → Status Empty CrudLoc} {o : Nat} {rollNo : UInt32}
    (hs : (crudMachine creatorAndDeleter).Reachable
      ⟨m, Function.update thr true (.running (.countOut o))⟩)
    (hstud : m.students o = some (threadUsingObject (refCountInc (studentMalloc rollNo))))
    (hlock : m.studLst.rwLock = ⟨0, true⟩) :
    ∃ s', (crudMachine creatorAndDeleter).Reachable s' ∧ s'.mem.studLst.lst = m.studLst.lst ∧
      s'.mem.students o = none := by
  have hdec : refCountDec (threadUsingObject (refCountInc (studentMalloc rollNo))) =
      some (false, refCountInc (studentMalloc rollNo)) := by
    simp [refCountDec, threadUsingObject, refCountInc, studentMalloc, countUp, countDown]
  -- the reference of the list is given back,
  have hcountOut : crudExec creatorAndDeleter true (.countOut o) 0 m =
      .done (m.setStudent o (some (refCountInc (studentMalloc rollNo)))) []
        (.running (.unlockRemoved o)) := by
    show Effect.call (m.students o) _ = _
    rw [hstud]
    show Effect.call (refCountDec _) _ = _
    rw [hdec]
    exact onStudent_eq hstud _ _
  obtain ⟨m₁, h₁, hstud₁, hlst₁⟩ : ∃ m₁, (crudMachine creatorAndDeleter).Reachable
      ⟨m₁, Function.update thr true (.running (.unlockRemoved o))⟩ ∧
      m₁.students o = some (refCountInc (studentMalloc rollNo)) ∧ m₁.studLst = m.studLst :=
    ⟨_, reachable_next hs 0 hcountOut, Function.update_self _ _ _, rfl⟩
  -- the list is unlocked,
  have hunlock : crudExec creatorAndDeleter true (.unlockRemoved o) 0 m₁ =
      .done (m₁.setLock .free) [] (.running (.done o)) := by
    show unlockStudLst m₁ (.done o) = _
    rw [unlockStudLst, hlst₁, hlock]
    rfl
  have h₂ := reachable_next h₁ 0 hunlock
  have hzero : refCountDec (refCountInc (studentMalloc rollNo)) = some (true, studentMalloc rollNo) := by
    simp [refCountDec, refCountInc, studentMalloc, countUp, countDown]
  -- the own reference is the last,
  have hdone : crudExec creatorAndDeleter true (.done o) 0 (m₁.setLock .free) =
      .done
        { (m₁.setLock .free).setStudent o (some (studentMalloc rollNo)) with
          zeroed := m₁.zeroed ++ [(o, true)] }
        [] (.running (.destroy o)) := by
    show Effect.call (m₁.students o) _ = _
    rw [hstud₁]
    show Effect.call (refCountDec _) _ = _
    rw [hzero]
    rfl
  obtain ⟨m₂, h₃, hstud₂, hlst₂⟩ : ∃ m₂, (crudMachine creatorAndDeleter).Reachable
      ⟨m₂, Function.update thr true (.running (.destroy o))⟩ ∧
      m₂.students o = some (studentMalloc rollNo) ∧ m₂.studLst.lst = m.studLst.lst := by
    refine ⟨_, reachable_next h₂ 0 hdone, Function.update_self _ _ _, ?_⟩
    show m₁.studLst.lst = m.studLst.lst
    rw [hlst₁]
  -- and the student is freed
  have hdestroy : crudExec creatorAndDeleter true (.destroy o) 0 m₂ =
      .done
        { m₂ with
          students := Function.update m₂.students o none, destroyed := m₂.destroyed ++ [(o, true)] }
        [] (.running .idle) := by
    show Effect.call (studentDestroy m₂.students o) _ = _
    rw [studentDestroy, hstud₂]
    rfl
  exact ⟨_, reachable_next h₃ 0 hdestroy, hlst₂, Function.update_self _ _ _⟩

/-- With 2^32 students in the list, the counter says that there is none: a student is destroyed and stays
in the list. -/
theorem Filled.exists_dangling {s : CrudConfig Bool} (h : Filled s (2 ^ 32))
    (hs : (crudMachine creatorAndDeleter).Reachable s) :
    ∃ s', (crudMachine creatorAndDeleter).Reachable s' ∧
      ∃ o ∈ s'.mem.studLst.lst, s'.mem.students o = none := by
  have hpos : 0 < s.mem.studLst.lst.length := by
    rw [h.length]
    exact Nat.two_pow_pos 32
  obtain ⟨first, hfirst⟩ := List.exists_mem_of_length_pos hpos
  obtain ⟨rollNo, -, hroll⟩ := h.student first hfirst
  -- the roll number of the first student is looked up
  obtain ⟨o, ho, hfound⟩ : ∃ o, o ∈ s.mem.studLst.lst ∧
      studentLstLookup s.mem.students rollNo s.mem.studLst.lst = some (some o) := by
    rcases studentLstLookup_spec rollNo h.allocated with ⟨-, habsent⟩ | ⟨o, _, hfound, ho, -, -⟩
    · exact absurd rfl (habsent first hfirst _ hroll)
    · exact ⟨o, ho, hfound⟩
  obtain ⟨rollNo', -, hstud⟩ := h.student o ho
  have hremoved : studentLstRemove s.mem.students (s.mem.setLock ⟨0, true⟩).studLst rollNo =
      some (some o, (s.mem.setLock ⟨0, true⟩).studLst) := by
    have hzero : s.mem.studLst.nodeCount = 0 := by
      rw [h.nodeCount, Nat.mod_self]
    simp [studentLstRemove, hfound, singlyLlDeleteNodeByDataPtr, singlyLlGetNodeByDataPtr,
      Crud.setLock, hzero]
  have h₀ : (crudMachine creatorAndDeleter).Reachable
      ⟨s.mem, Function.update s.thr true (.running .idle)⟩ := by
    rw [← h.idle true, Function.update_eq_self]
    exact hs
  have hlock : crudExec creatorAndDeleter true .idle rollNo s.mem =
      .done (s.mem.setLock ⟨0, true⟩) [] (.running (.remove rollNo)) := by
    show lockStudLst true s.mem (.remove rollNo) = _
    rw [lockStudLst, h.free]
    rfl
  have h₁ := reachable_next h₀ rollNo hlock
  have hremove : crudExec creatorAndDeleter true (.remove rollNo) 0 (s.mem.setLock ⟨0, true⟩) =
      .done (s.mem.setLock ⟨0, true⟩) [] (.running (.useRemoved o)) := by
    show Effect.call (studentLstRemove s.mem.students _ rollNo) _ = _
    rw [hremoved]
    rfl
  have h₂ := reachable_next h₁ 0 hremove
  have hstud₁ : (s.mem.setLock ⟨0, true⟩).students o = some (refCountInc (studentMalloc rollNo')) :=
    hstud
  have huse : crudExec creatorAndDeleter true (.useRemoved o) 0 (s.mem.setLock ⟨0, true⟩) = _ :=
    onStudent_eq hstud₁ threadUsingObject (.countOut o)
  -- the count goes from one to two, and down to zero, and the list keeps the student
  obtain ⟨s', hs', hlst, hgone⟩ := exists_destroyed (reachable_next h₂ 0 huse)
    (Function.update_self ..) rfl
  refine ⟨s', hs', o, ?_, hgone⟩
  rw [hlst]
  exact ho

end Full

/-- Counts are right in all states of all runs. -/
def AlwaysCounts : Prop :=
  ∀ (N : Nat) (kind : Fin N → ThType) (s : CrudConfig (Fin N)), (crudMachine kind).Reachable s →
    CountsReferences s

/-- Counts are right in all states in which nobody has the list locked for writing. -/
def SettledCounts (τ : Type*) [Fintype τ] [DecidableEq τ] (kind : τ → ThType) : Prop :=
  ∀ s, (crudMachine kind).Reachable s → (∀ t, (s.thr t).loc.holds true = false) → CountsReferences s

/-- No student in the list has been destroyed. -/
def ListAllocated (τ : Type*) [Fintype τ] [DecidableEq τ] (kind : τ → ThType) : Prop :=
  ∀ s, (crudMachine kind).Reachable s → ∀ o ∈ s.mem.studLst.lst, s.mem.students o ≠ none

/-- The count is not the number of references between the insertion and the count of the creator, nor with
2^32 - 1 readers; and with 2^32 students a student is destroyed while it is in the list. -/
theorem crud_safe_fails : ¬ AlwaysCounts ∧
    ¬ SettledCounts _ (readersAndCreator (2 ^ 32 - 1)) ∧ ¬ ListAllocated _ creatorAndDeleter := by
  refine ⟨?_, ?_, ?_⟩
  · intro h
    have hrun : ((crudMachine fun _ : Fin 1 => ThType.createTh).exec (freshCrud (Fin 1))
        (List.replicate 4 (.run 0 3 []))).holds
        (fun s => decide (s.mem.studLst.lst = [0] ∧ (s.mem.students 0).map Student.refCount = some 0)) =
          true := by
      decide +kernel
    obtain ⟨s, hs, hp⟩ := Machine.exists_reachable_of_exec rfl hrun
    obtain ⟨hlst, hstud⟩ := of_decide_eq_true hp
    obtain ⟨stud, hstud, hzero⟩ := Option.map_eq_some_iff.mp hstud
    have hcounts := h 1 _ s hs 0 stud hstud
    have hlisted : listed s.mem 0 = 1 := by
      apply listed_of_mem
      rw [hlst]
      exact List.mem_singleton_self 0
    rw [hzero, hlisted] at hcounts
    omega
  · intro h
    obtain ⟨s, hs, hcrowd⟩ := exists_crowd_of_le (2 ^ 32 - 1) (Nat.le_refl _)
    exact hcrowd.not_countsReferences (h s hs hcrowd.nobody)
  · intro h
    obtain ⟨s, hs, hfilled⟩ := exists_filled (Nat.le_refl (2 ^ 32))
    obtain ⟨s', hs', o, ho, hnone⟩ := hfilled.exists_dangling hs
    exact h s' hs' o ho hnone

end StudentCrud
end MultithreadingBible
