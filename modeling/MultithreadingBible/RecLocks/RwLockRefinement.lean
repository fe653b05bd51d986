import Mathlib.Data.Multiset.Count
import Mathlib.Algebra.Order.BigOperators.Group.Multiset
import MultithreadingBible.RecLocks.RwLock

/-!
# Recursive reader-writer lock: what it is for

The abstract lock says who holds it: nobody, a non-empty multiset of readers, or one writer with a
positive depth.  `recRwLock_refines` says that the fields of the concrete lock are at every step the
image of an abstract lock whose holders are the holds of the threads, that each request is granted or
refused exactly as the abstract lock says, and that no assertion fails.

* `AbsLock` — the abstract lock, its requests and its unlocking.
* `rwLockRdLock_eq` … `rwLockUnlock_eq` — one lemma for each function of the code, over one lock.
* `Abstracts.run` — the simulation of one step.
-/

namespace MultithreadingBible
namespace RecLocks

open Lib
open RwLocks (Access)

/-- Who holds the lock. -/
inductive AbsLock (τ : Type*) where
  | free
  | readers (holders : Multiset τ) (h : holders ≠ 0)
  | writer (owner : τ) (depth : Nat) (h : 0 < depth)

variable {τ : Type*} [DecidableEq τ]

namespace AbsLock

/-- A request of `t` for the lock: `none` where it has to wait. -/
def request (t : τ) : Access → AbsLock τ → Option (AbsLock τ)
  | .reader, free => some (readers {t} (Multiset.singleton_ne_zero t))
  | .reader, readers holders _ => some (readers (t ::ₘ holders) (Multiset.cons_ne_zero))
  | .reader, writer _ _ _ => none
  | .writer, free => some (writer t 1 Nat.one_pos)
  | .writer, readers _ _ => none
  | .writer, writer owner depth _ =>
      if owner = t then some (writer owner (depth + 1) (Nat.succ_pos depth)) else none

/-- The lock with these readers. -/
def ofReaders (holders : Multiset τ) : AbsLock τ :=
  if h : holders = 0 then free else readers holders h

/-- The lock with this writer. -/
def ofWriter (owner : τ) (depth : Nat) : AbsLock τ :=
  if h : 0 < depth then writer owner depth h else free

/-- Thread `t` gives one hold back: `none` where it has none. -/
def unlock (t : τ) : AbsLock τ → Option (AbsLock τ)
  | free => none
  | readers holders _ => if t ∈ holders then some (ofReaders (holders.erase t)) else none
  | writer owner depth _ => if owner = t then some (ofWriter owner (depth - 1)) else none

/-- The number of holds. -/
def total : AbsLock τ → Nat
  | free => 0
  | readers holders _ => holders.card
  | writer _ depth _ => depth

/-- The holds of one thread. -/
def holdsOf (t : τ) : AbsLock τ → Access → Nat
  | readers holders _, .reader => holders.count t
  | writer owner depth _, .writer => if owner = t then depth else 0
  | _, _ => 0

/-- `n_locks`, `is_locked_by_reader`, `is_locked_by_writer` and `writer_thread` -/
def image : AbsLock τ → Nat × Bool × Bool × Option τ
  | free => (0, false, false, none)
  | readers holders _ => (holders.card, true, false, none)
  | writer owner depth _ => (depth, false, true, some owner)

/-- The last hold frees the lock, and no other does. -/
theorem unlock_free_iff {t : τ} {A A' : AbsLock τ} (h : A.unlock t = some A') :
    A' = free ↔ A.total = 1 := by
  cases A with
  | free => cases h
  | readers holders hne =>
      simp only [unlock] at h
      split at h
      · next hmem =>
        cases h
        have hcard := Multiset.card_erase_add_one hmem
        show ofReaders (holders.erase t) = free ↔ holders.card = 1
        by_cases hnone : holders.erase t = 0
        · rw [hnone, Multiset.card_zero] at hcard
          simp [ofReaders, hnone, ← hcard]
        · have hsome := Multiset.card_pos.mpr hnone
          simp only [ofReaders, hnone, dite_false, reduceCtorEq, false_iff]
          omega
      · cases h
  | writer owner depth hpos =>
      simp only [unlock] at h
      split at h
      · cases h
        show ofWriter owner (depth - 1) = free ↔ depth = 1
        by_cases hleft : 0 < depth - 1
        · simp only [ofWriter, hleft, dite_true, reduceCtorEq, false_iff]
          omega
        · simp only [ofWriter, hleft, dite_false, true_iff]
          omega
      · cases h

/-- A grant adds one hold of the thread. -/
theorem holdsOf_request {t : τ} {k : Access} {A A' : AbsLock τ} (h : A.request t k = some A')
    (u : τ) (k' : Access) :
    A'.holdsOf u k' = A.holdsOf u k' + if u = t ∧ k' = k then 1 else 0 := by
  cases A with
  | free =>
      cases k with
      | reader =>
          cases h
          cases k' <;> simp [holdsOf, Multiset.count_singleton]
      | writer =>
          cases h
          cases k' <;> simp [holdsOf, eq_comm]
  | readers holders hne =>
      cases k with
      | reader =>
          cases h
          cases k' <;> simp [holdsOf, Multiset.count_cons]
      | writer => cases h
  | writer owner depth hpos =>
      cases k with
      | reader => cases h
      | writer =>
          simp only [request] at h
          split at h
          · next howner =>
            cases h
            subst howner
            by_cases hu : u = owner
            · subst hu
              cases k' <;> simp [holdsOf]
            · cases k' <;> simp [holdsOf, hu, Ne.symm hu]
          · cases h

/-- Unlocking takes one hold of the thread away. -/
theorem holdsOf_unlock {t : τ} {A A' : AbsLock τ} (h : A.unlock t = some A') :
    (∀ u k, u ≠ t → A'.holdsOf u k = A.holdsOf u k) ∧
      A'.holdsOf t .reader = A.holdsOf t .reader - 1 ∧
        A'.holdsOf t .writer =
          if A.holdsOf t .reader = 0 then A.holdsOf t .writer - 1 else A.holdsOf t .writer := by
  cases A with
  | free => cases h
  | readers holders hne =>
      simp only [unlock] at h
      split at h
      · next hmem =>
        cases h
        have hreader : ∀ u, (ofReaders (holders.erase t)).holdsOf u .reader =
            (holders.erase t).count u := by
          intro u
          by_cases hnone : holders.erase t = 0 <;> simp [ofReaders, hnone, holdsOf]
        have hwriter : ∀ u, (ofReaders (holders.erase t)).holdsOf u .writer = 0 := by
          intro u
          by_cases hnone : holders.erase t = 0 <;> simp [ofReaders, hnone, holdsOf]
        refine ⟨fun u k hu => ?_, ?_, ?_⟩
        · cases k with
          | reader =>
              rw [hreader]
              exact Multiset.count_erase_of_ne hu holders
          | writer => exact hwriter u
        · rw [hreader]
          exact Multiset.count_erase_self t holders
        · rw [hwriter]
          show 0 = if holders.count t = 0 then 0 - 1 else 0
          split <;> rfl
      · cases h
  | writer owner depth hpos =>
      simp only [unlock] at h
      split at h
      · next howner =>
        cases h
        subst howner
        by_cases hleft : 0 < depth - 1
        · refine ⟨fun u k hu => ?_, ?_, ?_⟩
          · cases k <;> simp [ofWriter, hleft, holdsOf, Ne.symm hu]
          · simp [ofWriter, hleft, holdsOf]
          · simp [ofWriter, hleft, holdsOf]
        · have hlast : depth - 1 = 0 := by omega
          refine ⟨fun u k hu => ?_, ?_, ?_⟩
          · cases k <;> simp [ofWriter, hleft, holdsOf, Ne.symm hu]
          · simp [ofWriter, hleft, holdsOf]
          · simp [ofWriter, holdsOf, hlast]
      · cases h

/-- Whoever has a hold may unlock. -/
theorem unlock_isSome {t : τ} {A : AbsLock τ}
    (h : A.holdsOf t .reader + A.holdsOf t .writer ≠ 0) : ∃ A', A.unlock t = some A' := by
  cases A with
  | free => exact absurd rfl h
  | readers holders hne =>
      have hmem : t ∈ holders := by
        apply Multiset.count_pos.mp
        exact Nat.pos_of_ne_zero h
      exact ⟨_, if_pos hmem⟩
  | writer owner depth hpos =>
      have howner : owner = t := by
        by_contra hother
        apply h
        simp [holdsOf, hother]
      exact ⟨_, if_pos howner⟩

/-- The holds of all threads. -/
theorem sum_holdsOf [Fintype τ] (A : AbsLock τ) :
    ∑ t, (A.holdsOf t .reader + A.holdsOf t .writer) = A.total := by
  cases A with
  | free => simp [holdsOf, total]
  | readers holders hne =>
      show ∑ t, (holders.count t + 0) = holders.card
      simp only [Nat.add_zero]
      exact Multiset.sum_count_eq_card fun t _ => Finset.mem_univ t
  | writer owner depth hpos =>
      show ∑ t, (0 + if owner = t then depth else 0) = depth
      simp

end AbsLock

/-- The fields of the lock that tell who holds it. -/
def RwLock.view (m : RwLock τ) : Nat × Bool × Bool × Option τ :=
  (m.nLocks, m.isLockedByReader, m.isLockedByWriter, m.writerThread)

/-- The lock after a grant to `t`. -/
def RwLock.grant (m : RwLock τ) (t : τ) : Access → RwLock τ
  | .reader => { m with nLocks := countUp 16 m.nLocks, isLockedByReader := true }
  | .writer =>
      { m with nLocks := countUp 16 m.nLocks, isLockedByWriter := true, writerThread := some t }

/-- The answer of the abstract lock, carried out on the concrete one. -/
def RwLock.answer (m : RwLock τ) (A : AbsLock τ) (t : τ) (k : Access) : LockResult τ :=
  if (A.request t k).isSome then .granted (m.grant t k) else .waits (m.countWaiting k)

section Operations

variable {m : RwLock τ} {A A' : AbsLock τ} {t : τ} {k : Access}

omit [DecidableEq τ] in
/-- The fields as `image` gives them. -/
theorem RwLock.view_eq {n : Nat} {r w : Bool} {o : Option τ} (h : m.view = (n, r, w, o)) :
    m.nLocks = n ∧ m.isLockedByReader = r ∧ m.isLockedByWriter = w ∧ m.writerThread = o := by
  simpa [view] using h

theorem rdLockLoop_eq (h : m.view = A.image) (t : τ) :
    rdLockLoop m = some (m.answer A t .reader) := by
  cases A with
  | free =>
      obtain ⟨hn, hr, hw, ho⟩ := RwLock.view_eq h
      simp [rdLockLoop, RwLock.answer, AbsLock.request, RwLock.grant, hn, hw, ho]
  | readers holders hne =>
      obtain ⟨hn, hr, hw, ho⟩ := RwLock.view_eq h
      have hpos : m.nLocks ≠ 0 := by rw [hn]; exact fun hz => hne (Multiset.card_eq_zero.mp hz)
      cases m
      simp_all [rdLockLoop, RwLock.answer, AbsLock.request, RwLock.grant]
  | writer owner depth hpos =>
      obtain ⟨hn, hr, hw, ho⟩ := RwLock.view_eq h
      have hne : m.nLocks ≠ 0 := by omega
      simp [rdLockLoop, RwLock.answer, AbsLock.request, hne, hr, hw, ho]

theorem rwLockRdLock_eq (h : m.view = A.image) (t : τ) :
    rwLockRdLock m = some (m.answer A t .reader) := by
  cases A with
  | free =>
      obtain ⟨hn, hr, hw, ho⟩ := RwLock.view_eq h
      simp [rwLockRdLock, RwLock.answer, AbsLock.request, RwLock.grant, hn, hr, hw, ho]
  | readers holders hne =>
      obtain ⟨hn, hr, hw, ho⟩ := RwLock.view_eq h
      have hpos : m.nLocks ≠ 0 := by rw [hn]; exact fun hz => hne (Multiset.card_eq_zero.mp hz)
      cases m
      simp_all [rwLockRdLock, RwLock.answer, AbsLock.request, RwLock.grant]
  | writer owner depth hpos =>
      obtain ⟨hn, hr, hw, ho⟩ := RwLock.view_eq h
      rw [← rdLockLoop_eq h t]
      simp [rwLockRdLock, hr, hw]

/-- Who waits for the lock to write does not hold it to write. -/
theorem wrLockLoop_eq (h : m.view = A.image) (hnot : A.holdsOf t .writer = 0) :
    wrLockLoop t m = some (m.answer A t .writer) := by
  cases A with
  | free =>
      obtain ⟨hn, hr, hw, ho⟩ := RwLock.view_eq h
      simp [wrLockLoop, RwLock.answer, AbsLock.request, RwLock.grant, hn, hr, hw, ho]
  | readers holders hne =>
      obtain ⟨hn, hr, hw, ho⟩ := RwLock.view_eq h
      have hpos : m.nLocks ≠ 0 := by rw [hn]; exact fun hz => hne (Multiset.card_eq_zero.mp hz)
      simp [wrLockLoop, RwLock.answer, AbsLock.request, hpos, hr, hw, ho]
  | writer owner depth hpos =>
      obtain ⟨hn, hr, hw, ho⟩ := RwLock.view_eq h
      have hother : owner ≠ t := by
        rintro rfl
        simp only [AbsLock.holdsOf, if_true] at hnot
        omega
      have hne : m.nLocks ≠ 0 := by omega
      simp [wrLockLoop, RwLock.answer, AbsLock.request, hother, hne, hr, hw, ho]

theorem rwLockWrLock_eq (h : m.view = A.image) :
    rwLockWrLock t m = some (m.answer A t .writer) := by
  cases A with
  | free =>
      obtain ⟨hn, hr, hw, ho⟩ := RwLock.view_eq h
      simp [rwLockWrLock, RwLock.answer, AbsLock.request, RwLock.grant, hn, hr, hw, ho]
  | readers holders hne =>
      obtain ⟨hn, hr, hw, ho⟩ := RwLock.view_eq h
      rw [← wrLockLoop_eq h (t := t) rfl]
      simp [rwLockWrLock, hr, hw]
  | writer owner depth hpos =>
      obtain ⟨hn, hr, hw, ho⟩ := RwLock.view_eq h
      by_cases howner : owner = t
      · have hne : m.nLocks ≠ 0 := by omega
        subst howner
        cases m
        simp_all [rwLockWrLock, RwLock.answer, AbsLock.request, RwLock.grant]
      · rw [← wrLockLoop_eq h (t := t) (if_neg howner)]
        simp [rwLockWrLock, hr, hw, ho, howner]

/-- A grant, as long as the counter has room. -/
theorem view_grant (h : m.view = A.image) (hA : A.request t k = some A')
    (hroom : A.total + 1 < 2 ^ 16) : (m.grant t k).view = A'.image := by
  cases A with
  | free =>
      obtain ⟨hn, hr, hw, ho⟩ := RwLock.view_eq h
      have hup : countUp 16 m.nLocks = 1 := by rw [hn]; exact countUp_eq hroom
      cases k <;> cases hA <;> simp [RwLock.grant, RwLock.view, AbsLock.image, hup, hr, hw, ho]
  | readers holders hne =>
      obtain ⟨hn, hr, hw, ho⟩ := RwLock.view_eq h
      have hup : countUp 16 m.nLocks = holders.card + 1 := by rw [hn]; exact countUp_eq hroom
      cases k with
      | reader =>
          cases hA
          simp [RwLock.grant, RwLock.view, AbsLock.image, hup, hw, ho]
      | writer => cases hA
  | writer owner depth hpos =>
      obtain ⟨hn, hr, hw, ho⟩ := RwLock.view_eq h
      have hup : countUp 16 m.nLocks = depth + 1 := by rw [hn]; exact countUp_eq hroom
      cases k with
      | reader => cases hA
      | writer =>
          simp only [AbsLock.request] at hA
          split at hA
          · next howner =>
            cases hA
            simp [RwLock.grant, RwLock.view, AbsLock.image, hup, hr, howner]
          · cases hA

/-- **Unlocking** does what the abstract lock does, and no assertion fails. -/
theorem rwLockUnlock_eq (h : m.view = A.image) (hA : A.unlock t = some A') :
    ∃ m' notes, rwLockUnlock t m = some (m', notes) ∧ m'.view = A'.image := by
  cases A with
  | free => cases hA
  | readers holders hne =>
      obtain ⟨hn, hr, hw, ho⟩ := RwLock.view_eq h
      have hpos : 0 < m.nLocks := by
        rw [hn]
        exact Multiset.card_pos.mpr hne
      simp only [AbsLock.unlock] at hA
      split at hA
      · next hmem =>
        cases hA
        have hcard := Multiset.card_erase_add_one hmem
        have hdown : countDown 16 m.nLocks = (holders.erase t).card := by
          rw [countDown_eq hpos]
          omega
        have hnz : m.nLocks ≠ 0 := Nat.ne_of_gt hpos
        by_cases hlast : holders.erase t = 0
        · refine ⟨{ m with nLocks := 0, isLockedByReader := false },
            wakeAll { m with nLocks := 0 }, ?_, ?_⟩
          · simp [rwLockUnlock, hnz, hr, hw, ho, hdown, hlast]
          · simp [RwLock.view, AbsLock.ofReaders, AbsLock.image, hlast, hw, ho]
        · refine ⟨{ m with nLocks := (holders.erase t).card }, [], ?_, ?_⟩
          · simp [rwLockUnlock, hnz, hr, hw, ho, hdown, hlast]
          · simp [RwLock.view, AbsLock.ofReaders, AbsLock.image, hlast, hr, hw, ho]
      · cases hA
  | writer owner depth hpos =>
      obtain ⟨hn, hr, hw, ho⟩ := RwLock.view_eq h
      simp only [AbsLock.unlock] at hA
      split at hA
      · next howner =>
        cases hA
        have hdown : countDown 16 m.nLocks = depth - 1 := by
          rw [hn]
          exact countDown_eq hpos
        have hnz : m.nLocks ≠ 0 := by omega
        by_cases hlast : depth - 1 = 0
        · refine ⟨{ m with nLocks := 0, isLockedByWriter := false, writerThread := none },
            wakeAll { m with nLocks := 0 }, ?_, ?_⟩
          · simp [rwLockUnlock, hnz, hr, hw, ho, howner, hdown, hlast]
          · simp [RwLock.view, AbsLock.ofWriter, AbsLock.image, hlast, hr]
        · refine ⟨{ m with nLocks := depth - 1 }, [], ?_, ?_⟩
          · simp [rwLockUnlock, hnz, hr, hw, ho, howner, hdown, hlast]
          · have hleft : 0 < depth - 1 := Nat.pos_of_ne_zero hlast
            simp [RwLock.view, AbsLock.ofWriter, AbsLock.image, hleft, hr, hw, ho]
      · cases hA

end Operations

/-- At this location and with this call the thread asks for `k`. -/
inductive Asks : RecLoc → RecCall → Access → Prop
  | first {reads writes : Nat} (k : Access) : Asks (.ready reads writes) (.lock k) k
  | again {reads writes : Nat} {x : RecCall} (k : Access) : Asks (.wait k reads writes) x k

/-- What a step of thread `t` does to the abstract lock. -/
inductive AbsStep (s s' : RecConfig τ) (t : τ) (x : RecCall) : AbsLock τ → AbsLock τ → Prop
  /-- Its request is granted. -/
  | granted {k : Access} {A A' : AbsLock τ} (hask : Asks (s.thr t).loc x k)
      (hA : A.request t k = some A')
      (hst : s'.thr t = .running
        (afterGrant k ((s.thr t).loc.holds .reader) ((s.thr t).loc.holds .writer))) :
      AbsStep s s' t x A A'
  /-- Its request has to wait. -/
  | waits {k : Access} {A : AbsLock τ} (hask : Asks (s.thr t).loc x k) (hA : A.request t k = none)
      (hst : s'.thr t = .waiting ()
        (.wait k ((s.thr t).loc.holds .reader) ((s.thr t).loc.holds .writer))) :
      AbsStep s s' t x A A
  /-- It gives a hold back, and frees the lock with the last one. -/
  | unlocked {reads writes : Nat} {A A' : AbsLock τ} (hask : (s.thr t).loc = .ready reads writes)
      (hx : x = .unlock) (hA : A.unlock t = some A') (hlast : A' = .free ↔ A.total = 1)
      (hst : s'.thr t = .running (afterUnlock reads writes)) : AbsStep s s' t x A A'

/-- The concrete lock is the image of the abstract one, whose holders are the threads' holds. -/
structure Abstracts (s : RecConfig τ) (A : AbsLock τ) : Prop where
  image : s.mem.view = A.image
  holds : ∀ t k, (s.thr t).loc.holds k = A.holdsOf t k
  /-- Who waits for the lock to write does not hold it to write. -/
  waits : ∀ t reads writes, (s.thr t).loc = .wait .writer reads writes → writes = 0

/-- The lock refines the abstract one from this state on. -/
structure Refines [Fintype τ] (spurious : Bool) (s : RecConfig τ) : Prop where
  asserts : ∀ a, (recProgram τ spurious).step s a ≠ .abort
  simulates : ∃ A, Abstracts s A ∧
    (∀ t x picks s', (recProgram τ spurious).step s (.run t x picks) = .next s' →
      outstanding s' < 2 ^ 16 → ∃ A', Abstracts s' A' ∧ AbsStep s s' t x A A') ∧
    ∀ t s', (recProgram τ spurious).step s (.spurious t) = .next s' → Abstracts s' A

/-- The lock as a thread finds it when it asks: it has counted itself out of the waiting threads. -/
def RwLock.seenFrom (m : RwLock τ) : RecLoc → RwLock τ
  | .ready _ _ => m
  | .wait k _ _ => m.uncountWaiting k

omit [DecidableEq τ] in
theorem RwLock.view_countWaiting (m : RwLock τ) (k : Access) : (m.countWaiting k).view = m.view := by
  cases k <;> rfl

omit [DecidableEq τ] in
theorem RwLock.view_seenFrom (m : RwLock τ) (l : RecLoc) : (m.seenFrom l).view = m.view := by
  cases l with
  | ready reads writes => rfl
  | wait k reads writes => cases k <;> rfl

section Simulation

variable {s s' : RecConfig τ} {A : AbsLock τ} {t : τ} {x : RecCall} {k : Access}
  {notes : List (Note Unit)} {st : Status Unit RecLoc} {spurious : Bool}

/-- A request is answered as the abstract lock answers it. -/
theorem Abstracts.exec (h : Abstracts s A) (hask : Asks (s.thr t).loc x k) :
    recExec t (s.thr t).loc x s.mem = ((s.mem.seenFrom (s.thr t).loc).answer A t k).effect k
      ((s.thr t).loc.holds .reader) ((s.thr t).loc.holds .writer) := by
  have hwaits := h.waits t
  have hholds := h.holds t .writer
  generalize (s.thr t).loc = l at hask hwaits hholds
  cases hask with
  | first k =>
      cases k with
      | reader => simp only [recExec, rwLockRdLock_eq h.image t, Effect.call]; rfl
      | writer => simp only [recExec, rwLockWrLock_eq h.image, Effect.call]; rfl
  | @again reads writes x k =>
      have hview : (s.mem.uncountWaiting k).view = A.image := by
        rw [← h.image]
        cases k <;> rfl
      cases k with
      | reader => simp only [recExec, rdLockLoop_eq hview t, Effect.call]; rfl
      | writer =>
          have hnot : A.holdsOf t .writer = 0 := by
            rw [← hholds]
            exact hwaits reads writes rfl
          simp only [recExec, wrLockLoop_eq hview hnot, Effect.call]
          rfl

/-- What a request does to the lock. -/
theorem Abstracts.ran_ask (h : Abstracts s A) (hran : (recProgram τ spurious).Ran s t x s' notes st)
    (hask : Asks (s.thr t).loc x k) :
    notes = [] ∧
      ((∃ A', A.request t k = some A' ∧ s'.mem = (s.mem.seenFrom (s.thr t).loc).grant t k ∧
          st = .running
            (afterGrant k ((s.thr t).loc.holds .reader) ((s.thr t).loc.holds .writer))) ∨
        (A.request t k = none ∧ s'.mem = (s.mem.seenFrom (s.thr t).loc).countWaiting k ∧
          st = .waiting ()
            (.wait k ((s.thr t).loc.holds .reader) ((s.thr t).loc.holds .writer)))) := by
  have hexec := hran.exec
  rw [show (recProgram τ spurious).exec = recExec from rfl, h.exec hask] at hexec
  cases hA : A.request t k with
  | some A' =>
      simp only [RwLock.answer, hA, Option.isSome_some, if_true, LockResult.effect,
        Effect.done.injEq] at hexec
      obtain ⟨hm, hnotes, hst⟩ := hexec
      exact ⟨hnotes.symm, .inl ⟨A', rfl, hm.symm, hst.symm⟩⟩
  | none =>
      simp only [RwLock.answer, hA, Option.isSome_none, Bool.false_eq_true, if_false,
        LockResult.effect, Effect.done.injEq] at hexec
      obtain ⟨hm, hnotes, hst⟩ := hexec
      exact ⟨hnotes.symm, .inr ⟨rfl, hm.symm, hst.symm⟩⟩

/-- A thread that gives a hold back has one. -/
theorem Abstracts.exec_unlock (h : Abstracts s A) {reads writes : Nat}
    (hl : (s.thr t).loc = .ready reads writes) (hheld : reads + writes ≠ 0) :
    ∃ A' m notes, A.unlock t = some A' ∧ m.view = A'.image ∧
      rwLockUnlock t s.mem = some (m, notes) ∧
      recExec t (s.thr t).loc .unlock s.mem = .done m notes (.running (afterUnlock reads writes)) := by
  have hr := h.holds t .reader
  have hw := h.holds t .writer
  rw [hl] at hr hw
  obtain ⟨A', hA⟩ := AbsLock.unlock_isSome (A := A) (t := t) (by rw [← hr, ← hw]; exact hheld)
  obtain ⟨m, notes, hu, hview⟩ := rwLockUnlock_eq h.image hA
  refine ⟨A', m, notes, hA, hview, hu, ?_⟩
  rw [hl]
  simp only [recExec, if_neg hheld, hu, Effect.call]

/-- What giving a hold back does to the lock. -/
theorem Abstracts.ran_unlock (h : Abstracts s A)
    (hran : (recProgram τ spurious).Ran s t .unlock s' notes st) {reads writes : Nat}
    (hl : (s.thr t).loc = .ready reads writes) :
    ∃ A', A.unlock t = some A' ∧ s'.mem.view = A'.image ∧
      rwLockUnlock t s.mem = some (s'.mem, notes) ∧ st = .running (afterUnlock reads writes) := by
  have hheld : reads + writes ≠ 0 := by
    intro hzero
    have hblocked := hran.exec
    rw [show (recProgram τ spurious).exec = recExec from rfl, hl] at hblocked
    simp [recExec, hzero] at hblocked
  obtain ⟨A', m, notes', hA, hview, hu, hexec⟩ := h.exec_unlock hl hheld
  have hran' := hran.exec
  rw [show (recProgram τ spurious).exec = recExec from rfl, hexec, Effect.done.injEq] at hran'
  obtain ⟨hm, hnotes, hst⟩ := hran'
  refine ⟨A', hA, ?_, ?_, hst.symm⟩
  · rw [← hm]
    exact hview
  · rw [← hm, ← hnotes]
    exact hu

/-- Where the other threads are does not matter. -/
theorem Abstracts.ran (h : Abstracts s A) (hran : (recProgram τ spurious).Ran s t x s' notes st)
    {A' : AbsLock τ} (himage : s'.mem.view = A'.image)
    (hself : ∀ k, st.loc.holds k = A'.holdsOf t k)
    (hwait : ∀ reads writes, st.loc = .wait .writer reads writes → writes = 0)
    (hother : ∀ u k, u ≠ t → A'.holdsOf u k = A.holdsOf u k) : Abstracts s' A' := by
  refine ⟨himage, fun u k => ?_, fun u reads writes hu => ?_⟩
  · by_cases hut : u = t
    · rw [hut, hran.self]
      exact hself k
    · rw [hran.loc_of_ne hut, hother u k hut]
      exact h.holds u k
  · by_cases hut : u = t
    · rw [hut, hran.self] at hu
      exact hwait reads writes hu
    · rw [hran.loc_of_ne hut] at hu
      exact h.waits u reads writes hu

theorem afterGrant_holds (k k' : Access) (reads writes : Nat) :
    (afterGrant k reads writes).holds k' =
      (RecLoc.ready reads writes).holds k' + if k' = k then 1 else 0 := by
  cases k <;> cases k' <;> simp [afterGrant, RecLoc.holds]

/-- **An unlock** is simulated by the abstract lock. -/
theorem Abstracts.unlock (h : Abstracts s A)
    (hran : (recProgram τ spurious).Ran s t .unlock s' notes st) {reads writes : Nat}
    (hl : (s.thr t).loc = .ready reads writes) :
    ∃ A', Abstracts s' A' ∧ AbsStep s s' t .unlock A A' := by
  obtain ⟨A', hA, hview, -, rfl⟩ := h.ran_unlock hran hl
  obtain ⟨hother, hreader, hwriter⟩ := AbsLock.holdsOf_unlock hA
  have hr : reads = A.holdsOf t .reader := by
    rw [← h.holds, hl]
    rfl
  have hw : writes = A.holdsOf t .writer := by
    rw [← h.holds, hl]
    rfl
  rw [← hr] at hreader
  rw [← hr, ← hw] at hwriter
  refine ⟨A', h.ran hran hview (fun k => ?_) (fun r w hw' => ?_) hother,
    .unlocked hl rfl hA (AbsLock.unlock_free_iff hA) hran.self⟩
  · show (afterUnlock reads writes).holds k = A'.holdsOf t k
    by_cases hzero : reads = 0
    · rw [if_pos hzero] at hwriter
      cases k with
      | reader => rw [hreader, afterUnlock, if_pos hzero, hzero]; rfl
      | writer => rw [hwriter, afterUnlock, if_pos hzero]; rfl
    · rw [if_neg hzero] at hwriter
      cases k with
      | reader => rw [hreader, afterUnlock, if_neg hzero]; rfl
      | writer => rw [hwriter, afterUnlock, if_neg hzero]; rfl
  · simp only [Status.loc_running, afterUnlock] at hw'
    split at hw' <;> cases hw'

/-- A spurious wake-up changes neither lock. -/
theorem Abstracts.woken (h : Abstracts s A) {c : Unit} {l : RecLoc} (hw : s.thr t = .waiting c l) :
    Abstracts ⟨s.mem, Function.update s.thr t (.notified c l)⟩ A := by
  have hloc := loc_update_notified hw
  refine ⟨h.image, fun u k => ?_, fun u reads writes hu => ?_⟩
  · rw [← h.holds u k]
    exact congrArg (fun l => RecLoc.holds l k) (hloc u)
  · exact h.waits u reads writes ((hloc u).symm.trans hu)

/-- No assertion fails where an abstract lock explains the concrete one. -/
theorem Abstracts.exec_ne_abort (h : Abstracts s A) (t : τ) (x : RecCall) :
    recExec t (s.thr t).loc x s.mem ≠ .abort := by
  have hask : ∀ k, Asks (s.thr t).loc x k → recExec t (s.thr t).loc x s.mem ≠ .abort := by
    intro k hask
    rw [h.exec hask, RwLock.answer]
    split <;> simp [LockResult.effect]
  cases hl : (s.thr t).loc with
  | ready reads writes =>
      rw [hl] at hask
      cases x with
      | lock k => exact hask k (.first k)
      | unlock =>
          by_cases hheld : reads + writes = 0
          · simp [recExec, hheld]
          · obtain ⟨A', m, notes, -, -, -, hexec⟩ := h.exec_unlock hl hheld
            rw [← hl, hexec]
            simp
  | wait k reads writes =>
      rw [hl] at hask
      exact hask k (.again k)

theorem abstracts_freshLock : Abstracts (freshLock τ) .free where
  image := rfl
  holds t k := by cases k <;> rfl
  waits t reads writes ht := by cases ht

variable [Fintype τ]

theorem Abstracts.total (h : Abstracts s A) : outstanding s = A.total := by
  rw [← A.sum_holdsOf]
  refine Finset.sum_congr rfl fun t _ => ?_
  show (s.thr t).loc.holds .reader + (s.thr t).loc.holds .writer = _
  rw [h.holds, h.holds]

/-- **A request** is simulated by the abstract lock. -/
theorem Abstracts.ask (h : Abstracts s A) (hran : (recProgram τ spurious).Ran s t x s' notes st)
    (hask : Asks (s.thr t).loc x k) (hfew : outstanding s' < 2 ^ 16) :
    ∃ A', Abstracts s' A' ∧ AbsStep s s' t x A A' := by
  have hready : ∀ k', (RecLoc.ready ((s.thr t).loc.holds .reader) ((s.thr t).loc.holds .writer)).holds
      k' = (s.thr t).loc.holds k' := by
    intro k'
    cases k' <;> rfl
  have hview : (s.mem.seenFrom (s.thr t).loc).view = A.image :=
    (RwLock.view_seenFrom s.mem _).trans h.image
  obtain ⟨-, ⟨A', hA, hm, rfl⟩ | ⟨hA, hm, rfl⟩⟩ := h.ran_ask hran hask
  · have hcount : outstanding s' = outstanding s + 1 := by
      have htally := hran.tally fun l => l.holds .reader + l.holds .writer
      simp only [Status.loc_running, afterGrant_holds, hready] at htally
      show tally s'.thr _ = tally s.thr _ + 1
      cases k <;> simp only [reduceCtorEq, if_true, if_false] at htally <;> omega
    have hroom : A.total + 1 < 2 ^ 16 := by
      rw [← h.total]
      omega
    refine ⟨A', h.ran hran ?_ (fun k' => ?_) (fun reads writes hw => ?_) fun u k' hu => ?_,
      .granted hask hA hran.self⟩
    · rw [hm]
      exact view_grant hview hA hroom
    · rw [Status.loc_running, afterGrant_holds, hready, h.holds, AbsLock.holdsOf_request hA]
      simp
    · cases k <;> cases hw
    · rw [AbsLock.holdsOf_request hA, if_neg fun hboth => hu hboth.1]
      rfl
  · refine ⟨A, h.ran hran ?_ (fun k' => ?_) (fun reads writes hw => ?_) fun u k' hu => rfl,
      .waits hask hA hran.self⟩
    · rw [hm, RwLock.view_countWaiting]
      exact hview
    · rw [← h.holds]
      cases k' <;> rfl
    · -- the owner of the lock would not have had to wait
      cases hw
      rw [h.holds]
      cases A with
      | free => cases hA
      | readers holders hne => rfl
      | writer owner depth hpos =>
          have howner : owner ≠ t := by
            rintro rfl
            simp [AbsLock.request] at hA
          exact if_neg howner

/-- **One step** of a thread is one step of the abstract lock. -/
theorem Abstracts.run (h : Abstracts s A) (hran : (recProgram τ spurious).Ran s t x s' notes st)
    (hfew : outstanding s' < 2 ^ 16) : ∃ A', Abstracts s' A' ∧ AbsStep s s' t x A A' := by
  cases hl : (s.thr t).loc with
  | ready reads writes =>
      cases x with
      | lock k => exact h.ask hran (by rw [hl]; exact .first k) hfew
      | unlock => exact h.unlock hran hl
  | wait k reads writes => exact h.ask hran (by rw [hl]; exact .again k) hfew

theorem Abstracts.refines (h : Abstracts s A) : Refines spurious s := by
  refine ⟨fun a habort => ?_, A, h, fun t x picks s' hstep hfew => ?_, fun t s' hstep => ?_⟩
  · cases a with
    | run t x picks => exact h.exec_ne_abort t x (Program.exec_of_abort habort).2
    | spurious t => exact Program.not_abort_spurious habort
  · obtain ⟨notes, st, hran⟩ := Program.ran_of_step hstep
    exact h.run hran hfew
  · obtain ⟨-, c, l, hw, rfl⟩ := Program.spurious_of_step hstep
    exact h.woken hw

/-- **The lock refines its specification**: in every run with fewer than `2 ^ 16` outstanding
acquisitions. -/
theorem recRwLock_refines
    (h : (recMachine τ spurious).ReachableUnder (fun s a => staysFew spurious s a = true) s) :
    Refines spurious s := by
  have habs : ∃ A, Abstracts s A := by
    apply h.invariant
    · intro s hs
      rw [show s = freshLock τ from hs]
      exact ⟨.free, abstracts_freshLock⟩
    · rintro s a s' ⟨A, hA⟩ hfew hstep
      cases a with
      | run t x picks =>
          have hlt : outstanding s' < 2 ^ 16 := by
            simp only [staysFew] at hfew
            rw [show (recProgram τ spurious).step s (.run t x picks) = .next s' from hstep] at hfew
            exact of_decide_eq_true hfew
          obtain ⟨notes, st, hran⟩ := Program.ran_of_step hstep
          obtain ⟨A', hA', -⟩ := hA.run hran hlt
          exact ⟨A', hA'⟩
      | spurious t =>
          obtain ⟨-, c, l, hw, rfl⟩ := Program.spurious_of_step hstep
          exact ⟨A, hA.woken hw⟩
  obtain ⟨A, hA⟩ := habs
  exact hA.refines

/-- A writer holds the lock twice and gives one hold back while a reader waits. -/
theorem recRwLock_refines_trace :
    ∃ s : RecConfig Bool, Refines true s ∧ s.mem.view = (1, false, true, some false) ∧
      s.thr true = .waiting () (.wait .reader 0 0) := by
  have hrun : ((recMachine Bool true).execUnder (staysFew true) (freshLock Bool)
      [.run false (.lock .writer) [], .run false (.lock .writer) [], .run true (.lock .reader) [],
        .run false .unlock []]).holds (fun s =>
        decide (s.mem.view = (1, false, true, some false) ∧
          s.thr true = .waiting () (.wait .reader 0 0))) = true := by
    decide +kernel
  obtain ⟨s, hs, hp⟩ := Outcome.holds_iff.mp hrun
  have hreach := Machine.reachableUnder_of_execUnder
    (.init (show (recMachine Bool true).init (freshLock Bool) from rfl)) hs
  exact ⟨s, recRwLock_refines hreach, of_decide_eq_true hp⟩

end Simulation

end RecLocks
end MultithreadingBible
