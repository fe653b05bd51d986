import MultithreadingBible.RecLocks.RwLockWakeUps
import MultithreadingBible.LockTests.Harness

/-!
# The test program of the recursive lock

`cs_status_check` allows any number of readers or one writer.  The writers change `n_w` without
`state_check_mutex`: it is the lock that keeps others away meanwhile.  No thread of the program
locks again what it holds.

* `test` — the program.
* `admits` — why the check passes: the holders of the lock are those of an abstract one.
* `outstanding_le` — the program stays far below `2 ^ 16` acquisitions.
* `recTest_runs` — the program checks what it is there to check, fails no assertion and never deadlocks.
-/

namespace MultithreadingBible
namespace LockTests
namespace Recursive

open Lib RecLocks
open RwLocks (Access)

def csStatusCheck (n : Counters) : Bool :=
  decide (0 ≤ n .reader ∧ 0 ≤ n .writer) &&
    if n .reader = 0 ∧ n .writer = 0 then true
    else if 0 < n .reader ∧ n .writer = 0 then true
    else if n .reader = 0 ∧ n .writer = 1 then true
    else false

/-- The test program. -/
def test (τ : Type*) : Test (RecLocks.RwLock τ) RecCall where
  lock := .lock
  unlock := .unlock
  csStatusCheck _ := csStatusCheck
  guarded
    | .reader => true
    | .writer => false

variable {τ : Type*} [DecidableEq τ]

/-- The locations of the lock's threads. -/
def calls (τ : Type*) [DecidableEq τ] (spurious : Bool) : Calls (recProgram τ spurious) (test τ) where
  idle := .ready 0 0
  waits k l := l = .wait k 0 0
  held k := afterGrant k 0 0
  lock_done t l k m m' notes st hl h := by
    have hresult : ∀ r : LockResult τ, r.effect k 0 0 = .done m' notes st →
        (∃ c l', st = .waiting c l' ∧ l' = .wait k 0 0) ∨ st = .running (afterGrant k 0 0) := by
      intro r hr
      cases r with
      | waits m₁ => cases hr; exact .inl ⟨(), .wait k 0 0, rfl, rfl⟩
      | granted m₁ => cases hr; exact .inr rfl
    rcases hl with rfl | rfl
    · cases k with
      | reader =>
          obtain ⟨r, -, hr⟩ := Effect.call_eq_done.mp h
          exact hresult r hr
      | writer =>
          obtain ⟨r, -, hr⟩ := Effect.call_eq_done.mp h
          exact hresult r hr
    · cases k with
      | reader =>
          obtain ⟨r, -, hr⟩ := Effect.call_eq_done.mp h
          exact hresult r hr
      | writer =>
          obtain ⟨r, -, hr⟩ := Effect.call_eq_done.mp h
          exact hresult r hr
  unlock_done t k m m' notes st h := by
    cases k with
    | reader =>
        obtain ⟨⟨m₂, notes₂⟩, -, hu⟩ := Effect.call_eq_done.mp h
        cases hu
        rfl
    | writer =>
        obtain ⟨⟨m₂, notes₂⟩, -, hu⟩ := Effect.call_eq_done.mp h
        cases hu
        rfl

variable [Fintype τ]

/-- All runs of the test program. -/
def machine (spurious : Bool) (role : τ → Access) :
    Machine (TestConfig τ (RecLocks.RwLock τ) Unit RecLoc) (Act τ Unit) :=
  testMachine (recProgram τ spurious) (test τ) role (zeroLock τ).init (.ready 0 0)

variable {spurious : Bool} {role : τ → Access} {s : TestConfig τ (RecLocks.RwLock τ) Unit RecLoc}

omit [Fintype τ] in
/-- A thread holds the lock once or not at all. -/
theorem holds_le_one {k : Access} {l : RecLoc} {φ : Phase} (h : (calls τ spurious).At k (l, φ)) :
    l.holds .reader + l.holds .writer ≤ 1 := by
  unfold Calls.At at h
  split at h
  · rw [show l = afterGrant k 0 0 from h]
    cases k <;> exact le_refl 1
  · rcases h with hl | hl
    · rw [show l = .ready 0 0 from hl]
      exact Nat.zero_le 1
    · rw [show l = .wait k 0 0 from hl]
      exact Nat.zero_le 1

/-- **The program acquires little.** -/
theorem outstanding_le (h : (machine spurious role).Reachable s) :
    outstanding (component s) ≤ Fintype.card τ := by
  have hone : ∀ t ∈ Finset.univ, ((component s).thr t).loc.holds .reader +
      ((component s).thr t).loc.holds .writer ≤ 1 := by
    intro t _
    have hat := (calls τ spurious).at_reachable h t
    rw [show ((component s).thr t).loc = (s.thr t).loc.1 from Status.loc_map _ _]
    exact holds_le_one hat
  have hsum := Finset.sum_le_sum hone
  rwa [← Finset.card_eq_sum_ones, Finset.card_univ] at hsum

/-- The lock in the test program goes through its own runs. -/
theorem lock_reachable (hcard : Fintype.card τ < 2 ^ 16) (h : (machine spurious role).Reachable s) :
    (recMachine τ spurious).ReachableUnder (fun s a => staysFew spurious s a = true) (component s) := by
  apply reachableUnder_component _ _ h
  · intro s hs
    refine ⟨fun t => ⟨_, hs.2 t⟩, ?_⟩
    show component s = freshLock τ
    have hthr : (component s).thr = (freshLock τ).thr := by
      ext t
      show (s.thr t).map Prod.fst = _
      rw [hs.2 t]
      rfl
    have hmem : (component s).mem = (freshLock τ).mem := by
      show s.mem.1 = _
      rw [hs.1]
      rfl
    exact congrArg₂ Config.mk hmem hthr
  · intro s s' a hs' hstep
    have hfew := outstanding_le hs'
    simp only [staysFew, hstep, decide_eq_true_eq]
    omega

omit [Fintype τ] in
theorem holds_of_held {s : RecConfig τ} {A : AbsLock τ} (h : Abstracts s A) {t : τ} {k : Access}
    (ht : (s.thr t).loc = afterGrant k 0 0) : 0 < A.holdsOf t k := by
  rw [← h.holds, ht]
  cases k <;> exact Nat.one_pos

theorem mem_heldCount {s : RecConfig τ} {k : Access} {t : τ}
    (ht : t ∈ Finset.univ.filter fun t => (s.thr t).loc = (calls τ spurious).held k) :
    (s.thr t).loc = afterGrant k 0 0 :=
  (Finset.mem_filter.mp ht).2

omit [Fintype τ] in
/-- Nobody holds an abstract lock to read and another to write, and one thread holds it to write. -/
theorem holdsOf_exclusive {A : AbsLock τ} {t u : τ} {k : Access} (ht : 0 < A.holdsOf t .writer)
    (hu : 0 < A.holdsOf u k) : k = .writer ∧ u = t := by
  cases A with
  | free => cases k <;> exact absurd hu (Nat.lt_irrefl 0)
  | readers holders hne => exact absurd ht (Nat.lt_irrefl 0)
  | writer owner depth hpos =>
      cases k with
      | reader => exact absurd hu (Nat.lt_irrefl 0)
      | writer =>
          simp only [AbsLock.holdsOf] at ht hu
          split at ht
          · next howner =>
            split at hu
            · next howner' => exact ⟨rfl, howner'.symm.trans howner⟩
            · exact absurd hu (Nat.lt_irrefl 0)
          · exact absurd ht (Nat.lt_irrefl 0)

/-- **What the lock promises.** -/
theorem admits {s : RecConfig τ} {A : AbsLock τ} (h : Abstracts s A) : Admits (calls τ spurious) s := by
  have hexclusive : heldCount (calls τ spurious) s .reader = 0 ∨
    heldCount (calls τ spurious) s .writer = 0 := by
    by_contra hboth
    push Not at hboth
    obtain ⟨t, ht⟩ := Finset.card_pos.mp (Nat.pos_of_ne_zero hboth.1)
    obtain ⟨u, hu⟩ := Finset.card_pos.mp (Nat.pos_of_ne_zero hboth.2)
    have hr := holds_of_held h (mem_heldCount ht)
    have hw := holds_of_held h (mem_heldCount hu)
    cases (holdsOf_exclusive hw hr).1
  have halone : heldCount (calls τ spurious) s .writer ≤ 1 := by
    refine Finset.card_le_one.mpr fun t ht u hu => ?_
    have hw := holds_of_held h (mem_heldCount ht)
    have hw' := holds_of_held h (mem_heldCount hu)
    exact (holdsOf_exclusive hw' hw).2
  refine ⟨hexclusive, fun k hk => ?_, fun n hn => ?_⟩
  · cases k with
    | reader => cases hk
    | writer => exact halone
  · obtain ⟨r, hr, hrle⟩ := hn .reader
    obtain ⟨w, hw, hwle⟩ := hn .writer
    show csStatusCheck n = true
    unfold csStatusCheck
    rw [hr, hw, Bool.and_eq_true, decide_eq_true_eq]
    refine ⟨by omega, ?_⟩
    split
    · rfl
    · split
      · rfl
      · rw [if_pos (by omega)]

omit [Fintype τ] in
/-- The calls of the test program are carried out. -/
theorem lock_done {s : RecConfig τ} {A : AbsLock τ} (h : Abstracts s A) {t : τ} {φ : Phase}
    (hat : (calls τ spurious).At (role t) ((s.thr t).loc, φ)) {x : RecCall} {ψ : Phase}
    (hcall : testThread (test τ) role t φ = .call x ψ) :
    ∃ m' notes st, (recProgram τ spurious).exec t (s.thr t).loc x s.mem = .done m' notes st := by
  show ∃ m' notes st, recExec t (s.thr t).loc x s.mem = .done m' notes st
  have hask : ∀ k, Asks (s.thr t).loc x k → ∃ m' notes st,
    recExec t (s.thr t).loc x s.mem = .done m' notes st := by
    intro k hk
    rw [h.exec hk]
    unfold RecLocks.RwLock.answer
    split <;> exact ⟨_, _, _, rfl⟩
  rcases call_cases hcall with ⟨rfl, -, rfl⟩ | ⟨rfl, -, rfl⟩
  · rcases hat with hl | hl
    · refine hask (role t) ?_
      rw [show (s.thr t).loc = .ready 0 0 from hl]
      exact .first (role t)
    · refine hask (role t) ?_
      rw [show (s.thr t).loc = .wait (role t) 0 0 from hl]
      exact .again (role t)
  · have hl : (s.thr t).loc = afterGrant (role t) 0 0 := hat
    cases hr : role t with
    | reader =>
        rw [hr] at hl
        obtain ⟨A', m', notes, -, -, -, hexec⟩ := h.exec_unlock hl Nat.one_ne_zero
        exact ⟨_, _, _, hexec⟩
    | writer =>
        rw [hr] at hl
        obtain ⟨A', m', notes, -, -, -, hexec⟩ := h.exec_unlock hl Nat.one_ne_zero
        exact ⟨_, _, _, hexec⟩

omit [Fintype τ] in
/-- Somebody holds a lock that refuses a request. -/
theorem exists_holder {A : AbsLock τ} {t : τ} {k : Access} (h : A.request t k = none) :
    ∃ u k', 0 < A.holdsOf u k' := by
  rcases holder_of_request_none h with ⟨owner, depth, hpos, rfl⟩ | ⟨-, holders, hne, rfl⟩
  · refine ⟨owner, .writer, ?_⟩
    show 0 < if owner = owner then depth else 0
    rwa [if_pos rfl]
  · obtain ⟨u, hu⟩ := Multiset.exists_mem_of_ne_zero hne
    exact ⟨u, .reader, Multiset.count_pos.mpr hu⟩

/-- Not all threads are blocked. -/
theorem exists_awake [Nonempty τ] (h : (machine spurious role).Reachable s) {A : AbsLock τ}
    (hinv : WakeInv (component s) A) : ∃ t, (s.thr t).isWaiting = false := by
  by_contra hall
  push Not at hall
  have hwait : ∀ t, ∃ k, ((component s).thr t).loc = .wait k 0 0 ∧ A.request t k = none := by
    intro t
    have hblocked : ((component s).thr t).isWaiting = true := by
      show ((s.thr t).map Prod.fst).isWaiting = true
      rw [Status.isWaiting_map]
      simpa using hall t
    obtain ⟨c, l, hl⟩ := Status.isWaiting_iff.mp hblocked
    obtain ⟨k, reads, writes, rfl, hno⟩ := hinv.refused t c l hl
    have hat := (calls τ spurious).at_reachable h t
    have hloc : (s.thr t).loc.1 = .wait k reads writes := by
      rw [← Status.loc_map Prod.fst]
      exact congrArg Status.loc hl
    unfold Calls.At at hat
    rw [hloc] at hat
    -- a thread in a wait does not hold the lock, and held nothing when it asked
    split at hat
    · exfalso
      cases hk : role t with
      | reader => rw [hk] at hat; cases hat
      | writer => rw [hk] at hat; cases hat
    · rcases hat with hidle | hask
      · cases hidle
      · cases (show RecLoc.wait k reads writes = .wait (role t) 0 0 from hask)
        exact ⟨_, congrArg Status.loc hl, hno⟩
  obtain ⟨t⟩ := ‹Nonempty τ›
  obtain ⟨k, -, hno⟩ := hwait t
  obtain ⟨u, k', hpos⟩ := exists_holder hno
  obtain ⟨k₁, hu, -⟩ := hwait u
  rw [← hinv.abs.holds, hu] at hpos
  cases k' <;> exact Nat.lt_irrefl 0 hpos

/-- **The test program runs for ever**: in every run, with any number of readers and writers below
`2 ^ 16` and any wake-ups, `cs_status_check` passes, `n_r` and `n_w` are right although the writers
change `n_w` without the mutex, no assertion of the lock fails and some thread goes on. -/
theorem recTest_runs [Nonempty τ] (hcard : Fintype.card τ < 2 ^ 16)
    (h : (machine spurious role).Reachable s) :
    TestRuns (recProgram τ spurious) (test τ) role s := by
  have hinv : ∀ s, (machine spurious role).Reachable s → ∃ A, WakeInv (component s) A :=
    fun s hs => wakeInv_reachable hcard (lock_reachable hcard hs)
  have hadm : ∀ s, (machine spurious role).Reachable s → Admits (calls τ spurious) (component s) := by
    intro s hs
    obtain ⟨A, hA⟩ := hinv s hs
    exact admits hA.abs
  obtain ⟨A, hA⟩ := hinv s h
  have hok : TestOk (test τ) role s := testOk_of_admits (fun s hs => hadm s hs) h
  refine hok.runs (exists_awake h hA) fun u x ψ hcall => ?_
  have hat := (calls τ spurious).at_reachable h u
  have hloc : ((component s).thr u).loc = (s.thr u).loc.1 := Status.loc_map _ _
  have hat' : (calls τ spurious).At (role u) (((component s).thr u).loc, (s.thr u).loc.2) := by
    rw [hloc]
    exact hat
  have hdone := lock_done hA.abs hat' hcall
  rwa [hloc] at hdone

/-- A writer has read `n_w` and not written it back; the other writer is blocked. -/
theorem recTest_runs_trace :
    ∃ s : TestConfig Bool (RecLocks.RwLock Bool) Unit RecLoc,
      TestRuns (recProgram Bool true) (test Bool) (fun _ => .writer) s ∧
        (s.thr false).loc.2 = .adding 0 ∧ s.thr true = .waiting () (.wait .writer 0 0, .locking) := by
  have hrun : ((machine true fun _ => .writer).exec
      (testStart Bool Unit (zeroLock Bool).init (.ready 0 0))
      [.run false () [], .run true () [], .run false () []]).holds (fun s =>
        decide ((s.thr false).loc.2 = .adding 0 ∧
          s.thr true = .waiting () (.wait .writer 0 0, .locking))) = true := by
    decide +kernel
  obtain ⟨s, hs, hp⟩ := Machine.exists_reachable_of_exec testStart_init hrun
  exact ⟨s, recTest_runs (by decide) hs, of_decide_eq_true hp⟩

end Recursive
end LockTests
end MultithreadingBible
