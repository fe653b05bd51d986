import MultithreadingBible.AltLock.Alternation
import MultithreadingBible.LockTests.Harness

/-!
# The test program of the alternating lock

`cs_status_check` allows readers up to their limit or writers up to theirs.  All counters are guarded.

* `test` — the program.
* `admits` — why the check passes: the counters stay below the holders of the lock.
* `altTest_runs` — the program checks what it is there to check, fails no assertion and never deadlocks.
-/

namespace MultithreadingBible
namespace LockTests
namespace Alternating

open Lib AltLock
open RwLocks (Access)

def csStatusCheck (monitor : AltLock.RwLock) (n : Counters) : Bool :=
  decide (0 ≤ n .reader ∧ 0 ≤ n .writer) &&
    if n .reader = 0 ∧ n .writer = 0 then true
    else if 0 < n .reader ∧ n .reader ≤ monitor.nMax .reader ∧ n .writer = 0 then true
    else if n .reader = 0 ∧ 0 < n .writer ∧ n .writer ≤ monitor.nMax .writer then true
    else false

/-- The test program. -/
def test : Test AltLock.RwLock Access where
  lock k := k
  unlock := .reader
  csStatusCheck := csStatusCheck
  guarded _ := true

/-- The locations of the lock's threads. -/
def calls (τ : Type*) (spurious : Bool) : Calls (altProgram τ spurious) test where
  idle := .idle
  waits k l := l = .wait k
  held := .inside
  lock_done t l k m m' notes st hl h := by
    have hresult : ∀ r : LockResult, r.effect k = .done m' notes st →
        (∃ c l', st = .waiting c l' ∧ l' = .wait k) ∨ st = .running (.inside k) := by
      intro r hr
      cases r with
      | waits m₁ => cases hr; exact .inl ⟨k, .wait k, rfl, rfl⟩
      | granted m₁ => cases hr; exact .inr rfl
    rcases hl with rfl | rfl
    · cases k with
      | reader =>
          obtain ⟨r, -, hr⟩ := Effect.call_eq_done.mp h
          exact hresult r hr
      | writer =>
          obtain ⟨r, -, hr⟩ := Effect.call_eq_done.mp h
          exact hresult r hr
    · obtain ⟨r, -, hr⟩ := Effect.call_eq_done.mp h
      exact hresult r hr
  unlock_done t k m m' notes st h := by
    obtain ⟨⟨m₂, notes₂⟩, -, hu⟩ := Effect.call_eq_done.mp h
    cases hu
    rfl

variable {τ : Type*} [DecidableEq τ] [Fintype τ]

/-- All runs of the test program. -/
def machine (spurious : Bool) (maxReaders maxWriters : UInt16) (role : τ → Access) :
    Machine (TestConfig τ AltLock.RwLock Access AltLoc) (Act τ Unit) :=
  testMachine (altProgram τ spurious) test role (readyLock maxReaders maxWriters) .idle

variable {maxReaders maxWriters : UInt16} {spurious : Bool} {role : τ → Access}
  {s : TestConfig τ AltLock.RwLock Access AltLoc}

/-- The lock in the test program goes through its own runs. -/
theorem lock_reachable (h : (machine spurious maxReaders maxWriters role).Reachable s) :
    (altMachine τ spurious maxReaders maxWriters).Reachable (component s) := by
  refine reachable_component (fun s hs => ⟨fun t => ⟨_, hs.2 t⟩, ?_, fun t => ?_⟩) h
  · show s.mem.1 = _
    rw [hs.1]
  · show (s.thr t).map Prod.fst = _
    rw [hs.2 t]
    rfl

omit [DecidableEq τ] in
theorem heldCount_eq (s : AltConfig τ) (k : Access) :
    heldCount (calls τ spurious) s k = insideCount s k := by
  unfold heldCount insideCount
  congr 1
  ext t
  simp only [Finset.mem_filter, Finset.mem_univ, true_and]
  show (s.thr t).loc = .inside k ↔ _
  cases (s.thr t).loc <;> simp [AltLoc.isInside]

omit [DecidableEq τ] in
/-- **What the lock promises.** -/
theorem admits {s : AltConfig τ} (h : AltInv maxReaders maxWriters s) : Admits (calls τ spurious) s where
  exclusive := by
    rw [heldCount_eq, heldCount_eq]
    by_cases hr : 0 < insideCount s .reader
    · exact .inr (h.holders.exclusive .reader hr)
    · exact .inl (by omega)
  alone k hk := by cases hk
  check n hn := by
    obtain ⟨r, hr, hrle⟩ := hn .reader
    obtain ⟨w, hw, hwle⟩ := hn .writer
    rw [heldCount_eq] at hrle hwle
    have hrmax := h.holders.le .reader
    have hwmax := h.holders.le .writer
    have hexclusive := h.holders.exclusive .reader
    rw [← h.holders.nMax] at hrmax hwmax
    simp only [other] at hexclusive
    show csStatusCheck s.mem n = true
    unfold csStatusCheck
    rw [hr, hw, Bool.and_eq_true, decide_eq_true_eq]
    refine ⟨by omega, ?_⟩
    split
    · rfl
    · split
      · rfl
      · rw [if_pos (by omega)]

omit [DecidableEq τ] in
/-- The calls of the test program are carried out. -/
theorem lock_done {s : AltConfig τ} (h : AltInv maxReaders maxWriters s) {t : τ} {φ : Phase}
    (hat : (calls τ spurious).At (role t) ((s.thr t).loc, φ)) {x : Access} {ψ : Phase}
    (hcall : testThread test role t φ = .call x ψ) :
    ∃ m' notes st, (altProgram τ spurious).exec t (s.thr t).loc x s.mem = .done m' notes st := by
  have hresult : ∀ (r : LockResult) (k : Access), ∃ m' notes st, r.effect k = .done m' notes st := by
    intro r k
    cases r with
    | waits m₁ => exact ⟨_, _, _, rfl⟩
    | granted m₁ => exact ⟨_, _, _, rfl⟩
  show ∃ m' notes st, altExec (s.thr t).loc x s.mem = .done m' notes st
  rcases call_cases hcall with ⟨rfl, -, rfl⟩ | ⟨rfl, -, rfl⟩
  · rcases hat with hl | hl
    · rw [show (s.thr t).loc = .idle from hl]
      show ∃ m' notes st, altExec .idle (role t) s.mem = .done m' notes st
      cases role t with
      | reader =>
          simp only [altExec, rwLockRdLock, lock_spec h.holders, Effect.call]
          exact hresult _ _
      | writer =>
          simp only [altExec, rwLockWrLock, lock_spec h.holders, Effect.call]
          exact hresult _ _
    · rw [show (s.thr t).loc = .wait (role t) from hl]
      simp only [altExec, lockLoop_spec (h.holders.uncountWaiting (role t)), Effect.call]
      exact hresult _ _
  · have hl : (s.thr t).loc = .inside (role t) := hat
    obtain ⟨m', notes, hu, -⟩ := unlock_spec h.holders (insideCount_pos hl)
    rw [hl]
    simp only [altExec, hu, Effect.call]
    exact ⟨_, _, _, rfl⟩

omit [DecidableEq τ] in
/-- Not all threads are blocked. -/
theorem exists_awake [Nonempty τ] {s : AltConfig τ} (h : AltInv maxReaders maxWriters s) :
    ∃ t, (s.thr t).isWaiting = false := by
  by_contra hall
  push Not at hall
  have hwait : ∀ t, ∃ k, s.thr t = .waiting k (.wait k) := by
    intro t
    have hstatus := h.status t
    have hblocked := hall t
    generalize s.thr t = st at hstatus hblocked
    cases hstatus with
    | running hne => exact absurd rfl hblocked
    | waiting k => exact ⟨k, rfl⟩
    | notified k => exact absurd rfl hblocked
  have hempty : ∀ k, insideCount s k = 0 := by
    intro k
    rw [insideCount, Finset.card_eq_zero, Finset.filter_eq_empty_iff]
    rintro t - ht
    obtain ⟨k', hk'⟩ := hwait t
    rw [hk'] at ht
    cases ht
  obtain ⟨t⟩ := ‹Nonempty τ›
  obtain ⟨k, hk⟩ := hwait t
  rcases h.reason t k hk with hlocked | hkept | ⟨hinside, -⟩
  · have hpos := (h.holders.flag (other k)).mp hlocked
    rw [hempty] at hpos
    exact absurd hpos (Nat.lt_irrefl 0)
  · obtain ⟨u, hu⟩ := h.successor k hkept hempty
    have hblocked := hall u
    rw [hu] at hblocked
    exact hblocked rfl
  · rw [hempty] at hinside
    exact absurd hinside (Nat.lt_irrefl 0)

/-- **The test program runs for ever**: in every run, with any number of readers and writers below
`2 ^ 16`, any positive limits and any wake-ups, `cs_status_check` passes, `n_r` and `n_w` are right,
no assertion of the lock fails and some thread goes on. -/
theorem altTest_runs [Nonempty τ] (hcard : Fintype.card τ < 2 ^ 16)
    (hmax : ∀ k, 1 ≤ limits maxReaders maxWriters k)
    (h : (machine spurious maxReaders maxWriters role).Reachable s) :
    TestRuns (altProgram τ spurious) test role s := by
  have hinv : ∀ s, (machine spurious maxReaders maxWriters role).Reachable s →
      AltInv maxReaders maxWriters (component s) :=
    fun s hs => altInv_reachable hcard hmax (lock_reachable hs)
  have hok : TestOk test role s := testOk_of_admits (fun s hs => admits (hinv s hs)) h
  obtain ⟨t, ht⟩ := exists_awake (hinv s h)
  refine hok.runs ⟨t, ?_⟩ fun u x ψ hcall => ?_
  · rw [← Status.isWaiting_map Prod.fst]
    exact ht
  · have hat := (calls τ spurious).at_reachable h u
    have hloc : ((component s).thr u).loc = (s.thr u).loc.1 := Status.loc_map _ _
    have hat' : (calls τ spurious).At (role u) (((component s).thr u).loc, (s.thr u).loc.2) := by
      rw [hloc]
      exact hat
    have hdone := lock_done (hinv s h) hat' hcall
    rwa [hloc] at hdone

/-- A writer is blocked while a reader checks. -/
theorem altTest_runs_trace :
    ∃ s : TestConfig Bool AltLock.RwLock Access AltLoc,
      TestRuns (altProgram Bool true) test (fun t => if t then .writer else .reader) s ∧
        s.mem.2 .reader = 1 ∧ (s.thr false).loc.2 = .checking ∧
          s.thr true = .waiting .writer (.wait .writer, .locking) := by
  have hrun : ((machine true 1 1 fun t => if t then .writer else .reader).exec
      (testStart Bool Access (readyLock 1 1) .idle)
      [.run false () [], .run true () [], .run false () []]).holds (fun s =>
        decide (s.mem.2 .reader = 1 ∧ (s.thr false).loc.2 = .checking ∧
          s.thr true = .waiting .writer (.wait .writer, .locking))) = true := by
    decide +kernel
  obtain ⟨s, hs, hp⟩ := Machine.exists_reachable_of_exec testStart_init hrun
  refine ⟨s, altTest_runs (by decide) (fun k => ?_) hs, of_decide_eq_true hp⟩
  cases k <;> decide

end Alternating
end LockTests
end MultithreadingBible
