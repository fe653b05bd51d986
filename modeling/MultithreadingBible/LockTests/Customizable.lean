import MultithreadingBible.RwLocks.Exclusion
import MultithreadingBible.LockTests.Harness

/-!
# The test program of the customisable lock

`cs_status_check` allows readers up to their limit or writers up to theirs.  All counters are
guarded.  The program sets the bias to `RW_LOCK_BIASEDNESS_OPPOSITE`, in which the lock takes it for
impossible that a thread waits.

* `test` — the program.
* `admits` — why the check passes, in every bias.
* `rwTest_checks` — the check never fails; the lock's assertions fail where `staysClear` says so,
  and in the bias of the program nobody ever waits.
-/

namespace MultithreadingBible
namespace LockTests
namespace Customizable

open Lib RwLocks

def csStatusCheck (lock : RwLocks.RwLock) (n : Counters) : Bool :=
  decide (0 ≤ n .reader ∧ 0 ≤ n .writer) &&
    if n .reader = 0 ∧ n .writer ≤ lock.nMaxWriters then true
    else if n .reader ≤ lock.nMaxReaders ∧ n .writer = 0 then true
    else false

/-- The test program. -/
def test : Test RwLocks.RwLock Access where
  lock k := k
  unlock := .reader
  csStatusCheck := csStatusCheck
  guarded _ := true

/-- What a request leaves. -/
theorem lockLoop_done {k : Access} {m m' : RwLocks.RwLock} {notes : List (Note RwCv)}
    {st : Status RwCv RwLoc}
    (h : lockLoop k m = .done m' notes st) :
    (∃ c l', st = .waiting c l' ∧ ∃ b, l' = .wait k b) ∨ st = .running (.inside k) := by
  unfold lockLoop at h
  split at h
  · obtain ⟨c, -, h⟩ := Effect.call_eq_done.mp h
    cases h
    exact .inl ⟨c, _, rfl, _, rfl⟩
  · cases h
    exact .inr rfl

/-- The locations of the lock's threads. -/
def calls (τ : Type*) (spurious : Bool) : Calls (rwProgram τ spurious) test where
  idle := .idle
  waits k l := ∃ b, l = .wait k b
  held := .inside
  lock_done t l k m m' notes st hl h := by
    rcases hl with rfl | ⟨b, rfl⟩
    · exact lockLoop_done h
    · simp only [rwProgram, rwExec] at h
      split at h
      · cases h
      · exact lockLoop_done h
  unlock_done t k m m' notes st h := by
    obtain ⟨⟨m₂, notes₂⟩, -, hu⟩ := Effect.call_eq_done.mp h
    cases hu
    rfl

variable {τ : Type*} [DecidableEq τ] [Fintype τ]

/-- All runs of the test program. -/
def machine (spurious : Bool) (b : Biasedness) (maxReaders maxWriters : UInt16) (role : τ → Access) :
    Machine (TestConfig τ RwLocks.RwLock RwCv RwLoc) (Act τ Unit) :=
  testMachine (rwProgram τ spurious) test role (readyLock b maxReaders maxWriters) .idle

variable {maxReaders maxWriters : UInt16} {b : Biasedness} {spurious : Bool} {role : τ → Access}
  {s : TestConfig τ RwLocks.RwLock RwCv RwLoc}

/-- The lock in the test program goes through its own runs. -/
theorem lock_reachable (h : (machine spurious b maxReaders maxWriters role).Reachable s) :
    (rwMachine τ spurious b maxReaders maxWriters).Reachable (component s) := by
  refine reachable_component (fun s hs => ⟨fun t => ⟨_, hs.2 t⟩, ?_, fun t => ?_⟩) h
  · show s.mem.1 = _
    rw [hs.1]
  · show (s.thr t).map Prod.fst = _
    rw [hs.2 t]
    rfl

omit [DecidableEq τ] in
theorem heldCount_eq (s : RwConfig τ) (k : Access) :
    heldCount (calls τ spurious) s k = RwLocks.insideCount s k := by
  unfold heldCount RwLocks.insideCount
  congr 1
  ext t
  simp only [Finset.mem_filter, Finset.mem_univ, true_and]
  show (s.thr t).loc = .inside k ↔ _
  cases (s.thr t).loc <;> simp [RwLoc.isInside]

omit [DecidableEq τ] in
/-- **What the lock promises.** -/
theorem admits {s : RwConfig τ} (h : RwInv b maxReaders maxWriters s) : Admits (calls τ spurious) s where
  exclusive := by
    rw [heldCount_eq, heldCount_eq]
    exact h.ok.exclusive
  alone k hk := by cases hk
  check n hn := by
    obtain ⟨r, hr, hrle⟩ := hn .reader
    obtain ⟨w, hw, hwle⟩ := hn .writer
    rw [heldCount_eq] at hrle hwle
    have hrmax := h.ok.readers_le
    have hwmax := h.ok.writers_le
    have hexclusive := h.ok.exclusive
    rw [← h.maxReaders] at hrmax
    rw [← h.maxWriters] at hwmax
    show csStatusCheck s.mem n = true
    unfold csStatusCheck
    rw [hr, hw, Bool.and_eq_true, decide_eq_true_eq]
    refine ⟨by omega, ?_⟩
    split
    · rfl
    · rw [if_pos (by omega)]

theorem running_or_wait_of_move {x : Access} {m m' : RwLocks.RwLock} {l : RwLoc}
    {notes : List (Note RwCv)}
    {st : Status RwCv RwLoc} (h : RwMove x m l m' notes st) :
    (∃ l, st = .running l) ∨ ∃ k b', st.loc = .wait k b' := by
  cases h with
  | block ha hw hc => exact .inr ⟨_, _, rfl⟩
  | enter ha hw => exact .inl ⟨_, rfl⟩
  | unlock hu => exact .inl ⟨_, rfl⟩

/-- Who is blocked is in a wait. -/
theorem running_or_wait {s : RwConfig τ}
    (h : (rwMachine τ spurious b maxReaders maxWriters).Reachable s) (t : τ) :
    (∃ l, s.thr t = .running l) ∨ ∃ k b', (s.thr t).loc = .wait k b' := by
  have hall : ∀ t, (∃ l, s.thr t = .running l) ∨ ∃ k b', (s.thr t).loc = .wait k b' := by
    apply Program.invariant _ _ _ h
    · intro s hs t
      exact .inl ⟨.idle, hs.2 t⟩
    · intro s t x picks s' notes st hinv _ hran
      have hst := running_or_wait_of_move (rwMove_of_exec hran.exec)
      refine hran.forall_status (p := fun _ st => (∃ l, st = .running l) ∨ ∃ k b', st.loc = .wait k b')
        hinv hst fun u c l hu => ?_
      rcases hu with ⟨l', hl'⟩ | hwait
      · cases hl'
      · exact .inr hwait
    · intro s t c l hinv _ hw
      refine forall_status_of_woken hw (p := fun _ st => (∃ l, st = .running l) ∨ ∃ k b',
        st.loc = .wait k b')
        hinv fun u c l hu => ?_
      rcases hu with ⟨l', hl'⟩ | hwait
      · cases hl'
      · exact .inr hwait
  exact hall t

omit [DecidableEq τ] in
/-- A bias that refuses both kinds lets nobody wait. -/
theorem not_waiting_opposite {s : RwConfig τ} (h : RwInv .opposite maxReaders maxWriters s) (t : τ)
    (k : Access) (b : Biasedness) : (s.thr t).loc ≠ .wait k b := by
  intro hl
  obtain ⟨rfl, hcv⟩ := h.waits t k b hl
  exact hcv (by cases k <;> rfl)

/-- Where the assertions of the lock fail in the test program. -/
theorem step_abort_iff (hinv : RwInv b maxReaders maxWriters (component s)) (hok : TestOk test role s)
    (hat : ∀ t, (calls τ spurious).At (role t) (s.thr t).loc) (t : τ) (picks : List (Option τ)) :
    (clientProgram (testThread test role) (rwProgram τ spurious)).step s (.run t () picks) = .abort ↔
      staysClear (component s) (.run t (role t) picks) = false := by
  have hloc : ((component s).thr t).loc = (s.thr t).loc.1 := Status.loc_map _ _
  have hwaiting : ((component s).thr t).isWaiting = (s.thr t).isWaiting := Status.isWaiting_map _ _
  have hspec : (s.thr t).isWaiting = false → (rwExec (s.thr t).loc.1 (role t) s.mem.1 = .abort ↔
      staysClear (component s) (.run t (role t) picks) = false) := by
    intro haw
    rw [← hwaiting] at haw
    rw [← hloc]
    exact hinv.exec_abort haw
  constructor
  · intro habort
    obtain ⟨t', picks', x, ψ, ha, hawake, hcall, hexec⟩ := hok.abort_in_lock habort
    cases ha
    rcases call_cases hcall with ⟨-, -, rfl⟩ | ⟨hφ, -, rfl⟩
    · exact (hspec hawake).mp hexec
    · -- an unlock does not look at the kind of its thread
      have hheld : (s.thr t).loc.1 = .inside (role t) := (hat t).held (by rw [hφ]; rfl)
      refine (hspec hawake).mp ?_
      rw [hheld] at hexec ⊢
      exact hexec
  · intro hclear
    have hawake : (s.thr t).isWaiting = false := by
      rw [← hwaiting]
      simp only [staysClear, Bool.or_eq_false_iff] at hclear
      exact hclear.1
    have hexec := (hspec hawake).mpr hclear
    have hφ : (s.thr t).loc.2 = .locking := by
      by_contra hne
      have hheld : (s.thr t).loc.1 = .inside (role t) := by
        refine (hat t).held ?_
        cases hl : (s.thr t).loc.2 <;> first | rfl | exact absurd hl hne
      have hclear' := hclear
      simp only [staysClear, hloc, hheld, Bool.or_true] at hclear'
      cases hclear'
    refine Program.step_of_exec_abort picks hawake ?_
    simp only [clientProgram, hφ, testThread]
    rw [show (rwProgram τ spurious).exec t (s.thr t).loc.1 (test.lock (role t)) s.mem.1 =
      .abort from hexec]

/-- **What the test program finds out**: in every run, with any threads, limits, bias and wake-ups,
`cs_status_check` passes and `n_r` and `n_w` are right.  An assertion of the lock fails exactly
where a thread has to wait in a bias that takes this for impossible, or comes back from such a wait;
in the bias of the program nobody waits. -/
theorem rwTest_checks (h : (machine spurious b maxReaders maxWriters role).Reachable s) :
    TestOk test role s ∧
      (∀ t picks, (machine spurious b maxReaders maxWriters role).step s (.run t () picks) = .abort ↔
        staysClear (component s) (.run t (role t) picks) = false) ∧
        (b = .opposite → ∀ t, ∃ l, s.thr t = .running l) := by
  have hinv : ∀ s, (machine spurious b maxReaders maxWriters role).Reachable s →
      RwInv b maxReaders maxWriters (component s) :=
    fun s hs => rwInv_reachable (lock_reachable hs)
  have hok : TestOk test role s := testOk_of_admits (fun s hs => admits (hinv s hs)) h
  refine ⟨hok, step_abort_iff (hinv s h) hok ((calls τ spurious).at_reachable h), ?_⟩
  rintro rfl t
  rcases running_or_wait (lock_reachable h) t with ⟨l, hl⟩ | ⟨k, b', hl⟩
  · have hmap : (s.thr t).map Prod.fst = .running l := hl
    generalize s.thr t = st at hmap
    cases st with
    | running l' => exact ⟨l', rfl⟩
    | waiting c l' => cases hmap
    | notified c l' => cases hmap
  · exact absurd hl (not_waiting_opposite (hinv s h) t k b')

/-- A reader holds the lock in the bias of the program; a writer that asks for it now fails an
assertion. -/
theorem rwTest_checks_trace :
    ∃ s : TestConfig Bool RwLocks.RwLock RwCv RwLoc,
      TestOk test (fun t => if t then .writer else .reader) s ∧
      s.mem.2 .reader = 1 ∧
        (machine true .opposite 3 3 fun t => if t then .writer else .reader).step s
          (.run true () []) = .abort := by
  have hrun : ((machine true .opposite 3 3 fun t => if t then .writer else .reader).exec
      (testStart Bool RwCv (readyLock .opposite 3 3) .idle)
        [.run false () [], .run false () []]).holds (fun s =>
        decide (s.mem.2 .reader = 1) &&
          !staysClear (component s) (.run true .writer [])) = true := by
    decide +kernel
  obtain ⟨s, hs, hp⟩ := Machine.exists_reachable_of_exec testStart_init hrun
  simp only [Bool.and_eq_true, decide_eq_true_eq, Bool.not_eq_true'] at hp
  obtain ⟨hok, hfails, -⟩ := rwTest_checks hs
  exact ⟨s, hok, hp.1, (hfails true []).mpr hp.2⟩

end Customizable
end LockTests
end MultithreadingBible
