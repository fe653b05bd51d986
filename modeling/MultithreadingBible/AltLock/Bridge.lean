import Mathlib.Logic.Relation
import MultithreadingBible.AltLock.Holders

/-!
# A one-lane bridge under an alternating reader-writer lock

Vehicles from left to right take the lock of the bridge to read, vehicles from right to left take it to
write, and each counts itself after it got the lock and uncounts itself after it gave the lock back.  The
counts have a mutex of their own, which is held while the lock is given back, so that the two mutexes
nest: here they are part of the state, and every `pthread_mutex_lock` is a step.

* `Bridge`, `bridgeExec` — `ArriveBridge`, `bridge_access` and `ExitBridge` in a loop.
* `BridgeInv` — who holds which mutex, who has the lock and who is counted.
* `bridge_safe` — no assertion fails, the counts respect exclusion and limits whenever their mutex is
  free, and no threads block one another in a cycle.

While the mutex of the counts is free nobody is between giving the lock back and uncounting itself, so
whoever is counted has the lock.
-/

namespace MultithreadingBible
namespace AltLock

open Lib
open RwLocks (Access)

/-- The two mutexes. -/
inductive BridgeMutex where
  /-- `state_mutex` of `bridge_monitor` -/
  | state
  /-- `bridge_check_mutex` -/
  | check
  deriving DecidableEq

/-- `bridge_t`.  `LR` vehicles read and `RL` vehicles write. -/
structure Bridge (τ : Type*) where
  /-- Who holds a mutex. -/
  mutex : BridgeMutex → Option τ
  /-- `n_LR` and `n_RL` -/
  n : Access → Int
  bridgeMonitor : RwLock

/-- Where a vehicle is. -/
inductive BridgeLoc where
  /-- On the road, before `ArriveBridge`. -/
  | road
  /-- In `rw_lock_rd_lock` or `rw_lock_wr_lock` with `state_mutex`. -/
  | locking (k : Access)
  /-- In the wait of the loop there. -/
  | wait (k : Access)
  /-- Back from the wait with `state_mutex`. -/
  | relocking (k : Access)
  /-- With the lock, before `bridge_check_mutex`. -/
  | granted (k : Access)
  /-- With `bridge_check_mutex`, about to count itself. -/
  | counting (k : Access)
  /-- Before `bridge_access`. -/
  | onBridge (k : Access)
  /-- In `bridge_access` with `bridge_check_mutex`. -/
  | checking (k : Access)
  /-- Before `ExitBridge`. -/
  | leaving (k : Access)
  /-- With `bridge_check_mutex`, before `rw_lock_unlock`. -/
  | exiting (k : Access)
  /-- In `rw_lock_unlock` with both mutexes. -/
  | unlocking (k : Access)
  /-- With `bridge_check_mutex`, about to uncount itself. -/
  | uncounting (k : Access)
  deriving DecidableEq

variable {τ : Type*}

abbrev BridgeEffect (τ : Type*) := Effect (Bridge τ) Access BridgeLoc

section Code

/-- `pthread_mutex_lock` -/
def Bridge.acquire (m : Bridge τ) (i : BridgeMutex) (t : τ) (l : BridgeLoc) : BridgeEffect τ :=
  if (m.mutex i).isNone then
    .done { m with mutex := Function.update m.mutex i (some t) } [] (.running l)
  else .blocked

/-- `pthread_mutex_unlock` -/
def Bridge.release (m : Bridge τ) (i : BridgeMutex) : Bridge τ :=
  { m with mutex := Function.update m.mutex i none }

/-- `n_LR++` and the like. -/
def Bridge.addVehicles (m : Bridge τ) (k : Access) (d : Int) : Bridge τ :=
  { m with n := Function.update m.n k (m.n k + d) }

theorem Bridge.n_addVehicles (m : Bridge τ) (k k' : Access) (d : Int) :
    (m.addVehicles k d).n k' = m.n k' + if k = k' then d else 0 := by
  by_cases hk : k = k'
  · subst hk
    rw [if_pos rfl]
    exact Function.update_self _ _ _
  · rw [if_neg hk, Int.add_zero]
    exact Function.update_of_ne (Ne.symm hk) _ _

/-- The assertions of `bridge_access`. -/
def bridgeAccess (m : Bridge τ) : Bool :=
  decide (m.n .reader ≥ 0 ∧ m.n .writer ≥ 0) &&
    if m.n .reader == 0 && decide (m.n .writer ≤ m.bridgeMonitor.nMax .writer) then true
    else decide (m.n .reader ≤ m.bridgeMonitor.nMax .reader) && m.n .writer == 0

/-- `rw_lock_rd_lock` or `rw_lock_wr_lock` after the test whether to wait. -/
def Bridge.locked (m : Bridge τ) (k : Access) : LockResult → BridgeEffect τ
  | .waits lock => .done ({ m with bridgeMonitor := lock }.release .state) [] (.waiting k (.wait k))
  | .granted lock =>
      .done ({ m with bridgeMonitor := lock }.release .state) [] (.running (.granted k))

/-- What a vehicle does next.  A vehicle on the road arrives for the direction `x`. -/
def bridgeExec (t : τ) (l : BridgeLoc) (x : Access) (m : Bridge τ) : BridgeEffect τ :=
  match l with
  | .road => m.acquire .state t (.locking x)
  | .locking k =>
      match k with
      | .reader => .call (rwLockRdLock m.bridgeMonitor) (m.locked .reader)
      | .writer => .call (rwLockWrLock m.bridgeMonitor) (m.locked .writer)
  | .wait k => m.acquire .state t (.relocking k)
  | .relocking k => .call (lockLoop k (m.bridgeMonitor.uncountWaiting k)) (m.locked k)
  | .granted k => m.acquire .check t (.counting k)
  | .counting k => .done ((m.addVehicles k 1).release .check) [] (.running (.onBridge k))
  | .onBridge k => m.acquire .check t (.checking k)
  | .checking k =>
      if bridgeAccess m then .done (m.release .check) [] (.running (.leaving k)) else .abort
  | .leaving k => m.acquire .check t (.exiting k)
  | .exiting k => m.acquire .state t (.unlocking k)
  | .unlocking k =>
      .call (rwLockUnlock m.bridgeMonitor) fun (lock, notes) =>
        .done ({ m with bridgeMonitor := lock }.release .state) notes (.running (.uncounting k))
  | .uncounting k => .done ((m.addVehicles k (-1)).release .check) [] (.running .road)

/-- The vehicles. -/
def bridgeProgram (τ : Type*) [DecidableEq τ] (spurious : Bool) :
    Program τ (Bridge τ) Access BridgeLoc Access where
  exec := bridgeExec
  spuriousWakeups := spurious

end Code

abbrev BridgeConfig (τ : Type*) := Config τ (Bridge τ) Access BridgeLoc

/-- The bridge with its limits, before the first vehicle arrives. -/
def emptyBridge (τ : Type*) (maxReaders maxWriters : UInt16) : BridgeConfig τ :=
  ⟨⟨fun _ => none, fun _ => 0, readyLock maxReaders maxWriters⟩, fun _ => .running .road⟩

/-- All runs of the vehicles. -/
def bridgeMachine (τ : Type*) [DecidableEq τ] [Fintype τ] (spurious : Bool)
    (maxReaders maxWriters : UInt16) : Machine (BridgeConfig τ) (Act τ Access) :=
  (bridgeProgram τ spurious).machine fun s => s = emptyBridge τ maxReaders maxWriters

/-- The mutexes a vehicle holds. -/
def BridgeLoc.holds : BridgeLoc → BridgeMutex → Bool
  | .locking _, .state | .relocking _, .state | .unlocking _, .state => true
  | .counting _, .check | .checking _, .check | .exiting _, .check | .unlocking _, .check
  | .uncounting _, .check => true
  | _, _ => false

/-- The mutex a vehicle needs to go on.  A vehicle in the wait needs it to return. -/
def BridgeLoc.wants : BridgeLoc → Option BridgeMutex
  | .road | .wait _ | .exiting _ => some .state
  | .granted _ | .onBridge _ | .leaving _ => some .check
  | _ => none

/-- Vehicle `t` needs a mutex that vehicle `u` holds. -/
def BlockedBy (s : BridgeConfig τ) (t u : τ) : Prop :=
  ∃ i, (s.thr t).loc.wants = some i ∧ s.mem.mutex i = some u

/-- In possession of the lock for the direction `k`. -/
def BridgeLoc.hasLock (k : Access) : BridgeLoc → Bool
  | .granted k' | .counting k' | .onBridge k' | .checking k' | .leaving k' | .exiting k'
  | .unlocking k' => k' == k
  | _ => false

/-- Counted in `n_LR` or `n_RL`. -/
def BridgeLoc.isCounted (k : Access) : BridgeLoc → Bool
  | .onBridge k' | .checking k' | .leaving k' | .exiting k' | .unlocking k' | .uncounting k' =>
      k' == k
  | _ => false

/-- Without the lock, but still counted. -/
def BridgeLoc.isUncounting : BridgeLoc → Bool
  | .uncounting _ => true
  | _ => false

section Moves

variable {max c : Access → Nat} {t : τ} {x : Access} {m m' : Bridge τ}
  {l l' : BridgeLoc} {i : BridgeMutex} {notes : List (Note Access)} {st : Status Access BridgeLoc}

/-- The calls of `pthread_mutex_lock`. -/
inductive Acquires : BridgeLoc → BridgeMutex → BridgeLoc → Prop
  | arrive (k : Access) : Acquires .road .state (.locking k)
  | resume (k : Access) : Acquires (.wait k) .state (.relocking k)
  | count (k : Access) : Acquires (.granted k) .check (.counting k)
  | access (k : Access) : Acquires (.onBridge k) .check (.checking k)
  | exit (k : Access) : Acquires (.leaving k) .check (.exiting k)
  | unlock (k : Access) : Acquires (.exiting k) .state (.unlocking k)

/-- The lock a vehicle finds when it decides whether to wait. -/
inductive Tests (m : Bridge τ) : BridgeLoc → Access → RwLock → Prop
  | first (k : Access) : Tests m (.locking k) k m.bridgeMonitor
  | again (k : Access) : Tests m (.relocking k) k (m.bridgeMonitor.uncountWaiting k)

/-- Everything a vehicle can do. -/
inductive BridgeMove (t : τ) (m : Bridge τ) :
    BridgeLoc → Bridge τ → List (Note Access) → Status Access BridgeLoc → Prop
  | acquire {l l' : BridgeLoc} {i : BridgeMutex} (ha : Acquires l i l') (hfree : m.mutex i = none) :
      BridgeMove t m l { m with mutex := Function.update m.mutex i (some t) } [] (.running l')
  | block {l : BridgeLoc} {k : Access} {lock : RwLock} (ha : Tests m l k lock) :
      BridgeMove t m l ({ m with bridgeMonitor := lock.countWaiting k }.release .state) []
        (.waiting k (.wait k))
  | enter {l : BridgeLoc} {k : Access} {lock : RwLock} (ha : Tests m l k lock)
      (hw : lock.mustWait k = false) :
      BridgeMove t m l ({ m with bridgeMonitor := enter k lock }.release .state) []
        (.running (.granted k))
  | count (k : Access) :
      BridgeMove t m (.counting k) ((m.addVehicles k 1).release .check) [] (.running (.onBridge k))
  | check (k : Access) :
      BridgeMove t m (.checking k) (m.release .check) [] (.running (.leaving k))
  | unlock (k : Access) {lock : RwLock} {notes : List (Note Access)}
      (hu : rwLockUnlock m.bridgeMonitor = some (lock, notes)) :
      BridgeMove t m (.unlocking k) ({ m with bridgeMonitor := lock }.release .state) notes
        (.running (.uncounting k))
  | uncount (k : Access) :
      BridgeMove t m (.uncounting k) ((m.addVehicles k (-1)).release .check) [] (.running .road)

theorem Tests.holders {k : Access} {lock : RwLock} (ha : Tests m l k lock)
    (h : Holders max c m.bridgeMonitor) : Holders max c lock := by
  cases ha with
  | first => exact h
  | again => exact h.uncountWaiting k

theorem bridgeMove_of_acquire (ha : Acquires l i l') (h : m.acquire i t l' = .done m' notes st) :
    BridgeMove t m l m' notes st := by
  unfold Bridge.acquire at h
  split at h
  · next hfree =>
    cases h
    exact .acquire ha (by simpa using hfree)
  · cases h

theorem bridgeMove_of_locked {k : Access} {lock : RwLock} (ha : Tests m l k lock)
    (h : m.locked k (if lock.mustWait k then .waits (lock.countWaiting k)
      else .granted (enter k lock)) = .done m' notes st) : BridgeMove t m l m' notes st := by
  by_cases hw : lock.mustWait k = true
  · rw [if_pos hw] at h
    cases h
    exact .block ha
  · rw [if_neg hw] at h
    cases h
    exact .enter ha (by simpa using hw)

/-- A step of a vehicle is one of the listed moves. -/
theorem bridgeMove_of_exec (hm : Holders max c m.bridgeMonitor)
    (h : bridgeExec t l x m = .done m' notes st) : BridgeMove t m l m' notes st := by
  cases l with
  | road => exact bridgeMove_of_acquire (.arrive x) h
  | wait k => exact bridgeMove_of_acquire (.resume k) h
  | granted k => exact bridgeMove_of_acquire (.count k) h
  | onBridge k => exact bridgeMove_of_acquire (.access k) h
  | leaving k => exact bridgeMove_of_acquire (.exit k) h
  | exiting k => exact bridgeMove_of_acquire (.unlock k) h
  | locking k =>
      cases k with
      | reader =>
          simp only [bridgeExec, rwLockRdLock, lock_spec hm, Effect.call] at h
          exact bridgeMove_of_locked (.first .reader) h
      | writer =>
          simp only [bridgeExec, rwLockWrLock, lock_spec hm, Effect.call] at h
          exact bridgeMove_of_locked (.first .writer) h
  | relocking k =>
      simp only [bridgeExec, lockLoop_spec (hm.uncountWaiting k), Effect.call] at h
      exact bridgeMove_of_locked (.again k) h
  | counting k =>
      cases h
      exact .count k
  | checking k =>
      simp only [bridgeExec] at h
      split at h
      · cases h
        exact .check k
      · cases h
  | unlocking k =>
      obtain ⟨⟨lock, notes'⟩, hu, h⟩ := Effect.call_eq_done.mp h
      cases h
      exact .unlock k hu
  | uncounting k =>
      cases h
      exact .uncount k

theorem Tests.loc {m : Bridge τ} {l : BridgeLoc} {k : Access} {lock : RwLock}
    (ha : Tests m l k lock) (k' : Access) : l.hasLock k' = false ∧ l.isCounted k' = false := by
  cases ha <;> exact ⟨rfl, rfl⟩

/-- A vehicle that tests the lock has the mutex of its state, and no other. -/
theorem Tests.holds {m : Bridge τ} {l : BridgeLoc} {k : Access} {lock : RwLock}
    (ha : Tests m l k lock) (j : BridgeMutex) : l.holds j = decide (j = .state) := by
  cases ha <;> cases j <;> rfl

end Moves

section Invariant

variable [Fintype τ]

/-- The number of vehicles in possession of the lock for the direction `k`. -/
def lockCount (s : BridgeConfig τ) (k : Access) : Nat :=
  tally s.thr fun l => (l.hasLock k).toNat

/-- The number of vehicles that are counted for the direction `k`. -/
def vehicleCount (s : BridgeConfig τ) (k : Access) : Nat :=
  tally s.thr fun l => (l.isCounted k).toNat

variable {maxReaders maxWriters : UInt16} {spurious : Bool} {s s' : BridgeConfig τ} {t u : τ}
  {x : Access} {notes : List (Note Access)} {st : Status Access BridgeLoc}

/-- The invariant of all runs. -/
structure BridgeInv (maxReaders maxWriters : UInt16) (s : BridgeConfig τ) : Prop where
  owned : ∀ i t, s.mem.mutex i = some t ↔ (s.thr t).loc.holds i = true
  holders : Holders (limits maxReaders maxWriters) (lockCount s) s.mem.bridgeMonitor
  counted : ∀ k, s.mem.n k = vehicleCount s k

theorem BridgeInv.init : BridgeInv maxReaders maxWriters (emptyBridge τ maxReaders maxWriters) where
  owned i t := by cases i <;> simp [emptyBridge, BridgeLoc.holds]
  holders := by
    have hzero : lockCount (emptyBridge τ maxReaders maxWriters) = fun _ => 0 := by
      ext k
      exact tally_eq_zero.mpr fun t => rfl
    rw [hzero]
    exact .fresh maxReaders maxWriters
  counted k := by
    have hzero : vehicleCount (emptyBridge τ maxReaders maxWriters) k = 0 :=
      tally_eq_zero.mpr fun t => rfl
    rw [hzero]
    rfl

/-- Nobody else holds a mutex. -/
theorem BridgeInv.unique (h : BridgeInv maxReaders maxWriters s) {i : BridgeMutex}
    (ht : (s.thr t).loc.holds i = true) (hu : (s.thr u).loc.holds i = true) : u = t := by
  have := (h.owned i t).mpr ht
  rw [(h.owned i u).mpr hu] at this
  exact Option.some.inj this

/-- While nobody is about to uncount itself, whoever is counted has the lock. -/
theorem vehicleCount_le (hno : ∀ u, (s.thr u).loc.isUncounting = false) (k : Access) :
    vehicleCount s k ≤ lockCount s k := by
  have hzero : tally s.thr (fun l => l.isUncounting.toNat) = 0 :=
    tally_eq_zero.mpr fun u => by rw [hno u]; rfl
  have hle : ∀ l : BridgeLoc, (l.isCounted k).toNat ≤ (l.hasLock k).toNat + l.isUncounting.toNat := by
    intro l
    cases l <;> simp [BridgeLoc.isCounted, BridgeLoc.hasLock, BridgeLoc.isUncounting]
    exact Bool.toNat_le _
  have hsum := tally_mono s.thr hle
  rw [tally_add, hzero] at hsum
  exact hsum

/-- The counts where nobody is about to uncount itself. -/
theorem BridgeInv.counts (h : BridgeInv maxReaders maxWriters s)
    (hno : ∀ u, (s.thr u).loc.isUncounting = false) :
    ¬ (0 < s.mem.n .reader ∧ 0 < s.mem.n .writer) ∧
      ∀ k, 0 ≤ s.mem.n k ∧ s.mem.n k ≤ s.mem.bridgeMonitor.nMax k := by
  have hcounted := h.counted
  refine ⟨fun hboth => ?_, fun k => ?_⟩
  · have hr := vehicleCount_le hno .reader
    have hw := vehicleCount_le hno .writer
    have hnr := hcounted .reader
    have hnw := hcounted .writer
    have hexcl : lockCount s .writer = 0 := h.holders.exclusive .reader (by omega)
    omega
  · have hle := vehicleCount_le hno k
    have hmax := h.holders.le k
    have hn := hcounted k
    rw [h.holders.nMax]
    omega

/-- The assertions of `bridge_access` hold for the vehicle that checks them. -/
theorem BridgeInv.access (h : BridgeInv maxReaders maxWriters s) {k : Access}
    (hl : (s.thr t).loc = .checking k) : bridgeAccess s.mem = true := by
  have hmine : (s.thr t).loc.holds .check = true := by rw [hl]; rfl
  have hno : ∀ u, (s.thr u).loc.isUncounting = false := by
    intro u
    cases hu : (s.thr u).loc with
    | uncounting k' =>
        have heq := h.unique hmine (by rw [hu]; rfl : (s.thr u).loc.holds .check = true)
        rw [heq, hl] at hu
        cases hu
    | _ => rfl
  obtain ⟨hexcl, hrange⟩ := h.counts hno
  have hr := hrange .reader
  have hw := hrange .writer
  simp only [bridgeAccess, Bool.and_eq_true, decide_eq_true_eq]
  refine ⟨⟨hr.1, hw.1⟩, ?_⟩
  by_cases hzero : s.mem.n .reader = 0
  · simp [hzero, hw.2]
  · have hnone : s.mem.n .writer = 0 := by omega
    simp [hzero, hnone, hr.2]

theorem BridgeInv.exec_ne_abort (h : BridgeInv maxReaders maxWriters s) (t : τ) (x : Access) :
    bridgeExec t (s.thr t).loc x s.mem ≠ .abort := by
  have hacquire : ∀ i l, s.mem.acquire i t l ≠ .abort := by
    intro i l
    unfold Bridge.acquire
    split <;> simp
  have hlocked : ∀ k r, s.mem.locked k r ≠ .abort := by
    intro k r
    cases r <;> simp [Bridge.locked]
  cases hl : (s.thr t).loc with
  | locking k =>
      cases k with
      | reader =>
          simp only [bridgeExec, rwLockRdLock, lock_spec h.holders, Effect.call]
          exact hlocked _ _
      | writer =>
          simp only [bridgeExec, rwLockWrLock, lock_spec h.holders, Effect.call]
          exact hlocked _ _
  | relocking k =>
      simp only [bridgeExec, lockLoop_spec (h.holders.uncountWaiting k), Effect.call]
      exact hlocked _ _
  | checking k => simp [bridgeExec, h.access hl]
  | unlocking k =>
      have hpos : 0 < lockCount s k := by
        apply tally_pos.mpr
        exact ⟨t, by rw [hl]; simp [BridgeLoc.hasLock]⟩
      obtain ⟨lock, notes, hu, -⟩ := unlock_spec h.holders hpos
      simp [bridgeExec, hu, Effect.call]
  | counting k => simp [bridgeExec]
  | uncounting k => simp [bridgeExec]
  | _ => exact hacquire _ _

/-- A vehicle that holds `state_mutex` needs no mutex, and only one that needs it holds the other. -/
theorem BridgeLoc.wants_of_holds {l : BridgeLoc} {i : BridgeMutex} (h : l.holds i = true) :
    l.wants = none ∨ i = .check ∧ l.wants = some .state := by
  cases l <;> cases i <;> simp_all [holds, wants]

/-- Where a chain of blocked vehicles goes through two of them, it ends. -/
theorem BridgeInv.chain_ends (h : BridgeInv maxReaders maxWriters s) {t u v : τ}
    (htu : BlockedBy s t u) (huv : BlockedBy s u v) : (s.thr v).loc.wants = none := by
  obtain ⟨i, -, hi⟩ := htu
  obtain ⟨j, hj, hv⟩ := huv
  rw [h.owned] at hi hv
  rcases BridgeLoc.wants_of_holds hi with hnone | ⟨-, hstate⟩
  · rw [hnone] at hj
    cases hj
  · rw [hstate] at hj
    cases hj
    exact (BridgeLoc.wants_of_holds hv).resolve_right fun hcheck => by cases hcheck.1

theorem BridgeInv.noCycle (h : BridgeInv maxReaders maxWriters s) (t : τ) :
    ¬ Relation.TransGen (BlockedBy s) t t := by
  intro hcycle
  -- the cycle passes through `t`, so somebody is blocked by `t` and `t` by somebody
  obtain ⟨u, htu, hut⟩ := Relation.TransGen.head'_iff.mp hcycle
  obtain ⟨v, -, hvt⟩ := Relation.TransGen.tail'_iff.mp hcycle
  have hend := h.chain_ends hvt htu
  rcases Relation.ReflTransGen.cases_head hut with rfl | ⟨w, huw, -⟩
  · obtain ⟨i, hi, -⟩ := htu
    rw [hend] at hi
    cases hi
  · obtain ⟨i, hi, -⟩ := huw
    rw [hend] at hi
    cases hi

variable [DecidableEq τ]

/-- What the bridge program promises. -/
structure BridgeSafe (spurious : Bool) (s : BridgeConfig τ) : Prop where
  /-- No assertion of `bridge_access` or of the lock fails. -/
  asserts : ∀ a, (bridgeProgram τ spurious).step s a ≠ .abort
  /-- Whenever `bridge_check_mutex` is free, one direction is on the bridge, within its limit. -/
  counts : s.mem.mutex .check = none →
    ¬ (0 < s.mem.n .reader ∧ 0 < s.mem.n .writer) ∧
      ∀ k, 0 ≤ s.mem.n k ∧ s.mem.n k ≤ s.mem.bridgeMonitor.nMax k
  /-- Nobody blocks itself through the two mutexes. -/
  noCycle : ∀ t, ¬ Relation.TransGen (BlockedBy s) t t

theorem lockCount_ran (h : (bridgeProgram τ spurious).Ran s t x s' notes st) (k : Access) :
    lockCount s' k + ((s.thr t).loc.hasLock k).toNat = lockCount s k + (st.loc.hasLock k).toNat :=
  h.tally fun l => (l.hasLock k).toNat

theorem vehicleCount_ran (h : (bridgeProgram τ spurious).Ran s t x s' notes st) (k : Access) :
    vehicleCount s' k + ((s.thr t).loc.isCounted k).toNat =
      vehicleCount s k + (st.loc.isCounted k).toNat :=
  h.tally fun l => (l.isCounted k).toNat

/-- A vehicle takes a free mutex. -/
theorem BridgeInv.owned_acquire (h : BridgeInv maxReaders maxWriters s)
    (hran : (bridgeProgram τ spurious).Ran s t x s' notes st) {i : BridgeMutex}
    (hfree : s.mem.mutex i = none)
    (hmutex : s'.mem.mutex = Function.update s.mem.mutex i (some t))
    (hholds : ∀ j, st.loc.holds j = ((s.thr t).loc.holds j || decide (j = i))) (j : BridgeMutex)
    (u : τ) : s'.mem.mutex j = some u ↔ (s'.thr u).loc.holds j = true := by
  have hnobody : ∀ v, (s.thr v).loc.holds i ≠ true := by
    intro v hv
    rw [(h.owned i v).mpr hv] at hfree
    cases hfree
  rw [hmutex]
  by_cases hut : u = t
  · rw [hut, hran.self, hholds, Bool.or_eq_true, ← h.owned j t, decide_eq_true_eq]
    by_cases hj : j = i
    · simp [hj]
    · simp [hj]
  · rw [hran.loc_of_ne hut, ← h.owned j u]
    by_cases hj : j = i
    · rw [hj, Function.update_self, hfree]
      constructor
      · intro heq
        exact absurd (Option.some.inj heq).symm hut
      · intro heq
        cases heq
    · rw [Function.update_of_ne hj]

/-- A vehicle gives a mutex back. -/
theorem BridgeInv.owned_release (h : BridgeInv maxReaders maxWriters s)
    (hran : (bridgeProgram τ spurious).Ran s t x s' notes st) {i : BridgeMutex}
    (hmine : (s.thr t).loc.holds i = true)
    (hmutex : s'.mem.mutex = Function.update s.mem.mutex i none)
    (hholds : ∀ j, st.loc.holds j = ((s.thr t).loc.holds j && decide (j ≠ i))) (j : BridgeMutex)
    (u : τ) : s'.mem.mutex j = some u ↔ (s'.thr u).loc.holds j = true := by
  rw [hmutex]
  by_cases hut : u = t
  · rw [hut, hran.self, hholds, Bool.and_eq_true, ← h.owned j t, decide_eq_true_eq]
    by_cases hj : j = i
    · simp [hj]
    · simp [hj]
  · rw [hran.loc_of_ne hut, ← h.owned j u]
    by_cases hj : j = i
    · rw [hj, Function.update_self, (h.owned i t).mpr hmine]
      constructor
      · intro heq
        cases heq
      · intro heq
        exact absurd (Option.some.inj heq).symm hut
    · rw [Function.update_of_ne hj]

/-- The counts after a step that adds `d` vehicles of direction `k`. -/
theorem BridgeInv.counted_ran (h : BridgeInv maxReaders maxWriters s)
    (hran : (bridgeProgram τ spurious).Ran s t x s' notes st) (d : Access → Int)
    (hn : ∀ k, s'.mem.n k = s.mem.n k + d k)
    (hd : ∀ k, ((st.loc.isCounted k).toNat : Int) = ((s.thr t).loc.isCounted k).toNat + d k)
    (k : Access) : s'.mem.n k = vehicleCount s' k := by
  have hcount := vehicleCount_ran hran k
  have hold := h.counted k
  have hnew := hn k
  have hdk := hd k
  omega

/-- A step that changes nothing about who has the lock. -/
theorem lockCount_eq (hran : (bridgeProgram τ spurious).Ran s t x s' notes st)
    (hsame : ∀ k, st.loc.hasLock k = (s.thr t).loc.hasLock k) : lockCount s' = lockCount s := by
  ext k
  have hcount := lockCount_ran hran k
  rw [hsame] at hcount
  omega

theorem Acquires.holds {l l' : BridgeLoc} {i : BridgeMutex} (ha : Acquires l i l')
    (j : BridgeMutex) : l'.holds j = (l.holds j || decide (j = i)) := by
  cases ha <;> cases j <;> rfl

theorem Acquires.same {l l' : BridgeLoc} {i : BridgeMutex} (ha : Acquires l i l') (k : Access) :
    l'.hasLock k = l.hasLock k ∧ l'.isCounted k = l.isCounted k := by
  cases ha <;> exact ⟨rfl, rfl⟩

/-- What a vehicle of direction `k` contributes to a count for `k'`. -/
theorem toNat_beq (k k' : Access) : (k == k').toNat = if k = k' then 1 else 0 := by
  cases k <;> cases k' <;> rfl

/-- A vehicle gets the lock. -/
theorem lockCount_succ (hran : (bridgeProgram τ spurious).Ran s t x s' notes st) {k : Access}
    (hbefore : ∀ k', (s.thr t).loc.hasLock k' = false)
    (hafter : ∀ k', st.loc.hasLock k' = (k == k')) :
    lockCount s' = Function.update (lockCount s) k (lockCount s k + 1) := by
  ext k'
  have hnew := lockCount_ran hran k'
  rw [hbefore, hafter, toNat_beq, Bool.toNat_false] at hnew
  by_cases hk : k' = k
  · subst hk
    rw [Function.update_self]
    rw [if_pos rfl] at hnew
    exact hnew
  · rw [Function.update_of_ne hk]
    rw [if_neg (Ne.symm hk)] at hnew
    exact hnew

/-- A vehicle gives the lock back. -/
theorem lockCount_pred (hran : (bridgeProgram τ spurious).Ran s t x s' notes st) {k : Access}
    (hbefore : ∀ k', (s.thr t).loc.hasLock k' = (k == k'))
    (hafter : ∀ k', st.loc.hasLock k' = false) :
    lockCount s' = Function.update (lockCount s) k (lockCount s k - 1) := by
  ext k'
  have hnew := lockCount_ran hran k'
  rw [hbefore, hafter, toNat_beq, Bool.toNat_false] at hnew
  by_cases hk : k' = k
  · subst hk
    rw [Function.update_self]
    rw [if_pos rfl] at hnew
    omega
  · rw [Function.update_of_ne hk]
    rw [if_neg (Ne.symm hk)] at hnew
    exact hnew

/-- **Every step keeps the invariant.** -/
theorem BridgeInv.step (h : BridgeInv maxReaders maxWriters s)
    (hran : (bridgeProgram τ spurious).Ran s t x s' notes st) :
    BridgeInv maxReaders maxWriters s' := by
  have hmove := bridgeMove_of_exec h.holders hran.exec
  generalize hl : (s.thr t).loc = l at hmove
  generalize hm : s'.mem = m' at hmove
  generalize hst : st = st' at hmove
  cases hmove with
  | @acquire l l' i ha hfree =>
      -- no vehicle is counted or uncounted while it takes a mutex
      have hsame := fun k => (ha.same k).1
      have hcount := fun k => (ha.same k).2
      refine ⟨?_, ?_, ?_⟩
      · exact h.owned_acquire hran hfree (by rw [hm]) (by rw [hst, hl]; exact ha.holds)
      · rw [lockCount_eq hran (by rw [hst, hl]; exact hsame), hm]
        exact h.holders
      · refine h.counted_ran hran (fun _ => 0) (fun k => by rw [hm]; simp) fun k => ?_
        rw [hst, hl, Status.loc_running, hcount]
        simp
  | @block l k lock ha =>
      -- it waits with the mutex released, and the lock counts it as waiting
      have hloc := fun k' => ha.loc k'
      refine ⟨?_, ?_, ?_⟩
      · refine h.owned_release hran (i := .state) (by rw [hl, ha.holds]; rfl) (by rw [hm]; rfl)
          fun j => ?_
        rw [hst, hl, ha.holds]
        cases j <;> rfl
      · rw [lockCount_eq hran fun k' => by rw [hst, hl, (hloc k').1]; rfl, hm]
        exact (ha.holders h.holders).countWaiting k
      · refine h.counted_ran hran (fun _ => 0) (fun k => by rw [hm]; simp [Bridge.release])
          fun k' => ?_
        rw [hst, hl, (hloc k').2]
        rfl
  | @enter l k lock ha hw =>
      have hloc := fun k' => ha.loc k'
      refine ⟨?_, ?_, ?_⟩
      · refine h.owned_release hran (i := .state) (by rw [hl, ha.holds]; rfl) (by rw [hm]; rfl)
          fun j => ?_
        rw [hst, hl, ha.holds]
        cases j <;> rfl
      · rw [lockCount_succ hran (fun k' => by rw [hl]; exact (hloc k').1) fun k' => by rw [hst]; rfl, hm]
        -- the test let it pass, so the lock has room for it
        exact (ha.holders h.holders).enter hw
      · refine h.counted_ran hran (fun _ => 0) (fun k => by rw [hm]; simp [Bridge.release])
          fun k' => ?_
        rw [hst, hl, (hloc k').2]
        rfl
  | count k =>
      refine ⟨?_, ?_, ?_⟩
      · refine h.owned_release hran (i := .check) (by rw [hl]; rfl) (by rw [hm]; rfl) fun j => ?_
        rw [hst, hl]
        cases j <;> rfl
      · rw [lockCount_eq hran fun k' => by rw [hst, hl]; rfl, hm]
        exact h.holders
      · refine h.counted_ran hran (fun k' => if k = k' then 1 else 0)
          (fun k' => by rw [hm]; exact s.mem.n_addVehicles k k' 1) fun k' => ?_
        rw [hst, hl]
        simp only [Status.loc_running, BridgeLoc.isCounted, toNat_beq, Bool.toNat_false]
        split <;> rfl
  | check k =>
      refine ⟨?_, ?_, ?_⟩
      · refine h.owned_release hran (i := .check) (by rw [hl]; rfl) (by rw [hm]; rfl) fun j => ?_
        rw [hst, hl]
        cases j <;> rfl
      · rw [lockCount_eq hran fun k' => by rw [hst, hl]; rfl, hm]
        exact h.holders
      · refine h.counted_ran hran (fun _ => 0) (fun k => by rw [hm]; simp [Bridge.release])
          fun k' => ?_
        rw [hst, hl, Int.add_zero]
        rfl
  | @unlock k lock notes hu =>
      -- the vehicle itself holds the lock, so that there is something to unlock
      have hpos : 0 < lockCount s k := by
        apply tally_pos.mpr
        exact ⟨t, by rw [hl]; simp [BridgeLoc.hasLock]⟩
      obtain ⟨lock', notes', hu', hholders, -, -⟩ := unlock_spec h.holders hpos
      rw [hu] at hu'
      cases hu'
      refine ⟨?_, ?_, ?_⟩
      · refine h.owned_release hran (i := .state) (by rw [hl]; rfl) (by rw [hm]; rfl) fun j => ?_
        rw [hst, hl]
        cases j <;> rfl
      · rw [lockCount_pred hran (fun k' => by rw [hl]; rfl) fun k' => by rw [hst]; rfl, hm]
        exact hholders
      · refine h.counted_ran hran (fun _ => 0) (fun k => by rw [hm]; simp [Bridge.release])
          fun k' => ?_
        rw [hst, hl, Int.add_zero]
        rfl
  | uncount k =>
      refine ⟨?_, ?_, ?_⟩
      · refine h.owned_release hran (i := .check) (by rw [hl]; rfl) (by rw [hm]; rfl) fun j => ?_
        rw [hst, hl]
        cases j <;> rfl
      · rw [lockCount_eq hran fun k' => by rw [hst, hl]; rfl, hm]
        exact h.holders
      · refine h.counted_ran hran (fun k' => if k = k' then -1 else 0)
          (fun k' => by rw [hm]; exact s.mem.n_addVehicles k k' (-1)) fun k' => ?_
        rw [hst, hl]
        simp only [Status.loc_running, BridgeLoc.isCounted, toNat_beq, Bool.toNat_false]
        split <;> rfl

theorem BridgeInv.woken (h : BridgeInv maxReaders maxWriters s) {c : Access} {l : BridgeLoc}
    (hw : s.thr t = .waiting c l) :
    BridgeInv maxReaders maxWriters ⟨s.mem, Function.update s.thr t (.notified c l)⟩ := by
  have hloc := loc_update_notified hw
  refine ⟨fun i u => ?_, ?_, fun k => ?_⟩
  · show _ ↔ (Function.update s.thr t (.notified c l) u).loc.holds i = true
    rw [hloc u]
    exact h.owned i u
  · have hsame : lockCount ⟨s.mem, Function.update s.thr t (.notified c l)⟩ = lockCount s := by
      ext k
      exact tally_congr hloc _
    rw [hsame]
    exact h.holders
  · show s.mem.n k = tally (Function.update s.thr t (.notified c l)) _
    rw [tally_congr hloc]
    exact h.counted k

theorem bridgeInv_reachable (h : (bridgeMachine τ spurious maxReaders maxWriters).Reachable s) :
    BridgeInv maxReaders maxWriters s := by
  apply Program.invariant _ _ _ h
  · intro s hs
    rw [show s = emptyBridge τ maxReaders maxWriters from hs]
    exact .init
  · intro s t x picks s' notes st hinv _ hran
    exact hinv.step hran
  · intro s t c l hinv _ hw
    exact hinv.woken hw

/-- **The bridge is safe**, with any limits, any number of vehicles in both directions and any
interleaving of the sections under the two mutexes. -/
theorem bridge_safe (h : (bridgeMachine τ spurious maxReaders maxWriters).Reachable s) :
    BridgeSafe spurious s := by
  have hinv := bridgeInv_reachable h
  refine ⟨fun a habort => ?_, fun hfree => hinv.counts fun u => ?_, hinv.noCycle⟩
  · cases a with
    | run t x picks => exact hinv.exec_ne_abort t x (Program.exec_of_abort habort).2
    | spurious t => exact Program.not_abort_spurious habort
  · cases hu : (s.thr u).loc with
    | uncounting k =>
        have hholds : (s.thr u).loc.holds .check = true := by rw [hu]; rfl
        rw [(hinv.owned .check u).mpr hholds] at hfree
        cases hfree
    | _ => rfl

/-- A vehicle from left to right is on the bridge and counted; one from right to left waits. -/
theorem bridge_safe_trace :
    ∃ s : BridgeConfig Bool, BridgeSafe true s ∧ s.mem.n .reader = 1 ∧
      s.thr true = .waiting .writer (.wait .writer) := by
  have hrun : ((bridgeMachine Bool true 1 1).exec (emptyBridge Bool 1 1)
      [.run false .reader [], .run false .reader [], .run true .writer [], .run false .reader [],
        .run false .reader [], .run true .writer []]).holds (fun s =>
        decide (s.mem.n .reader = 1 ∧ s.thr true = .waiting .writer (.wait .writer))) = true := by
    decide +kernel
  obtain ⟨s, hs, hp⟩ := Machine.exists_reachable_of_exec
    (show (bridgeMachine Bool true 1 1).init (emptyBridge Bool 1 1) from rfl) hrun
  exact ⟨s, bridge_safe hs, of_decide_eq_true hp⟩

end Invariant

end AltLock
end MultithreadingBible
