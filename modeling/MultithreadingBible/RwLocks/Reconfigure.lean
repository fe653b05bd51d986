import MultithreadingBible.RwLocks.NeutralWakeUps

/-!
# Customisable reader-writer lock: limits that change while the lock is used

`rw_lock_set_max_readers_writers` takes no mutex and checks nothing, so its two stores fall between any
two steps of the other threads, also between a thread's test of `n_locks` and its `n_locks++`.

* `reconfExec` — the lock in the neutral mode, with the setter; a thread that has passed the test holds
  the mutex until it has counted itself.
* `keepsRoom` — a store of a limit is not below the number of threads of that kind that are inside or
  have passed the test.
* `reconf_grants_within_limit` — in every run in which the stores keep room, a thread is granted the lock
  only below the limit then in force.

The test compares by equality, so a limit that is set below the number of threads inside stops nobody:
`reconf_limit_exceeded` is a run, and `exists_overfull_grant` says that the condition leaves out nothing
else: after a store that breaks it, the next thread that asks is let in beyond the limit.
-/

namespace MultithreadingBible
namespace RwLocks

open Lib

/-- The other kind of access. -/
def Access.other : Access → Access
  | .reader => .writer
  | .writer => .reader

/-- `n_max_readers` or `n_max_writers` -/
def RwLock.limitOf (m : RwLock) : Access → Nat
  | .reader => m.nMaxReaders
  | .writer => m.nMaxWriters

/-- A store to `n_max_readers` or `n_max_writers`. -/
def RwLock.storeLimit (m : RwLock) (k : Access) (n : Nat) : RwLock :=
  match k with
  | .reader => { m with nMaxReaders := n }
  | .writer => { m with nMaxWriters := n }

/-- A lock with its `state_mutex`. -/
structure ReconfMem where
  lock : RwLock
  /-- The mutex is taken between two steps. -/
  mutexTaken : Bool

/-- What a thread outside all calls calls next. -/
inductive ReconfCall where
  /-- `rw_lock_rd_lock` or `rw_lock_wr_lock` -/
  | lock (k : Access)
  /-- `rw_lock_unlock` -/
  | unlock
  /-- `rw_lock_set_max_readers_writers` -/
  | setMax (maxReaders maxWriters : UInt16)
  deriving DecidableEq

/-- Where a thread is. -/
inductive ReconfLoc where
  /-- Without the lock, outside all calls. -/
  | idle
  /-- In the wait of `rw_lock_block_reader_thread` or `rw_lock_block_writer_thread`. -/
  | wait (k : Access) (b : Biasedness)
  /-- Past both loops, with the mutex, before `n_locks++`. -/
  | passed (k : Access)
  /-- In possession of the lock, outside all calls. -/
  | inside (k : Access)
  /-- Between the two stores of `rw_lock_set_max_readers_writers`, perhaps in possession of the lock. -/
  | setting (held : Option Access) (maxWriters : UInt16)
  deriving DecidableEq

/-- Outside all calls. -/
def ReconfLoc.outside : Option Access → ReconfLoc
  | none => .idle
  | some k => .inside k

abbrev ReconfEffect := Effect ReconfMem RwCv ReconfLoc

/-- The two loops of `rw_lock_rd_lock` and `rw_lock_wr_lock`, with the mutex. -/
def reconfLoops (k : Access) (m : ReconfMem) : ReconfEffect :=
  if m.lock.mustWait k then
    .call (blockCv k m.lock.biasedness) fun c =>
      .done { m with lock := m.lock.countWaiting k } [] (.waiting c (.wait k m.lock.biasedness))
  else .done { m with mutexTaken := true } [] (.running (.passed k))

/-- The first store of `rw_lock_set_max_readers_writers`. -/
def reconfSetMax (held : Option Access) (maxReaders maxWriters : UInt16) (m : ReconfMem) :
    ReconfEffect :=
  .done { m with lock := m.lock.storeLimit .reader maxReaders.toNat } []
    (.running (.setting held maxWriters))

/-- What a thread does next.  Everything but the setter needs the mutex. -/
def reconfExec (l : ReconfLoc) (x : ReconfCall) (m : ReconfMem) : ReconfEffect :=
  match l with
  | .idle =>
      match x with
      | .lock k => if m.mutexTaken then .blocked else reconfLoops k m
      | .setMax maxReaders maxWriters => reconfSetMax none maxReaders maxWriters m
      | .unlock => .blocked
  | .wait k b =>
      if m.mutexTaken then .blocked
      else if fallsThrough k b then .abort
      else reconfLoops k { m with lock := m.lock.uncountWaiting k }
  | .passed k => .done ⟨m.lock.enter k, false⟩ [] (.running (.inside k))
  | .inside k =>
      match x with
      | .unlock =>
          if m.mutexTaken then .blocked
          else
            .call (rwLockUnlock m.lock) fun (lock, notes) =>
              .done { m with lock := lock } notes (.running .idle)
      | .setMax maxReaders maxWriters => reconfSetMax (some k) maxReaders maxWriters m
      | .lock _ => .blocked
  | .setting held maxWriters =>
      .done { m with lock := m.lock.storeLimit .writer maxWriters.toNat } []
        (.running (.outside held))

abbrev ReconfConfig (τ : Type*) := Config τ ReconfMem RwCv ReconfLoc

/-- Threads that use one lock and change its limits; the platform may wake them spuriously. -/
def reconfProgram (τ : Type*) : Program τ ReconfMem RwCv ReconfLoc ReconfCall where
  exec _ := reconfExec
  spuriousWakeups := true

/-- A lock after `rw_lock_init`, and all threads outside. -/
def reconfStart (τ : Type*) : ReconfConfig τ :=
  ⟨⟨zeroLock.init, false⟩, fun _ => .running .idle⟩

/-- All runs. -/
def reconfMachine (τ : Type*) [DecidableEq τ] [Fintype τ] :
    Machine (ReconfConfig τ) (Act τ ReconfCall) :=
  (reconfProgram τ).machine (· = reconfStart τ)

/-- In possession of the lock with access `k`. -/
def ReconfLoc.holds (k : Access) : ReconfLoc → Bool
  | .inside k' => k' == k
  | .setting (some k') _ => k' == k
  | _ => false

/-- Past the test, not yet counted. -/
def ReconfLoc.passes (k : Access) : ReconfLoc → Bool
  | .passed k' => k' == k
  | _ => false

section Counts

variable {τ : Type*} [Fintype τ]

/-- The number of threads in possession of the lock with access `k`. -/
def holderCount (s : ReconfConfig τ) (k : Access) : Nat :=
  (Finset.univ.filter fun t => (s.thr t).loc.holds k = true).card

/-- The number of threads that have passed the test for access `k` and are not yet counted. -/
def passingCount (s : ReconfConfig τ) (k : Access) : Nat :=
  (Finset.univ.filter fun t => (s.thr t).loc.passes k = true).card

/-- The number of threads inside. -/
def totalInside (s : ReconfConfig τ) : Nat := holderCount s .reader + holderCount s .writer

/-- The limit a thread at `l` is about to store, and for which kind of access. -/
def storedLimit (l : ReconfLoc) (x : ReconfCall) : Option (Access × Nat) :=
  match l, x with
  | .idle, .setMax maxReaders _ => some (.reader, maxReaders.toNat)
  | .inside _, .setMax maxReaders _ => some (.reader, maxReaders.toNat)
  | .setting _ maxWriters, _ => some (.writer, maxWriters.toNat)
  | _, _ => none

/-- A limit that is stored is not below the number of threads of its kind that are inside or have passed
the test. -/
def keepsRoom (s : ReconfConfig τ) : Act τ ReconfCall → Bool
  | .run t x _ =>
      match storedLimit (s.thr t).loc x with
      | some (k, n) => decide (holderCount s k + passingCount s k ≤ n)
      | none => true
  | .spurious _ => true

end Counts

section Fields

variable {m m₁ m' : RwLock} {k k' : Access} {notes : List (Note RwCv)}

theorem Access.forall_of_other {p : Access → Prop} (k : Access) (h : p k) (h' : p k.other) :
    ∀ k', p k' := by
  intro k'
  cases k <;> cases k' <;> assumption

@[simp] theorem Access.other_other (k : Access) : k.other.other = k := by
  cases k <;> rfl

theorem Access.ne_other (k : Access) : k ≠ k.other := by
  cases k <;> decide

/-- The first loop of a call: the lock belongs to the other kind, or the limit is met exactly. -/
theorem RwLock.isClosed_eq (m : RwLock) (k : Access) :
    m.isClosed k = (m.isLockedBy k.other || m.nLocks == m.limitOf k) := by
  cases k <;> rfl

theorem RwLock.limitOf_storeLimit (m : RwLock) (k k' : Access) (n : Nat) :
    (m.storeLimit k n).limitOf k' = if k = k' then n else m.limitOf k' := by
  cases k <;> cases k' <;> rfl

theorem RwLock.isLockedBy_storeLimit (m : RwLock) (k k' : Access) (n : Nat) :
    (m.storeLimit k n).isLockedBy k' = m.isLockedBy k' := by
  cases k <;> cases k' <;> rfl

@[simp] theorem RwLock.nLocks_storeLimit (m : RwLock) (k : Access) (n : Nat) :
    (m.storeLimit k n).nLocks = m.nLocks := by
  cases k <;> rfl

@[simp] theorem RwLock.biasedness_storeLimit (m : RwLock) (k : Access) (n : Nat) :
    (m.storeLimit k n).biasedness = m.biasedness := by
  cases k <;> rfl

theorem SameLock.isLockedBy (h : SameLock m m₁) (k : Access) : m₁.isLockedBy k = m.isLockedBy k := by
  cases k with
  | reader => exact h.byReader
  | writer => exact h.byWriter

theorem SameLock.limitOf (h : SameLock m m₁) (k : Access) : m₁.limitOf k = m.limitOf k := by
  cases k with
  | reader => exact h.maxReaders
  | writer => exact h.maxWriters

theorem RwLock.isLockedBy_enter (m : RwLock) (k k' : Access) :
    (m.enter k).isLockedBy k' = (m.isLockedBy k' || decide (k = k') && m.nLocks == 0) := by
  cases k <;> cases k' <;> simp [enter, isLockedBy]

theorem RwLock.nLocks_enter (m : RwLock) (k : Access) :
    (m.enter k).nLocks = countUp 16 m.nLocks := by
  cases k <;> rfl

theorem RwLock.limitOf_enter (m : RwLock) (k k' : Access) : (m.enter k).limitOf k' = m.limitOf k' := by
  cases k <;> cases k' <;> rfl

/-- `rw_lock_unlock` by a thread of the only kind inside. -/
theorem unlock_fields (h : rwLockUnlock m = some (m', notes)) (hother : m.isLockedBy k.other = false) :
    m'.nLocks = countDown 16 m.nLocks ∧ m'.isLockedBy k.other = false ∧
      m'.isLockedBy k = (m.isLockedBy k && m'.nLocks != 0) ∧
      (∀ k', m'.limitOf k' = m.limitOf k') ∧ m'.biasedness = m.biasedness := by
  obtain ⟨-, hn, hw, hr, hmaxR, hmaxW, hb⟩ := rwLockUnlock_spec h
  refine ⟨hn, ?_, ?_, ?_, hb⟩
  · cases k with
    | reader => exact hw.trans (by rw [show m.isLockedByWriter = false from hother, Bool.false_and])
    | writer => exact hr.trans (by rw [show m.isLockedByReader = false from hother, Bool.false_and])
  · cases k with
    | reader =>
        refine hr.trans ?_
        rw [show m.isLockedByWriter = false from hother, Bool.false_or]
        rfl
    | writer => exact hw
  · intro k'
    cases k' with
    | reader => exact hmaxR
    | writer => exact hmaxW

end Fields

section Moves

variable {x : ReconfCall} {m m' : ReconfMem} {l : ReconfLoc} {k : Access} {lock₁ : RwLock}
  {notes : List (Note RwCv)} {st : Status RwCv ReconfLoc}

/-- The lock a thread finds at the head of the loops. -/
inductive Tests (x : ReconfCall) (m : ReconfMem) : ReconfLoc → Access → RwLock → Prop
  | fresh {k : Access} (hx : x = .lock k) : Tests x m .idle k m.lock
  | resumed {k : Access} {b : Biasedness} : Tests x m (.wait k b) k (m.lock.uncountWaiting k)

/-- Everything a thread can do. -/
inductive ReconfMove (x : ReconfCall) (m : ReconfMem) :
    ReconfLoc → ReconfMem → List (Note RwCv) → Status RwCv ReconfLoc → Prop
  | block {l : ReconfLoc} {k : Access} {lock₁ : RwLock} {c : RwCv} {b : Biasedness}
      (ht : Tests x m l k lock₁) :
      ReconfMove x m l ⟨lock₁.countWaiting k, m.mutexTaken⟩ [] (.waiting c (.wait k b))
  | pass {l : ReconfLoc} {k : Access} {lock₁ : RwLock} (ht : Tests x m l k lock₁)
      (hfree : m.mutexTaken = false) (hw : lock₁.mustWait k = false) :
      ReconfMove x m l ⟨lock₁, true⟩ [] (.running (.passed k))
  | grant {k : Access} : ReconfMove x m (.passed k) ⟨m.lock.enter k, false⟩ [] (.running (.inside k))
  | unlock {k : Access} {lock' : RwLock} {notes : List (Note RwCv)} (hx : x = .unlock)
      (hu : rwLockUnlock m.lock = some (lock', notes)) :
      ReconfMove x m (.inside k) ⟨lock', m.mutexTaken⟩ notes (.running .idle)
  | setReaders {held : Option Access} {maxReaders maxWriters : UInt16}
      (hx : x = .setMax maxReaders maxWriters) :
      ReconfMove x m (.outside held) ⟨m.lock.storeLimit .reader maxReaders.toNat, m.mutexTaken⟩ []
        (.running (.setting held maxWriters))
  | setWriters {held : Option Access} {maxWriters : UInt16} :
      ReconfMove x m (.setting held maxWriters)
        ⟨m.lock.storeLimit .writer maxWriters.toNat, m.mutexTaken⟩ [] (.running (.outside held))

theorem reconfMove_of_loops (ht : Tests x m l k lock₁) (hfree : m.mutexTaken = false)
    (h : reconfLoops k ⟨lock₁, m.mutexTaken⟩ = .done m' notes st) :
    ReconfMove x m l m' notes st := by
  unfold reconfLoops at h
  split at h
  case isTrue hw =>
    obtain ⟨c, hc, h⟩ := Effect.call_eq_done.mp h
    cases h
    exact .block ht
  case isFalse hw =>
    cases h
    exact .pass ht hfree (by simpa using hw)

/-- A step of a thread is one of the listed moves. -/
theorem reconfMove_of_exec (h : reconfExec l x m = .done m' notes st) :
    ReconfMove x m l m' notes st := by
  cases l with
  | idle =>
      cases x with
      | lock k =>
          simp only [reconfExec] at h
          split at h
          case isTrue => cases h
          case isFalse hfree => exact reconfMove_of_loops (.fresh rfl) (by simpa using hfree) h
      | unlock => cases h
      | setMax maxReaders maxWriters =>
          cases h
          show ReconfMove _ m (.outside none) _ _ _
          exact .setReaders rfl
  | wait k b =>
      simp only [reconfExec] at h
      split at h
      case isTrue => cases h
      case isFalse hfree =>
        split at h
        case isTrue => cases h
        case isFalse => exact reconfMove_of_loops .resumed (by simpa using hfree) h
  | passed k =>
      cases h
      exact .grant
  | inside k =>
      cases x with
      | lock k' => cases h
      | unlock =>
          simp only [reconfExec] at h
          split at h
          case isTrue => cases h
          case isFalse =>
            obtain ⟨⟨lock', notes'⟩, hu, h⟩ := Effect.call_eq_done.mp h
            cases h
            exact .unlock rfl hu
      | setMax maxReaders maxWriters =>
          cases h
          show ReconfMove _ m (.outside (some k)) _ _ _
          exact .setReaders rfl
  | setting held maxWriters =>
      cases h
      exact .setWriters

theorem Tests.sameLock (ht : Tests x m l k lock₁) : SameLock m.lock lock₁ := by
  cases ht with
  | fresh => exact ⟨rfl, rfl, rfl, rfl, rfl, rfl⟩
  | resumed => exact sameLock_uncountWaiting m.lock k

theorem Tests.holds (ht : Tests x m l k lock₁) (k' : Access) : l.holds k' = false := by
  cases ht <;> rfl

theorem Tests.passes (ht : Tests x m l k lock₁) (k' : Access) : l.passes k' = false := by
  cases ht <;> rfl

theorem ReconfLoc.holds_inside (k k' : Access) :
    ((ReconfLoc.inside k).holds k').toNat = if k = k' then 1 else 0 := by
  cases k <;> cases k' <;> rfl

theorem ReconfLoc.passes_passed (k k' : Access) :
    ((ReconfLoc.passed k).passes k').toNat = if k = k' then 1 else 0 := by
  cases k <;> cases k' <;> rfl

/-- Who changes the limits keeps the lock. -/
theorem ReconfLoc.holds_setting (held : Option Access) (maxWriters : UInt16) (k : Access) :
    (ReconfLoc.setting held maxWriters).holds k = (ReconfLoc.outside held).holds k := by
  cases held <;> rfl

theorem ReconfLoc.passes_outside (held : Option Access) (k : Access) :
    (ReconfLoc.outside held).passes k = false := by
  cases held <;> rfl

/-- The store of `n_max_readers` seen from its location. -/
theorem storedLimit_outside (held : Option Access) (maxReaders maxWriters : UInt16) :
    storedLimit (.outside held) (.setMax maxReaders maxWriters) = some (.reader, maxReaders.toNat) := by
  cases held <;> rfl

end Moves

section Invariant

variable {τ : Type*} [Fintype τ] {s s' : ReconfConfig τ} {t : τ} {x : ReconfCall}
  {notes : List (Note RwCv)} {st : Status RwCv ReconfLoc} {k : Access}

/-- The number of threads that are inside with access `k` or about to be. -/
def admittedCount (s : ReconfConfig τ) (k : Access) : Nat := holderCount s k + passingCount s k

/-- The invariant of the runs in which the stores keep room. -/
structure RoomInv (s : ReconfConfig τ) : Prop where
  room : ∀ k, admittedCount s k ≤ s.mem.lock.limitOf k
  limit_lt : ∀ k, s.mem.lock.limitOf k < 2 ^ 16
  exclusive : ∀ k, admittedCount s k = 0 ∨ admittedCount s k.other = 0
  nLocks : ∀ k, s.mem.lock.nLocks = holderCount s k + holderCount s k.other
  lockedBy : ∀ k, s.mem.lock.isLockedBy k = true ↔ 0 < holderCount s k
  passing : ∀ k, passingCount s k + passingCount s k.other = s.mem.mutexTaken.toNat
  neutral : s.mem.lock.biasedness = .neutral
  waits : ∀ t c l, s.thr t = .waiting c l → ∃ k b, l = .wait k b

theorem totalInside_eq (s : ReconfConfig τ) (k : Access) :
    totalInside s = holderCount s k + holderCount s k.other := by
  cases k with
  | reader => rfl
  | writer => exact Nat.add_comm _ _

theorem holderCount_eq (s : ReconfConfig τ) (k : Access) :
    holderCount s k = tally s.thr fun l => (l.holds k).toNat :=
  card_filter_loc s.thr fun l => l.holds k

theorem passingCount_eq (s : ReconfConfig τ) (k : Access) :
    passingCount s k = tally s.thr fun l => (l.passes k).toNat :=
  card_filter_loc s.thr fun l => l.passes k

variable [DecidableEq τ]

theorem holderCount_ran (h : (reconfProgram τ).Ran s t x s' notes st) (k : Access) :
    holderCount s' k + ((s.thr t).loc.holds k).toNat = holderCount s k + (st.loc.holds k).toNat := by
  rw [holderCount_eq, holderCount_eq]
  exact h.tally fun l => (l.holds k).toNat

theorem passingCount_ran (h : (reconfProgram τ).Ran s t x s' notes st) (k : Access) :
    passingCount s' k + ((s.thr t).loc.passes k).toNat =
      passingCount s k + (st.loc.passes k).toNat := by
  rw [passingCount_eq, passingCount_eq]
  exact h.tally fun l => (l.passes k).toNat

/-- A thread that neither gets in or out nor passes the test leaves the numbers as they are. -/
theorem counts_ran_same (h : (reconfProgram τ).Ran s t x s' notes st)
    (hholds : ∀ k, (s.thr t).loc.holds k = st.loc.holds k)
    (hpasses : ∀ k, (s.thr t).loc.passes k = st.loc.passes k) :
    (∀ k, holderCount s' k = holderCount s k) ∧ ∀ k, passingCount s' k = passingCount s k := by
  constructor
  · intro k
    have hcount := holderCount_ran h k
    rw [hholds] at hcount
    omega
  · intro k
    have hcount := passingCount_ran h k
    rw [hpasses] at hcount
    omega

omit [DecidableEq τ] in
theorem RoomInv.init : RoomInv (reconfStart τ) := by
  have hholders : ∀ k, holderCount (reconfStart τ) k = 0 := by
    intro k
    rw [holderCount_eq, tally_eq_zero]
    intro t
    rfl
  have hpassing : ∀ k, passingCount (reconfStart τ) k = 0 := by
    intro k
    rw [passingCount_eq, tally_eq_zero]
    intro t
    rfl
  have hadmitted : ∀ k, admittedCount (reconfStart τ) k = 0 := fun k => by
    rw [admittedCount, hholders, hpassing]
  refine ⟨?_, ?_, fun k => .inl (hadmitted k), ?_, ?_, ?_, rfl, ?_⟩
  · intro k
    rw [hadmitted]
    exact Nat.zero_le _
  · intro k
    show zeroLock.init.limitOf k < 2 ^ 16
    cases k <;> decide
  · intro k
    rw [hholders, hholders]
    rfl
  · intro k
    rw [hholders]
    show zeroLock.init.isLockedBy k = true ↔ 0 < 0
    cases k <;> decide
  · intro k
    rw [hpassing, hpassing]
    rfl
  · intro t c l ht
    cases ht

omit [DecidableEq τ] in
/-- A step that moves nobody in or out keeps the invariant if the limits leave room. -/
theorem RoomInv.frame (h : RoomInv s) (hholders : ∀ k, holderCount s' k = holderCount s k)
    (hpassing : ∀ k, passingCount s' k = passingCount s k)
    (hn : s'.mem.lock.nLocks = s.mem.lock.nLocks)
    (hby : ∀ k, s'.mem.lock.isLockedBy k = s.mem.lock.isLockedBy k)
    (hb : s'.mem.lock.biasedness = s.mem.lock.biasedness)
    (hmutex : s'.mem.mutexTaken = s.mem.mutexTaken)
    (hroom : ∀ k, admittedCount s k ≤ s'.mem.lock.limitOf k)
    (hlt : ∀ k, s'.mem.lock.limitOf k < 2 ^ 16)
    (hwaits : ∀ t c l, s'.thr t = .waiting c l → ∃ k b, l = .wait k b) : RoomInv s' := by
  have hadmitted : ∀ k, admittedCount s' k = admittedCount s k := fun k => by
    rw [admittedCount, admittedCount, hholders, hpassing]
  refine ⟨?_, hlt, ?_, ?_, ?_, ?_, hb.trans h.neutral, hwaits⟩
  · intro k
    rw [hadmitted]
    exact hroom k
  · intro k
    rw [hadmitted, hadmitted]
    exact h.exclusive k
  · intro k
    rw [hn, hholders, hholders]
    exact h.nLocks k
  · intro k
    rw [hby, hholders]
    exact h.lockedBy k
  · intro k
    rw [hpassing, hpassing, hmutex]
    exact h.passing k

/-- Where a thread of a finished step waits. -/
theorem RoomInv.waits_ran (h : RoomInv s) (hran : (reconfProgram τ).Ran s t x s' notes st)
    (hst : ∀ c l, st = .waiting c l → ∃ k b, l = .wait k b) :
    ∀ u c l, s'.thr u = .waiting c l → ∃ k b, l = .wait k b := by
  intro u c l hu
  by_cases hut : u = t
  · rw [hut, hran.self] at hu
    exact hst c l hu
  · exact h.waits u c l (hran.waiting_of_ne hut hu)

omit [DecidableEq τ] in
/-- A thread that finds nothing to wait for finds room. -/
theorem RoomInv.room_of_test (h : RoomInv s) {lock₁ : RwLock} (hsame : SameLock s.mem.lock lock₁)
    (hfree : s.mem.mutexTaken = false) (hw : lock₁.mustWait k = false) :
    admittedCount s k < s.mem.lock.limitOf k ∧ admittedCount s k.other = 0 := by
  have hneutral := hsame.biasedness.trans h.neutral
  rw [RwLock.mustWait_neutral hneutral, hsame.isClosed, RwLock.isClosed_eq,
    Bool.or_eq_false_iff, beq_eq_false_iff_ne] at hw
  obtain ⟨hby, hne⟩ := hw
  have hnone : holderCount s k.other = 0 := by
    have hlocked := h.lockedBy k.other
    rw [hby] at hlocked
    simpa using hlocked
  have hpass := h.passing k
  rw [hfree, Bool.toNat_false] at hpass
  have hn := h.nLocks k
  have hroom := h.room k
  unfold admittedCount at hroom ⊢
  omega

theorem RoomInv.pass (h : RoomInv s) (hran : (reconfProgram τ).Ran s t x s' notes
    (.running (.passed k))) {lock₁ : RwLock} (ht : Tests x s.mem (s.thr t).loc k lock₁)
    (hfree : s.mem.mutexTaken = false) (hw : lock₁.mustWait k = false)
    (hm : s'.mem = ⟨lock₁, true⟩) : RoomInv s' := by
  have hsame := ht.sameLock
  -- the thread passed the test, so there is room for one more
  obtain ⟨hlt, hother⟩ := h.room_of_test hsame hfree hw
  have hholders : ∀ k', holderCount s' k' = holderCount s k' := by
    intro k'
    have hcount := holderCount_ran hran k'
    rwa [ht.holds] at hcount
  have hpassing : ∀ k', passingCount s' k' = passingCount s k' + if k = k' then 1 else 0 := by
    intro k'
    have hcount := passingCount_ran hran k'
    rwa [ht.passes, Status.loc_running, ReconfLoc.passes_passed] at hcount
  have hself : passingCount s' k = passingCount s k + 1 := by
    rw [hpassing, if_pos rfl]
  have hrest : passingCount s' k.other = passingCount s k.other := by
    rw [hpassing, if_neg k.ne_other, Nat.add_zero]
  have hnone : admittedCount s' k.other = 0 := by
    unfold admittedCount at hother ⊢
    rw [hholders, hrest]
    exact hother
  have hfew : passingCount s' k + passingCount s' k.other = 1 := by
    have hpass := h.passing k
    rw [hfree, Bool.toNat_false] at hpass
    omega
  have hlimit : ∀ k', s'.mem.lock.limitOf k' = s.mem.lock.limitOf k' := by
    rw [hm]
    exact hsame.limitOf
  refine ⟨?_, ?_, ?_, ?_, ?_, ?_, ?_, h.waits_ran hran ?_⟩
  · refine k.forall_of_other ?_ ?_
    · rw [hlimit]
      unfold admittedCount at hlt ⊢
      rw [hholders, hself]
      omega
    · rw [hnone]
      exact Nat.zero_le _
  · intro k'
    rw [hlimit]
    exact h.limit_lt k'
  · refine k.forall_of_other (.inr hnone) (.inl hnone)
  · intro k'
    rw [hholders, hholders, hm]
    exact hsame.nLocks.trans (h.nLocks k')
  · intro k'
    rw [hholders, hm]
    show lock₁.isLockedBy k' = true ↔ _
    rw [hsame.isLockedBy]
    exact h.lockedBy k'
  · rw [hm]
    refine k.forall_of_other hfew ?_
    rw [Access.other_other, Nat.add_comm]
    exact hfew
  · rw [hm]
    exact hsame.biasedness.trans h.neutral
  · intro c l hl
    cases hl

omit [DecidableEq τ] in
/-- A thread that has passed the test is the only one, and below the limit. -/
theorem RoomInv.below_limit (h : RoomInv s) (hl : (s.thr t).loc = .passed k) :
    totalInside s < s.mem.lock.limitOf k ∧ passingCount s k = 1 ∧ passingCount s k.other = 0 ∧
      admittedCount s k.other = 0 := by
  have hpos : 0 < passingCount s k := by
    rw [passingCount_eq]
    apply tally_pos.mpr
    refine ⟨t, ?_⟩
    rw [hl, ReconfLoc.passes_passed, if_pos rfl]
    exact Nat.one_pos
  have hpass := h.passing k
  have hbool := Bool.toNat_le s.mem.mutexTaken
  have hroom := h.room k
  have hexcl := h.exclusive k
  rw [totalInside_eq s k]
  unfold admittedCount at hroom hexcl ⊢
  omega

theorem RoomInv.grant (h : RoomInv s) (hran : (reconfProgram τ).Ran s t x s' notes
    (.running (.inside k))) (hl : (s.thr t).loc = .passed k)
    (hm : s'.mem = ⟨s.mem.lock.enter k, false⟩) : RoomInv s' := by
  obtain ⟨hlt, hone, hnone, hother⟩ := h.below_limit hl
  have hholders : ∀ k', holderCount s' k' = holderCount s k' + if k = k' then 1 else 0 := by
    intro k'
    have hcount := holderCount_ran hran k'
    rwa [hl, Status.loc_running, ReconfLoc.holds_inside] at hcount
  have hpassing : ∀ k', passingCount s' k' + (if k = k' then 1 else 0) = passingCount s k' := by
    intro k'
    have hcount := passingCount_ran hran k'
    rwa [hl, Status.loc_running, ReconfLoc.passes_passed] at hcount
  -- who was counted as passing is counted as a holder
  have hadmitted : ∀ k', admittedCount s' k' = admittedCount s k' := by
    intro k'
    have h₁ := hholders k'
    have h₂ := hpassing k'
    unfold admittedCount
    omega
  have hself := hholders k
  have hrest := hholders k.other
  have hpself := hpassing k
  have hprest := hpassing k.other
  rw [if_pos rfl] at hself hpself
  rw [if_neg k.ne_other] at hrest hprest
  have hlimit := h.limit_lt k
  have hn := h.nLocks k
  rw [totalInside_eq s k] at hlt
  -- the grant stays below the limit, so the counter does not wrap
  have hup : s'.mem.lock.nLocks = s.mem.lock.nLocks + 1 := by
    rw [hm, RwLock.nLocks_enter, countUp_eq (by omega)]
  have hcount : s'.mem.lock.nLocks = holderCount s' k + holderCount s' k.other := by omega
  have hclear : passingCount s' k + passingCount s' k.other = s'.mem.mutexTaken.toNat := by
    rw [hm, Bool.toNat_false]
    omega
  have hby : ∀ k', s'.mem.lock.isLockedBy k' =
      (s.mem.lock.isLockedBy k' || decide (k = k') && s.mem.lock.nLocks == 0) := by
    intro k'
    rw [hm, RwLock.isLockedBy_enter]
  unfold admittedCount at hother
  refine ⟨?_, ?_, ?_, ?_, ?_, ?_, ?_, h.waits_ran hran ?_⟩
  · intro k'
    rw [hadmitted, hm, RwLock.limitOf_enter]
    exact h.room k'
  · intro k'
    rw [hm, RwLock.limitOf_enter]
    exact h.limit_lt k'
  · intro k'
    rw [hadmitted, hadmitted]
    exact h.exclusive k'
  · refine k.forall_of_other hcount ?_
    rw [Access.other_other, Nat.add_comm]
    exact hcount
  · refine k.forall_of_other ?_ ?_
    · rw [hby, Bool.or_eq_true, h.lockedBy, decide_eq_true rfl, Bool.true_and, beq_iff_eq]
      omega
    · rw [hby, decide_eq_false k.ne_other, Bool.false_and, Bool.or_false, h.lockedBy, hrest,
        Nat.add_zero]
  · refine k.forall_of_other hclear ?_
    rw [Access.other_other, Nat.add_comm]
    exact hclear
  · rw [hm]
    exact (sameLimits_enter s.mem.lock k).2.2.trans h.neutral
  · intro c l hl'
    cases hl'

theorem RoomInv.unlock (h : RoomInv s) (hran : (reconfProgram τ).Ran s t x s' notes
    (.running .idle)) (hl : (s.thr t).loc = .inside k)
    (hu : rwLockUnlock s.mem.lock = some (s'.mem.lock, notes))
    (hmutex : s'.mem.mutexTaken = s.mem.mutexTaken) : RoomInv s' := by
  have hholders : ∀ k', holderCount s' k' + (if k = k' then 1 else 0) = holderCount s k' := by
    intro k'
    have hcount := holderCount_ran hran k'
    rwa [hl, ReconfLoc.holds_inside] at hcount
  have hpassing : ∀ k', passingCount s' k' = passingCount s k' := by
    intro k'
    have hcount := passingCount_ran hran k'
    rwa [hl] at hcount
  have hself := hholders k
  have hrest := hholders k.other
  rw [if_pos rfl] at hself
  rw [if_neg k.ne_other, Nat.add_zero] at hrest
  -- the thread that leaves excludes the other kind
  have hother : holderCount s k.other = 0 := by
    have hexcl := h.exclusive k
    unfold admittedCount at hexcl
    omega
  have hflag : s.mem.lock.isLockedBy k.other = false := by
    have hlocked := h.lockedBy k.other
    rw [hother] at hlocked
    simpa using hlocked
  obtain ⟨hn', hby', hbyk, hlimit, hb⟩ := unlock_fields hu hflag
  have hn := h.nLocks k
  rw [countDown_eq (by omega)] at hn'
  have hcount : s'.mem.lock.nLocks = holderCount s' k + holderCount s' k.other := by omega
  -- one fewer is inside, so that there is room as before
  have hfewer : ∀ k', admittedCount s' k' ≤ admittedCount s k' := by
    intro k'
    have h₁ := hholders k'
    have h₂ := hpassing k'
    unfold admittedCount
    omega
  refine ⟨?_, ?_, ?_, ?_, ?_, ?_, hb.trans h.neutral, h.waits_ran hran ?_⟩
  · intro k'
    rw [hlimit]
    exact (hfewer k').trans (h.room k')
  · intro k'
    rw [hlimit]
    exact h.limit_lt k'
  · intro k'
    have hexcl := h.exclusive k'
    have h₁ := hfewer k'
    have h₂ := hfewer k'.other
    omega
  · refine k.forall_of_other hcount ?_
    rw [Access.other_other, Nat.add_comm]
    exact hcount
  · refine k.forall_of_other ?_ ?_
    · rw [hbyk, Bool.and_eq_true, h.lockedBy, bne_iff_ne]
      omega
    · rw [hby', hrest, hother]
      decide
  · intro k'
    rw [hpassing, hpassing, hmutex]
    exact h.passing k'
  · intro c l hl'
    cases hl'

/-- A store that keeps room. -/
theorem RoomInv.store (h : RoomInv s) (hran : (reconfProgram τ).Ran s t x s' notes st) {n : Nat}
    (hm : s'.mem = ⟨s.mem.lock.storeLimit k n, s.mem.mutexTaken⟩)
    (hholds : ∀ k', (s.thr t).loc.holds k' = st.loc.holds k')
    (hpasses : ∀ k', (s.thr t).loc.passes k' = st.loc.passes k')
    (hst : st.isWaiting = false) (hroom : admittedCount s k ≤ n) (hn : n < 2 ^ 16) : RoomInv s' := by
  obtain ⟨hholders, hpassing⟩ := counts_ran_same hran hholds hpasses
  have hlimit : ∀ k', s'.mem.lock.limitOf k' = if k = k' then n else s.mem.lock.limitOf k' := by
    intro k'
    rw [hm, RwLock.limitOf_storeLimit]
  apply h.frame hholders hpassing
  · rw [hm, RwLock.nLocks_storeLimit]
  · intro k'
    rw [hm, RwLock.isLockedBy_storeLimit]
  · rw [hm, RwLock.biasedness_storeLimit]
  · rw [hm]
  · intro k'
    rw [hlimit]
    split
    case isTrue hk => exact hk ▸ hroom
    case isFalse => exact h.room k'
  · intro k'
    rw [hlimit]
    split
    case isTrue => exact hn
    case isFalse => exact h.limit_lt k'
  · apply h.waits_ran hran
    intro c l hw
    rw [hw] at hst
    cases hst

omit [DecidableEq τ] in
theorem keepsRoom_iff {picks : List (Option τ)} {n : Nat}
    (hstored : storedLimit (s.thr t).loc x = some (k, n)) :
    keepsRoom s (.run t x picks) = true ↔ admittedCount s k ≤ n := by
  simp only [keepsRoom, hstored, decide_eq_true_eq]
  rfl

/-- Every step that keeps room keeps the invariant. -/
theorem RoomInv.step (h : RoomInv s) {picks : List (Option τ)}
    (hkeeps : keepsRoom s (.run t x picks) = true)
    (hran : (reconfProgram τ).Ran s t x s' notes st) : RoomInv s' := by
  have hmove := reconfMove_of_exec hran.exec
  generalize hl : (s.thr t).loc = l at hmove
  generalize hm : s'.mem = m' at hmove
  cases hmove with
  | @block l k lock₁ c b ht =>
      -- a thread that waits changes nothing but the counters of those who wait
      have hsame := ht.sameLock.trans (sameLock_countWaiting lock₁ k)
      obtain ⟨hholders, hpassing⟩ := counts_ran_same hran (fun k' => by rw [hl, ht.holds]; rfl)
        (fun k' => by rw [hl, ht.passes]; rfl)
      apply h.frame hholders hpassing
      · rw [hm]
        exact hsame.nLocks
      · rw [hm]
        exact hsame.isLockedBy
      · rw [hm]
        exact hsame.biasedness
      · rw [hm]
      · intro k'
        rw [hm]
        exact (h.room k').trans (hsame.limitOf k').ge
      · intro k'
        rw [hm]
        exact (hsame.limitOf k').trans_lt (h.limit_lt k')
      · apply h.waits_ran hran
        intro c' l' hw
        cases hw
        exact ⟨k, b, rfl⟩
  | pass ht hfree hw => exact h.pass hran (hl ▸ ht) hfree hw hm
  | grant => exact h.grant hran hl hm
  | unlock hx hu => exact h.unlock hran hl (by rw [hm]; exact hu) (by rw [hm])
  | @setReaders held maxReaders maxWriters hx =>
      -- the condition is about the limit that is stored
      have hstored : storedLimit (s.thr t).loc x = some (.reader, maxReaders.toNat) := by
        rw [hl, hx, storedLimit_outside]
      apply h.store hran hm
      · intro k'
        rw [hl]
        exact (ReconfLoc.holds_setting held maxWriters k').symm
      · intro k'
        rw [hl]
        exact ReconfLoc.passes_outside held k'
      · rfl
      · exact (keepsRoom_iff hstored).mp hkeeps
      · exact maxReaders.toNat_lt
  | @setWriters held maxWriters =>
      have hstored : storedLimit (s.thr t).loc x = some (.writer, maxWriters.toNat) := by
        rw [hl]
        rfl
      apply h.store hran hm
      · intro k'
        rw [hl]
        exact ReconfLoc.holds_setting held maxWriters k'
      · intro k'
        rw [hl]
        exact (ReconfLoc.passes_outside held k').symm
      · rfl
      · exact (keepsRoom_iff hstored).mp hkeeps
      · exact maxWriters.toNat_lt

theorem RoomInv.woken (h : RoomInv s) {c : RwCv} {l : ReconfLoc} (hw : s.thr t = .waiting c l) :
    RoomInv ⟨s.mem, Function.update s.thr t (.notified c l)⟩ := by
  have hloc := loc_update_notified hw
  apply h.frame
  · intro k
    rw [holderCount_eq, holderCount_eq]
    exact tally_congr hloc _
  · intro k
    rw [passingCount_eq, passingCount_eq]
    exact tally_congr hloc _
  · rfl
  · intro k
    rfl
  · rfl
  · rfl
  · exact h.room
  · exact h.limit_lt
  · intro u c' l' hu
    exact h.waits u c' l' (waiting_of_update_notified hu)

theorem roomInv_reachable
    (h : (reconfMachine τ).ReachableUnder (fun s a => keepsRoom s a = true) s) : RoomInv s := by
  apply Program.invariant _ _ _ h
  · intro s hs
    have hstart : s = reconfStart τ := hs
    rw [hstart]
    exact .init
  · intro s t x picks s' notes st hinv hkeeps hran
    exact hinv.step hkeeps hran
  · intro s t c l hinv _ hw
    exact hinv.woken hw

/-- The step from `s` to `s'` is the one in which `t` is granted the lock for access `k`. -/
def Granted (s : ReconfConfig τ) (t : τ) (k : Access) (s' : ReconfConfig τ) : Prop :=
  (∃ x picks, (reconfMachine τ).step s (.run t x picks) = .next s') ∧
    (s.thr t).loc = .passed k ∧ (s'.thr t).loc = .inside k

/-- Who has passed the test is granted the lock. -/
theorem exists_granted (hpassed : (s.thr t).loc = .passed k) (hawake : (s.thr t).isWaiting = false) :
    ∃ s', Granted s t k s' := by
  have hexec : (reconfProgram τ).exec t (s.thr t).loc (.lock k) s.mem =
      .done ⟨s.mem.lock.enter k, false⟩ [] (.running (.inside k)) := by
    rw [hpassed]
    rfl
  refine ⟨_, ⟨.lock k, [], Program.step_of_silent [] hawake hexec⟩, hpassed, ?_⟩
  show (Function.update s.thr t (.running (.inside k)) t).loc = .inside k
  rw [Function.update_self]
  rfl

/-- **Limits after reconfiguration**: in every run in which a stored limit is not below the number of
threads of its kind that are inside or have passed the test, a thread that is granted the lock finds
fewer threads inside than the limit then in force. -/
theorem reconf_grants_within_limit
    (h : (reconfMachine τ).ReachableUnder (fun s a => keepsRoom s a = true) s)
    (hgrant : Granted s t k s') : totalInside s < s.mem.lock.limitOf k :=
  ((roomInv_reachable h).below_limit hgrant.2.1).1

/-- Two readers are inside when the limits are set to two and one.  The third reader has to wait until
one of them has left. -/
theorem reconf_grants_within_limit_trace :
    ∃ s s' : ReconfConfig (Fin 3), Granted s 2 .reader s' ∧ totalInside s = 1 ∧
      s.mem.lock.limitOf .reader = 2 ∧ totalInside s < s.mem.lock.limitOf .reader := by
  have hrun : ((reconfMachine (Fin 3)).execUnder (fun s a => keepsRoom s a) (reconfStart (Fin 3))
      [.run 0 (.lock .reader) [], .run 0 (.lock .reader) [], .run 1 (.lock .reader) [],
        .run 1 (.lock .reader) [], .run 2 (.setMax 2 1) [], .run 2 (.setMax 2 1) [],
        .run 2 (.lock .reader) [], .run 0 .unlock [], .run 2 (.lock .reader) []]).holds
      (fun s => decide ((s.thr 2).loc = .passed .reader ∧ (s.thr 2).isWaiting = false ∧
        totalInside s = 1 ∧ s.mem.lock.limitOf .reader = 2)) = true := by
    decide +kernel
  obtain ⟨s, hs, hp⟩ := Outcome.holds_iff.mp hrun
  obtain ⟨hpassed, hawake, hinside, hlimit⟩ := of_decide_eq_true hp
  have hreach : (reconfMachine (Fin 3)).ReachableUnder (fun s a => keepsRoom s a = true) s :=
    Machine.reachableUnder_of_execUnder (.init rfl) hs
  obtain ⟨s', hgrant⟩ := exists_granted hpassed hawake
  exact ⟨s, s', hgrant, hinside, hlimit, reconf_grants_within_limit hreach hgrant⟩

/-- With two readers inside the limit is set to one, and a third reader is let in. -/
theorem reconf_limit_exceeded :
    ∃ s s' : ReconfConfig (Fin 3), (reconfMachine (Fin 3)).Reachable s ∧ Granted s 2 .reader s' ∧
      totalInside s = 2 ∧ s.mem.lock.limitOf .reader = 1 ∧
        ¬ totalInside s < s.mem.lock.limitOf .reader := by
  have hrun : ((reconfMachine (Fin 3)).exec (reconfStart (Fin 3))
      [.run 0 (.lock .reader) [], .run 0 (.lock .reader) [], .run 1 (.lock .reader) [],
        .run 1 (.lock .reader) [], .run 2 (.setMax 1 1) [], .run 2 (.setMax 1 1) [],
        .run 2 (.lock .reader) []]).holds
      (fun s => decide ((s.thr 2).loc = .passed .reader ∧ (s.thr 2).isWaiting = false ∧
        totalInside s = 2 ∧ s.mem.lock.limitOf .reader = 1)) = true := by
    decide +kernel
  obtain ⟨s, hs, hp⟩ := Machine.exists_reachable_of_exec rfl hrun
  obtain ⟨hpassed, hawake, hinside, hlimit⟩ := of_decide_eq_true hp
  obtain ⟨s', hgrant⟩ := exists_granted hpassed hawake
  exact ⟨s, s', hs, hgrant, hinside, hlimit, by omega⟩

/-- A thread is granted the lock although the limit is used up. -/
def Overfull (s : ReconfConfig τ) : Prop :=
  ∃ t k s', Granted s t k s' ∧ s.mem.lock.limitOf k ≤ totalInside s

/-- Where more threads are inside than the limit allows, and all of one kind, the next one that asks is
let in. -/
theorem overfull_of_idle (hreach : (reconfMachine τ).Reachable s)
    (hneutral : s.mem.lock.biasedness = .neutral) (hfree : s.mem.mutexTaken = false)
    (hby : s.mem.lock.isLockedBy k.other = false) (hn : s.mem.lock.nLocks = totalInside s)
    (hfull : s.mem.lock.limitOf k < totalInside s) (ht : s.thr t = .running .idle) :
    ∃ s₁, (reconfMachine τ).Reachable s₁ ∧ Overfull s₁ := by
  -- the test is for equality, and the count is beyond the limit
  have hopen : s.mem.lock.mustWait k = false := by
    rw [RwLock.mustWait_neutral hneutral, RwLock.isClosed_eq, hby, Bool.false_or, hn]
    simp only [beq_eq_false_iff_ne]
    omega
  have hexec : (reconfProgram τ).exec t (s.thr t).loc (.lock k) s.mem =
      .done ⟨s.mem.lock, true⟩ [] (.running (.passed k)) := by
    rw [ht]
    simp only [reconfProgram, reconfExec, reconfLoops, Status.loc_running, hfree, hopen,
      Bool.false_eq_true, if_false]
  obtain ⟨s₁, hs₁⟩ : ∃ s₁ : ReconfConfig τ,
      s₁ = ⟨⟨s.mem.lock, true⟩, Function.update s.thr t (.running (.passed k))⟩ := ⟨_, rfl⟩
  have hstep : (reconfMachine τ).step s (.run t (.lock k) []) = .next s₁ := by
    rw [hs₁]
    exact Program.step_of_silent [] (by rw [ht]; rfl) hexec
  have hself : s₁.thr t = .running (.passed k) := by
    rw [hs₁]
    exact Function.update_self _ _ _
  have hholders : ∀ k', holderCount s₁ k' = holderCount s k' := by
    intro k'
    rw [holderCount_eq, holderCount_eq, hs₁]
    have hcount := tally_update s.thr (fun l => (l.holds k').toNat) t (.running (.passed k))
    rwa [ht] at hcount
  have hpassed : (s₁.thr t).loc = .passed k := by
    rw [hself]
    rfl
  obtain ⟨s₂, hgrant⟩ := exists_granted hpassed (by rw [hself]; rfl)
  refine ⟨s₁, .step hreach trivial hstep, t, k, s₂, hgrant, ?_⟩
  unfold totalInside at hfull ⊢
  rw [hholders, hholders, hs₁]
  exact hfull.le

/-- After a store that breaks the condition the limit is exceeded at once. -/
theorem RoomInv.overfull_of_store (h : RoomInv s) (hreach : (reconfMachine τ).Reachable s')
    (hran : (reconfProgram τ).Ran s t x s' notes st) {n : Nat}
    (hm : s'.mem = ⟨s.mem.lock.storeLimit k n, s.mem.mutexTaken⟩)
    (hholds : ∀ k', (s.thr t).loc.holds k' = st.loc.holds k')
    (hpasses : ∀ k', (s.thr t).loc.passes k' = st.loc.passes k')
    (hst : st.isWaiting = false) (hlt : n < admittedCount s k) {u : τ}
    (hu : s'.thr u = .running .idle) :
    ∃ s₁, (reconfMachine τ).Reachable s₁ ∧ Overfull s₁ := by
  obtain ⟨hholders, hpassing⟩ := counts_ran_same hran hholds hpasses
  have hlimit : s'.mem.lock.limitOf k = n := by
    rw [hm, RwLock.limitOf_storeLimit, if_pos rfl]
  have hexcl := h.exclusive k
  have hpass := h.passing k
  have hbool := Bool.toNat_le s.mem.mutexTaken
  unfold admittedCount at hexcl hlt
  by_cases hnone : passingCount s k = 0
  · -- nobody is on the way in: the idle thread is
    have hfree : s.mem.mutexTaken = false := by
      cases htaken : s.mem.mutexTaken with
      | false => rfl
      | true =>
          rw [htaken, Bool.toNat_true] at hpass
          omega
    have hby : s.mem.lock.isLockedBy k.other = false := by
      rw [Bool.eq_false_iff, Ne, h.lockedBy]
      omega
    refine overfull_of_idle (k := k) hreach ?_ ?_ ?_ ?_ ?_ hu
    · rw [hm, RwLock.biasedness_storeLimit]
      exact h.neutral
    · rw [hm]
      exact hfree
    · rw [hm, RwLock.isLockedBy_storeLimit]
      exact hby
    · rw [hm, RwLock.nLocks_storeLimit, totalInside_eq s' k, hholders, hholders]
      exact h.nLocks k
    · rw [hlimit, totalInside_eq s' k, hholders, hholders]
      omega
  · -- a thread has passed the test below the old limit
    have hpos : 0 < passingCount s' k := by
      rw [hpassing]
      omega
    rw [passingCount_eq] at hpos
    obtain ⟨v, hv⟩ := tally_pos.mp hpos
    have hpassed : (s'.thr v).loc = .passed k := by
      cases hl : (s'.thr v).loc with
      | passed k' =>
          rw [hl, ReconfLoc.passes_passed] at hv
          by_cases hk : k' = k
          · rw [hk]
          · simp [hk] at hv
      | _ => simp [hl, ReconfLoc.passes] at hv
    have hawake : (s'.thr v).isWaiting = false := by
      rw [Bool.eq_false_iff, Ne, Status.isWaiting_iff]
      intro hwait
      obtain ⟨c, l, hw⟩ := hwait
      have hwaits := h.waits_ran hran (fun c l hl => by rw [hl] at hst; cases hst) v c l hw
      obtain ⟨k', b, rfl⟩ := hwaits
      rw [hw] at hpassed
      cases hpassed
    obtain ⟨s₂, hgrant⟩ := exists_granted hpassed hawake
    refine ⟨s', hreach, v, k, s₂, hgrant, ?_⟩
    rw [hlimit, totalInside_eq s' k, hholders, hholders]
    omega

/-- **The condition is needed**: after any step that breaks it, if there is a thread without the
lock, some thread can be granted it beyond the limit in force. -/
theorem exists_overfull_grant
    (h : (reconfMachine τ).ReachableUnder (fun s a => keepsRoom s a = true) s)
    {picks : List (Option τ)} (hstep : (reconfMachine τ).step s (.run t x picks) = .next s')
    (hbreaks : keepsRoom s (.run t x picks) = false) {u : τ} (hu : s'.thr u = .running .idle) :
    ∃ s₁, (reconfMachine τ).Reachable s₁ ∧ Overfull s₁ := by
  have hinv := roomInv_reachable h
  have hreach : (reconfMachine τ).Reachable s' := .step h.reachable trivial hstep
  obtain ⟨notes, st, hran⟩ := Program.ran_of_step hstep
  -- only a store of a limit can break the condition
  have hstores : ∃ k n, storedLimit (s.thr t).loc x = some (k, n) := by
    cases hstored : storedLimit (s.thr t).loc x with
    | none => simp [keepsRoom, hstored] at hbreaks
    | some kn => exact ⟨kn.1, kn.2, rfl⟩
  obtain ⟨k, n, hstored⟩ := hstores
  have hlt : n < admittedCount s k := by
    rw [← Nat.not_le, ← keepsRoom_iff hstored, hbreaks]
    exact Bool.false_ne_true
  have hmove := reconfMove_of_exec hran.exec
  generalize hl : (s.thr t).loc = l at hmove hstored
  generalize hm : s'.mem = m' at hmove
  cases hmove with
  | block ht =>
      cases ht with
      | fresh hx =>
          rw [hx] at hstored
          cases hstored
      | resumed => cases hstored
  | pass ht hfree hw =>
      cases ht with
      | fresh hx =>
          rw [hx] at hstored
          cases hstored
      | resumed => cases hstored
  | grant => cases hstored
  | unlock hx =>
      rw [hx] at hstored
      cases hstored
  | @setReaders held maxReaders maxWriters hx =>
      rw [hx, storedLimit_outside] at hstored
      cases hstored
      apply hinv.overfull_of_store hreach hran hm _ _ rfl hlt hu
      · intro k'
        rw [hl]
        exact (ReconfLoc.holds_setting held maxWriters k').symm
      · intro k'
        rw [hl]
        exact ReconfLoc.passes_outside held k'
  | @setWriters held maxWriters =>
      cases hstored
      apply hinv.overfull_of_store hreach hran hm _ _ rfl hlt hu
      · intro k'
        rw [hl]
        exact ReconfLoc.holds_setting held maxWriters k'
      · intro k'
        rw [hl]
        exact (ReconfLoc.passes_outside held k').symm

end Invariant

end RwLocks
end MultithreadingBible
