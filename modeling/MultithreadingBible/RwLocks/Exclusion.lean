import MultithreadingBible.RwLocks.Machine

/-!
# Customisable reader-writer lock: exclusion and assertions

`RwInv` ties the fields of the lock to the threads inside.  It holds in every run and in every bias
(`rwLock_exclusive`): one kind of thread at a time, within its limit, and `n_locks` counts them.

The bias decides whether a thread may have to wait at all: in half of the cases the code takes waiting
for impossible and fails an assertion, and in one it fails the assertion after the wait.
`rwLock_asserts` says exactly when.
-/

namespace MultithreadingBible
namespace RwLocks

open Lib

section Moves

variable {x k : Access} {m m' m₁ : RwLock} {l : RwLoc} {notes : List (Note RwCv)}
  {st : Status RwCv RwLoc}

/-- The lock a thread finds at the head of its loop. -/
inductive Arrives (x : Access) (m : RwLock) : RwLoc → Access → RwLock → Prop
  | fresh : Arrives x m .idle x m
  | resumed {k : Access} {b : Biasedness} (h : fallsThrough k b = false) :
      Arrives x m (.wait k b) k (m.uncountWaiting k)

/-- Everything a thread can do. -/
inductive RwMove (x : Access) (m : RwLock) :
    RwLoc → RwLock → List (Note RwCv) → Status RwCv RwLoc → Prop
  | block {l : RwLoc} {k : Access} {m₁ : RwLock} {c : RwCv} (ha : Arrives x m l k m₁)
      (hw : m₁.mustWait k = true) (hc : blockCv k m₁.biasedness = some c) :
      RwMove x m l (m₁.countWaiting k) [] (.waiting c (.wait k m₁.biasedness))
  | enter {l : RwLoc} {k : Access} {m₁ : RwLock} (ha : Arrives x m l k m₁)
      (hw : m₁.mustWait k = false) : RwMove x m l (m₁.enter k) [] (.running (.inside k))
  | unlock {k : Access} {m' : RwLock} {notes : List (Note RwCv)}
      (h : rwLockUnlock m = some (m', notes)) :
      RwMove x m (.inside k) m' notes (.running .idle)

theorem rwMove_of_lockLoop (ha : Arrives x m l k m₁) (h : lockLoop k m₁ = .done m' notes st) :
    RwMove x m l m' notes st := by
  unfold lockLoop at h
  split at h
  · next hw =>
    obtain ⟨c, hc, h⟩ := Effect.call_eq_done.mp h
    cases h
    exact .block ha hw hc
  · next hw =>
    cases h
    exact .enter ha (by simpa using hw)

/-- A step of a thread is one of the listed moves. -/
theorem rwMove_of_exec (h : rwExec l x m = .done m' notes st) : RwMove x m l m' notes st := by
  cases l with
  | idle => exact rwMove_of_lockLoop .fresh h
  | wait k b =>
      simp only [rwExec] at h
      split at h
      · cases h
      · next hf => exact rwMove_of_lockLoop (.resumed (by simpa using hf)) h
  | inside k =>
      obtain ⟨⟨m₂, notes₂⟩, hu, h⟩ := Effect.call_eq_done.mp h
      cases h
      exact .unlock hu

/-- The fields that waiting does not touch. -/
structure SameLock (m m₁ : RwLock) : Prop where
  nLocks : m₁.nLocks = m.nLocks
  byReader : m₁.isLockedByReader = m.isLockedByReader
  byWriter : m₁.isLockedByWriter = m.isLockedByWriter
  maxReaders : m₁.nMaxReaders = m.nMaxReaders
  maxWriters : m₁.nMaxWriters = m.nMaxWriters
  biasedness : m₁.biasedness = m.biasedness

theorem sameLock_countWaiting (m : RwLock) (k : Access) : SameLock m (m.countWaiting k) := by
  cases m
  cases k <;> exact ⟨rfl, rfl, rfl, rfl, rfl, rfl⟩

theorem sameLock_uncountWaiting (m : RwLock) (k : Access) : SameLock m (m.uncountWaiting k) := by
  cases m
  cases k <;> exact ⟨rfl, rfl, rfl, rfl, rfl, rfl⟩

theorem Arrives.sameLock (ha : Arrives x m l k m₁) : SameLock m m₁ := by
  cases ha with
  | fresh => exact ⟨rfl, rfl, rfl, rfl, rfl, rfl⟩
  | resumed => exact sameLock_uncountWaiting m k

theorem SameLock.trans (h : SameLock m m₁) (h' : SameLock m₁ m') : SameLock m m' :=
  ⟨h'.nLocks.trans h.nLocks, h'.byReader.trans h.byReader, h'.byWriter.trans h.byWriter,
    h'.maxReaders.trans h.maxReaders, h'.maxWriters.trans h.maxWriters,
    h'.biasedness.trans h.biasedness⟩

/-- `rw_lock_unlock`: one thread less, and the last one of its kind clears the flag. -/
theorem rwLockUnlock_spec (h : rwLockUnlock m = some (m', notes)) :
    m.nLocks ≠ 0 ∧ m'.nLocks = countDown 16 m.nLocks ∧
      m'.isLockedByWriter = (m.isLockedByWriter && m'.nLocks != 0) ∧
      m'.isLockedByReader =
        (m.isLockedByReader && (m.isLockedByWriter || m'.nLocks != 0)) ∧
      m'.nMaxReaders = m.nMaxReaders ∧ m'.nMaxWriters = m.nMaxWriters ∧
      m'.biasedness = m.biasedness := by
  unfold rwLockUnlock at h
  simp only at h
  split at h
  · cases h
  · next hne =>
    have hne : m.nLocks ≠ 0 := by simpa using hne
    split at h
    · next hw =>
      split at h
      · next hz =>
        cases h
        simp_all
      · next hz =>
        split at h <;> (try split at h) <;> cases h <;> simp_all
    · next hw =>
      split at h
      · next hr =>
        split at h
        · next hz =>
          cases h
          simp_all
        · next hz =>
          split at h <;> (try split at h) <;> cases h <;> simp_all
      · next hr =>
        cases h
        simp_all

end Moves

variable {τ : Type*} [DecidableEq τ] [Fintype τ]

/-- Inside with access `k`. -/
def RwLoc.isInside (k : Access) : RwLoc → Bool
  | .inside k' => k' == k
  | _ => false

theorem RwLoc.isInside_inside (k k' : Access) :
    ((RwLoc.inside k).isInside k').toNat = if k = k' then 1 else 0 := by
  cases k <;> cases k' <;> rfl

/-- The number of threads inside with access `k`. -/
def insideCount (s : RwConfig τ) (k : Access) : Nat :=
  (Finset.univ.filter fun t => (s.thr t).loc.isInside k = true).card

/-- Exclusion, limits and bookkeeping. -/
structure RwOk (maxReaders maxWriters : UInt16) (s : RwConfig τ) : Prop where
  exclusive : insideCount s .reader = 0 ∨ insideCount s .writer = 0
  readers_le : insideCount s .reader ≤ maxReaders.toNat
  writers_le : insideCount s .writer ≤ maxWriters.toNat
  nLocks : s.mem.nLocks = insideCount s .reader + insideCount s .writer
  byReader : s.mem.isLockedByReader = true ↔ 0 < insideCount s .reader
  byWriter : s.mem.isLockedByWriter = true ↔ 0 < insideCount s .writer

omit [DecidableEq τ] in
theorem insideCount_eq (s : RwConfig τ) (k : Access) :
    insideCount s k = tally s.thr fun l => (l.isInside k).toNat :=
  card_filter_loc s.thr fun l => l.isInside k

section Invariant

variable {maxReaders maxWriters : UInt16} {b : Biasedness} {spurious : Bool} {s s' : RwConfig τ}
  {t : τ} {x : Access} {a : Act τ Access} {notes : List (Note RwCv)} {st : Status RwCv RwLoc}

/-- The invariant of all runs. -/
structure RwInv (b : Biasedness) (maxReaders maxWriters : UInt16) (s : RwConfig τ) : Prop where
  ok : RwOk maxReaders maxWriters s
  maxReaders : s.mem.nMaxReaders = maxReaders.toNat
  maxWriters : s.mem.nMaxWriters = maxWriters.toNat
  biasedness : s.mem.biasedness = b
  /-- A thread waits in the case of the `switch` for the lock's bias, where it has a condition
  variable. -/
  waits : ∀ t k b', (s.thr t).loc = .wait k b' → b' = b ∧ blockCv k b' ≠ none

theorem RwInv.init (h : (rwMachine τ spurious b maxReaders maxWriters).init s) :
    RwInv b maxReaders maxWriters s := by
  have hzero : ∀ k, insideCount s k = 0 := by
    intro k
    rw [insideCount_eq, tally_eq_zero]
    intro t
    rw [h.2 t]
    rfl
  refine ⟨⟨.inl (hzero _), ?_, ?_, ?_, ?_, ?_⟩, ?_, ?_, ?_, ?_⟩
  · rw [hzero]; exact Nat.zero_le _
  · rw [hzero]; exact Nat.zero_le _
  · rw [h.1, hzero, hzero]; rfl
  · rw [h.1, hzero]; simp [readyLock, RwLock.init, RwLock.setMaxReadersWriters, RwLock.setBiasedness]
  · rw [h.1, hzero]; simp [readyLock, RwLock.init, RwLock.setMaxReadersWriters, RwLock.setBiasedness]
  · rw [h.1]; rfl
  · rw [h.1]; rfl
  · rw [h.1]; rfl
  · intro t k b' ht
    rw [h.2 t] at ht
    cases ht

/-- The thread that moves changes the counts by its own contribution. -/
theorem insideCount_ran (h : (rwProgram τ spurious).Ran s t x s' notes st) (k : Access) :
    insideCount s' k + ((s.thr t).loc.isInside k).toNat =
      insideCount s k + (st.loc.isInside k).toNat := by
  rw [insideCount_eq, insideCount_eq]
  exact h.tally fun l => (l.isInside k).toNat

theorem Arrives.isInside {x k : Access} {m m₁ : RwLock} {l : RwLoc} (ha : Arrives x m l k m₁)
    (k' : Access) : l.isInside k' = false := by
  cases ha <;> rfl

omit [DecidableEq τ] in
/-- A thread that has nothing to wait for enters a free lock or joins its own kind below the
limit. -/
theorem RwInv.enter (h : RwInv b maxReaders maxWriters s) {k : Access} {m₁ : RwLock}
    (hsame : SameLock s.mem m₁) (hw : m₁.mustWait k = false) :
    insideCount s k < (match k with | .reader => maxReaders.toNat | .writer => maxWriters.toNat) ∧
      insideCount s (match k with | .reader => .writer | .writer => .reader) = 0 := by
  have hok := h.ok
  cases k with
  | reader =>
      have hfree : s.mem.isLockedByWriter = false ∧ s.mem.nLocks ≠ maxReaders.toNat := by
        have := hw
        simp only [RwLock.mustWait, Bool.or_eq_false_iff] at this
        rw [← hsame.byWriter, ← hsame.nLocks, ← h.maxReaders, ← hsame.maxReaders]
        exact ⟨this.1.1, by simpa using this.1.2⟩
      have hnone : insideCount s .writer = 0 := by
        have := hok.byWriter
        rw [hfree.1] at this
        simpa using this
      have := hok.nLocks
      have := hok.readers_le
      refine ⟨?_, hnone⟩
      show insideCount s .reader < maxReaders.toNat
      omega
  | writer =>
      have hfree : s.mem.isLockedByReader = false ∧ s.mem.nLocks ≠ maxWriters.toNat := by
        have := hw
        simp only [RwLock.mustWait, Bool.or_eq_false_iff] at this
        rw [← hsame.byReader, ← hsame.nLocks, ← h.maxWriters, ← hsame.maxWriters]
        exact ⟨this.1.1, by simpa using this.1.2⟩
      have hnone : insideCount s .reader = 0 := by
        have := hok.byReader
        rw [hfree.1] at this
        simpa using this
      have := hok.nLocks
      have := hok.writers_le
      refine ⟨?_, hnone⟩
      show insideCount s .writer < maxWriters.toNat
      omega

/-- The fields after an entry, which does not wrap `n_locks` around. -/
theorem enter_spec (m : RwLock) (k : Access) (hlt : m.nLocks < 65535) :
    (m.enter k).nLocks = m.nLocks + 1 ∧
      (m.enter k).isLockedByReader =
        (m.isLockedByReader || decide (k = .reader) && m.nLocks == 0) ∧
      (m.enter k).isLockedByWriter =
        (m.isLockedByWriter || decide (k = .writer) && m.nLocks == 0) ∧
      (m.enter k).nMaxReaders = m.nMaxReaders ∧ (m.enter k).nMaxWriters = m.nMaxWriters ∧
      (m.enter k).biasedness = m.biasedness := by
  rw [← countUp_eq (show m.nLocks + 1 < 2 ^ 16 by omega)]
  cases m
  cases k <;> simp [RwLock.enter]

omit [DecidableEq τ] in
/-- Two locks with the same fields, up to waiting, and the same threads inside satisfy the
bookkeeping together. -/
theorem RwOk.of_same (h : RwOk maxReaders maxWriters s) (hsame : SameLock s.mem s'.mem)
    (hcount : ∀ k, insideCount s' k = insideCount s k) : RwOk maxReaders maxWriters s' where
  exclusive := by rw [hcount, hcount]; exact h.exclusive
  readers_le := by rw [hcount]; exact h.readers_le
  writers_le := by rw [hcount]; exact h.writers_le
  nLocks := by rw [hcount, hcount, hsame.nLocks]; exact h.nLocks
  byReader := by rw [hcount, hsame.byReader]; exact h.byReader
  byWriter := by rw [hcount, hsame.byWriter]; exact h.byWriter

omit [DecidableEq τ] in
/-- A thread that enters is counted once. -/
theorem RwInv.ok_enter (h : RwInv b maxReaders maxWriters s) {k : Access} {m₁ : RwLock}
    (hsame : SameLock s.mem m₁) (hw : m₁.mustWait k = false) (hmem : s'.mem = m₁.enter k)
    (hcount : ∀ k', insideCount s' k' = insideCount s k' + (if k = k' then 1 else 0)) :
    RwOk maxReaders maxWriters s' := by
  have hok := h.ok
  obtain ⟨hlt, hother⟩ := h.enter hsame hw
  have hmaxR := maxReaders.toNat_lt
  have hmaxW := maxWriters.toNat_lt
  have hn := hok.nLocks
  have hnlt : m₁.nLocks < 65535 := by
    rw [hsame.nLocks]
    cases k <;> simp only at hlt hother <;> omega
  obtain ⟨hn', hr', hw', -, -, -⟩ := enter_spec m₁ k hnlt
  have hbyR := hok.byReader
  have hbyW := hok.byWriter
  have hcr := hcount .reader
  have hcw := hcount .writer
  rw [hsame.nLocks] at hn'
  rw [hsame.nLocks, hsame.byReader] at hr'
  rw [hsame.nLocks, hsame.byWriter] at hw'
  cases k with
  | reader =>
      simp at hlt hother hcr hcw hr' hw'
      refine ⟨.inr (by omega), by omega, by rw [hcw, hother]; omega, by rw [hmem, hn']; omega, ?_, ?_⟩
      · rw [hmem, hr', Bool.or_eq_true, hbyR, beq_iff_eq]
        omega
      · rw [hmem, hw', hbyW]
        omega
  | writer =>
      simp at hlt hother hcr hcw hr' hw'
      refine ⟨.inl (by omega), by rw [hcr, hother]; omega, by omega, by rw [hmem, hn']; omega, ?_, ?_⟩
      · rw [hmem, hr', hbyR]
        omega
      · rw [hmem, hw', Bool.or_eq_true, hbyW, beq_iff_eq]
        omega

omit [DecidableEq τ] in
/-- A thread that leaves is no longer counted. -/
theorem RwInv.ok_unlock (h : RwInv b maxReaders maxWriters s) {k : Access}
    (hu : rwLockUnlock s.mem = some (s'.mem, notes))
    (hcount : ∀ k', insideCount s' k' + (if k = k' then 1 else 0) = insideCount s k') :
    RwOk maxReaders maxWriters s' := by
  have hok := h.ok
  have hn := hok.nLocks
  have hmaxR := maxReaders.toNat_lt
  have hmaxW := maxWriters.toNat_lt
  have hleR := hok.readers_le
  have hleW := hok.writers_le
  obtain ⟨hpos, hn', hw', hr', -, -, -⟩ := rwLockUnlock_spec hu
  rw [countDown_eq (by omega)] at hn'
  have hbyR := hok.byReader
  have hbyW := hok.byWriter
  have hcr := hcount .reader
  have hcw := hcount .writer
  cases k with
  | reader =>
      simp only [reduceCtorEq, if_true, if_false] at hcr hcw
      have hnoW : insideCount s .writer = 0 := by
        rcases hok.exclusive with h0 | h0 <;> omega
      have hbyW' : s.mem.isLockedByWriter = false := by
        rw [hnoW] at hbyW
        simpa using hbyW
      rw [hbyW', Bool.false_and] at hw'
      rw [hbyW', Bool.false_or] at hr'
      refine ⟨.inr (by omega), by omega, by omega, by omega, ?_, ?_⟩
      · rw [hr', Bool.and_eq_true, hbyR, bne_iff_ne]
        omega
      · rw [hw']
        simp only [Bool.false_eq_true, false_iff]
        omega
  | writer =>
      simp only [reduceCtorEq, if_true, if_false] at hcr hcw
      have hnoR : insideCount s .reader = 0 := by
        rcases hok.exclusive with h0 | h0 <;> omega
      have hbyR' : s.mem.isLockedByReader = false := by
        rw [hnoR] at hbyR
        simpa using hbyR
      rw [hbyR', Bool.false_and] at hr'
      refine ⟨.inl (by omega), by omega, by omega, by omega, ?_, ?_⟩
      · rw [hr']
        simp only [Bool.false_eq_true, false_iff]
        omega
      · rw [hw', Bool.and_eq_true, hbyW, bne_iff_ne]
        omega

/-- An entry leaves limits and bias alone. -/
theorem sameLimits_enter (m : RwLock) (k : Access) :
    (m.enter k).nMaxReaders = m.nMaxReaders ∧ (m.enter k).nMaxWriters = m.nMaxWriters ∧
      (m.enter k).biasedness = m.biasedness := by
  cases m
  cases k <;> exact ⟨rfl, rfl, rfl⟩

/-- **Every step keeps the invariant.** -/
theorem RwInv.step (h : RwInv b maxReaders maxWriters s)
    (hran : (rwProgram τ spurious).Ran s t x s' notes st) : RwInv b maxReaders maxWriters s' := by
  have hcount := fun k => insideCount_ran hran k
  -- the other threads wait where they waited
  have hothers : ∀ u, u ≠ t → ∀ k b', (s'.thr u).loc = .wait k b' →
      b' = b ∧ blockCv k b' ≠ none := by
    intro u hu k b' hloc
    rw [hran.loc_of_ne hu] at hloc
    exact h.waits u k b' hloc
  have hwaits : (∀ k b', st.loc = .wait k b' → b' = b ∧ blockCv k b' ≠ none) →
      ∀ u k b', (s'.thr u).loc = .wait k b' → b' = b ∧ blockCv k b' ≠ none := by
    intro hself u k b' hloc
    by_cases hu : u = t
    · subst hu
      rw [hran.self] at hloc
      exact hself k b' hloc
    · exact hothers u hu k b' hloc
  have hmove := rwMove_of_exec hran.exec
  generalize hl : (s.thr t).loc = l at hmove hcount
  generalize hm : s'.mem = m' at hmove
  cases hmove with
  | @block l k m₁ c ha hw hc =>
      have hsame := ha.sameLock
      have hsame' := sameLock_countWaiting m₁ k
      have hall : SameLock s.mem s'.mem := by
        rw [hm]
        exact hsame.trans hsame'
      refine ⟨h.ok.of_same hall fun k' => ?_, hall.maxReaders.trans h.maxReaders,
        hall.maxWriters.trans h.maxWriters, hall.biasedness.trans h.biasedness, hwaits ?_⟩
      · have := hcount k'
        rwa [ha.isInside, Status.loc_waiting] at this
      · intro k' b' hloc
        cases hloc
        exact ⟨hsame.biasedness.trans h.biasedness, by rw [hc]; simp⟩
  | @enter l k m₁ ha hw =>
      have hsame := ha.sameLock
      have hall := sameLimits_enter m₁ k
      refine ⟨h.ok_enter hsame hw hm fun k' => ?_, ?_, ?_, ?_, hwaits ?_⟩
      · have := hcount k'
        rwa [ha.isInside, Status.loc_running, RwLoc.isInside_inside] at this
      · rw [hm, hall.1, hsame.maxReaders, h.maxReaders]
      · rw [hm, hall.2.1, hsame.maxWriters, h.maxWriters]
      · rw [hm, hall.2.2, hsame.biasedness, h.biasedness]
      · intro k' b' hloc
        cases hloc
  | @unlock k m' notes hu =>
      obtain ⟨-, -, -, -, hR, hW, hB⟩ := rwLockUnlock_spec hu
      refine ⟨h.ok_unlock (k := k) (hm ▸ hu) fun k' => ?_, ?_, ?_, ?_, hwaits ?_⟩
      · have := hcount k'
        rwa [RwLoc.isInside_inside] at this
      · rw [hm, hR, h.maxReaders]
      · rw [hm, hW, h.maxWriters]
      · rw [hm, hB, h.biasedness]
      · intro k' b' hloc
        cases hloc

/-- A spurious wake-up changes nothing but the thread's status. -/
theorem RwInv.woken (h : RwInv b maxReaders maxWriters s) {c : RwCv} {l : RwLoc}
    (hw : s.thr t = .waiting c l) :
    RwInv b maxReaders maxWriters ⟨s.mem, Function.update s.thr t (.notified c l)⟩ := by
  have hloc : ∀ u, (Function.update s.thr t (.notified c l) u).loc = (s.thr u).loc :=
    loc_update_notified hw
  have hcount : ∀ k, insideCount ⟨s.mem, Function.update s.thr t (.notified c l)⟩ k =
      insideCount s k := by
    intro k
    rw [insideCount_eq, insideCount_eq]
    exact tally_congr hloc _
  refine ⟨h.ok.of_same ⟨rfl, rfl, rfl, rfl, rfl, rfl⟩ hcount, h.maxReaders, h.maxWriters,
    h.biasedness, ?_⟩
  intro u k b' hu
  exact h.waits u k b' (hloc u ▸ hu)

theorem rwInv_reachable (h : (rwMachine τ spurious b maxReaders maxWriters).Reachable s) :
    RwInv b maxReaders maxWriters s := by
  apply Program.invariant _ _ _ h
  · intro s (hs : (rwMachine τ spurious b maxReaders maxWriters).init s)
    exact .init hs
  · intro s t x picks s' notes st hinv _ hran
    exact hinv.step hran
  · intro s t c l hinv _ hw
    exact hinv.woken hw

/-- **Exclusion and limits**: in every run and every bias, one kind of thread is inside at a time, no
more of them than its limit, and the lock's fields say how many and which. -/
theorem rwLock_exclusive (h : (rwMachine τ spurious b maxReaders maxWriters).Reachable s) :
    RwOk maxReaders maxWriters s :=
  (rwInv_reachable h).ok

/-- A writer is blocked by two readers, of which one has left. -/
theorem rwLock_exclusive_trace :
    ∃ s : RwConfig (Fin 3), RwOk 2 1 s ∧ s.mem.nLocks = 1 ∧
      s.thr 2 = .waiting .cv (.wait .writer .neutral) := by
  have hrun : ((rwMachine (Fin 3) true .neutral 2 1).exec
      (startConfig (Fin 3) .neutral 2 1)
      [.run 0 .reader [], .run 1 .reader [], .run 2 .writer [],
        .run 0 .reader []]).holds (fun s =>
        decide (s.mem.nLocks = 1 ∧ s.thr 2 = .waiting .cv (.wait .writer .neutral))) = true := by
    decide +kernel
  obtain ⟨s, hs, hp⟩ := Machine.exists_reachable_of_exec startConfig_init hrun
  exact ⟨s, rwLock_exclusive hs, of_decide_eq_true hp⟩

end Invariant

section Asserts

variable {maxReaders maxWriters : UInt16} {b : Biasedness} {spurious : Bool} {s : RwConfig τ}

/-- The biases in which the code takes it for impossible that a thread has to wait. -/
def refusesToWait (k : Access) (b : Biasedness) : Bool :=
  match k, b with
  | .reader, .writers | .reader, .opposite | .writer, .readers | .writer, .opposite => true
  | _, _ => false

/-- The thread that moves neither has to wait in a bias that refuses it, nor is a writer that comes
back from its wait in the writers' bias. -/
def staysClear (s : RwConfig τ) : Act τ Access → Bool
  | .run t x _ =>
      (s.thr t).isWaiting ||
        match (s.thr t).loc with
        | .idle => !(s.mem.mustWait x && refusesToWait x s.mem.biasedness)
        | .wait k b => !(k == .writer && b == .writers)
        | .inside _ => true
  | .spurious _ => true

theorem blockCv_eq_none {k : Access} {b : Biasedness} :
    blockCv k b = none ↔ refusesToWait k b = true := by
  cases k <;> cases b <;> simp [blockCv, refusesToWait]

theorem lockLoop_abort {k : Access} {m : RwLock} :
    lockLoop k m = .abort ↔ (m.mustWait k && refusesToWait k m.biasedness) = true := by
  unfold lockLoop
  split
  · next hw =>
    rw [Effect.call_eq_abort, blockCv_eq_none, hw, Bool.true_and]
    simp
  · next hw =>
    simp [hw]

theorem fallsThrough_eq {k : Access} {b : Biasedness} :
    fallsThrough k b = (k == .writer && b == .writers) := by
  cases k <;> cases b <;> rfl

theorem rwLockUnlock_eq_none {m : RwLock} (h : rwLockUnlock m = none) : m.nLocks = 0 := by
  unfold rwLockUnlock at h
  simp only at h
  split at h
  · next hz => simpa using hz
  · split at h
    · split at h
      · cases h
      · split at h <;> (try split at h) <;> cases h
    · split at h
      · split at h
        · cases h
        · split at h <;> (try split at h) <;> cases h
      · cases h

omit [DecidableEq τ] in
/-- A thread's code fails an assertion exactly where the bias leaves no other way. -/
theorem RwInv.exec_abort (h : RwInv b maxReaders maxWriters s) {t : τ} {x : Access}
    {picks : List (Option τ)} (hawake : (s.thr t).isWaiting = false) :
    rwExec (s.thr t).loc x s.mem = .abort ↔ staysClear s (.run t x picks) = false := by
  simp only [staysClear, hawake, Bool.false_or]
  cases hl : (s.thr t).loc with
  | idle =>
      simp only [rwExec, lockLoop_abort, Bool.not_eq_false']
  | wait k b' =>
      obtain ⟨rfl, hcv⟩ := h.waits t k b' hl
      have hbias : (s.mem.uncountWaiting k).biasedness = b' :=
        (sameLock_uncountWaiting s.mem k).biasedness.trans h.biasedness
      have hno : refusesToWait k b' = false := by
        rw [Ne, blockCv_eq_none] at hcv
        simpa using hcv
      simp only [rwExec, ← fallsThrough_eq, Bool.not_eq_false']
      split
      · next hf => simp [hf]
      · next hf =>
        rw [lockLoop_abort, hbias, hno, Bool.and_false]
        simp [hf]
  | inside k =>
      have hpos : 0 < insideCount s k := by
        rw [insideCount_eq]
        apply tally_pos.mpr
        exact ⟨t, by rw [hl, RwLoc.isInside_inside, if_pos rfl]; exact Nat.one_pos⟩
      have hne : rwLockUnlock s.mem ≠ none := by
        intro hu
        have hz := rwLockUnlock_eq_none hu
        have hn := h.ok.nLocks
        cases k <;> omega
      simp only [rwExec, Effect.call_eq_abort, hne, false_or, reduceCtorEq, and_false, exists_false,
        Bool.true_eq_false]

theorem RwInv.step_abort (h : RwInv b maxReaders maxWriters s) (a : Act τ Access) :
    (rwMachine τ spurious b maxReaders maxWriters).step s a = .abort ↔ staysClear s a = false := by
  cases a with
  | spurious t =>
      constructor
      · intro habort
        exact absurd habort Program.not_abort_spurious
      · intro hclear
        cases hclear
  | run t x picks =>
      constructor
      · intro habort
        obtain ⟨hawake, hexec⟩ := Program.exec_of_abort habort
        exact (h.exec_abort hawake).mp hexec
      · intro hclear
        have hawake : (s.thr t).isWaiting = false := by
          simp only [staysClear, Bool.or_eq_false_iff] at hclear
          exact hclear.1
        exact Program.step_of_exec_abort picks hawake ((h.exec_abort hawake).mpr hclear)

/-- **When an assertion fails**: in every run and every bias, exactly when a thread has to wait in a
bias that takes this for impossible, or a writer comes back from its wait in the writers' bias. -/
theorem rwLock_asserts (h : (rwMachine τ spurious b maxReaders maxWriters).Reachable s)
    (a : Act τ Access) :
    (rwMachine τ spurious b maxReaders maxWriters).step s a = .abort ↔ staysClear s a = false :=
  (rwInv_reachable h).step_abort a

/-- No assertion fails in any run. -/
def AssertsHold (τ : Type*) [DecidableEq τ] [Fintype τ] (b : Biasedness)
    (maxReaders maxWriters : UInt16) : Prop :=
  ∀ s, (rwMachine τ false b maxReaders maxWriters).Reachable s →
    ∀ a, (rwMachine τ false b maxReaders maxWriters).step s a ≠ .abort

theorem not_assertsHold {maxReaders maxWriters : UInt16} {b : Biasedness}
    (as : List (Act τ Access)) (a : Act τ Access)
    (h : ((rwMachine τ false b maxReaders maxWriters).exec (startConfig τ b maxReaders maxWriters)
      as).holds (fun s => ((rwMachine τ false b maxReaders maxWriters).step s a).isAbort) = true) :
    ¬ AssertsHold τ b maxReaders maxWriters := by
  intro hall
  obtain ⟨s, hs, habort⟩ := Machine.exists_reachable_of_exec startConfig_init h
  exact hall s hs a (Outcome.isAbort_iff.mp habort)

/-- Two threads suffice in every bias but the neutral one: the second one finds the lock taken by the
other kind. -/
theorem rwLock_asserts_fail :
    ¬ AssertsHold Bool .opposite 3 3 ∧ ¬ AssertsHold Bool .writers 3 3 ∧
      ¬ AssertsHold Bool .readers 3 3 := by
  refine ⟨?_, ?_, ?_⟩
  · exact not_assertsHold [.run false .writer []] (.run true .reader [])
      (by decide +kernel)
  · exact not_assertsHold [.run false .writer []] (.run true .reader [])
      (by decide +kernel)
  · exact not_assertsHold [.run false .reader []] (.run true .writer [])
      (by decide +kernel)

omit [DecidableEq τ] in
/-- In the neutral bias no thread is refused its wait. -/
theorem RwInv.staysClear_neutral (h : RwInv .neutral maxReaders maxWriters s) (a : Act τ Access) :
    staysClear s a = true := by
  cases a with
  | spurious t => rfl
  | run t x picks =>
      simp only [staysClear]
      cases hl : (s.thr t).loc with
      | idle =>
          have hno : refusesToWait x s.mem.biasedness = false := by
            rw [h.biasedness]
            cases x <;> rfl
          simp [hno]
      | wait k b' =>
          obtain ⟨rfl, -⟩ := h.waits t k b' hl
          cases k <;> simp
      | inside k => simp

/-- In the other biases a thread is refused its wait as soon as it finds one of the other kind inside. -/
theorem not_assertsHold_of_refuses {t u : τ} (htu : u ≠ t) (k k' : Access)
    (henter : (readyLock b maxReaders maxWriters).mustWait k = false)
    (hwait : ((readyLock b maxReaders maxWriters).enter k).mustWait k' = true)
    (hrefuses : refusesToWait k' b = true) : ¬ AssertsHold τ b maxReaders maxWriters := by
  intro hall
  have hexec : (rwProgram τ false).exec t .idle k (startConfig τ b maxReaders maxWriters).mem =
      .done ((readyLock b maxReaders maxWriters).enter k) [] (.running (.inside k)) := by
    simp [rwProgram, rwExec, lockLoop, startConfig, henter]
  have hstep := Program.step_of_silent (s := startConfig τ b maxReaders maxWriters) [] rfl hexec
  have hreach : (rwMachine τ false b maxReaders maxWriters).Reachable ⟨_, _⟩ :=
    .step (a := .run t k []) (.init startConfig_init) trivial hstep
  refine hall _ hreach (.run u k' []) (((rwInv_reachable hreach).step_abort _).mpr ?_)
  have hbias : ((readyLock b maxReaders maxWriters).enter k).biasedness = b := by
    cases k <;> rfl
  simp [staysClear, Function.update_of_ne htu, startConfig, hwait, hbias, hrefuses]

/-- **Which bias is safe**: with limits of at least one, and two threads to meet, no assertion fails
in any run exactly in the neutral bias. -/
theorem assertsHold_iff [Nontrivial τ] (hreaders : 0 < maxReaders.toNat)
    (hwriters : 0 < maxWriters.toNat) :
    AssertsHold τ b maxReaders maxWriters ↔ b = .neutral := by
  obtain ⟨u, t, htu⟩ := exists_pair_ne τ
  have henter : ∀ k, (readyLock b maxReaders maxWriters).mustWait k = false := by
    intro k
    have hr := Nat.ne_of_lt hreaders
    have hw := Nat.ne_of_lt hwriters
    cases k <;> simp [RwLock.mustWait, readyLock, RwLock.init, RwLock.setBiasedness,
      RwLock.setMaxReadersWriters, zeroLock, hr, hw]
  constructor
  · intro hall
    cases b with
    | neutral => rfl
    | readers => exact absurd hall (not_assertsHold_of_refuses htu .reader .writer (henter _) rfl rfl)
    | writers | opposite =>
        exact absurd hall (not_assertsHold_of_refuses htu .writer .reader (henter _) rfl rfl)
  · rintro rfl s hs a habort
    have hinv := rwInv_reachable hs
    have hclear := (hinv.step_abort a).mp habort
    rw [hinv.staysClear_neutral a] at hclear
    cases hclear

/-- A reader waits for a writer in the readers' bias; with the lock free again, the writer enters
without a wait. -/
theorem rwLock_asserts_trace :
    ∃ s : RwConfig Bool, s.thr true = .notified .cvReaders (.wait .reader .readers) ∧
      (rwMachine Bool false .readers 3 3).step s (.run false .writer []) ≠ .abort := by
  have hrun : ((rwMachine Bool false .readers 3 3).exec (startConfig Bool .readers 3 3)
      [.run false .writer [], .run true .reader [], .run false .writer []]).holds (fun s =>
        decide (s.thr true = .notified .cvReaders (.wait .reader .readers)) &&
          staysClear s (.run false .writer [])) = true := by
    decide +kernel
  obtain ⟨s, hs, hp⟩ := Machine.exists_reachable_of_exec startConfig_init hrun
  obtain ⟨hthr, hclear⟩ := Bool.and_eq_true_iff.mp hp
  refine ⟨s, of_decide_eq_true hthr, fun habort => ?_⟩
  have := (rwLock_asserts hs _).mp habort
  rw [hclear] at this
  cases this

end Asserts

end RwLocks
end MultithreadingBible
