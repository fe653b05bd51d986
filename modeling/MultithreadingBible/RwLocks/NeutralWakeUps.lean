import MultithreadingBible.RwLocks.Exclusion

/-!
# Customisable reader-writer lock: wake-ups in the neutral mode

In the neutral mode readers and writers wait on one condition variable, and some of the releases
broadcast it.  `rwLock_neutral_wakeUps` says that nobody stays blocked without a reason: a thread that
was not notified finds the lock taken by the other kind or its own limit reached, and the two waiting
counters are exact.

The broadcasts that a release leaves out are the point of the proof: they are left out only if nobody
is counted as waiting, or if the leaving thread was not the last of its kind and nobody of its kind
waits (`unlock_neutral`).
-/

namespace MultithreadingBible
namespace RwLocks

open Lib

/-- In the wait of a call that asks for `k`. -/
def RwLoc.isWaitOf (k : Access) : RwLoc → Bool
  | .wait k' _ => k' == k
  | _ => false

namespace RwLock

/-- `n_reader_waiting` or `n_writer_waiting` -/
def waitingOf (m : RwLock) : Access → Nat
  | .reader => m.nReaderWaiting
  | .writer => m.nWriterWaiting

/-- `is_locked_by_reader` or `is_locked_by_writer` -/
def isLockedBy (m : RwLock) : Access → Bool
  | .reader => m.isLockedByReader
  | .writer => m.isLockedByWriter

/-- The condition of the first loop of `rw_lock_rd_lock` or `rw_lock_wr_lock`. -/
def isClosed (m : RwLock) : Access → Bool
  | .reader => m.isLockedByWriter || m.nLocks == m.nMaxReaders
  | .writer => m.isLockedByReader || m.nLocks == m.nMaxWriters

/-- Without the opposite bias only the first loop blocks. -/
theorem mustWait_neutral {m : RwLock} (h : m.biasedness = .neutral) (k : Access) :
    m.mustWait k = m.isClosed k := by
  cases k <;> simp [mustWait, isClosed, h]

theorem isClosed_of_lockedBy {m : RwLock} {k k' : Access} (hne : k' ≠ k)
    (h : m.isLockedBy k = true) : m.isClosed k' = true := by
  cases k with
  | reader =>
      cases k' with
      | reader => exact absurd rfl hne
      | writer => simp [isClosed, show m.isLockedByReader = true from h]
  | writer =>
      cases k' with
      | reader => simp [isClosed, show m.isLockedByWriter = true from h]
      | writer => exact absurd rfl hne

theorem waitingOf_countWaiting (m : RwLock) (k k' : Access) :
    (m.countWaiting k).waitingOf k' =
      if k = k' then countUp 16 (m.waitingOf k') else m.waitingOf k' := by
  cases m
  cases k <;> cases k' <;> rfl

theorem waitingOf_uncountWaiting (m : RwLock) (k k' : Access) :
    (m.uncountWaiting k).waitingOf k' =
      if k = k' then countDown 16 (m.waitingOf k') else m.waitingOf k' := by
  cases m
  cases k <;> cases k' <;> rfl

theorem waitingOf_enter (m : RwLock) (k k' : Access) :
    (m.enter k).waitingOf k' = m.waitingOf k' := by
  cases m
  cases k <;> cases k' <;> rfl

end RwLock

/-- What waiting does not touch decides whether the lock is closed. -/
theorem SameLock.isClosed {m m₁ : RwLock} (h : SameLock m m₁) (k : Access) :
    m₁.isClosed k = m.isClosed k := by
  cases k with
  | reader => simp only [RwLock.isClosed, h.byWriter, h.nLocks, h.maxReaders]
  | writer => simp only [RwLock.isClosed, h.byReader, h.nLocks, h.maxWriters]

section Unlock

variable {m m' : RwLock} {notes : List (Note RwCv)}

theorem rwLockSignal_neutral (h : m.biasedness = .neutral) (broadcast exitThreadIsReader : Bool) :
    rwLockSignal m broadcast exitThreadIsReader = [.broadcast .cv] ∨
      rwLockSignal m broadcast exitThreadIsReader = [] ∧ ∀ k, m.waitingOf k = 0 := by
  unfold rwLockSignal
  split
  · next hzero =>
    refine .inr ⟨rfl, fun k => ?_⟩
    simp only [Bool.and_eq_true, beq_iff_eq] at hzero
    cases k with
    | reader => exact hzero.1
    | writer => exact hzero.2
  · rw [h]
    exact .inl rfl

/-- **A release in the neutral mode** broadcasts, or nobody is counted as waiting, or the lock stays
with the kind that holds it and nobody of this kind is counted as waiting. -/
theorem unlock_neutral (hb : m.biasedness = .neutral)
    (hlocked : m.isLockedByReader = true ∨ m.isLockedByWriter = true)
    (h : rwLockUnlock m = some (m', notes)) :
    (∀ k, m'.waitingOf k = m.waitingOf k) ∧
      (.broadcast .cv ∈ notes ∨ (∀ k, m.waitingOf k = 0) ∨
        ∃ k, m'.isLockedBy k = true ∧ m.waitingOf k = 0) := by
  -- a signal sent from a lock that differs in other fields only
  have hsignal : ∀ (m₁ : RwLock) (b e : Bool), m₁.biasedness = m.biasedness →
      (∀ k, m₁.waitingOf k = m.waitingOf k) →
      .broadcast .cv ∈ rwLockSignal m₁ b e ∨ ∀ k, m.waitingOf k = 0 := by
    intro m₁ b e hbias hwait
    rcases rwLockSignal_neutral (hbias.trans hb) b e with hs | ⟨-, hs⟩
    · exact .inl (by rw [hs]; exact List.mem_singleton.mpr rfl)
    · exact .inr fun k => by rw [← hwait, hs]
  unfold rwLockUnlock at h
  simp only at h
  split at h
  · cases h
  · split at h
    · next hw =>
      split at h
      · cases h
        refine ⟨fun k => by cases k <;> rfl, ?_⟩
        exact (hsignal _ true false rfl fun k => by cases k <;> rfl).imp id .inl
      · split at h
        · rw [hb] at h
          cases h
          refine ⟨fun k => by cases k <;> rfl, ?_⟩
          exact (hsignal _ true false (by simp [hb]) fun k => by cases k <;> rfl).imp id .inl
        · next hnone =>
          cases h
          exact
            ⟨fun k => by cases k <;> rfl,
              .inr (.inr ⟨.writer, hw, by simpa [RwLock.waitingOf] using hnone⟩)⟩
    · next hw =>
      have hr : m.isLockedByReader = true := hlocked.resolve_right hw
      rw [if_pos hr] at h
      split at h
      · cases h
        refine ⟨fun k => by cases k <;> rfl, ?_⟩
        exact (hsignal _ true true rfl fun k => by cases k <;> rfl).imp id .inl
      · split at h
        · rw [hb] at h
          cases h
          refine ⟨fun k => by cases k <;> rfl, ?_⟩
          exact (hsignal _ true true (by simp [hb]) fun k => by cases k <;> rfl).imp id .inl
        · next hnone =>
          cases h
          exact
            ⟨fun k => by cases k <;> rfl,
              .inr (.inr ⟨.reader, hr, by simpa [RwLock.waitingOf] using hnone⟩)⟩

end Unlock

variable {τ : Type*} [Fintype τ]

/-- The number of threads blocked in a call that asks for `k`, or notified there and not resumed. -/
def waitCount (s : RwConfig τ) (k : Access) : Nat :=
  (Finset.univ.filter fun t => (s.thr t).loc.isWaitOf k = true).card

theorem waitCount_eq (s : RwConfig τ) (k : Access) :
    waitCount s k = tally s.thr fun l => (l.isWaitOf k).toNat :=
  card_filter_loc s.thr fun l => l.isWaitOf k

theorem waitCount_le (s : RwConfig τ) (k : Access) : waitCount s k ≤ Fintype.card τ :=
  Finset.card_le_univ _

/-- Every blocked thread has its reason, and the counters count the waiting threads. -/
structure NeutralOk (s : RwConfig τ) : Prop where
  readerBlocked : ∀ t c b, s.thr t = .waiting c (.wait .reader b) →
    s.mem.isLockedByWriter = true ∨ s.mem.nLocks = s.mem.nMaxReaders
  writerBlocked : ∀ t c b, s.thr t = .waiting c (.wait .writer b) →
    s.mem.isLockedByReader = true ∨ s.mem.nLocks = s.mem.nMaxWriters
  nReaderWaiting : s.mem.nReaderWaiting = waitCount s .reader
  nWriterWaiting : s.mem.nWriterWaiting = waitCount s .writer

variable [DecidableEq τ]

section Invariant

variable {maxReaders maxWriters : UInt16} {spurious : Bool} {s s' : RwConfig τ} {t : τ}
  {x : Access} {notes : List (Note RwCv)} {st : Status RwCv RwLoc}

/-- The invariant of the neutral mode. -/
structure NeutralInv (maxReaders maxWriters : UInt16) (s : RwConfig τ) : Prop where
  base : RwInv .neutral maxReaders maxWriters s
  /-- Whoever is blocked waits on `cv`, in one of the two calls. -/
  onCv : ∀ t c l, s.thr t = .waiting c l → c = .cv ∧ ∃ k, l = .wait k .neutral
  closed : ∀ t c k, s.thr t = .waiting c (.wait k .neutral) → s.mem.isClosed k = true
  counted : ∀ k, s.mem.waitingOf k = waitCount s k

theorem NeutralInv.init (h : (rwMachine τ spurious .neutral maxReaders maxWriters).init s) :
    NeutralInv maxReaders maxWriters s where
  base := .init h
  onCv t c l ht := by rw [h.2 t] at ht; cases ht
  closed t c k ht := by rw [h.2 t] at ht; cases ht
  counted k := by
    have hnone : waitCount s k = 0 := by
      rw [waitCount_eq, tally_eq_zero]
      intro t
      rw [h.2 t]
      rfl
    rw [h.1, hnone]
    cases k <;> rfl

/-- The thread that moves changes the counts by its own contribution. -/
theorem waitCount_ran (h : (rwProgram τ spurious).Ran s t x s' notes st) (k : Access) :
    waitCount s' k + ((s.thr t).loc.isWaitOf k).toNat =
      waitCount s k + (st.loc.isWaitOf k).toNat := by
  rw [waitCount_eq, waitCount_eq]
  exact h.tally fun l => (l.isWaitOf k).toNat

omit [DecidableEq τ] in
/-- A thread at the head of its loop is no longer counted. -/
theorem NeutralInv.arrives (h : NeutralInv maxReaders maxWriters s) {k : Access} {m₁ : RwLock}
    (ha : Arrives x s.mem (s.thr t).loc k m₁) (k' : Access) :
    m₁.waitingOf k' + ((s.thr t).loc.isWaitOf k').toNat = waitCount s k' := by
  have hpos : ((s.thr t).loc.isWaitOf k').toNat ≤ waitCount s k' := by
    rw [waitCount_eq]
    exact le_tally s.thr (fun l => (l.isWaitOf k').toNat) t
  have hcount := h.counted k'
  generalize (s.thr t).loc = l at ha hpos
  cases ha with
  | fresh => exact hcount
  | @resumed k b hf =>
      rw [RwLock.waitingOf_uncountWaiting]
      by_cases hk : k = k'
      · have hone : ((RwLoc.wait k b).isWaitOf k').toNat = 1 := by simp [RwLoc.isWaitOf, hk]
        rw [hone] at hpos ⊢
        rw [if_pos hk, countDown_eq (by omega), hcount]
        omega
      · have hzero : ((RwLoc.wait k b).isWaitOf k').toNat = 0 := by simp [RwLoc.isWaitOf, hk]
        rw [hzero, if_neg hk]
        exact hcount

omit [DecidableEq τ] in
/-- A kind that is inside has its flag set. -/
theorem RwOk.lockedBy (h : RwOk maxReaders maxWriters s) {k : Access}
    (hpos : 0 < insideCount s k) : s.mem.isLockedBy k = true := by
  cases k with
  | reader => exact h.byReader.mpr hpos
  | writer => exact h.byWriter.mpr hpos

/-- A thread that has to wait is counted and has its reason. -/
theorem NeutralInv.block (h : NeutralInv maxReaders maxWriters s) (hcard : Fintype.card τ < 2 ^ 16)
    (hran : (rwProgram τ spurious).Ran s t x s' [] st) {k : Access} {m₁ : RwLock} {c : RwCv}
    (ha : Arrives x s.mem (s.thr t).loc k m₁) (hw : m₁.mustWait k = true)
    (hc : blockCv k m₁.biasedness = some c) (hm : s'.mem = m₁.countWaiting k)
    (hst : st = .waiting c (.wait k m₁.biasedness)) : NeutralInv maxReaders maxWriters s' := by
  have hbase := h.base.step hran
  have hbias : m₁.biasedness = .neutral := ha.sameLock.biasedness.trans h.base.biasedness
  have hclosed : ∀ k', s'.mem.isClosed k' = m₁.isClosed k' := by
    intro k'
    rw [hm]
    exact (sameLock_countWaiting m₁ k).isClosed k'
  rw [hbias] at hc hst
  have hcv : c = .cv := by
    cases k <;> exact (Option.some.inj hc).symm
  refine ⟨hbase, ?_, ?_, ?_⟩
  · intro u c' l hu
    by_cases hut : u = t
    · rw [hut, hran.self, hst] at hu
      cases hu
      exact ⟨hcv, k, rfl⟩
    · exact h.onCv u c' l (hran.waiting_of_ne hut hu)
  · intro u c' k' hu
    rw [hclosed]
    by_cases hut : u = t
    · rw [hut, hran.self, hst] at hu
      cases hu
      rwa [RwLock.mustWait_neutral hbias] at hw
    · rw [ha.sameLock.isClosed]
      exact h.closed u c' k' (hran.waiting_of_ne hut hu)
  · intro k'
    have hold := h.arrives ha k'
    have hnew := waitCount_ran hran k'
    have hle := waitCount_le s' k'
    rw [hst, Status.loc_waiting] at hnew
    rw [hm, RwLock.waitingOf_countWaiting]
    by_cases hk : k = k'
    · have hone : ((RwLoc.wait k .neutral).isWaitOf k').toNat = 1 := by simp [RwLoc.isWaitOf, hk]
      rw [hone] at hnew
      rw [if_pos hk, countUp_eq (by omega)]
      omega
    · have hzero : ((RwLoc.wait k .neutral).isWaitOf k').toNat = 0 := by
        simp [RwLoc.isWaitOf, hk]
      rw [hzero] at hnew
      rw [if_neg hk]
      omega

/-- A thread that enters leaves nobody of its kind without a reason, because it found none itself,
and shuts out the other kind. -/
theorem NeutralInv.enter (h : NeutralInv maxReaders maxWriters s)
    (hran : (rwProgram τ spurious).Ran s t x s' [] st) {k : Access} {m₁ : RwLock}
    (ha : Arrives x s.mem (s.thr t).loc k m₁) (hw : m₁.mustWait k = false)
    (hm : s'.mem = m₁.enter k) (hst : st = .running (.inside k)) :
    NeutralInv maxReaders maxWriters s' := by
  have hbase := h.base.step hran
  have hbias : m₁.biasedness = .neutral := ha.sameLock.biasedness.trans h.base.biasedness
  have hold : ∀ u c l, s'.thr u = .waiting c l → s.thr u = .waiting c l := by
    intro u c l hu
    have hut : u ≠ t := by
      rintro rfl
      rw [hran.self, hst] at hu
      cases hu
    exact hran.waiting_of_ne hut hu
  refine ⟨hbase, fun u c l hu => h.onCv u c l (hold u c l hu), ?_, ?_⟩
  · intro u c k' hu
    have hclosed := h.closed u c k' (hold u c _ hu)
    have hne : k' ≠ k := by
      rintro rfl
      rw [RwLock.mustWait_neutral hbias, ha.sameLock.isClosed, hclosed] at hw
      cases hw
    have hinside : 0 < insideCount s' k := by
      rw [insideCount_eq, tally_pos]
      refine ⟨t, ?_⟩
      rw [hran.self, hst, Status.loc_running, RwLoc.isInside_inside, if_pos rfl]
      exact Nat.one_pos
    exact RwLock.isClosed_of_lockedBy hne (hbase.ok.lockedBy hinside)
  · intro k'
    have hold := h.arrives ha k'
    have hnew := waitCount_ran hran k'
    have hzero : ((Status.running (κ := RwCv) (RwLoc.inside k)).loc.isWaitOf k').toNat = 0 := rfl
    rw [hst, hzero] at hnew
    rw [hm, RwLock.waitingOf_enter]
    omega

/-- A release either wakes everybody or keeps every reason. -/
theorem NeutralInv.unlock (h : NeutralInv maxReaders maxWriters s)
    (hran : (rwProgram τ spurious).Ran s t x s' notes st) {k : Access}
    (hl : (s.thr t).loc = .inside k) (hu : rwLockUnlock s.mem = some (s'.mem, notes))
    (hst : st = .running .idle) : NeutralInv maxReaders maxWriters s' := by
  have hbase := h.base.step hran
  have hlocked : s.mem.isLockedBy k = true := by
    apply h.base.ok.lockedBy
    rw [insideCount_eq, tally_pos]
    refine ⟨t, ?_⟩
    rw [hl, RwLoc.isInside_inside, if_pos rfl]
    exact Nat.one_pos
  have hflag : s.mem.isLockedByReader = true ∨ s.mem.isLockedByWriter = true := by
    cases k with
    | reader => exact .inl hlocked
    | writer => exact .inr hlocked
  obtain ⟨hsame, hwake⟩ := unlock_neutral h.base.biasedness hflag hu
  have hne : ∀ u c l, s'.thr u = .waiting c l → u ≠ t := by
    intro u c l hw hut
    rw [hut, hran.self, hst] at hw
    cases hw
  have hold : ∀ u c l, s'.thr u = .waiting c l → s.thr u = .waiting c l :=
    fun u c l hw => hran.waiting_of_ne (hne u c l hw) hw
  refine ⟨hbase, fun u c l hw => h.onCv u c l (hold u c l hw), ?_, ?_⟩
  · intro u c k' hw
    have hcounted : 0 < s.mem.waitingOf k' := by
      rw [h.counted, waitCount_eq, tally_pos]
      refine ⟨u, ?_⟩
      rw [hold u c _ hw]
      simp [RwLoc.isWaitOf]
    rcases hwake with hcast | hnone | ⟨k₀, hk₀, hnone⟩
    · obtain ⟨rfl, -⟩ := h.onCv u c _ (hold u c _ hw)
      exact absurd hw (hran.broadcast hcast (hne u _ _ hw) _)
    · have := hnone k'
      omega
    · have hk : k' ≠ k₀ := by
        rintro rfl
        omega
      exact RwLock.isClosed_of_lockedBy hk hk₀
  · intro k'
    have hnew := waitCount_ran hran k'
    have hbefore : ((RwLoc.inside k).isWaitOf k').toNat = 0 := rfl
    have hafter : ((Status.running (κ := RwCv) RwLoc.idle).loc.isWaitOf k').toNat = 0 := rfl
    rw [hst, hl, hbefore, hafter] at hnew
    rw [hsame, h.counted]
    exact hnew.symm

/-- **Every step keeps the invariant of the neutral mode.** -/
theorem NeutralInv.step (h : NeutralInv maxReaders maxWriters s) (hcard : Fintype.card τ < 2 ^ 16)
    (hran : (rwProgram τ spurious).Ran s t x s' notes st) : NeutralInv maxReaders maxWriters s' := by
  have hmove := rwMove_of_exec hran.exec
  generalize hl : (s.thr t).loc = l at hmove
  generalize hm : s'.mem = m' at hmove
  generalize hst : st = st' at hmove
  cases hmove with
  | block ha hw hc => exact h.block hcard hran (hl ▸ ha) hw hc hm hst
  | enter ha hw => exact h.enter hran (hl ▸ ha) hw hm hst
  | unlock hu => exact h.unlock hran hl (hm ▸ hu) hst

/-- A spurious wake-up takes a thread from the blocked ones. -/
theorem NeutralInv.woken (h : NeutralInv maxReaders maxWriters s) {c : RwCv} {l : RwLoc}
    (hw : s.thr t = .waiting c l) :
    NeutralInv maxReaders maxWriters ⟨s.mem, Function.update s.thr t (.notified c l)⟩ := by
  refine ⟨h.base.woken hw, fun u c' l' hu => h.onCv u c' l' (waiting_of_update_notified hu),
    fun u c' k hu => h.closed u c' k (waiting_of_update_notified hu), fun k => ?_⟩
  rw [waitCount_eq, tally_congr (loc_update_notified hw), ← waitCount_eq]
  exact h.counted k

theorem neutralInv_reachable (hcard : Fintype.card τ < 2 ^ 16)
    (h : (rwMachine τ spurious .neutral maxReaders maxWriters).Reachable s) :
    NeutralInv maxReaders maxWriters s := by
  apply Program.invariant _ _ _ h
  · intro s (hs : (rwMachine τ spurious .neutral maxReaders maxWriters).init s)
    exact .init hs
  · intro s t x picks s' notes st hinv _ hran
    exact hinv.step hcard hran
  · intro s t c l hinv _ hw
    exact hinv.woken hw

omit [DecidableEq τ] in
theorem NeutralInv.reason (h : NeutralInv maxReaders maxWriters s) {c : RwCv} {k : Access}
    {b : Biasedness} (hw : s.thr t = .waiting c (.wait k b)) : s.mem.isClosed k = true := by
  obtain ⟨-, k', hk⟩ := h.onCv t c _ hw
  cases hk
  exact h.closed t c k hw

/-- **No wake-up is lost in the neutral mode**: with fewer than `2 ^ 16` threads, any limits and any
spurious wake-ups, whoever is blocked without a notification finds the lock taken by the other kind or
its own limit reached, and the waiting counters are exact. -/
theorem rwLock_neutral_wakeUps (hcard : Fintype.card τ < 2 ^ 16)
    (h : (rwMachine τ spurious .neutral maxReaders maxWriters).Reachable s) : NeutralOk s := by
  have hinv := neutralInv_reachable hcard h
  refine ⟨fun t c b hw => ?_, fun t c b hw => ?_, hinv.counted .reader, hinv.counted .writer⟩
  · have hclosed := hinv.reason hw
    simpa [RwLock.isClosed] using hclosed
  · have hclosed := hinv.reason hw
    simpa [RwLock.isClosed] using hclosed

/-- A second reader finds the limit of one reader reached; the first one's release notifies it, and a
writer that comes in between has to wait as well. -/
theorem rwLock_neutral_wakeUps_trace :
    ∃ s : RwConfig (Fin 3), NeutralOk s ∧ s.mem.nReaderWaiting = 1 ∧
      s.thr 1 = .notified .cv (.wait .reader .neutral) ∧
        s.thr 2 = .waiting .cv (.wait .writer .neutral) ∧ s.mem.nLocks = s.mem.nMaxWriters := by
  have hrun : ((rwMachine (Fin 3) true .neutral 1 1).exec (startConfig (Fin 3) .neutral 1 1)
      [.run 0 .reader [], .run 1 .reader [], .run 0 .reader [], .run 0 .writer [],
        .run 2 .writer []]).holds (fun s =>
        decide (s.mem.nReaderWaiting = 1 ∧ s.thr 1 = .notified .cv (.wait .reader .neutral) ∧
          s.thr 2 = .waiting .cv (.wait .writer .neutral) ∧
            s.mem.nLocks = s.mem.nMaxWriters)) = true := by
    decide +kernel
  obtain ⟨s, hs, hp⟩ := Machine.exists_reachable_of_exec startConfig_init hrun
  exact ⟨s, rwLock_neutral_wakeUps (by decide) hs, of_decide_eq_true hp⟩

end Invariant

end RwLocks
end MultithreadingBible
