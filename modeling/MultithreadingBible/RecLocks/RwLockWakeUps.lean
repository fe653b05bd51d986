import MultithreadingBible.RecLocks.RwLockRefinement

/-!
# Recursive reader-writer lock: wake-ups

The lock broadcasts only when the last hold is given back, only if a waiting counter is not zero, and
before it clears its flags.  `recRwLock_wakeUps` says that nobody is left behind: a thread that is
blocked and was not notified finds the lock held in a way that excludes its request.

The invariant (`WakeInv`) is stated over the abstract lock: the counters are the numbers of waiting
threads, and the request of a blocked thread is one the abstract lock refuses.  A refused request stays
refused until the lock is free (`request_none_of_granted`, `request_none_of_unlock`), and whoever frees
the lock wakes everybody (`rwLockUnlock_wakes`).
-/

namespace MultithreadingBible
namespace RecLocks

open Lib
open RwLocks (Access)

/-- In the wait of a call that asks for `k`. -/
def RecLoc.isWaitOf (k : Access) : RecLoc → Bool
  | .wait k' _ _ => k' == k
  | .ready _ _ => false

section Fields

variable {τ : Type*}

/-- `n_reader_waiting` or `n_writer_waiting` -/
def RwLock.waitingOf (m : RwLock τ) : Access → Nat
  | .reader => m.nReaderWaiting
  | .writer => m.nWriterWaiting

/-- `is_locked_by_reader` or `is_locked_by_writer` -/
def RwLock.isLockedBy (m : RwLock τ) : Access → Bool
  | .reader => m.isLockedByReader
  | .writer => m.isLockedByWriter

theorem RwLock.waitingOf_countWaiting (m : RwLock τ) (k k' : Access) :
    (m.countWaiting k).waitingOf k' =
      if k = k' then countUp 16 (m.waitingOf k') else m.waitingOf k' := by
  cases k <;> cases k' <;> rfl

theorem RwLock.waitingOf_uncountWaiting (m : RwLock τ) (k k' : Access) :
    (m.uncountWaiting k).waitingOf k' =
      if k = k' then countDown 16 (m.waitingOf k') else m.waitingOf k' := by
  cases k <;> cases k' <;> rfl

theorem RwLock.waitingOf_grant (m : RwLock τ) (t : τ) (k k' : Access) :
    (m.grant t k).waitingOf k' = m.waitingOf k' := by
  cases k <;> cases k' <;> rfl

/-- Somebody is counted as waiting. -/
theorem RwLock.wakeAll_eq {m : RwLock τ} {k : Access} (h : m.waitingOf k ≠ 0) :
    wakeAll m = [.broadcast ()] := by
  unfold wakeAll
  cases k with
  | reader => simp [show m.nReaderWaiting ≠ 0 from h]
  | writer => simp [show m.nWriterWaiting ≠ 0 from h]

variable [DecidableEq τ] {t : τ} {m m' : RwLock τ} {notes : List (Note Unit)}

/-- `rw_lock_unlock` leaves the waiting counters alone, and if it frees the lock it wakes everybody who
is counted. -/
theorem rwLockUnlock_wakes (h : rwLockUnlock t m = some (m', notes)) :
    (∀ k, m'.waitingOf k = m.waitingOf k) ∧
      ((∀ k, m'.isLockedBy k = false) → notes = wakeAll m) := by
  unfold rwLockUnlock at h
  simp only at h
  split at h
  case isTrue => cases h
  case isFalse =>
    split at h
    case isTrue hw =>
      split at h
      case isTrue =>
        split at h
        case isTrue =>
          cases h
          refine ⟨fun k => by cases k <;> rfl, fun hfree => ?_⟩
          exact absurd ((hfree .writer).symm.trans hw) Bool.false_ne_true
        case isFalse =>
          cases h
          exact ⟨fun k => by cases k <;> rfl, fun _ => rfl⟩
      case isFalse => cases h
    case isFalse =>
      split at h
      case isTrue hr =>
        split at h
        case isTrue =>
          split at h
          case isTrue =>
            cases h
            refine ⟨fun k => by cases k <;> rfl, fun hfree => ?_⟩
            exact absurd ((hfree .reader).symm.trans hr) Bool.false_ne_true
          case isFalse =>
            cases h
            exact ⟨fun k => by cases k <;> rfl, fun _ => rfl⟩
        case isFalse => cases h
      case isFalse => cases h

end Fields

section Abstract

variable {τ : Type*} [DecidableEq τ] {t u : τ} {k k' : Access} {A A' : AbsLock τ}

/-- A grant leaves refused requests refused. -/
theorem request_none_of_granted (hA : A.request t k = some A') (hu : A.request u k' = none) :
    A'.request u k' = none := by
  cases A with
  | free => cases k' <;> cases hu
  | readers holders hne =>
      cases k with
      | writer => cases hA
      | reader =>
          cases hA
          cases k' with
          | reader => cases hu
          | writer => rfl
  | writer owner depth hpos =>
      cases k with
      | reader => cases hA
      | writer =>
          simp only [AbsLock.request] at hA
          split at hA
          case isFalse => cases hA
          case isTrue howner =>
            cases hA
            cases k' with
            | reader => rfl
            | writer =>
                have hother : owner ≠ u := by
                  intro hou
                  simp [AbsLock.request, hou] at hu
                exact if_neg hother

/-- A hold that is given back leaves refused requests refused, unless it was the last one. -/
theorem request_none_of_unlock (hA : A.unlock t = some A') (hheld : A' ≠ .free)
    (hu : A.request u k' = none) : A'.request u k' = none := by
  cases A with
  | free => cases hA
  | readers holders hne =>
      simp only [AbsLock.unlock] at hA
      split at hA
      case isFalse => cases hA
      case isTrue =>
        cases hA
        unfold AbsLock.ofReaders at hheld ⊢
        split at hheld
        case isTrue => exact absurd rfl hheld
        case isFalse hleft =>
          rw [dif_neg hleft]
          cases k' with
          | reader => cases hu
          | writer => rfl
  | writer owner depth hpos =>
      simp only [AbsLock.unlock] at hA
      split at hA
      case isFalse => cases hA
      case isTrue =>
        cases hA
        unfold AbsLock.ofWriter at hheld ⊢
        split at hheld
        case isFalse => exact absurd rfl hheld
        case isTrue hleft =>
          rw [dif_pos hleft]
          cases k' with
          | reader => rfl
          | writer =>
              have hother : owner ≠ u := by
                intro hou
                simp [AbsLock.request, hou] at hu
              exact if_neg hother

/-- A request is refused because of a writer, or, to write, because of readers. -/
theorem holder_of_request_none (h : A.request u k = none) :
    (∃ owner depth hpos, A = .writer owner depth hpos) ∨
      k = .writer ∧ ∃ holders hne, A = .readers holders hne := by
  cases A with
  | free => cases k <;> cases h
  | readers holders hne =>
      cases k with
      | reader => cases h
      | writer => exact .inr ⟨rfl, holders, hne, rfl⟩
  | writer owner depth hpos => exact .inl ⟨owner, depth, hpos, rfl⟩

end Abstract

variable {τ : Type*} [Fintype τ] {s s' : RecConfig τ} {A A' : AbsLock τ} {t : τ}
  {x : RecCall} {k : Access} {notes : List (Note Unit)} {st : Status Unit RecLoc} {spurious : Bool}

/-- The number of threads in the wait of a call that asks for `k`. -/
def waitCount (s : RecConfig τ) (k : Access) : Nat :=
  (Finset.univ.filter fun t => (s.thr t).loc.isWaitOf k = true).card

theorem waitCount_eq (s : RecConfig τ) (k : Access) :
    waitCount s k = tally s.thr fun l => (l.isWaitOf k).toNat :=
  card_filter_loc s.thr fun l => l.isWaitOf k

theorem waitCount_le (s : RecConfig τ) (k : Access) : waitCount s k ≤ Fintype.card τ :=
  Finset.card_le_univ _

variable [DecidableEq τ]

theorem waitCount_ran (h : (recProgram τ spurious).Ran s t x s' notes st) (k : Access) :
    waitCount s' k + ((s.thr t).loc.isWaitOf k).toNat =
      waitCount s k + (st.loc.isWaitOf k).toNat := by
  rw [waitCount_eq, waitCount_eq]
  exact h.tally fun l => (l.isWaitOf k).toNat

/-- The invariant: exact waiting counters, and whoever is blocked is refused by the abstract lock. -/
structure WakeInv (s : RecConfig τ) (A : AbsLock τ) : Prop where
  abs : Abstracts s A
  counted : ∀ k, s.mem.waitingOf k = waitCount s k
  refused : ∀ t c l, s.thr t = .waiting c l →
    ∃ k reads writes, l = .wait k reads writes ∧ A.request t k = none

theorem WakeInv.init : WakeInv (freshLock τ) .free where
  abs := abstracts_freshLock
  counted k := by
    have hnone : waitCount (freshLock τ) k = 0 := by
      rw [waitCount_eq, tally_eq_zero]
      intro t
      rfl
    rw [hnone]
    cases k <;> rfl
  refused t c l ht := by cases ht

/-- A thread that asks again has counted itself out. -/
theorem WakeInv.seenFrom (h : WakeInv s A) (t : τ) (k : Access) :
    (s.mem.seenFrom (s.thr t).loc).waitingOf k + ((s.thr t).loc.isWaitOf k).toNat =
      waitCount s k := by
  have hpos : ((s.thr t).loc.isWaitOf k).toNat ≤ waitCount s k := by
    rw [waitCount_eq]
    exact le_tally s.thr (fun l => (l.isWaitOf k).toNat) t
  have hcount := h.counted k
  cases hl : (s.thr t).loc with
  | ready reads writes => exact hcount
  | wait k' reads writes =>
      rw [hl] at hpos
      rw [RwLock.seenFrom, RwLock.waitingOf_uncountWaiting]
      by_cases hk : k' = k
      · have hone : ((RecLoc.wait k' reads writes).isWaitOf k).toNat = 1 := by
          simp [RecLoc.isWaitOf, hk]
        rw [hone] at hpos ⊢
        rw [if_pos hk, countDown_eq (by omega), hcount]
        omega
      · have hzero : ((RecLoc.wait k' reads writes).isWaitOf k).toNat = 0 := by
          simp [RecLoc.isWaitOf, hk]
        rw [hzero, if_neg hk]
        exact hcount

/-- A thread that is granted the lock. -/
theorem WakeInv.granted (h : WakeInv s A) (hran : (recProgram τ spurious).Ran s t x s' notes st)
    (habs : Abstracts s' A') (hA : A.request t k = some A')
    (hm : s'.mem = (s.mem.seenFrom (s.thr t).loc).grant t k) {reads writes : Nat}
    (hst : st = .running (afterGrant k reads writes)) : WakeInv s' A' := by
  refine ⟨habs, fun k' => ?_, fun u c l hu => ?_⟩
  · have hold := h.seenFrom t k'
    have hnew := waitCount_ran hran k'
    have hafter : ((afterGrant k reads writes).isWaitOf k').toNat = 0 := by
      cases k <;> rfl
    rw [hst, Status.loc_running, hafter] at hnew
    rw [hm, RwLock.waitingOf_grant]
    omega
  · have hut : u ≠ t := by
      rintro rfl
      rw [hran.self, hst] at hu
      cases hu
    obtain ⟨k', r, w, rfl, hno⟩ := h.refused u c l (hran.waiting_of_ne hut hu)
    exact ⟨k', r, w, rfl, request_none_of_granted hA hno⟩

/-- A thread that has to wait. -/
theorem WakeInv.waits (h : WakeInv s A) (hcard : Fintype.card τ < 2 ^ 16)
    (hran : (recProgram τ spurious).Ran s t x s' notes st) (habs : Abstracts s' A)
    (hA : A.request t k = none)
    (hm : s'.mem = (s.mem.seenFrom (s.thr t).loc).countWaiting k) {reads writes : Nat}
    (hst : st = .waiting () (.wait k reads writes)) : WakeInv s' A := by
  refine ⟨habs, fun k' => ?_, fun u c l hu => ?_⟩
  · have hold := h.seenFrom t k'
    have hnew := waitCount_ran hran k'
    have hle := waitCount_le s' k'
    rw [hst, Status.loc_waiting] at hnew
    rw [hm, RwLock.waitingOf_countWaiting]
    by_cases hk : k = k'
    · have hone : ((RecLoc.wait k reads writes).isWaitOf k').toNat = 1 := by
        simp [RecLoc.isWaitOf, hk]
      rw [hone] at hnew
      rw [if_pos hk, countUp_eq (by omega)]
      omega
    · have hzero : ((RecLoc.wait k reads writes).isWaitOf k').toNat = 0 := by
        simp [RecLoc.isWaitOf, hk]
      rw [hzero] at hnew
      rw [if_neg hk]
      omega
  · by_cases hut : u = t
    · rw [hut, hran.self, hst] at hu
      cases hu
      exact ⟨k, reads, writes, rfl, hut ▸ hA⟩
    · exact h.refused u c l (hran.waiting_of_ne hut hu)

/-- A thread that gives a hold back: either the lock stays held, or everybody is woken. -/
theorem WakeInv.unlock (h : WakeInv s A)
    (hran : (recProgram τ spurious).Ran s t .unlock s' notes st) {reads writes : Nat}
    (hl : (s.thr t).loc = .ready reads writes) (habs : Abstracts s' A') (hA : A.unlock t = some A')
    (hu : rwLockUnlock t s.mem = some (s'.mem, notes))
    (hst : st = .running (afterUnlock reads writes)) : WakeInv s' A' := by
  obtain ⟨hsame, hwakes⟩ := rwLockUnlock_wakes hu
  have hnot : ∀ k', ((afterUnlock reads writes).isWaitOf k').toNat = 0 := by
    intro k'
    unfold afterUnlock
    split <;> rfl
  refine ⟨habs, fun k' => ?_, fun u c l hw => ?_⟩
  · have hnew := waitCount_ran hran k'
    -- neither location is in a wait
    rw [hst, hl, Status.loc_running, hnot] at hnew
    rw [hsame, h.counted]
    exact hnew.symm
  · have hut : u ≠ t := by
      rintro rfl
      rw [hran.self, hst] at hw
      cases hw
    have hold := hran.waiting_of_ne hut hw
    obtain ⟨k', r, w, rfl, hno⟩ := h.refused u c l hold
    refine ⟨k', r, w, rfl, request_none_of_unlock hA ?_ hno⟩
    -- had the lock been freed, the broadcast would have reached `u`
    rintro rfl
    have hcounted : s.mem.waitingOf k' ≠ 0 := by
      rw [h.counted, waitCount_eq]
      apply Nat.ne_of_gt
      rw [tally_pos]
      refine ⟨u, ?_⟩
      rw [hold]
      simp [RecLoc.isWaitOf]
    have hfree : ∀ k, s'.mem.isLockedBy k = false := by
      obtain ⟨-, hr, hw', -⟩ := RwLock.view_eq habs.image
      intro k
      cases k with
      | reader => exact hr
      | writer => exact hw'
    have hcast : Note.broadcast () ∈ notes := by
      rw [hwakes hfree, RwLock.wakeAll_eq hcounted]
      exact List.mem_singleton.mpr rfl
    exact hran.broadcast hcast hut _ hw

/-- **Every step keeps the invariant.** -/
theorem WakeInv.step (h : WakeInv s A) (hcard : Fintype.card τ < 2 ^ 16)
    (hran : (recProgram τ spurious).Ran s t x s' notes st) (hfew : outstanding s' < 2 ^ 16) :
    ∃ A', WakeInv s' A' := by
  obtain ⟨A', habs, hstep⟩ := h.abs.run hran hfew
  cases hstep with
  | granted hask hA hst' =>
      obtain ⟨-, ⟨A₁, -, hm, hst⟩ | ⟨hno, -⟩⟩ := h.abs.ran_ask hran hask
      · exact ⟨A', h.granted hran habs hA hm hst⟩
      · rw [hA] at hno
        cases hno
  | waits hask hA hst' =>
      obtain ⟨-, ⟨A₁, hyes, -⟩ | ⟨-, hm, hst⟩⟩ := h.abs.ran_ask hran hask
      · rw [hA] at hyes
        cases hyes
      · exact ⟨A, h.waits hcard hran habs hA hm hst⟩
  | unlocked hl hx hA hlast hst' =>
      rw [hx] at hran
      obtain ⟨A₁, -, -, hu, hst⟩ := h.abs.ran_unlock hran hl
      exact ⟨A', h.unlock hran hl habs hA hu hst⟩

/-- A spurious wake-up takes a thread from the blocked ones. -/
theorem WakeInv.woken (h : WakeInv s A) {c : Unit} {l : RecLoc} (hw : s.thr t = .waiting c l) :
    WakeInv ⟨s.mem, Function.update s.thr t (.notified c l)⟩ A := by
  refine ⟨h.abs.woken hw, fun k => ?_,
    fun u c' l' hu => h.refused u c' l' (waiting_of_update_notified hu)⟩
  rw [waitCount_eq, tally_congr (loc_update_notified hw), ← waitCount_eq]
  exact h.counted k

/-- A step that stays within the bound does so in the state it leads to. -/
theorem outstanding_lt_of_staysFew {a : Act τ RecCall} (hfew : staysFew spurious s a = true)
    (hstep : (recProgram τ spurious).step s a = .next s') : outstanding s' < 2 ^ 16 := by
  simp only [staysFew, hstep] at hfew
  exact of_decide_eq_true hfew

theorem wakeInv_reachable (hcard : Fintype.card τ < 2 ^ 16)
    (h : (recMachine τ spurious).ReachableUnder (fun s a => staysFew spurious s a = true) s) :
    ∃ A, WakeInv s A := by
  apply h.invariant (I := fun s => ∃ A, WakeInv s A)
  · intro s hs
    rw [show s = freshLock τ from hs]
    exact ⟨.free, .init⟩
  · intro s a s' hinv hfew hstep
    obtain ⟨A, hA⟩ := hinv
    have hlt := outstanding_lt_of_staysFew hfew hstep
    cases a with
    | run t x picks =>
        obtain ⟨notes, st, hran⟩ := Program.ran_of_step hstep
        exact hA.step hcard hran hlt
    | spurious t =>
        obtain ⟨-, c, l, hw, rfl⟩ := Program.spurious_of_step hstep
        exact ⟨A, hA.woken hw⟩

/-- The lock is held with access `k`, as its flags say and as a thread knows. -/
def HeldBy (s : RecConfig τ) (k : Access) : Prop :=
  s.mem.isLockedBy k = true ∧ ∃ u, 0 < (s.thr u).loc.holds k

/-- Whoever is blocked and was not notified finds the lock held: to read, by a writer, and to write, by
readers or a writer. -/
structure WakeOk (s : RecConfig τ) : Prop where
  readerBlocked : ∀ t reads writes, s.thr t = .waiting () (.wait .reader reads writes) →
    HeldBy s .writer
  writerBlocked : ∀ t reads writes, s.thr t = .waiting () (.wait .writer reads writes) →
    HeldBy s .reader ∨ HeldBy s .writer

theorem WakeInv.heldBy (h : WakeInv s A) {reads writes : Nat}
    (hw : s.thr t = .waiting () (.wait k reads writes)) :
    HeldBy s .writer ∨ k = .writer ∧ HeldBy s .reader := by
  obtain ⟨k', r, w, heq, hno⟩ := h.refused t () _ hw
  cases heq
  rcases holder_of_request_none hno with ⟨owner, depth, hpos, rfl⟩ | ⟨hk, holders, hne, rfl⟩
  · obtain ⟨-, -, hflag, -⟩ := RwLock.view_eq h.abs.image
    refine .inl ⟨hflag, owner, ?_⟩
    rw [h.abs.holds]
    simpa [AbsLock.holdsOf] using hpos
  · obtain ⟨-, hflag, -, -⟩ := RwLock.view_eq h.abs.image
    obtain ⟨u, hu⟩ := Multiset.exists_mem_of_ne_zero hne
    refine .inr ⟨hk, hflag, u, ?_⟩
    rw [h.abs.holds]
    exact Multiset.count_pos.mpr hu

/-- **No wake-up is lost**: with fewer than `2 ^ 16` threads and outstanding acquisitions and any spurious
wake-ups, whoever is blocked without a notification has a reason in every state reached. -/
theorem recRwLock_wakeUps (hcard : Fintype.card τ < 2 ^ 16)
    (h : (recMachine τ spurious).ReachableUnder (fun s a => staysFew spurious s a = true) s) :
    WakeOk s := by
  obtain ⟨A, hA⟩ := wakeInv_reachable hcard h
  refine ⟨fun t reads writes hw => ?_, fun t reads writes hw => ?_⟩
  · rcases hA.heldBy hw with hheld | ⟨hk, -⟩
    · exact hheld
    · cases hk
  · rcases hA.heldBy hw with hheld | ⟨-, hheld⟩
    · exact .inr hheld
    · exact .inl hheld

/-- A writer waits for two holds of a reader; a second writer waits too, is woken without a
notification and waits again. -/
theorem recRwLock_wakeUps_trace :
    ∃ s : RecConfig (Fin 3), WakeOk s ∧ s.mem.nLocks = 1 ∧
      s.thr 1 = .waiting () (.wait .writer 0 0) ∧ s.thr 2 = .waiting () (.wait .writer 0 0) := by
  have hrun : ((recMachine (Fin 3) true).execUnder (staysFew true) (freshLock (Fin 3))
      [.run 0 (.lock .reader) [], .run 0 (.lock .reader) [], .run 1 (.lock .writer) [],
        .run 2 (.lock .writer) [], .spurious 2, .run 0 .unlock [], .run 2 .unlock []]).holds
      (fun s => decide (s.mem.nLocks = 1 ∧ s.thr 1 = .waiting () (.wait .writer 0 0) ∧
        s.thr 2 = .waiting () (.wait .writer 0 0))) = true := by
    decide +kernel
  obtain ⟨s, hs, hp⟩ := Outcome.holds_iff.mp hrun
  have hreach := Machine.reachableUnder_of_execUnder
    (.init (show (recMachine (Fin 3) true).init (freshLock (Fin 3)) from rfl)) hs
  exact ⟨s, recRwLock_wakeUps (by decide) hreach, of_decide_eq_true hp⟩

end RecLocks
end MultithreadingBible
