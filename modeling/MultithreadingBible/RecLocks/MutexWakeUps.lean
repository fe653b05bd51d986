import MultithreadingBible.RecLocks.Mutex

/-!
# Recursive mutex: wake-ups

The last unlock signals one waiter, if `n_waited` is not zero, and a newcomer may take the mutex before
that waiter runs and send it back to sleep.  `recMutex_wakeUps` says that the signal is always renewed:
while the mutex is free and somebody is blocked without a notification, another waiter has been notified
and is still to resume.

The mutex is free only from a last unlock to the next step of a thread, which takes it; so all that has
to be shown is that the last unlock finds an exact `n_waited` (`MutexWakeInv`).
-/

namespace MultithreadingBible
namespace RecLocks

open Lib

variable {τ : Type*} [DecidableEq τ] [Fintype τ]

/-- In the wait of `rec_mutex_lock`. -/
def MutexLoc.isWait : MutexLoc → Bool
  | .wait _ _ => true
  | .ready _ _ => false

@[simp] theorem MutexLoc.isWait_wait (locks unlocks : Nat) :
    (MutexLoc.wait locks unlocks).isWait = true := rfl

@[simp] theorem MutexLoc.isWait_ready (locks unlocks : Nat) :
    (MutexLoc.ready locks unlocks).isWait = false := rfl

/-- Blocked on `cv`, or notified there and not resumed. -/
def inWait (st : Status Unit MutexLoc) : Bool := st.isWaiting || st.isNotified

/-- The number of threads in the wait. -/
def waiterCount (s : MutexConfig τ) : Nat := tally s.thr fun l => l.isWait.toNat

/-- The moving thread does not lock the mutex at the depth 65535, and does not become the waiter number
65536. -/
def staysCounted (spurious : Bool) (s : MutexConfig τ) (a : Act τ MutexCall) : Bool :=
  notTooDeep s a &&
    match (mutexProgram τ spurious).step s a with
    | .next s' => decide (waiterCount s' < 65536)
    | _ => true

/-- No wake-up is lost, and `n_waited` counts the waiters. -/
structure MutexWakeOk (s : MutexConfig τ) : Prop where
  renewed : s.mem.n = 0 → ∀ t l, s.thr t = .waiting () l →
    ∃ u locks unlocks, u ≠ t ∧ s.thr u = .notified () (.wait locks unlocks)
  nWaited : s.mem.nWaited = statusCount s.thr inWait

section Invariant

variable {spurious : Bool} {s s' : MutexConfig τ} {t : τ} {x : MutexCall} {notes : List (Note Unit)}
  {st : Status Unit MutexLoc}

/-- Whoever sleeps is in the wait of `rec_mutex_lock`, and nobody else is. -/
def Parked (st : Status Unit MutexLoc) : Prop := st.loc.isWait = inWait st

/-- The invariant: exact `n_waited`, and a free mutex has somebody on the way to it. -/
structure MutexWakeInv (s : MutexConfig τ) : Prop where
  base : MutexInv s
  counted : s.mem.nWaited = waiterCount s
  parked : ∀ t, Parked (s.thr t)
  renewed : s.mem.n = 0 → (∃ t l, s.thr t = .waiting () l) → ∃ u l, s.thr u = .notified () l

omit [DecidableEq τ] in
theorem MutexWakeInv.init : MutexWakeInv (freshMutex τ) where
  base := ⟨rfl, .free rfl rfl fun _ => rfl⟩
  counted := (tally_eq_zero.mpr fun _ => rfl).symm
  parked _ := rfl
  renewed := by
    intro _ hblocked
    obtain ⟨t, l, ht⟩ := hblocked
    cases ht

theorem waiterCount_ran (h : (mutexProgram τ spurious).Ran s t x s' notes st) :
    waiterCount s' + (s.thr t).loc.isWait.toNat = waiterCount s + st.loc.isWait.toNat :=
  h.tally fun l => l.isWait.toNat

omit [DecidableEq τ] in
/-- A thread that asks has counted itself out. -/
theorem MutexWakeInv.waitedFrom (h : MutexWakeInv s) (t : τ) :
    s.mem.waitedFrom (s.thr t).loc + (s.thr t).loc.isWait.toNat = waiterCount s := by
  have hpos := le_tally s.thr (fun l => l.isWait.toNat) t
  have hcount := h.counted
  cases hl : (s.thr t).loc with
  | ready locks unlocks => exact hcount
  | wait locks unlocks =>
      rw [hl] at hpos
      show countDown 16 s.mem.nWaited + 1 = waiterCount s
      have hone : 1 ≤ waiterCount s := hpos
      rw [countDown_eq (by omega)]
      omega

theorem parked_ran (h : MutexWakeInv s) (hran : (mutexProgram τ spurious).Ran s t x s' notes st)
    (hst : Parked st) (u : τ) : Parked (s'.thr u) :=
  hran.forall_status (p := fun _ => Parked) h.parked hst (fun _ _ _ hp => hp) u

/-- A mutex that is taken owes nobody a notification. -/
theorem MutexWakeInv.taken (h : MutexWakeInv s) (hbase : MutexInv s')
    (hran : (mutexProgram τ spurious).Ran s t x s' notes st) (hst : Parked st)
    (hcounted : s'.mem.nWaited = waiterCount s') (hn : s'.mem.n ≠ 0) : MutexWakeInv s' :=
  ⟨hbase, hcounted, parked_ran h hran hst, fun hzero => absurd hzero hn⟩

/-- The last unlock signals if anybody waits. -/
theorem MutexWakeInv.lastUnlock (h : MutexWakeInv s) (hbase : MutexInv s') {locks unlocks : Nat}
    (hl : (s.thr t).loc.isWait = false)
    (hran : (mutexProgram τ spurious).Ran s t x s' (if s.mem.nWaited != 0 then [.signal ()] else [])
      (.running (.ready locks unlocks)))
    (hw : s'.mem.nWaited = s.mem.nWaited) : MutexWakeInv s' := by
  have hnew := waiterCount_ran hran
  rw [hl, Status.loc_running, MutexLoc.isWait_ready] at hnew
  refine ⟨hbase, ?_, parked_ran h hran rfl, fun _ hblocked => ?_⟩
  · rw [hw, h.counted]
    simpa using hnew.symm
  · obtain ⟨u, l, hu⟩ := hblocked
    have hut : u ≠ t := by
      rintro rfl
      rw [hran.self] at hu
      cases hu
    have hold := hran.waiting_of_ne hut hu
    have hsome : s.mem.nWaited ≠ 0 := by
      rw [h.counted]
      apply Nat.ne_of_gt
      apply tally_pos.mpr
      refine ⟨u, ?_⟩
      have hp := h.parked u
      rw [Parked, hold] at hp
      rw [hold, hp]
      exact Nat.one_pos
    have hsignal : Note.signal () ∈ (if s.mem.nWaited != 0 then [Note.signal ()] else []) := by
      rw [if_pos (bne_iff_ne.mpr hsome)]
      exact List.mem_singleton.mpr rfl
    -- as somebody waits, the signal reaches somebody
    obtain ⟨v, l', -, -, hv⟩ := hran.signal hsignal ⟨u, l, hold⟩
    exact ⟨v, l', hv⟩

/-- **Every step within the bounds keeps the invariant.** -/
theorem MutexWakeInv.step (h : MutexWakeInv s) {picks : List (Option τ)}
    (hdeep : notTooDeep s (.run t x picks) = true) (hfew : waiterCount s' < 2 ^ 16)
    (hran : (mutexProgram τ spurious).Ran s t x s' notes st) : MutexWakeInv s' := by
  have hbase := h.base.step hdeep hran
  have hexec : mutexExec t (s.thr t).loc x s.mem = .done s'.mem notes st := hran.exec
  have hold := h.waitedFrom t
  have hnew := waiterCount_ran hran
  cases h.base.ownership with
  | free howner hn hout =>
      -- whoever asks takes the free mutex
      rcases mutexExec_free (t := t) (x := x) h.base.kept howner hn (hout t) with hb | hd
      · rw [hb] at hexec
        cases hexec
      · rw [hd, Effect.done.injEq] at hexec
        obtain ⟨hm, -, rfl⟩ := hexec
        apply h.taken hbase hran rfl
        · rw [← hm]
          show s.mem.waitedFrom (s.thr t).loc = waiterCount s'
          rw [Status.loc_running, MutexLoc.isWait_ready, Bool.toNat_false] at hnew
          omega
        · rw [← hm]
          exact Nat.one_ne_zero
  | @owned owner locks unlocks howner hready hn hpos hlt hout =>
      by_cases hown : t = owner
      · subst hown
        rw [hready] at hexec hnew
        cases x with
        | lock =>
            -- one level deeper
            rw [mutexExec_again h.base.kept howner hpos, Effect.done.injEq] at hexec
            obtain ⟨hm, -, rfl⟩ := hexec
            have hroom : s.mem.n + 1 < 2 ^ 16 := by
              simp only [notTooDeep, hready, decide_eq_true_eq] at hdeep
              omega
            apply h.taken hbase hran rfl
            · rw [← hm]
              show s.mem.nWaited = waiterCount s'
              rw [h.counted]
              exact hnew.symm
            · rw [← hm]
              show countUp 16 s.mem.n ≠ 0
              rw [countUp_eq hroom]
              exact Nat.succ_ne_zero _
        | unlock =>
            -- one level back, unless it was the last
            rw [mutexExec_unlock h.base.kept howner hpos (by omega)] at hexec
            split at hexec
            case isTrue hmore =>
              rw [Effect.done.injEq] at hexec
              obtain ⟨hm, -, rfl⟩ := hexec
              apply h.taken hbase hran rfl
              · rw [← hm]
                show s.mem.nWaited = waiterCount s'
                rw [h.counted]
                exact hnew.symm
              · rw [← hm]
                show s.mem.n - 1 ≠ 0
                omega
            case isFalse hlast =>
              rw [Effect.done.injEq] at hexec
              obtain ⟨hm, rfl, rfl⟩ := hexec
              exact h.lastUnlock hbase (by rw [hready]; rfl) hran (by rw [← hm])
      · rcases mutexExec_other (x := x) h.base.kept howner (Ne.symm hown) hpos (hout t hown) with
          hb | hd
        -- a thread that does not own the mutex goes to sleep, or back to sleep
        · rw [hb] at hexec
          cases hexec
        · rw [hd, Effect.done.injEq] at hexec
          obtain ⟨hm, -, rfl⟩ := hexec
          apply h.taken hbase hran rfl
          · rw [← hm]
            show countUp 16 (s.mem.waitedFrom (s.thr t).loc) = waiterCount s'
            rw [Status.loc_waiting, MutexLoc.isWait_wait, Bool.toNat_true] at hnew
            rw [countUp_eq (by omega)]
            omega
          · rw [← hm]
            exact Nat.ne_of_gt hpos

/-- A spurious wake-up is as good as a notification. -/
theorem MutexWakeInv.woken (h : MutexWakeInv s) {c : Unit} {l : MutexLoc}
    (hw : s.thr t = .waiting c l) :
    MutexWakeInv ⟨s.mem, Function.update s.thr t (.notified c l)⟩ := by
  refine ⟨h.base.woken hw, ?_, ?_, fun _ _ => ⟨t, l, Function.update_self _ _ _⟩⟩
  · rw [waiterCount, tally_congr (loc_update_notified hw)]
    exact h.counted
  · exact forall_status_of_woken (p := fun _ => Parked) hw h.parked fun _ _ _ hp => hp

theorem mutexWakeInv_reachable
    (h : (mutexMachine τ spurious).ReachableUnder (fun s a => staysCounted spurious s a = true) s) :
    MutexWakeInv s := by
  apply h.invariant
  · intro s hs
    rw [show s = freshMutex τ from hs]
    exact .init
  · intro s a s' hinv hcond hstep
    rw [staysCounted, Bool.and_eq_true] at hcond
    obtain ⟨hdeep, hfew⟩ := hcond
    cases a with
    | run t x picks =>
        rw [show (mutexProgram τ spurious).step s (.run t x picks) = .next s' from hstep] at hfew
        obtain ⟨notes, st, hran⟩ := Program.ran_of_step hstep
        exact hinv.step hdeep (of_decide_eq_true hfew) hran
    | spurious t =>
        obtain ⟨-, c, l, hw, rfl⟩ := Program.spurious_of_step hstep
        exact hinv.woken hw

/-- **No wake-up is lost**: in every run with fewer than `2 ^ 16` nested locks and waiters and any
spurious wake-ups, a free mutex for which somebody is blocked has another waiter on the way, and
`n_waited` is the number of waiters. -/
theorem recMutex_wakeUps
    (h : (mutexMachine τ spurious).ReachableUnder (fun s a => staysCounted spurious s a = true) s) :
    MutexWakeOk s := by
  have hinv := mutexWakeInv_reachable h
  refine ⟨fun hn t l ht => ?_, ?_⟩
  · obtain ⟨u, l', hu⟩ := hinv.renewed hn ⟨t, l, ht⟩
    have hp := hinv.parked u
    rw [Parked, hu] at hp
    have hut : u ≠ t := by
      rintro rfl
      rw [ht] at hu
      cases hu
    cases l' with
    | ready locks unlocks => cases hp
    | wait locks unlocks => exact ⟨u, locks, unlocks, hut, hu⟩
  · rw [hinv.counted, waiterCount, ← card_filter_loc, statusCount]
    congr 1
    ext u
    simp only [Finset.mem_filter, Finset.mem_univ, true_and]
    rw [hinv.parked u]

/-- Two threads wait when the mutex becomes free; the owner takes it again before the one that was
signalled resumes, which goes back to sleep, and then gives it back. -/
theorem recMutex_wakeUps_trace :
    ∃ s : MutexConfig (Fin 3), MutexWakeOk s ∧ s.mem.n = 0 ∧ s.mem.nWaited = 2 ∧
      s.thr 1 = .waiting () (.wait 0 0) ∧ s.thr 2 = .notified () (.wait 0 0) := by
  have hrun : ((mutexMachine (Fin 3) true).execUnder (staysCounted true) (freshMutex (Fin 3))
      [.run 0 .lock [], .run 1 .lock [], .run 2 .lock [], .run 0 .unlock [some 1], .run 0 .lock [],
        .run 1 .lock [], .run 0 .unlock [some 2]]).holds (fun s =>
        decide (s.mem.n = 0 ∧ s.mem.nWaited = 2 ∧ s.thr 1 = .waiting () (.wait 0 0) ∧
          s.thr 2 = .notified () (.wait 0 0))) = true := by
    decide +kernel
  obtain ⟨s, hs, hp⟩ := Outcome.holds_iff.mp hrun
  have hreach := Machine.reachableUnder_of_execUnder
    (.init (show (mutexMachine (Fin 3) true).init (freshMutex (Fin 3)) from rfl)) hs
  exact ⟨s, recMutex_wakeUps hreach, of_decide_eq_true hp⟩

end Invariant

end RecLocks
end MultithreadingBible
