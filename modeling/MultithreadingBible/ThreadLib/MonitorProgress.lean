import MultithreadingBible.ThreadLib.MonitorSafety

/-!
# Monitors: nobody is stuck

While nobody holds a grant and some waiting thread would be admitted, one that would be admitted has
been notified (`monitor_awake`).  It is the last release that has to see to this: it signals a thread of
its own kind if one waits, and notifies all of the other kind only if none does.  Under strict
alternation its own kind is exactly the one that is not admitted next, so that a release with waiters
of both kinds wakes the wrong one (`monitor_stuck`).
-/

namespace MultithreadingBible
namespace ThreadLib

open Lib GlueThread

variable {τ : Type*}

/-- In a wait queue although the monitor would admit it. -/
def admissible (s : MonitorConfig τ) (t : τ) : Prop :=
  ∃ k, (s.thr t).loc = .wait k ∧ s.mem.monitor.isResourceAvailable k = true

/-- If nobody holds a grant and a waiting thread would be admitted, one that would be was notified. -/
def NotStuck (s : MonitorConfig τ) : Prop :=
  (∀ k, s.mem.monitor.nCurr k = 0) → (∃ t, admissible s t) →
    ∃ t, admissible s t ∧ (s.thr t).isNotified = true

/-- A thread of kind `j` may be admitted next when the last thread of kind `k` leaves. -/
def Monitor.mayFollow (m : Monitor) (k j : ThreadOp) : Bool := !m.strictAlternation || j != k

/-- Waiting, and of a kind that may be admitted when the last thread of kind `k` leaves. -/
def MonitorLoc.waitsToFollow (m : Monitor) (k : ThreadOp) : MonitorLoc → Bool
  | .wait j => m.mayFollow k j
  | _ => false

section Condition

variable [Fintype τ]

/-- A release that leaves nobody inside notifies threads that may be admitted next, unless there are
none or one of them was notified before. -/
def wakesFollower (s : MonitorConfig τ) : Act τ MonitorCall → Bool
  | .run t _ _ =>
      match (s.thr t).loc with
      | .holds k =>
          let m := s.mem.monitor
          let own := (m.waitQ k).threadWaitCount
          let others := (m.waitQ k.other).threadWaitCount
          m.nCurr k != 1 || (own != 0 && !m.strictAlternation) || (own == 0 && others != 0) ||
            decide (∀ u, (s.thr u).loc.waitsToFollow m k = false) ||
            decide (∃ u, (s.thr u).loc.waitsToFollow m k = true ∧ (s.thr u).isNotified = true)
      | _ => true
  | .spurious _ => true

end Condition

section Steps

variable {compFn : MonitorAddr τ → MonitorAddr τ → Int} {frees spurious strict : Bool}
  {maxLimit : ThreadOp → Nat} {maxReaders maxWriters : UInt16} {s s' : MonitorConfig τ} {t u : τ}
  {x : MonitorCall} {l : MonitorLoc} {k j : ThreadOp} {m m₁ : MonitorMem τ}
  {notes : List (Note (WqCv (MonitorAddr τ)))} {st : Status (WqCv (MonitorAddr τ)) MonitorLoc}

theorem place_wait (hu : (s.thr u).loc = .wait k) : place s u = some (.queue k) := by
  unfold place
  rw [hu]
  rfl

theorem loc_of_place (hu : place s u = some (.queue k)) : (s.thr u).loc = .wait k := by
  unfold place at hu
  cases hl : (s.thr u).loc with
  | wait k' =>
      rw [hl] at hu
      cases hu
      rfl
  | idle | admission _ | holds _ | turnedAway _ | informed =>
      rw [hl] at hu
      cases hu

theorem not_admissible_of_loc (hl : (s.thr t).loc.list = none) : ¬ admissible s t := by
  rintro ⟨k, hk, -⟩
  rw [hk] at hl
  cases hl

/-- A step after which somebody holds a grant. -/
theorem notStuck_of_holder (hpos : 0 < s.mem.monitor.nCurr k) : NotStuck s :=
  fun hnone _ => absurd (hnone k) (Nat.ne_of_gt hpos)

variable [Fintype τ]

/-- A waiting thread that was not notified waits on its own condition variable. -/
theorem MonitorInv.waiting_of_wait (h : MonitorInv maxLimit strict s)
    (hu : (s.thr u).loc = .wait k) (hno : (s.thr u).isNotified = false) :
    s.thr u = .waiting (.thread (.waitGlue u)) (.wait k) := by
  have hp := h.placed u
  cases hthr : s.thr u with
  | running l =>
      rw [hthr] at hp hu
      exact absurd hu (hp k)
  | waiting c l =>
      rw [hthr] at hp hu
      rw [hp.1, show l = .wait k from hu]
  | notified c l =>
      rw [hthr] at hno
      cases hno

/-- The first thread in the list of a queue that counts threads is one of those that wait. -/
theorem MonitorInv.exists_first (h : MonitorInv maxLimit strict s)
    (hcount : (s.mem.monitor.waitQ k).threadWaitCount ≠ 0) : ∃ v, (s.thr v).loc = .wait k := by
  have hpos : 0 < waiters s k := by
    by_contra hzero
    rw [h.ok.count, Nat.eq_zero_of_not_pos hzero] at hcount
    exact hcount rfl
  rw [waiters_eq, tally_pos] at hpos
  obtain ⟨v, hv⟩ := hpos
  refine ⟨v, ?_⟩
  cases hl : (s.thr v).loc with
  | wait k' =>
      rw [hl, MonitorLoc.isWait_wait] at hv
      by_cases hk : k = k'
      · rw [hk]
      · simp [hk] at hv
  | idle | admission _ | holds _ | turnedAway _ | informed =>
      rw [hl] at hv
      cases hv

/-- A release with waiters of its own kind signals the first of them. -/
theorem MonitorOk.signal_own {place : τ → Option MonitorList} {granted waiting : ThreadOp → Nat}
    (h : MonitorOk m place granted waiting) (hcount : (m.monitor.waitQ k).threadWaitCount ≠ 0)
    (hex : ∃ u, place u = some (.queue k))
    (hnotes : releaseNotes (Fintype.card τ) k m.monitor m.heap = some notes) :
    ∃ v, place v = some (.queue k) ∧ .signal (.thread (.waitGlue v)) ∈ notes := by
  obtain ⟨L, hforest, hmem⟩ := h.list
  obtain ⟨u, hu⟩ := hex
  have hin := (hmem u _).mpr hu
  have hbase := hforest.base_head (.queue k)
  cases hL : L (.queue k) with
  | nil =>
      rw [hL] at hin
      cases hin
  | cons a as =>
      obtain ⟨v, rfl⟩ := hforest.sub (.queue k) a (by rw [hL]; exact List.mem_cons_self)
      refine ⟨v, (hmem v _).mp (by rw [hL]; exact List.mem_cons_self), ?_⟩
      rw [hL, List.head?_cons] at hbase
      simp only [releaseNotes, bne_iff_ne, ne_eq, hcount, not_false_eq_true, if_true,
        Option.some.injEq] at hnotes
      rw [← hnotes]
      simp [waitQueueSignal, hcount, h.flag, hbase]

variable [DecidableEq τ]

/-- A signal of a waiting thread's own condition variable leaves it notified. -/
theorem MonitorInv.notified_of_signal (h : MonitorInv maxLimit strict s)
    (hran : (monitorProgram compFn frees spurious).Ran s t x s' notes st) (hut : u ≠ t)
    (hu : (s.thr u).loc = .wait k) (hsignal : .signal (.thread (.waitGlue u)) ∈ notes) :
    (s'.thr u).isNotified = true := by
  by_cases hnotified : (s.thr u).isNotified = true
  · obtain ⟨c, l, hthr⟩ := Status.isNotified_iff.mp hnotified
    rw [hran.notified_of_ne hut hthr]
    rfl
  · have hw := h.waiting_of_wait hu (by simpa using hnotified)
    obtain ⟨v, l, -, hv, hv'⟩ := hran.signal hsignal ⟨u, _, hw⟩
    -- nobody else waits on this condition variable
    have hvu : v = u := by
      have hp := h.placed v
      rw [hv] at hp
      have := hp.1
      simpa using this.symm
    rw [← hvu, hv']
    rfl

theorem notified_of_ne (hran : (monitorProgram compFn frees spurious).Ran s t x s' notes st)
    (hut : u ≠ t) (hu : (s.thr u).isNotified = true) : (s'.thr u).isNotified = true := by
  obtain ⟨c, l, hthr⟩ := Status.isNotified_iff.mp hu
  rw [hran.notified_of_ne hut hthr]
  rfl

/-- A last release without waiters of its own kind notifies all of the other kind. -/
theorem MonitorOk.broadcast_other {place : τ → Option MonitorList} {granted waiting : ThreadOp → Nat}
    (h : MonitorOk m place granted waiting) (hown : (m.monitor.waitQ k).threadWaitCount = 0)
    (hlast : m.monitor.nCurr k = 0)
    (hothers : (m.monitor.waitQ k.other).threadWaitCount ≠ 0)
    (hnotes : releaseNotes (Fintype.card τ) k m.monitor m.heap = some notes)
    (hu : place u = some (.queue k.other)) : .signal (.thread (.waitGlue u)) ∈ notes := by
  obtain ⟨L, hforest, hmem⟩ := h.list
  have hiter := hforest.iterate (MonitorOk.length_le hforest (.queue k.other))
  simp only [releaseNotes, hown, hlast, bne_self_eq_false, Bool.false_eq_true, if_false,
    beq_self_eq_true, Bool.true_and, bne_iff_ne, ne_eq, hothers, not_false_eq_true, if_true,
    waitQueueBroadcast, beq_iff_eq, h.flag, Bool.not_true, Bool.false_and, hiter, Option.map_some,
    Option.some.injEq] at hnotes
  rw [← hnotes]
  exact List.mem_map.mpr ⟨_, (hmem u _).mpr hu, rfl⟩

/-- Nothing changes for the waiting threads if the others keep their places and nobody of them loses a
notification. -/
theorem NotStuck.of_others (h : NotStuck s)
    (hran : (monitorProgram compFn frees spurious).Ran s t x s' notes st)
    (hnCurr : s'.mem.monitor.nCurr = s.mem.monitor.nCurr)
    (havail : ∀ k, s'.mem.monitor.isResourceAvailable k = s.mem.monitor.isResourceAvailable k)
    (hbefore : ¬ admissible s t) (hafter : ¬ admissible s' t) : NotStuck s' := by
  have hiff : ∀ u, u ≠ t → (admissible s' u ↔ admissible s u) := by
    intro u hu
    unfold admissible
    rw [hran.loc_of_ne hu]
    simp only [havail]
  intro hnone hex
  rw [hnCurr] at hnone
  obtain ⟨u, hu⟩ := hex
  have hut : u ≠ t := by
    rintro rfl
    exact hafter hu
  obtain ⟨v, hv, hnotified⟩ := h hnone ⟨u, (hiff u hut).mp hu⟩
  have hvt : v ≠ t := by
    rintro rfl
    exact hbefore hv
  exact ⟨v, (hiff v hvt).mpr hv, notified_of_ne hran hvt hnotified⟩

/-- When the last thread has left, those are admitted next that may follow it. -/
theorem MonitorInv.admissible_iff_of_last (h : MonitorInv maxLimit strict s)
    (hran : (monitorProgram compFn frees spurious).Ran s t x s' notes (.running .informed))
    (hl : (s.thr t).loc = .holds k) (hlimit : ∀ j, 0 < maxLimit j)
    (hcounted : CountedRelease s.mem.monitor s'.mem.monitor k)
    (hone : s.mem.monitor.nCurr k = 1) (hnone : ∀ j, s'.mem.monitor.nCurr j = 0) (u : τ) :
    admissible s' u ↔ (s.thr u).loc.waitsToFollow s.mem.monitor k = true := by
  have hstatus : s'.mem.monitor.resourceStatus = .available := by
    rw [hcounted.status, if_pos hone]
  have hlast : s'.mem.monitor.whoAccessedCsLast = some k := by
    rw [hcounted.last]
    exact h.ok.last k (grants_pos hl)
  have havail : ∀ j, s'.mem.monitor.isResourceAvailable j = s.mem.monitor.mayFollow k j := by
    intro j
    have hlt : s'.mem.monitor.nCurr j < s'.mem.monitor.maxLimit j := by
      rw [hnone j, hcounted.rules.maxLimit, h.maxLimit]
      exact hlimit j
    unfold Monitor.isResourceAvailable Monitor.mayFollow
    rw [hstatus, hcounted.rules.strict, hlast]
    cases s.mem.monitor.strictAlternation with
    | false => simp [hlt]
    | true => cases k <;> cases j <;> simp [hlt, ThreadOp.other]
  unfold admissible
  by_cases hut : u = t
  · rw [hut, hran.self, hl]
    simp [MonitorLoc.waitsToFollow]
  · rw [hran.loc_of_ne hut]
    cases hlu : (s.thr u).loc with
    | wait j => simp [MonitorLoc.waitsToFollow, havail]
    | idle | admission _ | holds _ | turnedAway _ | informed =>
        simp [MonitorLoc.waitsToFollow]

/-- A release after which nobody is inside wakes a thread that is admitted next. -/
theorem MonitorInv.notStuck_release (h : MonitorInv maxLimit strict s)
    (hran : (monitorProgram compFn frees spurious).Ran s t x s' notes (.running .informed))
    (hl : (s.thr t).loc = .holds k) (hlimit : ∀ j, 0 < maxLimit j)
    (hrel : monitorInformResourceReleased (Fintype.card τ) t k s.mem = some (s'.mem, notes))
    {picks : List (Option τ)} (hwakes : wakesFollower s (.run t x picks) = true) : NotStuck s' := by
  have hpos := grants_pos hl
  have hplace : place s t = some .active := by
    unfold place
    rw [hl]
    rfl
  obtain ⟨m', notes', hrel', hok, hcounted, -, -, hnotes⟩ := h.ok.release hplace hpos
  rw [hrel'] at hrel
  cases hrel
  intro hnone hex
  -- the releaser was the last one inside
  have hone : s.mem.monitor.nCurr k = 1 := by
    have hk := hnone k
    rw [hcounted.nCurr, Function.update_self] at hk
    have hgrants := h.ok.nCurr k
    omega
  have hadm := h.admissible_iff_of_last hran hl hlimit hcounted hone hnone
  have hadm_wait : ∀ {u j}, (s.thr u).loc = .wait j → s.mem.monitor.mayFollow k j = true →
      admissible s' u := by
    intro u j hu hj
    rw [hadm, hu]
    exact hj
  have hplace' : ∀ {u j}, Function.update (place s) t none u = some (.queue j) →
      u ≠ t ∧ (s.thr u).loc = .wait j := by
    intro u j hu
    by_cases hut : u = t
    · rw [hut, Function.update_self] at hu
      cases hu
    · rw [Function.update_of_ne hut] at hu
      exact ⟨hut, loc_of_place hu⟩
  have hwait' : ∀ {u j}, (s.thr u).loc = .wait j →
      Function.update (place s) t none u = some (.queue j) := by
    intro u j hu
    have hut : u ≠ t := by
      rintro rfl
      rw [hl] at hu
      cases hu
    rw [Function.update_of_ne hut]
    exact place_wait hu
  have hcases : ((s.mem.monitor.waitQ k).threadWaitCount ≠ 0 ∧
        s.mem.monitor.strictAlternation = false) ∨
      ((s.mem.monitor.waitQ k).threadWaitCount = 0 ∧
        (s.mem.monitor.waitQ k.other).threadWaitCount ≠ 0) ∨
      (∀ u, (s.thr u).loc.waitsToFollow s.mem.monitor k = false) ∨
      ∃ u, (s.thr u).loc.waitsToFollow s.mem.monitor k = true ∧ (s.thr u).isNotified = true := by
    simpa [wakesFollower, hl, hone, or_assoc] using hwakes
  rcases hcases with ⟨hown, hstrict⟩ | ⟨hown, hothers⟩ | hnobody | ⟨u, hu, hnotified⟩
  · -- a thread of the own kind is signalled, and may be admitted again
    obtain ⟨u, hu⟩ := h.exists_first hown
    rw [← congrFun hcounted.waitQ k] at hown
    obtain ⟨v, hv, hsignal⟩ := hok.signal_own hown ⟨u, hwait' hu⟩ hnotes
    obtain ⟨hvt, hwait⟩ := hplace' hv
    refine ⟨v, hadm_wait hwait ?_, h.notified_of_signal hran hvt hwait hsignal⟩
    rw [Monitor.mayFollow, hstrict]
    rfl
  · -- all threads of the other kind are
    obtain ⟨v, hwait⟩ := h.exists_first hothers
    rw [← congrFun hcounted.waitQ k] at hown
    rw [← congrFun hcounted.waitQ k.other] at hothers
    have hsignal := hok.broadcast_other hown (hnone k) hothers hnotes (hwait' hwait)
    obtain ⟨hvt, -⟩ := hplace' (hwait' hwait)
    refine ⟨v, hadm_wait hwait ?_, h.notified_of_signal hran hvt hwait hsignal⟩
    rw [Monitor.mayFollow, Bool.or_eq_true, bne_iff_ne]
    exact .inr k.other_ne
  · obtain ⟨u, hu⟩ := hex
    rw [hadm, hnobody u] at hu
    cases hu
  · have hut : u ≠ t := by
      rintro rfl
      rw [hl] at hu
      cases hu
    exact ⟨u, (hadm u).mpr hu, notified_of_ne hran hut hnotified⟩

/-- **Every step leaves nobody stuck**, if the last release wakes a thread that may follow. -/
theorem MonitorInv.notStuck_step (h : MonitorInv maxLimit strict s) (hopen : MonitorOpen s)
    (hlimit : ∀ j, 0 < maxLimit j) (hstuck : NotStuck s)
    (hran : (monitorProgram compFn frees spurious).Ran s t x s' notes st)
    {picks : List (Option τ)} (hwakes : wakesFollower s (.run t x picks) = true) : NotStuck s' := by
  have hmove := monitorMove_of_ran hran hopen.freed
  -- steps that neither grant nor release change nothing for those who wait
  have hout : (s.thr t).loc.list = none → st.loc.list = none →
      s'.mem.monitor.nCurr = s.mem.monitor.nCurr →
      (∀ k, s'.mem.monitor.isResourceAvailable k = s.mem.monitor.isResourceAvailable k) →
      NotStuck s' := by
    intro hbefore hafter hnCurr havail
    refine hstuck.of_others hran hnCurr havail (not_admissible_of_loc hbefore) ?_
    apply not_admissible_of_loc
    rw [hran.self]
    exact hafter
  generalize hl : (s.thr t).loc = l at hmove hout
  generalize hm : s'.mem = m' at hmove hout
  cases hmove with
  | request | turnAway | leave => exact hout rfl rfl rfl fun _ => rfl
  | shutDown hx => exact hout rfl rfl rfl fun _ => rfl
  | free hdeleted hfrees => exact hout rfl rfl rfl fun _ => rfl
  | @block l k m₁ wq hp c hin hno hblock =>
      have havail : ∀ j, s'.mem.monitor.isResourceAvailable j =
          s.mem.monitor.isResourceAvailable j := by
        intro j
        rw [hm, ← hin.same.available j]
        rfl
      have hno' : s.mem.monitor.isResourceAvailable k = false := by
        rw [← hin.same.available k]
        exact hno
      refine hstuck.of_others hran ?_ havail ?_ ?_
      · rw [hm]
        exact hin.same.nCurr
      · -- the thread was not waiting, or for the same kind
        rintro ⟨j, hj, hyes⟩
        rw [hl] at hj
        subst hj
        cases hin
        rw [hno'] at hyes
        cases hyes
      · rintro ⟨j, hj, hyes⟩
        rw [hran.self] at hj
        cases hj
        rw [havail, hno'] at hyes
        cases hyes
  | @grant l k m₁ hin hyes =>
      obtain ⟨-, waiting₁, hok, -⟩ := h.enters (hl ▸ hin)
      obtain ⟨-, hcounted⟩ := hok.grant (t := t) (by simp) hyes
      -- the thread that was granted access is active
      have hpos : 0 < s'.mem.monitor.nCurr k := by
        rw [hm, hcounted.nCurr, Function.update_self]
        exact Nat.succ_pos _
      exact notStuck_of_holder hpos
  | release hrel => exact h.notStuck_release hran hl hlimit (hm ▸ hrel) hwakes
  | lateRelease =>
      -- without a shutdown nobody is turned away
      have := hopen.turnedAway t
      rw [hl] at this
      cases this

/-- **No stuck monitor**: in every run in which the last release of a grant wakes a thread that may be
admitted next. -/
theorem monitor_awake (hreaders : 1 ≤ maxReaders.toNat) (hwriters : 1 ≤ maxWriters.toNat)
    (h : (monitorMachine compFn false spurious strict maxReaders maxWriters).ReachableUnder
      (fun s a => noShutDown a = true ∧ wakesFollower s a = true) s) : NotStuck s := by
  have hlimit : ∀ j, 0 < (Monitor.init maxReaders maxWriters).maxLimit j := by
    intro j
    cases j with
    | reader => exact hreaders
    | writer => exact hwriters
  have hbase : ∀ s, (monitorMachine compFn false spurious strict maxReaders maxWriters).ReachableUnder
      (fun s a => noShutDown a = true ∧ wakesFollower s a = true) s →
      MonitorInv (Monitor.init maxReaders maxWriters).maxLimit strict s ∧ MonitorOpen s := by
    intro s hs
    have hs' := hs.mono fun _ _ hc => hc.1
    exact ⟨monitorInv_of_open hs', open_reachable hs'⟩
  apply Machine.ReachableUnder.invariant_of hbase _ _ h
  · rintro s rfl _ ⟨t, k, ht, -⟩
    cases ht
  · rintro s a s' ⟨hinv, hopen⟩ hstuck ⟨-, hwakes⟩ hstep
    cases a with
    | run t x picks =>
        obtain ⟨notes, st, hran⟩ := Program.ran_of_step hstep
        exact hinv.notStuck_step hopen hlimit hstuck hran hwakes
    | spurious t =>
        obtain ⟨-, c, l, hw, rfl⟩ := Program.spurious_of_step hstep
        have hadm : ∀ u, admissible ⟨s.mem, Function.update s.thr t (.notified c l)⟩ u ↔
            admissible s u := by
          intro u
          unfold admissible
          by_cases hut : u = t
          · rw [hut, hw]
            simp
          · simp [hut]
        intro hnone hex
        obtain ⟨u, hu⟩ := hex
        obtain ⟨v, hv, hnotified⟩ := hstuck hnone ⟨u, (hadm u).mp hu⟩
        refine ⟨v, (hadm v).mpr hv, ?_⟩
        by_cases hvt : v = t
        · rw [hvt]
          simp [Status.isNotified]
        · simpa [hvt] using hnotified

end Steps

/-- Under strict alternation the last reader leaves, with a writer waiting. -/
theorem monitor_awake_trace :
    ∃ s : MonitorConfig (Fin 2), NotStuck s ∧ s.mem.monitor.nCurr .reader = 0 ∧
      s.thr 1 = .notified (.thread (.waitGlue 1)) (.wait .writer) := by
  have hrun : ((monitorMachine (fun _ _ => 1) false false true 1 1).execUnder
      (fun s a => noShutDown a && wakesFollower s a) (freshMonitor (Fin 2) true 1 1)
      [.run 0 (.request .reader) [], .run 0 (.request .reader) [], .run 1 (.request .writer) [],
        .run 1 (.request .writer) [], .run 0 (.request .reader) [some 1]]).holds (fun s =>
        decide (s.mem.monitor.nCurr .reader = 0 ∧
          s.thr 1 = .notified (.thread (.waitGlue 1)) (.wait .writer))) = true := by
    decide +kernel
  obtain ⟨s, hs, hp⟩ := Outcome.holds_iff.mp hrun
  have hreach := Machine.reachableUnder_of_execUnder (.init rfl) hs
  have hreach' : (monitorMachine (fun _ _ => 1) false false true 1 1).ReachableUnder
      (fun s a => noShutDown a = true ∧ wakesFollower s a = true) s :=
    hreach.mono fun _ _ hc => Bool.and_eq_true_iff.mp hc
  exact ⟨s, monitor_awake (by decide) (by decide) hreach', of_decide_eq_true hp⟩

/-- Under strict alternation the last reader wakes a reader, which is not admitted, and not the writer,
which would be. -/
theorem monitor_stuck :
    ∃ s : MonitorConfig (Fin 3),
      ((monitorMachine (fun _ _ => 1) false false true 1 1).ReachableUnder
        fun _ a => noShutDown a = true) s ∧ ¬ NotStuck s ∧
      s.thr 1 = .waiting (.thread (.waitGlue 1)) (.wait .reader) ∧
      s.thr 2 = .waiting (.thread (.waitGlue 2)) (.wait .writer) := by
  have hrun : ((monitorMachine (fun _ _ => 1) false false true 1 1).execUnder
      (fun _ a => noShutDown a) (freshMonitor (Fin 3) true 1 1)
      [.run 0 (.request .reader) [], .run 0 (.request .reader) [], .run 1 (.request .reader) [],
        .run 1 (.request .reader) [], .run 2 (.request .writer) [], .run 2 (.request .writer) [],
        .run 0 (.request .reader) [some 1], .run 0 (.request .reader) [],
        .run 1 (.request .reader) []]).holds (fun s =>
        decide ((∀ k, s.mem.monitor.nCurr k = 0) ∧
          s.mem.monitor.isResourceAvailable .writer = true ∧
          (∀ t, (s.thr t).isNotified = false) ∧
          s.thr 1 = .waiting (.thread (.waitGlue 1)) (.wait .reader) ∧
          s.thr 2 = .waiting (.thread (.waitGlue 2)) (.wait .writer))) = true := by
    decide +kernel
  obtain ⟨s, hs, hp⟩ := Outcome.holds_iff.mp hrun
  obtain ⟨hnone, havail, hall, h₁, h₂⟩ := of_decide_eq_true hp
  refine ⟨s, Machine.reachableUnder_of_execUnder (.init rfl) hs, ?_, h₁, h₂⟩
  intro hP
  obtain ⟨t, -, hnotified⟩ := hP hnone ⟨2, .writer, by rw [h₂]; rfl, havail⟩
  rw [hall t] at hnotified
  cases hnotified

end ThreadLib
end MultithreadingBible
