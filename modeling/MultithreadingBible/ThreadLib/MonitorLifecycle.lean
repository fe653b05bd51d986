import MultithreadingBible.ThreadLib.MonitorSafety

/-!
# Monitors: when one is freed

`is_deleted` is set by every release that leaves the monitor idle, whether it was shut down or not, and
whoever reads it afterwards frees the monitor.  `monitor_lifecycle` collects what has to be true of
those releases, and of the calls afterwards, so that the monitor is freed once, after its shutdown, and
not touched any more.

The invariant follows the monitor through three stages: in use, deleted with the last user about to free
it, and freed (`LifeStage`).
-/

namespace MultithreadingBible
namespace ThreadLib

open Lib GlueThread

variable {τ : Type*} [DecidableEq τ] [Fintype τ]

/-- Inside a call, but not in one of its critical sections. -/
def MonitorLoc.isBetween : MonitorLoc → Bool
  | .admission _ | .informed => true
  | _ => false

/-- In possession of a grant, in a wait queue, or past the shutdown test on the way there. -/
def MonitorLoc.isUser : MonitorLoc → Bool
  | .admission _ | .wait _ | .holds _ => true
  | _ => false

/-- A release leaves the monitor idle only after a shutdown and while no other call is between two
critical sections; turned-away threads do not release; and no call starts once the monitor was freed. -/
def endsOrderly (s : MonitorConfig τ) : Act τ MonitorCall → Bool
  | .run t _ _ =>
      match (s.thr t).loc with
      | .holds k =>
          let m := s.mem.monitor
          m.nCurr k != 1 || (m.waitQ .writer).threadWaitCount != 0 ||
            (m.waitQ .reader).threadWaitCount != 0 ||
            (m.shutdown && decide (∀ u, u ≠ t → (s.thr u).loc.isBetween = false) &&
              decide (∀ k, waiters s k < 2 ^ 32))
      | .turnedAway _ => false
      | .idle => s.mem.freed == 0
      | _ => true
  | .spurious _ => true

/-- The monitor is freed once, after its shutdown and its last user, and not touched any more. -/
structure LifecycleOk (s : MonitorConfig τ) : Prop where
  deleted : s.mem.monitor.isDeleted = true →
    s.mem.monitor.shutdown = true ∧ ∀ t, (s.thr t).loc.isUser = false
  freed : s.mem.freed ≤ 1
  freed_deleted : s.mem.freed = 1 → s.mem.monitor.isDeleted = true
  untouched : s.mem.touched = false

/-- Where a thread can be once the monitor is deleted. -/
def MonitorLoc.isOut : MonitorLoc → Bool
  | .idle | .turnedAway _ => true
  | _ => false

/-- The stages of a monitor. -/
inductive LifeStage (s : MonitorConfig τ) : Prop
  | inUse (deleted : s.mem.monitor.isDeleted = false) (freed : s.mem.freed = 0)
  | last (r : τ) (deleted : s.mem.monitor.isDeleted = true) (freed : s.mem.freed = 0)
      (shutdown : s.mem.monitor.shutdown = true) (self : (s.thr r).loc = .informed)
      (others : ∀ u, u ≠ r → (s.thr u).loc.isOut = true)
  | gone (deleted : s.mem.monitor.isDeleted = true) (freed : s.mem.freed = 1)
      (shutdown : s.mem.monitor.shutdown = true) (all : ∀ u, (s.thr u).loc.isOut = true)

section Steps

variable {compFn : MonitorAddr τ → MonitorAddr τ → Int} {spurious strict : Bool}
  {maxLimit : ThreadOp → Nat} {maxReaders maxWriters : UInt16} {s s' : MonitorConfig τ} {t u : τ}
  {x : MonitorCall} {l : MonitorLoc} {k : ThreadOp} {m m₁ m' : MonitorMem τ}
  {notes : List (Note (WqCv (MonitorAddr τ)))} {st : Status (WqCv (MonitorAddr τ)) MonitorLoc}

theorem MonitorLoc.not_isUser_of_isOut (h : l.isOut = true) : l.isUser = false := by
  cases l <;> first | rfl | cases h

omit [Fintype τ] in
theorem LifeStage.ok (h : LifeStage s) (htouched : s.mem.touched = false) : LifecycleOk s := by
  cases h with
  | inUse deleted freed =>
      refine ⟨fun hdel => ?_, by omega, fun hfreed => ?_, htouched⟩
      · rw [deleted] at hdel
        cases hdel
      · rw [freed] at hfreed
        cases hfreed
  | last r deleted freed shutdown self others =>
      refine ⟨fun _ => ⟨shutdown, fun u => ?_⟩, by omega, fun _ => deleted, htouched⟩
      by_cases hu : u = r
      · rw [hu, self]
        rfl
      · exact MonitorLoc.not_isUser_of_isOut (others u hu)
  | gone deleted freed shutdown all =>
      exact ⟨fun _ => ⟨shutdown, fun u => MonitorLoc.not_isUser_of_isOut (all u)⟩, by omega,
        fun _ => deleted, htouched⟩

theorem countGrant_isDeleted (m : Monitor) (k : ThreadOp) :
    (m.countGrant k).isDeleted = m.isDeleted := by
  unfold Monitor.countGrant
  dsimp only
  split <;> rfl

/-- Only a release sets `is_deleted`. -/
theorem MonitorMove.isDeleted {frees : Bool} (hmove : MonitorMove compFn frees t x m l m' notes st)
    (hl : ∀ k, l ≠ .holds k ∧ l ≠ .turnedAway k) :
    m'.monitor.isDeleted = m.monitor.isDeleted := by
  cases hmove with
  | request | turnAway | leave | free => rfl
  | shutDown hx => rfl
  | block hin => exact hin.same.isDeleted
  | grant hin => exact (countGrant_isDeleted _ _).trans hin.same.isDeleted
  | @release k => exact absurd rfl (hl k).1
  | @lateRelease k => exact absurd rfl (hl k).2

/-- A release that deletes the monitor was the last one, with nobody waiting, so that its condition
leaves the other threads outside. -/
theorem MonitorInv.stage_release (h : MonitorInv maxLimit strict s) (hfreed : s.mem.freed = 0)
    (hran : (monitorProgram compFn true spurious).Ran s t x s' notes (.running .informed))
    (hl : (s.thr t).loc = .holds k) (hdeleted : s.mem.monitor.isDeleted = false)
    (hrel : monitorInformResourceReleased (Fintype.card τ) t k s.mem = some (s'.mem, notes))
    {picks : List (Option τ)} (hends : endsOrderly s (.run t x picks) = true) : LifeStage s' := by
  have hpos := grants_pos hl
  have hplace : place s t = some .active := by
    unfold place
    rw [hl]
    rfl
  obtain ⟨m', notes', hrel', hok, hcounted, hfreed', -⟩ := h.ok.release hplace hpos
  rw [hrel'] at hrel
  cases hrel
  cases hdel : s'.mem.monitor.isDeleted with
  | false => exact .inUse hdel (hfreed'.trans hfreed)
  | true =>
      rw [hcounted.isDeleted, hdeleted] at hdel
      obtain ⟨hone, hcounts⟩ := hdel.resolve_left (by simp)
      have hcond : s.mem.monitor.shutdown = true ∧
          (∀ u, u ≠ t → (s.thr u).loc.isBetween = false) ∧ ∀ k, waiters s k < 2 ^ 32 := by
        simpa [endsOrderly, hl, hone, hcounts, and_assoc] using hends
      obtain ⟨hshutdown, hbetween, hwaiters⟩ := hcond
      have hnobody : ∀ j, waiters s j = 0 := by
        intro j
        have hcount := h.ok.count j
        rw [hcounts j, Nat.mod_eq_of_lt (hwaiters j)] at hcount
        exact hcount.symm
      refine .last t (hcounted.isDeleted.mpr (.inr ⟨hone, hcounts⟩)) (hfreed'.trans hfreed)
        (hcounted.rules.shutdown.trans hshutdown) ?_ ?_
      · rw [hran.self]
        rfl
      · intro u hu
        rw [hran.loc_of_ne hu]
        cases hlu : (s.thr u).loc with
        | idle => rfl
        | turnedAway _ => rfl
        | admission _ | informed =>
            have := hbetween u hu
            rw [hlu] at this
            cases this
        | wait j =>
            have hpos := waiters_pos hlu
            rw [hnobody j] at hpos
            cases hpos
        | holds j =>
            -- the grant of `t` was the only one
            exfalso
            by_cases hj : j = k
            · rw [hj] at hlu
              have hle := add_le_tally s.thr (fun l => (l.isGranted k).toNat) (Ne.symm hu)
              rw [← grants_eq, ← h.ok.nCurr, hone, hl, hlu] at hle
              simp [MonitorLoc.isGranted] at hle
            · rw [ThreadOp.eq_other hj] at hlu
              have hpos' := grants_pos hlu
              rw [h.ok.exclusive k hpos] at hpos'
              cases hpos'

/-- **Every step keeps to the stages**, and does not touch a freed monitor. -/
theorem LifeStage.step (h : LifeStage s) (hinv : s.mem.freed = 0 → MonitorInv maxLimit strict s)
    (htouched : s.mem.touched = false)
    (hran : (monitorProgram compFn true spurious).Ran s t x s' notes st)
    {picks : List (Option τ)} (hends : endsOrderly s (.run t x picks) = true) :
    LifeStage s' ∧ s'.mem.touched = false := by
  have hlate : ∀ j, (s.thr t).loc ≠ .turnedAway j := by
    intro j hj
    simp [endsOrderly, hj] at hends
  cases h with
  | inUse deleted freed =>
      have hmove := monitorMove_of_ran hran freed
      obtain ⟨htouch, hfreed⟩ := hmove.freed
      refine ⟨?_, htouch.trans htouched⟩
      have hfreed' : s'.mem.freed = 0 := by
        rcases hfreed with hsame | ⟨-, hdel, -⟩
        · exact hsame.trans freed
        · rw [deleted] at hdel
          cases hdel
      by_cases hholds : ∃ k, (s.thr t).loc = .holds k
      · obtain ⟨k, hl⟩ := hholds
        rw [hl] at hmove
        generalize hm : s'.mem = m' at hmove
        cases hmove with
        | release hrel =>
            exact (hinv freed).stage_release freed hran hl deleted (hm ▸ hrel) hends
        | block hin => cases hin
        | grant hin => cases hin
      · exact .inUse ((hmove.isDeleted fun k =>
          ⟨fun hl => hholds ⟨k, hl⟩, hlate k⟩).trans deleted) hfreed'
  | last r deleted freed shutdown self others =>
      have hmove := monitorMove_of_ran hran freed
      refine ⟨?_, hmove.freed.1.trans htouched⟩
      by_cases htr : t = r
      · -- the last user frees the monitor
        subst htr
        rw [self] at hmove
        generalize hm : s'.mem = m' at hmove
        cases hmove with
        | free hdeleted hfrees =>
            refine .gone (by rw [hm]; exact deleted) (by rw [hm]; simp [freed])
              (by rw [hm]; exact shutdown) ?_
            intro u
            by_cases hu : u = t
            · rw [hu, hran.self]
              rfl
            · rw [hran.loc_of_ne hu]
              exact others u hu
        | leave hstays =>
            rw [deleted] at hstays
            cases hstays
        | block hin => cases hin
        | grant hin => cases hin
      · -- the others are turned away
        have hidle : (s.thr t).loc = .idle := by
          have hout := others t htr
          cases hl : (s.thr t).loc with
          | idle => rfl
          | turnedAway j => exact absurd hl (hlate j)
          | admission _ | wait _ | holds _ | informed =>
              rw [hl] at hout
              cases hout
        have hself : (s'.thr r).loc = .informed := by
          rw [hran.loc_of_ne (Ne.symm htr)]
          exact self
        have hothers : st.loc.isOut = true → ∀ u, u ≠ r → (s'.thr u).loc.isOut = true := by
          intro hst u hu
          by_cases hut : u = t
          · rw [hut, hran.self]
            exact hst
          · rw [hran.loc_of_ne hut]
            exact others u hu
        rw [hidle] at hmove
        generalize hm : s'.mem = m' at hmove
        cases hmove with
        | request hopen =>
            rw [shutdown] at hopen
            cases hopen
        | turnAway hclosed =>
            exact .last r (by rw [hm]; exact deleted) (by rw [hm]; exact freed)
              (by rw [hm]; exact shutdown) hself (hothers rfl)
        | shutDown hx =>
            exact .last r (by rw [hm]; exact deleted) (by rw [hm]; exact freed) (by rw [hm]; rfl)
              hself (hothers rfl)
        | block hin => cases hin
        | grant hin => cases hin
  | gone deleted freed shutdown all =>
      -- nobody is left who may take a step
      exfalso
      have hout := all t
      cases hl : (s.thr t).loc with
      | idle => simp [endsOrderly, hl, freed] at hends
      | turnedAway j => exact hlate j hl
      | admission _ | wait _ | holds _ | informed =>
          rw [hl] at hout
          cases hout

omit [Fintype τ] in
/-- A spurious wake-up changes no location. -/
theorem LifeStage.woken (h : LifeStage s) {c : WqCv (MonitorAddr τ)} (hw : s.thr t = .waiting c l) :
    LifeStage ⟨s.mem, Function.update s.thr t (.notified c l)⟩ := by
  have hloc : ∀ u, (Function.update s.thr t (.notified c l) u).loc = (s.thr u).loc :=
    loc_update_notified hw
  cases h with
  | inUse deleted freed => exact .inUse deleted freed
  | last r deleted freed shutdown self others =>
      refine .last r deleted freed shutdown ((hloc r).trans self) ?_
      intro u hu
      show (Function.update s.thr t _ u).loc.isOut = true
      rw [hloc]
      exact others u hu
  | gone deleted freed shutdown all =>
      refine .gone deleted freed shutdown ?_
      intro u
      show (Function.update s.thr t _ u).loc.isOut = true
      rw [hloc]
      exact all u

theorem keepsOut_of_endsOrderly {a : Act τ MonitorCall} (h : endsOrderly s a = true) :
    keepsOut s a = true := by
  cases a with
  | spurious t => rfl
  | run t x picks =>
      cases hl : (s.thr t).loc with
      | turnedAway k => simp [endsOrderly, hl] at h
      | idle | admission _ | wait _ | holds _ | informed =>
          simp [keepsOut, hl, MonitorLoc.isTurnedAway]

/-- **Life of a monitor**: in every run whose last releases come after the shutdown, with no other call
between two critical sections, without releases by turned-away threads and without late calls, the
monitor is deleted and freed once, when nobody uses it any more, and not touched afterwards. -/
theorem monitor_lifecycle
    (h : (monitorMachine compFn true spurious strict maxReaders maxWriters).ReachableUnder
      (fun s a => endsOrderly s a = true) s) : LifecycleOk s := by
  have hinv : ∀ s, (monitorMachine compFn true spurious strict maxReaders maxWriters).ReachableUnder
      (fun s a => endsOrderly s a = true) s →
      (s.mem.freed = 0 → MonitorInv (Monitor.init maxReaders maxWriters).maxLimit strict s) :=
    fun s hs => monitorInv_reachable (hs.mono fun _ _ hc => keepsOut_of_endsOrderly hc)
  have hstage : LifeStage s ∧ s.mem.touched = false := by
    apply Machine.ReachableUnder.invariant_of hinv _ _ h
    · rintro s rfl
      exact ⟨.inUse rfl rfl, rfl⟩
    · rintro s a s' hinv ⟨hstage, htouched⟩ hends hstep
      cases a with
      | run t x picks =>
          obtain ⟨notes, st, hran⟩ := Program.ran_of_step hstep
          exact hstage.step hinv htouched hran hends
      | spurious t =>
          obtain ⟨-, c, l, hw, rfl⟩ := Program.spurious_of_step hstep
          exact ⟨hstage.woken hw, htouched⟩
  exact hstage.1.ok hstage.2

end Steps

/-- Thread 0 is inside when thread 1 shuts the monitor down; it leaves and frees the monitor. -/
theorem monitor_lifecycle_trace :
    ∃ s : MonitorConfig (Fin 2), LifecycleOk s ∧ s.mem.freed = 1 := by
  have hrun : ((monitorMachine (fun _ _ => 1) true false false 2 1).execUnder
      (fun s a => endsOrderly s a) (freshMonitor (Fin 2) false 2 1)
      [.run 0 (.request .reader) [], .run 0 (.request .reader) [], .run 1 .shutDown [],
        .run 1 (.request .writer) [], .run 0 .shutDown [], .run 0 .shutDown []]).holds (fun s =>
        decide (s.mem.freed = 1)) = true := by
    decide +kernel
  obtain ⟨s, hs, hp⟩ := Outcome.holds_iff.mp hrun
  have hreach := Machine.reachableUnder_of_execUnder (.init rfl) hs
  exact ⟨s, monitor_lifecycle hreach, of_decide_eq_true hp⟩

/-- Without any shutdown the first release frees the monitor, and the next request of the same thread
touches it; two readers that leave together free it twice. -/
theorem monitor_lifecycle_fails :
    (∃ s : MonitorConfig (Fin 2), (monitorMachine (fun _ _ => 1) true false false 2 1).Reachable s ∧
      s.mem.monitor.shutdown = false ∧ s.mem.freed = 1 ∧ s.mem.touched = true) ∧
    ∃ s : MonitorConfig (Fin 3), (monitorMachine (fun _ _ => 1) true false false 2 1).Reachable s ∧
      s.mem.monitor.shutdown = true ∧ s.mem.freed = 2 := by
  have hrun : ((monitorMachine (fun _ _ => 1) true false false 2 1).exec
      (freshMonitor (Fin 2) false 2 1)
      [.run 0 (.request .reader) [], .run 0 (.request .reader) [], .run 0 (.request .reader) [],
        .run 0 (.request .reader) [], .run 0 (.request .reader) []]).holds (fun s =>
        decide (s.mem.monitor.shutdown = false ∧ s.mem.freed = 1 ∧ s.mem.touched = true)) = true := by
    decide +kernel
  have hrun' : ((monitorMachine (fun _ _ => 1) true false false 2 1).exec
      (freshMonitor (Fin 3) false 2 1)
      [.run 0 (.request .reader) [], .run 0 (.request .reader) [], .run 1 (.request .reader) [],
        .run 1 (.request .reader) [], .run 2 .shutDown [], .run 0 .shutDown [],
        .run 1 .shutDown [], .run 0 .shutDown [], .run 1 .shutDown []]).holds (fun s =>
        decide (s.mem.monitor.shutdown = true ∧ s.mem.freed = 2)) = true := by
    decide +kernel
  obtain ⟨s, hs, hp⟩ := Machine.exists_reachable_of_exec rfl hrun
  obtain ⟨s', hs', hp'⟩ := Machine.exists_reachable_of_exec rfl hrun'
  exact ⟨⟨s, hs, of_decide_eq_true hp⟩, s', hs', of_decide_eq_true hp'⟩

end ThreadLib
end MultithreadingBible
