import MultithreadingBible.Lib.Recording
import MultithreadingBible.ThreadLib.MonitorSafety

/-!
# Monitors: strict alternation

A monitor with limits 1 and 1 can be told to alternate.  Only the decision for a free resource looks at
who had it last, so the argument needs that a resource in use admits nobody: the one grant there is fills
the limit of its kind.

* `grantOf` — the grants of a run, in order.
* `monitor_alternates` — no two consecutive grants go to threads of one kind.
-/

namespace MultithreadingBible
namespace ThreadLib

open Lib GlueThread

variable {τ : Type*} [DecidableEq τ] [Fintype τ]

/-- The grant made in a step: a thread that ends a step inside was admitted in it. -/
def grantOf (_s : MonitorConfig τ) (a : Act τ MonitorCall) (s' : MonitorConfig τ) :
    List ThreadOp :=
  match a with
  | .run t _ _ =>
      match (s'.thr t).loc with
      | .holds k => [k]
      | _ => []
  | .spurious _ => []

omit [DecidableEq τ] [Fintype τ] in
/-- The monitor of the runs below is the one `monitor_set_strict_alternation_behavior` leaves. -/
theorem setStrictAlternationBehavior_init :
    (Monitor.init 1 1).setStrictAlternationBehavior =
      some (freshMonitor τ true 1 1).mem.monitor := rfl

section Alternation

variable {compFn : MonitorAddr τ → MonitorAddr τ → Int} {frees spurious : Bool}
  {s s' : MonitorConfig τ} {t : τ} {x : MonitorCall} {l : MonitorLoc} {k : ThreadOp}
  {m m' : MonitorMem τ} {notes : List (Note (WqCv (MonitorAddr τ)))}
  {st : Status (WqCv (MonitorAddr τ)) MonitorLoc}

theorem countGrant_last (m : Monitor) (k : ThreadOp) :
    (m.countGrant k).whoAccessedCsLast = some k := by
  unfold Monitor.countGrant
  dsimp only
  split <;> rfl

theorem release_last
    (h : monitorInformResourceReleased (Fintype.card τ) t k m = some (m', notes)) :
    m'.monitor.whoAccessedCsLast = m.monitor.whoAccessedCsLast := by
  simp only [monitorInformResourceReleased, Option.bind_eq_some_iff, Option.map_eq_some_iff] at h
  obtain ⟨mon, hmon, notes', -, heq⟩ := h
  cases heq
  have hpos : 0 < m.monitor.nCurr k := by
    apply Nat.pos_of_ne_zero
    intro hzero
    simp [Monitor.countRelease, hzero] at hmon
  obtain ⟨mon', hmon', hcounted⟩ := countedRelease hpos
  rw [hmon] at hmon'
  cases hmon'
  exact hcounted.last

/-- A move either grants access, which is noted in `who_accessed_cs_last`, or leaves that field alone. -/
theorem MonitorMove.last (hmove : MonitorMove compFn frees t x m l m' notes st) :
    (∃ k, st = .running (.holds k) ∧ m'.monitor.whoAccessedCsLast = some k ∧
        m.monitor.isResourceAvailable k = true) ∨
      ((∀ k, st.loc ≠ .holds k) ∧
        m'.monitor.whoAccessedCsLast = m.monitor.whoAccessedCsLast) := by
  cases hmove with
  | @grant l k m₁ hin hyes =>
      refine .inl ⟨k, rfl, countGrant_last _ k, ?_⟩
      rw [← hin.same.available k]
      exact hyes
  | block hin => exact .inr ⟨by simp, hin.same.last⟩
  | release h => exact .inr ⟨by simp, release_last h⟩
  | lateRelease h => exact .inr ⟨by simp, release_last h⟩
  | request | turnAway | shutDown | leave | free => exact .inr ⟨by simp, rfl⟩

omit [DecidableEq τ] in
/-- With limits 1 and 1 a thread is admitted to a free resource only. -/
theorem MonitorInv.available_of_alternating
    (h : MonitorInv (Monitor.init 1 1).maxLimit true s)
    (hyes : s.mem.monitor.isResourceAvailable k = true) :
    s.mem.monitor.whoAccessedCsLast ≠ some k := by
  obtain ⟨hlt, hstatus⟩ := available_iff.mp hyes
  have hlimit : s.mem.monitor.maxLimit k = 1 := by
    rw [h.maxLimit]
    cases k <;> rfl
  -- nobody of this kind is inside, so the resource is not marked as busy with it
  have hnone : grants s k = 0 := by
    rw [← h.ok.nCurr k]
    omega
  rcases hstatus with hbusy | ⟨-, hlast⟩
  · have hpos := (h.ok.status k).mp hbusy
    omega
  · intro heq
    exact ThreadOp.other_ne k (hlast h.strict k heq).symm

/-- The grants recorded so far alternate, and the monitor knows the last one. -/
structure Alternating (s : MonitorConfig τ × List ThreadOp) : Prop where
  last : s.2.getLast? = s.1.mem.monitor.whoAccessedCsLast
  chain : s.2.IsChain (· ≠ ·)

theorem Alternating.step {log : List ThreadOp} (h : Alternating (s, log))
    (hinv : MonitorInv (Monitor.init 1 1).maxLimit true s) (hfreed : s.mem.freed = 0)
    (hran : (monitorProgram compFn frees spurious).Ran s t x s' notes st) :
    Alternating (s', log ++ grantOf s (.run t x []) s') := by
  rcases (monitorMove_of_ran hran hfreed).last with ⟨k, rfl, hlast, hyes⟩ | ⟨hno, hlast⟩
  · have hgrant : grantOf s (.run t x []) s' = [k] := by
      simp only [grantOf, hran.self, Status.loc_running]
    rw [hgrant]
    refine ⟨?_, isChain_ne_concat h.chain ?_⟩
    · rw [hlast, List.getLast?_concat]
    · rw [h.last]
      exact hinv.available_of_alternating hyes
  · have hgrant : grantOf s (.run t x []) s' = [] := by
      simp only [grantOf, hran.self]
    rw [hgrant, List.append_nil]
    exact ⟨h.last.trans hlast.symm, h.chain⟩

/-- **Strict alternation**: in every run without a shutdown, no two consecutive grants go to threads of
the same kind. -/
theorem monitor_alternates {s : MonitorConfig τ × List ThreadOp}
    (h : ((monitorMachine compFn false spurious true 1 1).recording grantOf).ReachableUnder
      (fun _ a => noShutDown a = true) s) :
    s.2.IsChain (· ≠ ·) := by
  have halt : Alternating s := by
    apply Machine.ReachableUnder.invariant_of (I := Alternating)
      (J := fun s : MonitorConfig τ × List ThreadOp =>
        MonitorOpen s.1 ∧ MonitorInv (Monitor.init 1 1).maxLimit true s.1) _ _ _ h
    · intro s hs
      have hs₁ : (monitorMachine compFn false spurious true 1 1).ReachableUnder
          (fun _ a => noShutDown a = true) s.1 := hs.of_recording
      exact ⟨open_reachable hs₁, monitorInv_of_open hs₁⟩
    · rintro ⟨s, log⟩ ⟨hs, hlog⟩
      have hfresh : s = freshMonitor τ true 1 1 := hs
      have hnil : log = [] := hlog
      rw [hfresh, hnil]
      exact ⟨rfl, List.isChain_nil⟩
    · rintro ⟨s, log⟩ a ⟨s', log'⟩ ⟨hopen, hinv⟩ halt _ hstep
      obtain ⟨hstep, hlog⟩ := Machine.step_of_recording hstep
      have hlog : log' = log ++ grantOf s a s' := hlog
      rw [hlog]
      cases a with
      | run t x picks =>
          obtain ⟨notes, st, hran⟩ := Program.ran_of_step hstep
          exact halt.step hinv hopen.freed hran
      | spurious t =>
          obtain ⟨-, c, l, hw, rfl⟩ := Program.spurious_of_step hstep
          simpa [grantOf] using ⟨halt.last, halt.chain⟩
  exact halt.chain

/-- A reader and a writer take turns, though the reader asks twice in between. -/
theorem monitor_alternates_trace :
    ∃ s : MonitorConfig (Fin 2) × List ThreadOp, s.2 = [.reader, .writer, .reader] ∧
      s.2.IsChain (· ≠ ·) := by
  have hrun : (((monitorMachine (fun _ _ => 1) false true true 1 1).recording grantOf).execUnder
      (fun _ a => noShutDown a) (freshMonitor (Fin 2) true 1 1, [])
      (List.flatten [List.replicate 4 (.run 0 (.request .reader) []),
        List.replicate 2 (.run 0 (.request .reader) []),
        List.replicate 3 (.run 1 (.request .writer) [some 0]),
        List.replicate 2 (.run 0 (.request .reader) [])])).holds
      (fun s => decide (s.2 = [.reader, .writer, .reader])) = true := by
    decide +kernel
  obtain ⟨s, hs, hp⟩ := Outcome.holds_iff.mp hrun
  have hreach := Machine.reachableUnder_of_execUnder (.init (Machine.recording_init rfl)) hs
  exact ⟨s, of_decide_eq_true hp, monitor_alternates hreach⟩

end Alternation

end ThreadLib
end MultithreadingBible
