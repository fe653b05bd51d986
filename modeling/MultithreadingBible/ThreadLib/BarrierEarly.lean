import MultithreadingBible.Lib.Recording
import MultithreadingBible.ThreadLib.BarrierRounds

/-!
# Thread barrier: early release

`thread_barrier_signal_all` lets the waiters go before all `threshold` of them have come.  It wakes one of
them, and each waiter that leaves wakes the next, as at the end of a round; but the barrier stays open, so
that a thread that comes while the waiters leave joins them.

* `earlyMachine` — threads that call `thread_barrier_barricade` and `thread_barrier_signal_all`.
* `watch` — what the calls so far mean for one call: whether its round was full or a release was asked for
  since it came.
* `barrier_early_release` — as long as nobody joins waiters that are leaving, a call returns for one of
  these reasons only.
-/

namespace MultithreadingBible
namespace ThreadLib

open Lib

variable {τ : Type*}

/-- What a thread outside all calls calls. -/
inductive BarrierCall where
  | barricade
  | signalAll
  deriving DecidableEq

def threadBarrierSignalAll (b : Barrier) : BarrierEffect :=
  if b.isReadyAgain == false || b.currWaitCount == 0 then .done b [] (.running .idle)
  else .done b [.signal .cv] (.running .idle)

/-- What a thread does next. -/
def earlyExec (t : τ) (l : BarrierLoc) (x : BarrierCall) (m : BarrierMem τ) :
    Effect (BarrierMem τ) BarrierCv BarrierLoc :=
  if l = .idle ∧ x = .signalAll then
    (threadBarrierSignalAll m.barrier).observed fun b _ => { m with barrier := b }
  else barrierExec t l m

/-- Threads that use one barrier, on a platform without spurious wake-ups. -/
def earlyProgram (τ : Type*) : Program τ (BarrierMem τ) BarrierCv BarrierLoc BarrierCall where
  exec := earlyExec
  spuriousWakeups := false

/-- What is seen of a run: the calls that come and return, and the releases. -/
inductive EarlyEvent (τ : Type*) where
  | call (e : BarrierEvent τ)
  | signalAll
  deriving DecidableEq

variable [DecidableEq τ]

/-- What is seen of a step: what it adds to the log of the barrier, and whether it asks for a release. -/
def earlyEvents (s : BarrierConfig τ) (a : Act τ BarrierCall) (s' : BarrierConfig τ) :
    List (EarlyEvent τ) :=
  match a with
  | .run t x _ =>
      if (s.thr t).loc = .idle ∧ x = .signalAll then [.signalAll]
      else (s'.mem.log.drop s.mem.log.length).map .call
  | .spurious _ => []

/-- All runs of threads that call `thread_barrier_barricade` and `thread_barrier_signal_all` on one
barrier, with what is seen of them. -/
def earlyMachine (τ : Type*) [DecidableEq τ] [Fintype τ] (count : UInt32) :
    Machine (BarrierConfig τ × List (EarlyEvent τ)) (Act τ BarrierCall) :=
  ((earlyProgram τ).machine fun s => s = freshBarrier τ count).recording earlyEvents

/-- How many calls are inside, and about the call of one thread, if it is inside: whether since it came
`N` calls were inside at once or a release was asked for. -/
structure Watch where
  inside : Nat
  call : Option Bool
  deriving DecidableEq

/-- One more event. -/
def Watch.see (N : Nat) (t : τ) (w : Watch) : EarlyEvent τ → Watch
  | .call (.arrive u) =>
      let full := w.inside + 1 == N
      ⟨w.inside + 1, if u = t then some full else w.call.map (· || full)⟩
  | .call (.leave u) => ⟨w.inside - 1, if u = t then none else w.call⟩
  | .signalAll => { w with call := w.call.map fun _ => true }

/-- What the events so far mean for the call of `t`. -/
def watch (N : Nat) (t : τ) (log : List (EarlyEvent τ)) : Watch :=
  log.foldl (Watch.see N t) ⟨0, none⟩

theorem watch_concat (N : Nat) (t : τ) (log : List (EarlyEvent τ)) (e : EarlyEvent τ) :
    watch N t (log ++ [e]) = (watch N t log).see N t e := by
  rw [watch, List.foldl_append]
  rfl

/-- Every call that returned was one of a full round, or a release was asked for while it waited. -/
def ReleasedRightly (N : Nat) (log : List (EarlyEvent τ)) : Prop :=
  ∀ before t after, log = before ++ .call (.leave t) :: after →
    (watch N t before).call = some true

/-- Whether a released waiter is still to resume. -/
def isDraining [Fintype τ] (s : BarrierConfig τ) : Bool :=
  decide (∃ t, s.thr t = .notified .cv .barricaded)

/-- Whether a thread at `l` is about to go through the busy check of `thread_barrier_barricade`. -/
def comesToBarricade (l : BarrierLoc) (x : BarrierCall) : Bool :=
  match l with
  | .idle => x == .barricade
  | .busy => true
  | .barricaded => false

/-- Nobody starts to wait for the others while a released waiter is still to resume. -/
def keepsApart [Fintype τ] (s : BarrierConfig τ) : Act τ BarrierCall → Bool
  | .run t x _ =>
      !(isDraining s && s.mem.barrier.isReadyAgain &&
        countUp 32 s.mem.barrier.currWaitCount != s.mem.barrier.threshold &&
        comesToBarricade (s.thr t).loc x)
  | .spurious _ => true

section Results

variable [Fintype τ] {N : Nat} {count : UInt32} {s s' : BarrierConfig τ} {t u : τ}
  {x : BarrierCall} {log : List (EarlyEvent τ)} {notes : List (Note BarrierCv)}
  {st : Status BarrierCv BarrierLoc}

omit [DecidableEq τ] in
theorem isDraining_iff : isDraining s = true ↔ ∃ t, hasToken s t := by
  simp [isDraining, hasToken]

/-- Whether a location is in the wait on `cv`. -/
def inWait (l : BarrierLoc) : Nat := (decide (l = .barricaded)).toNat

/-- The invariant: the watches know who is inside, and while released waiters leave, everybody inside may
leave. -/
structure EarlyInv (N : Nat) (s : BarrierConfig τ) (log : List (EarlyEvent τ)) : Prop where
  threshold : s.mem.barrier.threshold = N
  placed : ∀ t, Placed (s.thr t)
  inside : ∀ t, (watch N t log).inside = s.mem.barrier.currWaitCount
  call : ∀ t, (watch N t log).call.isSome = true ↔ (s.thr t).loc = .barricaded
  counted : tally s.thr inWait = s.mem.barrier.currWaitCount
  lt : s.mem.barrier.currWaitCount < N
  draining : (∃ t, hasToken s t) → ∀ u, (s.thr u).loc = .barricaded →
    (watch N u log).call = some true
  right : ReleasedRightly N log

omit [Fintype τ] in
/-- Returns are added to a run one by one. -/
theorem ReleasedRightly.concat (h : ReleasedRightly N log) {e : EarlyEvent τ}
    (he : ∀ t, e = .call (.leave t) → (watch N t log).call = some true) :
    ReleasedRightly N (log ++ [e]) := by
  have heach : EachAfter (fun before e =>
      ∀ t, e = .call (.leave t) → (watch N t before).call = some true) log := by
    intro before e after heq t ht
    rw [ht] at heq
    exact h before t after heq
  intro before t after heq
  exact heach.concat he before (.call (.leave t)) after heq t rfl

theorem EarlyInv.init (hN : 2 ≤ count.toNat) :
    EarlyInv count.toNat (freshBarrier τ count) [] where
  threshold := rfl
  placed _ := rfl
  inside _ := rfl
  call t := by simp [watch, freshBarrier]
  counted := tally_eq_zero.mpr fun _ => rfl
  lt := by
    show 0 < count.toNat
    omega
  draining := by
    rintro ⟨t, ht⟩
    cases ht
  right := by
    intro before t after heq
    simp at heq

/-- A status that a thread can have, after a step. -/
theorem EarlyInv.placed_step (h : EarlyInv N s log)
    (hran : (earlyProgram τ).Ran s t x s' notes st) (hst : Placed st) (u : τ) :
    Placed (s'.thr u) :=
  hran.forall_status (p := fun _ => Placed) h.placed hst (fun _ _ _ hp => hp) u

omit [Fintype τ] in
/-- A step that signals nobody on `cv` hands no token on. -/
theorem hasToken_of_step (hran : (earlyProgram τ).Ran s t x s' notes st)
    (hnotes : .signal .cv ∉ notes ∧ .broadcast .cv ∉ notes) (hst : st ≠ .notified .cv .barricaded)
    (hu : hasToken s' u) : hasToken s u := by
  by_cases hut : u = t
  · rw [hut] at hu
    exact absurd hu (not_hasToken_self hran hst)
  · exact (hasToken_of_ne hran hnotes hut).mp hu

/-- The number of threads in the wait on `cv` after a step. -/
theorem EarlyInv.counted_step (h : EarlyInv N s log)
    (hran : (earlyProgram τ).Ran s t x s' notes st) :
    tally s'.thr inWait + inWait (s.thr t).loc = s.mem.barrier.currWaitCount + inWait st.loc := by
  rw [← h.counted]
  exact hran.tally inWait

theorem inWait_of_ne {l : BarrierLoc} (h : l ≠ .barricaded) : inWait l = 0 := by
  simp [inWait, h]

/-- A release is asked for. -/
theorem EarlyInv.signalAll (h : EarlyInv N s log)
    (hran : (earlyProgram τ).Ran s t x s' notes (.running .idle)) (hl : (s.thr t).loc = .idle)
    (hmem : s'.mem = s.mem) : EarlyInv N s' (log ++ [.signalAll]) := by
  have hloc : ∀ u, (s'.thr u).loc = (s.thr u).loc := by
    intro u
    by_cases hu : u = t
    · rw [hu, hran.self, hl]
      rfl
    · exact hran.loc_of_ne hu
  refine ⟨by rw [hmem]; exact h.threshold, h.placed_step hran rfl, fun u => ?_, fun u => ?_,
    ?_, by rw [hmem]; exact h.lt, fun _ u hu => ?_, h.right.concat (by simp)⟩
  · rw [watch_concat, hmem]
    exact h.inside u
  · rw [watch_concat, hloc, ← h.call u]
    simp [Watch.see]
  · have hcount := h.counted_step hran
    rw [hl] at hcount
    rw [hmem]
    exact hcount
  · rw [hloc] at hu
    obtain ⟨b, hb⟩ := Option.isSome_iff_exists.mp ((h.call u).mpr hu)
    rw [watch_concat]
    simp [Watch.see, hb]

/-- A thread finds the barrier closed. -/
theorem EarlyInv.busy (h : EarlyInv N s log)
    (hran : (earlyProgram τ).Ran s t x s' [] (.waiting .busyCv .busy))
    (hne : (s.thr t).loc ≠ .barricaded) (hmem : s'.mem = s.mem) : EarlyInv N s' log := by
  have hloc : ∀ u, (s'.thr u).loc = .barricaded ↔ (s.thr u).loc = .barricaded := by
    intro u
    by_cases hu : u = t
    · rw [hu, hran.self]
      simp [hne]
    · rw [hran.loc_of_ne hu]
  refine ⟨by rw [hmem]; exact h.threshold, h.placed_step hran (.inl ⟨rfl, rfl⟩),
    fun u => by rw [hmem]; exact h.inside u, fun u => (h.call u).trans (hloc u).symm,
    ?_, by rw [hmem]; exact h.lt, ?_, h.right⟩
  · have hcount := h.counted_step hran
    rw [inWait_of_ne hne] at hcount
    rw [hmem]
    exact hcount
  rintro ⟨v, hv⟩ u hu
  exact h.draining ⟨v, hasToken_of_step hran (by simp) (by simp) hv⟩ u ((hloc u).mp hu)

/-- The last call of a round comes, closes the barrier and returns. -/
theorem EarlyInv.last (h : EarlyInv N s log) (hN : N < 2 ^ 32)
    (hran : (earlyProgram τ).Ran s t x s' notes (.running .idle))
    (hne : (s.thr t).loc ≠ .barricaded)
    (hlast : countUp 32 s.mem.barrier.currWaitCount = s.mem.barrier.threshold)
    (hbarrier : s'.mem.barrier = { s.mem.barrier with isReadyAgain := false }) :
    EarlyInv N s' (log ++ [.call (.arrive t)] ++ [.call (.leave t)]) := by
  have hlt := h.lt
  have hfull : s.mem.barrier.currWaitCount + 1 = N := by
    rw [h.threshold, countUp_eq (by omega)] at hlast
    exact hlast
  have hloc : ∀ u, (s'.thr u).loc = .barricaded ↔ (s.thr u).loc = .barricaded := by
    intro u
    by_cases hu : u = t
    · rw [hu, hran.self]
      simp [hne]
    · rw [hran.loc_of_ne hu]
  -- the round is full when this call comes
  have hself : (watch N t (log ++ [.call (.arrive t)])).call = some true := by
    rw [watch_concat]
    simp [Watch.see, h.inside t, hfull]
  refine ⟨by rw [hbarrier]; exact h.threshold, h.placed_step hran rfl, fun u => ?_, fun u => ?_,
    ?_, by rw [hbarrier]; exact h.lt, fun _ u hu => ?_, ?_⟩
  · rw [watch_concat, watch_concat, hbarrier]
    simp [Watch.see, h.inside u]
  · rw [watch_concat, watch_concat, hloc u, ← h.call u]
    by_cases hu : t = u
    · subst hu
      have hnone : ¬ (watch N t log).call.isSome = true := fun hs => hne ((h.call t).mp hs)
      simpa [Watch.see] using hnone
    · simp [Watch.see, hu]
  · have hcount := h.counted_step hran
    rw [inWait_of_ne hne] at hcount
    rw [hbarrier]
    exact hcount
  · have hu' := (hloc u).mp hu
    have hut : t ≠ u := by
      intro heq
      exact hne (heq ▸ hu')
    obtain ⟨b, hb⟩ := Option.isSome_iff_exists.mp ((h.call u).mpr hu')
    rw [watch_concat, watch_concat]
    simp [Watch.see, hut, hb, h.inside u, hfull]
  · refine (h.right.concat (by simp)).concat fun u hu => ?_
    cases hu
    exact hself

/-- A call comes and waits for the others: nobody is leaving. -/
theorem EarlyInv.arrive (h : EarlyInv N s log) (hN : N < 2 ^ 32)
    (hran : (earlyProgram τ).Ran s t x s' [] (.waiting .cv .barricaded))
    (hne : (s.thr t).loc ≠ .barricaded) (hapart : isDraining s = false)
    (hlast : countUp 32 s.mem.barrier.currWaitCount ≠ s.mem.barrier.threshold)
    (hbarrier : s'.mem.barrier =
      { s.mem.barrier with currWaitCount := countUp 32 s.mem.barrier.currWaitCount }) :
    EarlyInv N s' (log ++ [.call (.arrive t)]) := by
  have hlt := h.lt
  have hup : countUp 32 s.mem.barrier.currWaitCount = s.mem.barrier.currWaitCount + 1 :=
    countUp_eq (by omega)
  rw [hup] at hbarrier hlast
  rw [h.threshold] at hlast
  refine ⟨by rw [hbarrier]; exact h.threshold, h.placed_step hran (.inr ⟨rfl, rfl⟩), fun u => ?_,
    fun u => ?_, ?_, ?_, ?_, h.right.concat (by simp)⟩
  · rw [watch_concat, hbarrier]
    simp [Watch.see, h.inside u]
  · rw [watch_concat]
    by_cases hu : t = u
    · subst hu
      simp [Watch.see, hran.self]
    · rw [hran.loc_of_ne (Ne.symm hu), ← h.call u]
      simp [Watch.see, hu]
  · have hcount := h.counted_step hran
    rw [inWait_of_ne hne] at hcount
    rw [hbarrier]
    exact hcount
  · rw [hbarrier]
    show s.mem.barrier.currWaitCount + 1 < N
    omega
  · rintro ⟨v, hv⟩
    -- a waiter that was woken before would be leaving
    have hdraining := isDraining_iff.mpr ⟨v, hasToken_of_step hran (by simp) (by simp) hv⟩
    rw [hapart] at hdraining
    cases hdraining

/-- A waiter that was woken returns. -/
theorem EarlyInv.leave (h : EarlyInv N s log)
    (hran : (earlyProgram τ).Ran s t x s' notes (.running .idle)) (ht : hasToken s t) (ready : Bool)
    (hbarrier : s'.mem.barrier = { s.mem.barrier with
      currWaitCount := countDown 32 s.mem.barrier.currWaitCount, isReadyAgain := ready }) :
    EarlyInv N s' (log ++ [.call (.leave t)]) := by
  have hlt := h.lt
  have hin : (s.thr t).loc = .barricaded := by
    rw [show s.thr t = _ from ht]
    rfl
  -- the waiter itself is counted
  have hpos : 0 < s.mem.barrier.currWaitCount := by
    rw [← h.counted]
    exact tally_pos.mpr ⟨t, by simp [inWait, hin]⟩
  have hdown : countDown 32 s.mem.barrier.currWaitCount = s.mem.barrier.currWaitCount - 1 :=
    countDown_eq hpos
  rw [hdown] at hbarrier
  have hloc : ∀ u, u ≠ t → (s'.thr u).loc = (s.thr u).loc := fun u hu => hran.loc_of_ne hu
  refine ⟨by rw [hbarrier]; exact h.threshold, h.placed_step hran rfl, fun u => ?_, fun u => ?_, ?_,
    ?_, fun _ u hu => ?_, h.right.concat fun u hu => ?_⟩
  · rw [watch_concat, hbarrier]
    simp [Watch.see, h.inside u]
  · rw [watch_concat]
    by_cases hu : t = u
    · subst hu
      simp [Watch.see, hran.self]
    · rw [hloc u (Ne.symm hu), ← h.call u]
      simp [Watch.see, hu]
  · have hcount := h.counted_step hran
    rw [hin] at hcount
    rw [hbarrier]
    show tally s'.thr inWait = s.mem.barrier.currWaitCount - 1
    have hcount' : tally s'.thr inWait + 1 = s.mem.barrier.currWaitCount := hcount
    omega
  · rw [hbarrier]
    show s.mem.barrier.currWaitCount - 1 < N
    omega
  · have hut : u ≠ t := by
      intro heq
      rw [heq, hran.self] at hu
      cases hu
    rw [hloc u hut] at hu
    rw [watch_concat]
    simp [Watch.see, hut.symm, h.draining ⟨t, ht⟩ u hu]
  · cases hu
    exact h.draining ⟨t, ht⟩ t hin

omit [DecidableEq τ] [Fintype τ] in
/-- The state and what is seen of a step of the barricade, from what it made of the barrier. -/
theorem earlyEvents_of_move {picks : List (Option τ)} (hcall : ¬ ((s.thr t).loc = .idle ∧ x = .signalAll))
    {es : List (BarrierEvent τ)} (hlog : s'.mem.log = s.mem.log ++ es) :
    earlyEvents s (.run t x picks) s' = es.map .call := by
  rw [earlyEvents, if_neg hcall, hlog, List.drop_left]

/-- A step of the code of the barrier. -/
theorem EarlyInv.step (h : EarlyInv N s log) (hN : N < 2 ^ 32) {picks : List (Option τ)}
    (hapart : keepsApart s (.run t x picks) = true)
    (hran : (earlyProgram τ).Ran s t x s' notes st) :
    EarlyInv N s' (log ++ earlyEvents s (.run t x picks) s') := by
  have hexec : earlyExec t (s.thr t).loc x s.mem = .done s'.mem notes st := hran.exec
  unfold earlyExec at hexec
  by_cases hcall : (s.thr t).loc = .idle ∧ x = .signalAll
  · rw [if_pos hcall] at hexec
    obtain ⟨b, hcode, hmem⟩ := Effect.observed_eq_done.mp hexec
    have hsame : b = s.mem.barrier ∧ st = .running .idle := by
      unfold threadBarrierSignalAll at hcode
      split at hcode
      all_goals
        injection hcode with hb hn hst
        exact ⟨hb.symm, hst.symm⟩
    obtain ⟨rfl, rfl⟩ := hsame
    obtain ⟨hl, rfl⟩ := hcall
    rw [earlyEvents, if_pos ⟨hl, rfl⟩]
    exact h.signalAll hran hl hmem.symm
  -- the code of `thread_barrier_barricade`
  rw [if_neg hcall] at hexec
  have hmove : BarrierMove t s.mem (s.thr t).loc s'.mem notes st := barrierMove_of_exec hexec
  have hcomes : (s.thr t).loc ≠ .barricaded → comesToBarricade (s.thr t).loc x = true := by
    intro hne
    cases hl : (s.thr t).loc with
    | idle =>
        cases x with
        | signalAll => exact absurd ⟨hl, rfl⟩ hcall
        | barricade => rfl
    | busy => rfl
    | barricaded => exact absurd hl hne
  generalize hl : (s.thr t).loc = l at hmove
  generalize hm : s'.mem = m' at hmove
  cases hmove with
  | busy hne hbusy =>
      have hlog : s'.mem.log = s.mem.log ++ [] := by rw [hm, List.append_nil]
      rw [earlyEvents_of_move hcall hlog, List.map_nil, List.append_nil]
      exact h.busy hran (hl ▸ hne) hm
  | last hne hready hlast =>
      rw [earlyEvents_of_move hcall (by rw [hm])]
      have hstep := h.last hN hran (hl ▸ hne) hlast (by rw [hm])
      simpa using hstep
  | arrive hne hready hlast =>
      have hnone : isDraining s = false := by
        have hcond := hcomes (hl ▸ hne)
        simpa [keepsApart, hcond, hready, hlast] using hapart
      rw [earlyEvents_of_move hcall (by rw [hm])]
      exact h.arrive hN hran (hl ▸ hne) hnone hlast (by rw [hm])
  | reopen hlast =>
      rw [earlyEvents_of_move hcall (by rw [hm])]
      exact h.leave hran ((h.placed t).token_of_awake hl hran.awake) true (by rw [hm])
  | leave hlast =>
      rw [earlyEvents_of_move hcall (by rw [hm])]
      exact h.leave hran ((h.placed t).token_of_awake hl hran.awake) s.mem.barrier.isReadyAgain
        (by rw [hm])

/-- In every run of a barrier in which nobody joins waiters that are leaving, the invariant holds. -/
theorem earlyInv_reachable (hN : 2 ≤ count.toNat) {s : BarrierConfig τ × List (EarlyEvent τ)}
    (h : (earlyMachine τ count).ReachableUnder (fun s a => keepsApart s.1 a = true) s) :
    EarlyInv count.toNat s.1 s.2 := by
  apply h.invariant (I := fun s : BarrierConfig τ × List (EarlyEvent τ) =>
    EarlyInv count.toNat s.1 s.2)
  · rintro ⟨s, log⟩ ⟨hs, hlog⟩
    have hfresh : s = freshBarrier τ count := hs
    have hnil : log = [] := hlog
    rw [hfresh, hnil]
    exact .init hN
  · rintro ⟨s, log⟩ a ⟨s', log'⟩ hinv hapart hstep
    obtain ⟨hstep, hlog⟩ := Machine.step_of_recording hstep
    have hlog : log' = log ++ earlyEvents s a s' := hlog
    rw [hlog]
    cases a with
    | run t x picks =>
        obtain ⟨notes, st, hran⟩ := Program.ran_of_step hstep
        exact hinv.step count.toNat_lt hapart hran
    | spurious t =>
        obtain ⟨hno, -⟩ := Program.spurious_of_step hstep
        cases hno

/-- **Early release**: in every run in which nobody starts to wait while a released waiter is still to
resume, a call returns only because its round was full or a release was asked for while it waited. -/
theorem barrier_early_release (hN : 2 ≤ count.toNat) {s : BarrierConfig τ × List (EarlyEvent τ)}
    (h : (earlyMachine τ count).ReachableUnder (fun s a => keepsApart s.1 a = true) s) :
    ReleasedRightly count.toNat s.2 :=
  (earlyInv_reachable hN h).right

/-- Two of three have come when a release is asked for; both leave before the next one comes. -/
theorem barrier_early_release_trace :
    ∃ s : BarrierConfig (Fin 3) × List (EarlyEvent (Fin 3)), s.2 = [.call (.arrive 0),
      .call (.arrive 1), .signalAll, .call (.leave 0), .call (.leave 1), .call (.arrive 2)] ∧
      ReleasedRightly 3 s.2 := by
  have hrun : ((earlyMachine (Fin 3) 3).execUnder (fun s a => keepsApart s.1 a)
      (freshBarrier (Fin 3) 3, [])
      [.run 0 .barricade [], .run 1 .barricade [], .run 2 .signalAll [some 0],
        .run 0 .barricade [some 1], .run 1 .barricade [], .run 2 .barricade []]).holds
      (fun s => decide (s.2 = [.call (.arrive 0), .call (.arrive 1), .signalAll, .call (.leave 0),
        .call (.leave 1), .call (.arrive 2)])) = true := by
    decide +kernel
  obtain ⟨s, hs, hp⟩ := Outcome.holds_iff.mp hrun
  have hreach := Machine.reachableUnder_of_execUnder (.init (Machine.recording_init rfl)) hs
  exact ⟨s, of_decide_eq_true hp, barrier_early_release (by decide) hreach⟩

/-- Of three, one has come when a release is asked for.  The second comes before the first has left, is
woken by it, and returns. -/
theorem barrier_early_joins :
    ∃ s : BarrierConfig (Fin 3) × List (EarlyEvent (Fin 3)), (earlyMachine (Fin 3) 3).Reachable s ∧
      s.2 = [.call (.arrive 0), .signalAll, .call (.arrive 1), .call (.leave 0),
        .call (.leave 1)] ∧ ¬ ReleasedRightly 3 s.2 := by
  have hrun : ((earlyMachine (Fin 3) 3).exec (freshBarrier (Fin 3) 3, [])
      [.run 0 .barricade [], .run 2 .signalAll [some 0], .run 1 .barricade [],
        .run 0 .barricade [some 1], .run 1 .barricade []]).holds
      (fun s => decide (s.2 = [.call (.arrive 0), .signalAll, .call (.arrive 1), .call (.leave 0),
        .call (.leave 1)])) = true := by
    decide +kernel
  obtain ⟨s, hs, hp⟩ := Machine.exists_reachable_of_exec (Machine.recording_init rfl) hrun
  have hlog := of_decide_eq_true hp
  refine ⟨s, hs, hlog, fun hright => ?_⟩
  have hlast := hright [.call (.arrive 0), .signalAll, .call (.arrive 1), .call (.leave 0)] 1 [] hlog
  exact absurd hlast (by decide)

/-- With a threshold of two, a call that comes while a waiter leaves completes the round. -/
theorem EarlyInv.keepsApart_of_two (h : EarlyInv 2 s log) (a : Act τ BarrierCall) :
    keepsApart s a = true := by
  cases a with
  | spurious t => rfl
  | run t x picks =>
      cases hdraining : isDraining s with
      | false => simp [keepsApart, hdraining]
      | true =>
          obtain ⟨v, hv⟩ := isDraining_iff.mp hdraining
          have hpos : 0 < s.mem.barrier.currWaitCount := by
            rw [← h.counted]
            exact tally_pos.mpr ⟨v, by simp [inWait, show s.thr v = _ from hv]⟩
          have hlt := h.lt
          have hone : s.mem.barrier.currWaitCount = 1 := by omega
          simp [keepsApart, hone, h.threshold, countUp_eq]

/-- With a threshold of two, every run is as it should be. -/
theorem barrier_early_release_two {s : BarrierConfig τ × List (EarlyEvent τ)}
    (h : (earlyMachine τ 2).Reachable s) : ReleasedRightly 2 s.2 := by
  have hall : (earlyMachine τ 2).ReachableUnder (fun s a => keepsApart s.1 a = true) s := by
    induction h with
    | init h => exact .init h
    | step _ _ h ih =>
        have hinv : EarlyInv 2 _ _ := earlyInv_reachable (le_refl 2) ih
        exact .step ih (hinv.keepsApart_of_two _) h
  have hinv : EarlyInv 2 s.1 s.2 := earlyInv_reachable (le_refl 2) hall
  exact hinv.right

end Results

end ThreadLib
end MultithreadingBible
