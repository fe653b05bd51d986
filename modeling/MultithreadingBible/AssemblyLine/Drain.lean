import MultithreadingBible.AssemblyLine.Conservation

/-!
# Destroying a pipeline

`asl_destroy` refuses new objects, waits until no worker is in operation, and then cancels the workers.
A worker that was woken is in operation only from when it has counted itself in.  An object in its queue,
or on its way to the root stage, escapes a test in between.

* `Counted` — the counter of workers in operation, over all runs.
* `missedByTest` — the states in which the test misses an object.
* `drained_iff` — beside those states, the test says that every accepted object was emitted.
-/

namespace MultithreadingBible
namespace AssemblyLine

open Lib GlueThread

/-- Whether a worker is counted as being in operation. -/
def AslLoc.counted {σ : Type*} : AslLoc σ → Bool
  | .check _ | .countOut | .process _ | .emit _ | .handOver _ _ => true
  | _ => false

/-- A worker that was woken and has not yet counted itself in. -/
def woken {σ : Type*} : Status (AslCv σ) (AslLoc σ) → Bool
  | .notified _ _ => true
  | .running .countIn => true
  | _ => false

theorem AslLoc.counted_of_ofCaller {σ : Type*} {l : AslLoc σ} (hl : l.ofCaller = true) :
    l.counted = false := by
  cases l <;> first | rfl | cases hl

theorem AslLoc.counted_of_ofDestroyer {σ : Type*} {l : AslLoc σ} (hl : l.ofDestroyer = true) :
    l.counted = false := by
  cases l <;> first | rfl | cases hl

/-- An object is in the hand of a worker that is counted, or of a caller. -/
theorem AslLoc.counted_of_object {σ : Type*} {l : AslLoc σ} {o : Nat} (hl : l.ofWorker = true)
    (ho : l.object = some o) : l.counted = true := by
  cases l <;> first | rfl | exact absurd hl Bool.false_ne_true | cases ho

section Drain

variable {σ γ : Type*} [DecidableEq σ]

/-- All accepted objects left the pipeline. -/
def AllEmitted (s : AslConfig σ γ) : Prop :=
  ∀ o, o < s.mem.accepted → o ∈ s.mem.emitted

/-- A worker was woken for objects it has not counted itself in for, or a caller whose object was accepted
has not put it into the queue of the root stage. -/
def MissedByTest (s : AslConfig σ γ) : Prop :=
  (∃ S, woken (s.thr (.worker S)) = true ∧ isGlthreadListEmpty s.mem.heap (.head S) = false) ∨
    ∃ c, (s.thr (.caller c)).loc.object.isSome = true

instance [Fintype σ] [Fintype γ] (s : AslConfig σ γ) : Decidable (MissedByTest s) :=
  inferInstanceAs (Decidable (_ ∨ _))

/-- The counter and the acceptance test, as the threads left them. -/
structure Counted [Fintype σ] [Fintype γ] (s : AslConfig σ γ) : Prop where
  counter : s.mem.nWorkersInOperation = tally s.thr (fun l => l.counted.toNat) % 2 ^ 8
  closed : (s.thr .destroyer).loc ≠ .destroy → s.mem.acceptNewObject = false

variable [Fintype σ] [DecidableEq γ] [Fintype γ] {next0 : σ → Option σ} {root : σ}
  {spurious : Bool} {s s' : AslConfig σ γ} {L : σ → List Nat} {t : AslThread σ γ}

/-- Only workers count, each of them once. -/
theorem tally_counted_le (hfits : ∀ t, Fits t (s.thr t)) :
    tally s.thr (fun l => l.counted.toNat) ≤ Fintype.card σ := by
  have hsub : (Finset.univ.filter fun t => (s.thr t).loc.counted = true) ⊆
      (Finset.univ : Finset σ).image .worker := by
    intro t ht
    have hcounted := (Finset.mem_filter.mp ht).2
    have hfit := hfits t
    generalize s.thr t = st at hcounted hfit
    cases hfit with
    | worker hl => exact Finset.mem_image_of_mem _ (Finset.mem_univ _)
    | caller hl => simp [AslLoc.counted_of_ofCaller hl] at hcounted
    | destroyer hl => simp [AslLoc.counted_of_ofDestroyer hl] at hcounted
    | _ => cases hcounted
  have hcard := Finset.card_le_card hsub
  rw [card_filter_loc] at hcard
  exact le_trans hcard Finset.card_image_le

/-- A counter of zero says that nobody is counted. -/
theorem Counted.none_counted (h : Counted s) (hq : QueuesOk next0 root s L)
    (hcard : Fintype.card σ < 2 ^ 8) (hzero : s.mem.nWorkersInOperation = 0) (t : AslThread σ γ) :
    (s.thr t).loc.counted = false := by
  have hle := tally_counted_le hq.fits
  have hcounter := h.counter
  rw [hzero, Nat.mod_eq_of_lt (lt_of_le_of_lt hle hcard), eq_comm, tally_eq_zero] at hcounter
  simpa using hcounter t

/-- **What the test of `asl_destroy` tells**: every accepted object was emitted, unless a woken worker has
objects or a caller is on its way. -/
theorem Counted.allEmitted_iff (h : Counted s) (hq : QueuesOk next0 root s L)
    (hcard : Fintype.card σ < 2 ^ 8) (hzero : s.mem.nWorkersInOperation = 0) :
    AllEmitted s ↔ ¬ MissedByTest s := by
  have hidle := h.none_counted hq hcard hzero
  constructor
  · rintro hall (⟨S, -, hne⟩ | ⟨c, hsome⟩)
    · -- an object is in a queue
      have hL : L S ≠ [] := by
        intro hL
        rw [(hq.queued.isEmpty S).mpr hL] at hne
        cases hne
      obtain ⟨o, ho⟩ := List.exists_mem_of_ne_nil _ hL
      exact (hq.books.queue_alone ho).2.2 (hall o (hq.named ▸ hq.books.lt_of_mem_queue ho))
    · -- an object is in the hand of a caller
      obtain ⟨o, hobject⟩ := Option.isSome_iff_exists.mp hsome
      obtain ⟨hlt, -, -, hout⟩ := hq.books.alone hobject
      exact hout (hall o (hq.named ▸ hlt))
  · intro hmissed o ho
    obtain ⟨p, hp⟩ := (hq.somewhere o).mp ho
    cases p with
    | out => exact hp
    | hand t =>
        have hobject := Option.mem_toList.mp hp
        have hcounted := hidle t
        have hfit := hq.fits t
        have hcaller : ∀ c, t ≠ .caller c := by
          rintro c rfl
          exact hmissed (.inr ⟨c, by rw [hobject]; rfl⟩)
        generalize s.thr t = st at hobject hcounted hfit
        cases hfit with
        | worker hl => simp [AslLoc.counted_of_object hl hobject] at hcounted
        | caller _ => exact absurd rfl (hcaller _)
        | @destroyer l hl =>
            cases l <;> first | exact absurd hl Bool.false_ne_true | cases hobject
        | _ => cases hobject
    | queue S =>
        -- the worker was woken for the object
        have hfit := hq.fits (.worker S)
        have hcounted := hidle (.worker S)
        have hawake : ¬ Idle (s.thr (.worker S)) := by
          intro hidle
          have hp' : o ∈ L S := hp
          rw [hq.idle S hidle] at hp'
          cases hp'
        have hwoken : woken (s.thr (.worker S)) = true := by
          generalize s.thr (.worker S) = st at hfit hcounted hawake
          cases hfit with
          | @worker _ l hl =>
              cases l with
              | sleep => exact absurd .sleep hawake
              | countIn => rfl
              | _ => first | exact absurd hl Bool.false_ne_true | cases hcounted
          | asleep => exact absurd .waiting hawake
          | woken => rfl
        apply absurd _ hmissed
        refine .inl ⟨S, hwoken, ?_⟩
        rw [Bool.eq_false_iff]
        intro hempty
        have hp' : o ∈ L S := hp
        rw [(hq.queued.isEmpty S).mp hempty] at hp'
        cases hp'

section Moves

variable {m m' : Asl σ} {l : AslLoc σ} {L' : σ → List Nat} {notes : List (Note (AslCv σ))}
  {st : Status (AslCv σ) (AslLoc σ)} (h : AslMove next0 root m L t l m' L' notes st)

include h

omit [Fintype σ] [DecidableEq γ] [Fintype γ] in
/-- The counter follows the threads that are counted, up to wrapping around. -/
theorem AslMove.counter {k k' : Nat} (hk : m.nWorkersInOperation = k % 2 ^ 8)
    (htally : k' + l.counted.toNat = k + st.loc.counted.toNat) :
    m'.nWorkersInOperation = k' % 2 ^ 8 := by
  have hsame : l.counted = st.loc.counted → k' = k := by
    intro hcounted
    rw [hcounted] at htally
    omega
  cases h with
  | countOut =>
      have hk' : k = k' + 1 := htally.symm
      show countDown 8 m.nWorkersInOperation = k' % 2 ^ 8
      rw [hk, hk', countDown_mod]
  | countIn =>
      have hk' : k' = k + 1 := htally
      show countUp 8 m.nWorkersInOperation = k' % 2 ^ 8
      rw [hk, hk', countUp_mod]
  | @process S o answer =>
      rw [hsame (by cases answer.or (next0 S) <;> rfl)]
      exact hk
  | drain hl _ =>
      rcases hl with ⟨rfl, rfl⟩ | ⟨rfl, rfl⟩
      · rw [hsame rfl]
        exact hk
      · rw [hsame rfl]
        exact hk
  | cancel hl _ =>
      rcases hl with ⟨rfl, rfl⟩ | ⟨rfl, rfl⟩
      · rw [hsame rfl]
        exact hk
      · rw [hsame rfl]
        exact hk
  | _ =>
      rw [hsame rfl]
      exact hk

omit [Fintype σ] [DecidableEq γ] [Fintype γ] in
/-- Once closed, a pipeline stays closed, and accepts nothing. -/
theorem AslMove.closed (hclosed : m.acceptNewObject = false) :
    m'.acceptNewObject = false ∧ acceptances l st = 0 := by
  cases h with
  | accept hopen =>
      rw [hclosed] at hopen
      cases hopen
  | @process S o answer => exact ⟨hclosed, by cases answer.or (next0 S) <;> rfl⟩
  | drain hl _ | cancel hl _ =>
      rcases hl with ⟨rfl, rfl⟩ | ⟨rfl, rfl⟩
      all_goals first | exact ⟨rfl, rfl⟩ | exact ⟨hclosed, rfl⟩
  | _ => exact ⟨hclosed, rfl⟩

omit [Fintype σ] [DecidableEq γ] [Fintype γ] in
theorem AslMove.mem_emitted {o : Nat} (ho : o ∈ m.emitted) : o ∈ m'.emitted := by
  cases h with
  | emit => exact List.mem_append_left _ ho
  | drain hl _ => rcases hl with ⟨-, rfl⟩ | ⟨-, rfl⟩ <;> exact ho
  | cancel hl _ => rcases hl with ⟨-, rfl⟩ | ⟨-, rfl⟩ <;> exact ho
  | _ => exact ho

omit [Fintype σ] [DecidableEq γ] [Fintype γ] in
/-- Whoever destroys a pipeline closes it first. -/
theorem AslMove.closed_by_destroyer (ht : t = .destroyer)
    (hclosed : l ≠ .destroy → m.acceptNewObject = false) : m'.acceptNewObject = false := by
  cases h with
  | drain hl _ =>
      rcases hl with ⟨-, rfl⟩ | ⟨rfl, rfl⟩
      · rfl
      · exact hclosed (by simp)
  | cancel hl _ =>
      rcases hl with ⟨-, rfl⟩ | ⟨rfl, rfl⟩
      · rfl
      · exact hclosed (by simp)
  | _ => cases ht

omit [Fintype σ] [DecidableEq γ] [Fintype γ] in
/-- The workers are cancelled only after a test found none in operation. -/
theorem AslMove.of_cancel (ht : t = .destroyer) (hst : st.loc = .cancel) :
    m.nWorkersInOperation = 0 ∧ acceptances l st = 0 ∧ m'.emitted = m.emitted := by
  cases h with
  | drain _ _ => cases hst
  | cancel hl hidle => rcases hl with ⟨rfl, rfl⟩ | ⟨rfl, rfl⟩ <;> exact ⟨hidle, rfl, rfl⟩
  | _ => cases ht

end Moves

variable {destroys : Bool}

theorem Counted.fresh : Counted (freshAsl σ γ) where
  counter := by
    have hfits : (Finset.univ.filter fun t => ((freshAsl σ γ).thr t).loc.counted = true) =
        (Finset.univ : Finset σ).image .worker := by
      ext t
      rw [Finset.mem_filter]
      cases t <;> simp [freshAsl, AslLoc.counted]
    rw [← card_filter_loc, hfits, Finset.card_image_of_injective _ fun S S' h => by cases h; rfl]
    rfl
  closed h := absurd rfl h

theorem Counted.run (h : Counted s) {answer : Option σ} {notes : List (Note (AslCv σ))}
    {st : Status (AslCv σ) (AslLoc σ)}
    (hran : (aslProgram γ next0 root destroys spurious).Ran s t answer s' notes st)
    (hmove : AslMove next0 root s.mem.toAsl L t (s.thr t).loc s'.mem.toAsl L' notes st) : Counted s' where
  counter := hmove.counter h.counter (hran.tally _)
  closed hloc := by
    by_cases ht : t = .destroyer
    · subst ht
      exact hmove.closed_by_destroyer rfl h.closed
    · rw [hran.loc_of_ne (Ne.symm ht)] at hloc
      exact (hmove.closed (h.closed hloc)).1

/-- A wake-up without a notification counts nobody. -/
theorem Counted.awaken (h : Counted s) {c : AslCv σ} {l : AslLoc σ} (hthr : s.thr t = .waiting c l) :
    Counted ⟨s.mem, Function.update s.thr t (.notified c l)⟩ where
  counter := by
    rw [tally_congr (loc_update_notified hthr)]
    exact h.counter
  closed hloc := by
    apply h.closed
    rwa [← loc_update_notified hthr]

/-- The test of `asl_destroy` is not made while it misses an object. -/
def TestsInTime (s : AslConfig σ γ) : Act (AslThread σ γ) (Option σ) → Prop
  | .run .destroyer _ _ => s.mem.nWorkersInOperation = 0 → ¬ MissedByTest s
  | _ => True

instance (s : AslConfig σ γ) : DecidablePred (TestsInTime s)
  | .run .destroyer _ _ =>
      inferInstanceAs (Decidable (s.mem.nWorkersInOperation = 0 → ¬ MissedByTest s))
  | .run (.worker _) _ _ | .run (.caller _) _ _ | .spurious _ => .isTrue trivial

/-- What holds in every state when tests are made in time. -/
structure Drained (next0 : σ → Option σ) (root : σ) (s : AslConfig σ γ) : Prop where
  queues : ∃ L, QueuesOk next0 root s L
  counted : Counted s
  emitted : (s.thr .destroyer).loc = .cancel → AllEmitted s

/-- **Nothing is accepted behind a passed test**, so a test made in time is the end of all objects. -/
theorem Drained.run (h : Drained next0 root s) (hcard : Fintype.card σ < 2 ^ 8)
    {answer : Option σ} {picks : List (Option (AslThread σ γ))}
    (htime : TestsInTime s (.run t answer picks)) {notes : List (Note (AslCv σ))}
    {st : Status (AslCv σ) (AslLoc σ)}
    (hran : (aslProgram γ next0 root destroys spurious).Ran s t answer s' notes st) :
    Drained next0 root s' := by
  obtain ⟨L, hq⟩ := h.queues
  obtain ⟨hseen, L', hmove⟩ := hq.exists_move hran
  refine ⟨hq.run hran, h.counted.run hran hmove, ?_⟩
  intro hcancel
  by_cases ht : t = .destroyer
  · subst ht
    rw [hran.self] at hcancel
    obtain ⟨hzero, hnone, hemitted⟩ := hmove.of_cancel rfl hcancel
    rw [hnone, Nat.add_zero] at hseen
    have hall := (h.counted.allEmitted_iff hq hcard hzero).mpr (htime hzero)
    intro o ho
    rw [hemitted]
    exact hall o (hseen ▸ ho)
  · rw [hran.loc_of_ne (Ne.symm ht)] at hcancel
    have hclosed := h.counted.closed (by rw [hcancel]; simp)
    intro o ho
    apply hmove.mem_emitted
    apply h.emitted hcancel
    rwa [hseen, (hmove.closed hclosed).2] at ho

/-- A step to the cancellation is a test that found nobody in operation. -/
theorem destroyer_of_cancel (h : QueuesOk next0 root s L) {a : Act (AslThread σ γ) (Option σ)}
    (hstep : (aslMachine γ next0 root destroys spurious).step s a = .next s')
    (hbefore : (s.thr .destroyer).loc ≠ .cancel) (hafter : (s'.thr .destroyer).loc = .cancel) :
    (∃ answer picks, a = .run .destroyer answer picks) ∧ s.mem.nWorkersInOperation = 0 ∧
      s'.mem.accepted = s.mem.accepted ∧ s'.mem.emitted = s.mem.emitted := by
  cases a with
  | spurious t =>
      obtain ⟨-, c, l, hthr, rfl⟩ := Program.spurious_of_step hstep
      exact absurd ((loc_update_notified hthr _).symm.trans hafter) hbefore
  | run t answer picks =>
      obtain ⟨notes, st, hran⟩ := Program.ran_of_step hstep
      obtain ⟨hseen, L', hmove⟩ := h.exists_move hran
      by_cases ht : t = .destroyer
      · subst ht
        rw [hran.self] at hafter
        obtain ⟨hzero, hnone, hemitted⟩ := hmove.of_cancel rfl hafter
        rw [hnone] at hseen
        exact ⟨⟨answer, picks, rfl⟩, hzero, hseen, hemitted⟩
      · rw [hran.loc_of_ne (Ne.symm ht)] at hafter
        exact absurd hafter hbefore

/-- The counter fits in every state of every run. -/
theorem reachable_counted (hs : (aslMachine γ next0 root destroys spurious).Reachable s) :
    Counted s := by
  refine Machine.ReachableUnder.invariant_of (J := fun s => ∃ L, QueuesOk next0 root s L)
    (fun s hs => reachable_queuesOk hs) ?_ ?_ hs
  · rintro _ rfl
    exact Counted.fresh
  · rintro s (⟨t, x, picks⟩ | t) s' ⟨L, hq⟩ hcounted - hstep
    · obtain ⟨notes, st, hran⟩ := Program.ran_of_step hstep
      obtain ⟨-, L', hmove⟩ := hq.exists_move hran
      exact hcounted.run hran hmove
    · obtain ⟨-, c, l, hthr, rfl⟩ := Program.spurious_of_step hstep
      exact hcounted.awaken hthr

theorem reachable_drained (hcard : Fintype.card σ < 2 ^ 8)
    (hs : (aslMachine γ next0 root destroys spurious).ReachableUnder TestsInTime s) :
    Drained next0 root s := by
  apply Program.invariant _ _ _ hs
  · rintro _ rfl
    exact ⟨⟨_, QueuesOk.fresh⟩, Counted.fresh, fun h => by cases h⟩
  · intro s t x picks s' notes st h htime hran
    exact h.run hcard htime hran
  · intro s t c l h _ hthr
    obtain ⟨L, hq⟩ := h.queues
    refine ⟨⟨L, hq.awaken hthr⟩, h.counted.awaken hthr, ?_⟩
    intro hcancel
    exact h.emitted ((loc_update_notified hthr _).symm.trans hcancel)

/-- **When nothing is lost by destroying a pipeline** of less than 256 stages: in every run whose tests
are made in time, all accepted objects were emitted when the workers are cancelled; and a test that passes
is made in time if and only if they were. -/
theorem asl_destroy_drains (hcard : Fintype.card σ < 2 ^ 8) :
    (∀ s, (aslMachine γ next0 root true spurious).ReachableUnder TestsInTime s →
      (s.thr .destroyer).loc = .cancel → AllEmitted s) ∧
    ∀ s a s', (aslMachine γ next0 root true spurious).Reachable s →
      (aslMachine γ next0 root true spurious).step s a = .next s' →
      (s.thr .destroyer).loc ≠ .cancel → (s'.thr .destroyer).loc = .cancel →
      (AllEmitted s' ↔ TestsInTime s a) := by
  constructor
  · intro s hs
    exact (reachable_drained hcard hs).emitted
  · intro s a s' hs hstep hbefore hafter
    obtain ⟨L, hq⟩ := reachable_queuesOk hs
    obtain ⟨⟨answer, picks, rfl⟩, hzero, haccepted, hemitted⟩ :=
      destroyer_of_cancel hq hstep hbefore hafter
    have htold := (reachable_counted hs).allEmitted_iff hq hcard hzero
    unfold AllEmitted at htold ⊢
    rw [haccepted, hemitted, htold]
    exact ⟨fun h _ => h, fun h => h hzero⟩

end Drain

/-- The destroyer goes on. -/
abbrev destroyerGoes : Act (AslThread Bool Unit) (Option Bool) := .run .destroyer none []

/-- A worker finds its queue empty and goes to sleep. -/
def fallsAsleep (S : Bool) : List (Act (AslThread Bool Unit) (Option Bool)) :=
  [workerGoes S none, workerGoes S none, workerGoes S none]

/-- A worker goes to sleep, and notifies the destroyer. -/
def fallsAsleepNotifying (S : Bool) : List (Act (AslThread Bool Unit) (Option Bool)) :=
  [workerGoes S none, .run (.worker S) none [some .destroyer], workerGoes S none]

/-- An object goes through two stages while the destroyer waits. -/
theorem asl_destroy_drains_trace :
    ∃ s : AslConfig Bool Unit, AllEmitted s ∧ s.mem.accepted = 1 ∧
      (s.thr .destroyer).loc = .cancel := by
  have hrun : ((aslMachine Unit twoStages false true false).execUnder
      (fun s a => decide (TestsInTime s a)) (freshAsl Bool Unit)
      (List.flatten [fallsAsleep true,
        [callerGoes, callerGoes, destroyerGoes, workerGoes false none, workerGoes false none,
          workerWakes false, workerGoes true none, workerGoes true none],
        fallsAsleepNotifying false,
        [workerGoes true none, workerGoes true none, workerGoes true none], fallsAsleep true,
        [destroyerGoes]])).holds (fun s =>
          decide (s.mem.accepted = 1 ∧ (s.thr .destroyer).loc = .cancel)) = true := by
    decide +kernel
  obtain ⟨s, hs, hp⟩ := Outcome.holds_iff.mp hrun
  have hreach := (Machine.reachableUnder_of_execUnder (.init rfl) hs).mono
    fun s a hcond => of_decide_eq_true hcond
  obtain ⟨haccepted, hcancel⟩ := of_decide_eq_true hp
  exact ⟨s, (asl_destroy_drains (by decide)).1 s hreach hcancel, haccepted, hcancel⟩

/-- Destroying the pipeline never loses an accepted object. -/
def NeverLoses (γ : Type*) {σ : Type*} [DecidableEq σ] [Fintype σ] [DecidableEq γ] [Fintype γ]
    (next0 : σ → Option σ) (root : σ) : Prop :=
  ∀ s, (aslMachine γ next0 root true false).Reachable s → (s.thr .destroyer).loc = .cancel →
    AllEmitted s

/-- **An object may be lost in its queue**, whose worker was notified and has not counted itself in, **and
on its way there**. -/
theorem asl_destroy_drains_fails :
    ¬ NeverLoses Unit twoStages false ∧
      (∃ s : AslConfig Bool Unit, (aslMachine Unit twoStages false true false).Reachable s ∧
        (s.thr .destroyer).loc = .cancel ∧ isGlthreadListEmpty s.mem.heap (.head false) = false) ∧
      ∃ s : AslConfig Bool Unit, (aslMachine Unit twoStages false true false).Reachable s ∧
        (s.thr .destroyer).loc = .cancel ∧ (s.thr (.caller ())).loc = .accepted 0 := by
  have hqueue : ((aslMachine Unit twoStages false true false).exec (freshAsl Bool Unit)
      (List.flatten [fallsAsleep false, fallsAsleep true,
        [callerGoes, .run (.caller ()) none [some (.worker false)], destroyerGoes]])).holds (fun s =>
          decide ((s.thr .destroyer).loc = .cancel ∧ s.mem.accepted = 1 ∧ s.mem.emitted = [] ∧
            isGlthreadListEmpty s.mem.heap (.head false) = false)) = true := by
    decide +kernel
  have hhand : ((aslMachine Unit twoStages false true false).exec (freshAsl Bool Unit)
      (fallsAsleep false ++ fallsAsleep true ++ [callerGoes, destroyerGoes])).holds (fun s =>
          decide ((s.thr .destroyer).loc = .cancel ∧
            (s.thr (.caller ())).loc = .accepted 0)) = true := by
    decide +kernel
  obtain ⟨s, hs, hp⟩ := Machine.exists_reachable_of_exec rfl hqueue
  obtain ⟨s', hs', hp'⟩ := Machine.exists_reachable_of_exec rfl hhand
  obtain ⟨hcancel, haccepted, hemitted, hqueued⟩ := of_decide_eq_true hp
  refine ⟨fun hnever => ?_, ⟨s, hs, hcancel, hqueued⟩, s', hs', of_decide_eq_true hp'⟩
  have hmem := hnever s hs hcancel 0 (by omega)
  rw [hemitted] at hmem
  cases hmem

end AssemblyLine
end MultithreadingBible
