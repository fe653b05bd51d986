import MultithreadingBible.Lib.Clients
import MultithreadingBible.Lib.Runs
import MultithreadingBible.ThreadLib.BarrierRounds

/-!
# The barrier at work

As many threads as the threshold of a barrier clear the same number of barricades one after the
other and end. `barrierDemo_ends` says that they do: no run is long, and where none of the threads
can go on all have ended and the barrier is as it was in the beginning.  On the way no thread is
more than one barricade ahead of another.

* `threadFnCallback` — the threads.
* `leaves_eq` — the log of the barrier has the barricades each thread has cleared.
* `cleared_eq` — every thread has cleared those of the complete rounds, and some the current one.
* `demoWeight` — what a thread can still do, which every step lowers by more than it wakes up.
-/

namespace MultithreadingBible
namespace ThreadLib

open Lib

variable {τ : Type*}

/-- `thread_fn_callback`, with any number of barricades.  A thread is in the phase `r` when it has
cleared `r` of them. -/
def threadFnCallback (τ : Type*) (barricades : Nat) : Client τ (BarrierMem τ) Unit Unit Nat := fun _ r =>
  if r < barricades then .call () (r + 1) else .stop

abbrev DemoConfig (τ : Type*) := Config τ (BarrierMem τ × Unit) BarrierCv (BarrierLoc × Nat)

variable [DecidableEq τ] [Fintype τ]

/-- All runs of the demo. -/
def barrierDemo (τ : Type*) [DecidableEq τ] [Fintype τ] (count : UInt32) (barricades : Nat) :
    Machine (DemoConfig τ) (Act τ Unit) :=
  (clientProgram (threadFnCallback τ barricades) (barrierProgram τ)).machine fun s =>
    s.mem = (⟨threadBarrierInit count, []⟩, ()) ∧ ∀ t, s.thr t = .running (.idle, 0)

/-- The demo before its threads have done anything. -/
def demoStart (τ : Type*) (count : UInt32) : DemoConfig τ :=
  ⟨(⟨threadBarrierInit count, []⟩, ()), fun _ => .running (.idle, 0)⟩

variable {count : UInt32} {R : Nat} {s s' : DemoConfig τ} {t u : τ} {notes : List (Note BarrierCv)}
  {st : Status BarrierCv (BarrierLoc × Nat)} {as ls : List τ} {N : Nat}

section Moves

omit [Fintype τ] in
/-- A step of the demo is a move at the barrier. -/
theorem demoMove_of_ran
    (hran : (clientProgram (threadFnCallback τ R) (barrierProgram τ)).Ran s t () s' notes st) :
    (s.thr t).loc.2 < R ∧ ∃ st₀, st = st₀.inCall (s.thr t).loc.2 ((s.thr t).loc.2 + 1) ∧
      BarrierMove t s.mem.1 (s.thr t).loc.1 s'.mem.1 notes st₀ := by
  have hcase := clientRan_of_exec hran.exec
  generalize (s.thr t).loc = l at hcase
  cases hcase with
  | @call x ψ notes st hphase hexec hown =>
      simp only [threadFnCallback] at hphase
      split at hphase
      · next hlt =>
        cases hphase
        exact ⟨hlt, st, rfl, barrierMove_of_exec hexec⟩
      · cases hphase
  | own hphase hcode hmem =>
      simp only [threadFnCallback] at hphase
      split at hphase <;> cases hphase

omit [DecidableEq τ] [Fintype τ] in
/-- A barrier never keeps a thread from doing something. -/
theorem barrierExec_done (t : τ) (l : BarrierLoc) (m : BarrierMem τ) :
    ∃ m' notes st, barrierExec t l m = .done m' notes st := by
  have hcode : ∃ b notes st, threadBarrierBarricade l m.barrier = .done b notes st := by
    cases l with
    | barricaded =>
        simp only [threadBarrierBarricade, leaveBarricade]
        split <;> exact ⟨_, _, _, rfl⟩
    | _ =>
        simp only [threadBarrierBarricade, barricade]
        split
        · exact ⟨_, _, _, rfl⟩
        · split <;> exact ⟨_, _, _, rfl⟩
  obtain ⟨b, notes, st, hcode⟩ := hcode
  exact ⟨_, notes, st, Effect.observed_eq_done.mpr ⟨b, hcode, rfl⟩⟩

omit [Fintype τ] in
/-- What a move writes into the log: that the thread leaves, where it returns. -/
theorem leaves_of_move {m m' : BarrierMem τ} {l : BarrierLoc} {st : Status BarrierCv BarrierLoc}
    (h : BarrierMove t m l m' notes st) (r : Nat) (u : τ) :
    m'.log.count (.leave u) + (if u = t then r else 0) =
      m.log.count (.leave u) + if u = t then (st.inCall r (r + 1)).loc.2 else 0 := by
  have hone : (if u = t then r + 1 else 0) = (if t = u then 1 else 0) + if u = t then r else 0 := by
    by_cases hu : u = t
    · rw [if_pos hu, if_pos hu, if_pos hu.symm]
      omega
    · rw [if_neg hu, if_neg hu, if_neg (Ne.symm hu)]
  cases h with
  | busy hl hbusy => rfl
  | arrive hl hready hlast =>
      simp only [List.count_append, List.count_singleton, beq_iff_eq, reduceCtorEq, if_false]
      rfl
  | last hl hready hlast =>
      simp only [List.count_append, List.count_cons, List.count_nil, beq_iff_eq, reduceCtorEq,
        BarrierEvent.leave.injEq, if_false, Status.inCall, Status.loc_running]
      omega
  | reopen hlast =>
      simp only [List.count_append, List.count_singleton, beq_iff_eq, BarrierEvent.leave.injEq,
        Status.inCall,
        Status.loc_running]
      omega
  | leave hlast =>
      simp only [List.count_append, List.count_singleton, beq_iff_eq, BarrierEvent.leave.injEq,
        Status.inCall,
        Status.loc_running]
      omega

end Moves

section Runs

/-- The barrier in the demo goes through its own runs. -/
theorem barrier_reachable (h : (barrierDemo τ count R).Reachable s) :
    (barrierMachine τ count).Reachable (component s) := by
  refine reachable_component (fun s hs => ⟨fun t => ⟨_, hs.2 t⟩, ?_, fun t => ?_⟩) h
  · show s.mem.1 = _
    rw [hs.1]
  · show (s.thr t).map Prod.fst = _
    rw [hs.2 t]
    rfl

/-- **The log has the barricades each thread has cleared**, and none has cleared too many. -/
theorem leaves_eq (h : (barrierDemo τ count R).Reachable s) (t : τ) :
    s.mem.1.log.count (.leave t) = (s.thr t).loc.2 ∧ (s.thr t).loc.2 ≤ R := by
  have hall : ∀ t, s.mem.1.log.count (.leave t) = (s.thr t).loc.2 ∧ (s.thr t).loc.2 ≤ R := by
    apply Program.invariant _ _ _ h
    · intro s hs t
      rw [hs.1, hs.2 t]
      exact ⟨rfl, Nat.zero_le R⟩
    · intro s t x picks s' notes st hinv _ hran u
      obtain ⟨hlt, st₀, hst, hmove⟩ := demoMove_of_ran hran
      have hlog := leaves_of_move hmove (s.thr t).loc.2 u
      rw [← hst] at hlog
      by_cases hu : u = t
      · rw [hu] at hlog ⊢
        rw [if_pos rfl, if_pos rfl, (hinv t).1] at hlog
        rw [hran.self]
        refine ⟨by omega, ?_⟩
        rw [hst]
        cases st₀ with
        | running l => exact hlt
        | waiting c l => exact Nat.le_of_lt hlt
        | notified c l => exact Nat.le_of_lt hlt
      · rw [if_neg hu, if_neg hu] at hlog
        rw [hran.loc_of_ne hu]
        exact ⟨hlog.trans (hinv u).1, (hinv u).2⟩
    · intro s t c l hinv _ hw u
      dsimp only
      rw [loc_update_notified hw]
      exact hinv u
  exact hall t

/-- Who is kept out of the barrier finds it closed. -/
theorem busy_closed {s : BarrierConfig τ} (h : (barrierMachine τ count).Reachable s) (t : τ)
    (ht : s.thr t = .waiting .busyCv .busy) : s.mem.barrier.isReadyAgain = false := by
  have hall : ∀ t, s.thr t = .waiting .busyCv .busy → s.mem.barrier.isReadyAgain = false := by
    apply Program.invariant _ _ _ h
    · intro s hs t ht
      rw [hs.2 t] at ht
      cases ht
    · intro s t x picks s' notes st hinv _ hran u hu
      have hmove := barrierMove_of_exec hran.exec
      have hself := hran.self
      have hold : u ≠ t → s.mem.barrier.isReadyAgain = false :=
        fun hut => hinv u (hran.waiting_of_ne hut hu)
      have hopen : notes = [.broadcast .busyCv] → u = t := by
        intro hnotes
        by_contra hut
        exact hran.broadcast (by rw [hnotes]; exact List.mem_singleton_self _) hut .busy hu
      generalize s'.mem = m' at hmove ⊢
      generalize (s.thr t).loc = l at hmove
      cases hmove with
      | busy hl hbusy => exact hbusy
      | last hl hready hlast => rfl
      | arrive hl hready hlast =>
          by_cases hut : u = t
          · rw [hut, hself] at hu
            cases hu
          · exact hold hut
      | reopen hlast =>
          rw [hopen rfl, hself] at hu
          cases hu
      | leave hlast =>
          by_cases hut : u = t
          · rw [hut, hself] at hu
            cases hu
          · exact hold hut
    · intro s t c l hinv _ hw u hu
      exact hinv u (waiting_of_update_notified hu)
  exact hall t ht

end Runs

section Rounds

variable {log : List (BarrierEvent τ)}

omit [Fintype τ] in
theorem count_leave_map (ls : List τ) (t : τ) :
    (ls.map BarrierEvent.leave).count (.leave t) = ls.count t :=
  List.count_map_of_injective ls BarrierEvent.leave (fun a b h => by cases h; rfl) t

omit [Fintype τ] in
theorem count_arrive_map (as : List τ) (t : τ) : (as.map BarrierEvent.arrive).count (.leave t) = 0 := by
  rw [List.count_eq_zero]
  simp

/-- As many different threads as there are are all of them. -/
theorem mem_of_length (hnodup : as.Nodup) (hlen : as.length = Fintype.card τ) (t : τ) : t ∈ as := by
  have huniv : as.toFinset = Finset.univ := by
    rw [← Finset.card_eq_iff_eq_univ, List.toFinset_card_of_nodup hnodup, hlen]
  rw [← List.mem_toFinset, huniv]
  exact Finset.mem_univ t

/-- Every thread leaves once in a round of all threads. -/
theorem leaves_of_isRound {es : List (BarrierEvent τ)} (h : IsRound (Fintype.card τ) es) (t : τ) :
    es.count (.leave t) = 1 := by
  obtain ⟨as, ls, rfl, hlen, hnodup, hperm⟩ := h
  rw [List.count_append, count_arrive_map, count_leave_map, hperm.count_eq, Nat.zero_add]
  exact List.count_eq_one_of_mem hnodup (mem_of_length hnodup hlen t)

/-- **All threads have cleared the barricades of the complete rounds**, and those that have left the
current round one more. -/
theorem cleared_eq (h : Rounds (Fintype.card τ) log as ls) :
    ∃ q, ∀ t, log.count (.leave t) = q + ls.count t := by
  obtain ⟨rounds, rfl, hall⟩ := h.log_eq
  refine ⟨rounds.length, fun t => ?_⟩
  have hrounds : rounds.flatten.count (.leave t) = rounds.length := by
    clear h
    induction rounds with
    | nil => rfl
    | cons r rounds ih =>
        rw [List.flatten_cons, List.count_append, leaves_of_isRound (hall r (by simp)) t,
          ih fun r' hr' => hall r' (by simp [hr'])]
        rw [List.length_cons]
        omega
  rw [List.count_append, hrounds, List.count_append, count_arrive_map, count_leave_map, Nat.zero_add]

end Rounds

section Weights

/-- What a thread that is seen at the barrier can do before its call returns. -/
def slack : Status BarrierCv BarrierLoc → Nat
  | .running _ => 4
  | .notified .busyCv _ => 3
  | .waiting .busyCv _ => 2
  | .notified .cv _ => 1
  | .waiting .cv _ => 0

/-- What a thread can still do.  A call that returns may wake up all `N` threads. -/
def demoWeight (N R : Nat) (st : Status BarrierCv (BarrierLoc × Nat)) : Nat :=
  (R - st.loc.2) * (N + 4) + slack (st.map Prod.fst)

theorem demoWeight_notified (c : BarrierCv) (l : BarrierLoc × Nat) :
    demoWeight N R (.notified c l) ≤ demoWeight N R (.waiting c l) + 1 := by
  cases c <;> exact Nat.le_refl _

theorem slack_of_awake {st : Status BarrierCv BarrierLoc} (hp : Placed st)
    (hawake : st.isWaiting = false) :
    1 ≤ slack st ∧ (st.loc ≠ .barricaded → 3 ≤ slack st) := by
  cases st with
  | running l => simp [slack]
  | waiting c l => cases hawake
  | notified c l =>
      rcases hp with ⟨rfl, rfl⟩ | ⟨rfl, rfl⟩
      · simp [slack]
      · simp [slack]

/-- **Every step** takes more weight from its thread than it gives to those it wakes up. -/
theorem demo_weigh_lt (hp : Placed ((component s).thr t))
    (hran : (clientProgram (threadFnCallback τ R) (barrierProgram τ)).Ran s t () s' notes st) :
    weigh s'.thr (fun _ => demoWeight (Fintype.card τ) R) <
      weigh s.thr fun _ => demoWeight (Fintype.card τ) R := by
  obtain ⟨hlt, st₀, rfl, hmove⟩ := demoMove_of_ran hran
  have hawake : ((component s).thr t).isWaiting = false := by
    rw [← hran.awake]
    exact Status.isWaiting_map Prod.fst (s.thr t)
  obtain ⟨hone, hthree⟩ := slack_of_awake hp hawake
  rw [show ((component s).thr t).loc = (s.thr t).loc.1 from Status.loc_map _ _] at hthree
  have hold : demoWeight (Fintype.card τ) R (s.thr t) =
      (R - (s.thr t).loc.2) * (Fintype.card τ + 4) + slack ((component s).thr t) := rfl
  -- a call is worth enough to pay for everybody it wakes up
  have hcall : (R - (s.thr t).loc.2) * (Fintype.card τ + 4) =
      (R - ((s.thr t).loc.2 + 1)) * (Fintype.card τ + 4) + (Fintype.card τ + 4) := by
    rw [← Nat.succ_mul]
    congr 1
    omega
  have hle := hran.weigh_le (fun _ => demoWeight (Fintype.card τ) R) fun _ c l => demoWeight_notified c l
  have hsilent : notes = [] → _ := fun hnotes => by
    subst hnotes
    exact hran.weigh_of_nil fun _ => demoWeight (Fintype.card τ) R
  generalize (s.thr t).loc = l at hmove hthree hold hcall hle hsilent
  generalize s'.mem.1 = m' at hmove
  rw [hold] at hle
  obtain ⟨l, r⟩ := l
  dsimp only at hmove hthree hold hcall hle hsilent
  cases hmove with
  | busy hl hbusy =>
      have heq := hsilent rfl
      have hnew : demoWeight (Fintype.card τ) R (.waiting .busyCv (.busy, r)) =
        (R - r) * (Fintype.card τ + 4) + 2 := rfl
      have := hthree hl
      simp only [Status.inCall, hold, hnew] at heq
      omega
  | arrive hl hready hlast =>
      have heq := hsilent rfl
      have hnew : demoWeight (Fintype.card τ) R (.waiting .cv (.barricaded, r)) =
        (R - r) * (Fintype.card τ + 4) + 0 := rfl
      have := hthree hl
      simp only [Status.inCall, hold, hnew] at heq
      omega
  | last hl hready hlast =>
      -- the last thread is through with its call and wakes one
      have hnew : demoWeight (Fintype.card τ) R (.running (.idle, r + 1)) =
        (R - (r + 1)) * (Fintype.card τ + 4) + 4 := rfl
      have := hthree hl
      simp only [Status.inCall, hnew] at hle
      omega
  | reopen hlast =>
      -- the last to leave wakes all that wait for the next round
      have hnew : demoWeight (Fintype.card τ) R (.running (.idle, r + 1)) =
        (R - (r + 1)) * (Fintype.card τ + 4) + 4 := rfl
      simp only [Status.inCall, hnew] at hle
      omega
  | leave hlast =>
      have hnew : demoWeight (Fintype.card τ) R (.running (.idle, r + 1)) =
        (R - (r + 1)) * (Fintype.card τ + 4) + 4 := rfl
      simp only [Status.inCall, hnew] at hle
      omega

end Weights

section Ends

/-- The demo is over: all threads have cleared all barricades, and the barrier is as it was. -/
def DemoOver (count : UInt32) (R : Nat) (s : DemoConfig τ) : Prop :=
  (∀ t, s.thr t = .running (.idle, R)) ∧ s.mem.1.barrier = threadBarrierInit count

/-- Where no step is left, who is awake has ended. -/
theorem cleared_of_stuck (hstuck : (barrierDemo τ count R).Stuck (fun _ _ => True) s)
    (hawake : (s.thr t).isWaiting = false) : R ≤ (s.thr t).loc.2 := by
  by_contra hlt
  obtain ⟨m', notes, st, hexec⟩ := barrierExec_done t (s.thr t).loc.1 s.mem.1
  have hdone : (clientProgram (threadFnCallback τ R) (barrierProgram τ)).exec t (s.thr t).loc () s.mem =
      .done (m', s.mem.2) notes (st.inCall (s.thr t).loc.2 ((s.thr t).loc.2 + 1)) := by
    simp only [clientProgram, threadFnCallback, if_pos (Nat.lt_of_not_le hlt)]
    rw [show (barrierProgram τ).exec t (s.thr t).loc.1 () s.mem.1 = .done m' notes st from hexec]
  exact Program.not_done_of_stuck hstuck hawake (fun _ => trivial) hdone

/-- **Where the demo ends**: when no step is left, all threads have ended. -/
theorem demoOver_of_stuck (hN : 2 ≤ count.toNat) (hcard : Fintype.card τ = count.toNat)
    (h : (barrierDemo τ count R).Reachable s)
    (hstuck : (barrierDemo τ count R).Stuck (fun _ _ => True) s) :
    DemoOver count R s := by
  have hbarrier := barrier_reachable h
  obtain ⟨as, ls, hinv⟩ := barrierInv_reachable hN hbarrier
  have hblocked : ∀ t, (∃ l, s.thr t = .running l) ∨ (s.thr t).loc.2 < R := by
    intro t
    rcases blockedInCalls_reachable (fun s hs t => ⟨_, hs.2 t⟩) h t with hrun | ⟨x, ψ, hcall⟩
    · exact .inl hrun
    · right
      simp only [threadFnCallback] at hcall
      split at hcall
      · next hlt => exact hlt
      · cases hcall
  have hloc : ∀ t, ((component s).thr t).loc = (s.thr t).loc.1 := fun t => Status.loc_map _ _
  have hstatus : ∀ t, ((component s).thr t).isWaiting = (s.thr t).isWaiting :=
    fun t => Status.isWaiting_map _ _
  have hrounds := hinv.rounds
  rw [← hcard] at hrounds
  obtain ⟨q, hq⟩ := cleared_eq hrounds
  have hcleared : ∀ t, (s.thr t).loc.2 = q + ls.count t := fun t => (leaves_eq h t).1.symm.trans (hq t)
  cases hinv.phase with
  | releasing ready full ne lt token =>
      -- the thread that was woken last could go on
      obtain ⟨t, htoken, -⟩ := token
      have hawake : (s.thr t).isWaiting = false := by
        rw [← hstatus, show (component s).thr t = _ from htoken]
        rfl
      have hdone := cleared_of_stuck hstuck hawake
      rcases hblocked t with ⟨l, hl⟩ | hlt
      · have hmap : (component s).thr t = .running l.1 := congrArg (Status.map Prod.fst) hl
        rw [show (component s).thr t = _ from htoken] at hmap
        cases hmap
      · omega
  | gathering ready lt token =>
      have hlevel : ∀ t, (s.thr t).loc.2 = q := fun t => by rw [hcleared t]; rfl
      by_cases hover : R ≤ q
      · have hidle : ∀ t, s.thr t = .running (.idle, R) := by
          intro t
          rcases hblocked t with ⟨l, hl⟩ | hlt
          · have hplaced := hinv.placed t
            rw [show (component s).thr t = .running l.1 from congrArg (Status.map Prod.fst) hl] at hplaced
            have hR := (leaves_eq h t).2
            have hq' := hlevel t
            rw [hl, Status.loc_running] at hR hq'
            have hend : l = (.idle, R) := Prod.ext hplaced (by omega)
            rw [hl, hend]
          · have := hlevel t
            omega
        refine ⟨hidle, ?_⟩
        have hnobody : as = [] := by
          rw [List.eq_nil_iff_forall_not_mem]
          intro t ht
          have hround : ((component s).thr t).loc = .barricaded := (hinv.staying t).mpr ⟨ht, by simp⟩
          rw [hloc, hidle t] at hround
          cases hround
        have hcount := hinv.count
        rw [hnobody] at hcount
        have hthreshold := hinv.threshold
        generalize hb : s.mem.1.barrier = b
        rw [show (component s).mem.barrier = b from hb] at hcount hthreshold ready
        cases b
        simp only [List.length_nil, Nat.add_zero] at hcount
        simp only at hthreshold ready
        rw [hcount, hthreshold, ready]
        rfl
      · -- all threads wait for the others, so there are enough of them
        have hall : ∀ t, t ∈ as := by
          intro t
          have hwaiting : (s.thr t).isWaiting = true := by
            by_contra hawake
            have := cleared_of_stuck hstuck (by simpa using hawake)
            have := hlevel t
            omega
          rw [← hstatus] at hwaiting
          obtain ⟨c, l, hw⟩ := Status.isWaiting_iff.mp hwaiting
          have hplaced := hinv.placed t
          rw [hw] at hplaced
          rcases hplaced with ⟨rfl, rfl⟩ | ⟨rfl, rfl⟩
          · rw [busy_closed hbarrier t hw] at ready
            cases ready
          · exact ((hinv.staying t).mp (congrArg Status.loc hw)).1
        have hle : Fintype.card τ ≤ as.length := by
          rw [← Finset.card_univ, ← List.toFinset_card_of_nodup hinv.rounds.nodup]
          exact Finset.card_le_card fun t _ => List.mem_toFinset.mpr (hall t)
        omega

/-- No thread is more than one barricade ahead of another. -/
theorem cleared_le (hN : 2 ≤ count.toNat) (hcard : Fintype.card τ = count.toNat)
    (h : (barrierDemo τ count R).Reachable s) (t u : τ) : (s.thr t).loc.2 ≤ (s.thr u).loc.2 + 1 := by
  obtain ⟨as, ls, hinv⟩ := barrierInv_reachable hN (barrier_reachable h)
  have hrounds := hinv.rounds
  rw [← hcard] at hrounds
  obtain ⟨q, hq⟩ := cleared_eq hrounds
  have hone := List.nodup_iff_count_le_one.mp hinv.rounds.left_nodup t
  have ht := (leaves_eq h t).1.symm.trans (hq t)
  have hu := (leaves_eq h u).1.symm.trans (hq u)
  omega

/-- **The demo ends**: with as many threads as the threshold, no run is long, in every run that
cannot go on all threads have cleared all barricades and the barrier is as in the beginning, and at
no time is one thread more than one barricade ahead of another. -/
theorem barrierDemo_ends (hN : 2 ≤ count.toNat) (hcard : Fintype.card τ = count.toNat) :
    (barrierDemo τ count R).Ends (fun _ _ => True) (demoStart τ count)
        (count.toNat * (R * (count.toNat + 4) + 4)) (DemoOver count R) ∧
      ∀ s, (barrierDemo τ count R).Reachable s → ∀ t u, (s.thr t).loc.2 ≤ (s.thr u).loc.2 + 1 := by
  refine ⟨?_, fun s h t u => cleared_le hN hcard h t u⟩
  have hstart : weigh (demoStart τ count).thr (fun _ => demoWeight (Fintype.card τ) R) =
      count.toNat * (R * (count.toNat + 4) + 4) := by
    rw [← hcard]
    have hsum : ∑ t : τ, demoWeight (Fintype.card τ) R ((demoStart τ count).thr t) =
        Finset.univ.card * (R * (Fintype.card τ + 4) + 4) := Finset.sum_const_nat fun _ _ => rfl
    rwa [Finset.card_univ] at hsum
  rw [← hstart]
  apply Machine.Ends.of_rank (R := fun s k => (barrierDemo τ count R).Reachable s ∧
    k = weigh s.thr fun _ => demoWeight (Fintype.card τ) R)
  · rintro s a s' k ⟨hreach, rfl⟩ _ hstep
    refine ⟨_, ?_, .step hreach trivial hstep, rfl⟩
    cases a with
    | run t x picks =>
        obtain ⟨notes, st, hran⟩ := Program.ran_of_step hstep
        obtain ⟨as, ls, hinv⟩ := barrierInv_reachable hN (barrier_reachable hreach)
        exact demo_weigh_lt (hinv.placed t) hran
    | spurious t =>
        obtain ⟨hsp, -⟩ := Program.spurious_of_step hstep
        cases hsp
  · rintro s k ⟨hreach, -⟩ hstuck
    exact demoOver_of_stuck hN hcard hreach hstuck
  · exact ⟨.init ⟨rfl, fun _ => rfl⟩, rfl⟩

/-- Three threads and three barricades, as in the program. -/
theorem barrierDemo_ends_three :
    (barrierDemo (Fin 3) 3 3).Ends (fun _ _ => True) (demoStart (Fin 3) 3) 75 (DemoOver 3 3) :=
  (barrierDemo_ends (by decide) (by decide)).1

end Ends

end ThreadLib
end MultithreadingBible
