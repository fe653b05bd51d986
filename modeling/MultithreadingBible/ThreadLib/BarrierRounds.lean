import MultithreadingBible.ThreadLib.Barrier

/-!
# Thread barrier: rounds

The log of a barrier with a threshold of at least two splits into rounds (`barrier_rounds`): as many
arrivals as the threshold says, by different threads, and then the same threads leaving.  No arrival
of a round is logged before everybody has left the previous one.

* `IsRound` / `Rounds` — what a round is, and a log that consists of rounds and a last, possibly
  unfinished one.
* `BarrierPhase` — while the barrier is open nobody was woken; while it is closed exactly one waiter
  was, who passes the token on when it leaves.
* `BarrierInv` — the invariant of all runs.

With a threshold of one the barrier closes and nobody opens it again (`barrier_unjammed`).
-/

namespace MultithreadingBible
namespace ThreadLib

open Lib

section Rounds

variable {τ : Type*} {N : Nat} {log : List (BarrierEvent τ)} {as ls : List τ} {t : τ}

/-- `N` threads arrive, and then the same threads leave. -/
def IsRound (N : Nat) (es : List (BarrierEvent τ)) : Prop :=
  ∃ as ls : List τ, es = as.map .arrive ++ ls.map .leave ∧ as.length = N ∧ as.Nodup ∧ ls.Perm as

/-- Complete rounds followed by the arrivals `as` and the departures `ls` of the current one. -/
structure Rounds (N : Nat) (log : List (BarrierEvent τ)) (as ls : List τ) : Prop where
  log_eq : ∃ rounds : List (List (BarrierEvent τ)),
    log = rounds.flatten ++ (as.map .arrive ++ ls.map .leave) ∧ ∀ r ∈ rounds, IsRound N r
  nodup : as.Nodup
  left_nodup : ls.Nodup
  left_subset : ls ⊆ as
  /-- Nobody leaves before all have arrived. -/
  full : ls ≠ [] → as.length = N

theorem Rounds.nil : Rounds N ([] : List (BarrierEvent τ)) [] [] where
  log_eq := ⟨[], rfl, by simp⟩
  nodup := List.nodup_nil
  left_nodup := List.nodup_nil
  left_subset := List.Subset.refl _
  full h := absurd rfl h

/-- A call arrives in a round that nobody has left. -/
theorem Rounds.arrive (h : Rounds N log as []) (ht : t ∉ as) :
    Rounds N (log ++ [.arrive t]) (as ++ [t]) [] where
  log_eq := by
    obtain ⟨rounds, hlog, hall⟩ := h.log_eq
    exact ⟨rounds, by simp [hlog], hall⟩
  nodup := by
    rw [← List.concat_eq_append]
    exact h.nodup.concat ht
  left_nodup := List.nodup_nil
  left_subset := List.nil_subset _
  full hne := absurd rfl hne

/-- A thread of a full round leaves. -/
theorem Rounds.leave (h : Rounds N log as ls) (hfull : as.length = N) (hmem : t ∈ as)
    (hnot : t ∉ ls) : Rounds N (log ++ [.leave t]) as (ls ++ [t]) where
  log_eq := by
    obtain ⟨rounds, hlog, hall⟩ := h.log_eq
    exact ⟨rounds, by simp [hlog], hall⟩
  nodup := h.nodup
  left_nodup := by
    rw [← List.concat_eq_append]
    exact h.left_nodup.concat hnot
  left_subset := by
    intro u hu
    rcases List.mem_append.mp hu with hu | hu
    · exact h.left_subset hu
    · rw [List.mem_singleton.mp hu]
      exact hmem
  full _ := hfull

theorem Rounds.perm (h : Rounds N log as ls) (hlen : as.length ≤ ls.length) : ls.Perm as :=
  (h.left_nodup.subperm h.left_subset).perm_of_length_le hlen

/-- When everybody has left, the round is complete. -/
theorem Rounds.complete (h : Rounds N log as ls) (hne : ls ≠ []) (hlen : as.length ≤ ls.length) :
    Rounds N log [] [] where
  log_eq := by
    obtain ⟨rounds, hlog, hall⟩ := h.log_eq
    refine ⟨rounds ++ [as.map .arrive ++ ls.map .leave], by simp [hlog], ?_⟩
    intro r hr
    rcases List.mem_append.mp hr with hr | hr
    · exact hall r hr
    · rw [List.mem_singleton.mp hr]
      exact ⟨as, ls, rfl, h.full hne, h.nodup, h.perm hlen⟩
  nodup := List.nodup_nil
  left_nodup := List.nodup_nil
  left_subset := List.Subset.refl _
  full h := absurd rfl h

/-- As long as fewer have left than have arrived, somebody is still to leave. -/
theorem Rounds.exists_staying (h : Rounds N log as ls) (hlt : ls.length < as.length) :
    ∃ u ∈ as, u ∉ ls := by
  by_contra hno
  have hsub : as ⊆ ls := by
    intro u hu
    by_contra hul
    exact hno ⟨u, hu, hul⟩
  have := (h.nodup.subperm hsub).length_le
  omega

end Rounds

variable {τ : Type*}

/-- A call that was counted and has not returned. -/
def inRound (s : BarrierConfig τ) (t : τ) : Prop := (s.thr t).loc = .barricaded

/-- What the rounds say about the state. -/
structure RoundsOk (N : Nat) (s : BarrierConfig τ) (as ls : List τ) : Prop where
  rounds : Rounds N s.mem.log as ls
  /-- The calls of the current round that have not returned. -/
  staying : ∀ t, inRound s t ↔ t ∈ as ∧ t ∉ ls
  count : s.mem.barrier.currWaitCount + ls.length = as.length
  arrived_le : as.length ≤ N
  left_lt : ls.length < N
  /-- Between two rounds the barrier is open and nobody waits. -/
  between : as = [] → s.mem.barrier.currWaitCount = 0 ∧ s.mem.barrier.isReadyAgain = true

/-- A status that a thread can have. -/
def Placed : Status BarrierCv BarrierLoc → Prop
  | .running l => l = .idle
  | .waiting c l | .notified c l => (c = .busyCv ∧ l = .busy) ∨ (c = .cv ∧ l = .barricaded)

/-- Woken while waiting for the others. -/
def hasToken (s : BarrierConfig τ) (t : τ) : Prop := s.thr t = .notified .cv .barricaded

/-- The two phases of a barrier. -/
inductive BarrierPhase (N : Nat) (s : BarrierConfig τ) : List τ → List τ → Prop
  | gathering {as : List τ} (ready : s.mem.barrier.isReadyAgain = true) (lt : as.length < N)
      (token : ∀ t, ¬ hasToken s t) : BarrierPhase N s as []
  | releasing {as ls : List τ} (ready : s.mem.barrier.isReadyAgain = false) (full : as.length = N)
      (ne : ls ≠ []) (lt : ls.length < N)
      (token : ∃ t, hasToken s t ∧ ∀ u, hasToken s u → u = t) : BarrierPhase N s as ls

/-- The invariant of all runs. -/
structure BarrierInv (N : Nat) (s : BarrierConfig τ) (as ls : List τ) : Prop where
  rounds : Rounds N s.mem.log as ls
  staying : ∀ t, inRound s t ↔ t ∈ as ∧ t ∉ ls
  count : s.mem.barrier.currWaitCount + ls.length = as.length
  threshold : s.mem.barrier.threshold = N
  placed : ∀ t, Placed (s.thr t)
  phase : BarrierPhase N s as ls

theorem BarrierInv.ok {N : Nat} {s : BarrierConfig τ} {as ls : List τ} (h : BarrierInv N s as ls) :
    RoundsOk N s as ls := by
  refine ⟨h.rounds, h.staying, h.count, ?_, ?_, ?_⟩
  · cases h.phase with
    | gathering ready lt token => exact Nat.le_of_lt lt
    | releasing ready full ne lt token => exact Nat.le_of_eq full
  · cases h.phase with
    | gathering ready lt token => exact Nat.lt_of_le_of_lt (Nat.zero_le _) lt
    | releasing ready full ne lt token => exact lt
  · rintro rfl
    cases h.phase with
    | gathering ready lt token =>
        have := h.count
        exact ⟨this, ready⟩
    | releasing ready full ne lt token =>
        rw [← full] at lt
        exact absurd lt (Nat.not_lt_zero _)

section Steps

variable {N : Nat} {count : UInt32} {s s' : BarrierConfig τ} {as ls : List τ} {t u : τ}

theorem not_placed_running_barricaded {l : BarrierLoc} (h : Placed (.running l)) :
    l ≠ .barricaded := by
  intro hl
  rw [hl] at h
  cases h

/-- A thread in the wait for the others waits for its turn, unless it has it. -/
theorem Placed.waiting_or_notified {st : Status BarrierCv BarrierLoc} (h : Placed st)
    (hl : st.loc = .barricaded) :
    st = .waiting .cv .barricaded ∨ st = .notified .cv .barricaded := by
  cases st with
  | running l => exact absurd hl (not_placed_running_barricaded h)
  | waiting c l =>
      rcases h with ⟨-, hbusy⟩ | ⟨hc, hin⟩
      · exact absurd (hbusy.symm.trans hl) (by simp)
      · exact .inl (by rw [hc, hin])
  | notified c l =>
      rcases h with ⟨-, hbusy⟩ | ⟨hc, hin⟩
      · exact absurd (hbusy.symm.trans hl) (by simp)
      · exact .inr (by rw [hc, hin])

/-- A thread that runs in the wait for the others was woken. -/
theorem Placed.token_of_awake (h : Placed (s.thr u)) (hl : (s.thr u).loc = .barricaded)
    (hawake : (s.thr u).isWaiting = false) : hasToken s u := by
  rcases h.waiting_or_notified hl with hw | htoken
  · rw [hw] at hawake
    cases hawake
  · exact htoken

theorem BarrierInv.waiting_of_inRound (h : BarrierInv N s as ls) (hu : inRound s u)
    (hno : ¬ hasToken s u) : s.thr u = .waiting .cv .barricaded :=
  ((h.placed u).waiting_or_notified hu).resolve_right hno

/-- In the gathering phase a thread that comes to the barrier is counted. -/
theorem BarrierInv.gathering (h : BarrierInv N s as ls) (hlt : N < 2 ^ 32)
    (hready : s.mem.barrier.isReadyAgain = true) :
    ls = [] ∧ as.length < N ∧ countUp 32 s.mem.barrier.currWaitCount = as.length + 1 ∧
      ∀ v, ¬ hasToken s v := by
  have hcount := h.count
  cases h.phase with
  | gathering ready lt token =>
      rw [List.length_nil, Nat.add_zero] at hcount
      refine ⟨rfl, lt, ?_, token⟩
      rw [hcount, countUp_eq (by omega)]
  | releasing ready => exact absurd (ready.symm.trans hready) (by simp)

/-- A thread with the token belongs to a closed round and leaves it. -/
theorem BarrierInv.releasing (h : BarrierInv N s as ls) (ht : hasToken s t) :
    s.mem.barrier.isReadyAgain = false ∧ as.length = N ∧ t ∈ as ∧ t ∉ ls ∧
      countDown 32 s.mem.barrier.currWaitCount + (ls.length + 1) = as.length ∧
      ∀ v, v ≠ t → ¬ hasToken s v := by
  have hin : inRound s t := by
    unfold inRound
    rw [ht]
    rfl
  obtain ⟨hmem, hnot⟩ := (h.staying t).mp hin
  have hcount := h.count
  cases h.phase with
  | gathering ready lt token => exact absurd ht (token t)
  | releasing ready full ne lt token =>
      obtain ⟨w, -, hw⟩ := token
      refine ⟨ready, full, hmem, hnot, ?_, ?_⟩
      · rw [countDown_eq (by omega)]
        omega
      · intro v hvt hv
        exact hvt ((hw v hv).trans (hw t ht).symm)

/-- A thread outside its round is not among the calls of it. -/
theorem BarrierInv.not_staying (h : BarrierInv N s as ls) (hne : (s.thr t).loc ≠ .barricaded) :
    ¬ (t ∈ as ∧ t ∉ ls) :=
  fun hin => hne ((h.staying t).mpr hin)

variable [DecidableEq τ] {x : Unit} {picks : List (Option τ)} {notes : List (Note BarrierCv)}
  {st : Status BarrierCv BarrierLoc} {m : BarrierMem τ}

theorem BarrierInv.placed_step (h : BarrierInv N s as ls)
    (hran : (barrierProgram τ).Ran s t x s' notes st) (hst : Placed st) (u : τ) :
    Placed (s'.thr u) :=
  hran.forall_status (p := fun _ => Placed) h.placed hst (fun _ _ _ hp => hp) u

theorem inRound_of_ne (hran : (barrierProgram τ).Ran s t x s' notes st) (hu : u ≠ t) :
    inRound s' u ↔ inRound s u := by
  unfold inRound
  rw [hran.loc_of_ne hu]

/-- A thread that does not move gets the token only through a signal of `cv`. -/
theorem hasToken_of_ne {χ : Type*} {P : Program τ (BarrierMem τ) BarrierCv BarrierLoc χ} {y : χ}
    (hran : P.Ran s t y s' notes st)
    (hnotes : .signal .cv ∉ notes ∧ .broadcast .cv ∉ notes) (hu : u ≠ t) :
    hasToken s' u ↔ hasToken s u := by
  unfold hasToken
  rcases hran.other hu with hsame | ⟨c, l, hw, hn, hmem⟩
  · rw [hsame]
  · rw [hw, hn]
    constructor
    · intro heq
      cases heq
      exact absurd hmem (by simp [hnotes.1, hnotes.2])
    · intro heq
      cases heq

theorem not_hasToken_self {χ : Type*} {P : Program τ (BarrierMem τ) BarrierCv BarrierLoc χ} {y : χ}
    (hran : P.Ran s t y s' notes st) (hst : st ≠ .notified .cv .barricaded) : ¬ hasToken s' t := by
  unfold hasToken
  rw [hran.self]
  exact hst

/-- The calls of the round after `t` joined it. -/
theorem BarrierInv.staying_step (h : BarrierInv N s as ls)
    (hran : (barrierProgram τ).Ran s t x s' notes st) {as' ls' : List τ}
    (hself : st.loc = .barricaded ↔ t ∈ as' ∧ t ∉ ls')
    (hothers : ∀ v, v ≠ t → ((v ∈ as' ∧ v ∉ ls') ↔ (v ∈ as ∧ v ∉ ls))) (v : τ) :
    inRound s' v ↔ v ∈ as' ∧ v ∉ ls' := by
  by_cases hv : v = t
  · rw [hv, ← hself]
    unfold inRound
    rw [hran.self]
  · rw [inRound_of_ne hran hv, h.staying, hothers v hv]

/-- A thread finds the barrier closed. -/
theorem BarrierInv.busy (h : BarrierInv N s as ls)
    (hran : (barrierProgram τ).Ran s t x s' [] (.waiting .busyCv .busy))
    (hne : (s.thr t).loc ≠ .barricaded) (hbusy : s.mem.barrier.isReadyAgain = false)
    (hm : s'.mem = s.mem) : BarrierInv N s' as ls := by
  refine ⟨?_, ?_, ?_, ?_, h.placed_step hran (.inl ⟨rfl, rfl⟩), ?_⟩
  · rw [hm]; exact h.rounds
  · apply h.staying_step hran
    · simp [h.not_staying hne]
    · simp
  · rw [hm]; exact h.count
  · rw [hm]; exact h.threshold
  · cases h.phase with
    | gathering ready => exact absurd (hbusy.symm.trans ready) (by simp)
    | releasing ready full ne lt token =>
        obtain ⟨w, hw, huniq⟩ := token
        have hwt : w ≠ t := by
          rintro rfl
          unfold hasToken at hw
          rw [hw] at hne
          exact hne rfl
        refine .releasing (by rw [hm]; exact ready) full ne lt ⟨w, ?_, ?_⟩
        · exact (hasToken_of_ne hran (by simp) hwt).mpr hw
        · intro v hv
          by_cases hvt : v = t
          · exact absurd (hvt ▸ hv) (not_hasToken_self hran (by simp))
          · exact huniq v ((hasToken_of_ne hran (by simp) hvt).mp hv)

/-- A thread arrives and waits for the others. -/
theorem BarrierInv.arrive (h : BarrierInv N s as [])
    (hup : countUp 32 s.mem.barrier.currWaitCount = as.length + 1) (hlen : as.length + 1 < N)
    (hready : s.mem.barrier.isReadyAgain = true) (hnone : ∀ v, ¬ hasToken s v)
    (hran : (barrierProgram τ).Ran s t x s' [] (.waiting .cv .barricaded))
    (hne : (s.thr t).loc ≠ .barricaded)
    (hm : s'.mem = ⟨{ s.mem.barrier with currWaitCount := countUp 32 s.mem.barrier.currWaitCount },
      s.mem.log ++ [.arrive t]⟩) : BarrierInv N s' (as ++ [t]) [] := by
  have hnew : t ∉ as := fun hmem => h.not_staying hne ⟨hmem, by simp⟩
  refine ⟨?_, ?_, ?_, ?_, h.placed_step hran (.inr ⟨rfl, rfl⟩), ?_⟩
  · rw [hm]
    exact h.rounds.arrive hnew
  · apply h.staying_step hran
    · simp
    · intro v hv
      simp [hv]
  · rw [hm]
    simp [hup]
  · rw [hm]; exact h.threshold
  · refine .gathering (by rw [hm]; exact hready) (by simpa using hlen) ?_
    intro v hv
    by_cases hvt : v = t
    · exact not_hasToken_self hran (by simp) (hvt ▸ hv)
    · exact hnone v ((hasToken_of_ne hran (by simp) hvt).mp hv)

/-- The last waiter leaves and opens the barrier. -/
theorem BarrierInv.reopen (h : BarrierInv N s as ls) (hN : 0 < N) (hfull : as.length = N)
    (hmem : t ∈ as) (hnot : t ∉ ls) (hlen : ls.length + 1 = as.length)
    (hnone : ∀ v, v ≠ t → ¬ hasToken s v)
    (hran : (barrierProgram τ).Ran s t x s' [.broadcast .busyCv] (.running .idle))
    (hm : s'.mem = ⟨{ s.mem.barrier with currWaitCount := 0, isReadyAgain := true },
      s.mem.log ++ [.leave t]⟩) : BarrierInv N s' [] [] := by
  have hleave := h.rounds.leave hfull hmem hnot
  have hlen' : as.length ≤ (ls ++ [t]).length := by
    rw [List.length_append, List.length_singleton, hlen]
  have hperm := hleave.perm hlen'
  refine ⟨?_, ?_, ?_, ?_, h.placed_step hran rfl, ?_⟩
  · rw [hm]
    exact hleave.complete (by simp) hlen'
  · intro v
    simp only [List.not_mem_nil, false_and, iff_false]
    intro hv
    by_cases hvt : v = t
    · unfold inRound at hv
      rw [hvt, hran.self] at hv
      cases hv
    · obtain ⟨hva, hvl⟩ := (h.staying v).mp ((inRound_of_ne hran hvt).mp hv)
      have := hperm.mem_iff.mpr hva
      simp [hvl, hvt] at this
  · rw [hm]; rfl
  · rw [hm]; exact h.threshold
  · refine .gathering (by rw [hm]) hN ?_
    intro v hv
    by_cases hvt : v = t
    · exact not_hasToken_self hran (by simp) (hvt ▸ hv)
    · exact hnone v hvt ((hasToken_of_ne hran (by simp) hvt).mp hv)

variable [Fintype τ]

/-- A signal of `cv` hands the token to one of the threads that wait for their turn. -/
theorem BarrierInv.token_of_signal (h : BarrierInv N s as ls)
    (hstep : (barrierProgram τ).step s (.run t x picks) = .next s')
    (hexec : barrierExec t (s.thr t).loc s.mem = .done m [.signal .cv] (.running .idle))
    (hothers : ∀ v, v ≠ t → ¬ hasToken s v) (hex : ∃ v, v ≠ t ∧ inRound s v) :
    ∃ v, hasToken s' v ∧ ∀ w, hasToken s' w → w = v := by
  rcases Program.signal_of_step hexec hstep with ⟨hno, -⟩ | ⟨v, l, hvt, hv, hthr⟩
  · obtain ⟨v, hvt, hv⟩ := hex
    exact absurd (h.waiting_of_inRound hv (hothers v hvt)) (hno v _)
  · have hl : l = .barricaded := by
      have hp := h.placed v
      rw [hv] at hp
      rcases hp with ⟨hc, -⟩ | ⟨-, hl⟩
      · cases hc
      · exact hl
    refine ⟨v, ?_, ?_⟩
    · unfold hasToken
      rw [hthr, Function.update_of_ne hvt, Function.update_self, hl]
    · intro w hw
      unfold hasToken at hw
      by_contra hwv
      by_cases hwt : w = t
      · rw [hwt, hthr, Function.update_self] at hw
        cases hw
      · rw [hthr, Function.update_of_ne hwt, Function.update_of_ne hwv] at hw
        exact hothers w hwt hw

/-- The last thread of a round arrives, closes the barrier, wakes the first waiter and leaves. -/
theorem BarrierInv.last (h : BarrierInv N s as []) (hN : 2 ≤ N) (hlen : as.length + 1 = N)
    (hnone : ∀ v, ¬ hasToken s v)
    (hstep : (barrierProgram τ).step s (.run t x picks) = .next s')
    (hran : (barrierProgram τ).Ran s t x s' [.signal .cv] (.running .idle))
    (hne : (s.thr t).loc ≠ .barricaded)
    (hm : s'.mem = ⟨{ s.mem.barrier with isReadyAgain := false },
      s.mem.log ++ [.arrive t, .leave t]⟩) : BarrierInv N s' (as ++ [t]) [t] := by
  have hnew : t ∉ as := fun hmem => h.not_staying hne ⟨hmem, by simp⟩
  have hfull : (as ++ [t]).length = N := by
    rw [List.length_append, List.length_singleton, hlen]
  have hrounds := (h.rounds.arrive hnew).leave (t := t) hfull (by simp) (by simp)
  have hcount := h.count
  refine ⟨?_, ?_, ?_, ?_, h.placed_step hran rfl, ?_⟩
  · rw [hm]
    simpa using hrounds
  · apply h.staying_step hran
    · simp
    · intro v hv
      simp [hv]
  · rw [hm]
    simpa using hcount
  · rw [hm]; exact h.threshold
  · apply BarrierPhase.releasing (by rw [hm]) hfull (by simp) (by rw [List.length_singleton]; omega)
    refine h.token_of_signal hstep hran.exec (fun v _ => hnone v) ?_
    -- the threshold is at least two, so somebody came before
    obtain ⟨v, hv⟩ := List.exists_mem_of_length_pos (l := as) (by omega)
    exact ⟨v, fun hvt => hnew (hvt ▸ hv), (h.staying v).mpr ⟨hv, by simp⟩⟩

/-- A waiter leaves and wakes the next one. -/
theorem BarrierInv.leave (h : BarrierInv N s as ls) (hfull : as.length = N) (hmem : t ∈ as)
    (hnot : t ∉ ls) (hready : s.mem.barrier.isReadyAgain = false)
    {c : Nat} (hdown : c + (ls.length + 1) = as.length) (hlast : c ≠ 0)
    (hnone : ∀ v, v ≠ t → ¬ hasToken s v)
    (hstep : (barrierProgram τ).step s (.run t x picks) = .next s')
    (hran : (barrierProgram τ).Ran s t x s' [.signal .cv] (.running .idle))
    (hm : s'.mem = ⟨{ s.mem.barrier with currWaitCount := c }, s.mem.log ++ [.leave t]⟩) :
    BarrierInv N s' as (ls ++ [t]) := by
  have hleave := h.rounds.leave hfull hmem hnot
  have hlen : (ls ++ [t]).length < as.length := by
    rw [List.length_append, List.length_singleton]
    omega
  refine ⟨?_, ?_, ?_, ?_, h.placed_step hran rfl, ?_⟩
  · rw [hm]
    exact hleave
  · apply h.staying_step hran
    · simp
    · intro v hv
      simp [hv]
  · rw [hm]
    simpa using hdown
  · rw [hm]; exact h.threshold
  · apply BarrierPhase.releasing (by rw [hm]; exact hready) hfull (by simp)
      (by rw [← hfull]; exact hlen)
    refine h.token_of_signal hstep hran.exec hnone ?_
    obtain ⟨v, hv, hvl⟩ := hleave.exists_staying hlen
    rw [List.mem_append, List.mem_singleton, not_or] at hvl
    exact ⟨v, hvl.2, (h.staying v).mpr ⟨hv, hvl.1⟩⟩

/-- **Every step keeps the invariant**, with the current round extended or a new one begun. -/
theorem BarrierInv.step (h : BarrierInv N s as ls) (hN : 2 ≤ N) (hlt : N < 2 ^ 32)
    (hstep : (barrierProgram τ).step s (.run t x picks) = .next s') :
    ∃ as' ls', BarrierInv N s' as' ls' := by
  obtain ⟨notes, st, hran⟩ := Program.ran_of_step hstep
  have hmove := barrierMove_of_exec hran.exec
  generalize hl : (s.thr t).loc = l at hmove
  generalize hm : s'.mem = m' at hmove
  cases hmove with
  | busy hne hbusy => exact ⟨as, ls, h.busy hran (hl ▸ hne) hbusy hm⟩
  | last hne hready hlast =>
      obtain ⟨rfl, -, hup, hnone⟩ := h.gathering hlt hready
      have hlen : as.length + 1 = N := by rw [← hup, hlast, h.threshold]
      exact ⟨_, _, h.last hN hlen hnone hstep hran (hl ▸ hne) hm⟩
  | arrive hne hready hlast =>
      obtain ⟨rfl, hlen, hup, hnone⟩ := h.gathering hlt hready
      rw [hup, h.threshold] at hlast
      exact ⟨_, _, h.arrive hup (by omega) hready hnone hran (hl ▸ hne) hm⟩
  | reopen hlast =>
      obtain ⟨-, hfull, hmem, hnot, hdown, hnone⟩ :=
        h.releasing ((h.placed t).token_of_awake hl hran.awake)
      rw [hlast] at hm hdown
      exact ⟨_, _, h.reopen (by omega) hfull hmem hnot (by omega) hnone hran hm⟩
  | leave hlast =>
      obtain ⟨hready, hfull, hmem, hnot, hdown, hnone⟩ :=
        h.releasing ((h.placed t).token_of_awake hl hran.awake)
      exact ⟨_, _, h.leave hfull hmem hnot hready hdown hlast hnone hstep hran hm⟩

theorem BarrierInv.init (hN : 0 < N) (hN' : count.toNat = N)
    (h : (barrierMachine τ count).init s) : BarrierInv N s [] [] := by
  obtain ⟨hmem, hthr⟩ := h
  refine ⟨?_, ?_, ?_, ?_, ?_, .gathering ?_ hN ?_⟩
  · rw [hmem]; exact .nil
  · intro t
    unfold inRound
    rw [hthr t]
    simp
  · rw [hmem]; rfl
  · rw [hmem]; exact hN'
  · intro t
    rw [hthr t]
    rfl
  · rw [hmem]; rfl
  · intro t htoken
    unfold hasToken at htoken
    rw [hthr t] at htoken
    cases htoken

theorem barrierInv_reachable (hN : 2 ≤ count.toNat) (h : (barrierMachine τ count).Reachable s) :
    ∃ as ls, BarrierInv count.toNat s as ls := by
  apply h.invariant
  · intro s hs
    exact ⟨[], [], .init (by omega) rfl hs⟩
  · rintro s a s' ⟨as, ls, hinv⟩ _ hstep
    cases a with
    | run t x picks => exact hinv.step hN count.toNat_lt hstep
    | spurious t =>
        obtain ⟨hsp, -⟩ := Program.spurious_of_step hstep
        cases hsp

/-- **Rounds of exactly the threshold**: in every run the calls come in rounds, and between two rounds
the barrier is open and nobody waits. -/
theorem barrier_rounds (hN : 2 ≤ count.toNat) (h : (barrierMachine τ count).Reachable s) :
    ∃ as ls, RoundsOk count.toNat s as ls := by
  obtain ⟨as, ls, hinv⟩ := barrierInv_reachable hN h
  exact ⟨as, ls, hinv.ok⟩

/-- Threads 0 and 1 make a round of two; thread 2 finds the barrier closed and begins the next one. -/
theorem barrier_rounds_trace :
    ∃ s : BarrierConfig (Fin 3), (∃ as ls, RoundsOk 2 s as ls) ∧
      s.mem.log = [.arrive 0, .arrive 1, .leave 1, .leave 0, .arrive 2] := by
  have hrun : ((barrierMachine (Fin 3) 2).exec (freshBarrier (Fin 3) 2)
      [.run 0 () [], .run 1 () [some 0], .run 2 () [], .run 0 () [], .run 2 () []]).holds (fun s =>
        decide (s.mem.log = [.arrive 0, .arrive 1, .leave 1, .leave 0, .arrive 2])) = true := by
    decide +kernel
  obtain ⟨s, hs, hp⟩ := Machine.exists_reachable_of_exec freshBarrier_init hrun
  exact ⟨s, barrier_rounds (by decide) hs, of_decide_eq_true hp⟩

/-- While the barrier is closed somebody is still to leave and was woken. -/
def Unjammed (s : BarrierConfig τ) : Prop :=
  s.mem.barrier.isReadyAgain = false → 0 < s.mem.barrier.currWaitCount ∧ ∃ t, hasToken s t

/-- The barrier never jams. -/
def NeverJams (τ : Type*) [DecidableEq τ] [Fintype τ] (count : UInt32) : Prop :=
  ∀ s, (barrierMachine τ count).Reachable s → Unjammed s

omit [DecidableEq τ] [Fintype τ] in
theorem BarrierInv.unjammed (h : BarrierInv N s as ls) : Unjammed s := by
  intro hclosed
  have hcount := h.count
  cases h.phase with
  | gathering ready => exact absurd (ready.symm.trans hclosed) (by simp)
  | releasing ready full ne lt token =>
      obtain ⟨w, hw, -⟩ := token
      exact ⟨by omega, w, hw⟩

/-- With a threshold of one, the first call closes the barrier and leaves nobody to open it. -/
theorem step_of_threshold_one (h : count.toNat = 1) (t : τ) :
    (barrierProgram τ).step (freshBarrier τ count) (.run t () []) =
      .next ⟨⟨⟨1, 0, false⟩, [.arrive t, .leave t]⟩, fun _ => .running .idle⟩ := by
  have hexec : (barrierProgram τ).exec t .idle () (freshBarrier τ count).mem =
      .done ⟨⟨1, 0, false⟩, [.arrive t, .leave t]⟩ [.signal .cv] (.running .idle) := by
    simp [barrierProgram, barrierExec, threadBarrierBarricade, barricade, Effect.observed,
      barrierEvents, freshBarrier,
      threadBarrierInit, h, countUp_eq]
  have hdeliver : deliverAll (freshBarrier τ count).thr [] [.signal .cv] =
      some (freshBarrier τ count).thr := by
    simp [deliverAll, deliver, freshBarrier, Status.waitsOn]
  simp only [Program.step]
  rw [show ((freshBarrier τ count).thr t).isWaiting = false from rfl,
    show ((freshBarrier τ count).thr t).loc = .idle from rfl, hexec]
  simp only [hdeliver, Bool.false_eq_true, if_false, Outcome.next.injEq, Config.mk.injEq, true_and]
  exact Function.update_eq_self t _

/-- **When the barrier jams**: exactly when its threshold is one and somebody uses it. -/
theorem barrier_unjammed (hN : 1 ≤ count.toNat) :
    NeverJams τ count ↔ count.toNat ≠ 1 ∨ IsEmpty τ := by
  constructor
  · intro hall
    rw [← not_nonempty_iff, ← not_and_or]
    rintro ⟨hone, ⟨t⟩⟩
    have hstep : (barrierMachine τ count).step (freshBarrier τ count) (.run t () []) = .next _ :=
      step_of_threshold_one hone t
    have hreach : (barrierMachine τ count).Reachable _ :=
      .step (.init freshBarrier_init) trivial hstep
    exact absurd (hall _ hreach rfl).1 (Nat.lt_irrefl 0)
  · intro hcase s hreach
    rcases hcase with hne | hempty
    · obtain ⟨as, ls, hinv⟩ := barrierInv_reachable (by omega) hreach
      exact hinv.unjammed
    · -- nobody is there to move
      have hready : s.mem.barrier.isReadyAgain = true := by
        apply hreach.invariant
        · intro s hs
          rw [hs.1]
          rfl
        · intro s a s' _ _ hstep
          cases a with
          | run t => exact hempty.elim t
          | spurious t => exact hempty.elim t
      intro hclosed
      rw [hready] at hclosed
      cases hclosed

theorem barrier_unjammed_two : NeverJams (Fin 3) 2 :=
  (barrier_unjammed (by decide)).mpr (.inl (by decide))

/-- With a threshold of one, the second thread waits for ever on `busy_cv`. -/
theorem barrier_jammed :
    ¬ NeverJams (Fin 2) 1 ∧ ∃ s : BarrierConfig (Fin 2), (barrierMachine (Fin 2) 1).Reachable s ∧
      s.mem.barrier.isReadyAgain = false ∧ s.mem.barrier.currWaitCount = 0 ∧
      s.thr 0 = .running .idle ∧ s.thr 1 = .waiting .busyCv .busy := by
  have hrun : ((barrierMachine (Fin 2) 1).exec (freshBarrier (Fin 2) 1)
      [.run 0 () [], .run 1 () []]).holds (fun s =>
        decide (s.mem.barrier.isReadyAgain = false ∧ s.mem.barrier.currWaitCount = 0 ∧
          s.thr 0 = .running .idle ∧ s.thr 1 = .waiting .busyCv .busy)) = true := by
    decide +kernel
  obtain ⟨s, hs, hp⟩ := Machine.exists_reachable_of_exec freshBarrier_init hrun
  have hstate := of_decide_eq_true hp
  refine ⟨fun hall => ?_, s, hs, hstate⟩
  have hpos := (hall s hs hstate.1).1
  rw [hstate.2.1] at hpos
  exact absurd hpos (Nat.lt_irrefl 0)

end Steps

end ThreadLib
end MultithreadingBible
