import MultithreadingBible.Lib.CondVar

/-!
# A hand-made semaphore

`sema_wait` takes a permit and waits once if there was none; it does not look at the counter again
when its wait returns.  A negative counter is the number of sleepers that were not notified, so that
a wake-up without a notification lets a thread through that has no permit.

* `semaWait`, `semaPost` — the calls; each critical section is one step, and a call is complete when it
  unlocks the mutex.
* `Proper` — the steps other than such wake-ups and overflows of the counter.
* `sema_admits` — in runs of proper steps no more waits are complete than there are permits.
* `sema_overrun` — every other wake-up of a sleeper can be continued to a state where they are.
-/

namespace MultithreadingBible
namespace Semaphores

open Lib

/-- `sema_t`, with the numbers of completed calls. -/
structure Sema where
  permitCounter : Int32
  waits : Nat
  posts : Nat
  deriving DecidableEq

/-- What a thread calls. -/
inductive SemaCall where
  | wait
  | post
  deriving DecidableEq

/-- Where a thread is. -/
inductive SemaLoc where
  | idle
  /-- In the wait of `sema_wait`. -/
  | wait
  deriving DecidableEq

/-- Threads wait on the condition variable of the semaphore. -/
abbrev SemaEffect := Effect Sema Unit SemaLoc

def semaInit (permitCounter : Int32) : Sema where
  permitCounter := permitCounter
  waits := 0
  posts := 0

/-- The end of `sema_wait`, behind its wait. -/
def semaWaitEnd (m : Sema) : SemaEffect :=
  .done { m with waits := m.waits + 1 } [] (.running .idle)

def semaWait (m : Sema) : SemaEffect :=
  let m := { m with permitCounter := m.permitCounter - 1 }
  if m.permitCounter < 0 then .done m [] (.waiting () .wait) else semaWaitEnd m

def semaPost (m : Sema) : SemaEffect :=
  let anyThreadWaiting := decide (m.permitCounter < 0)
  .done { m with permitCounter := m.permitCounter + 1, posts := m.posts + 1 }
    (if anyThreadWaiting then [.signal ()] else []) (.running .idle)

/-- What a thread does next. -/
def semaExec (l : SemaLoc) (x : SemaCall) (m : Sema) : SemaEffect :=
  match l, x with
  | .idle, .wait => semaWait m
  | .idle, .post => semaPost m
  | .wait, _ => semaWaitEnd m

/-- Threads that use one semaphore. -/
def semaProgram (τ : Type*) : Program τ Sema Unit SemaLoc SemaCall where
  exec _ := semaExec
  spuriousWakeups := true

abbrev SemaConfig (τ : Type*) := Config τ Sema Unit SemaLoc

/-- A new semaphore. -/
def newSema (τ : Type*) (permitCounter : Int32) : SemaConfig τ :=
  ⟨semaInit permitCounter, fun _ => .running .idle⟩

/-- All runs of threads that use one semaphore. -/
def semaMachine (τ : Type*) [DecidableEq τ] [Fintype τ] (permitCounter : Int32) :
    Machine (SemaConfig τ) (Act τ SemaCall) :=
  (semaProgram τ).machine fun s => s = newSema τ permitCounter

/-- A call that does not overflow the counter. -/
def SemaCall.fits (permitCounter : Int32) : SemaCall → Prop
  | .wait => permitCounter ≠ Int32.minValue
  | .post => permitCounter ≠ Int32.maxValue

instance (permitCounter : Int32) : DecidablePred (SemaCall.fits permitCounter)
  | .wait => inferInstanceAs (Decidable (permitCounter ≠ Int32.minValue))
  | .post => inferInstanceAs (Decidable (permitCounter ≠ Int32.maxValue))

/-- No wait returns without a notification, and no call overflows the counter. -/
def Proper {τ : Type*} (s : SemaConfig τ) : Act τ SemaCall → Prop
  | .run t x _ => (s.thr t).loc = .idle → x.fits s.mem.permitCounter
  | .spurious _ => False

instance {τ : Type*} (s : SemaConfig τ) : DecidablePred (Proper s)
  | .run t x _ => inferInstanceAs (Decidable ((s.thr t).loc = .idle → x.fits s.mem.permitCounter))
  | .spurious _ => .isFalse id

/-- No more waits are complete than there were permits. -/
def Admitted (p : Int32) (m : Sema) : Prop := (m.waits : Int) ≤ p.toInt + m.posts

section Counter

variable {c : Int32}

theorem toInt_sub_one (h : c ≠ Int32.minValue) : (c - 1).toInt = c.toInt - 1 := by
  have hle := c.le_toInt
  have hlt := c.toInt_lt
  have hne : c.toInt ≠ -2 ^ 31 := by
    rw [← Int32.toInt_minValue]
    exact fun heq => h (Int32.toInt_inj.mp heq)
  rw [Int32.toInt_sub, Int32.toInt_one]
  apply Int.bmod_eq_of_le <;> omega

theorem toInt_add_one (h : c ≠ Int32.maxValue) : (c + 1).toInt = c.toInt + 1 := by
  have hle := c.le_toInt
  have hlt := c.toInt_lt
  have hne : c.toInt ≠ 2 ^ 31 - 1 := by
    rw [← Int32.toInt_maxValue]
    exact fun heq => h (Int32.toInt_inj.mp heq)
  rw [Int32.toInt_add, Int32.toInt_one]
  apply Int.bmod_eq_of_le <;> omega

theorem neg_iff : c < 0 ↔ c.toInt < 0 := by
  rw [Int32.lt_iff_toInt_lt, Int32.toInt_zero]

end Counter

/-- The counter `c` is the number of permits that are left when all sleepers are counted, and a negative
counter counts those of them that were not notified. -/
structure Counts (p c : Int) (waits posts asleep woken : Nat) : Prop where
  counter : c = p + posts - waits - asleep - woken
  sleepers : asleep = (-c).toNat

namespace Counts

variable {p c : Int} {waits posts asleep woken : Nat}

theorem le (h : Counts p c waits posts asleep woken) : (waits + woken : Int) ≤ p + posts := by
  have hcounter := h.counter
  have hsleepers := h.sleepers
  omega

theorem eq_of_asleep (h : Counts p c waits posts asleep woken) (hpos : 0 < asleep) :
    (waits + woken : Int) = p + posts := by
  have hcounter := h.counter
  have hsleepers := h.sleepers
  omega

/-- A wait finds a permit. -/
theorem pass (h : Counts p c waits posts asleep woken) (hc : ¬ c - 1 < 0) :
    Counts p (c - 1) (waits + 1) posts asleep woken := by
  have hcounter := h.counter
  have hsleepers := h.sleepers
  constructor <;> omega

/-- A wait finds no permit. -/
theorem sleep (h : Counts p c waits posts asleep woken) (hc : c - 1 < 0) :
    Counts p (c - 1) waits posts (asleep + 1) woken := by
  have hcounter := h.counter
  have hsleepers := h.sleepers
  constructor <;> omega

/-- A post finds nobody asleep. -/
theorem post (h : Counts p c waits posts asleep woken) (hc : ¬ c < 0) :
    Counts p (c + 1) waits (posts + 1) asleep woken := by
  have hcounter := h.counter
  have hsleepers := h.sleepers
  constructor <;> omega

/-- A post finds somebody asleep. -/
theorem wake (h : Counts p c waits posts (asleep + 1) woken) :
    Counts p (c + 1) waits (posts + 1) asleep (woken + 1) := by
  have hcounter := h.counter
  have hsleepers := h.sleepers
  constructor <;> omega

theorem asleep_pos (h : Counts p c waits posts asleep woken) (hc : c < 0) : 0 < asleep := by
  have hsleepers := h.sleepers
  omega

/-- A sleeper that was woken leaves. -/
theorem leave (h : Counts p c waits posts asleep (woken + 1)) :
    Counts p c (waits + 1) posts asleep woken := by
  have hcounter := h.counter
  have hsleepers := h.sleepers
  constructor <;> omega

end Counts

variable {τ : Type*} [Fintype τ] {p : Int32} {s s' : SemaConfig τ} {t : τ}

/-- The threads that wait and were not notified. -/
def asleep (thr : τ → Status Unit SemaLoc) : Nat := statusCount thr Status.isWaiting

/-- The threads that were woken and did not leave their wait yet. -/
def woken (thr : τ → Status Unit SemaLoc) : Nat := statusCount thr Status.isNotified

/-- The invariant. -/
structure SemaInv (p : Int32) (s : SemaConfig τ) : Prop where
  counts : Counts p.toInt s.mem.permitCounter.toInt s.mem.waits s.mem.posts (asleep s.thr) (woken s.thr)
  shape : ∀ t, s.thr t = .running .idle ∨ s.thr t = .waiting () .wait ∨ s.thr t = .notified () .wait

theorem SemaInv.admitted (h : SemaInv p s) : Admitted p s.mem := by
  have hle := h.counts.le
  unfold Admitted
  omega

theorem SemaInv.fresh (hp : 0 ≤ p.toInt) : SemaInv p (newSema τ p) := by
  have hnone : ∀ q : Status Unit SemaLoc → Bool, q (.running .idle) = false →
      statusCount (newSema τ p).thr q = 0 := by
    intro q hq
    apply Nat.eq_zero_of_not_pos
    rw [statusCount_pos]
    rintro ⟨t, ht⟩
    exact absurd (hq.symm.trans ht) Bool.false_ne_true
  refine ⟨?_, fun t => .inl rfl⟩
  rw [asleep, hnone _ rfl, woken, hnone _ rfl]
  constructor
  · show p.toInt = p.toInt + (0 : Nat) - (0 : Nat) - (0 : Nat) - (0 : Nat)
    omega
  · show 0 = (-p.toInt).toNat
    omega

section Steps

variable [DecidableEq τ] {thr : τ → Status Unit SemaLoc} {st : Status Unit SemaLoc}
  {notes : List (Note Unit)} {m : Sema}

/-- How the sleepers are counted after one thread took a new status. -/
theorem asleep_update (ht : thr t = st) (st' : Status Unit SemaLoc) :
    asleep (Function.update thr t st') + st.isWaiting.toNat = asleep thr + st'.isWaiting.toNat := by
  rw [← ht]
  exact statusCount_update thr Status.isWaiting t st'

theorem woken_update (ht : thr t = st) (st' : Status Unit SemaLoc) :
    woken (Function.update thr t st') + st.isNotified.toNat = woken thr + st'.isNotified.toNat := by
  rw [← ht]
  exact statusCount_update thr Status.isNotified t st'

omit [Fintype τ] in
/-- The statuses of threads stay among the possible ones. -/
theorem shape_update
    (h : ∀ t, thr t = .running .idle ∨ thr t = .waiting () .wait ∨ thr t = .notified () .wait)
    (hst : st = .running .idle ∨ st = .waiting () .wait ∨ st = .notified () .wait) (t u : τ) :
    Function.update thr t st u = .running .idle ∨ Function.update thr t st u = .waiting () .wait ∨
      Function.update thr t st u = .notified () .wait := by
  by_cases hu : u = t
  · rw [hu, Function.update_self]
    exact hst
  · rw [Function.update_of_ne hu]
    exact h u

/-- A thread enters `sema_wait`. -/
theorem SemaInv.step_wait (h : SemaInv p s) (ht : s.thr t = .running .idle)
    (hfits : s.mem.permitCounter ≠ Int32.minValue) (hexec : semaWait s.mem = .done m notes st) :
    notes = [] ∧ SemaInv p ⟨m, Function.update s.thr t st⟩ := by
  have hsub := toInt_sub_one hfits
  simp only [semaWait] at hexec
  split at hexec
  · next hneg =>
    cases hexec
    rw [neg_iff, hsub] at hneg
    have hasleep : asleep (Function.update s.thr t (.waiting () .wait)) = asleep s.thr + 1 :=
      asleep_update ht _
    have hwoken : woken (Function.update s.thr t (.waiting () .wait)) = woken s.thr :=
      woken_update ht _
    refine ⟨rfl, ?_, shape_update h.shape (.inr (.inl rfl)) t⟩
    rw [hasleep, hwoken, hsub]
    exact h.counts.sleep hneg
  · next hnonneg =>
    cases hexec
    rw [neg_iff, hsub] at hnonneg
    have hasleep : asleep (Function.update s.thr t (.running .idle)) = asleep s.thr :=
      asleep_update ht _
    have hwoken : woken (Function.update s.thr t (.running .idle)) = woken s.thr := woken_update ht _
    refine ⟨rfl, ?_, shape_update h.shape (.inl rfl) t⟩
    rw [hasleep, hwoken, hsub]
    exact h.counts.pass hnonneg

/-- A thread that was woken leaves `sema_wait`. -/
theorem SemaInv.step_leave (h : SemaInv p s) (ht : s.thr t = .notified () .wait) :
    SemaInv p ⟨{ s.mem with waits := s.mem.waits + 1 }, Function.update s.thr t (.running .idle)⟩ := by
  have hasleep : asleep (Function.update s.thr t (.running .idle)) = asleep s.thr := asleep_update ht _
  have hwoken : woken (Function.update s.thr t (.running .idle)) + 1 = woken s.thr := woken_update ht _
  have hcounts := h.counts
  rw [← hwoken, ← hasleep] at hcounts
  exact ⟨hcounts.leave, shape_update h.shape (.inl rfl) t⟩

/-- A thread that was woken can leave. -/
theorem leave_step (ht : s.thr t = .notified () .wait) (x : SemaCall) (picks : List (Option τ)) :
    (semaProgram τ).step s (.run t x picks) =
      .next ⟨{ s.mem with waits := s.mem.waits + 1 }, Function.update s.thr t (.running .idle)⟩ := by
  apply Program.step_of_silent (P := semaProgram τ)
  · rw [ht]
    rfl
  · rw [ht]
    rfl

/-- A post wakes a sleeper if there is one. -/
theorem SemaInv.step_post (h : SemaInv p s) (ht : s.thr t = .running .idle)
    (hfits : s.mem.permitCounter ≠ Int32.maxValue) {picks : List (Option τ)}
    (hstep : (semaProgram τ).step s (.run t .post picks) = .next s') : SemaInv p s' := by
  have hadd := toInt_add_one hfits
  obtain ⟨notes, st, hran⟩ := Program.ran_of_step hstep
  have hexec : semaExec (s.thr t).loc .post s.mem = .done s'.mem notes st := hran.exec
  obtain ⟨m', thr'⟩ := s'
  by_cases hneg : s.mem.permitCounter < 0
  · have hsignal : semaExec (s.thr t).loc .post s.mem = .done ⟨s.mem.permitCounter + 1, s.mem.waits,
        s.mem.posts + 1⟩ [.signal ()] (.running .idle) := by
      rw [ht]
      simp [semaExec, semaPost, hneg]
    rw [hsignal] at hexec
    cases hexec
    have hpos := h.counts.asleep_pos (neg_iff.mp hneg)
    rcases Program.signal_of_step (P := semaProgram τ) hsignal hstep with ⟨hno, -⟩ | ⟨u, l, hut, hu, hthr⟩
    · obtain ⟨u, hu⟩ := statusCount_pos.mp hpos
      obtain ⟨c, l, hw⟩ := Status.isWaiting_iff.mp hu
      exact absurd hw (hno u l)
    · replace hthr : thr' = Function.update (Function.update s.thr u (.notified () l)) t
          (.running .idle) := hthr
      have hl : l = .wait := by
        rcases h.shape u with hshape | hshape | hshape
        · rw [hu] at hshape
          cases hshape
        · rw [hu] at hshape
          exact (Status.waiting.inj hshape).2
        · rw [hu] at hshape
          cases hshape
      subst hl
      have ht' : Function.update s.thr u (.notified () .wait) t = .running .idle := by
        rw [Function.update_of_ne hut.symm, ht]
      -- the sleeper is woken, and then the poster returns
      have hasleep : asleep (Function.update s.thr u (.notified () .wait)) + 1 = asleep s.thr :=
        asleep_update hu _
      have hwoken : woken (Function.update s.thr u (.notified () .wait)) = woken s.thr + 1 :=
        woken_update hu _
      have hasleep' : asleep thr' = asleep (Function.update s.thr u (.notified () .wait)) := by
        rw [hthr]
        exact asleep_update ht' _
      have hwoken' : woken thr' = woken (Function.update s.thr u (.notified () .wait)) := by
        rw [hthr]
        exact woken_update ht' _
      have hcounts := h.counts
      rw [← hasleep, ← hasleep'] at hcounts
      constructor
      · rw [hwoken'.trans hwoken, hadd]
        exact hcounts.wake
      · rw [hthr]
        exact shape_update (shape_update h.shape (.inr (.inr rfl)) u) (.inl rfl) t
  · have hsilent : semaExec (s.thr t).loc .post s.mem = .done ⟨s.mem.permitCounter + 1, s.mem.waits,
        s.mem.posts + 1⟩ [] (.running .idle) := by
      rw [ht]
      simp [semaExec, semaPost, hneg]
    rw [hsilent] at hexec
    cases hexec
    have hthr : thr' = Function.update s.thr t (.running .idle) := hran.thr_of_nil
    have hasleep : asleep thr' = asleep s.thr := by
      rw [hthr]
      exact asleep_update ht _
    have hwoken : woken thr' = woken s.thr := by
      rw [hthr]
      exact woken_update ht _
    constructor
    · rw [hasleep, hwoken, hadd]
      rw [neg_iff] at hneg
      exact h.counts.post hneg
    · rw [hthr]
      exact shape_update h.shape (.inl rfl) t

/-- Proper steps keep the invariant. -/
theorem SemaInv.step (h : SemaInv p s) {a : Act τ SemaCall} (hproper : Proper s a)
    (hstep : (semaProgram τ).step s a = .next s') : SemaInv p s' := by
  cases a with
  | spurious t => exact hproper.elim
  | run t x picks =>
      rcases h.shape t with ht | ht | ht
      · have hfits := hproper (by rw [ht]; rfl)
        cases x with
        | wait =>
            obtain ⟨notes, st, hran⟩ := Program.ran_of_step hstep
            have hexec : semaExec (s.thr t).loc .wait s.mem = .done s'.mem notes st := hran.exec
            rw [ht] at hexec
            obtain ⟨rfl, h'⟩ := h.step_wait ht hfits hexec
            rwa [← hran.thr_of_nil] at h'
        | post => exact h.step_post ht hfits hstep
      · obtain ⟨notes, st, hran⟩ := Program.ran_of_step hstep
        have hawake := hran.awake
        rw [ht] at hawake
        cases hawake
      · have hleave := leave_step ht x picks
        rw [hstep, Outcome.next.injEq] at hleave
        rw [hleave]
        exact h.step_leave ht

end Steps

section Results

variable [DecidableEq τ]

theorem reachable_semaInv (hp : 0 ≤ p.toInt) (hs : (semaMachine τ p).ReachableUnder Proper s) :
    SemaInv p s := by
  refine hs.invariant ?_ ?_
  · rintro _ rfl
    exact SemaInv.fresh hp
  · intro s a s' h hproper hstep
    exact h.step hproper hstep

/-- **A semaphore admits no more than its permits**, in every run of proper steps. -/
theorem sema_admits (hp : 0 ≤ p.toInt) (hs : (semaMachine τ p).ReachableUnder Proper s) :
    Admitted p s.mem :=
  (reachable_semaInv hp hs).admitted

/-- A post hands its permit to a thread that waits, and the thread leaves with it. -/
theorem sema_admits_trace : ∃ s : SemaConfig (Fin 2), Admitted 1 s.mem ∧ s.mem = ⟨0, 2, 1⟩ := by
  have hrun : ((semaMachine (Fin 2) 1).execUnder (fun s a => decide (Proper s a)) (newSema (Fin 2) 1)
      [.run 0 .wait [], .run 1 .wait [], .run 0 .post [some 1], .run 1 .wait []]).holds
      (fun s => decide (s.mem = ⟨0, 2, 1⟩)) = true := by
    decide +kernel
  obtain ⟨s, hs, hp⟩ := Outcome.holds_iff.mp hrun
  have hreach := Machine.reachableUnder_of_execUnder (.init rfl) hs
  refine ⟨s, sema_admits (by decide) (hreach.mono fun s a hc => of_decide_eq_true hc),
    of_decide_eq_true hp⟩

/-- All threads that were woken leave, one after the other. -/
theorem exists_all_leave {k : Nat} :
    ∀ {s : SemaConfig τ}, (∀ t, s.thr t = .running .idle ∨ s.thr t = .waiting () .wait ∨
      s.thr t = .notified () .wait) → woken s.thr = k →
    ∃ as s', (semaMachine τ p).exec s as = .next s' ∧ s'.mem.waits = s.mem.waits + k ∧
      s'.mem.posts = s.mem.posts := by
  induction k with
  | zero => exact fun {s} _ _ => ⟨[], s, rfl, rfl, rfl⟩
  | succ k ih =>
      intro s hshape hk
      have hpos : 0 < woken s.thr := by omega
      obtain ⟨t, ht⟩ := statusCount_pos.mp hpos
      replace ht : s.thr t = .notified () .wait := by
        rcases hshape t with h | h | h
        · rw [h] at ht
          cases ht
        · rw [h] at ht
          cases ht
        · exact h
      have hwoken : woken (Function.update s.thr t (.running .idle)) + 1 = woken s.thr :=
        woken_update ht _
      have hk' : woken (Function.update s.thr t (.running .idle)) = k := by omega
      obtain ⟨as, s', hexec, hwaits, hposts⟩ := ih
        (s := ⟨{ s.mem with waits := s.mem.waits + 1 }, Function.update s.thr t (.running .idle)⟩)
        (shape_update hshape (.inl rfl) t) hk'
      refine ⟨.run t .wait [] :: as, s', ?_, ?_, hposts⟩
      · have hstep : (semaMachine τ p).step s (.run t .wait []) = _ := leave_step ht .wait []
        rw [Machine.exec_cons, hstep]
        exact hexec
      · rw [hwaits]
        exact Nat.add_right_comm s.mem.waits 1 k

/-- **Every wake-up without a notification can be continued to an overrun**: the threads that are awake
leave, and one of them has no permit. -/
theorem sema_overrun (hp : 0 ≤ p.toInt) (hs : (semaMachine τ p).ReachableUnder Proper s) {c : Unit}
    {l : SemaLoc} (hw : s.thr t = .waiting c l) :
    ∃ as s', (semaMachine τ p).exec s (.spurious t :: as) = .next s' ∧ ¬ Admitted p s'.mem := by
  have h := reachable_semaInv hp hs
  have hl : l = .wait := by
    rcases h.shape t with ht | ht | ht
    · rw [hw] at ht
      cases ht
    · rw [hw] at ht
      exact (Status.waiting.inj ht).2
    · rw [hw] at ht
      cases ht
  subst hl
  have hwoken : woken (Function.update s.thr t (.notified c .wait)) = woken s.thr + 1 :=
    woken_update hw _
  have hfull := h.counts.eq_of_asleep (statusCount_pos.mpr ⟨t, by rw [hw]; rfl⟩)
  obtain ⟨as, s', hexec, hwaits, hposts⟩ := exists_all_leave (p := p)
    (s := ⟨s.mem, Function.update s.thr t (.notified c .wait)⟩)
    (shape_update h.shape (.inr (.inr rfl)) t) hwoken
  refine ⟨as, s', ?_, ?_⟩
  · have hstep : (semaMachine τ p).step s (.spurious t) =
        .next ⟨s.mem, Function.update s.thr t (.notified c .wait)⟩ := by
      show (semaProgram τ).step s (.spurious t) = _
      simp [Program.step, hw, semaProgram]
    rw [Machine.exec_cons, hstep]
    exact hexec
  · unfold Admitted
    rw [hwaits, hposts]
    show ¬ (((s.mem.waits + (woken s.thr + 1) : Nat) : Int) ≤ p.toInt + s.mem.posts)
    omega

/-- A thread that is woken without a notification passes a semaphore without permits. -/
theorem sema_admits_fails : ∃ s : SemaConfig (Fin 1), (semaMachine (Fin 1) 0).Reachable s ∧
    ¬ Admitted 0 s.mem := by
  have hrun : ((semaMachine (Fin 1) 0).exec (newSema (Fin 1) 0)
      [.run 0 .wait [], .spurious 0, .run 0 .wait []]).holds
      (fun s => decide (s.mem = ⟨-1, 1, 0⟩)) = true := by
    decide +kernel
  obtain ⟨s, hs, hp⟩ := Machine.exists_reachable_of_exec rfl hrun
  refine ⟨s, hs, ?_⟩
  rw [of_decide_eq_true hp]
  unfold Admitted
  decide

end Results

end Semaphores
end MultithreadingBible
