import Mathlib.Algebra.Order.Ring.Nat
import MultithreadingBible.RecLocks.RwLock

/-!
# Recursive mutex

A mutex that its owner may lock again.  The owner is stored twice, as the depth `n` and as
`locking_thread`, and the two have to agree: `recMutex_owned` says that they do, and that they agree
with the calls the threads have completed, as long as nobody locks the mutex at the depth 65535.

There the 16-bit counter is incremented without a check and becomes 0 while `locking_thread` stays
(`recMutex_owned_fails`); the owner's next call fails an assertion.
-/

namespace MultithreadingBible
namespace RecLocks

open Lib

/-- `rec_mutex_t`, without its condition variable, and whether a call returned without unlocking
`state_mutex`. -/
structure RecMutex (τ : Type*) where
  n : Nat
  lockingThread : Option τ
  nWaited : Nat
  stateMutexKept : Bool

/-- What the thread that asked for the mutex does at the end of a critical section. -/
inductive MutexResult (τ : Type*) where
  /-- It waits. -/
  | waits (m : RecMutex τ)
  /-- It has the mutex. -/
  | granted (m : RecMutex τ)

variable {τ : Type*}

def recMutexInit (τ : Type*) : RecMutex τ := ⟨0, none, 0, false⟩

section Code

variable [DecidableEq τ]

/-- Case 3 of `rec_mutex_lock`: `none` when an assertion fails. -/
def recMutexLockLoop (self : τ) (m : RecMutex τ) : Option (MutexResult τ) :=
  if m.lockingThread.isSome && m.lockingThread != some self then
    some (.waits { m with nWaited := countUp 16 m.nWaited })
  else if m.n == 0 && m.lockingThread.isNone then
    some (.granted { m with n := 1, lockingThread := some self })
  else none

/-- `rec_mutex_lock` up to the first wait: `none` when an assertion fails. -/
def recMutexLock (self : τ) (m : RecMutex τ) : Option (MutexResult τ) :=
  if m.n == 0 then
    if m.lockingThread.isNone then some (.granted { m with n := 1, lockingThread := some self })
    else none
  else if m.lockingThread == some self then some (.granted { m with n := countUp 16 m.n })
  else recMutexLockLoop self m

/-- `rec_mutex_unlock`: the mutex afterwards and the notifications sent, `none` when an assertion
fails.  The last case returns with `state_mutex` locked. -/
def recMutexUnlock (self : τ) (m : RecMutex τ) : Option (RecMutex τ × List (Note Unit)) :=
  if m.n == 0 then none
  else if m.lockingThread == some self then
    let m := { m with n := countDown 16 m.n }
    if decide (m.n > 0) then some (m, [])
    else some ({ m with lockingThread := none }, if m.nWaited != 0 then [.signal ()] else [])
  else if m.lockingThread.isSome then none
  else some ({ m with stateMutexKept := true }, [])

/-- Where a thread is, and how many calls of `rec_mutex_lock` and of `rec_mutex_unlock` it has
completed. -/
inductive MutexLoc where
  /-- Outside all calls. -/
  | ready (locks unlocks : Nat)
  /-- In the wait of `rec_mutex_lock`. -/
  | wait (locks unlocks : Nat)
  deriving DecidableEq

/-- What a thread outside all calls calls. -/
inductive MutexCall where
  | lock
  | unlock

abbrev MutexEffect (τ : Type*) := Effect (RecMutex τ) Unit MutexLoc

/-- A thread waits or goes on. -/
def MutexResult.effect (locks unlocks : Nat) : MutexResult τ → MutexEffect τ
  | .waits m => .done m [] (.waiting () (.wait locks unlocks))
  | .granted m => .done m [] (.running (.ready (locks + 1) unlocks))

/-- What a thread does next.  Only the owner unlocks. -/
def mutexExec (t : τ) (l : MutexLoc) (x : MutexCall) (m : RecMutex τ) : MutexEffect τ :=
  if m.stateMutexKept then .blocked
  else
    match l with
    | .ready locks unlocks =>
        match x with
        | .lock => .call (recMutexLock t m) (MutexResult.effect locks unlocks)
        | .unlock =>
            if unlocks < locks then
              .call (recMutexUnlock t m) fun (m, notes) =>
                .done m notes (.running (.ready locks (unlocks + 1)))
            else .blocked
    | .wait locks unlocks =>
        .call (recMutexLockLoop t { m with nWaited := countDown 16 m.nWaited })
          (MutexResult.effect locks unlocks)

/-- Threads that use one mutex. -/
def mutexProgram (τ : Type*) [DecidableEq τ] (spurious : Bool) :
    Program τ (RecMutex τ) Unit MutexLoc MutexCall where
  exec := mutexExec
  spuriousWakeups := spurious

end Code

abbrev MutexConfig (τ : Type*) := Config τ (RecMutex τ) Unit MutexLoc

/-- A mutex ready for use. -/
def freshMutex (τ : Type*) : MutexConfig τ :=
  ⟨recMutexInit τ, fun _ => .running (.ready 0 0)⟩

/-- All runs of threads that lock and unlock one mutex. -/
def mutexMachine (τ : Type*) [DecidableEq τ] [Fintype τ] (spurious : Bool) :
    Machine (MutexConfig τ) (Act τ MutexCall) :=
  (mutexProgram τ spurious).machine fun s => s = freshMutex τ

/-- The completed calls of `rec_mutex_lock`. -/
def MutexLoc.locks : MutexLoc → Nat
  | ready locks _ | wait locks _ => locks

/-- The completed calls of `rec_mutex_unlock`. -/
def MutexLoc.unlocks : MutexLoc → Nat
  | ready _ unlocks | wait _ unlocks => unlocks

section Property

variable [DecidableEq τ] [Fintype τ]

/-- The mutex belongs to the thread with more locks than unlocks. -/
structure MutexOwned (spurious : Bool) (s : MutexConfig τ) : Prop where
  /-- Thread `t` holds the mutex exactly when it has locked it more often than unlocked. -/
  holder : ∀ t, s.mem.lockingThread = some t ↔ (s.thr t).loc.unlocks < (s.thr t).loc.locks
  /-- There is at most one such thread. -/
  unique : ∀ t u, (s.thr t).loc.unlocks < (s.thr t).loc.locks →
    (s.thr u).loc.unlocks < (s.thr u).loc.locks → u = t
  /-- `n` is the difference. -/
  depth : ∀ t, (s.thr t).loc.unlocks < (s.thr t).loc.locks →
    s.mem.n = (s.thr t).loc.locks - (s.thr t).loc.unlocks
  /-- A mutex that nobody holds has depth 0. -/
  free : s.mem.lockingThread = none → s.mem.n = 0
  asserts : ∀ a, (mutexProgram τ spurious).step s a ≠ .abort

/-- The moving thread does not lock the mutex at the depth 65535. -/
def notTooDeep (s : MutexConfig τ) : Act τ MutexCall → Bool
  | .run t .lock _ =>
      match (s.thr t).loc with
      | .ready locks unlocks => decide (locks - unlocks < 65535)
      | .wait _ _ => true
  | _ => true

/-- `n_waited` as a thread finds it when it asks: it has counted itself out. -/
def RecMutex.waitedFrom {τ : Type*} (m : RecMutex τ) : MutexLoc → Nat
  | .ready _ _ => m.nWaited
  | .wait _ _ => countDown 16 m.nWaited

end Property

section Invariant

variable [DecidableEq τ] {spurious : Bool} {s s' : MutexConfig τ} {t : τ} {x : MutexCall} {notes : List (Note Unit)}
  {st : Status Unit MutexLoc}

/-- Who owns the mutex. -/
inductive Ownership (m : RecMutex τ) (loc : τ → MutexLoc) : Prop
  | free (howner : m.lockingThread = none) (hn : m.n = 0)
      (hout : ∀ u, (loc u).locks = (loc u).unlocks)
  | owned {owner : τ} {locks unlocks : Nat} (howner : m.lockingThread = some owner)
      (hready : loc owner = .ready locks unlocks) (hn : locks = unlocks + m.n) (hpos : 0 < m.n)
      (hlt : m.n < 2 ^ 16) (hout : ∀ u, u ≠ owner → (loc u).locks = (loc u).unlocks)

/-- The invariant of all runs. -/
structure MutexInv (s : MutexConfig τ) : Prop where
  kept : s.mem.stateMutexKept = false
  ownership : Ownership s.mem fun t => (s.thr t).loc

/-- A free mutex goes to whoever asks for it. -/
theorem mutexExec_free {m : RecMutex τ} {l : MutexLoc} (hkept : m.stateMutexKept = false)
    (howner : m.lockingThread = none) (hn : m.n = 0) (hout : l.locks = l.unlocks) :
    mutexExec t l x m = .blocked ∨ mutexExec t l x m =
      .done { m with n := 1, lockingThread := some t, nWaited := m.waitedFrom l } []
        (.running (.ready (l.locks + 1) l.unlocks)) := by
  cases l with
  | ready locks unlocks =>
      cases x with
      | lock =>
          refine .inr ?_
          simp [mutexExec, hkept, recMutexLock, howner, hn, Effect.call, MutexResult.effect,
            MutexLoc.locks, MutexLoc.unlocks, RecMutex.waitedFrom]
      | unlock =>
          have hno : ¬ unlocks < locks := by
            show ¬ unlocks < (MutexLoc.ready locks unlocks).locks
            rw [hout]
            exact Nat.lt_irrefl _
          exact .inl (by simp [mutexExec, hkept, hno])
  | wait locks unlocks =>
      refine .inr ?_
      simp [mutexExec, hkept, recMutexLockLoop, howner, hn, Effect.call, MutexResult.effect,
        MutexLoc.locks, MutexLoc.unlocks, RecMutex.waitedFrom]

/-- Whoever asks for a mutex of another thread waits. -/
theorem mutexExec_other {m : RecMutex τ} {l : MutexLoc} {owner : τ}
    (hkept : m.stateMutexKept = false) (howner : m.lockingThread = some owner) (hne : owner ≠ t)
    (hpos : 0 < m.n) (hout : l.locks = l.unlocks) :
    mutexExec t l x m = .blocked ∨ mutexExec t l x m =
      .done { m with nWaited := countUp 16 (m.waitedFrom l) } []
        (.waiting () (.wait l.locks l.unlocks)) := by
  have hn : m.n ≠ 0 := Nat.ne_of_gt hpos
  cases l with
  | ready locks unlocks =>
      cases x with
      | lock =>
          refine .inr ?_
          simp [mutexExec, hkept, recMutexLock, recMutexLockLoop, howner, hne, hn, Effect.call,
            MutexResult.effect, MutexLoc.locks, MutexLoc.unlocks, RecMutex.waitedFrom]
      | unlock =>
          have hno : ¬ unlocks < locks := by
            show ¬ unlocks < (MutexLoc.ready locks unlocks).locks
            rw [hout]
            exact Nat.lt_irrefl _
          exact .inl (by simp [mutexExec, hkept, hno])
  | wait locks unlocks =>
      refine .inr ?_
      simp [mutexExec, hkept, recMutexLockLoop, howner, hne, Effect.call, MutexResult.effect,
        MutexLoc.locks, MutexLoc.unlocks, RecMutex.waitedFrom]

/-- The owner locks its mutex again. -/
theorem mutexExec_again {m : RecMutex τ} {locks unlocks : Nat} (hkept : m.stateMutexKept = false)
    (howner : m.lockingThread = some t) (hpos : 0 < m.n) :
    mutexExec t (.ready locks unlocks) .lock m =
      .done { m with n := countUp 16 m.n } [] (.running (.ready (locks + 1) unlocks)) := by
  have hn : m.n ≠ 0 := Nat.ne_of_gt hpos
  simp [mutexExec, hkept, recMutexLock, howner, hn, Effect.call, MutexResult.effect]

/-- The owner unlocks its mutex, and gives it back with the last unlock. -/
theorem mutexExec_unlock {m : RecMutex τ} {locks unlocks : Nat} (hkept : m.stateMutexKept = false)
    (howner : m.lockingThread = some t) (hpos : 0 < m.n) (hlt : unlocks < locks) :
    mutexExec t (.ready locks unlocks) .unlock m =
      if 1 < m.n then .done { m with n := m.n - 1 } [] (.running (.ready locks (unlocks + 1)))
      else .done { m with n := 0, lockingThread := none }
        (if m.nWaited != 0 then [.signal ()] else []) (.running (.ready locks (unlocks + 1))) := by
  have hn : m.n ≠ 0 := Nat.ne_of_gt hpos
  have hdown : countDown 16 m.n = m.n - 1 := countDown_eq hpos
  by_cases hmore : 1 < m.n
  · have hleft : 0 < m.n - 1 := by omega
    simp [mutexExec, hkept, hlt, recMutexUnlock, howner, hn, hdown, hleft, hmore, Effect.call]
  · have hzero : countDown 16 m.n = 0 := by omega
    simp [mutexExec, hkept, hlt, recMutexUnlock, howner, hn, hzero, hmore, Effect.call]

/-- The calls of the threads that do not move. -/
theorem out_of_ran (hran : (mutexProgram τ spurious).Ran s t x s' notes st) {u : τ} (hu : u ≠ t)
    (hout : (s.thr u).loc.locks = (s.thr u).loc.unlocks) :
    (s'.thr u).loc.locks = (s'.thr u).loc.unlocks := by
  rw [hran.loc_of_ne hu]
  exact hout

/-- **Every step but the one too deep keeps the invariant.** -/
theorem MutexInv.step (h : MutexInv s) {picks : List (Option τ)}
    (hdeep : notTooDeep s (.run t x picks) = true)
    (hran : (mutexProgram τ spurious).Ran s t x s' notes st) : MutexInv s' := by
  have hexec : mutexExec t (s.thr t).loc x s.mem = .done s'.mem notes st := hran.exec
  cases h.ownership with
  | free howner hn hout =>
      -- nobody owns the mutex: it is blocked elsewhere, or becomes the owner
      rcases mutexExec_free (t := t) (x := x) h.kept howner hn (hout t) with hb | hd
      · rw [hb] at hexec
        cases hexec
      · rw [hd, Effect.done.injEq] at hexec
        obtain ⟨hm, -, rfl⟩ := hexec
        refine ⟨by rw [← hm]; exact h.kept, ?_⟩
        have hready : (s'.thr t).loc =
            .ready ((s.thr t).loc.locks + 1) (s.thr t).loc.unlocks := by
          rw [hran.self]
          rfl
        refine .owned (by rw [← hm]) hready ?_ ?_ ?_ fun u hu => out_of_ran hran hu (hout u)
        · rw [← hm, hout t]
        · rw [← hm]; exact Nat.one_pos
        · rw [← hm]; exact Nat.one_lt_two_pow (by decide)
  | @owned owner locks unlocks howner hready hn hpos hlt hout =>
      by_cases hown : t = owner
      · subst hown
        rw [hready] at hexec
        cases x with
        | lock =>
            rw [mutexExec_again h.kept howner hpos, Effect.done.injEq] at hexec
            obtain ⟨hm, -, rfl⟩ := hexec
            have hroom : s.mem.n + 1 < 2 ^ 16 := by
              simp only [notTooDeep, hready, decide_eq_true_eq] at hdeep
              omega
            -- one level deeper, and the counter does not wrap
            have hup := countUp_eq hroom
            refine ⟨by rw [← hm]; exact h.kept, ?_⟩
            have hready' : (s'.thr t).loc = .ready (locks + 1) unlocks := by
              rw [hran.self]
              rfl
            refine .owned (by rw [← hm]; exact howner) hready' ?_ ?_ ?_
              fun u hu => out_of_ran hran hu (hout u hu)
            · rw [← hm]
              show locks + 1 = unlocks + countUp 16 s.mem.n
              omega
            · rw [← hm]
              show 0 < countUp 16 s.mem.n
              omega
            · rw [← hm]
              exact countUp_lt 16 s.mem.n
        | unlock =>
            rw [mutexExec_unlock h.kept howner hpos (by omega)] at hexec
            split at hexec
            · next hmore =>
              -- one level less
              rw [Effect.done.injEq] at hexec
              obtain ⟨hm, -, rfl⟩ := hexec
              refine ⟨by rw [← hm]; exact h.kept, ?_⟩
              have hready' : (s'.thr t).loc = .ready locks (unlocks + 1) := by
                rw [hran.self]
                rfl
              refine .owned (by rw [← hm]; exact howner) hready' ?_ ?_ ?_
                fun u hu => out_of_ran hran hu (hout u hu)
              · rw [← hm]
                show locks = unlocks + 1 + (s.mem.n - 1)
                omega
              · rw [← hm]
                show 0 < s.mem.n - 1
                omega
              · rw [← hm]
                show s.mem.n - 1 < 2 ^ 16
                omega
            · next hmore =>
              -- the last level: the mutex is free
              rw [Effect.done.injEq] at hexec
              obtain ⟨hm, -, rfl⟩ := hexec
              refine ⟨by rw [← hm]; exact h.kept, .free (by rw [← hm]) (by rw [← hm]) fun u => ?_⟩
              by_cases hu : u = t
              · rw [hu, hran.self]
                show locks = unlocks + 1
                omega
              · exact out_of_ran hran hu (hout u hu)
      · -- somebody else has to wait, and changes nothing
        rcases mutexExec_other (x := x) h.kept howner (Ne.symm hown) hpos (hout t hown) with
          hb | hd
        · rw [hb] at hexec
          cases hexec
        · rw [hd, Effect.done.injEq] at hexec
          obtain ⟨hm, -, rfl⟩ := hexec
          refine ⟨by rw [← hm]; exact h.kept, ?_⟩
          refine .owned (by rw [← hm]; exact howner)
            (by rw [hran.loc_of_ne (Ne.symm hown)]; exact hready) (by rw [← hm]; exact hn)
            (by rw [← hm]; exact hpos) (by rw [← hm]; exact hlt) fun u hu => ?_
          by_cases hut : u = t
          · rw [hut, hran.self]
            exact hout t hown
          · exact out_of_ran hran hut (hout u hu)

theorem MutexInv.woken (h : MutexInv s) {c : Unit} {l : MutexLoc} (hw : s.thr t = .waiting c l) :
    MutexInv ⟨s.mem, Function.update s.thr t (.notified c l)⟩ := by
  refine ⟨h.kept, ?_⟩
  rw [show (fun u => (Function.update s.thr t (.notified c l) u).loc) = fun u => (s.thr u).loc from
    funext (loc_update_notified hw)]
  exact h.ownership

theorem MutexInv.exec_ne_abort (h : MutexInv s) (t : τ) (x : MutexCall) :
    mutexExec t (s.thr t).loc x s.mem ≠ .abort := by
  cases h.ownership with
  | free howner hn hout =>
      rcases mutexExec_free (t := t) (x := x) h.kept howner hn (hout t) with hb | hd
      · simp [hb]
      · simp [hd]
  | @owned owner locks unlocks howner hready hn hpos hlt hout =>
      by_cases hown : t = owner
      · subst hown
        rw [hready]
        cases x with
        | lock => simp [mutexExec_again h.kept howner hpos]
        | unlock =>
            rw [mutexExec_unlock h.kept howner hpos (by omega)]
            split <;> simp
      · rcases mutexExec_other (x := x) h.kept howner (Ne.symm hown) hpos (hout t hown) with
          hb | hd
        · simp [hb]
        · simp [hd]

variable [Fintype τ]

theorem MutexInv.owned (h : MutexInv s) : MutexOwned spurious s := by
  have hasserts : ∀ a, (mutexProgram τ spurious).step s a ≠ .abort := by
    intro a habort
    cases a with
    | run t x picks => exact h.exec_ne_abort t x (Program.exec_of_abort habort).2
    | spurious t => exact Program.not_abort_spurious habort
  cases h.ownership with
  | free howner hn hout =>
      have hnobody : ∀ t, ¬ (s.thr t).loc.unlocks < (s.thr t).loc.locks := by
        intro t
        rw [hout t]
        exact Nat.lt_irrefl _
      refine ⟨fun t => ?_, fun t u ht => absurd ht (hnobody t), fun t ht => absurd ht (hnobody t),
        fun _ => hn, hasserts⟩
      rw [howner]
      exact iff_of_false (by simp) (hnobody t)
  | @owned owner locks unlocks howner hready hn hpos hlt hout =>
      have hholder : ∀ t, (s.thr t).loc.unlocks < (s.thr t).loc.locks ↔ t = owner := by
        intro t
        constructor
        · intro ht
          by_contra hne
          have := hout t hne
          omega
        · rintro rfl
          rw [hready]
          show unlocks < locks
          omega
      refine ⟨fun t => ?_, fun t u ht hu => ?_, fun t ht => ?_, fun hnone => ?_, hasserts⟩
      · rw [hholder, howner, Option.some.injEq]
        exact eq_comm
      · rw [(hholder u).mp hu, (hholder t).mp ht]
      · rw [(hholder t).mp ht, hready]
        show s.mem.n = locks - unlocks
        omega
      · rw [howner] at hnone
        cases hnone

/-- **The mutex belongs to the thread with more locks than unlocks**, in every run in which nobody
locks it at the depth 65535. -/
theorem recMutex_owned
    (h : (mutexMachine τ spurious).ReachableUnder (fun s a => notTooDeep s a = true) s) :
    MutexOwned spurious s := by
  have hinv : MutexInv s := by
    apply Program.invariant _ _ _ h
    · intro s hs
      rw [show s = freshMutex τ from hs]
      exact ⟨rfl, .free rfl rfl fun _ => rfl⟩
    · intro s t x picks s' notes st hinv hdeep hran
      exact hinv.step hdeep hran
    · intro s t c l hinv _ hw
      exact hinv.woken hw
  exact hinv.owned

/-- The owner has locked the mutex twice and unlocked it once; another thread waits for it. -/
theorem recMutex_owned_trace :
    ∃ s : MutexConfig Bool, MutexOwned true s ∧ s.mem.n = 1 ∧ s.mem.lockingThread = some false ∧
      s.thr true = .waiting () (.wait 0 0) := by
  have hrun : ((mutexMachine Bool true).execUnder notTooDeep (freshMutex Bool)
      [.run false .lock [], .run false .lock [], .run true .lock [],
        .run false .unlock []]).holds (fun s =>
        decide (s.mem.n = 1 ∧ s.mem.lockingThread = some false ∧
          s.thr true = .waiting () (.wait 0 0))) = true := by
    decide +kernel
  obtain ⟨s, hs, hp⟩ := Outcome.holds_iff.mp hrun
  have hreach := Machine.reachableUnder_of_execUnder
    (.init (show (mutexMachine Bool true).init (freshMutex Bool) from rfl)) hs
  exact ⟨s, recMutex_owned hreach, of_decide_eq_true hp⟩

end Invariant

section Overflow

/-- One thread that has locked the mutex `k` times. -/
def lockedTimes (k : Nat) : MutexConfig Unit :=
  ⟨{ recMutexInit Unit with n := k % 2 ^ 16, lockingThread := some () },
    fun _ => .running (.ready k 0)⟩

/-- At every depth a thread can lock the mutex once more, up to the one where `n` becomes 0. -/
theorem lockedTimes_reachable (k : Nat) (hk : k < 2 ^ 16) :
    (mutexMachine Unit false).Reachable (lockedTimes (k + 1)) := by
  have hsilent : ∀ s : MutexConfig Unit, s.thr () = .running (s.thr ()).loc →
      ∀ m st, mutexExec () (s.thr ()).loc .lock s.mem = .done m [] st →
        (mutexMachine Unit false).step s (.run () .lock []) = .next ⟨m, fun _ => st⟩ := by
    intro s hrunning m st hexec
    have hstep := Program.step_of_silent (P := mutexProgram Unit false) (s := s) (t := ())
      (x := .lock) [] (by rw [hrunning]; rfl) hexec
    rw [show Function.update s.thr () st = fun _ => st from funext fun _ => rfl] at hstep
    exact hstep
  induction k with
  | zero =>
      refine .step (.init (s := freshMutex Unit) rfl) trivial (a := .run () .lock []) ?_
      exact hsilent (freshMutex Unit) rfl _ _ rfl
  | succ k ih =>
      refine .step (ih (by omega)) trivial (a := .run () .lock []) ?_
      have hmod : (k + 1) % 2 ^ 16 = k + 1 := Nat.mod_eq_of_lt hk
      have hpos : 0 < (lockedTimes (k + 1)).mem.n := by
        show 0 < (k + 1) % 2 ^ 16
        omega
      have hexec : mutexExec () (.ready (k + 1) 0) .lock (lockedTimes (k + 1)).mem = _ :=
        mutexExec_again rfl rfl hpos
      rw [show countUp 16 (lockedTimes (k + 1)).mem.n = (k + 2) % 2 ^ 16 from
        countUp_mod 16 (k + 1)] at hexec
      exact hsilent (lockedTimes (k + 1)) rfl _ _ hexec

/-- The mutex belongs to the thread with more locks than unlocks in every run, at any depth. -/
def AlwaysOwned (τ : Type*) [DecidableEq τ] [Fintype τ] : Prop :=
  ∀ s, (mutexMachine τ false).Reachable s → MutexOwned false s

/-- **The counter overflows**: after 65536 locks by one thread `n` is 0, and its unlock fails an
assertion. -/
theorem recMutex_owned_fails :
    ¬ AlwaysOwned Unit ∧ ∃ s : MutexConfig Unit, (mutexMachine Unit false).Reachable s ∧
      (s.thr ()).loc = .ready 65536 0 ∧ s.mem.n = 0 ∧ s.mem.lockingThread = some () ∧
        (mutexMachine Unit false).step s (.run () .unlock []) = .abort := by
  have hreach : (mutexMachine Unit false).Reachable (lockedTimes 65536) :=
    lockedTimes_reachable 65535 (by decide)
  have habort : (mutexMachine Unit false).step (lockedTimes 65536) (.run () .unlock []) = .abort :=
    Program.step_of_exec_abort (P := mutexProgram Unit false) (s := lockedTimes 65536) (t := ())
      (x := .unlock) [] rfl rfl
  exact ⟨fun hall => (hall _ hreach).asserts (.run () .unlock []) habort, lockedTimes 65536, hreach,
    rfl, rfl, rfl,
    habort⟩

end Overflow

end RecLocks
end MultithreadingBible
