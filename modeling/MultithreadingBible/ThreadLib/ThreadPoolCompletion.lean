import Mathlib.Algebra.BigOperators.Ring.Finset
import Mathlib.Data.Fintype.BigOperators
import MultithreadingBible.Lib.Scripts
import MultithreadingBible.ThreadLib.ThreadPoolRuns

/-!
# A thread pool comes to rest

The callers of a pool follow plans: each of them makes some calls of `thread_pool_insert_new_thread`
and `thread_pool_dispatch_thread`, one after the other.  Whatever they plan, every run of callers
and pool threads comes to an end.  Then all threads are back in the pool, asleep, and every dispatch
that got a thread has had its task invoked, once.  A caller that did not ask to be blocked is never
blocked: it ends.  A caller that did may wait for ever for a semaphore that is not posted, though
its task was invoked.

* `planScript` — callers with plans.
* `Owned` — a thread that is checked out and asleep is about to be fired.
* `PlanInv` — how far the callers are.
* `pool_comesToRest` — where all runs end.
-/

namespace MultithreadingBible
namespace ThreadLib

open Lib GlueThread

variable {τ ω F A : Type*} [DecidableEq τ] [DecidableEq ω] [Fintype ω]

section Owned

variable {compFn : PoolAddr ω → PoolAddr ω → Int} {s s' : PoolConfig τ ω F A} {t : τ ⊕ ω} {w : ω}
  {d : Nat}
  {x : PoolCall ω F A} {notes : List (Note ω)} {st : Status ω (PoolLoc τ ω F A)}

/-- Some caller is preparing the dispatch with the number `d`, which has the thread. -/
def Owner (s : PoolConfig τ ω F A) (w : ω) (d : Nat) : Prop :=
  ∃ c pc D, s.thr (.inl c) = .running (.stage1 pc d D) ∧ pc.prepares = true ∧ D.thread = w

/-- A thread that is checked out and asleep will be fired. -/
def Owned (s : PoolConfig τ ω F A) : Prop :=
  ∀ w d, s.mem.checkedOut w = some d → Asleep s w → Owner s w d

/-- A thread that sleeps after a step of another one was asleep before. -/
theorem asleep_of_other (hran : (poolProgram compFn).Ran s t x s' notes st) (hw : .inr w ≠ t)
    (hcreated : (s'.mem.thread w).threadCreated = (s.mem.thread w).threadCreated) (h : Asleep s' w) :
    Asleep s w := by
  unfold Asleep at h ⊢
  rw [hcreated] at h
  rcases h with ⟨hst, hno⟩ | ⟨hst, hyes⟩
  · left
    refine ⟨?_, hno⟩
    rcases hran.other hw with hsame | ⟨c, l, -, hn, -⟩
    · rw [← hsame, hst]
    · rw [hst] at hn
      cases hn
  · exact .inr ⟨hran.waiting_of_ne hw hst, hyes⟩

/-- A caller that does not move stays where it is. -/
theorem caller_of_other (hran : (poolProgram compFn).Ran s t x s' notes st) {c : τ} {l : PoolLoc τ ω F A}
    (hc : .inl c ≠ t) (hst : s.thr (.inl c) = .running l) : s'.thr (.inl c) = .running l := by
  rcases hran.other hc with hsame | ⟨c', l', hw, -, -⟩
  · rw [hsame, hst]
  · rw [hst] at hw
    cases hw

/-- A step by which the caller of a dispatch goes on preparing it. -/
theorem Owned.keep (h : Owned s) (hran : (poolProgram compFn).Ran s t x s' notes st) (hw : .inr w ≠ t)
    (hcreated : (s'.mem.thread w).threadCreated = (s.mem.thread w).threadCreated)
    (hout : s.mem.checkedOut w = some d) (hasleep : Asleep s' w)
    (hcaller : ∀ c pc D, t = .inl c → (s.thr (.inl c)).loc = .stage1 pc d D → pc.prepares = true →
      D.thread = w → ∃ pc' : Stage1, pc'.prepares = true ∧ st = .running (.stage1 pc' d D)) :
    Owner s' w d := by
  obtain ⟨c, pc, D, hst, hpc, hthread⟩ := h w d hout (asleep_of_other hran hw hcreated hasleep)
  by_cases hc : .inl c = t
  · subst hc
    obtain ⟨pc', hpc', hst'⟩ := hcaller c pc D rfl (by rw [hst]; rfl) hpc hthread
    exact ⟨c, pc', D, by rw [hran.self, hst'], hpc', hthread⟩
  · exact ⟨c, pc, D, caller_of_other hran hc hst, hpc, hthread⟩

/-- A fired thread is not asleep. -/
theorem fired_not_asleep (hinv : PoolInv s) {c : τ} {D : Dispatch τ ω F A}
    (hran : (poolProgram compFn).Ran s (.inl c) x s' notes st)
    (hloc : (s.thr (.inl c)).loc = .stage1 .fire d D)
    (hfire : (s.mem.thread D.thread).threadCreated = false ∧
      (s'.mem.thread D.thread).threadCreated = true ∨
      (s.mem.thread D.thread).threadCreated = true ∧ notes = [.signal D.thread]) :
    ¬ Asleep s' D.thread := by
  have hrun : s.thr (.inl c) = .running (.stage1 .fire d D) := by
    cases hinv.caller c with
    | idle out =>
        rw [out] at hloc
        cases hloc
    | stage1 pc d' D' inside =>
        rw [inside, Status.loc_running] at hloc
        rw [inside, hloc]
  obtain ⟨-, -, hprepares⟩ := hinv.stage1 hrun
  rcases (hprepares rfl).asleep with ⟨hst, hno⟩ | ⟨hst, hyes⟩
  · rcases hfire with ⟨-, hcreated⟩ | ⟨hyes, -⟩
    · have hsame : s'.thr (.inr D.thread) = .running .notStarted := by
        rcases hran.other (u := .inr D.thread) (by simp) with hsame | ⟨c', l, hw, -⟩
        · rw [hsame, hst]
        · rw [hst] at hw
          cases hw
      rintro (⟨-, hno'⟩ | ⟨hw, -⟩)
      · rw [hcreated] at hno'
        cases hno'
      · rw [hsame] at hw
        cases hw
    · rw [hno] at hyes
      cases hyes
  · rcases hfire with ⟨hno, -⟩ | ⟨-, rfl⟩
    · rw [hno] at hyes
      cases hyes
    · obtain ⟨u, l, -, hu, hn⟩ := hran.signal (by simp) ⟨_, _, hst⟩
      rw [hinv.waits_alone hu] at hn
      rintro (⟨hst', -⟩ | ⟨hst', -⟩) <;> rw [hn] at hst' <;> cases hst'

/-- Every step of a caller keeps what is owned. -/
theorem Owned.step_caller (h : Owned s) (hinv : PoolInv s) {c : τ}
    (hran : (poolProgram compFn).Ran s (.inl c) x s' notes st) : Owned s' := by
  intro w d hout hasleep
  have hmove := poolMove_of_ran hran
  have hself := hran.self
  have hfired := fun {d D} => fired_not_asleep (d := d) (D := D) hinv hran
  have hkeep := fun hcreated hout => h.keep (w := w) (d := d) hran (by simp) hcreated hout hasleep
  generalize hm : s'.mem = m' at hmove hkeep hfired
  generalize hl : (s.thr (.inl c)).loc = l at hmove hfired
  rw [hm] at hout
  -- where the caller was not preparing this dispatch, somebody else is
  have hnot : (∀ pc D, l = .stage1 pc d D → pc.prepares = true → D.thread ≠ w) →
      ∀ c' pc D, (Sum.inl c : τ ⊕ ω) = .inl c' → (s.thr (.inl c')).loc = .stage1 pc d D →
        pc.prepares = true →
        D.thread = w → ∃ pc' : Stage1, pc'.prepares = true ∧ st = .running (.stage1 pc' d D) := by
    intro hno c' pc D hc hloc hpc hthread
    cases hc
    rw [hl] at hloc
    exact absurd hthread (hno pc D hloc hpc)
  cases hmove with
  | empty hget =>
      have hsame : m' = s.mem := by
        rcases hinv.linked.get with hnone | ⟨v, hp, -, hsome, -⟩
        · rw [hnone] at hget
          exact (Prod.mk.inj hget).2.symm
        · rw [hsome] at hget
          cases hget
      subst hsame
      exact hkeep rfl hout (hnot fun pc D hloc => by cases hloc)
  | @checkOut _ D m₁ hcaller hget =>
      have hsame : ∃ hp, m₁ = { s.mem with heap := hp } := by
        rcases hinv.linked.get with hnone | ⟨v, hp, -, hsome, -⟩
        · rw [hnone] at hget
          cases hget
        · rw [hsome] at hget
          exact ⟨hp, (Prod.mk.inj hget).2.symm⟩
      obtain ⟨hp, rfl⟩ := hsame
      by_cases hw : w = D.thread
      · subst hw
        have hd : s.mem.dispatches.length = d := by
          simpa [PoolMem.checkOut] using hout
        subst hd
        exact ⟨c, .setSemaphore, D, hself, rfl, rfl⟩
      · have hout' : s.mem.checkedOut w = some d := by
          simpa [PoolMem.checkOut, hw] using hout
        exact hkeep rfl hout' (hnot fun pc D hloc => by cases hloc)
  | insert hnew hins =>
      obtain ⟨hp, hins', -⟩ := hinv.insertNew compFn hnew
      rw [hins'] at hins
      cases hins
      exact hkeep rfl hout (hnot fun pc D hloc => by cases hloc)
  | @setSemaphore _ d' D =>
      have hout' : s.mem.checkedOut w = some d := by
        rw [← hout, (SameBooks.cacheSemaphore s.mem d' D).checkedOut]
      refine hkeep (SameTask.cacheSemaphore s.mem d' D w).created hout' fun c' pc D' hc hloc hpc _ => ?_
      cases hc
      rw [hl] at hloc
      cases hloc
      exact ⟨.setFn, rfl, rfl⟩
  | @setFn _ d' D =>
      refine hkeep (PoolMem.setThread_keeps PoolThread.threadCreated rfl w) hout
        fun c' pc D' hc hloc hpc _ => ?_
      cases hc
      rw [hl] at hloc
      cases hloc
      exact ⟨.setArg, rfl, rfl⟩
  | @setArg _ d' D =>
      refine hkeep (PoolMem.setThread_keeps PoolThread.threadCreated rfl w) hout
        fun c' pc D' hc hloc hpc _ => ?_
      cases hc
      rw [hl] at hloc
      cases hloc
      exact ⟨.fire, rfl, rfl⟩
  | @create _ d' D hno =>
      by_cases hw : w = D.thread
      · subst hw
        exact absurd hasleep (hfired rfl (.inl ⟨hno, by simp [PoolMem.setThread]⟩))
      · refine hkeep ?_ hout (hnot ?_)
        · simp [PoolMem.setThread, hw]
        · rintro pc D' hloc - rfl
          cases hloc
          exact hw rfl
  | @signal _ d' D hyes =>
      by_cases hw : w = D.thread
      · subst hw
        exact absurd hasleep (hfired rfl (.inr ⟨hyes, rfl⟩))
      · refine hkeep rfl hout (hnot ?_)
        rintro pc D' hloc - rfl
        cases hloc
        exact hw rfl
  | semWait hpos =>
      refine hkeep rfl hout (hnot ?_)
      rintro pc D' hloc hpc
      cases hloc
      cases hpc
  | @clearSemaphore _ d' D =>
      refine hkeep (PoolMem.setThread_keeps PoolThread.threadCreated rfl w) hout (hnot ?_)
      rintro pc D' hloc hpc
      cases hloc
      cases hpc

/-- Every step of a pool thread keeps what is owned. -/
theorem Owned.step_worker (h : Owned s) {v : ω}
    (hran : (poolProgram compFn).Ran s (.inr v) x s' notes st) : Owned s' := by
  intro w d hout hasleep
  have hmove := poolMove_of_ran hran
  have hkeep := fun hw hcreated hout => h.keep (w := w) (d := d) hran hw hcreated hout hasleep
    fun c pc D hc => by cases hc
  -- the thread that moved is awake, or back in the pool
  have hself : w = v → (∀ l, st = .running l → l ≠ .notStarted) → (∃ l, st = .running l) → False := by
    rintro rfl hl ⟨l, rfl⟩
    rcases hasleep with ⟨hst, -⟩ | ⟨hst, -⟩
    · rw [hran.self] at hst
      cases hst
      exact hl _ rfl rfl
    · rw [hran.self] at hst
      cases hst
  generalize s'.mem = m' at hmove hkeep hout
  generalize (s.thr (.inr v)).loc = l at hmove
  by_cases hw : w = v
  · cases hmove with
    | start hyes => exact (hself hw (fun l hl => by cases hl; simp) ⟨_, rfl⟩).elim
    | read hfn => exact (hself hw (fun l hl => by cases hl; simp) ⟨_, rfl⟩).elim
    | invoke => exact (hself hw (fun l hl => by cases hl; simp) ⟨_, rfl⟩).elim
    | resume => exact (hself hw (fun l hl => by cases hl; simp) ⟨_, rfl⟩).elim
    | park hpark =>
        obtain ⟨hp, -, rfl⟩ := Option.map_eq_some_iff.mp hpark
        rw [hw] at hout
        simp [PoolMem.complete] at hout
  · have hne : (Sum.inr w : τ ⊕ ω) ≠ .inr v := by simpa using hw
    cases hmove with
    | start hyes => exact hkeep hne rfl hout
    | read hfn => exact hkeep hne rfl hout
    | invoke => exact hkeep hne rfl hout
    | resume => exact hkeep hne rfl hout
    | park hpark =>
        obtain ⟨hp, -, rfl⟩ := Option.map_eq_some_iff.mp hpark
        have hbooks := PoolMem.postSemaphore_books { s.mem with heap := hp } v
        refine hkeep hne ?_ ?_
        · simp [PoolMem.complete, PoolMem.postSemaphore_thread]
        · rw [← hout]
          simp [PoolMem.complete, hw, hbooks.checkedOut]

theorem Owned.step (h : Owned s) (hinv : PoolInv s)
    (hran : (poolProgram compFn).Ran s t x s' notes st) : Owned s' := by
  cases t with
  | inl c => exact h.step_caller hinv hran
  | inr v => exact h.step_worker hran

theorem owned_reachable [Fintype τ] (h : (poolMachine compFn).Reachable s) : Owned s := by
  refine h.invariant_of (J := PoolInv) (fun _ hs => poolInv_reachable hs) ?_ ?_
  · rintro s rfl w d hout
    cases hout
  · intro s a s' hinv howned _ hstep
    cases a with
    | run t x picks =>
        obtain ⟨notes, st, hran⟩ := Program.ran_of_step hstep
        exact howned.step hinv hran
    | spurious t =>
        obtain ⟨hno, -⟩ := Program.spurious_of_step hstep
        cases hno

end Owned

/-- The call adds the thread to the pool. -/
def PoolCall.inserts (w : ω) : PoolCall ω F A → Bool
  | .insert v => decide (v = w)
  | .dispatch _ _ _ => false

/-- The call is to block its caller until the task was done. -/
def PoolCall.blocks : PoolCall ω F A → Bool
  | .insert _ => false
  | .dispatch _ _ blockCaller => blockCaller

/-- A caller makes the calls of its plan; a pool thread does what it is fired for. -/
def planScript : Script (τ ⊕ ω) (PoolMem τ ω F A) (PoolLoc τ ω F A) (List (PoolCall ω F A))
    (PoolCall ω F A) where
  ask t l plan _ :=
    match t, l with
    | .inl _, .idle => plan.head?
    | .inl _, .stage1 _ _ D => some (.insert D.thread)
    | .inl _, _ => none
    | .inr w, _ => some (.insert w)
  turn _ l _ plan :=
    match l with
    | .idle => plan.tail
    | _ => plan

abbrev PlanConfig (τ ω F A : Type*) :=
  Config (τ ⊕ ω) (PoolMem τ ω F A) ω (PoolLoc τ ω F A × List (PoolCall ω F A))

/-- An empty pool, and callers before their first call. -/
def plannedPool (plan : τ → List (PoolCall ω F A)) : PlanConfig τ ω F A where
  mem := (freshPool τ ω F A).mem
  thr
    | .inl c => .running (.idle, plan c)
    | .inr _ => .running (.notStarted, [])

/-- All runs of a pool whose callers follow plans. -/
def planMachine [Fintype τ] (compFn : PoolAddr ω → PoolAddr ω → Int) (plan : τ → List (PoolCall ω F A)) :
    Machine (PlanConfig τ ω F A) (Act (τ ⊕ ω) Unit) :=
  (scripted (poolProgram compFn) planScript).machine fun s => s = plannedPool plan

variable {compFn : PoolAddr ω → PoolAddr ω → Int} {plan : τ → List (PoolCall ω F A)}
  {s s' : PlanConfig τ ω F A} {t : τ ⊕ ω} {c : τ} {notes : List (Note ω)}
  {st : Status ω (PoolLoc τ ω F A × List (PoolCall ω F A))}

section Moves

/-- What a call does to the pool, where the caller goes, and which calls it has then left. -/
inductive CallMove (m m' : PoolMem τ ω F A) : PoolCall ω F A → PoolLoc τ ω F A → Prop
  | drop {fn : F} {arg : Option A} {blockCaller : Bool} (hsame : m'.inserted = m.inserted) :
      CallMove m m' (.dispatch fn arg blockCaller) .idle
  | dispatch {d : Nat} {D : Dispatch τ ω F A} (hsame : m'.inserted = m.inserted) :
      CallMove m m' (.dispatch D.fn D.arg D.blockCaller) (.stage1 .setSemaphore d D)
  | insert {w : ω} (hnew : m.inserted w = false)
    (hins : m'.inserted = Function.update m.inserted w true) :
      CallMove m m' (.insert w) .idle

omit [DecidableEq τ] in
theorem callMove_of_exec {x : PoolCall ω F A} {m m' : PoolMem τ ω F A} {st : Status ω (PoolLoc τ ω F A)}
    (h : callerExec compFn c .idle x m = .done m' notes st) :
    notes = [] ∧ ∃ l, st = .running l ∧ CallMove m m' x l := by
  have hget : ∀ {o m₁}, threadPoolGetThread m = (o, m₁) → m₁.inserted = m.inserted := by
    intro o m₁ hget
    rw [← (Prod.mk.inj hget).2]
  cases x with
  | dispatch fn arg blockCaller =>
      simp only [callerExec] at h
      split at h
      case h_1 m₁ hnone =>
        cases h
        exact ⟨rfl, _, rfl, .drop (hget hnone)⟩
      case h_2 w m₁ hsome =>
        cases h
        have hsame := hget hsome
        exact ⟨rfl, _, rfl, CallMove.dispatch (D := ⟨c, w, fn, arg, blockCaller⟩) hsame⟩
  | insert w =>
      simp only [callerExec] at h
      split at h
      case isTrue => cases h
      case isFalse hnew =>
        obtain ⟨m₁, hins, h⟩ := Effect.call_eq_done.mp h
        cases h
        simp only [threadPoolInsertNewThread] at hins
        split at hins
        · cases hins
        · split at hins
          · cases hins
          · obtain ⟨hp, -, rfl⟩ := Option.map_eq_some_iff.mp hins
            exact ⟨rfl, _, rfl, .insert (by simpa using hnew) rfl⟩

/-- What a caller with a plan does. -/
inductive PlanMove (compFn : PoolAddr ω → PoolAddr ω → Int) (c : τ) (m m' : PoolMem τ ω F A) :
    PoolLoc τ ω F A × List (PoolCall ω F A) → List (Note ω) →
      Status ω (PoolLoc τ ω F A × List (PoolCall ω F A)) → Prop
  | call {x : PoolCall ω F A} {rest : List (PoolCall ω F A)} {l : PoolLoc τ ω F A}
    (h : CallMove m m' x l) :
      PlanMove compFn c m m' (.idle, x :: rest) [] (.running (l, rest))
  | stage1 {pc : Stage1} {d : Nat} {D : Dispatch τ ω F A} {plan : List (PoolCall ω F A)}
      {l : PoolLoc τ ω F A} {notes : List (Note ω)}
      (h : PoolMove compFn m (.inl c) (.stage1 pc d D) m' notes (.running l)) :
      PlanMove compFn c m m' (.stage1 pc d D, plan) notes (.running (l, plan))

theorem planMove_of_ran
    (hran : (scripted (poolProgram compFn) planScript).Ran s (.inl c) () s' notes st) :
    PlanMove compFn c s.mem s'.mem (s.thr (.inl c)).loc notes st := by
  obtain ⟨x, st', hask, hexec, rfl⟩ := scripted_done_iff.mp hran.exec
  generalize (s.thr (.inl c)).loc = l at hask hexec
  obtain ⟨l, plan⟩ := l
  cases l with
  | idle =>
      cases plan with
      | nil => cases hask
      | cons y rest =>
          cases hask
          obtain ⟨rfl, l, rfl, hcall⟩ := callMove_of_exec hexec
          exact .call hcall
  | stage1 pc d D =>
      have hmove : PoolMove compFn s.mem (.inl c) (.stage1 pc d D) s'.mem notes st' :=
        poolMove_of_stage1Exec hexec
      have hrun : ∃ l, st' = .running l := by
        clear hexec
        generalize s'.mem = m' at hmove
        cases hmove <;> exact ⟨_, rfl⟩
      obtain ⟨l, rfl⟩ := hrun
      exact .stage1 hmove
  | notStarted | stage2 | invoke | stage3 | parked => cases hask

/-- A step of a pool thread is a step of its work cycle. -/
theorem workerMove_of_ran {w : ω}
    (hran : (scripted (poolProgram compFn) planScript).Ran s (.inr w) () s' notes st) :
    (∃ st', st = st'.map (fun l => (l, (s.thr (.inr w)).loc.2)) ∧
      PoolMove compFn s.mem (.inr w) (s.thr (.inr w)).loc.1 s'.mem notes st') := by
  obtain ⟨x, st', -, hexec, rfl⟩ := scripted_done_iff.mp hran.exec
  have hmove : PoolMove compFn s.mem (.inr w) (s.thr (.inr w)).loc.1 s'.mem notes st' :=
    poolMove_of_poolThreadExec hexec
  refine ⟨st', ?_, hmove⟩
  clear hexec
  generalize (s.thr (.inr w)).loc = l at hmove
  generalize s'.mem = m' at hmove
  obtain ⟨l, plan⟩ := l
  cases hmove <;> rfl

end Moves

section Reachable

variable [Fintype τ]

theorem pool_of_plan (h : (planMachine compFn plan).Reachable s) :
    (poolMachine compFn).Reachable (unscripted s) := by
  refine reachable_unscripted ?_ h
  rintro _ rfl
  show unscripted (plannedPool plan) = freshPool τ ω F A
  unfold unscripted plannedPool freshPool
  congr 1
  funext t
  cases t <;> rfl

theorem poolInv_of_plan (h : (planMachine compFn plan).Reachable s) : PoolInv (unscripted s) :=
  poolInv_reachable (pool_of_plan h)

omit [DecidableEq τ] [DecidableEq ω] [Fintype ω] [Fintype τ] in
/-- A caller is never blocked on a condition variable. -/
theorem caller_running (h : PoolInv (unscripted s)) (c : τ) : ∃ l, s.thr (.inl c) = .running l := by
  cases h.caller c with
  | idle out =>
      obtain ⟨l, hl, -⟩ := Status.map_eq_running.mp out
      exact ⟨l, hl⟩
  | stage1 pc d D inside =>
      obtain ⟨l, hl, -⟩ := Status.map_eq_running.mp inside
      exact ⟨l, hl⟩

/-- How far the callers are. -/
structure PlanInv (plan : τ → List (PoolCall ω F A)) (s : PlanConfig τ ω F A) : Prop where
  rest : ∀ c, (s.thr (.inl c)).loc.2 <:+ plan c
  asked : ∀ c pc d D p, (s.thr (.inl c)).loc = (.stage1 pc d D, p) →
    .dispatch D.fn D.arg D.blockCaller ∈ plan c ∧ (pc.prepares = false → D.blockCaller = true)
  once : ∀ w, (s.mem.inserted w).toNat + tally s.thr (fun l => l.2.countP (PoolCall.inserts w)) ≤ 1

omit [DecidableEq τ] in
theorem planInv_start (hplan : ∀ w, ∑ c, (plan c).countP (PoolCall.inserts w) ≤ 1) :
    PlanInv plan (plannedPool plan) where
  rest c := List.suffix_refl _
  asked c pc d D p hloc := by cases hloc
  once w := by
    have hsum : tally (plannedPool plan).thr (fun l => l.2.countP (PoolCall.inserts w)) =
        ∑ c, (plan c).countP (PoolCall.inserts w) := by
      unfold tally
      rw [Fintype.sum_sum_type]
      simp [plannedPool]
    rw [hsum]
    have := hplan w
    show 0 + _ ≤ 1
    omega

/-- Every step of a caller keeps how far the callers are. -/
theorem PlanInv.step_caller (h : PlanInv plan s)
    (hran : (scripted (poolProgram compFn) planScript).Ran s (.inl c) () s' notes st) :
    PlanInv plan s' := by
  have hmove := planMove_of_ran hran
  have hself := hran.self
  have hother : ∀ c', c' ≠ c → (s'.thr (.inl c')).loc = (s.thr (.inl c')).loc :=
    fun c' hc => hran.loc_of_ne (by simpa using hc)
  have hrest := h.rest c
  have hasked := h.asked c
  have hcount := fun w => hran.tally fun l => l.2.countP (PoolCall.inserts w)
  have honce := h.once
  generalize hl : (s.thr (.inl c)).loc = l at hmove hrest hasked hcount
  generalize hm : s'.mem = m' at hmove
  -- of the other callers nothing is to be shown
  have hof : st.loc.2 <:+ plan c → (∀ pc d D p, st.loc = (.stage1 pc d D, p) →
        .dispatch D.fn D.arg D.blockCaller ∈ plan c ∧ (pc.prepares = false → D.blockCaller = true)) →
      (∀ w, (m'.inserted w).toNat + tally s'.thr (fun l => l.2.countP (PoolCall.inserts w)) ≤ 1) →
      PlanInv plan s' := by
    intro hst hst' hsum
    refine ⟨fun c' => ?_, fun c' => ?_, by rw [hm]; exact hsum⟩
    · by_cases hc : c' = c
      · rw [hc, hself]
        exact hst
      · rw [hother c' hc]
        exact h.rest c'
    · by_cases hc : c' = c
      · rw [hc, hself]
        exact hst'
      · rw [hother c' hc]
        exact h.asked c'
  cases hmove with
  | @call x rest l hcall =>
      have hmem : x ∈ plan c := hrest.mem (by simp)
      apply hof ((List.suffix_cons x rest).trans hrest)
      · intro pc d D p hloc
        cases hcall with
        | drop => cases hloc
        | dispatch hsame =>
            cases hloc
            exact ⟨hmem, fun hpc => by cases hpc⟩
        | insert => cases hloc
      · intro w
        have hw := hcount w
        have hone := honce w
        rw [List.countP_cons] at hw
        simp only [Status.loc_running] at hw
        cases hcall with
        | drop hsame =>
            rw [hsame]
            simp only [PoolCall.inserts, Bool.false_eq_true, if_false] at hw
            omega
        | dispatch hsame =>
            rw [hsame]
            simp only [PoolCall.inserts, Bool.false_eq_true, if_false] at hw
            omega
        | @insert v hnew hins =>
            rw [hins]
            simp only [PoolCall.inserts, decide_eq_true_eq] at hw
            by_cases hv : v = w
            · subst hv
              rw [hnew] at hone
              rw [Function.update_self]
              simp only [if_true] at hw
              simp only [Bool.toNat_false, Bool.toNat_true] at hone ⊢
              omega
            · rw [Function.update_of_ne (Ne.symm hv)]
              rw [if_neg hv] at hw
              omega
  | @stage1 pc d D p l notes hstage =>
      obtain ⟨hasks, hblocks⟩ := hasked pc d D p rfl
      have hinserted : m'.inserted = s.mem.inserted := by
        clear hof hm
        cases hstage with
        | setSemaphore => exact (SameBooks.cacheSemaphore s.mem d D).inserted
        | setFn | setArg | create | signal | semWait | clearSemaphore => rfl
      apply hof hrest
      · intro pc' d' D' p' hloc
        have hloc' : l = .stage1 pc' d' D' := (Prod.mk.inj hloc).1
        have hafter : afterFire d D = PoolLoc.stage1 pc' d' D' → D' = D ∧ D.blockCaller = true := by
          intro hfire
          unfold afterFire at hfire
          split at hfire
          case isTrue hblock =>
            cases hfire
            exact ⟨rfl, hblock⟩
          case isFalse => cases hfire
        clear hof hm hloc
        cases hstage with
        | setSemaphore | setFn | setArg =>
            cases hloc'
            exact ⟨hasks, fun hpc => by cases hpc⟩
        | create hno =>
            obtain ⟨rfl, hblock⟩ := hafter hloc'
            exact ⟨hasks, fun _ => hblock⟩
        | signal hyes =>
            obtain ⟨rfl, hblock⟩ := hafter hloc'
            exact ⟨hasks, fun _ => hblock⟩
        | semWait hpos =>
            cases hloc'
            exact ⟨hasks, fun _ => hblocks rfl⟩
        | clearSemaphore => cases hloc'
      · intro w
        have hw := hcount w
        have hone := honce w
        simp only [Status.loc_running] at hw
        rw [hinserted]
        omega

/-- Every step keeps how far the callers are. -/
theorem PlanInv.step (h : PlanInv plan s)
    (hran : (scripted (poolProgram compFn) planScript).Ran s t () s' notes st) : PlanInv plan s' := by
  cases t with
  | inl c => exact h.step_caller hran
  | inr v =>
      obtain ⟨st', rfl, hmove⟩ := workerMove_of_ran hran
      have hother : ∀ c, (s'.thr (.inl c)).loc = (s.thr (.inl c)).loc := fun c => hran.loc_of_ne (by simp)
      have hinserted : s'.mem.inserted = s.mem.inserted := by
        generalize s'.mem = m' at hmove
        generalize (s.thr (.inr v)).loc.1 = l at hmove
        cases hmove with
        | start | read | invoke | resume => rfl
        | park hpark =>
            obtain ⟨hp, -, rfl⟩ := Option.map_eq_some_iff.mp hpark
            exact (PoolMem.postSemaphore_books { s.mem with heap := hp } v).inserted
      refine ⟨fun c => ?_, fun c => ?_, fun w => ?_⟩
      · rw [hother c]
        exact h.rest c
      · rw [hother c]
        exact h.asked c
      · have hw := hran.tally fun l => l.2.countP (PoolCall.inserts w)
        have hone := h.once w
        rw [Status.loc_map] at hw
        dsimp only at hw
        rw [hinserted]
        omega

theorem planInv_reachable (hplan : ∀ w, ∑ c, (plan c).countP (PoolCall.inserts w) ≤ 1)
    (h : (planMachine compFn plan).Reachable s) : PlanInv plan s := by
  apply Program.invariant _ _ _ h
  · rintro _ rfl
    exact planInv_start hplan
  · intro s t x picks s' notes st hinv _ hran
    exact hinv.step hran
  · intro s t c l _ hno
    cases hno

end Reachable

section Weights

/-- What is left of a dispatch.  The thread it fires can take four steps. -/
def Stage1.left : Stage1 → Nat
  | .setSemaphore => 10
  | .setFn => 9
  | .setArg => 8
  | .fire => 7
  | .semWait => 2
  | .clearSemaphore => 1

/-- What is left of a call or of a task. -/
def PoolLoc.left : PoolLoc τ ω F A → Nat
  | .idle => 0
  | .stage1 pc _ _ => pc.left
  | .notStarted => 4
  | .stage2 => 3
  | .invoke _ => 2
  | .stage3 => 1
  | .parked => 4

/-- What a thread can still do. -/
def planWeight : Status ω (PoolLoc τ ω F A × List (PoolCall ω F A)) → Nat
  | .running l => 20 * l.2.length + l.1.left
  | .waiting _ l => 20 * l.2.length
  | .notified _ l => 20 * l.2.length + 4

/-- A caller has less to do after each step, even if it fires a thread by it. -/
theorem planWeight_caller (hinv : PoolInv (unscripted s))
    (hran : (scripted (poolProgram compFn) planScript).Ran s (.inl c) () s' notes st) :
    planWeight st + 4 * notes.length < planWeight (s.thr (.inl c)) ∧ ∀ n ∈ notes, ∃ w, n = .signal w := by
  have hmove := planMove_of_ran hran
  obtain ⟨l, hl⟩ := caller_running hinv c
  rw [hl] at hmove ⊢
  rw [Status.loc_running] at hmove
  generalize s'.mem = m' at hmove
  cases hmove with
  | @call x rest l hcall =>
      refine ⟨?_, by simp⟩
      have hleft : l.left ≤ 10 := by
        cases hcall with
        | drop | insert => exact Nat.zero_le _
        | dispatch => exact Nat.le_refl _
      simp only [planWeight, List.length_cons, List.length_nil]
      omega
  | @stage1 pc d D p l notes hstage =>
      have hafter : (afterFire d D : PoolLoc τ ω F A).left ≤ 2 := by
        unfold afterFire
        split
        · exact Nat.le_refl _
        · exact Nat.zero_le _
      simp only [planWeight]
      cases hstage with
      | setSemaphore | setFn | setArg | semWait | clearSemaphore =>
          exact ⟨by simp [PoolLoc.left, Stage1.left], by simp⟩
      | create hno =>
          refine ⟨?_, by simp⟩
          simp only [PoolLoc.left, Stage1.left, List.length_nil] at hafter ⊢
          omega
      | signal hyes =>
          refine ⟨?_, by simp⟩
          simp only [PoolLoc.left, Stage1.left, List.length_singleton] at hafter ⊢
          omega

/-- A pool thread comes closer to its sleep. -/
theorem planWeight_worker {w : ω}
    (hran : (scripted (poolProgram compFn) planScript).Ran s (.inr w) () s' notes st) :
    notes = [] ∧ planWeight st < planWeight (s.thr (.inr w)) := by
  obtain ⟨st', rfl, hmove⟩ := workerMove_of_ran hran
  have hawake := hran.awake
  have hold : (s.thr (.inr w)).loc.1.left ≤ 4 →
      20 * (s.thr (.inr w)).loc.2.length + (s.thr (.inr w)).loc.1.left ≤ planWeight (s.thr (.inr w)) := by
    intro hfour
    cases hst : s.thr (.inr w) with
    | running l => exact Nat.le_refl _
    | waiting c l =>
        rw [hst] at hawake
        cases hawake
    | notified c l =>
        rw [hst] at hfour
        simp only [Status.loc_notified] at hfour ⊢
        simp only [planWeight]
        omega
  generalize planWeight (s.thr (.inr w)) = n at hold ⊢
  generalize (s.thr (.inr w)).loc = l at hmove hold
  generalize s'.mem = m' at hmove
  obtain ⟨l, p⟩ := l
  dsimp only at hmove hold
  cases hmove with
  | start | read | invoke | park | resume =>
      simp only [PoolLoc.left] at hold
      refine ⟨rfl, ?_⟩
      simp only [Status.map, planWeight, PoolLoc.left]
      have := hold (by omega)
      omega

variable [Fintype τ]

/-- **Every step** leaves less to do. -/
theorem plan_weigh_lt (hinv : PoolInv (unscripted s)) {x : Unit} {picks : List (Option (τ ⊕ ω))}
    (hstep : (scripted (poolProgram compFn) planScript).step s (.run t x picks) = .next s') :
    weigh s'.thr (fun _ => planWeight) < weigh s.thr fun _ => planWeight := by
  obtain ⟨notes, st, hran, hsum⟩ := Program.weighed_of_step hstep
  have hlt : planWeight st + 4 * notes.length < planWeight (s.thr t) ∧ ∀ n ∈ notes, ∃ w,
    n = .signal w := by
    cases t with
    | inl c => exact planWeight_caller hinv hran
    | inr w =>
        obtain ⟨rfl, hlt⟩ := planWeight_worker hran
        exact ⟨hlt, by simp⟩
  have hle := hsum (fun _ => planWeight) 4 fun n hn => by
    obtain ⟨w, rfl⟩ := hlt.2 n hn
    exact ⟨w, rfl, fun u l _ => Nat.le_refl _⟩
  omega

end Weights

section Ends

variable [Fintype τ]

/-- Where a pool comes to rest. -/
structure PoolOver (plan : τ → List (PoolCall ω F A)) (s : PlanConfig τ ω F A) : Prop where
  /-- No dispatch has a thread, and all threads sleep. -/
  rests : ∀ w, s.mem.checkedOut w = none ∧ Asleep (unscripted s) w
  /-- What was dispatched was invoked, once. -/
  once : ∀ d D, Known s.mem d D → s.mem.invocations d = [D.invocation d]
  /-- A caller has ended, or waits for a semaphore although its task was invoked. -/
  callers : ∀ c, s.thr (.inl c) = .running (.idle, []) ∨
    ∃ d D p, s.thr (.inl c) = .running (.stage1 .semWait d D, p) ∧ Known s.mem d D ∧
      D.blockCaller = true ∧ s.mem.sem d = 0
  /-- Who does not ask to be blocked has ended. -/
  ended : ∀ c, (∀ x ∈ plan c, x.blocks = false) → s.thr (.inl c) = .running (.idle, [])

/-- A thread that can do what it asks for is no thread of a state in which no step is left. -/
theorem plan_not_done (hstuck : (planMachine compFn plan).Stuck (fun _ _ => True) s)
    (hawake : (s.thr t).isWaiting = false) {x : PoolCall ω F A}
    (hask : planScript.ask t (s.thr t).loc.1 (s.thr t).loc.2 s.mem = some x) {m' : PoolMem τ ω F A}
    {st' : Status ω (PoolLoc τ ω F A)} :
    (poolProgram compFn).exec t (s.thr t).loc.1 x s.mem ≠ .done m' notes st' :=
  not_done_of_stuck_script hstuck hawake (fun _ => trivial) hask

/-- A caller that is left in a dispatch waits for a semaphore that nobody has posted. -/
theorem stage1_of_stuck (h : (planMachine compFn plan).Reachable s)
    (hstuck : (planMachine compFn plan).Stuck (fun _ _ => True) s) {pc : Stage1} {d : Nat}
    {D : Dispatch τ ω F A} {p : List (PoolCall ω F A)}
    (hc : s.thr (.inl c) = .running (.stage1 pc d D, p)) : pc = .semWait ∧ s.mem.sem d = 0 := by
  have hask : planScript.ask (.inl c) (s.thr (.inl c)).loc.1 (s.thr (.inl c)).loc.2 s.mem =
      some (.insert D.thread) := by rw [hc]; rfl
  have hnot : ∀ m' notes st', stage1Exec pc d D s.mem ≠ .done m' notes st' := by
    intro m' notes st' hdone
    have hexec : (poolProgram compFn).exec (.inl c) (s.thr (.inl c)).loc.1 (.insert D.thread) s.mem =
        .done m' notes st' := by
      rw [hc]
      exact hdone
    exact plan_not_done hstuck (by rw [hc]; rfl) hask hexec
  have hno : stage1Exec pc d D s.mem ≠ .abort := by
    intro habort
    have hall : ∀ a, (poolMachine compFn).step (unscripted s) a ≠ .abort := (poolInv_of_plan h).no_abort
    apply hall (.run (.inl c) (.insert D.thread) [])
    apply Program.step_of_exec_abort
    · rw [unscripted_isWaiting, hc]
      rfl
    · rw [unscripted_loc, hc]
      exact habort
  cases pc with
  | setSemaphore | setFn | setArg | clearSemaphore => exact absurd rfl (hnot _ _ _)
  | fire =>
      simp only [stage1Exec, threadPoolRunThread] at hnot hno
      split at hnot
      case isTrue hbad =>
        rw [if_pos hbad] at hno
        exact absurd rfl hno
      case isFalse =>
        split at hnot
        · exact absurd rfl (hnot _ _ _)
        · exact absurd rfl (hnot _ _ _)
  | semWait =>
      refine ⟨rfl, ?_⟩
      by_contra hpos
      simp only [stage1Exec, if_neg hpos] at hnot
      exact absurd rfl (hnot _ _ _)

/-- Where no step is left, all threads are back in the pool. -/
theorem rests_of_stuck (h : (planMachine compFn plan).Reachable s)
    (hstuck : (planMachine compFn plan).Stuck (fun _ _ => True) s) (w : ω) :
    s.mem.checkedOut w = none ∧ Asleep (unscripted s) w := by
  have hinv := poolInv_of_plan h
  have hnot : ((unscripted s).thr (.inr w)).isWaiting = false → ∀ m' notes st',
      poolThreadExec compFn w ((unscripted s).thr (.inr w)).loc s.mem ≠ .done m' notes st' := by
    intro hawake m' notes st' hdone
    rw [unscripted_isWaiting] at hawake
    rw [unscripted_loc] at hdone
    exact plan_not_done hstuck hawake (x := .insert w) rfl hdone
  cases hinv.worker w with
  | rests out asleep => exact ⟨out, asleep⟩
  | claimed d D out known mine asleep =>
      -- the caller of the dispatch could go on
      obtain ⟨c, pc, D', hc, hpc, -⟩ := owned_reachable (pool_of_plan h) w d out asleep
      obtain ⟨⟨l, p⟩, hl, hloc⟩ := Status.map_eq_running.mp hc
      dsimp only at hloc
      subst hloc
      rw [(stage1_of_stuck h hstuck hl).1] at hpc
      cases hpc
  | fired d D out known mine awake created fn =>
      exfalso
      generalize hst : (unscripted s).thr (.inr w) = st at awake hnot
      cases awake with
      | started =>
          refine hnot rfl s.mem [] (.running .stage2) ?_
          exact if_pos created
      | woken v => exact hnot rfl _ _ _ rfl
      | stage2 =>
          refine hnot rfl s.mem [] (.running (.invoke D.fn)) ?_
          exact Effect.call_eq_done.mpr ⟨D.fn, fn, rfl⟩
      | invoke => exact hnot rfl _ _ _ rfl
  | ran d D out known mine done created once =>
      exfalso
      rw [done] at hnot
      obtain ⟨hp, hpark, -⟩ := hinv.stage3 compFn out
      exact hnot rfl _ _ _ (Effect.call_eq_done.mpr ⟨_, hpark, rfl⟩)

/-- A caller that is outside all calls where no step is left has made all of them. -/
theorem idle_of_stuck (h : (planMachine compFn plan).Reachable s) (hplans : PlanInv plan s)
    (hstuck : (planMachine compFn plan).Stuck (fun _ _ => True) s) {p : List (PoolCall ω F A)}
    (hc : s.thr (.inl c) = .running (.idle, p)) : p = [] := by
  cases p with
  | nil => rfl
  | cons x rest =>
      exfalso
      have hask : planScript.ask (.inl c) (s.thr (.inl c)).loc.1 (s.thr (.inl c)).loc.2 s.mem =
        some x := by
        rw [hc]
        rfl
      have hnot : ∀ m' notes st', callerExec compFn c .idle x s.mem ≠ .done m' notes st' := by
        intro m' notes st' hdone
        have hexec : (poolProgram compFn).exec (.inl c) (s.thr (.inl c)).loc.1 x s.mem =
            .done m' notes st' := by
          rw [hc]
          exact hdone
        exact plan_not_done hstuck (by rw [hc]; rfl) hask hexec
      cases x with
      | dispatch fn arg blockCaller =>
          simp only [callerExec] at hnot
          split at hnot
          · exact hnot _ _ _ rfl
          · exact hnot _ _ _ rfl
      | insert w =>
          -- the thread is not in the pool yet, as no other call adds it
          have hnew : s.mem.inserted w = false := by
            have hone := hplans.once w
            have hle := le_tally s.thr (fun l => l.2.countP (PoolCall.inserts w)) (.inl c)
            rw [hc, Status.loc_running, List.countP_cons] at hle
            simp only [PoolCall.inserts, decide_true, if_true] at hle
            cases hin : s.mem.inserted w with
            | false => rfl
            | true =>
                rw [hin, Bool.toNat_true] at hone
                omega
          obtain ⟨hp, hins, -⟩ := (poolInv_of_plan h).insertNew compFn hnew
          refine hnot { s.mem with heap := hp, inserted := Function.update s.mem.inserted w true } []
            (.running .idle) ?_
          simp only [callerExec, hnew, Bool.false_eq_true, if_false]
          exact Effect.call_eq_done.mpr ⟨_, hins, rfl⟩

/-- **Where all runs end.** -/
theorem poolOver_of_stuck (hplan : ∀ w, ∑ c, (plan c).countP (PoolCall.inserts w) ≤ 1)
    (h : (planMachine compFn plan).Reachable s)
    (hstuck : (planMachine compFn plan).Stuck (fun _ _ => True) s) : PoolOver plan s := by
  have hinv := poolInv_of_plan h
  have hplans := planInv_reachable hplan h
  have hrests := rests_of_stuck h hstuck
  have hcallers : ∀ c, s.thr (.inl c) = .running (.idle, []) ∨
      ∃ d D p, s.thr (.inl c) = .running (.stage1 .semWait d D, p) ∧ Known s.mem d D ∧
        D.blockCaller = true ∧ s.mem.sem d = 0 := by
    intro c
    cases hinv.caller c with
    | idle out =>
        obtain ⟨⟨l, p⟩, hl, hloc⟩ := Status.map_eq_running.mp out
        dsimp only at hloc
        subst hloc
        rw [idle_of_stuck h hplans hstuck hl] at hl
        exact .inl hl
    | stage1 pc d D inside known =>
        obtain ⟨⟨l, p⟩, hl, hloc⟩ := Status.map_eq_running.mp inside
        dsimp only at hloc
        subst hloc
        obtain ⟨rfl, hsem⟩ := stage1_of_stuck h hstuck hl
        have hasked := hplans.asked c .semWait d D p (by rw [hl]; rfl)
        exact .inr ⟨d, D, p, hl, known, hasked.2 rfl, hsem⟩
  refine ⟨hrests, ?_, hcallers, ?_⟩
  · intro d D hknown
    apply hinv.once d D hknown
    rw [show (unscripted s).mem.checkedOut D.thread = none from (hrests D.thread).1]
    exact (Option.some_ne_none d).symm
  · intro c hno
    rcases hcallers c with hidle | ⟨d, D, p, hl, -, hblock, -⟩
    · exact hidle
    · have hasked := (hplans.asked c .semWait d D p (by rw [hl]; rfl)).1
      have hfalse := hno _ hasked
      simp only [PoolCall.blocks, hblock] at hfalse
      cases hfalse

/-- **A pool comes to rest**, whatever its callers plan: no run is long, and in every run that
cannot go on all threads sleep in the pool, every dispatch that got one had its task invoked once,
and a caller is left only where it waits for a semaphore that was not posted. -/
theorem pool_comesToRest (compFn : PoolAddr ω → PoolAddr ω → Int)
    (hplan : ∀ w, ∑ c, (plan c).countP (PoolCall.inserts w) ≤ 1) :
    (planMachine compFn plan).Ends (fun _ _ => True) (plannedPool plan)
      (20 * ∑ c, (plan c).length + 4 * Fintype.card ω) (PoolOver plan) := by
  have hstart : weigh (plannedPool plan).thr (fun _ => planWeight) =
      20 * ∑ c, (plan c).length + 4 * Fintype.card ω := by
    unfold weigh
    rw [Fintype.sum_sum_type, Finset.mul_sum]
    congr 1
    · simp only [plannedPool, planWeight, PoolLoc.left, List.length_nil]
      rw [Finset.sum_const_nat fun _ _ => rfl, Finset.card_univ, Nat.mul_comm]
  rw [← hstart]
  apply Machine.Ends.of_rank (R := fun s k => (planMachine compFn plan).Reachable s ∧
    k = weigh s.thr fun _ => planWeight)
  · rintro s a s' k ⟨hreach, rfl⟩ _ hstep
    refine ⟨_, ?_, .step hreach trivial hstep, rfl⟩
    cases a with
    | run t x picks => exact plan_weigh_lt (poolInv_of_plan hreach) hstep
    | spurious t =>
        obtain ⟨hno, -⟩ := Program.spurious_of_step hstep
        cases hno
  · rintro s k ⟨hreach, -⟩ hstuck
    exact poolOver_of_stuck hplan hreach hstuck
  · exact ⟨.init rfl, rfl⟩

/-- The plan of the library's own example: two threads are added, and two tasks dispatched. -/
def evenOddPlan : Fin 1 → List (PoolCall (Fin 2) Bool Nat) :=
  fun _ => [.insert ⟨0, Nat.two_pos⟩, .insert ⟨1, Nat.lt_succ_self 1⟩, .dispatch true none false,
    .dispatch false none false]

theorem pool_comesToRest_evenOdd :
    (planMachine (fun _ _ => -1) evenOddPlan).Ends (fun _ _ => True) (plannedPool evenOddPlan) 88
      (PoolOver evenOddPlan) :=
  pool_comesToRest _ (by decide)

end Ends

end ThreadLib
end MultithreadingBible
