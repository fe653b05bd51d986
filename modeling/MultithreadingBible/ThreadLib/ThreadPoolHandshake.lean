import MultithreadingBible.ThreadLib.ThreadPoolRuns

/-!
# The hand-shake of a blocking dispatch

A blocking dispatch stores its semaphore in the thread and waits for it to be posted.  When its wait
is over it clears the thread's semaphore again, which by then may be the one of the next dispatch.

* `HandShake` — what a blocking dispatch relies on.
* `keepsSemaphore` — a caller that is done does not clear the semaphore of the dispatch that has the
  thread checked out.
* `pool_handshake` — under it every blocking dispatch has its own semaphore posted.
* `pool_handshake_fails` — two callers and one thread without it.
-/

namespace MultithreadingBible
namespace ThreadLib

open Lib GlueThread

variable {τ ω F A : Type*} [DecidableEq τ] [DecidableEq ω] [Fintype ω]

/-- The semaphore of a blocking dispatch is the one its thread posts. -/
structure HandShake (s : PoolConfig τ ω F A) : Prop where
  own : ∀ e ∈ s.mem.completed, ∀ d D, e.dispatch = some d → Known s.mem d D →
    D.blockCaller = true → e.posted = some d
  /-- A blocking dispatch that has given its thread back was told so. -/
  posted : ∀ d D, Known s.mem d D → D.blockCaller = true → s.mem.checkedOut D.thread ≠ some d →
    ⟨some d, some d⟩ ∈ s.mem.completed

/-- A caller after its wait does not find the thread checked out by a dispatch that has stored its
semaphore there. -/
def keepsSemaphore (s : PoolConfig τ ω F A) : Act (τ ⊕ ω) (PoolCall ω F A) → Bool
  | .run (.inl c) _ _ =>
      match (s.thr (.inl c)).loc with
      | .stage1 .clearSemaphore _ D =>
          (s.mem.checkedOut D.thread).isNone ||
            (s.mem.thread D.thread).semaphore != s.mem.checkedOut D.thread
      | _ => true
  | _ => true

/-- The invariant of the semaphores. -/
structure SemaphoreInv (s : PoolConfig τ ω F A) : Prop extends HandShake s where
  known : ∀ e ∈ s.mem.completed, ∃ d D, e.dispatch = some d ∧ Known s.mem d D
  /-- A checked-out thread has the semaphore of its dispatch, or is about to get it. -/
  stored : ∀ w d D, s.mem.checkedOut w = some d → Known s.mem d D → D.blockCaller = true →
    (∃ c, s.thr (.inl c) = .running (.stage1 .setSemaphore d D)) ∨
      (s.mem.thread w).semaphore = some d

section Steps

variable {compFn : PoolAddr ω → PoolAddr ω → Int} {s s' : PoolConfig τ ω F A} {t : τ ⊕ ω} {w : ω}
  {c : τ} {pc : Stage1} {d : Nat} {D : Dispatch τ ω F A} {x : PoolCall ω F A}
  {notes : List (Note ω)} {st : Status ω (PoolLoc τ ω F A)} {l : PoolLoc τ ω F A}

theorem running_of_ran (hran : (poolProgram compFn).Ran s t x s' notes st)
    (hc : s.thr (.inl c) = .running l) (hl : (s.thr t).loc ≠ l) :
    s'.thr (.inl c) = .running l := by
  have hne : .inl c ≠ t := by
    rintro rfl
    rw [hc] at hl
    exact hl rfl
  rcases hran.other hne with hsame | ⟨cv, l', hw, -⟩
  · exact hsame.trans hc
  · rw [hc] at hw
    cases hw

/-- A step that changes neither the dispatches nor the semaphores in the threads. -/
theorem SemaphoreInv.keep (h : SemaphoreInv s)
    (hran : (poolProgram compFn).Ran s t x s' notes st)
    (hl : ∀ d D, (s.thr t).loc ≠ .stage1 .setSemaphore d D)
    (hdispatches : s'.mem.dispatches = s.mem.dispatches)
    (hout : s'.mem.checkedOut = s.mem.checkedOut)
    (hcompleted : s'.mem.completed = s.mem.completed)
    (hsem : ∀ w, (s'.mem.thread w).semaphore = (s.mem.thread w).semaphore) : SemaphoreInv s' := by
  have hknown : ∀ {d D}, Known s'.mem d D → Known s.mem d D := by
    intro d D hd
    unfold Known at hd
    rw [hdispatches] at hd
    exact hd
  constructor
  · constructor
    · intro e he d D hed hd
      rw [hcompleted] at he
      exact h.own e he d D hed (hknown hd)
    · intro d D hd hblock hne
      rw [hout] at hne
      rw [hcompleted]
      exact h.posted d D (hknown hd) hblock hne
  · intro e he
    rw [hcompleted] at he
    obtain ⟨d, D, hed, hd⟩ := h.known e he
    unfold Known
    rw [hdispatches]
    exact ⟨d, D, hed, hd⟩
  · intro w d D hw hd hblock
    rw [hout] at hw
    rw [hsem]
    rcases h.stored w d D hw (hknown hd) hblock with ⟨c, hc⟩ | hstored
    · exact .inl ⟨c, running_of_ran hran hc (hl d D)⟩
    · exact .inr hstored

omit [DecidableEq τ] [Fintype ω] in
theorem cacheSemaphore_self (m : PoolMem τ ω F A) (hblock : D.blockCaller = true) :
    ((m.cacheSemaphore d D).thread D.thread).semaphore = some d := by
  simp [PoolMem.cacheSemaphore, PoolMem.setThread, hblock]

omit [DecidableEq τ] [Fintype ω] in
theorem cacheSemaphore_of_ne (m : PoolMem τ ω F A) (hw : w ≠ D.thread) :
    (m.cacheSemaphore d D).thread w = m.thread w := by
  unfold PoolMem.cacheSemaphore
  split <;> exact Function.update_of_ne hw ..

omit [DecidableEq τ] [Fintype ω] in
theorem cacheSemaphore_completed (m : PoolMem τ ω F A) :
    (m.cacheSemaphore d D).completed = m.completed := by
  unfold PoolMem.cacheSemaphore
  split <;> rfl

omit [DecidableEq τ] [Fintype ω] in
theorem complete_completed (m : PoolMem τ ω F A) (w : ω) :
    ((m.postSemaphore w).complete w).completed =
      m.completed ++ [⟨m.checkedOut w, (m.thread w).semaphore⟩] := by
  unfold PoolMem.complete PoolMem.postSemaphore
  split <;> rfl

/-- A dispatch stores its semaphore. -/
theorem SemaphoreInv.step_setSemaphore (h : SemaphoreInv s) (hpool : PoolInv s)
    (hran : (poolProgram compFn).Ran s (.inl c) x s' notes st)
    (hc : s.thr (.inl c) = .running (.stage1 .setSemaphore d D))
    (hm : s'.mem = s.mem.cacheSemaphore d D) : SemaphoreInv s' := by
  obtain ⟨hknown, -, hprep⟩ := hpool.stage1 hc
  have hout := (hprep rfl).out
  have hbooks : SameBooks s.mem s'.mem := hm ▸ SameBooks.cacheSemaphore s.mem d D
  have hcompleted : s'.mem.completed = s.mem.completed := hm ▸ cacheSemaphore_completed s.mem
  constructor
  · constructor
    · intro e he d' D' hed hd
      rw [hcompleted] at he
      exact h.own e he d' D' hed (hbooks.known.mp hd)
    · intro d' D' hd hblock hne
      rw [hbooks.checkedOut] at hne
      rw [hcompleted]
      exact h.posted d' D' (hbooks.known.mp hd) hblock hne
  · intro e he
    rw [hcompleted] at he
    obtain ⟨d', D', hed, hd⟩ := h.known e he
    exact ⟨d', D', hed, hbooks.known.mpr hd⟩
  · intro w d' D' hw hd hblock
    rw [hbooks.checkedOut] at hw
    replace hd := hbooks.known.mp hd
    by_cases hthread : w = D.thread
    · subst hthread
      rw [hout] at hw
      cases hw
      rw [hknown.unique hd] at hblock
      exact .inr (by rw [hm, cacheSemaphore_self _ hblock])
    · rcases h.stored w d' D' hw hd hblock with ⟨c', hc'⟩ | hstored
      · refine .inl ⟨c', running_of_ran hran hc' ?_⟩
        intro hsame
        rw [hc] at hsame
        cases hsame
        obtain ⟨-, D₁, hknown₁, hmine⟩ := hpool.ok.holder w _ hw
        exact hthread (by rw [← hmine, hknown.unique hknown₁])
      · exact .inr (by rw [hm, cacheSemaphore_of_ne _ hthread]; exact hstored)

/-- A caller clears the semaphore of its thread. -/
theorem SemaphoreInv.step_clearSemaphore (h : SemaphoreInv s)
    (hran : (poolProgram compFn).Ran s (.inl c) x s' notes st)
    (hc : s.thr (.inl c) = .running (.stage1 .clearSemaphore d D))
    (hkeeps : s.mem.checkedOut D.thread = none ∨
      (s.mem.thread D.thread).semaphore ≠ s.mem.checkedOut D.thread)
    (hm : s'.mem = s.mem.setThread D.thread fun th => { th with semaphore := none }) :
    SemaphoreInv s' := by
  constructor
  · constructor
    · rw [hm]
      exact h.own
    · rw [hm]
      exact h.posted
  · rw [hm]
    exact h.known
  · intro w d' D' hw hd hblock
    replace hw : s.mem.checkedOut w = some d' := by
      rw [hm] at hw
      exact hw
    replace hd : Known s.mem d' D' := by
      rw [hm] at hd
      exact hd
    rcases h.stored w d' D' hw hd hblock with ⟨c', hc'⟩ | hstored
    · refine .inl ⟨c', running_of_ran hran hc' ?_⟩
      rw [hc]
      simp
    · refine .inr ?_
      rw [hm]
      by_cases hthread : w = D.thread
      · -- the semaphore would be the one of the dispatch that has the thread now
        subst hthread
        rcases hkeeps with hnone | hne
        · rw [hw] at hnone
          cases hnone
        · rw [hw, hstored] at hne
          exact absurd rfl hne
      · rw [show (s.mem.setThread D.thread _).thread w = s.mem.thread w from
          Function.update_of_ne hthread ..]
        exact hstored

/-- A dispatch gets a thread that nobody had. -/
theorem SemaphoreInv.step_checkOut (h : SemaphoreInv s) (hpool : PoolInv s)
    (hran : (poolProgram compFn).Ran s (.inl c) x s' []
      (.running (.stage1 .setSemaphore s.mem.dispatches.length D)))
    (hc : s.thr (.inl c) = .running .idle) {hp : Heap (PoolAddr ω)} (hrests : Rests s.mem D.thread)
    (hm : s'.mem = { s.mem with heap := hp }.checkOut D) : SemaphoreInv s' := by
  have hout : s'.mem.checkedOut = Function.update s.mem.checkedOut D.thread
      (some s.mem.dispatches.length) := by
    rw [hm]
    rfl
  have hcompleted : s'.mem.completed = s.mem.completed := by
    rw [hm]
    rfl
  -- a dispatch on record is an old one or the new one
  have hknown : ∀ {d D'}, Known s'.mem d D' →
      Known s.mem d D' ∨ (d = s.mem.dispatches.length ∧ D' = D) := by
    intro d D' hd
    have hget : (s.mem.dispatches ++ [D])[d]? = some D' := by
      rw [hm] at hd
      exact hd
    rcases Nat.lt_or_ge d s.mem.dispatches.length with hlt | hge
    · exact .inl ((List.getElem?_append_left hlt).symm.trans hget)
    · rw [List.getElem?_append_right hge] at hget
      have hzero : d - s.mem.dispatches.length = 0 := by
        have hlt := (List.getElem?_eq_some_iff.mp hget).1
        simpa using hlt
      rw [hzero] at hget
      exact .inr ⟨by omega, (Option.some.inj hget).symm⟩
  constructor
  · constructor
    · intro e he d D' hed hd hblock
      rw [hcompleted] at he
      rcases hknown hd with hold | ⟨rfl, -⟩
      · exact h.own e he d D' hed hold hblock
      · -- completions belong to old dispatches
        obtain ⟨d, D₁, hed', hold⟩ := h.known e he
        rw [hed] at hed'
        cases hed'
        exact absurd hold.lt (Nat.lt_irrefl _)
    · intro d D' hd hblock hne
      rw [hcompleted]
      rw [hout] at hne
      rcases hknown hd with hold | ⟨rfl, rfl⟩
      · apply h.posted d D' hold hblock
        intro hsame
        by_cases hthread : D'.thread = D.thread
        · rw [hthread, hrests.2] at hsame
          cases hsame
        · rw [Function.update_of_ne hthread] at hne
          exact hne hsame
      · -- the new dispatch has its thread still
        rw [Function.update_self] at hne
        exact absurd rfl hne
  · intro e he
    rw [hcompleted] at he
    obtain ⟨d, D', hed, hd⟩ := h.known e he
    rw [hm]
    exact ⟨d, D', hed, (List.getElem?_append_left hd.lt).trans hd⟩
  · intro w d D' hw hd hblock
    rw [hout] at hw
    by_cases hthread : w = D.thread
    · subst hthread
      rw [Function.update_self] at hw
      cases hw
      rcases hknown hd with hold | ⟨-, rfl⟩
      · exact absurd hold.lt (Nat.lt_irrefl _)
      · -- its caller is about to store the semaphore
        exact .inl ⟨c, hran.self⟩
    · rw [Function.update_of_ne hthread] at hw
      have hold : Known s.mem d D' := by
        rcases hknown hd with hold | ⟨rfl, -⟩
        · exact hold
        · obtain ⟨-, D₁, hold, -⟩ := hpool.ok.holder w _ hw
          exact absurd hold.lt (Nat.lt_irrefl _)
      rcases h.stored w d D' hw hold hblock with ⟨c', hc'⟩ | hstored
      · refine .inl ⟨c', running_of_ran hran hc' ?_⟩
        rw [hc]
        simp
      · refine .inr ?_
        rw [hm]
        exact hstored

/-- A thread posts the semaphore of the dispatch whose task it ran. -/
theorem SemaphoreInv.step_park (h : SemaphoreInv s) (hpool : PoolInv s)
    (hran : (poolProgram compFn).Ran s (.inr D.thread) x s' notes st)
    (hrun : s.thr (.inr D.thread) = .running .stage3)
    (hout : s.mem.checkedOut D.thread = some d) (hknown : Known s.mem d D)
    {hp : Heap (PoolAddr ω)}
    (hm : s'.mem = ({ s.mem with heap := hp }.postSemaphore D.thread).complete D.thread) :
    SemaphoreInv s' := by
  have hpost := PoolMem.postSemaphore_books { s.mem with heap := hp } D.thread
  have hthread : s'.mem.thread = s.mem.thread := by
    rw [hm]
    exact PoolMem.postSemaphore_thread { s.mem with heap := hp } D.thread
  have hout' : s'.mem.checkedOut = Function.update s.mem.checkedOut D.thread none := by
    rw [hm]
    exact congrArg (Function.update · D.thread none) hpost.checkedOut
  have hknown' : ∀ {d D'}, Known s'.mem d D' ↔ Known s.mem d D' := by
    intro d D'
    rw [hm]
    exact hpost.known
  have hcompleted : s'.mem.completed =
      s.mem.completed ++ [⟨some d, (s.mem.thread D.thread).semaphore⟩] := by
    rw [hm, ← hout]
    exact complete_completed { s.mem with heap := hp } D.thread
  -- the caller has fired the thread, so that it is past the store of its semaphore
  have hsem : D.blockCaller = true → (s.mem.thread D.thread).semaphore = some d := by
    intro hblock
    rcases h.stored D.thread d D hout hknown hblock with ⟨c, hc⟩ | hstored
    · obtain ⟨-, -, hprep⟩ := hpool.stage1 hc
      exact absurd (hprep rfl).asleep (not_asleep_of_ran hran)
    · exact hstored
  constructor
  · constructor
    · intro e he d' D' hed hd hblock
      rw [hcompleted] at he
      rcases List.mem_append.mp he with he | he
      · exact h.own e he d' D' hed (hknown'.mp hd) hblock
      · rw [List.mem_singleton.mp he] at hed ⊢
        cases hed
        rw [hknown.unique (hknown'.mp hd)] at hblock
        exact hsem hblock
    · intro d' D' hd hblock hne
      have hold := hknown'.mp hd
      rw [hcompleted]
      apply List.mem_append.mpr
      by_cases hsame : s.mem.checkedOut D'.thread = some d'
      · refine .inr (List.mem_singleton.mpr ?_)
        rw [hout'] at hne
        by_cases hw : D'.thread = D.thread
        · rw [hw, hout] at hsame
          cases hsame
          rw [hknown.unique hold] at hblock
          rw [hsem hblock]
        · rw [Function.update_of_ne hw] at hne
          exact absurd hsame hne
      · exact .inl (h.posted d' D' hold hblock hsame)
  · intro e he
    rw [hcompleted] at he
    rcases List.mem_append.mp he with he | he
    · obtain ⟨d', D', hed, hd⟩ := h.known e he
      exact ⟨d', D', hed, hknown'.mpr hd⟩
    · exact ⟨d, D, by rw [List.mem_singleton.mp he], hknown'.mpr hknown⟩
  · intro w d' D' hw hd hblock
    rw [hout'] at hw
    have hne : w ≠ D.thread := by
      rintro rfl
      rw [Function.update_self] at hw
      cases hw
    rw [Function.update_of_ne hne] at hw
    rw [hthread]
    rcases h.stored w d' D' hw (hknown'.mp hd) hblock with ⟨c, hc⟩ | hstored
    · refine .inl ⟨c, running_of_ran hran hc ?_⟩
      rw [hrun]
      simp
    · exact .inr hstored

/-- Every step that keeps the semaphores keeps the invariant. -/
theorem SemaphoreInv.step (h : SemaphoreInv s) (hpool : PoolInv s)
    (hran : (poolProgram compFn).Ran s t x s' notes st) {picks : List (Option (τ ⊕ ω))}
    (hkeeps : keepsSemaphore s (.run t x picks) = true) : SemaphoreInv s' := by
  have hmove := poolMove_of_ran hran
  cases t with
  | inl c =>
      cases hpool.caller c with
      | idle out =>
          rw [out] at hmove
          generalize hm : s'.mem = m' at hmove
          cases hmove with
          | empty hget =>
              rcases hpool.linked.get with hnone | ⟨w, hp, -, hsome, -⟩
              · rw [hnone] at hget
                cases hget
                apply h.keep hran <;> simp [hm, out]
              · rw [hsome] at hget
                cases hget
          | checkOut hcaller hget =>
              rcases hpool.linked.get with hnone | ⟨w, hp, hrests, hsome, -⟩
              · rw [hnone] at hget
                cases hget
              · rw [hsome] at hget
                cases hget
                exact h.step_checkOut hpool hran out hrests hm
          | insert hnew hins =>
              obtain ⟨hp, hins', -⟩ := hpool.insertNew compFn hnew
              rw [hins'] at hins
              cases hins
              apply h.keep hran <;> simp [hm, out]
      | stage1 pc d D inside known mine prepares =>
          -- clearing the semaphore too late is what `keepsSemaphore` excludes
          rw [inside] at hmove
          generalize hm : s'.mem = m' at hmove
          cases hmove with
          | setSemaphore => exact h.step_setSemaphore hpool hran inside hm
          | clearSemaphore =>
              apply h.step_clearSemaphore hran inside _ hm
              simpa [keepsSemaphore, inside] using hkeeps
          | setFn | setArg | create =>
              apply h.keep hran
              · simp [inside]
              · exact hm ▸ rfl
              · exact hm ▸ rfl
              · exact hm ▸ rfl
              · rw [hm]
                exact PoolMem.setThread_keeps PoolThread.semaphore rfl
          | signal | semWait => apply h.keep hran <;> simp [hm, inside]
  | inr w =>
      generalize hm : s'.mem = m' at hmove
      cases hpool.worker w with
      | rests out asleep => exact absurd asleep (not_asleep_of_ran hran)
      | claimed d D out known mine asleep => exact absurd asleep (not_asleep_of_ran hran)
      | fired d D out known mine awake =>
          -- until it parks, a worker does not touch the semaphores
          generalize hst : s.thr (.inr w) = st₀ at hmove awake
          cases awake with
          | started | woken v | stage2 | invoke =>
              cases hmove
              apply h.keep hran <;> simp [hm, hst, PoolMem.invoke]
      | ran d D out known mine done =>
          subst mine
          rw [done] at hmove
          cases hmove with
          | park hpark =>
              obtain ⟨hp, hstage3, -⟩ := hpool.stage3 compFn out
              rw [hstage3] at hpark
              cases hpark
              exact h.step_park hpool hran done out known hm

/-- **Hand-shake**: in every run in which no caller clears the semaphore of the dispatch that has the
thread checked out, each blocking dispatch has its own semaphore posted by the time its thread is
back. -/
theorem pool_handshake [Fintype τ]
    (h : (poolMachine compFn).ReachableUnder (fun s a => keepsSemaphore s a = true) s) :
    HandShake s := by
  have hpool : ∀ s : PoolConfig τ ω F A, (poolMachine compFn).ReachableUnder
      (fun s a => keepsSemaphore s a = true) s → PoolInv s :=
    fun s hs => poolInv_reachable hs.reachable
  have hinv : SemaphoreInv s := by
    apply Machine.ReachableUnder.invariant_of hpool _ _ h
    · rintro s rfl
      exact ⟨⟨by simp [freshPool], by simp [Known, freshPool]⟩, by simp [freshPool],
        by simp [freshPool]⟩
    · intro s a s' hpool hinv hkeeps hstep
      cases a with
      | spurious t =>
          obtain ⟨hno, -⟩ := Program.spurious_of_step hstep
          cases hno
      | run t x picks =>
          obtain ⟨notes, st, hran⟩ := Program.ran_of_step hstep
          exact hinv.step hpool hran hkeeps
  exact hinv.toHandShake

end Steps

/-- Two callers wait for their tasks, the second after the first is done. -/
theorem pool_handshake_trace :
    ∃ s : PoolConfig (Fin 2) (Fin 1) Bool Nat, HandShake s ∧
      s.mem.completed = [⟨some 0, some 0⟩, ⟨some 1, some 1⟩] := by
  have hrun : ((poolMachine (fun _ _ => 1)).execUnder (fun s a => keepsSemaphore s a)
      (freshPool (Fin 2) (Fin 1) Bool Nat)
      (List.flatten [[.run (.inl 0) (.insert 0) []],
        List.replicate 5 (.run (.inl 0) (.dispatch true (some 1) true) []),
        List.replicate 4 (.run (.inr 0) (.insert 0) []),
        List.replicate 2 (.run (.inl 0) (.insert 0) []),
        List.replicate 4 (.run (.inl 1) (.dispatch false none true) []),
        [.run (.inl 1) (.insert 0) [some (.inr 0)]],
        List.replicate 4 (.run (.inr 0) (.insert 0) [])])).holds (fun s =>
        decide (s.mem.completed = [⟨some 0, some 0⟩, ⟨some 1, some 1⟩])) = true := by
    decide +kernel
  obtain ⟨s, hs, hp⟩ := Outcome.holds_iff.mp hrun
  have hreach := Machine.reachableUnder_of_execUnder (.init rfl) hs
  exact ⟨s, pool_handshake hreach, of_decide_eq_true hp⟩

/-- The second caller takes the thread before the first has returned.  The first then clears the
semaphore of the second, whose task is run and which waits forever. -/
theorem pool_handshake_fails :
    ∃ s : PoolConfig (Fin 2) (Fin 1) Bool Nat, (poolMachine (fun _ _ => 1)).Reachable s ∧
      Known s.mem 1 ⟨1, 0, false, none, true⟩ ∧ s.mem.checkedOut 0 = none ∧
      s.thr (.inr 0) = .waiting 0 .parked ∧
      s.mem.completed = [⟨some 0, some 0⟩, ⟨some 1, none⟩] ∧ s.mem.sem 1 = 0 ∧
      s.thr (.inl 1) = .running (.stage1 .semWait 1 ⟨1, 0, false, none, true⟩) := by
  have hrun : ((poolMachine (fun _ _ => 1)).exec (freshPool (Fin 2) (Fin 1) Bool Nat)
      (List.flatten [[.run (.inl 0) (.insert 0) []],
        List.replicate 5 (.run (.inl 0) (.dispatch true (some 1) true) []),
        List.replicate 4 (.run (.inr 0) (.insert 0) []),
        List.replicate 2 (.run (.inl 1) (.dispatch false none true) []),
        List.replicate 2 (.run (.inl 0) (.insert 0) []),
        List.replicate 2 (.run (.inl 1) (.insert 0) []),
        [.run (.inl 1) (.insert 0) [some (.inr 0)]],
        List.replicate 4 (.run (.inr 0) (.insert 0) [])])).holds (fun s =>
        decide (Known s.mem 1 ⟨1, 0, false, none, true⟩ ∧
          s.mem.checkedOut 0 = none ∧ s.thr (.inr 0) = .waiting 0 .parked ∧
          s.mem.completed = [⟨some 0, some 0⟩, ⟨some 1, none⟩] ∧ s.mem.sem 1 = 0 ∧
          s.thr (.inl 1) = .running (.stage1 .semWait 1 ⟨1, 0, false, none, true⟩))) = true := by
    decide +kernel
  obtain ⟨s, hs, hp⟩ := Machine.exists_reachable_of_exec rfl hrun
  exact ⟨s, hs, of_decide_eq_true hp⟩

end ThreadLib
end MultithreadingBible
