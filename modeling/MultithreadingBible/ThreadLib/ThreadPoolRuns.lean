import MultithreadingBible.ThreadLib.ThreadPoolInvariant

/-!
# Every dispatched task runs once

One lemma for each kind of step shows that it keeps the invariant of the pool.

* `PoolInv.quiet` — steps that change neither the list nor the records: the writes of a dispatch into
  its thread, firing it, and what the thread does up to its task.
* `PoolInv.step_checkOut` / `step_insert` / `step_invoke` / `step_park` — the others.
* `pool_runs_once` — what the callers may rely on, in every reachable state.
-/

namespace MultithreadingBible
namespace ThreadLib

open Lib GlueThread

variable {τ ω F A : Type*}

section Steps

variable {compFn : PoolAddr ω → PoolAddr ω → Int} {s s' : PoolConfig τ ω F A} {w : ω} {c : τ}
  {pc : Stage1} {d : Nat} {D : Dispatch τ ω F A} {x : PoolCall ω F A} {notes : List (Note ω)}
  {st : Status ω (PoolLoc τ ω F A)} {m' : PoolMem τ ω F A}

theorem PoolInv.stage1 (h : PoolInv s) (hc : s.thr (.inl c) = .running (.stage1 pc d D)) :
    Known s.mem d D ∧ D.caller = c ∧ (pc.prepares = true → Prepares s pc d D) := by
  cases h.caller c with
  | idle out => rw [hc] at out; cases out
  | stage1 pc' d' D' inside known mine prepares =>
      rw [hc] at inside
      cases inside
      exact ⟨known, mine, prepares⟩

/-- Two callers never write into the same thread. -/
theorem PoolInv.holder_unique (h : PoolInv s) {c' : τ} {pc' : Stage1} {d' : Nat}
    {D' : Dispatch τ ω F A} (hc : s.thr (.inl c) = .running (.stage1 pc d D))
    (hp : Prepares s pc d D) (hc' : s.thr (.inl c') = .running (.stage1 pc' d' D'))
    (hp' : Prepares s pc' d' D') (hw : D'.thread = D.thread) : c' = c := by
  obtain ⟨hknown, hmine, -⟩ := h.stage1 hc
  obtain ⟨hknown', hmine', -⟩ := h.stage1 hc'
  have hd : d' = d := by
    have hout := hp'.out
    rw [hw, hp.out] at hout
    exact (Option.some.inj hout).symm
  subst hd
  rw [← hmine', hknown.unique hknown', hmine]

/-- Only the thread itself waits on its condition variable. -/
theorem PoolInv.waits_alone (h : PoolInv s) {t : τ ⊕ ω} {l : PoolLoc τ ω F A}
    (ht : s.thr t = .waiting w l) : t = .inr w := by
  have hasleep : ∀ v, t = .inr v → Asleep s v → t = .inr w := by
    rintro v rfl (⟨hst, -⟩ | ⟨hst, -⟩)
    · rw [ht] at hst
      cases hst
    · rw [ht] at hst
      cases hst
      rfl
  cases t with
  | inl c =>
      cases h.caller c with
      | idle out => rw [ht] at out; cases out
      | stage1 pc d D inside => rw [ht] at inside; cases inside
  | inr v =>
      cases h.worker v with
      | rests out asleep => exact hasleep v rfl asleep
      | claimed d D out known mine asleep => exact hasleep v rfl asleep
      | fired d D out known mine awake =>
          rw [ht] at awake
          cases awake
      | ran d D out known mine done =>
          rw [ht] at done
          cases done

/-- A step that leaves the list and the records alone.  `W` are the threads it touches and `C` the
callers it moves. -/
theorem PoolInv.quiet (h : PoolInv s) (hbooks : SameBooks s.mem s'.mem)
    (hfn : ∀ w, s.mem.inserted w = false →
      (s'.mem.thread w).threadFn = (s.mem.thread w).threadFn) {W : ω → Prop} {C : τ → Prop}
    (hworker : ∀ w, W w → WorkerPhase s' w) (hcaller : ∀ c, C c → CallerPhase s' c)
    (hrest : ∀ w, ¬ W w → s'.thr (.inr w) = s.thr (.inr w) ∧
      SameTask (s.mem.thread w) (s'.mem.thread w))
    (hothers : ∀ c, ¬ C c → s'.thr (.inl c) = s.thr (.inl c) ∧ ∀ pc d D,
      s.thr (.inl c) = .running (.stage1 pc d D) → Prepares s pc d D → ¬ W D.thread) :
    PoolInv s' where
  linked := by
    rw [hbooks.heap]
    apply h.linked.congr
    intro w
    unfold Rests
    rw [hbooks.inserted, hbooks.checkedOut]
  outside w hw := by
    rw [hbooks.inserted] at hw
    rw [hbooks.checkedOut, hfn w hw]
    exact h.outside w hw
  worker w := by
    by_cases hw : W w
    · exact hworker w hw
    · obtain ⟨hthr, htask⟩ := hrest w hw
      exact (h.worker w).frame hthr htask (by rw [hbooks.checkedOut])
        (fun d D => hbooks.known.mpr) fun d _ => hbooks.invocations
  caller c := by
    by_cases hc : C c
    · exact hcaller c hc
    · obtain ⟨hthr, hkeep⟩ := hothers c hc
      apply (h.caller c).frame hthr fun d D => hbooks.known.mpr
      intro pc d D hinside hp
      obtain ⟨hthr', htask⟩ := hrest D.thread (hkeep pc d D hinside hp)
      exact hp.frame hthr' htask (by rw [hbooks.checkedOut])
  own e he := by
    rw [hbooks.invoked] at he
    obtain ⟨d, D, hknown, heq⟩ := h.own e he
    exact ⟨d, D, hbooks.known.mpr hknown, heq⟩
  once d D hknown hout := by
    rw [hbooks.checkedOut] at hout
    rw [hbooks.invocations]
    exact h.once d D (hbooks.known.mp hknown) hout

/-- The thread a caller writes into was not used for its task yet. -/
theorem PoolInv.notYet (h : PoolInv s) (hp : Prepares s pc d D) : s.mem.invocations d = [] := by
  cases h.worker D.thread with
  | rests out =>
      rw [hp.out] at out
      cases out
  | claimed d' D' out known mine asleep notYet =>
      rw [hp.out] at out
      cases out
      exact notYet
  | fired d' D' out known mine awake created =>
      exact absurd hp.asleep (awake.not_asleep created)
  | ran d' D' out known mine done =>
      rcases hp.asleep with ⟨hst, -⟩ | ⟨hst, -⟩
      · rw [done] at hst
        cases hst
      · rw [done] at hst
        cases hst

theorem poolInv_fresh : PoolInv (freshPool τ ω F A) where
  linked := by
    refine ⟨[], ?_, by simp [Rests, freshPool]⟩
    exact {
      row := fun _ => ⟨rfl, trivial⟩
      nodup := fun _ => List.nodup_nil
      disjoint := by simp
      sub := by simp
      head := by simp
      inj := fun _ _ _ => rfl
      unlinked := fun _ _ _ => rfl }
  outside _ _ := ⟨rfl, rfl⟩
  worker _ := .rests rfl (.inl ⟨rfl, rfl⟩)
  caller _ := .idle rfl
  own e he := by cases he
  once d D hd := by simp [Known, freshPool] at hd

variable [DecidableEq τ] [DecidableEq ω] [Fintype ω]

omit [DecidableEq τ] in
/-- `thread_pool_insert_new_thread` of a thread that is not in the pool yet. -/
theorem PoolInv.insertNew (h : PoolInv s) (compFn : PoolAddr ω → PoolAddr ω → Int)
    (hnew : s.mem.inserted w = false) :
    ∃ hp, threadPoolInsertNewThread compFn w s.mem =
        some { s.mem with heap := hp, inserted := Function.update s.mem.inserted w true } ∧
      Linked hp fun v => v = w ∨ Rests s.mem v := by
  have hno : ¬ Rests s.mem w := by
    rintro ⟨hyes, -⟩
    rw [hnew] at hyes
    cases hyes
  obtain ⟨hp, hins, hlinked⟩ := h.linked.insert compFn hno
  refine ⟨hp, ?_, hlinked⟩
  simp [threadPoolInsertNewThread, h.linked.isEmpty.mpr hno, (h.outside w hnew).2, hins]

/-- A step of a caller that touches no task. -/
theorem PoolInv.quiet_caller (h : PoolInv s)
    (hran : (poolProgram compFn).Ran s (.inl c) x s' [] st) (hbooks : SameBooks s.mem s'.mem)
    (hfn : ∀ w, s.mem.inserted w = false →
      (s'.mem.thread w).threadFn = (s.mem.thread w).threadFn)
    (htask : ∀ w, SameTask (s.mem.thread w) (s'.mem.thread w)) (hcaller : CallerPhase s' c) :
    PoolInv s' := by
  apply h.quiet hbooks hfn (W := fun _ => False) (C := fun c' => c' = c)
  · intro w hw
    exact hw.elim
  · rintro c' rfl
    exact hcaller
  · intro w _
    exact ⟨hran.other_of_nil (by simp), htask w⟩
  · intro c' hc'
    exact ⟨hran.other_of_nil (by simpa using hc'), fun _ _ _ _ _ hw => hw⟩

/-- A step of a caller into the thread it has checked out. -/
theorem PoolInv.quiet_holder (h : PoolInv s)
    (hran : (poolProgram compFn).Ran s (.inl c) x s' notes st)
    (hc : s.thr (.inl c) = .running (.stage1 pc d D)) (hp : Prepares s pc d D)
    (hbooks : SameBooks s.mem s'.mem)
    (hothers : ∀ t : τ ⊕ ω, t ≠ .inl c → t ≠ .inr D.thread → s'.thr t = s.thr t)
    (hthread : ∀ w, w ≠ D.thread → s'.mem.thread w = s.mem.thread w)
    (hworker : WorkerPhase s' D.thread) (hcaller : CallerPhase s' c) : PoolInv s' := by
  have hins : s.mem.inserted D.thread = true := by
    cases hno : s.mem.inserted D.thread with
    | true => rfl
    | false =>
        have hout := (h.outside _ hno).1
        rw [hp.out] at hout
        cases hout
  apply h.quiet hbooks _ (W := fun w => w = D.thread) (C := fun c' => c' = c)
  · rintro w rfl
    exact hworker
  · rintro c' rfl
    exact hcaller
  · intro w hw
    refine ⟨hothers _ (by simp) (by simpa using hw), ?_⟩
    rw [hthread w hw]
    exact SameTask.refl _
  · intro c' hc'
    refine ⟨hothers _ (by simpa using hc') (by simp), ?_⟩
    intro pc' d' D' hinside' hp' hw
    exact hc' (h.holder_unique hc hp hinside' hp' hw)
  · intro w hno
    rw [hthread w]
    rintro rfl
    rw [hins] at hno
    cases hno

/-- A write of a caller into the thread it has checked out. -/
theorem PoolInv.step_write (h : PoolInv s) {pc' : Stage1}
    {f : PoolThread F A → PoolThread F A}
    (hran : (poolProgram compFn).Ran s (.inl c) x s' [] (.running (.stage1 pc' d D)))
    (hc : s.thr (.inl c) = .running (.stage1 pc d D)) (hp : Prepares s pc d D)
    (hm : s'.mem = s.mem.setThread D.thread f)
    (hcreated : (f (s.mem.thread D.thread)).threadCreated =
      (s.mem.thread D.thread).threadCreated)
    (hfn : pc' = .setArg ∨ pc' = .fire → (f (s.mem.thread D.thread)).stage2Fn = some D.fn)
    (harg : pc' = .fire → (f (s.mem.thread D.thread)).stage2Arg = D.arg) : PoolInv s' := by
  obtain ⟨hknown, hmine, -⟩ := h.stage1 hc
  have hself : s'.mem.thread D.thread = f (s.mem.thread D.thread) := by
    rw [hm]
    exact Function.update_self ..
  have hbooks : SameBooks s.mem s'.mem := hm ▸ SameBooks.setThread s.mem D.thread f
  have hout : s'.mem.checkedOut D.thread = some d := by
    rw [hbooks.checkedOut]
    exact hp.out
  have hasleep : Asleep s' D.thread :=
    hp.asleep.frame (hran.other_of_nil (by simp)) (by rw [hself, hcreated])
  apply h.quiet_holder hran hc hp hbooks
  · intro t ht _
    exact hran.other_of_nil ht
  · intro w hw
    rw [hm]
    exact Function.update_of_ne hw ..
  · exact .claimed d D hout (hbooks.known.mpr hknown) rfl hasleep
      (hbooks.invocations.trans (h.notYet hp))
  · apply CallerPhase.stage1 pc' d D hran.self (hbooks.known.mpr hknown) hmine
    intro _
    exact ⟨hout, hasleep, hself ▸ hfn, hself ▸ harg⟩

/-- A caller that fired its thread has written the whole task into it. -/
theorem PoolInv.step_fire (h : PoolInv s)
    (hran : (poolProgram compFn).Ran s (.inl c) x s' notes (.running (afterFire d D)))
    (hc : s.thr (.inl c) = .running (.stage1 .fire d D)) (hbooks : SameBooks s.mem s'.mem)
    (hothers : ∀ t : τ ⊕ ω, t ≠ .inl c → t ≠ .inr D.thread → s'.thr t = s.thr t)
    (hthread : ∀ w, w ≠ D.thread → s'.mem.thread w = s.mem.thread w)
    (hfn : (s'.mem.thread D.thread).stage2Fn = (s.mem.thread D.thread).stage2Fn)
    (harg : (s'.mem.thread D.thread).stage2Arg = (s.mem.thread D.thread).stage2Arg)
    (hcreated : (s'.mem.thread D.thread).threadCreated = true)
    (hawake : Fired D (s'.thr (.inr D.thread))) : PoolInv s' := by
  obtain ⟨hknown, hmine, hprep⟩ := h.stage1 hc
  have hp := hprep rfl
  apply h.quiet_holder hran hc hp hbooks hothers hthread
  · apply WorkerPhase.fired d D _ (hbooks.known.mpr hknown) rfl hawake hcreated
    · exact hfn.trans (hp.fn (.inr rfl))
    · exact harg.trans (hp.arg rfl)
    · exact hbooks.invocations.trans (h.notYet hp)
    · rw [hbooks.checkedOut]
      exact hp.out
  · have hself := hran.self
    unfold afterFire at hself
    split at hself
    · exact .stage1 .semWait d D hself (hbooks.known.mpr hknown) hmine (by simp [Stage1.prepares])
    · exact .idle hself

/-- A caller in its dispatch takes a step. -/
theorem PoolInv.step_stage1 (h : PoolInv s)
    (hran : (poolProgram compFn).Ran s (.inl c) x s' notes st)
    (hc : s.thr (.inl c) = .running (.stage1 pc d D)) : PoolInv s' := by
  obtain ⟨hknown, hmine, hprep⟩ := h.stage1 hc
  have hmove := poolMove_of_ran hran
  rw [hc] at hmove
  generalize hm : s'.mem = m' at hmove
  cases hmove with
  | setSemaphore =>
      have hp := hprep rfl
      have hbooks : SameBooks s.mem s'.mem := hm ▸ SameBooks.cacheSemaphore s.mem d D
      have htask : ∀ w, SameTask (s.mem.thread w) (s'.mem.thread w) :=
        hm ▸ SameTask.cacheSemaphore s.mem d D
      apply h.quiet_caller hran hbooks _ htask
      · apply CallerPhase.stage1 .setFn d D hran.self (hbooks.known.mpr hknown) hmine
        intro _
        have hp' := hp.frame (hran.other_of_nil (by simp)) (htask D.thread)
          (by rw [hbooks.checkedOut])
        exact ⟨hp'.out, hp'.asleep, by simp, by simp⟩
      · intro w _
        rw [hm]
        exact PoolMem.cacheSemaphore_threadFn s.mem d D w
  | setFn => exact h.step_write hran hc (hprep rfl) hm rfl (fun _ => rfl) (by simp)
  | setArg =>
      exact h.step_write hran hc (hprep rfl) hm rfl (fun _ => (hprep rfl).fn (.inl rfl))
        fun _ => rfl
  | create hno =>
      have hself : s'.mem.thread D.thread =
          { s.mem.thread D.thread with threadCreated := true } := by
        rw [hm]
        exact Function.update_self ..
      have hthr : s'.thr (.inr D.thread) = .running .notStarted := by
        rw [hran.other_of_nil (by simp)]
        rcases (hprep rfl).asleep with ⟨hst, -⟩ | ⟨-, hyes⟩
        · exact hst
        · rw [hno] at hyes
          cases hyes
      apply h.step_fire hran hc (hm ▸ SameBooks.setThread ..)
      · intro t ht _
        exact hran.other_of_nil ht
      · intro w hw
        rw [hm]
        exact Function.update_of_ne hw ..
      · rw [hself]
      · rw [hself]
      · rw [hself]
      · rw [hthr]
        exact .started
  | signal hyes =>
      -- nobody but the thread itself waits on its condition variable
      have hwaiting : s.thr (.inr D.thread) = .waiting D.thread .parked := by
        rcases (hprep rfl).asleep with ⟨-, hno⟩ | ⟨hst, -⟩
        · rw [hyes] at hno
          cases hno
        · exact hst
      have hbooks : SameBooks s.mem s'.mem := hm ▸ ⟨rfl, rfl, rfl, rfl, rfl⟩
      have honly : ∀ t l, s.thr t = .waiting D.thread l → t = .inr D.thread :=
        fun t l => h.waits_alone
      apply h.step_fire hran hc hbooks
      · intro t ht hne
        rcases hran.other ht with hsame | ⟨cv, l, hw, -, hnote⟩
        · exact hsame
        · simp only [List.mem_singleton, Note.signal.injEq, reduceCtorEq, or_false] at hnote
          subst hnote
          exact absurd (honly t l hw) hne
      · intro w _
        rw [hm]
      · rw [hm]
      · rw [hm]
      · rw [hm]
        exact hyes
      · obtain ⟨u, l, hu, hw, hnotified⟩ := hran.signal (by simp) ⟨_, _, hwaiting⟩
        obtain rfl : u = .inr D.thread := honly u l hw
        rw [hwaiting] at hw
        cases hw
        rw [hnotified]
        exact .woken _
  | semWait hpos =>
      have hbooks : SameBooks s.mem s'.mem := hm ▸ ⟨rfl, rfl, rfl, rfl, rfl⟩
      apply h.quiet_caller hran hbooks
      · intro w _
        rw [hm]
      · intro w
        rw [hm]
        exact SameTask.refl _
      · exact .stage1 .clearSemaphore d D hran.self (hbooks.known.mpr hknown) hmine
          (by simp [Stage1.prepares])
  | clearSemaphore =>
      apply h.quiet_caller hran (hm ▸ SameBooks.setThread ..)
      · intro w _
        rw [hm]
        exact PoolMem.setThread_keeps PoolThread.threadFn rfl w
      · intro w
        rw [hm]
        exact SameTask.setThread ⟨rfl, rfl, rfl⟩ w
      · exact .idle hran.self

/-- A dispatch takes the first thread off the list. -/
theorem PoolInv.step_checkOut (h : PoolInv s)
    (hran : (poolProgram compFn).Ran s (.inl c) x s' []
      (.running (.stage1 .setSemaphore s.mem.dispatches.length D)))
    (hmine : D.caller = c) {hp : Heap (PoolAddr ω)} (hrests : Rests s.mem D.thread)
    (hlinked : Linked hp fun v => v ≠ D.thread ∧ Rests s.mem v)
    (hm : s'.mem = { s.mem with heap := hp }.checkOut D) : PoolInv s' := by
  have hinv : ∀ d, s'.mem.invocations d = s.mem.invocations d := by
    intro d
    rw [hm]
    rfl
  have hknown : ∀ d D', Known s.mem d D' → Known s'.mem d D' := by
    intro d D' hold
    rw [hm]
    exact (List.getElem?_append_left hold.lt).trans hold
  have hnew : Known s'.mem s.mem.dispatches.length D := by
    rw [hm]
    exact List.getElem?_concat_length
  have hout : s'.mem.checkedOut D.thread = some s.mem.dispatches.length := by
    rw [hm]
    exact Function.update_self ..
  have hkeep : ∀ w, w ≠ D.thread → s'.mem.checkedOut w = s.mem.checkedOut w := by
    intro w hw
    rw [hm]
    exact Function.update_of_ne hw ..
  have hthread : ∀ w, s'.mem.thread w = s.mem.thread w := by
    intro w
    rw [hm]
    rfl
  -- the thread was in the pool, so it is blocked
  have hasleep : Asleep s' D.thread := by
    have hbefore : Asleep s D.thread := by
      cases h.worker D.thread with
      | rests out asleep => exact asleep
      | claimed d D' out | fired d D' out | ran d D' out =>
          rw [hrests.2] at out
          cases out
    exact hbefore.frame (hran.other_of_nil (by simp)) (by rw [hthread])
  -- nobody has run the new dispatch yet
  have hfree : s.mem.invocations s.mem.dispatches.length = [] := by
    apply List.filter_eq_nil_iff.mpr
    intro e he hd
    obtain ⟨d, D', hold, rfl⟩ := h.own e he
    simp only [Dispatch.invocation, beq_iff_eq, Option.some.injEq] at hd
    have := hold.lt
    omega
  constructor
  · rw [hm]
    apply hlinked.congr
    intro w
    unfold Rests PoolMem.checkOut
    dsimp only
    by_cases hw : w = D.thread
    · simp [hw]
    · simp [hw]
  · intro w hw
    have hw' : s.mem.inserted w = false := by
      rw [hm] at hw
      exact hw
    rw [hthread, hkeep w]
    · exact h.outside w hw'
    · rintro rfl
      rw [hrests.1] at hw'
      cases hw'
  · intro w
    by_cases hw : w = D.thread
    · subst hw
      -- the thread now belongs to the dispatch, and the others are as they were
      exact .claimed _ D hout hnew rfl hasleep ((hinv _).trans hfree)
    · exact (h.worker w).frame (hran.other_of_nil (by simp)) (hthread w ▸ SameTask.refl _)
        (hkeep w hw) hknown fun d _ => hinv d
  · intro c'
    by_cases hc : c' = c
    · subst hc
      apply CallerPhase.stage1 _ _ D hran.self hnew hmine
      intro _
      exact ⟨hout, hasleep, by simp, by simp⟩
    · apply (h.caller c').frame (hran.other_of_nil (by simpa using hc)) hknown
      intro pc d D' _ hprep
      apply hprep.frame (hran.other_of_nil (by simp)) (hthread _ ▸ SameTask.refl _)
      apply hkeep
      intro hw
      -- no other caller has this thread: it was in the pool
      have hsome := hprep.out
      rw [hw, hrests.2] at hsome
      cases hsome
  · intro e he
    rw [hm] at he
    obtain ⟨d, D', hold, heq⟩ := h.own e he
    exact ⟨d, D', hknown d D' hold, heq⟩
  · intro d D' hd hne
    rw [hinv]
    have hlt : d < s.mem.dispatches.length ∨ d = s.mem.dispatches.length := by
      have := hd.lt
      rw [hm] at this
      simp only [PoolMem.checkOut, List.length_append, List.length_singleton] at this
      omega
    rcases hlt with hlt | rfl
    · have hold : Known s.mem d D' := by
        rw [hm] at hd
        exact (List.getElem?_append_left hlt).symm.trans hd
      apply h.once d D' hold
      intro hsame
      by_cases hw : D'.thread = D.thread
      · rw [hw, hrests.2] at hsame
        cases hsame
      · exact hne ((hkeep _ hw).trans hsame)
    · rw [hnew.unique hd] at hne
      exact absurd hout hne

/-- A caller adds a thread to the pool. -/
theorem PoolInv.step_insert (h : PoolInv s)
    (hran : (poolProgram compFn).Ran s (.inl c) x s' [] (.running .idle))
    (hnew : s.mem.inserted w = false) {hp : Heap (PoolAddr ω)}
    (hlinked : Linked hp fun v => v = w ∨ Rests s.mem v)
    (hm : s'.mem = { s.mem with heap := hp, inserted := Function.update s.mem.inserted w true }) :
    PoolInv s' := by
  -- dispatches, invocations and tasks are as before; only the list of threads grows
  have hknown : ∀ d D', Known s.mem d D' → Known s'.mem d D' := by
    intro d D' hold
    rw [hm]
    exact hold
  have hinv : ∀ d, s'.mem.invocations d = s.mem.invocations d := by
    intro d
    rw [hm]
    rfl
  have htask : ∀ v, SameTask (s.mem.thread v) (s'.mem.thread v) := by
    intro v
    rw [hm]
    exact SameTask.refl _
  constructor
  · rw [hm]
    apply hlinked.congr
    intro v
    unfold Rests
    dsimp only
    by_cases hv : v = w
    · simp [hv, (h.outside w hnew).1]
    · simp [hv]
  · intro v hv
    rw [hm] at hv ⊢
    by_cases hvw : v = w
    · simp [hvw] at hv
    · exact h.outside v (by simpa [hvw] using hv)
  · intro v
    exact (h.worker v).frame (hran.other_of_nil (by simp)) (htask v) (by rw [hm]) hknown
      fun d _ => hinv d
  · intro c'
    by_cases hc : c' = c
    · subst hc
      exact .idle hran.self
    · apply (h.caller c').frame (hran.other_of_nil (by simpa using hc)) hknown
      intro pc d D' _ hprep
      exact hprep.frame (hran.other_of_nil (by simp)) (htask _) (by rw [hm])
  · intro e he
    rw [hm] at he
    obtain ⟨d, D', hold, heq⟩ := h.own e he
    exact ⟨d, D', hknown d D' hold, heq⟩
  · intro d D' hd hne
    rw [hinv]
    rw [hm] at hd hne
    exact h.once d D' hd hne

/-- A caller outside its dispatches takes a step. -/
theorem PoolInv.step_idle (h : PoolInv s)
    (hran : (poolProgram compFn).Ran s (.inl c) x s' notes st)
    (hc : s.thr (.inl c) = .running .idle) : PoolInv s' := by
  have hmove := poolMove_of_ran hran
  rw [hc] at hmove
  generalize hm : s'.mem = m' at hmove
  cases hmove with
  | empty hget =>
      rcases h.linked.get with hnone | ⟨w, hp, -, hsome, -⟩
      · rw [hnone] at hget
        cases hget
        apply h.quiet_caller hran (hm ▸ ⟨rfl, rfl, rfl, rfl, rfl⟩)
        · intro w _
          rw [hm]
        · intro w
          rw [hm]
          exact SameTask.refl _
        · exact .idle hran.self
      · rw [hsome] at hget
        cases hget
  | checkOut hcaller hget =>
      rcases h.linked.get with hnone | ⟨w, hp, hrests, hsome, hlinked⟩
      · rw [hnone] at hget
        cases hget
      · rw [hsome] at hget
        cases hget
        exact h.step_checkOut hran hcaller hrests hlinked hm
  | insert hnew hins =>
      obtain ⟨hp, hins', hlinked⟩ := h.insertNew compFn hnew
      rw [hins'] at hins
      cases hins
      exact h.step_insert hran hnew hlinked hm

/-- A thread that sleeps takes no step. -/
theorem not_asleep_of_ran (hran : (poolProgram compFn).Ran s (.inr w) x s' notes st) :
    ¬ Asleep s w := by
  rintro (⟨hst, hno⟩ | ⟨hst, -⟩)
  · have hmove := poolMove_of_ran hran
    rw [hst] at hmove
    generalize s'.mem = m' at hmove
    cases hmove with
    | start hyes =>
        rw [hno] at hyes
        cases hyes
  · have hawake := hran.awake
    rw [hst] at hawake
    cases hawake

/-- A fired thread comes closer to its task. -/
theorem PoolInv.step_fired (h : PoolInv s)
    (hran : (poolProgram compFn).Ran s (.inr w) x s' [] st) (hm : s'.mem = s.mem)
    (hworker : WorkerPhase s' w) : PoolInv s' := by
  apply h.quiet (hm ▸ ⟨rfl, rfl, rfl, rfl, rfl⟩) _ (W := fun v => v = w) (C := fun _ => False)
  · rintro v rfl
    exact hworker
  · intro c hc
    exact hc.elim
  · intro v hv
    exact ⟨hran.other_of_nil (by simpa using hv), hm ▸ SameTask.refl _⟩
  · intro c _
    refine ⟨hran.other_of_nil (by simp), ?_⟩
    rintro pc d D - hp rfl
    exact not_asleep_of_ran hran hp.asleep
  · intro v _
    rw [hm]

/-- A fired thread invokes its task. -/
theorem PoolInv.step_invoke (h : PoolInv s)
    (hran : (poolProgram compFn).Ran s (.inr D.thread) x s' [] (.running .stage3))
    (hout : s.mem.checkedOut D.thread = some d) (hknown : Known s.mem d D)
    (hcreated : (s.mem.thread D.thread).threadCreated = true)
    (harg : (s.mem.thread D.thread).stage2Arg = D.arg) (hnotYet : s.mem.invocations d = [])
    (hm : s'.mem = s.mem.invoke D.thread D.fn) : PoolInv s' := by
  have hevent : s'.mem.invoked = s.mem.invoked ++ [D.invocation d] := by
    rw [hm, Dispatch.invocation, ← hout, ← harg]
    rfl
  have hself : s'.mem.invocations d = [D.invocation d] := by
    unfold PoolMem.invocations at hnotYet ⊢
    rw [hevent, List.filter_append, hnotYet]
    simp [Dispatch.invocation]
  have hinv : ∀ d', d' ≠ d → s'.mem.invocations d' = s.mem.invocations d' := by
    intro d' hd
    unfold PoolMem.invocations
    rw [hevent, List.filter_append]
    simp [Dispatch.invocation, Ne.symm hd]
  have hkeep : ∀ d D', Known s.mem d D' → Known s'.mem d D' := by
    intro d D' hold
    rw [hm]
    exact hold
  constructor
  · rw [hm]
    exact h.linked
  · rw [hm]
    exact h.outside
  · intro v
    by_cases hv : v = D.thread
    · subst hv
      exact .ran d D (by rw [hm]; exact hout) (hkeep d D hknown) rfl hran.self
        (by rw [hm]; exact hcreated) hself
    · apply (h.worker v).frame (hran.other_of_nil (by simpa using hv)) _ _ hkeep
      · intro d' hd
        apply hinv
        rintro rfl
        -- a dispatch has one thread only
        cases h.worker v with
        | rests out =>
            rw [hd] at out
            cases out
        | claimed d₁ D₁ out known mine | fired d₁ D₁ out known mine | ran d₁ D₁ out known mine =>
            rw [hd] at out
            cases out
            exact hv (by rw [← mine, hknown.unique known])
      · rw [hm]
        exact SameTask.refl _
      · rw [hm]
        rfl
  · intro c
    apply (h.caller c).frame (hran.other_of_nil (by simp)) hkeep
    intro pc d' D' _ hp
    apply hp.frame _ _ _
    · apply hran.other_of_nil
      intro hw
      simp only [Sum.inr.injEq] at hw
      exact not_asleep_of_ran hran (hw ▸ hp.asleep)
    · rw [hm]
      exact SameTask.refl _
    · rw [hm]
      rfl
  · intro e he
    rw [hevent] at he
    rcases List.mem_append.mp he with he | he
    · obtain ⟨d', D', hold, heq⟩ := h.own e he
      exact ⟨d', D', hkeep d' D' hold, heq⟩
    · exact ⟨d, D, hkeep d D hknown, List.mem_singleton.mp he⟩
  · intro d' D' hd hne
    have hd' : Known s.mem d' D' := by
      rw [hm] at hd
      exact hd
    have hne' : s.mem.checkedOut D'.thread ≠ some d' := by
      rw [hm] at hne
      exact hne
    rw [hinv d' fun hsame => ?_]
    · exact h.once d' D' hd' hne'
    · subst hsame
      rw [hknown.unique hd'] at hne'
      exact hne' hout

omit [DecidableEq τ] in
/-- `thread_pool_thread_stage3_fn` of a thread that a dispatch has checked out. -/
theorem PoolInv.stage3 (h : PoolInv s) (compFn : PoolAddr ω → PoolAddr ω → Int)
    (hout : s.mem.checkedOut w = some d) :
    ∃ hp, threadPoolThreadStage3Fn compFn w s.mem =
        some (({ s.mem with heap := hp }.postSemaphore w).complete w) ∧
      Linked hp fun v => v = w ∨ Rests s.mem v := by
  have hno : ¬ Rests s.mem w := by
    rintro ⟨-, hnone⟩
    rw [hout] at hnone
    cases hnone
  obtain ⟨hp, hins, hlinked⟩ := h.linked.insert compFn hno
  exact ⟨hp, by simp [threadPoolThreadStage3Fn, hins], hlinked⟩

/-- A thread that ran its task goes back to the pool. -/
theorem PoolInv.step_park (h : PoolInv s)
    (hran : (poolProgram compFn).Ran s (.inr D.thread) x s' [] (.waiting D.thread .parked))
    (hout : s.mem.checkedOut D.thread = some d) (hknown : Known s.mem d D)
    (hcreated : (s.mem.thread D.thread).threadCreated = true)
    (honce : s.mem.invocations d = [D.invocation d]) {hp : Heap (PoolAddr ω)}
    (hlinked : Linked hp fun v => v = D.thread ∨ Rests s.mem v)
    (hm : s'.mem = ({ s.mem with heap := hp }.postSemaphore D.thread).complete D.thread) :
    PoolInv s' := by
  have hpost := PoolMem.postSemaphore_books { s.mem with heap := hp } D.thread
  have hheap : s'.mem.heap = hp := by
    rw [hm]
    exact hpost.heap
  have hins : s'.mem.inserted = s.mem.inserted := by
    rw [hm]
    exact hpost.inserted
  have hout' : s'.mem.checkedOut = Function.update s.mem.checkedOut D.thread none := by
    rw [hm]
    exact congrArg (Function.update · D.thread none) hpost.checkedOut
  have hknown' : ∀ d D', Known s'.mem d D' ↔ Known s.mem d D' := by
    intro d D'
    rw [hm]
    exact hpost.known
  have hinvoked : s'.mem.invoked = s.mem.invoked := by
    rw [hm]
    exact hpost.invoked
  have hinv : ∀ d, s'.mem.invocations d = s.mem.invocations d := by
    intro d
    unfold PoolMem.invocations
    rw [hinvoked]
  have hthread : s'.mem.thread = s.mem.thread := by
    rw [hm]
    exact PoolMem.postSemaphore_thread { s.mem with heap := hp } D.thread
  -- it was inserted before, since it was checked out
  have hinside : s.mem.inserted D.thread = true := by
    cases hno : s.mem.inserted D.thread with
    | true => rfl
    | false =>
        have hnone := (h.outside _ hno).1
        rw [hout] at hnone
        cases hnone
  constructor
  · rw [hheap]
    apply hlinked.congr
    intro v
    unfold Rests
    rw [hins, hout']
    by_cases hv : v = D.thread
    · simp [hv, hinside]
    · simp [hv]
  · intro v hv
    rw [hins] at hv
    rw [hthread, hout']
    have hne : v ≠ D.thread := by
      rintro rfl
      rw [hinside] at hv
      cases hv
    rw [Function.update_of_ne hne]
    exact h.outside v hv
  · intro v
    by_cases hv : v = D.thread
    · subst hv
      -- the thread rests again
      exact .rests (by rw [hout', Function.update_self])
        (.inr ⟨hran.self, by rw [hthread]; exact hcreated⟩)
    · exact (h.worker v).frame (hran.other_of_nil (by simpa using hv))
        (hthread ▸ SameTask.refl _) (by rw [hout', Function.update_of_ne hv])
        (fun d D' => (hknown' d D').mpr) fun d _ => hinv d
  · intro c
    apply (h.caller c).frame (hran.other_of_nil (by simp)) fun d D' => (hknown' d D').mpr
    intro pc d' D' _ hprep
    -- a caller prepares a thread that is blocked, which this one was not
    have hne : D'.thread ≠ D.thread := by
      intro hw
      exact not_asleep_of_ran hran (hw ▸ hprep.asleep)
    exact hprep.frame (hran.other_of_nil (by simpa using hne)) (hthread ▸ SameTask.refl _)
      (by rw [hout', Function.update_of_ne hne])
  · intro e he
    rw [hinvoked] at he
    obtain ⟨d', D', hold, heq⟩ := h.own e he
    exact ⟨d', D', (hknown' d' D').mpr hold, heq⟩
  · intro d' D' hd hne
    rw [hinv]
    have hold := (hknown' d' D').mp hd
    by_cases hsame : s.mem.checkedOut D'.thread = some d'
    · by_cases hw : D'.thread = D.thread
      · rw [hw, hout] at hsame
        cases hsame
        rw [hknown.unique hold]
        -- its task has run once
        exact honce
      · rw [hout', Function.update_of_ne hw] at hne
        exact absurd hsame hne
    · exact h.once d' D' hold hsame

/-- A pool thread takes a step. -/
theorem PoolInv.step_worker (h : PoolInv s)
    (hran : (poolProgram compFn).Ran s (.inr w) x s' notes st) : PoolInv s' := by
  have hmove := poolMove_of_ran hran
  generalize hm : s'.mem = m' at hmove
  cases h.worker w with
  | rests out asleep => exact absurd asleep (not_asleep_of_ran hran)
  | claimed d D out known mine asleep => exact absurd asleep (not_asleep_of_ran hran)
  | fired d D out known mine awake created fn arg notYet =>
      subst mine
      generalize hst : s.thr (.inr D.thread) = st₀ at hmove awake
      have hfired : Fired D st → s'.mem = s.mem → notes = [] → PoolInv s' := by
        rintro hawake hsame rfl
        apply h.step_fired hran hsame
        have hself : Fired D (s'.thr (.inr D.thread)) := by
          rw [hran.self]
          exact hawake
        cases s' with
        | mk mem thr =>
            cases hsame
            exact .fired d D out known rfl hself created fn arg notYet
      cases awake with
      | started => cases hmove with
        | start => exact hfired .stage2 hm rfl
      | woken v => cases hmove with
        | resume => exact hfired .stage2 hm rfl
      | stage2 => cases hmove with
        | read hread =>
            rw [fn] at hread
            cases hread
            exact hfired .invoke hm rfl
      | invoke => cases hmove with
        | invoke => exact h.step_invoke hran out known created arg notYet hm
  | ran d D out known mine done created once =>
      subst mine
      rw [done] at hmove
      cases hmove with
      | park hpark =>
          obtain ⟨hp, hstage3, hlinked⟩ := h.stage3 compFn out
          rw [hstage3] at hpark
          cases hpark
          exact h.step_park hran out known created once hlinked hm

/-- Every step keeps the invariant. -/
theorem PoolInv.step [Fintype τ] (h : PoolInv s) {a : Act (τ ⊕ ω) (PoolCall ω F A)}
    (hstep : (poolMachine compFn).step s a = .next s') : PoolInv s' := by
  cases a with
  | spurious t =>
      obtain ⟨hno, -⟩ := Program.spurious_of_step hstep
      cases hno
  | run t x picks =>
      obtain ⟨notes, st, hran⟩ := Program.ran_of_step hstep
      cases t with
      | inl c =>
          cases h.caller c with
          | idle out => exact h.step_idle hran out
          | stage1 pc d D inside => exact h.step_stage1 hran inside
      | inr w => exact h.step_worker hran

/-- No assertion fails, and no thread calls a null pointer. -/
theorem PoolInv.no_abort [Fintype τ] (h : PoolInv s) (a : Act (τ ⊕ ω) (PoolCall ω F A)) :
    (poolMachine compFn).step s a ≠ .abort := by
  cases a with
  | spurious t => exact Program.not_abort_spurious
  | run t x picks =>
      intro habort
      obtain ⟨hawake, hexec⟩ := Program.exec_of_abort habort
      cases t with
      | inl c =>
          replace hexec : callerExec compFn c (s.thr (.inl c)).loc x s.mem = .abort := hexec
          cases h.caller c with
          | idle out =>
              rw [out] at hexec
              cases x with
              | dispatch fn arg blockCaller =>
                  simp only [Status.loc_running, callerExec] at hexec
                  split at hexec
                  case h_1 => cases hexec
                  case h_2 => cases hexec
              | insert w =>
                  simp only [Status.loc_running, callerExec] at hexec
                  split at hexec
                  case isTrue => cases hexec
                  case isFalse hnew =>
                    obtain ⟨hp, hins, -⟩ := h.insertNew compFn (by simpa using hnew)
                    rw [hins] at hexec
                    cases hexec
          | stage1 pc d D inside known mine prepares =>
              rw [inside] at hexec
              cases pc with
              | setSemaphore | setFn | setArg | clearSemaphore => cases hexec
              | semWait =>
                  simp only [Status.loc_running, callerExec, stage1Exec] at hexec
                  split at hexec
                  case isTrue => cases hexec
                  case isFalse => cases hexec
              | fire =>
                  -- the thread it has checked out is not in the list
                  have hno : ¬ Rests s.mem D.thread := by
                    rintro ⟨-, hnone⟩
                    rw [(prepares rfl).out] at hnone
                    cases hnone
                  simp only [Status.loc_running, callerExec, stage1Exec, threadPoolRunThread,
                    h.linked.isEmpty.mpr hno] at hexec
                  split at hexec
                  case isTrue hfalse => cases hfalse
                  case isFalse => split at hexec <;> cases hexec
      | inr w =>
          replace hexec : poolThreadExec compFn w (s.thr (.inr w)).loc s.mem = .abort := hexec
          have hasleep : ¬ Asleep s w := by
            rintro (⟨hst, hcreated⟩ | ⟨hst, -⟩)
            · rw [hst] at hexec
              simp [poolThreadExec, hcreated] at hexec
            · rw [hst] at hawake
              cases hawake
          cases h.worker w with
          | rests out asleep => exact hasleep asleep
          | claimed d D out known mine asleep => exact hasleep asleep
          | fired d D out known mine awake created fn =>
              generalize s.thr (.inr w) = st at hexec awake
              cases awake with
              | started => simp [poolThreadExec, created] at hexec
              | woken v => cases hexec
              | stage2 =>
                  simp only [Status.loc_running, poolThreadExec, fn] at hexec
                  cases hexec
              | invoke => cases hexec
          | ran d D out known mine done =>
              obtain ⟨hp, hstage3, -⟩ := h.stage3 compFn out
              rw [done] at hexec
              simp only [Status.loc_running, poolThreadExec, hstage3] at hexec
              cases hexec

omit [DecidableEq τ] in
/-- What the invariant says to the callers. -/
theorem PoolInv.ok (h : PoolInv s) : PoolOk s where
  linked := h.linked.iterate
  asleep w hw := by
    cases h.worker w with
    | rests out asleep => exact asleep
    | claimed d D out | fired d D out | ran d D out =>
        rw [hw.2] at out
        cases out
  holder w d hd := by
    refine ⟨?_, ?_⟩
    · cases hno : s.mem.inserted w with
      | true => rfl
      | false =>
          rw [(h.outside w hno).1] at hd
          cases hd
    · cases h.worker w with
      | rests out =>
          rw [hd] at out
          cases out
      | claimed d' D out known mine | fired d' D out known mine | ran d' D out known mine =>
          rw [hd] at out
          cases out
          exact ⟨D, known, mine⟩
  caller c pc d D hc := by
    obtain ⟨hknown, hmine, hprep⟩ := h.stage1 hc
    exact ⟨hknown, hmine, fun hpc => (hprep hpc).out⟩
  own := h.own
  atMostOnce d := by
    by_cases hd : ∃ D, Known s.mem d D
    · obtain ⟨D, hknown⟩ := hd
      -- the worker knows how often it ran the task it is checked out for
      by_cases hout : s.mem.checkedOut D.thread = some d
      · cases h.worker D.thread with
        | rests out =>
            rw [hout] at out
            cases out
        | claimed d' D' out known mine asleep notYet =>
            rw [hout] at out
            cases out
            simp [notYet]
        | fired d' D' out known mine awake created fn arg notYet =>
            rw [hout] at out
            cases out
            simp [notYet]
        | ran d' D' out known mine done created once =>
            rw [hout] at out
            cases out
            simp [once]
      · simp [h.once d D hknown hout]
    · -- a dispatch that does not exist was never run
      have hnone : s.mem.invocations d = [] := by
        apply List.filter_eq_nil_iff.mpr
        intro e he heq
        obtain ⟨d', D, hknown, rfl⟩ := h.own e he
        simp only [Dispatch.invocation, beq_iff_eq, Option.some.injEq] at heq
        exact hd ⟨D, heq ▸ hknown⟩
      simp [hnone]
  once := h.once

theorem poolInv_reachable [Fintype τ] (h : (poolMachine compFn).Reachable s) : PoolInv s := by
  apply Machine.ReachableUnder.invariant _ _ h
  · rintro s rfl
    exact poolInv_fresh
  · intro s a s' hinv _ hstep
    exact hinv.step hstep

/-- **Every dispatched task runs once**, in the thread its dispatch took off the list, before the
thread is back there, and no assertion of the pool fails. -/
theorem pool_runs_once [Fintype τ] (h : (poolMachine compFn).Reachable s) :
    PoolOk s ∧ ∀ a, (poolMachine compFn).step s a ≠ .abort :=
  ⟨(poolInv_reachable h).ok, fun a => (poolInv_reachable h).no_abort a⟩

end Steps

/-- Two callers share one thread: the first waits for its task, the second does not. -/
theorem pool_runs_once_trace :
    ∃ s : PoolConfig (Fin 2) (Fin 1) Bool Nat, PoolOk s ∧ s.mem.checkedOut 0 = none ∧
      s.mem.invoked = [⟨0, some 0, true, some 1⟩, ⟨0, some 1, false, none⟩] := by
  have hrun : ((poolMachine (fun _ _ => 1)).exec (freshPool (Fin 2) (Fin 1) Bool Nat)
      (List.flatten [[.run (.inl 0) (.insert 0) []],
        List.replicate 5 (.run (.inl 0) (.dispatch true (some 1) true) []),
        List.replicate 4 (.run (.inr 0) (.insert 0) []),
        List.replicate 4 (.run (.inl 1) (.dispatch false none false) []),
        [.run (.inl 1) (.insert 0) [some (.inr 0)]],
        List.replicate 4 (.run (.inr 0) (.insert 0) [])])).holds (fun s =>
        decide (s.mem.checkedOut 0 = none ∧
          s.mem.invoked = [⟨0, some 0, true, some 1⟩, ⟨0, some 1, false, none⟩])) = true := by
    decide +kernel
  obtain ⟨s, hs, hp⟩ := Machine.exists_reachable_of_exec rfl hrun
  exact ⟨s, (pool_runs_once hs).1, of_decide_eq_true hp⟩

end ThreadLib
end MultithreadingBible
