import MultithreadingBible.MapReduceLib.Stages

/-!
# Steps of a map-reduce keep its stage

One step lemma for each kind of thread: a mapper moves only between its start and the caller's
finding it done, the reducer only between its start and the caller's finding it done, and the caller
goes from stage to stage.
-/

namespace MultithreadingBible
namespace MapReduceLib

open Lib

variable {n : Nat} {D : Type*} {app : MrApp n D} {c : CallerLoc} {f : Fin n → MapperLoc D}
  {r : ReducerLoc} {m m' : MapReduce n D} {i : Fin n} {l l' : MapperLoc D}

section Mapper

/-- A mapper that is not done keeps the caller from going on. -/
theorem StageOk.not_joined (h : StageOk c f r) (hi : f i ≠ .exit) : c.joined = false := by
  cases hc : c.joined with
  | false => rfl
  | true => exact absurd (h.joined hc i) hi

theorem StageOk.reducer_start (h : StageOk c f r) (hi : f i ≠ .exit) : r = .start := by
  by_contra hr
  have hjoined := CallerLoc.joined_of_startedReducer (h.started hr)
  rw [h.not_joined hi] at hjoined
  cases hjoined

theorem StageOk.not_reduced (h : StageOk c f r) (hi : f i ≠ .exit) : c.reduced = false := by
  cases hc : c.reduced with
  | false => rfl
  | true =>
      have hjoined := CallerLoc.joined_of_startedReducer (CallerLoc.startedReducer_of_reduced hc)
      rw [h.not_joined hi] at hjoined
      cases hjoined

theorem StageOk.ne_finished (h : StageOk c f r) (hi : f i ≠ .exit) : c ≠ .finished := by
  rintro rfl
  exact absurd (h.not_joined hi) (by decide)

theorem StageOk.step_mapper (h : StageOk c f r) (hlaunched : c.launched i = true) (hi : f i ≠ .exit)
    (l' : MapperLoc D) : StageOk c (Function.update f i l') r where
  unlaunched j hj := by
    have hji : j ≠ i := by
      rintro rfl
      rw [hlaunched] at hj
      cases hj
    rw [Function.update_of_ne hji]
    exact h.unlaunched j hj
  joined hc := absurd (h.joined hc i) hi
  started := h.started
  reduced := h.reduced

/-- A mapper's calls go on record before those of the reducer. -/
theorem LogOk.step_mapper {log events : List (MrEvent n D)} (h : LogOk app c f r log)
    (hstage : StageOk c f r) (hi : f i ≠ .exit)
    (hevents : l'.events app i = (f i).events app i ++ events)
    (hmapper : ∀ e ∈ events, e.mapper = some i) :
    LogOk app c (Function.update f i l') r (log ++ events) := by
  obtain ⟨ms, hlog, hall, hfilter⟩ := h
  have hclosing := CallerLoc.closing_of_not_reduced app (hstage.not_reduced hi)
  have hreducer := hstage.reducer_start hi
  refine ⟨ms ++ events, ?_, ?_, ?_⟩
  · rw [hlog, hclosing, hreducer]
    simp [ReducerLoc.events]
  · intro e he
    rcases List.mem_append.mp he with he | he
    · exact hall e he
    · rw [hmapper e he]
      rfl
  · intro j
    rw [List.filter_append, hfilter j]
    by_cases hj : j = i
    · have hown : events.filter (fun e => e.mapper == some i) = events := by
        rw [List.filter_eq_self]
        intro e he
        rw [hmapper e he]
        exact beq_self_eq_true _
      rw [hj, Function.update_self, hown, hevents]
    · have hother : events.filter (fun e => e.mapper == some j) = [] := by
        rw [List.filter_eq_nil_iff]
        intro e he
        rw [hmapper e he, beq_iff_eq, Option.some.injEq]
        exact fun hij => hj hij.symm
      rw [Function.update_of_ne hj, hother, List.append_nil]

/-- The mappers that are not done, when one of them moves. -/
theorem card_exited_step (f : Fin n → MapperLoc D) (i : Fin n) (l' : MapperLoc D) :
    (Finset.univ.filter fun j => (Function.update f i l' j).exited = false).card +
        (if (f i).exited = false then 1 else 0) =
      (Finset.univ.filter fun j => (f j).exited = false).card +
        (if l'.exited = false then 1 else 0) := by
  have hstep := card_filter_step (fun j => (f j).exited = false)
    (fun j => (Function.update f i l' j).exited = false) i
    (fun j hj => by rw [Function.update_of_ne hj])
  rwa [Function.update_self] at hstep

/-- What a mapper's step does to the memory, as far as the stage depends on it. -/
theorem MemOk.step_mapper (h : MemOk app c f r m) (hstage : StageOk c f r) (hl : f i = l)
    {notes : List (Note Unit)} (hmove : MapperMove app i m l m' notes l') :
    c.launched i = true ∧ l ≠ .exit ∧ MemOk app c (Function.update f i l') r m' ∧
      ∃ events, m'.log = m.log ++ events ∧ l'.events app i = l.events app i ++ events ∧
        ∀ e ∈ events, e.mapper = some i := by
  have hne : l ≠ .exit := by
    cases hmove <;> simp
  have hi : f i ≠ .exit := hl ▸ hne
  have hrunning := hstage.ne_finished hi
  have hcount := card_exited_step f i l'
  rw [hl, ← h.inProgress] at hcount
  -- a mapper that moves was launched, and the caller has split the data
  have hlaunched : c.launched i = true := by
    cases hmove with
    | call hthread => rwa [h.threads hrunning] at hthread
    | store input =>
        by_contra hno
        have hstart := hstage.unlaunched i (by simpa using hno)
        rw [hl] at hstart
        cases hstart
    | done =>
        by_contra hno
        have hstart := hstage.unlaunched i (by simpa using hno)
        rw [hl] at hstart
        cases hstart
  have hstarted : c ≠ .start := by
    rintro rfl
    cases hlaunched
  refine ⟨hlaunched, hne, ?_⟩
  cases hmove with
  | call hthread =>
      -- it reads its slot of the input
      have hinput : m.mapperInputArray i = app.slots i := congrFun (h.inputs hstarted hrunning) i
      refine ⟨{ h with inProgress := ?_, mapping := ?_, results := ?_ }, _, rfl, ?_, ?_⟩
      · exact (Nat.add_right_cancel hcount).symm
      · rw [Function.forall_update_iff f
          (p := fun j l => ∀ input, l = .mapping input → input = app.slots j)]
        refine ⟨fun input heq => ?_, fun j _ => h.mapping j⟩
        rw [← MapperLoc.mapping.inj heq, hinput]
      · intro hc
        rw [Function.forall_update_iff f (p := fun j l => l.returned = true → _)]
        exact ⟨fun hno => absurd hno Bool.false_ne_true, fun j _ => h.results hc j⟩
      · rw [hinput]
        rfl
      · simp [MrEvent.mapper]
  | store input =>
      -- and stores what the mapper function makes of it
      have hresult : app.mapperFn i input = app.results i := by
        rw [h.mapping i input hl]
        rfl
      refine ⟨{ h with inProgress := ?_, mapping := ?_, results := ?_ }, _, rfl, ?_, ?_⟩
      · exact (Nat.add_right_cancel hcount).symm
      · rw [Function.forall_update_iff f
          (p := fun j l => ∀ input, l = .mapping input → input = app.slots j)]
        exact ⟨fun input heq => (by cases heq), fun j _ => h.mapping j⟩
      · intro hc j hj
        show Function.update m.mapperResultArray i _ j = _
        by_cases hji : j = i
        · rw [hji, Function.update_self, hresult]
        · rw [Function.update_of_ne hji] at hj ⊢
          exact h.results hc j hj
      · rw [hresult]
        rfl
      · simp [MrEvent.mapper]
  | done =>
      -- it is still counted, so the counter can go down
      have hpos : m.mappersInProgress = _ + 1 := hcount.symm
      refine ⟨{ h with inProgress := ?_, mapping := ?_, results := ?_ }, [], ?_, rfl, by simp⟩
      · show countDown 8 m.mappersInProgress = _
        rw [countDown_eq (hpos ▸ Nat.succ_pos _), hpos]
        rfl
      · rw [Function.forall_update_iff f
          (p := fun j l => ∀ input, l = .mapping input → input = app.slots j)]
        exact ⟨fun input heq => (by cases heq), fun j _ => h.mapping j⟩
      · intro hc
        rw [Function.forall_update_iff f (p := fun j l => l.returned = true → _)]
        refine ⟨fun _ => h.results hc i ?_, fun j _ => h.results hc j⟩
        rw [hl]
        rfl
      · exact (List.append_nil _).symm

end Mapper

section Reducer

variable {r' : ReducerLoc}

/-- The reducer moves only between the caller's start of it and its end. -/
theorem MemOk.step_reducer (h : MemOk app c f r m) (hstage : StageOk c f r)
    (hmove : ReducerMove app m r m' r') :
    StageOk c f r' ∧ MemOk app c f r' m' ∧
      ∃ events, m'.log = m.log ++ events ∧ r'.events app = r.events app ++ events ∧
        c.reduced = false := by
  have hne : r ≠ .exit := by
    cases hmove <;> decide
  -- the caller has not seen the reducer's post
  have hnot : c.reduced = false := by
    cases hc : c.reduced with
    | false => rfl
    | true => exact absurd (hstage.reduced hc) hne
  have hrunning : c ≠ .finished := by
    rintro rfl
    cases hnot
  have hstarted : c.startedReducer = true := by
    cases hmove with
    | begin hthread => rwa [h.reducerThread hrunning] at hthread
    | call => exact hstage.started (by decide)
    | store => exact hstage.started (by decide)
    | done => exact hstage.started (by decide)
    | post => exact hstage.started (by decide)
  -- the reducer is started when all mappers are through, so it finds their results
  have hexit := hstage.joined (CallerLoc.joined_of_startedReducer hstarted)
  have hresults : m.mapperResultArray = app.results := by
    ext1 j
    apply h.results hrunning j
    rw [hexit j]
    rfl
  -- the reducer alone posts the semaphore, once
  have hsem : m.reducerFinishedSemaphore = 0 := by
    rw [h.semaphore, if_neg fun hr => hne hr.2]
  refine ⟨⟨hstage.unlaunched, hstage.joined, fun _ => hstarted,
    fun hc => absurd (hnot.symm.trans hc) Bool.false_ne_true⟩, ?_⟩
  cases hmove with
  | begin hthread =>
      refine ⟨{ h with output := ?_, semaphore := ?_ }, [], (List.append_nil _).symm, rfl, hnot⟩
      · exact fun _ hret => absurd hret Bool.false_ne_true
      · exact hsem.trans (if_neg (by simp)).symm
  | call =>
      refine ⟨{ h with output := ?_, semaphore := ?_ }, _, rfl, ?_, hnot⟩
      · exact fun _ hret => absurd hret Bool.false_ne_true
      · exact hsem.trans (if_neg (by simp)).symm
      · rw [hresults]
        rfl
  | store =>
      refine ⟨{ h with output := ?_, semaphore := ?_ }, _, rfl, ?_, hnot⟩
      · intro _ _
        show app.reducerFn m.mapperResultArray = _
        rw [hresults]
        rfl
      · exact hsem.trans (if_neg (by simp)).symm
      · rw [hresults]
        rfl
  | done =>
      refine ⟨{ h with output := ?_, semaphore := ?_ }, [], (List.append_nil _).symm, rfl, hnot⟩
      · exact fun hc _ => h.output hc rfl
      · exact hsem.trans (if_neg (by simp)).symm
  | post =>
      refine ⟨{ h with output := ?_, semaphore := ?_ }, [], (List.append_nil _).symm, rfl, hnot⟩
      · exact fun hc _ => h.output hc rfl
      · show m.reducerFinishedSemaphore + 1 = _
        rw [hsem, if_pos ⟨hnot, rfl⟩]

theorem LogOk.step_reducer {log events : List (MrEvent n D)} (h : LogOk app c f r log)
    (hevents : r'.events app = r.events app ++ events) (hnot : c.reduced = false) :
    LogOk app c f r' (log ++ events) := by
  obtain ⟨ms, hlog, hall, hfilter⟩ := h
  refine ⟨ms, ?_, hall, hfilter⟩
  rw [hlog, CallerLoc.closing_of_not_reduced app hnot, hevents]
  simp

end Reducer

section Caller

variable {c' : CallerLoc} {m₁ : MapReduce n D} {blocked : Bool}

/-- The memory on which the caller tests, when all mappers were started. -/
theorem MemOk.tests (h : MemOk app c f r m) (htest : CallerTests m c m₁) :
    ∃ wq, m₁ = { m with wqUntilAllMappersFinish := wq } ∧ wq.threadWaitCount = 0 ∧
      wq.applnMutex.isSome = true := by
  have hcount := h.waitCount
  cases htest with
  | first hk => exact ⟨_, rfl, hcount, rfl⟩
  | again =>
      refine ⟨_, rfl, ?_, h.mutex rfl⟩
      show countDown 32 m.wqUntilAllMappersFinish.threadWaitCount = 0
      rw [hcount, if_pos rfl, countDown_eq Nat.one_pos]

/-- A caller that tests has started all mappers and nothing else. -/
theorem CallerTests.stage (app : MrApp n D) (htest : CallerTests m c m₁) :
    (∀ i : Fin n, c.launched i = true) ∧ c ≠ .start ∧ c ≠ .finished ∧ c.startedReducer = false ∧
      c.reduced = false ∧ c.closing app = [] ∧ c.opening app = [.split app.slots] := by
  cases htest with
  | first hk =>
      refine ⟨fun i => ?_, by simp, by simp, rfl, rfl, rfl, rfl⟩
      exact decide_eq_true (Nat.lt_of_lt_of_le i.isLt hk)
  | again => exact ⟨fun i => rfl, by simp, by simp, rfl, rfl, rfl, rfl⟩

/-- The caller moves on, with no thread started and none found done. -/
theorem MemOk.move (h : MemOk app c f r m) (c' : CallerLoc) (hc : c ≠ .start ∧ c ≠ .finished)
    (hc' : c' ≠ .start)
    (hlaunched : ∀ i : Fin n, c.launched i = c'.launched i)
    (hstarted : c.startedReducer = c'.startedReducer) (hreduced : c.reduced = c'.reduced)
    {wq : WaitQueue Unit} (hcount : wq.threadWaitCount = if c' = .wait then 1 else 0)
    (hmutex : c' = .wait → wq.applnMutex.isSome = true) (log : List (MrEvent n D)) :
    MemOk app c' f r { m with wqUntilAllMappersFinish := wq, log := log } :=
  { h with
    fresh := fun hstart => absurd hstart hc'
    inputs := fun _ _ => h.inputs hc.1 hc.2
    results := fun _ => h.results hc.2
    threads := fun _ i => (h.threads hc.2 i).trans (hlaunched i)
    reducerThread := fun _ => (h.reducerThread hc.2).trans hstarted
    output := fun _ => h.output hc.2
    semaphore := hreduced ▸ h.semaphore
    waitCount := hcount
    mutex := hmutex }

/-- No mapper is in progress when all of them announced their completion, and only then. -/
theorem MemOk.inProgress_eq_zero (h : MemOk app c f r m) :
    m.mappersInProgress = 0 ↔ ∀ i, f i = .exit := by
  rw [h.inProgress, Finset.card_eq_zero, Finset.filter_eq_empty_iff]
  refine forall_congr' fun i => ?_
  have hexit : (f i).exited = true ↔ f i = .exit := by
    cases f i <;> simp [MapperLoc.exited]
  simp [hexit]

theorem LogOk.step_caller {log events : List (MrEvent n D)} (h : LogOk app c f r log)
    (hopening : c'.opening app = c.opening app)
    (hclosing : c'.closing app = c.closing app ++ events) : LogOk app c' f r (log ++ events) := by
  obtain ⟨ms, hlog, hall, hfilter⟩ := h
  refine ⟨ms, ?_, hall, hfilter⟩
  rw [hlog, hopening, hclosing, ← List.append_assoc]

theorem LogOk.keep_caller {log : List (MrEvent n D)} (h : LogOk app c f r log)
    (hopening : c'.opening app = c.opening app) (hclosing : c'.closing app = c.closing app) :
    LogOk app c' f r log := by
  rw [← List.append_nil log]
  refine h.step_caller hopening ?_
  rw [hclosing, List.append_nil]

/-- Nothing is on record before the data is split. -/
theorem LogOk.eq_nil {log : List (MrEvent n D)} (h : LogOk app .start f r log)
    (hstart : ∀ i, f i = .start) (hr : r = .start) : log = [] := by
  obtain ⟨ms, hlog, hall, hfilter⟩ := h
  have hms : ms = [] := by
    rw [List.eq_nil_iff_forall_not_mem]
    intro e he
    obtain ⟨i, hi⟩ := Option.isSome_iff_exists.mp (hall e he)
    have hmem : e ∈ ms.filter (fun e => e.mapper == some i) :=
      List.mem_filter.mpr ⟨he, by simp [hi]⟩
    rw [hfilter i, hstart i] at hmem
    cases hmem
  rw [hlog, hms, hr]
  rfl

theorem LogOk.split {log : List (MrEvent n D)} (h : LogOk app .start f r log)
    (hstart : ∀ i, f i = .start) (hr : r = .start) :
    LogOk app (.launch 0) f r (log ++ [.split app.slots]) := by
  refine ⟨[], ?_, by simp, ?_⟩
  · rw [h.eq_nil hstart hr, hr]
    rfl
  · intro i
    rw [hstart i]
    rfl

/-- A stage at which all mappers are started. -/
theorem StageOk.of_launched (hlaunched : ∀ i : Fin n, c.launched i = true)
    (hjoined : c.joined = true → ∀ i, f i = .exit) (hstarted : r ≠ .start → c.startedReducer = true)
    (hreduced : c.reduced = true → r = .exit) : StageOk c f r where
  unlaunched i hi := by
    rw [hlaunched i] at hi
    cases hi
  joined := hjoined
  started := hstarted
  reduced := hreduced

/-- The caller has split the data. -/
theorem MemOk.split (h : MemOk app .start f r m) (hall : m.mappersInProgress = n)
    (log : List (MrEvent n D)) :
    MemOk app (.launch 0) f r
      { m with mapperInputArray := app.slots, mappersInProgress := n, log := log } :=
  { h with
    inProgress := hall.symm.trans h.inProgress
    fresh := fun hc => (by cases hc)
    inputs := fun _ _ => rfl
    results := fun _ => h.results (by decide)
    threads := fun _ => h.threads (by decide)
    reducerThread := fun _ => h.reducerThread (by decide)
    output := fun _ => h.output (by decide)
    mutex := fun hc => (by cases hc) }

/-- The caller has started one more mapper. -/
theorem MemOk.launch {k : Nat} (h : MemOk app (.launch k) f r m) (hk : k < n) :
    MemOk app (.launch (k + 1)) f r
      { m with mapperThreadArray := Function.update m.mapperThreadArray ⟨k, hk⟩ true } where
  __ := h
  fresh hc := by cases hc
  inputs _ _ := h.inputs (by simp) (by simp)
  results _ := h.results (by simp)
  threads _ i := by
    show Function.update m.mapperThreadArray ⟨k, hk⟩ true i = decide (i.val < k + 1)
    by_cases hi : i = ⟨k, hk⟩
    · rw [hi, Function.update_self]
      exact (decide_eq_true (Nat.lt_succ_self k)).symm
    · have hval : i.val ≠ k := fun hval => hi (Fin.ext hval)
      rw [Function.update_of_ne hi, h.threads (by simp) i]
      exact decide_eq_decide.mpr (by omega)
  reducerThread _ := h.reducerThread (by simp)
  output _ := h.output (by simp)
  mutex hc := by cases hc

/-- The caller has started the reducer. -/
theorem MemOk.launchReducer (h : MemOk app .launchReducer f r m) :
    MemOk app .semWait f r { m with reducerThread := true } where
  __ := h
  fresh hc := by cases hc
  inputs _ _ := h.inputs (by decide) (by decide)
  results _ := h.results (by decide)
  threads _ := h.threads (by decide)
  reducerThread _ := rfl
  output _ := h.output (by decide)
  mutex hc := by cases hc

/-- The semaphore lets the caller go on only when the reducer is done. -/
theorem MemOk.exit_of_semaphore (h : MemOk app .semWait f r m) (hpos : m.reducerFinishedSemaphore ≠ 0) :
    r = .exit := by
  by_contra hr
  exact hpos (h.semaphore.trans (if_neg fun hc => hr hc.2))

theorem MemOk.semWait (h : MemOk app .semWait f r m) (hexit : r = .exit) :
    MemOk app .read f r { m with reducerFinishedSemaphore := m.reducerFinishedSemaphore - 1 } where
  __ := h
  fresh hc := by cases hc
  inputs _ _ := h.inputs (by decide) (by decide)
  results _ := h.results (by decide)
  threads _ := h.threads (by decide)
  reducerThread _ := h.reducerThread (by decide)
  output _ := h.output (by decide)
  semaphore := by
    show m.reducerFinishedSemaphore - 1 = 0
    rw [h.semaphore, if_pos ⟨rfl, hexit⟩]
  mutex hc := by cases hc

/-- Nothing is said of the arrays any more. -/
theorem MemOk.cleanup (h : MemOk app .cleanup f r m) :
    MemOk app .finished f r (mapReduceCleanup app m) where
  __ := h
  fresh hc := by cases hc
  inputs _ hc := absurd rfl hc
  results hc := absurd rfl hc
  threads hc := absurd rfl hc
  reducerThread hc := absurd rfl hc
  output hc := absurd rfl hc
  mutex hc := by cases hc

/-- Every step of the caller leads to the next stage. -/
theorem MemOk.step_caller (h : MemOk app c f r m) (hstage : StageOk c f r)
    (hlog : LogOk app c f r m.log) (hmove : CallerMove app m c m' blocked c') :
    StageOk c' f r ∧ MemOk app c' f r m' ∧ LogOk app c' f r m'.log ∧
      (blocked = true → c' = .wait ∧ m'.mappersInProgress ≠ 0) := by
  cases hmove with
  | split hall =>
      -- no thread has started, and the arrays are empty
      have hstart : ∀ i, f i = .start := fun i => hstage.unlaunched i rfl
      have hr : r = .start := by
        by_contra hne
        exact absurd (hstage.started hne) Bool.false_ne_true
      have hslots : app.inputDataSplitter app.appData m.mapperInputArray = app.slots := by
        rw [h.fresh rfl]
        rfl
      rw [hslots]
      exact ⟨⟨fun i _ => hstart i, fun hc => absurd hc Bool.false_ne_true, fun hne => absurd hr hne,
        fun hc => absurd hc Bool.false_ne_true⟩, h.split hall _, hlog.split hstart hr, by simp⟩
  | @launch k hk =>
      refine ⟨⟨fun i hi => hstage.unlaunched i ?_, fun hc => absurd hc Bool.false_ne_true,
        hstage.started, fun hc => absurd hc Bool.false_ne_true⟩, h.launch hk,
          hlog.keep_caller rfl rfl, by simp⟩
      have hle := of_decide_eq_false hi
      exact decide_eq_false (by omega)
  | block htest hprogress =>
      obtain ⟨hlaunched, hne, hrun, hsr, hnot, hclosing, hopening⟩ := htest.stage app
      obtain ⟨wq, rfl, hcount, hmutex⟩ := h.tests htest
      -- the caller is the only one that waits for the mappers
      have hup : wq.countUp.threadWaitCount = 1 := by
        show countUp 32 wq.threadWaitCount = 1
        rw [hcount, countUp_eq (by decide)]
      have hmutex' : wq.countUp.applnMutex.isSome = true := hmutex
      exact ⟨.of_launched (fun _ => rfl) (fun hc => absurd hc Bool.false_ne_true)
          (fun hr => absurd (hstage.started hr) (by simp [hsr])) (fun hc => absurd hc Bool.false_ne_true),
        h.move .wait ⟨hne, hrun⟩ (by simp) hlaunched hsr hnot hup (fun _ => hmutex') m.log,
        hlog.keep_caller hopening.symm hclosing.symm, fun _ => ⟨rfl, hprogress⟩⟩
  | pass htest hdone =>
      obtain ⟨hlaunched, hne, hrun, hsr, hnot, hclosing, hopening⟩ := htest.stage app
      obtain ⟨wq, rfl, hcount, hmutex⟩ := h.tests htest
      exact ⟨.of_launched (fun _ => rfl) (fun _ => h.inProgress_eq_zero.mp hdone)
          (fun hr => absurd (hstage.started hr) (by simp [hsr])) (fun hc => absurd hc Bool.false_ne_true),
        h.move .launchReducer ⟨hne, hrun⟩ (by simp) hlaunched hsr hnot hcount
          (fun hc => by cases hc) m.log,
        hlog.keep_caller hopening.symm hclosing.symm, by simp⟩
  | launchReducer =>
      exact ⟨.of_launched (fun _ => rfl) (fun _ => hstage.joined rfl) (fun _ => rfl)
          (fun hc => absurd hc Bool.false_ne_true),
        h.launchReducer, hlog.keep_caller rfl rfl, by simp⟩
  | semWait hpos =>
      -- only the reducer posts the semaphore, when it is done
      have hexit := h.exit_of_semaphore hpos
      exact ⟨.of_launched (fun _ => rfl) (fun _ => hstage.joined rfl) (fun _ => rfl) (fun _ => hexit),
        h.semWait hexit, hlog.keep_caller rfl rfl, by simp⟩
  | read =>
      have hexit := hstage.reduced rfl
      have houtput : m.reducerResult = app.output := h.output (by decide) (by rw [hexit]; rfl)
      rw [houtput]
      exact ⟨.of_launched (fun _ => rfl) (fun _ => hstage.joined rfl) (fun _ => rfl) (fun _ => hexit),
        h.move .cleanup (by decide) (by decide) (fun _ => rfl) rfl rfl h.waitCount
          (fun hc => by cases hc) _,
        hlog.step_caller rfl rfl, by simp⟩
  | cleanup =>
      have hexit := hstage.reduced rfl
      have houtput : m.reducerResult = app.output := h.output (by decide) (by rw [hexit]; rfl)
      have hinputs : m.mapperInputArray = app.slots := h.inputs (by decide) (by decide)
      -- what is freed is what was made
      have hresults : m.mapperResultArray = app.results := by
        ext1 i
        apply h.results (by decide) i
        rw [hstage.joined rfl i]
        rfl
      refine ⟨.of_launched (fun _ => rfl) (fun _ => hstage.joined rfl) (fun _ => rfl) (fun _ => hexit),
        h.cleanup, hlog.step_caller rfl ?_, by simp⟩
      rw [hinputs, hresults, houtput]
      rfl

end Caller

end MapReduceLib
end MultithreadingBible
