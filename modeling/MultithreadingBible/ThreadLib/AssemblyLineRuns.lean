import MultithreadingBible.ThreadLib.AssemblyLineCompletion

/-!
# Assembly lines: runs

* `assemblyLine_inOrder` — order, work, assertions and progress, in every run with timely pushes.
* `AslInv.ends` — without further pushes such a run ends with all items finished.
* `assemblyLine_inOrder_fails` — a push in the middle of a cycle makes an item miss the first worker,
  and two pushes make an assertion fail.
-/

namespace MultithreadingBible
namespace ThreadLib

open Lib

variable {n : Nat} {α : Type*}

section Steps

variable {s : AslConfig n α}

/-- A worker finds in its slot what it saw there. -/
theorem AslInv.worker_ne_abort (h : AslInv s) {i : Fin n}
    (hawake : (s.thr (.worker i)).isWaiting = false) :
    workerThreadInit i (s.thr (.worker i)).loc s.mem ≠ .abort := by
  have hin : inCycle s = true := by simp [inCycle, (h.gather hawake).1]
  have hstage : stage s i = stageOf true (s.thr (.worker i)) := by
    rw [stage_of_lt i.isLt, hin]
  obtain ⟨b, ws, hok, -, -⟩ := h.line
  have hslot : stage s i = .busy ∨ stage s i = .rem →
      ∃ item, s.mem.aslQ.elem (s.mem.currSlot i) = some item := by
    intro hstage
    rw [← Option.ne_none_iff_exists', hok.slot_eq i.isLt (by rcases hstage with h | h <;> simp [h])]
    exact hok.full i i.isLt hstage
  have hshape := h.workers i
  generalize s.thr (.worker i) = old at hstage hshape hawake
  cases hshape with
  | waiting => cases hawake
  | notified =>
      simp only [Status.loc_notified, workerThreadInit]
      split <;> simp
  | work =>
      obtain ⟨item, hitem⟩ := hslot (.inl hstage)
      simp [workerThreadInit, hitem]
  | remove =>
      obtain ⟨item, hitem⟩ := hslot (.inr hstage)
      simp [workerThreadInit, fifoInsert_none hok.random hitem, Effect.call]
  | decrement => simp [workerThreadInit]
  | report => simp [workerThreadInit]

theorem startCycle_eq (n : Nat) (m : AssemblyLine) :
    ∃ m' notes st, startCycle n m = .done m' notes st := ⟨_, _, _, rfl⟩

theorem endCycle_eq (n : Nat) (m : AssemblyLine) :
    ∃ m' notes st, endCycle n m = .done m' notes st := by
  unfold endCycle
  split
  · exact startCycle_eq n m
  · exact ⟨_, _, _, rfl⟩

/-- The engine finds a free slot for a waiting item, and only waits to be created. -/
theorem AslInv.engine_exec (h : AslInv s) (hn : 2 ≤ n)
    (hawake : (s.thr .engine).isWaiting = false) :
    (aslEngineFn n (s.thr .engine).loc s.mem = .blocked ∧ s.mem.pushed = 0) ∨
      ∃ m notes st, aslEngineFn n (s.thr .engine).loc s.mem = .done m notes st := by
  obtain ⟨b, ws, hok, hholds, -⟩ := h.line
  cases h.engine with
  | unborn hthr hidle hstate hnew =>
      rw [hthr, Status.loc_running]
      unfold aslEngineFn
      dsimp only
      split
      · exact .inr (startCycle_eq n _)
      · next hunborn => exact .inl ⟨rfl, hnew (by simpa using hunborn)⟩
  | gather hthr =>
      rw [hthr] at hawake
      cases hawake
  | gathered hthr hidle hstate hborn hready =>
      have hin : inCycle s = true := by simp [inCycle, hthr]
      obtain ⟨m, ws', heq, -⟩ :=
        gather_spec hn hok (fun i hi => stage_gathered hidle hin hi) hholds hready
      rw [hthr, Status.loc_notified, heq]
      exact .inr (endCycle_eq n m)
  | halted hthr =>
      rw [hthr] at hawake
      cases hawake
  | restarted hthr =>
      rw [hthr]
      exact .inr (startCycle_eq n _)

/-- A push with room stores its item. -/
theorem AslInv.push_ne_abort (h : AslInv s)
    (hroom : s.mem.aslQ.count = 0 ∨ isQueueFull s.mem.waitLstFq = false) :
    (assemblyLinePushNewItem s.mem : AslEffect n) ≠ .abort := by
  obtain ⟨b, ws, hok, hholds, -⟩ := h.line
  obtain ⟨m, hm⟩ := exists_storeNewItem hok hholds hroom
  unfold assemblyLinePushNewItem assemblyLineEngineStart
  rw [hm]
  simp only [Effect.call]
  split
  · simp
  · split <;> simp

end Steps

section Runs

variable [DecidableEq α] [Fintype α] {s : AslConfig n α}

/-- All pushed items are finished, in order, after all work functions. -/
def AllFinished (s : AslConfig n α) : Prop :=
  s.mem.finished = List.range s.mem.pushed ∧ ∀ x, x < s.mem.pushed → s.mem.works x = List.range n

/-- Every item meets the work functions in order, items are finished in the order of the pushes, no
assertion fails while there is room in the wait list, as long as an item is not finished a worker
or the engine can go on, and without further pushes they finish all items. -/
structure InOrder (s : AslConfig n α) : Prop where
  works : ∀ x, s.mem.works x <+: List.range n
  worked : ∀ x ∈ s.mem.finished, s.mem.works x = List.range n
  order : s.mem.finished <+: List.range s.mem.pushed
  asserts : ∀ a, roomToPush s a = true → (aslProgram n α).step s a ≠ .abort
  progress : s.mem.finished.length = s.mem.pushed ∨ ∃ t x picks s', (∀ a, t ≠ .app a) ∧
    (aslProgram n α).step s (.run t x picks) = .next s'
  ends : (aslMachine n α).Ends (fun _ a => isPush a = false) s
    (6 * n * (n * (s.mem.pushed - s.mem.finished.length) + n + 2) + 1) fun s' =>
      AllFinished s' ∧ s'.mem.pushed = s.mem.pushed

theorem range_prefix_range {k n : Nat} (h : k ≤ n) : List.range k <+: List.range n := by
  obtain ⟨d, rfl⟩ := Nat.exists_eq_add_of_le h
  rw [List.range_add]
  exact List.prefix_append _ _

omit [DecidableEq α] [Fintype α] in
theorem AslInv.works (h : AslInv s) (x : Nat) : s.mem.works x <+: List.range n := by
  obtain ⟨b, ws, hok, -, -⟩ := h.line
  by_cases hfin : x ∈ s.mem.finished
  · rw [hok.finished x hfin]
  · by_cases hline : x ∈ lineItems n b (stage s) s.mem
    · obtain ⟨i, hi, hx⟩ := hok.mem_items.mp hline
      rw [hok.worked i hi x hx]
      apply range_prefix_range
      unfold worksDone
      split
      · omega
      · omega
      · omega
      all_goals split <;> omega
    · rw [hok.fresh x hfin hline]
      exact List.nil_prefix

theorem AslInv.progress (h : AslInv s) (hn : 2 ≤ n) :
    s.mem.finished.length = s.mem.pushed ∨ ∃ t x picks s', (∀ a, t ≠ .app a) ∧
      (aslProgram n α).step s (.run t x picks) = .next s' := by
  obtain ⟨b, ws, hok, hholds, -⟩ := h.line
  -- with nothing in the line and nothing waiting, all pushed items are finished
  have hall : lineItems n b (stage s) s.mem = [] → ws = [] →
      s.mem.finished.length = s.mem.pushed := by
    intro hline hws
    have hlength := congrArg List.length hok.order
    rw [hline, hws, List.append_nil, List.append_nil, List.length_range] at hlength
    exact hlength
  -- an engine that is awake can go on, unless there is nothing to do
  have hengine : (s.thr .engine).isWaiting = false →
      s.mem.finished.length = s.mem.pushed ∨ ∃ t x picks s', (∀ a, t ≠ .app a) ∧
        (aslProgram n α).step s (.run t x picks) = .next s' := by
    intro hawake
    rcases h.engine_exec hn hawake with ⟨-, hzero⟩ | ⟨m, notes, st, hexec⟩
    · have hlength := congrArg List.length hok.order
      rw [List.length_append, List.length_append, List.length_range] at hlength
      exact .inl (by omega)
    · obtain ⟨picks, s', hstep⟩ :=
        Program.exists_step_of_exec (P := aslProgram n α) (x := ()) hawake hexec
      exact .inr ⟨.engine, (), picks, s', by simp, hstep⟩
  cases h.engine with
  | unborn hthr => exact hengine (by rw [hthr]; rfl)
  | gathered hthr => exact hengine (by rw [hthr]; rfl)
  | restarted hthr => exact hengine (by rw [hthr]; rfl)
  | halted hthr hidle hstate hborn hline hwaits =>
      refine .inl (hall (hok.count_eq_zero.mp hline) ?_)
      rw [hholds.count] at hwaits
      exact List.length_eq_zero_iff.mp hwaits
  | gather hthr hstate hborn hready hlt =>
      -- in a cycle some worker is awake, and it never aborts
      obtain ⟨i, hi⟩ := exists_working hlt
      have hne := h.worker_ne_abort hi
      have hexec : ∃ m notes st,
          workerThreadInit i (s.thr (.worker i)).loc s.mem = .done m notes st := by
        have hshape := h.workers i
        generalize s.thr (.worker i) = old at hne hshape hi ⊢
        cases hshape with
        | waiting => cases hi
        | notified =>
            simp only [Status.loc_notified, workerThreadInit]
            split
            · exact ⟨_, _, _, rfl⟩
            · exact ⟨_, _, _, rfl⟩
        | work =>
            simp only [Status.loc_running, workerThreadInit] at hne ⊢
            split at hne
            · exact absurd rfl hne
            · exact ⟨_, _, _, rfl⟩
        | remove =>
            simp only [Status.loc_running, workerThreadInit] at hne ⊢
            cases hq : fifoInsertOrReplaceAtIndex s.mem.aslQ none (s.mem.currSlot i) with
            | none =>
                rw [hq] at hne
                exact absurd rfl hne
            | some r =>
                obtain ⟨finishedObj, q⟩ := r
                cases finishedObj with
                | none =>
                    rw [hq] at hne
                    exact absurd rfl hne
                | some item => exact ⟨_, _, _, rfl⟩
        | decrement => exact ⟨_, _, _, rfl⟩
        | report => exact ⟨_, _, _, rfl⟩
      obtain ⟨m, notes, st, hexec⟩ := hexec
      obtain ⟨picks, s', hstep⟩ :=
        Program.exists_step_of_exec (P := aslProgram n α) (x := ()) hi hexec
      exact .inr ⟨.worker i, (), picks, s', by simp, hstep⟩

/-- Where no step is left but pushes, all items are finished. -/
theorem AslInv.allFinished_of_stuck (h : AslInv s) (hn : 2 ≤ n)
    (hstuck : (aslMachine n α).Stuck (fun _ a => isPush a = false) s) : AllFinished s := by
  have hall : s.mem.finished.length = s.mem.pushed := by
    rcases h.progress hn with hall | ⟨t, x, picks, s', hno, hstep⟩
    · exact hall
    · have hpush : isPush (.run t x picks) = false := by
        cases t with
        | app a => exact absurd rfl (hno a)
        | _ => rfl
      exact absurd hstep (hstuck _ s' hpush)
  have heq : s.mem.finished = List.range s.mem.pushed :=
    h.order.eq_of_length (by rw [hall, List.length_range])
  refine ⟨heq, fun x hx => h.worked x ?_⟩
  rw [heq]
  exact List.mem_range.mpr hx

/-- **Without further pushes** every run ends, and all items are finished. -/
theorem AslInv.ends (h : AslInv s) (hn : 2 ≤ n) : (aslMachine n α).Ends (fun _ a => isPush a = false) s
    (6 * n * (n * (s.mem.pushed - s.mem.finished.length) + n + 2) + 1) fun s' =>
      AllFinished s' ∧ s'.mem.pushed = s.mem.pushed := by
  refine Machine.Ends.of_rank
    (R := fun s' k => AslInv s' ∧ workLeft s' ≤ k ∧ s'.mem.pushed = s.mem.pushed) ?_ ?_
    ⟨h, h.workLeft_le, rfl⟩
  · rintro s₁ a s₂ k ⟨h₁, hk, hpushed⟩ hpush hstep
    obtain ⟨h₂, hlt, hsame⟩ := h₁.workLeft_lt hn hpush hstep
    exact ⟨workLeft s₂, by omega, h₂, le_refl _, hsame.trans hpushed⟩
  · rintro s₁ k ⟨h₁, -, hpushed⟩ hstuck
    exact ⟨h₁.allFinished_of_stuck hn hstuck, hpushed⟩

theorem AslInv.asserts (h : AslInv s) {a : Act (AslThread n α) Unit} (hroom : roomToPush s a = true)
    (hn : 2 ≤ n) : (aslProgram n α).step s a ≠ .abort := by
  intro habort
  cases a with
  | spurious t => exact Program.not_abort_spurious habort
  | run t x picks =>
      obtain ⟨hawake, hexec⟩ := Program.exec_of_abort habort
      cases t with
      | worker i => exact h.worker_ne_abort hawake hexec
      | engine =>
          have hexec' : aslEngineFn n (s.thr .engine).loc s.mem = .abort := hexec
          rcases h.engine_exec hn hawake with ⟨hblocked, -⟩ | ⟨m, notes, st, hdone⟩
          · rw [hblocked] at hexec'
            cases hexec'
          · rw [hdone] at hexec'
            cases hexec'
      | app a => exact h.push_ne_abort (by simpa [roomToPush] using hroom) hexec

theorem AslInv.inOrder (h : AslInv s) (hn : 2 ≤ n) : InOrder s where
  works := h.works
  worked := h.worked
  order := h.order
  asserts _ hroom := h.asserts hroom hn
  progress := h.progress hn
  ends := h.ends hn

omit [DecidableEq α] [Fintype α] in
theorem aslInv_fresh (hn : 2 ≤ n) : AslInv (freshAssemblyLine n α) := by
  have hidle : Idle (freshAssemblyLine n α) := fun _ => rfl
  have hout : inCycle (freshAssemblyLine n α) = false := rfl
  have hitems : lineItems n 0 (fun _ => .pre) (newAssemblyLine n) = [] := by
    apply ringList_eq_nil.mpr
    intro i hi
    rfl
  refine ⟨fun _ => .waiting, fun _ => rfl, .unborn rfl hidle (by simp [freshAssemblyLine,
    newAssemblyLine]) fun _ => rfl, 0, [], ?_, holds_fifoInitQ (by decide), rfl⟩
  rw [stage_idle hidle hout]
  refine ⟨by omega, rfl, fun i hi => ?_, fun i hi hr => (by cases hr), fun i hi hf => (by simp at hf),
    fun i hi x hx => (by cases hx), fun hp => (by cases hp), ?_, ?_, fun x hx => ?_,
    fun x _ _ => rfl⟩
  · show i = ringAt n 0 i
    unfold ringAt
    split <;> omega
  · rw [show (freshAssemblyLine n α).mem = newAssemblyLine n from rfl, hitems]
    rfl
  · rw [show (freshAssemblyLine n α).mem = newAssemblyLine n from rfl, hitems]
    rfl
  · cases hx

theorem aslInv_reachable (hn : 2 ≤ n)
    (h : (aslMachine n α).ReachableUnder
      (fun s a => roomToPush s a = true ∧ timelyPush s a = true) s) : AslInv s := by
  apply Program.invariant _ _ _ h
  · rintro s rfl
    exact aslInv_fresh hn
  · intro s t x picks s' notes st hinv hcond hran
    cases t with
    | worker i => exact hinv.worker_step hran
    | engine => exact hinv.engine_step hn hran
    | app a => exact hinv.push_step hn hran hcond.1 hcond.2
  · intro s t c l _ hno
    cases hno

/-- **Items meet the work functions in order**, in every run with room in the wait list and with timely
pushes. -/
theorem assemblyLine_inOrder (hn : 2 ≤ n)
    (h : (aslMachine n α).ReachableUnder
      (fun s a => roomToPush s a = true ∧ timelyPush s a = true) s) : InOrder s :=
  (aslInv_reachable hn h).inOrder hn

end Runs

/-- The application pushes an item. -/
abbrev pushes : Act (AslThread 2 Unit) Unit := .run (.app ()) () []

/-- The engine, and the workers it wakes. -/
abbrev engineStarts : Act (AslThread 2 Unit) Unit :=
  .run .engine () [some (.worker 1), some (.worker 0)]

/-- A worker goes on. -/
abbrev goes (i : Fin 2) : Act (AslThread 2 Unit) Unit := .run (.worker i) () []

/-- The last worker to report wakes the engine. -/
abbrev wakesEngine (i : Fin 2) : Act (AslThread 2 Unit) Unit := .run (.worker i) () [some .engine]

/-- The cycle in which the first item meets the first of two workers. -/
def firstCycle : List (Act (AslThread 2 Unit) Unit) :=
  [pushes, engineStarts, goes 0, goes 0, goes 0, goes 0, goes 1, goes 1, wakesEngine 1]

/-- Two items, one of them pushed before the first worker tested its slot in the second cycle. -/
theorem assemblyLine_inOrder_trace :
    ∃ s : AslConfig 2 Unit, InOrder s ∧ s.mem.finished = [0] ∧ s.mem.works 1 = [0] := by
  have hrun : ((aslMachine 2 Unit).execUnder (fun s a => roomToPush s a && timelyPush s a)
      (freshAssemblyLine 2 Unit) (firstCycle ++ [engineStarts, goes 1, goes 1, goes 1, pushes,
        goes 0, goes 0])).holds (fun s =>
        decide (s.mem.finished = [0] ∧ s.mem.works 1 = [0])) = true := by
    decide +kernel
  obtain ⟨s, hs, hp⟩ := Outcome.holds_iff.mp hrun
  have hreach := Machine.reachableUnder_of_execUnder (.init rfl) hs
  have hreach' := hreach.mono fun s a hcond => by simpa using hcond
  exact ⟨s, assemblyLine_inOrder (by decide) hreach', of_decide_eq_true hp⟩

/-- The items meet the work functions in order whenever they are pushed. -/
def AlwaysInOrder (n : Nat) (α : Type*) [DecidableEq α] [Fintype α] : Prop :=
  ∀ s, (aslMachine n α).ReachableUnder (fun s a => roomToPush s a = true) s → InOrder s

/-- **A push may come too late for a cycle**: the item put into the slot the first worker has just found
empty misses that worker, and after two pushes behind a worker that has moved an assertion fails. -/
theorem assemblyLine_inOrder_fails :
    ¬ AlwaysInOrder 2 Unit ∧
      (∃ s, (aslMachine 2 Unit).ReachableUnder (fun s a => roomToPush s a = true) s ∧
        s.mem.works 1 = [1] ∧ s.mem.finished = [0, 1]) ∧
      ∃ s, (aslMachine 2 Unit).ReachableUnder (fun s a => roomToPush s a = true) s ∧
        (aslProgram 2 Unit).step s engineStarts = .abort := by
  have hskip : ((aslMachine 2 Unit).execUnder roomToPush (freshAssemblyLine 2 Unit)
      (firstCycle ++ [engineStarts, goes 1, goes 1, goes 1, goes 0, pushes, goes 0, goes 0, goes 1,
        wakesEngine 1, engineStarts, goes 1, goes 1, goes 1])).holds (fun s =>
        decide (s.mem.works 1 = [1] ∧ s.mem.finished = [0, 1])) = true := by
    decide +kernel
  have hassert : ((aslMachine 2 Unit).execUnder roomToPush (freshAssemblyLine 2 Unit)
      (firstCycle ++ [engineStarts, goes 1, goes 1, goes 1, goes 0, goes 0, pushes, pushes, goes 0,
        goes 1, wakesEngine 1])).holds (fun s =>
        ((aslProgram 2 Unit).step s engineStarts).isAbort) = true := by
    decide +kernel
  obtain ⟨s, hs, hp⟩ := Outcome.holds_iff.mp hskip
  obtain ⟨s', hs', hp'⟩ := Outcome.holds_iff.mp hassert
  have hreach := Machine.reachableUnder_of_execUnder (.init rfl) hs
  have hreach' := Machine.reachableUnder_of_execUnder (.init rfl) hs'
  obtain ⟨hworks, hfinished⟩ := of_decide_eq_true hp
  refine ⟨fun hall => ?_, ⟨s, hreach, hworks, hfinished⟩, s', hreach', Outcome.isAbort_iff.mp hp'⟩
  have hfull := (hall s hreach).worked 1 (by rw [hfinished]; simp)
  rw [hworks] at hfull
  cases hfull

end ThreadLib
end MultithreadingBible
