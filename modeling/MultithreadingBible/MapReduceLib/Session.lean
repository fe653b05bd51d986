import MultithreadingBible.MapReduceLib.Steps

/-!
# Every run of a map-reduce is a session

* `Session` — the calls of a complete run: the splitter, all mappers in any interleaving, the reducer, the
  reader and the cleanup.
* `MrInv` — the invariant, kept by a step of any thread.
* `mapReduce_ok` — the calls on record always begin a session, nobody is forgotten on the wait queue, and
  the run ends only with the whole session.
-/

namespace MultithreadingBible
namespace MapReduceLib

open Lib

variable {n : Nat} {D : Type*} {app : MrApp n D} {c : CallerLoc} {f : Fin n → MapperLoc D}
  {r : ReducerLoc}

/-- The calls of a complete run. -/
def Session (app : MrApp n D) (calls : List (MrEvent n D)) : Prop :=
  ∃ ms : List (MrEvent n D),
    (∀ e ∈ ms, e.mapper.isSome = true) ∧
    (∀ i, ms.filter (fun e => e.mapper == some i) =
      [.mapperCalled i (app.slots i), .mapperReturned i (app.results i)]) ∧
    calls = .split app.slots :: ms ++ [.reducerCalled app.results, .reducerReturned app.output] ++
      (app.reading ++ app.cleaning)

section Calls

variable {log : List (MrEvent n D)}

/-- The calls and returns of a mapper's function that are still to come. -/
def MapperLoc.todo (app : MrApp n D) (i : Fin n) : MapperLoc D → List (MrEvent n D)
  | .start => [.mapperCalled i (app.slots i), .mapperReturned i (app.results i)]
  | .mapping _ => [.mapperReturned i (app.results i)]
  | .mapped | .exit => []

theorem MapperLoc.events_todo (l : MapperLoc D) (i : Fin n) :
    l.events app i ++ l.todo app i =
      [.mapperCalled i (app.slots i), .mapperReturned i (app.results i)] := by
  cases l <;> rfl

theorem MapperLoc.mapper_of_mem_todo {l : MapperLoc D} {i : Fin n} {e : MrEvent n D}
    (he : e ∈ l.todo app i) : e.mapper = some i := by
  cases l with
  | start =>
      rcases List.mem_cons.mp he with rfl | he
      · rfl
      · rw [List.mem_singleton.mp he]
        rfl
  | mapping input =>
      rw [List.mem_singleton.mp he]
      rfl
  | mapped => cases he
  | exit => cases he

/-- What some of the mappers have still to do, one after the other, by mapper. -/
theorem filter_todo (f : Fin n → MapperLoc D) (i : Fin n) {l : List (Fin n)} (hnodup : l.Nodup) :
    (l.flatMap fun j => (f j).todo app j).filter (fun e => e.mapper == some i) =
      if i ∈ l then (f i).todo app i else [] := by
  induction l with
  | nil => rfl
  | cons j l ih =>
      obtain ⟨hj, hnodup⟩ := List.nodup_cons.mp hnodup
      rw [List.flatMap_cons, List.filter_append, ih hnodup]
      by_cases hij : i = j
      · have hown : ((f j).todo app j).filter (fun e => e.mapper == some i) = (f j).todo app j := by
          rw [List.filter_eq_self]
          intro e he
          rw [MapperLoc.mapper_of_mem_todo he, hij]
          exact beq_self_eq_true _
        rw [hown, hij, if_neg hj, if_pos List.mem_cons_self, List.append_nil]
      · have hother : ((f j).todo app j).filter (fun e => e.mapper == some i) = [] := by
          rw [List.filter_eq_nil_iff]
          intro e he
          rw [MapperLoc.mapper_of_mem_todo he, beq_iff_eq, Option.some.injEq]
          exact fun hji => hij hji.symm
        rw [hother, List.nil_append]
        simp only [List.mem_cons, hij, false_or]

theorem ReducerLoc.events_prefix (app : MrApp n D) (r : ReducerLoc) :
    r.events app <+: [.reducerCalled app.results, .reducerReturned app.output] := by
  cases r with
  | start => exact List.nil_prefix
  | reduce => exact List.nil_prefix
  | reducing => exact List.prefix_append [_] [_]
  | reduced => exact List.prefix_refl _
  | post => exact List.prefix_refl _
  | exit => exact List.prefix_refl _

theorem CallerLoc.closing_prefix (app : MrApp n D) (c : CallerLoc) :
    c.closing app <+: app.reading ++ app.cleaning := by
  cases hc : c.reduced with
  | false =>
      rw [CallerLoc.closing_of_not_reduced app hc]
      exact List.nil_prefix
  | true =>
      cases c with
      | cleanup => exact List.prefix_append _ _
      | finished => exact List.prefix_refl _
      | _ => exact List.nil_prefix

/-- The calls on record begin a session. -/
theorem LogOk.begins (h : LogOk app c f r log) (hstage : StageOk c f r) :
    ∃ calls, Session app calls ∧ log <+: calls := by
  obtain ⟨ms, hlog, hall, hfilter⟩ := h
  -- the mappers finish, one after the other
  let rest := (List.finRange n).flatMap fun j => (f j).todo app j
  have hrest : c.joined = true → rest = [] := by
    intro hc
    rw [List.flatMap_eq_nil_iff]
    intro j _
    rw [hstage.joined hc j]
    rfl
  refine ⟨_, ⟨ms ++ rest, ?_, ?_, rfl⟩, ?_⟩
  · intro e he
    rcases List.mem_append.mp he with he | he
    · exact hall e he
    · obtain ⟨j, -, hj⟩ := List.mem_flatMap.mp he
      rw [MapperLoc.mapper_of_mem_todo hj]
      rfl
  · intro i
    rw [List.filter_append, hfilter i, filter_todo f i (List.nodup_finRange n),
      if_pos (List.mem_finRange i), MapperLoc.events_todo]
  · cases hc : c.joined with
    | false =>
        have hstart : r = .start := by
          by_contra hr
          rw [CallerLoc.joined_of_startedReducer (hstage.started hr)] at hc
          cases hc
        by_cases hopen : c = .start
        · subst hopen
          rw [LogOk.eq_nil ⟨ms, hlog, hall, hfilter⟩ (fun i => hstage.unlaunched i rfl) hstart]
          exact List.nil_prefix
        · have hopening : c.opening app = [.split app.slots] := by
            cases c <;> first | rfl | exact absurd rfl hopen
          have hclosing : c.closing app = [] := by
            cases c <;> first | rfl | exact absurd hc.symm Bool.false_ne_true
          rw [hlog, hstart, hclosing, hopening]
          refine ⟨rest ++ ([.reducerCalled app.results, .reducerReturned app.output] ++
            (app.reading ++ app.cleaning)), ?_⟩
          simp [ReducerLoc.events]
    | true =>
        have hopening : c.opening app = [.split app.slots] := by
          cases c <;> first | rfl | exact absurd hc Bool.false_ne_true
        rw [hlog, hrest hc, List.append_nil, hopening]
        cases hr : c.reduced with
        | false =>
            rw [CallerLoc.closing_of_not_reduced app hr, List.append_nil]
            have hevents := (List.prefix_append_right_inj (.split app.slots :: ms)).mpr
              (r.events_prefix app)
            exact hevents.trans (List.prefix_append _ _)
        | true =>
            rw [hstage.reduced hr]
            exact (List.prefix_append_right_inj _).mpr (c.closing_prefix app)

/-- A caller that is done has a whole session on record. -/
theorem LogOk.complete (h : LogOk app .finished f r log) (hstage : StageOk .finished f r) :
    Session app log := by
  obtain ⟨ms, hlog, hall, hfilter⟩ := h
  refine ⟨ms, hall, ?_, ?_⟩
  · intro i
    rw [hfilter i, hstage.joined rfl i]
    rfl
  · rw [hlog, hstage.reduced rfl]
    rfl

end Calls

/-- The invariant, with the locations of the caller, the mappers and the reducer. -/
structure MrInv (app : MrApp n D) (c : CallerLoc) (f : Fin n → MapperLoc D) (r : ReducerLoc)
    (s : MrConfig n D) : Prop where
  caller : (s.thr .caller).loc = .caller c
  mapper : ∀ i, (s.thr (.mapper i)).loc = .mapper (f i)
  reducer : (s.thr .reducer).loc = .reducer r
  stage : StageOk c f r
  mem : MemOk app c f r s.mem
  log : LogOk app c f r s.mem.log
  /-- Only the caller ever waits, and never when all mappers are done. -/
  waiting : ∀ t k l, s.thr t = .waiting k l → t = .caller ∧ c = .wait ∧ s.mem.mappersInProgress ≠ 0

section Invariant

variable {s s' : MrConfig n D} {t : MrThread n} {spurious : Bool} {notes : List (Note Unit)}
  {st : Status Unit (MrLoc D)}

theorem MrInv.step_caller (h : MrInv app c f r s)
    (hran : (mrProgram app spurious).Ran s .caller () s' notes st) :
    ∃ c', MrInv app c' f r s' := by
  have hexec : mrExec app .caller (s.thr .caller).loc () s.mem = .done s'.mem notes st := hran.exec
  rw [h.caller] at hexec
  obtain ⟨blocked, c', rfl, rfl, hmove⟩ := callerMove_of_exec hexec
  obtain ⟨hstage, hmem, hlog, hblocked⟩ := h.mem.step_caller h.stage h.log hmove
  refine ⟨c', ?_, ?_, ?_, hstage, hmem, hlog, ?_⟩
  · rw [hran.self]
    cases blocked <;> rfl
  · intro i
    rw [hran.loc_of_ne (by simp), h.mapper i]
  · rw [hran.loc_of_ne (by simp), h.reducer]
  · intro t k l hw
    by_cases ht : t = .caller
    · subst ht
      rw [hran.self] at hw
      cases blocked with
      | false => cases hw
      | true => exact ⟨rfl, hblocked rfl⟩
    · exact absurd (h.waiting t k l (hran.waiting_of_ne ht hw)).1 ht

theorem MrInv.step_mapper (h : MrInv app c f r s) {i : Fin n}
    (hran : (mrProgram app spurious).Ran s (.mapper i) () s' notes st) :
    ∃ f', MrInv app c f' r s' := by
  have hexec : mrExec app (.mapper i) (s.thr (.mapper i)).loc () s.mem = .done s'.mem notes st :=
    hran.exec
  rw [h.mapper i] at hexec
  obtain ⟨l', rfl, hmove⟩ := mapperMove_of_exec hexec
  obtain ⟨hlaunched, hne, hmem, events, hlog, hevents, hmapper⟩ := h.mem.step_mapper h.stage rfl hmove
  refine ⟨Function.update f i l', ?_, ?_, ?_, h.stage.step_mapper hlaunched hne l', hmem, ?_, ?_⟩
  · rw [hran.loc_of_ne (by simp), h.caller]
  · intro j
    by_cases hj : j = i
    · rw [hj, hran.self, Function.update_self]
      rfl
    · rw [hran.loc_of_ne (by simpa using hj), h.mapper j, Function.update_of_ne hj]
  · rw [hran.loc_of_ne (by simp), h.reducer]
  · rw [hlog]
    exact h.log.step_mapper h.stage hne hevents hmapper
  · intro t k l hw
    have ht : t ≠ .mapper i := by
      rintro rfl
      rw [hran.self] at hw
      cases hw
    obtain ⟨rfl, hc, hprogress⟩ := h.waiting t k l (hran.waiting_of_ne ht hw)
    refine ⟨rfl, hc, ?_⟩
    generalize f i = l₀ at hmove
    generalize s'.mem = m' at hmove
    cases hmove with
    | call hthread => exact hprogress
    | store input => exact hprogress
    | done =>
        -- the broadcast reaches the caller
        have hcount := h.mem.waitCount
        rw [hc, if_pos rfl] at hcount
        have hnotes := waitQueueBroadcast_eq () (h.mem.mutex hc) (by omega)
        exact absurd hw (hran.broadcast (by rw [hnotes]; exact List.mem_singleton_self _) ht l)

theorem MrInv.step_reducer (h : MrInv app c f r s)
    (hran : (mrProgram app spurious).Ran s .reducer () s' notes st) :
    ∃ r', MrInv app c f r' s' := by
  have hexec : mrExec app .reducer (s.thr .reducer).loc () s.mem = .done s'.mem notes st := hran.exec
  rw [h.reducer] at hexec
  obtain ⟨r', rfl, rfl, hmove⟩ := reducerMove_of_exec hexec
  obtain ⟨hstage, hmem, events, hlog, hevents, hnot⟩ := h.mem.step_reducer h.stage hmove
  refine ⟨r', ?_, ?_, ?_, hstage, hmem, ?_, ?_⟩
  · rw [hran.loc_of_ne (by simp), h.caller]
  · intro i
    rw [hran.loc_of_ne (by simp), h.mapper i]
  · rw [hran.self]
    rfl
  · rw [hlog]
    exact h.log.step_reducer hevents hnot
  · intro t k l hw
    have ht : t ≠ .reducer := by
      rintro rfl
      rw [hran.self] at hw
      cases hw
    obtain ⟨htc, hc, hprogress⟩ := h.waiting t k l (hran.waiting_of_ne ht hw)
    refine ⟨htc, hc, ?_⟩
    rwa [hmem.inProgress, ← h.mem.inProgress]

/-- A spurious wake-up moves nobody. -/
theorem MrInv.step_spurious (h : MrInv app c f r s) {k : Unit} {l : MrLoc D}
    (hw : s.thr t = .waiting k l) :
    MrInv app c f r ⟨s.mem, Function.update s.thr t (.notified k l)⟩ where
  caller := (loc_update_notified hw _).trans h.caller
  mapper i := (loc_update_notified hw _).trans (h.mapper i)
  reducer := (loc_update_notified hw _).trans h.reducer
  stage := h.stage
  mem := h.mem
  log := h.log
  waiting u k' l' hu := h.waiting u k' l' (waiting_of_update_notified hu)

theorem MrInv.fresh : MrInv app .start (fun _ => .start) .start (freshMapReduce n D) where
  caller := rfl
  mapper i := rfl
  reducer := rfl
  stage :=
    { unlaunched := fun i _ => rfl
      joined := fun hc => absurd hc Bool.false_ne_true
      started := fun hr => absurd rfl hr
      reduced := fun hc => absurd hc Bool.false_ne_true }
  mem :=
    { inProgress := by simp [freshMapReduce, mapReduceInit, MapperLoc.exited]
      fresh := fun _ => rfl
      inputs := fun hc => absurd rfl hc
      mapping := fun i input hi => (by cases hi)
      results := fun _ i hi => absurd hi Bool.false_ne_true
      threads := fun _ i => rfl
      reducerThread := fun _ => rfl
      output := fun _ hr => absurd hr Bool.false_ne_true
      semaphore := rfl
      waitCount := rfl
      mutex := fun hc => (by cases hc) }
  log := ⟨[], rfl, by simp, fun i => rfl⟩
  waiting t k l hw := by cases t <;> cases hw

theorem reachable_mrInv (hs : (mrMachine app spurious).Reachable s) :
    ∃ c f r, MrInv app c f r s := by
  apply Program.invariant (I := fun s => ∃ c f r, MrInv app c f r s) _ _ _ hs
  · rintro _ rfl
    exact ⟨_, _, _, MrInv.fresh⟩
  · rintro s t x picks s' notes st ⟨c, f, r, h⟩ - hran
    cases t with
    | caller =>
        obtain ⟨c', h'⟩ := h.step_caller hran
        exact ⟨c', f, r, h'⟩
    | mapper i =>
        obtain ⟨f', h'⟩ := h.step_mapper hran
        exact ⟨c, f', r, h'⟩
    | reducer =>
        obtain ⟨r', h'⟩ := h.step_reducer hran
        exact ⟨c, f, r', h'⟩
  · rintro s t k l ⟨c, f, r, h⟩ - hw
    exact ⟨c, f, r, h.step_spurious hw⟩

end Invariant

section Results

variable {s : MrConfig n D} {t : MrThread n} {spurious : Bool}

/-- What a map-reduce promises in every state it reaches. -/
structure MapReduceOk (app : MrApp n D) (spurious : Bool) (s : MrConfig n D) : Prop where
  begins : ∃ calls, Session app calls ∧ s.mem.log <+: calls
  complete : (s.thr .caller).loc = .caller .finished → Session app s.mem.log
  awake : (s.thr .caller).isWaiting = true → s.mem.mappersInProgress ≠ 0
  live : (s.thr .caller).loc = .caller .finished ∨
    ∃ t picks s', (mrProgram app spurious).step s (.run t () picks) = .next s'

theorem awaitMappers_ne_abort {m : MapReduce n D}
    (hmutex : m.wqUntilAllMappersFinish.applnMutex.isSome = true) : awaitMappers m ≠ .abort := by
  intro habort
  simp only [awaitMappers] at habort
  split at habort
  · cases habort
  · next hnone =>
    split at habort
    · next hsome => exact hnone (by simpa [wqIsAnyMapperInProgress] using hsome)
    · rcases Effect.call_eq_abort.mp habort with hno | ⟨mutex, -, hdone⟩
      · rw [hno] at hmutex
        cases hmutex
      · cases hdone

/-- No assertion of `map_reduce_start` fails. -/
theorem MemOk.not_abort {m : MapReduce n D} (h : MemOk app c f r m) (hstage : StageOk c f r) :
    mapReduceStart app c m ≠ .abort := by
  intro habort
  cases c with
  | start =>
      have hall : m.mappersInProgress = n := by
        rw [h.inProgress, Finset.filter_true_of_mem, Finset.card_univ, Fintype.card_fin]
        intro i _
        rw [hstage.unlaunched i rfl]
        rfl
      simp only [mapReduceStart, if_pos hall] at habort
      cases habort
  | launch k =>
      simp only [mapReduceStart] at habort
      split at habort
      · next hk =>
        have hthread := h.threads (by simp) ⟨k, hk⟩
        split at habort
        · next hset =>
          rw [hset] at hthread
          exact absurd (of_decide_eq_true hthread.symm) (Nat.lt_irrefl k)
        · cases habort
      · exact awaitMappers_ne_abort (by rfl) habort
  | wait => exact awaitMappers_ne_abort (m := { m with
      wqUntilAllMappersFinish := m.wqUntilAllMappersFinish.countDown }) (h.mutex rfl) habort
  | launchReducer => cases habort
  | semWait =>
      simp only [mapReduceStart] at habort
      split at habort <;> cases habort
  | read => cases habort
  | cleanup => cases habort
  | finished => cases habort

/-- A mapper that was started and is not done can go on. -/
theorem MemOk.mapper_runs {m : MapReduce n D} (h : MemOk app c f r m) {i : Fin n} (hc : c ≠ .finished)
    (hlaunched : c.launched i = true) (hi : f i ≠ .exit) :
    ∃ m' notes st, mapperWrapper app i (f i) m = .done m' notes st := by
  have hthread := (h.threads hc i).trans hlaunched
  cases hl : f i with
  | start =>
      simp only [mapperWrapper, if_pos hthread]
      exact ⟨_, _, _, rfl⟩
  | mapping input => exact ⟨_, _, _, rfl⟩
  | mapped => exact ⟨_, _, _, rfl⟩
  | exit => exact absurd hl hi

theorem MemOk.reducer_runs {m : MapReduce n D} (h : MemOk app c f r m) (hc : c ≠ .finished)
    (hstarted : c.startedReducer = true) (hr : r ≠ .exit) :
    ∃ m' notes st, reducerWrapper app r m = .done m' notes st := by
  have hthread := (h.reducerThread hc).trans hstarted
  cases r with
  | start =>
      simp only [reducerWrapper, if_pos hthread]
      exact ⟨_, _, _, rfl⟩
  | exit => exact absurd rfl hr
  | _ => exact ⟨_, _, _, rfl⟩

/-- The caller can go on unless it is done or the reducer is not. -/
theorem MemOk.caller_runs {m : MapReduce n D} (h : MemOk app c f r m) (hstage : StageOk c f r)
    (hc : c ≠ .finished) (hsem : c = .semWait → r = .exit) :
    ∃ m' notes st, mapReduceStart app c m = .done m' notes st := by
  have hno := h.not_abort hstage
  cases heq : mapReduceStart app c m with
  | done m' notes st => exact ⟨m', notes, st, rfl⟩
  | abort => exact absurd heq hno
  | blocked =>
      have hawait : ∀ m : MapReduce n D, awaitMappers m ≠ .blocked := by
        intro m hblocked
        simp only [awaitMappers] at hblocked
        split at hblocked
        · cases hblocked
        · split at hblocked
          · cases hblocked
          · cases hmutex : m.wqUntilAllMappersFinish.applnMutex with
            | none => simp [hmutex, Effect.call] at hblocked
            | some mutex => simp [hmutex, Effect.call] at hblocked
      cases c with
      | start =>
          simp only [mapReduceStart] at heq
          split at heq <;> cases heq
      | launch k =>
          simp only [mapReduceStart] at heq
          split at heq
          · split at heq <;> cases heq
          · exact absurd heq (hawait _)
      | wait => exact absurd heq (hawait _)
      | launchReducer => cases heq
      | semWait =>
          have hone := h.semaphore
          rw [if_pos ⟨rfl, hsem rfl⟩] at hone
          simp [mapReduceStart, hone] at heq
      | read => cases heq
      | cleanup => cases heq
      | finished => exact absurd rfl hc

/-- Somebody can go on until the caller is done. -/
theorem MrInv.live (h : MrInv app c f r s) (hc : c ≠ .finished) :
    ∃ t picks s', (mrProgram app spurious).step s (.run t () picks) = .next s' := by
  have hawake : ∀ t, t ≠ .caller → (s.thr t).isWaiting = false := by
    intro t ht
    cases hthr : s.thr t with
    | running l => rfl
    | notified k l => rfl
    | waiting k l => exact absurd (h.waiting t k l hthr).1 ht
  suffices hexec : ∃ t m notes st, (s.thr t).isWaiting = false ∧
      mrExec app t (s.thr t).loc () s.mem = .done m notes st by
    obtain ⟨t, m, notes, st, hw, hexec⟩ := hexec
    exact ⟨t, Program.exists_step_of_exec (P := mrProgram app spurious) hw hexec⟩
  by_cases hcaller : (s.thr .caller).isWaiting = true
  · -- a mapper is not done
    obtain ⟨k, l, hw⟩ := Status.isWaiting_iff.mp hcaller
    obtain ⟨-, rfl, hprogress⟩ := h.waiting .caller k l hw
    obtain ⟨i, hi⟩ := not_forall.mp fun hall => hprogress (h.mem.inProgress_eq_zero.mpr hall)
    obtain ⟨m', notes, st, hexec⟩ := h.mem.mapper_runs hc rfl hi
    refine ⟨.mapper i, m', notes, st, hawake _ (by simp), ?_⟩
    rw [h.mapper i]
    exact hexec
  · by_cases hsem : c = .semWait ∧ r ≠ .exit
    · obtain ⟨rfl, hr⟩ := hsem
      obtain ⟨m', notes, st, hexec⟩ := h.mem.reducer_runs hc rfl hr
      refine ⟨.reducer, m', notes, st, hawake _ (by simp), ?_⟩
      rw [h.reducer]
      exact hexec
    · obtain ⟨m', notes, st, hexec⟩ := h.mem.caller_runs h.stage hc
        fun hwait => by_contra fun hr => hsem ⟨hwait, hr⟩
      refine ⟨.caller, m', notes, st, by simpa using hcaller, ?_⟩
      rw [h.caller]
      exact hexec

/-- **Map-reduce keeps its order**: the calls of every run begin a session, whatever the interleaving and
the spurious wake-ups, and no assertion fails. -/
theorem mapReduce_ok (hs : (mrMachine app spurious).Reachable s) :
    MapReduceOk app spurious s ∧ ∀ a, (mrMachine app spurious).step s a ≠ .abort := by
  obtain ⟨c, f, r, h⟩ := reachable_mrInv hs
  refine ⟨⟨h.log.begins h.stage, ?_, ?_, ?_⟩, ?_⟩
  · intro hdone
    have hc : c = .finished := MrLoc.caller.inj (h.caller.symm.trans hdone)
    subst hc
    exact h.log.complete h.stage
  · intro hw
    obtain ⟨k, l, hw⟩ := Status.isWaiting_iff.mp hw
    exact (h.waiting .caller k l hw).2.2
  · by_cases hc : c = .finished
    · exact .inl (hc ▸ h.caller)
    · exact .inr (h.live hc)
  · intro a habort
    cases a with
    | run t x picks =>
        have hexec : mrExec app t (s.thr t).loc x s.mem = .abort := (Program.exec_of_abort habort).2
        cases t with
        | caller =>
            rw [h.caller] at hexec
            exact h.mem.not_abort h.stage hexec
        | mapper i =>
            rw [h.mapper i] at hexec
            generalize f i = l at hexec
            cases l with
            | start =>
                simp only [mrExec, mapperWrapper] at hexec
                split at hexec <;> cases hexec
            | _ => cases hexec
        | reducer =>
            rw [h.reducer] at hexec
            cases r with
            | start =>
                simp only [mrExec, reducerWrapper] at hexec
                split at hexec <;> cases hexec
            | _ => cases hexec
    | spurious t => exact Program.not_abort_spurious habort

/-- An application with two mappers that add one to their inputs. -/
def countingApp : MrApp 2 Nat where
  appData := some ⟨some 7, 1⟩
  inputDataSplitter data _ i := data.map fun v => ⟨v.base.map (· + i.val), 1⟩
  mapperFn _ input := input.map fun v => ⟨v.base.map (· + 1), v.dataLen⟩
  reducerFn results := ⟨((List.finRange 2).filterMap results).head?.bind (·.base), 1⟩
  reducerOutputReader := true
  mapperInputArrayCleanup := true
  mapperOutputArrayCleanup := false
  reducerOutputCleanup := true

/-- One mapper is done before the caller tests, the other one while it waits. -/
theorem mapReduce_ok_trace : ∃ s, MapReduceOk countingApp true s ∧
    (s.thr .caller).loc = .caller .finished ∧ s.mem.log.length = 11 := by
  have hrun : ((mrMachine countingApp true).exec (freshMapReduce 2 Nat)
      (List.flatten [List.replicate 2 (.run .caller () []),
        List.replicate 3 (.run (.mapper 0) () []), List.replicate 2 (.run .caller () []),
        [.spurious .caller, .run .caller () []], List.replicate 3 (.run (.mapper 1) () []),
        List.replicate 2 (.run .caller () []), List.replicate 5 (.run .reducer () []),
        List.replicate 3 (.run .caller () [])])).holds
      (fun s => decide ((s.thr .caller).loc = .caller .finished ∧ s.mem.log.length = 11)) = true := by
    decide +kernel
  obtain ⟨s, hs, hp⟩ := Machine.exists_reachable_of_exec rfl hrun
  exact ⟨s, (mapReduce_ok hs).1, of_decide_eq_true hp⟩

end Results

end MapReduceLib
end MultithreadingBible
