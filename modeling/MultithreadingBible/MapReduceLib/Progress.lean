import MultithreadingBible.Lib.Recording
import MultithreadingBible.MapReduceLib.Session

/-!
# Asking whether a map-reduce is in progress

Any number of threads may call `map_reduce_is_in_progress` while `map_reduce_start` runs.  Its answer is
composed of a counter that the mappers decrement and a flag that the reducer thread sets once it runs.
Between the two the map-reduce is still in progress, but neither says so.

* `mrPolledMachine` — the threads of a map-reduce among threads that poll.
* `isInProgress_true_iff` — which polls of a map-reduce in progress are answered with `true`.
-/

namespace MultithreadingBible
namespace MapReduceLib

open Lib

variable {n : Nat} {D τ : Type*} {app : MrApp n D} {c : CallerLoc} {f : Fin n → MapperLoc D}
  {r : ReducerLoc} {spurious : Bool}

def mapReduceIsInProgress (m : MapReduce n D) : Bool :=
  if m.mappersInProgress != 0 then true else m.isReducerInProgress

/-- The threads of a map-reduce, among threads `τ` that call `map_reduce_is_in_progress`. -/
def mrPolledMachine (app : MrApp n D) (spurious : Bool) (τ : Type*) :
    Machine (MrConfig n D × List (Poll τ (MrConfig n D) Bool)) (Act (MrThread n) Unit ⊕ τ) :=
  (mrMachine app spurious).polled τ fun s => mapReduceIsInProgress s.mem

/-- The caller has launched its first mapper. -/
def MrLoc.launchedFirst : MrLoc D → Bool
  | .caller c => c.launched 0
  | _ => false

/-- The reducer function has returned. -/
def MrLoc.reducerReturned : MrLoc D → Bool
  | .reducer r => r.returned
  | _ => false

/-- The first mapper was launched and the reducer function has not returned. -/
def InProgress (s : MrConfig n D) : Prop :=
  (s.thr .caller).loc.launchedFirst = true ∧ (s.thr .reducer).loc.reducerReturned = false

instance (s : MrConfig n D) : Decidable (InProgress s) :=
  inferInstanceAs (Decidable (_ ∧ _))

/-- All mappers have left their critical section, and the reducer thread is not yet past its first one. -/
def HandingOver (s : MrConfig n D) : Prop :=
  (∀ i, (s.thr (.mapper i)).loc = .mapper .exit) ∧ (s.thr .reducer).loc = .reducer .start

/-- The reducer is between its two critical sections. -/
def ReducerLoc.flagged : ReducerLoc → Bool
  | .reduce | .reducing | .reduced => true
  | _ => false

section Flag

variable {m m' : MapReduce n D} {notes : List (Note Unit)}

theorem MapperMove.isReducerInProgress {i : Fin n} {l l' : MapperLoc D}
    (hmove : MapperMove app i m l m' notes l') : m'.isReducerInProgress = m.isReducerInProgress := by
  cases hmove <;> rfl

theorem CallerTests.isReducerInProgress (htest : CallerTests m c m') :
    m'.isReducerInProgress = m.isReducerInProgress := by
  cases htest <;> rfl

theorem CallerMove.isReducerInProgress {blocked : Bool} {c' : CallerLoc}
    (hmove : CallerMove app m c m' blocked c') : m'.isReducerInProgress = m.isReducerInProgress := by
  cases hmove with
  | block htest hprogress => exact htest.isReducerInProgress
  | pass htest hdone => exact htest.isReducerInProgress
  | _ => rfl

/-- The reducer sets the flag in its first critical section and clears it in the second one. -/
theorem ReducerMove.isReducerInProgress {r' : ReducerLoc} (hmove : ReducerMove app m r m' r')
    (hflag : m.isReducerInProgress = r.flagged) : m'.isReducerInProgress = r'.flagged := by
  cases hmove with
  | begin hthread => rfl
  | call => exact hflag
  | store => exact hflag
  | done => rfl
  | post => exact hflag

end Flag

section Runs

variable {s : MrConfig n D}

/-- Where the reducer is, `is_reducer_in_progress` says. -/
def FlagOk (s : MrConfig n D) : Prop :=
  ∀ r, (s.thr .reducer).loc = .reducer r → s.mem.isReducerInProgress = r.flagged

theorem flagOk_reachable (hs : (mrMachine app spurious).Reachable s) : FlagOk s := by
  refine Machine.ReachableUnder.invariant_of (J := fun s => ∃ c f r, MrInv app c f r s)
    (fun s hs => reachable_mrInv hs) ?_ ?_ hs
  · rintro _ rfl r hr
    cases hr
    rfl
  · rintro s a s' ⟨c, f, r, h⟩ hflag - hstep
    have hflag := hflag r h.reducer
    cases a with
    | run t x picks =>
        obtain ⟨notes, st, hran⟩ := Program.ran_of_step hstep
        have hexec : mrExec app t (s.thr t).loc () s.mem = .done s'.mem notes st := hran.exec
        intro r' hr'
        cases t with
        | caller =>
            rw [h.caller] at hexec
            rw [hran.loc_of_ne (by simp), h.reducer] at hr'
            cases hr'
            obtain ⟨blocked, c', -, -, hmove⟩ := callerMove_of_exec hexec
            exact hmove.isReducerInProgress.trans hflag
        | mapper i =>
            rw [h.mapper i] at hexec
            rw [hran.loc_of_ne (by simp), h.reducer] at hr'
            cases hr'
            obtain ⟨l', -, hmove⟩ := mapperMove_of_exec hexec
            exact hmove.isReducerInProgress.trans hflag
        | reducer =>
            rw [h.reducer] at hexec
            obtain ⟨r₁, -, rfl, hmove⟩ := reducerMove_of_exec hexec
            rw [hran.self] at hr'
            cases hr'
            exact hmove.isReducerInProgress hflag
    | spurious t =>
        obtain ⟨-, k, l, hw, rfl⟩ := Program.spurious_of_step hstep
        intro r' hr'
        rw [loc_update_notified hw, h.reducer] at hr'
        cases hr'
        exact hflag

/-- What the counter and the flag say together. -/
theorem MrInv.isInProgress_iff (h : MrInv app c f r s) (hflag : s.mem.isReducerInProgress = r.flagged) :
    mapReduceIsInProgress s.mem = true ↔ (∃ i, f i ≠ .exit) ∨ r.flagged = true := by
  have hzero := h.mem.inProgress_eq_zero
  unfold mapReduceIsInProgress
  rw [hflag]
  by_cases hall : ∀ i, f i = .exit
  · rw [hzero.mpr hall]
    have hno : ¬ ∃ i, f i ≠ .exit := fun ⟨i, hi⟩ => hi (hall i)
    simp [hno]
  · have hne : s.mem.mappersInProgress ≠ 0 := fun hcount => hall (hzero.mp hcount)
    simp [hne, not_forall.mp hall]

/-- **Truthful polls**: in every run, whatever the interleaving and the spurious wake-ups, a poll
made between the launch of the first mapper and the return of the reducer function is answered with
`true` if and only if it does not fall between the last mapper's critical section and the reducer's
first one. -/
theorem isInProgress_true_iff {s : MrConfig n D × List (Poll τ (MrConfig n D) Bool)}
    (hs : (mrPolledMachine app spurious τ).Reachable s) :
    ∀ poll ∈ s.2, InProgress poll.during → (poll.answer = true ↔ ¬ HandingOver poll.during) := by
  intro poll hpoll hrunning
  obtain ⟨hreach, hanswer⟩ := (Machine.reachable_of_polled hs).2 poll hpoll
  obtain ⟨c, f, r, h⟩ := reachable_mrInv hreach
  have hflag := flagOk_reachable hreach r h.reducer
  rw [hanswer, h.isInProgress_iff hflag]
  have hreturned : r.returned = false := by
    have hret := hrunning.2
    rwa [h.reducer] at hret
  have hover : HandingOver poll.during ↔ (∀ i, f i = .exit) ∧ r = .start := by
    simp only [HandingOver, h.mapper, h.reducer, MrLoc.mapper.injEq, MrLoc.reducer.injEq]
  rw [hover, not_and_or, not_forall]
  -- before the reducer function returns, the flag is set from the first critical section on
  have hstart : r.flagged = true ↔ ¬ r = .start := by
    cases r with
    | start => simp [ReducerLoc.flagged]
    | reduce => simp [ReducerLoc.flagged]
    | reducing => simp [ReducerLoc.flagged]
    | reduced => cases hreturned
    | post => cases hreturned
    | exit => cases hreturned
  rw [hstart]

end Runs

/-- Two mappers are launched, one after the other they are done, and the reducer is not launched
yet.  A thread polls after the first launch and at the end. -/
def handOverRun : List (Act (MrThread 2) Unit ⊕ Unit) :=
  List.flatten [List.replicate 2 (.inl (.run .caller () [])), [.inr ()], [.inl (.run .caller () [])],
    (List.finRange 2).flatMap fun i => List.replicate 3 (.inl (.run (.mapper i) () [])), [.inr ()]]

/-- The first poll is answered with `true`, the second one falls between the last mapper and the
reducer. -/
theorem isInProgress_true_iff_trace :
    ∃ s : MrConfig 2 Nat × List (Poll Unit (MrConfig 2 Nat) Bool),
      (∀ poll ∈ s.2, InProgress poll.during → (poll.answer = true ↔ ¬ HandingOver poll.during)) ∧
        (s.2.map fun poll => (decide (InProgress poll.during), poll.answer)) =
          [(true, true), (true, false)] := by
  have hrun : ((mrPolledMachine countingApp true Unit).exec (freshMapReduce 2 Nat, []) handOverRun).holds
      (fun s => decide ((s.2.map fun poll => (decide (InProgress poll.during), poll.answer)) =
        [(true, true), (true, false)])) = true := by
    decide +kernel
  have hinit : (mrPolledMachine countingApp true Unit).init (freshMapReduce 2 Nat, []) := ⟨rfl, rfl⟩
  obtain ⟨s, hs, hp⟩ := Machine.exists_reachable_of_exec hinit hrun
  exact ⟨s, isInProgress_true_iff hs, of_decide_eq_true hp⟩

/-- A poll of a map-reduce in progress is answered with `false`. -/
theorem isInProgress_false_reachable :
    ∃ s, (mrPolledMachine countingApp true Unit).Reachable s ∧
      ∃ poll ∈ s.2, InProgress poll.during ∧ poll.answer = false := by
  have hrun : ((mrPolledMachine countingApp true Unit).exec (freshMapReduce 2 Nat, []) handOverRun).holds
      (fun s => s.2.any fun poll => decide (InProgress poll.during) && !poll.answer) = true := by
    decide +kernel
  have hinit : (mrPolledMachine countingApp true Unit).init (freshMapReduce 2 Nat, []) := ⟨rfl, rfl⟩
  obtain ⟨s, hs, hp⟩ := Machine.exists_reachable_of_exec hinit hrun
  obtain ⟨poll, hpoll, hp⟩ := List.any_eq_true.mp hp
  rw [Bool.and_eq_true, decide_eq_true_eq, Bool.not_eq_true'] at hp
  exact ⟨s, hs, poll, hpoll, hp⟩

end MapReduceLib
end MultithreadingBible
