import MultithreadingBible.DiningPhilosophers.Spoons

/-!
# When all philosophers are blocked

* `Blocked` — a philosopher waits for a mutex of another one, or for its left spoon.
* `deadlocked_iff` — all are blocked only where all put back their left spoons.
* `Spared` — the steps that do not lead there.
-/

namespace MultithreadingBible
namespace DiningPhilosophers

open Lib

variable {n : Nat}

/-- The mutex a philosopher is about to lock. -/
def PhilLoc.wants (phil : PhilId n) : PhilLoc → Option (PhilId n)
  | .lockLeft | .relockLeft | .lockLeftAgain | .releaseLockLeft => some (philGetLeftSpoon phil)
  | .lockRight | .releaseLockRight => some (philGetRightSpoon phil)
  | _ => none

/-- A philosopher waits for its left spoon, or for a mutex that another one has locked. -/
def Blocked (s : PhilConfig n) (i : PhilId n) : Prop :=
  (∃ l, s.thr i = .waiting (philGetLeftSpoon i) l) ∨
    (s.thr i).isWaiting = false ∧
      ∃ o j, (s.thr i).loc.wants i = some o ∧ j ≠ i ∧ (s.mem o).mutex = some j

/-- Nobody can go on. -/
def Deadlocked (s : PhilConfig n) : Prop := ∀ i, Blocked s i

section Blocked

variable {s : PhilConfig n} {i j o : PhilId n}

/-- Whoever is blocked and has a mutex is about to lock its other one. -/
theorem Blocked.wants (hb : Blocked s i) (h : TableInv s) :
    (s.thr i).loc = .relockLeft ∨ ((s.thr i).loc.wants i).isSome = true := by
  rcases hb with ⟨l, hw⟩ | ⟨-, o, j, hwants, -⟩
  · rw [hw]
    exact .inl (h.waits i _ l hw).2.1
  · rw [hwants]
    exact .inr rfl

theorem Blocked.putsBack (hb : Blocked s i) (h : TableInv s) (hright : (s.thr i).loc.holdsRight = true) :
    (s.thr i).loc = .lockLeftAgain := by
  rcases hb.wants h with hl | hwants
  · rw [hl] at hright
    cases hright
  · generalize (s.thr i).loc = l at hright hwants
    cases l <;> first
      | rfl
      | exact absurd hwants Bool.false_ne_true
      | exact absurd hright Bool.false_ne_true

theorem Blocked.releases (hb : Blocked s i) (h : TableInv s) (hleft : (s.thr i).loc.holdsLeft = true) :
    (s.thr i).loc = .releaseLockRight := by
  rcases hb.wants h with hl | hwants
  · rw [hl] at hleft
    cases hleft
  · generalize (s.thr i).loc = l at hleft hwants
    cases l <;> first
      | rfl
      | exact absurd hwants Bool.false_ne_true
      | exact absurd hleft Bool.false_ne_true

/-- The mutex of a spoon is locked by one of its two neighbours. -/
theorem TableInv.mutex_cases (h : TableInv s) (hmutex : (s.mem o).mutex = some j) :
    (s.thr j).loc.holdsLeft = true ∧ o = j ∨ (s.thr j).loc.holdsRight = true ∧ j = o + 1 := by
  rcases (h.mutexes o j).mp hmutex with ⟨hleft, heq⟩ | ⟨hright, heq⟩
  · exact .inl ⟨hleft, heq⟩
  · exact .inr ⟨hright, eq_add_one_of_right heq.symm⟩

/-- Whoever cannot lock the mutex of its left spoon waits for its neighbour to put back a spoon. -/
theorem Deadlocked.neighbour (hd : Deadlocked s) (h : TableInv s)
    (hmutex : (s.mem (philGetLeftSpoon i)).mutex = some j) (hj : j ≠ i) :
    (s.thr (i + 1)).loc = .lockLeftAgain := by
  rcases h.mutex_cases hmutex with ⟨-, heq⟩ | ⟨hright, heq⟩
  · exact absurd heq.symm hj
  · have hnext : j = i + 1 := heq
    rw [← hnext]
    exact (hd j).putsBack h hright

/-- Nobody waits for the mutex of its right spoon. -/
theorem Deadlocked.right_free (hd : Deadlocked s) (h : TableInv s)
    (hmutex : (s.mem (philGetRightSpoon i)).mutex = some j) (hj : j ≠ i) : False := by
  have hleft : ∀ {i j : PhilId n}, (s.mem (philGetRightSpoon i)).mutex = some j → j ≠ i →
      j = philGetRightSpoon i ∧ (s.thr j).loc = .releaseLockRight := by
    intro i j hmutex hj
    rcases h.mutex_cases hmutex with ⟨hleft, heq⟩ | ⟨-, heq⟩
    · exact ⟨heq.symm, (hd j).releases h hleft⟩
    · exact absurd (heq.trans (eq_add_one_of_right rfl).symm) hj
  obtain ⟨-, hloc⟩ := hleft hmutex hj
  -- the neighbour has both its spoons, and so has the next one
  rcases hd j with ⟨l, hw⟩ | ⟨-, o, k, hwants, hk, hmutex'⟩
  · have hl := (h.waits j _ l hw).2.1
    rw [hw, Status.loc_waiting, hl] at hloc
    cases hloc
  · rw [hloc] at hwants
    have ho : philGetRightSpoon j = o := Option.some.inj hwants
    rw [← ho] at hmutex'
    obtain ⟨hkj, hloc'⟩ := hleft hmutex' hk
    have htook : Took s j (philGetRightSpoon j) := by
      unfold Took Has
      rw [hloc]
      exact .inr ⟨rfl, rfl⟩
    have htook' : Took s k (philGetRightSpoon j) := by
      unfold Took Has
      rw [hloc']
      exact .inl ⟨rfl, hkj.symm⟩
    exact hk (h.spoons.eq htook' htook)

/-- Where all are blocked, somebody puts back its left spoon. -/
theorem Deadlocked.exists_putsBack (hd : Deadlocked s) (h : TableInv s) (i : PhilId n) :
    ∃ j, (s.thr j).loc = .lockLeftAgain := by
  -- a philosopher that waits for a mutex waits for that of its left spoon
  have hmutex : ∀ i, (s.thr i).isWaiting = false → ∃ j, (s.thr j).loc = .lockLeftAgain := by
    intro i hawake
    rcases hd i with ⟨l, hw⟩ | ⟨-, o, j, hwants, hj, hmutex⟩
    · rw [hw] at hawake
      cases hawake
    · have hcases : o = philGetLeftSpoon i ∨ o = philGetRightSpoon i := by
        generalize (s.thr i).loc = l at hwants
        cases l <;> first
          | exact .inl (Option.some.inj hwants).symm
          | exact .inr (Option.some.inj hwants).symm
          | cases hwants
      rcases hcases with ho | ho
      · rw [ho] at hmutex
        exact ⟨i + 1, hd.neighbour h hmutex hj⟩
      · rw [ho] at hmutex
        exact (hd.right_free h hmutex hj).elim
  rcases hd i with ⟨l, hw⟩ | ⟨hawake, -⟩
  · -- the neighbour that has the spoon is not in its wait
    obtain ⟨-, -, j, hj, htook⟩ := h.waits i _ l hw
    rcases htook with ⟨-, heq⟩ | ⟨hright, -⟩
    · exact absurd heq.symm hj
    · apply hmutex j
      cases hthr : s.thr j with
      | running l' => rfl
      | notified c l' => rfl
      | waiting c l' =>
          rw [hthr, Status.loc_waiting, (h.waits j c l' hthr).2.1] at hright
          cases hright
  · exact hmutex i hawake

/-- All are blocked where all put back their left spoons, and nowhere else. -/
theorem deadlocked_iff (h : TableInv s) :
    Deadlocked s ↔ ∀ i, (s.thr i).loc = .lockLeftAgain := by
  constructor
  · intro hd
    obtain ⟨j, hj⟩ := hd.exists_putsBack h 0
    refine forall_of_succ (p := fun i => (s.thr i).loc = .lockLeftAgain) ?_ hj
    intro i hi
    rcases hd i with ⟨l, hw⟩ | ⟨-, o, k, hwants, hk, hmutex⟩
    · rw [hw, Status.loc_waiting, (h.waits i _ l hw).2.1] at hi
      cases hi
    · rw [hi] at hwants
      have ho : philGetLeftSpoon i = o := Option.some.inj hwants
      rw [← ho] at hmutex
      exact hd.neighbour h hmutex hk
  · intro hall i
    refine .inr ⟨?_, philGetLeftSpoon i, i + 1, ?_, ?_, ?_⟩
    · cases hthr : s.thr i with
      | running l => rfl
      | notified c l => rfl
      | waiting c l =>
          have hi := hall i
          rw [hthr, Status.loc_waiting, (h.waits i c l hthr).2.1] at hi
          cases hi
    · rw [hall i]
      rfl
    · intro heq
      have hne := right_ne_left (i + 1)
      rw [philGetRightSpoon_add_one] at hne
      exact hne heq.symm
    · apply (h.mutexes _ _).mpr
      unfold HasMutex Has
      rw [hall (i + 1)]
      exact .inr ⟨rfl, (philGetRightSpoon_add_one i).symm⟩

end Blocked

/-- No philosopher finds its right spoon used when all others are about to put back their left spoons. -/
def Spared (s : PhilConfig n) : Act (PhilId n) Unit → Prop
  | .run t _ _ =>
      ¬ ((s.thr t).loc = .testRight ∧ ∀ u, u ≠ t → (s.thr u).loc = .lockLeftAgain)
  | .spurious _ => True

instance (s : PhilConfig n) : DecidablePred (Spared s)
  | .run t _ _ => inferInstanceAs (Decidable
      (¬ ((s.thr t).loc = .testRight ∧ ∀ u, u ≠ t → (s.thr u).loc = .lockLeftAgain)))
  | .spurious _ => .isTrue trivial

section Runs

variable {s s' : PhilConfig n} {t : PhilId n} {spurious : Bool}

/-- The last philosopher that takes a look at its right spoon puts back its left one. -/
theorem TableInv.last_putsBack (h : TableInv s) {notes : List (Note (PhilId n))}
    {st : Status (PhilId n) PhilLoc} (hran : (philProgram n spurious).Ran s t () s' notes st)
    (hlast : (s.thr t).loc = .testRight) (hall : ∀ u, u ≠ t → (s.thr u).loc = .lockLeftAgain) :
    st.loc = .lockLeftAgain := by
  have hmove := philMove_of_exec (x := ()) hran.exec
  -- the right spoon is the left spoon of a neighbour
  have htook : Took s (philGetRightSpoon t) (philGetRightSpoon t) := by
    unfold Took Has
    rw [hall _ (right_ne_left t)]
    exact .inl ⟨rfl, rfl⟩
  obtain ⟨hused, hphil⟩ := h.used htook
  rw [hlast] at hmove
  generalize s'.mem = m' at hmove
  cases hmove with
  | lock hlocks _ => cases hlocks
  | takeRight hfree =>
      rw [hused] at hfree
      cases hfree
  | haveRight hown =>
      rw [hphil] at hown
      exact absurd (Option.some.inj hown) (right_ne_left t)
  | backOff _ _ => rfl

/-- Only a look at the right spoon makes a philosopher put back its left one. -/
theorem TableInv.testRight_of_putsBack {notes : List (Note (PhilId n))}
    {st : Status (PhilId n) PhilLoc} (hran : (philProgram n spurious).Ran s t () s' notes st)
    (hst : st.loc = .lockLeftAgain) : (s.thr t).loc = .testRight := by
  have hmove := philMove_of_exec (x := ()) hran.exec
  generalize (s.thr t).loc = l at hmove ⊢
  generalize s'.mem = m' at hmove
  cases hmove with
  | lock hlocks _ =>
      cases hlocks <;> cases hst
  | backOff _ _ => rfl
  | _ => cases hst

/-- A step leads to a deadlock where a philosopher is not spared. -/
theorem TableInv.deadlocked_step (h : TableInv s) {a : Act (PhilId n) Unit}
    (hstep : (philProgram n spurious).step s a = .next s') : Deadlocked s' ↔ ¬ Spared s a := by
  cases a with
  | run t x picks =>
      obtain ⟨notes, st, hran⟩ := Program.ran_of_step hstep
      rw [deadlocked_iff (h.step hran)]
      show _ ↔ ¬ ¬ _
      rw [not_not]
      constructor
      · intro hall
        have hself := hall t
        rw [hran.self] at hself
        refine ⟨TableInv.testRight_of_putsBack hran hself, fun u hu => ?_⟩
        rw [← hran.loc_of_ne hu]
        exact hall u
      · rintro ⟨hlast, hall⟩ i
        by_cases hi : i = t
        · rw [hi, hran.self]
          exact h.last_putsBack hran hlast hall
        · rw [hran.loc_of_ne hi]
          exact hall i hi
  | spurious t =>
      obtain ⟨-, c, l, hw, rfl⟩ := Program.spurious_of_step hstep
      rw [deadlocked_iff (h.step_spurious hw)]
      refine iff_of_false (fun hall => ?_) (fun hno => hno trivial)
      have ht := hall t
      rw [loc_update_notified hw, hw, Status.loc_waiting, (h.waits t c l hw).2.1] at ht
      cases ht

/-- **Philosophers are not all blocked** in any run in which they are spared, around a table of any size;
and the first step that does not spare one leads to a deadlock. -/
theorem phil_notDeadlocked (hs : (philMachine n spurious).ReachableUnder Spared s) :
    ¬ Deadlocked s ∧ ∀ a s', (philMachine n spurious).step s a = .next s' →
      (Deadlocked s' ↔ ¬ Spared s a) := by
  refine ⟨?_, fun a s' hstep => (reachable_tableInv hs).deadlocked_step hstep⟩
  refine hs.invariant_of (I := fun s => ¬ Deadlocked s) (fun s hs => reachable_tableInv hs) ?_ ?_
  · rintro _ rfl hd
    have hloc := (deadlocked_iff (TableInv.fresh n)).mp hd 0
    cases hloc
  · intro s a s' h _ hspared hstep hd
    exact (h.deadlocked_step hstep).mp hd hspared

end Runs

/-- Two philosophers, one of which puts back its left spoon. -/
theorem phil_notDeadlocked_trace : ∃ s : PhilConfig 0, ¬ Deadlocked s ∧
    (s.thr 0).loc = .lockLeftAgain ∧ (s.thr 1).loc = .lockRight := by
  have hrun : ((philMachine 0 true).execUnder (fun s a => decide (Spared s a)) (laidTable 0)
      (List.flatten [List.replicate 2 (.run 0 () []), List.replicate 2 (.run 1 () []),
        List.replicate 2 (.run 0 () [])])).holds
      (fun s => decide ((s.thr 0).loc = .lockLeftAgain ∧ (s.thr 1).loc = .lockRight)) = true := by
    decide +kernel
  obtain ⟨s, hs, hp⟩ := Outcome.holds_iff.mp hrun
  have hreach := (Machine.reachableUnder_of_execUnder (.init rfl) hs).mono
    fun s a hcond => of_decide_eq_true hcond
  exact ⟨s, (phil_notDeadlocked hreach).1, of_decide_eq_true hp⟩

/-- Five philosophers take their left spoons, lock the mutexes of their right ones, and find them used. -/
theorem phil_notDeadlocked_fails :
    ∃ s : PhilConfig 3, (philMachine 3 false).Reachable s ∧ Deadlocked s := by
  have hrun : ((philMachine 3 false).exec (laidTable 3)
      (List.flatten [(List.finRange 5).flatMap (fun i => List.replicate 2 (.run i () [])),
        (List.finRange 5).map (fun i => .run i () []),
        (List.finRange 5).map (fun i => .run i () [])])).holds
      (fun s => decide (∀ i, (s.thr i).loc = .lockLeftAgain)) = true := by
    decide +kernel
  obtain ⟨s, hs, hp⟩ := Machine.exists_reachable_of_exec rfl hrun
  exact ⟨s, hs, (deadlocked_iff (reachable_tableInv hs)).mpr (of_decide_eq_true hp)⟩

end DiningPhilosophers
end MultithreadingBible
