import MultithreadingBible.DiningPhilosophers.Machine
import MultithreadingBible.Lib.Ownership

/-!
# Who has which spoon

* `HasMutex`, `Took` — the mutexes and the spoons of a philosopher, as its location says.
* `TableInv` — the table agrees with this, and whoever waits for its left spoon waits for another
  philosopher to put it down.  Every step keeps this.
* `SafeEating` — what follows for philosophers that eat.
-/

namespace MultithreadingBible
namespace DiningPhilosophers

open Lib

/-- With the mutex of the left spoon. -/
def PhilLoc.holdsLeft : PhilLoc → Bool
  | .testLeft | .dropLeft | .releaseLockRight | .releaseLeft => true
  | _ => false

/-- With the mutex of the right spoon. -/
def PhilLoc.holdsRight : PhilLoc → Bool
  | .testRight | .lockLeftAgain | .dropLeft | .unlockRight | .releaseLeft | .releaseRight => true
  | _ => false

/-- With the left spoon. -/
def PhilLoc.tookLeft : PhilLoc → Bool
  | .lockRight | .testRight | .lockLeftAgain | .dropLeft | .eat | .enjoy | .releaseLockLeft
  | .releaseLockRight | .releaseLeft => true
  | _ => false

/-- With the right spoon. -/
def PhilLoc.tookRight : PhilLoc → Bool
  | .eat | .enjoy | .releaseLockLeft | .releaseLockRight | .releaseLeft | .releaseRight => true
  | _ => false

/-- In `phil_eat`. -/
def PhilLoc.eats : PhilLoc → Bool
  | .eat | .enjoy => true
  | _ => false

variable {n : Nat}

/-- The left spoon, the right spoon, or both. -/
def OneOf (left right : Bool) (phil o : PhilId n) : Prop :=
  left = true ∧ o = philGetLeftSpoon phil ∨ right = true ∧ o = philGetRightSpoon phil

/-- What a philosopher has at the left and at the right, by its location. -/
def Has (left right : PhilLoc → Bool) (s : PhilConfig n) (phil o : PhilId n) : Prop :=
  OneOf (left (s.thr phil).loc) (right (s.thr phil).loc) phil o

/-- The mutexes a philosopher has locked. -/
abbrev HasMutex (s : PhilConfig n) : PhilId n → PhilId n → Prop :=
  Has PhilLoc.holdsLeft PhilLoc.holdsRight s

/-- The spoons a philosopher has taken and not released. -/
abbrev Took (s : PhilConfig n) : PhilId n → PhilId n → Prop := Has PhilLoc.tookLeft PhilLoc.tookRight s

section Pairs

variable {left right : Bool} {phil o : PhilId n}

theorem oneOf_left : OneOf true right phil o ↔ OneOf false right phil o ∨ o = philGetLeftSpoon phil := by
  unfold OneOf
  simp [or_comm]

theorem oneOf_right : OneOf left true phil o ↔ OneOf left false phil o ∨ o = philGetRightSpoon phil := by
  unfold OneOf
  simp

theorem oneOf_without_left :
    OneOf false right phil o ↔ OneOf true right phil o ∧ o ≠ philGetLeftSpoon phil := by
  have hne := right_ne_left phil
  unfold OneOf
  constructor
  · rintro (⟨hf, -⟩ | ⟨hright, rfl⟩)
    · cases hf
    · exact ⟨.inr ⟨hright, rfl⟩, hne⟩
  · rintro ⟨⟨-, rfl⟩ | hright, hleft⟩
    · exact absurd rfl hleft
    · exact .inr hright

theorem oneOf_without_right :
    OneOf left false phil o ↔ OneOf left true phil o ∧ o ≠ philGetRightSpoon phil := by
  have hne := right_ne_left phil
  unfold OneOf
  constructor
  · rintro (⟨hleft, rfl⟩ | ⟨hf, -⟩)
    · exact ⟨.inl ⟨hleft, rfl⟩, hne.symm⟩
    · cases hf
  · rintro ⟨hleft | ⟨-, rfl⟩, hright⟩
    · exact .inl hleft
    · exact absurd rfl hright

end Pairs

/-- The owners of the mutexes. -/
def mutexOf (m : Table n) : PhilId n → Option (PhilId n) := fun o => (m o).mutex

/-- The philosophers with the spoons. -/
def philOf (m : Table n) : PhilId n → Option (PhilId n) := fun o => (m o).phil

section Updates

variable {m : Table n} {o : PhilId n}

@[simp] theorem mutexOf_setMutex (owner : Option (PhilId n)) :
    mutexOf (setMutex m o owner) = Function.update (mutexOf m) o owner := by
  ext o'
  by_cases ho : o' = o <;> simp [mutexOf, setMutex, ho]

@[simp] theorem mutexOf_setSpoon (isUsed : Bool) (phil : Option (PhilId n)) :
    mutexOf (setSpoon m o isUsed phil) = mutexOf m := by
  ext o'
  by_cases ho : o' = o <;> simp [mutexOf, setSpoon, ho]

@[simp] theorem philOf_setMutex (owner : Option (PhilId n)) :
    philOf (setMutex m o owner) = philOf m := by
  ext o'
  by_cases ho : o' = o <;> simp [philOf, setMutex, ho]

@[simp] theorem philOf_setSpoon (isUsed : Bool) (phil : Option (PhilId n)) :
    philOf (setSpoon m o isUsed phil) = Function.update (philOf m) o phil := by
  ext o'
  by_cases ho : o' = o <;> simp [philOf, setSpoon, ho]

/-- The flag of every spoon says whether somebody has it. -/
def FlagsOk (m : Table n) : Prop := ∀ o, (m o).isUsed = (m o).phil.isSome

theorem FlagsOk.setMutex (h : FlagsOk m) (owner : Option (PhilId n)) :
    FlagsOk (setMutex m o owner) := by
  intro o'
  unfold DiningPhilosophers.setMutex
  by_cases ho : o' = o
  · rw [ho, Function.update_self]
    exact h o
  · rw [Function.update_of_ne ho]
    exact h o'

theorem FlagsOk.setSpoon (h : FlagsOk m) (phil : Option (PhilId n)) :
    FlagsOk (setSpoon m o phil.isSome phil) := by
  intro o'
  unfold DiningPhilosophers.setSpoon
  by_cases ho : o' = o
  · rw [ho, Function.update_self]
  · rw [Function.update_of_ne ho]
    exact h o'

end Updates

/-- Which mutex is locked where. -/
inductive Locks (phil : PhilId n) : PhilLoc → PhilId n → PhilLoc → Prop
  | lockLeft : Locks phil .lockLeft (philGetLeftSpoon phil) .testLeft
  | relockLeft : Locks phil .relockLeft (philGetLeftSpoon phil) .testLeft
  | lockRight : Locks phil .lockRight (philGetRightSpoon phil) .testRight
  | lockLeftAgain : Locks phil .lockLeftAgain (philGetLeftSpoon phil) .dropLeft
  | releaseLockLeft : Locks phil .releaseLockLeft (philGetLeftSpoon phil) .releaseLockRight
  | releaseLockRight : Locks phil .releaseLockRight (philGetRightSpoon phil) .releaseLeft

/-- Everything a philosopher can do. -/
inductive PhilMove (phil : PhilId n) (m : Table n) :
    PhilLoc → Table n → List (Note (PhilId n)) → Status (PhilId n) PhilLoc → Prop
  | lock {l l' : PhilLoc} {o : PhilId n} (hl : Locks phil l o l') (hfree : (m o).mutex = none) :
      PhilMove phil m l (setMutex m o (some phil)) [] (.running l')
  | wait (hused : (m (philGetLeftSpoon phil)).isUsed = true)
      (hphil : (m (philGetLeftSpoon phil)).phil ≠ some phil) :
      PhilMove phil m .testLeft (setMutex m (philGetLeftSpoon phil) none) []
        (.waiting (philGetLeftSpoon phil) .relockLeft)
  | takeLeft (hfree : ¬ ((m (philGetLeftSpoon phil)).isUsed = true ∧
        (m (philGetLeftSpoon phil)).phil ≠ some phil)) :
      PhilMove phil m .testLeft
        (setMutex (setSpoon m (philGetLeftSpoon phil) true (some phil)) (philGetLeftSpoon phil) none) []
        (.running .lockRight)
  | takeRight (hfree : (m (philGetRightSpoon phil)).isUsed = false) :
      PhilMove phil m .testRight
        (setMutex (setSpoon m (philGetRightSpoon phil) true (some phil)) (philGetRightSpoon phil) none)
        [] (.running .eat)
  | haveRight (hphil : (m (philGetRightSpoon phil)).phil = some phil) :
      PhilMove phil m .testRight (setMutex m (philGetRightSpoon phil) none) [] (.running .eat)
  | backOff (hused : (m (philGetRightSpoon phil)).isUsed = true)
      (hphil : (m (philGetRightSpoon phil)).phil ≠ some phil) :
      PhilMove phil m .testRight m [] (.running .lockLeftAgain)
  | drop :
      PhilMove phil m .dropLeft
        (setMutex (setSpoon m (philGetLeftSpoon phil) false none) (philGetLeftSpoon phil) none) []
        (.running .unlockRight)
  | unlockRight :
      PhilMove phil m .unlockRight (setMutex m (philGetRightSpoon phil) none) [] (.running .lockLeft)
  | eat : PhilMove phil m .eat m [] (.running .enjoy)
  | enjoy : PhilMove phil m .enjoy m [] (.running .releaseLockLeft)
  | releaseLeft :
      PhilMove phil m .releaseLeft
        (setMutex (setSpoon m (philGetLeftSpoon phil) false none) (philGetLeftSpoon phil) none)
        [.signal (philGetLeftSpoon phil)] (.running .releaseRight)
  | releaseRight :
      PhilMove phil m .releaseRight
        (setMutex (setSpoon m (philGetRightSpoon phil) false none) (philGetRightSpoon phil) none)
        [.signal (philGetRightSpoon phil)] (.running .lockLeft)

section Moves

variable {phil : PhilId n} {l : PhilLoc} {x : Unit} {m m' : Table n}
  {notes : List (Note (PhilId n))} {st : Status (PhilId n) PhilLoc}

theorem philMove_of_mutexLock {o : PhilId n} {l' : PhilLoc} (hl : Locks phil l o l')
    (h : mutexLock phil o m l' = .done m' notes st) : PhilMove phil m l m' notes st := by
  unfold mutexLock at h
  split at h
  · cases h
  · next hfree =>
    cases h
    exact .lock hl hfree

/-- A step of a philosopher is one of the listed moves. -/
theorem philMove_of_exec (h : philosopherFn phil l x m = .done m' notes st) :
    PhilMove phil m l m' notes st := by
  cases l with
  | lockLeft => exact philMove_of_mutexLock .lockLeft h
  | relockLeft => exact philMove_of_mutexLock .relockLeft h
  | lockRight => exact philMove_of_mutexLock .lockRight h
  | lockLeftAgain => exact philMove_of_mutexLock .lockLeftAgain h
  | releaseLockLeft => exact philMove_of_mutexLock .releaseLockLeft h
  | releaseLockRight => exact philMove_of_mutexLock .releaseLockRight h
  | testLeft =>
      simp only [philosopherFn, philosopherGetAccessBothSpoons] at h
      split at h
      · next hused =>
        cases h
        exact .wait hused.1 hused.2
      · next hfree =>
        cases h
        exact .takeLeft hfree
  | testRight =>
      simp only [philosopherFn, philosopherGetAccessBothSpoons] at h
      split at h
      · next hfree =>
        cases h
        exact .takeRight hfree
      · next hused =>
        split at h
        · next hphil =>
          obtain ⟨other, -, hdone⟩ := Effect.call_eq_done.mp h
          cases hdone
          exact .backOff (by simpa using hused) hphil
        · next hphil =>
          cases h
          exact .haveRight (by simpa using hphil)
  | dropLeft =>
      simp only [philosopherFn, philosopherGetAccessBothSpoons] at h
      split at h
      · cases h
        exact .drop
      · cases h
  | unlockRight =>
      cases h
      exact .unlockRight
  | eat =>
      simp only [philosopherFn, philEat] at h
      split at h
      · cases h
        exact .eat
      · cases h
  | enjoy =>
      cases h
      exact .enjoy
  | releaseLeft =>
      simp only [philosopherFn, philosopherReleaseBothSpoons] at h
      split at h
      · cases h
        exact .releaseLeft
      · cases h
  | releaseRight =>
      cases h
      exact .releaseRight

end Moves

section Invariant

variable {s s' : PhilConfig n} {t : PhilId n}

/-- The table agrees with the philosophers, and whoever waits, waits for another one. -/
structure TableInv (s : PhilConfig n) : Prop where
  mutexes : Owned (mutexOf s.mem) (HasMutex s)
  spoons : Owned (philOf s.mem) (Took s)
  flags : FlagsOk s.mem
  waits : ∀ i c l, s.thr i = .waiting c l →
    c = philGetLeftSpoon i ∧ l = .relockLeft ∧ ∃ j, j ≠ i ∧ Took s j c
  woken : ∀ i c l, s.thr i = .notified c l → c = philGetLeftSpoon i ∧ l = .relockLeft

/-- A table stays right under a step that keeps its two halves right, and that only takes spoons away from
nobody. -/
theorem TableInv.step_of (h : TableInv s) {spurious : Bool} {notes : List (Note (PhilId n))}
    {st : Status (PhilId n) PhilLoc} (hran : (philProgram n spurious).Ran s t () s' notes st)
    (hmutexes : Owned (mutexOf s'.mem) (HasMutex s')) (hspoons : Owned (philOf s'.mem) (Took s'))
    (hflags : FlagsOk s'.mem)
    (hst : (∃ l, st = .running l) ∨ st = .waiting (philGetLeftSpoon t) .relockLeft ∧
      ∃ j, j ≠ t ∧ Took s j (philGetLeftSpoon t))
    (hkeep : ∀ i l, i ≠ t → s'.thr i = .waiting (philGetLeftSpoon i) l →
      Took s t (philGetLeftSpoon i) → Took s' t (philGetLeftSpoon i)) : TableInv s' where
  mutexes := hmutexes
  spoons := hspoons
  flags := hflags
  waits i c l hw := by
    by_cases hi : i = t
    · subst hi
      rw [hran.self] at hw
      rcases hst with ⟨l', hst⟩ | ⟨hst, j, hj, htook⟩
      · rw [hst] at hw
        cases hw
      · rw [hst, Status.waiting.injEq] at hw
        obtain ⟨hc, hl⟩ := hw
        rw [← hc, ← hl]
        refine ⟨rfl, rfl, j, hj, ?_⟩
        unfold Took Has at htook ⊢
        rwa [hran.loc_of_ne hj]
    · obtain ⟨hc, hl, j, hj, htook⟩ := h.waits i c l (hran.waiting_of_ne hi hw)
      rw [hc] at hw htook ⊢
      refine ⟨rfl, hl, j, hj, ?_⟩
      by_cases hjt : j = t
      · rw [hjt] at htook ⊢
        exact hkeep i l hi hw htook
      · unfold Took Has at htook ⊢
        rwa [hran.loc_of_ne hjt]
  woken i c l hw := by
    by_cases hi : i = t
    · rw [hi, hran.self] at hw
      rcases hst with ⟨l', hst⟩ | ⟨hst, -⟩
      · rw [hst] at hw
        cases hw
      · rw [hst] at hw
        cases hw
    · rcases hran.other hi with heq | ⟨c', l', hold, hnew, -⟩
      · rw [heq] at hw
        exact h.woken i c l hw
      · rw [hnew, Status.notified.injEq] at hw
        obtain ⟨rfl, rfl⟩ := hw
        obtain ⟨hc, hl, -⟩ := h.waits i c' l' hold
        exact ⟨hc, hl⟩

section Has

variable {left right : PhilLoc → Bool} {owner : PhilId n → Option (PhilId n)} {o : PhilId n}
  {spurious : Bool} {notes : List (Note (PhilId n))} {l : PhilLoc} {st : Status (PhilId n) PhilLoc}

theorem has_of_ne (hran : (philProgram n spurious).Ran s t () s' notes st) {j : PhilId n} (hj : j ≠ t) :
    Has left right s' j o ↔ Has left right s j o := by
  unfold Has
  rw [hran.loc_of_ne hj]

theorem has_acquire (hran : (philProgram n spurious).Ran s t () s' notes st)
    (hl : (s.thr t).loc = l) (h : Owned owner (Has left right s)) (hfree : owner o = none)
    (hpair : ∀ o', OneOf (left st.loc) (right st.loc) t o' ↔ OneOf (left l) (right l) t o' ∨ o' = o) :
    Owned (Function.update owner o (some t)) (Has left right s') := by
  refine h.acquire hfree ?_ fun j hj o' => has_of_ne hran hj
  intro o'
  unfold Has
  rw [hran.self, hl]
  exact hpair o'

theorem has_release (hran : (philProgram n spurious).Ran s t () s' notes st)
    (hl : (s.thr t).loc = l) (h : Owned owner (Has left right s))
    (ho : OneOf (left l) (right l) t o)
    (hpair : ∀ o', OneOf (left st.loc) (right st.loc) t o' ↔ OneOf (left l) (right l) t o' ∧ o' ≠ o) :
    Owned (Function.update owner o none) (Has left right s') := by
  have hhas : Has left right s t o := by
    unfold Has
    rwa [hl]
  refine h.release hhas ?_ fun j hj o' => has_of_ne hran hj
  intro o'
  unfold Has
  rw [hran.self, hl]
  exact hpair o'

theorem has_keep (hran : (philProgram n spurious).Ran s t () s' notes st)
    (hl : (s.thr t).loc = l) (h : Owned owner (Has left right s))
    (hleft : left st.loc = left l) (hright : right st.loc = right l) :
    Owned owner (Has left right s') := by
  apply h.keep
  intro j o'
  by_cases hj : j = t
  · unfold Has
    rw [hj, hran.self, hl, hleft, hright]
  · exact has_of_ne hran hj

/-- Only a spoon that is given back is one that somebody else may wait for. -/
theorem took_of_grows (hran : (philProgram n spurious).Ran s t () s' notes st)
    (hl : (s.thr t).loc = l)
    (hgrows : ∀ o, OneOf l.tookLeft l.tookRight t o → OneOf st.loc.tookLeft st.loc.tookRight t o)
    (htook : Took s t o) : Took s' t o := by
  unfold Took Has at htook ⊢
  rw [hl] at htook
  rw [hran.self]
  exact hgrows o htook

end Has

/-- A philosopher that gets a mutex. -/
theorem TableInv.step_lock (h : TableInv s) {spurious : Bool} {notes : List (Note (PhilId n))}
    {l l' : PhilLoc} {o : PhilId n}
    (hran : (philProgram n spurious).Ran s t () s' notes (.running l'))
    (hl : (s.thr t).loc = l) (hlocks : Locks t l o l') (hfree : (s.mem o).mutex = none)
    (hm : s'.mem = setMutex s.mem o (some t)) : TableInv s' := by
  have hmutexes : Owned (mutexOf s'.mem) (HasMutex s') := by
    rw [hm, mutexOf_setMutex]
    refine has_acquire hran hl h.mutexes hfree fun o' => ?_
    cases hlocks with
    | lockLeft => exact oneOf_left
    | relockLeft => exact oneOf_left
    | lockRight => exact oneOf_right
    | lockLeftAgain => exact oneOf_left
    | releaseLockLeft => exact oneOf_left
    | releaseLockRight => exact oneOf_right
  have hsame : l'.tookLeft = l.tookLeft ∧ l'.tookRight = l.tookRight := by
    cases hlocks <;> exact ⟨rfl, rfl⟩
  apply h.step_of hran hmutexes
  · rw [hm, philOf_setMutex]
    exact has_keep hran hl h.spoons hsame.1 hsame.2
  · rw [hm]
    exact h.flags.setMutex _
  · exact .inl ⟨l', rfl⟩
  · intro i _ _ _ htook
    refine took_of_grows hran hl (fun o ho => ?_) htook
    show OneOf l'.tookLeft l'.tookRight t o
    rwa [hsame.1, hsame.2]

section Kinds

variable {spurious : Bool} {notes : List (Note (PhilId n))} {l l' : PhilLoc} {o : PhilId n}

/-- A step that changes nothing but the philosopher's place. -/
theorem TableInv.step_quiet (h : TableInv s)
    (hran : (philProgram n spurious).Ran s t () s' notes (.running l')) (hl : (s.thr t).loc = l)
    (hm : s'.mem = s.mem) (hholds : l'.holdsLeft = l.holdsLeft ∧ l'.holdsRight = l.holdsRight)
    (htook : l'.tookLeft = l.tookLeft ∧ l'.tookRight = l.tookRight) : TableInv s' := by
  apply h.step_of hran
  · rw [hm]
    exact has_keep hran hl h.mutexes hholds.1 hholds.2
  · rw [hm]
    exact has_keep hran hl h.spoons htook.1 htook.2
  · rw [hm]
    exact h.flags
  · exact .inl ⟨l', rfl⟩
  · intro i _ _ _ htook'
    refine took_of_grows hran hl (fun o ho => ?_) htook'
    show OneOf l'.tookLeft l'.tookRight t o
    rwa [htook.1, htook.2]

/-- A philosopher takes the spoon `o` and lets its mutex go. -/
theorem TableInv.step_take (h : TableInv s)
    (hran : (philProgram n spurious).Ran s t () s' notes (.running l')) (hl : (s.thr t).loc = l)
    (hm : s'.mem = setMutex (setSpoon s.mem o true (some t)) o none) (hnone : philOf s.mem o = none)
    (hhas : OneOf l.holdsLeft l.holdsRight t o)
    (hholds : ∀ o', OneOf l'.holdsLeft l'.holdsRight t o' ↔ OneOf l.holdsLeft l.holdsRight t o' ∧ o' ≠ o)
    (htook : ∀ o', OneOf l'.tookLeft l'.tookRight t o' ↔ OneOf l.tookLeft l.tookRight t o' ∨ o' = o) :
    TableInv s' := by
  apply h.step_of hran
  · rw [hm, mutexOf_setMutex, mutexOf_setSpoon]
    exact has_release hran hl h.mutexes hhas hholds
  · rw [hm, philOf_setMutex, philOf_setSpoon]
    exact has_acquire hran hl h.spoons hnone htook
  · rw [hm]
    exact (h.flags.setSpoon (some t)).setMutex _
  · exact .inl ⟨l', rfl⟩
  · exact fun i _ _ _ => took_of_grows hran hl fun o' ho' => (htook o').mpr (.inl ho')

/-- A philosopher gives the spoon `o` back and lets its mutex go. -/
theorem TableInv.step_giveBack (h : TableInv s)
    (hran : (philProgram n spurious).Ran s t () s' notes (.running l')) (hl : (s.thr t).loc = l)
    (hm : s'.mem = setMutex (setSpoon s.mem o false none) o none)
    (hhas : OneOf l.holdsLeft l.holdsRight t o) (hhad : OneOf l.tookLeft l.tookRight t o)
    (hholds : ∀ o', OneOf l'.holdsLeft l'.holdsRight t o' ↔ OneOf l.holdsLeft l.holdsRight t o' ∧ o' ≠ o)
    (htook : ∀ o', OneOf l'.tookLeft l'.tookRight t o' ↔ OneOf l.tookLeft l.tookRight t o' ∧ o' ≠ o)
    (hkeep : ∀ i l, i ≠ t → s'.thr i = .waiting (philGetLeftSpoon i) l →
      Took s t (philGetLeftSpoon i) → Took s' t (philGetLeftSpoon i)) : TableInv s' := by
  apply h.step_of hran
  · rw [hm, mutexOf_setMutex, mutexOf_setSpoon]
    exact has_release hran hl h.mutexes hhas hholds
  · rw [hm, philOf_setMutex, philOf_setSpoon]
    exact has_release hran hl h.spoons hhad htook
  · rw [hm]
    exact (h.flags.setSpoon none).setMutex _
  · exact .inl ⟨l', rfl⟩
  · exact hkeep

end Kinds

/-- Every step of a philosopher keeps the table right. -/
theorem TableInv.step (h : TableInv s) {spurious : Bool} {notes : List (Note (PhilId n))}
    {st : Status (PhilId n) PhilLoc} (hran : (philProgram n spurious).Ran s t () s' notes st) :
    TableInv s' := by
  have hmove := philMove_of_exec (x := ()) hran.exec
  generalize hl : (s.thr t).loc = l at hmove
  generalize hm : s'.mem = m' at hmove
  have htook : ∀ o, Took s t o ↔ OneOf l.tookLeft l.tookRight t o := by
    intro o
    unfold Took Has
    rw [hl]
  cases hmove with
  | lock hlocks hfree => exact h.step_lock hran hl hlocks hfree hm
  | wait hused hphil =>
      apply h.step_of hran
      · rw [hm, mutexOf_setMutex]
        exact has_release hran hl h.mutexes (.inl ⟨rfl, rfl⟩) fun o' => oneOf_without_left
      · rw [hm, philOf_setMutex]
        exact has_keep hran hl h.spoons rfl rfl
      · rw [hm]
        exact h.flags.setMutex _
      · refine .inr ⟨rfl, ?_⟩
        rw [h.flags, Option.isSome_iff_exists] at hused
        obtain ⟨j, hj⟩ := hused
        refine ⟨j, ?_, (h.spoons _ j).mp hj⟩
        rintro rfl
        exact hphil hj
      · exact fun i _ _ _ => took_of_grows hran hl fun o ho => ho
  | takeLeft hfree =>
      have hnone : philOf s.mem (philGetLeftSpoon t) = none := by
        rw [Option.eq_none_iff_forall_ne_some]
        intro j hj
        apply hfree
        rw [h.flags]
        refine ⟨Option.isSome_of_mem hj, fun hself' => ?_⟩
        have hno := (htook _).mp ((h.spoons _ t).mp hself')
        rcases hno with ⟨hf, -⟩ | ⟨hf, -⟩
        · cases hf
        · cases hf
      exact h.step_take hran hl hm hnone (.inl ⟨rfl, rfl⟩) (fun o' => oneOf_without_left)
        fun o' => oneOf_left
  | takeRight hfree =>
      have hnone : philOf s.mem (philGetRightSpoon t) = none := by
        rw [h.flags, Option.isSome_eq_false_iff, Option.isNone_iff_eq_none] at hfree
        exact hfree
      exact h.step_take hran hl hm hnone (.inr ⟨rfl, rfl⟩) (fun o' => oneOf_without_right)
        fun o' => oneOf_right
  | haveRight hphil =>
      have hno := (htook _).mp ((h.spoons _ t).mp hphil)
      rcases hno with ⟨-, heq⟩ | ⟨hf, -⟩
      · exact absurd heq (right_ne_left t)
      · cases hf
  | backOff hused hphil => exact h.step_quiet hran hl hm ⟨rfl, rfl⟩ ⟨rfl, rfl⟩
  | drop =>
      refine h.step_giveBack hran hl hm (.inl ⟨rfl, rfl⟩) (.inl ⟨rfl, rfl⟩) (fun o' => oneOf_without_left)
        (fun o' => oneOf_without_left) ?_
      -- a philosopher waits for its own left spoon only
      intro i _ hi _ hdropped
      rcases (htook _).mp hdropped with ⟨-, heq⟩ | ⟨hf, -⟩
      · exact absurd heq hi
      · cases hf
  | unlockRight =>
      apply h.step_of hran
      · rw [hm, mutexOf_setMutex]
        exact has_release hran hl h.mutexes (.inr ⟨rfl, rfl⟩) fun o' => oneOf_without_right
      · rw [hm, philOf_setMutex]
        exact has_keep hran hl h.spoons rfl rfl
      · rw [hm]
        exact h.flags.setMutex _
      · exact .inl ⟨_, rfl⟩
      · exact fun i _ _ _ => took_of_grows hran hl fun o ho => ho
  | eat => exact h.step_quiet hran hl hm ⟨rfl, rfl⟩ ⟨rfl, rfl⟩
  | enjoy => exact h.step_quiet hran hl hm ⟨rfl, rfl⟩ ⟨rfl, rfl⟩
  | releaseLeft =>
      refine h.step_giveBack hran hl hm (.inl ⟨rfl, rfl⟩) (.inl ⟨rfl, rfl⟩) (fun o' => oneOf_without_left)
        (fun o' => oneOf_without_left) ?_
      intro i _ hi _ hreleased
      rcases (htook _).mp hreleased with ⟨-, heq⟩ | hright
      · exact absurd heq hi
      · unfold Took Has
        rw [hran.self]
        exact .inr hright
  | releaseRight =>
      refine h.step_giveBack hran hl hm (.inr ⟨rfl, rfl⟩) (.inr ⟨rfl, rfl⟩)
        (fun o' => oneOf_without_right)
        (fun o' => oneOf_without_right) ?_
      -- the neighbour that waited has been notified
      intro i l' hi hw hreleased
      rcases (htook _).mp hreleased with ⟨hf, -⟩ | ⟨-, heq⟩
      · cases hf
      · have hwaited := hran.waiting_of_ne hi hw
        rw [heq] at hwaited
        obtain ⟨u, lu, -, hold, hnew⟩ := hran.signal (List.mem_singleton_self _) ⟨i, l', hwaited⟩
        obtain ⟨hc, -⟩ := h.waits u _ lu hold
        have hui : u = i := hc.symm.trans heq.symm
        rw [hui, hw] at hnew
        cases hnew

theorem TableInv.fresh (n : Nat) : TableInv (laidTable n) where
  mutexes o i := by
    refine iff_of_false (by simp [mutexOf, laidTable]) ?_
    rintro (⟨hf, -⟩ | ⟨hf, -⟩)
    · cases hf
    · cases hf
  spoons o i := by
    refine iff_of_false (by simp [philOf, laidTable]) ?_
    rintro (⟨hf, -⟩ | ⟨hf, -⟩)
    · cases hf
    · cases hf
  flags o := rfl
  waits i c l hw := by cases hw
  woken i c l hw := by cases hw

/-- A philosopher that is woken without a notification was waiting already. -/
theorem TableInv.step_spurious (h : TableInv s) {c : PhilId n} {l : PhilLoc}
    (hw : s.thr t = .waiting c l) :
    TableInv ⟨s.mem, Function.update s.thr t (.notified c l)⟩ := by
  have hhas : ∀ (left right : PhilLoc → Bool) (i o : PhilId n),
      Has left right ⟨s.mem, Function.update s.thr t (.notified c l)⟩ i o ↔
        Has left right s i o := by
    intro left right i o
    unfold Has
    rw [loc_update_notified hw]
  constructor
  · exact h.mutexes.keep (hhas _ _)
  · exact h.spoons.keep (hhas _ _)
  · exact h.flags
  · intro i c' l' hi
    obtain ⟨hc, hl, j, hj, htook⟩ := h.waits i c' l' (waiting_of_update_notified hi)
    exact ⟨hc, hl, j, hj, (hhas _ _ j c').mpr htook⟩
  · intro i c' l' hi
    by_cases hit : i = t
    · subst hit
      replace hi : Function.update s.thr i (.notified c l) i = .notified c' l' := hi
      rw [Function.update_self, Status.notified.injEq] at hi
      obtain ⟨rfl, rfl⟩ := hi
      obtain ⟨hc, hl, -⟩ := h.waits i c l hw
      exact ⟨hc, hl⟩
    · replace hi : Function.update s.thr t (.notified c l) i = .notified c' l' := hi
      rw [Function.update_of_ne hit] at hi
      exact h.woken i c' l' hi

theorem reachable_tableInv {spurious : Bool} {cond : PhilConfig n → Act (PhilId n) Unit → Prop}
    (hs : (philMachine n spurious).ReachableUnder cond s) : TableInv s := by
  apply Program.invariant _ _ _ hs
  · rintro _ rfl
    exact TableInv.fresh n
  · intro s t x picks s' notes st h _ hran
    exact h.step hran
  · intro s t c l h _ hw
    exact h.step_spurious hw

end Invariant

section Eating

variable {s : PhilConfig n} {t : PhilId n}

/-- Eating philosophers have both their spoons, and a used spoon has exactly one user. -/
structure SafeEating (s : PhilConfig n) : Prop where
  both : ∀ i, (s.thr i).loc.eats = true → ∀ o, o = philGetLeftSpoon i ∨ o = philGetRightSpoon i →
    (s.mem o).isUsed = true ∧ (s.mem o).phil = some i
  apart : ∀ i, ¬ ((s.thr i).loc.eats = true ∧ (s.thr (i + 1)).loc.eats = true)
  used : ∀ o, (s.mem o).isUsed = true ↔ ∃! i, Took s i o

theorem TableInv.used (h : TableInv s) {i o : PhilId n} (htook : Took s i o) :
    (s.mem o).isUsed = true ∧ (s.mem o).phil = some i := by
  have hphil : (s.mem o).phil = some i := (h.spoons o i).mpr htook
  refine ⟨?_, hphil⟩
  rw [h.flags, hphil]
  rfl

theorem tookBoth_of_eats {l : PhilLoc} (h : l.eats = true) :
    l.tookLeft = true ∧ l.tookRight = true := by
  cases l <;> first | exact ⟨rfl, rfl⟩ | cases h

theorem TableInv.safeEating (h : TableInv s) : SafeEating s where
  both i hi o ho := by
    obtain ⟨hleft, hright⟩ := tookBoth_of_eats hi
    rcases ho with rfl | rfl
    · exact h.used (.inl ⟨hleft, rfl⟩)
    · exact h.used (.inr ⟨hright, rfl⟩)
  apart i := by
    rintro ⟨hi, hnext⟩
    -- the spoon between the two would have two owners
    have htook : Took s i i := .inl ⟨(tookBoth_of_eats hi).1, rfl⟩
    have htook' : Took s (i + 1) i :=
      .inr ⟨(tookBoth_of_eats hnext).2, (philGetRightSpoon_add_one i).symm⟩
    have hne := right_ne_left (i + 1)
    rw [philGetRightSpoon_add_one] at hne
    exact hne (h.spoons.eq htook htook')
  used o := by
    rw [h.flags]
    exact h.spoons.isSome_iff

/-- No assertion of a philosopher fails. -/
theorem TableInv.not_abort (h : TableInv s) (x : Unit) :
    philosopherFn t (s.thr t).loc x s.mem ≠ .abort := by
  intro habort
  -- the spoons a philosopher took are marked with it
  have hhas : ∀ o, OneOf (s.thr t).loc.tookLeft (s.thr t).loc.tookRight t o →
      (s.mem o).isUsed = true ∧ (s.mem o).phil = some t := fun o htook => h.used htook
  have hlock : ∀ o l, mutexLock t o s.mem l ≠ .abort := by
    intro o l hl
    unfold mutexLock at hl
    split at hl <;> cases hl
  generalize (s.thr t).loc = l at habort hhas
  cases l with
  | lockLeft => exact hlock _ _ habort
  | relockLeft => exact hlock _ _ habort
  | lockRight => exact hlock _ _ habort
  | lockLeftAgain => exact hlock _ _ habort
  | releaseLockLeft => exact hlock _ _ habort
  | releaseLockRight => exact hlock _ _ habort
  | testLeft =>
      simp only [philosopherFn, philosopherGetAccessBothSpoons] at habort
      split at habort <;> cases habort
  | testRight =>
      simp only [philosopherFn, philosopherGetAccessBothSpoons] at habort
      split at habort
      · cases habort
      · next hused =>
        split at habort
        · rcases Effect.call_eq_abort.mp habort with hnone | ⟨other, -, hdone⟩
          · rw [h.flags, hnone] at hused
            exact hused rfl
          · cases hdone
        · cases habort
  | dropLeft =>
      have hleft := hhas (philGetLeftSpoon t) (.inl ⟨rfl, rfl⟩)
      simp only [philosopherFn, philosopherGetAccessBothSpoons, if_pos hleft] at habort
      cases habort
  | unlockRight => cases habort
  | eat =>
      have hleft := hhas (philGetLeftSpoon t) (.inl ⟨rfl, rfl⟩)
      have hright := hhas (philGetRightSpoon t) (.inr ⟨rfl, rfl⟩)
      simp only [philosopherFn, philEat] at habort
      split at habort
      · cases habort
      · next hno => exact hno ⟨hleft.2, hright.2, hleft.1, hright.1⟩
  | enjoy => cases habort
  | releaseLeft =>
      have hleft := hhas (philGetLeftSpoon t) (.inl ⟨rfl, rfl⟩)
      have hright := hhas (philGetRightSpoon t) (.inr ⟨rfl, rfl⟩)
      simp only [philosopherFn, philosopherReleaseBothSpoons] at habort
      split at habort
      · cases habort
      · next hno => exact hno ⟨hleft.2, hleft.1, hright.2, hright.1⟩
  | releaseRight => cases habort

/-- **Philosophers eat safely** around a table of any size, whatever wakes them. -/
theorem phil_safeEating {spurious : Bool} (hs : (philMachine n spurious).Reachable s) :
    SafeEating s ∧ ∀ a, (philMachine n spurious).step s a ≠ .abort := by
  have h := reachable_tableInv hs
  refine ⟨h.safeEating, ?_⟩
  rintro (⟨t, x, picks⟩ | t) habort
  · exact h.not_abort x (Program.exec_of_abort habort).2
  · exact Program.not_abort_spurious habort

/-- One of two philosophers eats while the other one waits. -/
theorem phil_safeEating_trace : ∃ s : PhilConfig 0, SafeEating s ∧
    (s.thr 0).loc = .eat ∧ s.thr 1 = .waiting 1 .relockLeft := by
  have hrun : ((philMachine 0 true).exec (laidTable 0)
      (List.flatten [List.replicate 4 (.run 0 () []), List.replicate 2 (.run 1 () [])])).holds
      (fun s => decide ((s.thr 0).loc = .eat ∧ s.thr 1 = .waiting 1 .relockLeft)) = true := by
    decide +kernel
  obtain ⟨s, hs, hp⟩ := Machine.exists_reachable_of_exec rfl hrun
  exact ⟨s, (phil_safeEating hs).1, of_decide_eq_true hp⟩

end Eating

end DiningPhilosophers
end MultithreadingBible
