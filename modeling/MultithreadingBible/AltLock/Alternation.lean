import MultithreadingBible.AltLock.Holders

/-!
# Alternating reader-writer lock: it never gets stuck

The turn flags keep one kind of thread out until the other kind has used the lock, single signals hand
over freed slots that newcomers may take first, and the last thread to leave broadcasts.  `AltInv` says
for every blocked thread that was not notified why this is right: the other kind is inside, or it is not
its turn, or enough threads of its kind are on their way to fill the lock.

* `AltInv.block`, `AltInv.enter`, `AltInv.release` — one lemma for each kind of step.
* `altLock_neverStuck` — both flags are never set together, a free lock with waiting threads has a
  notified thread that may enter, and free slots have notified threads to fill them.
-/

namespace MultithreadingBible
namespace AltLock

open Lib
open RwLocks (Access)

section Moves

variable {max c : Access → Nat} {x k : Access} {m m' m₁ : RwLock} {l : AltLoc}
  {notes : List (Note Access)} {st : Status Access AltLoc}

/-- The lock a thread finds when it decides whether to wait. -/
inductive Arrives (x : Access) (m : RwLock) : AltLoc → Access → RwLock → Prop
  | fresh : Arrives x m .idle x m
  | resumed {k : Access} : Arrives x m (.wait k) k (m.uncountWaiting k)

/-- Everything a thread can do. -/
inductive AltMove (x : Access) (m : RwLock) :
    AltLoc → RwLock → List (Note Access) → Status Access AltLoc → Prop
  | block {l : AltLoc} {k : Access} {m₁ : RwLock} (ha : Arrives x m l k m₁)
      (hw : m₁.mustWait k = true) : AltMove x m l (m₁.countWaiting k) [] (.waiting k (.wait k))
  | enter {l : AltLoc} {k : Access} {m₁ : RwLock} (ha : Arrives x m l k m₁)
      (hw : m₁.mustWait k = false) : AltMove x m l (enter k m₁) [] (.running (.inside k))
  | release {k : Access} {m' : RwLock} {notes : List (Note Access)}
      (hu : rwLockUnlock m = some (m', notes)) : AltMove x m (.inside k) m' notes (.running .idle)

theorem Arrives.holders (ha : Arrives x m l k m₁) (h : Holders max c m) : Holders max c m₁ := by
  cases ha with
  | fresh => exact h
  | resumed => exact h.uncountWaiting k

theorem Arrives.mustWait (ha : Arrives x m l k m₁) (k' : Access) :
    m₁.mustWait k' = m.mustWait k' := by
  cases ha <;> rfl

theorem altMove_of_result (ha : Arrives x m l k m₁)
    (h : (if m₁.mustWait k then LockResult.waits (m₁.countWaiting k)
      else .granted (enter k m₁)).effect k = .done m' notes st) : AltMove x m l m' notes st := by
  by_cases hw : m₁.mustWait k = true
  · rw [if_pos hw] at h
    cases h
    exact .block ha hw
  · rw [if_neg hw] at h
    cases h
    exact .enter ha (by simpa using hw)

/-- A step of a thread is one of the listed moves. -/
theorem altMove_of_exec (hm : Holders max c m) (h : altExec l x m = .done m' notes st) :
    AltMove x m l m' notes st := by
  cases l with
  | idle =>
      have ha : Arrives x m .idle x m := .fresh
      cases x with
      | reader =>
          simp only [altExec, rwLockRdLock, lock_spec hm, Effect.call] at h
          exact altMove_of_result ha h
      | writer =>
          simp only [altExec, rwLockWrLock, lock_spec hm, Effect.call] at h
          exact altMove_of_result ha h
  | wait k =>
      simp only [altExec, lockLoop_spec (hm.uncountWaiting k), Effect.call] at h
      exact altMove_of_result .resumed h
  | inside k =>
      obtain ⟨⟨m₂, notes₂⟩, hu, h⟩ := Effect.call_eq_done.mp h
      cases h
      exact .release hu

end Moves

/-- Inside with access `k`. -/
def AltLoc.isInside (k : Access) : AltLoc → Bool
  | .inside k' => k' == k
  | _ => false

/-- In the wait of a call that asks for `k`. -/
def AltLoc.isWaitOf (k : Access) : AltLoc → Bool
  | .wait k' => k' == k
  | _ => false

theorem AltLoc.isWaitOf_iff {k : Access} {l : AltLoc} : l.isWaitOf k = true ↔ l = .wait k := by
  cases l <;> simp [isWaitOf]

theorem AltLoc.isWaitOf_wait (k k' : Access) :
    ((AltLoc.wait k).isWaitOf k').toNat = if k = k' then 1 else 0 := by
  cases k <;> cases k' <;> rfl

theorem Arrives.isInside {k : Access} {m m₁ : RwLock} {l : AltLoc} (ha : Arrives x m l k m₁)
    (k' : Access) : l.isInside k' = false := by
  cases ha <;> rfl

/-- Who is blocked is in the wait of the kind whose condition variable it is blocked on. -/
inductive StatusOk : Status Access AltLoc → Prop
  | running {l : AltLoc} (h : ∀ k, l ≠ .wait k) : StatusOk (.running l)
  | waiting (k : Access) : StatusOk (.waiting k (.wait k))
  | notified (k : Access) : StatusOk (.notified k (.wait k))

/-- A thread that is notified stays where it was blocked. -/
theorem StatusOk.wake {c : Access} {l : AltLoc} (h : StatusOk (.waiting c l)) :
    StatusOk (.notified c l) := by
  cases h
  exact .notified c

variable {τ : Type*} [Fintype τ]

/-- The number of threads inside with access `k`. -/
def insideCount (s : AltConfig τ) (k : Access) : Nat :=
  (Finset.univ.filter fun t => (s.thr t).loc.isInside k = true).card

/-- The number of threads blocked in a call that asks for `k`, or notified there and not resumed. -/
def waitCount (s : AltConfig τ) (k : Access) : Nat :=
  (Finset.univ.filter fun t => (s.thr t).loc.isWaitOf k = true).card

/-- The number of threads notified in a call that asks for `k` and not resumed. -/
def notifiedOf (s : AltConfig τ) (k : Access) : Nat :=
  notifiedCount s.thr (AltLoc.isWaitOf k)

theorem insideCount_eq (s : AltConfig τ) (k : Access) :
    insideCount s k = tally s.thr fun l => (l.isInside k).toNat :=
  card_filter_loc s.thr fun l => l.isInside k

theorem waitCount_eq (s : AltConfig τ) (k : Access) :
    waitCount s k = tally s.thr fun l => (l.isWaitOf k).toNat :=
  card_filter_loc s.thr fun l => l.isWaitOf k

theorem waitCount_le (s : AltConfig τ) (k : Access) : waitCount s k ≤ Fintype.card τ :=
  Finset.card_le_univ _

theorem waitCount_pos {s : AltConfig τ} {k : Access} :
    0 < waitCount s k ↔ ∃ t, (s.thr t).loc = .wait k := by
  rw [waitCount_eq, tally_pos]
  constructor
  · rintro ⟨t, ht⟩
    refine ⟨t, AltLoc.isWaitOf_iff.mp ?_⟩
    cases hb : (s.thr t).loc.isWaitOf k with
    | true => rfl
    | false => rw [hb] at ht; exact absurd ht (Nat.lt_irrefl 0)
  · rintro ⟨t, ht⟩
    exact ⟨t, by rw [ht, AltLoc.isWaitOf_wait, if_pos rfl]; exact Nat.one_pos⟩

theorem insideCount_pos {s : AltConfig τ} {k : Access} {t : τ} (h : (s.thr t).loc = .inside k) :
    0 < insideCount s k := by
  rw [insideCount_eq, tally_pos]
  exact ⟨t, by rw [h]; simp [AltLoc.isInside]⟩

/-- The lock does not get stuck. -/
structure NeverStuck (s : AltConfig τ) : Prop where
  /-- (a) The two turn flags are never set together. -/
  turns : ¬ (s.mem.dontAllow .reader = true ∧ s.mem.dontAllow .writer = true)
  /-- (b) If nobody is inside and somebody is blocked, then somebody was notified who may enter. -/
  awake : (∀ k, insideCount s k = 0) → (∃ t k, (s.thr t).loc = .wait k) →
    ∃ u c k, s.thr u = .notified c (.wait k) ∧ s.mem.mustWait k = false
  /-- (c) While threads of one kind are inside, below their limit, and one of them stays blocked
  without a notification, as many are notified as there are free slots. -/
  handedOver : ∀ k, 0 < insideCount s k → s.mem.nLocks < s.mem.nMax k →
    (∃ t c, s.thr t = .waiting c (.wait k)) → s.mem.nMax k - s.mem.nLocks ≤ notifiedOf s k

section Invariant

variable {maxReaders maxWriters : UInt16} {spurious : Bool} {s s' : AltConfig τ} {t : τ}
  {x : Access} {notes : List (Note Access)} {st : Status Access AltLoc}

/-- The invariant of all runs. -/
structure AltInv (maxReaders maxWriters : UInt16) (s : AltConfig τ) : Prop where
  holders : Holders (limits maxReaders maxWriters) (insideCount s) s.mem
  counted : ∀ k, s.mem.nWaiting k = waitCount s k
  status : ∀ t, StatusOk (s.thr t)
  /-- Only the other kind can be kept out while threads of one kind are inside or kept out. -/
  turns : ∀ k, s.mem.dontAllow k = true → s.mem.dontAllow (other k) = false
  allowed : ∀ k, 0 < insideCount s k → s.mem.dontAllow k = false
  /-- Why a thread is still blocked. -/
  reason : ∀ t k, s.thr t = .waiting k (.wait k) →
    s.mem.isLockedBy (other k) = true ∨ s.mem.dontAllow k = true ∨
      0 < insideCount s k ∧ s.mem.nMax k ≤ s.mem.nLocks + notifiedOf s k
  /-- Who takes the lock when one kind is kept out of it. -/
  successor : ∀ k, s.mem.dontAllow k = true → (∀ k', insideCount s k' = 0) →
    ∃ u, s.thr u = .notified (other k) (.wait (other k))

/-- At the decision whether to wait, a thread is not counted as waiting. -/
theorem AltInv.arrives (h : AltInv maxReaders maxWriters s) {k : Access} {m₁ : RwLock}
    (ha : Arrives x s.mem (s.thr t).loc k m₁) (k' : Access) :
    m₁.nWaiting k' + ((s.thr t).loc.isWaitOf k').toNat = waitCount s k' := by
  have hpos : ((s.thr t).loc.isWaitOf k').toNat ≤ waitCount s k' := by
    rw [waitCount_eq]
    exact le_tally s.thr (fun l => (l.isWaitOf k').toNat) t
  have hcount := h.counted k'
  generalize (s.thr t).loc = l at ha hpos
  cases ha with
  | fresh => exact hcount
  | resumed =>
      rw [AltLoc.isWaitOf_wait] at hpos ⊢
      by_cases hk : k = k'
      · subst hk
        rw [if_pos rfl] at hpos ⊢
        show Function.update s.mem.nWaiting k _ k + 1 = _
        rw [Function.update_self, countDown_eq (by omega), hcount]
        omega
      · rw [if_neg hk]
        show Function.update s.mem.nWaiting k _ k' + 0 = _
        rw [Function.update_of_ne (Ne.symm hk)]
        exact hcount

/-- Nobody waits where the counter is zero. -/
theorem AltInv.nobody (h : AltInv maxReaders maxWriters s) {k : Access}
    (hzero : s.mem.nWaiting k = 0) (u : τ) : s.thr u ≠ .waiting k (.wait k) := by
  intro hw
  have hpos : 0 < waitCount s k := waitCount_pos.mpr ⟨u, by rw [hw]; rfl⟩
  rw [← h.counted, hzero] at hpos
  exact absurd hpos (Nat.lt_irrefl 0)

/-- A kind that is not kept out may enter a free lock. -/
theorem AltInv.mayEnter (h : AltInv maxReaders maxWriters s)
    (hmax : ∀ k, 1 ≤ limits maxReaders maxWriters k) (hfree : ∀ k, insideCount s k = 0) {k : Access}
    (hallow : s.mem.dontAllow k = false) : s.mem.mustWait k = false := by
  have hother : s.mem.isLockedBy (other k) = false := h.holders.flag_false.mpr (hfree _)
  have hn := h.holders.nLocks
  rw [hfree, hfree] at hn
  have hone := hmax k
  rw [← h.holders.nMax] at hone
  simp only [RwLock.mustWait, hother, hallow, hn, Bool.false_or, Bool.or_false,
    beq_eq_false_iff_ne]
  omega

variable [DecidableEq τ]

omit [Fintype τ] in
/-- Who is blocked after a step that leaves the mover awake was blocked before. -/
theorem waiting_release (hran : (altProgram τ spurious).Ran s t x s' notes (.running .idle)) {u : τ}
    {c : Access} {l : AltLoc} (hw : s'.thr u = .waiting c l) :
    u ≠ t ∧ s.thr u = .waiting c l := by
  have hut : u ≠ t := by
    rintro rfl
    rw [hran.self] at hw
    cases hw
  exact ⟨hut, hran.waiting_of_ne hut hw⟩

theorem AltInv.init (h : (altMachine τ spurious maxReaders maxWriters).init s) :
    AltInv maxReaders maxWriters s := by
  have hnotInside : ∀ k, insideCount s k = 0 := by
    intro k
    rw [insideCount_eq, tally_eq_zero]
    intro t
    rw [h.2 t]
    rfl
  have hnotWaiting : ∀ k, waitCount s k = 0 := by
    intro k
    rw [waitCount_eq, tally_eq_zero]
    intro t
    rw [h.2 t]
    rfl
  have hallow : ∀ k, s.mem.dontAllow k = false := by
    intro k
    rw [h.1]
    rfl
  refine ⟨?_, fun k => ?_, fun t => ?_, fun k _ => hallow _, fun k _ => hallow k,
    fun t k ht => ?_, fun k hk => ?_⟩
  · rw [funext hnotInside, h.1]
    exact .fresh maxReaders maxWriters
  · rw [hnotWaiting, h.1]
    rfl
  · rw [h.2 t]
    exact .running fun k hk => by cases hk
  · rw [h.2 t] at ht
    cases ht
  · rw [hallow] at hk
    cases hk

/-- The thread that moves changes the counts by its own contribution. -/
theorem insideCount_ran (h : (altProgram τ spurious).Ran s t x s' notes st) (k : Access) :
    insideCount s' k + ((s.thr t).loc.isInside k).toNat =
      insideCount s k + (st.loc.isInside k).toNat := by
  rw [insideCount_eq, insideCount_eq]
  exact h.tally fun l => (l.isInside k).toNat

theorem waitCount_ran (h : (altProgram τ spurious).Ran s t x s' notes st) (k : Access) :
    waitCount s' k + ((s.thr t).loc.isWaitOf k).toNat =
      waitCount s k + (st.loc.isWaitOf k).toNat := by
  rw [waitCount_eq, waitCount_eq]
  exact h.tally fun l => (l.isWaitOf k).toNat

theorem AltInv.status_ran (h : AltInv maxReaders maxWriters s)
    (hran : (altProgram τ spurious).Ran s t x s' notes st) (hst : StatusOk st) (u : τ) :
    StatusOk (s'.thr u) :=
  hran.forall_status (p := fun _ => StatusOk) h.status hst (fun _ _ _ hu => hu.wake) u

/-- A thread that arrives changes what a thread of another kind finds only by entering. -/
theorem notifiedOf_le (h : (altProgram τ spurious).Ran s t x s' notes st) (k : Access) :
    notifiedOf s k ≤ notifiedOf s' k + ((s.thr t).loc.isWaitOf k).toNat := by
  refine le_trans (h.notifiedCount_le (AltLoc.isWaitOf k)) (Nat.add_le_add_left ?_ _)
  cases (s.thr t).isNotified
  · exact Nat.zero_le _
  · exact le_refl _

/-- A thread that has to wait passes its own reason on to everybody of its kind. -/
theorem AltInv.block (h : AltInv maxReaders maxWriters s) (hcard : Fintype.card τ < 2 ^ 16)
    (hmax : ∀ k, 1 ≤ limits maxReaders maxWriters k)
    (hran : (altProgram τ spurious).Ran s t x s' [] st) {k : Access} {m₁ : RwLock}
    (ha : Arrives x s.mem (s.thr t).loc k m₁) (hw : m₁.mustWait k = true)
    (hm : s'.mem = m₁.countWaiting k) (hst : st = .waiting k (.wait k)) :
    AltInv maxReaders maxWriters s' := by
  have hinside : insideCount s' = insideCount s := by
    funext k'
    have := insideCount_ran hran k'
    rwa [ha.isInside, hst, show (AltLoc.isInside k' (Status.waiting k (AltLoc.wait k)).loc) = false
      from rfl] at this
  have hsame : s'.mem.dontAllow = s.mem.dontAllow ∧ s'.mem.isLockedBy = s.mem.isLockedBy ∧
      s'.mem.nLocks = s.mem.nLocks ∧ s'.mem.nMax = s.mem.nMax := by
    rw [hm]
    generalize (s.thr t).loc = l at ha
    cases ha <;> exact ⟨rfl, rfl, rfl, rfl⟩
  obtain ⟨hallow, hlocked, hlocks, hnMax⟩ := hsame
  have hwait : s.mem.mustWait k = true := by rwa [← ha.mustWait]
  have hsplit := hwait
  simp only [RwLock.mustWait, Bool.or_eq_true, beq_iff_eq] at hsplit
  refine ⟨?_, fun k' => ?_, h.status_ran hran (hst ▸ .waiting k), ?_, ?_, fun u k' hu => ?_, ?_⟩
  · rw [hinside, hm]
    exact (ha.holders h.holders).countWaiting k
  · have hold := h.arrives ha k'
    have hnew := waitCount_ran hran k'
    have hle := waitCount_le s' k'
    rw [hst, Status.loc_waiting, AltLoc.isWaitOf_wait] at hnew
    rw [hm]
    show Function.update m₁.nWaiting k _ k' = _
    by_cases hk : k = k'
    · subst hk
      rw [if_pos rfl] at hnew
      rw [Function.update_self, countUp_eq (by omega)]
      omega
    · rw [if_neg hk] at hnew
      rw [Function.update_of_ne (Ne.symm hk)]
      omega
  · rw [hallow]
    exact h.turns
  · rw [hallow, hinside]
    exact h.allowed
  · rw [hallow, hlocked, hlocks, hnMax, hinside]
    by_cases hk : k' = k
    · subst hk
      rcases hsplit with (hother | hfull) | hturn
      · exact .inl hother
      · by_cases hlock : s.mem.isLockedBy (other k') = true
        · exact .inl hlock
        · -- the lock is full of threads of this kind
          have hzero := h.holders.flag_false.mp (by simpa using hlock)
          have hn := h.holders.nLocks_eq k'
          have hone := hmax k'
          rw [← h.holders.nMax] at hone
          exact .inr (.inr ⟨by omega, by omega⟩)
      · exact .inr (.inl hturn)
    · have hut : u ≠ t := by
        rintro rfl
        rw [hran.self, hst] at hu
        cases hu
        exact hk rfl
      have hle := notifiedOf_le hran k'
      have hnot : ((s.thr t).loc.isWaitOf k').toNat = 0 := by
        generalize (s.thr t).loc = l at ha
        cases ha with
        | fresh => rfl
        | resumed => rw [AltLoc.isWaitOf_wait, if_neg (Ne.symm hk)]
      rcases h.reason u k' (hran.waiting_of_ne hut hu) with hr | hr | ⟨hr, hfill⟩
      · exact .inl hr
      · exact .inr (.inl hr)
      · exact .inr (.inr ⟨hr, by omega⟩)
  · intro k' hk' hfree
    rw [hallow] at hk'
    rw [hinside] at hfree
    obtain ⟨u, hu⟩ := h.successor k' hk' hfree
    refine ⟨u, hran.notified_of_ne ?_ hu⟩
    -- the successor itself would not have had to wait
    rintro rfl
    have hkind : k = other k' := by
      rw [hu] at ha
      cases ha
      rfl
    have hturn := h.turns k' hk'
    rcases hsplit with (hlock | hfull) | hturn'
    · rw [h.holders.flag, hfree] at hlock
      exact absurd hlock (Nat.lt_irrefl 0)
    · have hone := hmax k
      rw [← h.holders.nMax, ← hfull, h.holders.nLocks, hfree, hfree] at hone
      exact absurd hone (by omega)
    · rw [hkind, hturn] at hturn'
      cases hturn'

/-- A thread that enters uses up at most its own notification. -/
theorem AltInv.enter (h : AltInv maxReaders maxWriters s)
    (hran : (altProgram τ spurious).Ran s t x s' [] st) {k : Access} {m₁ : RwLock}
    (ha : Arrives x s.mem (s.thr t).loc k m₁) (hw : m₁.mustWait k = false)
    (hm : s'.mem = AltLock.enter k m₁) (hst : st = .running (.inside k)) :
    AltInv maxReaders maxWriters s' := by
  have hinside : insideCount s' = Function.update (insideCount s) k (insideCount s k + 1) := by
    funext k'
    have hnew := insideCount_ran hran k'
    rw [ha.isInside, hst, Status.loc_running] at hnew
    by_cases hk : k' = k
    · subst hk
      rw [Function.update_self]
      simpa [AltLoc.isInside] using hnew
    · rw [Function.update_of_ne hk]
      rw [show (AltLoc.isInside k' (AltLoc.inside k)) = false from beq_false_of_ne (Ne.symm hk)] at hnew
      exact hnew
  have hpos : 0 < insideCount s' k := by
    rw [hinside, Function.update_self]
    exact Nat.succ_pos _
  -- an entering thread leaves the turn flags as they are
  have hallow : s'.mem.dontAllow = s.mem.dontAllow := by
    rw [hm, enter_dontAllow]
    generalize (s.thr t).loc = l at ha
    cases ha <;> rfl
  -- whoever is still blocked was blocked before
  have hold : ∀ u c l, s'.thr u = .waiting c l → s.thr u = .waiting c l := by
    intro u c l hu
    have hut : u ≠ t := by
      rintro rfl
      rw [hran.self, hst] at hu
      cases hu
    exact hran.waiting_of_ne hut hu
  have hholders : Holders (limits maxReaders maxWriters) (insideCount s') s'.mem := by
    rw [hinside, hm]
    exact (ha.holders h.holders).enter hw
  obtain ⟨-, -, hturn⟩ := (ha.holders h.holders).below hw
  have hstatus : StatusOk st := by
    rw [hst]
    exact .running fun k' hk' => by cases hk'
  refine ⟨hholders, fun k' => ?_, h.status_ran hran hstatus, ?_, fun k' hk' => ?_,
    fun u k' hu => ?_, fun k' hk' hfree => ?_⟩
  · have hcount := h.arrives ha k'
    have hnew := waitCount_ran hran k'
    rw [hst, show (AltLoc.isWaitOf k' (Status.running (κ := Access) (AltLoc.inside k)).loc) = false
      from rfl] at hnew
    rw [hm, enter_nWaiting]
    simp only [Bool.toNat_false] at hnew
    omega
  · rw [hallow]
    exact h.turns
  · by_cases hk : k' = k
    · subst hk
      rw [hallow]
      generalize (s.thr t).loc = l at ha
      cases ha <;> exact hturn
    · -- nobody of the other kind is inside
      have hzero := hholders.exclusive k hpos
      rw [eq_other hk] at hk'
      omega
  · by_cases hk : k' = k
    · subst hk
      have hsame : m₁.mustWait k' = s.mem.mustWait k' := ha.mustWait k'
      rw [hsame] at hw
      simp only [RwLock.mustWait, Bool.or_eq_false_iff] at hw
      rcases h.reason u k' (hold u k' _ hu) with hr | hr | ⟨hr, hfill⟩
      · rw [hw.1.1] at hr
        cases hr
      · rw [hw.2] at hr
        cases hr
      · -- one slot less, and at most one notified thread less
        have hle := notifiedOf_le hran k'
        have hone : ((s.thr t).loc.isWaitOf k').toNat ≤ 1 := Bool.toNat_le _
        have hn := h.holders.nLocks_eq k'
        have hn' := hholders.nLocks_eq k'
        rw [hinside, Function.update_self, Function.update_of_ne (other_ne k')] at hn'
        have hnMax : s'.mem.nMax = s.mem.nMax := hholders.nMax.trans h.holders.nMax.symm
        exact .inr (.inr ⟨hpos, by rw [hnMax]; omega⟩)
    · -- a thread of the other kind is blocked by the one that entered
      refine .inl ?_
      rw [eq_other hk, other_other]
      exact (hholders.flag k).mpr hpos
  · rw [hfree] at hpos
    exact absurd hpos (Nat.lt_irrefl 0)

/-- A broadcast for `k` leaves a notified thread if anybody waits for `k`. -/
theorem AltInv.exists_notified (h : AltInv maxReaders maxWriters s)
    (hran : (altProgram τ spurious).Ran s t x s' notes (.running .idle)) {k k' : Access}
    (hl : (s.thr t).loc = .inside k') (hcast : .broadcast k ∈ notes) (hwait : s.mem.nWaiting k ≠ 0) :
    ∃ u, s'.thr u = .notified k (.wait k) := by
  rw [h.counted] at hwait
  obtain ⟨u, hu⟩ := waitCount_pos.mp (Nat.pos_of_ne_zero hwait)
  have hut : u ≠ t := by
    rintro rfl
    rw [hl] at hu
    cases hu
  have hloc := (hran.loc_of_ne hut).trans hu
  have hstatus := h.status_ran hran (.running fun k hk => by cases hk) u
  refine ⟨u, ?_⟩
  generalize hthr : s'.thr u = st at hstatus hloc
  cases hstatus with
  | running hno => exact absurd hloc (hno k)
  | waiting k₁ =>
      cases hloc
      exact absurd hthr (hran.broadcast hcast hut _)
  | notified k₁ =>
      cases hloc
      rfl

theorem insideCount_release (hran : (altProgram τ spurious).Ran s t x s' notes (.running .idle))
    {k : Access} (hl : (s.thr t).loc = .inside k) :
    insideCount s' = Function.update (insideCount s) k (insideCount s k - 1) := by
  funext k'
  have hnew := insideCount_ran hran k'
  rw [hl, Status.loc_running] at hnew
  by_cases hk : k' = k
  · subst hk
    rw [Function.update_self]
    simp only [AltLoc.isInside, beq_self_eq_true, Bool.toNat_true, Bool.toNat_false] at hnew
    omega
  · rw [Function.update_of_ne hk]
    rw [show AltLoc.isInside k' (.inside k) = false from beq_false_of_ne (Ne.symm hk)] at hnew
    exact hnew

/-- What a release keeps in any case. -/
structure Released (maxReaders maxWriters : UInt16) (k : Access) (s s' : AltConfig τ) : Prop where
  holders : Holders (limits maxReaders maxWriters) (insideCount s') s'.mem
  counted : ∀ k, s'.mem.nWaiting k = waitCount s' k
  status : ∀ t, StatusOk (s'.thr t)
  nMax : s'.mem.nMax = s.mem.nMax
  nLocks : s'.mem.nLocks + 1 = s.mem.nLocks
  /-- Nobody of the other kind is inside. -/
  alone : insideCount s' (other k) = 0

/-- Threads of the kind that leaves stay inside: a freed slot is handed over. -/
theorem AltInv.release_stay (h : AltInv maxReaders maxWriters s)
    (hran : (altProgram τ spurious).Ran s t x s' notes (.running .idle)) {k : Access}
    (hl : (s.thr t).loc = .inside k) (hrel : Released maxReaders maxWriters k s s')
    (hleft : s'.mem.nLocks ≠ 0) (hallow : s'.mem.dontAllow = s.mem.dontAllow)
    (hsignal : s.mem.nWaiting k ≠ 0 → .signal k ∈ notes) : AltInv maxReaders maxWriters s' := by
  have hself := h.allowed k (insideCount_pos hl)
  have hempty := h.holders.exclusive k (insideCount_pos hl)
  have hsum := hrel.holders.nLocks_eq k
  have halone := hrel.alone
  have hpos : 0 < insideCount s' k := by omega
  refine ⟨hrel.holders, hrel.counted, hrel.status, ?_, fun k' hk' => ?_, fun u k' hw => ?_,
    fun k' _ hfree => ?_⟩
  · rw [hallow]
    exact h.turns
  · rw [hallow]
    by_cases hk : k' = k
    · rwa [hk]
    · rw [eq_other hk, halone] at hk'
      exact absurd hk' (Nat.lt_irrefl 0)
  · obtain ⟨-, hold⟩ := waiting_release hran hw
    by_cases hk : k' = k
    · subst hk
      have hwait : s.mem.nWaiting k' ≠ 0 := fun hzero => h.nobody hzero u hold
      have hlt := hran.notifiedCount_lt (p := AltLoc.isWaitOf k') (hsignal hwait) ⟨u, _, hold⟩
        fun v l hv => by
          have hstatus := h.status v
          rw [hv] at hstatus
          cases hstatus
          exact AltLoc.isWaitOf_iff.mpr rfl
      rw [hl, show AltLoc.isWaitOf k' (.inside k') = false from rfl, Bool.and_false] at hlt
      have hnLocks := hrel.nLocks
      rcases h.reason u k' hold with hr | hr | ⟨-, hfill⟩
      · rw [h.holders.flag, hempty] at hr
        exact absurd hr (Nat.lt_irrefl 0)
      · rw [hself] at hr
        cases hr
      · refine .inr (.inr ⟨hpos, ?_⟩)
        have hlt' : notifiedOf s k' < notifiedOf s' k' := hlt
        rw [hrel.nMax]
        omega
    · refine .inl ?_
      rw [eq_other hk, other_other]
      exact (hrel.holders.flag k).mpr hpos
  · rw [hfree] at hpos
    exact absurd hpos (Nat.lt_irrefl 0)

omit [DecidableEq τ] in
/-- The last thread leaves: who stays blocked is kept out, and then the other kind was woken. -/
theorem AltInv.release_last (h : AltInv maxReaders maxWriters s) {k : Access}
    (hl : (s.thr t).loc = .inside k) (hrel : Released maxReaders maxWriters k s s')
    (hleft : s'.mem.nLocks = 0) (hother : s'.mem.dontAllow (other k) = false)
    (hwoken : ∀ u, s'.thr u ≠ .waiting (other k) (.wait (other k)))
    (hturn : (∀ u, s'.thr u ≠ .waiting k (.wait k)) ∧ s'.mem.dontAllow k = s.mem.dontAllow k ∨
      s'.mem.dontAllow k = true ∧
        ∃ u, s'.thr u = .notified (other k) (.wait (other k))) :
    AltInv maxReaders maxWriters s' := by
  have hself := h.allowed k (insideCount_pos hl)
  have hsum := hrel.holders.nLocks_eq k
  have hfree : ∀ k', insideCount s' k' = 0 := by
    intro k'
    have halone := hrel.alone
    by_cases hk : k' = k
    · rw [hk]
      omega
    · rw [eq_other hk]
      exact halone
  -- only the kind that left can be kept out
  have hkind : ∀ k', s'.mem.dontAllow k' = true → k' = k := by
    intro k' hk'
    by_contra hk
    rw [eq_other hk, hother] at hk'
    cases hk'
  refine ⟨hrel.holders, hrel.counted, hrel.status, fun k' hk' => ?_, fun k' hk' => ?_,
    fun u k' hw => ?_, fun k' hk' _ => ?_⟩
  · rw [hkind k' hk']
    exact hother
  · rw [hfree] at hk'
    exact absurd hk' (Nat.lt_irrefl 0)
  · by_cases hk : k' = k
    · subst hk
      rcases hturn with ⟨hnobody, -⟩ | ⟨hkept, -⟩
      · exact absurd hw (hnobody u)
      · exact .inr (.inl hkept)
    · rw [eq_other hk] at hw
      exact absurd hw (hwoken u)
  · have hk := hkind k' hk'
    subst hk
    rcases hturn with ⟨-, hsame⟩ | ⟨-, hnotified⟩
    · rw [hsame, hself] at hk'
      cases hk'
    · exact hnotified

/-- **A release** keeps every reason it does not take care of by a notification. -/
theorem AltInv.release (h : AltInv maxReaders maxWriters s)
    (hran : (altProgram τ spurious).Ran s t x s' notes (.running .idle)) {k : Access}
    (hl : (s.thr t).loc = .inside k) (hu : rwLockUnlock s.mem = some (s'.mem, notes)) :
    AltInv maxReaders maxWriters s' := by
  have hpos := insideCount_pos hl
  obtain ⟨m', notes', hu', hholders, hcase, hwaits⟩ := unlock_spec h.holders hpos
  rw [hu] at hu'
  cases hu'
  have hinside := insideCount_release hran hl
  have hrel : Released maxReaders maxWriters k s s' := by
    refine ⟨hinside ▸ hholders, fun k' => ?_, ?_, hholders.nMax.trans h.holders.nMax.symm, ?_, ?_⟩
    · have hnew := waitCount_ran hran k'
      rw [hl] at hnew
      rw [hwaits, h.counted]
      exact hnew.symm
    · exact h.status_ran hran (.running fun k hk => by cases hk)
    · rw [hholders.nLocks_eq k, h.holders.nLocks_eq k, Function.update_self,
        Function.update_of_ne (other_ne k)]
      omega
    · rw [hinside, Function.update_of_ne (other_ne k)]
      exact h.holders.exclusive k hpos
  -- after a broadcast nobody is blocked, and where nobody waited nobody is
  have hcast : ∀ k', .broadcast k' ∈ notes → ∀ u, s'.thr u ≠ .waiting k' (.wait k') :=
    fun k' hmem u hw => hran.broadcast hmem (waiting_release hran hw).1 _ hw
  have hnone : ∀ k', s.mem.nWaiting k' = 0 → ∀ u, s'.thr u ≠ .waiting k' (.wait k') :=
    fun k' hzero u hw => h.nobody hzero u (waiting_release hran hw).2
  cases hcase with
  | handOver hleft hwait hallow =>
      exact h.release_stay hran hl hrel hleft hallow fun _ => List.mem_singleton.mpr rfl
  | leave hleft hwait hallow =>
      exact h.release_stay hran hl hrel hleft hallow fun hne => absurd hwait hne
  | switch hleft hwait hself hother =>
      have hmem : Note.broadcast (other k) ∈ [Note.broadcast (other k)] := List.mem_singleton.mpr rfl
      exact h.release_last hl hrel hleft hother (hcast _ hmem)
        (.inr ⟨hself, h.exists_notified hran hl hmem hwait⟩)
  | again hleft hzero hwait hself hother =>
      exact h.release_last hl hrel hleft hother (hnone _ hzero)
        (.inl ⟨hcast k (List.mem_singleton.mpr rfl), hself⟩)
  | idle hleft hzero hself hother =>
      exact h.release_last hl hrel hleft hother (hnone _ (hzero _)) (.inl ⟨hnone k (hzero k), hself⟩)

/-- **Every step keeps the invariant.** -/
theorem AltInv.step (h : AltInv maxReaders maxWriters s) (hcard : Fintype.card τ < 2 ^ 16)
    (hmax : ∀ k, 1 ≤ limits maxReaders maxWriters k)
    (hran : (altProgram τ spurious).Ran s t x s' notes st) : AltInv maxReaders maxWriters s' := by
  have hmove := altMove_of_exec h.holders hran.exec
  generalize hl : (s.thr t).loc = l at hmove
  generalize hm : s'.mem = m' at hmove
  generalize hst : st = st' at hmove
  cases hmove with
  | block ha hw => exact h.block hcard hmax hran (hl ▸ ha) hw hm hst
  | enter ha hw => exact h.enter hran (hl ▸ ha) hw hm hst
  | release hu => exact h.release (hst ▸ hran) hl (hm ▸ hu)

/-- A spurious wake-up adds a notified thread. -/
theorem AltInv.woken (h : AltInv maxReaders maxWriters s) {c : Access} {l : AltLoc}
    (hw : s.thr t = .waiting c l) :
    AltInv maxReaders maxWriters ⟨s.mem, Function.update s.thr t (.notified c l)⟩ := by
  have hloc := loc_update_notified hw
  have hinside : insideCount ⟨s.mem, Function.update s.thr t (.notified c l)⟩ = insideCount s := by
    funext k
    rw [insideCount_eq, insideCount_eq]
    exact tally_congr hloc _
  have hkeep : ∀ u c' l', s.thr u = .notified c' l' →
      Function.update s.thr t (.notified c l) u = .notified c' l' := by
    intro u c' l' hu
    have hut : u ≠ t := by
      rintro rfl
      rw [hw] at hu
      cases hu
    rwa [Function.update_of_ne hut]
  refine ⟨hinside ▸ h.holders, fun k => ?_,
    forall_status_of_woken (p := fun _ => StatusOk) hw h.status fun _ _ _ hu => hu.wake, h.turns,
    hinside ▸ h.allowed, fun u k hu => ?_, fun k hk hfree => ?_⟩
  · rw [waitCount_eq, tally_congr hloc, ← waitCount_eq]
    exact h.counted k
  · have hold := waiting_of_update_notified hu
    have hle := notifiedCount_le (AltLoc.isWaitOf k) t fun v _ c' l' hv => hkeep v c' l' hv
    rw [hw, show (Status.waiting c l).isNotified = false from rfl, Bool.false_and] at hle
    have hle' : notifiedOf s k ≤ notifiedOf ⟨s.mem, Function.update s.thr t (.notified c l)⟩ k := hle
    rw [hinside]
    rcases h.reason u k hold with hr | hr | ⟨hr, hfill⟩
    · exact .inl hr
    · exact .inr (.inl hr)
    · exact .inr (.inr ⟨hr, le_trans hfill (Nat.add_le_add_left hle' _)⟩)
  · rw [hinside] at hfree
    obtain ⟨u, hu⟩ := h.successor k hk hfree
    exact ⟨u, hkeep u _ _ hu⟩

theorem altInv_reachable (hcard : Fintype.card τ < 2 ^ 16)
    (hmax : ∀ k, 1 ≤ limits maxReaders maxWriters k)
    (h : (altMachine τ spurious maxReaders maxWriters).Reachable s) :
    AltInv maxReaders maxWriters s := by
  apply Program.invariant _ _ _ h
  · intro s (hs : (altMachine τ spurious maxReaders maxWriters).init s)
    exact .init hs
  · intro s t x picks s' notes st hinv _ hran
    exact hinv.step hcard hmax hran
  · intro s t c l hinv _ hw
    exact hinv.woken hw

/-- **The lock never gets stuck**: with limits of at least 1, fewer than `2 ^ 16` threads and any
spurious wake-ups, in every run. -/
theorem altLock_neverStuck (hcard : Fintype.card τ < 2 ^ 16) (hreaders : 1 ≤ maxReaders.toNat)
    (hwriters : 1 ≤ maxWriters.toNat)
    (h : (altMachine τ spurious maxReaders maxWriters).Reachable s) : NeverStuck s := by
  have hmax : ∀ k, 1 ≤ limits maxReaders maxWriters k := by
    intro k
    cases k with
    | reader => exact hreaders
    | writer => exact hwriters
  have hinv := altInv_reachable hcard hmax h
  refine ⟨fun hboth => ?_, fun hfree hblocked => ?_, fun k hpos hlt hblocked => ?_⟩
  · have hno : s.mem.dontAllow .writer = false := hinv.turns .reader hboth.1
    rw [hboth.2] at hno
    cases hno
  · obtain ⟨t, k, ht⟩ := hblocked
    by_cases hkept : s.mem.dontAllow k = true
    · -- it is the turn of the other kind, which was woken
      obtain ⟨u, hu⟩ := hinv.successor k hkept hfree
      exact ⟨u, _, _, hu, hinv.mayEnter hmax hfree (hinv.turns k hkept)⟩
    · have hstatus := hinv.status t
      generalize hthr : s.thr t = st at hstatus ht
      cases hstatus with
      | running hno => exact absurd ht (hno k)
      | waiting k₁ =>
          cases ht
          rcases hinv.reason t k hthr with hr | hr | ⟨hr, -⟩
          · rw [hinv.holders.flag, hfree] at hr
            exact absurd hr (Nat.lt_irrefl 0)
          · exact absurd hr hkept
          · rw [hfree] at hr
            exact absurd hr (Nat.lt_irrefl 0)
      | notified k₁ =>
          cases ht
          exact ⟨t, _, _, hthr, hinv.mayEnter hmax hfree (by simpa using hkept)⟩
  · obtain ⟨t, c, ht⟩ := hblocked
    have hstatus := hinv.status t
    rw [ht] at hstatus
    cases hstatus
    rcases hinv.reason t k ht with hr | hr | ⟨-, hfill⟩
    · rw [hinv.holders.flag, hinv.holders.exclusive k hpos] at hr
      exact absurd hr (Nat.lt_irrefl 0)
    · rw [hinv.allowed k hpos] at hr
      cases hr
    · omega

/-- One of two readers leaves and hands its slot over to one of two that wait. -/
theorem altLock_neverStuck_trace :
    ∃ s : AltConfig (Fin 4), NeverStuck s ∧ s.mem.nLocks = 1 ∧ s.mem.nMax .reader = 2 ∧
      s.thr 2 = .notified .reader (.wait .reader) ∧
        s.thr 3 = .waiting .reader (.wait .reader) := by
  have hrun : ((altMachine (Fin 4) true 2 1).exec (startConfig (Fin 4) 2 1)
      [.run 0 .reader [], .run 1 .reader [], .run 2 .reader [], .run 3 .reader [],
        .run 0 .reader [some 2]]).holds (fun s =>
        decide (s.mem.nLocks = 1 ∧ s.mem.nMax .reader = 2 ∧
          s.thr 2 = .notified .reader (.wait .reader) ∧
            s.thr 3 = .waiting .reader (.wait .reader))) = true := by
    decide +kernel
  obtain ⟨s, hs, hp⟩ := Machine.exists_reachable_of_exec startConfig_init hrun
  exact ⟨s, altLock_neverStuck (by decide) (by decide) (by decide) hs, of_decide_eq_true hp⟩

end Invariant

end AltLock
end MultithreadingBible
