import MultithreadingBible.AltLock.Machine

/-!
# Alternating reader-writer lock: one operation at a time

`Holders max c m` says that the fields of the lock `m` describe `c k` holders of each kind `k`.  Every
operation keeps it, with one holder more or less, and no assertion fails on the way:

* `lockLoop_spec`, `lock_spec` — a thread waits exactly where the condition of the loop says so.
* `unlock_spec` — what a release does to the flags and whom it notifies (`Release`).

Nothing here depends on how the threads are scheduled, so that the lock can be used inside a larger
program.
-/

namespace MultithreadingBible
namespace AltLock

open Lib
open RwLocks (Access)

variable {max c : Access → Nat} {m m' : RwLock} {k : Access}

/-- The fields of the lock describe `c k` holders of each kind `k`. -/
structure Holders (max c : Access → Nat) (m : RwLock) : Prop where
  exclusive : ∀ k, 0 < c k → c (other k) = 0
  le : ∀ k, c k ≤ max k
  nLocks : m.nLocks = c .reader + c .writer
  flag : ∀ k, m.isLockedBy k = true ↔ 0 < c k
  nMax : m.nMax = max
  max_lt : ∀ k, max k < 2 ^ 16

/-- `rw_lock_set_max_readers_writers` with these limits. -/
def limits (maxReaders maxWriters : UInt16) : Access → Nat
  | .reader => maxReaders.toNat
  | .writer => maxWriters.toNat

theorem limits_lt (maxReaders maxWriters : UInt16) (k : Access) :
    limits maxReaders maxWriters k < 2 ^ 16 := by
  cases k with
  | reader => exact maxReaders.toNat_lt
  | writer => exact maxWriters.toNat_lt

/-- A fresh lock has no holders. -/
theorem Holders.fresh (maxReaders maxWriters : UInt16) :
    Holders (limits maxReaders maxWriters) (fun _ => 0) (readyLock maxReaders maxWriters) where
  exclusive _ _ := rfl
  le _ := Nat.zero_le _
  nLocks := rfl
  flag k := by simp [readyLock, RwLock.init, RwLock.setMaxReadersWriters]
  nMax := by
    funext k
    cases k <;> rfl
  max_lt := limits_lt maxReaders maxWriters

theorem Holders.nLocks_eq (h : Holders max c m) (k : Access) : m.nLocks = c k + c (other k) := by
  cases k with
  | reader => exact h.nLocks
  | writer => rw [h.nLocks, Nat.add_comm]; rfl

theorem Holders.flag_false (h : Holders max c m) : m.isLockedBy k = false ↔ c k = 0 := by
  rw [← Bool.not_eq_true, h.flag]
  omega

@[simp] theorem RwLock.nWaiting_uncountLock (m : RwLock) : m.uncountLock.nWaiting = m.nWaiting := rfl

/-- Waiting touches none of the fields that describe the holders. -/
theorem Holders.countWaiting (h : Holders max c m) (k : Access) :
    Holders max c (m.countWaiting k) :=
  ⟨h.exclusive, h.le, h.nLocks, h.flag, h.nMax, h.max_lt⟩

theorem Holders.uncountWaiting (h : Holders max c m) (k : Access) :
    Holders max c (m.uncountWaiting k) :=
  ⟨h.exclusive, h.le, h.nLocks, h.flag, h.nMax, h.max_lt⟩

section Lock

/-- Who need not wait finds a free lock, or joins its own kind below the limit. -/
theorem Holders.below (h : Holders max c m) (hw : m.mustWait k = false) :
    c (other k) = 0 ∧ c k < max k ∧ m.dontAllow k = false := by
  simp only [RwLock.mustWait, Bool.or_eq_false_iff] at hw
  obtain ⟨⟨hother, hfull⟩, hallow⟩ := hw
  have hzero := h.flag_false.mp hother
  have hle := h.le k
  have hn := h.nLocks_eq k
  have hne : m.nLocks ≠ max k := by
    rw [← h.nMax]
    simpa using hfull
  exact ⟨hzero, by omega, hallow⟩

/-- One holder more. -/
def enter (k : Access) (m : RwLock) : RwLock :=
  (if m.nLocks = 0 then m.setLockedBy k true else m).countLock

theorem Holders.enter (h : Holders max c m) (hw : m.mustWait k = false) :
    Holders max (Function.update c k (c k + 1)) (AltLock.enter k m) := by
  obtain ⟨hzero, hlt, -⟩ := h.below hw
  have hn := h.nLocks_eq k
  have hmax := h.max_lt k
  have hcount : (AltLock.enter k m).nLocks = m.nLocks + 1 := by
    rw [← countUp_eq (show m.nLocks + 1 < 2 ^ 16 by omega)]
    unfold AltLock.enter
    split <;> rfl
  have hflag : (AltLock.enter k m).isLockedBy = Function.update m.isLockedBy k true := by
    unfold AltLock.enter
    split
    · rfl
    · next hne =>
      have hset : m.isLockedBy k = true := (h.flag k).mpr (by omega)
      show m.isLockedBy = Function.update m.isLockedBy k true
      rw [← hset, Function.update_eq_self]
  refine ⟨fun k' hpos => ?_, fun k' => ?_, ?_, fun k' => ?_, ?_, h.max_lt⟩
  · by_cases hk : k' = k
    · subst hk
      rwa [Function.update_of_ne (other_ne k')]
    · rw [eq_other hk, Function.update_of_ne (other_ne k)] at hpos
      omega
  · by_cases hk : k' = k
    · subst hk
      rw [Function.update_self]
      exact hlt
    · rw [Function.update_of_ne hk]
      exact h.le k'
  · rw [hcount, h.nLocks]
    cases k <;> simp [Function.update] <;> omega
  · rw [hflag]
    by_cases hk : k' = k
    · subst hk
      simp
    · rw [Function.update_of_ne hk, Function.update_of_ne hk]
      exact h.flag k'
  · rw [← h.nMax]
    unfold AltLock.enter
    split <;> rfl

theorem enter_dontAllow (k : Access) (m : RwLock) : (enter k m).dontAllow = m.dontAllow := by
  unfold enter
  split <;> rfl

theorem enter_nWaiting (k : Access) (m : RwLock) : (enter k m).nWaiting = m.nWaiting := by
  unfold enter
  split <;> rfl

/-- **The loop**: the thread waits where the condition says so and enters otherwise. -/
theorem lockLoop_spec (h : Holders max c m) (k : Access) :
    lockLoop k m =
      some (if m.mustWait k then .waits (m.countWaiting k) else .granted (enter k m)) := by
  unfold lockLoop
  by_cases hw : m.mustWait k = true
  · rw [if_pos hw, if_pos hw]
  · rw [if_neg hw, if_neg hw]
    rw [Bool.not_eq_true] at hw
    have hother : (enter k m).isLockedBy (other k) = false := by
      rw [(h.enter hw).flag_false, Function.update_of_ne (other_ne k)]
      exact (h.below hw).1
    show (if (enter k m).isLockedBy (other k) = true then none
      else some (LockResult.granted (enter k m))) = _
    rw [hother]
    rfl

/-- **The whole call**: case 1 does what the loop would do. -/
theorem lock_spec (h : Holders max c m) (k : Access) :
    lock k m =
      some (if m.mustWait k then .waits (m.countWaiting k) else .granted (enter k m)) := by
  unfold lock
  split
  · next hfree =>
    simp only [RwLock.isUnlocked, Bool.and_eq_true, Bool.not_eq_true', decide_eq_true_eq] at hfree
    obtain ⟨⟨⟨hr, hw⟩, hmax⟩, hallow⟩ := hfree
    rw [h.flag_false] at hr hw
    have hzero : m.nLocks = 0 := by
      rw [h.nLocks, hr, hw]
    have hother : m.isLockedBy (other k) = false := by
      rw [h.flag_false]
      cases k <;> assumption
    have hgo : m.mustWait k = false := by
      simp only [RwLock.mustWait, hother, hallow, hzero, Bool.false_or, Bool.or_false,
        beq_eq_false_iff_ne]
      omega
    rw [hgo, hzero]
    simp [enter, hzero, RwLock.countLock, RwLock.setLockedBy]
  · exact lockLoop_spec h k

end Lock

section Unlock

/-- What a release by a holder of kind `k` does, apart from the count. -/
inductive Release (k : Access) (m m' : RwLock) : List (Note Access) → Prop
  /-- Others of the kind stay inside, and one that waits is told. -/
  | handOver (hleft : m'.nLocks ≠ 0) (hwait : m.nWaiting k ≠ 0)
      (hallow : m'.dontAllow = m.dontAllow) : Release k m m' [.signal k]
  /-- Others of the kind stay inside, and none waits. -/
  | leave (hleft : m'.nLocks ≠ 0) (hwait : m.nWaiting k = 0)
      (hallow : m'.dontAllow = m.dontAllow) : Release k m m' []
  /-- The turn changes. -/
  | switch (hleft : m'.nLocks = 0) (hwait : m.nWaiting (other k) ≠ 0)
      (hself : m'.dontAllow k = true) (hother : m'.dontAllow (other k) = false) :
      Release k m m' [.broadcast (other k)]
  /-- Only threads of the same kind wait. -/
  | again (hleft : m'.nLocks = 0) (hnone : m.nWaiting (other k) = 0) (hwait : m.nWaiting k ≠ 0)
      (hself : m'.dontAllow k = m.dontAllow k) (hother : m'.dontAllow (other k) = false) :
      Release k m m' [.broadcast k]
  /-- Nobody waits. -/
  | idle (hleft : m'.nLocks = 0) (hnone : ∀ k', m.nWaiting k' = 0)
      (hself : m'.dontAllow k = m.dontAllow k) (hother : m'.dontAllow (other k) = false) :
      Release k m m' []

theorem Holders.unlock_eq (h : Holders max c m) (hpos : 0 < c k) :
    rwLockUnlock m = unlockOf k m := by
  have hn := h.nLocks_eq k
  have hne : (m.nLocks == 0) = false := by
    rw [beq_eq_false_iff_ne]
    omega
  have hself : m.isLockedBy k = true := (h.flag k).mpr hpos
  have hother : m.isLockedBy (other k) = false := h.flag_false.mpr (h.exclusive k hpos)
  unfold rwLockUnlock
  rw [hne]
  cases k with
  | reader =>
      rw [show m.isLockedBy .writer = false from hother, hself]
      rfl
  | writer =>
      rw [hself]
      rfl

/-- The holders after a release, whatever happens to the turn. -/
theorem Holders.release (h : Holders max c m) (hpos : 0 < c k)
    (hn : m'.nLocks = m.nLocks - 1)
    (hflag : m'.isLockedBy = if m.nLocks - 1 = 0 then Function.update m.isLockedBy k false
      else m.isLockedBy) (hmax : m'.nMax = m.nMax) :
    Holders max (Function.update c k (c k - 1)) m' := by
  have hzero := h.exclusive k hpos
  have hsum := h.nLocks_eq k
  refine ⟨fun k' hk' => ?_, fun k' => ?_, ?_, fun k' => ?_, hmax.trans h.nMax, h.max_lt⟩
  · by_cases hk : k' = k
    · subst hk
      rwa [Function.update_of_ne (other_ne k')]
    · rw [eq_other hk, Function.update_of_ne (other_ne k)] at hk'
      omega
  · by_cases hk : k' = k
    · subst hk
      rw [Function.update_self]
      exact le_trans (Nat.sub_le _ _) (h.le k')
    · rw [Function.update_of_ne hk]
      exact h.le k'
  · rw [hn, h.nLocks]
    cases k <;> simp only [other] at hzero hsum <;> simp [Function.update] <;> omega
  · rw [hflag]
    by_cases hk : k' = k
    · subst hk
      rw [Function.update_self]
      split
      · rw [Function.update_self]
        simp only [Bool.false_eq_true, false_iff]
        omega
      · rw [h.flag k']
        omega
    · rw [Function.update_of_ne hk]
      split
      · rw [Function.update_of_ne hk]
        exact h.flag k'
      · exact h.flag k'

/-- **A release** succeeds, takes one holder away, and is one of the listed cases. -/
theorem unlock_spec (h : Holders max c m) (hpos : 0 < c k) :
    ∃ m' notes, rwLockUnlock m = some (m', notes) ∧
      Holders max (Function.update c k (c k - 1)) m' ∧ Release k m m' notes ∧
        m'.nWaiting = m.nWaiting := by
  have hother : m.isLockedBy (other k) = false := h.flag_false.mpr (h.exclusive k hpos)
  have hn := h.nLocks_eq k
  have hdown : countDown 16 m.nLocks = m.nLocks - 1 := countDown_eq (by omega)
  have hself : (Function.update (Function.update m.dontAllow k true) (other k) false) k = true := by
    rw [Function.update_of_ne (other_ne k).symm, Function.update_self]
  have hkeep : (Function.update m.dontAllow (other k) false) k = m.dontAllow k := by
    rw [Function.update_of_ne (other_ne k).symm]
  rw [h.unlock_eq hpos]
  unfold unlockOf
  rw [if_neg (by rw [hother]; exact Bool.false_ne_true)]
  simp only
  by_cases hleft : m.nLocks - 1 = 0
  · rw [if_neg (show ¬ (m.uncountLock.nLocks != 0) = true by
      simpa [RwLock.uncountLock, hdown] using hleft)]
    -- the last one out: whatever becomes of the flags, nobody is inside
    have hkeeps : ∀ d, Holders max (Function.update c k (c k - 1))
        ⟨d, countDown 16 m.nLocks, m.nWaiting, Function.update m.isLockedBy k false, m.nMax⟩ :=
      fun d => h.release hpos hdown (by rw [if_pos hleft]) rfl
    have hzero : countDown 16 m.nLocks = 0 := hdown.trans hleft
    split
    · next hwait =>
      exact ⟨_, _, rfl, hkeeps _, .switch hzero (by simpa using hwait) hself
        (Function.update_self _ _ _), rfl⟩
    · next hnone =>
      have hnone : m.nWaiting (other k) = 0 := by simpa using hnone
      split
      · next hwait =>
        exact ⟨_, _, rfl, hkeeps _, .again hzero hnone (by simpa using hwait) hkeep
          (Function.update_self _ _ _), rfl⟩
      · next hnone' =>
        refine ⟨_, _, rfl, hkeeps _, .idle hzero (fun k' => ?_) hkeep
          (Function.update_self _ _ _), rfl⟩
        by_cases hk : k' = k
        · subst hk
          simpa using hnone'
        · rw [eq_other hk]
          exact hnone
  · rw [if_pos (show (m.uncountLock.nLocks != 0) = true by
      simpa [RwLock.uncountLock, hdown] using hleft)]
    -- others stay inside: a slot is free
    have hkeeps : Holders max (Function.update c k (c k - 1)) m.uncountLock :=
      h.release hpos hdown (by rw [if_neg hleft]; rfl) rfl
    have hne : m.uncountLock.nLocks ≠ 0 := by
      show countDown 16 m.nLocks ≠ 0
      rw [hdown]
      exact hleft
    split
    · next hwait => exact ⟨_, _, rfl, hkeeps, .handOver hne (by simpa using hwait) rfl, rfl⟩
    · next hwait => exact ⟨_, _, rfl, hkeeps, .leave hne (by simpa using hwait) rfl, rfl⟩

end Unlock

end AltLock
end MultithreadingBible
