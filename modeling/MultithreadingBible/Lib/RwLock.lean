import Mathlib.Data.Nat.Basic

/-!
# Readers-writer locks

A lock that many threads may hold for reading, or one for writing.  A call that has to wait answers
`none`; unlocking a lock that nobody holds is an error.

* `RwLock.lock` / `RwLock.unlock` — the operations.
* `RwLock.HeldBy` — a lock against the numbers of its holders, with one lemma for each operation.
* `RwLock.Changed` — one step of a thread that locks, unlocks, or leaves the lock alone.
-/

namespace MultithreadingBible
namespace Lib

/-- How many threads hold the lock for reading, and whether one holds it for writing. -/
structure RwLock where
  readers : Nat
  writer : Bool
  deriving DecidableEq

namespace RwLock

/-- A new lock. -/
def free : RwLock := ⟨0, false⟩

/-- Lock for reading. -/
def rdlock (lk : RwLock) : Option RwLock :=
  if lk.writer then none else some { lk with readers := lk.readers + 1 }

/-- Lock for writing. -/
def wrlock (lk : RwLock) : Option RwLock :=
  if lk.writer || lk.readers != 0 then none else some { lk with writer := true }

/-- Lock for writing or for reading. -/
def lock (write : Bool) (lk : RwLock) : Option RwLock :=
  if write then lk.wrlock else lk.rdlock

/-- Unlock, for whoever holds the lock. -/
def unlock (lk : RwLock) : Option RwLock :=
  if lk.writer then some { lk with writer := false }
  else if lk.readers = 0 then none
  else some { lk with readers := lk.readers - 1 }

/-- `r` threads hold the lock for reading and `w` for writing. -/
structure HeldBy (lk : RwLock) (r w : Nat) : Prop where
  readers : lk.readers = r
  writer : lk.writer.toNat = w
  excl : r = 0 ∨ w = 0

variable {lk lk' : RwLock} {r w : Nat}

theorem HeldBy.free : RwLock.free.HeldBy 0 0 := ⟨rfl, rfl, .inl rfl⟩

theorem HeldBy.writer_le (h : lk.HeldBy r w) : w ≤ 1 := by
  rw [← h.writer]
  exact Bool.toNat_le lk.writer

/-- A lock that nobody holds is free. -/
theorem HeldBy.eq_free (h : lk.HeldBy 0 0) : lk = .free := by
  obtain ⟨readers, writer⟩ := lk
  obtain ⟨hr, hw, -⟩ := h
  cases writer with
  | true => cases hw
  | false =>
      cases hr
      rfl

/-- Locking adds one holder. -/
theorem HeldBy.lock (h : lk.HeldBy r w) {write : Bool} (hlock : lk.lock write = some lk') :
    lk'.HeldBy (r + (!write).toNat) (w + write.toNat) := by
  obtain ⟨hr, hw, hexcl⟩ := h
  cases write with
  | false =>
      simp only [RwLock.lock, rdlock] at hlock
      cases hwriter : lk.writer with
      | true => simp [hwriter] at hlock
      | false =>
          simp only [hwriter, Bool.false_eq_true, if_false, Option.some.injEq] at hlock
          subst hlock
          rw [hwriter] at hw
          refine ⟨by simp [hr], by simpa [hwriter] using hw, .inr ?_⟩
          simpa using hw.symm
  | true =>
      simp only [RwLock.lock, wrlock, if_true] at hlock
      split at hlock
      · cases hlock
      · next hfree =>
        simp only [Bool.or_eq_true, bne_iff_ne, ne_eq, not_or, Bool.not_eq_true,
          Decidable.not_not] at hfree
        cases hlock
        rw [hfree.1] at hw
        rw [hfree.2] at hr
        refine ⟨by simp [hr, hfree.2], by simp [← hw], .inl ?_⟩
        simpa using hr.symm

/-- A reader unlocks. -/
theorem HeldBy.unlock_reader (h : lk.HeldBy (r + 1) w) :
    ∃ lk', lk.unlock = some lk' ∧ lk'.HeldBy r w := by
  obtain ⟨hr, hw, hexcl⟩ := h
  have hzero : w = 0 := by omega
  subst hzero
  have hwriter : lk.writer = false := by simpa using hw
  refine ⟨{ lk with readers := r }, ?_, rfl, hw, .inr rfl⟩
  simp [unlock, hwriter, hr]

/-- The writer unlocks. -/
theorem HeldBy.unlock_writer (h : lk.HeldBy r (w + 1)) :
    ∃ lk', lk.unlock = some lk' ∧ lk'.HeldBy r w := by
  have hle := h.writer_le
  obtain ⟨hr, hw, hexcl⟩ := h
  have hzero : w = 0 := by omega
  subst hzero
  have hwriter : lk.writer = true := by
    cases hb : lk.writer with
    | true => rfl
    | false => simp [hb] at hw
  refine ⟨{ lk with writer := false }, ?_, hr, rfl, .inr rfl⟩
  simp [unlock, hwriter]

/-- Whoever holds a lock can unlock it. -/
theorem HeldBy.exists_unlock (h : lk.HeldBy r w) (hpos : 0 < r ∨ 0 < w) :
    ∃ lk', lk.unlock = some lk' := by
  rcases hpos with hpos | hpos
  · obtain ⟨k, rfl⟩ := Nat.exists_eq_add_of_le' hpos
    obtain ⟨lk', hlk', -⟩ := h.unlock_reader
    exact ⟨lk', hlk'⟩
  · obtain ⟨k, rfl⟩ := Nat.exists_eq_add_of_le' hpos
    obtain ⟨lk', hlk', -⟩ := h.unlock_writer
    exact ⟨lk', hlk'⟩

/-- What a thread does to a lock, which it held in the modes `before` and holds in the modes `after`. -/
inductive Changed (lk lk' : RwLock) (before after : Bool → Bool) : Prop
  | locked (write : Bool) (hlock : lk.lock write = some lk') (hbefore : ∀ w, before w = false)
      (hafter : ∀ w, after w = (w == write))
  | unlocked (write : Bool) (hunlock : lk.unlock = some lk') (hbefore : ∀ w, before w = (w == write))
      (hafter : ∀ w, after w = false)
  | kept (hkept : lk' = lk) (hafter : ∀ w, after w = before w)

/-- The numbers of holders stay right when one thread changes the lock. -/
theorem HeldBy.step {n n' : Bool → Nat} {before after : Bool → Bool}
    (h : lk.HeldBy (n false) (n true)) (hchanged : Changed lk lk' before after)
    (hn : ∀ w, n' w + (before w).toNat = n w + (after w).toNat) :
    lk'.HeldBy (n' false) (n' true) := by
  have hfalse := hn false
  have htrue := hn true
  cases hchanged with
  | locked write hlock hbefore hafter =>
      have hheld := h.lock hlock
      rw [hbefore, hafter] at hfalse htrue
      have hr : n' false = n false + (!write).toNat := by
        cases write <;> simpa using hfalse
      have hw : n' true = n true + write.toNat := by
        cases write <;> simpa using htrue
      rwa [hr, hw]
  | unlocked write hunlock hbefore hafter =>
      rw [hbefore, hafter] at hfalse htrue
      cases write with
      | false =>
          have hr : n false = n' false + 1 := hfalse.symm
          have hw : n true = n' true := htrue.symm
          rw [hr, hw] at h
          obtain ⟨lk₁, hlk₁, hheld⟩ := h.unlock_reader
          rw [hunlock] at hlk₁
          cases hlk₁
          exact hheld
      | true =>
          have hr : n false = n' false := hfalse.symm
          have hw : n true = n' true + 1 := htrue.symm
          rw [hr, hw] at h
          obtain ⟨lk₁, hlk₁, hheld⟩ := h.unlock_writer
          rw [hunlock] at hlk₁
          cases hlk₁
          exact hheld
  | kept hkept hafter =>
      rw [hafter] at hfalse htrue
      rw [hkept, Nat.add_right_cancel hfalse, Nat.add_right_cancel htrue]
      exact h

end RwLock

end Lib
end MultithreadingBible
