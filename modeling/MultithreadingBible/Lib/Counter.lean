import Mathlib.Algebra.BigOperators.Group.Finset.Basic

/-!
# Counters of a fixed width

`n++` and `n--` on an unsigned counter of `w` bits, as functions on natural numbers.
-/

namespace MultithreadingBible
namespace Lib

/-- `n++` on a counter of `w` bits -/
@[irreducible] def countUp (w n : Nat) : Nat := (n + 1) % 2 ^ w

/-- `n--` on a counter of `w` bits -/
@[irreducible] def countDown (w n : Nat) : Nat := if n = 0 then 2 ^ w - 1 else n - 1

variable {w n : Nat}

/-- A counter with room does not wrap around. -/
theorem countUp_eq (h : n + 1 < 2 ^ w) : countUp w n = n + 1 := by
  unfold countUp
  exact Nat.mod_eq_of_lt h

/-- A positive counter does not wrap around. -/
theorem countDown_eq (hpos : 0 < n) : countDown w n = n - 1 := by
  unfold countDown
  exact if_neg (Nat.ne_of_gt hpos)

theorem countUp_lt (w n : Nat) : countUp w n < 2 ^ w := by
  unfold countUp
  exact Nat.mod_lt _ (Nat.two_pow_pos w)

/-- A counter that is right up to wrapping around stays so when one more is counted. -/
theorem countUp_mod (w n : Nat) : countUp w (n % 2 ^ w) = (n + 1) % 2 ^ w := by
  unfold countUp
  exact Nat.mod_add_mod n (2 ^ w) 1

/-- A counter that is right up to wrapping around stays so when one less is counted. -/
theorem countDown_mod (w n : Nat) : countDown w ((n + 1) % 2 ^ w) = n % 2 ^ w := by
  have hlt := Nat.mod_lt n (Nat.two_pow_pos w)
  rw [← Nat.mod_add_mod]
  by_cases hlast : n % 2 ^ w + 1 = 2 ^ w
  · rw [hlast, Nat.mod_self]
    unfold countDown
    rw [if_pos rfl]
    omega
  · rw [Nat.mod_eq_of_lt (show n % 2 ^ w + 1 < 2 ^ w by omega), countDown_eq (Nat.succ_pos _)]
    rfl

end Lib
end MultithreadingBible
