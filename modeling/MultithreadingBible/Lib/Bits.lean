import Mathlib.Tactic.Common

/-!
# Bits of a word

Words as sets of single bits: a bit is set, cleared or tested with a mask, `2 ^ i`.
-/

namespace MultithreadingBible
namespace Lib

variable {w : Nat}

/-- `IS_BIT_SET`, as a truth value -/
def isBitSet (n bit : BitVec w) : Bool := n &&& bit != 0#w

def setBit (n bit : BitVec w) : BitVec w := n ||| bit

def unsetBit (n bit : BitVec w) : BitVec w := n &&& (bit ^^^ BitVec.allOnes w)

variable {n : BitVec w} {i j : Nat}

/-- A mask tests one bit. -/
theorem isBitSet_twoPow (n : BitVec w) (hi : i < w) :
    isBitSet n (BitVec.twoPow w i) = n.getLsbD i := by
  have hne : BitVec.twoPow w i ≠ 0#w := by
    intro hzero
    have hbit := congrArg (fun x => x.getLsbD i) hzero
    simp [hi] at hbit
  unfold isBitSet
  rw [BitVec.and_twoPow]
  cases hbit : n.getLsbD i with
  | false => simp
  | true => simpa using hne

/-- A bit that was set is set. -/
theorem isBitSet_setBit_self (n : BitVec w) (hi : i < w) :
    isBitSet (setBit n (BitVec.twoPow w i)) (BitVec.twoPow w i) = true := by
  rw [isBitSet_twoPow _ hi]
  unfold setBit
  simp [hi]

/-- The other bits stay. -/
theorem isBitSet_setBit_of_ne (n : BitVec w) (hi : i < w) (hij : i ≠ j) :
    isBitSet (setBit n (BitVec.twoPow w j)) (BitVec.twoPow w i) = isBitSet n (BitVec.twoPow w i) := by
  rw [isBitSet_twoPow _ hi, isBitSet_twoPow _ hi]
  unfold setBit
  simp [hij.symm]

/-- A bit that was cleared is not set. -/
theorem isBitSet_unsetBit_self (n : BitVec w) (hi : i < w) :
    isBitSet (unsetBit n (BitVec.twoPow w i)) (BitVec.twoPow w i) = false := by
  rw [isBitSet_twoPow _ hi]
  unfold unsetBit
  simp [hi]

/-- The other bits stay. -/
theorem isBitSet_unsetBit_of_ne (n : BitVec w) (hi : i < w) (hij : i ≠ j) :
    isBitSet (unsetBit n (BitVec.twoPow w j)) (BitVec.twoPow w i) =
      isBitSet n (BitVec.twoPow w i) := by
  rw [isBitSet_twoPow _ hi, isBitSet_twoPow _ hi]
  unfold unsetBit
  simp [hi, hij]

end Lib
end MultithreadingBible
