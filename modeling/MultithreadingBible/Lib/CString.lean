import Mathlib.Data.List.TakeWhile

/-!
# Character arrays filled by `strncpy`

A `char` array of `n` bytes that is only ever cleared or written by `strncpy` is determined by the
characters before its first NUL.  Such arrays need not be terminated: `n` characters may fill one.
`strncmp` with the size of the array then compares for equality with what `strncpy` would store.
-/

namespace MultithreadingBible
namespace Lib

/-- The characters of an array of `n` bytes before its first NUL, or all `n` of them. -/
structure CharArray (n : Nat) where
  chars : List UInt8
  length_le : chars.length ≤ n
  noNul : ∀ c ∈ chars, c ≠ 0
  deriving DecidableEq

namespace CharArray

variable {n : Nat}

@[ext] theorem ext' {a b : CharArray n} (h : a.chars = b.chars) : a = b := by
  cases a
  cases b
  simpa using h

/-- The cleared array. -/
def zero (n : Nat) : CharArray n := ⟨[], by simp, by simp⟩

/-- What `strncmp` with bound `n` looks at in a string: it stops at a NUL and after `n` characters. -/
def compared (n : Nat) (s : List UInt8) : List UInt8 :=
  (s.takeWhile (· ≠ 0)).take n

/-- `strncpy(a, src, sizeof(a))` -/
def strncpy (n : Nat) (src : List UInt8) : CharArray n where
  chars := compared n src
  length_le := List.length_take_le n _
  noNul c hc := by simpa using List.mem_takeWhile_imp (List.mem_of_mem_take hc)

/-- `strncmp(a, s, sizeof(a)) == 0` -/
def strncmpEq (a : CharArray n) (s : List UInt8) : Bool :=
  compared n a.chars = compared n s

/-- Nothing of an array is cut off. -/
theorem compared_chars (a : CharArray n) : compared n a.chars = a.chars := by
  have hall : a.chars.takeWhile (· ≠ 0) = a.chars :=
    List.takeWhile_eq_self_iff.mpr fun c hc => by simpa using a.noNul c hc
  rw [compared, hall, List.take_of_length_le a.length_le]

/-- The comparison of an array with a string is equality with the stored string. -/
theorem strncmpEq_iff (a : CharArray n) (s : List UInt8) :
    a.strncmpEq s = true ↔ a = strncpy n s := by
  simp only [strncmpEq, compared_chars, decide_eq_true_eq]
  constructor
  · intro h
    ext1
    exact h
  · intro h
    rw [h]
    rfl

/-- An array stored in another one of the same size. -/
@[simp] theorem strncpy_chars (a : CharArray n) : strncpy n a.chars = a :=
  ext' a.compared_chars

end CharArray

end Lib
end MultithreadingBible
