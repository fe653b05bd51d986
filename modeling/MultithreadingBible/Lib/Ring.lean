import Mathlib.Logic.Function.Basic
import Mathlib.Data.List.Basic
import Mathlib.Data.List.Pairwise
import Mathlib.Order.Monotone.Basic

/-!
# Rings

Positions on a ring of `n` slots: `below` is one slot down, `above` one slot up, `ringAt n b i` is
`i` slots up from `b`. `ringList n b f` reads the entries of the ring from the last slot down to
`b`.
-/

namespace MultithreadingBible
namespace Lib

/-- One slot down a ring of `n` slots. -/
def below (n r : Nat) : Nat := if r = 0 then n - 1 else r - 1

/-- One slot up a ring of `n` slots. -/
def above (n r : Nat) : Nat := if r = n - 1 then 0 else r + 1

/-- `i` slots up from `b` on a ring of `n` slots. -/
def ringAt (n b i : Nat) : Nat := if b + i < n then b + i else b + i - n

section Positions

variable {n b i j r k : Nat}

theorem below_lt (hn : 0 < n) (hr : r < n) : below n r < n := by
  unfold below
  split <;> omega

theorem ringAt_lt (hb : b < n) (hi : i < n) : ringAt n b i < n := by
  unfold ringAt
  split <;> omega

@[simp] theorem ringAt_zero (hb : b < n) : ringAt n b 0 = b := by
  unfold ringAt
  split <;> omega

/-- Different distances from `b` are different slots. -/
theorem ringAt_inj (hi : i < n) (hj : j < n) : ringAt n b i = ringAt n b j ↔ i = j := by
  unfold ringAt
  split_ifs <;> omega

/-- To go down from a slot is to start one slot lower. -/
theorem below_ringAt (hb : b < n) (hi : i < n) :
    below n (ringAt n b i) = ringAt n (below n b) i := by
  unfold below ringAt
  split_ifs <;> omega

theorem ringAt_below_succ (hb : b < n) (hi : i + 1 < n) :
    ringAt n (below n b) (i + 1) = ringAt n b i := by
  unfold below ringAt
  split_ifs <;> omega

/-- The slot below `b` is the last one up from `b`. -/
theorem ringAt_last (hb : b < n) : ringAt n b (n - 1) = below n b := by
  unfold below ringAt
  split_ifs <;> omega

theorem above_lt (hr : r < n) : above n r < n := by
  unfold above
  split <;> omega

/-- One slot further up from `b`. -/
theorem above_ringAt (hb : b < n) (hi : i + 1 < n) : above n (ringAt n b i) = ringAt n b (i + 1) := by
  unfold above ringAt
  split_ifs <;> omega

/-- To start one slot higher is to go one slot further. -/
theorem ringAt_above (hb : b < n) (hi : i + 1 < n) : ringAt n (above n b) i = ringAt n b (i + 1) := by
  unfold above ringAt
  split_ifs <;> omega

/-- Every slot is some way up from `b`. -/
theorem exists_ringAt (hb : b < n) (hr : r < n) : ∃ i, i < n ∧ ringAt n b i = r := by
  by_cases h : b ≤ r
  · refine ⟨r - b, by omega, ?_⟩
    unfold ringAt
    split_ifs <;> omega
  · refine ⟨r + n - b, by omega, ?_⟩
    unfold ringAt
    split_ifs <;> omega

/-- Where a number of steps down lead. -/
theorem below_iterate (hr : r < n) (hk : k < n) :
    (below n)^[k] r = if k ≤ r then r - k else r + n - k := by
  induction k with
  | zero => simp
  | succ k ih =>
      rw [Function.iterate_succ_apply', ih (by omega)]
      unfold below
      split_ifs <;> omega

/-- Less than a full turn of steps down leads to different slots. -/
theorem below_iterate_inj (hr : r < n) (hj : j < n) (hk : k < n) :
    (below n)^[j] r = (below n)^[k] r ↔ j = k := by
  rw [below_iterate hr hj, below_iterate hr hk]
  split_ifs <;> omega

end Positions

/-- The entries of a ring, from the last slot up from `b` down to `b`. -/
def ringList {α : Type*} (n b : Nat) (f : Nat → Option α) : List α :=
  (List.range n).reverse.filterMap fun i => f (ringAt n b i)

section Entries

variable {α : Type*} {n b i j s : Nat} {f : Nat → Option α} {x : α}

theorem mem_ringList : x ∈ ringList n b f ↔ ∃ i, i < n ∧ f (ringAt n b i) = some x := by
  simp [ringList, List.mem_filterMap]

theorem mem_ringList_slot (hb : b < n) :
    x ∈ ringList n b f ↔ ∃ r, r < n ∧ f r = some x := by
  rw [mem_ringList]
  constructor
  · intro h
    obtain ⟨i, hi, hx⟩ := h
    exact ⟨ringAt n b i, ringAt_lt hb hi, hx⟩
  · intro h
    obtain ⟨r, hr, hx⟩ := h
    obtain ⟨i, hi, rfl⟩ := exists_ringAt hb hr
    exact ⟨i, hi, hx⟩

theorem ringList_eq_nil : ringList n b f = [] ↔ ∀ i, i < n → f (ringAt n b i) = none := by
  rw [List.eq_nil_iff_forall_not_mem]
  constructor
  · intro hno i hi
    cases hx : f (ringAt n b i) with
    | none => rfl
    | some x => exact absurd (mem_ringList.mpr ⟨i, hi, hx⟩) (hno x)
  · intro hnone x hx
    obtain ⟨i, hi, hix⟩ := mem_ringList.mp hx
    rw [hnone i hi] at hix
    cases hix

theorem ringList_eq_nil_slot (hb : b < n) : ringList n b f = [] ↔ ∀ r, r < n → f r = none := by
  rw [ringList_eq_nil]
  constructor
  · intro h r hr
    obtain ⟨i, hi, rfl⟩ := exists_ringAt hb hr
    exact h i hi
  · intro h i hi
    exact h _ (ringAt_lt hb hi)

/-- The list starts with the last slot. -/
theorem ringList_cons (n b : Nat) (f : Nat → Option α) :
    ringList (n + 1) b f = (f (ringAt (n + 1) b n)).toList ++
      (List.range n).reverse.filterMap fun i => f (ringAt (n + 1) b i) := by
  unfold ringList
  rw [List.range_succ, List.reverse_append, List.filterMap_append]
  cases hx : f (ringAt (n + 1) b n) with
  | none => simp [hx]
  | some x => simp [hx]

/-- The list ends with the first slot. -/
theorem ringList_snoc (n b : Nat) (f : Nat → Option α) :
    ringList (n + 1) b f = ((List.range n).reverse.filterMap fun i =>
      f (ringAt (n + 1) b (i + 1))) ++ (f (ringAt (n + 1) b 0)).toList := by
  unfold ringList
  rw [List.range_succ_eq_map, List.reverse_cons, List.filterMap_append, ← List.map_reverse,
    List.filterMap_map]
  cases hx : f (ringAt (n + 1) b 0) with
  | none => simp [hx]
  | some x => simp [hx]

/-- A ring whose slot below `b` is empty may be read from there as well. -/
theorem ringList_below (hb : b < n) (hnone : f (below n b) = none) :
    ringList n (below n b) f = ringList n b f := by
  obtain ⟨k, rfl⟩ : ∃ k, n = k + 1 := ⟨n - 1, by omega⟩
  rw [ringList_snoc, ringList_cons, ringAt_zero (below_lt (by omega) hb), hnone]
  rw [show ringAt (k + 1) b k = below (k + 1) b from ringAt_last hb, hnone]
  simp only [Option.toList_none, List.append_nil, List.nil_append]
  apply List.filterMap_congr
  intro i hi
  rw [List.mem_reverse, List.mem_range] at hi
  rw [ringAt_below_succ hb (by omega)]

/-- An entry put into the first slot comes last. -/
theorem ringList_push (hb : b < n) (hnone : f b = none) :
    ringList n b (Function.update f b (some x)) = ringList n b f ++ [x] := by
  obtain ⟨k, rfl⟩ : ∃ k, n = k + 1 := ⟨n - 1, by omega⟩
  rw [ringList_snoc, ringList_snoc, ringAt_zero hb, hnone, Function.update_self]
  simp only [Option.toList_some, Option.toList_none, List.append_nil]
  congr 1
  apply List.filterMap_congr
  intro i hi
  rw [List.mem_reverse, List.mem_range] at hi
  apply Function.update_of_ne
  intro heq
  have hzero := (ringAt_inj (n := k + 1) (b := b) (i := i + 1) (j := 0) (by omega) (by omega)).mp
    (by rw [heq, ringAt_zero hb])
  omega

/-- The entry of the last slot comes first, and is gone when the slot is emptied. -/
theorem ringList_pop (hb : b < n) (hsome : f (below n b) = some x) :
    ringList n b f = x :: ringList n b (Function.update f (below n b) none) := by
  obtain ⟨k, rfl⟩ : ∃ k, n = k + 1 := ⟨n - 1, by omega⟩
  have hlast : ringAt (k + 1) b k = below (k + 1) b := ringAt_last hb
  rw [ringList_cons, ringList_cons, hlast, hsome, Function.update_self]
  simp only [Option.toList_some, Option.toList_none, List.nil_append, List.singleton_append]
  congr 1
  apply List.filterMap_congr
  intro i hi
  rw [List.mem_reverse, List.mem_range] at hi
  symm
  apply Function.update_of_ne
  rw [← hlast, ne_eq, ringAt_inj (by omega) (by omega)]
  omega

/-- Empty slots at the start may be skipped. -/
theorem ringList_rotate (hb : b < n) (hj : j < n)
    (hnone : ∀ i, i < j → f (ringAt n b i) = none) :
    ringList n (ringAt n b j) f = ringList n b f := by
  induction j with
  | zero => rw [ringAt_zero hb]
  | succ j ih =>
      have hbelow : below n (ringAt n b (j + 1)) = ringAt n b j := by
        rw [below_ringAt hb hj, ringAt_below_succ hb hj]
      rw [← ih (by omega) fun i hi => hnone i (by omega), ← hbelow]
      exact (ringList_below (ringAt_lt hb hj) (by rw [hbelow]; exact hnone j (by omega))).symm

/-- The only entry of a ring. -/
theorem ringList_single {r : Nat} (hb : b < n) (hr : r < n) (hnil : ringList n b f = []) :
    ringList n b (Function.update f r (some x)) = [x] := by
  have hnone := (ringList_eq_nil_slot hb).mp hnil
  obtain ⟨j, hj, rfl⟩ := exists_ringAt hb hr
  have hskip : ringList n (ringAt n b j) f = ringList n b f :=
    ringList_rotate hb hj fun i hi => hnone _ (ringAt_lt hb (by omega))
  have hskip' : ringList n (ringAt n b j) (Function.update f (ringAt n b j) (some x)) =
      ringList n b (Function.update f (ringAt n b j) (some x)) := by
    refine ringList_rotate hb hj fun i hi => ?_
    rw [Function.update_of_ne, hnone _ (ringAt_lt hb (by omega))]
    rw [ne_eq, ringAt_inj (by omega) hj]
    omega
  calc ringList n b (Function.update f (ringAt n b j) (some x))
      = ringList n (ringAt n b j) (Function.update f (ringAt n b j) (some x)) := hskip'.symm
    _ = ringList n (ringAt n b j) f ++ [x] := ringList_push hr (hnone _ hr)
    _ = [x] := by rw [hskip, hnil]; rfl

/-- In a ring whose entries differ each is in one slot only. -/
theorem ringList_unique {r : Nat} (hnd : (ringList n b f).Nodup) (hb : b < n) (hr : r < n)
    (hs : s < n) (hfr : f r = some x) (hfs : f s = some x) : r = s := by
  obtain ⟨i, hi, rfl⟩ := exists_ringAt hb hr
  obtain ⟨j, hj, rfl⟩ := exists_ringAt hb hs
  unfold ringList at hnd
  rw [List.Nodup, List.pairwise_filterMap] at hnd
  by_contra hne
  have hij : i ≠ j := fun hij => hne (by rw [hij])
  have hsymm : Std.Symm fun a c => ∀ y ∈ f (ringAt n b a), ∀ z ∈ f (ringAt n b c), y ≠ z :=
    ⟨fun a c h y hy z hz hyz => h z hz y hy hyz.symm⟩
  exact hnd.forall (by simpa using hi) (by simpa using hj) hij x hfr x hfs rfl

end Entries

end Lib
end MultithreadingBible
