import MultithreadingBible.Lib.Recording
import MultithreadingBible.ThreadLib.AssemblyLineSlots

/-!
# Assembly lines: cycles

Where items enter the line between two cycles only, at most one at a time, the slots of the line are
known from the cycles at which the items entered: before cycle `c` the worker `i` stands at the item that
entered `i` cycles earlier.

* `LineEvent` — what happens to the items, in the order of a run.
* `Rotated` — the slots, seen from the boundaries at which the items entered.
* `Logged` — the events so far, seen from the same boundaries.

There is one lemma on each of the two for each thing that happens to the line.
-/

namespace MultithreadingBible
namespace ThreadLib

open Lib

/-- What happens to the items of a line. -/
inductive LineEvent where
  /-- The item `x` is put onto the line. -/
  | entered (x : Nat)
  /-- The engine starts a cycle. -/
  | started
  /-- The worker `i` works on `x`. -/
  | worked (i x : Nat)
  /-- The worker `i` takes `x` off the line. -/
  | removed (i x : Nat)
  deriving DecidableEq

/-- The number of cycles that were started. -/
def cycles (log : List LineEvent) : Nat := log.count .started

/-- What an event adds to the entries, after `k` cycles. -/
def entryOf (k : Nat) : LineEvent → List (Nat × Nat)
  | .entered x => [(x, k)]
  | _ => []

/-- The items that enter, when `k` cycles were started before. -/
def entriesFrom : Nat → List LineEvent → List (Nat × Nat)
  | _, [] => []
  | k, e :: log => entryOf k e ++ entriesFrom (k + cycles [e]) log

/-- The items that entered the line, each with the number of the cycle before which it did. -/
def entries (log : List LineEvent) : List (Nat × Nat) := entriesFrom 0 log

/-- The item an event takes off the line. -/
def LineEvent.removed? : LineEvent → Option Nat
  | .removed _ x => some x
  | _ => none

/-- The items that were taken off the line. -/
def removedItems (log : List LineEvent) : List Nat := log.filterMap LineEvent.removed?

/-- An item enters once; a worker `i` works on it once, in the cycle that comes `i` cycles after the
one it entered before; and the last worker takes it off once, in the cycle in which it works on
it. -/
def Timely (n : Nat) (before : List LineEvent) : LineEvent → Prop
  | .entered x => ∀ k, (x, k) ∉ entries before
  | .started => True
  | .worked i x => .worked i x ∉ before ∧ ∃ k, (x, k) ∈ entries before ∧ cycles before = k + i + 1
  | .removed i x => i + 1 = n ∧ x ∉ removedItems before ∧ .worked i x ∈ before ∧
      ∃ k, (x, k) ∈ entries before ∧ cycles before = k + n

section Log

variable {log : List LineEvent} {e : LineEvent}

theorem entriesFrom_concat (k : Nat) (log : List LineEvent) (e : LineEvent) :
    entriesFrom k (log ++ [e]) = entriesFrom k log ++ entryOf (k + cycles log) e := by
  induction log generalizing k with
  | nil => simp [entriesFrom, cycles]
  | cons e' log ih =>
      have hcycles : cycles (e' :: log) = cycles [e'] + cycles log := by
        rw [cycles, ← List.singleton_append, List.count_append]
        rfl
      rw [List.cons_append, entriesFrom, entriesFrom, ih, List.append_assoc, hcycles, Nat.add_assoc]

theorem entries_concat (log : List LineEvent) (e : LineEvent) :
    entries (log ++ [e]) = entries log ++ entryOf (cycles log) e := by
  rw [entries, entriesFrom_concat, Nat.zero_add]
  rfl

theorem cycles_concat (log : List LineEvent) (e : LineEvent) :
    cycles (log ++ [e]) = cycles log + if e = .started then 1 else 0 := by
  rw [cycles, List.count_append, List.count_singleton, cycles]
  simp

theorem removedItems_concat (log : List LineEvent) (e : LineEvent) :
    removedItems (log ++ [e]) = removedItems log ++ e.removed?.toList := by
  rw [removedItems, List.filterMap_append]
  cases e <;> rfl

end Log

section Entries

variable {n c k x : Nat} {entry : Nat → Option Nat}

/-- The item that entered `i` boundaries before `c`. -/
def ago (entry : Nat → Option Nat) (c i : Nat) : Option Nat := if i ≤ c then entry (c - i) else none

/-- The items that entered at the boundaries before `c`. -/
def upTo (entry : Nat → Option Nat) (c : Nat) : List Nat := (List.range c).filterMap entry

/-- The items that have left the line in cycle `c`, before or after the last worker is done with its
slot. -/
def leftItems (n : Nat) (entry : Nat → Option Nat) (c : Nat) (passed : Bool) : List Nat :=
  upTo entry (if passed then c + 2 - n else c + 1 - n)

theorem ago_eq_some {i : Nat} (h : ago entry c i = some x) : i ≤ c ∧ entry (c - i) = some x := by
  unfold ago at h
  split at h
  · next hi => exact ⟨hi, h⟩
  · cases h

/-- The item that entered at a boundary, seen from a later one. -/
theorem ago_of_entry {i : Nat} (hk : entry k = some x) (hki : k + i = c) : ago entry c i = some x := by
  rw [ago, if_pos (by omega), show c - i = k by omega]
  exact hk

theorem ago_zero : ago entry c 0 = entry c := by
  rw [ago, if_pos (Nat.zero_le c), Nat.sub_zero]

theorem ago_succ {i : Nat} : ago entry (c + 1) (i + 1) = ago entry c i := by
  unfold ago
  simp only [Nat.add_le_add_iff_right, Nat.add_sub_add_right]

theorem mem_upTo : x ∈ upTo entry c ↔ ∃ k, k < c ∧ entry k = some x := by
  simp [upTo, List.mem_filterMap]

theorem upTo_succ : upTo entry (c + 1) = upTo entry c ++ (entry c).toList := by
  rw [upTo, List.range_succ, List.filterMap_append, upTo]
  cases hc : entry c with
  | none => simp [hc]
  | some x => simp [hc]

theorem isPrefix_upTo {c' : Nat} (h : c ≤ c') : upTo entry c <+: upTo entry c' := by
  obtain ⟨d, rfl⟩ := Nat.exists_eq_add_of_le h
  rw [upTo, upTo, List.range_add, List.filterMap_append]
  exact List.prefix_append _ _

/-- A new entry at a boundary does not change the earlier ones. -/
theorem upTo_update {v : Option Nat} {c' : Nat} (h : c' ≤ c) :
    upTo (Function.update entry c v) c' = upTo entry c' := by
  apply List.filterMap_congr
  intro k hk
  have hlt := List.mem_range.mp hk
  rw [Function.update_of_ne (by omega)]

/-- When the last worker is done with its slot, the item that entered `n - 1` boundaries ago has left. -/
theorem leftItems_passed (hn : 0 < n) :
    leftItems n entry c true = leftItems n entry c false ++ (ago entry c (n - 1)).toList := by
  unfold leftItems ago
  rw [if_pos rfl, if_neg Bool.false_ne_true]
  split
  · next hle =>
    rw [show c + 2 - n = (c + 1 - n) + 1 by omega, upTo_succ, show c - (n - 1) = c + 1 - n by omega]
  · next hle =>
    rw [show c + 2 - n = 0 by omega, show c + 1 - n = 0 by omega]
    rfl

theorem leftItems_of_none (hn : 0 < n) (hnone : ago entry c (n - 1) = none) (p q : Bool) :
    leftItems n entry c p = leftItems n entry c q := by
  have hpassed := @leftItems_passed n c entry hn
  rw [hnone, Option.toList_none, List.append_nil] at hpassed
  cases p <;> cases q <;> simp [hpassed]

end Entries

/-- The worker has worked on the item in its slot, if there was one. -/
def Stage.worked : Stage → Bool
  | .rem | .mid | .post => true
  | _ => false

/-- In cycle `c` the worker `i` finds at its slot the item that entered `i` boundaries before. -/
structure Rotated (n : Nat) (entry : Nat → Option Nat) (b c : Nat) (σ : Nat → Stage)
    (m : AssemblyLine) : Prop where
  base : b < n
  random : m.aslQ.randomAccess = true
  slot : ∀ i, i < n → m.currSlot i = if σ i = .post then ringAt n (below n b) i else ringAt n b i
  item : ∀ i, i < n → m.aslQ.elem (ringAt n b i) =
    if i + 1 = n ∧ (σ i).passed = true then none else ago entry c i
  last : ∀ i, i < n → σ i = .rem → i + 1 = n
  full : ∀ i, i < n → σ i = .busy ∨ σ i = .rem → ago entry c i ≠ none
  count : m.aslQ.count + (leftItems n entry c (σ (n - 1)).passed).length = (upTo entry (c + 1)).length
  future : ∀ k, c < k → entry k = none
  once : ∀ k k' x, entry k = some x → entry k' = some x → k = k'

namespace Rotated

variable {n b c i x : Nat} {entry : Nat → Option Nat} {σ : Nat → Stage} {m m' : AssemblyLine}

theorem pos (h : Rotated n entry b c σ m) : 0 < n := by
  have hb := h.base
  omega

/-- What a worker finds that is not done with its slot. -/
theorem elem_currSlot (h : Rotated n entry b c σ m) (hi : i < n) (hσ : (σ i).passed = false) :
    m.currSlot i = ringAt n b i ∧ m.aslQ.elem (m.currSlot i) = ago entry c i := by
  have hpost : σ i ≠ .post := by
    intro hpost
    rw [hpost] at hσ
    cases hσ
  have hslot : m.currSlot i = ringAt n b i := by
    rw [h.slot i hi, if_neg hpost]
  refine ⟨hslot, ?_⟩
  rw [hslot, h.item i hi, if_neg]
  rintro ⟨-, hpassed⟩
  rw [hσ] at hpassed
  cases hpassed

/-- An item is seen from one boundary only. -/
theorem eq_of_ago {k : Nat} (h : Rotated n entry b c σ m) (hx : ago entry c i = some x)
    (hk : entry k = some x) : k + i = c := by
  obtain ⟨hi, hentry⟩ := ago_eq_some hx
  have hsame := h.once k (c - i) x hk hentry
  omega

/-- The slots depend on some of the fields only. -/
theorem congr (h : Rotated n entry b c σ m) (hq : m'.aslQ = m.aslQ) (hslot : m'.currSlot = m.currSlot) :
    Rotated n entry b c σ m' where
  base := h.base
  random := by rw [hq]; exact h.random
  slot := by rw [hslot]; exact h.slot
  item := by rw [hq]; exact h.item
  last := h.last
  full := h.full
  count := by rw [hq]; exact h.count
  future := h.future
  once := h.once

/-- Only the last worker removes. -/
theorem last_update (h : Rotated n entry b c σ m) {st : Stage} (hlast : st = .rem → i + 1 = n) (j : Nat)
    (hj : j < n) (hr : Function.update σ i st j = .rem) : j + 1 = n := by
  by_cases hji : j = i
  · rw [hji, Function.update_self] at hr
    rw [hji]
    exact hlast hr
  · rw [Function.update_of_ne hji] at hr
    exact h.last j hj hr

/-- Whoever works or removes has an item. -/
theorem full_update (h : Rotated n entry b c σ m) {st : Stage}
    (hfull : st = .busy ∨ st = .rem → ago entry c i ≠ none) (j : Nat) (hj : j < n)
    (hf : Function.update σ i st j = .busy ∨ Function.update σ i st j = .rem) :
    ago entry c j ≠ none := by
  by_cases hji : j = i
  · rw [hji, Function.update_self] at hf
    rw [hji]
    exact hfull hf
  · rw [Function.update_of_ne hji] at hf
    exact h.full j hj hf

/-- A worker tests its slot, or works on the item in it. -/
theorem stage (h : Rotated n entry b c σ m) (hi : i < n) (hσ : (σ i).passed = false) {st : Stage}
    (hpost : st ≠ .post) (hlast : st = .rem → i + 1 = n)
    (hfull : st = .busy ∨ st = .rem → ago entry c i ≠ none)
    (hpassed : i + 1 = n → st.passed = true → ago entry c i = none) :
    Rotated n entry b c (Function.update σ i st) m := by
  have hold : σ i ≠ .post := by
    intro hpost
    rw [hpost] at hσ
    cases hσ
  refine ⟨h.base, h.random, fun j hj => ?_, fun j hj => ?_, h.last_update hlast, h.full_update hfull, ?_,
    h.future, h.once⟩
  · rw [h.slot j hj]
    by_cases hji : j = i
    · rw [hji, Function.update_self, if_neg hold, if_neg hpost]
    · rw [Function.update_of_ne hji]
  · rw [h.item j hj]
    by_cases hji : j = i
    · subst hji
      rw [Function.update_self, hσ]
      by_cases hdone : j + 1 = n ∧ st.passed = true
      · rw [if_pos hdone, if_neg (by simp), hpassed hdone.1 hdone.2]
      · rw [if_neg hdone, if_neg (by simp)]
    · rw [Function.update_of_ne hji]
  · rw [← h.count]
    congr 2
    by_cases hn : n - 1 = i
    · rw [hn, Function.update_self, hσ]
      cases hst : st.passed with
      | false => rfl
      | true =>
          -- the last worker found its slot empty
          have hnone := hpassed (by omega) hst
          rw [← hn] at hnone
          exact leftItems_of_none h.pos hnone _ _
    · rw [Function.update_of_ne hn]

/-- A worker has worked on the item in its slot; the last one is going to take it off the line. -/
theorem work (h : Rotated n entry b c σ m) (hi : i < n) (hσ : σ i = .busy) :
    Rotated n entry b c (Function.update σ i (if i = n - 1 then .rem else .mid)) m := by
  refine h.stage hi (by rw [hσ]; rfl) (by split <;> simp) (fun hrem => ?_)
    (fun _ => h.full i hi (.inl hσ)) (fun hlast hdone => ?_)
  · split at hrem
    · omega
    · cases hrem
  · rw [if_pos (by omega)] at hdone
    cases hdone

/-- The last worker takes the item off the line. -/
theorem remove (h : Rotated n entry b c σ m) (hi : i < n) (hσ : σ i = .rem)
    (hitem : m.aslQ.elem (m.currSlot i) = some x) :
    Rotated n entry b c (Function.update σ i .mid)
      { m with
        aslQ := { m.aslQ with
          elem := Function.update m.aslQ.elem (m.currSlot i) none
          count := m.aslQ.count - 1 }
        finished := m.finished ++ [x] } := by
  have hlast := h.last i hi hσ
  have hn : n - 1 = i := by omega
  obtain ⟨hslot, hago⟩ := h.elem_currSlot hi (by rw [hσ]; rfl)
  rw [hago] at hitem
  rw [hslot]
  refine ⟨h.base, h.random, fun j hj => ?_, fun j hj => ?_, h.last_update (by simp),
    h.full_update (by simp), ?_, h.future, h.once⟩
  · show m.currSlot j = _
    rw [h.slot j hj]
    by_cases hji : j = i
    · simp [hji, hσ]
    · rw [Function.update_of_ne hji]
  · show Function.update m.aslQ.elem (ringAt n b i) none (ringAt n b j) = _
    by_cases hji : j = i
    · rw [hji, Function.update_self, Function.update_self, if_pos ⟨hlast, rfl⟩]
    · have hne : ringAt n b j ≠ ringAt n b i := by
        rwa [ne_eq, ringAt_inj hj hi]
      rw [Function.update_of_ne hne, Function.update_of_ne hji, h.item j hj]
  · -- one item fewer, so there was one
    have hcount := h.count
    have hleft := @leftItems_passed n c entry h.pos
    have hle := (@isPrefix_upTo (c + 2 - n) entry (c + 1) (by omega)).length_le
    rw [hn, hitem, Option.toList_some] at hleft
    rw [hn, hσ] at hcount
    rw [hn, Function.update_self]
    have hlength := congrArg List.length hleft
    rw [List.length_append, List.length_singleton] at hlength
    have hle' : (leftItems n entry c true).length ≤ (upTo entry (c + 1)).length := hle
    change m.aslQ.count + (leftItems n entry c false).length = _ at hcount
    show m.aslQ.count - 1 + (leftItems n entry c true).length = _
    omega

/-- A worker moves to its next slot. -/
theorem decrement (h : Rotated n entry b c σ m) (hi : i < n) (hσ : σ i = .mid) :
    Rotated n entry b c (Function.update σ i .post)
      { m with currSlot := Function.update m.currSlot i (below n (m.currSlot i)) } := by
  have hpassed : ∀ j, (Function.update σ i .post j).passed = (σ j).passed := by
    intro j
    by_cases hji : j = i
    · rw [hji, Function.update_self, hσ]
      rfl
    · rw [Function.update_of_ne hji]
  refine ⟨h.base, h.random, fun j hj => ?_, fun j hj => ?_, h.last_update (by simp),
    h.full_update (by simp), ?_, h.future, h.once⟩
  · show Function.update m.currSlot i _ j = _
    by_cases hji : j = i
    · rw [hji, Function.update_self, Function.update_self, if_pos rfl, h.slot i hi, hσ, if_neg (by simp),
        below_ringAt h.base hi]
    · rw [Function.update_of_ne hji, Function.update_of_ne hji, h.slot j hj]
  · rw [hpassed]
    exact h.item j hj
  · rw [hpassed]
    exact h.count

/-- All workers are at their next slots, and the cycle ends. -/
theorem turn (h : Rotated n entry b c σ m) (hpost : ∀ i, i < n → σ i = .post) :
    Rotated n entry (below n b) (c + 1) (fun _ => .pre) m := by
  have hb := h.base
  have hlast : σ (n - 1) = .post := hpost (n - 1) (by omega)
  have hnext : entry (c + 1) = none := h.future (c + 1) (Nat.lt_succ_self c)
  refine ⟨below_lt (by omega) hb, h.random, fun j hj => ?_, fun j hj => ?_, fun j _ hr => (by cases hr),
    fun j _ hf => (by simp at hf), ?_, fun k hk => h.future k (by omega), h.once⟩
  · rw [h.slot j hj, if_pos (hpost j hj), if_neg (by simp)]
  · rw [if_neg (by simp [Stage.passed])]
    cases j with
    | zero =>
        -- the slot behind the last worker is now before the first
        rw [ringAt_zero (below_lt (by omega) hb), ← ringAt_last hb, h.item (n - 1) (by omega),
          if_pos ⟨by omega, by rw [hlast]; rfl⟩, ago_zero, hnext]
    | succ j =>
        rw [ringAt_below_succ hb hj, h.item j (by omega), if_neg (by omega), ago_succ]
  -- nothing enters at the boundary by itself
  · have hcount := h.count
    rw [hlast] at hcount
    rw [upTo_succ, hnext, Option.toList_none, List.append_nil, ← hcount]
    rfl

/-- An item is put into the slot of the first worker before a cycle. -/
theorem enter (h : Rotated n entry b c (fun _ => .pre) m) (pushed : Nat) (hnone : entry c = none)
    (hnew : ∀ k, entry k ≠ some x) :
    Rotated n (Function.update entry c (some x)) b c (fun _ => .pre)
      { m with
        aslQ := { m.aslQ with
          elem := Function.update m.aslQ.elem (m.currSlot 0) (some x)
          count := m.aslQ.count + 1 }
        pushed := pushed } := by
  have hslot : m.currSlot 0 = ringAt n b 0 := (h.elem_currSlot h.pos rfl).1
  refine ⟨h.base, h.random, h.slot, fun j hj => ?_, fun j _ hr => (by cases hr),
    fun j _ hf => (by simp at hf), ?_, fun k hk => ?_, fun k k' y hk hk' => ?_⟩
  · rw [if_neg (by simp [Stage.passed])]
    show Function.update m.aslQ.elem (m.currSlot 0) (some x) (ringAt n b j) = _
    rw [hslot]
    by_cases hj0 : j = 0
    · rw [hj0, Function.update_self, ago_zero, Function.update_self]
    · have hne : ringAt n b j ≠ ringAt n b 0 := by
        rwa [ne_eq, ringAt_inj hj h.pos]
      rw [Function.update_of_ne hne, h.item j hj, if_neg (by simp [Stage.passed])]
      unfold ago
      split
      · rw [Function.update_of_ne (by omega)]
      · rfl
  -- one item more on both sides
  · have hcount := h.count
    rw [upTo_succ, hnone, Option.toList_none, List.append_nil] at hcount
    have hleft : leftItems n (Function.update entry c (some x)) c false = leftItems n entry c false :=
      upTo_update (by have hpos := h.pos; simp only [Bool.false_eq_true, if_false]; omega)
    show m.aslQ.count + 1 + (leftItems n (Function.update entry c (some x)) c false).length = _
    change m.aslQ.count + (leftItems n entry c false).length = _ at hcount
    rw [hleft, upTo_succ, upTo_update (le_refl c), Function.update_self, Option.toList_some,
      List.length_append, List.length_singleton]
    omega
  · rw [Function.update_of_ne (by omega)]
    exact h.future k hk
  · by_cases hkc : k = c
    · by_cases hkc' : k' = c
      · rw [hkc, hkc']
      · rw [hkc, Function.update_self] at hk
        rw [Function.update_of_ne hkc'] at hk'
        exact absurd (hk'.trans hk.symm) (hnew k')
    · rw [Function.update_of_ne hkc] at hk
      by_cases hkc' : k' = c
      · rw [hkc', Function.update_self] at hk'
        exact absurd (hk.trans hk'.symm) (hnew k)
      · rw [Function.update_of_ne hkc'] at hk'
        exact h.once k k' y hk hk'

end Rotated

/-- The events up to cycle `c`, of items that entered at the boundaries `entry`. -/
structure Logged (n : Nat) (entry : Nat → Option Nat) (c : Nat) (σ : Nat → Stage)
    (log : List LineEvent) : Prop where
  entered : ∀ x k, (x, k) ∈ entries log ↔ entry k = some x
  items : (entries log).map Prod.fst = upTo entry (c + 1)
  removed : removedItems log = leftItems n entry c (σ (n - 1)).passed
  worked : ∀ k x i, entry k = some x → i < n →
    (.worked i x ∈ log ↔ k + i < c ∨ k + i = c ∧ (σ i).worked = true)
  known : ∀ i x, .worked i x ∈ log → ∃ k, entry k = some x
  timely : EachAfter (Timely n) log

namespace Logged

variable {n b c i x : Nat} {entry : Nat → Option Nat} {σ : Nat → Stage} {m : AssemblyLine}
  {log : List LineEvent}

/-- A worker goes on, and nothing happens to an item. -/
theorem stage (h : Logged n entry c σ log) (hline : Rotated n entry b c σ m) {st : Stage}
    (hsame : st.worked = (σ i).worked ∧ st.passed = (σ i).passed ∨ ago entry c i = none) :
    Logged n entry c (Function.update σ i st) log where
  entered := h.entered
  items := h.items
  removed := by
    rw [h.removed]
    by_cases hn : n - 1 = i
    · rw [hn, Function.update_self]
      rcases hsame with ⟨-, hpassed⟩ | hnone
      · rw [hpassed]
      · rw [← hn] at hnone
        exact leftItems_of_none hline.pos hnone _ _
    · rw [Function.update_of_ne hn]
  worked k y j hk hj := by
    rw [h.worked k y j hk hj]
    by_cases hji : j = i
    · rw [hji, Function.update_self]
      rcases hsame with ⟨hworked, -⟩ | hnone
      · rw [hworked]
      · have hne : k + i ≠ c := by
          intro hki
          rw [ago_of_entry hk hki] at hnone
          cases hnone
        simp [hne]
    · rw [Function.update_of_ne hji]
  known := h.known
  timely := h.timely

/-- A worker works on the item in its slot. -/
theorem work (h : Logged n entry c σ log) (hline : Rotated n entry b c σ m) (hi : i < n)
    (hσ : σ i = .busy) (hitem : ago entry c i = some x) (hcycles : cycles log = c + 1) :
    Logged n entry c (Function.update σ i (if i = n - 1 then .rem else .mid)) (log ++ [.worked i x]) := by
  obtain ⟨hle, hentry⟩ := ago_eq_some hitem
  have hentries : entries (log ++ [.worked i x]) = entries log := by
    rw [entries_concat]
    exact List.append_nil _
  refine ⟨?_, ?_, ?_, fun k y j hk hj => ?_, fun j y hin => ?_, h.timely.concat ⟨?_, c - i, ?_, ?_⟩⟩
  · rw [hentries]
    exact h.entered
  · rw [hentries]
    exact h.items
  · rw [removedItems_concat]
    show removedItems log ++ [] = _
    rw [List.append_nil, h.removed]
    by_cases hn : n - 1 = i
    · rw [hn, Function.update_self, if_pos rfl, hσ]
      rfl
    · rw [Function.update_of_ne hn]
  · rw [List.mem_append, h.worked k y j hk hj, List.mem_singleton, LineEvent.worked.injEq]
    by_cases hji : j = i
    · have hdone : (if i = n - 1 then Stage.rem else .mid).worked = true := by
        split <;> rfl
      rw [hji, Function.update_self, hdone, hσ]
      constructor
      · rintro ((hlt | ⟨-, hno⟩) | ⟨-, hyx⟩)
        · exact .inl hlt
        · cases hno
        · rw [hyx] at hk
          exact .inr ⟨hline.eq_of_ago hitem hk, rfl⟩
      · rintro (hlt | ⟨hki, -⟩)
        · exact .inl (.inl hlt)
        · rw [ago_of_entry hk hki] at hitem
          exact .inr ⟨rfl, Option.some.inj hitem⟩
    · rw [Function.update_of_ne hji]
      simp [hji]
  · rcases List.mem_append.mp hin with hin | hin
    · exact h.known j y hin
    · rw [List.mem_singleton, LineEvent.worked.injEq] at hin
      exact ⟨c - i, hin.2 ▸ hentry⟩
  · rw [h.worked (c - i) x i hentry hi, hσ]
    rintro (hlt | ⟨-, hno⟩)
    · omega
    · cases hno
  · exact (h.entered x (c - i)).mpr hentry
  · rw [hcycles]
    omega

/-- The last worker takes the item off the line. -/
theorem remove (h : Logged n entry c σ log) (hline : Rotated n entry b c σ m) (hi : i < n)
    (hσ : σ i = .rem) (hitem : ago entry c i = some x) (hcycles : cycles log = c + 1) :
    Logged n entry c (Function.update σ i .mid) (log ++ [.removed i x]) := by
  have hlast := hline.last i hi hσ
  have hn : n - 1 = i := by omega
  obtain ⟨hle, hentry⟩ := ago_eq_some hitem
  have hentries : entries (log ++ [.removed i x]) = entries log := by
    rw [entries_concat]
    exact List.append_nil _
  have hremoved := h.removed
  rw [hn, hσ] at hremoved
  change removedItems log = leftItems n entry c false at hremoved
  refine ⟨?_, ?_, ?_, fun k y j hk hj => ?_, fun j y hin => ?_,
    h.timely.concat ⟨hlast, ?_, ?_, c - i, ?_, ?_⟩⟩
  · rw [hentries]
    exact h.entered
  · rw [hentries]
    exact h.items
  · have hleft := @leftItems_passed n c entry hline.pos
    rw [hn, hitem, ← hremoved] at hleft
    rw [removedItems_concat, hn, Function.update_self]
    exact hleft.symm
  · rw [List.mem_append, h.worked k y j hk hj]
    by_cases hji : j = i
    · simp [hji, hσ, Stage.worked]
    · simp [hji]
  · rcases List.mem_append.mp hin with hin | hin
    · exact h.known j y hin
    · simp at hin
  · -- what has left entered at an earlier boundary
    rw [hremoved, leftItems, mem_upTo]
    rintro ⟨k, hk, hkx⟩
    have hki := hline.eq_of_ago hitem hkx
    rw [if_neg Bool.false_ne_true] at hk
    omega
  · exact (h.worked (c - i) x i hentry hi).mpr (.inr ⟨by omega, by rw [hσ]; rfl⟩)
  · exact (h.entered x (c - i)).mpr hentry
  · rw [hcycles]
    omega

/-- A cycle ends. -/
theorem turn (h : Logged n entry c σ log) (hline : Rotated n entry b c σ m)
    (hpost : ∀ i, i < n → σ i = .post) : Logged n entry (c + 1) (fun _ => .pre) log where
  entered := h.entered
  items := by
    rw [upTo_succ, hline.future (c + 1) (Nat.lt_succ_self c), Option.toList_none, List.append_nil]
    exact h.items
  removed := by
    have hpos := hline.pos
    rw [h.removed, hpost (n - 1) (by omega)]
    rfl
  worked k y j hk hj := by
    rw [h.worked k y j hk hj, hpost j hj]
    simp only [Stage.worked, Bool.false_eq_true, and_false, and_true, or_false]
    omega
  known := h.known
  timely := h.timely

/-- A cycle is started. -/
theorem start (h : Logged n entry c σ log) : Logged n entry c σ (log ++ [.started]) where
  entered := by
    rw [entries_concat]
    simpa [entryOf] using h.entered
  items := by
    rw [entries_concat]
    simpa [entryOf] using h.items
  removed := by
    rw [removedItems_concat]
    simpa [LineEvent.removed?] using h.removed
  worked k y j hk hj := by
    rw [← h.worked k y j hk hj]
    simp
  known j y hin := h.known j y (by simpa using hin)
  timely := h.timely.concat trivial

/-- An item enters before a cycle. -/
theorem enter (h : Logged n entry c (fun _ => .pre) log) (hn : 0 < n) (hcycles : cycles log = c)
    (hnone : entry c = none) (hnew : ∀ k, entry k ≠ some x) :
    Logged n (Function.update entry c (some x)) c (fun _ => .pre) (log ++ [.entered x]) := by
  have hentries : entries (log ++ [.entered x]) = entries log ++ [(x, c)] := by
    rw [entries_concat, hcycles]
    rfl
  refine ⟨fun y k => ?_, ?_, ?_, fun k y j hk hj => ?_, fun j y hin => ?_, h.timely.concat ?_⟩
  · rw [hentries, List.mem_append, h.entered y k, List.mem_singleton, Prod.mk.injEq]
    by_cases hkc : k = c
    · rw [hkc, Function.update_self, hnone, Option.some_inj]
      simp [eq_comm]
    · rw [Function.update_of_ne hkc]
      simp [hkc]
  · rw [hentries, List.map_append, h.items, upTo_succ, upTo_succ, upTo_update (le_refl c), hnone,
      Function.update_self]
    simp
  · rw [removedItems_concat]
    show removedItems log ++ [] = upTo _ (c + 1 - n)
    rw [List.append_nil, upTo_update (by omega)]
    exact h.removed
  · have hin : .worked j y ∈ log ++ [.entered x] ↔ .worked j y ∈ log := by simp
    rw [hin]
    by_cases hkc : k = c
    · rw [hkc, Function.update_self, Option.some_inj] at hk
      rw [hkc]
      constructor
      · intro hworked
        obtain ⟨k', hk'⟩ := h.known j y hworked
        rw [← hk] at hk'
        exact absurd hk' (hnew k')
      · rintro (hlt | ⟨-, hno⟩)
        · omega
        · cases hno
    · rw [Function.update_of_ne hkc] at hk
      exact h.worked k y j hk hj
  · have hin' : .worked j y ∈ log := by simpa using hin
    obtain ⟨k, hk⟩ := h.known j y hin'
    have hkc : k ≠ c := by
      rintro rfl
      rw [hnone] at hk
      cases hk
    exact ⟨k, by rw [Function.update_of_ne hkc]; exact hk⟩
  · intro k hk
    exact hnew k ((h.entered x k).mp hk)

end Logged

end ThreadLib
end MultithreadingBible
