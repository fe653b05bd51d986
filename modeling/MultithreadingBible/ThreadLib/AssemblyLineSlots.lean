import MultithreadingBible.ThreadLib.AssemblyLine

/-!
# Assembly lines: the slots

`LineOk n b ws σ m` relates the slots of an assembly line to the stages `σ` the workers are in within
the current cycle, in which worker `i` started at the slot `i` up from `b`: where the workers stand,
how far each item has come, and that the finished items, those on the line and the waiting ones `ws`
are the pushed ones in order.  There is one lemma for each thing that happens to the line.
-/

namespace MultithreadingBible
namespace ThreadLib

open Lib

/-- Where a worker is within a cycle. -/
inductive Stage where
  /-- Before the test of its slot. -/
  | pre
  /-- With an item, before its work. -/
  | busy
  /-- The last worker with an item it has worked on. -/
  | rem
  /-- Done with its slot, before it moves. -/
  | mid
  /-- At its next slot. -/
  | post
  deriving DecidableEq

/-- The worker will not touch its slot any more. -/
def Stage.passed : Stage → Bool
  | .mid | .post => true
  | _ => false

/-- How many work functions the item in the slot of worker `i` has met.  Behind the last worker only
an item pushed in this cycle can be there. -/
def worksDone (n i : Nat) : Stage → Nat
  | .pre | .busy => i
  | .rem => i + 1
  | .mid | .post => if i + 1 = n then 0 else i + 1

/-- The items on the line, oldest first. -/
def lineItems (n b : Nat) (σ : Nat → Stage) (m : AssemblyLine) : List Nat :=
  ringList n (if (σ (n - 1)).passed then below n b else b) m.aslQ.elem

/-- The slots, the workers and the items fit together. -/
structure LineOk (n b : Nat) (ws : List Nat) (σ : Nat → Stage) (m : AssemblyLine) : Prop where
  base : b < n
  random : m.aslQ.randomAccess = true
  slot : ∀ i, i < n → m.currSlot i = if σ i = .post then ringAt n (below n b) i else ringAt n b i
  last : ∀ i, i < n → σ i = .rem → i + 1 = n
  full : ∀ i, i < n → σ i = .busy ∨ σ i = .rem → m.aslQ.elem (ringAt n b i) ≠ none
  worked : ∀ i, i < n → ∀ x, m.aslQ.elem (ringAt n b i) = some x →
    m.works x = List.range (worksDone n i (σ i))
  /-- The slot for the next item is free, unless the first worker stands there and nobody waits. -/
  next : (σ (n - 1)).passed = true → m.aslQ.elem (below n b) ≠ none → σ 0 = .post ∧ ws = []
  count : m.aslQ.count = (lineItems n b σ m).length
  order : m.finished ++ lineItems n b σ m ++ ws = List.range m.pushed
  finished : ∀ x, x ∈ m.finished → m.works x = List.range n
  fresh : ∀ x, x ∉ m.finished → x ∉ lineItems n b σ m → m.works x = []

namespace LineOk

variable {n b i x : Nat} {ws : List Nat} {σ σ' : Nat → Stage} {m m' : AssemblyLine}

theorem items_base (h : LineOk n b ws σ m) :
    (if (σ (n - 1)).passed then below n b else b) < n := by
  have hb := h.base
  split
  · exact below_lt (by omega) hb
  · exact hb

theorem mem_items (h : LineOk n b ws σ m) :
    x ∈ lineItems n b σ m ↔ ∃ i, i < n ∧ m.aslQ.elem (ringAt n b i) = some x := by
  unfold lineItems
  rw [mem_ringList_slot h.items_base]
  constructor
  · intro hx
    obtain ⟨r, hr, hx⟩ := hx
    obtain ⟨i, hi, rfl⟩ := exists_ringAt h.base hr
    exact ⟨i, hi, hx⟩
  · intro hx
    obtain ⟨i, hi, hx⟩ := hx
    exact ⟨_, ringAt_lt h.base hi, hx⟩

theorem items_eq_nil (h : LineOk n b ws σ m) :
    lineItems n b σ m = [] ↔ ∀ r, r < n → m.aslQ.elem r = none :=
  ringList_eq_nil_slot h.items_base

theorem count_eq_zero (h : LineOk n b ws σ m) : m.aslQ.count = 0 ↔ lineItems n b σ m = [] := by
  rw [h.count, List.length_eq_zero_iff]

/-- Every item is pushed once. -/
theorem nodup (h : LineOk n b ws σ m) : (m.finished ++ lineItems n b σ m ++ ws).Nodup := by
  rw [h.order]
  exact List.nodup_range

theorem items_nodup (h : LineOk n b ws σ m) : (lineItems n b σ m).Nodup :=
  (List.nodup_append.mp (List.nodup_append.mp h.nodup).1).2.1

theorem not_finished (h : LineOk n b ws σ m) (hx : x ∈ lineItems n b σ m) : x ∉ m.finished :=
  fun hfin => (List.nodup_append.mp (List.nodup_append.mp h.nodup).1).2.2 x hfin x hx rfl

/-- An item is in one slot only. -/
theorem slot_unique (h : LineOk n b ws σ m) {j : Nat} (hi : i < n) (hj : j < n)
    (hxi : m.aslQ.elem (ringAt n b i) = some x) (hxj : m.aslQ.elem (ringAt n b j) = some x) :
    i = j := by
  have hslot := ringList_unique h.items_nodup h.items_base (ringAt_lt h.base hi)
    (ringAt_lt h.base hj) hxi hxj
  exact (ringAt_inj hi hj).mp hslot

/-- Where a worker stands that has not moved yet. -/
theorem slot_eq (h : LineOk n b ws σ m) (hi : i < n) (hσ : σ i ≠ .post) :
    m.currSlot i = ringAt n b i := by
  rw [h.slot i hi, if_neg hσ]

/-- The first worker stands at a slot. -/
theorem currSlot_lt (h : LineOk n b ws σ m) : m.currSlot 0 < n := by
  have hb := h.base
  rw [h.slot 0 (by omega)]
  split
  · exact ringAt_lt (below_lt (by omega) hb) (by omega)
  · exact ringAt_lt hb (by omega)

/-- The line depends on some of the fields only. -/
theorem congr (h : LineOk n b ws σ m) (hq : m'.aslQ = m.aslQ) (hslot : m'.currSlot = m.currSlot)
    (hpushed : m'.pushed = m.pushed) (hworks : m'.works = m.works)
    (hfinished : m'.finished = m.finished) : LineOk n b ws σ m' := by
  have hitems : lineItems n b σ m' = lineItems n b σ m := by
    unfold lineItems
    rw [hq]
  constructor
  · exact h.base
  · rw [hq]
    exact h.random
  · rw [hslot]
    exact h.slot
  · exact h.last
  · rw [hq]
    exact h.full
  · rw [hq, hworks]
    exact h.worked
  · rw [hq]
    exact h.next
  · rw [hitems, hq]
    exact h.count
  · rw [hitems, hfinished, hpushed]
    exact h.order
  · rw [hfinished, hworks]
    exact h.finished
  · rw [hitems, hfinished, hworks]
    exact h.fresh

/-- The last worker counts as passed as before. -/
theorem passed_update (n : Nat) (st : Stage) (hst : i = n - 1 → st.passed = (σ i).passed) :
    (Function.update σ i st (n - 1)).passed = (σ (n - 1)).passed := by
  by_cases hlast : n - 1 = i
  · rw [hlast, Function.update_self, hst hlast.symm]
  · rw [Function.update_of_ne hlast]

/-- A worker tests its slot. -/
theorem test (h : LineOk n b ws σ m) (hi : i < n) (hσ : σ i = .pre) :
    LineOk n b ws
      (Function.update σ i (if (m.aslQ.elem (m.currSlot i)).isSome then .busy else .mid)) m := by
  rw [h.slot_eq hi (by simp [hσ])]
  cases hslot : m.aslQ.elem (ringAt n b i) with
  | some y =>
      have hpassed := passed_update n .busy (σ := σ) (i := i) fun _ => by rw [hσ]; rfl
      have hitems : lineItems n b (Function.update σ i .busy) m = lineItems n b σ m := by
        unfold lineItems
        rw [hpassed]
      refine ⟨h.base, h.random, fun j hj => ?_, fun j hj hr => ?_, fun j hj hf => ?_,
        fun j hj x hx => ?_, fun hp hne => ?_, hitems ▸ h.count, hitems ▸ h.order, h.finished,
        hitems ▸ h.fresh⟩
      · rw [h.slot j hj]
        by_cases hji : j = i
        · simp [hji, hσ]
        · simp [hji]
      · by_cases hji : j = i
        · simp [hji] at hr
        · exact h.last j hj (by simpa [hji] using hr)
      · by_cases hji : j = i
        · rw [hji, hslot]
          simp
        · exact h.full j hj (by simpa [hji] using hf)
      · rw [h.worked j hj x hx]
        by_cases hji : j = i
        · simp [hji, hσ, worksDone]
        · simp [hji]
      · obtain ⟨hpost, hws⟩ := h.next (by simpa [hpassed] using hp) hne
        have hzero : 0 ≠ i := by
          rintro rfl
          rw [hσ] at hpost
          cases hpost
        exact ⟨by simpa [hzero] using hpost, hws⟩
  | none =>
      -- behind the last worker the ring is read from one slot lower
      have hitems : lineItems n b (Function.update σ i .mid) m = lineItems n b σ m := by
        unfold lineItems
        by_cases hlast : n - 1 = i
        · rw [hlast, Function.update_self, hσ]
          refine ringList_below h.base ?_
          rw [← ringAt_last h.base, hlast, hslot]
        · rw [Function.update_of_ne hlast]
      refine ⟨h.base, h.random, fun j hj => ?_, fun j hj hr => ?_, fun j hj hf => ?_,
        fun j hj x hx => ?_, fun hp hne => ?_, hitems ▸ h.count, hitems ▸ h.order, h.finished,
        hitems ▸ h.fresh⟩
      · rw [h.slot j hj]
        by_cases hji : j = i
        · simp [hji, hσ]
        · simp [hji]
      · by_cases hji : j = i
        · simp [hji] at hr
        · exact h.last j hj (by simpa [hji] using hr)
      · by_cases hji : j = i
        · simp [hji] at hf
        · exact h.full j hj (by simpa [hji] using hf)
      · have hji : j ≠ i := by
          rintro rfl
          rw [hslot] at hx
          cases hx
        rw [h.worked j hj x hx, Function.update_of_ne hji]
      · have hlast : n - 1 ≠ i := by
          intro hlast
          rw [← ringAt_last h.base, hlast, hslot] at hne
          exact hne rfl
        rw [Function.update_of_ne hlast] at hp
        obtain ⟨hpost, hws⟩ := h.next hp hne
        have hzero : 0 ≠ i := by
          rintro rfl
          rw [hσ] at hpost
          cases hpost
        exact ⟨by simpa [hzero] using hpost, hws⟩

/-- A worker works on the item in its slot. -/
theorem work (h : LineOk n b ws σ m) (hi : i < n) (hσ : σ i = .busy)
    (hitem : m.aslQ.elem (m.currSlot i) = some x) :
    LineOk n b ws (Function.update σ i (if i = n - 1 then .rem else .mid))
      { m with works := Function.update m.works x (m.works x ++ [i]) } := by
  rw [h.slot_eq hi (by simp [hσ])] at hitem
  have hpassed := passed_update n (if i = n - 1 then .rem else .mid) (σ := σ) (i := i)
    fun hlast => by rw [if_pos hlast, hσ]; rfl
  have hitems : lineItems n b (Function.update σ i (if i = n - 1 then .rem else .mid))
      { m with works := Function.update m.works x (m.works x ++ [i]) } = lineItems n b σ m := by
    unfold lineItems
    rw [hpassed]
  have hx : x ∈ lineItems n b σ m := h.mem_items.mpr ⟨i, hi, hitem⟩
  -- the workers before this one have worked on the item, in order
  have hworks : m.works x ++ [i] = List.range (i + 1) := by
    rw [h.worked i hi x hitem, hσ, List.range_succ]
    rfl
  refine ⟨h.base, h.random, fun j hj => ?_, fun j hj hr => ?_, fun j hj hf => ?_,
    fun j hj y hy => ?_, fun hp hne => ?_, hitems ▸ h.count, hitems ▸ h.order, fun y hy => ?_,
    fun y hy hline => ?_⟩
  · rw [h.slot j hj]
    by_cases hji : j = i
    · rw [hji, Function.update_self, hσ, if_neg (by simp), if_neg]
      split <;> simp
    · rw [Function.update_of_ne hji]
  · by_cases hji : j = i
    · rw [hji, Function.update_self] at hr
      split at hr
      · omega
      · cases hr
    · exact h.last j hj (by simpa [hji] using hr)
  · by_cases hji : j = i
    · rw [hji, hitem]
      simp
    · exact h.full j hj (by simpa [hji] using hf)
  · show Function.update m.works x (m.works x ++ [i]) y = _
    by_cases hji : j = i
    · subst hji
      rw [hitem, Option.some_inj] at hy
      subst hy
      rw [Function.update_self, Function.update_self, hworks]
      by_cases hlast : j = n - 1
      · rw [if_pos hlast]
        rfl
      · rw [if_neg hlast, worksDone, if_neg (by omega)]
    · -- another slot holds another item
      have hyx : y ≠ x := by
        rintro rfl
        exact hji (h.slot_unique hj hi hy hitem)
      rw [Function.update_of_ne hyx, Function.update_of_ne hji, h.worked j hj y hy]
  · rw [hpassed] at hp
    obtain ⟨hpost, hws⟩ := h.next hp hne
    have hzero : 0 ≠ i := by
      rintro rfl
      rw [hσ] at hpost
      cases hpost
    exact ⟨by simpa [hzero] using hpost, hws⟩
  · have hyx : y ≠ x := by
      rintro rfl
      exact h.not_finished hx hy
    show Function.update m.works x (m.works x ++ [i]) y = _
    rw [Function.update_of_ne hyx, h.finished y hy]
  · rw [hitems] at hline
    have hyx : y ≠ x := by
      rintro rfl
      exact hline hx
    show Function.update m.works x (m.works x ++ [i]) y = _
    rw [Function.update_of_ne hyx, h.fresh y hy hline]

/-- The last worker takes the item out. -/
theorem remove (h : LineOk n b ws σ m) (hi : i < n) (hσ : σ i = .rem)
    (hitem : m.aslQ.elem (m.currSlot i) = some x) :
    LineOk n b ws (Function.update σ i .mid)
      { m with
        aslQ := { m.aslQ with
          elem := Function.update m.aslQ.elem (m.currSlot i) none
          count := m.aslQ.count - 1 }
        finished := m.finished ++ [x] } := by
  -- only the last worker removes
  have hlast := h.last i hi hσ
  have hn : n - 1 = i := by omega
  rw [h.slot_eq hi (by simp [hσ])] at hitem ⊢
  have hbelow : ringAt n b i = below n b := by rw [← hn, ringAt_last h.base]
  -- its item is the first of the line, and leaves it
  have hold : lineItems n b σ m = x :: ringList n b
      (Function.update m.aslQ.elem (ringAt n b i) none) := by
    unfold lineItems
    rw [hn, hσ, hbelow]
    exact ringList_pop h.base (hbelow ▸ hitem)
  have hitems : lineItems n b (Function.update σ i .mid)
      { m with
        aslQ := { m.aslQ with
          elem := Function.update m.aslQ.elem (ringAt n b i) none
          count := m.aslQ.count - 1 }
        finished := m.finished ++ [x] } =
      ringList n b (Function.update m.aslQ.elem (ringAt n b i) none) := by
    unfold lineItems
    rw [hn, Function.update_self, hbelow]
    exact ringList_below h.base (Function.update_self _ _ _)
  -- the slots of the other workers are not touched
  have hother : ∀ j, j < n → j ≠ i →
      Function.update m.aslQ.elem (ringAt n b i) none (ringAt n b j) =
        m.aslQ.elem (ringAt n b j) := by
    intro j hj hji
    apply Function.update_of_ne
    rwa [ne_eq, ringAt_inj hj hi]
  refine ⟨h.base, h.random, fun j hj => ?_, fun j hj hr => ?_, fun j hj hf => ?_,
    fun j hj y hy => ?_, fun hp hne => ?_, ?_, ?_, fun y hy => ?_, fun y hy hline => ?_⟩
  · show m.currSlot j = _
    rw [h.slot j hj]
    by_cases hji : j = i
    · simp [hji, hσ]
    · simp [hji]
  · by_cases hji : j = i
    · simp [hji] at hr
    · exact h.last j hj (by simpa [hji] using hr)
  · by_cases hji : j = i
    · simp [hji] at hf
    · show Function.update m.aslQ.elem _ none _ ≠ none
      rw [hother j hj hji]
      exact h.full j hj (by simpa [hji] using hf)
  · by_cases hji : j = i
    · rw [hji] at hy
      simp at hy
    · rw [Function.update_of_ne hji]
      exact h.worked j hj y (by rw [← hother j hj hji]; exact hy)
  · rw [← hbelow] at hne
    exact absurd (Function.update_self _ _ _) hne
  · rw [hitems]
    show m.aslQ.count - 1 = _
    rw [h.count, hold]
    rfl
  · rw [hitems]
    have horder := h.order
    rw [hold] at horder
    show m.finished ++ [x] ++ _ ++ ws = List.range m.pushed
    rw [← horder, List.append_assoc m.finished, List.singleton_append]
  · show m.works y = _
    rcases List.mem_append.mp hy with hy | hy
    · exact h.finished y hy
    · rw [List.mem_singleton] at hy
      subst hy
      -- the item that leaves was worked on by all workers
      rw [h.worked i hi y hitem, hσ, worksDone, hlast]
  · rw [hitems] at hline
    show m.works y = _
    have hy' : y ∉ m.finished ∧ y ≠ x := by
      constructor
      · exact fun hin => hy (List.mem_append_left _ hin)
      · rintro rfl
        exact hy (by simp)
    refine h.fresh y hy'.1 ?_
    rw [hold, List.mem_cons, not_or]
    exact ⟨hy'.2, hline⟩

/-- A worker moves to its next slot. -/
theorem decrement (h : LineOk n b ws σ m) (hi : i < n) (hσ : σ i = .mid) :
    LineOk n b ws (Function.update σ i .post)
      { m with currSlot := Function.update m.currSlot i (below n (m.currSlot i)) } := by
  have hpassed := passed_update n .post (σ := σ) (i := i) fun _ => by rw [hσ]; rfl
  have hitems : lineItems n b (Function.update σ i .post)
      { m with currSlot := Function.update m.currSlot i (below n (m.currSlot i)) } =
      lineItems n b σ m := by
    unfold lineItems
    rw [hpassed]
  refine ⟨h.base, h.random, fun j hj => ?_, fun j hj hr => ?_, fun j hj hf => ?_,
    fun j hj x hx => ?_, fun hp hne => ?_, hitems ▸ h.count, hitems ▸ h.order, h.finished,
    hitems ▸ h.fresh⟩
  · show Function.update m.currSlot i _ j = _
    by_cases hji : j = i
    · rw [hji, Function.update_self, Function.update_self, if_pos rfl, h.slot_eq hi (by simp [hσ]),
        below_ringAt h.base hi]
    · rw [Function.update_of_ne hji, Function.update_of_ne hji, h.slot j hj]
  · by_cases hji : j = i
    · simp [hji] at hr
    · exact h.last j hj (by simpa [hji] using hr)
  · by_cases hji : j = i
    · simp [hji] at hf
    · exact h.full j hj (by simpa [hji] using hf)
  · show m.works x = _
    rw [h.worked j hj x hx]
    by_cases hji : j = i
    · simp [hji, hσ, worksDone]
    · simp [hji]
  · rw [hpassed] at hp
    obtain ⟨hpost, hws⟩ := h.next hp hne
    refine ⟨?_, hws⟩
    by_cases hzero : 0 = i
    · rw [hzero, Function.update_self]
    · rwa [Function.update_of_ne hzero]

/-- All workers are at their next slots, and the cycle ends. -/
theorem turn (h : LineOk n b ws σ m) (hpost : ∀ i, i < n → σ i = .post) :
    LineOk n (below n b) ws (fun _ => .pre) m := by
  have hb := h.base
  have hitems : lineItems n (below n b) (fun _ => .pre) m = lineItems n b σ m := by
    unfold lineItems
    rw [hpost (n - 1) (by omega)]
    rfl
  refine ⟨below_lt (by omega) hb, h.random, fun j hj => ?_, fun j _ hr => (by cases hr),
    fun j _ hf => (by simp at hf), fun j hj x hx => ?_, fun hp => (by cases hp),
    hitems ▸ h.count, hitems ▸ h.order, h.finished, hitems ▸ h.fresh⟩
  · rw [h.slot j hj, if_pos (hpost j hj), if_neg (by simp)]
  · -- the item behind the last worker is now before the first
    cases j with
    | zero =>
        rw [ringAt_zero (below_lt (by omega) hb), ← ringAt_last hb] at hx
        rw [h.worked (n - 1) (by omega) x hx, hpost (n - 1) (by omega)]
        simp [worksDone, show n - 1 + 1 = n by omega]
    | succ j =>
        rw [ringAt_below_succ hb hj] at hx
        rw [h.worked j (by omega) x hx, hpost j (by omega)]
        simp [worksDone, show j + 1 ≠ n by omega]

/-- A new item is put into the slot of the first worker, behind all others. -/
theorem insert {ws' : List Nat} {pushed : Nat} (h : LineOk n b ws σ m) (hn : 2 ≤ n)
    (hwhere : σ 0 = .pre ∨ σ 0 = .post ∧ (σ (n - 1)).passed = true ∧ ws' = [])
    (hlast : ringList n (if (σ (n - 1)).passed then below n b else b)
      (Function.update m.aslQ.elem (m.currSlot 0) (some x)) = lineItems n b σ m ++ [x])
    (horder : m.finished ++ lineItems n b σ m ++ x :: ws' = List.range pushed)
    (hnext : (σ (n - 1)).passed = true → m.aslQ.elem (below n b) = none)
    (hnew : m.works x = []) :
    LineOk n b ws' σ
      { m with
        aslQ := { m.aslQ with
          elem := Function.update m.aslQ.elem (m.currSlot 0) (some x)
          count := m.aslQ.count + 1 }
        pushed := pushed } := by
  have hb := h.base
  -- no worker past the item claims to have worked on the new one
  have hslot : ∀ j, j < n → ringAt n b j = m.currSlot 0 →
      m.works x = List.range (worksDone n j (σ j)) := by
    intro j hj heq
    rcases hwhere with hpre | ⟨hpost, hpassed, -⟩
    · have hzero : j = 0 := by
        rwa [h.slot_eq (by omega) (by simp [hpre]), ringAt_inj hj (by omega)] at heq
      rw [hzero, hpre, hnew]
      rfl
    · have hj' : j = n - 1 := by
        rwa [h.slot 0 (by omega), if_pos hpost, ringAt_zero (below_lt (by omega) hb),
          ← ringAt_last hb, ringAt_inj hj (by omega)] at heq
      subst hj'
      rw [hnew]
      cases hσ : σ (n - 1) with
      | mid => simp [worksDone, show n - 1 + 1 = n by omega]
      | post => simp [worksDone, show n - 1 + 1 = n by omega]
      | pre => simp [hσ, Stage.passed] at hpassed
      | busy => simp [hσ, Stage.passed] at hpassed
      | rem => simp [hσ, Stage.passed] at hpassed
  refine ⟨hb, h.random, h.slot, h.last, fun j hj hf => ?_, fun j hj y hy => ?_, fun hp hne => ?_,
    ?_, ?_, h.finished, fun y hy hline => ?_⟩
  · show Function.update m.aslQ.elem _ (some x) _ ≠ none
    by_cases heq : ringAt n b j = m.currSlot 0
    · simp [heq]
    · rw [Function.update_of_ne heq]
      exact h.full j hj hf
  · have hy' : Function.update m.aslQ.elem (m.currSlot 0) (some x) (ringAt n b j) = some y := hy
    show m.works y = _
    by_cases heq : ringAt n b j = m.currSlot 0
    · rw [heq, Function.update_self, Option.some_inj] at hy'
      rw [← hy']
      exact hslot j hj heq
    · rw [Function.update_of_ne heq] at hy'
      exact h.worked j hj y hy'
  · -- the slot below the line stays free
    rcases hwhere with hpre | ⟨hpost, -, hws⟩
    · refine absurd ?_ hne
      show Function.update m.aslQ.elem (m.currSlot 0) (some x) (below n b) = none
      rw [Function.update_of_ne, hnext hp]
      rw [h.slot_eq (by omega) (by simp [hpre]), ringAt_zero hb]
      unfold below
      split <;> omega
    · exact ⟨hpost, hws⟩
  · show m.aslQ.count + 1 = (ringList n _ (Function.update m.aslQ.elem (m.currSlot 0) (some x))).length
    rw [hlast, List.length_append, h.count]
    rfl
  · show m.finished ++ ringList n _ (Function.update m.aslQ.elem (m.currSlot 0) (some x)) ++ ws' = _
    -- the line ends with the new item, and the waiting ones follow
    rw [hlast, ← horder]
    simp
  · have hline' : y ∉ ringList n (if (σ (n - 1)).passed then below n b else b)
        (Function.update m.aslQ.elem (m.currSlot 0) (some x)) := hline
    rw [hlast, List.mem_append, not_or] at hline'
    exact h.fresh y hy hline'.1

/-- An item is pushed onto an empty line. -/
theorem push (h : LineOk n b [] σ m) (hn : 2 ≤ n) (hempty : lineItems n b σ m = [])
    (hwhere : σ 0 = .pre ∨ σ 0 = .post ∧ (σ (n - 1)).passed = true) :
    LineOk n b [] σ
      { m with
        aslQ := { m.aslQ with
          elem := Function.update m.aslQ.elem (m.currSlot 0) (some m.pushed)
          count := m.aslQ.count + 1 }
        pushed := m.pushed + 1 } := by
  have hb := h.base
  have hnone := h.items_eq_nil.mp hempty
  have hcurr := h.currSlot_lt
  have horder := h.order
  rw [hempty, List.append_nil, List.append_nil] at horder
  refine h.insert hn (hwhere.imp id fun hw => ⟨hw.1, hw.2, rfl⟩) ?_ ?_
    (fun _ => hnone _ (below_lt (by omega) hb)) ?_
  · rw [hempty]
    exact ringList_single h.items_base hcurr hempty
  · rw [hempty, List.append_nil, horder, List.range_succ]
  · refine h.fresh _ ?_ (by rw [hempty]; simp)
    rw [horder]
    simp

/-- The engine puts the first waiting item onto the line before a cycle. -/
theorem enqueue (h : LineOk n b (x :: ws) (fun _ => .pre) m) (hn : 2 ≤ n)
    (hnone : m.aslQ.elem b = none) :
    LineOk n b ws (fun _ => .pre)
      { m with
        aslQ := { m.aslQ with
          elem := Function.update m.aslQ.elem (m.currSlot 0) (some x)
          count := m.aslQ.count + 1 } } := by
  have hcurr : m.currSlot 0 = b := by
    rw [h.slot_eq (by omega) (by simp), ringAt_zero h.base]
  have hx : x ∉ m.finished ∧ x ∉ lineItems n b (fun _ => .pre) m := by
    have hnd := (List.nodup_append.mp h.nodup).2.2
    constructor
    · exact fun hin => hnd x (List.mem_append_left _ hin) x (by simp) rfl
    · exact fun hin => hnd x (List.mem_append_right _ hin) x (by simp) rfl
  refine h.insert hn (.inl rfl) ?_ h.order (fun hp => by cases hp)
    (h.fresh x hx.1 hx.2)
  rw [hcurr]
  exact ringList_push h.base hnone

/-- An item is pushed while others are on the line, and waits. -/
theorem wait (h : LineOk n b ws σ m)
    (hnext : (σ (n - 1)).passed = true → m.aslQ.elem (below n b) = none) :
    LineOk n b (ws ++ [m.pushed]) σ { m with pushed := m.pushed + 1 } := by
  refine ⟨h.base, h.random, h.slot, h.last, h.full, h.worked, fun hp hne => ?_, h.count, ?_,
    h.finished, h.fresh⟩
  · exact absurd (hnext hp) hne
  · show m.finished ++ lineItems n b σ m ++ (ws ++ [m.pushed]) = List.range (m.pushed + 1)
    rw [← List.append_assoc, h.order, List.range_succ]

end LineOk

end ThreadLib
end MultithreadingBible
