import Mathlib.Algebra.BigOperators.Intervals
import Mathlib.Tactic.Ring
import MultithreadingBible.Lib.Runs
import MultithreadingBible.ThreadLib.AssemblyLineInvariant

/-!
# Assembly lines: the work that is left

When nobody pushes any more, the engine cannot start cycles for ever: in each of them some worker
works on an item, and an item is worked on `n` times.

* `worksLeft` — how often the pushed items are still to be worked on.
* `workLeft` — a rank that every step but a push lowers.  A worker that will still work in the
  current cycle counts less by as much as its work takes from `worksLeft`, so that within a cycle
  only the steps of the workers count.
* `AslInv.workLeft_le`, `AslInv.workLeft_lt` — the bound, and the step.
-/

namespace MultithreadingBible
namespace ThreadLib

open Lib

variable {n : Nat} {α : Type*}

/-- An application pushes an item. -/
def isPush : Act (AslThread n α) Unit → Bool
  | .run (.app _) _ _ => true
  | _ => false

/-- How often the pushed items are still to be worked on. -/
def worksLeft (n : Nat) (m : AssemblyLine) : Nat :=
  ∑ x ∈ Finset.range m.pushed, (n - (m.works x).length)

/-- A worker will still work in the current cycle. -/
def owesWork (m : AssemblyLine) (i : Fin n) : Status (AslCv n) AslLoc → Bool
  | .notified _ _ => (m.aslQ.elem (m.currSlot i)).isSome
  | .running .work => true
  | _ => false

/-- The steps a worker has left in the current cycle, the last one for two as it may wake the engine. -/
def stepsLeft : Status (AslCv n) AslLoc → Nat
  | .waiting _ _ => 0
  | .notified _ _ => 6
  | .running .work => 5
  | .running .remove => 4
  | .running .decrement => 3
  | .running _ => 2

/-- What is left of a worker. -/
def workerLeft (m : AssemblyLine) (i : Fin n) (st : Status (AslCv n) AslLoc) : Nat :=
  stepsLeft st + if owesWork m i st then 0 else 6 * n

/-- What is left of the engine, which may start one cycle without an item. -/
def engineLeft (n : Nat) : Status (AslCv n) AslLoc → Nat
  | .waiting _ _ => 0
  | .notified _ .gather => 1
  | _ => 6 * n + 1

/-- What is left of an assembly line that nobody pushes items to. -/
def workLeft (s : AslConfig n α) : Nat :=
  6 * n * worksLeft n s.mem + (∑ i, workerLeft s.mem i (s.thr (.worker i)) + engineLeft n (s.thr .engine))

section Facts

variable {s : AslConfig n α} {m m' : AssemblyLine} {i : Fin n} {st : Status (AslCv n) AslLoc}

theorem workerLeft_le (m : AssemblyLine) (i : Fin n) (st : Status (AslCv n) AslLoc) :
    workerLeft m i st ≤ 6 + 6 * n := by
  have hsteps : stepsLeft st ≤ 6 := by
    unfold stepsLeft
    split <;> omega
  have howes : (if owesWork m i st then 0 else 6 * n) ≤ 6 * n := by
    split <;> omega
  exact Nat.add_le_add hsteps howes

/-- Only before the test of its slot does it matter to a worker what is there. -/
theorem owesWork_congr (hslot : ∀ c l, st = .notified c l →
    m'.aslQ.elem (m'.currSlot i) = m.aslQ.elem (m.currSlot i)) : owesWork m' i st = owesWork m i st := by
  cases st with
  | waiting c l => rfl
  | notified c l =>
      unfold owesWork
      rw [hslot c l rfl]
  | running l => cases l <;> rfl

/-- A worker that waits for the next cycle. -/
theorem workerLeft_waiting (m : AssemblyLine) (i : Fin n) :
    workerLeft m i (.waiting (.worker i) .test) = 6 * n := by
  simp [workerLeft, stepsLeft, owesWork]

/-- What is left of the workers between two cycles. -/
theorem sum_workerLeft_idle (hidle : Idle s) (m : AssemblyLine) :
    ∑ i, workerLeft m i (s.thr (.worker i)) = n * (6 * n) := by
  have hsum : ∑ i, workerLeft m i (s.thr (.worker i)) =
    (Finset.univ : Finset (Fin n)).card * (6 * n) := by
    refine Finset.sum_const_nat fun i _ => ?_
    rw [hidle i]
    exact workerLeft_waiting m i
  rwa [Finset.card_univ, Fintype.card_fin] at hsum

/-- What is left of the workers in a cycle. -/
theorem sum_workerLeft_le (m : AssemblyLine) (f : Fin n → Status (AslCv n) AslLoc) :
    ∑ i, workerLeft m i (f i) ≤ n * (6 + 6 * n) := by
  have hsum := Finset.sum_le_sum fun i (_ : i ∈ Finset.univ) => workerLeft_le m i (f i)
  rwa [Finset.sum_const_nat fun _ _ => rfl, Finset.card_univ, Fintype.card_fin] at hsum

/-- A cycle that begins with an item on the line has less left than the time before it. -/
theorem sum_workerLeft_started (m : AssemblyLine) (i : Fin n)
    (hitem : (m.aslQ.elem (m.currSlot i)).isSome = true) :
    ∑ j : Fin n, workerLeft m j (.notified (.worker j) .test) ≤ n * (6 * n) := by
  have herase :=
    Finset.add_sum_erase Finset.univ (fun j : Fin n => workerLeft m j (.notified (.worker j) .test))
    (Finset.mem_univ i)
  have hone : workerLeft m i (.notified (.worker i) .test) = 6 := by
    simp [workerLeft, stepsLeft, owesWork, hitem]
  have hrest := Finset.sum_le_sum fun j (_ : j ∈ Finset.univ.erase i) =>
    workerLeft_le m j (.notified (.worker j) .test)
  rw [Finset.sum_const_nat fun _ _ => rfl, Finset.card_erase_of_mem (Finset.mem_univ i), Finset.card_univ,
    Fintype.card_fin] at hrest
  obtain ⟨k, rfl⟩ : ∃ k, n = k + 1 := ⟨n - 1, by have := i.pos; omega⟩
  rw [← herase, hone]
  rw [Nat.add_sub_cancel] at hrest
  refine (Nat.add_le_add_left hrest 6).trans (Nat.le_of_eq ?_)
  ring

/-- The workers when one of them went on. -/
theorem sum_workerLeft_step {f f' : Fin n → Status (AslCv n) AslLoc}
    (hother : ∀ j, j ≠ i → workerLeft m' j (f' j) = workerLeft m j (f j)) :
    ∑ j, workerLeft m' j (f' j) + workerLeft m i (f i) = ∑ j,
      workerLeft m j (f j) + workerLeft m' i (f' i) := by
  have hold := Finset.add_sum_erase Finset.univ (fun j => workerLeft m j (f j)) (Finset.mem_univ i)
  have hnew := Finset.add_sum_erase Finset.univ (fun j => workerLeft m' j (f' j)) (Finset.mem_univ i)
  have hrest : ∑ j ∈ Finset.univ.erase i, workerLeft m' j (f' j) = ∑ j ∈ Finset.univ.erase i,
    workerLeft m j (f j) :=
    Finset.sum_congr rfl fun j hj => hother j (Finset.ne_of_mem_erase hj)
  rw [hrest] at hnew
  omega

/-- An item that is worked on has less left. -/
theorem worksLeft_work {x k : Nat} (hx : x < m.pushed) (hk : k < n) (hworks : m.works x = List.range k) :
    worksLeft n { m with works := Function.update m.works x (m.works x ++ [k]) } + 1 = worksLeft n m := by
  have hmem := Finset.mem_range.mpr hx
  have hold := Finset.add_sum_erase (Finset.range m.pushed) (fun y => n - (m.works y).length) hmem
  have hnew := Finset.add_sum_erase (Finset.range m.pushed)
    (fun y => n - (Function.update m.works x (m.works x ++ [k]) y).length) hmem
  have hrest : ∑ y ∈ (Finset.range m.pushed).erase x,
      (n - (Function.update m.works x (m.works x ++ [k]) y).length) =
        ∑ y ∈ (Finset.range m.pushed).erase x, (n - (m.works y).length) := by
    refine Finset.sum_congr rfl fun y hy => ?_
    rw [Function.update_of_ne (Finset.ne_of_mem_erase hy)]
  rw [hrest] at hnew
  have hlength : (m.works x).length = k := by rw [hworks, List.length_range]
  simp only [Function.update_self, List.length_append, List.length_singleton, hlength] at hold hnew
  unfold worksLeft
  dsimp only
  omega

theorem AslInv.worked (h : AslInv s) : ∀ x ∈ s.mem.finished, s.mem.works x = List.range n := by
  obtain ⟨b, ws, hok, -, -⟩ := h.line
  exact hok.finished

theorem AslInv.order (h : AslInv s) : s.mem.finished <+: List.range s.mem.pushed := by
  obtain ⟨b, ws, hok, -, -⟩ := h.line
  rw [← hok.order, List.append_assoc]
  exact List.prefix_append _ _

/-- Finished items have nothing left. -/
theorem AslInv.worksLeft_le (h : AslInv s) :
    worksLeft n s.mem ≤ n * (s.mem.pushed - s.mem.finished.length) := by
  have hle := h.order.length_le
  rw [List.length_range] at hle
  have hfinished : s.mem.finished = List.range s.mem.finished.length := by
    have htake := List.prefix_iff_eq_take.mp h.order
    rwa [List.take_range, min_eq_left hle] at htake
  have hzero : ∑ x ∈ Finset.range s.mem.finished.length, (n - (s.mem.works x).length) = 0 := by
    refine Finset.sum_eq_zero fun x hx => ?_
    have hmem : x ∈ s.mem.finished := by
      rw [hfinished]
      exact List.mem_range.mpr (Finset.mem_range.mp hx)
    rw [h.worked x hmem, List.length_range, Nat.sub_self]
  have hlate := Finset.sum_le_sum fun x (_ : x ∈ Finset.Ico s.mem.finished.length s.mem.pushed) =>
    Nat.sub_le n (s.mem.works x).length
  rw [Finset.sum_const_nat fun _ _ => rfl, Nat.card_Ico, Nat.mul_comm] at hlate
  unfold worksLeft
  rw [← Finset.sum_range_add_sum_Ico _ hle, hzero, Nat.zero_add]
  exact hlate

/-- **The bound**: what is left of an assembly line, from the number of its unfinished items. -/
theorem AslInv.workLeft_le (h : AslInv s) :
    workLeft s ≤ 6 * n * (n * (s.mem.pushed - s.mem.finished.length) + n + 2) + 1 := by
  have hworks := Nat.mul_le_mul_left (6 * n) h.worksLeft_le
  have hworkers := sum_workerLeft_le s.mem fun i => s.thr (.worker i)
  have hengine : engineLeft n (s.thr .engine) ≤ 6 * n + 1 := by
    unfold engineLeft
    split <;> omega
  unfold workLeft
  refine (Nat.add_le_add hworks (Nat.add_le_add hworkers hengine)).trans (Nat.le_of_eq ?_)
  ring

end Facts

section Steps

variable {s s' : AslConfig n α} {i : Fin n} {x : Unit} {l : AslLoc} {m m' : AssemblyLine}
  {notes : List (Note (AslCv n))} {st : Status (AslCv n) AslLoc}

/-- What a worker and the engine lose is lost. -/
theorem workLeft_lt_of_worker (hworkers : ∀ j, j ≠ i → s'.thr (.worker j) = s.thr (.worker j))
    (hothers : ∀ j, j ≠ i → owesWork s'.mem j (s.thr (.worker j)) = owesWork s.mem j (s.thr (.worker j)))
    (hless : 6 * n * worksLeft n s'.mem + workerLeft s'.mem i (s'.thr (.worker i)) +
        engineLeft n (s'.thr .engine) <
      6 * n * worksLeft n s.mem + workerLeft s.mem i (s.thr (.worker i)) + engineLeft n (s.thr .engine)) :
    workLeft s' < workLeft s := by
  have hsum : ∑ j, workerLeft s'.mem j (s'.thr (.worker j)) + workerLeft s.mem i (s.thr (.worker i)) =
      ∑ j, workerLeft s.mem j (s.thr (.worker j)) + workerLeft s'.mem i (s'.thr (.worker i)) := by
    apply sum_workerLeft_step
    intro j hj
    rw [workerLeft, workerLeft, hworkers j hj, hothers j hj]
  unfold workLeft
  omega

/-- The slots of workers that have not moved differ. -/
theorem AslInv.currSlot_ne (h : AslInv s) {j : Fin n} (hj : j ≠ i) (hi : stage s i ≠ .post)
    (hother : stage s j ≠ .post) : s.mem.currSlot j ≠ s.mem.currSlot i := by
  obtain ⟨b, ws, hok, -, -⟩ := h.line
  rw [hok.slot_eq j.isLt hother, hok.slot_eq i.isLt hi]
  exact fun heq => hj (Fin.ext ((ringAt_inj j.isLt i.isLt).mp heq))

/-- The engine works on no item. -/
theorem works_of_engine (hexec : aslEngineFn n l m = .done m' notes st) :
    m'.works = m.works ∧ m'.pushed = m.pushed := by
  have hstart : ∀ m₁, startCycle n m₁ = .done m' notes st → m'.works = m₁.works ∧
    m'.pushed = m₁.pushed := by
    intro m₁ hstart
    cases hstart
    exact ⟨rfl, rfl⟩
  have hend : ∀ m₁, endCycle n m₁ = .done m' notes st → m'.works = m₁.works ∧ m'.pushed = m₁.pushed := by
    intro m₁ hend
    unfold endCycle at hend
    split at hend
    · exact hstart m₁ hend
    · cases hend
      exact ⟨rfl, rfl⟩
  cases l with
  | unborn =>
      simp only [aslEngineFn] at hexec
      split at hexec
      · exact hstart m hexec
      · cases hexec
  | halted => exact hstart m hexec
  | gather =>
      simp only [aslEngineFn] at hexec
      split at hexec
      · cases hexec
        exact ⟨rfl, rfl⟩
      rw [Effect.call_eq_done] at hexec
      obtain ⟨⟨waitLstItem, q⟩, -, hexec⟩ := hexec
      cases waitLstItem with
      | none => exact hend { m with waitLstFq := q } hexec
      | some item =>
          obtain ⟨m₁, henqueue, hexec⟩ := Effect.call_eq_done.mp hexec
          obtain ⟨hworks, hpushed⟩ := hend m₁ hexec
          unfold assemblyLineEnqueueNewItem at henqueue
          split at henqueue
          · cases henqueue
          · obtain ⟨r, -, rfl⟩ := Option.map_eq_some_iff.mp henqueue
            exact ⟨hworks, hpushed⟩
  | _ => cases hexec

variable [DecidableEq α]

/-- A worker goes on within a cycle, and sends nothing. -/
theorem AslInv.workLeft_silent (h : AslInv s) (hran : (aslProgram n α).Ran s (.worker i) x s' [] st)
    (hothers : ∀ j, j ≠ i → owesWork s'.mem j (s.thr (.worker j)) = owesWork s.mem j (s.thr (.worker j)))
    (hless : 6 * n * worksLeft n s'.mem + workerLeft s'.mem i st <
      6 * n * worksLeft n s.mem + workerLeft s.mem i (s.thr (.worker i))) : workLeft s' < workLeft s := by
  obtain ⟨hworkers, -⟩ := others_of_worker h.workers h.apps hran (by simp)
  refine workLeft_lt_of_worker hworkers hothers ?_
  rw [hran.self, hran.other_of_nil (u := .engine) (by simp)]
  omega

/-- **A step of a worker** takes from the steps it has left, or from the work on an item. -/
theorem AslInv.workLeft_worker (h : AslInv s) (hran : (aslProgram n α).Ran s (.worker i) x s' notes st) :
    workLeft s' < workLeft s ∧ s'.mem.pushed = s.mem.pushed := by
  have hexec : workerThreadInit i (s.thr (.worker i)).loc s.mem = .done s'.mem notes st := hran.exec
  -- a worker that is awake is in a cycle, and the engine waits for it
  obtain ⟨hengine, -⟩ := h.gather hran.awake
  have hin : inCycle s = true := by simp [inCycle, hengine]
  have hstage : ∀ j : Fin n, stage s j = stageOf true (s.thr (.worker j)) := by
    intro j
    rw [stage_of_lt j.isLt, hin]
  have hshape := h.workers i
  have hawake := hran.awake
  have hstagei := hstage i
  generalize hthr : s.thr (.worker i) = old at hexec hshape hawake hstagei
  cases hshape with
  | waiting => cases hawake
  | notified =>
      simp only [Status.loc_notified, workerThreadInit] at hexec
      split at hexec
      · next hsome =>
        rw [Effect.done.injEq] at hexec
        obtain ⟨hm, rfl, rfl⟩ := hexec
        refine ⟨h.workLeft_silent hran (fun j _ => by rw [← hm]) ?_, by rw [← hm]⟩
        rw [hthr, ← hm]
        simp [workerLeft, stepsLeft, owesWork, hsome]
      · next hnone =>
        -- nothing to work on: the cycle goes on to the report
        rw [Effect.done.injEq] at hexec
        obtain ⟨hm, rfl, rfl⟩ := hexec
        refine ⟨h.workLeft_silent hran (fun j _ => by rw [← hm]) ?_, by rw [← hm]⟩
        rw [hthr, ← hm]
        simp [workerLeft, stepsLeft, owesWork, hnone]
  | work =>
      simp only [Status.loc_running, workerThreadInit] at hexec
      split at hexec
      · cases hexec
      · next item hitem =>
        rw [Effect.done.injEq] at hexec
        obtain ⟨hm, rfl, rfl⟩ := hexec
        refine ⟨h.workLeft_silent hran (fun j _ => ?_) ?_, by rw [← hm]⟩
        · rw [← hm]
          rfl
        · -- the work is paid for by the item
          obtain ⟨b, ws, hok, -, -⟩ := h.line
          rw [hok.slot_eq i.isLt (by rw [hstagei]; simp [stageOf])] at hitem
          have hworks := hok.worked i i.isLt item hitem
          rw [hstagei] at hworks
          have hpushed : item < s.mem.pushed := by
            rw [← List.mem_range, ← hok.order]
            exact List.mem_append_left _ (List.mem_append_right _ (hok.mem_items.mpr ⟨i, i.isLt, hitem⟩))
          have hless := worksLeft_work hpushed i.isLt hworks
          rw [← hm, ← hless, hthr, Nat.mul_succ]
          split
          all_goals
            simp only [workerLeft, stepsLeft, owesWork, Bool.false_eq_true, if_false, if_true]
            omega
  | remove =>
      obtain ⟨b₀, ws₀, hok₀, -, -⟩ := h.line
      have hfull := hok₀.full i i.isLt (.inr hstagei)
      rw [← hok₀.slot_eq i.isLt (by rw [hstagei]; simp [stageOf])] at hfull
      obtain ⟨item, hitem⟩ := Option.ne_none_iff_exists'.mp hfull
      simp only [Status.loc_running, workerThreadInit, fifoInsert_none hok₀.random hitem,
        Effect.call, Effect.done.injEq] at hexec
      obtain ⟨hm, rfl, rfl⟩ := hexec
      refine ⟨h.workLeft_silent hran (fun j hj => ?_) ?_, by rw [← hm]⟩
      · -- another worker has another slot
        refine owesWork_congr fun c l hj' => ?_
        have hne :=
          h.currSlot_ne hj (by rw [hstagei]; simp [stageOf]) (by rw [hstage j, hj']; simp [stageOf])
        rw [← hm]
        exact Function.update_of_ne hne _ _
      · rw [hthr, ← hm]
        simp [workerLeft, stepsLeft, owesWork, worksLeft]
  | decrement =>
      simp only [Status.loc_running, workerThreadInit, Effect.done.injEq] at hexec
      obtain ⟨hm, rfl, rfl⟩ := hexec
      refine ⟨h.workLeft_silent hran (fun j hj => ?_) ?_, by rw [← hm]⟩
      · refine owesWork_congr fun c l _ => ?_
        rw [← hm]
        dsimp only
        rw [Function.update_of_ne fun heq => hj (Fin.ext heq)]
      · rw [hthr, ← hm]
        simp [workerLeft, stepsLeft, owesWork, worksLeft]
  | report =>
      simp only [Status.loc_running, workerThreadInit, Effect.done.injEq] at hexec
      obtain ⟨hm, hnotes, rfl⟩ := hexec
      -- a report wakes the engine only, not a worker
      obtain ⟨hworkers, -⟩ := others_of_worker h.workers h.apps hran (by
        intro note hnote
        rw [← hnotes] at hnote
        split at hnote
        · simpa using hnote
        · simp at hnote)
      refine ⟨workLeft_lt_of_worker hworkers (fun j _ => ?_) ?_, by rw [← hm]⟩
      · rw [← hm]
        rfl
      · -- the last worker to report wakes the engine
        have hwoken : engineLeft n (s'.thr .engine) ≤ 1 := by
          rcases hran.other (u := .engine) (by simp) with hsame | ⟨c, l, hold, hnew, -⟩
          · rw [hsame, hengine]
            exact Nat.zero_le 1
          · rw [hengine] at hold
            cases hold
            rw [hnew]
            rfl
        have hsame : worksLeft n s'.mem = worksLeft n s.mem := by
          rw [← hm]
          rfl
        rw [hran.self, hthr, hsame]
        simp only [workerLeft, stepsLeft, owesWork, Bool.false_eq_true, if_false]
        omega

/-- The engine starts a cycle, which has less left if an item is on the line, or if it is the first
one. -/
theorem workLeft_start (happs : ∀ a, s.thr (.app a) = .running .outside) (hidle : Idle s)
    (hran : (aslProgram n α).Ran s .engine x s' notes st) (hexec : startCycle n m = .done s'.mem notes st)
    (hworks : worksLeft n s'.mem = worksLeft n s.mem)
    (hless : engineLeft n (s.thr .engine) = 6 * n + 1 ∨ engineLeft n (s.thr .engine) = 1 ∧
      ∃ i : Fin n, (m.aslQ.elem (m.currSlot i)).isSome = true) : workLeft s' < workLeft s := by
  obtain ⟨hnotified, -, -⟩ := woken_of_startCycle happs hidle hran hexec
  simp only [startCycle, Effect.done.injEq] at hexec
  obtain ⟨hm, -, rfl⟩ := hexec
  have hworkers : ∑ i, workerLeft s'.mem i (s'.thr (.worker i)) =
      ∑ i : Fin n, workerLeft s'.mem i (.notified (.worker i) .test) :=
    Finset.sum_congr rfl fun i _ => by rw [hnotified i]
  unfold workLeft
  rw [hran.self, hworks, hworkers, sum_workerLeft_idle hidle]
  rcases hless with hfirst | ⟨hgathered, i, hitem⟩
  · have hle := sum_workerLeft_le s'.mem fun i : Fin n => .notified (.worker i) .test
    rw [hfirst]
    rw [Nat.mul_add, Nat.mul_comm n 6] at hle
    show _ + (_ + 0) < _
    omega
  · have hle := sum_workerLeft_started s'.mem i (by rw [← hm]; exact hitem)
    rw [hgathered]
    show _ + (_ + 0) < _
    omega

/-- **A step of the engine** starts a cycle in which some worker will work, or is the last one. -/
theorem AslInv.workLeft_engine (h : AslInv s) (hn : 2 ≤ n)
    (hran : (aslProgram n α).Ran s .engine x s' notes st) :
    workLeft s' < workLeft s ∧ s'.mem.pushed = s.mem.pushed := by
  have hexec : aslEngineFn n (s.thr .engine).loc s.mem = .done s'.mem notes st := hran.exec
  obtain ⟨hworks, hpushed⟩ := works_of_engine hexec
  refine ⟨?_, hpushed⟩
  have hsame : worksLeft n s'.mem = worksLeft n s.mem := by
    unfold worksLeft
    rw [hworks, hpushed]
  have hawake := hran.awake
  obtain ⟨b, ws, hok, hholds, hsize⟩ := h.line
  cases h.engine with
  | unborn hthr hidle =>
      rw [hthr] at hexec
      simp only [Status.loc_running, aslEngineFn] at hexec
      split at hexec
      · exact workLeft_start h.apps hidle hran hexec hsame (.inl (by rw [hthr]; rfl))
      · cases hexec
  | gather hthr =>
      rw [hthr] at hawake
      cases hawake
  | gathered hthr hidle hstate hborn hready =>
      have hin : inCycle s = true := by simp [inCycle, hthr]
      obtain ⟨m, ws', heq, hline, -, -, -, -⟩ :=
        gather_spec hn hok (fun i hi => stage_gathered hidle hin hi) hholds hready
      rw [hthr, Status.loc_notified, heq] at hexec
      have hone : engineLeft n (s.thr .engine) = 1 := by rw [hthr]; rfl
      unfold endCycle at hexec
      split at hexec
      · next hcount =>
        -- an item on the line is in the slot of some worker
        obtain ⟨y, hy⟩ := List.exists_mem_of_ne_nil _ (mt hline.count_eq_zero.mpr hcount)
        obtain ⟨i, hi, hy⟩ := hline.mem_items.mp hy
        refine workLeft_start h.apps hidle hran hexec hsame (.inr ⟨hone, ⟨i, hi⟩, ?_⟩)
        rw [hline.slot_eq hi (by simp), hy]
        rfl
      · rw [Effect.done.injEq] at hexec
        obtain ⟨-, rfl, rfl⟩ := hexec
        have hidle' : Idle s' := by
          intro i
          rw [hran.other_of_nil (by simp), hidle i]
        unfold workLeft
        rw [hsame, sum_workerLeft_idle hidle, sum_workerLeft_idle hidle', hone, hran.self]
        exact Nat.lt_succ_self _
  | halted hthr =>
      rw [hthr] at hawake
      cases hawake
  | restarted hthr hidle =>
      rw [hthr] at hexec
      exact workLeft_start h.apps hidle hran hexec hsame (.inl (by rw [hthr]; rfl))

variable [Fintype α]

/-- **Every step but a push** lowers the rank. -/
theorem AslInv.workLeft_lt (h : AslInv s) (hn : 2 ≤ n) {a : Act (AslThread n α) Unit}
    (hpush : isPush a = false)
    (hstep : (aslMachine n α).step s a = .next s') :
    AslInv s' ∧ workLeft s' < workLeft s ∧ s'.mem.pushed = s.mem.pushed := by
  cases a with
  | spurious t =>
      obtain ⟨hspurious, -⟩ := Program.spurious_of_step hstep
      cases hspurious
  | run t y picks =>
      obtain ⟨notes, st, hran⟩ := Program.ran_of_step hstep
      cases t with
      | worker i => exact ⟨h.worker_step hran, h.workLeft_worker hran⟩
      | engine => exact ⟨h.engine_step hn hran, h.workLeft_engine hn hran⟩
      | app b => cases hpush

end Steps

end ThreadLib
end MultithreadingBible
