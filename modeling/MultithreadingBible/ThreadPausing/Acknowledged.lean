import Mathlib.Data.Fintype.Option
import MultithreadingBible.Lib.CondVar

/-!
# Pausing a thread, with acknowledgement

`thread_pause_struct_t` of `src/ThreadPausing`.  A worker calls `thread_test_and_pause` again and again,
controllers call `thread_pause` and `thread_resume`.  A pause waits until the worker acknowledges it.

* `pauseMachine` — the worker and the controllers.  What a call does between locking the mutex and
  unlocking it or waiting is one step.
* `resume_undoes_pause` — after a resume the flag is clear exactly if there was no pause at all, as
  nothing ever clears it.
-/

namespace MultithreadingBible
namespace ThreadPausing

open Lib

/-- What a controller calls. -/
inductive ControlOp where
  | pause
  | resume
  deriving DecidableEq

/-- The condition variables of `thread_pause_struct_t`. -/
inductive PauseCv where
  | pauseCv
  | notifCv
  deriving DecidableEq

/-- Where the worker or a controller is. -/
inductive PauseLoc where
  /-- Outside all calls. -/
  | idle
  /-- In the wait of `thread_pause`. -/
  | pausing
  /-- In the loop of `thread_test_and_pause`. -/
  | paused
  deriving DecidableEq

/-- `should_pause`, and the control operations that were completed, oldest first, which the code does not
know. -/
structure PauseMem where
  shouldPause : Bool
  completed : List ControlOp

abbrev PauseEffect := Effect PauseMem PauseCv PauseLoc

def threadPauseStructInit : PauseMem := ⟨false, []⟩

/-- A control operation is completed. -/
def PauseMem.complete (m : PauseMem) (op : ControlOp) : PauseMem :=
  { m with completed := m.completed ++ [op] }

def threadPause (l : PauseLoc) (m : PauseMem) : PauseEffect :=
  match l with
  | .idle =>
      if m.shouldPause then .done (m.complete .pause) [] (.running .idle)
      else .done { m with shouldPause := true } [] (.waiting .notifCv .pausing)
  | .pausing => .done (m.complete .pause) [] (.running .idle)
  | .paused => .blocked

def threadResume (m : PauseMem) : PauseEffect :=
  .done (m.complete .resume) [.signal .pauseCv] (.running .idle)

/-- The loop of `thread_test_and_pause`, after the given notifications. -/
def pauseLoop (notes : List (Note PauseCv)) (m : PauseMem) : PauseEffect :=
  if m.shouldPause then .done m notes (.waiting .pauseCv .paused)
  else .done m notes (.running .idle)

def threadTestAndPause (l : PauseLoc) (m : PauseMem) : PauseEffect :=
  match l with
  | .idle =>
      if !m.shouldPause then .done m [] (.running .idle)
      else pauseLoop [.signal .notifCv] m
  | .paused => pauseLoop [] m
  | .pausing => .blocked

/-- `thread_destroy_pause_struct`, which fails an assertion while a pause is requested. -/
def threadDestroyPauseStruct (m : PauseMem) : Option Unit :=
  if !m.shouldPause then some () else none

section Threads

variable {τ : Type*}

/-- What the worker, `none`, or a controller does next. -/
def pauseExec (t : Option τ) (l : PauseLoc) (op : ControlOp) (m : PauseMem) : PauseEffect :=
  match t with
  | none => threadTestAndPause l m
  | some _ =>
      match l, op with
      | .idle, .resume => threadResume m
      | _, _ => threadPause l m

/-- The worker and the controllers. -/
def pauseProgram (spurious : Bool) :
    Program (Option τ) PauseMem PauseCv PauseLoc ControlOp where
  exec := pauseExec
  spuriousWakeups := spurious

abbrev PauseConfig (τ : Type*) := Config (Option τ) PauseMem PauseCv PauseLoc

/-- Nobody has called anything yet. -/
def freshPause (τ : Type*) : PauseConfig τ := ⟨threadPauseStructInit, fun _ => .running .idle⟩

variable [DecidableEq τ] [Fintype τ]

/-- All runs of the worker and the controllers. -/
def pauseMachine (spurious : Bool) : Machine (PauseConfig τ) (Act (Option τ) ControlOp) :=
  (pauseProgram spurious).machine fun s => s = freshPause τ

end Threads

/-- Everything a controller can do. -/
inductive ControllerMove (m : PauseMem) :
    PauseLoc → PauseMem → List (Note PauseCv) → Status PauseCv PauseLoc → Prop
  | repeated (h : m.shouldPause = true) :
      ControllerMove m .idle (m.complete .pause) [] (.running .idle)
  | request (h : m.shouldPause = false) :
      ControllerMove m .idle { m with shouldPause := true } [] (.waiting .notifCv .pausing)
  | acknowledged : ControllerMove m .pausing (m.complete .pause) [] (.running .idle)
  | resume : ControllerMove m .idle (m.complete .resume) [.signal .pauseCv] (.running .idle)

section Moves

variable {l : PauseLoc} {m m' : PauseMem} {notes : List (Note PauseCv)}
  {st : Status PauseCv PauseLoc}

theorem controllerMove_of_threadPause (h : threadPause l m = .done m' notes st) :
    ControllerMove m l m' notes st := by
  cases l with
  | idle =>
      unfold threadPause at h
      dsimp only at h
      split at h
      · next hset =>
        cases h
        exact .repeated hset
      · next hclear =>
        cases h
        exact .request (Bool.eq_false_iff.mpr hclear)
  | pausing =>
      cases h
      exact .acknowledged
  | paused => cases h

/-- The worker only reads the flag. -/
theorem mem_of_threadTestAndPause (h : threadTestAndPause l m = .done m' notes st) : m' = m := by
  have hloop : ∀ {notes₀}, pauseLoop notes₀ m = .done m' notes st → m' = m := by
    intro notes₀ h
    unfold pauseLoop at h
    split at h
    · cases h; rfl
    · cases h; rfl
  cases l with
  | idle =>
      unfold threadTestAndPause at h
      dsimp only at h
      split at h
      · cases h; rfl
      · exact hloop h
  | paused => exact hloop h
  | pausing => cases h

end Moves

section Results

variable {τ : Type*} [DecidableEq τ] [Fintype τ] {spurious : Bool} {s s' : PauseConfig τ}
  {t : Option τ} {op : ControlOp} {notes : List (Note PauseCv)} {st : Status PauseCv PauseLoc}

/-- `should_pause` is set exactly if a pause was completed or waits for its acknowledgement. -/
def RequestOk (s : PauseConfig τ) : Prop :=
  s.mem.shouldPause = true ↔
    .pause ∈ s.mem.completed ∨ ∃ c, (s.thr (some c)).loc = .pausing

omit [DecidableEq τ] [Fintype τ] in
theorem RequestOk.init : RequestOk (freshPause τ) := by
  refine iff_of_false (fun h => by cases h) ?_
  rintro (h | ⟨c, h⟩)
  · cases h
  · cases h

/-- Another operation in the list. -/
theorem mem_complete {m : PauseMem} {op op' : ControlOp} :
    op' ∈ (m.complete op).completed ↔ op' ∈ m.completed ∨ op' = op := by
  unfold PauseMem.complete
  rw [List.mem_append, List.mem_singleton]

omit [Fintype τ] in
/-- **Step lemma**: every step keeps the invariant. -/
theorem RequestOk.step (h : RequestOk s)
    (hran : (pauseProgram spurious).Ran s t op s' notes st) : RequestOk s' := by
  unfold RequestOk at h ⊢
  cases t with
  | none =>
      have hmem : s'.mem = s.mem := mem_of_threadTestAndPause hran.exec
      rw [hmem, h]
      refine or_congr_right (exists_congr fun c => ?_)
      rw [hran.loc_of_ne (Option.some_ne_none c)]
  | some c =>
      have hmove : ControllerMove s.mem (s.thr (some c)).loc s'.mem notes st := by
        have hexec : pauseExec (some c) (s.thr (some c)).loc op s.mem = .done s'.mem notes st :=
          hran.exec
        unfold pauseExec at hexec
        dsimp only at hexec
        split at hexec
        · next hl =>
          injection hexec with hm hnotes hst
          rw [hl, ← hm, ← hnotes, ← hst]
          exact .resume
        · exact controllerMove_of_threadPause hexec
      have hself := hran.self
      have hother : ∀ d, d ≠ c → (s'.thr (some d)).loc = (s.thr (some d)).loc := fun d hd =>
        hran.loc_of_ne fun heq => hd (Option.some.inj heq)
      generalize hl : (s.thr (some c)).loc = l at hmove
      generalize s'.mem = m' at hmove
      cases hmove with
      | repeated hset => exact iff_of_true hset (.inl (mem_complete.mpr (.inr rfl)))
      | request hclear => exact iff_of_true rfl (.inr ⟨c, by rw [hself]; rfl⟩)
      | acknowledged =>
          -- the pause that is completed had set the flag
          exact iff_of_true (h.mpr (.inr ⟨c, hl⟩)) (.inl (mem_complete.mpr (.inr rfl)))
      | resume =>
          have hmem : .pause ∈ (s.mem.complete .resume).completed ↔ .pause ∈ s.mem.completed := by
            rw [mem_complete]
            exact or_iff_left (by decide)
          rw [hmem]
          refine h.trans (or_congr_right (exists_congr fun d => ?_))
          by_cases hd : d = c
          · rw [hd, hself, hl]
            rfl
          · rw [hother d hd]

/-- **Run lemma**: the invariant holds in every reachable state. -/
theorem requestOk_reachable (h : (pauseMachine spurious).Reachable s) : RequestOk s := by
  apply Program.invariant (I := fun s => RequestOk s) _ _ _ h
  · intro s hs
    rw [show s = freshPause τ from hs]
    exact RequestOk.init
  · intro s t op picks s' notes st hok _ hran
    exact hok.step hran
  · intro s t c l hok _ hw
    refine hok.trans (or_congr_right (exists_congr fun d => ?_))
    rw [loc_update_notified hw]

/-- The pause is undone: the flag is clear, a worker that wakes up leaves the loop, and the struct can be
destroyed. -/
structure Undone (m : PauseMem) : Prop where
  clear : m.shouldPause = false
  leaves : threadTestAndPause .paused m = .done m [] (.running .idle)
  destroy : threadDestroyPauseStruct m = some ()

theorem undone_iff {m : PauseMem} : Undone m ↔ m.shouldPause = false := by
  constructor
  · exact Undone.clear
  · intro hclear
    refine ⟨hclear, ?_, ?_⟩
    · unfold threadTestAndPause pauseLoop
      rw [hclear]
      rfl
    · unfold threadDestroyPauseStruct
      rw [hclear]
      rfl

/-- **What a resume undoes**: where no pause is under way, after a resume as after anything else,
the pause is undone exactly if there was none. -/
theorem resume_undoes_pause (h : (pauseMachine spurious).Reachable s)
    (hnone : ∀ c, (s.thr (some c)).loc ≠ .pausing) :
    Undone s.mem ↔ .pause ∉ s.mem.completed := by
  have hok : _ ↔ _ := requestOk_reachable h
  rw [undone_iff, ← Bool.not_eq_true, not_iff_not, hok]
  exact or_iff_left fun ⟨c, hc⟩ => hnone c hc

/-- A resume alone. -/
theorem resume_undoes_pause_trace :
    ∃ s : PauseConfig (Fin 1), (pauseMachine false).Reachable s ∧ s.mem.completed = [.resume] ∧
      Undone s.mem := by
  have hrun : ((pauseMachine false).exec (freshPause (Fin 1)) [.run (some 0) .resume [none]]).holds
      (fun s => decide (s.mem.completed = [.resume] ∧
        ∀ c, (s.thr (some c)).loc ≠ .pausing)) = true := by
    decide
  obtain ⟨s, hs, hp⟩ := Machine.exists_reachable_of_exec rfl hrun
  obtain ⟨hcompleted, hnone⟩ := of_decide_eq_true hp
  refine ⟨s, hs, hcompleted, (resume_undoes_pause hs hnone).mpr ?_⟩
  rw [hcompleted]
  decide

/-- A pause that was acknowledged, and a resume after it: the worker that the resume wakes up is
back in its wait. -/
theorem resume_keeps_pause :
    ∃ s : PauseConfig (Fin 1), (pauseMachine false).Reachable s ∧
      s.mem.completed = [.pause, .resume] ∧ (s.thr (some 0)).loc = .idle ∧
      s.mem.shouldPause = true ∧ s.thr none = .waiting .pauseCv .paused ∧
      threadDestroyPauseStruct s.mem = none := by
  have hrun : ((pauseMachine false).exec (freshPause (Fin 1))
      [.run (some 0) .pause [], .run none .pause [some (some 0)], .run (some 0) .pause [],
        .run (some 0) .resume [some none], .run none .pause []]).holds
      (fun s => decide (s.mem.completed = [.pause, .resume] ∧ (s.thr (some 0)).loc = .idle ∧
        s.mem.shouldPause = true ∧ s.thr none = .waiting .pauseCv .paused ∧
        threadDestroyPauseStruct s.mem = none)) = true := by
    decide
  obtain ⟨s, hs, hp⟩ := Machine.exists_reachable_of_exec rfl hrun
  exact ⟨s, hs, of_decide_eq_true hp⟩

end Results

end ThreadPausing
end MultithreadingBible
