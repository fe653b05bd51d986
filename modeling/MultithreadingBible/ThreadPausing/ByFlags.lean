import MultithreadingBible.Lib.Bits
import MultithreadingBible.ThreadPausing.Acknowledged

/-!
# Pausing a thread by its flags

`thread_t` of `section_thread_pause`.  A pause marks a running thread, and the thread pauses where it next
calls `thread_test_and_pause`.  A resume signals a thread that is paused and does not touch the mark.

* `flagMachine` — a worker and the controllers, after `thread_run`.  What a call does with the
  mutex, up to its end or its wait, is one step.
* `later_resume_wins` — one of the flags for running and paused is set; after a resume the worker does not
  pause again exactly if it was not marked when the resume came.
-/

namespace MultithreadingBible
namespace ThreadPausing

open Lib

def threadFRunning : BitVec 32 := BitVec.twoPow 32 0

def threadFMarkedForPause : BitVec 32 := BitVec.twoPow 32 1

def threadFPaused : BitVec 32 := BitVec.twoPow 32 2

/-- The `flags` of a `thread_t` and whether it has a `thread_pause_fn`; and the last control
operation, with whether the thread was marked when it came, which the code does not know. -/
structure ThreadMem where
  flags : BitVec 32
  threadPauseFn : Bool
  lastOp : Option (ControlOp × Bool)

/-- Where the worker is; the controllers are at `work` too. -/
inductive FlagLoc where
  | work
  /-- In the wait of `thread_test_and_pause`. -/
  | paused
  deriving DecidableEq

abbrev FlagEffect := Effect ThreadMem Unit FlagLoc

/-- The flags after `thread_create` and `thread_run`. -/
def threadRun : BitVec 32 := setBit 0#32 threadFRunning

/-- A control operation is carried out. -/
def ThreadMem.record (m : ThreadMem) (op : ControlOp) : ThreadMem :=
  { m with lastOp := some (op, isBitSet m.flags threadFMarkedForPause) }

/-- `thread_pause` of `section_thread_pause` -/
def flagPause (m : ThreadMem) : FlagEffect :=
  let flags :=
    if isBitSet m.flags threadFRunning then setBit m.flags threadFMarkedForPause else m.flags
  .done { m.record .pause with flags := flags } [] (.running .work)

/-- `thread_resume` of `section_thread_pause` -/
def flagResume (m : ThreadMem) : FlagEffect :=
  let notes := if isBitSet m.flags threadFPaused then [.signal ()] else []
  .done (m.record .resume) notes (.running .work)

/-- `thread_test_and_pause` of `section_thread_pause` -/
def flagTestAndPause (l : FlagLoc) (m : ThreadMem) : FlagEffect :=
  match l with
  | .work =>
      if isBitSet m.flags threadFMarkedForPause then
        let flags := setBit m.flags threadFPaused
        let flags := unsetBit flags threadFMarkedForPause
        let flags := unsetBit flags threadFRunning
        .done { m with flags := flags } [] (.waiting () .paused)
      else .done m [] (.running .work)
  | .paused =>
      let flags := setBit m.flags threadFRunning
      let flags := unsetBit flags threadFPaused
      -- the function is called without a test
      if m.threadPauseFn then .done { m with flags := flags } [] (.running .work) else .abort

section Threads

variable {τ : Type*}

/-- What the worker, `none`, or a controller does next. -/
def flagExec (t : Option τ) (l : FlagLoc) (op : ControlOp) (m : ThreadMem) : FlagEffect :=
  match t, op with
  | none, _ => flagTestAndPause l m
  | some _, .pause => flagPause m
  | some _, .resume => flagResume m

/-- The worker and the controllers, without spurious wake-ups. -/
def flagProgram : Program (Option τ) ThreadMem Unit FlagLoc ControlOp where
  exec := flagExec
  spuriousWakeups := false

abbrev FlagConfig (τ : Type*) := Config (Option τ) ThreadMem Unit FlagLoc

/-- The worker has been started. -/
def freshThread (τ : Type*) (threadPauseFn : Bool) : FlagConfig τ :=
  ⟨⟨threadRun, threadPauseFn, none⟩, fun _ => .running .work⟩

variable [DecidableEq τ] [Fintype τ]

/-- All runs of the worker and the controllers. -/
def flagMachine (threadPauseFn : Bool) : Machine (FlagConfig τ) (Act (Option τ) ControlOp) :=
  flagProgram.machine fun s => s = freshThread τ threadPauseFn

end Threads

/-- The three flags of a thread. -/
structure FlagsAre (flags : BitVec 32) (running marked paused : Bool) : Prop where
  running : isBitSet flags threadFRunning = running
  marked : isBitSet flags threadFMarkedForPause = marked
  paused : isBitSet flags threadFPaused = paused

section Flags

variable {flags : BitVec 32} {running marked paused : Bool}

theorem flagsAre_threadRun : FlagsAre threadRun true false false := by
  refine ⟨?_, ?_, ?_⟩
  all_goals decide

theorem FlagsAre.setRunning (h : FlagsAre flags running marked paused) :
    FlagsAre (setBit flags threadFRunning) true marked paused where
  running := isBitSet_setBit_self flags (by decide)
  marked := (isBitSet_setBit_of_ne flags (by decide) (by decide)).trans h.marked
  paused := (isBitSet_setBit_of_ne flags (by decide) (by decide)).trans h.paused

theorem FlagsAre.setMarked (h : FlagsAre flags running marked paused) :
    FlagsAre (setBit flags threadFMarkedForPause) running true paused where
  running := (isBitSet_setBit_of_ne flags (by decide) (by decide)).trans h.running
  marked := isBitSet_setBit_self flags (by decide)
  paused := (isBitSet_setBit_of_ne flags (by decide) (by decide)).trans h.paused

theorem FlagsAre.setPaused (h : FlagsAre flags running marked paused) :
    FlagsAre (setBit flags threadFPaused) running marked true where
  running := (isBitSet_setBit_of_ne flags (by decide) (by decide)).trans h.running
  marked := (isBitSet_setBit_of_ne flags (by decide) (by decide)).trans h.marked
  paused := isBitSet_setBit_self flags (by decide)

theorem FlagsAre.unsetRunning (h : FlagsAre flags running marked paused) :
    FlagsAre (unsetBit flags threadFRunning) false marked paused where
  running := isBitSet_unsetBit_self flags (by decide)
  marked := (isBitSet_unsetBit_of_ne flags (by decide) (by decide)).trans h.marked
  paused := (isBitSet_unsetBit_of_ne flags (by decide) (by decide)).trans h.paused

theorem FlagsAre.unsetMarked (h : FlagsAre flags running marked paused) :
    FlagsAre (unsetBit flags threadFMarkedForPause) running false paused where
  running := (isBitSet_unsetBit_of_ne flags (by decide) (by decide)).trans h.running
  marked := isBitSet_unsetBit_self flags (by decide)
  paused := (isBitSet_unsetBit_of_ne flags (by decide) (by decide)).trans h.paused

theorem FlagsAre.unsetPaused (h : FlagsAre flags running marked paused) :
    FlagsAre (unsetBit flags threadFPaused) running marked false where
  running := (isBitSet_unsetBit_of_ne flags (by decide) (by decide)).trans h.running
  marked := (isBitSet_unsetBit_of_ne flags (by decide) (by decide)).trans h.marked
  paused := isBitSet_unsetBit_self flags (by decide)

end Flags

section Results

variable {τ : Type*} {threadPauseFn : Bool} {s s' : FlagConfig τ} {t : Option τ} {c : τ}
  {op : ControlOp} {notes : List (Note Unit)} {st : Status Unit FlagLoc}

/-- Where the worker is, by its flags. -/
def WorkerPlaced (flags : BitVec 32) : Status Unit FlagLoc → Prop
  | .running l => l = .work ∧ ∃ marked, FlagsAre flags true marked false
  | .waiting _ l => l = .paused ∧ FlagsAre flags false false true
  | .notified _ l => l = .paused ∧ FlagsAre flags false false true

/-- The worker is to pause, or it is paused and was not resumed. -/
def Due (s : FlagConfig τ) : Prop :=
  isBitSet s.mem.flags threadFMarkedForPause = true ∨ (s.thr none).isWaiting = true

/-- What holds of the worker and its flags. -/
structure FlagInv (s : FlagConfig τ) : Prop where
  worker : WorkerPlaced s.mem.flags (s.thr none)
  controllers : ∀ c, s.thr (some c) = .running .work
  due : ∀ marked, s.mem.lastOp = some (.resume, marked) → (Due s ↔ marked = true)

theorem FlagInv.init : FlagInv (freshThread τ threadPauseFn) where
  worker := ⟨rfl, false, flagsAre_threadRun⟩
  controllers c := rfl
  due marked h := by cases h

/-- A worker that is marked is not paused. -/
theorem FlagInv.work_of_marked (h : FlagInv s)
    (hmarked : isBitSet s.mem.flags threadFMarkedForPause = true) : s.thr none = .running .work := by
  have hp := h.worker
  cases hthr : s.thr none with
  | running l =>
      rw [hthr] at hp
      rw [hp.1]
  | waiting u l =>
      rw [hthr] at hp
      rw [hp.2.marked] at hmarked
      cases hmarked
  | notified u l =>
      rw [hthr] at hp
      rw [hp.2.marked] at hmarked
      cases hmarked

/-- A worker that waits is paused by its flags. -/
theorem FlagInv.paused_of_waiting (h : FlagInv s) (hw : (s.thr none).isWaiting = true) :
    isBitSet s.mem.flags threadFPaused = true := by
  have hp := h.worker
  obtain ⟨u, l, hthr⟩ := Status.isWaiting_iff.mp hw
  rw [hthr] at hp
  exact hp.2.paused

/-- One of the flags for running and paused is set, and only one. -/
theorem FlagInv.running_ne_paused (h : FlagInv s) :
    isBitSet s.mem.flags threadFRunning ≠ isBitSet s.mem.flags threadFPaused := by
  have hp := h.worker
  cases hthr : s.thr none with
  | running l =>
      rw [hthr] at hp
      obtain ⟨-, marked, hflags⟩ := hp
      rw [hflags.running, hflags.paused]
      decide
  | waiting u l =>
      rw [hthr] at hp
      rw [hp.2.running, hp.2.paused]
      decide
  | notified u l =>
      rw [hthr] at hp
      rw [hp.2.running, hp.2.paused]
      decide

variable [DecidableEq τ]

/-- What a call of `thread_pause` does. -/
theorem pause_of_ran (hran : flagProgram.Ran s (some c) .pause s' notes st) :
    s'.mem = { s.mem.record .pause with
        flags := if isBitSet s.mem.flags threadFRunning then
          setBit s.mem.flags threadFMarkedForPause else s.mem.flags } ∧
      s'.thr = Function.update s.thr (some c) (.running .work) := by
  have hexec : flagPause s.mem = .done s'.mem notes st := hran.exec
  injection hexec with hm hnotes hst
  subst hnotes hst
  exact ⟨hm.symm, hran.thr_of_nil⟩

/-- What a call of `thread_resume` does: a worker that waits is notified. -/
theorem FlagInv.resume_of_ran (h : FlagInv s)
    (hran : flagProgram.Ran s (some c) .resume s' notes st) :
    s'.mem = s.mem.record .resume ∧ (s'.thr none).isWaiting = false ∧
      ∀ u, s'.thr u = s.thr u ∨ ∃ l, s.thr u = .waiting () l ∧ s'.thr u = .notified () l := by
  have hexec : flagResume s.mem = .done s'.mem notes st := hran.exec
  injection hexec with hm hnotes hst
  refine ⟨hm.symm, ?_, fun u => ?_⟩
  · rw [Bool.eq_false_iff]
    intro hw
    obtain ⟨x, l, hthr⟩ := Status.isWaiting_iff.mp hw
    have hold := hran.waiting_of_ne (Option.some_ne_none c).symm hthr
    have hpaused := h.paused_of_waiting (by rw [hold]; rfl)
    rw [if_pos hpaused] at hnotes
    -- nobody else waits, so the signal reaches the worker
    obtain ⟨u, l', -, hu, hu'⟩ :=
      hran.signal (c := ()) (by rw [← hnotes]; exact List.mem_singleton_self _)
      ⟨none, l, hold⟩
    cases u with
    | none =>
        rw [hu'] at hthr
        cases hthr
    | some d =>
        rw [h.controllers d] at hu
        cases hu
  · by_cases hu : u = some c
    · left
      rw [hu, hran.self, ← hst, h.controllers c]
    · rcases hran.other hu with hsame | ⟨x, l, hw, hn, -⟩
      · exact .inl hsame
      · exact .inr ⟨l, hw, hn⟩

/-- Everything the worker can do. -/
inductive WorkerMove (s s' : FlagConfig τ) : Prop
  | pass (hmarked : isBitSet s.mem.flags threadFMarkedForPause = false) (hmem : s'.mem = s.mem)
      (hsame : s'.thr none = s.thr none)
  | pause (hmarked : isBitSet s.mem.flags threadFMarkedForPause = true)
      (hflags : FlagsAre s'.mem.flags false false true) (hlast : s'.mem.lastOp = s.mem.lastOp)
      (hself : s'.thr none = .waiting () .paused)
  | leave (hmarked : isBitSet s.mem.flags threadFMarkedForPause = false)
      (hflags : FlagsAre s'.mem.flags true false false) (hlast : s'.mem.lastOp = s.mem.lastOp)
      (hself : s'.thr none = .running .work)

theorem FlagInv.worker_of_ran (h : FlagInv s) (hran : flagProgram.Ran s none op s' notes st) :
    WorkerMove s s' ∧ notes = [] := by
  have hexec : flagTestAndPause (s.thr none).loc s.mem = .done s'.mem notes st := hran.exec
  have hself := hran.self
  have hawake := hran.awake
  have hp := h.worker
  cases hthr : s.thr none with
  | running l =>
      rw [hthr] at hexec hp
      obtain ⟨hl, marked, hflags⟩ := hp
      rw [show (Status.running l : Status Unit FlagLoc).loc = .work from hl] at hexec
      unfold flagTestAndPause at hexec
      dsimp only at hexec
      split at hexec
      · next hmarked =>
        injection hexec with hm hnotes hst
        refine ⟨.pause hmarked ?_ ?_ (hself.trans hst.symm), hnotes.symm⟩
        · rw [← hm]
          exact hflags.setPaused.unsetMarked.unsetRunning
        · rw [← hm]
      · next hmarked =>
        injection hexec with hm hnotes hst
        refine ⟨.pass (Bool.eq_false_iff.mpr hmarked) hm.symm ?_, hnotes.symm⟩
        rw [hself, ← hst, hthr, hl]
  | waiting u l =>
      rw [hthr] at hawake
      cases hawake
  | notified u l =>
      rw [hthr] at hexec hp
      obtain ⟨hl, hflags⟩ := hp
      rw [show (Status.notified u l : Status Unit FlagLoc).loc = .paused from hl] at hexec
      unfold flagTestAndPause at hexec
      dsimp only at hexec
      split at hexec
      · injection hexec with hm hnotes hst
        refine ⟨.leave hflags.marked ?_ ?_ (hself.trans hst.symm), hnotes.symm⟩
        · rw [← hm]
          exact hflags.setRunning.unsetPaused
        · rw [← hm]
      · cases hexec

/-- A worker that is not due stays so without a pause. -/
theorem FlagInv.not_due_step (h : FlagInv s) (hran : flagProgram.Ran s t op s' notes st)
    (hop : t ≠ none → op = .resume) (hdue : ¬ Due s) : ¬ Due s' := by
  cases t with
  | some c =>
      rw [hop (Option.some_ne_none c)] at hran
      obtain ⟨hmem, hawake, -⟩ := h.resume_of_ran hran
      rintro (hmarked | hw)
      · rw [hmem] at hmarked
        exact hdue (.inl hmarked)
      · rw [hawake] at hw
        cases hw
  | none =>
      cases (h.worker_of_ran hran).1 with
      | pass hmarked hmem hsame =>
          unfold Due
          rwa [hmem, hsame]
      | pause hmarked hflags hlast hself => exact absurd (.inl hmarked) hdue
      | leave hmarked hflags hlast hself =>
          rintro (hm | hw)
          · rw [hflags.marked] at hm
            cases hm
          · rw [hself] at hw
            cases hw

/-- A call of `thread_pause` keeps the invariant. -/
theorem FlagInv.step_pause (h : FlagInv s) (hran : flagProgram.Ran s (some c) .pause s' notes st) :
    FlagInv s' := by
  obtain ⟨hmem, hthr⟩ := pause_of_ran hran
  have hp := h.worker
  refine ⟨?_, fun d => ?_, fun marked hlast => ?_⟩
  · rw [hmem, hthr, Function.update_of_ne (Option.some_ne_none c).symm]
    cases hworker : s.thr none with
    | running l =>
        rw [hworker] at hp
        obtain ⟨hl, marked, hflags⟩ := hp
        refine ⟨hl, true, ?_⟩
        dsimp only
        rw [if_pos hflags.running]
        exact hflags.setMarked
    | waiting u l =>
        rw [hworker] at hp
        refine ⟨hp.1, ?_⟩
        dsimp only
        rw [if_neg (by rw [hp.2.running]; exact Bool.false_ne_true)]
        exact hp.2
    | notified u l =>
        rw [hworker] at hp
        refine ⟨hp.1, ?_⟩
        dsimp only
        rw [if_neg (by rw [hp.2.running]; exact Bool.false_ne_true)]
        exact hp.2
  · rw [hthr]
    by_cases hd : some d = some c
    · rw [hd, Function.update_self]
    · rw [Function.update_of_ne hd]
      exact h.controllers d
  · rw [hmem] at hlast
    cases hlast

/-- A call of `thread_resume` keeps the invariant. -/
theorem FlagInv.step_resume (h : FlagInv s) (hran : flagProgram.Ran s (some c) .resume s' notes st) :
    FlagInv s' := by
  obtain ⟨hmem, hawake, hthr⟩ := h.resume_of_ran hran
  have hp := h.worker
  refine ⟨?_, fun d => ?_, fun marked hlast => ?_⟩
  · rw [hmem]
    rcases hthr none with hsame | ⟨l, hw, hn⟩
    · rw [hsame]
      exact hp
    · rw [hw] at hp
      rw [hn]
      exact hp
  · rcases hthr (some d) with hsame | ⟨l, hw, -⟩
    · rw [hsame]
      exact h.controllers d
    · rw [h.controllers d] at hw
      cases hw
  · rw [hmem] at hlast
    injection hlast with hlast
    injection hlast with _ hmarked
    unfold Due
    rw [hmem, hawake, ← hmarked]
    exact or_iff_left Bool.false_ne_true

/-- A step of the worker keeps the invariant. -/
theorem FlagInv.step_worker (h : FlagInv s) (hran : flagProgram.Ran s none op s' notes st) :
    FlagInv s' := by
  obtain ⟨hmove, rfl⟩ := h.worker_of_ran hran
  have hp := h.worker
  refine ⟨?_, fun d => ?_, fun marked hlast => ?_⟩
  · cases hmove with
    | pass hmarked hmem hsame =>
        rw [hmem, hsame]
        exact hp
    | pause hmarked hflags hlast hself =>
        rw [hself]
        exact ⟨rfl, hflags⟩
    | leave hmarked hflags hlast hself =>
        rw [hself]
        exact ⟨rfl, false, hflags⟩
  · rw [hran.other_of_nil (Option.some_ne_none d)]
    exact h.controllers d
  · cases hmove with
    | pass hmarked hmem hsame =>
        rw [hmem] at hlast
        unfold Due
        rw [hmem, hsame]
        exact h.due marked hlast
    | pause hmarked hflags hkeep hself =>
        rw [hkeep] at hlast
        have hold := (h.due marked hlast).mp (.inl hmarked)
        exact iff_of_true (.inr (by rw [hself]; rfl)) hold
    | leave hmarked hflags hkeep hself =>
        rw [hkeep] at hlast
        have hnot : ¬ Due s := by
          rintro (hm | hw)
          · rw [hmarked] at hm
            cases hm
          · rw [hran.awake] at hw
            cases hw
        refine iff_of_false ?_ fun hm => hnot ((h.due marked hlast).mpr hm)
        rintro (hm | hw)
        · rw [hflags.marked] at hm
          cases hm
        · rw [hself] at hw
          cases hw

/-- **Step lemma**: every step keeps the invariant. -/
theorem FlagInv.step (h : FlagInv s) (hran : flagProgram.Ran s t op s' notes st) : FlagInv s' := by
  cases t with
  | none => exact h.step_worker hran
  | some c =>
      cases op with
      | pause => exact h.step_pause hran
      | resume => exact h.step_resume hran

variable [Fintype τ]

/-- Nobody wakes up without having been notified. -/
theorem ran_of_step {a : Act (Option τ) ControlOp}
    (h : (flagMachine threadPauseFn).step s a = .next s') :
    ∃ t op picks notes st, a = .run t op picks ∧ flagProgram.Ran s t op s' notes st := by
  cases a with
  | run t op picks =>
      obtain ⟨notes, st, hran⟩ := Program.ran_of_step h
      exact ⟨t, op, picks, notes, st, rfl, hran⟩
  | spurious t =>
      obtain ⟨hno, -⟩ := Program.spurious_of_step h
      cases hno

/-- **Run lemma**: the invariant holds in every reachable state. -/
theorem flagInv_reachable (h : (flagMachine threadPauseFn).Reachable s) : FlagInv s := by
  refine h.invariant (I := fun s => FlagInv s) ?_ ?_
  · intro s hs
    rw [show s = freshThread τ threadPauseFn from hs]
    exact FlagInv.init
  · intro s a s' hinv _ hstep
    obtain ⟨t, op, picks, notes, st, -, hran⟩ := ran_of_step hstep
    exact hinv.step hran

/-- No call of `thread_pause`. -/
def NoPause (as : List (Act (Option τ) ControlOp)) : Prop :=
  ∀ a ∈ as, ∀ c picks, a ≠ .run (some c) .pause picks

/-- The worker stays out of its wait before the next pause. -/
def StaysAwake (threadPauseFn : Bool) (s : FlagConfig τ) : Prop :=
  ∀ as s', NoPause as → (flagMachine threadPauseFn).exec s as = .next s' →
    (s'.thr none).isWaiting = false

/-- **Run of steps without a pause**: a worker that is not due does not pause. -/
theorem FlagInv.staysAwake (h : FlagInv s) (hdue : ¬ Due s) : StaysAwake threadPauseFn s := by
  intro as
  induction as generalizing s with
  | nil =>
      intro s' _ hrun
      cases hrun
      exact Bool.eq_false_iff.mpr fun hw => hdue (.inr hw)
  | cons a as ih =>
      intro s' hnone hrun
      rw [Machine.exec_cons] at hrun
      cases hstep : (flagMachine threadPauseFn).step s a with
      | blocked => simp [hstep, Outcome.bind] at hrun
      | abort => simp [hstep, Outcome.bind] at hrun
      | next s₁ =>
          simp only [hstep, Outcome.bind] at hrun
          obtain ⟨t, op, picks, notes, st, rfl, hran⟩ := ran_of_step hstep
          have hop : t ≠ none → op = .resume := by
            intro ht
            obtain ⟨c, rfl⟩ := Option.ne_none_iff_exists'.mp ht
            cases op with
            | pause => exact absurd rfl (hnone _ (List.mem_cons_self ..) c picks)
            | resume => rfl
          exact ih (h.step hran) (h.not_due_step hran hop hdue) s'
            (fun b hb => hnone b (List.mem_cons_of_mem _ hb)) hrun

/-- A worker that is due pauses, if it has not. -/
theorem FlagInv.not_staysAwake (h : FlagInv s) (hdue : Due s) : ¬ StaysAwake threadPauseFn s := by
  intro hawake
  rcases hdue with hmarked | hw
  · have hwork := h.work_of_marked hmarked
    have hexec : (flagProgram (τ := τ)).exec none (s.thr none).loc .pause s.mem =
        .done { s.mem with
          flags := unsetBit (unsetBit (setBit s.mem.flags threadFPaused) threadFMarkedForPause)
            threadFRunning } [] (.waiting () .paused) := by
      rw [hwork]
      exact if_pos hmarked
    have hstep := Program.step_of_silent [] (by rw [hwork]; rfl) hexec
    have hnext : (flagMachine threadPauseFn).step s (.run none .pause []) = .next _ := hstep
    have hnone : NoPause [(.run none .pause [] : Act (Option τ) ControlOp)] := by
      intro a ha c picks
      rw [List.mem_singleton.mp ha]
      simp
    have hfalse : (Function.update s.thr none (.waiting () .paused) none).isWaiting = false :=
      hawake _ _ hnone (by rw [Machine.exec_cons, hnext]; rfl)
    rw [Function.update_self] at hfalse
    cases hfalse
  · have hnone : NoPause ([] : List (Act (Option τ) ControlOp)) := by
      intro a ha
      cases ha
    have hfalse := hawake [] s hnone rfl
    rw [hw] at hfalse
    cases hfalse

/-- **When a later resume wins**: one of the flags for running and paused is set, and where a resume
was the last operation, the worker is out of its wait and stays so before the next pause exactly if
it was not marked when the resume came. -/
theorem later_resume_wins (h : (flagMachine threadPauseFn).Reachable s) :
    isBitSet s.mem.flags threadFRunning ≠ isBitSet s.mem.flags threadFPaused ∧
      ∀ marked, s.mem.lastOp = some (.resume, marked) →
        (StaysAwake threadPauseFn s ↔ marked = false) := by
  have hinv := flagInv_reachable h
  refine ⟨hinv.running_ne_paused, fun marked hlast => ?_⟩
  rw [← Bool.not_eq_true, ← hinv.due marked hlast]
  constructor
  · intro hawake hdue
    exact hinv.not_staysAwake hdue hawake
  · exact hinv.staysAwake

/-- A worker that is paused is resumed. -/
theorem later_resume_wins_trace :
    ∃ s : FlagConfig (Fin 1), (flagMachine true).Reachable s ∧
      s.mem.lastOp = some (.resume, false) ∧ StaysAwake true s := by
  have hrun : ((flagMachine true).exec (freshThread (Fin 1) true)
      [.run (some 0) .pause [], .run none .pause [], .run (some 0) .resume [some none]]).holds
      (fun s => decide (s.mem.lastOp = some (.resume, false))) = true := by
    decide +kernel
  obtain ⟨s, hs, hp⟩ := Machine.exists_reachable_of_exec rfl hrun
  have hlast := of_decide_eq_true hp
  exact ⟨s, hs, hlast, ((later_resume_wins hs).2 false hlast).mpr rfl⟩

/-- A pause and a resume before the worker has seen the mark: the worker pauses after both. -/
theorem later_resume_lost :
    ∃ s : FlagConfig (Fin 1), (flagMachine true).Reachable s ∧
      s.mem.lastOp = some (.resume, true) ∧ s.thr none = .waiting () .paused := by
  have hrun : ((flagMachine true).exec (freshThread (Fin 1) true)
      [.run (some 0) .pause [], .run (some 0) .resume [], .run none .pause []]).holds
      (fun s => decide (s.mem.lastOp = some (.resume, true) ∧
        s.thr none = .waiting () .paused)) = true := by
    decide +kernel
  obtain ⟨s, hs, hp⟩ := Machine.exists_reachable_of_exec rfl hrun
  exact ⟨s, hs, of_decide_eq_true hp⟩

end Results

end ThreadPausing
end MultithreadingBible
