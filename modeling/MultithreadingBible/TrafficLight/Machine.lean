import Mathlib.Data.Fintype.Option
import MultithreadingBible.MapReduceLib.WaitQueue

/-!
# A traffic light

A light with a face for each direction.  Vehicles cross while the red light of their direction is off and
wait in the wait queue of their face otherwise; `user_menu` turns on one light of a face at a time.

* `TrLightFace` — the lights of a face, its mutex and its wait queue.
* `vehicleExec` — `thread_move` with the calls it makes, cut at every access of the light or a queue.
* `trLightSetStatus` — a pass through the loop of `tr_light_set_status`.
* `trMachine` — all vehicles and the controller.

The vehicles of all directions lock the mutex of the face `EAST`, the controller that of the face it
changes.  A step that locks a mutex also does what comes next.
-/

namespace MultithreadingBible
namespace TrafficLight

open Lib MapReduceLib

inductive Dirn where
  | east
  | west
  | north
  | south
  deriving DecidableEq

inductive TrLightCol where
  | red
  | yellow
  | green
  deriving DecidableEq

/-- `tr_light_face_t`, with the owner of its mutex: `none` is the controller, the others are vehicles.  A
queue caches the mutex of a face. -/
structure TrLightFace (τ : Type*) where
  light : TrLightCol → Bool
  mutex : Option (Option τ)
  wq : WaitQueue Dirn

abbrev TrLight (τ : Type*) := Dirn → TrLightFace τ

/-- Where a vehicle or the controller is. -/
inductive TrLoc where
  /-- A vehicle before its test of the light, -/
  | drive
  /-- after it, with the mutex, -/
  | tested (shouldBlock : Bool)
  /-- in the loop of `wait_queue_test_and_wait` before and after `thread_wait_count++`, -/
  | count
  | counted
  /-- in its wait, with the mutex it is to lock again, -/
  | wait (mutex : Dirn)
  /-- after it and after `thread_wait_count--`, -/
  | retest
  /-- crossing. -/
  | cross
  /-- The controller in the menu, -/
  | menu
  /-- in the loop of `tr_light_set_status` with `col_it`, -/
  | set (dirn : Dirn) (col colIt : TrLightCol)
  /-- in `wait_queue_broadcast` before its tests and after them, -/
  | check (dirn : Dirn)
  | wake (dirn : Dirn)
  /-- after `tr_light_set_status`. -/
  | done (dirn : Dirn)
  deriving DecidableEq

/-- Threads wait on the condition variables of the faces. -/
abbrev TrEffect (τ : Type*) := Effect (TrLight τ) Dirn TrLoc

section Code

variable {τ : Type*}

/-- Another owner of the mutex of a face. -/
def setMutex (m : TrLight τ) (dirn : Dirn) (owner : Option (Option τ)) : TrLight τ :=
  Function.update m dirn { m dirn with mutex := owner }

/-- Another state of the wait queue of a face. -/
def setQueue (m : TrLight τ) (dirn : Dirn) (wq : WaitQueue Dirn) : TrLight τ :=
  Function.update m dirn { m dirn with wq := wq }

/-- `light[col] = status` -/
def setLight (m : TrLight τ) (dirn : Dirn) (col : TrLightCol) (status : Bool) : TrLight τ :=
  Function.update m dirn { m dirn with light := Function.update (m dirn).light col status }

def trLightInit : TrLight τ := fun _ => ⟨fun _ => false, none, waitQueueInit⟩

/-- The test of `thread_block_on_tr_light`. -/
def threadBlockOnTrLight (m : TrLight τ) (thDirn : Dirn) : Bool := (m thDirn).light .red

/-- The next `col_it`, or the end of the loop. -/
def nextCol (dirn : Dirn) (col : TrLightCol) : TrLightCol → TrLoc
  | .red => .set dirn col .yellow
  | .yellow => .set dirn col .green
  | .green => .done dirn

/-- A pass through the loop of `tr_light_set_status`, up to the broadcast.  `user_menu` only turns lights
on. -/
def trLightSetStatus (dirn : Dirn) (col colIt : TrLightCol) (m : TrLight τ) : TrLight τ × TrLoc :=
  if colIt = col then
    (setLight m dirn colIt true, if col = .green then .check dirn else nextCol dirn col colIt)
  else (setLight m dirn colIt false, nextCol dirn col colIt)

/-- `user_menu`, with the choice of the user. -/
def controllerExec (l : TrLoc) (choice : Dirn × TrLightCol) (m : TrLight τ) : TrEffect τ :=
  match l with
  | .menu =>
      match (m choice.1).mutex with
      | some _ => .blocked
      | none => .done (setMutex m choice.1 (some none)) [] (.running (.set choice.1 choice.2 .red))
  | .set dirn col colIt =>
      let (m, l) := trLightSetStatus dirn col colIt m
      .done m [] (.running l)
  | .check dirn =>
      -- the queue is not used any more if there is nobody to wake
      if (waitQueueBroadcast (m dirn).wq dirn).isEmpty then
        .done m [] (.running (nextCol dirn .green .green))
      else .done m [] (.running (.wake dirn))
  | .wake dirn => .done m [.broadcast dirn] (.running (nextCol dirn .green .green))
  | .done dirn => .done (setMutex m dirn none) [] (.running .menu)
  | _ => .blocked

/-- `thread_move` of a vehicle that goes in direction `thDirn`. -/
def vehicleExec (v : τ) (thDirn : Dirn) (l : TrLoc) (m : TrLight τ) : TrEffect τ :=
  match l with
  | .drive =>
      match (m .east).mutex with
      | some _ => .blocked
      | none =>
          let shouldBlock := threadBlockOnTrLight m thDirn
          .done (setMutex m .east (some (some v))) [] (.running (.tested shouldBlock))
  | .tested shouldBlock =>
      .done (setQueue m thDirn ((m thDirn).wq.cacheMutex .east)) []
        (.running (if shouldBlock then .count else .cross))
  | .count => .done (setQueue m thDirn (m thDirn).wq.countUp) [] (.running .counted)
  | .counted =>
      .call (m thDirn).wq.applnMutex fun mutex =>
        .done (setMutex m mutex none) [] (.waiting thDirn (.wait mutex))
  | .wait mutex =>
      match (m mutex).mutex with
      | some _ => .blocked
      | none =>
          let m := setMutex m mutex (some (some v))
          .done (setQueue m thDirn (m thDirn).wq.countDown) [] (.running .retest)
  | .retest => .done m [] (.running (if threadBlockOnTrLight m thDirn then .count else .cross))
  | .cross =>
      .call (m thDirn).wq.applnMutex fun mutex =>
        .done (setMutex m mutex none) [] (.running .drive)
  | _ => .blocked

/-- What the controller, or a vehicle, does next. -/
def trExec (thDirn : τ → Dirn) (p : Option τ) (l : TrLoc) (choice : Dirn × TrLightCol)
    (m : TrLight τ) : TrEffect τ :=
  match p with
  | none => controllerExec l choice m
  | some v => vehicleExec v (thDirn v) l m

/-- Vehicles with their directions, and the controller. -/
def trProgram (thDirn : τ → Dirn) (spurious : Bool) :
    Program (Option τ) (TrLight τ) Dirn TrLoc (Dirn × TrLightCol) where
  exec := trExec thDirn
  spuriousWakeups := spurious

abbrev TrConfig (τ : Type*) := Config (Option τ) (TrLight τ) Dirn TrLoc

/-- All lights are off, the vehicles drive up and the controller is in the menu. -/
def freshLight (τ : Type*) : TrConfig τ :=
  ⟨trLightInit, fun p => .running (if p.isSome then .drive else .menu)⟩

end Code

section Access

variable {τ : Type*} (m : TrLight τ) (d e : Dirn)

@[simp] theorem setMutex_light (o : Option (Option τ)) : (setMutex m d o e).light = (m e).light := by
  by_cases h : e = d
  · subst h
    simp [setMutex]
  · simp [setMutex, h]

@[simp] theorem setMutex_wq (o : Option (Option τ)) : (setMutex m d o e).wq = (m e).wq := by
  by_cases h : e = d
  · subst h
    simp [setMutex]
  · simp [setMutex, h]

@[simp] theorem setMutex_mutex_self (o : Option (Option τ)) : (setMutex m d o d).mutex = o := by
  simp [setMutex]

theorem setMutex_mutex_of_ne (o : Option (Option τ)) (h : e ≠ d) :
    (setMutex m d o e).mutex = (m e).mutex := by
  simp [setMutex, h]

@[simp] theorem setQueue_light (wq : WaitQueue Dirn) : (setQueue m d wq e).light = (m e).light := by
  by_cases h : e = d
  · subst h
    simp [setQueue]
  · simp [setQueue, h]

@[simp] theorem setQueue_mutex (wq : WaitQueue Dirn) : (setQueue m d wq e).mutex = (m e).mutex := by
  by_cases h : e = d
  · subst h
    simp [setQueue]
  · simp [setQueue, h]

@[simp] theorem setQueue_wq_self (wq : WaitQueue Dirn) : (setQueue m d wq d).wq = wq := by
  simp [setQueue]

theorem setQueue_wq_of_ne (wq : WaitQueue Dirn) (h : e ≠ d) :
    (setQueue m d wq e).wq = (m e).wq := by
  simp [setQueue, h]

variable (col : TrLightCol) (status : Bool)

@[simp] theorem setLight_mutex : (setLight m d col status e).mutex = (m e).mutex := by
  by_cases h : e = d
  · subst h
    simp [setLight]
  · simp [setLight, h]

@[simp] theorem setLight_wq : (setLight m d col status e).wq = (m e).wq := by
  by_cases h : e = d
  · subst h
    simp [setLight]
  · simp [setLight, h]

@[simp] theorem setLight_light_self : (setLight m d col status d).light col = status := by
  simp [setLight]

theorem setLight_light_of_ne {col' : TrLightCol} (h : e ≠ d ∨ col' ≠ col) :
    (setLight m d col status e).light col' = (m e).light col' := by
  by_cases he : e = d
  · subst he
    have hcol := h.resolve_left fun hne => hne rfl
    simp [setLight, hcol]
  · simp [setLight, he]

end Access

end TrafficLight
end MultithreadingBible
