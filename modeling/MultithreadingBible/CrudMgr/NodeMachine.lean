import MultithreadingBible.CrudMgr.Decisions
import MultithreadingBible.CrudMgr.Lifecycle

/-!
# CRUD manager: one node, one critical section at a time

Any number of threads call `crud_request_read`, `crud_request_write`, `crud_request_delete` and
`crud_request_release` on one node.  A critical section under the node's mutex is one step, and so is
the section of a delete request and of a delete's release under the manager's mutex.  The first lines
of `crud_request_release`, which read `curr_op` without a lock, are a step of their own.

`NodeMove` lists everything a step can do, and `NodeMove.counts` what it does to the represented
counts: it moves the thread's own contribution.
-/

namespace MultithreadingBible
namespace CrudMgr

open Lib

variable {τ ν : Type*} [DecidableEq ν]

/-- Where a thread that uses the node is. -/
inductive NodeLoc where
  /-- Outside all calls, without a grant. -/
  | idle
  /-- In the wait of a request under the node's mutex. -/
  | wait (r : NodeReq)
  /-- Granted `op` and not yet in `crud_request_release`. -/
  | holds (op : CrudOpType)
  /-- In `crud_request_release`, after `curr_op` was read as `currOp`. -/
  | releasing (op currOp : CrudOpType)
  /-- In `crud_request_delete`, before it locks the manager's mutex. -/
  | deleteMgr
  /-- In the wait of a delete request under the manager's mutex. -/
  | deleteMgrWait
  /-- In `crud_request_release`, before it locks the manager's mutex. -/
  | releaseMgr
  deriving DecidableEq

abbrev NodeEffect (ν : Type*) := Effect (CrudMem ν) (ν × CrudCv) NodeLoc

/-- A pass through the loop of a request, under the node's mutex. -/
def requestLoop (n : ν) (r : NodeReq) (m : CrudMem ν) : NodeEffect ν :=
  match r.loop m n with
  | .quit notes => .done m notes (.running .idle)
  | .fail => .abort
  | .block s cv =>
      .call (crudNodeEnterState m n s) fun m => .done m [] (.waiting (n, cv) (.wait r))
  | .grant s => .call (crudNodeEnterState m n s) fun m => .done m [] (.running (.holds r.op))
  | .leave =>
      .call (crudNodeEnterState m n .pendingDelete) fun m => .done m [] (.running .deleteMgr)

/-- A pass through the manager-level loop of `crud_request_delete`. -/
def deleteMgrLoop (n : ν) (m : CrudMem ν) : NodeEffect ν :=
  if !m.nothingInProgress then
    .call (crudNodeEnterState m n .pendingDelete) fun m =>
      .done m [] (.waiting (n, .deleteThreadCv) .deleteMgrWait)
  else
    .call (crudNodeExitState m n .pendingDelete) fun m =>
      .call (crudNodeEnterState m n .deleteInProgress) fun m =>
        .done m [] (.running (.holds .delete))

/-- Where a thread goes after the first critical section of `crud_request_release`. -/
def afterRelease (currOp : CrudOpType) : NodeLoc :=
  if currOp.isStructural then .releaseMgr else .idle

/-- What a thread does next.  An idle thread makes the request `x`. -/
def nodeExec (n : ν) (l : NodeLoc) (x : NodeReq) (m : CrudMem ν) : NodeEffect ν :=
  match l with
  | .idle =>
      if rejectsRequest (m.node n) then .done m [] (.running .idle) else requestLoop n x m
  | .wait r => .call (crudNodeExitState m n r.pendingState) fun m => requestLoop n r m
  | .holds op =>
      if (m.node n).currOp = .opNone then .abort
      else .done m [] (.running (.releasing op (m.node n).currOp))
  | .releasing _ currOp =>
      .call (releasedState currOp) fun s =>
        .call (crudNodeExitState m n s) fun m =>
          .call (releaseNodeTail n currOp (m.node n)) fun notes =>
            .done m notes (.running (afterRelease currOp))
  | .deleteMgr => deleteMgrLoop n m
  | .deleteMgrWait => .call (crudNodeExitState m n .pendingDelete) fun m => deleteMgrLoop n m
  | .releaseMgr => .call (releaseMgrSection m) fun notes => .done m notes (.running .idle)

/-- Threads on node `n`.  Whether waits may end without a notification is left open. -/
def nodeProgram (τ : Type*) (spurious : Bool) (n : ν) :
    Program τ (CrudMem ν) (ν × CrudCv) NodeLoc NodeReq where
  exec _ := nodeExec n
  spuriousWakeups := spurious

/-- All runs of threads that use node `n` of a manager and no other. -/
def nodeMachine (τ : Type*) [DecidableEq τ] [Fintype τ] (spurious : Bool) (n : ν) :
    Machine (Config τ (CrudMem ν) (ν × CrudCv) NodeLoc) (Act τ NodeReq) :=
  (nodeProgram τ spurious n).machine fun s =>
    Initialised s.mem ∧ ∀ t, s.thr t = .running .idle

@[simp] theorem nodeProgram_exec (spurious : Bool) (n : ν) (t : τ) :
    (nodeProgram τ spurious n).exec t = nodeExec n := rfl

@[simp] theorem nodeMachine_step [DecidableEq τ] [Fintype τ] (spurious : Bool) (n : ν) :
    (nodeMachine τ spurious n).step = (nodeProgram τ spurious n).step := rfl

/-- The state a request tests at the head of its loop: a resumed thread has left its pending state
before. -/
inductive Arrives (n : ν) (x : NodeReq) (m : CrudMem ν) : NodeLoc → NodeReq → CrudMem ν → Prop
  | fresh (h : rejectsRequest (m.node n) = false) : Arrives n x m .idle x m
  | resumed {r : NodeReq} {m₁ : CrudMem ν}
      (h : crudNodeExitState m n r.pendingState = some m₁) : Arrives n x m (.wait r) r m₁

/-- The same for the manager-level loop of a delete request. -/
inductive ArrivesMgr (n : ν) (m : CrudMem ν) : NodeLoc → CrudMem ν → Prop
  | fresh : ArrivesMgr n m .deleteMgr m
  | resumed {m₁ : CrudMem ν} (h : crudNodeExitState m n .pendingDelete = some m₁) :
      ArrivesMgr n m .deleteMgrWait m₁

/-- Everything a thread can do. -/
inductive NodeMove (n : ν) (x : NodeReq) (m : CrudMem ν) : NodeLoc → CrudMem ν →
    List (Note (ν × CrudCv)) → Status (ν × CrudCv) NodeLoc → Prop
  | rejected (h : rejectsRequest (m.node n) = true) : NodeMove n x m .idle m [] (.running .idle)
  | quit {l : NodeLoc} {r : NodeReq} {m₁ : CrudMem ν} {notes : List (Note (ν × CrudCv))}
      (ha : Arrives n x m l r m₁) (hl : r.loop m₁ n = .quit notes) :
      NodeMove n x m l m₁ notes (.running .idle)
  | block {l : NodeLoc} {r : NodeReq} {m₁ m' : CrudMem ν} {s : CrudNodeState} {cv : CrudCv}
      (ha : Arrives n x m l r m₁) (hl : r.loop m₁ n = .block s cv)
      (he : crudNodeEnterState m₁ n s = some m') :
      NodeMove n x m l m' [] (.waiting (n, cv) (.wait r))
  | grant {l : NodeLoc} {r : NodeReq} {m₁ m' : CrudMem ν} {s : CrudNodeState}
      (ha : Arrives n x m l r m₁) (hl : r.loop m₁ n = .grant s)
      (he : crudNodeEnterState m₁ n s = some m') :
      NodeMove n x m l m' [] (.running (.holds r.op))
  | leave {l : NodeLoc} {r : NodeReq} {m₁ m' : CrudMem ν}
      (ha : Arrives n x m l r m₁) (hl : r.loop m₁ n = .leave)
      (he : crudNodeEnterState m₁ n .pendingDelete = some m') :
      NodeMove n x m l m' [] (.running .deleteMgr)
  | readOp {op : CrudOpType} (h : (m.node n).currOp ≠ .opNone) :
      NodeMove n x m (.holds op) m [] (.running (.releasing op (m.node n).currOp))
  | release {op currOp : CrudOpType} {s : CrudNodeState} {m' : CrudMem ν}
      {notes : List (Note (ν × CrudCv))} (hs : releasedState currOp = some s)
      (he : crudNodeExitState m n s = some m')
      (ht : releaseNodeTail n currOp (m'.node n) = some notes) :
      NodeMove n x m (.releasing op currOp) m' notes (.running (afterRelease currOp))
  | deferDelete {l : NodeLoc} {m₁ m' : CrudMem ν} (ha : ArrivesMgr n m l m₁)
      (hl : m₁.nothingInProgress = false) (he : crudNodeEnterState m₁ n .pendingDelete = some m') :
      NodeMove n x m l m' [] (.waiting (n, .deleteThreadCv) .deleteMgrWait)
  | grantDelete {l : NodeLoc} {m₁ m₂ m' : CrudMem ν} (ha : ArrivesMgr n m l m₁)
      (hl : m₁.nothingInProgress = true) (hx : crudNodeExitState m₁ n .pendingDelete = some m₂)
      (he : crudNodeEnterState m₂ n .deleteInProgress = some m') :
      NodeMove n x m l m' [] (.running (.holds .delete))
  | signal {notes : List (Note (ν × CrudCv))} (h : releaseMgrSection m = some notes) :
      NodeMove n x m .releaseMgr m notes (.running .idle)

section Moves

variable {n : ν} {x : NodeReq} {l : NodeLoc} {m m' m₁ : CrudMem ν} {r : NodeReq}
  {notes : List (Note (ν × CrudCv))} {st : Status (ν × CrudCv) NodeLoc}

theorem nodeMove_of_requestLoop (ha : Arrives n x m l r m₁)
    (h : requestLoop n r m₁ = .done m' notes st) : NodeMove n x m l m' notes st := by
  unfold requestLoop at h
  split at h
  case h_1 notes' hl => cases h; exact .quit ha hl
  case h_2 => cases h
  case h_3 s cv hl =>
    obtain ⟨m₂, he, h⟩ := Effect.call_eq_done.mp h
    cases h; exact .block ha hl he
  case h_4 s hl =>
    obtain ⟨m₂, he, h⟩ := Effect.call_eq_done.mp h
    cases h; exact .grant ha hl he
  case h_5 hl =>
    obtain ⟨m₂, he, h⟩ := Effect.call_eq_done.mp h
    cases h; exact .leave ha hl he

theorem nodeMove_of_deleteMgrLoop (ha : ArrivesMgr n m l m₁)
    (h : deleteMgrLoop n m₁ = .done m' notes st) : NodeMove n x m l m' notes st := by
  unfold deleteMgrLoop at h
  split at h
  case isTrue hl =>
    obtain ⟨m₂, he, h⟩ := Effect.call_eq_done.mp h
    cases h; exact .deferDelete ha (by simpa using hl) he
  case isFalse hl =>
    obtain ⟨m₂, hx, h⟩ := Effect.call_eq_done.mp h
    obtain ⟨m₃, he, h⟩ := Effect.call_eq_done.mp h
    cases h; exact .grantDelete ha (by simpa using hl) hx he

/-- A step of a thread is one of the listed moves. -/
theorem nodeMove_of_exec (h : nodeExec n l x m = .done m' notes st) :
    NodeMove n x m l m' notes st := by
  cases l with
  | idle =>
      simp only [nodeExec] at h
      split at h
      case isTrue hr => cases h; exact .rejected hr
      case isFalse hr => exact nodeMove_of_requestLoop (.fresh (by simpa using hr)) h
  | wait r =>
      obtain ⟨m₁, hx, h⟩ := Effect.call_eq_done.mp h
      exact nodeMove_of_requestLoop (.resumed hx) h
  | holds op =>
      simp only [nodeExec] at h
      split at h
      case isTrue => cases h
      case isFalse hop => cases h; exact .readOp hop
  | releasing op currOp =>
      obtain ⟨s, hs, h⟩ := Effect.call_eq_done.mp h
      obtain ⟨m₁, hx, h⟩ := Effect.call_eq_done.mp h
      obtain ⟨notes', ht, h⟩ := Effect.call_eq_done.mp h
      cases h; exact .release hs hx ht
  | deleteMgr => exact nodeMove_of_deleteMgrLoop .fresh h
  | deleteMgrWait =>
      obtain ⟨m₁, hx, h⟩ := Effect.call_eq_done.mp h
      exact nodeMove_of_deleteMgrLoop (.resumed hx) h
  | releaseMgr =>
      obtain ⟨notes', ht, h⟩ := Effect.call_eq_done.mp h
      cases h; exact .signal ht

end Moves

end CrudMgr
end MultithreadingBible
