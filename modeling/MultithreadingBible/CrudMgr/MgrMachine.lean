import MultithreadingBible.CrudMgr.Effects
import MultithreadingBible.CrudMgr.Decisions
import MultithreadingBible.CrudMgr.Lifecycle

/-!
# CRUD manager: all nodes, one call at a time

Any number of threads use any number of nodes of one manager.  Two mutexes protect a node's flags: its
own `state_mutex` and, in the second half of `crud_request_delete` and in `crud_request_create`, that
of the manager.  So that code under the one may run between calls made under the other, each call of
`crud_node_enter_state` and `crud_node_exit_state` is one step, as are the tests before it, and the
memory records who owns which mutex.  A call made with `lock` set takes the manager's mutex where it
edits a list.

* `MgrLoc` / `mgrExec` — the program locations of all five functions and what happens at each.
* `mgrMachine` — all interleavings.
* `MgrMove` — everything a step can do.
-/

namespace MultithreadingBible
namespace CrudMgr

open Lib

/-- The requests that are decided under the manager's mutex. -/
inductive StructOp where
  | create
  | delete
  deriving DecidableEq

namespace StructOp

def op : StructOp → CrudOpType
  | .create => .create
  | .delete => .delete

def pendingState : StructOp → CrudNodeState
  | .create => .pendingCreate
  | .delete => .pendingDelete

def grantState : StructOp → CrudNodeState
  | .create => .createInProgress
  | .delete => .deleteInProgress

def cv : StructOp → CrudCv
  | .create => .createThreadCv
  | .delete => .deleteThreadCv

end StructOp

/-- What a thread outside all calls may do next. -/
inductive MgrCall (ν : Type*) where
  /-- `crud_request_read`, `crud_request_write` or `crud_request_delete` -/
  | request (r : NodeReq) (n : ν)
  /-- `crud_request_create` -/
  | create (n : ν)
  /-- `crud_request_release` without having been granted anything -/
  | release (n : ν)

/-- Where a thread is. -/
inductive MgrLoc (ν : Type*) where
  /-- Outside all calls, without a grant. -/
  | idle
  /-- In a request, under the node's mutex, at the head of the loop. -/
  | head (r : NodeReq) (n : ν)
  /-- The same, after the tests of the loop, which ended in `d`. -/
  | decided (r : NodeReq) (n : ν) (d : LoopStep ν)
  /-- In the pending state, under the node's mutex, about to wait on `cv`. -/
  | sleep (r : NodeReq) (n : ν) (cv : CrudCv)
  /-- In the wait under the node's mutex. -/
  | wait (r : NodeReq) (n : ν)
  /-- In `crud_request_delete`, before it locks the manager's mutex. -/
  | deleteMgr (n : ν)
  /-- Under the manager's mutex, at the head of the loop. -/
  | mgrHead (op : StructOp) (n : ν)
  /-- The same, after the loop's test succeeded. -/
  | mgrBlock (op : StructOp) (n : ν)
  /-- In the pending state, under the manager's mutex, about to wait. -/
  | mgrSleep (op : StructOp) (n : ν)
  /-- In the wait under the manager's mutex. -/
  | mgrWait (op : StructOp) (n : ν)
  /-- A deleter whose test failed, before it leaves `pending_delete`. -/
  | mgrUnpend (n : ν)
  /-- About to enter the state of the operation. -/
  | mgrGrant (op : StructOp) (n : ν)
  /-- Granted `op` and not yet in `crud_request_release`. -/
  | holds (op : CrudOpType) (n : ν)
  /-- In `crud_request_release`, after `curr_op` was read, with `g` the caller's grant if any. -/
  | releasing (g : Option CrudOpType) (currOp : CrudOpType) (n : ν)
  /-- In `crud_request_release`, under the node's mutex, after it left the state of `currOp`. -/
  | releaseTail (currOp : CrudOpType) (n : ν)
  /-- In `crud_request_release`, before it locks the manager's mutex. -/
  | releaseMgr

/-- The memory with the owners of all mutexes. -/
structure MgrMem (τ ν : Type*) where
  crud : CrudMem ν
  nodeOwner : ν → Option τ
  mgrOwner : Option τ

abbrev MgrEffect (τ ν : Type*) := Effect (MgrMem τ ν) (ν × CrudCv) (MgrLoc ν)

variable {τ ν : Type*}

namespace MgrMem

/-- `pthread_mutex_lock (&crud_mgr->state_mutex)` -/
def lockMgr (m : MgrMem τ ν) (t : τ) : MgrMem τ ν :=
  { m with mgrOwner := some t }

/-- `pthread_mutex_unlock (&crud_mgr->state_mutex)` -/
def unlockMgr (m : MgrMem τ ν) : MgrMem τ ν :=
  { m with mgrOwner := none }

def withCrud (m : MgrMem τ ν) (c : CrudMem ν) : MgrMem τ ν :=
  { m with crud := c }

variable [DecidableEq ν]

/-- `pthread_mutex_lock (&crud_node->state_mutex)` -/
def lockNode (m : MgrMem τ ν) (t : τ) (n : ν) : MgrMem τ ν :=
  { m with nodeOwner := Function.update m.nodeOwner n (some t) }

/-- `pthread_mutex_unlock (&crud_node->state_mutex)` -/
def unlockNode (m : MgrMem τ ν) (n : ν) : MgrMem τ ν :=
  { m with nodeOwner := Function.update m.nodeOwner n none }

end MgrMem

/-- Whether `crud_node_enter_state` comes to its list edits. -/
def enterEditsList (m : CrudMem ν) (n : ν) (s : CrudNodeState) : Bool :=
  !(m.node n).isStatusSet s && crudNodeStateVerify m n s false

/-- Whether `crud_node_exit_state` comes to its list edits. -/
def exitEditsList (m : CrudMem ν) (n : ν) (s : CrudNodeState) : Bool :=
  crudNodeStateVerify m n s true && decide (((m.node n).counter s - 1) % 256 = 0)

variable [DecidableEq ν]

/-- `crud_node_enter_state (crud_node, state, true)` -/
def enterLocked (m : MgrMem τ ν) (n : ν) (s : CrudNodeState) (k : MgrMem τ ν → MgrEffect τ ν) :
    MgrEffect τ ν :=
  if enterEditsList m.crud n s && m.mgrOwner.isSome then .blocked
  else .call (crudNodeEnterState m.crud n s) fun c => k (m.withCrud c)

/-- `crud_node_exit_state (crud_node, state, true)` -/
def exitLocked (m : MgrMem τ ν) (n : ν) (s : CrudNodeState) (k : MgrMem τ ν → MgrEffect τ ν) :
    MgrEffect τ ν :=
  if exitEditsList m.crud n s && m.mgrOwner.isSome then .blocked
  else .call (crudNodeExitState m.crud n s) fun c => k (m.withCrud c)

/-- How a request goes on after the tests in its loop. -/
def carryOut (r : NodeReq) (n : ν) (m : MgrMem τ ν) : LoopStep ν → MgrEffect τ ν
  | .quit notes => .done (m.unlockNode n) notes (.running .idle)
  | .fail => .abort
  | .block s cv => enterLocked m n s fun m => .done m [] (.running (.sleep r n cv))
  | .grant s => enterLocked m n s fun m => .done (m.unlockNode n) [] (.running (.holds r.op n))
  | .leave =>
      enterLocked m n .pendingDelete fun m => .done (m.unlockNode n) [] (.running (.deleteMgr n))

/-- The test in the manager-level loops: whether the request has to wait, and where it goes. -/
def mgrTest (op : StructOp) (n : ν) (m : CrudMem ν) : MgrLoc ν :=
  if !m.nothingInProgress then .mgrBlock op n
  else
    match op with
    | .create => .mgrGrant .create n
    | .delete => .mgrUnpend n

/-- The first lines of `crud_request_release`. -/
def startRelease (g : Option CrudOpType) (n : ν) (m : MgrMem τ ν) : MgrEffect τ ν :=
  if (m.crud.node n).currOp = .opNone then .abort
  else .done m [] (.running (.releasing g (m.crud.node n).currOp n))

/-- The first lines of a call made by an idle thread. -/
def startCall (t : τ) (m : MgrMem τ ν) : MgrCall ν → MgrEffect τ ν
  | .request r n =>
      if (m.nodeOwner n).isSome then .blocked
      else if rejectsRequest (m.crud.node n) then .done m [] (.running .idle)
      else .done (m.lockNode t n) [] (.running (.head r n))
  | .create n =>
      if m.mgrOwner.isSome then .blocked
      else .done (m.lockMgr t) [] (.running (.mgrHead .create n))
  | .release n => startRelease none n m

/-- Where a thread goes after the first critical section of `crud_request_release`. -/
def afterTail (currOp : CrudOpType) : MgrLoc ν :=
  if currOp.isStructural then .releaseMgr else .idle

/-- What thread `t` does next. -/
def mgrExec (t : τ) (l : MgrLoc ν) (x : MgrCall ν) (m : MgrMem τ ν) : MgrEffect τ ν :=
  match l with
  | .idle => startCall t m x
  | .head r n => .done m [] (.running (.decided r n (r.loop m.crud n)))
  | .decided r n d => carryOut r n m d
  | .sleep r n cv => .done (m.unlockNode n) [] (.waiting (n, cv) (.wait r n))
  | .wait r n =>
      if (m.nodeOwner n).isSome then .blocked
      else exitLocked m n r.pendingState fun m => .done (m.lockNode t n) [] (.running (.head r n))
  | .deleteMgr n =>
      if m.mgrOwner.isSome then .blocked
      else .done (m.lockMgr t) [] (.running (.mgrHead .delete n))
  | .mgrHead op n => .done m [] (.running (mgrTest op n m.crud))
  | .mgrBlock op n =>
      .call (crudNodeEnterState m.crud n op.pendingState) fun c =>
        .done (m.withCrud c) [] (.running (.mgrSleep op n))
  | .mgrSleep op n => .done m.unlockMgr [] (.waiting (n, op.cv) (.mgrWait op n))
  | .mgrWait op n =>
      if m.mgrOwner.isSome then .blocked
      else
        .call (crudNodeExitState m.crud n op.pendingState) fun c =>
          .done ((m.withCrud c).lockMgr t) [] (.running (.mgrHead op n))
  | .mgrUnpend n =>
      .call (crudNodeExitState m.crud n .pendingDelete) fun c =>
        .done (m.withCrud c) [] (.running (.mgrGrant .delete n))
  | .mgrGrant op n =>
      .call (crudNodeEnterState m.crud n op.grantState) fun c =>
        .done (m.withCrud c).unlockMgr [] (.running (.holds op.op n))
  | .holds op n => startRelease (some op) n m
  | .releasing _ currOp n =>
      if (m.nodeOwner n).isSome then .blocked
      else
        .call (releasedState currOp) fun s =>
          exitLocked m n s fun m => .done (m.lockNode t n) [] (.running (.releaseTail currOp n))
  | .releaseTail currOp n =>
      .call (releaseNodeTail n currOp (m.crud.node n)) fun notes =>
        .done (m.unlockNode n) notes (.running (afterTail currOp))
  | .releaseMgr =>
      if m.mgrOwner.isSome then .blocked
      else .call (releaseMgrSection m.crud) fun notes => .done m notes (.running .idle)

def mgrProgram (τ ν : Type*) [DecidableEq ν] (spurious : Bool) :
    Program τ (MgrMem τ ν) (ν × CrudCv) (MgrLoc ν) (MgrCall ν) where
  exec := mgrExec
  spuriousWakeups := spurious

abbrev MgrConfig (τ ν : Type*) := Config τ (MgrMem τ ν) (ν × CrudCv) (MgrLoc ν)

/-- All mutexes are free, all threads outside. -/
def MgrStart (s : MgrConfig τ ν) : Prop :=
  Initialised s.mem.crud ∧ (∀ n, s.mem.nodeOwner n = none) ∧ s.mem.mgrOwner = none ∧
    ∀ t, s.thr t = .running .idle

/-- All runs of threads that use the nodes of one manager. -/
def mgrMachine (τ ν : Type*) [DecidableEq ν] [DecidableEq τ] [Fintype τ] (spurious : Bool) :
    Machine (MgrConfig τ ν) (Act τ (MgrCall ν)) :=
  (mgrProgram τ ν spurious).machine MgrStart

/-- Everything thread `t` can do. -/
inductive MgrMove (t : τ) (x : MgrCall ν) (m : MgrMem τ ν) : MgrLoc ν → MgrMem τ ν →
    List (Note (ν × CrudCv)) → Status (ν × CrudCv) (MgrLoc ν) → Prop
  | rejected {r : NodeReq} {n : ν} (hx : x = .request r n)
      (h : rejectsRequest (m.crud.node n) = true) : MgrMove t x m .idle m [] (.running .idle)
  | request {r : NodeReq} {n : ν} (hx : x = .request r n) (hfree : m.nodeOwner n = none)
      (h : rejectsRequest (m.crud.node n) = false) :
      MgrMove t x m .idle (m.lockNode t n) [] (.running (.head r n))
  | create {n : ν} (hx : x = .create n) (hfree : m.mgrOwner = none) :
      MgrMove t x m .idle (m.lockMgr t) [] (.running (.mgrHead .create n))
  | stray {n : ν} (hx : x = .release n) (h : (m.crud.node n).currOp ≠ .opNone) :
      MgrMove t x m .idle m [] (.running (.releasing none (m.crud.node n).currOp n))
  | test {r : NodeReq} {n : ν} :
      MgrMove t x m (.head r n) m [] (.running (.decided r n (r.loop m.crud n)))
  | quit {r : NodeReq} {n : ν} {notes : List (Note (ν × CrudCv))} :
      MgrMove t x m (.decided r n (.quit notes)) (m.unlockNode n) notes (.running .idle)
  | block {r : NodeReq} {n : ν} {s : CrudNodeState} {cv : CrudCv} {c : CrudMem ν}
      (hlock : enterEditsList m.crud n s = true → m.mgrOwner = none)
      (he : crudNodeEnterState m.crud n s = some c) :
      MgrMove t x m (.decided r n (.block s cv)) (m.withCrud c) [] (.running (.sleep r n cv))
  | grant {r : NodeReq} {n : ν} {s : CrudNodeState} {c : CrudMem ν}
      (hlock : enterEditsList m.crud n s = true → m.mgrOwner = none)
      (he : crudNodeEnterState m.crud n s = some c) :
      MgrMove t x m (.decided r n (.grant s)) ((m.withCrud c).unlockNode n) []
        (.running (.holds r.op n))
  | leave {r : NodeReq} {n : ν} {c : CrudMem ν}
      (hlock : enterEditsList m.crud n .pendingDelete = true → m.mgrOwner = none)
      (he : crudNodeEnterState m.crud n .pendingDelete = some c) :
      MgrMove t x m (.decided r n .leave) ((m.withCrud c).unlockNode n) []
        (.running (.deleteMgr n))
  | sleep {r : NodeReq} {n : ν} {cv : CrudCv} :
      MgrMove t x m (.sleep r n cv) (m.unlockNode n) [] (.waiting (n, cv) (.wait r n))
  | wake {r : NodeReq} {n : ν} {c : CrudMem ν} (hfree : m.nodeOwner n = none)
      (hlock : exitEditsList m.crud n r.pendingState = true → m.mgrOwner = none)
      (hx : crudNodeExitState m.crud n r.pendingState = some c) :
      MgrMove t x m (.wait r n) ((m.withCrud c).lockNode t n) [] (.running (.head r n))
  | lockMgr {n : ν} (hfree : m.mgrOwner = none) :
      MgrMove t x m (.deleteMgr n) (m.lockMgr t) [] (.running (.mgrHead .delete n))
  | mgrTest {op : StructOp} {n : ν} :
      MgrMove t x m (.mgrHead op n) m [] (.running (mgrTest op n m.crud))
  | mgrBlock {op : StructOp} {n : ν} {c : CrudMem ν}
      (he : crudNodeEnterState m.crud n op.pendingState = some c) :
      MgrMove t x m (.mgrBlock op n) (m.withCrud c) [] (.running (.mgrSleep op n))
  | mgrSleep {op : StructOp} {n : ν} :
      MgrMove t x m (.mgrSleep op n) m.unlockMgr [] (.waiting (n, op.cv) (.mgrWait op n))
  | mgrWake {op : StructOp} {n : ν} {c : CrudMem ν} (hfree : m.mgrOwner = none)
      (hx : crudNodeExitState m.crud n op.pendingState = some c) :
      MgrMove t x m (.mgrWait op n) ((m.withCrud c).lockMgr t) [] (.running (.mgrHead op n))
  | mgrUnpend {n : ν} {c : CrudMem ν} (hx : crudNodeExitState m.crud n .pendingDelete = some c) :
      MgrMove t x m (.mgrUnpend n) (m.withCrud c) [] (.running (.mgrGrant .delete n))
  | mgrGrant {op : StructOp} {n : ν} {c : CrudMem ν}
      (he : crudNodeEnterState m.crud n op.grantState = some c) :
      MgrMove t x m (.mgrGrant op n) (m.withCrud c).unlockMgr [] (.running (.holds op.op n))
  | readOp {op : CrudOpType} {n : ν} (h : (m.crud.node n).currOp ≠ .opNone) :
      MgrMove t x m (.holds op n) m [] (.running (.releasing (some op) (m.crud.node n).currOp n))
  | release {g : Option CrudOpType} {currOp : CrudOpType} {n : ν} {s : CrudNodeState}
      {c : CrudMem ν} (hfree : m.nodeOwner n = none) (hs : releasedState currOp = some s)
      (hlock : exitEditsList m.crud n s = true → m.mgrOwner = none)
      (hx : crudNodeExitState m.crud n s = some c) :
      MgrMove t x m (.releasing g currOp n) ((m.withCrud c).lockNode t n) []
        (.running (.releaseTail currOp n))
  | tail {currOp : CrudOpType} {n : ν} {notes : List (Note (ν × CrudCv))}
      (h : releaseNodeTail n currOp (m.crud.node n) = some notes) :
      MgrMove t x m (.releaseTail currOp n) (m.unlockNode n) notes (.running (afterTail currOp))
  | signal {notes : List (Note (ν × CrudCv))} (hfree : m.mgrOwner = none)
      (h : releaseMgrSection m.crud = some notes) :
      MgrMove t x m .releaseMgr m notes (.running .idle)

section Moves

variable {t u : τ} {x : MgrCall ν} {m m' : MgrMem τ ν} {l : MgrLoc ν} {n : ν} {s : CrudNodeState}
  {notes : List (Note (ν × CrudCv))} {st : Status (ν × CrudCv) (MgrLoc ν)}

theorem enterLocked_eq_done {k : MgrMem τ ν → MgrEffect τ ν}
    (h : enterLocked m n s k = .done m' notes st) :
    ∃ c, (enterEditsList m.crud n s = true → m.mgrOwner = none) ∧
      crudNodeEnterState m.crud n s = some c ∧ k (m.withCrud c) = .done m' notes st := by
  unfold enterLocked at h
  split at h
  · cases h
  · next hlock =>
    obtain ⟨c, hc, hk⟩ := Effect.call_eq_done.mp h
    refine ⟨c, fun hedits => ?_, hc, hk⟩
    simpa [hedits] using hlock

theorem exitLocked_eq_done {k : MgrMem τ ν → MgrEffect τ ν}
    (h : exitLocked m n s k = .done m' notes st) :
    ∃ c, (exitEditsList m.crud n s = true → m.mgrOwner = none) ∧
      crudNodeExitState m.crud n s = some c ∧ k (m.withCrud c) = .done m' notes st := by
  unfold exitLocked at h
  split at h
  · cases h
  · next hlock =>
    obtain ⟨c, hc, hk⟩ := Effect.call_eq_done.mp h
    refine ⟨c, fun hedits => ?_, hc, hk⟩
    simpa [hedits] using hlock

omit [DecidableEq ν] in
/-- What follows a mutex that was found free. -/
theorem done_of_free {o : Option τ} {e : MgrEffect τ ν}
    (h : (if o.isSome then .blocked else e) = .done m' notes st) :
    o = none ∧ e = .done m' notes st := by
  split at h
  · cases h
  · next hfree => exact ⟨by simpa using hfree, h⟩

theorem mgrMove_of_startCall (h : startCall t m x = .done m' notes st) :
    MgrMove t x m .idle m' notes st := by
  cases hx : x with
  | request r n =>
      rw [hx] at h
      obtain ⟨hfree, h⟩ := done_of_free h
      split at h
      · next hrej =>
        cases h
        exact .rejected rfl hrej
      · next hrej =>
        cases h
        exact .request rfl hfree (by simpa using hrej)
  | create n =>
      rw [hx] at h
      obtain ⟨hfree, h⟩ := done_of_free h
      cases h
      exact .create rfl hfree
  | release n =>
      rw [hx] at h
      simp only [startCall, startRelease] at h
      split at h
      · cases h
      · next hop =>
        cases h
        exact .stray rfl hop

theorem mgrMove_of_carryOut {r : NodeReq} {d : LoopStep ν}
    (h : carryOut r n m d = .done m' notes st) :
    MgrMove t x m (.decided r n d) m' notes st := by
  cases d with
  | quit notes' =>
      cases h
      exact .quit
  | fail => cases h
  | block s cv =>
      rw [carryOut] at h
      obtain ⟨c, hlock, he, h⟩ := enterLocked_eq_done h
      cases h
      exact .block hlock he
  | grant s =>
      rw [carryOut] at h
      obtain ⟨c, hlock, he, h⟩ := enterLocked_eq_done h
      cases h
      exact .grant hlock he
  | leave =>
      rw [carryOut] at h
      obtain ⟨c, hlock, he, h⟩ := enterLocked_eq_done h
      cases h
      exact .leave hlock he

/-- A step of a thread is one of the listed moves. -/
theorem mgrMove_of_exec (h : mgrExec t l x m = .done m' notes st) :
    MgrMove t x m l m' notes st := by
  cases l with
  | idle => exact mgrMove_of_startCall h
  | head r n =>
      cases h
      exact .test
  | decided r n d => exact mgrMove_of_carryOut h
  | sleep r n cv =>
      cases h
      exact .sleep
  | wait r n =>
      -- a thread that was woken leaves the pending state, with both mutexes
      obtain ⟨hfree, h⟩ := done_of_free h
      obtain ⟨c, hlock, hexit, h⟩ := exitLocked_eq_done h
      cases h
      exact .wake hfree hlock hexit
  | deleteMgr n =>
      obtain ⟨hfree, h⟩ := done_of_free h
      cases h
      exact .lockMgr hfree
  | mgrHead op n =>
      cases h
      exact .mgrTest
  | mgrBlock op n =>
      obtain ⟨c, he, h⟩ := Effect.call_eq_done.mp h
      cases h
      exact .mgrBlock he
  | mgrSleep op n =>
      cases h
      exact .mgrSleep
  | mgrWait op n =>
      obtain ⟨hfree, h⟩ := done_of_free h
      obtain ⟨c, hexit, h⟩ := Effect.call_eq_done.mp h
      cases h
      exact .mgrWake hfree hexit
  | mgrUnpend n =>
      obtain ⟨c, hexit, h⟩ := Effect.call_eq_done.mp h
      cases h
      exact .mgrUnpend hexit
  | mgrGrant op n =>
      obtain ⟨c, he, h⟩ := Effect.call_eq_done.mp h
      cases h
      exact .mgrGrant he
  | holds op n =>
      -- the first lines of the release, which take no mutex
      simp only [mgrExec, startRelease] at h
      split at h
      · cases h
      · next hop =>
        cases h
        exact .readOp hop
  | releasing g currOp n =>
      obtain ⟨hfree, h⟩ := done_of_free h
      obtain ⟨s, hs, h⟩ := Effect.call_eq_done.mp h
      obtain ⟨c, hlock, hexit, h⟩ := exitLocked_eq_done h
      cases h
      exact .release hfree hs hlock hexit
  | releaseTail currOp n =>
      obtain ⟨notes', htail, h⟩ := Effect.call_eq_done.mp h
      cases h
      exact .tail htail
  | releaseMgr =>
      -- the section of the release under the manager's mutex
      obtain ⟨hfree, h⟩ := done_of_free h
      obtain ⟨notes', hsec, h⟩ := Effect.call_eq_done.mp h
      cases h
      exact .signal hfree hsec

end Moves

end CrudMgr
end MultithreadingBible
