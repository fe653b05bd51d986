import MultithreadingBible.CrudMgr.EnterExit
import MultithreadingBible.Lib.CondVar

/-!
# CRUD manager: requests and releases

The request functions are loops whose body is a chain of tests on the node's flags; the first test
that succeeds decides whether the thread enters a state and returns, enters a pending state and waits
on a condition variable, gives up, or fails an assertion.  Each body is one function to `LoopStep`
here, with the tests in the order of the source, so that the same chain serves both the view where a
critical section is one step and the view where its calls of `crud_node_enter_state` and
`crud_node_exit_state` are separate steps.

A condition variable is a node together with one of its four variables.
-/

namespace MultithreadingBible
namespace CrudMgr

open Lib

variable {ν : Type*}

/-- How one pass through the body of a request loop ends. -/
inductive LoopStep (ν : Type*) where
  /-- Send notifications, unlock, `return false`. -/
  | quit (notes : List (Note (ν × CrudCv)))
  /-- An `IMPOSSIBLE_CASE` or another failed assertion. -/
  | fail
  /-- Enter the pending state `state`, wait on `cv`, leave `state`, `continue`. -/
  | block (state : CrudNodeState) (cv : CrudCv)
  /-- Enter `state`, unlock, `return true`. -/
  | grant (state : CrudNodeState)
  /-- `break` out of the node-level loop of `crud_request_delete`. -/
  | leave

/-- The tests in front of the loops of `crud_request_read`, `crud_request_write` and
`crud_request_delete`: whether the request is rejected at once. -/
def rejectsRequest (crudNode : CrudNode) : Bool :=
  crudNode.isStatusSet .pendingDelete ||
  crudNode.isStatusSet .pendingCreate ||
  crudNode.isStatusSet .deleteInProgress ||
  crudNode.isStatusSet .createInProgress

/-- What a reader or writer sends when it finds the node marked for deletion. -/
def quitNotes (n : ν) : List (Note (ν × CrudCv)) :=
  [.broadcast (n, .rdrsCv), .broadcast (n, .writersCv), .signal (n, .deleteThreadCv)]

/-- The loop body of `crud_request_read`. -/
def crudRequestReadLoop (n : ν) (crudNode : CrudNode) : LoopStep ν :=
  if crudNode.isStatusSet .pendingDelete then .quit (quitNotes n)
  else if crudNode.isStatusSet .pendingCreate then .fail
  else if crudNode.isStatusSet .deleteInProgress then .fail
  else if crudNode.isStatusSet .createInProgress then .fail
  else if crudNode.isStatusSet .writeInProgress then .block .pendingRead .rdrsCv
  else if crudNode.isStatusSet .noOp then
    if crudNode.inUse then .fail else .grant .readInProgress
  else if crudNode.isStatusSet .readInProgress then .grant .readInProgress
  else if crudNode.isStatusSet .pendingRead then .grant .readInProgress
  else if crudNode.isStatusSet .pendingWrite then .block .pendingRead .rdrsCv
  else .fail

/-- The loop body of `crud_request_write`. -/
def crudRequestWriteLoop (n : ν) (crudNode : CrudNode) : LoopStep ν :=
  if crudNode.isStatusSet .pendingDelete then .quit (quitNotes n)
  else if crudNode.isStatusSet .pendingCreate then .fail
  else if crudNode.isStatusSet .deleteInProgress then .fail
  else if crudNode.isStatusSet .createInProgress then .fail
  else if crudNode.isStatusSet .writeInProgress then .block .pendingWrite .writersCv
  else if crudNode.isStatusSet .noOp then
    if crudNode.inUse then .fail else .grant .writeInProgress
  else if crudNode.isStatusSet .readInProgress then .block .pendingWrite .writersCv
  else if crudNode.isStatusSet .pendingRead then .grant .writeInProgress
  else if crudNode.isStatusSet .pendingWrite then .grant .writeInProgress
  else .fail

/-- The node-level loop body of `crud_request_delete`. -/
def crudRequestDeleteLoop (m : CrudMem ν) (n : ν) : LoopStep ν :=
  let crudNode := m.node n
  if crudNode.isStatusSet .writeInProgress then .block .pendingDelete .deleteThreadCv
  else if crudNode.isStatusSet .readInProgress then .block .pendingDelete .rdrsCv
  else if crudNode.isStatusSet .pendingRead then .block .pendingDelete .deleteThreadCv
  else if crudNode.isStatusSet .pendingWrite then .block .pendingDelete .deleteThreadCv
  else if crudNode.isStatusSet .pendingDelete then .quit []
  else if crudNode.isStatusSet .pendingCreate then .quit []
  else if crudNode.isStatusSet .deleteInProgress then .quit []
  else if crudNode.isStatusSet .createInProgress then .quit []
  else if !crudNodeStateVerify m n .noOp true then .fail
  else .leave

/-- The requests that run under the node's mutex. -/
inductive NodeReq where
  | read
  | write
  | delete
  deriving DecidableEq

/-- The loop body of a request. -/
def NodeReq.loop (m : CrudMem ν) (n : ν) : NodeReq → LoopStep ν
  | .read => crudRequestReadLoop n (m.node n)
  | .write => crudRequestWriteLoop n (m.node n)
  | .delete => crudRequestDeleteLoop m n

/-- The state a request waits in. -/
def NodeReq.pendingState : NodeReq → CrudNodeState
  | .read => .pendingRead
  | .write => .pendingWrite
  | .delete => .pendingDelete

/-- The state that `crud_request_release` leaves, chosen by `curr_op`; there is none (and an
assertion fails) for `CRUD_OP_NONE`. -/
def releasedState : CrudOpType → Option CrudNodeState
  | .opNone => none
  | .create => some .createInProgress
  | .delete => some .deleteInProgress
  | .read => some .readInProgress
  | .write => some .writeInProgress

/-- Whether `crud_request_release` goes on to the manager's mutex. -/
def CrudOpType.isStructural : CrudOpType → Bool
  | .create | .delete => true
  | _ => false

/-- Which waiters of the node a release notifies: the first class of pending threads found. -/
def wakeNotes (n : ν) (crudNode : CrudNode) : List (Note (ν × CrudCv)) :=
  if crudNode.isStatusSet .pendingRead then [.broadcast (n, .rdrsCv)]
  else if crudNode.isStatusSet .pendingWrite then [.signal (n, .writersCv)]
  else if crudNode.isStatusSet .pendingDelete then [.signal (n, .deleteThreadCv)]
  else []

/-- `crud_request_release`, the rest of the critical section under the node's mutex once the
released state was left: `none` when the assertion of the structural cases fails. -/
def releaseNodeTail (n : ν) (op : CrudOpType) (crudNode : CrudNode) :
    Option (List (Note (ν × CrudCv))) :=
  match op with
  | .opNone => none
  | .create | .delete => if crudNode.inUse then none else some []
  | .read => some (if crudNode.isStatusSet .readInProgress then [] else wakeNotes n crudNode)
  | .write => some (wakeNotes n crudNode)

/-- `crud_request_release`, the critical section under the manager's mutex: `none` when one of its
two assertions fails. -/
def releaseMgrSection (m : CrudMem ν) : Option (List (Note (ν × CrudCv))) :=
  if !m.isListEmpty .createInProgress then none
  else if !m.isListEmpty .deleteInProgress then none
  else if !m.isListEmpty .pendingCreate then
    some ((m.baseNode .pendingCreate).toList.map fun n => .signal (n, .createThreadCv))
  else if !m.isListEmpty .pendingDelete then
    some ((m.baseNode .pendingDelete).toList.map fun n => .signal (n, .deleteThreadCv))
  else some []

end CrudMgr
end MultithreadingBible
