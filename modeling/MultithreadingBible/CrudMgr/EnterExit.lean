import MultithreadingBible.CrudMgr.State

/-!
# CRUD manager: entering and leaving a state

`crud_node_enter_state` and `crud_node_exit_state` call each other: entering a state makes the node
leave `no_op`, and leaving its last state makes it enter `no_op`.  The recursion is at most two calls
deep, so the bodies are written once with the recursive call as a parameter and tied together from
the innermost call outwards.  `crudNodeEnterState_eq` and `crudNodeExitState_eq` are the equations
of the source.

A failed assertion is `none`.  The `lock` argument only decides whether the manager's mutex is taken
for the list update, so it appears where calls are interleaved, not here.
-/

namespace MultithreadingBible
namespace CrudMgr

open GlueThread

variable {ν : Type*} [DecidableEq ν]

omit [DecidableEq ν] in
/-- `crud_node_state_verify`: whether it returns. -/
def crudNodeStateVerify (m : CrudMem ν) (n : ν) (state : CrudNodeState) (isPresent : Bool) : Bool :=
  if isPresent then
    (m.node n).isStatusSet state && decide ((m.node n).counter state > 0) &&
      !m.isGlueEmpty n state
  else
    !(m.node n).isStatusSet state && decide ((m.node n).counter state = 0) &&
      m.isGlueEmpty n state

/-- States that only one thread may be in at a time: entering one of them again is an assertion
failure. -/
def CrudNodeState.isExclusive : CrudNodeState → Bool
  | .writeInProgress | .deleteInProgress | .pendingCreate | .createInProgress | .noOp => true
  | _ => false

/-- The assignment to `curr_op` in `crud_node_enter_state`. -/
def currOpOnEnter (state : CrudNodeState) (currOp : CrudOpType) : CrudOpType :=
  match state with
  | .readInProgress => .read
  | .writeInProgress => .write
  | .deleteInProgress => .delete
  | .createInProgress => .create
  | .noOp => .opNone
  | _ => currOp

/-- The assignment to `curr_op` in `crud_node_exit_state`. -/
def currOpOnExit (state : CrudNodeState) (currOp : CrudOpType) : CrudOpType :=
  match state with
  | .readInProgress | .writeInProgress | .deleteInProgress | .createInProgress => .opNone
  | _ => currOp

/-- The body of `crud_node_enter_state`, given its call of `crud_node_exit_state`. -/
def enterStateBody (exitState : CrudMem ν → Option (CrudMem ν)) (m : CrudMem ν) (n : ν)
    (state : CrudNodeState) : Option (CrudMem ν) :=
  let crudNode := m.node n
  if crudNode.isStatusSet state then
    if state.isExclusive then none
    else some (m.setNode n (crudNode.setCounter state (crudNode.counter state + 1)))
  else if !crudNodeStateVerify m n state false then none
  else
    let crudNode := { crudNode with currOp := currOpOnEnter state crudNode.currOp }
    let crudNode := crudNode.statusSetFlag state
    let crudNode := crudNode.setCounter state 1
    let m := (m.setNode n crudNode).addToList n state
    if state ≠ .noOp ∧ crudNode.isStatusSet .noOp then exitState m else some m

/-- The body of `crud_node_exit_state`, given its call of `crud_node_enter_state`. -/
def exitStateBody (enterState : CrudMem ν → Option (CrudMem ν)) (m : CrudMem ν) (n : ν)
    (state : CrudNodeState) : Option (CrudMem ν) :=
  if !crudNodeStateVerify m n state true then none
  else
    let crudNode := m.node n
    let crudNode := crudNode.setCounter state (crudNode.counter state - 1)
    if crudNode.counter state ≠ 0 then some (m.setNode n crudNode)
    else
      let crudNode := crudNode.statusUnsetFlag state
      let crudNode := { crudNode with currOp := currOpOnExit state crudNode.currOp }
      let m := (m.setNode n crudNode).removeFromList n state
      if !crudNode.inUse then
        (enterState m).map fun m => m.setNode n { m.node n with currOp := .opNone }
      else some m

/-- `crud_node_enter_state (crud_node, crud_node_no_op, lock)`, which makes no further call. -/
def enterNoOp (m : CrudMem ν) (n : ν) : Option (CrudMem ν) :=
  enterStateBody (fun _ => none) m n .noOp

def crudNodeExitState (m : CrudMem ν) (n : ν) (state : CrudNodeState) : Option (CrudMem ν) :=
  exitStateBody (fun m => enterNoOp m n) m n state

def crudNodeEnterState (m : CrudMem ν) (n : ν) (state : CrudNodeState) : Option (CrudMem ν) :=
  enterStateBody (fun m => crudNodeExitState m n .noOp) m n state

theorem crudNodeEnterState_noOp (m : CrudMem ν) (n : ν) :
    crudNodeEnterState m n .noOp = enterNoOp m n := by
  simp [crudNodeEnterState, enterNoOp, enterStateBody]

theorem crudNodeEnterState_eq (m : CrudMem ν) (n : ν) (state : CrudNodeState) :
    crudNodeEnterState m n state =
      enterStateBody (fun m => crudNodeExitState m n .noOp) m n state := rfl

theorem crudNodeExitState_eq (m : CrudMem ν) (n : ν) (state : CrudNodeState) :
    crudNodeExitState m n state =
      exitStateBody (fun m => crudNodeEnterState m n .noOp) m n state := by
  simp only [crudNodeEnterState_noOp]; rfl

def crudMgrInit (m : CrudMem ν) : CrudMem ν where
  nCrudNodes := 0
  node := m.node
  glue
    | .crudNodesList _ => Glthread.null
    | .crudNodeGlue n s => m.glue (.crudNodeGlue n s)

/-- `memset (crud_node, 0, sizeof(*crud_node))` -/
def clearNode (m : CrudMem ν) (n : ν) : CrudMem ν where
  nCrudNodes := m.nCrudNodes
  node := Function.update m.node n zeroNode
  glue
    | .crudNodesList s => m.glue (.crudNodesList s)
    | .crudNodeGlue n' s => if n' = n then Glthread.null else m.glue (.crudNodeGlue n' s)

def crudNodeInit (m : CrudMem ν) (n : ν) : Option (CrudMem ν) :=
  let m := clearNode m n
  let m := { m with nCrudNodes := m.nCrudNodes + 1 }
  crudNodeEnterState m n .noOp

/-- `crud_node_init` for every node of a list. -/
def initNodes (m : CrudMem ν) (ns : List ν) : Option (CrudMem ν) :=
  ns.foldlM crudNodeInit m

/-- The states before `crud_node_no_op` in the order of their indices. -/
def CrudNodeState.beforeNoOp : List CrudNodeState :=
  [.pendingRead, .readInProgress, .pendingWrite, .writeInProgress, .pendingDelete,
    .deleteInProgress, .pendingCreate, .createInProgress]

def crudNodeDestroy (m : CrudMem ν) (n : ν) : Option (CrudMem ν) :=
  if (m.node n).currOp ≠ .opNone then none
  else if (m.node n).inUse then none
  else if !CrudNodeState.beforeNoOp.all fun index => m.isGlueEmpty n index then none
  else if m.isGlueEmpty n .noOp then none
  else
    let m := m.removeFromList n .noOp
    some { m with nCrudNodes := m.nCrudNodes - 1 }

end CrudMgr
end MultithreadingBible
