import Mathlib.Tactic.Common
import MultithreadingBible.GlueThread.Basic

/-!
# CRUD manager: nodes, manager and their states

A manager (`crud_mgr_t`) watches any number of nodes (`crud_node_t`).  A node is in a set of nine
states at once.  Each of them is recorded three times: as a bit of `crud_node_status`, as a
`uint8_t` counter of the threads in that state, and by linking the node's glue for that state into
the manager's list for that state.

Nodes are named by a type `ν`.  The bits of `crud_node_status` are kept as one Boolean for each
state.  The messages printed by the code, the node's `id` (which only these messages use) and its
back pointer to the one manager are left out.
-/

namespace MultithreadingBible
namespace CrudMgr

open GlueThread

inductive CrudNodeState where
  | pendingRead
  | readInProgress
  | pendingWrite
  | writeInProgress
  | pendingDelete
  | deleteInProgress
  | pendingCreate
  | createInProgress
  | noOp
  deriving DecidableEq

inductive CrudOpType where
  | delete
  | create
  | read
  | write
  | opNone
  deriving DecidableEq

/-- The condition variables of a node. -/
inductive CrudCv where
  | rdrsCv
  | writersCv
  | deleteThreadCv
  | createThreadCv
  deriving DecidableEq

/-- `crud_node_t`, without its mutex, its condition variables and its glue. -/
structure CrudNode where
  crudNodeStatus : CrudNodeState → Bool
  currOp : CrudOpType
  counter : CrudNodeState → Nat

/-- The addresses of list cells: the heads in `crud_mgr_t.crud_nodes_list` and the cells in
`crud_node_t.crud_node_glue`. -/
inductive CrudAddr (ν : Type*) where
  | crudNodesList (index : CrudNodeState)
  | crudNodeGlue (n : ν) (index : CrudNodeState)
  deriving DecidableEq

/-- The memory of one manager and its nodes. -/
structure CrudMem (ν : Type*) where
  nCrudNodes : Nat
  node : ν → CrudNode
  glue : Heap (CrudAddr ν)

namespace CrudNode

/-- `crud_node_is_status_set` -/
def isStatusSet (crudNode : CrudNode) (state : CrudNodeState) : Bool :=
  crudNode.crudNodeStatus state

/-- `crud_node_status_set_flag` -/
def statusSetFlag (crudNode : CrudNode) (state : CrudNodeState) : CrudNode :=
  { crudNode with crudNodeStatus := Function.update crudNode.crudNodeStatus state true }

/-- `crud_node_status_unset_flag` -/
def statusUnsetFlag (crudNode : CrudNode) (state : CrudNodeState) : CrudNode :=
  { crudNode with crudNodeStatus := Function.update crudNode.crudNodeStatus state false }

/-- `crud_node_in_use` -/
def inUse (crudNode : CrudNode) : Bool :=
  crudNode.isStatusSet .pendingRead ||
  crudNode.isStatusSet .readInProgress ||
  crudNode.isStatusSet .pendingWrite ||
  crudNode.isStatusSet .writeInProgress ||
  crudNode.isStatusSet .pendingDelete ||
  crudNode.isStatusSet .deleteInProgress ||
  crudNode.isStatusSet .pendingCreate ||
  crudNode.isStatusSet .createInProgress

/-- `counter[index] = c`, a `uint8_t`. -/
def setCounter (crudNode : CrudNode) (state : CrudNodeState) (c : Nat) : CrudNode :=
  { crudNode with counter := Function.update crudNode.counter state (c % 256) }

theorem inUse_iff {crudNode : CrudNode} :
    crudNode.inUse = true ↔ ∃ s, s ≠ .noOp ∧ crudNode.crudNodeStatus s = true := by
  constructor
  · intro h
    simp only [inUse, isStatusSet, Bool.or_eq_true] at h
    rcases h with ((((((h | h) | h) | h) | h) | h) | h) | h <;> exact ⟨_, by decide, h⟩
  · rintro ⟨s, hs, h⟩
    cases s <;> simp_all [inUse, isStatusSet]

end CrudNode

/-- The memory zeroed by `memset` or `calloc`. -/
def zeroNode : CrudNode where
  crudNodeStatus := fun _ => false
  currOp := .delete
  counter := fun _ => 0

namespace CrudMem

variable {ν : Type*} [DecidableEq ν]

/-- Write back a changed node. -/
def setNode (m : CrudMem ν) (n : ν) (crudNode : CrudNode) : CrudMem ν :=
  { m with node := Function.update m.node n crudNode }

/-- `glthread_add_next (&crud_mgr->crud_nodes_list[index], &crud_node->crud_node_glue[index])` -/
def addToList (m : CrudMem ν) (n : ν) (index : CrudNodeState) : CrudMem ν :=
  { m with glue := glthreadAddNext m.glue (.crudNodesList index) (.crudNodeGlue n index) }

/-- `remove_glthread (&crud_node->crud_node_glue[index])` -/
def removeFromList (m : CrudMem ν) (n : ν) (index : CrudNodeState) : CrudMem ν :=
  { m with glue := removeGlthread m.glue (.crudNodeGlue n index) }

omit [DecidableEq ν] in
/-- `IS_GLTHREAD_LIST_EMPTY (&crud_mgr->crud_nodes_list[index])` -/
def isListEmpty (m : CrudMem ν) (index : CrudNodeState) : Bool :=
  isGlthreadListEmpty m.glue (.crudNodesList index)

omit [DecidableEq ν] in
/-- `IS_GLTHREAD_LIST_EMPTY (&crud_node->crud_node_glue[index])` -/
def isGlueEmpty (m : CrudMem ν) (n : ν) (index : CrudNodeState) : Bool :=
  isGlthreadListEmpty m.glue (.crudNodeGlue n index)

omit [DecidableEq ν] in
/-- `crud_node_get_from_crud_node_glue (BASE (&crud_mgr->crud_nodes_list[index]), index)` -/
def baseNode (m : CrudMem ν) (index : CrudNodeState) : Option ν :=
  match base m.glue (.crudNodesList index) with
  | some (.crudNodeGlue n _) => some n
  | _ => none

omit [DecidableEq ν] in
/-- The test shared by creators, deleters and releasers: neither a create nor a delete is in
progress anywhere. -/
def nothingInProgress (m : CrudMem ν) : Bool :=
  m.isListEmpty .createInProgress && m.isListEmpty .deleteInProgress

@[simp] theorem setNode_node (m : CrudMem ν) (n : ν) (c : CrudNode) :
    (m.setNode n c).node n = c := by
  simp [setNode]

@[simp] theorem setNode_node_of_ne (m : CrudMem ν) {n n' : ν} (h : n' ≠ n) (c : CrudNode) :
    (m.setNode n c).node n' = m.node n' := by
  simp [setNode, h]

@[simp] theorem setNode_glue (m : CrudMem ν) (n : ν) (c : CrudNode) :
    (m.setNode n c).glue = m.glue := rfl

@[simp] theorem setNode_nCrudNodes (m : CrudMem ν) (n : ν) (c : CrudNode) :
    (m.setNode n c).nCrudNodes = m.nCrudNodes := rfl

@[simp] theorem addToList_node (m : CrudMem ν) (n : ν) (s : CrudNodeState) :
    (m.addToList n s).node = m.node := rfl

@[simp] theorem addToList_nCrudNodes (m : CrudMem ν) (n : ν) (s : CrudNodeState) :
    (m.addToList n s).nCrudNodes = m.nCrudNodes := rfl

@[simp] theorem removeFromList_node (m : CrudMem ν) (n : ν) (s : CrudNodeState) :
    (m.removeFromList n s).node = m.node := rfl

@[simp] theorem removeFromList_nCrudNodes (m : CrudMem ν) (n : ν) (s : CrudNodeState) :
    (m.removeFromList n s).nCrudNodes = m.nCrudNodes := rfl

end CrudMem

end CrudMgr
end MultithreadingBible
