import Mathlib.Logic.Function.Basic
import MultithreadingBible.Lib.Counter
import MultithreadingBible.Lib.Segment

/-!
# The singly linked list library (`LinkedListApi.c`)

A list is an object `ll_t` with a count and a pointer to its first node.  Nodes and lists live at
addresses; an address without an object is not allocated.  A null pointer is `none`.  `calloc`
answers with the addresses of `callocs`, one after another; if it answers with an address in use
there is no such run.

Pointers to lists and nodes that a caller passes are not null here, so the tests for that are left
out.  The counters `int i` of the searches are compared with the unsigned `node_count`, hence as
unsigned numbers. The loops that follow the pointers run on fuel, the number of nodes ever
allocated.

* `LlMem` -- the lists and nodes in memory.
* `singlyLlAddNodeByVal`, `singlyLlDeleteNode`, `singlyLlRemoveNode`, ... -- the functions.
-/

namespace MultithreadingBible
namespace LinkedList

open Lib

structure SinglyLlNode (A D : Type*) where
  data : Option D
  next : Option A

/-- `ll_t`, without `order_comparison_fn`, which no function below uses. -/
structure Ll (A D : Type*) where
  nodeCount : Nat
  head : Option A
  comparisonFn : Option (Option D → Option D → Int)

/-- The lists and nodes in memory, what `calloc` will answer, and the number of nodes ever allocated. -/
structure LlMem (A B D : Type*) where
  nodes : A → Option (SinglyLlNode A D)
  lists : B → Option (Ll A D)
  callocs : List A
  fuel : Nat

/-- Why a call does not return. -/
inductive Failure where
  /-- `calloc` does not answer with an address in use: there is no such run. -/
  | inUse
  /-- A null pointer, or an object that was freed, is read, written, called or freed. -/
  | badAccess
  | outOfFuel
  deriving DecidableEq

variable {A B D : Type}

namespace LlMem

/-- Nothing is allocated. -/
def empty : LlMem A B D := ⟨fun _ => none, fun _ => none, [], 0⟩

variable (m : LlMem A B D)

/-- Read a node. -/
def nodeAt (p : Option A) : Except Failure (SinglyLlNode A D) :=
  match p.bind m.nodes with
  | none => .error .badAccess
  | some n => .ok n

/-- Read a list. -/
def llAt (ll : B) : Except Failure (Ll A D) :=
  match m.lists ll with
  | none => .error .badAccess
  | some l => .ok l

/-- The next pointers in memory. -/
def links (a : A) : Option (Option A) := (m.nodes a).map SinglyLlNode.next

variable [DecidableEq A] [DecidableEq B]

/-- Write a list. -/
def setLl (ll : B) (l : Ll A D) : LlMem A B D := { m with lists := Function.update m.lists ll (some l) }

/-- Write a node. -/
def setNode (a : A) (n : SinglyLlNode A D) : LlMem A B D :=
  { m with nodes := Function.update m.nodes a (some n) }

/-- `p->next = v` -/
def setNext (p : Option A) (v : Option A) : Except Failure (LlMem A B D) :=
  match p with
  | none => .error .badAccess
  | some a => (m.nodeAt (some a)).map fun n => m.setNode a { n with next := v }

/-- `free(p)` -/
def free (a : A) : Except Failure (LlMem A B D) :=
  (m.nodeAt (some a)).map fun _ => { m with nodes := Function.update m.nodes a none }

end LlMem

variable [DecidableEq A] [DecidableEq B] [DecidableEq D]

/-- `init_singly_ll`: the new list is at `ll`. -/
def initSinglyLl (m : LlMem A B D) (ll : B) : Except Failure (LlMem A B D) :=
  if (m.lists ll).isSome then .error .inUse else .ok (m.setLl ll ⟨0, none, none⟩)

def singlyLlInitNode (m : LlMem A B D) (data : Option D) : Except Failure (LlMem A B D × A) :=
  match m.callocs with
  | [] => .error .inUse
  | node :: callocs =>
      if (m.nodes node).isSome then .error .inUse
      else .ok ({ m.setNode node ⟨data, none⟩ with callocs := callocs, fuel := m.fuel + 1 }, node)

def singlyLlAddNode (m : LlMem A B D) (ll : B) (node : A) : Except Failure (LlMem A B D × Int) := do
  let l ← m.llAt ll
  match l.head with
  | none => return (m.setLl ll { l with head := some node, nodeCount := countUp 32 l.nodeCount }, 0)
  | some head =>
      let m ← m.setNext (some node) (some head)
      return (m.setLl ll { l with head := some node, nodeCount := countUp 32 l.nodeCount }, 0)

/-- The loop of `singly_ll_get_node_by_data_ptr` with `left` nodes to look at. -/
def nodeByDataPtrLoop (m : LlMem A B D) (data : Option D) :
    (left : Nat) → Option A → Except Failure (Option A)
  | 0, _ => .ok none
  | left + 1, head => do
      let n ← m.nodeAt head
      if n.data = data then return head
      nodeByDataPtrLoop m data left n.next

def singlyLlGetNodeByDataPtr (m : LlMem A B D) (ll : B) (data : Option D) :
    Except Failure (Option A) := do
  let l ← m.llAt ll
  if l.head.isNone then return none
  nodeByDataPtrLoop m data l.nodeCount l.head

def singlyLlAddNodeByVal (m : LlMem A B D) (ll : B) (data : Option D) :
    Except Failure (LlMem A B D × Int) := do
  if (← singlyLlGetNodeByDataPtr m ll data).isSome then return (m, -1)
  let (m, node) ← singlyLlInitNode m data
  singlyLlAddNode m ll node

/-- The last loop of `singly_ll_delete_node`: the node before `node`, from `trav` on. -/
def nodeBeforeLoop (m : LlMem A B D) (node : A) : Nat → Option A → Except Failure (Option A)
  | 0, _ => .error .outOfFuel
  | fuel + 1, trav => do
      let n ← m.nodeAt trav
      if n.next = some node then return trav
      nodeBeforeLoop m node fuel n.next

/-- What `singly_ll_delete_node` does with a node `n` of a list that is not empty. -/
def deleteNodeOf (m : LlMem A B D) (ll : B) (l : Ll A D) (node : A) (n : SinglyLlNode A D) :
    Except Failure (LlMem A B D × Int) :=
  match n.next with
  | some temp => do
      -- `node` takes the place of its successor
      let t ← m.nodeAt (some temp)
      let m ← (m.setNode node t).free temp
      return (m.setLl ll { l with nodeCount := countDown 32 l.nodeCount }, 0)
  | none =>
      if l.nodeCount = 1 ∧ l.head = some node then do
        let m ← m.free node
        return (m.setLl ll { l with head := none, nodeCount := countDown 32 l.nodeCount }, 0)
      else do
        let trav ← nodeBeforeLoop m node m.fuel l.head
        let m ← m.setNext trav none
        let m ← m.free node
        return (m.setLl ll { l with nodeCount := countDown 32 l.nodeCount }, 0)

def singlyLlDeleteNode (m : LlMem A B D) (ll : B) (node : A) : Except Failure (LlMem A B D × Int) := do
  let l ← m.llAt ll
  if l.head.isNone then return (m, 0)
  let n ← m.nodeAt (some node)
  deleteNodeOf m ll l node n

/-- The loop of `singly_ll_remove_node` with `left` nodes to look at. -/
def removeNodeLoop (m : LlMem A B D) (ll : B) (l : Ll A D) (node : A) :
    (left : Nat) → (prev head : Option A) → Except Failure (LlMem A B D × Int)
  | 0, _, _ => .ok (m, -1)
  | left + 1, prev, head => do
      let h ← m.nodeAt head
      if head = some node then
        let m ← m.setNext prev h.next
        let m ← m.setNext head none
        return (m.setLl ll { l with nodeCount := countDown 32 l.nodeCount }, 0)
      else removeNodeLoop m ll l node left head h.next

def singlyLlRemoveNode (m : LlMem A B D) (ll : B) (node : A) : Except Failure (LlMem A B D × Int) := do
  let l ← m.llAt ll
  if l.head.isNone then return (m, 0)
  let h ← m.nodeAt l.head
  if l.head = some node then
    let m := m.setLl ll { l with head := h.next, nodeCount := countDown 32 l.nodeCount }
    let m ← m.setNext (some node) none
    return (m, 0)
  else removeNodeLoop m ll l node (l.nodeCount - 1) l.head h.next

/-- `curren_node_count - GET_NODE_COUNT_SINGLY_LL(ll)` -/
def removedCount (m : LlMem A B D) (ll : B) (currenNodeCount : Nat) : Except Failure Nat := do
  let l ← m.llAt ll
  return (currenNodeCount + 2 ^ 32 - l.nodeCount) % 2 ^ 32

/-- The loop of `singly_ll_remove_node_by_dataptr` from `trav` on. -/
def removeByDataptrLoop (m : LlMem A B D) (ll : B) (data : Option D) (currenNodeCount : Nat) :
    Nat → Option A → Except Failure (LlMem A B D × Nat)
  | _, none => do return (m, ← removedCount m ll currenNodeCount)
  | 0, some _ => .error .outOfFuel
  | fuel + 1, some trav => do
      let t ← m.nodeAt (some trav)
      if t.data = data then
        let (m, _) ← singlyLlRemoveNode m ll trav
        return (m, ← removedCount m ll currenNodeCount)
      else removeByDataptrLoop m ll data currenNodeCount fuel t.next

def singlyLlRemoveNodeByDataptr (m : LlMem A B D) (ll : B) (data : Option D) :
    Except Failure (LlMem A B D × Nat) := do
  let l ← m.llAt ll
  if l.head.isNone then return (m, 0)
  removeByDataptrLoop m ll data l.nodeCount m.fuel l.head

def singlyLlDeleteNodeByDataPtr (m : LlMem A B D) (ll : B) (data : Option D) :
    Except Failure (LlMem A B D) := do
  if data.isNone then return m
  match ← singlyLlGetNodeByDataPtr m ll data with
  | none => return m
  | some listNode =>
      let (m, _) ← singlyLlRemoveNode m ll listNode
      m.free listNode

/-- The loop of `reverse_singly_ll`: the memory and the last `p1`. -/
def reverseLoop (m : LlMem A B D) : Nat → (p1 p2 : Option A) → Except Failure (LlMem A B D × Option A)
  | 0, _, _ => .error .outOfFuel
  | fuel + 1, p1, p2 => do
      let n ← m.nodeAt p2
      let m ← m.setNext p2 p1
      if n.next.isSome then reverseLoop m fuel p2 n.next else return (m, p2)

def reverseSinglyLl (m : LlMem A B D) (ll : B) : Except Failure (LlMem A B D) := do
  let l ← m.llAt ll
  if l.nodeCount = 0 then return m
  if l.nodeCount = 1 then return m
  let h ← m.nodeAt l.head
  let m ← m.setNext l.head none
  let (m, p1) ← reverseLoop m m.fuel l.head h.next
  return m.setLl ll { l with head := p1 }

/-- The loop of `delete_singly_ll`. -/
def deleteLoop (m : LlMem A B D) : Nat → (head : A) → (next : Option A) → Except Failure (LlMem A B D)
  | 0, _, _ => .error .outOfFuel
  | fuel + 1, head, next => do
      let m ← m.free head
      match next with
      | none => return m
      | some head => deleteLoop m fuel head (← m.nodeAt (some head)).next

def deleteSinglyLl (m : LlMem A B D) (ll : B) : Except Failure (LlMem A B D) := do
  let l ← m.llAt ll
  if l.nodeCount = 0 then return m
  let h ← m.nodeAt l.head
  match l.head with
  | none => throw .badAccess
  | some head =>
      let m ← deleteLoop m m.fuel head h.next
      return m.setLl ll { l with nodeCount := 0, head := none }

/-- `ITERATE_LIST_BEGIN`: the body for the nodes from `nodePtr` on. -/
def iterateList (body : LlMem A B D → SinglyLlNode A D → Except Failure (LlMem A B D)) :
    Nat → (nodePtr : Option A) → LlMem A B D → Except Failure (LlMem A B D)
  | _, none, m => .ok m
  | 0, some _, _ => .error .outOfFuel
  | fuel + 1, some nodePtr, m => do
      let n ← m.nodeAt (some nodePtr)
      let m ← body m n
      iterateList body fuel n.next m

def singlyLlSetComparisonFn (m : LlMem A B D) (ll : B)
    (comparisonFn : Option (Option D → Option D → Int)) : Except Failure (LlMem A B D) := do
  let l ← m.llAt ll
  return m.setLl ll { l with comparisonFn := comparisonFn }

/-- The body of both loops of `union_singly_ll`. -/
def addData (ll : B) (m : LlMem A B D) (n : SinglyLlNode A D) : Except Failure (LlMem A B D) :=
  (singlyLlAddNodeByVal m ll n.data).map Prod.fst

/-- `union_singly_ll`: the new list is at `res`. -/
def unionSinglyLl (m : LlMem A B D) (list1 list2 res : B) : Except Failure (LlMem A B D) := do
  let m ← initSinglyLl m res
  let l1 ← m.llAt list1
  let l2 ← m.llAt list2
  let m ← singlyLlSetComparisonFn m res (l1.comparisonFn.or l2.comparisonFn)
  let m ← iterateList (addData res) m.fuel l1.head m
  iterateList (addData res) m.fuel l2.head m

/-- The body of the loop of `copy_singly_ll`. -/
def copyData (dst : B) (m : LlMem A B D) (n : SinglyLlNode A D) : Except Failure (LlMem A B D) :=
  if n.data.isNone then .ok m else addData dst m n

def copySinglyLl (m : LlMem A B D) (src dst : B) : Except Failure (LlMem A B D) := do
  let m ← deleteSinglyLl m dst
  let s ← m.llAt src
  let m ← iterateList (copyData dst) m.fuel s.head m
  let s ← m.llAt src
  singlyLlSetComparisonFn m dst s.comparisonFn

/-- `ll->comparison_fn(x, y)` -/
def compare (l : Ll A D) (x y : Option D) : Except Failure Int :=
  match l.comparisonFn with
  | none => .error .badAccess
  | some comparisonFn => .ok (comparisonFn x y)

/-- A new node between `prev` and `next`. -/
def linkNewNode (m : LlMem A B D) (data : Option D) (prev next : Option A) :
    Except Failure (LlMem A B D) := do
  let (m, newNode) ← singlyLlInitNode m data
  let m ← m.setNext (some newNode) next
  m.setNext prev (some newNode)

/-- `INC_NODE_COUNT_SINGLY_LL` -/
def incNodeCount (m : LlMem A B D) (ll : B) : Except Failure (LlMem A B D) := do
  let l ← m.llAt ll
  return m.setLl ll { l with nodeCount := countUp 32 l.nodeCount }

/-- The loop of `singly_ll_add_ordered_data`, and what follows it: the new node goes before `next`,
or to the end. -/
def addOrderedLoop (m : LlMem A B D) (l : Ll A D) (data : Option D) :
    Nat → (prev next : Option A) → Except Failure (LlMem A B D)
  | _, prev, none => linkNewNode m data prev none
  | 0, _, some _ => .error .outOfFuel
  | fuel + 1, prev, some next => do
      let n ← m.nodeAt (some next)
      if (← compare l data n.data) ≠ -1 then addOrderedLoop m l data fuel (some next) n.next
      else linkNewNode m data prev (some next)

def singlyLlAddOrderedData (m : LlMem A B D) (ll : B) (data : Option D) :
    Except Failure (LlMem A B D) := do
  let l ← m.llAt ll
  if l.nodeCount = 0 then return (← singlyLlAddNodeByVal m ll data).1
  let h ← m.nodeAt l.head
  if l.nodeCount = 1 then
    if (← compare l h.data data) = -1 then return (← singlyLlAddNodeByVal m ll data).1
    else
      let (m, newNode) ← singlyLlInitNode m data
      let m ← m.setNext l.head (some newNode)
      incNodeCount m ll
  else if (← compare l data h.data) = -1 then
    let (m, newNode) ← singlyLlInitNode m data
    let m ← m.setNext (some newNode) l.head
    let m := m.setLl ll { l with head := some newNode }
    incNodeCount m ll
  else
    let m ← addOrderedLoop m l data m.fuel none l.head
    incNodeCount m ll

end LinkedList
end MultithreadingBible
