import MultithreadingBible.CrudMgr.Represent
import MultithreadingBible.CrudMgr.Requests

/-!
# CRUD manager: what a request found when it decided

The request loops branch on up to nine flags.  The lemmas here say, for every way a pass through a
loop can end, which flags the thread must have seen, and, for a represented memory, when no pass
ends in a failed assertion.
-/

namespace MultithreadingBible
namespace CrudMgr

open Lib

variable {ν : Type*} {m : CrudMem ν} {n : ν} {r : NodeReq} {s : CrudNodeState}

section Flags

/-- The operation a granted request performs. -/
def NodeReq.op : NodeReq → CrudOpType
  | .read => .read
  | .write => .write
  | .delete => .delete

/-- The condition variable a request waits on under the node's mutex: a deleter that sees a reader
at work joins the readers. -/
def NodeReq.cv (crudNode : CrudNode) : NodeReq → CrudCv
  | .read => .rdrsCv
  | .write => .writersCv
  | .delete =>
      if !crudNode.isStatusSet .writeInProgress && crudNode.isStatusSet .readInProgress then .rdrsCv
      else .deleteThreadCv

theorem releasedState_ne_noOp {op : CrudOpType} (h : releasedState op = some s) : s ≠ .noOp := by
  cases op <;> simp_all [releasedState] <;> rintro rfl <;> cases h

theorem NodeReq.pendingState_ne_noOp (r : NodeReq) : r.pendingState ≠ .noOp := by
  cases r <;> decide

/-- A request that waits found something in its way. -/
theorem NodeReq.loop_block {cv : CrudCv} (h : r.loop m n = .block s cv) :
    s = r.pendingState ∧ cv = r.cv (m.node n) ∧
      (r ≠ .delete → (m.node n).isStatusSet .pendingDelete = false) ∧
      ((m.node n).isStatusSet .writeInProgress = true ∨
        r ≠ .read ∧ (m.node n).isStatusSet .readInProgress = true ∨
        r = .delete ∧ (m.node n).isStatusSet .pendingRead = true ∨
        r = .delete ∧ (m.node n).isStatusSet .pendingWrite = true ∨
        r = .read ∧ (m.node n).isStatusSet .readInProgress = false ∧
          (m.node n).isStatusSet .pendingRead = false ∧
          (m.node n).isStatusSet .pendingWrite = true) := by
  cases r with
  | read =>
      simp only [NodeReq.loop, crudRequestReadLoop, pendingState, NodeReq.cv, ite_eq_iff,
        reduceCtorEq, and_false, or_false, false_or, LoopStep.block.injEq] at h ⊢
      grind
  | write =>
      simp only [NodeReq.loop, crudRequestWriteLoop, pendingState, NodeReq.cv, ite_eq_iff,
        reduceCtorEq, and_false, or_false, false_or, LoopStep.block.injEq] at h ⊢
      grind
  | delete =>
      simp only [NodeReq.loop, crudRequestDeleteLoop, pendingState, NodeReq.cv, ite_eq_iff,
        reduceCtorEq, and_false, or_false, LoopStep.block.injEq] at h ⊢
      grind

/-- A request that is granted found nothing in its way. -/
theorem NodeReq.loop_grant (h : r.loop m n = .grant s) :
    releasedState r.op = some s ∧ r ≠ .delete ∧
      (m.node n).isStatusSet .pendingDelete = false ∧
      (m.node n).isStatusSet .deleteInProgress = false ∧
      (m.node n).isStatusSet .createInProgress = false ∧
      (m.node n).isStatusSet .writeInProgress = false ∧
      (r = .write → (m.node n).isStatusSet .readInProgress = false) := by
  cases r with
  | read =>
      simp only [NodeReq.loop, crudRequestReadLoop, op, releasedState, ite_eq_iff, reduceCtorEq,
        and_false, or_false, false_or, LoopStep.grant.injEq] at h ⊢
      grind
  | write =>
      simp only [NodeReq.loop, crudRequestWriteLoop, op, releasedState, CrudNode.inUse,
        ite_eq_iff, reduceCtorEq, and_false, or_false, false_or, LoopStep.grant.injEq] at h ⊢
      grind
  | delete =>
      simp only [NodeReq.loop, crudRequestDeleteLoop, ite_eq_iff, reduceCtorEq, and_false,
        or_false] at h

/-- Only a deleter leaves its loop, and it leaves a node that is in no state. -/
theorem NodeReq.loop_leave (h : r.loop m n = .leave) :
    r = .delete ∧ ∀ s, s ≠ .noOp → (m.node n).isStatusSet s = false := by
  cases r with
  | read =>
      simp only [NodeReq.loop, crudRequestReadLoop, ite_eq_iff, reduceCtorEq, and_false,
        or_false] at h
  | write =>
      simp only [NodeReq.loop, crudRequestWriteLoop, ite_eq_iff, reduceCtorEq, and_false,
        or_false] at h
  | delete =>
      simp only [NodeReq.loop, crudRequestDeleteLoop, ite_eq_iff, reduceCtorEq, and_false,
        false_or] at h
      refine ⟨rfl, fun s hs => ?_⟩
      cases s <;> grind

/-- A request that quits found the node marked for a structural change; a reader or writer then
wakes everybody on the node. -/
theorem NodeReq.loop_quit {notes : List (Note (ν × CrudCv))} (h : r.loop m n = .quit notes) :
    r ≠ .delete ∧ (m.node n).isStatusSet .pendingDelete = true ∧ notes = quitNotes n ∨
      r = .delete ∧ notes = [] ∧ rejectsRequest (m.node n) = true := by
  cases r with
  | read =>
      simp only [NodeReq.loop, crudRequestReadLoop, ite_eq_iff, reduceCtorEq, and_false,
        or_false, LoopStep.quit.injEq] at h
      grind
  | write =>
      simp only [NodeReq.loop, crudRequestWriteLoop, ite_eq_iff, reduceCtorEq, and_false,
        or_false, LoopStep.quit.injEq] at h
      grind
  | delete =>
      simp only [NodeReq.loop, crudRequestDeleteLoop, rejectsRequest, ite_eq_iff, reduceCtorEq,
        and_false, or_false, false_or, LoopStep.quit.injEq] at h ⊢
      grind

theorem rejectsRequest_eq_false {nd : CrudNode} (h : rejectsRequest nd = false) :
    nd.isStatusSet .pendingDelete = false ∧ nd.isStatusSet .pendingCreate = false ∧
      nd.isStatusSet .deleteInProgress = false ∧ nd.isStatusSet .createInProgress = false := by
  simpa [rejectsRequest, and_assoc] using h

end Flags

section Counts

variable {live : ν → Prop} {c : ν → CrudNodeState → Nat} {L : CrudNodeState → List ν}

namespace MemOk

theorem count_pos (h : MemOk m live c L) (hn : live n) (hs : s ≠ .noOp)
    (hset : (m.node n).isStatusSet s = true) : 0 < c n s :=
  (h.isStatusSet_iff hn hs).mp hset

theorem count_zero (h : MemOk m live c L) (hn : live n) (hs : s ≠ .noOp)
    (hset : (m.node n).isStatusSet s = false) : c n s = 0 := by
  have hiff := h.isStatusSet_iff hn hs
  rw [hset] at hiff
  simp only [Bool.false_eq_true, false_iff] at hiff
  omega

theorem isStatusSet_eq (h : MemOk m live c L) (hn : live n) (hs : s ≠ .noOp) :
    (m.node n).isStatusSet s = decide (0 < c n s) := by
  rw [Bool.eq_iff_iff, h.isStatusSet_iff hn hs, decide_eq_true_iff]

/-- Counts that agree on all states but `no_op` represent the same memory. -/
theorem congr {c' : ν → CrudNodeState → Nat} (h : MemOk m live c L)
    (hc : ∀ n s, s ≠ .noOp → c' n s = c n s) : MemOk m live c' L := by
  have htotal : ∀ n, total (c' n) = total (c n) := fun n => by simp [total, hc]
  have hfull : ∀ n s, full (c' n) s = full (c n) s := fun n s => by
    by_cases hs : s = .noOp
    · rw [hs, full_noOp, full_noOp, htotal]
    · rw [full_of_ne hs, full_of_ne hs, hc n s hs]
  constructor
  · intro n hn s; rw [hfull]; exact h.counter n hn s
  · intro n hn s; rw [hfull]; exact h.status n hn s
  · intro n hn s hs; rw [hc n s hs]; exact h.small n hn s hs
  · intro n s; rw [hfull]; exact h.member n s
  · exact h.listed

/-- Without a structural change no pass through the loops of readers and writers fails an
assertion. -/
theorem loop_ne_fail (h : MemOk m live c L) (hn : live n) (hr : r ≠ .delete)
    (hpc : c n .pendingCreate = 0) (hdip : c n .deleteInProgress = 0)
    (hcip : c n .createInProgress = 0) : r.loop m n ≠ .fail := by
  have hnoOp : (m.node n).isStatusSet .noOp = true → (m.node n).inUse = false := by
    intro hset
    rw [Bool.eq_false_iff, ne_eq, h.inUse_iff hn, not_not]
    exact (h.isStatusSet_noOp_iff hn).mp hset
  have hidle : c n .pendingRead = 0 → c n .readInProgress = 0 → c n .pendingWrite = 0 →
      c n .writeInProgress = 0 → c n .pendingDelete = 0 →
      (m.node n).isStatusSet .noOp = true := by
    intro h₁ h₂ h₃ h₄ h₅
    rw [h.isStatusSet_noOp_iff hn]
    simp only [total]
    omega
  have hset : ∀ s, s ≠ .noOp → (m.node n).isStatusSet s = decide (0 < c n s) :=
    fun s hs => h.isStatusSet_eq hn hs
  intro hfail
  cases r with
  | delete => exact hr rfl
  | read =>
      simp only [NodeReq.loop, crudRequestReadLoop] at hfail
      grind
  | write =>
      simp only [NodeReq.loop, crudRequestWriteLoop] at hfail
      grind

end MemOk

end Counts

end CrudMgr
end MultithreadingBible
