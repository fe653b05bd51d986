import MultithreadingBible.CrudMgr.Counted
import MultithreadingBible.CrudMgr.MgrLists

/-!
# CRUD manager: what the threads on all nodes account for

`mgrWeight` says what a thread's location contributes to the counts of the states of each node, and
`MgrMove.counted` that a move keeps the memory in step with the contributions.  `MgrLoc.role` says what
a thread is doing on a node; it changes when a call begins, when one ends, and when a request passes
the tests in its loop (`MgrMove.role`).
-/

namespace MultithreadingBible
namespace CrudMgr

open Lib

variable {τ ν : Type*}

/-- The tests in a request's loop were passed. -/
def LoopStep.passes : LoopStep ν → Bool
  | .block _ _ | .grant _ | .leave => true
  | .quit _ | .fail => false

/-- A reader or writer that passes its tests saw no deleter. -/
theorem NodeReq.loop_passes {r : NodeReq} {m : CrudMem ν} {n : ν} (hr : r ≠ .delete)
    (h : (r.loop m n).passes = true) :
    (m.node n).isStatusSet .pendingDelete = false ∧
      (m.node n).isStatusSet .deleteInProgress = false := by
  cases r with
  | read =>
      simp only [NodeReq.loop, crudRequestReadLoop] at h
      grind [LoopStep.passes]
  | write =>
      simp only [NodeReq.loop, crudRequestWriteLoop] at h
      grind [LoopStep.passes]
  | delete => exact absurd rfl hr

/-- The entries a thread at a location has made and not taken back. -/
def MgrLoc.entries : MgrLoc ν → Option (ν × CrudNodeState × Nat)
  | .sleep r n _ | .wait r n => some (n, r.pendingState, 1)
  | .deleteMgr n | .mgrHead .delete n | .mgrBlock .delete n | .mgrUnpend n =>
      some (n, .pendingDelete, 1)
  | .mgrSleep .delete n | .mgrWait .delete n => some (n, .pendingDelete, 2)
  | .mgrSleep .create n | .mgrWait .create n => some (n, .pendingCreate, 1)
  | .holds op n | .releasing (some op) _ n => (releasedState op).map fun s => (n, s, 1)
  | _ => none

variable [DecidableEq ν]

/-- What a location contributes to the count of a state. -/
def mgrWeight (n : ν) (s : CrudNodeState) (l : MgrLoc ν) : Nat :=
  match l.entries with
  | some (n', s', k) => if n' = n ∧ s' = s then k else 0
  | none => 0

/-- What a thread does on a node. -/
inductive Role where
  /-- It has called a request function, and has not passed the tests in the loop. -/
  | ask
  /-- It reads or writes, or has passed the tests and waits. -/
  | access
  /-- It wants to delete the node, and waits for it to be free. -/
  | request
  /-- It has found the node free and deletes it, or is about to. -/
  | remove
  /-- It creates the node, or wants to. -/
  | create
  deriving DecidableEq

/-- The role that comes with a grant. -/
def CrudOpType.role : CrudOpType → Option Role
  | .read | .write => some .access
  | .delete => some .remove
  | .create => some .create
  | .opNone => none

/-- The role of a request that has to wait. -/
def NodeReq.role : NodeReq → Role
  | .read | .write => .access
  | .delete => .request

/-- The role of a request under the manager's mutex. -/
def StructOp.role : StructOp → Role
  | .create => .create
  | .delete => .remove

namespace MgrLoc

/-- Which node a thread uses, and in what role. -/
def role : MgrLoc ν → Option (ν × Role)
  | .idle | .releaseMgr => none
  | .decided _ n .leave => some (n, .remove)
  | .decided r n d => some (n, if d.passes then r.role else .ask)
  | .head _ n => some (n, .ask)
  | .sleep r n _ | .wait r n => some (n, r.role)
  | .deleteMgr n | .mgrUnpend n => some (n, .remove)
  | .mgrHead op n | .mgrBlock op n | .mgrSleep op n | .mgrWait op n | .mgrGrant op n =>
      some (n, op.role)
  | .holds op n | .releasing _ op n | .releaseTail op n => op.role.map fun ρ => (n, ρ)

/-- A thread holds a grant of something, and releases what it holds. -/
def Honest : MgrLoc ν → Prop
  | .holds op _ => op ≠ .opNone
  | .releasing g currOp _ => g = some currOp ∧ currOp ≠ .opNone
  | _ => True

/-- In no state, without a mutex of the node: between `pending_delete` and `delete_in_progress`, or a
creator that has not entered a state. -/
def isHidden (n : ν) : MgrLoc ν → Bool
  | .mgrGrant _ n' | .mgrHead .create n' | .mgrBlock .create n' => decide (n' = n)
  | _ => false

/-- Which states a role may be in. -/
def allows (ρ : Role) (s : CrudNodeState) : Bool :=
  match ρ with
  | .ask => false
  | .access => s = .pendingRead || s = .pendingWrite || s = .readInProgress || s = .writeInProgress
  | .request => s = .pendingDelete
  | .remove => s = .pendingDelete || s = .deleteInProgress
  | .create => s = .pendingCreate || s = .createInProgress

end MgrLoc

section Locations

variable {n : ν} {s : CrudNodeState} {l : MgrLoc ν} {ρ : Role}

omit [DecidableEq ν] in
/-- A deleter waits for readers and writers. -/
theorem NodeReq.loop_block_access {m : CrudMem ν} {cv : CrudCv}
    (h : NodeReq.loop m n .delete = .block s cv) :
    ∃ s', s' ≠ .noOp ∧ (m.node n).isStatusSet s' = true ∧
      ∀ ρ, MgrLoc.allows ρ s' = true → ρ = .access := by
  obtain ⟨-, -, -, hway⟩ := NodeReq.loop_block h
  have hwitness : ∀ s', s' = .writeInProgress ∨ s' = .readInProgress ∨ s' = .pendingRead ∨
      s' = .pendingWrite → (m.node n).isStatusSet s' = true →
      ∃ s', s' ≠ .noOp ∧ (m.node n).isStatusSet s' = true ∧
        ∀ ρ, MgrLoc.allows ρ s' = true → ρ = .access := by
    intro s' hs' hset
    refine ⟨s', by rcases hs' with rfl | rfl | rfl | rfl <;> simp, hset, fun ρ hρ => ?_⟩
    rcases hs' with rfl | rfl | rfl | rfl <;> cases ρ <;> simp_all [MgrLoc.allows]
  rcases hway with hset | ⟨-, hset⟩ | ⟨-, hset⟩ | ⟨-, hset⟩ | ⟨hr, -⟩
  · exact hwitness _ (by simp) hset
  · exact hwitness _ (by simp) hset
  · exact hwitness _ (by simp) hset
  · exact hwitness _ (by simp) hset
  · cases hr

theorem exists_releasedState {op : CrudOpType} (h : op ≠ .opNone) :
    ∃ s, releasedState op = some s := by
  cases op with
  | opNone => exact absurd rfl h
  | create | delete | read | write => exact ⟨_, rfl⟩

/-- A thread is in states its role allows. -/
theorem MgrLoc.allows_of_weight (hl : l.Honest) (h : 0 < mgrWeight n s l) :
    ∃ ρ, l.role = some (n, ρ) ∧ MgrLoc.allows ρ s = true := by
  have hentries : ∃ k, l.entries = some (n, s, k) := by
    unfold mgrWeight at h
    split at h
    · next n' s' k heq =>
      split at h
      · next hsame =>
        obtain ⟨rfl, rfl⟩ := hsame
        exact ⟨k, heq⟩
      · exact absurd h (Nat.lt_irrefl 0)
    · exact absurd h (Nat.lt_irrefl 0)
  obtain ⟨k, hk⟩ := hentries
  cases l with
  | sleep r n' cv | wait r n' => cases r <;> cases hk <;> exact ⟨_, rfl, rfl⟩
  | deleteMgr n' | mgrUnpend n' => cases hk; exact ⟨_, rfl, rfl⟩
  | mgrHead op n' | mgrBlock op n' | mgrSleep op n' | mgrWait op n' =>
      cases op <;> cases hk <;> exact ⟨_, rfl, rfl⟩
  | holds op n' => cases op <;> cases hk <;> exact ⟨_, rfl, rfl⟩
  | releasing g currOp n' =>
      obtain ⟨rfl, -⟩ := hl
      cases currOp <;> cases hk <;> exact ⟨_, rfl, rfl⟩
  | _ => cases hk

/-- A thread that uses a node has its mutex, or is in one of its states, or is hidden. -/
theorem MgrLoc.visible (hl : l.Honest) (h : l.role = some (n, ρ)) :
    l.nodeHeld = some n ∨ (∃ s, s ≠ .noOp ∧ MgrLoc.allows ρ s = true ∧ 0 < mgrWeight n s l) ∨
      l.isHidden n = true := by
  cases l with
  | idle | releaseMgr => cases h
  | head r n' => cases h; exact .inl rfl
  | sleep r n' cv => cases h; exact .inl rfl
  | decided r n' d =>
      left
      cases r <;> cases d <;> cases h <;> rfl
  | releaseTail op n' =>
      left
      cases op <;> cases h <;> rfl
  | wait r n' =>
      right; left
      cases r <;> cases h
      · exact ⟨.pendingRead, by simp, rfl, by simp [mgrWeight, entries, NodeReq.pendingState]⟩
      · exact ⟨.pendingWrite, by simp, rfl, by simp [mgrWeight, entries, NodeReq.pendingState]⟩
      · exact ⟨.pendingDelete, by simp, rfl, by simp [mgrWeight, entries, NodeReq.pendingState]⟩
  | deleteMgr n' | mgrUnpend n' =>
      cases h
      exact .inr (.inl ⟨.pendingDelete, by simp, rfl, by simp [mgrWeight, entries]⟩)
  | mgrHead op n' | mgrBlock op n' =>
      cases op <;> cases h
      · exact .inr (.inr (by simp [isHidden]))
      · exact .inr (.inl ⟨.pendingDelete, by simp, rfl, by simp [mgrWeight, entries]⟩)
  | mgrSleep op n' | mgrWait op n' =>
      cases op <;> cases h
      · exact .inr (.inl ⟨.pendingCreate, by simp, rfl, by simp [mgrWeight, entries]⟩)
      · exact .inr (.inl ⟨.pendingDelete, by simp, rfl, by simp [mgrWeight, entries]⟩)
  | mgrGrant op n' =>
      cases h
      exact .inr (.inr (by simp [isHidden]))
  | holds op n' =>
      right; left
      cases op <;> cases h
      · exact ⟨.deleteInProgress, by simp, rfl, by simp [mgrWeight, entries, releasedState]⟩
      · exact ⟨.createInProgress, by simp, rfl, by simp [mgrWeight, entries, releasedState]⟩
      · exact ⟨.readInProgress, by simp, rfl, by simp [mgrWeight, entries, releasedState]⟩
      · exact ⟨.writeInProgress, by simp, rfl, by simp [mgrWeight, entries, releasedState]⟩
  | releasing g op n' =>
      obtain ⟨rfl, -⟩ := hl
      right; left
      cases op <;> cases h
      · exact ⟨.deleteInProgress, by simp, rfl, by simp [mgrWeight, entries, releasedState]⟩
      · exact ⟨.createInProgress, by simp, rfl, by simp [mgrWeight, entries, releasedState]⟩
      · exact ⟨.readInProgress, by simp, rfl, by simp [mgrWeight, entries, releasedState]⟩
      · exact ⟨.writeInProgress, by simp, rfl, by simp [mgrWeight, entries, releasedState]⟩

end Locations

section Moves

variable {t : τ} {x : MgrCall ν} {m m' : MgrMem τ ν} {l : MgrLoc ν} {n : ν} {s : CrudNodeState}
  {notes : List (Note (ν × CrudCv))} {st : Status (ν × CrudCv) (MgrLoc ν)}
  {c : ν → CrudNodeState → Nat}

/-- A call of `crud_node_enter_state` adds its entry to those of the thread. -/
theorem MgrMove.weight_enter (hmove : MgrMove t x m l m' notes st) (hd : l.Decided)
    (h : l.enters = some (n, s)) (n' : ν) (s' : CrudNodeState) :
    mgrWeight n' s' st.loc = mgrWeight n' s' l + if n' = n ∧ s' = s then 1 else 0 := by
  cases hmove with
  | @block r n₁ s₁ cv c =>
      obtain ⟨m₁, hloop⟩ := hd r n₁ _ rfl
      cases h
      rw [(NodeReq.loop_block hloop.symm).1]
      simp [mgrWeight, MgrLoc.entries, eq_comm]
  | @grant r n₁ s₁ c =>
      obtain ⟨m₁, hloop⟩ := hd r n₁ _ rfl
      cases h
      simp [mgrWeight, MgrLoc.entries, (NodeReq.loop_grant hloop.symm).1, eq_comm]
  | leave =>
      cases h
      simp [mgrWeight, MgrLoc.entries, eq_comm]
  | @mgrBlock op n₁ c =>
      cases h
      cases op with
      | create => simp [mgrWeight, MgrLoc.entries, StructOp.pendingState, eq_comm]
      | delete =>
          simp only [mgrWeight, MgrLoc.entries, StructOp.pendingState, Status.loc_running]
          grind
  | @mgrGrant op n₁ c =>
      cases h
      cases op <;> simp [mgrWeight, MgrLoc.entries, StructOp.op, releasedState,
        StructOp.grantState, eq_comm]
  | @mgrTest op n₁ => cases h
  | _ => cases h

/-- A call of `crud_node_exit_state` takes one away. -/
theorem MgrMove.weight_exit (hmove : MgrMove t x m l m' notes st) (hl : l.Honest)
    (h : l.exits = some (n, s)) (n' : ν) (s' : CrudNodeState) :
    mgrWeight n' s' l = mgrWeight n' s' st.loc + if n' = n ∧ s' = s then 1 else 0 := by
  cases hmove with
  | wake =>
      cases h
      simp [mgrWeight, MgrLoc.entries, eq_comm]
  | @mgrWake op n₁ c =>
      cases h
      cases op with
      | create => simp [mgrWeight, MgrLoc.entries, StructOp.pendingState, eq_comm]
      | delete =>
          simp only [mgrWeight, MgrLoc.entries, StructOp.pendingState, Status.loc_running]
          grind
  | mgrUnpend =>
      cases h
      simp [mgrWeight, MgrLoc.entries, eq_comm]
  | @release g currOp n₁ s₁ c hfree hs =>
      obtain ⟨rfl, -⟩ := hl
      simp only [MgrLoc.exits, hs, Option.map_some, Option.some.injEq, Prod.mk.injEq] at h
      obtain ⟨rfl, rfl⟩ := h
      simp [mgrWeight, MgrLoc.entries, hs, eq_comm]
  | _ => cases h

/-- Everything else leaves the entries as they are. -/
theorem MgrMove.weight_eq (hmove : MgrMove t x m l m' notes st) (he : l.enters = none)
    (hx : l.exits = none) (n' : ν) (s' : CrudNodeState) : mgrWeight n' s' st.loc = mgrWeight n' s' l := by
  cases hmove with
  | mgrTest =>
      rename_i op n₁
      cases op <;> simp only [CrudMgr.mgrTest, Status.loc_running] <;> split <;> rfl
  | @tail currOp => cases currOp <;> rfl
  | @mgrSleep op n₁ => cases op <;> rfl
  | block | grant | leave | mgrBlock | mgrGrant => cases he
  | wake | mgrWake | mgrUnpend => cases hx
  | release hfree hs => simp [MgrLoc.exits, hs] at hx
  | _ => rfl

/-- Only an entry adds to the entries of a thread. -/
theorem MgrMove.weight_le (hmove : MgrMove t x m l m' notes st) (hd : l.Decided) (hl : l.Honest)
    (h : l.enters ≠ some (n, s)) : mgrWeight n s st.loc ≤ mgrWeight n s l := by
  cases hent : l.enters with
  | some e =>
      obtain ⟨n₁, s₁⟩ := e
      have hne : ¬ (n = n₁ ∧ s = s₁) := by
        rintro ⟨rfl, rfl⟩
        exact h hent
      rw [hmove.weight_enter hd hent, if_neg hne]
      exact le_rfl
  | none =>
      cases hex : l.exits with
      | some e =>
          obtain ⟨n₁, s₁⟩ := e
          rw [hmove.weight_exit hl hex n s]
          exact Nat.le_add_right ..
      | none => exact (hmove.weight_eq hent hex n s).le

/-- **A move keeps the memory in step with the threads.** -/
theorem MgrMove.counted (hmove : MgrMove t x m l m' notes st) (h : Counted m.crud c)
    (hd : l.Decided) (hl : l.Honest)
    (hroom : ∀ n s, l.enters = some (n, s) → c n s < 255)
    (honly : ∀ n s, l.enters = some (n, s) → ∀ op, releasedState op = some s →
      ∀ op' s', releasedState op' = some s' → 0 < c n s' → op' = op) :
    Counted m'.crud (moved mgrWeight c l st.loc) := by
  have henter : ∀ {n s}, l.enters = some (n, s) → crudNodeEnterState m.crud n s = some m'.crud →
      Counted m'.crud (moved mgrWeight c l st.loc) := by
    intro n s hent hcall
    exact h.enterMove (MgrLoc.ne_noOp_of_enters hd hent) (hroom n s hent) (honly n s hent) hcall
      fun n' s' _ => hmove.weight_enter hd hent n' s'
  have hexit : ∀ {n s}, l.exits = some (n, s) → crudNodeExitState m.crud n s = some m'.crud →
      Counted m'.crud (moved mgrWeight c l st.loc) := by
    intro n s hex hcall
    exact h.exitMove (MgrLoc.ne_noOp_of_exits hex) hcall
      fun n' s' _ => hmove.weight_exit hl hex n' s'
  have hsame : l.enters = none → l.exits = none → m'.crud = m.crud →
      Counted m'.crud (moved mgrWeight c l st.loc) := by
    intro he hx hc
    rw [hc, moved_eq (hmove.weight_eq he hx)]
    exact h
  cases hmove with
  | rejected | request | create | stray | test | quit | sleep | lockMgr | mgrTest | mgrSleep
  | readOp | tail | signal => exact hsame rfl rfl rfl
  | block hlock he | grant hlock he | leave hlock he => exact henter rfl he
  | wake hfree hlock hx => exact hexit rfl hx
  | mgrBlock he | mgrGrant he => exact henter rfl he
  | mgrWake hfree hx => exact hexit rfl hx
  | mgrUnpend hx => exact hexit rfl hx
  | release hfree hs hlock hx => exact hexit (by simp [MgrLoc.exits, hs]) hx

/-- A thread releases what it was granted. -/
theorem MgrMove.honest (hmove : MgrMove t x m l m' notes st)
    (hl : l.Honest) (hx : l = .idle → ∀ n, x ≠ .release n)
    (hop : ∀ op n, l = .holds op n → op ≠ .opNone → (m.crud.node n).currOp = op) :
    st.loc.Honest := by
  cases hmove with
  | @stray n hx' => exact absurd hx' (hx rfl n)
  | @grant r => cases r <;> simp [MgrLoc.Honest, NodeReq.op]
  | @mgrGrant op => cases op <;> simp [MgrLoc.Honest, StructOp.op]
  | @readOp op n h =>
      show some op = some _ ∧ _
      rw [hop op n rfl hl]
      exact ⟨rfl, hl⟩
  | @mgrTest op n =>
      cases op <;> simp only [CrudMgr.mgrTest, Status.loc_running] <;> split <;> trivial
  | @tail currOp => cases currOp <;> trivial
  | _ => trivial

/-- How the role of a thread changes. -/
inductive RoleChange (x : MgrCall ν) (m : MgrMem τ ν) (l l' : MgrLoc ν) : Prop
  | none (h : l'.role = none)
  | same (h : l'.role = l.role)
  | request (r : NodeReq) (n : ν) (hl : l = .idle) (hx : x = .request r n)
      (h : l'.role = some (n, .ask))
  | create (n : ν) (hl : l = .idle) (hx : x = .create n) (h : l'.role = some (n, .create))
  | again (r : NodeReq) (n : ν) (hl : l.role = some (n, r.role)) (h : l'.role = some (n, .ask))
  | pass (r : NodeReq) (n : ν) (hl : l = .head r n) (hpass : (r.loop m.crud n).passes = true)
      (hleave : r.loop m.crud n ≠ .leave) (h : l'.role = some (n, r.role))
  | remove (n : ν) (hl : l = .head .delete n) (hfree : NodeReq.loop m.crud n .delete = .leave)
      (h : l'.role = some (n, .remove))

omit [DecidableEq ν] in
/-- A role is kept or new. -/
theorem RoleChange.old_or {l' : MgrLoc ν} (h : RoleChange x m l l') {ρ : Role}
    (hρ : l'.role = some (n, ρ)) :
    l.role = some (n, ρ) ∨
    (∃ r : NodeReq, l = .idle ∧ x = .request r n ∧ ρ = .ask) ∨
    (l = .idle ∧ x = .create n ∧ ρ = .create) ∨
    (∃ r : NodeReq, l.role = some (n, r.role) ∧ ρ = .ask) ∨
    (∃ r : NodeReq, l = .head r n ∧ (r.loop m.crud n).passes = true ∧
      r.loop m.crud n ≠ .leave ∧ ρ = r.role) ∨
    (l = .head .delete n ∧ NodeReq.loop m.crud n .delete = .leave ∧ ρ = .remove) := by
  cases h with
  | none h =>
      rw [h] at hρ
      cases hρ
  | same h =>
      rw [h] at hρ
      exact .inl hρ
  | request r n' hl hx h =>
      rw [h] at hρ
      cases hρ
      exact .inr (.inl ⟨r, hl, hx, rfl⟩)
  | create n' hl hx h =>
      rw [h] at hρ
      cases hρ
      exact .inr (.inr (.inl ⟨hl, hx, rfl⟩))
  | again r n' hl h =>
      rw [h] at hρ
      cases hρ
      exact .inr (.inr (.inr (.inl ⟨r, hl, rfl⟩)))
  | pass r n' hl hpass hleave h =>
      rw [h] at hρ
      cases hρ
      exact .inr (.inr (.inr (.inr (.inl ⟨r, hl, hpass, hleave, rfl⟩))))
  | remove n' hl hfree h =>
      rw [h] at hρ
      cases hρ
      exact .inr (.inr (.inr (.inr (.inr ⟨hl, hfree, rfl⟩))))

theorem MgrMove.role (hmove : MgrMove t x m l m' notes st) (hd : l.Decided)
    (hl : l.Honest) (hx : l = .idle → ∀ n, x ≠ .release n)
    (hop : ∀ op n, l = .holds op n → op ≠ .opNone → (m.crud.node n).currOp = op) :
    RoleChange x m l st.loc := by
  cases hmove with
  | rejected | quit | signal => exact .none rfl
  | @stray n hx' => exact absurd hx' (hx rfl n)
  | request hx' => exact .request _ _ rfl hx' rfl
  | create hx' => exact .create _ rfl hx' rfl
  | @test r n =>
      -- the test in the loop decides: only a request that passes it becomes something else
      cases hloop : r.loop m.crud n with
      | quit | fail => exact .same rfl
      | leave =>
          obtain rfl := (NodeReq.loop_leave hloop).1
          exact .remove n rfl hloop rfl
      | block | grant =>
          apply RoleChange.pass r n rfl
          · rw [hloop]
            rfl
          · simp [hloop]
          · rfl
  | @wake r n =>
      apply RoleChange.again r n rfl
      rfl
  | @block r n =>
      apply RoleChange.same
      cases r <;> rfl
  | @grant r n s =>
      -- what was decided is carried out as the test said
      obtain ⟨m₁, hloop⟩ := hd r n _ rfl
      have hr := (NodeReq.loop_grant hloop.symm).2.1
      apply RoleChange.same
      cases r with
      | read | write => rfl
      | delete => exact absurd rfl hr
  | @leave r n =>
      obtain ⟨m₁, hloop⟩ := hd r n _ rfl
      rw [(NodeReq.loop_leave hloop.symm).1]
      exact .same rfl
  | @mgrTest op n =>
      apply RoleChange.same
      cases op <;> simp only [CrudMgr.mgrTest, Status.loc_running] <;> split <;> rfl
  | @mgrGrant op n =>
      apply RoleChange.same
      cases op <;> rfl
  | @readOp op n =>
      apply RoleChange.same
      rw [Status.loc_running, hop op n rfl hl]
      rfl
  | @tail currOp =>
      apply RoleChange.none
      cases currOp <;> rfl
  | _ => exact .same rfl

end Moves

end CrudMgr
end MultithreadingBible
