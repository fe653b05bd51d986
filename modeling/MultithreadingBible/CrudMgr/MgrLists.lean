import MultithreadingBible.CrudMgr.MgrMachine

/-!
# CRUD manager: one structural change at a time

Who owns which mutex follows from the threads' locations (`Owned`), and each location makes at most one
call of `crud_node_enter_state` or `crud_node_exit_state` (`CallEffect`).  A list of the manager only
changes while its mutex is free or held by the thread that changes it, so what a creator or deleter
found under the mutex stays true until it unlocks.

* `MgrLoc.enters` / `MgrLoc.exits` / `CallEffect` — the call made from a location and what it does.
* `ListInv` — the invariant, which needs no assumption on the clients.
* `one_structural_change` — no two nodes are created or deleted at the same time.
-/

namespace MultithreadingBible
namespace CrudMgr

open Lib

variable {τ ν : Type*}

namespace MgrLoc

/-- The node whose mutex a thread holds. -/
def nodeHeld : MgrLoc ν → Option ν
  | .head _ n | .decided _ n _ | .sleep _ n _ | .releaseTail _ n => some n
  | _ => none

/-- Whether a thread holds the manager's mutex. -/
def mgrHeld : MgrLoc ν → Bool
  | .mgrHead _ _ | .mgrBlock _ _ | .mgrSleep _ _ | .mgrUnpend _ | .mgrGrant _ _ => true
  | _ => false

/-- The call of `crud_node_enter_state` made from a location. -/
def enters : MgrLoc ν → Option (ν × CrudNodeState)
  | .decided _ n (.block s _) => some (n, s)
  | .decided _ n (.grant s) => some (n, s)
  | .decided _ n .leave => some (n, .pendingDelete)
  | .mgrBlock op n => some (n, op.pendingState)
  | .mgrGrant op n => some (n, op.grantState)
  | _ => none

/-- The call of `crud_node_exit_state` made from a location. -/
def exits : MgrLoc ν → Option (ν × CrudNodeState)
  | .wait r n => some (n, r.pendingState)
  | .mgrWait op n => some (n, op.pendingState)
  | .mgrUnpend n => some (n, .pendingDelete)
  | .releasing _ currOp n => (releasedState currOp).map fun s => (n, s)
  | _ => none

/-- Past the manager-level test, which found nothing in progress. -/
def isAdmitted : MgrLoc ν → Bool
  | .mgrUnpend _ | .mgrGrant _ _ => true
  | _ => false

/-- Past the manager-level test, which found something in progress, and not yet waiting. -/
def isRefused : MgrLoc ν → Bool
  | .mgrBlock _ _ | .mgrSleep _ _ => true
  | _ => false

theorem nodeHeld_mgrTest (op : StructOp) (n : ν) (c : CrudMem ν) :
    (mgrTest op n c).nodeHeld = none := by
  cases op <;> unfold mgrTest <;> split <;> rfl

theorem mgrHeld_mgrTest (op : StructOp) (n : ν) (c : CrudMem ν) :
    (mgrTest op n c).mgrHeld = true := by
  cases op <;> unfold mgrTest <;> split <;> rfl

theorem nodeHeld_afterTail (currOp : CrudOpType) :
    (afterTail currOp : MgrLoc ν).nodeHeld = none := by
  cases currOp <;> rfl

theorem mgrHeld_afterTail (currOp : CrudOpType) :
    (afterTail currOp : MgrLoc ν).mgrHeld = false := by
  cases currOp <;> rfl

theorem mgrHeld_of_isAdmitted {l : MgrLoc ν} (h : l.isAdmitted = true) : l.mgrHeld = true := by
  cases l <;> first | rfl | cases h

theorem mgrHeld_of_isRefused {l : MgrLoc ν} (h : l.isRefused = true) : l.mgrHeld = true := by
  cases l <;> first | rfl | cases h

/-- What was decided under the node's mutex came out of the request's loop. -/
def Decided (l : MgrLoc ν) : Prop :=
  ∀ r n d, l = .decided r n d → ∃ m : CrudMem ν, d = r.loop m n

/-- No thread enters `no_op` of its own accord. -/
theorem ne_noOp_of_enters {l : MgrLoc ν} {n : ν} {s : CrudNodeState} (hl : l.Decided)
    (h : l.enters = some (n, s)) : s ≠ .noOp := by
  cases l with
  | decided r n' d =>
      obtain ⟨m, hd⟩ := hl r n' d rfl
      cases d with
      | block s' cv =>
          cases h
          rw [(NodeReq.loop_block hd.symm).1]
          exact r.pendingState_ne_noOp
      | grant s' =>
          cases h
          exact releasedState_ne_noOp (NodeReq.loop_grant hd.symm).1
      | leave =>
          cases h
          decide
      | quit | fail => cases h
  | mgrBlock op n' =>
      cases h
      cases op <;> decide
  | mgrGrant op n' =>
      cases h
      cases op <;> decide
  | _ => cases h

theorem ne_noOp_of_exits {l : MgrLoc ν} {n : ν} {s : CrudNodeState}
    (h : l.exits = some (n, s)) : s ≠ .noOp := by
  cases l with
  | wait r n' =>
      cases h
      exact r.pendingState_ne_noOp
  | mgrWait op n' =>
      cases h
      cases op <;> decide
  | mgrUnpend n' =>
      cases h
      decide
  | releasing g currOp n' =>
      obtain ⟨s', hs', heq⟩ := Option.map_eq_some_iff.mp h
      cases heq
      exact releasedState_ne_noOp hs'
  | _ => cases h

/-- The calls that lengthen a list of structural changes are those of the admitted threads. -/
theorem isAdmitted_of_enters {l : MgrLoc ν} {n : ν} {s : CrudNodeState} (hl : l.Decided)
    (h : l.enters = some (n, s)) (hs : s = .createInProgress ∨ s = .deleteInProgress) :
    l.isAdmitted = true := by
  cases l with
  | decided r n' d =>
      obtain ⟨m, hd⟩ := hl r n' d rfl
      exfalso
      cases d with
      | block s' cv =>
          cases h
          rw [(NodeReq.loop_block hd.symm).1] at hs
          cases r <;> simp [NodeReq.pendingState] at hs
      | grant s' =>
          cases h
          have hgrant := NodeReq.loop_grant hd.symm
          cases r with
          | delete => exact hgrant.2.1 rfl
          | read | write =>
              cases hgrant.1
              simp at hs
      | leave =>
          cases h
          simp at hs
      | quit | fail => cases h
  | mgrBlock op n' =>
      cases h
      cases op <;> simp [StructOp.pendingState] at hs
  | mgrGrant op n' => rfl
  | _ => cases h

end MgrLoc

/-- The mutexes belong to the threads whose locations say so. -/
structure Owned (s : MgrConfig τ ν) : Prop where
  node : ∀ n t, s.mem.nodeOwner n = some t ↔ (s.thr t).loc.nodeHeld = some n
  mgr : ∀ t, s.mem.mgrOwner = some t ↔ (s.thr t).loc.mgrHeld = true

theorem Listed.nothingInProgress {m : CrudMem ν} {L : CrudNodeState → List ν}
    (h : Listed m (fun _ => True) L) :
    m.nothingInProgress = true ↔ L .createInProgress = [] ∧ L .deleteInProgress = [] := by
  unfold CrudMem.nothingInProgress
  rw [Bool.and_eq_true, h.isListEmpty_iff, h.isListEmpty_iff]

variable [DecidableEq ν]

/-- What the call made from a location did to the memory and its lists. -/
inductive CallEffect (t : τ) (m : MgrMem τ ν) (l : MgrLoc ν) (L : CrudNodeState → List ν)
    (c : CrudMem ν) (L' : CrudNodeState → List ν) : Prop
  | none (he : l.enters = none) (hx : l.exits = none) (hc : c = m.crud) (hL : L' = L)
  | enter {n : ν} {s : CrudNodeState} (hl : l.enters = some (n, s)) (hs : s ≠ .noOp)
      (hcall : crudNodeEnterState m.crud n s = some c)
      (heff : EnterEffect m.crud c (fun _ => True) L L' n s)
      (hlock : ∀ u, u ≠ t → m.mgrOwner = some u → L' s = L s)
  | exit {n : ν} {s : CrudNodeState} (hl : l.exits = some (n, s)) (hs : s ≠ .noOp)
      (hcall : crudNodeExitState m.crud n s = some c)
      (heff : ExitEffect m.crud c (fun _ => True) L L' n s)
      (hlock : ∀ u, u ≠ t → m.mgrOwner = some u → L' s = L s)

section Moves

variable {t : τ} {x : MgrCall ν} {m m' : MgrMem τ ν} {l : MgrLoc ν} {n : ν} {s : CrudNodeState}
  {notes : List (Note (ν × CrudCv))} {st : Status (ν × CrudCv) (MgrLoc ν)}
  {L L' : CrudNodeState → List ν} {c : CrudMem ν}

/-- A move gives the moving thread the node mutexes of its new location and leaves the others'. -/
theorem MgrMove.nodeOwner (hmove : MgrMove t x m l m' notes st)
    (hl : ∀ n, m.nodeOwner n = some t ↔ l.nodeHeld = some n) (n : ν) :
    (m'.nodeOwner n = some t ↔ st.loc.nodeHeld = some n) ∧
      ∀ u, u ≠ t → (m'.nodeOwner n = some u ↔ m.nodeOwner n = some u) := by
  have hn := hl n
  cases hmove with
  | mgrTest =>
      rw [Status.loc_running, MgrLoc.nodeHeld_mgrTest]
      exact ⟨hn, fun u _ => Iff.rfl⟩
  | @tail currOp n' =>
      -- the thread held this node's mutex and gives it back
      have hself := (hl n').mpr rfl
      rw [Status.loc_running, MgrLoc.nodeHeld_afterTail]
      simp only [MgrLoc.nodeHeld, MgrMem.unlockNode] at hn ⊢
      grind [Function.update_apply]
  | request hx hfree | wake hfree | release hfree =>
      simp only [MgrLoc.nodeHeld, MgrMem.lockNode, MgrMem.withCrud, Status.loc_running] at hn ⊢
      grind [Function.update_apply]
  | @quit _ n' | @grant _ n' | @leave _ n' | @sleep _ n' =>
      have hself := (hl n').mpr rfl
      simp only [MgrLoc.nodeHeld, MgrMem.unlockNode, MgrMem.withCrud, Status.loc_running,
        Status.loc_waiting] at hn ⊢
      grind [Function.update_apply]
  | _ => simpa [MgrLoc.nodeHeld, MgrMem.withCrud, MgrMem.lockMgr, MgrMem.unlockMgr] using hn

/-- The same for the manager's mutex. -/
theorem MgrMove.mgrOwner (hmove : MgrMove t x m l m' notes st)
    (hl : m.mgrOwner = some t ↔ l.mgrHeld = true) :
    (m'.mgrOwner = some t ↔ st.loc.mgrHeld = true) ∧
      ∀ u, u ≠ t → (m'.mgrOwner = some u ↔ m.mgrOwner = some u) := by
  cases hmove with
  | mgrTest =>
      rw [Status.loc_running, MgrLoc.mgrHeld_mgrTest]
      exact ⟨hl, fun u _ => Iff.rfl⟩
  | tail =>
      rw [Status.loc_running, MgrLoc.mgrHeld_afterTail]
      simpa [MgrLoc.mgrHeld, MgrMem.unlockNode] using hl
  | create hx hfree | lockMgr hfree | mgrWake hfree =>
      refine ⟨by simp [MgrMem.lockMgr, MgrLoc.mgrHeld], fun u hu => ?_⟩
      simp [MgrMem.lockMgr, MgrMem.withCrud, hfree, hu.symm]
  | mgrSleep | mgrGrant =>
      have hself := hl.mpr rfl
      refine ⟨by simp [MgrMem.unlockMgr, MgrLoc.mgrHeld], fun u hu => ?_⟩
      simp [MgrMem.unlockMgr, hself, hu.symm]
  | _ =>
      simpa [MgrLoc.mgrHeld, MgrMem.withCrud, MgrMem.lockNode, MgrMem.unlockNode] using hl

/-- The call made from a location, with what it does to the lists.  Nothing happens to the list of
the state while another thread holds the manager's mutex. -/
theorem MgrMove.callEffect (hmove : MgrMove t x m l m' notes st)
    (hl : m.mgrOwner = some t ↔ l.mgrHeld = true) (hd : l.Decided)
    (h : Listed m.crud (fun _ => True) L) :
    ∃ L', Listed m'.crud (fun _ => True) L' ∧ CallEffect t m l L m'.crud L' := by
  have henter : ∀ {n s c}, l.enters = some (n, s) → crudNodeEnterState m.crud n s = some c →
      (∀ u, u ≠ t → m.mgrOwner = some u → enterEditsList m.crud n s = false) →
      ∃ L', Listed c (fun _ => True) L' ∧ CallEffect t m l L c L' := by
    intro n s c hent hcall hlock
    have hs := MgrLoc.ne_noOp_of_enters hd hent
    obtain ⟨L', heff⟩ := h.enter trivial hs hcall
    refine ⟨L', heff.listed, .enter hent hs hcall heff fun u hu hown => ?_⟩
    -- an entry that edits no list is a redundant one
    have hno := hlock u hu hown
    have hset : (m.crud.node n).isStatusSet s = true := by
      obtain ⟨hset, -⟩ | hverify := enterState_cases hcall
      · exact hset
      · have := (verify_absent_iff.mp hverify).1
        simp [enterEditsList, this, hverify] at hno
    exact (heff.again hset).2
  have hexit : ∀ {n s c}, l.exits = some (n, s) → crudNodeExitState m.crud n s = some c →
      (∀ u, u ≠ t → m.mgrOwner = some u → exitEditsList m.crud n s = false) →
      ∃ L', Listed c (fun _ => True) L' ∧ CallEffect t m l L c L' := by
    intro n s c hex hcall hlock
    have hs := MgrLoc.ne_noOp_of_exits hex
    obtain ⟨L', heff⟩ := h.exit trivial hs hcall
    refine ⟨L', heff.listed, .exit hex hs hcall heff fun u hu hown => ?_⟩
    have hno := hlock u hu hown
    obtain ⟨hverify, -⟩ := exitState_cases hcall
    apply heff.stays
    simpa [exitEditsList, hverify] using hno
  have hfree : ∀ {p : Bool}, (p = true → m.mgrOwner = none) →
      ∀ u, u ≠ t → m.mgrOwner = some u → p = false := by
    intro p hp u _ hown
    cases p with
    | false => rfl
    | true =>
        rw [hp rfl] at hown
        cases hown
  have hmine : l.mgrHeld = true → ∀ {p : Bool} u, u ≠ t → m.mgrOwner = some u → p = false := by
    intro hheld p u hu hown
    rw [hl.mpr hheld] at hown
    exact absurd (Option.some.inj hown).symm hu
  have hnone : l.enters = none → l.exits = none → m'.crud = m.crud →
      ∃ L', Listed m'.crud (fun _ => True) L' ∧ CallEffect t m l L m'.crud L' := by
    intro he hx hc
    exact ⟨L, hc ▸ h, .none he hx hc rfl⟩
  cases hmove with
  | rejected | request | create | stray | test | quit | sleep | lockMgr | mgrTest | mgrSleep
  | readOp | tail | signal => exact hnone rfl rfl rfl
  | block hlock he | grant hlock he | leave hlock he => exact henter rfl he (hfree hlock)
  | wake hfree' hlock hx => exact hexit rfl hx (hfree hlock)
  | mgrBlock he | mgrGrant he => exact henter rfl he (hmine rfl)
  | mgrWake hfree' hx => exact hexit rfl hx (hfree fun _ => hfree')
  | mgrUnpend hx => exact hexit rfl hx (hmine rfl)
  | release hfree' hs hlock hx => exact hexit (by simp [MgrLoc.exits, hs]) hx (hfree hlock)

/-- Where the tests of a loop come from. -/
theorem MgrMove.eq_head_of_decided (hmove : MgrMove t x m l m' notes st) {r : NodeReq}
    {d : LoopStep ν} (h : st.loc = .decided r n d) : l = .head r n ∧ d = r.loop m.crud n := by
  cases hmove with
  | test =>
      cases h
      exact ⟨rfl, rfl⟩
  | @mgrTest op n' =>
      exfalso
      cases op <;> simp only [Status.loc_running, CrudMgr.mgrTest] at h <;> split at h <;> cases h
  | @tail currOp => cases currOp <;> cases h
  | _ => cases h

/-- Everything decided comes out of a loop. -/
theorem MgrMove.decided (hmove : MgrMove t x m l m' notes st) : st.loc.Decided := by
  intro r n d heq
  exact ⟨m.crud, (hmove.eq_head_of_decided heq).2⟩

end Moves

/-- The nodes in a list of the manager, as an iteration visits them. -/
def ListNodes (m : CrudMem ν) (index : CrudNodeState) (ns : List ν) : Prop :=
  ∃ fuel, GlueThread.iterateGlthread m.glue fuel
    (GlueThread.base m.glue (.crudNodesList index)) = some (ns.map (.crudNodeGlue · index))

/-- At most one node is being created or deleted. -/
def OneStructuralChange (m : CrudMem ν) : Prop :=
  ∃ creating deleting, ListNodes m .createInProgress creating ∧
    ListNodes m .deleteInProgress deleting ∧ creating.length + deleting.length ≤ 1

omit [DecidableEq ν] in
theorem listNodes_of_listed {m : CrudMem ν} {L : CrudNodeState → List ν}
    (h : Listed m (fun _ => True) L) (index : CrudNodeState) : ListNodes m index (L index) :=
  ⟨_, GlueThread.Forest.iterate h le_rfl⟩

/-- The lists of structural changes have at most one member between them, and none once the test for
another change succeeded. -/
structure ListsOk (s : MgrConfig τ ν) (L : CrudNodeState → List ν) : Prop where
  listed : Listed s.mem.crud (fun _ => True) L
  one : (L .createInProgress).length + (L .deleteInProgress).length ≤ 1
  admitted : ∀ t, (s.thr t).loc.isAdmitted = true →
    L .createInProgress = [] ∧ L .deleteInProgress = []

/-- The invariant of the mutexes and lists. -/
structure ListInv (s : MgrConfig τ ν) : Prop where
  owned : Owned s
  decided : ∀ t, (s.thr t).loc.Decided
  lists : ∃ L, ListsOk s L

section Run

variable {spurious : Bool} {s s' : MgrConfig τ ν} {t : τ} {x : MgrCall ν}
  {notes : List (Note (ν × CrudCv))} {st : Status (ν × CrudCv) (MgrLoc ν)}

/-- What a call does to the lists of structural changes. -/
theorem CallEffect.lists {m : MgrMem τ ν} {l : MgrLoc ν} {L L' : CrudNodeState → List ν}
    {c : CrudMem ν} (h : CallEffect t m l L c L') (hd : l.Decided) {s : CrudNodeState}
    (hs : s = .createInProgress ∨ s = .deleteInProgress) :
    (L' s).length ≤ (L s).length ∨ l.isAdmitted = true ∧ ∃ n, l.enters = some (n, s) ∧
      L' s = n :: L s := by
  have hno : s ≠ .noOp := by rcases hs with rfl | rfl <;> simp
  cases h with
  | none he hx hc hL =>
      rw [hL]
      exact .inl le_rfl
  | @enter n s' hl hs' hcall heff hlock =>
      by_cases heq : s = s'
      · subst heq
        cases hset : (m.crud.node n).isStatusSet s with
        | true => exact .inl (by rw [(heff.again hset).2])
        | false =>
            exact .inr ⟨MgrLoc.isAdmitted_of_enters hd hl hs, n, hl, (heff.first hset).2.1⟩
      · exact .inl (by rw [heff.list_ne s heq hno])
  | @exit n s' hl hs' hcall heff hlock =>
      by_cases heq : s = s'
      · subst heq
        rcases heff.list_or with hsame | herase
        · exact .inl (by rw [hsame])
        · exact .inl (by rw [herase]; exact List.length_erase_le)
      · exact .inl (by rw [heff.list_ne s heq hno])

/-- No list of the manager changes while another thread owns its mutex. -/
theorem CallEffect.unchanged {m : MgrMem τ ν} {l : MgrLoc ν} {L L' : CrudNodeState → List ν}
    {c : CrudMem ν} (h : CallEffect t m l L c L') {u : τ} (hu : u ≠ t)
    (hown : m.mgrOwner = some u) {s : CrudNodeState} (hs : s ≠ .noOp) : L' s = L s := by
  cases h with
  | none he hx hc hL => rw [hL]
  | @enter n s' hl hs' hcall heff hlock =>
      by_cases heq : s = s'
      · rw [heq]
        exact hlock u hu hown
      · exact heff.list_ne s heq hs
  | @exit n s' hl hs' hcall heff hlock =>
      by_cases heq : s = s'
      · rw [heq]
        exact hlock u hu hown
      · exact heff.list_ne s heq hs

/-- A thread is admitted by the manager-level test, or was before. -/
theorem MgrMove.admitted {m m' : MgrMem τ ν} {l : MgrLoc ν} (hmove : MgrMove t x m l m' notes st)
    (h : st.loc.isAdmitted = true) :
    (m.crud.nothingInProgress = true ∧ ∃ op n, l = .mgrHead op n) ∨ ∃ n, l = .mgrUnpend n := by
  cases hmove with
  | @mgrTest op n =>
      cases htest : m.crud.nothingInProgress with
      | true => exact .inl ⟨rfl, op, n, rfl⟩
      | false =>
          simp [CrudMgr.mgrTest, htest, MgrLoc.isAdmitted] at h
  | @mgrUnpend n hx => exact .inr ⟨n, rfl⟩
  | @tail currOp => cases currOp <;> cases h
  | _ => cases h

theorem listInv_of_start (h : MgrStart s) : ListInv s := by
  obtain ⟨hinit, hnode, hmgr, hidle⟩ := h
  obtain ⟨L, hok, -⟩ := hinit.memOk
  have hempty : ∀ s, s ≠ .noOp → L s = [] := by
    intro s hs
    apply List.eq_nil_iff_forall_not_mem.mpr
    intro n hn
    have hpos := ((hok.member n s).mp hn).2
    rw [full_of_ne hs] at hpos
    exact absurd hpos (Nat.lt_irrefl 0)
  refine ⟨⟨fun n t => ?_, fun t => ?_⟩, fun t r n d heq => ?_, L, hok.listed, ?_, fun t hadm => ?_⟩
  · rw [hnode, hidle]
    simp [MgrLoc.nodeHeld]
  · rw [hmgr, hidle]
    simp [MgrLoc.mgrHeld]
  · rw [hidle] at heq
    cases heq
  · rw [hempty _ (by simp), hempty _ (by simp)]
    simp
  · rw [hidle] at hadm
    cases hadm

variable [DecidableEq τ]

theorem mgrMove_of_ran (hran : (mgrProgram τ ν spurious).Ran s t x s' notes st) :
    MgrMove t x s.mem (s.thr t).loc s'.mem notes st :=
  mgrMove_of_exec hran.exec

theorem Owned.step (h : Owned s) (hran : (mgrProgram τ ν spurious).Ran s t x s' notes st) :
    Owned s' := by
  have hmove := mgrMove_of_ran hran
  constructor
  · intro n u
    obtain ⟨hself, hothers⟩ := hmove.nodeOwner (fun n => h.node n t) n
    by_cases hu : u = t
    · rw [hu, hran.self]
      exact hself
    · rw [hran.loc_of_ne hu, hothers u hu]
      exact h.node n u
  · intro u
    obtain ⟨hself, hothers⟩ := hmove.mgrOwner (h.mgr t)
    by_cases hu : u = t
    · rw [hu, hran.self]
      exact hself
    · rw [hran.loc_of_ne hu, hothers u hu]
      exact h.mgr u

theorem ListInv.step (h : ListInv s) (hran : (mgrProgram τ ν spurious).Ran s t x s' notes st) :
    ListInv s' := by
  have hmove := mgrMove_of_ran hran
  obtain ⟨L, hok⟩ := h.lists
  obtain ⟨L', hlisted, heff⟩ := hmove.callEffect (h.owned.mgr t) (h.decided t) hok.listed
  refine ⟨h.owned.step hran, ?_, L', hlisted, ?_, ?_⟩
  · intro u
    by_cases hu : u = t
    · rw [hu, hran.self]
      exact hmove.decided
    · rw [hran.loc_of_ne hu]
      exact h.decided u
  · have hone := hok.one
    rcases heff.lists (h.decided t) (.inl rfl) with hcip | ⟨hadm, n, hent, hcip⟩
    · rcases heff.lists (h.decided t) (.inr rfl) with hdip | ⟨hadm, n, hent, hdip⟩
      · omega
      · obtain ⟨hempty, hempty'⟩ := hok.admitted t hadm
        rw [hempty, List.length_nil] at hcip
        rw [hdip, hempty', List.length_singleton]
        omega
    · rcases heff.lists (h.decided t) (.inr rfl) with hdip | ⟨-, n', hent', -⟩
      · obtain ⟨hempty, hempty'⟩ := hok.admitted t hadm
        rw [hempty', List.length_nil] at hdip
        rw [hcip, hempty, List.length_singleton]
        omega
      · rw [hent] at hent'
        cases hent'
  · intro u hadm
    by_cases hu : u = t
    · -- the thread that moved
      rw [hu, hran.self] at hadm
      have hempty : (s.thr t).loc.enters = none ∧ L .createInProgress = [] ∧
          L .deleteInProgress = [] := by
        rcases hmove.admitted hadm with ⟨hno, op, n, hl⟩ | ⟨n, hl⟩
        · rw [hl]
          exact ⟨rfl, hok.listed.nothingInProgress.mp hno⟩
        · refine ⟨by rw [hl]; rfl, hok.admitted t ?_⟩
          rw [hl]
          rfl
      obtain ⟨hent, hcip, hdip⟩ := hempty
      have hkeep : ∀ s, s = .createInProgress ∨ s = .deleteInProgress → L s = [] → L' s = [] := by
        intro s hs hnil
        rcases heff.lists (h.decided t) hs with hle | ⟨-, n, hsome, -⟩
        · rw [hnil] at hle
          exact List.length_eq_zero_iff.mp (Nat.le_zero.mp hle)
        · rw [hent] at hsome
          cases hsome
      exact ⟨hkeep _ (.inl rfl) hcip, hkeep _ (.inr rfl) hdip⟩
    · -- it owns the manager's mutex
      rw [hran.loc_of_ne hu] at hadm
      have hown := (h.owned.mgr u).mpr (MgrLoc.mgrHeld_of_isAdmitted hadm)
      rw [heff.unchanged hu hown (by simp), heff.unchanged hu hown (by simp)]
      exact hok.admitted u hadm

omit [DecidableEq ν] in
theorem ListInv.woken (h : ListInv s) {c : ν × CrudCv} {l : MgrLoc ν}
    (hw : s.thr t = .waiting c l) : ListInv ⟨s.mem, Function.update s.thr t (.notified c l)⟩ := by
  have hloc : ∀ u, (Function.update s.thr t (.notified c l) u).loc = (s.thr u).loc :=
    loc_update_notified hw
  obtain ⟨L, hok⟩ := h.lists
  refine ⟨⟨fun n u => ?_, fun u => ?_⟩, fun u => ?_, L, hok.listed, hok.one, fun u hadm => ?_⟩
  · show _ ↔ (Function.update s.thr t _ u).loc.nodeHeld = some n
    rw [hloc]
    exact h.owned.node n u
  · show _ ↔ (Function.update s.thr t _ u).loc.mgrHeld = true
    rw [hloc]
    exact h.owned.mgr u
  · show (Function.update s.thr t _ u).loc.Decided
    rw [hloc]
    exact h.decided u
  · apply hok.admitted u
    rw [← hloc]
    exact hadm

theorem listInv_reachable [Fintype τ] (h : (mgrMachine τ ν spurious).Reachable s) : ListInv s := by
  apply Program.invariant _ _ _ h
  · exact fun s hs => listInv_of_start hs
  · intro s t x picks s' notes st hinv _ hran
    exact hinv.step hran
  · intro s t c l hinv _ hw
    exact hinv.woken hw

/-- **One structural change at a time**, whatever the threads call on whatever nodes. -/
theorem one_structural_change [Fintype τ] (h : (mgrMachine τ ν spurious).Reachable s) :
    OneStructuralChange s.mem.crud := by
  obtain ⟨L, hok⟩ := (listInv_reachable h).lists
  exact ⟨_, _, listNodes_of_listed hok.listed _, listNodes_of_listed hok.listed _, hok.one⟩

end Run

/-- All mutexes are free, all threads outside, and all of `k` nodes initialised. -/
def freshMgrConfig (τ : Type*) (k : Nat) : MgrConfig τ (Fin k) :=
  ⟨⟨freshMgr k, fun _ => none, none⟩, fun _ => .running .idle⟩

theorem freshMgrConfig_start (τ : Type*) (k : Nat) : MgrStart (freshMgrConfig τ k) :=
  ⟨freshMgr_initialised k, fun _ => rfl, rfl, fun _ => rfl⟩

/-- While one node is being created, the creator of another waits. -/
theorem one_structural_change_trace :
    ∃ s : MgrConfig (Fin 2) (Fin 2), OneStructuralChange s.mem.crud ∧
      s.mem.crud.isListEmpty .createInProgress = false ∧
      s.mem.crud.isListEmpty .pendingCreate = false ∧ (s.thr 1).isWaiting = true := by
  have hrun : ((mgrMachine (Fin 2) (Fin 2) false).exec (freshMgrConfig (Fin 2) 2)
      (List.flatten [List.replicate 3 (.run 0 (.create 0) []),
        List.replicate 4 (.run 1 (.create 1) [])])).holds (fun s =>
        decide (s.mem.crud.isListEmpty .createInProgress = false ∧
          s.mem.crud.isListEmpty .pendingCreate = false ∧ (s.thr 1).isWaiting = true)) = true := by
    decide +kernel
  obtain ⟨s, hs, hp⟩ := Machine.exists_reachable_of_exec (freshMgrConfig_start _ 2) hrun
  exact ⟨s, one_structural_change hs, of_decide_eq_true hp⟩

end CrudMgr
end MultithreadingBible
