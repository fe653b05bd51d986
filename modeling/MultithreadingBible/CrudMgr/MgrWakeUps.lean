import MultithreadingBible.CrudMgr.MgrLists

/-!
# CRUD manager: wake-ups of creators and deleters

The release of a create or a delete signals one condition variable: that of the first node in the
`pending_create` list, or else that of the first node in the `pending_delete` list.  A node is in the
latter also while its deleter still waits for the node's own readers and writers, on the same condition
variable or on `rdrs_cv`, and then the signal does not reach those who wait for the manager.

* `NoLostWakeUp` — what a release of a create or a delete owes the threads blocked under the manager's
  mutex.
* `reachesMgr` — the signal goes to a thread that is blocked under the manager's mutex.
* `mgr_wake_up` — in runs of such releases no wake-up is lost.
* `mgr_wake_up_fails` — four threads on three nodes without it.
-/

namespace MultithreadingBible
namespace CrudMgr

open Lib

variable {τ ν : Type*}

namespace MgrLoc

/-- In the wait under the manager's mutex. -/
def isMgrWait : MgrLoc ν → Bool
  | .mgrWait _ _ => true
  | _ => false

theorem isMgrWait_iff {l : MgrLoc ν} : l.isMgrWait = true ↔ ∃ op n, l = .mgrWait op n := by
  cases l <;> simp [isMgrWait]

/-- Between the two critical sections of the release of a create or a delete. -/
def isReleasing : MgrLoc ν → Bool
  | .releaseTail currOp _ => currOp.isStructural
  | .releaseMgr => true
  | _ => false

theorem not_isReleasing_of_isRefused {l : MgrLoc ν} (h : l.isRefused = true) :
    l.isReleasing = false := by
  cases l <;> first | rfl | cases h

/-- Only a creator enters `pending_create`. -/
theorem eq_mgrBlock_of_enters {l : MgrLoc ν} {n : ν} (hl : l.Decided)
    (h : l.enters = some (n, .pendingCreate)) : l = .mgrBlock .create n := by
  cases l with
  | decided r n' d =>
      obtain ⟨m, hd⟩ := hl r n' d rfl
      exfalso
      cases d with
      | block s' cv =>
          simp only [enters, Option.some.injEq, Prod.mk.injEq] at h
          have hs := (NodeReq.loop_block hd.symm).1
          rw [h.2] at hs
          cases r <;> cases hs
      | grant s' =>
          simp only [enters, Option.some.injEq, Prod.mk.injEq] at h
          have hs := (NodeReq.loop_grant hd.symm).1
          rw [h.2] at hs
          cases r <;> cases hs
      | leave => cases h
      | quit | fail => cases h
  | mgrBlock op n' =>
      cases op with
      | create => cases h; rfl
      | delete => cases h
  | mgrGrant op n' => cases op <;> cases h
  | _ => cases h

/-- Only a creator leaves it. -/
theorem eq_mgrWait_of_exits {l : MgrLoc ν} {n : ν} (h : l.exits = some (n, .pendingCreate)) :
    l = .mgrWait .create n := by
  cases l with
  | wait r n' => cases r <;> cases h
  | mgrWait op n' =>
      cases op with
      | create => cases h; rfl
      | delete => cases h
  | mgrUnpend n' => cases h
  | releasing g currOp n' => cases currOp <;> cases h
  | _ => cases h

end MgrLoc

/-- Blocked under the manager's mutex and not notified. -/
def blockedAtMgr (s : MgrConfig τ ν) (t : τ) : Bool :=
  (s.thr t).isWaiting && (s.thr t).loc.isMgrWait

/-- Blocked under the manager's mutex and notified. -/
def notifiedAtMgr (s : MgrConfig τ ν) (t : τ) : Bool :=
  (s.thr t).isNotified && (s.thr t).loc.isMgrWait

/-- When nothing is in progress, the releases have returned and nobody is about to decide, then one of
the threads blocked under the manager's mutex has been notified. -/
def NoLostWakeUp (s : MgrConfig τ ν) : Prop :=
  s.mem.crud.nothingInProgress = true → (∀ t, (s.thr t).loc.isReleasing = false) →
    s.mem.mgrOwner = none → (∃ t, blockedAtMgr s t = true) → ∃ t, notifiedAtMgr s t = true

instance [Fintype τ] [DecidableEq τ] (s : MgrConfig τ ν) : Decidable (NoLostWakeUp s) :=
  inferInstanceAs (Decidable (s.mem.crud.nothingInProgress = true →
    (∀ t, (s.thr t).loc.isReleasing = false) → s.mem.mgrOwner = none →
      (∃ t, blockedAtMgr s t = true) → ∃ t, notifiedAtMgr s t = true))

/-- The signal of a release that finds no pending creator reaches a thread that is blocked under the
manager's mutex, if there is one and none was notified. -/
def reachesMgr [DecidableEq ν] [Fintype τ] (s : MgrConfig τ ν) : Act τ (MgrCall ν) → Bool
  | .run t _ _ =>
      match (s.thr t).loc with
      | .releaseMgr =>
          !s.mem.crud.isListEmpty .pendingCreate || !decide (∃ u, blockedAtMgr s u = true) ||
            decide (∃ u, notifiedAtMgr s u = true) ||
            match s.mem.crud.baseNode .pendingDelete with
            | none => false
            | some n =>
                decide (∃ u, (s.thr u).waitsOn (n, .deleteThreadCv) = true) &&
                  decide (∀ u, (s.thr u).waitsOn (n, .deleteThreadCv) = true →
                    (s.thr u).loc.isMgrWait = true)
      | _ => true
  | .spurious _ => true

/-- Where a thread sleeps, and on what. -/
def ShapeOk : Status (ν × CrudCv) (MgrLoc ν) → Prop
  | .running l => l.isMgrWait = false ∧ ∀ r n cv, l = .sleep r n cv → cv ≠ .createThreadCv
  | .waiting c l | .notified c l =>
      (∃ r n, l = .wait r n ∧ c.2 ≠ .createThreadCv) ∨ ∃ op n, l = .mgrWait op n ∧ c = (n, op.cv)

/-- Why nobody needs to be notified now. -/
inductive Served (s : MgrConfig τ ν) : Prop
  | inProgress (h : s.mem.crud.nothingInProgress = false)
  | notified (t : τ) (h : notifiedAtMgr s t = true)
  | deciding (t : τ) (h : (s.thr t).loc.mgrHeld = true)
  | releasing (t : τ) (h : (s.thr t).loc.isReleasing = true)

/-- The invariant of the wake-ups. -/
structure WakeInv (s : MgrConfig τ ν) : Prop where
  inv : ListInv s
  shape : ∀ t, ShapeOk (s.thr t)
  /-- A thread that is about to wait still has its reason. -/
  refused : ∀ t, (s.thr t).loc.isRefused = true → s.mem.crud.nothingInProgress = false
  /-- A pending creator is in its wait, or about to be. -/
  creator : ∀ L, Listed s.mem.crud (fun _ => True) L → ∀ n ∈ L .pendingCreate,
    (s.mem.crud.node n).counter .pendingCreate = 1 ∧
      ∃ t, (s.thr t).loc = .mgrSleep .create n ∨ (s.thr t).loc = .mgrWait .create n
  served : (∃ t, blockedAtMgr s t = true) → Served s

section Basic

variable {s : MgrConfig τ ν} {t : τ} {m : CrudMem ν} {L L' : CrudNodeState → List ν}

theorem Listed.unique (h : Listed m (fun _ => True) L) (h' : Listed m (fun _ => True) L')
    (s : CrudNodeState) : L s = L' s := by
  have hiter := GlueThread.Forest.iterate h (i := s) (Nat.le_max_left _ ((L' s).map
    fun n => CrudAddr.crudNodeGlue n s).length)
  have hiter' := GlueThread.Forest.iterate h' (i := s) (Nat.le_max_right ((L s).map
    fun n => CrudAddr.crudNodeGlue n s).length _)
  rw [hiter] at hiter'
  have hinj : Function.Injective fun n : ν => CrudAddr.crudNodeGlue n s := by
    intro n n' heq
    cases heq
    rfl
  exact List.map_injective_iff.mpr hinj (Option.some.inj hiter')

theorem Listed.somethingInProgress (h : Listed m (fun _ => True) L) :
    m.nothingInProgress = false ↔ ∃ s, (s = .createInProgress ∨ s = .deleteInProgress) ∧
      L s ≠ [] := by
  rw [Bool.eq_false_iff, ne_eq, h.nothingInProgress]
  constructor
  · intro hno
    by_cases hcip : L .createInProgress = []
    · exact ⟨_, .inr rfl, fun hdip => hno ⟨hcip, hdip⟩⟩
    · exact ⟨_, .inl rfl, hcip⟩
  · rintro ⟨s, rfl | rfl, hne⟩ ⟨hcip, hdip⟩
    · exact hne hcip
    · exact hne hdip

theorem blockedAtMgr_iff : blockedAtMgr s t = true ↔
    ∃ c op n, s.thr t = .waiting c (.mgrWait op n) := by
  unfold blockedAtMgr
  cases s.thr t with
  | running l => simp
  | waiting c l => simp [MgrLoc.isMgrWait_iff]
  | notified c l => simp

theorem notifiedAtMgr_iff : notifiedAtMgr s t = true ↔
    ∃ c op n, s.thr t = .notified c (.mgrWait op n) := by
  unfold notifiedAtMgr
  cases s.thr t with
  | running l => simp [Status.isNotified]
  | waiting c l => simp [Status.isNotified]
  | notified c l => simp [Status.isNotified, MgrLoc.isMgrWait_iff]

end Basic

variable [DecidableEq ν]

section Moves

variable {t : τ} {x : MgrCall ν} {m m' : MgrMem τ ν} {l : MgrLoc ν} {n : ν} {s : CrudNodeState}
  {notes : List (Note (ν × CrudCv))} {st : Status (ν × CrudCv) (MgrLoc ν)}
  {L L' : CrudNodeState → List ν} {c : CrudMem ν}

theorem NodeReq.cv_ne_create {nd : CrudNode} (r : NodeReq) : r.cv nd ≠ .createThreadCv := by
  cases r with
  | read | write => simp [NodeReq.cv]
  | delete =>
      simp only [NodeReq.cv]
      split <;> simp

theorem MgrMove.shape (hmove : MgrMove t x m l m' notes st) (hd : l.Decided)
    (hl : ∀ r n cv, l = .sleep r n cv → cv ≠ .createThreadCv) : ShapeOk st := by
  cases hmove with
  | @block r n s cv c =>
      obtain ⟨m₁, hloop⟩ := hd r n _ rfl
      refine ⟨rfl, ?_⟩
      rintro r' n' cv' heq
      cases heq
      rw [(NodeReq.loop_block hloop.symm).2.1]
      exact r.cv_ne_create
  | sleep => exact .inl ⟨_, _, rfl, hl _ _ _ rfl⟩
  | mgrSleep => exact .inr ⟨_, _, rfl, rfl⟩
  | @mgrTest op n =>
      cases op <;> simp only [ShapeOk, CrudMgr.mgrTest] <;> split <;> exact ⟨rfl, by simp⟩
  | @tail currOp =>
      refine ⟨by cases currOp <;> rfl, ?_⟩
      rintro r' n' cv' heq
      cases currOp <;> cases heq
  | _ => exact ⟨rfl, by simp⟩

/-- Only a release leaves the states of a structural change. -/
theorem MgrMove.isReleasing_of_exits (hmove : MgrMove t x m l m' notes st)
    (hl : l.exits = some (n, s)) (hs : s = .createInProgress ∨ s = .deleteInProgress) :
    st.loc.isReleasing = true := by
  cases hmove with
  | @wake r n' =>
      cases hl
      cases r <;> simp [NodeReq.pendingState] at hs
  | @mgrWake op n' =>
      cases hl
      cases op <;> simp [StructOp.pendingState] at hs
  | mgrUnpend =>
      cases hl
      simp at hs
  | @release g currOp n' s' c hfree hrel =>
      simp only [MgrLoc.exits, hrel, Option.map_some, Option.some.injEq, Prod.mk.injEq] at hl
      obtain ⟨-, rfl⟩ := hl
      cases currOp with
      | create | delete => rfl
      | read | write | opNone =>
          rcases hs with rfl | rfl <;> simp [releasedState] at hrel
  | _ => cases hl

theorem MgrMove.isReleasing_next (hmove : MgrMove t x m l m' notes st)
    (hl : l.isReleasing = true) : st.loc.isReleasing = true ∨ l = .releaseMgr := by
  cases hmove with
  | @tail currOp =>
      cases currOp with
      | create | delete => exact .inl rfl
      | read | write | opNone => cases hl
  | signal => exact .inr rfl
  | _ => cases hl

/-- A thread gives up the manager's mutex to wait, or because its operation is granted. -/
theorem MgrMove.mgrHeld_next (hmove : MgrMove t x m l m' notes st) (hl : l.mgrHeld = true) :
    st.loc.mgrHeld = true ∨ (l.isRefused = true ∧ m'.crud = m.crud) ∨
      ∃ op n, l = .mgrGrant op n := by
  cases hmove with
  | mgrTest =>
      left
      rw [Status.loc_running, MgrLoc.mgrHeld_mgrTest]
  | mgrBlock | mgrUnpend => exact .inl rfl
  | mgrSleep => exact .inr (.inl ⟨rfl, rfl⟩)
  | mgrGrant => exact .inr (.inr ⟨_, _, rfl⟩)
  | _ => cases hl

theorem MgrMove.isRefused_next (hmove : MgrMove t x m l m' notes st)
    (h : st.loc.isRefused = true) :
    (m'.crud = m.crud ∧ m.crud.nothingInProgress = false) ∨ ∃ op n, l = .mgrBlock op n := by
  cases hmove with
  | @mgrTest op n =>
      refine .inl ⟨rfl, ?_⟩
      cases htest : m.crud.nothingInProgress with
      | false => rfl
      | true => cases op <;> simp [CrudMgr.mgrTest, htest, MgrLoc.isRefused] at h
  | mgrBlock => exact .inr ⟨_, _, rfl⟩
  | @tail currOp => cases currOp <;> cases h
  | _ => cases h

/-- A thread that wakes up has the mutex. -/
theorem MgrMove.mgrHeld_of_isMgrWait (hmove : MgrMove t x m l m' notes st)
    (hl : l.isMgrWait = true) : st.loc.mgrHeld = true := by
  cases hmove with
  | mgrWake => rfl
  | _ => cases hl

/-- A granted structural request is in progress. -/
theorem CallEffect.inProgress_of_mgrGrant {op : StructOp} (h : CallEffect t m l L c L')
    (hl : l = .mgrGrant op n) : L' op.grantState ≠ [] := by
  subst hl
  cases h with
  | none he => cases he
  | exit hl => cases hl
  | @enter n' s' hl hs hcall heff =>
      cases hl
      cases hset : (m.crud.node n).isStatusSet op.grantState with
      | true =>
          have hex := (heff.again hset).1
          cases op <;> cases hex
      | false =>
          rw [(heff.first hset).2.1]
          exact List.cons_ne_nil _ _

/-- What is in progress stays so, unless the step is part of a release. -/
theorem MgrMove.inProgress_next (hmove : MgrMove t x m l m' notes st)
    (h : CallEffect t m l L m'.crud L') (hs : s = .createInProgress ∨ s = .deleteInProgress)
    (hne : L s ≠ []) : L' s ≠ [] ∨ st.loc.isReleasing = true := by
  have hno : s ≠ .noOp := by rcases hs with rfl | rfl <;> simp
  cases h with
  | none he hx hc hL =>
      rw [hL]
      exact .inl hne
  | @enter n' s' hl hs' hcall heff =>
      by_cases heq : s = s'
      · subst heq
        cases hset : (m.crud.node n').isStatusSet s with
        | true =>
            rw [(heff.again hset).2]
            exact .inl hne
        | false =>
            rw [(heff.first hset).2.1]
            exact .inl (List.cons_ne_nil _ _)
      · rw [heff.list_ne s heq hno]
        exact .inl hne
  | @exit n' s' hl hs' hcall heff =>
      by_cases heq : s = s'
      · subst heq
        exact .inr (hmove.isReleasing_of_exits hl hs)
      · rw [heff.list_ne s heq hno]
        exact .inl hne

end Moves

section Run

variable {spurious : Bool} {s s' : MgrConfig τ ν} {t : τ} {x : MgrCall ν}
  {notes : List (Note (ν × CrudCv))} {st : Status (ν × CrudCv) (MgrLoc ν)}

/-- While a thread has the manager's mutex, the others leave the progress of structural changes
alone. -/
theorem CallEffect.nothingInProgress_eq {L L' : CrudNodeState → List ν} {u : τ} {l : MgrLoc ν}
    {m : MgrMem τ ν} {c : CrudMem ν} (h : CallEffect t m l L c L')
    (hL : Listed m.crud (fun _ => True) L) (hL' : Listed c (fun _ => True) L') (hu : u ≠ t)
    (hown : m.mgrOwner = some u) : c.nothingInProgress = m.crud.nothingInProgress := by
  rw [Bool.eq_iff_iff, hL.nothingInProgress, hL'.nothingInProgress,
    h.unchanged hu hown (by simp), h.unchanged hu hown (by simp)]

theorem wakeInv_of_start (h : MgrStart s) : WakeInv s := by
  have hidle := h.2.2.2
  constructor
  · exact listInv_of_start h
  · intro t
    rw [hidle]
    exact ⟨rfl, by simp⟩
  · intro t ht
    rw [hidle] at ht
    cases ht
  · intro L hL n hn
    obtain ⟨L₀, hok, -⟩ := h.1.memOk
    rw [hL.unique hok.listed] at hn
    have hpos := ((hok.member n .pendingCreate).mp hn).2
    exact absurd hpos (by simp [full])
  · rintro ⟨t, ht⟩
    unfold blockedAtMgr at ht
    rw [hidle] at ht
    cases ht

variable [DecidableEq τ]

theorem WakeInv.shape_step (h : WakeInv s)
    (hran : (mgrProgram τ ν spurious).Ran s t x s' notes st) (u : τ) : ShapeOk (s'.thr u) := by
  have hself : ShapeOk st := by
    apply (mgrMove_of_ran hran).shape (h.inv.decided t)
    intro r n cv hl
    have hshape := h.shape t
    cases hst : s.thr t with
    | running l =>
        rw [hst] at hshape hl
        exact hshape.2 r n cv hl
    | waiting c l | notified c l =>
        rw [hst] at hshape hl
        rcases hshape with ⟨r', n', rfl, -⟩ | ⟨op, n', rfl, -⟩
        · cases hl
        · cases hl
  exact hran.forall_status (p := fun _ => ShapeOk) h.shape hself (fun _ _ _ hshape => hshape) u

theorem WakeInv.refused_step (h : WakeInv s)
    (hran : (mgrProgram τ ν spurious).Ran s t x s' notes st) (u : τ)
    (hu : (s'.thr u).loc.isRefused = true) : s'.mem.crud.nothingInProgress = false := by
  have hmove := mgrMove_of_ran hran
  obtain ⟨L, hok⟩ := h.inv.lists
  obtain ⟨L', hlisted, heff⟩ := hmove.callEffect (h.inv.owned.mgr t) (h.inv.decided t) hok.listed
  by_cases hut : u = t
  · subst hut
    rw [hran.self] at hu
    rcases hmove.isRefused_next hu with ⟨hsame, hno⟩ | ⟨op, n, hl⟩
    · rw [hsame]
      exact hno
    · -- the call in between enters a pending state
      have hno := h.refused u (by rw [hl]; rfl)
      obtain ⟨s, hs, hne⟩ := hok.listed.somethingInProgress.mp hno
      rw [hlisted.somethingInProgress]
      refine ⟨s, hs, ?_⟩
      rcases hmove.inProgress_next heff hs hne with hstill | hrel
      · exact hstill
      · rw [MgrLoc.not_isReleasing_of_isRefused hu] at hrel
        cases hrel
  · rw [hran.loc_of_ne hut] at hu
    have hown := (h.inv.owned.mgr u).mpr (MgrLoc.mgrHeld_of_isRefused hu)
    rw [heff.nothingInProgress_eq hok.listed hlisted hut hown]
    exact h.refused u hu

theorem WakeInv.creator_step (h : WakeInv s)
    (hran : (mgrProgram τ ν spurious).Ran s t x s' notes st) (L' : CrudNodeState → List ν)
    (hlisted : Listed s'.mem.crud (fun _ => True) L') (n : ν) (hn : n ∈ L' .pendingCreate) :
    (s'.mem.crud.node n).counter .pendingCreate = 1 ∧
      ∃ u, (s'.thr u).loc = .mgrSleep .create n ∨ (s'.thr u).loc = .mgrWait .create n := by
  have hmove := mgrMove_of_ran hran
  obtain ⟨L, hok⟩ := h.inv.lists
  obtain ⟨L₁, hlisted₁, heff⟩ := hmove.callEffect (h.inv.owned.mgr t) (h.inv.decided t) hok.listed
  rw [hlisted.unique hlisted₁] at hn
  have hcreator := h.creator L hok.listed
  -- a creator that does not move stays where it is
  have hkeep : ∀ u, u ≠ t →
      (s.thr u).loc = .mgrSleep .create n ∨ (s.thr u).loc = .mgrWait .create n →
      ∃ u, (s'.thr u).loc = .mgrSleep .create n ∨ (s'.thr u).loc = .mgrWait .create n := by
    intro u hu hl
    rw [← hran.loc_of_ne hu] at hl
    exact ⟨u, hl⟩
  cases heff with
  | none he hx hc hL =>
      rw [hL] at hn
      obtain ⟨hcount, u, hl⟩ := hcreator n hn
      rw [hc]
      refine ⟨hcount, ?_⟩
      by_cases hu : u = t
      · subst hu
        rcases hl with hl | hl
        · -- it goes to sleep now
          have hst : st.loc = .mgrWait .create n := by
            rw [hl] at hmove
            generalize s'.mem = m' at hmove
            cases hmove
            rfl
          exact ⟨u, .inr (by rw [hran.self, hst])⟩
        · rw [hl] at hx
          cases hx
      · exact hkeep u hu hl
  | @enter n' s₁ hl hs₁ hcall heff =>
      by_cases hs : s₁ = .pendingCreate
      · subst hs
        have hblock := MgrLoc.eq_mgrBlock_of_enters (h.inv.decided t) hl
        have hset : (s.mem.crud.node n').isStatusSet .pendingCreate = false := by
          cases hset : (s.mem.crud.node n').isStatusSet .pendingCreate with
          | false => rfl
          | true => cases (heff.again hset).1
        obtain ⟨-, hcons, hone⟩ := heff.first hset
        by_cases hnn : n = n'
        · subst hnn
          refine ⟨hone, t, .inl ?_⟩
          rw [hran.self]
          rw [hblock] at hmove
          generalize s'.mem = m' at hmove
          cases hmove
          rfl
        · rw [hcons] at hn
          obtain ⟨hcount, u, hu⟩ := hcreator n (List.mem_of_ne_of_mem hnn hn)
          refine ⟨?_, hkeep u ?_ hu⟩
          · rw [heff.same.counter n _ (by simp) fun heq => absurd heq hnn]
            exact hcount
          · rintro rfl
            rw [hblock] at hu
            simp at hu
      · rw [heff.list_ne _ (Ne.symm hs) (by simp)] at hn
        obtain ⟨hcount, u, hu⟩ := hcreator n hn
        refine ⟨?_, hkeep u ?_ hu⟩
        · rw [heff.same.counter n _ (by simp) fun _ => Ne.symm hs]
          exact hcount
        · rintro rfl
          rcases hu with hu | hu <;> rw [hu] at hl <;> cases hl
  | @exit n' s₁ hl hs₁ hcall heff =>
      by_cases hs : s₁ = .pendingCreate
      · subst hs
        have hwait := MgrLoc.eq_mgrWait_of_exits hl
        rw [(heff.last (hcreator n' heff.mem).1).1] at hn
        obtain ⟨hnn, hn⟩ := (hok.listed.nodup .pendingCreate).mem_erase_iff.mp hn
        obtain ⟨hcount, u, hu⟩ := hcreator n hn
        refine ⟨?_, hkeep u ?_ hu⟩
        · rw [heff.same.counter n _ (by simp) fun heq => absurd heq hnn]
          exact hcount
        · rintro rfl
          rw [hwait] at hu
          simp only [reduceCtorEq, false_or, MgrLoc.mgrWait.injEq, true_and] at hu
          exact hnn hu.symm
      · rw [heff.list_ne _ (Ne.symm hs) (by simp)] at hn
        obtain ⟨hcount, u, hu⟩ := hcreator n hn
        refine ⟨?_, hkeep u ?_ hu⟩
        · rw [heff.same.counter n _ (by simp) fun _ => Ne.symm hs]
          exact hcount
        · rintro rfl
          rcases hu with hu | hu
          · rw [hu] at hl
            cases hl
          · rw [hu] at hl
            cases hl
            exact hs rfl

/-- Notified threads that do not move stay notified. -/
theorem notifiedAtMgr_of_ne (hran : (mgrProgram τ ν spurious).Ran s t x s' notes st) {u : τ}
    (hu : u ≠ t) (h : notifiedAtMgr s u = true) : notifiedAtMgr s' u = true := by
  obtain ⟨c, op, n, hst⟩ := notifiedAtMgr_iff.mp h
  exact notifiedAtMgr_iff.mpr ⟨c, op, n, hran.notified_of_ne hu hst⟩

/-- A signal for a condition variable on which threads wait for the manager notifies one of them. -/
theorem notifiedAtMgr_of_signal [Fintype τ]
    (hran : (mgrProgram τ ν spurious).Ran s t x s' notes st) (c : ν × CrudCv)
    (hmem : Note.signal c ∈ notes) (hw : ∃ u l, s.thr u = .waiting c l)
    (honly : ∀ u l, s.thr u = .waiting c l → l.isMgrWait = true) :
    ∃ u, notifiedAtMgr s' u = true := by
  obtain ⟨u, l, -, hu, hu'⟩ := hran.signal hmem hw
  have hmgr := honly u l hu
  refine ⟨u, ?_⟩
  unfold notifiedAtMgr
  rw [hu']
  exact hmgr

omit [DecidableEq ν] [DecidableEq τ] in
/-- Whom the second section of a release signals. -/
theorem releaseMgrSection_cases {m : CrudMem ν} {L : CrudNodeState → List ν}
    (h : Listed m (fun _ => True) L) (hsec : releaseMgrSection m = some notes) :
    (∃ n rest, L .pendingCreate = n :: rest ∧ notes = [.signal (n, .createThreadCv)]) ∨
      m.isListEmpty .pendingCreate = true ∧
        ∀ n, m.baseNode .pendingDelete = some n → notes = [.signal (n, .deleteThreadCv)] := by
  unfold releaseMgrSection at hsec
  split at hsec
  · cases hsec
  split at hsec
  · cases hsec
  split at hsec
  · next hpc =>
    rw [h.baseNode_eq] at hsec
    cases hL : L .pendingCreate with
    | nil =>
        rw [(h.isListEmpty_iff _).mpr hL] at hpc
        cases hpc
    | cons n rest =>
        rw [hL] at hsec
        exact .inl ⟨n, rest, rfl, (Option.some.inj hsec).symm⟩
  · next hpc =>
    refine .inr ⟨by simpa using hpc, fun n hn => ?_⟩
    have hne : m.isListEmpty .pendingDelete = false := by
      rw [Bool.eq_false_iff, ne_eq, h.isListEmpty_iff]
      intro hnil
      rw [h.baseNode_eq, hnil] at hn
      cases hn
    rw [hne, hn] at hsec
    exact (Option.some.inj hsec).symm

omit [DecidableEq ν] [DecidableEq τ] in
/-- With the manager's mutex free, a node in the list of pending creates has its creator in the wait,
and nobody else waits on its condition variable. -/
theorem WakeInv.creator_waits (h : WakeInv s) {L : CrudNodeState → List ν}
    (hL : Listed s.mem.crud (fun _ => True) L) (hfree : s.mem.mgrOwner = none) (n : ν)
    (hn : n ∈ L .pendingCreate) :
    (∃ u, notifiedAtMgr s u = true) ∨ (∃ u l, s.thr u = .waiting (n, .createThreadCv) l) ∧
      ∀ u l, s.thr u = .waiting (n, .createThreadCv) l → l.isMgrWait = true := by
  obtain ⟨-, u, hu⟩ := h.creator L hL n hn
  have hu : (s.thr u).loc = .mgrWait .create n := by
    rcases hu with hu | hu
    · have hown := (h.inv.owned.mgr u).mpr (by rw [hu]; rfl)
      rw [hfree] at hown
      cases hown
    · exact hu
  have hshape := h.shape u
  cases hst : s.thr u with
  | running l =>
      rw [hst] at hshape hu
      rw [show l = _ from hu] at hshape
      cases hshape.1
  | notified c l =>
      refine .inl ⟨u, ?_⟩
      unfold notifiedAtMgr
      rw [hst] at hu ⊢
      rw [show l = _ from hu]
      rfl
  | waiting c l =>
      rw [hst] at hshape hu
      rcases hshape with ⟨r, n', rfl, -⟩ | ⟨op, n', rfl, rfl⟩
      · cases hu
      · cases hu
        refine .inr ⟨⟨u, _, hst⟩, fun v l hv => ?_⟩
        have hshape := h.shape v
        rw [hv] at hshape
        rcases hshape with ⟨r, n', -, hno⟩ | ⟨op, n', rfl, -⟩
        · exact absurd rfl hno
        · rfl

/-- The release that ends a create or a delete notifies somebody. -/
theorem WakeInv.notified_of_signal [Fintype τ] (h : WakeInv s)
    (hran : (mgrProgram τ ν spurious).Ran s t x s' notes st)
    (hl : (s.thr t).loc = .releaseMgr) {picks : List (Option τ)}
    (hreach : reachesMgr s (.run t x picks) = true) (hblocked : ∃ u, blockedAtMgr s u = true) :
    ∃ u, notifiedAtMgr s' u = true := by
  have hmove := mgrMove_of_ran hran
  obtain ⟨L, hok⟩ := h.inv.lists
  rw [hl] at hmove
  generalize hm : s'.mem = m' at hmove
  cases hmove with
  | signal hfree hsec =>
      have hkeep : (∃ u, notifiedAtMgr s u = true) → ∃ u, notifiedAtMgr s' u = true := by
        rintro ⟨u, hu⟩
        refine ⟨u, notifiedAtMgr_of_ne hran ?_ hu⟩
        rintro rfl
        obtain ⟨c, op, n, hst⟩ := notifiedAtMgr_iff.mp hu
        rw [hst] at hl
        cases hl
      rcases releaseMgrSection_cases hok.listed hsec with ⟨n, rest, hL, hnotes⟩ | ⟨hpc, hnotes⟩
      · -- the first pending creator
        rcases h.creator_waits hok.listed hfree n (by simp [hL]) with hyes | ⟨hw, honly⟩
        · exact hkeep hyes
        · exact notifiedAtMgr_of_signal hran (n, .createThreadCv) (by simp [hnotes]) hw honly
      · -- the first node in the list of pending deletes
        simp only [reachesMgr, hl, hpc, Bool.not_true, Bool.false_or, Bool.or_eq_true,
          Bool.not_eq_eq_eq_not, decide_eq_false_iff_not, decide_eq_true_eq] at hreach
        rcases hreach with (hno | hyes) | hhead
        · exact absurd hblocked hno
        · exact hkeep hyes
        · cases hbase : s.mem.crud.baseNode .pendingDelete with
          | none => simp [hbase] at hhead
          | some n =>
              simp only [hbase, Bool.and_eq_true, decide_eq_true_eq] at hhead
              obtain ⟨⟨u, hu⟩, honly⟩ := hhead
              apply notifiedAtMgr_of_signal hran (n, .deleteThreadCv)
              · simp [hnotes n hbase]
              · obtain ⟨l, hst⟩ := Status.waitsOn_iff.mp hu
                exact ⟨u, l, hst⟩
              · intro v l hv
                have hmgr := honly v (Status.waitsOn_iff.mpr ⟨l, hv⟩)
                rw [hv] at hmgr
                exact hmgr

theorem WakeInv.served_step [Fintype τ] (h : WakeInv s)
    (hran : (mgrProgram τ ν spurious).Ran s t x s' notes st) {picks : List (Option τ)}
    (hreach : reachesMgr s (.run t x picks) = true) (hblocked : ∃ v, blockedAtMgr s' v = true) :
    Served s' := by
  have hmove := mgrMove_of_ran hran
  obtain ⟨L, hok⟩ := h.inv.lists
  obtain ⟨L', hlisted, heff⟩ := hmove.callEffect (h.inv.owned.mgr t) (h.inv.decided t) hok.listed
  -- what is in progress is still so, or this step is part of a release
  have hprogress : s.mem.crud.nothingInProgress = false → Served s' := by
    intro hno
    obtain ⟨s₁, hs, hne⟩ := hok.listed.somethingInProgress.mp hno
    rcases hmove.inProgress_next heff hs hne with hstill | hrel
    · exact .inProgress (hlisted.somethingInProgress.mpr ⟨s₁, hs, hstill⟩)
    · exact .releasing t (by rw [hran.self]; exact hrel)
  obtain ⟨v, hv⟩ := hblocked
  obtain ⟨c, op, n, hv⟩ := blockedAtMgr_iff.mp hv
  by_cases hvt : v = t
  · -- the thread goes to sleep for a reason
    subst hvt
    rw [hran.self] at hv
    have hrefused : (s.thr v).loc.isRefused = true := by
      generalize (s.thr v).loc = l at hmove
      generalize s'.mem = m' at hmove
      cases hmove with
      | mgrSleep => rfl
      | _ => cases hv
    exact hprogress (h.refused v hrefused)
  · have hbefore : ∃ v, blockedAtMgr s v = true :=
      ⟨v, blockedAtMgr_iff.mpr ⟨c, op, n, hran.waiting_of_ne hvt hv⟩⟩
    cases h.served hbefore with
    | inProgress hno => exact hprogress hno
    | notified u hu =>
        by_cases hut : u = t
        · -- it resumes and has the mutex
          subst hut
          obtain ⟨c, op, n, hst⟩ := notifiedAtMgr_iff.mp hu
          rw [hst] at hmove
          refine .deciding u ?_
          rw [hran.self]
          exact hmove.mgrHeld_of_isMgrWait rfl
        · exact .notified u (notifiedAtMgr_of_ne hran hut hu)
    | deciding u hu =>
        by_cases hut : u = t
        · subst hut
          rcases hmove.mgrHeld_next hu with hheld | ⟨hrefused, -⟩ | ⟨op, n, hl⟩
          · exact .deciding u (by rw [hran.self]; exact hheld)
          · exact hprogress (h.refused u hrefused)
          · refine .inProgress (hlisted.somethingInProgress.mpr ⟨op.grantState, ?_, ?_⟩)
            · cases op <;> simp [StructOp.grantState]
            · exact heff.inProgress_of_mgrGrant hl
        · exact .deciding u (by rw [hran.loc_of_ne hut]; exact hu)
    | releasing u hu =>
        by_cases hut : u = t
        · subst hut
          rcases hmove.isReleasing_next hu with hrel | hl
          · exact .releasing u (by rw [hran.self]; exact hrel)
          · obtain ⟨w, hw⟩ := h.notified_of_signal hran hl hreach hbefore
            exact .notified w hw
        · exact .releasing u (by rw [hran.loc_of_ne hut]; exact hu)

theorem WakeInv.step [Fintype τ] (h : WakeInv s)
    (hran : (mgrProgram τ ν spurious).Ran s t x s' notes st) {picks : List (Option τ)}
    (hreach : reachesMgr s (.run t x picks) = true) : WakeInv s' where
  inv := h.inv.step hran
  shape := h.shape_step hran
  refused := h.refused_step hran
  creator := h.creator_step hran
  served := h.served_step hran hreach

omit [DecidableEq ν] in
/-- A spurious wake-up counts as a notification. -/
theorem WakeInv.woken (h : WakeInv s) {c : ν × CrudCv} {l : MgrLoc ν}
    (hw : s.thr t = .waiting c l) : WakeInv ⟨s.mem, Function.update s.thr t (.notified c l)⟩ := by
  have hloc : ∀ u, (Function.update s.thr t (.notified c l) u).loc = (s.thr u).loc :=
    loc_update_notified hw
  constructor
  · exact h.inv.woken hw
  · exact forall_status_of_woken (p := fun _ => ShapeOk) hw h.shape fun _ _ _ hshape => hshape
  · intro u hu
    apply h.refused u
    rw [← hloc]
    exact hu
  · intro L hL n hn
    obtain ⟨hcount, u, hu⟩ := h.creator L hL n hn
    refine ⟨hcount, u, ?_⟩
    show (Function.update s.thr t _ u).loc = _ ∨ (Function.update s.thr t _ u).loc = _
    rw [hloc]
    exact hu
  · rintro ⟨v, hv⟩
    obtain ⟨c', op, n, hv⟩ := blockedAtMgr_iff.mp hv
    have hvt : v ≠ t := by
      rintro rfl
      simp at hv
    simp only [Function.update_of_ne hvt] at hv
    cases h.served ⟨v, blockedAtMgr_iff.mpr ⟨c', op, n, hv⟩⟩ with
    | inProgress hno => exact .inProgress hno
    | notified u hu =>
        refine .notified u ?_
        by_cases hut : u = t
        · subst hut
          obtain ⟨c, op, n, hst⟩ := notifiedAtMgr_iff.mp hu
          rw [hw] at hst
          cases hst
        · unfold notifiedAtMgr
          simp only [Function.update_of_ne hut]
          exact hu
    | deciding u hu => exact .deciding u ((congrArg _ (hloc u)).trans hu)
    | releasing u hu => exact .releasing u ((congrArg _ (hloc u)).trans hu)

/-- **No lost wake-up at the manager level**, in runs in which every release of a create or a delete
that finds no pending creator signals a deleter blocked under the manager's mutex, if there is any and
none was notified. -/
theorem mgr_wake_up [Fintype τ]
    (h : (mgrMachine τ ν spurious).ReachableUnder (fun s a => reachesMgr s a = true) s) :
    NoLostWakeUp s := by
  have hinv : WakeInv s := by
    apply Program.invariant _ _ _ h
    · exact fun s hs => wakeInv_of_start hs
    · intro s t x picks s' notes st hinv hreach hran
      exact hinv.step hran hreach
    · intro s t c l hinv _ hw
      exact hinv.woken hw
  intro hnothing hreturned hfree hblocked
  cases hinv.served hblocked with
  | inProgress hno =>
      rw [hnothing] at hno
      cases hno
  | notified u hu => exact ⟨u, hu⟩
  | deciding u hu =>
      rw [(hinv.inv.owned.mgr u).mpr hu] at hfree
      cases hfree
  | releasing u hu =>
      rw [hreturned u] at hu
      cases hu

end Run

/-- A creator waits for another one, which notifies it when it is done. -/
theorem mgr_wake_up_trace :
    ∃ s : MgrConfig (Fin 2) (Fin 2), NoLostWakeUp s ∧ notifiedAtMgr s 1 = true := by
  have hrun : ((mgrMachine (Fin 2) (Fin 2) false).execUnder (fun s a => reachesMgr s a)
      (freshMgrConfig (Fin 2) 2)
      (List.flatten [List.replicate 3 (.run 0 (.create 0) []),
        List.replicate 4 (.run 1 (.create 1) []), List.replicate 3 (.run 0 (.create 0) []),
        [.run 0 (.create 0) [some 1]]])).holds
      (fun s => notifiedAtMgr s 1) = true := by
    decide +kernel
  obtain ⟨s, hs, hp⟩ := Outcome.holds_iff.mp hrun
  have hreach := Machine.reachableUnder_of_execUnder (.init (freshMgrConfig_start _ 2)) hs
  exact ⟨s, mgr_wake_up hreach, hp⟩

/-- Thread 0 deletes node 0, for which the deleter of node 1 waits, thread 1.  Then thread 3 wants to
delete node 2, which thread 2 reads, and waits on `rdrs_cv`: node 2 is now the first in the
`pending_delete` list, and the release of thread 0 signals its `delete_thread_cv`. -/
theorem mgr_wake_up_fails :
    ∃ s : MgrConfig (Fin 4) (Fin 3), (mgrMachine (Fin 4) (Fin 3) false).Reachable s ∧
      ¬ NoLostWakeUp s ∧ s.mem.crud.nothingInProgress = true ∧ blockedAtMgr s 1 = true := by
  have hrun : ((mgrMachine (Fin 4) (Fin 3) false).exec (freshMgrConfig (Fin 4) 3)
      (List.flatten [List.replicate 7 (.run 0 (.request .delete 0) []),
        List.replicate 7 (.run 1 (.request .delete 1) []),
        List.replicate 3 (.run 2 (.request .read 2) []),
        List.replicate 4 (.run 3 (.request .delete 2) []),
        List.replicate 4 (.run 0 (.request .read 0) [])])).holds (fun s =>
        decide (¬ NoLostWakeUp s ∧ s.mem.crud.nothingInProgress = true ∧
          blockedAtMgr s 1 = true)) = true := by
    decide +kernel
  obtain ⟨s, hs, hp⟩ := Machine.exists_reachable_of_exec (freshMgrConfig_start _ 3) hrun
  exact ⟨s, hs, of_decide_eq_true hp⟩

end CrudMgr
end MultithreadingBible
