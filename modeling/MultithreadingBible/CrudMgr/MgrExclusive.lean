import MultithreadingBible.CrudMgr.MgrCounted

/-!
# CRUD manager: a deleter is alone

A deleter finds its node free under the node's mutex and marks it with `pending_delete`, which turns
all others away.  Under the manager's mutex it leaves `pending_delete` before it enters
`delete_in_progress`.  In between the node is in neither state and its mutex is free.

* `wellBehaved` — what the clients are held to: they release what they were granted, and nobody else
  uses a node while it is created.
* `slipsIn` — a request that passes its tests in the gap.
* `MgrInv` — the invariant of runs in which no reader or writer slips in.
* `delete_exclusive` — in such runs nobody reads or writes a node that somebody deletes.
* `delete_exclusive_fails` — a deleter and a reader without it.
-/

namespace MultithreadingBible
namespace CrudMgr

open Lib

variable {τ ν : Type*} [DecidableEq ν]

namespace MgrLoc

/-- The grant that a thread has not given back. -/
def granted : MgrLoc ν → Option (CrudOpType × ν)
  | .holds op n | .releasing (some op) _ n => some (op, n)
  | _ => none

/-- A deleter between `pending_delete` and `delete_in_progress`. -/
def isGap (n : ν) : MgrLoc ν → Bool
  | .mgrGrant .delete n' => decide (n' = n)
  | _ => false

/-- The next entry does not push its counter past 255. -/
def hasRoom (m : CrudMem ν) (l : MgrLoc ν) : Bool :=
  match l.enters with
  | some (n, s) => (m.node n).hasRoom s
  | none => true

omit [DecidableEq ν] in
theorem role_of_granted {l : MgrLoc ν} {op : CrudOpType} {n : ν} (hl : l.Honest)
    (h : l.granted = some (op, n)) : l.role = op.role.map fun ρ => (n, ρ) := by
  cases l with
  | holds op' n' => cases h; rfl
  | releasing g currOp n' =>
      obtain ⟨rfl, -⟩ := hl
      cases h
      rfl
  | _ => cases h

theorem role_of_isHidden {l : MgrLoc ν} {n : ν} (h : l.isHidden n = true) :
    l.role = some (n, .create) ∨ l.role = some (n, .remove) ∧ l.isGap n = true := by
  cases l with
  | mgrHead op n' | mgrBlock op n' =>
      cases op with
      | create =>
          obtain rfl := of_decide_eq_true h
          exact .inl rfl
      | delete => cases h
  | mgrGrant op n' =>
      obtain rfl := of_decide_eq_true h
      cases op with
      | create => exact .inl rfl
      | delete => exact .inr ⟨rfl, h⟩
  | _ => cases h

omit [DecidableEq ν] in
/-- The two ways an operation's state is entered. -/
theorem grants_of_enters {l : MgrLoc ν} {n : ν} {s : CrudNodeState} {op : CrudOpType}
    (hl : l.Decided) (h : l.enters = some (n, s)) (hop : releasedState op = some s) :
    (∃ r : NodeReq, l = .decided r n (.grant s) ∧ r ≠ .delete ∧ op = r.op) ∨
      ∃ sop : StructOp, l = .mgrGrant sop n ∧ op = sop.op := by
  cases l with
  | decided r n' d =>
      obtain ⟨m, hd⟩ := hl r n' d rfl
      cases d with
      | block s' cv =>
          cases h
          rw [(NodeReq.loop_block hd.symm).1] at hop
          exact absurd hop r.releasedState_ne_pendingState
      | grant s' =>
          cases h
          obtain ⟨hs, hr, -⟩ := NodeReq.loop_grant hd.symm
          exact .inl ⟨r, rfl, hr, releasedState_inj hop hs⟩
      | leave =>
          cases h
          cases op <;> cases hop
      | quit | fail => cases h
  | mgrBlock sop n' =>
      cases h
      cases sop <;> cases op <;> cases hop
  | mgrGrant sop n' =>
      cases h
      refine .inr ⟨sop, rfl, ?_⟩
      cases sop <;> cases op <;> first | rfl | cases hop
  | _ => cases h

end MgrLoc

section Condition

variable [Fintype τ]

/-- Thread `t` calls what a client may call: it releases nothing that it was not granted, and nobody
uses a node that another thread creates. -/
def wellBehaved (s : MgrConfig τ ν) (t : τ) (x : MgrCall ν) : Bool :=
  match (s.thr t).loc, x with
  | .idle, .request _ n => decide (∀ u, (s.thr u).loc.role ≠ some (n, .create))
  | .idle, .create n => decide (∀ u, (s.thr u).loc.role.map Prod.fst ≠ some n)
  | .idle, .release _ => false
  | _, _ => true

/-- Request `r` of thread `t` passes its tests while a deleter of the node is in the gap. -/
def slipsIn (r : NodeReq) (s : MgrConfig τ ν) (t : τ) : Bool :=
  match (s.thr t).loc with
  | .head r' n =>
      decide (r' = r) && (r.loop s.mem.crud n).passes &&
        decide (∃ u, (s.thr u).loc.isGap n = true)
  | _ => false

/-- The clients behave well. -/
def clientsBehave (s : MgrConfig τ ν) : Act τ (MgrCall ν) → Bool
  | .run t x _ => wellBehaved s t x
  | .spurious _ => true

/-- The clients behave well, no counter is pushed past 255, and no reader or writer slips in. -/
def keepsAccessOut (s : MgrConfig τ ν) : Act τ (MgrCall ν) → Bool
  | .run t x _ =>
      wellBehaved s t x && (s.thr t).loc.hasRoom s.mem.crud && !slipsIn .read s t &&
        !slipsIn .write s t
  | .spurious _ => true

end Condition

/-- While somebody holds a delete grant, nobody holds a grant to read or write the node. -/
def DeleteExclusive (s : MgrConfig τ ν) : Prop :=
  ∀ t u n, (s.thr t).loc.granted = some (.delete, n) →
    (s.thr u).loc.granted ≠ some (.read, n) ∧ (s.thr u).loc.granted ≠ some (.write, n)

/-- The invariant of the threads on all nodes. -/
structure MgrInv [Fintype τ] (s : MgrConfig τ ν) : Prop where
  lists : ListInv s
  counted : Counted s.mem.crud (counts mgrWeight s.thr)
  honest : ∀ t, (s.thr t).loc.Honest
  /-- A granted request still finds what it found in its loop. -/
  settled : ∀ t r n st, (s.thr t).loc = .decided r n (.grant st) →
    counts mgrWeight s.thr n .writeInProgress = 0 ∧
      (r = .write → counts mgrWeight s.thr n .readInProgress = 0)
  /-- Nobody reads or writes a node that was found free for its deletion. -/
  apart : ∀ t u n, (s.thr t).loc.role = some (n, .remove) → (s.thr u).loc.role ≠ some (n, .access)
  /-- A creator is the only one on its node. -/
  alone : ∀ t u n ρ, (s.thr t).loc.role = some (n, .create) → u ≠ t →
    (s.thr u).loc.role ≠ some (n, ρ)

section Inv

variable [Fintype τ] {spurious : Bool} {s s' : MgrConfig τ ν} {t u : τ}
  {x : MgrCall ν} {n : ν} {ρ : Role} {notes : List (Note (ν × CrudCv))}
  {st : Status (ν × CrudCv) (MgrLoc ν)}

theorem MgrInv.exclusive (h : MgrInv s) : DeleteExclusive s := by
  intro t u n ht
  have hremove := MgrLoc.role_of_granted (h.honest t) ht
  have hno := h.apart t u n hremove
  constructor
  · intro hu
    exact hno (MgrLoc.role_of_granted (h.honest u) hu)
  · intro hu
    exact hno (MgrLoc.role_of_granted (h.honest u) hu)

/-- Whoever is counted in a state has a role that allows it. -/
theorem MgrInv.exists_role (h : MgrInv s) {s₁ : CrudNodeState}
    (hpos : 0 < counts mgrWeight s.thr n s₁) :
    ∃ u ρ, (s.thr u).loc.role = some (n, ρ) ∧ MgrLoc.allows ρ s₁ = true := by
  obtain ⟨u, hu⟩ := tally_pos.mp hpos
  obtain ⟨ρ, hrole, hallows⟩ := MgrLoc.allows_of_weight (h.honest u) hu
  exact ⟨u, ρ, hrole, hallows⟩

theorem MgrInv.currOp_of_holds (h : MgrInv s) {op : CrudOpType}
    (ht : (s.thr t).loc = .holds op n) (hop : op ≠ .opNone) :
    (s.mem.crud.node n).currOp = op := by
  obtain ⟨s₁, hs₁⟩ := exists_releasedState hop
  apply (h.counted.op n).op op s₁ hs₁
  have hle := le_counts mgrWeight s.thr t n s₁
  have hone : mgrWeight n s₁ (s.thr t).loc = 1 := by
    rw [ht]
    simp [mgrWeight, MgrLoc.entries, hs₁]
  omega

/-- Two threads never have the mutex of one node. -/
theorem MgrInv.nodeHeld_unique (h : MgrInv s) (ht : (s.thr t).loc.nodeHeld = some n)
    (hu : (s.thr u).loc.nodeHeld = some n) : u = t := by
  have hown := (h.lists.owned.node n t).mpr ht
  rw [(h.lists.owned.node n u).mpr hu] at hown
  exact Option.some.inj hown

/-- When a deleter finds its node free, the others on it are hidden. -/
theorem MgrInv.hidden_of_leave (h : MgrInv s) (ht : (s.thr t).loc = .head .delete n)
    (hloop : NodeReq.loop s.mem.crud n .delete = .leave) (hu : u ≠ t)
    (hrole : (s.thr u).loc.role = some (n, ρ)) : (s.thr u).loc.isHidden n = true := by
  rcases MgrLoc.visible (h.honest u) hrole with hheld | ⟨s₁, hs₁, -, hpos⟩ | hhidden
  · exact absurd (h.nodeHeld_unique (by rw [ht]; rfl) hheld) hu
  · have hzero := h.counted.count_zero hs₁ ((NodeReq.loop_leave hloop).2 s₁ hs₁)
    have hle := le_counts mgrWeight s.thr u n s₁
    omega
  · exact hhidden

/-- When a reader or writer passes its tests, the deleters of its node are in the gap. -/
theorem MgrInv.gap_of_pass (h : MgrInv s) {r : NodeReq} (ht : (s.thr t).loc = .head r n)
    (hr : r ≠ .delete) (hpass : (r.loop s.mem.crud n).passes = true)
    (hrole : (s.thr u).loc.role = some (n, .remove)) : (s.thr u).loc.isGap n = true := by
  have hne : u ≠ t := by
    rintro rfl
    rw [ht] at hrole
    cases hrole
  rcases MgrLoc.visible (h.honest u) hrole with hheld | ⟨s₁, hs₁, hallows, hpos⟩ | hhidden
  · exact absurd (h.nodeHeld_unique (by rw [ht]; rfl) hheld) hne
  · obtain ⟨hpd, hdip⟩ := NodeReq.loop_passes hr hpass
    have hzero : counts mgrWeight s.thr n s₁ = 0 := by
      apply h.counted.count_zero hs₁
      cases s₁ <;> first | assumption | cases hallows
    have hle := le_counts mgrWeight s.thr u n s₁
    omega
  · rcases MgrLoc.role_of_isHidden hhidden with hcreate | ⟨-, hgap⟩
    · rw [hrole] at hcreate
      cases hcreate
    · exact hgap

/-- What is in progress besides a grant is of the same kind. -/
theorem MgrInv.only (h : MgrInv s) {s₁ : CrudNodeState}
    (hent : (s.thr t).loc.enters = some (n, s₁)) {op : CrudOpType}
    (hop : releasedState op = some s₁) {op' : CrudOpType} {s₂ : CrudNodeState}
    (hop' : releasedState op' = some s₂) (hpos : 0 < counts mgrWeight s.thr n s₂) : op' = op := by
  -- some thread `u` is counted for what is in progress, in the role `ρ`
  obtain ⟨u, ρ, hrole, hallows⟩ := h.exists_role hpos
  rcases MgrLoc.grants_of_enters (h.lists.decided t) hent hop with ⟨r, hl, hr, rfl⟩ | ⟨sop, hl, rfl⟩
  · -- a reader or writer
    obtain ⟨hwrite, hread⟩ := h.settled t r n s₁ hl
    have haccess : (s.thr t).loc.role = some (n, .access) := by
      rw [hl]
      cases r with
      | read | write => rfl
      | delete => exact absurd rfl hr
    cases op' with
    | opNone => cases hop'
    | delete =>
        cases hop'
        cases ρ with
        | remove => exact absurd haccess (h.apart u t n hrole)
        | ask | access | request | create => simp [MgrLoc.allows] at hallows
    | create =>
        cases hop'
        have hne : t ≠ u := by
          rintro rfl
          rw [haccess] at hrole
          cases hrole
          cases hallows
        cases ρ with
        | create => exact absurd haccess (h.alone u t n _ hrole hne)
        | ask | access | request | remove => simp [MgrLoc.allows] at hallows
    | write =>
        cases hop'
        -- a write in progress would have been seen by the tests of the loop
        omega
    | read =>
        cases hop'
        cases r with
        | read => rfl
        | write =>
            have := hread rfl
            omega
        | delete => exact absurd rfl hr
  · -- a deleter or creator, under the mutex of the manager
    cases sop with
    | delete =>
        have hremove : (s.thr t).loc.role = some (n, .remove) := by
          rw [hl]
          rfl
        cases op' with
        | opNone => cases hop'
        | delete => rfl
        | create =>
            cases hop'
            have hne : t ≠ u := by
              rintro rfl
              rw [hremove] at hrole
              cases hrole
              cases hallows
            cases ρ with
            | create => exact absurd hremove (h.alone u t n _ hrole hne)
            | ask | access | request | remove => simp [MgrLoc.allows] at hallows
        | read | write =>
            cases hop'
            cases ρ with
            | access => exact absurd hrole (h.apart t u n hremove)
            | ask | request | remove | create => simp [MgrLoc.allows] at hallows
    | create =>
        have hcreate : (s.thr t).loc.role = some (n, .create) := by
          rw [hl]
          rfl
        -- a creator is alone with the node
        by_cases hut : u = t
        · subst hut
          rw [hcreate] at hrole
          cases hrole
          cases op' <;> cases hop' <;> first | rfl | cases hallows
        · exact absurd hrole (h.alone t u n ρ hcreate hut)

/-- A well-behaved client has nothing to release outside its grants. -/
theorem ne_release_of_wellBehaved (h : wellBehaved s t x = true) :
    (s.thr t).loc = .idle → ∀ n, x ≠ .release n := by
  rintro hidle n rfl
  simp [wellBehaved, hidle] at h

variable [DecidableEq τ]

theorem MgrInv.counted_step (h : MgrInv s)
    (hran : (mgrProgram τ ν spurious).Ran s t x s' notes st)
    (hroom : (s.thr t).loc.hasRoom s.mem.crud = true) :
    Counted s'.mem.crud (counts mgrWeight s'.thr) := by
  rw [← moved_counts hran]
  apply (mgrMove_of_ran hran).counted h.counted (h.lists.decided t) (h.honest t)
  · intro n s₁ hent
    have hno := MgrLoc.ne_noOp_of_enters (h.lists.decided t) hent
    apply h.counted.lt_of_hasRoom hno
    simpa [MgrLoc.hasRoom, hent] using hroom
  · intro n s₁ hent op hop op' s₂ hop' hpos
    exact h.only hent hop hop' hpos

theorem MgrInv.honest_step (h : MgrInv s)
    (hran : (mgrProgram τ ν spurious).Ran s t x s' notes st) (hwell : wellBehaved s t x = true)
    (u : τ) : (s'.thr u).loc.Honest := by
  by_cases hu : u = t
  · rw [hu, hran.self]
    exact (mgrMove_of_ran hran).honest (h.honest t) (ne_release_of_wellBehaved hwell)
      fun op n hl hop => h.currOp_of_holds hl hop
  · rw [hran.loc_of_ne hu]
    exact h.honest u

/-- While a thread has the mutex of a node, no other grants reading or writing it. -/
theorem MgrInv.count_le (h : MgrInv s) (hran : (mgrProgram τ ν spurious).Ran s t x s' notes st)
    (hu : u ≠ t) (hheld : (s.thr u).loc.nodeHeld = some n) (op : CrudOpType) {s₁ : CrudNodeState}
    (hop : releasedState op = some s₁) (hstruct : ∀ sop : StructOp, op ≠ sop.op) :
    counts mgrWeight s'.thr n s₁ ≤ counts mgrWeight s.thr n s₁ := by
  have hno : (s.thr t).loc.enters ≠ some (n, s₁) := by
    intro hent
    rcases MgrLoc.grants_of_enters (h.lists.decided t) hent hop with ⟨r, hl, -⟩ | ⟨sop, -, heq⟩
    · exact hu (h.nodeHeld_unique (by rw [hl]; rfl) hheld)
    · exact hstruct sop heq
  have hle := (mgrMove_of_ran hran).weight_le (h.lists.decided t) (h.honest t) hno
  rw [← moved_counts hran]
  unfold moved
  omega

theorem MgrInv.settled_step (h : MgrInv s)
    (hran : (mgrProgram τ ν spurious).Ran s t x s' notes st) {r : NodeReq} {s₁ : CrudNodeState}
    (hu : (s'.thr u).loc = .decided r n (.grant s₁)) :
    counts mgrWeight s'.thr n .writeInProgress = 0 ∧
      (r = .write → counts mgrWeight s'.thr n .readInProgress = 0) := by
  have hmove := mgrMove_of_ran hran
  by_cases hut : u = t
  · -- the loop has just been passed
    rw [hut, hran.self] at hu
    obtain ⟨hl, hloop⟩ : (s.thr t).loc = .head r n ∧ r.loop s.mem.crud n = .grant s₁ := by
      obtain ⟨hl, hloop⟩ := hmove.eq_head_of_decided hu
      exact ⟨hl, hloop.symm⟩
    obtain ⟨-, -, -, -, -, hwrite, hread⟩ := NodeReq.loop_grant hloop
    have hsame : counts mgrWeight s'.thr = counts mgrWeight s.thr := by
      rw [← moved_counts hran]
      apply moved_eq
      exact hmove.weight_eq (by rw [hl]; rfl) (by rw [hl]; rfl)
    rw [hsame]
    constructor
    · exact h.counted.count_zero (by simp) hwrite
    · intro hr
      exact h.counted.count_zero (by simp) (hread hr)
  · -- the thread keeps the node's mutex
    rw [hran.loc_of_ne hut] at hu
    obtain ⟨hwrite, hread⟩ := h.settled u r n s₁ hu
    have hheld : (s.thr u).loc.nodeHeld = some n := by
      rw [hu]
      rfl
    constructor
    · have := h.count_le hran hut hheld .write rfl (by rintro ⟨⟩ <;> simp [StructOp.op])
      omega
    · intro hr
      have := h.count_le hran hut hheld .read rfl (by rintro ⟨⟩ <;> simp [StructOp.op])
      have := hread hr
      omega

/-- The role of a thread after a step. -/
theorem MgrInv.role_step (h : MgrInv s) (hran : (mgrProgram τ ν spurious).Ran s t x s' notes st)
    (hwell : wellBehaved s t x = true) (hrole : (s'.thr u).loc.role = some (n, ρ)) :
    (s.thr u).loc.role = some (n, ρ) ∨ u = t ∧
      ((∃ r : NodeReq, (s.thr t).loc = .idle ∧ x = .request r n ∧ ρ = .ask) ∨
      ((s.thr t).loc = .idle ∧ x = .create n ∧ ρ = .create) ∨
      (∃ r : NodeReq, (s.thr t).loc.role = some (n, r.role) ∧ ρ = .ask) ∨
      (∃ r : NodeReq, (s.thr t).loc = .head r n ∧ (r.loop s.mem.crud n).passes = true ∧
        r.loop s.mem.crud n ≠ .leave ∧ ρ = r.role) ∨
      ((s.thr t).loc = .head .delete n ∧ NodeReq.loop s.mem.crud n .delete = .leave ∧
        ρ = .remove)) := by
  by_cases hu : u = t
  · subst hu
    rw [hran.self] at hrole
    have hchange := (mgrMove_of_ran hran).role (h.lists.decided u) (h.honest u)
      (ne_release_of_wellBehaved hwell) fun op n hl hop => h.currOp_of_holds hl hop
    rcases hchange.old_or hrole with hold | hnew
    · exact .inl hold
    · exact .inr ⟨rfl, hnew⟩
  · rw [hran.loc_of_ne hu] at hrole
    exact .inl hrole

/-- A thread that becomes a deleter found the node free. -/
theorem MgrInv.remove_step (h : MgrInv s)
    (hran : (mgrProgram τ ν spurious).Ran s t x s' notes st) (hwell : wellBehaved s t x = true)
    (hrole : (s'.thr u).loc.role = some (n, .remove)) :
    (s.thr u).loc.role = some (n, .remove) ∨ u = t ∧ (s.thr t).loc = .head .delete n ∧
      NodeReq.loop s.mem.crud n .delete = .leave := by
  rcases h.role_step hran hwell hrole with hold | ⟨hu, hnew⟩
  · exact .inl hold
  · rcases hnew with ⟨r, -, -, hr⟩ | ⟨-, -, hr⟩ | ⟨r, -, hr⟩ | ⟨r, -, -, -, hr⟩ | ⟨hl, hloop, -⟩
    · cases hr
    · cases hr
    · cases hr
    · cases r <;> cases hr
    · exact .inr ⟨hu, hl, hloop⟩

/-- A thread that becomes a reader or writer passed its tests. -/
theorem MgrInv.access_step (h : MgrInv s)
    (hran : (mgrProgram τ ν spurious).Ran s t x s' notes st) (hwell : wellBehaved s t x = true)
    (hrole : (s'.thr u).loc.role = some (n, .access)) :
    (s.thr u).loc.role = some (n, .access) ∨ u = t ∧ ∃ r : NodeReq, (s.thr t).loc = .head r n ∧
      r ≠ .delete ∧ (r.loop s.mem.crud n).passes = true := by
  rcases h.role_step hran hwell hrole with hold | ⟨hu, hnew⟩
  · exact .inl hold
  · rcases hnew with ⟨r, -, -, hr⟩ | ⟨-, -, hr⟩ | ⟨r, -, hr⟩ | ⟨r, hl, hpass, -, hr⟩ | ⟨-, -, hr⟩
    · cases hr
    · cases hr
    · cases hr
    · refine .inr ⟨hu, r, hl, ?_, hpass⟩
      rintro rfl
      cases hr
    · cases hr

theorem MgrInv.apart_step (h : MgrInv s)
    (hran : (mgrProgram τ ν spurious).Ran s t x s' notes st) (hwell : wellBehaved s t x = true)
    (hread : slipsIn .read s t = false) (hwrite : slipsIn .write s t = false) {v : τ}
    (hv : (s'.thr v).loc.role = some (n, .remove)) : (s'.thr u).loc.role ≠ some (n, .access) := by
  intro hu
  have hne : u ≠ v := by
    rintro rfl
    rw [hv] at hu
    cases hu
  rcases h.remove_step hran hwell hv with hold | ⟨rfl, hl, hloop⟩
  · rcases h.access_step hran hwell hu with hu | ⟨rfl, r, hl, hr, hpass⟩
    · exact h.apart v u n hold hu
    · have hgap := h.gap_of_pass hl hr hpass hold
      have hslip : slipsIn r s u = true := by
        simp only [slipsIn, hl, hpass]
        simpa using ⟨v, hgap⟩
      cases r with
      | read => rw [hread] at hslip; cases hslip
      | write => rw [hwrite] at hslip; cases hslip
      | delete => exact hr rfl
  · -- the node was free
    rw [hran.loc_of_ne hne] at hu
    have hhidden := h.hidden_of_leave hl hloop hne hu
    rcases MgrLoc.role_of_isHidden hhidden with hrole | ⟨hrole, -⟩
    · rw [hu] at hrole
      cases hrole
    · rw [hu] at hrole
      cases hrole

theorem MgrInv.alone_step (h : MgrInv s)
    (hran : (mgrProgram τ ν spurious).Ran s t x s' notes st) (hwell : wellBehaved s t x = true)
    {v : τ} (hv : (s'.thr v).loc.role = some (n, .create)) (hne : u ≠ v) :
    (s'.thr u).loc.role ≠ some (n, ρ) := by
  intro hu
  have hcreator : (s.thr v).loc.role = some (n, .create) ∨ v = t ∧ (s.thr t).loc = .idle ∧
      x = .create n := by
    rcases h.role_step hran hwell hv with hold | ⟨hvt, hnew⟩
    · exact .inl hold
    · rcases hnew with ⟨r, -, -, hr⟩ | ⟨hl, hx, -⟩ | ⟨r, -, hr⟩ | ⟨r, -, -, -, hr⟩ | ⟨-, -, hr⟩
      · cases hr
      · exact .inr ⟨hvt, hl, hx⟩
      · cases hr
      · cases r <;> cases hr
      · cases hr
  rcases hcreator with hold | ⟨rfl, hl, rfl⟩
  · -- nobody comes to a node that is being created
    rcases h.role_step hran hwell hu with hu | ⟨rfl, hnew⟩
    · exact h.alone v u n ρ hold hne hu
    · rcases hnew with ⟨r, hl, rfl, -⟩ | ⟨hl, rfl, -⟩ | ⟨r, hrole, -⟩ | ⟨r, hl, -⟩ | ⟨hl, -⟩
      · simp only [wellBehaved, hl, decide_eq_true_eq] at hwell
        exact hwell v hold
      · simp only [wellBehaved, hl, decide_eq_true_eq] at hwell
        apply hwell v
        rw [hold]
        rfl
      · exact h.alone v u n _ hold hne hrole
      · apply h.alone v u n .ask hold hne
        rw [hl]
        rfl
      · apply h.alone v u n .ask hold hne
        rw [hl]
        rfl
  · -- nobody used the node
    simp only [wellBehaved, hl, decide_eq_true_eq] at hwell
    apply hwell u
    rw [← hran.loc_of_ne hne, hu]
    rfl

theorem MgrInv.step (h : MgrInv s) (hran : (mgrProgram τ ν spurious).Ran s t x s' notes st)
    {picks : List (Option τ)} (hkeep : keepsAccessOut s (.run t x picks) = true) : MgrInv s' := by
  simp only [keepsAccessOut, Bool.and_eq_true, Bool.not_eq_true'] at hkeep
  obtain ⟨⟨⟨hwell, hroom⟩, hread⟩, hwrite⟩ := hkeep
  exact
    { lists := h.lists.step hran
      counted := h.counted_step hran hroom
      honest := h.honest_step hran hwell
      settled := fun u r n s₁ hu => h.settled_step hran hu
      apart := fun v u n hv => h.apart_step hran hwell hread hwrite hv
      alone := fun v u n ρ hv hne => h.alone_step hran hwell hv hne }

theorem MgrInv.woken (h : MgrInv s) {c : ν × CrudCv} {l : MgrLoc ν}
    (hw : s.thr t = .waiting c l) : MgrInv ⟨s.mem, Function.update s.thr t (.notified c l)⟩ := by
  have hloc := loc_update_notified hw
  have hcounts : counts mgrWeight (Function.update s.thr t (.notified c l)) =
      counts mgrWeight s.thr := by
    exact counts_congr hloc
  constructor
  case lists => exact h.lists.woken hw
  case counted =>
    rw [hcounts]
    exact h.counted
  all_goals simp only [hloc, hcounts]
  case honest => exact h.honest
  case settled => exact h.settled
  case apart => exact h.apart
  case alone => exact h.alone

omit [DecidableEq τ] in
theorem mgrInv_of_start (h : MgrStart s) : MgrInv s := by
  obtain ⟨hinit, -, -, hidle⟩ := id h
  have hloc : ∀ t, (s.thr t).loc = .idle := by
    intro t
    rw [hidle]
    rfl
  constructor
  case lists => exact listInv_of_start h
  case counted =>
    have hzero : counts mgrWeight s.thr = fun _ _ => 0 := by
      funext n s₁
      apply tally_eq_zero.mpr
      intro t
      rw [hloc]
      rfl
    rw [hzero]
    exact hinit.counted
  case honest =>
    intro t
    rw [hloc]
    trivial
  case settled =>
    intro t r n st ht
    rw [hloc] at ht
    cases ht
  case apart =>
    intro t u n ht
    rw [hloc] at ht
    cases ht
  case alone =>
    intro t u n ρ ht
    rw [hloc] at ht
    cases ht

theorem mgrInv_reachable
    (h : (mgrMachine τ ν spurious).ReachableUnder (fun s a => keepsAccessOut s a = true) s) :
    MgrInv s := by
  apply Program.invariant _ _ _ h
  · exact fun s hs => mgrInv_of_start hs
  · intro s t x picks s' notes st hinv hkeep hran
    exact hinv.step hran hkeep
  · intro s t c l hinv _ hw
    exact hinv.woken hw

/-- **Deletion is exclusive** in runs in which no reader or writer passes its tests in the gap of a
deleter. -/
theorem delete_exclusive
    (h : (mgrMachine τ ν spurious).ReachableUnder (fun s a => keepsAccessOut s a = true) s) :
    DeleteExclusive s :=
  (mgrInv_reachable h).exclusive

end Inv

/-- A deleter waits for a writer, and has the node for itself. -/
theorem delete_exclusive_trace :
    ∃ s : MgrConfig (Fin 2) (Fin 1), DeleteExclusive s ∧
      (s.thr 0).loc.granted = some (.delete, 0) := by
  have hrun : ((mgrMachine (Fin 2) (Fin 1) false).execUnder (fun s a => keepsAccessOut s a)
      (freshMgrConfig (Fin 2) 1)
      (List.flatten [List.replicate 3 (.run 1 (.request .write 0) []),
        List.replicate 4 (.run 0 (.request .delete 0) []),
        List.replicate 2 (.run 1 (.request .write 0) []), [.run 1 (.request .write 0) [some 0]],
        List.replicate 7 (.run 0 (.request .delete 0) [])])).holds
      (fun s => decide ((s.thr 0).loc.granted = some (.delete, 0))) = true := by
    decide +kernel
  obtain ⟨s, hs, hp⟩ := Outcome.holds_iff.mp hrun
  have hreach := Machine.reachableUnder_of_execUnder (.init (freshMgrConfig_start _ 1)) hs
  exact ⟨s, delete_exclusive hreach, of_decide_eq_true hp⟩

/-- Thread 0 has left `pending_delete` and not yet entered `delete_in_progress` when thread 1 asks to
read the node.  Both are granted. -/
theorem delete_exclusive_fails :
    ∃ s : MgrConfig (Fin 2) (Fin 1),
      ((mgrMachine (Fin 2) (Fin 1) false).ReachableUnder fun s a => clientsBehave s a = true) s ∧
      (s.thr 0).loc.granted = some (.delete, 0) ∧ (s.thr 1).loc.granted = some (.read, 0) ∧
      ¬ DeleteExclusive s := by
  have hrun : ((mgrMachine (Fin 2) (Fin 1) false).execUnder (fun s a => clientsBehave s a)
      (freshMgrConfig (Fin 2) 1)
      (List.flatten [List.replicate 6 (.run 0 (.request .delete 0) []),
        List.replicate 2 (.run 1 (.request .read 0) []),
        [.run 0 (.request .delete 0) [], .run 1 (.request .read 0) []]])).holds
      (fun s => decide ((s.thr 0).loc.granted = some (.delete, 0) ∧
        (s.thr 1).loc.granted = some (.read, 0))) = true := by
    decide +kernel
  obtain ⟨s, hs, hp⟩ := Outcome.holds_iff.mp hrun
  have hreach := Machine.reachableUnder_of_execUnder (.init (freshMgrConfig_start _ 1)) hs
  obtain ⟨hdelete, hread⟩ := of_decide_eq_true hp
  exact ⟨s, hreach, hdelete, hread, fun hex => (hex 0 1 0 hdelete).1 hread⟩

end CrudMgr
end MultithreadingBible
