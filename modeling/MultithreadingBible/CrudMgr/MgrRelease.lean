import MultithreadingBible.CrudMgr.MgrExclusive
import MultithreadingBible.CrudMgr.MgrWakeUps

/-!
# CRUD manager: the release of a create or a delete

The release of a create or a delete leaves the state of its operation under the node's mutex, and goes
on under the manager's mutex, where it asserts that nothing is in progress.  Between the two it holds
neither mutex, and the test of another creator or deleter may succeed.

* `admitsAnother` — a test that succeeds there.
* `ReleaseInv` — the invariant of runs without such a test, and without requests in a deleter's gap.
* `release_never_aborts` — in such runs the assertions of the structural cases hold.
* `release_never_aborts_fails` — one that fails, because another creator was admitted.
-/

namespace MultithreadingBible
namespace CrudMgr

open Lib

variable {τ ν : Type*} [DecidableEq ν] [Fintype τ]

/-- The manager-level test of thread `t` succeeds while another thread is between the two critical
sections of a release. -/
def admitsAnother (s : MgrConfig τ ν) (t : τ) : Bool :=
  match (s.thr t).loc with
  | .mgrHead _ _ =>
      s.mem.crud.nothingInProgress && decide (∃ u, (s.thr u).loc.isReleasing = true)
  | _ => false

/-- No request slips into the gap of a deleter or between the sections of a release; the clients
behave well and no counter is pushed past 255. -/
def keepsReleasesSafe (s : MgrConfig τ ν) : Act τ (MgrCall ν) → Bool
  | .run t x picks =>
      keepsAccessOut s (.run t x picks) && !slipsIn .delete s t && !admitsAnother s t
  | .spurious _ => true

/-- No assertion fails in what is left of the release of a create or a delete. -/
def ReleasesSafely [DecidableEq τ] (spurious : Bool) (s : MgrConfig τ ν) : Prop :=
  ∀ t x picks, (s.thr t).loc.isReleasing = true →
    (mgrMachine τ ν spurious).step s (.run t x picks) ≠ .abort

/-- The invariant of the releases. -/
structure ReleaseInv (s : MgrConfig τ ν) : Prop where
  mgr : MgrInv s
  /-- A deleter that found its node free is the only one there that passed any test. -/
  solo : ∀ t u n ρ, (s.thr t).loc.role = some (n, .remove) → u ≠ t →
    (s.thr u).loc.role = some (n, ρ) → ρ = .ask
  /-- During a release nothing is in progress and nobody is about to change that. -/
  closing : ∀ t, (s.thr t).loc.isReleasing = true →
    s.mem.crud.nothingInProgress = true ∧ ∀ u, (s.thr u).loc.isAdmitted = false

omit [DecidableEq ν] [Fintype τ] in
/-- Where nothing is in progress, the second section passes its assertions. -/
theorem releaseMgrSection_ne_none {m : CrudMem ν} (h : m.nothingInProgress = true) :
    releaseMgrSection m ≠ none := by
  simp only [CrudMem.nothingInProgress, Bool.and_eq_true] at h
  obtain ⟨hcip, hdip⟩ := h
  simp only [releaseMgrSection, hcip, hdip, Bool.not_true, Bool.false_eq_true, if_false]
  split
  · simp
  · split <;> simp

section Moves

variable {t : τ} {x : MgrCall ν} {m m' : MgrMem τ ν} {l : MgrLoc ν}
  {notes : List (Note (ν × CrudCv))} {st : Status (ν × CrudCv) (MgrLoc ν)}
  {L L' : CrudNodeState → List ν}

omit [Fintype τ] in
/-- A release comes to its second section from the first, and to the rest of the first from the call
that left the state. -/
theorem MgrMove.releasing_of (hmove : MgrMove t x m l m' notes st)
    (h : st.loc.isReleasing = true) :
    l.isReleasing = true ∨ ∃ g op n, l = .releasing g op n ∧ op.isStructural = true := by
  cases hmove with
  | @release g op n => exact .inr ⟨g, op, n, rfl, h⟩
  | @tail currOp =>
      cases currOp with
      | create | delete => exact .inl rfl
      | read | write | opNone => cases h
  | @mgrTest op n =>
      cases op <;> simp only [CrudMgr.mgrTest, Status.loc_running] at h <;> split at h <;> cases h
  | _ => cases h

omit [Fintype τ] in
/-- A thread that was not admitted adds nothing to what is in progress. -/
theorem CallEffect.nothing_next [DecidableEq τ] {c : CrudMem ν} (h : CallEffect t m l L c L')
    (hL : Listed m.crud (fun _ => True) L) (hL' : Listed c (fun _ => True) L') (hd : l.Decided)
    (hadm : l.isAdmitted = false) (hnothing : m.crud.nothingInProgress = true) :
    c.nothingInProgress = true := by
  have hkeep : ∀ s, s = .createInProgress ∨ s = .deleteInProgress → L s = [] → L' s = [] := by
    intro s hs hnil
    rcases h.lists hd hs with hle | ⟨hyes, -⟩
    · rw [hnil] at hle
      exact List.length_eq_zero_iff.mp (Nat.le_zero.mp hle)
    · rw [hadm] at hyes
      cases hyes
  obtain ⟨hcip, hdip⟩ := hL.nothingInProgress.mp hnothing
  exact hL'.nothingInProgress.mpr ⟨hkeep _ (.inl rfl) hcip, hkeep _ (.inr rfl) hdip⟩

end Moves

section Inv

variable [DecidableEq τ] {spurious : Bool} {s s' : MgrConfig τ ν} {t u v : τ} {x : MgrCall ν}
  {n : ν} {ρ : Role} {notes : List (Note (ν × CrudCv))} {st : Status (ν × CrudCv) (MgrLoc ν)}

omit [DecidableEq τ] in
/-- A request that passes its tests on the node of a deleter finds the deleter in the gap. -/
theorem MgrInv.slipsIn_of_pass (h : MgrInv s) {r : NodeReq} (hu : (s.thr u).loc = .head r n)
    (hpass : (r.loop s.mem.crud n).passes = true)
    (hv : (s.thr v).loc.role = some (n, .remove)) : slipsIn r s u = true := by
  have hgap : (s.thr v).loc.isGap n = true := by
    by_cases hr : r = .delete
    · subst hr
      cases hloop : NodeReq.loop s.mem.crud n .delete with
      | leave =>
          have hne : v ≠ u := by
            rintro rfl
            rw [hu] at hv
            cases hv
          rcases MgrLoc.role_of_isHidden (h.hidden_of_leave hu hloop hne hv) with hrole | ⟨-, hgap⟩
          · rw [hv] at hrole
            cases hrole
          · exact hgap
      | block s₁ cv =>
          -- it waits for a reader or a writer, of which there is none
          exfalso
          obtain ⟨s₂, hs₂, hset, hallows⟩ := NodeReq.loop_block_access hloop
          obtain ⟨w, ρ, hw, hin⟩ := h.exists_role (h.counted.count_pos hs₂ hset)
          rw [hallows ρ hin] at hw
          exact h.apart v w n hv hw
      | grant s₁ => exact absurd rfl (NodeReq.loop_grant hloop).2.1
      | quit notes =>
          rw [hloop] at hpass
          cases hpass
      | fail =>
          rw [hloop] at hpass
          cases hpass
    · exact h.gap_of_pass hu hr hpass hv
  simp only [slipsIn, hu, hpass]
  simpa using ⟨v, hgap⟩

theorem ReleaseInv.solo_step (h : ReleaseInv s)
    (hran : (mgrProgram τ ν spurious).Ran s t x s' notes st) (hwell : wellBehaved s t x = true)
    (hslip : ∀ r, slipsIn r s t = false) (hv : (s'.thr v).loc.role = some (n, .remove))
    (hne : u ≠ v) (hu : (s'.thr u).loc.role = some (n, ρ)) : ρ = .ask := by
  rcases h.mgr.remove_step hran hwell hv with hold | ⟨rfl, hl, hloop⟩
  · rcases h.mgr.role_step hran hwell hu with hu | ⟨rfl, hnew⟩
    · exact h.solo v u n ρ hold hne hu
    · rcases hnew with ⟨-, -, -, hr⟩ | ⟨hl, rfl, -⟩ | ⟨-, -, hr⟩ | ⟨r, hl, hpass, -, -⟩ | ⟨hl, hloop, -⟩
      · exact hr
      · simp only [wellBehaved, hl, decide_eq_true_eq] at hwell
        exact absurd (by rw [hold]; rfl) (hwell v)
      · exact hr
      · have hyes := h.mgr.slipsIn_of_pass hl hpass hold
        rw [hslip r] at hyes
        cases hyes
      · have hyes := h.mgr.slipsIn_of_pass hl (by rw [hloop]; rfl) hold
        rw [hslip .delete] at hyes
        cases hyes
  · -- the node was free
    rw [hran.loc_of_ne hne] at hu
    rcases MgrLoc.role_of_isHidden (h.mgr.hidden_of_leave hl hloop hne hu) with hrole | ⟨hrole, -⟩
    · exfalso
      apply h.mgr.alone u v n .ask hrole hne.symm
      rw [hl]
      rfl
    · have hyes := h.mgr.slipsIn_of_pass hl (by rw [hloop]; rfl) hrole
      rw [hslip .delete] at hyes
      cases hyes

omit [DecidableEq τ] in
/-- A deleter or creator counts alone on its node. -/
theorem ReleaseInv.counts_eq (h : ReleaseInv s) (hρ : ρ = .remove ∨ ρ = .create)
    (ht : (s.thr t).loc.role = some (n, ρ)) (s₁ : CrudNodeState) :
    counts mgrWeight s.thr n s₁ = mgrWeight n s₁ (s.thr t).loc := by
  apply tally_eq_of_ne
  intro u hu
  by_contra hpos
  obtain ⟨ρ', hrole, hallows⟩ := MgrLoc.allows_of_weight (h.mgr.honest u) (Nat.pos_of_ne_zero hpos)
  rcases hρ with rfl | rfl
  · rw [h.solo t u n ρ' ht hu hrole] at hallows
    cases hallows
  · exact h.mgr.alone t u n ρ' ht hu hrole

/-- The role of a thread in the release of a create or a delete. -/
theorem role_of_isStructural {op : CrudOpType} (h : op.isStructural = true) :
    ∃ ρ, op.role = some ρ ∧ (ρ = .remove ∨ ρ = .create) ∧ ∃ s₁, releasedState op = some s₁ ∧
      (s₁ = .createInProgress ∨ s₁ = .deleteInProgress) := by
  cases op with
  | create => exact ⟨_, rfl, .inr rfl, _, rfl, .inl rfl⟩
  | delete => exact ⟨_, rfl, .inl rfl, _, rfl, .inr rfl⟩
  | read | write | opNone => cases h

/-- Leaving the state of the operation leaves nothing in progress. -/
theorem ReleaseInv.nothing_of_release (h : ReleaseInv s)
    (hran : (mgrProgram τ ν spurious).Ran s t x s' notes st) {g : Option CrudOpType}
    {op : CrudOpType} (hl : (s.thr t).loc = .releasing g op n) (hop : op.isStructural = true) :
    s'.mem.crud.nothingInProgress = true ∧ ∀ u, u ≠ t → (s.thr u).loc.isAdmitted = false := by
  have hmove := mgrMove_of_ran hran
  obtain ⟨L, hok⟩ := h.mgr.lists.lists
  obtain ⟨L', hlisted, heff⟩ :=
    hmove.callEffect (h.mgr.lists.owned.mgr t) (h.mgr.lists.decided t) hok.listed
  obtain ⟨ρ, hρ, hcases, s₁, hs₁, hstruct⟩ := role_of_isStructural hop
  have hrole : (s.thr t).loc.role = some (n, ρ) := by
    simp [hl, MgrLoc.role, hρ]
  have hgrant : g = some op := by
    have hhonest := h.mgr.honest t
    rw [hl] at hhonest
    exact hhonest.1
  have hweight : mgrWeight n s₁ (s.thr t).loc = 1 := by
    rw [hl, hgrant]
    simp [mgrWeight, MgrLoc.entries, hs₁]
  have hno : s₁ ≠ .noOp := releasedState_ne_noOp hs₁
  have hcounter : (s.mem.crud.node n).counter s₁ = 1 := by
    rw [h.mgr.counted.counter_eq n hno, h.counts_eq hcases hrole, hweight]
  have hexits : (s.thr t).loc.exits = some (n, s₁) := by
    simp [hl, MgrLoc.exits, hs₁]
  cases heff with
  | none he hx =>
      rw [hexits] at hx
      cases hx
  | enter hent =>
      rw [hl] at hent
      cases hent
  | @exit n' s₂ hx hno' hcall heff hlock =>
      rw [hexits] at hx
      cases hx
      have hmem := heff.mem
      have hlast := (heff.last hcounter).1
      have hone := hok.one
      have hpos := List.length_pos_of_mem hmem
      have herase := List.length_erase_of_mem hmem
      constructor
      · apply hlisted.nothingInProgress.mpr
        rcases hstruct with rfl | rfl
        · rw [hlast, heff.list_ne .deleteInProgress (by simp) (by simp)]
          exact ⟨List.length_eq_zero_iff.mp (by omega), List.length_eq_zero_iff.mp (by omega)⟩
        · rw [hlast, heff.list_ne .createInProgress (by simp) (by simp)]
          exact ⟨List.length_eq_zero_iff.mp (by omega), List.length_eq_zero_iff.mp (by omega)⟩
      · intro u _
        by_contra hadm
        obtain ⟨hcip, hdip⟩ := hok.admitted u (by simpa using hadm)
        rcases hstruct with rfl | rfl
        · rw [hcip] at hmem
          cases hmem
        · rw [hdip] at hmem
          cases hmem

theorem ReleaseInv.closing_step (h : ReleaseInv s)
    (hran : (mgrProgram τ ν spurious).Ran s t x s' notes st) (hadmits : admitsAnother s t = false)
    (hv : (s'.thr v).loc.isReleasing = true) :
    s'.mem.crud.nothingInProgress = true ∧ ∀ u, (s'.thr u).loc.isAdmitted = false := by
  have hmove := mgrMove_of_ran hran
  have hbefore : (∃ w, (s.thr w).loc.isReleasing = true) ∨
      ∃ g op n, (s.thr t).loc = .releasing g op n ∧ op.isStructural = true ∧ v = t := by
    by_cases hvt : v = t
    · rw [hvt, hran.self] at hv
      rcases hmove.releasing_of hv with hold | ⟨g, op, n, hl, hop⟩
      · exact .inl ⟨t, hold⟩
      · exact .inr ⟨g, op, n, hl, hop, hvt⟩
    · rw [hran.loc_of_ne hvt] at hv
      exact .inl ⟨v, hv⟩
  rcases hbefore with ⟨w, hw⟩ | ⟨g, op, n, hl, hop, rfl⟩
  · -- a release was under way
    obtain ⟨hnothing, hnobody⟩ := h.closing w hw
    constructor
    · obtain ⟨L, hok⟩ := h.mgr.lists.lists
      obtain ⟨L', hlisted, heff⟩ :=
        hmove.callEffect (h.mgr.lists.owned.mgr t) (h.mgr.lists.decided t) hok.listed
      exact heff.nothing_next hok.listed hlisted (h.mgr.lists.decided t) (hnobody t) hnothing
    · intro u
      by_cases hut : u = t
      · rw [hut, hran.self]
        by_contra hadm
        rcases hmove.admitted (by simpa using hadm) with ⟨-, op, n, hl⟩ | ⟨n, hl⟩
        · have hyes : admitsAnother s t = true := by
            simp only [admitsAnother, hl, hnothing]
            simpa using ⟨w, hw⟩
          rw [hadmits] at hyes
          cases hyes
        · have hyes := hnobody t
          rw [hl] at hyes
          cases hyes
      · rw [hran.loc_of_ne hut]
        exact hnobody u
  · -- it begins
    obtain ⟨hnothing, hnobody⟩ := h.nothing_of_release hran hl hop
    refine ⟨hnothing, fun u => ?_⟩
    by_cases hut : u = v
    · rw [hut]
      rw [hran.self] at hv ⊢
      cases hloc : st.loc <;> rw [hloc] at hv <;> first | rfl | cases hv
    · rw [hran.loc_of_ne hut]
      exact hnobody u hut

theorem ReleaseInv.step (h : ReleaseInv s) (hran : (mgrProgram τ ν spurious).Ran s t x s' notes st)
    {picks : List (Option τ)} (hkeep : keepsReleasesSafe s (.run t x picks) = true) :
    ReleaseInv s' := by
  simp only [keepsReleasesSafe, Bool.and_eq_true, Bool.not_eq_true'] at hkeep
  obtain ⟨⟨hkeep, hdelete⟩, hadmits⟩ := hkeep
  have hparts := hkeep
  simp only [keepsAccessOut, Bool.and_eq_true, Bool.not_eq_true'] at hparts
  obtain ⟨⟨⟨hwell, -⟩, hread⟩, hwrite⟩ := hparts
  have hslip : ∀ r, slipsIn r s t = false := by
    intro r
    cases r with
    | read => exact hread
    | write => exact hwrite
    | delete => exact hdelete
  exact
    { mgr := h.mgr.step hran hkeep
      solo := fun v u n ρ hv hne hu => h.solo_step hran hwell hslip hv hne hu
      closing := fun v hv => h.closing_step hran hadmits hv }

theorem ReleaseInv.woken (h : ReleaseInv s) {c : ν × CrudCv} {l : MgrLoc ν}
    (hw : s.thr t = .waiting c l) : ReleaseInv ⟨s.mem, Function.update s.thr t (.notified c l)⟩ := by
  have hloc := loc_update_notified hw
  constructor
  case mgr => exact h.mgr.woken hw
  all_goals simp only [hloc]
  case solo => exact h.solo
  case closing => exact h.closing

omit [DecidableEq τ] in
theorem releaseInv_of_start (h : MgrStart s) : ReleaseInv s := by
  have hidle := h.2.2.2
  constructor
  case mgr => exact mgrInv_of_start h
  case solo =>
    intro t u n ρ ht
    rw [hidle] at ht
    cases ht
  case closing =>
    intro t ht
    rw [hidle] at ht
    cases ht

/-- With the invariant the assertions hold. -/
theorem ReleaseInv.releasesSafely (h : ReleaseInv s) (spurious : Bool) :
    ReleasesSafely spurious s := by
  intro t x picks hrel habort
  obtain ⟨-, hexec⟩ := Program.exec_of_abort habort
  obtain ⟨hnothing, -⟩ := h.closing t hrel
  cases hl : (s.thr t).loc with
  | releaseTail op n =>
      -- the node is in no state
      rw [hl] at hrel hexec
      obtain ⟨ρ, hρ, hcases, -⟩ := role_of_isStructural hrel
      have hrole : (s.thr t).loc.role = some (n, ρ) := by
        simp [hl, MgrLoc.role, hρ]
      obtain ⟨L, hmem⟩ := h.mgr.counted.mem
      have hunused : (s.mem.crud.node n).inUse = false := by
        rw [Bool.eq_false_iff, ne_eq, hmem.inUse_iff trivial, not_not, total_eq_zero]
        intro s₁ _
        rw [h.counts_eq hcases hrole, hl]
        rfl
      rcases Effect.call_eq_abort.mp hexec with htail | ⟨notes, -, hdone⟩
      · cases op with
        | create | delete => simp [releaseNodeTail, hunused] at htail
        | read | write | opNone => cases hrel
      · cases hdone
  | releaseMgr =>
      rw [hl] at hexec
      simp only [mgrProgram, mgrExec] at hexec
      split at hexec
      · cases hexec
      · rcases Effect.call_eq_abort.mp hexec with hsec | ⟨notes, -, hdone⟩
        · exact releaseMgrSection_ne_none hnothing hsec
        · cases hdone
  | _ =>
      rw [hl] at hrel
      cases hrel

/-- **Releasing a create or a delete never aborts** in runs in which no request slips into the gap of a
deleter, and no creator or deleter is admitted between the two critical sections of a release. -/
theorem release_never_aborts
    (h : (mgrMachine τ ν spurious).ReachableUnder (fun s a => keepsReleasesSafe s a = true) s) :
    ReleasesSafely spurious s := by
  have hinv : ReleaseInv s := by
    apply Program.invariant _ _ _ h
    · exact fun s hs => releaseInv_of_start hs
    · intro s t x picks s' notes st hinv hkeep hran
      exact hinv.step hran hkeep
    · intro s t c l hinv _ hw
      exact hinv.woken hw
  exact hinv.releasesSafely spurious

end Inv

/-- The creator of one node releases it while the creator of another waits. -/
theorem release_never_aborts_trace :
    ∃ s : MgrConfig (Fin 2) (Fin 2), ReleasesSafely false s ∧
      (s.thr 0).loc.isReleasing = true ∧ blockedAtMgr s 1 = true := by
  have hrun : ((mgrMachine (Fin 2) (Fin 2) false).execUnder (fun s a => keepsReleasesSafe s a)
      (freshMgrConfig (Fin 2) 2)
      (List.flatten [List.replicate 3 (.run 0 (.create 0) []),
        List.replicate 4 (.run 1 (.create 1) []), List.replicate 3 (.run 0 (.create 0) [])])).holds
      (fun s => decide ((s.thr 0).loc.isReleasing = true ∧ blockedAtMgr s 1 = true)) = true := by
    decide +kernel
  obtain ⟨s, hs, hp⟩ := Outcome.holds_iff.mp hrun
  have hreach := Machine.reachableUnder_of_execUnder (.init (freshMgrConfig_start _ 2)) hs
  exact ⟨s, release_never_aborts hreach, of_decide_eq_true hp⟩

/-- Thread 0 has released node 0 and not yet locked the manager's mutex when thread 1 is granted to
create node 1. -/
theorem release_never_aborts_fails :
    ∃ s : MgrConfig (Fin 2) (Fin 2),
      ((mgrMachine (Fin 2) (Fin 2) false).ReachableUnder fun s a => clientsBehave s a = true) s ∧
      (s.thr 0).loc.isReleasing = true ∧
      (mgrMachine (Fin 2) (Fin 2) false).step s (.run 0 (.create 0) []) = .abort ∧
      ¬ ReleasesSafely false s := by
  have hrun : ((mgrMachine (Fin 2) (Fin 2) false).execUnder (fun s a => clientsBehave s a)
      (freshMgrConfig (Fin 2) 2)
      (List.flatten [List.replicate 6 (.run 0 (.create 0) []),
        List.replicate 3 (.run 1 (.create 1) [])])).holds
      (fun s => (s.thr 0).loc.isReleasing &&
        ((mgrMachine (Fin 2) (Fin 2) false).step s (.run 0 (.create 0) [])).isAbort) = true := by
    decide +kernel
  obtain ⟨s, hs, hp⟩ := Outcome.holds_iff.mp hrun
  have hreach := Machine.reachableUnder_of_execUnder (.init (freshMgrConfig_start _ 2)) hs
  rw [Bool.and_eq_true] at hp
  have habort := Outcome.isAbort_iff.mp hp.2
  exact ⟨s, hreach, hp.1, habort, fun hsafe => hsafe 0 (.create 0) [] hp.1 habort⟩

end CrudMgr
end MultithreadingBible
