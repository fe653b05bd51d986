import MultithreadingBible.CrudMgr.Represent

/-!
# CRUD manager: what a call does to flags and lists

`Entered` and `Exited` describe the two functions on a memory whose counters are in step with its
flags.  Without that, for clients that release what they do not hold or push counters past 255, the
calls that return still edit the manager's lists in an orderly way, because they verify the node's
glue first.  `EnterEffect` and `ExitEffect` say what is left to rely on: which lists change, and that
the flags and counters of the other states and the other nodes do not.
-/

namespace MultithreadingBible
namespace CrudMgr

open GlueThread

variable {ν : Type*}

/-- Flags and counters are the same, but for state `s` of node `n` and for `no_op`. -/
structure SameBut (nd nd' : ν → CrudNode) (n : ν) (s : CrudNodeState) : Prop where
  status : ∀ n' s', s' ≠ .noOp → (n' = n → s' ≠ s) →
    (nd' n').isStatusSet s' = (nd n').isStatusSet s'
  counter : ∀ n' s', s' ≠ .noOp → (n' = n → s' ≠ s) → (nd' n').counter s' = (nd n').counter s'

/-- What a successful `crud_node_enter_state` does to flags, counters and lists. -/
structure EnterEffect (m m' : CrudMem ν) (live : ν → Prop) (L L' : CrudNodeState → List ν) (n : ν)
    (s : CrudNodeState) : Prop where
  listed : Listed m' live L'
  /-- A redundant entry leaves the list alone; a state that excludes others has none. -/
  again : (m.node n).isStatusSet s = true → s.isExclusive = false ∧ L' s = L s
  /-- A first entry links the node, which was not linked, and starts counting. -/
  first : (m.node n).isStatusSet s = false →
    n ∉ L s ∧ L' s = n :: L s ∧ (m'.node n).counter s = 1
  status : (m'.node n).isStatusSet s = true
  same : SameBut m.node m'.node n s
  list_ne : ∀ s', s' ≠ s → s' ≠ .noOp → L' s' = L s'

/-- What a successful `crud_node_exit_state` does to flags, counters and lists. -/
structure ExitEffect [DecidableEq ν] (m m' : CrudMem ν) (live : ν → Prop)
    (L L' : CrudNodeState → List ν) (n : ν) (s : CrudNodeState) : Prop where
  listed : Listed m' live L'
  mem : n ∈ L s
  list_or : L' s = L s ∨ L' s = (L s).erase n
  /-- While others remain the node stays linked. -/
  stays : ((m.node n).counter s - 1) % 256 ≠ 0 → L' s = L s
  /-- The last exit unlinks the node. -/
  last : (m.node n).counter s = 1 → L' s = (L s).erase n ∧
    (m'.node n).isStatusSet s = false ∧ (m'.node n).counter s = 0
  same : SameBut m.node m'.node n s
  list_ne : ∀ s', s' ≠ s → s' ≠ .noOp → L' s' = L s'

section Calls

variable {m m' : CrudMem ν} {live : ν → Prop} {L : CrudNodeState → List ν} {n : ν}
  {s : CrudNodeState}

theorem SameBut.trans {nd nd₁ nd₂ : ν → CrudNode} (h : SameBut nd nd₁ n s)
    (h₁ : SameBut nd₁ nd₂ n s) : SameBut nd nd₂ n s where
  status n' s' hs' hne := (h₁.status n' s' hs' hne).trans (h.status n' s' hs' hne)
  counter n' s' hs' hne := (h₁.counter n' s' hs' hne).trans (h.counter n' s' hs' hne)

/-- What only `no_op` of a node sees is not seen by the other states. -/
theorem SameBut.of_noOp {nd nd' : ν → CrudNode} (h : SameBut nd nd' n .noOp) (s : CrudNodeState) :
    SameBut nd nd' n s where
  status n' s' hs' _ := h.status n' s' hs' fun _ => hs'
  counter n' s' hs' _ := h.counter n' s' hs' fun _ => hs'

theorem verify_present_iff : crudNodeStateVerify m n s true = true ↔
    (m.node n).isStatusSet s = true ∧ 0 < (m.node n).counter s ∧ m.isGlueEmpty n s = false := by
  simp [crudNodeStateVerify, and_assoc]

theorem verify_absent_iff : crudNodeStateVerify m n s false = true ↔
    (m.node n).isStatusSet s = false ∧ (m.node n).counter s = 0 ∧ m.isGlueEmpty n s = true := by
  simp [crudNodeStateVerify, and_assoc]

/-- A node whose glue is not empty is linked. -/
theorem Listed.mem_of_verify (h : Listed m live L) (hn : live n)
    (hverify : crudNodeStateVerify m n s true = true) : n ∈ L s := by
  have hglue := (verify_present_iff.mp hverify).2.2
  by_contra hno
  rw [(h.isGlueEmpty_iff hn s).mpr hno] at hglue
  cases hglue

theorem Listed.notMem_of_verify (h : Listed m live L) (hn : live n)
    (hverify : crudNodeStateVerify m n s false = true) : n ∉ L s := by
  apply (h.isGlueEmpty_iff hn s).mp
  exact (verify_absent_iff.mp hverify).2.2

variable [DecidableEq ν]

theorem sameBut_setNode {nd : CrudNode}
    (hstatus : ∀ s', s' ≠ s → nd.isStatusSet s' = (m.node n).isStatusSet s')
    (hcounter : ∀ s', s' ≠ s → nd.counter s' = (m.node n).counter s') :
    SameBut m.node (m.setNode n nd).node n s where
  status n' s' _ hne := by
    by_cases hn : n' = n
    · subst hn
      rw [CrudMem.setNode_node]
      exact hstatus s' (hne rfl)
    · rw [CrudMem.setNode_node_of_ne _ hn]
  counter n' s' _ hne := by
    by_cases hn : n' = n
    · subst hn
      rw [CrudMem.setNode_node]
      exact hcounter s' (hne rfl)
    · rw [CrudMem.setNode_node_of_ne _ hn]

theorem sameBut_setCounter (c : Nat) :
    SameBut m.node (m.setNode n ((m.node n).setCounter s c)).node n s :=
  sameBut_setNode (fun s' _ => rfl) fun s' hs' => by simp [CrudNode.setCounter, hs']

theorem sameBut_firstEntry : SameBut m.node (m.setNode n (firstEntry (m.node n) s)).node n s :=
  sameBut_setNode (fun s' hs' => by simp [CrudNode.isStatusSet, hs']) fun s' hs' => by simp [hs']

theorem sameBut_lastExit : SameBut m.node (m.setNode n (lastExit (m.node n) s)).node n s :=
  sameBut_setNode (fun s' hs' => by simp [CrudNode.isStatusSet, hs']) fun s' hs' => by simp [hs']

/-- The two ways an entry can return. -/
theorem enterState_cases (he : crudNodeEnterState m n s = some m') :
    ((m.node n).isStatusSet s = true ∧ s.isExclusive = false ∧
      m' = m.setNode n ((m.node n).setCounter s ((m.node n).counter s + 1))) ∨
    crudNodeStateVerify m n s false = true := by
  by_cases hset : (m.node n).isStatusSet s = true
  · rw [crudNodeEnterState, enterStateBody, if_pos hset] at he
    split at he
    · cases he
    · next hex => exact .inl ⟨hset, by simpa using hex, (Option.some.inj he).symm⟩
  · rw [crudNodeEnterState, enterStateBody, if_neg hset] at he
    split at he
    · cases he
    · next hverify => exact .inr (by simpa using hverify)

/-- The two ways an exit can return. -/
theorem exitState_cases (hx : crudNodeExitState m n s = some m') :
    crudNodeStateVerify m n s true = true ∧
      (((m.node n).counter s - 1) % 256 ≠ 0 ∧
        m' = m.setNode n ((m.node n).setCounter s ((m.node n).counter s - 1)) ∨
      ((m.node n).counter s - 1) % 256 = 0) := by
  rw [crudNodeExitState, exitStateBody] at hx
  split at hx
  · cases hx
  · next hverify =>
    refine ⟨by simpa using hverify, ?_⟩
    by_cases hone : ((m.node n).counter s - 1) % 256 = 0
    · exact .inr hone
    · rw [if_pos (by simpa [CrudNode.setCounter] using hone)] at hx
      exact .inl ⟨hone, (Option.some.inj hx).symm⟩

/-- Leaving `no_op` inside an entry into `s`, which keeps the node in use. -/
theorem exitNoOp_effect (h : Listed m live L) (hn : live n) (hs : s ≠ .noOp)
    (hset : (m.node n).isStatusSet s = true) (hx : crudNodeExitState m n .noOp = some m') :
    ∃ L', Listed m' live L' ∧ (∀ s', s' ≠ .noOp → L' s' = L s') ∧
      SameBut m.node m'.node n .noOp := by
  obtain ⟨hverify, ⟨-, rfl⟩ | hone⟩ := exitState_cases hx
  · exact ⟨L, h.setNode n _, fun _ _ => rfl, sameBut_setCounter _⟩
  · have huse : (lastExit (m.node n) .noOp).inUse = true := by
      rw [CrudNode.inUse_iff]
      exact ⟨s, hs, by simpa [hs, CrudNode.isStatusSet] using hset⟩
    rw [exitState_one hverify hone, if_neg (by simp [huse])] at hx
    cases hx
    refine ⟨_, (h.setNode n _).removeFromList (h.mem_of_verify hn hverify), fun s' hs' => ?_, ?_⟩
    · exact Function.update_of_ne hs' ..
    · exact sameBut_lastExit

/-- Entering `no_op` at the end of an exit. -/
theorem enterNoOp_effect (h : Listed m live L) (hn : live n) (he : enterNoOp m n = some m') :
    ∃ L', Listed m' live L' ∧ (∀ s', s' ≠ .noOp → L' s' = L s') ∧
      SameBut m.node m'.node n .noOp := by
  rw [← crudNodeEnterState_noOp] at he
  obtain ⟨-, hex, -⟩ | hverify := enterState_cases he
  · cases hex
  · rw [enterState_first (verify_absent_iff.mp hverify).1 hverify, if_neg (by simp)] at he
    cases he
    refine ⟨_, (h.setNode n _).addToList hn (h.notMem_of_verify hn hverify), fun s' hs' => ?_, ?_⟩
    · exact Function.update_of_ne hs' ..
    · exact sameBut_firstEntry

/-- **Entering a state, whatever the counters say.** -/
theorem Listed.enter (h : Listed m live L) (hn : live n) (hs : s ≠ .noOp)
    (he : crudNodeEnterState m n s = some m') : ∃ L', EnterEffect m m' live L L' n s := by
  obtain ⟨hset, hex, rfl⟩ | hverify := enterState_cases he
  · refine ⟨L, h.setNode n _, fun _ => ⟨hex, rfl⟩, fun hno => ?_, ?_, sameBut_setCounter _,
      fun _ _ _ => rfl⟩
    · rw [hset] at hno
      cases hno
    · simpa [CrudNode.isStatusSet, CrudNode.setCounter] using hset
  · have hunset := (verify_absent_iff.mp hverify).1
    have hfree := h.notMem_of_verify hn hverify
    have hlisted := (h.setNode n (firstEntry (m.node n) s)).addToList hn hfree
    have hagain : ¬ (m.node n).isStatusSet s = true := by simp [hunset]
    rw [enterState_first hunset hverify] at he
    split at he
    · -- the node leaves `no_op` on the way
      obtain ⟨L', hL', hlists, hsame⟩ :=
        exitNoOp_effect hlisted hn hs (by simp [CrudNode.isStatusSet]) he
      have hother := hsame.of_noOp .noOp
      refine ⟨L', hL', fun hset => absurd hset hagain, fun _ => ⟨hfree, ?_, ?_⟩, ?_, ?_, ?_⟩
      · rw [hlists s hs, Function.update_self]
      · rw [hother.counter n s hs fun _ => hs]
        simp
      · rw [hother.status n s hs fun _ => hs]
        simp [CrudNode.isStatusSet]
      · exact sameBut_firstEntry.trans (hsame.of_noOp s)
      · intro s' hss hs'
        rw [hlists s' hs', Function.update_of_ne hss]
    · cases he
      refine ⟨_, hlisted, fun hset => absurd hset hagain, fun _ => ⟨hfree, by simp, by simp⟩, ?_,
        sameBut_firstEntry, ?_⟩
      · simp [CrudNode.isStatusSet]
      · intro s' hss _
        exact Function.update_of_ne hss ..

/-- **Leaving a state, whatever the counters say.** -/
theorem Listed.exit (h : Listed m live L) (hn : live n) (hs : s ≠ .noOp)
    (hx : crudNodeExitState m n s = some m') : ∃ L', ExitEffect m m' live L L' n s := by
  obtain ⟨hverify, hcount⟩ := exitState_cases hx
  have hmem := h.mem_of_verify hn hverify
  obtain ⟨hmany, rfl⟩ | hzero := hcount
  · refine ⟨L, h.setNode n _, hmem, .inl rfl, fun _ => rfl, fun hone => ?_, sameBut_setCounter _,
      fun _ _ _ => rfl⟩
    simp [hone] at hmany
  · have hlisted := (h.setNode n (lastExit (m.node n) s)).removeFromList hmem
    have hlist : Function.update L s ((L s).erase n) s = (L s).erase n := Function.update_self ..
    rw [exitState_one hverify hzero] at hx
    split at hx
    · -- nothing else is left: the node goes back to `no_op`
      obtain ⟨m₁, hm₁, rfl⟩ := Option.map_eq_some_iff.mp hx
      obtain ⟨L', hL', hlists, hsame⟩ := enterNoOp_effect hlisted hn hm₁
      -- the assignment to `curr_op` is invisible here
      have hlast : SameBut m₁.node
          (m₁.setNode n { m₁.node n with currOp := .opNone }).node n .noOp :=
        sameBut_setNode (fun _ _ => rfl) fun _ _ => rfl
      have hafter := hsame.trans hlast
      refine ⟨L', hL'.setNode n _, hmem, .inr ?_, absurd hzero, fun _ => ⟨?_, ?_, ?_⟩, ?_, ?_⟩
      · rw [hlists s hs, hlist]
      · rw [hlists s hs, hlist]
      · rw [hafter.status n s hs fun _ => hs]
        simp [CrudNode.isStatusSet]
      · rw [hafter.counter n s hs fun _ => hs]
        simpa using hzero
      · exact sameBut_lastExit.trans (hafter.of_noOp s)
      · intro s' hss hs'
        rw [hlists s' hs', Function.update_of_ne hss]
    · cases hx
      refine ⟨_, hlisted, hmem, .inr hlist, absurd hzero, fun _ => ⟨hlist, ?_, ?_⟩, sameBut_lastExit,
        ?_⟩
      · simp [CrudNode.isStatusSet]
      · simpa using hzero
      · intro s' hss _
        exact Function.update_of_ne hss ..

end Calls

end CrudMgr
end MultithreadingBible
