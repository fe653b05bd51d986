import MultithreadingBible.CrudMgr.Decisions
import MultithreadingBible.CrudMgr.Lifecycle

/-!
# CRUD manager: counting the threads in each state

`Counted m c` says that the memory `m` counts `c n s` threads in state `s` of node `n`, for every node
and state, and that `curr_op` of each node names the one kind of operation in progress there.
`Counted.enter` and `Counted.exit` are the two functions as seen by the machines: one more, one fewer.

The counts of a machine are sums over its threads: each location contributes a fixed amount, and a
step replaces the contribution of one location by that of another (`moved`).
-/

namespace MultithreadingBible
namespace CrudMgr

open Lib

variable {ν : Type*} {m m' : CrudMem ν} {n : ν} {s : CrudNodeState} {live : ν → Prop}
  {c c' : ν → CrudNodeState → Nat} {L L' : CrudNodeState → List ν}

/-- `curr_op` names the kind of operation in progress, of which there is at most one. -/
structure OpOk (nd : CrudNode) (c : CrudNodeState → Nat) : Prop where
  op : ∀ op s, releasedState op = some s → 0 < c s → nd.currOp = op
  none : (∀ op s, releasedState op = some s → c s = 0) → nd.currOp = .opNone

theorem OpOk.congr {nd : CrudNode} {c c' : CrudNodeState → Nat} (h : OpOk nd c)
    (hc : ∀ op s, releasedState op = some s → c' s = c s) : OpOk nd c' where
  op op s hs hpos := h.op op s hs (by rw [← hc op s hs]; exact hpos)
  none hall := h.none fun op s hs => by rw [← hc op s hs]; exact hall op s hs

theorem releasedState_inj {op op' : CrudOpType} (h : releasedState op = some s)
    (h' : releasedState op' = some s) : op = op' := by
  cases op <;> cases op' <;> simp_all [releasedState] <;> cases h.trans h'.symm

theorem NodeReq.releasedState_ne_pendingState {op : CrudOpType} (r : NodeReq) :
    releasedState op ≠ some r.pendingState := by
  cases op <;> cases r <;> simp [releasedState, pendingState]

theorem pending_cases (hno : s ≠ .noOp) (hs : ∀ op, releasedState op ≠ some s) :
    s = .pendingRead ∨ s = .pendingWrite ∨ s = .pendingDelete ∨ s = .pendingCreate := by
  cases s with
  | pendingRead | pendingWrite | pendingDelete | pendingCreate => simp
  | readInProgress => exact absurd rfl (hs .read)
  | writeInProgress => exact absurd rfl (hs .write)
  | deleteInProgress => exact absurd rfl (hs .delete)
  | createInProgress => exact absurd rfl (hs .create)
  | noOp => exact absurd rfl hno

theorem currOpOnEnter_pending {op : CrudOpType} (hno : s ≠ .noOp)
    (hs : ∀ op, releasedState op ≠ some s) : currOpOnEnter s op = op := by
  rcases pending_cases hno hs with rfl | rfl | rfl | rfl <;> rfl

theorem currOpOnEnter_op {op op' : CrudOpType} (hs : releasedState op = some s) :
    currOpOnEnter s op' = op := by
  cases op <;> simp only [releasedState, reduceCtorEq, Option.some.injEq] at hs <;> subst hs <;> rfl

theorem currOpOnExit_op {op op' : CrudOpType} (hs : releasedState op = some s) :
    currOpOnExit s op' = .opNone := by
  cases op <;> simp only [releasedState, reduceCtorEq, Option.some.injEq] at hs <;> subst hs <;> rfl

theorem currOpOnExit_pending {op : CrudOpType} (hno : s ≠ .noOp)
    (hs : ∀ op, releasedState op ≠ some s) : currOpOnExit s op = op := by
  rcases pending_cases hno hs with rfl | rfl | rfl | rfl <;> rfl

section Calls

variable [DecidableEq ν]

/-- The represented counts after a successful entry, in any form that agrees with it. -/
theorem Entered.memOk (h : Entered m m' live c L L' n s)
    (hc : ∀ n' s', s' ≠ .noOp → c' n' s' = c n' s' + if n' = n ∧ s' = s then 1 else 0) :
    MemOk m' live c' L' := by
  refine h.ok.congr fun n' s' hs' => ?_
  rw [hc n' s' hs']
  by_cases hn : n' = n
  · subst hn
    by_cases hs : s' = s
    · subst hs; simp [entered]
    · simp [entered, hs]
  · simp [hn]

/-- The represented counts after a successful exit, in any form that agrees with it. -/
theorem Exited.memOk (h : Exited m m' live c L L' n s) (hpos : 0 < c n s)
    (hc : ∀ n' s', s' ≠ .noOp → c n' s' = c' n' s' + if n' = n ∧ s' = s then 1 else 0) :
    MemOk m' live c' L' := by
  refine h.ok.congr fun n' s' hs' => ?_
  have heq := hc n' s' hs'
  by_cases hn : n' = n
  · subst hn
    by_cases hs : s' = s
    · subst hs
      simp only [and_self, if_true] at heq
      simp only [Function.update_self, exited]
      omega
    · simp_all [exited]
  · simp_all

/-- Entering an operation's state where no other kind is in progress. -/
theorem Entered.opOk {op : CrudOpType} (h : Entered m m' live c L L' n s)
    (hop : OpOk (m.node n) (c n)) (hs : releasedState op = some s)
    (honly : ∀ op' s', releasedState op' = some s' → 0 < c n s' → op' = op)
    (hself : c' n s = c n s + 1)
    (hother : ∀ s', s' ≠ .noOp → s' ≠ s → c' n s' = c n s') :
    OpOk (m'.node n) (c' n) where
  op op' s' hs' hpos := by
    have hcur : (m'.node n).currOp = op := by
      rw [h.currOp]
      split
      · exact currOpOnEnter_op hs
      · exact hop.op op s hs (by omega)
    rw [hcur]
    by_cases hss : s' = s
    · subst hss; exact releasedState_inj hs hs'
    · refine (honly op' s' hs' ?_).symm
      rw [← hother s' (releasedState_ne_noOp hs') hss]; exact hpos
  none hzero := by
    have := hzero op s hs
    omega

/-- Entering a pending state does not touch `curr_op`. -/
theorem Entered.opOk_pending (h : Entered m m' live c L L' n s) (hop : OpOk (m.node n) (c n))
    (hno : s ≠ .noOp) (hs : ∀ op, releasedState op ≠ some s)
    (hother : ∀ s', s' ≠ .noOp → s' ≠ s → c' n s' = c n s') : OpOk (m'.node n) (c' n) := by
  have hsame : ∀ op s', releasedState op = some s' → c' n s' = c n s' := fun op s' hs' =>
    hother s' (releasedState_ne_noOp hs') fun hss => hs op (hss ▸ hs')
  have hcur : (m'.node n).currOp = (m.node n).currOp := by
    rw [h.currOp, currOpOnEnter_pending hno hs, ite_self]
  have hop' := hop.congr hsame
  exact ⟨fun op s' hs' hpos => hcur ▸ hop'.op op s' hs' hpos, fun hall => hcur ▸ hop'.none hall⟩

/-- Leaving any state. -/
theorem Exited.opOk (h : Exited m m' live c L L' n s) (hop : OpOk (m.node n) (c n))
    (hno : s ≠ .noOp) (hself : c n s = c' n s + 1)
    (hother : ∀ s', s' ≠ .noOp → s' ≠ s → c' n s' = c n s') : OpOk (m'.node n) (c' n) := by
  by_cases hlast : c n s = 1
  · -- the state is left for good
    have hzero : c' n s = 0 := by omega
    have hexited : ∀ s', s' ≠ .noOp → exited (c n) s s' = c' n s' := fun s' hs' => by
      by_cases hss : s' = s
      · subst hss; simp only [exited, Function.update_self]; omega
      · simp [exited, hss, hother s' hs' hss]
    have hcur := h.currOp
    rw [if_pos hlast] at hcur
    by_cases hs : ∃ op, releasedState op = some s
    · obtain ⟨op, hs⟩ := hs
      rw [currOpOnExit_op hs, ite_self] at hcur
      -- it was the one operation in progress, so nothing is now
      have hnone : ∀ op' s', releasedState op' = some s' → c' n s' = 0 := by
        intro op' s' hs'
        by_cases hss : s' = s
        · rw [hss, hzero]
        · by_contra hne
          have hpos : 0 < c n s' := by
            rw [← hother s' (releasedState_ne_noOp hs') hss]; omega
          have heq : op' = op :=
            (hop.op op' s' hs' hpos).symm.trans (hop.op op s hs (by omega))
          subst heq
          exact hss (Option.some.inj (hs'.symm.trans hs))
      constructor
      · intro op' s' hs' hpos
        have := hnone op' s' hs'
        omega
      · intro _; exact hcur
    · -- a pending state was left: the operation in progress stays on record
      have hs' : ∀ op, releasedState op ≠ some s := fun op h => hs ⟨op, h⟩
      rw [currOpOnExit_pending hno hs'] at hcur
      have hsame : ∀ op s', releasedState op = some s' → c' n s' = c n s' := fun op s' h =>
        hother s' (releasedState_ne_noOp h) fun hss => hs' op (hss ▸ h)
      constructor
      · intro op s' h' hpos
        have htot : total (exited (c n) s) ≠ 0 := by
          intro hz
          have := total_eq_zero.mp hz s' (releasedState_ne_noOp h')
          rw [hexited s' (releasedState_ne_noOp h')] at this
          omega
        rw [hcur, if_neg htot]
        exact hop.op op s' h' (by rw [← hsame op s' h']; exact hpos)
      · intro hall
        rw [hcur]
        split
        · rfl
        · exact hop.none fun op s' h' => by rw [← hsame op s' h']; exact hall op s' h'
  · -- somebody else stays in it
    have hcur : (m'.node n).currOp = (m.node n).currOp := by rw [h.currOp, if_neg hlast]
    constructor
    · intro op s' hs' hpos
      rw [hcur]
      by_cases hss : s' = s
      · subst hss; exact hop.op op s' hs' (by omega)
      · refine hop.op op s' hs' ?_
        rw [← hother s' (releasedState_ne_noOp hs') hss]; exact hpos
    · intro hall
      rw [hcur]
      refine hop.none fun op s' hs' => ?_
      have := hall op s' hs'
      by_cases hss : s' = s
      · subst hss; omega
      · rw [← hother s' (releasedState_ne_noOp hs') hss]; exact this

end Calls

/-- An entry into `state` does not push its counter past 255. -/
def CrudNode.hasRoom (crudNode : CrudNode) (state : CrudNodeState) : Bool :=
  !crudNode.isStatusSet state || decide (crudNode.counter state < 255)

/-- The memory counts `c n s` threads in every state `s` of every node `n`. -/
structure Counted (m : CrudMem ν) (c : ν → CrudNodeState → Nat) : Prop where
  mem : ∃ L, MemOk m (fun _ => True) c L
  op : ∀ n, OpOk (m.node n) (c n)

namespace Counted

theorem congr (h : Counted m c) (hc : ∀ n s, s ≠ .noOp → c' n s = c n s) : Counted m c' := by
  obtain ⟨L, hmem⟩ := h.mem
  exact ⟨⟨L, hmem.congr hc⟩, fun n => (h.op n).congr fun op s hs =>
    hc n s (releasedState_ne_noOp hs)⟩

theorem isStatusSet_eq (h : Counted m c) (n : ν) (hs : s ≠ .noOp) :
    (m.node n).isStatusSet s = decide (0 < c n s) := by
  obtain ⟨L, hmem⟩ := h.mem
  exact hmem.isStatusSet_eq trivial hs

theorem count_zero (h : Counted m c) (hs : s ≠ .noOp) (hset : (m.node n).isStatusSet s = false) :
    c n s = 0 := by
  obtain ⟨L, hmem⟩ := h.mem
  exact hmem.count_zero trivial hs hset

theorem count_pos (h : Counted m c) (hs : s ≠ .noOp) (hset : (m.node n).isStatusSet s = true) :
    0 < c n s := by
  obtain ⟨L, hmem⟩ := h.mem
  exact hmem.count_pos trivial hs hset

theorem counter_eq (h : Counted m c) (n : ν) (hs : s ≠ .noOp) : (m.node n).counter s = c n s := by
  obtain ⟨L, hmem⟩ := h.mem
  rw [hmem.counter n trivial, full_of_ne hs]

/-- Where the counter has room, so has the count. -/
theorem lt_of_hasRoom (h : Counted m c) (hs : s ≠ .noOp) (hroom : (m.node n).hasRoom s = true) :
    c n s < 255 := by
  simp only [CrudNode.hasRoom, h.isStatusSet_eq n hs, h.counter_eq n hs] at hroom
  by_contra hno
  have hpos : 0 < c n s := by omega
  simp [hpos, hno] at hroom

theorem hasRoom (h : Counted m c) (hs : s ≠ .noOp) (hlt : c n s < 255) :
    (m.node n).hasRoom s = true := by
  simp [CrudNode.hasRoom, h.counter_eq n hs, hlt]

variable [DecidableEq ν]

/-- `crud_node_enter_state`, where it returns, counts one more. -/
theorem enter (h : Counted m c) (hs : s ≠ .noOp) (hlt : c n s < 255)
    (honly : ∀ op, releasedState op = some s →
      ∀ op' s', releasedState op' = some s' → 0 < c n s' → op' = op)
    (he : crudNodeEnterState m n s = some m')
    (hc : ∀ n' s', s' ≠ .noOp → c' n' s' = c n' s' + if n' = n ∧ s' = s then 1 else 0) :
    Counted m' c' ∧ (s.isExclusive = true → c n s = 0) := by
  obtain ⟨L, hmem⟩ := h.mem
  obtain ⟨hex, L', hent⟩ := entered_of_some hmem trivial hs hlt he
  refine ⟨⟨⟨L', hent.memOk hc⟩, fun n' => ?_⟩, hex⟩
  have hc' : ∀ s', s' ≠ .noOp → s' ≠ s → c' n s' = c n s' := fun s' hs' hne => by
    rw [hc n s' hs', if_neg (by simp [hne]), Nat.add_zero]
  by_cases hn : n' = n
  · subst hn
    by_cases hop : ∃ op, releasedState op = some s
    · obtain ⟨op, hop⟩ := hop
      refine hent.opOk (h.op n') hop (honly op hop) ?_ hc'
      rw [hc n' s hs, if_pos ⟨rfl, rfl⟩]
    · exact hent.opOk_pending (h.op n') hs (fun op h => hop ⟨op, h⟩) hc'
  · rw [hent.node_ne n' hn]
    have hsame : ∀ op s', releasedState op = some s' → c' n' s' = c n' s' := fun op s' hs' => by
      rw [hc n' s' (releasedState_ne_noOp hs'), if_neg (by simp [hn]), Nat.add_zero]
    exact (h.op n').congr hsame

/-- `crud_node_exit_state`, where it returns, counts one less. -/
theorem exit (h : Counted m c) (hs : s ≠ .noOp) (hx : crudNodeExitState m n s = some m')
    (hc : ∀ n' s', s' ≠ .noOp → c n' s' = c' n' s' + if n' = n ∧ s' = s then 1 else 0) :
    Counted m' c' := by
  obtain ⟨L, hmem⟩ := h.mem
  obtain ⟨hpos, L', hexit⟩ := exited_of_some hmem trivial hs hx
  refine ⟨⟨L', hexit.memOk hpos hc⟩, fun n' => ?_⟩
  by_cases hn : n' = n
  · subst hn
    refine hexit.opOk (h.op n') hs ?_ fun s' hs' hne => ?_
    · rw [hc n' s hs, if_pos ⟨rfl, rfl⟩]
    · rw [hc n' s' hs', if_neg (by simp [hne]), Nat.add_zero]
  · rw [hexit.node_ne n' hn]
    have hsame : ∀ op s', releasedState op = some s' → c' n' s' = c n' s' := fun op s' hs' => by
      rw [hc n' s' (releasedState_ne_noOp hs'), if_neg (by simp [hn]), Nat.add_zero]
    exact (h.op n').congr hsame

/-- An exit that returned had somebody to count. -/
theorem pos_of_exit (h : Counted m c) (hs : s ≠ .noOp)
    (hx : crudNodeExitState m n s = some m') : 0 < c n s := by
  obtain ⟨L, hmem⟩ := h.mem
  exact (exited_of_some hmem trivial hs hx).1

theorem exists_exit (h : Counted m c) (hs : s ≠ .noOp) (hpos : 0 < c n s) :
    ∃ m', crudNodeExitState m n s = some m' := by
  obtain ⟨L, hmem⟩ := h.mem
  obtain ⟨m', -, hm', -⟩ := exitState_spec hmem trivial hs hpos
  exact ⟨m', hm'⟩

theorem exists_enter (h : Counted m c) (hs : s ≠ .noOp)
    (hroom : c n s = 0 ∨ s.isExclusive = false ∧ c n s < 255) :
    ∃ m', crudNodeEnterState m n s = some m' := by
  obtain ⟨L, hmem⟩ := h.mem
  obtain ⟨m', -, hm', -⟩ := enterState_spec hmem trivial hs hroom
  exact ⟨m', hm'⟩

end Counted

/-- An initialised manager counts nothing. -/
theorem Initialised.counted [DecidableEq ν] (h : Initialised m) : Counted m fun _ _ => 0 := by
  obtain ⟨L, hmem, hop⟩ := h.memOk
  exact ⟨⟨L, hmem⟩, fun n => ⟨by simp, fun _ => hop n⟩⟩

section Moves

variable {τ κ Λ : Type*} {w : ν → CrudNodeState → Λ → Nat} {l l' : Λ}

/-- The counts after one thread's contribution changed from that of `l` to that of `l'`. -/
def moved (w : ν → CrudNodeState → Λ → Nat) (c : ν → CrudNodeState → Nat) (l l' : Λ) :
    ν → CrudNodeState → Nat :=
  fun n s => c n s + w n s l' - w n s l

/-- What all threads contribute. -/
def counts [Fintype τ] (w : ν → CrudNodeState → Λ → Nat) (thr : τ → Status κ Λ) :
    ν → CrudNodeState → Nat :=
  fun n s => tally thr (w n s)

@[simp] theorem moved_self (c : ν → CrudNodeState → Nat) (l : Λ) : moved w c l l = c := by
  funext n s
  simp [moved]

/-- A move between locations that contribute the same changes nothing. -/
theorem moved_eq (hw : ∀ n s, w n s l' = w n s l) : moved w c l l' = c := by
  funext n s
  simp [moved, hw]

theorem moved_moved (l₁ : Λ) (hle : ∀ n s, w n s l ≤ c n s) :
    moved w (moved w c l l₁) l₁ l' = moved w c l l' := by
  funext n s
  have := hle n s
  simp only [moved]
  omega

/-- A step of a program moves the contribution of the thread that ran. -/
theorem moved_counts {μ χ : Type*} [DecidableEq τ] [Fintype τ] {P : Program τ μ κ Λ χ}
    {s s' : Config τ μ κ Λ} {t : τ} {x : χ} {notes : List (Note κ)} {st : Status κ Λ}
    (h : P.Ran s t x s' notes st) (w : ν → CrudNodeState → Λ → Nat) :
    moved w (counts w s.thr) (s.thr t).loc st.loc = counts w s'.thr := by
  funext n s₁
  have := h.tally (w n s₁)
  simp only [moved, counts]
  omega

theorem le_counts [Fintype τ] (w : ν → CrudNodeState → Λ → Nat) (thr : τ → Status κ Λ) (t : τ)
    (n : ν) (s : CrudNodeState) : w n s (thr t).loc ≤ counts w thr n s :=
  le_tally thr (w n s) t

/-- A wake-up without a notification moves nobody. -/
theorem counts_congr [Fintype τ] {thr thr' : τ → Status κ Λ}
    (h : ∀ t, (thr' t).loc = (thr t).loc) : counts w thr' = counts w thr := by
  funext n s
  exact tally_congr h (w n s)

variable [DecidableEq ν]

/-- An entry that brings a thread from `l` to `l'`. -/
theorem Counted.enterMove (h : Counted m c) (hs : s ≠ .noOp) (hlt : c n s < 255)
    (honly : ∀ op, releasedState op = some s →
      ∀ op' s', releasedState op' = some s' → 0 < c n s' → op' = op)
    (he : crudNodeEnterState m n s = some m')
    (hw : ∀ n' s', s' ≠ .noOp → w n' s' l' = w n' s' l + if n' = n ∧ s' = s then 1 else 0) :
    Counted m' (moved w c l l') := by
  refine (h.enter hs hlt honly he fun n' s' hs' => ?_).1
  simp only [moved, hw n' s' hs']
  omega

/-- An exit that brings a thread from `l` to `l'`. -/
theorem Counted.exitMove (h : Counted m c) (hs : s ≠ .noOp)
    (hx : crudNodeExitState m n s = some m')
    (hw : ∀ n' s', s' ≠ .noOp → w n' s' l = w n' s' l' + if n' = n ∧ s' = s then 1 else 0) :
    Counted m' (moved w c l l') := by
  have hpos := h.pos_of_exit hs hx
  refine h.exit hs hx fun n' s' hs' => ?_
  simp only [moved, hw n' s' hs']
  split
  case isTrue hself => obtain ⟨rfl, rfl⟩ := hself; omega
  case isFalse => omega

end Moves

end CrudMgr
end MultithreadingBible
