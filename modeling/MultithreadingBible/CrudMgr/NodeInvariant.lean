import MultithreadingBible.CrudMgr.Counted
import MultithreadingBible.CrudMgr.NodeMachine

/-!
# CRUD manager: the invariant of one node's threads

`nodeWeight` says what a thread's location contributes to the counts of the node's states, and
`NodeMove.counted` that every move keeps the memory in step with these contributions, provided that
no counter is pushed past 255 (`noOverflow`).

`NodeInv` is the invariant of all runs of readers, writers and deleters; `nodeInv_step` is its step
lemma and `nodeInv_reachable` its run lemma.
-/

namespace MultithreadingBible
namespace CrudMgr

open Lib

variable {τ ν : Type*} [DecidableEq ν]

/-- What a thread at a location contributes to the count of a state. -/
def contrib (s : CrudNodeState) : NodeLoc → Nat
  | .idle => 0
  | .wait r => if s = r.pendingState then 1 else 0
  | .holds op => if releasedState op = some s then 1 else 0
  | .releasing op _ => if releasedState op = some s then 1 else 0
  | .deleteMgr => if s = .pendingDelete then 1 else 0
  | .deleteMgrWait => if s = .pendingDelete then 2 else 0
  | .releaseMgr => 0

theorem contrib_afterRelease (s : CrudNodeState) (currOp : CrudOpType) :
    contrib s (afterRelease currOp) = 0 := by
  unfold afterRelease
  split <;> rfl

/-- Threads of one node contribute to that node only. -/
def nodeWeight (n : ν) (n' : ν) (s : CrudNodeState) (l : NodeLoc) : Nat :=
  if n' = n then contrib s l else 0

/-- The pass through a loop does not push a counter past 255. -/
def LoopStep.hasRoom (crudNode : CrudNode) : LoopStep ν → Bool
  | .block s _ => crudNode.hasRoom s
  | .grant s => crudNode.hasRoom s
  | _ => true

/-- A thread's next step does not push a counter past 255. -/
def noOverflow (n : ν) (l : NodeLoc) (x : NodeReq) (m : CrudMem ν) : Bool :=
  match l with
  | .idle => (x.loop m n).hasRoom (m.node n)
  | .wait r =>
      match crudNodeExitState m n r.pendingState with
      | none => true
      | some m => (r.loop m n).hasRoom (m.node n)
  | _ => true

section Step

variable {n : ν} {x r : NodeReq} {l : NodeLoc} {m m' m₁ : CrudMem ν} {c : ν → CrudNodeState → Nat}
  {notes : List (Note (ν × CrudCv))} {st : Status (ν × CrudCv) NodeLoc}

theorem Arrives.hasRoom (ha : Arrives n x m l r m₁) (hroom : noOverflow n l x m = true) :
    (r.loop m₁ n).hasRoom (m₁.node n) = true := by
  cases ha with
  | fresh h => exact hroom
  | resumed h => simpa [noOverflow, h] using hroom

/-- Arriving at the head of a loop gives up what the thread contributed. -/
theorem Arrives.counted (ha : Arrives n x m l r m₁) (h : Counted m c) :
    Counted m₁ (moved (nodeWeight n) c l .idle) := by
  cases ha with
  | fresh => simpa using h
  | resumed hx =>
      refine h.exitMove r.pendingState_ne_noOp hx fun n' s' _ => ?_
      by_cases hn : n' = n <;> by_cases hs : s' = r.pendingState <;>
        simp [nodeWeight, contrib, hn, hs]

theorem ArrivesMgr.counted (ha : ArrivesMgr n m l m₁) (h : Counted m c) :
    Counted m₁ (moved (nodeWeight n) c l .deleteMgr) := by
  cases ha with
  | fresh => simpa using h
  | resumed hx =>
      refine h.exitMove (by decide) hx fun n' s' _ => ?_
      by_cases hn : n' = n <;> by_cases hs : s' = .pendingDelete <;>
        simp [nodeWeight, contrib, hn, hs]

/-- What a thread may rely on at its location: `curr_op` was read as the operation it performs, and
past the node-level loop of a delete nothing else is in progress. -/
structure LocFacts (n : ν) (c : ν → CrudNodeState → Nat) (l : NodeLoc) : Prop where
  carries : ∀ n' s, nodeWeight n n' s l ≤ c n' s
  released : ∀ op currOp, l = .releasing op currOp → currOp = op
  alone : l = .deleteMgr ∨ l = .deleteMgrWait →
    (∀ op s, releasedState op = some s → c n s = 0) ∧ c n .pendingDelete ≤ 2

/-- **Every move keeps the memory in step with the threads.** -/
theorem NodeMove.counted (hmove : NodeMove n x m l m' notes st) (h : Counted m c)
    (hl : LocFacts n c l) (hroom : noOverflow n l x m = true) :
    Counted m' (moved (nodeWeight n) c l st.loc) := by
  cases hmove with
  | rejected => simpa using h
  | quit ha => exact ha.counted h
  | @block l r m₁ m' s cv ha hloop he =>
      have h₁ := ha.counted h
      obtain ⟨hs, -⟩ := NodeReq.loop_block hloop
      subst hs
      have hlt :=
        h₁.lt_of_hasRoom r.pendingState_ne_noOp
          (by simpa [hloop, LoopStep.hasRoom] using ha.hasRoom hroom)
      rw [← moved_moved .idle hl.carries]
      -- a pending state is no operation in progress
      refine h₁.enterMove r.pendingState_ne_noOp hlt
        (fun op hop => absurd hop r.releasedState_ne_pendingState) he fun n' s' _ => ?_
      by_cases hn : n' = n <;> by_cases hs : s' = r.pendingState <;>
        simp [nodeWeight, contrib, hn, hs]
  | @grant l r m₁ m' s ha hloop he =>
      have h₁ := ha.counted h
      obtain ⟨hs, hr, -, hdel, hcr, hwr, hrd⟩ := NodeReq.loop_grant hloop
      have hno := releasedState_ne_noOp hs
      have hlt := h₁.lt_of_hasRoom hno (by simpa [hloop, LoopStep.hasRoom] using ha.hasRoom hroom)
      rw [← moved_moved .idle hl.carries]
      refine h₁.enterMove hno hlt (fun op hop op' s' hop' hpos => ?_) he fun n' s' _ => ?_
      · -- the tests of the loop exclude what must not be in progress together
        rw [releasedState_inj hop hs]
        cases op' <;> cases hop'
        · have := h₁.count_zero (by decide) hdel; omega
        · have := h₁.count_zero (by decide) hcr; omega
        · cases r with
          | read => rfl
          | write => have := h₁.count_zero (by decide) (hrd rfl); omega
          | delete => exact absurd rfl hr
        · have := h₁.count_zero (by decide) hwr; omega
      · simp only [nodeWeight, contrib, hs, Option.some.injEq, Status.loc_running]
        grind
  | @leave l r m₁ m' ha hloop he =>
      have h₁ := ha.counted h
      obtain ⟨-, hall⟩ := NodeReq.loop_leave hloop
      have hlt := h₁.count_zero (by decide) (hall .pendingDelete (by decide))
      rw [← moved_moved .idle hl.carries]
      refine h₁.enterMove (by decide) (by omega) (fun op hop => ?_) he fun n' s' _ => ?_
      · cases op <;> cases hop
      · simp only [nodeWeight, contrib, Status.loc_running]
        grind
  | readOp => rwa [moved_eq fun _ _ => by simp [nodeWeight, contrib]]
  | @release op currOp s m' notes hs he ht =>
      have hop := hl.released op currOp rfl
      subst hop
      refine h.exitMove (releasedState_ne_noOp hs) he fun n' s' _ => ?_
      simp only [nodeWeight, Status.loc_running, contrib_afterRelease]
      simp only [contrib, hs, Option.some.injEq]
      grind
  | @deferDelete l m₁ m' ha hloop he =>
      have h₁ := ha.counted h
      have hle : moved (nodeWeight n) c l .deleteMgr n .pendingDelete < 255 := by
        have hl' : l = .deleteMgr ∨ l = .deleteMgrWait := by cases ha <;> simp
        have := (hl.alone hl').2
        have : nodeWeight n n .pendingDelete .deleteMgr = 1 := by simp [nodeWeight, contrib]
        simp only [moved]
        omega
      rw [← moved_moved .deleteMgr hl.carries]
      refine h₁.enterMove (by decide) hle (fun op hop => ?_) he fun n' s' _ => ?_
      · cases op <;> cases hop
      · simp only [nodeWeight, contrib, Status.loc_waiting]
        grind
  | @grantDelete l m₁ m₂ m' ha hloop hx he =>
      have hl' : l = .deleteMgr ∨ l = .deleteMgrWait := by cases ha <;> simp
      -- on its way to the grant the thread counts for less and less
      have hlow : ∀ n' s, nodeWeight n n' s .deleteMgr ≤ nodeWeight n n' s l := by
        intro n' s
        rcases hl' with rfl | rfl
        · exact Nat.le_refl _
        · simp only [nodeWeight, contrib]
          grind
      have h₂ : Counted m₂ (moved (nodeWeight n) c l .idle) := by
        rw [← moved_moved .deleteMgr hl.carries]
        refine (ha.counted h).exitMove (by decide) hx fun n' s' _ => ?_
        simp only [nodeWeight, contrib]
        grind
      -- nothing is in progress besides the deleter
      have hzero : ∀ op s, releasedState op = some s → moved (nodeWeight n) c l .idle n s = 0 := by
        intro op s hs
        have := (hl.alone hl').1 op s hs
        simp only [moved, nodeWeight, contrib, this]
        simp
      rw [← moved_moved .idle hl.carries]
      refine h₂.enterMove (by decide) (by rw [hzero .delete _ rfl]; decide)
        (fun op _ op' s' hop' hpos => ?_) he fun n' s' _ => ?_
      · have := hzero op' s' hop'
        omega
      · simp only [nodeWeight, contrib, releasedState, Option.some.injEq, Status.loc_running]
        grind
  | signal => rwa [moved_eq fun _ _ => by simp [nodeWeight, contrib]]

/-- A request that gets as far as its loop found no deletion under way; a resumed reader or writer
was counted as pending. -/
theorem Arrives.pos_or_zero (ha : Arrives n x m l r m₁) (h : Counted m c) (hr : r ≠ .delete)
    (hle : ∀ n' s, nodeWeight n n' s l ≤ c n' s) :
    c n .pendingDelete = 0 ∧ c n .deleteInProgress = 0 ∨
      0 < c n .pendingRead ∨ 0 < c n .pendingWrite := by
  cases ha with
  | fresh hrej =>
      obtain ⟨hpd, -, hdip, -⟩ := rejectsRequest_eq_false hrej
      exact .inl ⟨h.count_zero (by decide) hpd, h.count_zero (by decide) hdip⟩
  | resumed hx =>
      have hpos := hle n r.pendingState
      simp only [nodeWeight, contrib, if_true] at hpos
      cases r with
      | read => exact .inr (.inl hpos)
      | write => exact .inr (.inr hpos)
      | delete => exact absurd rfl hr

end Step

/-- From the first wait of a delete request to its release. -/
def NodeLoc.isDeleter : NodeLoc → Bool
  | .wait .delete | .deleteMgr | .deleteMgrWait | .holds .delete | .releasing .delete _ => true
  | _ => false

/-- A delete past its node-level loop. -/
def NodeLoc.isSealed : NodeLoc → Bool
  | .deleteMgr | .deleteMgrWait | .holds .delete | .releasing .delete _ => true
  | _ => false

/-- A thread that is not blocked is not inside a wait, holds a grant some request gives, and releases
what it holds. -/
def LocOk : NodeLoc → Prop
  | .wait _ | .deleteMgrWait => False
  | .holds op => ∃ r : NodeReq, op = r.op
  | .releasing op currOp => currOp = op ∧ ∃ r : NodeReq, op = r.op
  | _ => True

/-- The condition variable a thread is blocked on. -/
def WaitOk (n : ν) (cv : ν × CrudCv) : NodeLoc → Prop
  | .wait .read => cv = (n, .rdrsCv)
  | .wait .write => cv = (n, .writersCv)
  | .wait .delete => cv = (n, .rdrsCv) ∨ cv = (n, .deleteThreadCv)
  | .deleteMgrWait => cv = (n, .deleteThreadCv)
  | _ => False

/-- Where a thread can be. -/
def StatusOk (n : ν) : Status (ν × CrudCv) NodeLoc → Prop
  | .running l => LocOk l
  | .waiting cv l => WaitOk n cv l
  | .notified cv l => WaitOk n cv l

/-- The invariant of one node's threads. -/
structure NodeInv [Fintype τ] (n : ν) (s : Config τ (CrudMem ν) (ν × CrudCv) NodeLoc) : Prop where
  counted : Counted s.mem (counts (nodeWeight n) s.thr)
  status : ∀ t, StatusOk n (s.thr t)
  /-- One writer at a time. -/
  writer : counts (nodeWeight n) s.thr n .writeInProgress ≤ 1
  /-- No readers beside a writer. -/
  readers : 0 < counts (nodeWeight n) s.thr n .writeInProgress →
    counts (nodeWeight n) s.thr n .readInProgress = 0
  /-- One deleter at a time. -/
  deleter : tally s.thr (fun l => l.isDeleter.toNat) ≤ 1
  /-- Nobody reads or writes, or waits for it, once a delete has left its node-level loop. -/
  noAccess : 0 < tally s.thr (fun l => l.isSealed.toNat) →
    counts (nodeWeight n) s.thr n .pendingRead = 0 ∧
      counts (nodeWeight n) s.thr n .readInProgress = 0 ∧
      counts (nodeWeight n) s.thr n .pendingWrite = 0 ∧
      counts (nodeWeight n) s.thr n .writeInProgress = 0

section Invariant

variable [DecidableEq τ] [Fintype τ] {n : ν} {s s' : Config τ (CrudMem ν) (ν × CrudCv) NodeLoc}
  {t : τ} {x : NodeReq} {notes : List (Note (ν × CrudCv))} {st : Status (ν × CrudCv) NodeLoc}
  {spurious : Bool}

omit [DecidableEq τ] in
theorem counts_node (thr : τ → Status (ν × CrudCv) NodeLoc) (s : CrudNodeState) :
    counts (nodeWeight n) thr n s = tally thr (contrib s) := by
  have hw : nodeWeight n n s = contrib s := by
    funext l
    simp [nodeWeight]
  rw [counts, hw]

omit [DecidableEq ν] in
/-- An operation of a thread is one that a request grants. -/
theorem StatusOk.op {st : Status (ν × CrudCv) NodeLoc} (h : StatusOk n st) {op : CrudOpType}
    (hop : st.loc = .holds op ∨ ∃ currOp, st.loc = .releasing op currOp) :
    ∃ r : NodeReq, op = r.op := by
  cases st with
  | running l =>
      rcases hop with rfl | ⟨currOp, rfl⟩
      · exact h
      · exact h.2
  | waiting cv l => rcases hop with rfl | ⟨currOp, rfl⟩ <;> exact h.elim
  | notified cv l => rcases hop with rfl | ⟨currOp, rfl⟩ <;> exact h.elim

omit [DecidableEq ν] in
/-- Nobody creates the node. -/
theorem StatusOk.contrib_create {st : Status (ν × CrudCv) NodeLoc} (h : StatusOk n st) :
    contrib .createInProgress st.loc = 0 ∧ contrib .pendingCreate st.loc = 0 := by
  cases hl : st.loc with
  | idle | deleteMgr | deleteMgrWait | releaseMgr => simp [contrib]
  | wait r => cases r <;> simp [contrib, NodeReq.pendingState]
  | holds op =>
      obtain ⟨r, rfl⟩ := h.op (.inl hl)
      cases r <;> simp [contrib, NodeReq.op, releasedState]
  | releasing op currOp =>
      obtain ⟨r, rfl⟩ := h.op (.inr ⟨currOp, hl⟩)
      cases r <;> simp [contrib, NodeReq.op, releasedState]

/-- What a deleter contributes. -/
theorem isDeleter_le (l : NodeLoc) :
    l.isDeleter.toNat ≤ contrib .pendingDelete l + contrib .deleteInProgress l := by
  cases l with
  | wait r => cases r <;> simp [NodeLoc.isDeleter, contrib, NodeReq.pendingState]
  | holds op => cases op <;> simp [NodeLoc.isDeleter, contrib, releasedState]
  | releasing op _ => cases op <;> simp [NodeLoc.isDeleter, contrib, releasedState]
  | _ => simp [NodeLoc.isDeleter, contrib]

theorem contrib_le_isDeleter (l : NodeLoc) :
    contrib .pendingDelete l ≤ l.isDeleter.toNat + l.isDeleter.toNat ∧
      contrib .deleteInProgress l ≤ l.isSealed.toNat ∧ l.isSealed.toNat ≤ l.isDeleter.toNat := by
  cases l with
  | wait r => cases r <;> simp [NodeLoc.isDeleter, NodeLoc.isSealed, contrib, NodeReq.pendingState]
  | holds op => cases op <;> simp [NodeLoc.isDeleter, NodeLoc.isSealed, contrib, releasedState]
  | releasing op _ =>
      cases op <;> simp [NodeLoc.isDeleter, NodeLoc.isSealed, contrib, releasedState]
  | _ => simp [NodeLoc.isDeleter, NodeLoc.isSealed, contrib]

omit [DecidableEq τ] in
/-- While a deletion is under way its flag is set. -/
theorem tally_isDeleter_le (thr : τ → Status (ν × CrudCv) NodeLoc) :
    tally thr (fun l => l.isDeleter.toNat) ≤
      counts (nodeWeight n) thr n .pendingDelete +
        counts (nodeWeight n) thr n .deleteInProgress := by
  rw [counts_node, counts_node, ← tally_add]
  exact tally_mono thr isDeleter_le

omit [DecidableEq ν] [DecidableEq τ] in
theorem tally_isSealed_le (thr : τ → Status (ν × CrudCv) NodeLoc) :
    tally thr (fun l => l.isSealed.toNat) ≤ tally thr fun l => l.isDeleter.toNat :=
  tally_mono thr fun l => (contrib_le_isDeleter l).2.2

omit [DecidableEq τ] in
theorem NodeInv.noCreate (h : NodeInv n s) :
    counts (nodeWeight n) s.thr n .createInProgress = 0 ∧
      counts (nodeWeight n) s.thr n .pendingCreate = 0 := by
  rw [counts_node, counts_node, tally_eq_zero, tally_eq_zero]
  exact ⟨fun t => (h.status t).contrib_create.1, fun t => (h.status t).contrib_create.2⟩

theorem NodeInv.locFacts (h : NodeInv n s) (t : τ) :
    LocFacts n (counts (nodeWeight n) s.thr) (s.thr t).loc where
  carries n' s' := le_counts (nodeWeight n) s.thr t n' s'
  released op currOp hl := by
    have hst := h.status t
    cases hthr : s.thr t with
    | running l =>
        rw [hthr] at hl hst
        subst hl
        exact hst.1
    | waiting cv l => rw [hthr] at hl hst; subst hl; exact hst.elim
    | notified cv l => rw [hthr] at hl hst; subst hl; exact hst.elim
  alone hl := by
    have hdel := h.deleter
    have hsealed : (s.thr t).loc.isSealed = true := by rcases hl with hl | hl <;> rw [hl] <;> rfl
    have hpos : 0 < tally s.thr fun l => l.isSealed.toNat := by
      refine tally_pos.mpr ⟨t, ?_⟩
      rw [hsealed]; decide
    obtain ⟨-, hrip, -, hwip⟩ := h.noAccess hpos
    refine ⟨fun op s' hs' => ?_, ?_⟩
    · cases op <;> cases hs'
      · -- a second deleter would be counted beside this one
        rw [counts_node, tally_eq_zero]
        intro u
        by_cases hu : u = t
        · subst hu
          rcases hl with hl | hl <;> rw [hl] <;> rfl
        · have hsum := add_le_tally s.thr (fun l => l.isDeleter.toNat) hu
          have hle := (contrib_le_isDeleter (s.thr u).loc).2
          have hlt := (contrib_le_isDeleter (s.thr t).loc).2.2
          rw [hsealed] at hlt
          simp only [Bool.toNat_true] at hlt
          omega
      · exact h.noCreate.1
      · exact hrip
      · exact hwip
    · have hle : counts (nodeWeight n) s.thr n .pendingDelete ≤
          tally s.thr fun l => l.isDeleter.toNat + l.isDeleter.toNat := by
        rw [counts_node]
        exact tally_mono s.thr fun l => (contrib_le_isDeleter l).1
      rw [tally_add] at hle
      omega

end Invariant

section Moves

variable {n : ν} {x : NodeReq} {l : NodeLoc} {m m' : CrudMem ν} {c : ν → CrudNodeState → Nat}
  {notes : List (Note (ν × CrudCv))} {st : Status (ν × CrudCv) NodeLoc}

theorem moved_node (c : ν → CrudNodeState → Nat) (l l' : NodeLoc) (s : CrudNodeState) :
    moved (nodeWeight n) c l l' n s = c n s + contrib s l' - contrib s l := by
  simp [moved, nodeWeight]

/-- A move ends where a thread can be. -/
theorem NodeMove.statusOk (hmove : NodeMove n x m l m' notes st)
    (hop : ∀ op, l = .holds op → (m.node n).currOp = op ∧ ∃ r : NodeReq, op = r.op) :
    StatusOk n st := by
  cases hmove with
  | rejected | quit | leave | signal => trivial
  | @block l r m₁ m' s cv ha hloop he =>
      obtain ⟨-, hcv, -⟩ := NodeReq.loop_block hloop
      subst hcv
      cases r with
      | read | write => rfl
      | delete =>
          simp only [StatusOk, WaitOk, NodeReq.cv]
          split <;> simp
  | grant => exact ⟨_, rfl⟩
  | readOp => exact hop _ rfl
  | release =>
      show LocOk (afterRelease _)
      unfold afterRelease
      split <;> trivial
  | deferDelete => rfl
  | grantDelete => exact ⟨.delete, rfl⟩

/-- A move keeps writers alone. -/
theorem NodeMove.exclusive (hmove : NodeMove n x m l m' notes st) (h : Counted m c)
    (hw : c n .writeInProgress ≤ 1) (hr : 0 < c n .writeInProgress → c n .readInProgress = 0) :
    moved (nodeWeight n) c l st.loc n .writeInProgress ≤ 1 ∧
      (0 < moved (nodeWeight n) c l st.loc n .writeInProgress →
        moved (nodeWeight n) c l st.loc n .readInProgress = 0) := by
  simp only [moved_node]
  have hkeep : contrib .writeInProgress st.loc ≤ contrib .writeInProgress l →
      contrib .readInProgress st.loc ≤ contrib .readInProgress l →
      c n .writeInProgress + contrib .writeInProgress st.loc - contrib .writeInProgress l ≤ 1 ∧
        (0 < c n .writeInProgress + contrib .writeInProgress st.loc -
          contrib .writeInProgress l → c n .readInProgress + contrib .readInProgress st.loc -
            contrib .readInProgress l = 0) := by
    omega
  cases hmove with
  | rejected | readOp => exact hkeep (Nat.le_refl _) (Nat.le_refl _)
  | quit | leave | signal | deferDelete => exact hkeep (Nat.zero_le _) (Nat.zero_le _)
  | grantDelete => exact hkeep (Nat.zero_le _) (Nat.zero_le _)
  | release =>
      refine hkeep ?_ ?_ <;> rw [Status.loc_running, contrib_afterRelease] <;>
        exact Nat.zero_le _
  | @block l r =>
      refine hkeep ?_ ?_ <;> cases r <;> exact Nat.zero_le _
  | @grant l r m₁ m' s ha hloop he =>
      obtain ⟨-, hdel, -, -, -, hwr, hrd⟩ := NodeReq.loop_grant hloop
      have hw₁ := (ha.counted h).count_zero (by decide) hwr
      rw [moved_node, show contrib .writeInProgress .idle = 0 from rfl] at hw₁
      simp only [Status.loc_running]
      cases r with
      | read =>
          rw [show contrib .writeInProgress (.holds NodeReq.read.op) = 0 from rfl]
          omega
      | write =>
          have hr₁ := (ha.counted h).count_zero (by decide) (hrd rfl)
          rw [moved_node, show contrib .readInProgress .idle = 0 from rfl] at hr₁
          rw [show contrib .writeInProgress (.holds NodeReq.write.op) = 1 from rfl,
            show contrib .readInProgress (.holds NodeReq.write.op) = 0 from rfl]
          omega
      | delete => exact absurd rfl hdel

/-- A second deleter cannot get in. -/
theorem NodeMove.deleter (hmove : NodeMove n x m l m' notes st) (h : Counted m c) :
    st.loc.isDeleter.toNat ≤ l.isDeleter.toNat ∨
      c n .pendingDelete = 0 ∧ c n .deleteInProgress = 0 := by
  have harrive : ∀ {m₁ : CrudMem ν}, Arrives n x m l .delete m₁ →
      1 ≤ l.isDeleter.toNat ∨ c n .pendingDelete = 0 ∧ c n .deleteInProgress = 0 := by
    intro m₁ ha
    cases ha with
    | fresh hrej =>
        obtain ⟨hpd, -, hdip, -⟩ := rejectsRequest_eq_false hrej
        exact .inr ⟨h.count_zero (by decide) hpd, h.count_zero (by decide) hdip⟩
    | resumed => exact .inl (Nat.le_refl _)
  cases hmove with
  | rejected | quit | signal => exact .inl (Nat.zero_le _)
  | @block l r m₁ m' s cv ha =>
      cases r with
      | read | write => exact .inl (Nat.zero_le _)
      | delete => exact harrive ha
  | @grant l r m₁ m' s ha hloop he =>
      obtain ⟨-, hdel, -⟩ := NodeReq.loop_grant hloop
      cases r with
      | read | write => exact .inl (Nat.zero_le _)
      | delete => exact absurd rfl hdel
  | leave ha hloop he =>
      obtain ⟨rfl, -⟩ := NodeReq.loop_leave hloop
      exact harrive ha
  | @readOp op =>
      refine .inl ?_
      cases op <;> exact Nat.le_refl _
  | release =>
      refine .inl ?_
      show (afterRelease _).isDeleter.toNat ≤ _
      unfold afterRelease
      split <;> exact Nat.zero_le _
  | deferDelete ha => exact .inl (by cases ha <;> exact Nat.le_refl _)
  | grantDelete ha => exact .inl (by cases ha <;> exact Nat.le_refl _)

/-- A move keeps readers and writers away once a delete has left its node-level loop; `z` and `z'`
count such deletes before and after. -/
theorem NodeMove.noAccess {z z' : Nat} (hmove : NodeMove n x m l m' notes st) (h : Counted m c)
    (hle : ∀ n' s, nodeWeight n n' s l ≤ c n' s)
    (hz : z ≤ c n .pendingDelete + c n .deleteInProgress)
    (hz' : z' + l.isSealed.toNat = z + st.loc.isSealed.toNat)
    (hseal : 0 < z → c n .pendingRead = 0 ∧ c n .readInProgress = 0 ∧ c n .pendingWrite = 0 ∧
      c n .writeInProgress = 0)
    (s : CrudNodeState) (hs : s = .pendingRead ∨ s = .readInProgress ∨ s = .pendingWrite ∨
      s = .writeInProgress) (hpos : 0 < z') : moved (nodeWeight n) c l st.loc n s = 0 := by
  -- without a new delete the counts were zero before
  have hkeep : st.loc.isSealed.toNat ≤ l.isSealed.toNat → contrib s st.loc ≤ contrib s l →
      moved (nodeWeight n) c l st.loc n s = 0 := by
    intro hsealed hcontrib
    obtain ⟨h₁, h₂, h₃, h₄⟩ := hseal (by omega)
    rw [moved_node]
    rcases hs with rfl | rfl | rfl | rfl <;> omega
  have haccess : ∀ {r : NodeReq} {m₁ : CrudMem ν}, Arrives n x m l r m₁ → r ≠ .delete →
      st.loc.isSealed.toNat ≤ l.isSealed.toNat → False := by
    intro r m₁ ha hr hsealed
    obtain ⟨h₁, h₂, h₃, h₄⟩ := hseal (by omega)
    have := ha.pos_or_zero h hr hle
    omega
  cases hmove with
  | rejected => exact hkeep (Nat.le_refl _) (Nat.le_refl _)
  | @readOp op => exact hkeep (by cases op <;> exact Nat.le_refl _) (Nat.le_refl _)
  | quit | signal => exact hkeep (Nat.zero_le _) (Nat.zero_le _)
  | @block l r m₁ m' s' cv ha =>
      cases r with
      | read => exact (haccess ha (by decide) (Nat.zero_le _)).elim
      | write => exact (haccess ha (by decide) (Nat.zero_le _)).elim
      | delete =>
          refine hkeep (Nat.zero_le _) ?_
          rcases hs with rfl | rfl | rfl | rfl <;> exact Nat.zero_le _
  | @grant l r m₁ m' s' ha hloop he =>
      obtain ⟨-, hdel, -⟩ := NodeReq.loop_grant hloop
      cases r with
      | read => exact (haccess ha hdel (Nat.zero_le _)).elim
      | write => exact (haccess ha hdel (Nat.zero_le _)).elim
      | delete => exact absurd rfl hdel
  | @leave l r m₁ m' ha hloop he =>
      obtain ⟨-, hall⟩ := NodeReq.loop_leave hloop
      have hno : s ≠ .noOp := by rcases hs with rfl | rfl | rfl | rfl <;> decide
      have hzero := (ha.counted h).count_zero hno (hall s hno)
      rw [moved_node, show contrib s .idle = 0 from rfl] at hzero
      rw [moved_node]
      have : contrib s .deleteMgr = 0 := by rcases hs with rfl | rfl | rfl | rfl <;> rfl
      simp only [Status.loc_running]
      omega
  | release =>
      refine hkeep ?_ ?_
      · show (afterRelease _).isSealed.toNat ≤ _
        unfold afterRelease
        split <;> exact Nat.zero_le _
      · rw [Status.loc_running, contrib_afterRelease]; exact Nat.zero_le _
  | deferDelete ha =>
      refine hkeep (by cases ha <;> exact Nat.le_refl _) ?_
      rcases hs with rfl | rfl | rfl | rfl <;> exact Nat.zero_le _
  | grantDelete ha =>
      refine hkeep (by cases ha <;> exact Nat.le_refl _) ?_
      rcases hs with rfl | rfl | rfl | rfl <;> exact Nat.zero_le _

end Moves

section Runs

variable [DecidableEq τ] [Fintype τ] {n : ν} {s s' : Config τ (CrudMem ν) (ν × CrudCv) NodeLoc}
  {t : τ} {x : NodeReq} {notes : List (Note (ν × CrudCv))} {st : Status (ν × CrudCv) NodeLoc}
  {spurious : Bool} {a : Act τ NodeReq}

/-- A step does not push a counter past 255. -/
def noOverflowAct (n : ν) (s : Config τ (CrudMem ν) (ν × CrudCv) NodeLoc) : Act τ NodeReq → Bool
  | .run t x _ => noOverflow n (s.thr t).loc x s.mem
  | .spurious _ => true

theorem NodeReq.exists_releasedState (r : NodeReq) : ∃ s, releasedState r.op = some s := by
  cases r <;> exact ⟨_, rfl⟩

/-- A thread that holds a grant finds its own operation in `curr_op`. -/
theorem NodeInv.currOp_eq (h : NodeInv n s) {op : CrudOpType}
    (hop : (s.thr t).loc = .holds op ∨ ∃ currOp, (s.thr t).loc = .releasing op currOp) :
    (s.mem.node n).currOp = op := by
  obtain ⟨r, rfl⟩ := (h.status t).op hop
  obtain ⟨s₁, hs₁⟩ := r.exists_releasedState
  have hcarry := (h.locFacts t).carries n s₁
  have hone : nodeWeight n n s₁ (s.thr t).loc = 1 := by
    rcases hop with hop | ⟨currOp, hop⟩ <;> simp [hop, nodeWeight, contrib, hs₁]
  exact (h.counted.op n).op r.op s₁ hs₁ (by omega)

omit [DecidableEq ν] in
theorem StatusOk.notified {cv : ν × CrudCv} {l : NodeLoc} (h : StatusOk n (.waiting cv l)) :
    StatusOk n (.notified cv l) := h

theorem NodeInv.ran (h : NodeInv n s) (hran : (nodeProgram τ spurious n).Ran s t x s' notes st)
    (hroom : noOverflow n (s.thr t).loc x s.mem = true) : NodeInv n s' := by
  have hmove := nodeMove_of_exec hran.exec
  have hmoved := moved_counts hran (nodeWeight n)
  have hsealed := hran.tally fun l => l.isSealed.toNat
  have hzero := hmove.noAccess h.counted (h.locFacts t).carries
    ((tally_isSealed_le s.thr).trans (tally_isDeleter_le s.thr)) hsealed h.noAccess
  constructor
  case counted =>
    rw [← hmoved]
    exact hmove.counted h.counted (h.locFacts t) hroom
  case status =>
    apply hran.forall_status (p := fun _ => StatusOk n) h.status
    · refine hmove.statusOk fun op hop => ?_
      exact ⟨h.currOp_eq (.inl hop), (h.status t).op (.inl hop)⟩
    · exact fun _ _ _ hu => hu.notified
  case writer => rw [← hmoved]; exact (hmove.exclusive h.counted h.writer h.readers).1
  case readers => rw [← hmoved]; exact (hmove.exclusive h.counted h.writer h.readers).2
  case deleter =>
    have hone := h.deleter
    have hle := tally_isDeleter_le (n := n) s.thr
    have htally := hran.tally fun l => l.isDeleter.toNat
    have hst := st.loc.isDeleter.toNat_le
    rcases hmove.deleter h.counted with hmono | ⟨hpd, hdip⟩ <;> omega
  case noAccess =>
    intro hpos
    rw [← hmoved]
    exact ⟨hzero .pendingRead (by simp) hpos, hzero .readInProgress (by simp) hpos,
      hzero .pendingWrite (by simp) hpos, hzero .writeInProgress (by simp) hpos⟩

/-- A wake-up without a notification. -/
theorem NodeInv.wake (h : NodeInv n s) {cv : ν × CrudCv} {l : NodeLoc}
    (hw : s.thr t = .waiting cv l) :
    NodeInv n ⟨s.mem, Function.update s.thr t (.notified cv l)⟩ := by
  have hloc : ∀ u, (Function.update s.thr t (.notified cv l) u).loc = (s.thr u).loc :=
    loc_update_notified hw
  constructor
  case counted => rw [counts_congr hloc]; exact h.counted
  case status =>
    exact forall_status_of_woken (p := fun _ => StatusOk n) hw h.status fun _ _ _ hu => hu.notified
  case writer => rw [counts_congr hloc]; exact h.writer
  case readers => rw [counts_congr hloc]; exact h.readers
  case deleter => rw [tally_congr hloc]; exact h.deleter
  case noAccess => rw [counts_congr hloc, tally_congr hloc]; exact h.noAccess

/-- **Step lemma.** -/
theorem NodeInv.step (h : NodeInv n s) (hroom : noOverflowAct n s a = true)
    (hstep : (nodeMachine τ spurious n).step s a = .next s') : NodeInv n s' := by
  cases a with
  | run t x picks =>
      obtain ⟨notes, st, hran⟩ := Program.ran_of_step hstep
      exact h.ran hran hroom
  | spurious t =>
      obtain ⟨-, cv, l, hw, rfl⟩ := Program.spurious_of_step hstep
      exact h.wake hw

/-- Before the first request. -/
theorem NodeInv.init (h : (nodeMachine τ spurious n).init s) : NodeInv n s := by
  obtain ⟨hmem, hidle⟩ := h
  have hzero : ∀ w : NodeLoc → Nat, w .idle = 0 → tally s.thr w = 0 := fun w hw => by
    rw [tally_eq_zero]
    intro t
    rw [hidle t]
    exact hw
  have hcounts : counts (nodeWeight n) s.thr = fun _ _ => 0 := by
    funext n' s'
    exact hzero _ (by simp [nodeWeight, contrib])
  constructor
  case counted => rw [hcounts]; exact hmem.counted
  case status => intro t; rw [hidle t]; trivial
  case writer => simp [hcounts]
  case readers => simp [hcounts]
  case deleter => rw [hzero _ rfl]; decide
  case noAccess => simp [hcounts]

/-- **Run lemma.** -/
theorem nodeInv_reachable {cond : Config τ (CrudMem ν) (ν × CrudCv) NodeLoc → Act τ NodeReq → Prop}
    (hcond : ∀ s a, cond s a → noOverflowAct n s a = true)
    (h : (nodeMachine τ spurious n).ReachableUnder cond s) : NodeInv n s :=
  h.invariant (fun _ h => .init h) fun _ _ _ hinv hc hstep => hinv.step (hcond _ _ hc) hstep

end Runs

end CrudMgr
end MultithreadingBible
