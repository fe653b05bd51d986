import MultithreadingBible.CrudMgr.NodeInvariant

/-!
# CRUD manager: readers and writers of one node

Threads that only read and write one node.  As long as at most 255 of them are engaged with the node
at once, writers are alone, the counters and `curr_op` say who holds what, and no assertion fails
(`readersWriters_exclusive`).

The second half is about lost wake-ups.  A release notifies the pending readers and, only if there
are none, one pending writer.  A reader that was notified may still be sent back to wait because of a
pending writer that nobody notified; then every thread sleeps although the node is free.
`readersWriters_awake` shows that this is the only way to get stuck.
-/

namespace MultithreadingBible
namespace CrudMgr

open Lib

variable {τ ν : Type*} [DecidableEq ν] [DecidableEq τ] [Fintype τ]

abbrev NodeConfig (τ ν : Type*) := Config τ (CrudMem ν) (ν × CrudCv) NodeLoc

/-- Somewhere between the start of a request and the end of its release. -/
def NodeLoc.isEngaged : NodeLoc → Bool
  | .idle => false
  | _ => true

/-- In possession of an unreleased grant. -/
def NodeLoc.holdsGrant (op : CrudOpType) : NodeLoc → Bool
  | .holds op' => op' == op
  | .releasing op' _ => op' == op
  | _ => false

/-- The number of unreleased grants of a kind. -/
def grants (s : NodeConfig τ ν) (op : CrudOpType) : Nat :=
  (Finset.univ.filter fun t => (s.thr t).loc.holdsGrant op = true).card

/-- The number of threads engaged with the node. -/
def engaged (s : NodeConfig τ ν) : Nat :=
  (Finset.univ.filter fun t => (s.thr t).loc.isEngaged = true).card

/-- No delete request is made. -/
def accessOnly (s : NodeConfig τ ν) : Act τ NodeReq → Bool
  | .run t x _ => (s.thr t).loc.isEngaged || decide (x ≠ .delete)
  | .spurious _ => true

/-- Only reads and writes are requested, and a request starts only while fewer than 255 threads are
engaged with the node. -/
def atMost255 (s : NodeConfig τ ν) : Act τ NodeReq → Bool
  | .run t x _ => (s.thr t).loc.isEngaged || (decide (x ≠ .delete) && decide (engaged s < 255))
  | .spurious _ => true

/-- Exclusion and bookkeeping of readers and writers. -/
structure AccessOk (n : ν) (s : NodeConfig τ ν) : Prop where
  oneWriter : grants s .write ≤ 1
  noReader : grants s .write = 1 → grants s .read = 0
  counterRead : (s.mem.node n).counter .readInProgress = grants s .read
  counterWrite : (s.mem.node n).counter .writeInProgress = grants s .write
  /-- `curr_op` says which kind of grant is outstanding. -/
  currOp : (s.mem.node n).currOp =
    if 0 < grants s .read then .read else if 0 < grants s .write then .write else .opNone
  /-- A release undoes the caller's own kind of grant. -/
  ownKind : ∀ t op currOp, (s.thr t).loc = .releasing op currOp → currOp = op

/-- Where readers and writers can be. -/
def NodeLoc.isAccess : NodeLoc → Bool
  | .idle | .wait .read | .wait .write | .holds .read | .holds .write => true
  | .releasing .read _ | .releasing .write _ => true
  | _ => false

section Locations

variable {n : ν} {x r : NodeReq} {l : NodeLoc} {m m' m₁ : CrudMem ν} {c : ν → CrudNodeState → Nat}
  {notes : List (Note (ν × CrudCv))} {st : Status (ν × CrudCv) NodeLoc}

theorem Arrives.ne_delete (ha : Arrives n x m l r m₁) (hl : l.isAccess = true)
    (hx : l.isEngaged = false → x ≠ .delete) : r ≠ .delete := by
  cases ha with
  | fresh => exact hx rfl
  | resumed =>
      intro hr
      subst hr
      cases hl

/-- Readers and writers stay among their locations. -/
theorem NodeMove.isAccess (hmove : NodeMove n x m l m' notes st) (hl : l.isAccess = true)
    (hx : l.isEngaged = false → x ≠ .delete)
    (hop : ∀ op currOp, l = .releasing op currOp → currOp = op) : st.loc.isAccess = true := by
  cases hmove with
  | rejected | quit => rfl
  | signal => cases hl
  | @block l r m₁ m' s cv ha =>
      have hr := ha.ne_delete hl hx
      cases r with
      | read | write => rfl
      | delete => exact absurd rfl hr
  | @grant l r m₁ m' s ha =>
      have hr := ha.ne_delete hl hx
      cases r with
      | read | write => rfl
      | delete => exact absurd rfl hr
  | leave ha hloop =>
      exact absurd (NodeReq.loop_leave hloop).1 (ha.ne_delete hl hx)
  | @readOp op => cases op <;> first | rfl | cases hl
  | @release op currOp =>
      have heq := hop op currOp rfl
      subst heq
      cases currOp <;> first | rfl | cases hl
  | deferDelete ha => cases ha <;> cases hl
  | grantDelete ha => cases ha <;> cases hl

/-- A reader or writer contributes to one state at most, and to none while idle. -/
theorem contrib_le_isEngaged (hl : l.isAccess = true) (s : CrudNodeState) :
    contrib s l ≤ l.isEngaged.toNat := by
  cases l with
  | deleteMgr | deleteMgrWait | releaseMgr => cases hl
  | idle => exact Nat.le_refl _
  | wait r | holds op | releasing op currOp =>
      simp only [contrib, NodeLoc.isEngaged, Bool.toNat_true]
      split <;> omega

/-- A pass through the loop of a reader or writer fails no assertion. -/
theorem requestLoop_ne_abort (h : Counted m c) (hr : r ≠ .delete) (hpc : c n .pendingCreate = 0)
    (hdip : c n .deleteInProgress = 0) (hcip : c n .createInProgress = 0)
    (hlt : ∀ s, c n s < 255) : requestLoop n r m ≠ .abort := by
  have henter : ∀ {s : CrudNodeState} {k : CrudMem ν → NodeEffect ν}, s ≠ .noOp →
      (c n s = 0 ∨ s.isExclusive = false) → (∀ m, k m ≠ .abort) →
      .call (crudNodeEnterState m n s) k ≠ (.abort : NodeEffect ν) := by
    intro s k hs hex hk habort
    obtain ⟨m', hm'⟩ := h.exists_enter (n := n) hs (hex.imp_right fun hex => ⟨hex, hlt s⟩)
    rcases Effect.call_eq_abort.mp habort with hnone | ⟨m'', -, hk'⟩
    · rw [hm'] at hnone; cases hnone
    · exact hk m'' hk'
  obtain ⟨L, hmem⟩ := h.mem
  unfold requestLoop
  cases hloop : r.loop m n with
  | quit notes => simp
  | fail => exact absurd hloop (hmem.loop_ne_fail trivial hr hpc hdip hcip)
  | block s cv =>
      obtain ⟨rfl, -⟩ := NodeReq.loop_block hloop
      exact henter r.pendingState_ne_noOp (.inr (by cases r <;> rfl)) (by simp)
  | grant s =>
      obtain ⟨hs, -, -, -, -, hwr, -⟩ := NodeReq.loop_grant hloop
      refine henter (releasedState_ne_noOp hs) ?_ (by simp)
      cases r with
      | read => cases hs; exact .inr rfl
      | write => cases hs; exact .inl (h.count_zero (by decide) hwr)
      | delete => exact absurd rfl hr
  | leave => exact absurd (NodeReq.loop_leave hloop).1 hr

/-- No assertion fails in a step of a reader or writer. -/
theorem nodeExec_ne_abort (h : Counted m c) (hl : l.isAccess = true)
    (hfacts : LocFacts n c l) (hx : l.isEngaged = false → x ≠ .delete)
    (hpc : c n .pendingCreate = 0) (hdip : c n .deleteInProgress = 0)
    (hcip : c n .createInProgress = 0)
    (hlt : ∀ s, moved (nodeWeight n) c l .idle n s < 255) : nodeExec n l x m ≠ .abort := by
  -- what the thread carries is counted, and is what `curr_op` says
  have hown : ∀ op s, releasedState op = some s → contrib s l = 1 →
      0 < c n s ∧ (m.node n).currOp = op := by
    intro op s hs hone
    have hle := hfacts.carries n s
    rw [nodeWeight, if_pos rfl, hone] at hle
    exact ⟨hle, (h.op n).op op s hs hle⟩
  cases l with
  | deleteMgr | deleteMgrWait | releaseMgr => cases hl
  | idle =>
      simp only [nodeExec]
      split
      · simp
      · refine requestLoop_ne_abort h (hx rfl) hpc hdip hcip fun s => ?_
        have := hlt s
        rwa [moved_self] at this
  | wait r =>
      have hr : r ≠ .delete := by intro hr; subst hr; cases hl
      have hpos : 0 < c n r.pendingState := by
        have := hfacts.carries n r.pendingState
        simp only [nodeWeight, contrib, if_true] at this
        omega
      -- it leaves the pending state it is counted in, and loops
      obtain ⟨m₁, hm₁⟩ := h.exists_exit r.pendingState_ne_noOp hpos
      have h₁ := (Arrives.resumed (x := x) hm₁).counted h
      have hzero : ∀ s, c n s = 0 → moved (nodeWeight n) c (.wait r) .idle n s = 0 := by
        intro s hs
        rw [moved_node, hs]
        exact Nat.zero_sub _
      intro habort
      rcases Effect.call_eq_abort.mp habort with hnone | ⟨m₂, hm₂, hk⟩
      · rw [hm₁] at hnone; cases hnone
      · rw [hm₁] at hm₂
        cases hm₂
        exact requestLoop_ne_abort h₁ hr (hzero _ hpc) (hzero _ hdip) (hzero _ hcip) hlt hk
  | holds op =>
      have hcur : ∃ s, releasedState op = some s := by
        cases op <;> first | exact ⟨_, rfl⟩ | cases hl
      obtain ⟨s, hs⟩ := hcur
      have hop := (hown op s hs (by simp [contrib, hs])).2
      have hne : op ≠ .opNone := by rintro rfl; cases hl
      simp [nodeExec, hop, hne]
  | releasing op currOp =>
      -- `curr_op` did not change since it was read
      have heq := hfacts.released op currOp rfl
      subst heq
      have htail : ∀ nd : CrudNode, ∃ notes, releaseNodeTail n currOp nd = some notes := by
        intro nd
        cases currOp <;> first | exact ⟨_, rfl⟩ | cases hl
      have hcur : ∃ s, releasedState currOp = some s := by
        cases currOp <;> first | exact ⟨_, rfl⟩ | cases hl
      obtain ⟨s, hs⟩ := hcur
      have hpos := (hown currOp s hs (by simp [contrib, hs])).1
      obtain ⟨m₁, hm₁⟩ := h.exists_exit (releasedState_ne_noOp hs) hpos
      obtain ⟨notes, hnotes⟩ := htail (m₁.node n)
      simp [nodeExec, Effect.call, hs, hm₁, hnotes]

end Locations

section Runs

variable {n : ν} {s s' : NodeConfig τ ν} {t : τ} {x : NodeReq} {a : Act τ NodeReq}
  {notes : List (Note (ν × CrudCv))} {st : Status (ν × CrudCv) NodeLoc} {spurious : Bool}

theorem contrib_op (op : CrudOpType) {s : CrudNodeState} (hs : releasedState op = some s)
    (l : NodeLoc) : contrib s l = (l.holdsGrant op).toNat := by
  have hiff : ∀ op', releasedState op' = some s ↔ op' = op :=
    fun op' => ⟨fun h => releasedState_inj h hs, fun h => h ▸ hs⟩
  cases l with
  | wait r =>
      have hne : s ≠ r.pendingState := fun h => r.releasedState_ne_pendingState (h ▸ hs)
      simp [contrib, NodeLoc.holdsGrant, hne]
  | holds op' | releasing op' _ =>
      simp only [contrib, NodeLoc.holdsGrant, hiff]
      cases op' <;> cases op <;> rfl
  | deleteMgr | deleteMgrWait =>
      have hne : s ≠ .pendingDelete := by rintro rfl; cases op <;> cases hs
      simp [contrib, NodeLoc.holdsGrant, hne]
  | _ => rfl

omit [DecidableEq τ] in
/-- The counts of an operation's state are the unreleased grants. -/
theorem counts_eq_grants (op : CrudOpType) {s₁ : CrudNodeState}
    (hs : releasedState op = some s₁) : counts (nodeWeight n) s.thr n s₁ = grants s op := by
  rw [counts_node, grants, card_filter_loc s.thr fun l => l.holdsGrant op]
  exact congrArg _ (funext (contrib_op op hs))

omit [DecidableEq ν] [DecidableEq τ] in
theorem engaged_eq (s : NodeConfig τ ν) :
    engaged s = tally s.thr fun l => l.isEngaged.toNat :=
  card_filter_loc s.thr fun l => l.isEngaged

/-- All threads read and write only. -/
def Access (s : NodeConfig τ ν) : Prop :=
  ∀ t, (s.thr t).loc.isAccess = true

theorem Access.init (h : (nodeMachine τ spurious n).init s) : Access s := by
  intro t
  rw [h.2 t]
  rfl

theorem Access.step (hacc : Access s) (h : NodeInv n s) (hc : accessOnly s a = true)
    (hstep : (nodeMachine τ spurious n).step s a = .next s') : Access s' := by
  intro u
  cases a with
  | run t x picks =>
      obtain ⟨notes, st, hran⟩ := Program.ran_of_step hstep
      by_cases hu : u = t
      · subst hu
        rw [hran.self]
        refine (nodeMove_of_exec hran.exec).isAccess (hacc u) (fun hidle => ?_)
          (h.locFacts u).released
        simpa [accessOnly, hidle] using hc
      · rw [hran.loc_of_ne hu]; exact hacc u
  | spurious t =>
      obtain ⟨-, cv, l, hw, rfl⟩ := Program.spurious_of_step hstep
      rw [loc_update_notified hw]
      exact hacc u

omit [DecidableEq τ] in
/-- Nobody deletes, or waits for it. -/
theorem Access.noDelete (hacc : Access s) :
    counts (nodeWeight n) s.thr n .deleteInProgress = 0 ∧
      counts (nodeWeight n) s.thr n .pendingDelete = 0 := by
  have hzero : ∀ l : NodeLoc, l.isAccess = true →
      contrib .deleteInProgress l = 0 ∧ contrib .pendingDelete l = 0 := by
    intro l hl
    cases l with
    | idle => exact ⟨rfl, rfl⟩
    | wait r => cases r <;> first | exact ⟨rfl, rfl⟩ | cases hl
    | holds op => cases op <;> first | exact ⟨rfl, rfl⟩ | cases hl
    | releasing op _ => cases op <;> first | exact ⟨rfl, rfl⟩ | cases hl
    | deleteMgr | deleteMgrWait | releaseMgr => cases hl
  simp only [counts_node, tally_eq_zero]
  exact ⟨fun t => (hzero _ (hacc t)).1, fun t => (hzero _ (hacc t)).2⟩

/-- With fewer than 255 other threads engaged, every counter has room. -/
theorem Access.hasRoom (hacc : Access s)
    (hlt : engaged s < 255 + (s.thr t).loc.isEngaged.toNat) (s₁ : CrudNodeState) :
    moved (nodeWeight n) (counts (nodeWeight n) s.thr) (s.thr t).loc .idle n s₁ < 255 := by
  have hothers : tally (Function.update s.thr t (.running .idle)) (contrib s₁) ≤
      tally (Function.update s.thr t (.running .idle)) fun l => l.isEngaged.toNat := by
    refine Finset.sum_le_sum fun u _ => contrib_le_isEngaged ?_ s₁
    by_cases hu : u = t
    · subst hu; simp [NodeLoc.isAccess]
    · simpa [hu] using hacc u
  have hcontrib := tally_update s.thr (contrib s₁) t (.running .idle)
  have hengaged := tally_update s.thr (fun l => l.isEngaged.toNat) t (.running .idle)
  rw [← engaged_eq] at hengaged
  rw [moved_node, counts_node]
  simp only [Status.loc_running, show NodeLoc.idle.isEngaged.toNat = 0 from rfl,
    show contrib s₁ .idle = 0 from rfl] at hcontrib hengaged ⊢
  omega

/-- Room in every counter is room for the next step. -/
theorem noOverflow_of_room {m : CrudMem ν} {c : ν → CrudNodeState → Nat} {l : NodeLoc}
    (h : Counted m c) (hlt : ∀ s, moved (nodeWeight n) c l .idle n s < 255) :
    noOverflow n l x m = true := by
  have hloop : ∀ {r : NodeReq} {m₁ : CrudMem ν}, Counted m₁ (moved (nodeWeight n) c l .idle) →
      (r.loop m₁ n).hasRoom (m₁.node n) = true := by
    intro r m₁ h₁
    cases hloop : r.loop m₁ n with
    | block s cv =>
        obtain ⟨rfl, -⟩ := NodeReq.loop_block hloop
        exact h₁.hasRoom r.pendingState_ne_noOp (hlt _)
    | grant s =>
        exact h₁.hasRoom (releasedState_ne_noOp (NodeReq.loop_grant hloop).1) (hlt _)
    | _ => rfl
  cases l with
  | idle =>
      rw [moved_self] at hloop
      exact hloop h
  | wait r =>
      simp only [noOverflow]
      split
      · rfl
      · next m₁ hm₁ => exact hloop ((Arrives.resumed (x := x) hm₁).counted h)
  | _ => rfl

/-- What is invariant while at most 255 threads are engaged. -/
structure AccessInv (n : ν) (s : NodeConfig τ ν) : Prop where
  inv : NodeInv n s
  access : Access s
  few : engaged s ≤ 255

theorem AccessInv.room (h : AccessInv n s) {picks : List (Option τ)}
    (hc : atMost255 s (.run t x picks) = true) (s₁ : CrudNodeState) :
    moved (nodeWeight n) (counts (nodeWeight n) s.thr) (s.thr t).loc .idle n s₁ < 255 := by
  refine h.access.hasRoom ?_ s₁
  have hfew := h.few
  cases he : (s.thr t).loc.isEngaged with
  | true => simp only [Bool.toNat_true]; omega
  | false =>
      simp only [atMost255, he, Bool.false_or, Bool.and_eq_true, decide_eq_true_eq] at hc
      exact Nat.lt_of_lt_of_le hc.2 (Nat.le_add_right _ _)

omit [DecidableEq ν] [DecidableEq τ] in
theorem accessOnly_of_atMost255 (hc : atMost255 s a = true) : accessOnly s a = true := by
  cases a with
  | run t x picks =>
      simp only [atMost255, accessOnly, Bool.or_eq_true, Bool.and_eq_true] at hc ⊢
      exact hc.imp_right And.left
  | spurious t => rfl

theorem AccessInv.step (h : AccessInv n s) (hc : atMost255 s a = true)
    (hstep : (nodeMachine τ spurious n).step s a = .next s') : AccessInv n s' := by
  have hroom : noOverflowAct n s a = true := by
    cases a with
    | run t x picks => exact noOverflow_of_room h.inv.counted (h.room hc)
    | spurious t => rfl
  refine ⟨h.inv.step hroom hstep, h.access.step h.inv (accessOnly_of_atMost255 hc) hstep, ?_⟩
  have hfew := h.few
  cases a with
  | run t x picks =>
      obtain ⟨notes, st, hran⟩ := Program.ran_of_step hstep
      have htally := hran.tally fun l => l.isEngaged.toNat
      rw [← engaged_eq, ← engaged_eq] at htally
      have hle := st.loc.isEngaged.toNat_le
      cases he : (s.thr t).loc.isEngaged with
      | true => simp only [he, Bool.toNat_true] at htally; omega
      | false =>
          simp only [atMost255, he, Bool.false_or, Bool.and_eq_true, decide_eq_true_eq] at hc
          simp only [he, Bool.toNat_false] at htally
          omega
  | spurious t =>
      obtain ⟨-, cv, l, hw, rfl⟩ := Program.spurious_of_step hstep
      rw [engaged_eq, tally_congr (loc_update_notified hw), ← engaged_eq]
      exact hfew

theorem AccessInv.init (h : (nodeMachine τ spurious n).init s) : AccessInv n s := by
  refine ⟨.init h, .init h, ?_⟩
  have hzero : engaged s = 0 := by
    rw [engaged_eq, tally_eq_zero]
    intro t
    rw [h.2 t]
    rfl
  omega

theorem AccessInv.ok (h : AccessInv n s) : AccessOk n s := by
  have hread := counts_eq_grants (n := n) (s := s) .read rfl
  have hwrite := counts_eq_grants (n := n) (s := s) .write rfl
  have hop := h.inv.counted.op n
  constructor
  case oneWriter => rw [← hwrite]; exact h.inv.writer
  case noReader =>
    intro hone
    rw [← hread]
    exact h.inv.readers (by rw [hwrite]; omega)
  case counterRead => rw [h.inv.counted.counter_eq n (by decide), hread]
  case counterWrite => rw [h.inv.counted.counter_eq n (by decide), hwrite]
  case currOp =>
    split
    case isTrue hr => exact hop.op .read _ rfl (by rw [hread]; exact hr)
    case isFalse hr =>
      split
      case isTrue hw => exact hop.op .write _ rfl (by rw [hwrite]; exact hw)
      case isFalse hw =>
        refine hop.none fun op s₁ hs₁ => ?_
        cases op <;> cases hs₁
        · exact h.access.noDelete.1
        · exact h.inv.noCreate.1
        · rw [hread]; omega
        · rw [hwrite]; omega
  case ownKind => exact fun t => (h.inv.locFacts t).released

/-- **Readers and writers exclude each other.**  In every run of readers and writers with at most
255 threads engaged at once, writers are alone, counters and `curr_op` agree with the unreleased
grants, and no assertion fails. -/
theorem readersWriters_exclusive
    (h : (nodeMachine τ spurious n).ReachableUnder (fun s a => atMost255 s a = true) s) :
    AccessOk n s ∧
      ∀ a, atMost255 s a = true → (nodeMachine τ spurious n).step s a ≠ .abort := by
  have hinv : AccessInv n s :=
    h.invariant (fun _ h => .init h) fun _ _ _ hinv hc hstep => hinv.step hc hstep
  refine ⟨hinv.ok, fun a hc habort => ?_⟩
  cases a with
  | run t x picks =>
      refine nodeExec_ne_abort hinv.inv.counted (hinv.access t) (hinv.inv.locFacts t)
        (fun hidle => ?_) hinv.inv.noCreate.2 hinv.access.noDelete.1 hinv.inv.noCreate.1
        (hinv.room hc) (Program.exec_of_abort habort).2
      simpa [accessOnly, hidle] using accessOnly_of_atMost255 hc
  | spurious t => exact Program.not_abort_spurious habort

/-- All threads idle on an initialised manager with `k` nodes. -/
def freshConfig (τ : Type*) (k : Nat) : NodeConfig τ (Fin k) where
  mem := freshMgr k
  thr _ := .running .idle

/-- The readers `r` and `r'` get in, the second one leaves, the writer `w` has to wait. -/
def readersTrace (r r' w : τ) : List (Act τ NodeReq) :=
  [.run r .read [], .run r' .read [], .run r' .read [], .run r' .read [], .run w .write []]

theorem readersWriters_exclusive_trace :
    ∃ s : NodeConfig (Fin 3) (Fin 1), AccessOk 0 s ∧ grants s .read = 1 ∧
      (s.mem.node 0).counter .pendingWrite = 1 := by
  have hrun : ((nodeMachine (Fin 3) false (0 : Fin 1)).execUnder atMost255 (freshConfig _ 1)
      (readersTrace 0 1 2)).holds (fun s => decide (grants s .read = 1 ∧
        (s.mem.node 0).counter .pendingWrite = 1)) = true := by
    decide +kernel
  obtain ⟨s, hs, hp⟩ := Outcome.holds_iff.mp hrun
  have hinit : (nodeMachine (Fin 3) false (0 : Fin 1)).init (freshConfig _ 1) :=
    ⟨freshMgr_initialised 1, fun _ => rfl⟩
  have hreach := Machine.reachableUnder_of_execUnder (.init hinit) hs
  exact ⟨s, (readersWriters_exclusive hreach).1, by simpa using hp⟩

end Runs

section WakeUps

variable {n : ν} {s s' : NodeConfig τ ν} {t u : τ} {x : NodeReq} {a : Act τ NodeReq}
  {notes : List (Note (ν × CrudCv))} {st : Status (ν × CrudCv) NodeLoc} {spurious : Bool}

/-- If a thread is blocked and was not notified, then somebody holds a grant or some blocked thread
was notified. -/
def SomebodyAwake (s : NodeConfig τ ν) : Prop :=
  (∃ t cv l, s.thr t = .waiting cv l) →
    0 < grants s .read + grants s .write ∨ ∃ t cv l, s.thr t = .notified cv l

/-- When `t` resumes it is the last pending reader and finds the node free, but a writer pending:
the reader's loop sends it back to wait. -/
def sentBack (n : ν) (s : NodeConfig τ ν) (t : τ) : Bool :=
  decide ((s.thr t).loc = .wait .read) &&
  !(s.mem.node n).isStatusSet .writeInProgress &&
  !(s.mem.node n).isStatusSet .readInProgress &&
  decide ((s.mem.node n).counter .pendingRead = 1) &&
  (s.mem.node n).isStatusSet .pendingWrite

/-- A blocked writer was notified. -/
def writerNotified (n : ν) (s : NodeConfig τ ν) : Bool :=
  decide (∃ u, s.thr u = .notified (n, .writersCv) (.wait .write))

/-- Reads and writes only, no counter is pushed past 255, and a reader is sent back to wait for a
pending writer only when some writer was notified. -/
def notStranded (n : ν) (s : NodeConfig τ ν) (a : Act τ NodeReq) : Bool :=
  accessOnly s a && noOverflowAct n s a &&
    match a with
    | .run t _ _ => !sentBack n s t || writerNotified n s
    | .spurious _ => true

omit [DecidableEq ν] in
/-- A reader or writer that is blocked waits on its own condition variable. -/
theorem StatusOk.waiting_cases {cv : ν × CrudCv} {l : NodeLoc} (h : StatusOk n (.waiting cv l))
    (hacc : l.isAccess = true) :
    l = .wait .read ∧ cv = (n, .rdrsCv) ∨ l = .wait .write ∧ cv = (n, .writersCv) := by
  cases l with
  | wait r =>
      cases r with
      | read => exact .inl ⟨rfl, h⟩
      | write => exact .inr ⟨rfl, h⟩
      | delete => cases hacc
  | _ => first | exact h.elim | cases hacc

omit [DecidableEq ν] in
/-- A thread inside a wait is blocked or was notified. -/
theorem StatusOk.blocked (h : StatusOk n st) {r : NodeReq} (hl : st.loc = .wait r) :
    (∃ cv, st = .waiting cv (.wait r)) ∨ ∃ cv, st = .notified cv (.wait r) := by
  cases st with
  | running l => rw [Status.loc_running] at hl; subst hl; exact h.elim
  | waiting cv l => exact .inl ⟨cv, by rw [← hl]; rfl⟩
  | notified cv l => exact .inr ⟨cv, by rw [← hl]; rfl⟩

omit [DecidableEq τ] in
/-- A pending state that is counted has a thread waiting in it. -/
theorem exists_wait {r : NodeReq} (hr : r ≠ .delete)
    (hpos : 0 < counts (nodeWeight n) s.thr n r.pendingState) :
    ∃ t, (s.thr t).loc = .wait r := by
  rw [counts_node, tally_pos] at hpos
  obtain ⟨t, ht⟩ := hpos
  refine ⟨t, ?_⟩
  cases hl : (s.thr t).loc with
  | wait r' =>
      rw [hl] at ht
      cases r <;> cases r' <;> first | rfl | cases ht
  | holds op | releasing op _ =>
      rw [hl] at ht
      simp [contrib, r.releasedState_ne_pendingState] at ht
  | deleteMgr | deleteMgrWait => rw [hl] at ht; cases r <;> first | exact absurd rfl hr | cases ht
  | idle | releaseMgr => rw [hl] at ht; cases ht

omit [Fintype τ] in
/-- Notified threads that do not move stay notified. -/
theorem awake_of_notified (hran : (nodeProgram τ spurious n).Ran s t x s' notes st) (hu : u ≠ t)
    {cv : ν × CrudCv} {l : NodeLoc} (h : s.thr u = .notified cv l) :
    ∃ t cv l, s'.thr t = .notified cv l :=
  ⟨u, cv, l, hran.notified_of_ne hu h⟩

/-- After a release that leaves the node free, a blocked thread has been notified. -/
theorem awake_of_release (hinv : NodeInv n s') (hacc : Access s')
    (hran : (nodeProgram τ spurious n).Ran s t x s' notes st) (hst : st.loc = .idle)
    (hnotes : notes = wakeNotes n (s'.mem.node n))
    (hblocked : ∃ t cv l, s'.thr t = .waiting cv l) : ∃ t cv l, s'.thr t = .notified cv l := by
  have hne : ∀ {u r}, (s'.thr u).loc = .wait r → u ≠ t := by
    intro u r hu hut
    rw [hut, hran.self, hst] at hu
    cases hu
  have hset := fun s₁ (hs₁ : s₁ ≠ CrudNodeState.noOp) => hinv.counted.isStatusSet_eq n hs₁
  by_cases hpr : 0 < counts (nodeWeight n) s'.thr n .pendingRead
  · -- all readers are woken
    obtain ⟨u, hu⟩ := exists_wait (r := .read) (by decide) hpr
    have hmem : Note.broadcast (n, CrudCv.rdrsCv) ∈ notes := by
      simp [hnotes, wakeNotes, hset, hpr]
    rcases (hinv.status u).blocked hu with ⟨cv, hw⟩ | ⟨cv, hn⟩
    · have hcv : cv = (n, .rdrsCv) := by
        have := hinv.status u
        rwa [hw] at this
      rw [hcv] at hw
      exact absurd hw (hran.broadcast hmem (hne hu) _)
    · exact ⟨u, cv, _, hn⟩
  · by_cases hpw : 0 < counts (nodeWeight n) s'.thr n .pendingWrite
    · -- one writer is woken
      obtain ⟨u, hu⟩ := exists_wait (r := .write) (by decide) hpw
      have hmem : Note.signal (n, CrudCv.writersCv) ∈ notes := by
        simp [hnotes, wakeNotes, hset, hpr, hpw]
      rcases (hinv.status u).blocked hu with ⟨cv, hw⟩ | ⟨cv, hn⟩
      · have hcv : cv = (n, .writersCv) := by
          have := hinv.status u
          rwa [hw] at this
        rw [hcv] at hw
        obtain ⟨v, l, -, -, hv⟩ := hran.signal hmem ⟨u, _, hran.waiting_of_ne (hne hu) hw⟩
        exact ⟨v, _, _, hv⟩
      · exact ⟨u, cv, _, hn⟩
    · -- nobody is pending
      obtain ⟨u, cv, l, hw⟩ := hblocked
      have hstatus := hinv.status u
      have haccess := hacc u
      rw [hw] at hstatus haccess
      have hcount := (hinv.locFacts u).carries n
      rcases hstatus.waiting_cases haccess with ⟨rfl, -⟩ | ⟨rfl, -⟩
      · have := hcount .pendingRead
        simp only [hw, Status.loc_waiting, nodeWeight, contrib, NodeReq.pendingState,
          if_true] at this
        omega
      · have := hcount .pendingWrite
        simp only [hw, Status.loc_waiting, nodeWeight, contrib, NodeReq.pendingState,
          if_true] at this
        omega

/-- A reader goes to wait on a free node only for a writer that was notified. -/
theorem awake_of_block (hinv : NodeInv n s) (hP : SomebodyAwake s)
    (hran : (nodeProgram τ spurious n).Ran s t x s' notes st) {r : NodeReq} {m₁ : CrudMem ν}
    (ha : Arrives n x s.mem (s.thr t).loc r m₁)
    (hsent : sentBack n s t = true → writerNotified n s = true) (hr : r = .read)
    (hwip : (m₁.node n).isStatusSet .writeInProgress = false)
    (hrip : (m₁.node n).isStatusSet .readInProgress = false)
    (hpr : (m₁.node n).isStatusSet .pendingRead = false)
    (hpw : (m₁.node n).isStatusSet .pendingWrite = true) :
    ∃ t cv l, s'.thr t = .notified cv l := by
  subst hr
  have h₁ := ha.counted hinv.counted
  have hset := fun s₁ (hs₁ : s₁ ≠ CrudNodeState.noOp) => hinv.counted.isStatusSet_eq n hs₁
  have hw₁ := h₁.count_zero (by decide) hwip
  have hr₁ := h₁.count_zero (by decide) hrip
  have hp₁ := h₁.count_zero (by decide) hpr
  have hq₁ := h₁.count_pos (by decide) hpw
  simp only [moved_node] at hw₁ hr₁ hp₁ hq₁
  generalize hl : (s.thr t).loc = l at *
  cases ha with
  | fresh =>
      -- it newly came and found a pending writer: that one waits, or was notified
      have hpos : 0 < counts (nodeWeight n) s.thr n .pendingWrite := hq₁
      obtain ⟨u, hu⟩ := exists_wait (r := .write) (by decide) hpos
      have hut : u ≠ t := by rintro rfl; rw [hl] at hu; cases hu
      rcases (hinv.status u).blocked hu with ⟨cv, hw⟩ | ⟨cv, hn⟩
      · rcases hP ⟨u, cv, _, hw⟩ with hgrant | ⟨v, cv', l', hn⟩
        · rw [← counts_eq_grants (n := n) .read rfl, ← counts_eq_grants (n := n) .write rfl]
            at hgrant
          have hr₂ : counts (nodeWeight n) s.thr n .readInProgress = 0 := hr₁
          have hw₂ : counts (nodeWeight n) s.thr n .writeInProgress = 0 := hw₁
          omega
        · have hvt : v ≠ t := by
            rintro rfl
            have := hinv.status v
            rw [hn] at this hl
            rw [Status.loc_notified] at hl
            subst hl
            exact this
          exact awake_of_notified hran hvt hn
      · exact awake_of_notified hran hut hn
  | resumed =>
      -- it was notified and is sent back, which is fine where the writer was notified too
      have hcarry := (hinv.locFacts t).carries n .pendingRead
      rw [hl] at hcarry
      simp only [nodeWeight, contrib, NodeReq.pendingState, if_true, reduceCtorEq, if_false,
        Nat.sub_zero, Nat.add_zero] at hcarry hw₁ hr₁ hp₁ hq₁
      have hone : counts (nodeWeight n) s.thr n .pendingRead = 1 := by omega
      have hback : sentBack n s t = true := by
        simp only [sentBack, hl, hset _ (by decide : CrudNodeState.writeInProgress ≠ .noOp),
          hset _ (by decide : CrudNodeState.readInProgress ≠ .noOp),
          hset _ (by decide : CrudNodeState.pendingWrite ≠ .noOp),
          hinv.counted.counter_eq n (by decide : CrudNodeState.pendingRead ≠ .noOp)]
        simp [hone, hw₁, hr₁, hq₁]
      have hnotified := hsent hback
      simp only [writerNotified, decide_eq_true_eq] at hnotified
      obtain ⟨u, hu⟩ := hnotified
      have hut : u ≠ t := by rintro rfl; rw [hu] at hl; cases hl
      exact awake_of_notified hran hut hu

/-- What a thread found in progress when it went to wait is still granted. -/
theorem NodeInv.grants_of_block (hinv : NodeInv n s) {cv : ν × CrudCv} {r : NodeReq}
    {m₁ : CrudMem ν} (hran : (nodeProgram τ spurious n).Ran s t x s' notes (.waiting cv (.wait r)))
    (ha : Arrives n x s.mem (s.thr t).loc r m₁) (op : CrudOpType) {s₁ : CrudNodeState}
    (hs₁ : releasedState op = some s₁) (hset : (m₁.node n).isStatusSet s₁ = true) :
    0 < grants s' op := by
  have hpos := (ha.counted hinv.counted).count_pos (releasedState_ne_noOp hs₁) hset
  have hsame := congrFun (congrFun (moved_counts hran (nodeWeight n)) n) s₁
  have hwait : contrib s₁ (.wait r) = 0 := by
    have hne : s₁ ≠ r.pendingState := fun h => r.releasedState_ne_pendingState (h ▸ hs₁)
    simp [contrib, hne]
  rw [moved_node] at hpos hsame
  rw [← counts_eq_grants (n := n) op hs₁, ← hsame, Status.loc_waiting, hwait]
  exact hpos

omit [DecidableEq τ] in
/-- A release after which nobody holds a grant wakes the first class of pending threads. -/
theorem NodeInv.notes_of_release (hinv : NodeInv n s) {op : CrudOpType}
    (hop : op = .read ∨ op = .write) (htail : releaseNodeTail n op (s.mem.node n) = some notes)
    (hno : ¬ 0 < grants s .read + grants s .write) : notes = wakeNotes n (s.mem.node n) := by
  have hrip : (s.mem.node n).isStatusSet .readInProgress = false := by
    rw [hinv.counted.isStatusSet_eq n (by decide), counts_eq_grants .read rfl]
    simp only [decide_eq_false_iff_not]
    omega
  rcases hop with rfl | rfl
  · simpa [releaseNodeTail, hrip] using htail.symm
  · simpa [releaseNodeTail] using htail.symm

/-- Step lemma for threads that run. -/
theorem SomebodyAwake.ran (hP : SomebodyAwake s) (hinv : NodeInv n s) (hacc : Access s)
    (hinv' : NodeInv n s') (hacc' : Access s')
    (hran : (nodeProgram τ spurious n).Ran s t x s' notes st)
    (hx : (s.thr t).loc.isEngaged = false → x ≠ .delete)
    (hsent : sentBack n s t = true → writerNotified n s = true) : SomebodyAwake s' := by
  intro hblocked
  have hloc := hacc t
  have hfacts := hinv.locFacts t
  have hmove := nodeMove_of_exec hran.exec
  -- a grant of the thread itself
  have hself : ∀ op, st.loc.holdsGrant op = true → (op = .read ∨ op = .write) →
      0 < grants s' .read + grants s' .write := by
    intro op hop hrw
    have hpos : 0 < grants s' op :=
      Finset.card_pos.mpr ⟨t, by simpa [hran.self] using hop⟩
    rcases hrw with rfl | rfl <;> omega
  have hzero : ∀ {r : NodeReq} {m₁ : CrudMem ν}, Arrives n x s.mem (s.thr t).loc r m₁ →
      (m₁.node n).isStatusSet .pendingDelete = true → False := by
    intro r m₁ ha hset
    have hpos := (ha.counted hinv.counted).count_pos (by decide) hset
    rw [moved_node, hacc.noDelete.2] at hpos
    exact absurd hpos (by simp [contrib])
  have haccess : ∀ {op currOp}, (s.thr t).loc = .releasing op currOp →
      op = currOp ∧ (currOp = .read ∨ currOp = .write) := by
    intro op currOp hl
    rw [hl] at hloc hfacts
    obtain rfl := hfacts.released op currOp rfl
    cases currOp <;> first | exact ⟨rfl, .inl rfl⟩ | exact ⟨rfl, .inr rfl⟩ | cases hloc
  generalize hm' : s'.mem = m' at hmove
  generalize hl : (s.thr t).loc = l at hmove hloc hx hzero haccess
  cases hmove with
  | rejected hrej =>
      have hset := fun s₁ (hs₁ : s₁ ≠ CrudNodeState.noOp) => hinv.counted.isStatusSet_eq n hs₁
      simp [rejectsRequest, hset, hacc.noDelete, hinv.noCreate] at hrej
  | quit ha hloop =>
      rcases NodeReq.loop_quit hloop with ⟨-, hset, -⟩ | ⟨hr, -⟩
      · exact (hzero ha hset).elim
      · exact absurd hr (ha.ne_delete hloc hx)
  | @block l r m₁ m' s₁ cv ha hloop he =>
      have hr := ha.ne_delete hloc hx
      cases hwip : (m₁.node n).isStatusSet .writeInProgress with
      | true =>
          have := hinv.grants_of_block hran (hl ▸ ha) .write rfl hwip
          exact .inl (by omega)
      | false =>
          cases hrip : (m₁.node n).isStatusSet .readInProgress with
          | true =>
              have := hinv.grants_of_block hran (hl ▸ ha) .read rfl hrip
              exact .inl (by omega)
          | false =>
              right
              obtain ⟨-, -, -, hwhy⟩ := NodeReq.loop_block hloop
              simp only [hwip, hrip, hr, Bool.false_eq_true, false_and, and_false,
                false_or, true_and] at hwhy
              exact awake_of_block hinv hP hran (hl ▸ ha) hsent hwhy.1 hwip hrip
                hwhy.2.1 hwhy.2.2
  | @grant l r m₁ m' s₁ ha hloop he =>
      have hr := ha.ne_delete hloc hx
      refine .inl (hself r.op (by simp [NodeLoc.holdsGrant]) ?_)
      cases r with
      | read => exact .inl rfl
      | write => exact .inr rfl
      | delete => exact absurd rfl hr
  | leave ha hloop => exact absurd (NodeReq.loop_leave hloop).1 (ha.ne_delete hloc hx)
  | @readOp op =>
      refine .inl (hself op (by simp [NodeLoc.holdsGrant]) ?_)
      cases op <;> first | exact .inl rfl | exact .inr rfl | cases hloc
  | @release op currOp s₁ m' notes hs₁ he htail =>
      obtain ⟨rfl, hop⟩ := haccess rfl
      by_cases hgrant : 0 < grants s' .read + grants s' .write
      · exact .inl hgrant
      · rw [← hm'] at htail
        refine .inr (awake_of_release hinv' hacc' hran ?_ ?_ hblocked)
        · rcases hop with rfl | rfl <;> rfl
        · exact hinv'.notes_of_release hop htail hgrant
  | deferDelete ha => cases ha <;> cases hloc
  | grantDelete ha => cases ha <;> cases hloc
  | signal => cases hloc

/-- **Step lemma.** -/
theorem SomebodyAwake.step (hP : SomebodyAwake s) (hinv : NodeInv n s) (hacc : Access s)
    (hc : notStranded n s a = true) (hstep : (nodeMachine τ spurious n).step s a = .next s') :
    SomebodyAwake s' := by
  simp only [notStranded, Bool.and_eq_true] at hc
  have hinv' := hinv.step hc.1.2 hstep
  have hacc' := hacc.step hinv hc.1.1 hstep
  cases a with
  | spurious t =>
      obtain ⟨-, cv, l, hw, rfl⟩ := Program.spurious_of_step hstep
      exact fun _ => .inr ⟨t, cv, l, Function.update_self ..⟩
  | run t x picks =>
      obtain ⟨notes, st, hran⟩ := Program.ran_of_step hstep
      apply hP.ran hinv hacc hinv' hacc' hran
      · intro hidle
        simpa [accessOnly, hidle] using hc.1.1
      · intro h
        simpa [h] using hc.2

/-- **Readers and writers do not get stuck**, unless a reader that was notified goes back to wait
for a writer that was not (or a counter overflows): in every other run, whenever a thread is blocked,
somebody holds a grant or a blocked thread was notified. -/
theorem readersWriters_awake
    (h : (nodeMachine τ spurious n).ReachableUnder (fun s a => notStranded n s a = true) s) :
    SomebodyAwake s := by
  have hall : NodeInv n s ∧ Access s ∧ SomebodyAwake s := by
    refine h.invariant (I := fun s => NodeInv n s ∧ Access s ∧ SomebodyAwake s)
      (fun s h => ⟨.init h, .init h, ?_⟩) fun s a s' hI hc hstep => ?_
    · rintro ⟨t, cv, l, hw⟩
      rw [h.2 t] at hw
      cases hw
    · obtain ⟨hinv, hacc, hP⟩ := hI
      have hc' := hc
      simp only [notStranded, Bool.and_eq_true] at hc'
      exact ⟨hinv.step hc'.1.2 hstep, hacc.step hinv hc'.1.1 hstep,
        hP.step hinv hacc hc hstep⟩
  exact hall.2.2

/-- While `w` writes, the reader `r` and the writer `w'` go to wait; the release wakes the reader. -/
def strandedTrace (w r w' : τ) : List (Act τ NodeReq) :=
  [.run w .write [], .run r .read [], .run w' .write [], .run w .write [], .run w .write []]

theorem readersWriters_awake_trace :
    ∃ s : NodeConfig (Fin 3) (Fin 1), SomebodyAwake s ∧
      s.thr 1 = .notified (0, .rdrsCv) (.wait .read) ∧
      s.thr 2 = .waiting (0, .writersCv) (.wait .write) := by
  have hrun : ((nodeMachine (Fin 3) false (0 : Fin 1)).execUnder (notStranded 0)
      (freshConfig _ 1) (strandedTrace 0 1 2)).holds (fun s =>
        decide (s.thr 1 = .notified (0, .rdrsCv) (.wait .read) ∧
          s.thr 2 = .waiting (0, .writersCv) (.wait .write))) = true := by
    decide +kernel
  obtain ⟨s, hs, hp⟩ := Outcome.holds_iff.mp hrun
  have hinit : (nodeMachine (Fin 3) false (0 : Fin 1)).init (freshConfig _ 1) :=
    ⟨freshMgr_initialised 1, fun _ => rfl⟩
  have hreach := Machine.reachableUnder_of_execUnder (.init hinit) hs
  exact ⟨s, readersWriters_awake hreach, by simpa using hp⟩

/-- **The stranded state is reached**: after the same release the reader resumes, finds the pending
writer and waits again.  The node is free and both threads sleep. -/
theorem readersWriters_stranded :
    ∃ s : NodeConfig (Fin 3) (Fin 1),
      (nodeMachine (Fin 3) false (0 : Fin 1)).ReachableUnder (fun s a => accessOnly s a = true) s ∧
      ¬ SomebodyAwake s ∧ grants s .read = 0 ∧ grants s .write = 0 ∧
      s.thr 0 = .running .idle ∧ s.thr 1 = .waiting (0, .rdrsCv) (.wait .read) ∧
      s.thr 2 = .waiting (0, .writersCv) (.wait .write) := by
  have hrun : ((nodeMachine (Fin 3) false (0 : Fin 1)).execUnder accessOnly (freshConfig _ 1)
      (strandedTrace 0 1 2 ++ [.run 1 .read []])).holds (fun s =>
        decide (grants s .read = 0 ∧ grants s .write = 0 ∧ s.thr 0 = .running .idle ∧
          s.thr 1 = .waiting (0, .rdrsCv) (.wait .read) ∧
          s.thr 2 = .waiting (0, .writersCv) (.wait .write))) = true := by
    decide +kernel
  obtain ⟨s, hs, hp⟩ := Outcome.holds_iff.mp hrun
  have hinit : (nodeMachine (Fin 3) false (0 : Fin 1)).init (freshConfig _ 1) :=
    ⟨freshMgr_initialised 1, fun _ => rfl⟩
  have hreach := Machine.reachableUnder_of_execUnder (.init hinit) hs
  have hp' := of_decide_eq_true hp
  refine ⟨s, hreach, fun hP => ?_, hp'⟩
  obtain ⟨hr, hw, h₀, h₁, h₂⟩ := hp'
  rcases hP ⟨1, _, _, h₁⟩ with hgrant | ⟨t, cv, l, ht⟩
  · omega
  · match t with
    | 0 => rw [h₀] at ht; cases ht
    | 1 => rw [h₁] at ht; cases ht
    | 2 => rw [h₂] at ht; cases ht

end WakeUps

end CrudMgr
end MultithreadingBible
