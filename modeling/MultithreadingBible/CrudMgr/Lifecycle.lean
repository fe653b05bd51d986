import MultithreadingBible.CrudMgr.Represent
import MultithreadingBible.Lib.Machine

/-!
# CRUD manager: the representation invariant over whole lifetimes

`lifecycle` runs any sequence of `crud_node_init`, `crud_node_enter_state`, `crud_node_exit_state`
and `crud_node_destroy` on one freshly initialised manager, the last three on nodes that are live.
Memory that was never initialised is arbitrary.

`lifecycle_represents` — as long as no counter is pushed past 255, flags, counters and lists agree
in every state reached.
-/

namespace MultithreadingBible
namespace CrudMgr

open GlueThread Lib

variable {ν : Type*}

/-- No live node: nothing is represented. -/
theorem crudMgrInit_ok (m : CrudMem ν) :
    MemOk (crudMgrInit m) (fun _ => False) (fun _ _ => 0) fun _ => [] where
  counter n hn := hn.elim
  status n hn := hn.elim
  small n hn := hn.elim
  member n s := by simp
  listed :=
    { row := fun s => ⟨rfl, trivial⟩
      nodup := fun s => List.nodup_nil
      disjoint := fun s s' _ a ha => by simp at ha
      sub := fun s a ha => by simp at ha
      head := fun s hs => by obtain ⟨_, _, hs, _⟩ := hs; cases hs
      inj := fun s s' hs => by simpa using hs
      unlinked := fun a ha => by obtain ⟨_, _, _, ha⟩ := ha; exact ha.elim }

variable [DecidableEq ν]

/-- Zeroing a node that is not live disturbs no list, and its glue is then null. -/
theorem Listed.clearNode {m : CrudMem ν} {live : ν → Prop} {L : CrudNodeState → List ν} {n : ν}
    (h : Listed m live L) (hn : ¬ live n) :
    Listed (clearNode m n) (fun n' => n' = n ∨ live n') L := by
  refine Forest.extend h _ _ (fun i => rfl) ?_ ?_ ?_ ?_
  · rintro a ⟨n', s, rfl, hlive⟩
    have hne : n' ≠ n := by rintro rfl; exact hn hlive
    simp [CrudMgr.clearNode, hne]
  · rintro a ⟨n', s, rfl, hlive⟩
    exact ⟨n', s, rfl, .inr hlive⟩
  · rintro s ⟨n', s', hs, -⟩
    cases hs
  · rintro a ⟨n', s, rfl, hlive⟩ hdead
    have hne : n' = n := hlive.resolve_right fun hl => hdead ⟨n', s, rfl, hl⟩
    simp [CrudMgr.clearNode, hne]

/-- `crud_node_init` adds a live node in `no_op`. -/
theorem crudNodeInit_spec {m : CrudMem ν} {live : ν → Prop} {c : ν → CrudNodeState → Nat}
    {L : CrudNodeState → List ν} {n : ν} (h : MemOk m live c L) (hn : ¬ live n) :
    ∃ m', crudNodeInit m n = some m' ∧
      MemOk m' (fun n' => n' = n ∨ live n') (Function.update c n fun _ => 0)
        (Function.update L .noOp (n :: L .noOp)) ∧
      m'.nCrudNodes = m.nCrudNodes + 1 ∧ (m'.node n).currOp = .opNone ∧
      ∀ n', n' ≠ n → m'.node n' = m.node n' := by
  have hlisted := h.listed.clearNode hn
  have hfree : n ∉ L .noOp := fun hmem => hn (h.listed.live_of_mem hmem)
  have hempty : (clearNode m n).isGlueEmpty n .noOp = true :=
    (hlisted.isGlueEmpty_iff (.inl rfl) _).mpr hfree
  have hcall := enterNoOp_eq
    (m := { clearNode m n with nCrudNodes := (clearNode m n).nCrudNodes + 1 }) (n := n)
    (by simp [clearNode, zeroNode]) (by simp [clearNode, zeroNode]) hempty
  refine ⟨_, by rw [crudNodeInit, crudNodeEnterState_noOp]; exact hcall, ?_, ?_, ?_, ?_⟩
  · have hfull : ∀ s, full (fun _ => 0) s = if s = .noOp then 1 else 0 := by
      intro s; simp [full, total]
    refine ⟨?_, ?_, ?_, ?_, ?_⟩
    · intro n' hn' s
      by_cases hnn : n' = n
      · subst hnn
        rw [Function.update_self, hfull]
        by_cases hs : s = .noOp <;> simp [hs, clearNode, zeroNode]
      · rw [Function.update_of_ne hnn]
        simpa [hnn, clearNode] using h.counter n' (hn'.resolve_left hnn) s
    · intro n' hn' s
      by_cases hnn : n' = n
      · subst hnn
        rw [Function.update_self, hfull]
        by_cases hs : s = .noOp <;> simp [hs, clearNode, zeroNode]
      · rw [Function.update_of_ne hnn]
        simpa [hnn, clearNode] using h.status n' (hn'.resolve_left hnn) s
    · intro n' hn' s hs
      by_cases hnn : n' = n
      · subst hnn; simp
      · rw [Function.update_of_ne hnn]; exact h.small n' (hn'.resolve_left hnn) s hs
    · intro n' s
      by_cases hnn : n' = n
      · subst hnn
        rw [Function.update_self, hfull]
        by_cases hs : s = .noOp
        · subst hs; simp
        · simp only [ne_eq, hs, not_false_eq_true, Function.update_of_ne, if_false, Nat.lt_irrefl,
            and_false, iff_false]
          exact fun hmem => hn (h.listed.live_of_mem hmem)
      · rw [Function.update_of_ne hnn]
        by_cases hs : s = .noOp
        · subst hs; simp [hnn, h.member]
        · simp [hs, hnn, h.member]
    · exact (Listed.setNode hlisted n (firstEntry ((clearNode m n).node n) .noOp)).addToList
        (.inl rfl) hfree
  · rfl
  · simp [currOpOnEnter]
  · intro n' hn'; simp [hn', clearNode]

/-- Initialising nodes one after the other leaves all of them in `no_op`. -/
theorem initNodes_spec {ns : List ν} :
    ∀ {m : CrudMem ν} {live : ν → Prop} {L : CrudNodeState → List ν},
      MemOk m live (fun _ _ => 0) L → (∀ n, live n → (m.node n).currOp = .opNone) →
      ns.Nodup → (∀ n ∈ ns, ¬ live n) →
      ∃ m' L', initNodes m ns = some m' ∧
        MemOk m' (fun n => n ∈ ns ∨ live n) (fun _ _ => 0) L' ∧
        ∀ n, n ∈ ns ∨ live n → (m'.node n).currOp = .opNone := by
  induction ns with
  | nil =>
      intro m live L h hop _ _
      exact ⟨m, L, rfl, by simpa using h, by simpa using hop⟩
  | cons n ns ih =>
      intro m live L h hop hnd hfree
      obtain ⟨m₁, hm₁, hok, -, hop₁, hne⟩ := crudNodeInit_spec h (hfree n (by simp))
      have hzero : Function.update (fun _ _ => 0) n (fun _ => 0) =
          (fun _ _ => 0 : ν → CrudNodeState → Nat) := by
        funext n' s
        by_cases hn : n' = n <;> simp [hn]
      rw [hzero] at hok
      have hop' : ∀ n', n' = n ∨ live n' → (m₁.node n').currOp = .opNone := by
        intro n' hn'
        by_cases hnn : n' = n
        · rw [hnn, hop₁]
        · rw [hne n' hnn]; exact hop n' (hn'.resolve_left hnn)
      have hfree' : ∀ n' ∈ ns, ¬ (n' = n ∨ live n') := by
        intro n' hn' hlive
        rcases hlive with hnn | hlive
        · exact (List.nodup_cons.mp hnd).1 (hnn ▸ hn')
        · exact hfree n' (by simp [hn']) hlive
      obtain ⟨m', L', hm', hok', hop''⟩ := ih hok hop' (List.nodup_cons.mp hnd).2 hfree'
      have hlive : (fun n' => n' ∈ ns ∨ n' = n ∨ live n') = fun n' => n' ∈ n :: ns ∨ live n' := by
        funext n'
        simp [or_assoc, or_left_comm]
      rw [hlive] at hok'
      refine ⟨m', L', ?_, hok', fun n' hn' => hop'' n' ?_⟩
      · simpa [initNodes, hm₁] using hm'
      · simpa [or_assoc, or_left_comm] using hn'

/-- A manager all of whose nodes were initialised, and nothing more. -/
def Initialised (m : CrudMem ν) : Prop :=
  ∃ g ns, ns.Nodup ∧ (∀ n, n ∈ ns) ∧ initNodes (crudMgrInit g) ns = some m

theorem Initialised.memOk {m : CrudMem ν} (h : Initialised m) :
    ∃ L, MemOk m (fun _ => True) (fun _ _ => 0) L ∧ ∀ n, (m.node n).currOp = .opNone := by
  obtain ⟨g, ns, hnd, hall, hm⟩ := h
  obtain ⟨m', L, hm', hok, hop⟩ := initNodes_spec (crudMgrInit_ok g) (by simp) hnd (by simp)
  rw [hm] at hm'
  cases hm'
  exact ⟨L, by simpa [hall] using hok, fun n => hop n (.inl (hall n))⟩

/-- Zeroed memory. -/
def zeroMem (ν : Type*) : CrudMem ν where
  nCrudNodes := 0
  node _ := zeroNode
  glue _ := Glthread.null

/-- A manager with `k` initialised nodes, in memory that was zeroed before. -/
def freshMgr (k : Nat) : CrudMem (Fin k) :=
  (initNodes (crudMgrInit (zeroMem _)) (List.finRange k)).getD (zeroMem _)

theorem freshMgr_initialised (k : Nat) : Initialised (freshMgr k) := by
  obtain ⟨m, L, hm, -⟩ := initNodes_spec (crudMgrInit_ok (zeroMem (Fin k))) (by simp)
    (List.nodup_finRange k) (by simp)
  exact ⟨_, _, List.nodup_finRange k, List.mem_finRange, by rw [freshMgr, hm]; rfl⟩

/-- `crud_node_destroy`, where it returns, takes a live node out. -/
theorem crudNodeDestroy_spec {m m' : CrudMem ν} {live : ν → Prop} {c : ν → CrudNodeState → Nat}
    {L : CrudNodeState → List ν} {n : ν} (h : MemOk m live c L) (hn : live n)
    (hm' : crudNodeDestroy m n = some m') :
    MemOk m' (fun n' => n' ≠ n ∧ live n') c (Function.update L .noOp ((L .noOp).erase n)) ∧
      m'.nCrudNodes = m.nCrudNodes - 1 := by
  unfold crudNodeDestroy at hm'
  split at hm'
  case isTrue => simp at hm'
  case isFalse =>
  split at hm'
  case isTrue => simp at hm'
  case isFalse hidle =>
  split at hm'
  case isTrue => simp at hm'
  case isFalse =>
  split at hm'
  case isTrue => simp at hm'
  case isFalse hglue =>
  simp only [Option.some.injEq] at hm'
  subst hm'
  have htot : total (c n) = 0 := by
    by_contra hne; exact hidle ((h.inUse_iff hn).mpr hne)
  have hmem : n ∈ L .noOp := by
    by_contra hno; exact hglue ((h.listed.isGlueEmpty_iff hn _).mpr hno)
  have hnone : ∀ s, s ≠ .noOp → n ∉ L s := by
    intro s hs hin
    have := ((h.member n s).mp hin).2
    rw [full_of_ne hs, total_eq_zero.mp htot s hs] at this
    omega
  have hmem' : ∀ n' s, n' ∈ Function.update L .noOp ((L .noOp).erase n) s ↔ n' ≠ n ∧ n' ∈ L s := by
    intro n' s
    by_cases hs : s = .noOp
    · subst hs; simp [(h.listed.nodup .noOp).mem_erase_iff]
    · simp only [ne_eq, hs, not_false_eq_true, Function.update_of_ne]
      constructor
      · intro hin; exact ⟨fun hnn => hnone s hs (hnn ▸ hin), hin⟩
      · exact And.right
  refine ⟨⟨fun n' hn' => h.counter n' hn'.2, fun n' hn' => h.status n' hn'.2,
    fun n' hn' => h.small n' hn'.2, fun n' s => ?_, ?_⟩, rfl⟩
  · rw [hmem', h.member, and_assoc]
  · refine Forest.restrict (h.listed.removeFromList hmem) ?_ ?_
    · rintro a ⟨n', s, rfl, -, hlive⟩; exact ⟨n', s, rfl, hlive⟩
    · intro s a ha
      obtain ⟨n', hn', rfl⟩ := List.mem_map.mp ha
      have hin := (hmem' n' s).mp hn'
      exact ⟨n', s, rfl, hin.1, h.listed.live_of_mem hin.2⟩

/-- The calls a client makes over the lifetime of a manager. -/
inductive LifeOp (ν : Type*) where
  | init (n : ν)
  | enterState (n : ν) (state : CrudNodeState)
  | exitState (n : ν) (state : CrudNodeState)
  | destroy (n : ν)

/-- A manager and its live nodes. -/
structure LifeState (ν : Type*) where
  mem : CrudMem ν
  live : Finset ν

/-- A call that may fail an assertion. -/
def LifeState.call (live : Finset ν) : Option (CrudMem ν) → Outcome (LifeState ν)
  | none => .abort
  | some m => .next ⟨m, live⟩

/-- Sequences of calls: a node is initialised when it is not live, and used or destroyed when it
is. -/
def lifecycle (ν : Type*) [DecidableEq ν] : Machine (LifeState ν) (LifeOp ν) where
  init s := s.live = ∅ ∧ ∃ m, s.mem = crudMgrInit m
  step s
    | .init n =>
        if n ∈ s.live then .blocked
        else LifeState.call (insert n s.live) (crudNodeInit s.mem n)
    | .enterState n state =>
        if n ∉ s.live ∨ state = .noOp then .blocked
        else LifeState.call s.live (crudNodeEnterState s.mem n state)
    | .exitState n state =>
        if n ∉ s.live ∨ state = .noOp then .blocked
        else LifeState.call s.live (crudNodeExitState s.mem n state)
    | .destroy n =>
        if n ∉ s.live then .blocked
        else LifeState.call (s.live.erase n) (crudNodeDestroy s.mem n)

/-- No counter is asked to exceed 255. -/
def withinCounters (s : LifeState ν) : LifeOp ν → Bool
  | .enterState n state =>
      !(s.mem.node n).isStatusSet state || decide ((s.mem.node n).counter state < 255)
  | _ => true

/-- Flags, counters and lists of a manager and its live nodes agree. -/
structure Represents (m : CrudMem ν) (live : Finset ν) : Prop where
  /-- A flag is set exactly when its counter is positive. -/
  flag_counter : ∀ n ∈ live, ∀ s,
    (m.node n).crudNodeStatus s = true ↔ 0 < (m.node n).counter s
  /-- `no_op` is set exactly when no other state is. -/
  flag_noOp : ∀ n ∈ live, (m.node n).crudNodeStatus .noOp = true ↔
    ∀ s, s ≠ .noOp → (m.node n).crudNodeStatus s = false
  /-- Behind each head is a well-linked list without repetitions; it holds exactly the live nodes
  whose flag is set, each of them once. -/
  lists : ∀ s, ∃ l : List ν,
    Row m.glue none none (.crudNodesList s :: l.map fun n => .crudNodeGlue n s) ∧ l.Nodup ∧
      (∀ n, n ∈ l ↔ n ∈ live ∧ (m.node n).crudNodeStatus s = true) ∧
      ∀ n ∈ live, (m.node n).crudNodeStatus s = true ↔ l.count n = 1
  nCrudNodes : m.nCrudNodes = live.card

theorem represents_of_memOk {m : CrudMem ν} {live : Finset ν} {c : ν → CrudNodeState → Nat}
    {L : CrudNodeState → List ν} (h : MemOk m (· ∈ live) c L) (hcard : m.nCrudNodes = live.card) :
    Represents m live where
  flag_counter n hn s := by rw [h.status n hn, h.counter n hn, decide_eq_true_iff]
  flag_noOp n hn := by
    have hzero := total_eq_zero (c := c n)
    rw [h.status n hn, decide_eq_true_iff, full_noOp]
    constructor
    · intro hpos s hs
      have htot : total (c n) = 0 := by by_contra hne; simp [hne] at hpos
      rw [h.status n hn, full_of_ne hs, hzero.mp htot s hs]
      rfl
    · intro hall
      rw [if_pos (hzero.mpr fun s hs => ?_)]
      · decide
      · have := hall s hs
        rw [h.status n hn, full_of_ne hs, decide_eq_false_iff_not] at this
        omega
  lists s := by
    have hmem : ∀ n, n ∈ L s ↔ n ∈ live ∧ (m.node n).crudNodeStatus s = true := by
      intro n
      rw [h.member]
      exact and_congr_right fun hn => by rw [h.status n hn, decide_eq_true_iff]
    have hnd := h.listed.nodup s
    refine ⟨L s, Forest.row h.listed s, hnd, hmem, fun n hn => ?_⟩
    constructor
    · intro hset
      exact List.count_eq_one_of_mem hnd ((hmem n).mpr ⟨hn, hset⟩)
    · intro hone
      exact ((hmem n).mp (List.count_pos_iff.mp (by omega))).2
  nCrudNodes := hcard

/-- **Representation invariant.**  Over any sequence of calls that pushes no counter past 255,
flags, counters and lists of all live nodes agree. -/
theorem lifecycle_represents (s : LifeState ν)
    (hs : (lifecycle ν).ReachableUnder (fun s a => withinCounters s a = true) s) :
    Represents s.mem s.live := by
  have hinv : (∃ c L, MemOk s.mem (· ∈ s.live) c L) ∧ s.mem.nCrudNodes = s.live.card := by
    refine Machine.ReachableUnder.invariant
      (I := fun s => (∃ c L, MemOk s.mem (· ∈ s.live) c L) ∧ s.mem.nCrudNodes = s.live.card)
      ?_ ?_ hs
    · rintro s ⟨hlive, m, hm⟩
      refine ⟨⟨fun _ _ => 0, fun _ => [], ?_⟩, ?_⟩
      · simpa [hlive, hm] using crudMgrInit_ok m
      · simp [hlive, hm, crudMgrInit]
    · rintro s a s' ⟨⟨c, L, hok⟩, hcard⟩ hc hstep
      cases a with
      | init n =>
          simp only [lifecycle] at hstep
          split at hstep
          case isTrue => simp at hstep
          case isFalse hn =>
            obtain ⟨m', hm', hok', hcount, -⟩ := crudNodeInit_spec hok hn
            simp only [hm', LifeState.call, Outcome.next.injEq] at hstep
            subst hstep
            refine ⟨⟨_, _, by simpa using hok'⟩, ?_⟩
            simp [hcount, hcard, Finset.card_insert_of_notMem hn]
      | enterState n state =>
          simp only [lifecycle] at hstep
          split at hstep
          case isTrue => simp at hstep
          case isFalse hcond =>
            simp only [not_or, not_not] at hcond
            cases hm' : crudNodeEnterState s.mem n state with
            | none => simp [hm', LifeState.call] at hstep
            | some m' =>
                simp only [hm', LifeState.call, Outcome.next.injEq] at hstep
                subst hstep
                -- the condition is read off the counter, which is up to date if the flag is set
                have hlt : c n state < 255 := by
                  by_cases hpos : 0 < c n state
                  · have hset := (hok.isStatusSet_iff hcond.1 hcond.2).mpr hpos
                    simpa [withinCounters, hset, hok.counter n hcond.1, full_of_ne hcond.2] using hc
                  · omega
                obtain ⟨-, L', hent⟩ := entered_of_some hok hcond.1 hcond.2 hlt hm'
                exact ⟨⟨_, L', hent.ok⟩, by rw [hent.nCrudNodes]; exact hcard⟩
      | exitState n state =>
          simp only [lifecycle] at hstep
          split at hstep
          case isTrue => simp at hstep
          case isFalse hcond =>
            simp only [not_or, not_not] at hcond
            cases hm' : crudNodeExitState s.mem n state with
            | none => simp [hm', LifeState.call] at hstep
            | some m' =>
                simp only [hm', LifeState.call, Outcome.next.injEq] at hstep
                subst hstep
                obtain ⟨-, L', hex⟩ := exited_of_some hok hcond.1 hcond.2 hm'
                exact ⟨⟨_, L', hex.ok⟩, by rw [hex.nCrudNodes]; exact hcard⟩
      | destroy n =>
          simp only [lifecycle] at hstep
          split at hstep
          case isTrue => simp at hstep
          case isFalse hn =>
            rw [not_not] at hn
            cases hm' : crudNodeDestroy s.mem n with
            | none => simp [hm', LifeState.call] at hstep
            | some m' =>
                simp only [hm', LifeState.call, Outcome.next.injEq] at hstep
                subst hstep
                obtain ⟨hok', hcount⟩ := crudNodeDestroy_spec hok hn hm'
                refine ⟨⟨_, _, by simpa using hok'⟩, ?_⟩
                simp [hcount, hcard, Finset.card_erase_of_mem hn]
  obtain ⟨⟨c, L, hok⟩, hcard⟩ := hinv
  exact represents_of_memOk hok hcard

/-- A manager without nodes, in memory that was zeroed before. -/
def freshLife (ν : Type*) : LifeState ν where
  mem := crudMgrInit (zeroMem ν)
  live := ∅

/-- Two nodes; two readers and a pending writer on the first, the second destroyed. -/
def lifeTrace (n n' : ν) : List (LifeOp ν) :=
  [.init n, .init n', .enterState n .readInProgress, .enterState n .readInProgress,
    .enterState n .pendingWrite, .exitState n .readInProgress, .destroy n']

theorem lifecycle_represents_trace :
    ∃ s : LifeState (Fin 2), Represents s.mem s.live ∧ (s.mem.node 0).counter .readInProgress = 1 ∧
      s.live.card = 1 := by
  have hrun : ((lifecycle (Fin 2)).execUnder withinCounters (freshLife _)
      (lifeTrace 0 1)).holds
      (fun s => decide ((s.mem.node 0).counter .readInProgress = 1 ∧ s.live.card = 1)) = true := by
    decide +kernel
  obtain ⟨s, hs, hp⟩ := Outcome.holds_iff.mp hrun
  have hinit : (lifecycle (Fin 2)).init (freshLife _) := ⟨rfl, _, rfl⟩
  have hreach := Machine.reachableUnder_of_execUnder (.init hinit) hs
  exact ⟨s, lifecycle_represents s hreach, by simpa using hp⟩

end CrudMgr
end MultithreadingBible
