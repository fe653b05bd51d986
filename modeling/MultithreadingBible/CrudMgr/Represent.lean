import Mathlib.Data.Finset.Card
import MultithreadingBible.CrudMgr.EnterExit
import MultithreadingBible.GlueThread.Represent

/-!
# CRUD manager: three encodings of one fact

`MemOk m live c L` says that the memory represents, for every live node `n` and every state `s`
other than `no_op`, the number `c n s ≤ 255` of threads in that state: as a counter, as a flag, and
by membership of `n` in the manager's list `L s`.  The state `no_op` counts one exactly when all
others count zero (`full`).

`enterState_spec` and `exitState_spec` are what the rest of the development knows about the two
functions: they succeed, add or subtract one, and touch nothing else.
-/

namespace MultithreadingBible
namespace CrudMgr

open GlueThread

/-- The number of entries into states other than `no_op`. -/
def total (c : CrudNodeState → Nat) : Nat :=
  c .pendingRead + c .readInProgress + c .pendingWrite + c .writeInProgress + c .pendingDelete +
    c .deleteInProgress + c .pendingCreate + c .createInProgress

/-- The counters of a node: `no_op` is entered once exactly when nothing else is. -/
def full (c : CrudNodeState → Nat) (s : CrudNodeState) : Nat :=
  if s = .noOp then (if total c = 0 then 1 else 0) else c s

theorem full_of_ne {c : CrudNodeState → Nat} {s : CrudNodeState} (h : s ≠ .noOp) :
    full c s = c s := if_neg h

theorem full_noOp (c : CrudNodeState → Nat) :
    full c .noOp = if total c = 0 then 1 else 0 := if_pos rfl

theorem le_total (c : CrudNodeState → Nat) {s : CrudNodeState} (h : s ≠ .noOp) :
    c s ≤ total c := by
  cases s <;> simp_all [total] <;> omega

theorem total_eq_zero {c : CrudNodeState → Nat} :
    total c = 0 ↔ ∀ s, s ≠ .noOp → c s = 0 := by
  constructor
  · intro h s hs
    have := le_total c hs
    omega
  · intro h
    simp [total, h]

/-- One more entry into `s`. -/
def entered (c : CrudNodeState → Nat) (s : CrudNodeState) : CrudNodeState → Nat :=
  Function.update c s (c s + 1)

/-- One entry into `s` fewer. -/
def exited (c : CrudNodeState → Nat) (s : CrudNodeState) : CrudNodeState → Nat :=
  Function.update c s (c s - 1)

theorem total_entered (c : CrudNodeState → Nat) {s : CrudNodeState} (h : s ≠ .noOp) :
    total (entered c s) = total c + 1 := by
  cases s <;> simp_all [total, entered] <;> omega

theorem total_exited {c : CrudNodeState → Nat} {s : CrudNodeState} (h : s ≠ .noOp)
    (hpos : 0 < c s) : total (exited c s) + 1 = total c := by
  have hback : entered (exited c s) s = c := by
    ext s'
    by_cases hs : s' = s
    · subst hs
      simp only [entered, exited, Function.update_self]
      omega
    · simp only [entered, exited, Function.update_of_ne hs]
  rw [← total_entered (exited c s) h, hback]

/-- After an entry somebody is there. -/
theorem full_entered (c : CrudNodeState → Nat) {s : CrudNodeState} (h : s ≠ .noOp) (s' : CrudNodeState) :
    full (entered c s) s' = if s' = s then c s + 1 else if s' = .noOp then 0 else full c s' := by
  by_cases hss : s' = s
  · subst hss
    simp [full_of_ne h, entered]
  · by_cases hno : s' = .noOp
    · subst hno
      simp [hss, full_noOp, total_entered c h]
    · simp [hss, hno, full_of_ne hno, entered]

/-- After an exit others may be there. -/
theorem full_exited (c : CrudNodeState → Nat) {s : CrudNodeState} (h : s ≠ .noOp) (s' : CrudNodeState) :
    full (exited c s) s' = if s' = s then c s - 1 else
      if s' = .noOp then (if total (exited c s) = 0 then 1 else 0) else full c s' := by
  by_cases hss : s' = s
  · subst hss
    simp [full_of_ne h, exited]
  · by_cases hno : s' = .noOp
    · subst hno
      simp [hss, full_noOp]
    · simp [hss, hno, full_of_ne hno, exited]

theorem entered_le {c : CrudNodeState → Nat} {s s' : CrudNodeState} {b : Nat} (h : c s' ≤ b)
    (hroom : c s < b) : entered c s s' ≤ b := by
  by_cases hss : s' = s
  · subst hss
    simp only [entered, Function.update_self]
    omega
  · simpa [entered, hss] using h

theorem exited_le {c : CrudNodeState → Nat} {s s' : CrudNodeState} {b : Nat} (h : c s' ≤ b) :
    exited c s s' ≤ b := by
  by_cases hss : s' = s
  · subst hss
    simp only [exited, Function.update_self]
    omega
  · simpa [exited, hss] using h

/-- A node whose flags follow some counts is in use exactly when they are not all zero. -/
theorem CrudNode.inUse_iff_total {crudNode : CrudNode} {c : CrudNodeState → Nat}
    (h : ∀ s, s ≠ .noOp → (crudNode.isStatusSet s = true ↔ 0 < c s)) :
    crudNode.inUse = true ↔ total c ≠ 0 := by
  rw [CrudNode.inUse_iff, ne_eq, total_eq_zero]
  constructor
  · rintro ⟨s, hs, hset⟩ hall
    have hpos := (h s hs).mp hset
    have hzero := hall s hs
    omega
  · intro hno
    by_contra hnot
    refine hno fun s hs => ?_
    by_contra hne
    exact hnot ⟨s, hs, (h s hs).mpr (by omega)⟩

variable {ν : Type*}

/-- The manager's lists, as the heap holds them. -/
def Listed (m : CrudMem ν) (live : ν → Prop) (L : CrudNodeState → List ν) : Prop :=
  Forest m.glue CrudAddr.crudNodesList (fun s => (L s).map fun n => CrudAddr.crudNodeGlue n s)
    fun a => ∃ n s, a = CrudAddr.crudNodeGlue n s ∧ live n

/-- Counters, flags and lists agree. -/
structure MemOk (m : CrudMem ν) (live : ν → Prop) (c : ν → CrudNodeState → Nat)
    (L : CrudNodeState → List ν) : Prop where
  counter : ∀ n, live n → ∀ s, (m.node n).counter s = full (c n) s
  status : ∀ n, live n → ∀ s, (m.node n).crudNodeStatus s = decide (0 < full (c n) s)
  small : ∀ n, live n → ∀ s, s ≠ .noOp → c n s ≤ 255
  member : ∀ n s, n ∈ L s ↔ live n ∧ 0 < full (c n) s
  listed : Listed m live L

theorem glue_mem_map {L : CrudNodeState → List ν} {n : ν} {s s' : CrudNodeState} :
    CrudAddr.crudNodeGlue n s ∈ (L s').map (fun n => CrudAddr.crudNodeGlue n s') ↔
      s' = s ∧ n ∈ L s := by
  simp only [List.mem_map, CrudAddr.crudNodeGlue.injEq]
  constructor
  · rintro ⟨n', hn', rfl, rfl⟩; exact ⟨rfl, hn'⟩
  · rintro ⟨rfl, hn⟩; exact ⟨n, hn, rfl, rfl⟩

namespace Listed

variable {m : CrudMem ν} {live : ν → Prop} {L : CrudNodeState → List ν} {n : ν}
  {s : CrudNodeState}

theorem isListEmpty_iff (h : Listed m live L) (s : CrudNodeState) :
    m.isListEmpty s = true ↔ L s = [] := by
  simpa [CrudMem.isListEmpty] using Forest.isEmpty_head h s

theorem isGlueEmpty_iff (h : Listed m live L) (hn : live n) (s : CrudNodeState) :
    m.isGlueEmpty n s = true ↔ n ∉ L s := by
  rw [CrudMem.isGlueEmpty, Forest.isEmpty_cell h ⟨n, s, rfl, hn⟩]
  simp only [glue_mem_map]
  constructor
  · intro h hmem; exact h s ⟨rfl, hmem⟩
  · intro h s' hs'; exact h hs'.2

theorem baseNode_eq (h : Listed m live L) (s : CrudNodeState) : m.baseNode s = (L s).head? := by
  have hbase := Forest.base_head h s
  unfold CrudMem.baseNode
  rw [hbase]
  cases L s <;> simp

theorem nodup (h : Listed m live L) (s : CrudNodeState) : (L s).Nodup :=
  List.Nodup.of_map _ (Forest.nodup h s)

theorem live_of_mem (h : Listed m live L) (hn : n ∈ L s) : live n := by
  obtain ⟨n', s', heq, hlive⟩ := Forest.sub h s (.crudNodeGlue n s) (glue_mem_map.mpr ⟨rfl, hn⟩)
  cases heq
  exact hlive

variable [DecidableEq ν]

theorem setNode (h : Listed m live L) (n : ν) (crudNode : CrudNode) :
    Listed (m.setNode n crudNode) live L := h

/-- `glthread_add_next` puts a node that is not in the list at its front. -/
theorem addToList (h : Listed m live L) (hn : live n) (hfree : n ∉ L s) :
    Listed (m.addToList n s) live (Function.update L s (n :: L s)) := by
  have hforest := Forest.addFirst h (i := s) (x := .crudNodeGlue n s) ⟨n, s, rfl, hn⟩ fun j hj =>
    hfree (glue_mem_map.mp hj).2
  have hlists : (fun s' => (Function.update L s (n :: L s) s').map
        fun n => CrudAddr.crudNodeGlue n s') =
      Function.update (fun s' => (L s').map fun n => CrudAddr.crudNodeGlue n s') s
        (.crudNodeGlue n s :: (L s).map fun n => CrudAddr.crudNodeGlue n s) := by
    funext s'
    by_cases hs : s' = s
    · subst hs; simp
    · simp [hs]
  unfold Listed
  rw [hlists]
  exact hforest

/-- `remove_glthread` takes a node out of the list. -/
theorem removeFromList (h : Listed m live L) (hn : n ∈ L s) :
    Listed (m.removeFromList n s) live (Function.update L s ((L s).erase n)) := by
  have hforest := Forest.remove h (i := s) (x := .crudNodeGlue n s) (glue_mem_map.mpr ⟨rfl, hn⟩)
  have hinj : Function.Injective fun n : ν => CrudAddr.crudNodeGlue n s := by
    intro a b hab; simpa using hab
  have hlists : (fun s' => (Function.update L s ((L s).erase n) s').map
        fun n => CrudAddr.crudNodeGlue n s') =
      Function.update (fun s' => (L s').map fun n => CrudAddr.crudNodeGlue n s') s
        (((L s).map fun n => CrudAddr.crudNodeGlue n s).erase (.crudNodeGlue n s)) := by
    funext s'
    by_cases hs : s' = s
    · subst hs; simp [List.map_erase hinj]
    · simp [hs]
  unfold Listed
  rw [hlists]
  exact hforest

end Listed

namespace MemOk

variable {m : CrudMem ν} {live : ν → Prop} {c : ν → CrudNodeState → Nat}
  {L : CrudNodeState → List ν} {n : ν} {s : CrudNodeState}

/-- A flag is set exactly when somebody is in the state. -/
theorem isStatusSet_iff (h : MemOk m live c L) (hn : live n) (hs : s ≠ .noOp) :
    (m.node n).isStatusSet s = true ↔ 0 < c n s := by
  rw [CrudNode.isStatusSet, h.status n hn s, full_of_ne hs, decide_eq_true_iff]

theorem isStatusSet_noOp_iff (h : MemOk m live c L) (hn : live n) :
    (m.node n).isStatusSet .noOp = true ↔ total (c n) = 0 := by
  rw [CrudNode.isStatusSet, h.status n hn, full_noOp, decide_eq_true_iff]
  split <;> simp_all

/-- A node is in use exactly when somebody is in one of its states. -/
theorem inUse_iff (h : MemOk m live c L) (hn : live n) :
    (m.node n).inUse = true ↔ total (c n) ≠ 0 :=
  CrudNode.inUse_iff_total fun _ hs => h.isStatusSet_iff hn hs

/-- A node is linked where somebody is. -/
theorem isGlueEmpty_eq (h : MemOk m live c L) (hn : live n) (s : CrudNodeState) :
    m.isGlueEmpty n s = !decide (0 < full (c n) s) := by
  have hglue : m.isGlueEmpty n s = true ↔ ¬ 0 < full (c n) s := by
    rw [h.listed.isGlueEmpty_iff hn, h.member]
    simp [hn]
  rw [Bool.eq_iff_iff]
  simpa using hglue

/-- The health check that somebody is in a state. -/
theorem verify_present (h : MemOk m live c L) (hn : live n) (s : CrudNodeState) :
    crudNodeStateVerify m n s true = true ↔ 0 < full (c n) s := by
  simp [crudNodeStateVerify, CrudNode.isStatusSet, h.status n hn s, h.counter n hn s,
    h.isGlueEmpty_eq hn s]

/-- The health check that nobody is in a state. -/
theorem verify_absent (h : MemOk m live c L) (hn : live n) (s : CrudNodeState) :
    crudNodeStateVerify m n s false = true ↔ full (c n) s = 0 := by
  simp only [crudNodeStateVerify, CrudNode.isStatusSet, h.status n hn s, h.counter n hn s,
    h.isGlueEmpty_eq hn s]
  by_cases hz : full (c n) s = 0
  · simp [hz]
  · simp [hz, Nat.pos_of_ne_zero hz]

end MemOk

section Calls

variable [DecidableEq ν]

/-- The node record after a first entry into `s`. -/
def firstEntry (crudNode : CrudNode) (s : CrudNodeState) : CrudNode :=
  (({ crudNode with currOp := currOpOnEnter s crudNode.currOp } : CrudNode).statusSetFlag
    s).setCounter s 1

/-- The node record after the last exit from `s`. -/
def lastExit (crudNode : CrudNode) (s : CrudNodeState) : CrudNode :=
  { (crudNode.setCounter s (crudNode.counter s - 1)).statusUnsetFlag s with
    currOp := currOpOnExit s crudNode.currOp }

@[simp] theorem firstEntry_status (nd : CrudNode) (s : CrudNodeState) :
    (firstEntry nd s).crudNodeStatus = Function.update nd.crudNodeStatus s true := rfl

@[simp] theorem firstEntry_counter (nd : CrudNode) (s : CrudNodeState) :
    (firstEntry nd s).counter = Function.update nd.counter s 1 := rfl

@[simp] theorem firstEntry_currOp (nd : CrudNode) (s : CrudNodeState) :
    (firstEntry nd s).currOp = currOpOnEnter s nd.currOp := rfl

@[simp] theorem lastExit_status (nd : CrudNode) (s : CrudNodeState) :
    (lastExit nd s).crudNodeStatus = Function.update nd.crudNodeStatus s false := rfl

@[simp] theorem lastExit_counter (nd : CrudNode) (s : CrudNodeState) :
    (lastExit nd s).counter = Function.update nd.counter s ((nd.counter s - 1) % 256) := rfl

@[simp] theorem lastExit_currOp (nd : CrudNode) (s : CrudNodeState) :
    (lastExit nd s).currOp = currOpOnExit s nd.currOp := rfl

/-- A first entry into `s`, up to its call of `crud_node_exit_state`. -/
theorem enterState_first {m : CrudMem ν} {n : ν} {s : CrudNodeState}
    (hset : (m.node n).isStatusSet s = false) (hverify : crudNodeStateVerify m n s false = true) :
    crudNodeEnterState m n s =
      if s ≠ .noOp ∧ (firstEntry (m.node n) s).isStatusSet .noOp then
        crudNodeExitState ((m.setNode n (firstEntry (m.node n) s)).addToList n s) n .noOp
      else some ((m.setNode n (firstEntry (m.node n) s)).addToList n s) := by
  rw [crudNodeEnterState, enterStateBody, if_neg (by simp [hset]), if_neg (by simp [hverify])]
  rfl

/-- The last exit from `s`, up to its call of `crud_node_enter_state`. -/
theorem exitState_one {m : CrudMem ν} {n : ν} {s : CrudNodeState}
    (hverify : crudNodeStateVerify m n s true = true)
    (hone : ((m.node n).counter s - 1) % 256 = 0) :
    crudNodeExitState m n s =
      if !(lastExit (m.node n) s).inUse then
        (enterNoOp ((m.setNode n (lastExit (m.node n) s)).removeFromList n s) n).map
          fun m => m.setNode n { m.node n with currOp := .opNone }
      else some ((m.setNode n (lastExit (m.node n) s)).removeFromList n s) := by
  rw [crudNodeExitState, exitStateBody, if_neg (by simp [hverify]),
    if_neg (by simp [CrudNode.setCounter, hone])]
  rfl

/-- `crud_node_exit_state (n, no_op)` on a node that is in some other state as well. -/
theorem exitState_noOp {m : CrudMem ν} {n : ν}
    (hset : (m.node n).crudNodeStatus .noOp = true) (hcounter : (m.node n).counter .noOp = 1)
    (hglue : m.isGlueEmpty n .noOp = false)
    (huse : ∃ s, s ≠ .noOp ∧ (m.node n).crudNodeStatus s = true) :
    crudNodeExitState m n .noOp =
      some ((m.setNode n (lastExit (m.node n) .noOp)).removeFromList n .noOp) := by
  have huse' : (lastExit (m.node n) .noOp).inUse = true := by
    obtain ⟨s, hs, hst⟩ := huse
    exact CrudNode.inUse_iff.mpr ⟨s, hs, by simp [hs, hst]⟩
  rw [exitState_one (by simp [crudNodeStateVerify, CrudNode.isStatusSet, hset, hcounter, hglue])
    (by simp [hcounter]), if_neg (by simp [huse'])]

/-- `crud_node_enter_state (n, no_op)` on a node that is in no state. -/
theorem enterNoOp_eq {m : CrudMem ν} {n : ν}
    (hset : (m.node n).crudNodeStatus .noOp = false) (hcounter : (m.node n).counter .noOp = 0)
    (hglue : m.isGlueEmpty n .noOp = true) :
    enterNoOp m n =
      some ((m.setNode n (firstEntry (m.node n) .noOp)).addToList n .noOp) := by
  rw [← crudNodeEnterState_noOp, enterState_first (by simp [CrudNode.isStatusSet, hset])
    (by simp [crudNodeStateVerify, CrudNode.isStatusSet, hset, hcounter, hglue]),
    if_neg (by simp)]

/-- What a successful `crud_node_enter_state (n, s)` does to a represented memory. -/
structure Entered (m m' : CrudMem ν) (live : ν → Prop) (c : ν → CrudNodeState → Nat)
    (L L' : CrudNodeState → List ν) (n : ν) (s : CrudNodeState) : Prop where
  ok : MemOk m' live (Function.update c n (entered (c n) s)) L'
  node_ne : ∀ n', n' ≠ n → m'.node n' = m.node n'
  currOp : (m'.node n).currOp =
    if c n s = 0 then currOpOnEnter s (m.node n).currOp else (m.node n).currOp
  nCrudNodes : m'.nCrudNodes = m.nCrudNodes
  list_self : L' s = if c n s = 0 then n :: L s else L s
  list_ne : ∀ s', s' ≠ s → s' ≠ .noOp → L' s' = L s'

/-- What a successful `crud_node_exit_state (n, s)` does to a represented memory. -/
structure Exited (m m' : CrudMem ν) (live : ν → Prop) (c : ν → CrudNodeState → Nat)
    (L L' : CrudNodeState → List ν) (n : ν) (s : CrudNodeState) : Prop where
  ok : MemOk m' live (Function.update c n (exited (c n) s)) L'
  node_ne : ∀ n', n' ≠ n → m'.node n' = m.node n'
  currOp : (m'.node n).currOp =
    if c n s = 1 then
      if total (exited (c n) s) = 0 then .opNone else currOpOnExit s (m.node n).currOp
    else (m.node n).currOp
  nCrudNodes : m'.nCrudNodes = m.nCrudNodes
  list_self : L' s = if c n s = 1 then (L s).erase n else L s
  list_ne : ∀ s', s' ≠ s → s' ≠ .noOp → L' s' = L s'

/-- Rebuild the representation after a change at one node. -/
theorem MemOk.update {m m' : CrudMem ν} {live : ν → Prop} {c : ν → CrudNodeState → Nat}
    {L L' : CrudNodeState → List ν} {n : ν} {cn : CrudNodeState → Nat} (h : MemOk m live c L)
    (hn : live n) (hne : ∀ n', n' ≠ n → m'.node n' = m.node n')
    (hcounter : ∀ s, (m'.node n).counter s = full cn s)
    (hstatus : ∀ s, (m'.node n).crudNodeStatus s = decide (0 < full cn s))
    (hsmall : ∀ s, s ≠ .noOp → cn s ≤ 255)
    (hself : ∀ s, n ∈ L' s ↔ 0 < full cn s)
    (hother : ∀ s n', n' ≠ n → (n' ∈ L' s ↔ n' ∈ L s)) (hlisted : Listed m' live L') :
    MemOk m' live (Function.update c n cn) L' where
  counter n' hn' s := by
    by_cases hnn : n' = n
    · subst hnn; simpa using hcounter s
    · rw [hne n' hnn, Function.update_of_ne hnn]; exact h.counter n' hn' s
  status n' hn' s := by
    by_cases hnn : n' = n
    · subst hnn; simpa using hstatus s
    · rw [hne n' hnn, Function.update_of_ne hnn]; exact h.status n' hn' s
  small n' hn' s hs := by
    by_cases hnn : n' = n
    · subst hnn; simpa using hsmall s hs
    · rw [Function.update_of_ne hnn]; exact h.small n' hn' s hs
  member n' s := by
    by_cases hnn : n' = n
    · subst hnn; simpa [hn] using hself s
    · rw [hother s n' hnn, Function.update_of_ne hnn]; exact h.member n' s
  listed := hlisted

variable {m : CrudMem ν} {live : ν → Prop} {c : ν → CrudNodeState → Nat}
  {L : CrudNodeState → List ν} {n : ν} {s : CrudNodeState}

/-- Entering a state the node is already in only counts. -/
theorem enterState_again (h : MemOk m live c L) (hn : live n) (hs : s ≠ .noOp)
    (hpos : 0 < c n s) (hex : s.isExclusive = false) (hroom : c n s < 255) :
    ∃ m', crudNodeEnterState m n s = some m' ∧ Entered m m' live c L L n s := by
  have hset := (h.isStatusSet_iff hn hs).mpr hpos
  have hcnt : (m.node n).counter s = c n s := by rw [h.counter n hn, full_of_ne hs]
  have htot : total (c n) ≠ 0 := by have := le_total (c n) hs; omega
  have hfull : ∀ s', full (entered (c n) s) s' = if s' = s then c n s + 1 else full (c n) s' := by
    intro s'
    rw [full_entered _ hs]
    by_cases hno : s' = .noOp
    · subst hno; simp [full_noOp, htot]
    · simp [hno]
  refine ⟨_, by rw [crudNodeEnterState, enterStateBody, if_pos hset, hex]; rfl, ?_, ?_, ?_, ?_, ?_,
    ?_⟩
  · refine h.update hn (fun n' hn' => by simp [hn']) (fun s' => ?_) (fun s' => ?_)
      (fun s' hs' => ?_) (fun s' => ?_) (fun _ _ _ => Iff.rfl) (h.listed.setNode n _)
    · rw [hfull, CrudMem.setNode_node]
      by_cases hss : s' = s
      · subst hss
        simp only [CrudNode.setCounter, Function.update_self, hcnt, if_true]
        omega
      · simp [CrudNode.setCounter, hss, h.counter n hn]
    · rw [hfull, CrudMem.setNode_node]
      by_cases hss : s' = s
      · subst hss; simpa [CrudNode.setCounter, CrudNode.isStatusSet] using hset
      · simp [CrudNode.setCounter, hss, h.status n hn]
    · exact entered_le (h.small n hn s' hs') hroom
    · rw [hfull, h.member]
      by_cases hss : s' = s
      · subst hss; simp [hn, full_of_ne hs, hpos]
      · simp [hss, hn]
  · intro n' hn'; simp [hn']
  · simp [CrudNode.setCounter, Nat.ne_of_gt hpos]
  · rfl
  · simp [Nat.ne_of_gt hpos]
  · intros; rfl

/-- Entering a state the node is not in sets its flag, links it, and ends `no_op`. -/
theorem enterState_fresh (h : MemOk m live c L) (hn : live n) (hs : s ≠ .noOp)
    (hzero : c n s = 0) :
    ∃ m' L', crudNodeEnterState m n s = some m' ∧ Entered m m' live c L L' n s := by
  -- the flag is not set, and the entry is allowed
  have hset : (m.node n).isStatusSet s = false := by
    rw [Bool.eq_false_iff, ne_eq, h.isStatusSet_iff hn hs]; omega
  have hverify : crudNodeStateVerify m n s false = true := by
    rw [h.verify_absent hn, full_of_ne hs, hzero]
  have hfree : n ∉ L s := by rw [h.member, full_of_ne hs]; omega
  have hfull := full_entered (c n) hs
  rw [hzero] at hfull
  have hsmall : ∀ s', s' ≠ .noOp → entered (c n) s s' ≤ 255 := fun s' hs' =>
    entered_le (h.small n hn s' hs') (by omega)
  have hlisted := (h.listed.setNode n (firstEntry (m.node n) s)).addToList hn hfree
  have hstart := enterState_first hset hverify
  by_cases htot : total (c n) = 0
  · -- the node was idle: `no_op` is left on the way
    have hnoset : (m.node n).crudNodeStatus .noOp = true := (h.isStatusSet_noOp_iff hn).mpr htot
    have hnocount : (m.node n).counter .noOp = 1 := by simp [h.counter n hn, full_noOp, htot]
    have hmem : n ∈ L .noOp := by rw [h.member, full_noOp, if_pos htot]; exact ⟨hn, by decide⟩
    have hmem' : n ∈ Function.update L s (n :: L s) .noOp := by simpa [hs.symm] using hmem
    have hcall := exitState_noOp
      (m := (m.setNode n (firstEntry (m.node n) s)).addToList n s) (n := n)
      (by simp [hs.symm, hnoset]) (by simp [hs.symm, hnocount])
      (by rw [Bool.eq_false_iff, ne_eq, hlisted.isGlueEmpty_iff hn]; simpa using hmem')
      ⟨s, hs, by simp⟩
    rw [if_pos ⟨hs, by simp [CrudNode.isStatusSet, hs.symm, hnoset]⟩, hcall] at hstart
    have hlisted' := (hlisted.setNode n (lastExit
      (((m.setNode n (firstEntry (m.node n) s)).addToList n s).node n) .noOp)).removeFromList hmem'
    refine ⟨_, Function.update (Function.update L s (n :: L s)) .noOp
      ((Function.update L s (n :: L s) .noOp).erase n), hstart, ?_, ?_, ?_, ?_, ?_, ?_⟩
    · refine h.update hn (fun n' hn' => by simp [hn']) (fun s' => ?_) (fun s' => ?_) hsmall
        (fun s' => ?_) (fun s' n' hn' => ?_) hlisted'
      · rw [hfull]
        by_cases hno : s' = .noOp
        · subst hno; simp [hs.symm, hnocount]
        · by_cases hss : s' = s
          · subst hss; simp [hno]
          · simp [hss, hno, h.counter n hn]
      · rw [hfull]
        by_cases hno : s' = .noOp
        · subst hno; simp [hs.symm]
        · by_cases hss : s' = s
          · subst hss; simp [hno]
          · simp [hss, hno, h.status n hn]
      · rw [hfull]
        by_cases hno : s' = .noOp
        · subst hno; simp [hs.symm, (h.listed.nodup .noOp).mem_erase_iff]
        · by_cases hss : s' = s
          · subst hss; simp [hno]
          · simp [hss, hno, h.member, hn]
      · by_cases hno : s' = .noOp
        · subst hno; simp [hs.symm, List.mem_erase_of_ne hn']
        · by_cases hss : s' = s
          · subst hss; simp [hno, hn']
          · simp [hss, hno]
    · intro n' hn'; simp [hn']
    · simp [hzero, currOpOnExit]
    · rfl
    · simp [hs, hzero]
    · intro s' hss hno; simp [hss, hno]
  · -- the node was busy: `no_op` is not touched
    have hnoset : (m.node n).crudNodeStatus .noOp = false := by
      rw [Bool.eq_false_iff]; exact fun hst => htot ((h.isStatusSet_noOp_iff hn).mp hst)
    rw [if_neg (by simp [CrudNode.isStatusSet, hs.symm, hnoset])] at hstart
    refine ⟨_, Function.update L s (n :: L s), hstart, ?_, ?_, ?_, ?_, ?_, ?_⟩
    · refine h.update hn (fun n' hn' => by simp [hn']) (fun s' => ?_) (fun s' => ?_) hsmall
        (fun s' => ?_) (fun s' n' hn' => ?_) hlisted
      · rw [hfull]
        by_cases hss : s' = s
        · subst hss; simp
        · by_cases hno : s' = .noOp
          · subst hno; simp [hss, h.counter n hn, full_noOp, htot]
          · simp [hss, hno, h.counter n hn]
      · rw [hfull]
        by_cases hss : s' = s
        · subst hss; simp
        · by_cases hno : s' = .noOp
          · subst hno; simp [hss, hnoset]
          · simp [hss, hno, h.status n hn]
      · rw [hfull]
        by_cases hss : s' = s
        · subst hss; simp
        · by_cases hno : s' = .noOp
          · subst hno; simp [hss, h.member, full_noOp, htot]
          · simp [hss, hno, h.member, hn]
      · by_cases hss : s' = s
        · subst hss; simp [hn']
        · simp [hss]
    · intro n' hn'; simp [hn']
    · simp [hzero]
    · rfl
    · simp [hzero]
    · intro s' hss _; simp [hss]

/-- **`crud_node_enter_state` adds one.**  It succeeds where the counter has room and the state is
not an exclusive one that is taken. -/
theorem enterState_spec (h : MemOk m live c L) (hn : live n) (hs : s ≠ .noOp)
    (hroom : c n s = 0 ∨ s.isExclusive = false ∧ c n s < 255) :
    ∃ m' L', crudNodeEnterState m n s = some m' ∧ Entered m m' live c L L' n s := by
  by_cases hzero : c n s = 0
  · exact enterState_fresh h hn hs hzero
  · obtain ⟨hex, hlt⟩ := hroom.resolve_left hzero
    obtain ⟨m', hm', hent⟩ := enterState_again h hn hs (by omega) hex hlt
    exact ⟨m', L, hm', hent⟩

/-- The same for a call that is known to have returned. -/
theorem entered_of_some {m' : CrudMem ν} (h : MemOk m live c L) (hn : live n) (hs : s ≠ .noOp)
    (hlt : c n s < 255) (hm' : crudNodeEnterState m n s = some m') :
    (s.isExclusive = true → c n s = 0) ∧ ∃ L', Entered m m' live c L L' n s := by
  have hexcl : c n s = 0 ∨ s.isExclusive = false := by
    by_contra hno
    have hset : (m.node n).isStatusSet s = true := (h.isStatusSet_iff hn hs).mpr (by omega)
    have hex : s.isExclusive = true := by simpa using fun h => hno (.inr h)
    rw [crudNodeEnterState, enterStateBody, if_pos hset, hex] at hm'
    simp at hm'
  obtain ⟨m₁, L', hm₁, hent⟩ := enterState_spec h hn hs (hexcl.imp_right fun h => ⟨h, hlt⟩)
  rw [hm'] at hm₁
  cases hm₁
  refine ⟨fun hex => hexcl.resolve_right (by simp [hex]), L', hent⟩

/-- Leaving a state that others stay in only counts. -/
theorem exitState_stay (h : MemOk m live c L) (hn : live n) (hs : s ≠ .noOp)
    (hmany : 1 < c n s) :
    ∃ m', crudNodeExitState m n s = some m' ∧ Exited m m' live c L L n s := by
  have hverify : crudNodeStateVerify m n s true = true := by
    rw [h.verify_present hn, full_of_ne hs]; omega
  have hcnt : (m.node n).counter s = c n s := by rw [h.counter n hn, full_of_ne hs]
  have hle := h.small n hn s hs
  have htot : total (exited (c n) s) ≠ 0 := by
    have := le_total (exited (c n) s) hs
    simp only [exited, Function.update_self] at this
    unfold exited; omega
  have hfull : ∀ s', full (exited (c n) s) s' = if s' = s then c n s - 1 else full (c n) s' := by
    intro s'
    rw [full_exited _ hs]
    by_cases hno : s' = .noOp
    · have hone := total_exited hs (by omega : 0 < c n s)
      subst hno; simp [full_noOp, htot, show total (c n) ≠ 0 by omega]
    · simp [hno]
  have hleft : ((m.node n).setCounter s ((m.node n).counter s - 1)).counter s ≠ 0 := by
    simp only [CrudNode.setCounter, Function.update_self, hcnt]
    omega
  refine ⟨_, by rw [crudNodeExitState, exitStateBody, if_neg (by simp [hverify]), if_pos hleft],
    ?_, ?_, ?_, ?_, ?_, ?_⟩
  · refine h.update hn (fun n' hn' => by simp [hn']) (fun s' => ?_) (fun s' => ?_)
      (fun s' hs' => ?_) (fun s' => ?_) (fun _ _ _ => Iff.rfl) (h.listed.setNode n _)
    · rw [hfull, CrudMem.setNode_node]
      by_cases hss : s' = s
      · subst hss
        simp only [CrudNode.setCounter, Function.update_self, hcnt, if_true]
        omega
      · simp [CrudNode.setCounter, hss, h.counter n hn]
    · rw [hfull, CrudMem.setNode_node]
      by_cases hss : s' = s
      · subst hss
        simp only [CrudNode.setCounter, h.status n hn, full_of_ne hs, if_true]
        simp only [decide_eq_decide]; omega
      · simp [CrudNode.setCounter, hss, h.status n hn]
    · exact exited_le (h.small n hn s' hs')
    · rw [hfull, h.member]
      by_cases hss : s' = s
      · subst hss; simp only [hn, full_of_ne hs, true_and, if_true]; omega
      · simp [hss, hn]
  · intro n' hn'; simp [hn']
  · simp [CrudNode.setCounter, Nat.ne_of_gt hmany]
  · rfl
  · simp [Nat.ne_of_gt hmany]
  · intros; rfl

/-- The last one out of a state clears its flag and unlinks it; the last one out of all states
enters `no_op`. -/
theorem exitState_last (h : MemOk m live c L) (hn : live n) (hs : s ≠ .noOp)
    (hone : c n s = 1) :
    ∃ m' L', crudNodeExitState m n s = some m' ∧ Exited m m' live c L L' n s := by
  have hverify : crudNodeStateVerify m n s true = true := by
    rw [h.verify_present hn, full_of_ne hs]; omega
  have hcnt : (m.node n).counter s = 1 := by rw [h.counter n hn, full_of_ne hs, hone]
  have hmem : n ∈ L s := by rw [h.member, full_of_ne hs, hone]; exact ⟨hn, by decide⟩
  have htot : total (c n) ≠ 0 := by have := le_total (c n) hs; omega
  have hno_unset : (m.node n).crudNodeStatus .noOp = false := by
    rw [Bool.eq_false_iff]; exact fun hst => htot ((h.isStatusSet_noOp_iff hn).mp hst)
  have hno_counter : (m.node n).counter .noOp = 0 := by
    rw [h.counter n hn, full_noOp, if_neg htot]
  have hno_mem : n ∉ L .noOp := by rw [h.member, full_noOp, if_neg htot]; simp
  have hfull := full_exited (c n) hs
  rw [hone] at hfull
  have hsmall : ∀ s', s' ≠ .noOp → exited (c n) s s' ≤ 255 := fun s' hs' =>
    exited_le (h.small n hn s' hs')
  have hlisted := (h.listed.setNode n (lastExit (m.node n) s)).removeFromList hmem
  have hstart := exitState_one hverify (by simp [hcnt])
  -- whether another state remains
  have huse : (lastExit (m.node n) s).inUse = true ↔ total (exited (c n) s) ≠ 0 := by
    refine CrudNode.inUse_iff_total fun s' hs' => ?_
    by_cases hss : s' = s
    · subst hss
      simp [CrudNode.isStatusSet, exited, hone]
    · simp [CrudNode.isStatusSet, exited, hss, h.status n hn, full_of_ne hs']
  by_cases hidle : total (exited (c n) s) = 0
  · have hno_mem' : n ∉ Function.update L s ((L s).erase n) .noOp := by
      simpa [hs.symm] using hno_mem
    have hcall := enterNoOp_eq
      (m := (m.setNode n (lastExit (m.node n) s)).removeFromList n s) (n := n)
      (by simp [hs.symm, hno_unset]) (by simp [hs.symm, hno_counter])
      (by rw [hlisted.isGlueEmpty_iff hn]; exact hno_mem')
    have hnot : (lastExit (m.node n) s).inUse = false := by
      rw [Bool.eq_false_iff, ne_eq, huse]; simpa using hidle
    rw [if_pos (by simp [hnot]), hcall, Option.map_some] at hstart
    have hlisted' := (hlisted.setNode n (firstEntry
      (((m.setNode n (lastExit (m.node n) s)).removeFromList n s).node n) .noOp)).addToList hn
        hno_mem'
    refine ⟨_, Function.update (Function.update L s ((L s).erase n)) .noOp
      (n :: Function.update L s ((L s).erase n) .noOp), hstart, ?_, ?_, ?_, ?_, ?_, ?_⟩
    · refine h.update hn (fun n' hn' => by simp [hn']) (fun s' => ?_) (fun s' => ?_) hsmall
        (fun s' => ?_) (fun s' n' hn' => ?_) (hlisted'.setNode n _)
      · rw [hfull]
        by_cases hno : s' = .noOp
        · subst hno; simp [hs.symm, hidle]
        · by_cases hss : s' = s
          · subst hss; simp [hno, hcnt]
          · simp [hss, hno, h.counter n hn]
      · rw [hfull]
        by_cases hno : s' = .noOp
        · subst hno; simp [hs.symm, hidle]
        · by_cases hss : s' = s
          · subst hss; simp [hno]
          · simp [hss, hno, h.status n hn]
      · rw [hfull]
        by_cases hno : s' = .noOp
        · subst hno; simp [hs.symm, hidle]
        · by_cases hss : s' = s
          · subst hss; simp [hno, (h.listed.nodup s').mem_erase_iff]
          · simp [hss, hno, h.member, hn]
      · by_cases hno : s' = .noOp
        · subst hno; simp [hs.symm, hn']
        · by_cases hss : s' = s
          · subst hss; simp [hno, List.mem_erase_of_ne hn']
          · simp [hss, hno]
    · intro n' hn'; simp [hn']
    · simp [hone, hidle]
    · rfl
    · simp [hs, hone]
    · intro s' hss hno; simp [hss, hno]
  · rw [if_neg (by simpa using huse.mpr hidle)] at hstart
    refine ⟨_, Function.update L s ((L s).erase n), hstart, ?_, ?_, ?_, ?_, ?_, ?_⟩
    · refine h.update hn (fun n' hn' => by simp [hn']) (fun s' => ?_) (fun s' => ?_) hsmall
        (fun s' => ?_) (fun s' n' hn' => ?_) hlisted
      · rw [hfull]
        by_cases hss : s' = s
        · subst hss; simp [hcnt]
        · by_cases hno : s' = .noOp
          · subst hno; simp [hss, hidle, hno_counter]
          · simp [hss, hno, h.counter n hn]
      · rw [hfull]
        by_cases hss : s' = s
        · subst hss; simp
        · by_cases hno : s' = .noOp
          · subst hno; simp [hss, hidle, hno_unset]
          · simp [hss, hno, h.status n hn]
      · rw [hfull]
        by_cases hss : s' = s
        · subst hss; simp [(h.listed.nodup s').mem_erase_iff]
        · by_cases hno : s' = .noOp
          · subst hno; simp [hss, hidle, hno_mem]
          · simp [hss, hno, h.member, hn]
      · by_cases hss : s' = s
        · subst hss; simp [List.mem_erase_of_ne hn']
        · simp [hss]
    · intro n' hn'; simp [hn']
    · simp [hone, hidle]
    · rfl
    · simp [hone]
    · intro s' hss _; simp [hss]

/-- **`crud_node_exit_state` subtracts one.**  It succeeds where somebody is in the state. -/
theorem exitState_spec (h : MemOk m live c L) (hn : live n) (hs : s ≠ .noOp)
    (hpos : 0 < c n s) :
    ∃ m' L', crudNodeExitState m n s = some m' ∧ Exited m m' live c L L' n s := by
  by_cases hone : c n s = 1
  · exact exitState_last h hn hs hone
  · obtain ⟨m', hm', hex⟩ := exitState_stay h hn hs (by omega)
    exact ⟨m', L, hm', hex⟩

/-- The same for a call that is known to have returned. -/
theorem exited_of_some {m' : CrudMem ν} (h : MemOk m live c L) (hn : live n) (hs : s ≠ .noOp)
    (hm' : crudNodeExitState m n s = some m') :
    0 < c n s ∧ ∃ L', Exited m m' live c L L' n s := by
  have hpos : 0 < c n s := by
    by_contra hno
    have hverify : crudNodeStateVerify m n s true = false := by
      rw [Bool.eq_false_iff, ne_eq, h.verify_present hn, full_of_ne hs]; exact hno
    rw [crudNodeExitState, exitStateBody, if_pos (by simp [hverify])] at hm'
    simp at hm'
  obtain ⟨m₁, L', hm₁, hex⟩ := exitState_spec h hn hs hpos
  rw [hm'] at hm₁
  cases hm₁
  exact ⟨hpos, L', hex⟩

end Calls

end CrudMgr
end MultithreadingBible
