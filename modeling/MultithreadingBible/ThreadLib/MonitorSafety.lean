import MultithreadingBible.ThreadLib.Monitor

/-!
# Monitors: who holds a grant

`MonitorOk` says that the fields and lists of a monitor describe given threads: those that wait, those
that hold a grant, and how many there are of each kind.  Each piece of the code keeps it
(`MonitorOk.block`, `.resume`, `.grant`, `.release`), and so does every step in which no turned-away
thread releases what it never got.

* `monitor_safe` — without a shutdown: exclusion, limits, status and list, and no assertion fails.
* `monitor_grants` — with a shutdown: the counters are right as long as turned-away threads do not call
  `monitor_inform_resource_released`.
-/

namespace MultithreadingBible
namespace ThreadLib

open Lib GlueThread

section Functions

variable {m : Monitor} {k k' : ThreadOp}

/-- When a thread is admitted. -/
theorem available_iff : m.isResourceAvailable k = true ↔ m.nCurr k < m.maxLimit k ∧
    (m.resourceStatus = .busyBy k ∨ (m.resourceStatus = .available ∧
      (m.strictAlternation = true → ∀ last, m.whoAccessedCsLast = some last → k = last.other))) := by
  unfold Monitor.isResourceAvailable
  cases m.resourceStatus with
  | busyBy k' =>
      simp only [Bool.and_eq_true, beq_iff_eq, decide_eq_true_eq, ResourceStatus.busyBy.injEq,
        reduceCtorEq, false_and, or_false]
      exact ⟨fun h => ⟨h.2, h.1.symm⟩, fun h => ⟨h.2.symm, h.1⟩⟩
  | available =>
      cases m.strictAlternation with
      | false => simp
      | true =>
          cases m.whoAccessedCsLast with
          | none => simp
          | some last => simp

/-- What a request and a release leave alone. -/
structure SameRules (m m' : Monitor) : Prop where
  maxLimit : m'.maxLimit = m.maxLimit
  strict : m'.strictAlternation = m.strictAlternation
  shutdown : m'.shutdown = m.shutdown

theorem SameRules.refl (m : Monitor) : SameRules m m := ⟨rfl, rfl, rfl⟩

theorem SameRules.trans {m₁ m₂ : Monitor} (h : SameRules m m₁) (h' : SameRules m₁ m₂) :
    SameRules m m₂ :=
  ⟨h'.maxLimit.trans h.maxLimit, h'.strict.trans h.strict, h'.shutdown.trans h.shutdown⟩

/-- Everything a grant does to the fields. -/
structure CountedGrant (m m' : Monitor) (k : ThreadOp) : Prop where
  rules : SameRules m m'
  nCurr : m'.nCurr = Function.update m.nCurr k (m.nCurr k + 1)
  status : m'.resourceStatus = .busyBy k
  last : m'.whoAccessedCsLast = some k
  waitQ : m'.waitQ = m.waitQ
  isDeleted : m'.isDeleted = m.isDeleted

/-- Everything a release does to the fields. -/
structure CountedRelease (m m' : Monitor) (k : ThreadOp) : Prop where
  rules : SameRules m m'
  nCurr : m'.nCurr = Function.update m.nCurr k (m.nCurr k - 1)
  status : m'.resourceStatus = if m.nCurr k = 1 then .available else m.resourceStatus
  last : m'.whoAccessedCsLast = m.whoAccessedCsLast
  waitQ : m'.waitQ = m.waitQ
  isDeleted : m'.isDeleted = true ↔
    m.isDeleted = true ∨ (m.nCurr k = 1 ∧ ∀ k', (m.waitQ k').threadWaitCount = 0)

theorem countedGrant (h : m.nCurr k + 1 < 2 ^ 16) : CountedGrant m (m.countGrant k) k := by
  unfold Monitor.countGrant
  rw [countUp_eq h]
  dsimp only
  split
  · exact ⟨⟨rfl, rfl, rfl⟩, rfl, rfl, rfl, rfl, rfl⟩
  · exact ⟨⟨rfl, rfl, rfl⟩, rfl, rfl, rfl, rfl, rfl⟩

theorem forall_threadOp {p : ThreadOp → Prop} : (∀ k, p k) ↔ p .reader ∧ p .writer :=
  ⟨fun h => ⟨h _, h _⟩, fun h k => by cases k; exact h.1; exact h.2⟩

theorem countedRelease (h : 0 < m.nCurr k) :
    ∃ m', m.countRelease k = some m' ∧ CountedRelease m m' k := by
  refine ⟨_, if_neg (by simpa using Nat.ne_of_gt h), ?_⟩
  rw [countDown_eq h]
  split
  · next hzero =>
    have hone : m.nCurr k = 1 := by
      simp only [Monitor.setNCurr, Function.update_self, beq_iff_eq] at hzero
      omega
    simp only [Monitor.setResourceStatus, Monitor.checkAndDeleteMonitor]
    split
    · next hbusy =>
      have hno : ¬ ∀ k', (m.waitQ k').threadWaitCount = 0 := by
        intro hall
        simp [Monitor.setNCurr, hall] at hbusy
      exact ⟨⟨rfl, rfl, rfl⟩, rfl, by rw [if_pos hone], rfl, rfl, by simp [Monitor.setNCurr, hno]⟩
    · next hfree =>
      have hall : ∀ k', (m.waitQ k').threadWaitCount = 0 := by
        rw [forall_threadOp]
        simpa [Monitor.setNCurr, and_comm] using hfree
      exact ⟨⟨rfl, rfl, rfl⟩, rfl, by rw [if_pos hone], rfl, rfl, by simp [hone, hall]⟩
  · next hzero =>
    have hone : m.nCurr k ≠ 1 := by
      simp only [Monitor.setNCurr, Function.update_self, beq_iff_eq] at hzero
      omega
    exact ⟨⟨rfl, rfl, rfl⟩, rfl, by rw [if_neg hone]; rfl, rfl, rfl, by
      simp [Monitor.setNCurr, hone]⟩

end Functions

variable {τ : Type*}

/-- The monitor describes the threads: which list each is on, how many of each kind were granted
access, and how many wait. -/
structure MonitorOk (m : MonitorMem τ) (place : τ → Option MonitorList)
    (granted waiting : ThreadOp → Nat) : Prop where
  list : ∃ L : MonitorList → List (MonitorAddr τ),
    Forest m.heap .head L (fun a => ∃ t, a = .waitGlue t) ∧
      ∀ t i, .waitGlue t ∈ L i ↔ place t = some i
  nCurr : ∀ k, m.monitor.nCurr k = granted k
  limit : ∀ k, granted k ≤ m.monitor.maxLimit k ∧ m.monitor.maxLimit k < 2 ^ 16
  exclusive : ∀ k, 0 < granted k → granted k.other = 0
  status : ∀ k, m.monitor.resourceStatus = .busyBy k ↔ 0 < granted k
  last : ∀ k, 0 < granted k → m.monitor.whoAccessedCsLast = some k
  count : ∀ k, (m.monitor.waitQ k).threadWaitCount = waiting k % 2 ^ 32
  flag : ∀ k, (m.monitor.waitQ k).priorityFlag = true
  cached : ∀ k, 0 < waiting k → (m.monitor.waitQ k).applnMutex = some .monitorTalkMutex

namespace MonitorOk

variable {compFn : MonitorAddr τ → MonitorAddr τ → Int} {m m' : MonitorMem τ}
  {place place' : τ → Option MonitorList} {granted granted' waiting waiting' : ThreadOp → Nat}
  {k : ThreadOp} {t : τ}

theorem congr (h : MonitorOk m place granted waiting) (hplace : ∀ t, place' t = place t)
    (hgranted : ∀ k, granted' k = granted k) (hwaiting : ∀ k, waiting' k = waiting k) :
    MonitorOk m place' granted' waiting' := by
  rw [show place' = place from funext hplace, show granted' = granted from funext hgranted,
    show waiting' = waiting from funext hwaiting]
  exact h

/-- What changes only the fields the invariant does not speak of keeps it. -/
theorem of_same (h : MonitorOk m place granted waiting) (hheap : m'.heap = m.heap)
    (hnCurr : m'.monitor.nCurr = m.monitor.nCurr)
    (hlimit : m'.monitor.maxLimit = m.monitor.maxLimit)
    (hstatus : m'.monitor.resourceStatus = m.monitor.resourceStatus)
    (hlast : m'.monitor.whoAccessedCsLast = m.monitor.whoAccessedCsLast)
    (hwaitQ : ∀ k, (m'.monitor.waitQ k).threadWaitCount = (m.monitor.waitQ k).threadWaitCount ∧
      (m'.monitor.waitQ k).priorityFlag = (m.monitor.waitQ k).priorityFlag ∧
      ((m.monitor.waitQ k).applnMutex = some .monitorTalkMutex →
        (m'.monitor.waitQ k).applnMutex = some .monitorTalkMutex)) :
    MonitorOk m' place granted waiting where
  list := by rw [hheap]; exact h.list
  nCurr k := by rw [hnCurr]; exact h.nCurr k
  limit k := by rw [hlimit]; exact h.limit k
  exclusive := h.exclusive
  status k := by rw [hstatus]; exact h.status k
  last k hk := by rw [hlast]; exact h.last k hk
  count k := by rw [(hwaitQ k).1]; exact h.count k
  flag k := by rw [(hwaitQ k).2.1]; exact h.flag k
  cached k hk := (hwaitQ k).2.2 (h.cached k hk)

theorem free_of_place {L : MonitorList → List (MonitorAddr τ)}
    (hmem : ∀ t i, .waitGlue t ∈ L i ↔ place t = some i) (ht : place t = none)
    (i : MonitorList) : .waitGlue t ∉ L i := by
  rw [hmem, ht]
  simp

/-- A thread caches the mutex in its wait queue. -/
theorem cacheMutex (h : MonitorOk m place granted waiting) (k : ThreadOp) :
    MonitorOk { m with
        monitor := m.monitor.setWaitQ k ((m.monitor.waitQ k).cacheMutex .monitorTalkMutex) }
      place granted waiting := by
  refine h.of_same rfl rfl rfl rfl rfl ?_
  intro k'
  by_cases hk : k' = k
  · rw [hk]
    simp [Monitor.setWaitQ]
  · simp [Monitor.setWaitQ, hk]

/-- A change of one wait queue's count. -/
theorem count_setWaitQ (h : MonitorOk m place granted waiting) {wq : WaitQueue MonitorMutex} {n : Nat}
    (hcount : wq.threadWaitCount = n % 2 ^ 32) (hflag : wq.priorityFlag = true)
    (hcached : wq.applnMutex = some .monitorTalkMutex) (k' : ThreadOp) :
    ((m.monitor.setWaitQ k wq).waitQ k').threadWaitCount =
        (Function.update waiting k n) k' % 2 ^ 32 ∧
      ((m.monitor.setWaitQ k wq).waitQ k').priorityFlag = true ∧
      (0 < (Function.update waiting k n) k' →
        ((m.monitor.setWaitQ k wq).waitQ k').applnMutex = some .monitorTalkMutex) := by
  by_cases hk : k' = k
  · rw [hk]
    simp [Monitor.setWaitQ, hcount, hflag, hcached]
  · simpa [Monitor.setWaitQ, hk, h.count, h.flag] using h.cached k'

/-- A thread that is admitted finds nobody of the other kind and room for its own. -/
theorem of_available (h : MonitorOk m place granted waiting)
    (hyes : m.monitor.isResourceAvailable k = true) :
    granted k < m.monitor.maxLimit k ∧ granted k.other = 0 := by
  obtain ⟨hlt, hstatus⟩ := available_iff.mp hyes
  refine ⟨by rw [← h.nCurr]; exact hlt, ?_⟩
  rcases hstatus with hbusy | ⟨havail, -⟩
  · exact h.exclusive k ((h.status k).mp hbusy)
  · by_contra hne
    have hbusy := (h.status k.other).mpr (Nat.pos_of_ne_zero hne)
    rw [havail] at hbusy
    cases hbusy

variable [DecidableEq τ]

/-- A thread leaves its queue after its wait. -/
theorem resume (h : MonitorOk m place granted waiting) {n : Nat} (ht : place t = some (.queue k))
    (hn : waiting k = n + 1) :
    MonitorOk { m with
        monitor := m.monitor.setWaitQ k
          (waitQueueResume (m.monitor.waitQ k) m.heap (.waitGlue t)).1
        heap := (waitQueueResume (m.monitor.waitQ k) m.heap (.waitGlue t)).2 }
      (Function.update place t none) granted (Function.update waiting k n) := by
  obtain ⟨L, hforest, hmem⟩ := h.list
  obtain ⟨hwq, hforest'⟩ := waitQueueResume_priority hforest (h.flag k) ((hmem t _).mpr ht)
  have hcount : (m.monitor.waitQ k).countDown.threadWaitCount = n % 2 ^ 32 := by
    show countDown 32 (m.monitor.waitQ k).threadWaitCount = _
    rw [h.count, hn, countDown_mod]
  have hqueue := h.count_setWaitQ (k := k) hcount (h.flag k) (h.cached k (by omega))
  rw [hwq]
  refine ⟨⟨_, hforest', fun u i => ?_⟩, h.nCurr, h.limit, h.exclusive, h.status, h.last,
    fun k' => (hqueue k').1, fun k' => (hqueue k').2.1, fun k' => (hqueue k').2.2⟩
  by_cases hi : i = .queue k
  · rw [hi, Function.update_self, (hforest.nodup _).mem_erase_iff, hmem]
    by_cases hu : u = t
    · simp [hu]
    · simp [hu]
  · rw [Function.update_of_ne hi, hmem]
    by_cases hu : u = t
    · simp [hu, ht, Ne.symm hi]
    · simp [hu]

/-- An admitted thread gets its grant. -/
theorem grant (h : MonitorOk m place granted waiting) (ht : place t = none)
    (hyes : m.monitor.isResourceAvailable k = true) :
    MonitorOk (grantAccess t k m) (Function.update place t (some .active))
        (Function.update granted k (granted k + 1)) waiting ∧
      CountedGrant m.monitor (grantAccess t k m).monitor k := by
  obtain ⟨L, hforest, hmem⟩ := h.list
  obtain ⟨hlt, hother⟩ := h.of_available hyes
  have hlimit := (h.limit k).2
  have hcounted : CountedGrant m.monitor (grantAccess t k m).monitor k :=
    countedGrant (by rw [h.nCurr]; omega)
  have hfree := free_of_place hmem ht
  -- the cell of the thread is null already
  have hinit : initGlthread m.heap (.waitGlue t) = m.heap := by
    rw [initGlthread, ← hforest.unlinked _ ⟨t, rfl⟩ hfree, Function.update_eq_self]
  refine ⟨⟨⟨Function.update L .active (.waitGlue t :: L .active), ?_, fun u i => ?_⟩, ?_, ?_, ?_, ?_,
    ?_, ?_, ?_, ?_⟩, hcounted⟩
  · show Forest (glthreadAddNext (initGlthread m.heap (.waitGlue t)) (.head .active) (.waitGlue t))
      .head _ _
    rw [hinit]
    exact hforest.addFirst ⟨t, rfl⟩ hfree
  · by_cases hi : i = .active
    · rw [hi, Function.update_self, List.mem_cons, hmem]
      by_cases hu : u = t
      · simp [hu]
      · simp [hu]
    · rw [Function.update_of_ne hi, hmem]
      by_cases hu : u = t
      · simp [hu, ht, Ne.symm hi]
      · simp [hu]
  · intro k'
    rw [hcounted.nCurr, h.nCurr]
    by_cases hk : k' = k
    · rw [hk, Function.update_self, Function.update_self]
    · rw [Function.update_of_ne hk, Function.update_of_ne hk, h.nCurr]
  · intro k'
    rw [hcounted.rules.maxLimit]
    refine ⟨?_, (h.limit k').2⟩
    by_cases hk : k' = k
    · rw [hk, Function.update_self]
      exact hlt
    · rw [Function.update_of_ne hk]
      exact (h.limit k').1
  · intro k' hpos
    by_cases hk : k' = k
    · rw [hk, Function.update_of_ne k.other_ne]
      exact hother
    · rw [Function.update_of_ne hk, ThreadOp.eq_other hk, hother] at hpos
      exact absurd hpos (Nat.lt_irrefl 0)
  · intro k'
    rw [hcounted.status]
    by_cases hk : k' = k
    · rw [hk, Function.update_self]
      simp
    · rw [Function.update_of_ne hk, ThreadOp.eq_other hk, hother]
      simp [k.other_ne.symm]
  · intro k' hpos
    by_cases hk : k' = k
    · rw [hk]
      exact hcounted.last
    · rw [Function.update_of_ne hk, ThreadOp.eq_other hk, hother] at hpos
      exact absurd hpos (Nat.lt_irrefl 0)
  · intro k'
    rw [hcounted.waitQ]
    exact h.count k'
  · intro k'
    rw [hcounted.waitQ]
    exact h.flag k'
  · intro k'
    rw [hcounted.waitQ]
    exact h.cached k'

variable [Fintype τ]

theorem length_le {hp : Heap (MonitorAddr τ)} {L : MonitorList → List (MonitorAddr τ)}
    (h : Forest hp .head L (fun a => ∃ t, a = .waitGlue t)) (i : MonitorList) :
    (L i).length ≤ Fintype.card τ :=
  length_le_card MonitorAddr.waitGlue (h.nodup i) fun a ha => h.sub i a ha

/-- A thread that is not admitted joins the queue of its kind. -/
theorem block (h : MonitorOk m place granted waiting)
    (compFn : MonitorAddr τ → MonitorAddr τ → Int) (ht : place t = none)
    (hcached : (m.monitor.waitQ k).applnMutex = some .monitorTalkMutex) :
    ∃ hp, waitQueueBlock compFn (Fintype.card τ) (m.monitor.waitQ k) m.heap (.head (.queue k))
        (.waitGlue t) = some ((m.monitor.waitQ k).countUp, hp, .thread (.waitGlue t)) ∧
      MonitorOk { m with
          monitor := m.monitor.setWaitQ k (m.monitor.waitQ k).countUp
          heap := hp }
        (Function.update place t (some (.queue k))) granted
        (Function.update waiting k (waiting k + 1)) := by
  obtain ⟨L, hforest, hmem⟩ := h.list
  obtain ⟨hp, hblock, hforest'⟩ := waitQueueBlock_priority (i := .queue k) hforest (h.flag k)
    (by rw [hcached]; rfl) ⟨t, rfl⟩ (free_of_place hmem ht) (length_le hforest _)
  have hcount : (m.monitor.waitQ k).countUp.threadWaitCount = (waiting k + 1) % 2 ^ 32 := by
    show countUp 32 (m.monitor.waitQ k).threadWaitCount = _
    rw [h.count, countUp_mod]
  have hqueue := h.count_setWaitQ (k := k) hcount (h.flag k) hcached
  refine ⟨hp, hblock, ⟨⟨_, hforest', fun u i => ?_⟩, h.nCurr, h.limit, h.exclusive, h.status, h.last,
    fun k' => (hqueue k').1, fun k' => (hqueue k').2.1, fun k' => (hqueue k').2.2⟩⟩
  by_cases hi : i = .queue k
  · rw [hi, Function.update_self, (perm_insertBefore _ _ _).mem_iff, List.mem_cons, hmem]
    by_cases hu : u = t
    · simp [hu]
    · simp [hu]
  · rw [Function.update_of_ne hi, hmem]
    by_cases hu : u = t
    · simp [hu, ht, Ne.symm hi]
    · simp [hu]

/-- A thread with a grant gives it back. -/
theorem release (h : MonitorOk m place granted waiting) (ht : place t = some .active)
    (hpos : 0 < granted k) :
    ∃ m' notes, monitorInformResourceReleased (Fintype.card τ) t k m = some (m', notes) ∧
      MonitorOk m' (Function.update place t none) (Function.update granted k (granted k - 1))
        waiting ∧
      CountedRelease m.monitor m'.monitor k ∧ m'.freed = m.freed ∧ m'.touched = m.touched ∧
      releaseNotes (Fintype.card τ) k m'.monitor m'.heap = some notes := by
  obtain ⟨L, hforest, hmem⟩ := h.list
  obtain ⟨mon, hmon, hcounted⟩ := countedRelease (by rw [h.nCurr]; exact hpos)
  have hforest' := hforest.remove ((hmem t .active).mpr ht)
  have hother := h.exclusive k hpos
  have hmem' : ∀ u i, .waitGlue u ∈ Function.update L .active ((L .active).erase (.waitGlue t)) i ↔
      Function.update place t none u = some i := by
    intro u i
    by_cases hi : i = .active
    · rw [hi, Function.update_self, (hforest.nodup _).mem_erase_iff, hmem]
      by_cases hu : u = t
      · simp [hu]
      · simp [hu]
    · rw [Function.update_of_ne hi, hmem]
      by_cases hu : u = t
      · simp [hu, ht, Ne.symm hi]
      · simp [hu]
  -- the removed cell is null already
  have hinit : initGlthread (removeGlthread m.heap (.waitGlue t)) (.waitGlue t) =
      removeGlthread m.heap (.waitGlue t) := by
    rw [initGlthread, ← hforest'.unlinked _ ⟨t, rfl⟩ (free_of_place hmem' (by simp)),
      Function.update_eq_self]
  have hnotes : ∃ notes, releaseNotes (Fintype.card τ) k mon
      (removeGlthread m.heap (.waitGlue t)) = some notes := by
    unfold releaseNotes
    split
    · exact ⟨_, rfl⟩
    · split
      · unfold waitQueueBroadcast
        rw [hforest'.iterate (length_le hforest' _)]
        split
        · exact ⟨_, rfl⟩
        · split
          · exact ⟨_, rfl⟩
          · split <;> exact ⟨_, rfl⟩
      · exact ⟨_, rfl⟩
  obtain ⟨notes, hnotes⟩ := hnotes
  refine ⟨{ m with monitor := mon, heap := removeGlthread m.heap (.waitGlue t) }, notes, ?_,
    ⟨⟨_, hforest', hmem'⟩, ?_, ?_, ?_, ?_, ?_, ?_, ?_, ?_⟩, hcounted, rfl, rfl, hnotes⟩
  · unfold monitorInformResourceReleased
    simp only [hinit, hmon, hnotes, Option.bind_some, Option.map_some]
  · intro k'
    rw [hcounted.nCurr, h.nCurr]
    by_cases hk : k' = k
    · rw [hk, Function.update_self, Function.update_self]
    · rw [Function.update_of_ne hk, Function.update_of_ne hk, h.nCurr]
  · intro k'
    rw [hcounted.rules.maxLimit]
    refine ⟨?_, (h.limit k').2⟩
    have := (h.limit k').1
    by_cases hk : k' = k
    · rw [hk, Function.update_self]
      rw [hk] at this
      omega
    · rw [Function.update_of_ne hk]
      exact this
  · intro k' hpos'
    by_cases hk : k' = k
    · rw [hk, Function.update_of_ne k.other_ne]
      exact hother
    · rw [Function.update_of_ne hk, ThreadOp.eq_other hk, hother] at hpos'
      exact absurd hpos' (Nat.lt_irrefl 0)
  · intro k'
    have hold := (h.status k).mpr hpos
    rw [hcounted.status, h.nCurr]
    by_cases hk : k' = k
    · rw [hk, Function.update_self]
      split
      · next hone => simp [hone]
      · next hone => simp only [hold, true_iff]; omega
    · rw [Function.update_of_ne hk, ThreadOp.eq_other hk, hother]
      split
      · simp
      · rw [hold]
        simp [k.other_ne.symm]
  · intro k' hpos'
    rw [hcounted.last]
    by_cases hk : k' = k
    · rw [hk]
      exact h.last k hpos
    · rw [Function.update_of_ne hk, ThreadOp.eq_other hk, hother] at hpos'
      exact absurd hpos' (Nat.lt_irrefl 0)
  · intro k'
    rw [hcounted.waitQ]
    exact h.count k'
  · intro k'
    rw [hcounted.waitQ]
    exact h.flag k'
  · intro k'
    rw [hcounted.waitQ]
    exact h.cached k'

end MonitorOk

/-- The list a thread's cell is on. -/
def MonitorLoc.list : MonitorLoc → Option MonitorList
  | .wait k => some (.queue k)
  | .holds _ => some .active
  | _ => none

/-- In the wait of the queue for `k`. -/
def MonitorLoc.isWait (k : ThreadOp) : MonitorLoc → Bool
  | .wait k' => k' == k
  | _ => false

/-- In possession of a grant of kind `k`. -/
def MonitorLoc.isGranted (k : ThreadOp) : MonitorLoc → Bool
  | .holds k' => k' == k
  | _ => false

theorem MonitorLoc.isWait_of_list {l : MonitorLoc} (h : l.list = none) (k : ThreadOp) :
    l.isWait k = false := by
  cases l <;> first | rfl | cases h

theorem MonitorLoc.isGranted_of_list {l : MonitorLoc} (h : l.list = none) (k : ThreadOp) :
    l.isGranted k = false := by
  cases l <;> first | rfl | cases h

/-- Sent away because of the shutdown. -/
def MonitorLoc.isTurnedAway : MonitorLoc → Bool
  | .turnedAway _ => true
  | _ => false

theorem MonitorLoc.isWait_wait (k k' : ThreadOp) :
    ((MonitorLoc.wait k).isWait k').toNat = if k' = k then 1 else 0 := by
  cases k <;> cases k' <;> rfl

theorem MonitorLoc.isGranted_holds (k k' : ThreadOp) :
    ((MonitorLoc.holds k).isGranted k').toNat = if k' = k then 1 else 0 := by
  cases k <;> cases k' <;> rfl

/-- A function that counts one more or one less of a kind. -/
theorem update_add_one (f : ThreadOp → Nat) (k k' : ThreadOp) :
    Function.update f k (f k + 1) k' = f k' + if k' = k then 1 else 0 := by
  by_cases hk : k' = k
  · rw [hk, Function.update_self, if_pos rfl]
  · rw [Function.update_of_ne hk, if_neg hk, Nat.add_zero]

theorem update_sub_one {f : ThreadOp → Nat} {k : ThreadOp} (hpos : 0 < f k) (k' : ThreadOp) :
    Function.update f k (f k - 1) k' + (if k' = k then 1 else 0) = f k' := by
  by_cases hk : k' = k
  · rw [hk, Function.update_self, if_pos rfl]
    omega
  · rw [Function.update_of_ne hk, if_neg hk, Nat.add_zero]

/-- What a thread does to the monitor before the test of its queue. -/
structure SameMonitor (m m₁ : MonitorMem τ) : Prop where
  rules : SameRules m.monitor m₁.monitor
  nCurr : m₁.monitor.nCurr = m.monitor.nCurr
  status : m₁.monitor.resourceStatus = m.monitor.resourceStatus
  last : m₁.monitor.whoAccessedCsLast = m.monitor.whoAccessedCsLast
  isDeleted : m₁.monitor.isDeleted = m.monitor.isDeleted
  freed : m₁.freed = m.freed
  touched : m₁.touched = m.touched

variable {m m₁ : MonitorMem τ}

theorem SameMonitor.available (h : SameMonitor m m₁) (k : ThreadOp) :
    m₁.monitor.isResourceAvailable k = m.monitor.isResourceAvailable k := by
  unfold Monitor.isResourceAvailable
  rw [h.nCurr, h.rules.maxLimit, h.status, h.rules.strict, h.last]

section Counts

variable [Fintype τ]

/-- The number of threads with a grant of kind `k`. -/
def grants (s : MonitorConfig τ) (k : ThreadOp) : Nat :=
  (Finset.univ.filter fun t => (s.thr t).loc.isGranted k = true).card

/-- The number of threads in the wait of the queue for `k`. -/
def waiters (s : MonitorConfig τ) (k : ThreadOp) : Nat :=
  (Finset.univ.filter fun t => (s.thr t).loc.isWait k = true).card

theorem grants_eq (s : MonitorConfig τ) (k : ThreadOp) :
    grants s k = tally s.thr fun l => (l.isGranted k).toNat :=
  card_filter_loc s.thr fun l => l.isGranted k

theorem waiters_eq (s : MonitorConfig τ) (k : ThreadOp) :
    waiters s k = tally s.thr fun l => (l.isWait k).toNat :=
  card_filter_loc s.thr fun l => l.isWait k

theorem grants_pos {s : MonitorConfig τ} {t : τ} {k : ThreadOp} (ht : (s.thr t).loc = .holds k) :
    0 < grants s k := by
  rw [grants_eq, tally_pos]
  exact ⟨t, by rw [ht]; simp [MonitorLoc.isGranted]⟩

theorem waiters_pos {s : MonitorConfig τ} {t : τ} {k : ThreadOp} (ht : (s.thr t).loc = .wait k) :
    0 < waiters s k := by
  rw [waiters_eq, tally_pos]
  exact ⟨t, by rw [ht]; simp [MonitorLoc.isWait]⟩

/-- The lists that the threads' cells are on. -/
def place (s : MonitorConfig τ) (t : τ) : Option MonitorList := (s.thr t).loc.list

/-- A status that a thread can have. -/
def MonitorPlaced (t : τ) : Status (WqCv (MonitorAddr τ)) MonitorLoc → Prop
  | .running l => ∀ k, l ≠ .wait k
  | .waiting c l | .notified c l => c = .thread (.waitGlue t) ∧ ∃ k, l = .wait k

/-- The invariant of all runs without a release by a turned-away thread. -/
structure MonitorInv (maxLimit : ThreadOp → Nat) (strict : Bool) (s : MonitorConfig τ) : Prop where
  ok : MonitorOk s.mem (place s) (grants s) (waiters s)
  maxLimit : s.mem.monitor.maxLimit = maxLimit
  strict : s.mem.monitor.strictAlternation = strict
  placed : ∀ t, MonitorPlaced t (s.thr t)

end Counts

section Invariant

variable [DecidableEq τ]

variable {compFn : MonitorAddr τ → MonitorAddr τ → Int} {frees spurious strict : Bool}
  {maxLimit : ThreadOp → Nat} {maxReaders maxWriters : UInt16} {s s' : MonitorConfig τ} {t u : τ}
  {x : MonitorCall} {l : MonitorLoc} {k : ThreadOp}
  {notes : List (Note (WqCv (MonitorAddr τ)))} {st : Status (WqCv (MonitorAddr τ)) MonitorLoc}

theorem Enters.same (hin : Enters t m l k m₁) : SameMonitor m m₁ := by
  cases hin with
  | first k => exact ⟨⟨rfl, rfl, rfl⟩, rfl, rfl, rfl, rfl, rfl, rfl⟩
  | again k => exact ⟨⟨rfl, rfl, rfl⟩, rfl, rfl, rfl, rfl, rfl, rfl⟩

theorem Enters.isGranted (hin : Enters t m l k m₁) (k' : ThreadOp) : l.isGranted k' = false := by
  cases hin <;> rfl

variable [Fintype τ]

/-- A thread at the test of its queue is on no list, and the queue has caught the mutex. -/
theorem MonitorInv.enters (h : MonitorInv maxLimit strict s)
    (hin : Enters t s.mem (s.thr t).loc k m₁) :
    (m₁.monitor.waitQ k).applnMutex = some .monitorTalkMutex ∧
      ∃ waiting₁, MonitorOk m₁ (Function.update (place s) t none) (grants s) waiting₁ ∧
        ∀ k', waiting₁ k' + ((s.thr t).loc.isWait k').toNat = waiters s k' := by
  generalize hl : (s.thr t).loc = l at hin
  cases hin with
  | first k =>
      have hnone : place s t = none := by
        unfold place
        rw [hl]
        rfl
      refine ⟨by simp [Monitor.setWaitQ], waiters s, ?_, fun _ => rfl⟩
      rw [show Function.update (place s) t none = place s by
        rw [← hnone, Function.update_eq_self]]
      exact h.ok.cacheMutex k
  | again k =>
      have hplace : place s t = some (.queue k) := by
        unfold place
        rw [hl]
        rfl
      have hpos := waiters_pos hl
      refine ⟨?_, _, h.ok.resume hplace (n := waiters s k - 1) (by omega), ?_⟩
      · simpa [Monitor.setWaitQ, waitQueueResume] using h.ok.cached k hpos
      intro k'
      rw [MonitorLoc.isWait_wait]
      exact update_sub_one hpos k'

theorem place_step (hran : (monitorProgram compFn frees spurious).Ran s t x s' notes st) (u : τ) :
    place s' u = Function.update (place s) t st.loc.list u := by
  unfold place
  by_cases hu : u = t
  · rw [hu, Function.update_self, hran.self]
  · rw [Function.update_of_ne hu, hran.loc_of_ne hu]

theorem grants_step (hran : (monitorProgram compFn frees spurious).Ran s t x s' notes st)
    (k : ThreadOp) : grants s' k + ((s.thr t).loc.isGranted k).toNat =
      grants s k + (st.loc.isGranted k).toNat := by
  rw [grants_eq, grants_eq]
  exact hran.tally fun l => (l.isGranted k).toNat

theorem waiters_step (hran : (monitorProgram compFn frees spurious).Ran s t x s' notes st)
    (k : ThreadOp) : waiters s' k + ((s.thr t).loc.isWait k).toNat =
      waiters s k + (st.loc.isWait k).toNat := by
  rw [waiters_eq, waiters_eq]
  exact hran.tally fun l => (l.isWait k).toNat

theorem MonitorInv.placed_step (h : MonitorInv maxLimit strict s)
    (hran : (monitorProgram compFn frees spurious).Ran s t x s' notes st)
    (hst : MonitorPlaced t st) (u : τ) : MonitorPlaced u (s'.thr u) :=
  hran.forall_status h.placed hst (fun _ _ _ hp => hp) u

theorem monitorMove_of_ran (hran : (monitorProgram compFn frees spurious).Ran s t x s' notes st)
    (hfreed : s.mem.freed = 0) :
    MonitorMove compFn frees t x s.mem (s.thr t).loc s'.mem notes st := by
  have hexec : monitorExec compFn frees t (s.thr t).loc x s.mem = .done s'.mem notes st := hran.exec
  unfold monitorExec at hexec
  rw [if_pos hfreed] at hexec
  exact monitorMove_of_step hexec

/-- The monitor is not freed by a step after which it is there. -/
theorem freed_of_ran (hran : (monitorProgram compFn frees spurious).Ran s t x s' notes st)
    (hfreed : s'.mem.freed = 0) : s.mem.freed = 0 := by
  by_contra hne
  have hexec : monitorExec compFn frees t (s.thr t).loc x s.mem = .done s'.mem notes st := hran.exec
  unfold monitorExec at hexec
  rw [if_neg hne] at hexec
  injection hexec with hmem
  rw [← hmem] at hfreed
  exact hne (Nat.eq_zero_of_add_eq_zero_right hfreed)

/-- The invariant after a step, from what the step made of the monitor. -/
theorem MonitorInv.after (h : MonitorInv maxLimit strict s)
    (hran : (monitorProgram compFn frees spurious).Ran s t x s' notes st)
    (hok : MonitorOk s'.mem (place s') (grants s') (waiters s'))
    (hlimit : s'.mem.monitor.maxLimit = s.mem.monitor.maxLimit)
    (hstrict : s'.mem.monitor.strictAlternation = s.mem.monitor.strictAlternation)
    (hst : MonitorPlaced t st) : MonitorInv maxLimit strict s' where
  ok := hok
  maxLimit := hlimit.trans h.maxLimit
  strict := hstrict.trans h.strict
  placed := h.placed_step hran hst

/-- A thread that stays off the lists leaves the described threads as they are. -/
theorem MonitorInv.off_step (h : MonitorInv maxLimit strict s)
    (hran : (monitorProgram compFn frees spurious).Ran s t x s' notes st)
    (hbefore : (s.thr t).loc.list = none) (hafter : st.loc.list = none) :
    MonitorOk s.mem (place s') (grants s') (waiters s') := by
  apply h.ok.congr
  · intro u
    rw [place_step hran, hafter]
    by_cases hu : u = t
    · rw [hu, Function.update_self]
      exact hbefore.symm
    · rw [Function.update_of_ne hu]
  · intro k
    have hgrants := grants_step hran k
    rwa [MonitorLoc.isGranted_of_list hbefore, MonitorLoc.isGranted_of_list hafter] at hgrants
  · intro k
    have hwaiters := waiters_step hran k
    rwa [MonitorLoc.isWait_of_list hbefore, MonitorLoc.isWait_of_list hafter] at hwaiters

/-- A thread that has to wait enters its queue. -/
theorem MonitorInv.block_step (h : MonitorInv maxLimit strict s) {c : WqCv (MonitorAddr τ)}
    (hran : (monitorProgram compFn frees spurious).Ran s t x s' notes (.waiting c (.wait k)))
    (hin : Enters t s.mem (s.thr t).loc k m₁) {wq : WaitQueue MonitorMutex} {hp : Heap (MonitorAddr τ)}
    (hblock : waitQueueBlock compFn (Fintype.card τ) (m₁.monitor.waitQ k) m₁.heap
      (.head (.queue k)) (.waitGlue t) = some (wq, hp, c))
    (hmem : s'.mem = { m₁ with monitor := m₁.monitor.setWaitQ k wq, heap := hp }) :
    MonitorInv maxLimit strict s' := by
  obtain ⟨hcached, waiting₁, hok, hwaiting⟩ := h.enters hin
  obtain ⟨hp', hblock', hok'⟩ := hok.block compFn (t := t) (by simp) hcached
  rw [hblock'] at hblock
  cases hblock
  apply h.after hran
  · rw [hmem]
    apply hok'.congr
    · intro u
      rw [place_step hran, Function.update_idem]
      rfl
    · intro k'
      have hgrants := grants_step hran k'
      rwa [hin.isGranted] at hgrants
    · intro k'
      have h₁ := waiters_step hran k'
      have h₂ := hwaiting k'
      rw [Status.loc_waiting, MonitorLoc.isWait_wait] at h₁
      rw [update_add_one]
      omega
  · rw [hmem]
    exact hin.same.rules.maxLimit
  · rw [hmem]
    exact hin.same.rules.strict
  · exact ⟨rfl, k, rfl⟩

/-- A thread that may go on is granted access. -/
theorem MonitorInv.grant_step (h : MonitorInv maxLimit strict s)
    (hran : (monitorProgram compFn frees spurious).Ran s t x s' notes (.running (.holds k)))
    (hin : Enters t s.mem (s.thr t).loc k m₁)
    (hyes : m₁.monitor.isResourceAvailable k = true) (hmem : s'.mem = grantAccess t k m₁) :
    MonitorInv maxLimit strict s' := by
  obtain ⟨-, waiting₁, hok, hwaiting⟩ := h.enters hin
  obtain ⟨hok', hcounted⟩ := hok.grant (t := t) (by simp) hyes
  have hrules := hin.same.rules.trans hcounted.rules
  apply h.after hran
  · rw [hmem]
    apply hok'.congr
    · intro u
      rw [place_step hran, Function.update_idem]
      rfl
    · intro k'
      have h₁ := grants_step hran k'
      rw [hin.isGranted, Status.loc_running, MonitorLoc.isGranted_holds] at h₁
      rw [update_add_one]
      exact h₁
    · intro k'
      have h₁ := waiters_step hran k'
      have h₂ := hwaiting k'
      rw [Status.loc_running, show (MonitorLoc.holds k).isWait k' = false from rfl,
        Bool.toNat_false] at h₁
      omega
  · rw [hmem]
    exact hrules.maxLimit
  · rw [hmem]
    exact hrules.strict
  · simp [MonitorPlaced]

/-- A thread gives its grant back. -/
theorem MonitorInv.release_step (h : MonitorInv maxLimit strict s)
    (hran : (monitorProgram compFn frees spurious).Ran s t x s' notes (.running .informed))
    (hl : (s.thr t).loc = .holds k)
    (hrel : monitorInformResourceReleased (Fintype.card τ) t k s.mem = some (s'.mem, notes)) :
    MonitorInv maxLimit strict s' := by
  have hpos := grants_pos hl
  have hin : place s t = some .active := by
    unfold place
    rw [hl]
    rfl
  obtain ⟨m₂, notes₂, hrel', hok, hcounted, -⟩ := h.ok.release hin hpos
  rw [hrel'] at hrel
  injection hrel with hpair
  injection hpair with hmem
  apply h.after hran
  · rw [← hmem]
    apply hok.congr
    · intro u
      rw [place_step hran]
      rfl
    · intro k'
      have h₁ := grants_step hran k'
      have h₂ := update_sub_one hpos k'
      rw [hl, MonitorLoc.isGranted_holds,
        show (Status.running MonitorLoc.informed : Status (WqCv (MonitorAddr τ)) _).loc.isGranted
          k' = false from rfl, Bool.toNat_false] at h₁
      omega
    · intro k'
      have h₁ := waiters_step hran k'
      rw [hl] at h₁
      simpa [MonitorLoc.isWait] using h₁
  · rw [← hmem]
    exact hcounted.rules.maxLimit
  · rw [← hmem]
    exact hcounted.rules.strict
  · simp [MonitorPlaced]

/-- **Every step keeps the invariant**, unless a turned-away thread releases. -/
theorem MonitorInv.step (h : MonitorInv maxLimit strict s)
    (hran : (monitorProgram compFn frees spurious).Ran s t x s' notes st)
    (hfreed : s.mem.freed = 0) (hlate : (s.thr t).loc.isTurnedAway = false) :
    MonitorInv maxLimit strict s' := by
  have hmove := monitorMove_of_ran hran hfreed
  have hoff := h.off_step hran
  generalize hl : (s.thr t).loc = l at hmove hoff hlate
  generalize hm : s'.mem = m' at hmove
  cases hmove with
  | request | turnAway | leave =>
      apply h.after hran
      · rw [hm]; exact hoff rfl rfl
      · rw [hm]
      · rw [hm]
      · simp [MonitorPlaced]
  | shutDown hx =>
      apply h.after hran
      · rw [hm]; exact (hoff rfl rfl).of_same rfl rfl rfl rfl rfl fun _ => ⟨rfl, rfl, id⟩
      · rw [hm, Monitor.shutDown]
      · rw [hm, Monitor.shutDown]
      · simp [MonitorPlaced]
  | free hdeleted hfrees =>
      apply h.after hran
      · rw [hm]; exact (hoff rfl rfl).of_same rfl rfl rfl rfl rfl fun _ => ⟨rfl, rfl, id⟩
      · rw [hm]
      · rw [hm]
      · simp [MonitorPlaced]
  | block hin hno hblock => exact h.block_step hran (hl ▸ hin) hblock hm
  | grant hin hyes => exact h.grant_step hran (hl ▸ hin) hyes hm
  | release hrel => exact h.release_step hran hl (hm ▸ hrel)
  | lateRelease => cases hlate

/-- A spurious wake-up leaves the monitor as it is. -/
theorem MonitorInv.woken (h : MonitorInv maxLimit strict s) {c : WqCv (MonitorAddr τ)}
    (hw : s.thr t = .waiting c l) :
    MonitorInv maxLimit strict ⟨s.mem, Function.update s.thr t (.notified c l)⟩ := by
  have hloc : ∀ u, (Function.update s.thr t (.notified c l) u).loc = (s.thr u).loc :=
    loc_update_notified hw
  refine ⟨?_, h.maxLimit, h.strict, ?_⟩
  · apply h.ok.congr
    · intro u
      unfold place
      rw [hloc]
    · intro k
      rw [grants_eq, grants_eq]
      exact tally_congr hloc _
    · intro k
      rw [waiters_eq, waiters_eq]
      exact tally_congr hloc _
  · exact forall_status_of_woken hw h.placed fun _ _ _ hp => hp

omit [DecidableEq τ] in
theorem MonitorInv.init :
    MonitorInv (Monitor.init maxReaders maxWriters).maxLimit strict
      (freshMonitor τ strict maxReaders maxWriters) := by
  have hgrants : ∀ k, grants (freshMonitor τ strict maxReaders maxWriters) k = 0 := by
    intro k
    rw [grants_eq, tally_eq_zero]
    intro t
    rfl
  have hwaiters : ∀ k, waiters (freshMonitor τ strict maxReaders maxWriters) k = 0 := by
    intro k
    rw [waiters_eq, tally_eq_zero]
    intro t
    rfl
  refine ⟨⟨⟨fun _ => [], ⟨fun _ => ⟨rfl, trivial⟩, fun _ => List.nodup_nil, ?_, ?_, ?_, ?_,
    fun _ _ _ => rfl⟩, ?_⟩, ?_, ?_, ?_, ?_, ?_, ?_, fun _ => rfl, ?_⟩, rfl, rfl, ?_⟩
  · intro i j hij a ha
    cases ha
  · intro i a ha
    cases ha
  · rintro i ⟨t, ht⟩
    cases ht
  · intro i j hij
    cases hij
    rfl
  · intro t i
    simp [place, freshMonitor, MonitorLoc.list]
  · intro k
    rw [hgrants]
    rfl
  · intro k
    rw [hgrants]
    refine ⟨Nat.zero_le _, ?_⟩
    cases k with
    | reader => exact maxReaders.toNat_lt
    | writer => exact maxWriters.toNat_lt
  · intro k _
    exact hgrants k.other
  · intro k
    rw [hgrants]
    simp [freshMonitor, Monitor.init]
  · intro k hpos
    rw [hgrants] at hpos
    cases hpos
  · intro k
    rw [hwaiters]
    rfl
  · intro k hpos
    rw [hwaiters] at hpos
    cases hpos
  · intro t k
    simp

/-- A thread whose turned-away request is not followed by a release. -/
def keepsOut (s : MonitorConfig τ) : Act τ MonitorCall → Bool
  | .run t _ _ => !(s.thr t).loc.isTurnedAway
  | .spurious _ => true

theorem monitorInv_reachable
    (h : (monitorMachine compFn frees spurious strict maxReaders maxWriters).ReachableUnder
      (fun s a => keepsOut s a = true) s) :
    s.mem.freed = 0 → MonitorInv (Monitor.init maxReaders maxWriters).maxLimit strict s := by
  apply Program.invariant (I := fun s => s.mem.freed = 0 → MonitorInv _ strict s) _ _ _ h
  · rintro s rfl _
    exact .init
  · intro s t x picks s' notes st hinv hkeeps hran hfreed
    have hbefore : s.mem.freed = 0 := freed_of_ran hran hfreed
    exact (hinv hbefore).step hran hbefore (by simpa [keepsOut] using hkeeps)
  · intro s t c l hinv _ hw hfreed
    exact (hinv hfreed).woken hw

/-- No assertion fails, unless a turned-away thread releases. -/
theorem MonitorInv.exec_ne_abort (h : MonitorInv maxLimit strict s) (hfreed : s.mem.freed = 0)
    (hlate : (s.thr t).loc.isTurnedAway = false) :
    monitorExec compFn frees t (s.thr t).loc x s.mem ≠ .abort := by
  have hloop : ∀ {k m₁ shouldBlock blocked}, Enters t s.mem (s.thr t).loc k m₁ →
      admissionLoop compFn t k shouldBlock blocked m₁ ≠ .abort := by
    intro k m₁ shouldBlock blocked hin
    obtain ⟨hcached, waiting₁, hok, -⟩ := h.enters hin
    obtain ⟨hp, hblock, -⟩ := hok.block compFn (t := t) (by simp) hcached
    unfold admissionLoop
    split
    · simp [hblock, Effect.call]
    · simp [waitQueueReturn, hok.flag, Effect.call]
  unfold monitorExec
  rw [if_pos hfreed]
  cases hl : (s.thr t).loc with
  | idle =>
      cases x with
      | request k =>
          obtain ⟨L, hforest, hmem⟩ := h.ok.list
          have hnone : place s t = none := by
            unfold place
            rw [hl]
            rfl
          have hempty := (hforest.isEmpty_cell ⟨t, rfl⟩).mpr (MonitorOk.free_of_place hmem hnone)
          simp only [monitorStep, hempty]
          split
          · next habsurd => cases habsurd
          · split <;> simp
      | shutDown => simp [monitorStep]
  | admission k =>
      -- a monitor has one mutex, so none but this one was caught before
      have htest : waitQueueTest (s.mem.monitor.waitQ k) (some t) (some .monitorTalkMutex) =
          some ((s.mem.monitor.waitQ k).cacheMutex .monitorTalkMutex) :=
        waitQueueTest_eq fun _ _ => rfl
      simp only [monitorStep, Monitor.isResourceNotAvailable, if_true, htest, Effect.call]
      exact hloop (hl ▸ .first k)
  | wait k => exact hloop (hl ▸ .again k)
  | holds k =>
      have hin : place s t = some .active := by
        unfold place
        rw [hl]
        rfl
      obtain ⟨m', notes, hrel, -⟩ := h.ok.release hin (grants_pos hl)
      simp [monitorStep, hrel, Effect.call]
  | turnedAway k =>
      rw [hl] at hlate
      cases hlate
  | informed =>
      simp only [monitorStep]
      split <;> simp

theorem MonitorInv.step_ne_abort (h : MonitorInv maxLimit strict s) (hfreed : s.mem.freed = 0)
    {a : Act τ MonitorCall} (hkeeps : keepsOut s a = true) :
    (monitorProgram compFn frees spurious).step s a ≠ .abort := by
  cases a with
  | spurious t => exact Program.not_abort_spurious
  | run t x picks =>
      intro habort
      exact h.exec_ne_abort hfreed (by simpa [keepsOut] using hkeeps)
        (Program.exec_of_abort habort).2

/-- Who uses the monitor, and what it says about it. -/
structure MonitorSafe (maxReaders maxWriters : UInt16) (s : MonitorConfig τ) : Prop where
  exclusive : grants s .reader = 0 ∨ grants s .writer = 0
  nCurr : ∀ k, s.mem.monitor.nCurr k = grants s k
  readers_le : grants s .reader ≤ maxReaders.toNat
  writers_le : grants s .writer ≤ maxWriters.toNat
  available : s.mem.monitor.resourceStatus = .available ↔ ∀ k, grants s k = 0
  busy : ∀ k, s.mem.monitor.resourceStatus = .busyBy k ↔ 0 < grants s k
  /-- `active_threads_in_cs` holds the cells of the threads with a grant, each once. -/
  active : ∃ zs, iterateGlthread s.mem.heap (Fintype.card τ) (base s.mem.heap (.head .active)) =
    some zs ∧ zs.Nodup ∧ ∀ a, a ∈ zs ↔ ∃ t k, a = .waitGlue t ∧ (s.thr t).loc = .holds k

theorem MonitorInv.safe (h : MonitorInv (Monitor.init maxReaders maxWriters).maxLimit strict s) :
    MonitorSafe maxReaders maxWriters s where
  exclusive := by
    by_cases hpos : 0 < grants s .reader
    · exact .inr (h.ok.exclusive .reader hpos)
    · exact .inl (Nat.eq_zero_of_not_pos hpos)
  nCurr := h.ok.nCurr
  readers_le := by
    have := (h.ok.limit .reader).1
    rwa [h.maxLimit] at this
  writers_le := by
    have := (h.ok.limit .writer).1
    rwa [h.maxLimit] at this
  available := by
    constructor
    · intro havail k
      by_contra hne
      have := (h.ok.status k).mpr (Nat.pos_of_ne_zero hne)
      rw [havail] at this
      cases this
    · intro hnone
      cases hstatus : s.mem.monitor.resourceStatus with
      | available => rfl
      | busyBy k => exact absurd ((h.ok.status k).mp hstatus) (by rw [hnone k]; exact Nat.lt_irrefl 0)
  busy := h.ok.status
  active := by
    obtain ⟨L, hforest, hmem⟩ := h.ok.list
    refine ⟨L .active, hforest.iterate (MonitorOk.length_le hforest _), hforest.nodup _, ?_⟩
    intro a
    constructor
    · intro ha
      obtain ⟨t, rfl⟩ := hforest.sub _ a ha
      have hplace : (s.thr t).loc.list = some .active := (hmem t .active).mp ha
      cases hl : (s.thr t).loc with
      | holds k => exact ⟨t, k, rfl, hl⟩
      | idle | admission _ | wait _ | turnedAway _ | informed =>
          rw [hl] at hplace
          cases hplace
    · rintro ⟨t, k, rfl, ht⟩
      apply (hmem t .active).mpr
      unfold place
      rw [ht]
      rfl

/-- No call of `monitor_shut_down`. -/
def noShutDown : Act τ MonitorCall → Bool
  | .run _ .shutDown _ => false
  | _ => true

/-- Nobody was turned away, and the monitor is there. -/
structure MonitorOpen (s : MonitorConfig τ) : Prop where
  freed : s.mem.freed = 0
  shutdown : s.mem.monitor.shutdown = false
  turnedAway : ∀ t, (s.thr t).loc.isTurnedAway = false

theorem MonitorMove.not_turnedAway
    {m' : MonitorMem τ} (hmove : MonitorMove compFn frees t x m l m' notes st)
    (hopen : m.monitor.shutdown = false) : st.loc.isTurnedAway = false := by
  cases hmove with
  | turnAway hclosed => rw [hopen] at hclosed; cases hclosed
  | request | shutDown | block | grant | release | lateRelease | leave | free => rfl

/-- Without a shutdown nobody is turned away. -/
theorem open_reachable
    (h : (monitorMachine compFn false spurious strict maxReaders maxWriters).ReachableUnder
      (fun _ a => noShutDown a = true) s) : MonitorOpen s := by
  apply Program.invariant _ _ _ h
  · rintro s rfl
    exact ⟨rfl, rfl, fun _ => rfl⟩
  · intro s t x picks s' notes st hopen hno hran
    have hmove := monitorMove_of_ran hran hopen.freed
    refine ⟨?_, ?_, ?_⟩
    · rcases hmove.freed.2 with hsame | ⟨hfrees, -⟩
      · rw [hsame, hopen.freed]
      · cases hfrees
    · rcases hmove.shutdown with hsame | ⟨rfl, -⟩
      · rw [hsame, hopen.shutdown]
      · cases hno
    · intro u
      by_cases hu : u = t
      · rw [hu, hran.self]
        exact hmove.not_turnedAway hopen.shutdown
      · rw [hran.loc_of_ne hu]
        exact hopen.turnedAway u
  · intro s t c l hopen _ hw
    refine ⟨hopen.freed, hopen.shutdown, ?_⟩
    intro u
    rw [loc_update_notified hw]
    exact hopen.turnedAway u

omit [DecidableEq τ] [Fintype τ] in
theorem MonitorOpen.keepsOut (h : MonitorOpen s) (a : Act τ MonitorCall) : keepsOut s a = true := by
  cases a with
  | run t x picks => simp [ThreadLib.keepsOut, h.turnedAway t]
  | spurious t => rfl

/-- A run without a shutdown is a run without a release by a turned-away thread. -/
theorem monitorInv_of_open
    (h : (monitorMachine compFn false spurious strict maxReaders maxWriters).ReachableUnder
      (fun _ a => noShutDown a = true) s) :
    MonitorInv (Monitor.init maxReaders maxWriters).maxLimit strict s := by
  apply Machine.ReachableUnder.invariant_of (fun _ => open_reachable) _ _ h
  · rintro s rfl
    exact .init
  · intro s a s' hopen hinv _ hstep
    cases a with
    | run t x picks =>
        obtain ⟨notes, st, hran⟩ := Program.ran_of_step hstep
        exact hinv.step hran hopen.freed (hopen.turnedAway t)
    | spurious t =>
        obtain ⟨-, c, l, hw, rfl⟩ := Program.spurious_of_step hstep
        exact hinv.woken hw

/-- **Safety of a monitor that is not shut down**: in every run one kind holds grants at a time, within
its limit, the fields and the list say who does, and no assertion fails. -/
theorem monitor_safe
    (h : (monitorMachine compFn false spurious strict maxReaders maxWriters).ReachableUnder
      (fun _ a => noShutDown a = true) s) :
    MonitorSafe maxReaders maxWriters s ∧
      ∀ a, (monitorMachine compFn false spurious strict maxReaders maxWriters).step s a ≠ .abort := by
  have hinv := monitorInv_of_open h
  have hopen := open_reachable h
  exact ⟨hinv.safe, fun a => hinv.step_ne_abort hopen.freed (hopen.keepsOut a)⟩

/-- Two readers are inside, a writer waits, and one reader leaves. -/
theorem monitor_safe_trace :
    ∃ s : MonitorConfig (Fin 3), MonitorSafe 2 1 s ∧ s.mem.monitor.nCurr .reader = 1 ∧
      s.thr 2 = .waiting (.thread (.waitGlue 2)) (.wait .writer) := by
  have hrun : ((monitorMachine (fun _ _ => 1) false true false 2 1).execUnder
      (fun _ a => noShutDown a) (freshMonitor (Fin 3) false 2 1)
      [.run 0 (.request .reader) [], .run 0 (.request .reader) [], .run 1 (.request .reader) [],
        .run 2 (.request .writer) [], .run 1 (.request .reader) [], .run 2 (.request .writer) [],
        .run 0 (.request .reader) []]).holds (fun s =>
        decide (s.mem.monitor.nCurr .reader = 1 ∧
          s.thr 2 = .waiting (.thread (.waitGlue 2)) (.wait .writer))) = true := by
    decide +kernel
  obtain ⟨s, hs, hp⟩ := Outcome.holds_iff.mp hrun
  have hreach := Machine.reachableUnder_of_execUnder (.init rfl) hs
  exact ⟨s, (monitor_safe hreach).1, of_decide_eq_true hp⟩

/-- **Grants under a shutdown**: as long as turned-away threads do not release and the monitor is there,
its counters are right and no assertion fails. -/
theorem monitor_grants
    (h : (monitorMachine compFn true spurious strict maxReaders maxWriters).ReachableUnder
      (fun s a => keepsOut s a = true) s) (hfreed : s.mem.freed = 0) :
    (∀ k, s.mem.monitor.nCurr k = grants s k) ∧
      ∀ a, keepsOut s a = true →
        (monitorMachine compFn true spurious strict maxReaders maxWriters).step s a ≠ .abort := by
  have hinv := monitorInv_reachable h hfreed
  exact ⟨hinv.ok.nCurr, fun a ha => hinv.step_ne_abort hfreed ha⟩

/-- A shutdown turns thread 1 away while thread 0 is inside. -/
def turnAwayTrace (a b c : τ) : List (Act τ MonitorCall) :=
  [.run a (.request .reader) [], .run a (.request .reader) [], .run c .shutDown [],
    .run b (.request .reader) []]

theorem monitor_grants_trace :
    ∃ s : MonitorConfig (Fin 3), s.mem.monitor.nCurr .reader = grants s .reader ∧
      s.thr 0 = .running (.holds .reader) ∧ s.thr 1 = .running (.turnedAway .reader) := by
  have hrun : ((monitorMachine (fun _ _ => 1) true false false 2 1).execUnder
      (fun s a => keepsOut s a) (freshMonitor (Fin 3) false 2 1) (turnAwayTrace 0 1 2)).holds (fun s =>
        decide (s.mem.freed = 0 ∧ s.thr 0 = .running (.holds .reader) ∧
          s.thr 1 = .running (.turnedAway .reader))) = true := by
    decide +kernel
  obtain ⟨s, hs, hp⟩ := Outcome.holds_iff.mp hrun
  obtain ⟨hfreed, hthr⟩ := of_decide_eq_true hp
  have hreach := Machine.reachableUnder_of_execUnder (.init rfl) hs
  exact ⟨s, (monitor_grants hreach hfreed).1 .reader, hthr⟩

/-- The turned-away thread takes the count of the thread inside, whose own release then fails an
assertion. -/
theorem monitor_grants_lost :
    ∃ s : MonitorConfig (Fin 3), (monitorMachine (fun _ _ => 1) true false false 2 1).Reachable s ∧
      s.mem.freed = 0 ∧ s.thr 0 = .running (.holds .reader) ∧ s.mem.monitor.nCurr .reader = 0 ∧
      (monitorMachine (fun _ _ => 1) true false false 2 1).step s (.run 0 .shutDown []) = .abort := by
  have hrun : ((monitorMachine (fun _ _ => 1) true false false 2 1).exec
      (freshMonitor (Fin 3) false 2 1) (turnAwayTrace 0 1 2 ++ [.run 1 .shutDown []])).holds (fun s =>
        decide (s.mem.freed = 0 ∧ s.thr 0 = .running (.holds .reader) ∧
          s.mem.monitor.nCurr .reader = 0) &&
        ((monitorMachine (fun _ _ => 1) true false false 2 1).step s
          (.run 0 .shutDown [])).isAbort) = true := by
    decide +kernel
  obtain ⟨s, hs, hp⟩ := Machine.exists_reachable_of_exec rfl hrun
  obtain ⟨hstate, habort⟩ := Bool.and_eq_true_iff.mp hp
  obtain ⟨hfreed, hholds, hcount⟩ := of_decide_eq_true hstate
  exact ⟨s, hs, hfreed, hholds, hcount, Outcome.isAbort_iff.mp habort⟩

end Invariant

end ThreadLib
end MultithreadingBible
