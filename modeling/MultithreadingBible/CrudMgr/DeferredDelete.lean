import MultithreadingBible.CrudMgr.ReadersWriters

/-!
# CRUD manager: a deferred delete and its wake-up

A delete request that finds the node in use waits in its node-level loop: on `rdrs_cv` if it saw a
reader at work, on `delete_thread_cv` otherwise.  Readers and writers that give up notify all
condition variables, but a release that finds nobody else pending signals `delete_thread_cv` only.
So the release of the last reader misses a deleter that waits on `rdrs_cv`.

`deferredDelete_awake` shows that this is the only missed wake-up.
-/

namespace MultithreadingBible
namespace CrudMgr

open Lib

variable {τ ν : Type*} [DecidableEq ν] [DecidableEq τ] [Fintype τ] {n : ν} {s s' : NodeConfig τ ν}
  {t u : τ} {x : NodeReq} {a : Act τ NodeReq} {notes : List (Note (ν × CrudCv))}
  {st : Status (ν × CrudCv) NodeLoc} {spurious : Bool}

/-- The states that keep a delete request waiting. -/
def CrudNodeState.defersDelete : CrudNodeState → Bool
  | .pendingRead | .readInProgress | .pendingWrite | .writeInProgress => true
  | _ => false

/-- A deleter blocked in its node-level loop has been notified once nothing defers it any more. -/
def DeleterAwake (n : ν) (s : NodeConfig τ ν) : Prop :=
  (∀ s₁ : CrudNodeState, s₁.defersDelete = true → (s.mem.node n).isStatusSet s₁ = false) →
    ∀ t, (s.thr t).loc = .wait .delete → ∃ cv, s.thr t = .notified cv (.wait .delete)

/-- The last reader is about to leave the node, nobody waits to read or write, and a deleter waits on
`rdrs_cv`. -/
def missesDeleter (n : ν) (s : NodeConfig τ ν) (t : τ) : Bool :=
  match (s.thr t).loc with
  | .releasing _ .read =>
      decide ((s.mem.node n).counter .readInProgress = 1) &&
      !(s.mem.node n).isStatusSet .pendingRead &&
      !(s.mem.node n).isStatusSet .pendingWrite &&
      decide (∃ u, s.thr u = .waiting (n, .rdrsCv) (.wait .delete))
  | _ => false

/-- No counter is pushed past 255 and no release of the last reader misses a deleter. -/
def deleterNotMissed (n : ν) (s : NodeConfig τ ν) (a : Act τ NodeReq) : Bool :=
  noOverflowAct n s a &&
    match a with
    | .run t _ _ => !missesDeleter n s t
    | .spurious _ => true

/-- A deleter that waits with the readers does so beside no writer. -/
def NoWriterBeside (n : ν) (s : NodeConfig τ ν) : Prop :=
  ∀ t, s.thr t = .waiting (n, .rdrsCv) (.wait .delete) →
    counts (nodeWeight n) s.thr n .writeInProgress = 0

/-- Two threads cannot both be deleting. -/
theorem NodeInv.eq_of_isDeleter (h : NodeInv n s) (ht : (s.thr t).loc.isDeleter = true)
    (hu : (s.thr u).loc.isDeleter = true) : u = t := by
  by_contra hne
  have hsum := add_le_tally s.thr (fun l => l.isDeleter.toNat) hne
  have hone := h.deleter
  simp only [ht, hu, Bool.toNat_true] at hsum
  omega

/-- A thread in the node-level loop of a delete is counted. -/
theorem NodeInv.pendingDelete_pos (h : NodeInv n s) (ht : (s.thr t).loc = .wait .delete) :
    0 < counts (nodeWeight n) s.thr n .pendingDelete := by
  have := (h.locFacts t).carries n .pendingDelete
  rw [ht] at this
  simp only [nodeWeight, contrib, NodeReq.pendingState, if_true] at this
  omega

/-- A reader or writer that gets to decide while a deleter waits finds the node marked. -/
theorem NodeInv.marked_of_arrives (h : NodeInv n s) {r : NodeReq} {m₁ : CrudMem ν}
    (ha : Arrives n x s.mem (s.thr u).loc r m₁) (ht : (s.thr t).loc = .wait .delete) (hne : t ≠ u) :
    (m₁.node n).isStatusSet .pendingDelete = true := by
  have hsum := add_le_tally s.thr (contrib .pendingDelete) hne
  rw [ht, show contrib .pendingDelete (.wait .delete) = 1 from rfl, ← counts_node (n := n)] at hsum
  rw [(ha.counted h.counted).isStatusSet_eq n (by decide), decide_eq_true_eq, moved_node]
  omega

/-- A signal of `delete_thread_cv` reaches the deleter that waits there. -/
theorem NodeInv.signal_deleter (h : NodeInv n s)
    (hran : (nodeProgram τ spurious n).Ran s u x s' notes st)
    (hmem : Note.signal (n, CrudCv.deleteThreadCv) ∈ notes)
    (hw : s.thr t = .waiting (n, .deleteThreadCv) (.wait .delete)) :
    s'.thr t = .notified (n, .deleteThreadCv) (.wait .delete) := by
  obtain ⟨v, l, -, hv, hv'⟩ := hran.signal hmem ⟨t, _, hw⟩
  have hstatus := h.status v
  rw [hv] at hstatus
  have hdel : (s.thr v).loc.isDeleter = true := by
    rw [hv]
    cases l with
    | wait r => cases r <;> first | rfl | cases hstatus
    | deleteMgrWait => rfl
    | _ => exact hstatus.elim
  have heq : v = t := h.eq_of_isDeleter (by rw [hw]; rfl) hdel
  subst heq
  rw [hw] at hv
  cases hv
  exact hv'

/-- Only a reader or writer that found the node unmarked becomes pending or active. -/
theorem NodeMove.defers_le {l : NodeLoc} {m m' : CrudMem ν} (hmove : NodeMove n x m l m' notes st)
    {s₁ : CrudNodeState} (hs₁ : s₁.defersDelete = true) :
    contrib s₁ st.loc ≤ contrib s₁ l ∨ ∃ r m₁, Arrives n x m l r m₁ ∧
      (m₁.node n).isStatusSet .pendingDelete = false := by
  have hzero : ∀ l' : NodeLoc, l' = .idle ∨ l' = .deleteMgr ∨ l' = .deleteMgrWait ∨
      l' = .wait .delete ∨ l' = .holds .delete → contrib s₁ l' = 0 := by
    intro l' hl'
    rcases hl' with rfl | rfl | rfl | rfl | rfl <;> cases s₁ <;> first | rfl | cases hs₁
  cases hmove with
  | rejected => exact .inl (Nat.le_refl _)
  | quit | signal => exact .inl (by rw [Status.loc_running, hzero _ (by simp)]; omega)
  | @block l r m₁ m' s₂ cv ha hloop =>
      by_cases hr : r = .delete
      · subst hr
        exact .inl (by rw [Status.loc_waiting, hzero _ (by simp)]; omega)
      · exact .inr ⟨r, m₁, ha, (NodeReq.loop_block hloop).2.2.1 hr⟩
  | grant ha hloop => exact .inr ⟨_, _, ha, (NodeReq.loop_grant hloop).2.2.1⟩
  | leave => exact .inl (by rw [Status.loc_running, hzero _ (by simp)]; omega)
  | readOp => exact .inl (Nat.le_refl _)
  | release => exact .inl (by rw [Status.loc_running, contrib_afterRelease]; omega)
  | deferDelete => exact .inl (by rw [Status.loc_waiting, hzero _ (by simp)]; omega)
  | grantDelete => exact .inl (by rw [Status.loc_running, hzero _ (by simp)]; omega)

theorem NoWriterBeside.ran (hQ : NoWriterBeside n s) (hinv : NodeInv n s)
    (hran : (nodeProgram τ spurious n).Ran s u x s' notes st) : NoWriterBeside n s' := by
  intro t ht
  have hmove := nodeMove_of_exec hran.exec
  have hmoved := congrFun (congrFun (moved_counts hran (nodeWeight n)) n) .writeInProgress
  rw [moved_node] at hmoved
  by_cases htu : t = u
  · -- the deleter itself decided to wait with the readers
    subst htu
    rw [hran.self] at ht
    subst ht
    generalize s'.mem = m' at hmove
    generalize (s.thr t).loc = l at hmove hmoved
    cases hmove with
    | @block l r m₁ m' s₂ cv ha hloop he =>
        obtain ⟨-, hcv, -⟩ := NodeReq.loop_block hloop
        have hwip : (m₁.node n).isStatusSet .writeInProgress = false := by
          simp only [NodeReq.cv] at hcv
          split at hcv
          case isTrue h =>
            have hset := (Bool.and_eq_true_iff.mp h).1
            simpa using hset
          case isFalse => cases hcv
        have hzero := (ha.counted hinv.counted).count_zero (by decide) hwip
        rw [moved_node] at hzero
        exact hmoved.symm.trans hzero
  · -- no writer can have been granted meanwhile
    have hw := hran.waiting_of_ne htu ht
    have hzero := hQ t hw
    have hdefers : CrudNodeState.writeInProgress.defersDelete = true := rfl
    rcases hmove.defers_le hdefers with hle | ⟨r, m₁, ha, hset⟩
    · omega
    · rw [hinv.marked_of_arrives ha (by rw [hw]; rfl) htu] at hset
      cases hset

/-- A deleter that has just decided to wait found something in its way. -/
theorem NodeInv.defers_of_block (h : NodeInv n s) {cv : ν × CrudCv}
    (hran : (nodeProgram τ spurious n).Ran s t x s' notes (.waiting cv (.wait .delete))) :
    ∃ s₁ : CrudNodeState, s₁.defersDelete = true ∧ 0 < counts (nodeWeight n) s'.thr n s₁ := by
  have hmove := nodeMove_of_exec hran.exec
  have hmoved := fun s₁ => congrFun (congrFun (moved_counts hran (nodeWeight n)) n) s₁
  simp only [moved_node] at hmoved
  generalize s'.mem = m' at hmove
  generalize (s.thr t).loc = l at hmove hmoved
  cases hmove with
  | @block l r m₁ m' s₂ cv ha hloop he =>
      have hpos : ∀ s₁ : CrudNodeState, s₁.defersDelete = true →
          (m₁.node n).isStatusSet s₁ = true → 0 < counts (nodeWeight n) s'.thr n s₁ := by
        intro s₁ hs₁ hset
        have hbefore := (ha.counted h.counted).count_pos (by rintro rfl; cases hs₁) hset
        have hcount := hmoved s₁
        have hwait : contrib s₁ (.wait .delete) = 0 := by cases s₁ <;> first | rfl | cases hs₁
        have hidle : contrib s₁ .idle = 0 := rfl
        rw [moved_node] at hbefore
        rw [Status.loc_waiting] at hcount
        omega
      obtain ⟨-, -, -, hwhy⟩ := NodeReq.loop_block hloop
      rcases hwhy with hset | ⟨-, hset⟩ | ⟨-, hset⟩ | ⟨-, hset⟩ | ⟨hr, -⟩
      · exact ⟨_, rfl, hpos _ rfl hset⟩
      · exact ⟨_, rfl, hpos _ rfl hset⟩
      · exact ⟨_, rfl, hpos _ rfl hset⟩
      · exact ⟨_, rfl, hpos _ rfl hset⟩
      · cases hr

/-- If the moving thread took back nothing that defers a delete and nothing does after its step, then
nothing did before. -/
theorem NodeInv.free_before (h : NodeInv n s)
    (hran : (nodeProgram τ spurious n).Ran s u x s' notes st)
    (hzero : ∀ s₁ : CrudNodeState, s₁.defersDelete = true →
      counts (nodeWeight n) s'.thr n s₁ = 0)
    (hle : ∀ s₁ : CrudNodeState, s₁.defersDelete = true →
      contrib s₁ (s.thr u).loc ≤ contrib s₁ st.loc)
    (s₁ : CrudNodeState) (hs₁ : s₁.defersDelete = true) :
    (s.mem.node n).isStatusSet s₁ = false := by
  have hcount := congrFun (congrFun (moved_counts hran (nodeWeight n)) n) s₁
  rw [moved_node, hzero s₁ hs₁] at hcount
  have hle₁ := hle s₁ hs₁
  rw [h.counted.isStatusSet_eq n (by rintro rfl; cases hs₁), decide_eq_false_iff_not]
  omega

/-- The release of the last reader beside a deleter that waits with the readers misses it. -/
theorem NodeInv.missesDeleter_of_last (h : NodeInv n s)
    (hran : (nodeProgram τ spurious n).Ran s u x s' notes st)
    (hl : (s.thr u).loc = .releasing .read .read) (hl' : st.loc = afterRelease .read)
    (hzero : ∀ s₁ : CrudNodeState, s₁.defersDelete = true →
      counts (nodeWeight n) s'.thr n s₁ = 0)
    (hw : s.thr t = .waiting (n, .rdrsCv) (.wait .delete)) : missesDeleter n s u = true := by
  have hcount : ∀ s₁ : CrudNodeState, s₁.defersDelete = true →
      counts (nodeWeight n) s.thr n s₁ = contrib s₁ (.releasing .read .read) := by
    intro s₁ hs₁
    have hmoved := congrFun (congrFun (moved_counts hran (nodeWeight n)) n) s₁
    rw [moved_node, hzero s₁ hs₁, hl, hl', contrib_afterRelease] at hmoved
    have hown := (h.locFacts u).carries n s₁
    rw [nodeWeight, if_pos rfl, hl] at hown
    omega
  simp only [missesDeleter, hl]
  rw [h.counted.counter_eq n (by decide), h.counted.isStatusSet_eq n (by decide),
    h.counted.isStatusSet_eq n (by decide), hcount _ rfl, hcount _ rfl, hcount _ rfl]
  simpa [contrib, releasedState] using ⟨t, hw⟩

omit [DecidableEq τ] [Fintype τ] in
/-- A request that defers no delete comes from a thread that does not. -/
theorem Arrives.contrib_eq_zero {m m₁ : CrudMem ν} {l : NodeLoc} {r : NodeReq} {x : NodeReq}
    (ha : Arrives n x m l r m₁) (hr : r.pendingState.defersDelete = false) {s₁ : CrudNodeState}
    (hs₁ : s₁.defersDelete = true) : contrib s₁ l = 0 := by
  cases ha with
  | fresh => cases s₁ <;> rfl
  | resumed =>
      refine if_neg fun heq => ?_
      rw [heq, hr] at hs₁
      cases hs₁

theorem ArrivesMgr.contrib_eq_zero {m m₁ : CrudMem ν} {l : NodeLoc} (ha : ArrivesMgr n m l m₁)
    {s₁ : CrudNodeState} (hs₁ : s₁.defersDelete = true) : contrib s₁ l = 0 := by
  cases ha <;> cases s₁ <;> first | rfl | cases hs₁

/-- No other thread's step leaves a deleter blocked that nothing defers. -/
theorem DeleterAwake.not_blocked (hP : DeleterAwake n s) (hQ : NoWriterBeside n s)
    (hinv : NodeInv n s) (hran : (nodeProgram τ spurious n).Ran s u x s' notes st)
    (hinv' : NodeInv n s') (hmiss : missesDeleter n s u = false)
    (hfree : ∀ s₁ : CrudNodeState, s₁.defersDelete = true → (s'.mem.node n).isStatusSet s₁ = false)
    (htu : t ≠ u) {cv : ν × CrudCv} (hw' : s'.thr t = .waiting cv (.wait .delete)) : False := by
  have hmove := nodeMove_of_exec hran.exec
  have hw := hran.waiting_of_ne htu hw'
  have hwait : (s.thr t).loc = .wait .delete := by rw [hw]; rfl
  have hcv := hinv.status t
  rw [hw] at hcv
  have hzero : ∀ s₁ : CrudNodeState, s₁.defersDelete = true →
      counts (nodeWeight n) s'.thr n s₁ = 0 := fun s₁ hs₁ =>
    hinv'.counted.count_zero (by rintro rfl; cases hs₁) (hfree s₁ hs₁)
  -- something that deferred the delete must have gone away in this step
  have hsame : (∀ s₁ : CrudNodeState, s₁.defersDelete = true →
      contrib s₁ (s.thr u).loc ≤ contrib s₁ st.loc) → False := by
    intro hle
    obtain ⟨cv', hn⟩ := hP (hinv.free_before hran hzero hle) t hwait
    rw [hw] at hn
    cases hn
  have hgone : (∀ s₁ : CrudNodeState, s₁.defersDelete = true →
      contrib s₁ (s.thr u).loc = 0) → False := fun h =>
    hsame fun s₁ hs₁ => by rw [h s₁ hs₁]; exact Nat.zero_le _
  -- and the deleter cannot have been on the variable that was signalled
  have hsignal : Note.signal (n, CrudCv.deleteThreadCv) ∈ notes →
      cv = (n, .deleteThreadCv) → False := by
    intro hmem heq
    subst heq
    rw [hinv.signal_deleter hran hmem hw] at hw'
    cases hw'
  have hmarked := fun {r : NodeReq} {m₁ : CrudMem ν}
    (ha : Arrives n x s.mem (s.thr u).loc r m₁) => hinv.marked_of_arrives ha hwait htu
  have hcarry := (hinv.locFacts u).carries n
  have hreleased := (hinv.locFacts u).released
  have hlast := fun hl hl' (hcv : cv = (n, .rdrsCv)) =>
    hinv.missesDeleter_of_last hran hl hl' hzero (hcv ▸ hw)
  have hpd : (s'.mem.node n).isStatusSet .pendingDelete = true := by
    rw [hinv'.counted.isStatusSet_eq n (by decide), decide_eq_true_eq]
    apply hinv'.pendingDelete_pos (t := t)
    rw [hw']
    rfl
  have hwake : wakeNotes n (s'.mem.node n) = [.signal (n, .deleteThreadCv)] := by
    simp [wakeNotes, hpd, hfree .pendingRead rfl, hfree .pendingWrite rfl]
  generalize hm' : s'.mem = m' at hmove
  generalize hl : (s.thr u).loc = l at hmove hsame hgone hmarked hcarry hreleased hlast
  cases hmove with
  | rejected => exact hsame fun _ _ => Nat.le_refl _
  | readOp => exact hsame fun _ _ => Nat.le_refl _
  | @quit l r m₁ notes ha hloop =>
      rcases NodeReq.loop_quit hloop with ⟨-, -, rfl⟩ | ⟨rfl, -⟩
      · rcases hcv with rfl | rfl
        · exact hran.broadcast (by simp [quitNotes]) htu _ hw'
        · exact hsignal (by simp [quitNotes]) rfl
      · exact hgone fun _ hs₁ => ha.contrib_eq_zero rfl hs₁
  | @block l r m₁ m' s₂ cv' ha hloop =>
      by_cases hr : r = .delete
      · subst hr
        exact hgone fun _ hs₁ => ha.contrib_eq_zero rfl hs₁
      · have := hmarked ha
        rw [(NodeReq.loop_block hloop).2.2.1 hr] at this
        cases this
  | grant ha hloop =>
      have := hmarked ha
      rw [(NodeReq.loop_grant hloop).2.2.1] at this
      cases this
  | leave ha hloop =>
      obtain ⟨rfl, -⟩ := NodeReq.loop_leave hloop
      exact hgone fun _ hs₁ => ha.contrib_eq_zero rfl hs₁
  | deferDelete ha => exact hgone fun _ hs₁ => ha.contrib_eq_zero hs₁
  | grantDelete ha => exact hgone fun _ hs₁ => ha.contrib_eq_zero hs₁
  | signal => exact hgone fun _ _ => rfl
  | @release op currOp s₂ m' notes hs₂ he htail =>
      have hop := hreleased op currOp rfl
      subst hop
      cases currOp with
      | opNone | create | delete =>
          exact hgone fun s₁ hs₁ => by cases s₁ <;> first | rfl | cases hs₁
      | read =>
          have htail' : notes = wakeNotes n (s'.mem.node n) := by
            rw [← hm'] at htail
            simpa [releaseNodeTail, hfree .readInProgress rfl] using htail.symm
          rcases hcv with hcv | hcv
          · -- the release of the last reader beside this deleter was excluded
            rw [hlast rfl rfl hcv] at hmiss
            cases hmiss
          · exact hsignal (by rw [htail', hwake]; simp) hcv
      | write =>
          have htail' : notes = wakeNotes n (s'.mem.node n) := by
            rw [← hm'] at htail
            simpa [releaseNodeTail] using htail.symm
          rcases hcv with rfl | hcv
          · have hown := hcarry .writeInProgress
            rw [nodeWeight, if_pos rfl, hQ t hw] at hown
            cases hown
          · exact hsignal (by rw [htail', hwake]; simp) hcv

/-- **Step lemma** for threads that run. -/
theorem DeleterAwake.ran (hP : DeleterAwake n s) (hQ : NoWriterBeside n s) (hinv : NodeInv n s)
    (hran : (nodeProgram τ spurious n).Ran s u x s' notes st) (hinv' : NodeInv n s')
    (hmiss : missesDeleter n s u = false) : DeleterAwake n s' := by
  intro hfree t ht
  rcases (hinv'.status t).blocked ht with ⟨cv, hw'⟩ | hn
  · exfalso
    by_cases htu : t = u
    · subst htu
      rw [hran.self] at hw'
      subst hw'
      obtain ⟨s₁, hs₁, hpos⟩ := hinv.defers_of_block hran
      have := hinv'.counted.count_zero (by rintro rfl; cases hs₁) (hfree s₁ hs₁)
      omega
    · exact hP.not_blocked hQ hinv hran hinv' hmiss hfree htu hw'
  · exact hn

/-- What is invariant while no deleter is missed. -/
structure DeleteInv (n : ν) (s : NodeConfig τ ν) : Prop where
  inv : NodeInv n s
  beside : NoWriterBeside n s
  awake : DeleterAwake n s

theorem DeleteInv.init (h : (nodeMachine τ spurious n).init s) : DeleteInv n s := by
  have hidle := h.2
  refine ⟨.init h, fun t ht => ?_, fun _ t ht => ?_⟩
  · rw [hidle t] at ht; cases ht
  · rw [hidle t] at ht; cases ht

/-- **Step lemma.** -/
theorem DeleteInv.step (h : DeleteInv n s) (hc : deleterNotMissed n s a = true)
    (hstep : (nodeMachine τ spurious n).step s a = .next s') : DeleteInv n s' := by
  simp only [deleterNotMissed, Bool.and_eq_true] at hc
  have hinv' := h.inv.step hc.1 hstep
  cases a with
  | run u x picks =>
      obtain ⟨notes, st, hran⟩ := Program.ran_of_step hstep
      exact ⟨hinv', h.beside.ran h.inv hran,
        h.awake.ran h.beside h.inv hran hinv' (by simpa using hc.2)⟩
  | spurious u =>
      obtain ⟨-, cv, l, hw, rfl⟩ := Program.spurious_of_step hstep
      have hloc := loc_update_notified hw
      refine ⟨hinv', fun t ht => ?_, fun hfree t ht => ?_⟩
      · by_cases htu : t = u
        · subst htu; simp at ht
        · rw [counts_congr hloc]
          exact h.beside t (by simpa [htu] using ht)
      · by_cases htu : t = u
        · subst htu
          rw [hloc, hw] at ht
          cases ht
          exact ⟨cv, by simp⟩
        · obtain ⟨cv', hn⟩ := h.awake hfree t (by rw [← hloc t]; exact ht)
          exact ⟨cv', by simp [htu, hn]⟩

/-- **A deferred delete is woken**, unless the release of the last reader misses it (or a counter
overflows): in every other run, a deleter blocked in its node-level loop has been notified whenever
nobody reads, writes or waits for it. -/
theorem deferredDelete_awake
    (h : (nodeMachine τ spurious n).ReachableUnder (fun s a => deleterNotMissed n s a = true) s) :
    DeleterAwake n s := by
  have hinv : DeleteInv n s :=
    h.invariant (fun _ h => .init h) fun _ _ _ hI hc hstep => hI.step hc hstep
  exact hinv.awake

/-- The deleter `d` waits for the writer `w`, whose release wakes it. -/
def deferredTrace (w d : τ) : List (Act τ NodeReq) :=
  [.run w .write [], .run d .delete [], .run w .write [], .run w .write [some d]]

theorem deferredDelete_awake_trace :
    ∃ s : NodeConfig (Fin 2) (Fin 1), DeleterAwake 0 s ∧
      (s.mem.node 0).isStatusSet .writeInProgress = false ∧
      s.thr 1 = .notified (0, .deleteThreadCv) (.wait .delete) := by
  have hrun : ((nodeMachine (Fin 2) false (0 : Fin 1)).execUnder (deleterNotMissed 0)
      (freshConfig _ 1) (deferredTrace 0 1)).holds (fun s =>
        decide ((s.mem.node 0).isStatusSet .writeInProgress = false ∧
          s.thr 1 = .notified (0, .deleteThreadCv) (.wait .delete))) = true := by
    decide +kernel
  obtain ⟨s, hs, hp⟩ := Outcome.holds_iff.mp hrun
  have hinit : (nodeMachine (Fin 2) false (0 : Fin 1)).init (freshConfig _ 1) :=
    ⟨freshMgr_initialised 1, fun _ => rfl⟩
  have hreach := Machine.reachableUnder_of_execUnder (.init hinit) hs
  exact ⟨s, deferredDelete_awake hreach, of_decide_eq_true hp⟩

/-- **The missed deleter is reached**: a deleter waits for a reader, and the reader's release signals
the wrong condition variable. -/
theorem deferredDelete_missed :
    ∃ s : NodeConfig (Fin 2) (Fin 1), (nodeMachine (Fin 2) false (0 : Fin 1)).Reachable s ∧
      ¬ DeleterAwake 0 s ∧ s.thr 0 = .running .idle ∧
      s.thr 1 = .waiting (0, .rdrsCv) (.wait .delete) := by
  have hrun : ((nodeMachine (Fin 2) false (0 : Fin 1)).exec (freshConfig _ 1)
      [.run 0 .read [], .run 1 .delete [], .run 0 .read [], .run 0 .read []]).holds (fun s =>
        decide ((s.mem.node 0).isStatusSet .pendingRead = false ∧
          (s.mem.node 0).isStatusSet .readInProgress = false ∧
          (s.mem.node 0).isStatusSet .pendingWrite = false ∧
          (s.mem.node 0).isStatusSet .writeInProgress = false ∧
          s.thr 0 = .running .idle ∧
          s.thr 1 = .waiting (0, .rdrsCv) (.wait .delete))) = true := by
    decide +kernel
  have hinit : (nodeMachine (Fin 2) false (0 : Fin 1)).init (freshConfig _ 1) :=
    ⟨freshMgr_initialised 1, fun _ => rfl⟩
  obtain ⟨s, hs, hp⟩ := Machine.exists_reachable_of_exec hinit hrun
  obtain ⟨h₁, h₂, h₃, h₄, hidle, hw⟩ := of_decide_eq_true hp
  refine ⟨s, hs, fun hP => ?_, hidle, hw⟩
  have hfree : ∀ s₁ : CrudNodeState, s₁.defersDelete = true →
      (s.mem.node 0).isStatusSet s₁ = false := by
    intro s₁ hs₁
    cases s₁ <;> first | assumption | cases hs₁
  obtain ⟨cv, hn⟩ := hP hfree 1 (by rw [hw]; rfl)
  rw [hw] at hn
  cases hn

end CrudMgr
end MultithreadingBible
