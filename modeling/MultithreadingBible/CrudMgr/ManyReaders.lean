import Mathlib.Data.Finset.Card
import MultithreadingBible.CrudMgr.ReadersWriters

/-!
# CRUD manager: any number of simultaneous readers

Threads that are granted reads on one node and release them, in any order, with nobody else around.
A redundant entry into `read_in_progress` increments the state's `uint8_t` counter and checks nothing,
so the counter follows the number of readers exactly as long as there are at most 255 of them
(`readers_bookkept`).  The 256th grant leaves the counter at 0 with the flag set, and the next release
fails an assertion.
-/

namespace MultithreadingBible
namespace CrudMgr

open Lib

/-- What a reader does: it calls `crud_request_read` and is granted, or calls
`crud_request_release`. -/
inductive ReaderEvent (τ : Type*) where
  | grant (t : τ)
  | release (t : τ)

namespace ReaderEvent

variable {τ : Type*}

/-- The steps of the node's machine that make up an event.  A release first reads `curr_op`. -/
def acts : ReaderEvent τ → List (Act τ NodeReq)
  | .grant t => [.run t .read []]
  | .release t => [.run t .read [], .run t .read []]

variable [DecidableEq τ]

/-- The readers after an event. -/
def holdersAfter (H : Finset τ) : ReaderEvent τ → Finset τ
  | .grant t => insert t H
  | .release t => H.erase t

/-- Only a thread without a grant asks for one, only a reader releases. -/
def Valid (H : Finset τ) : ReaderEvent τ → Prop
  | .grant t => t ∉ H
  | .release t => t ∈ H

end ReaderEvent

section Events

variable {τ : Type*} [DecidableEq τ]

/-- The readers after a list of events. -/
def holdersAfter (H : Finset τ) (es : List (ReaderEvent τ)) : Finset τ :=
  es.foldl ReaderEvent.holdersAfter H

/-- A list of events that readers can go through. -/
def ValidFrom (H : Finset τ) : List (ReaderEvent τ) → Prop
  | [] => True
  | e :: es => e.Valid H ∧ ValidFrom (e.holdersAfter H) es

end Events

variable {τ ν : Type*} [DecidableEq ν] [DecidableEq τ] [Fintype τ]

/-- What readers do, as a run of the node's machine. -/
def runEvents (spurious : Bool) (n : ν) (s : NodeConfig τ ν) (es : List (ReaderEvent τ)) :
    Outcome (NodeConfig τ ν) :=
  (nodeMachine τ spurious n).exec s (es.flatMap ReaderEvent.acts)

/-- Flags and counters of the node say how many readers there are. -/
structure Bookkept (n : ν) (s : NodeConfig τ ν) : Prop where
  counter : (s.mem.node n).counter .readInProgress = grants s .read
  /-- With a reader left the node stays in `read_in_progress` and no writer is granted. -/
  busy : 0 < grants s .read → (s.mem.node n).isStatusSet .readInProgress = true ∧
    ∀ state, crudRequestWriteLoop n (s.mem.node n) ≠ .grant state
  /-- With no reader left the node is back in `no_op`. -/
  free : grants s .read = 0 →
    (∀ state, (s.mem.node n).isStatusSet state = decide (state = .noOp)) ∧
      ∀ state, state ≠ .noOp → (s.mem.node n).counter state = 0

/-- Every beginning of the events is carried out and leaves the node's bookkeeping right. -/
def AllBookkept (spurious : Bool) (n : ν) (s : NodeConfig τ ν) (es : List (ReaderEvent τ)) : Prop :=
  ∀ p, p <+: es → ∃ s', runEvents spurious n s p = .next s' ∧ Bookkept n s'

/-- There are never more than 255 readers. -/
def NeverAbove255 (H : Finset τ) (es : List (ReaderEvent τ)) : Prop :=
  ∀ p, p <+: es → (holdersAfter H p).card ≤ 255

/-- The readers are the threads in `H`, and the memory counts them. -/
structure Readers (n : ν) (H : Finset τ) (s : NodeConfig τ ν) : Prop where
  counted : Counted s.mem fun n' state =>
    if n' = n ∧ state = .readInProgress then H.card else 0
  thr : ∀ t, s.thr t = .running (if t ∈ H then .holds .read else .idle)

omit [DecidableEq ν] in
/-- The readers are the unreleased read grants. -/
theorem grants_of_thr {H : Finset τ} {s : NodeConfig τ ν}
    (h : ∀ t, s.thr t = .running (if t ∈ H then .holds .read else .idle)) :
    grants s .read = H.card := by
  unfold grants
  congr 1
  ext t
  rw [Finset.mem_filter, h t, Status.loc_running]
  by_cases ht : t ∈ H <;> simp [ht, NodeLoc.holdsGrant]

namespace Readers

variable {n : ν} {H : Finset τ} {s : NodeConfig τ ν} {t : τ} (spurious : Bool)

theorem init (h : (nodeMachine τ spurious n).init s) : Readers n ∅ s where
  counted := by simpa using h.1.counted
  thr t := by simpa using h.2 t

theorem grants_eq (h : Readers n H s) : grants s .read = H.card :=
  grants_of_thr h.thr

omit [Fintype τ] in
theorem isStatusSet_eq (h : Readers n H s) (state : CrudNodeState) (hs : state ≠ .noOp) :
    (s.mem.node n).isStatusSet state = decide (state = .readInProgress ∧ H.Nonempty) := by
  rw [h.counted.isStatusSet_eq n hs]
  by_cases hread : state = .readInProgress <;> simp [hread, Finset.card_pos]

omit [Fintype τ] in
theorem isStatusSet_noOp (h : Readers n H s) :
    (s.mem.node n).isStatusSet .noOp = decide (H = ∅) := by
  obtain ⟨L, hmem⟩ := h.counted.mem
  have hiff := hmem.isStatusSet_noOp_iff (n := n) trivial
  rw [Bool.eq_iff_iff, hiff]
  simp [total]

theorem bookkept (h : Readers n H s) : Bookkept n s where
  counter := by
    rw [h.counted.counter_eq n (by decide), h.grants_eq]
    simp
  busy hpos := by
    rw [h.grants_eq, Finset.card_pos] at hpos
    have hread : (s.mem.node n).isStatusSet .readInProgress = true := by
      simpa [h.isStatusSet_eq] using hpos
    refine ⟨hread, fun state hgrant => ?_⟩
    have hloop := NodeReq.loop_grant (r := .write) hgrant
    rw [hloop.2.2.2.2.2.2 rfl] at hread
    cases hread
  free hzero := by
    rw [h.grants_eq, Finset.card_eq_zero] at hzero
    subst hzero
    constructor
    · intro state
      by_cases hs : state = .noOp
      · subst hs; simp [h.isStatusSet_noOp]
      · simp [h.isStatusSet_eq _ hs, hs]
    · intro state hs
      rw [h.counted.counter_eq n hs]
      simp

omit [Fintype τ] in
/-- A reader is granted at once. -/
theorem loop_eq (h : Readers n H s) :
    crudRequestReadLoop n (s.mem.node n) = .grant .readInProgress := by
  have hset : ∀ {state : CrudNodeState}, state ≠ .noOp → state ≠ .readInProgress →
      (s.mem.node n).isStatusSet state = false := by
    intro state hs hread
    simp [h.isStatusSet_eq _ hs, hread]
  by_cases hH : H = ∅
  · subst hH
    have hread := h.isStatusSet_eq .readInProgress (by decide)
    simp [crudRequestReadLoop, CrudNode.inUse, hset, h.isStatusSet_noOp, hread]
  · have hread : (s.mem.node n).isStatusSet .readInProgress = true := by
      simpa [h.isStatusSet_eq] using Finset.nonempty_iff_ne_empty.mpr hH
    simp [crudRequestReadLoop, hset, h.isStatusSet_noOp, hH, hread]

omit [Fintype τ] in
theorem rejects_eq_false (h : Readers n H s) : rejectsRequest (s.mem.node n) = false := by
  simp [rejectsRequest, h.isStatusSet_eq]

/-- A thread that is not a reader is granted wherever the state can be entered. -/
theorem run_grant {m' : CrudMem ν} (h : Readers n H s) (ht : t ∉ H)
    (he : crudNodeEnterState s.mem n .readInProgress = some m') :
    runEvents spurious n s [.grant t] =
      .next ⟨m', Function.update s.thr t (.running (.holds .read))⟩ := by
  have hthr : s.thr t = .running .idle := by simpa [ht] using h.thr t
  have hexec : nodeExec n (s.thr t).loc .read s.mem =
      .done m' [] (.running (.holds .read)) := by
    simp [hthr, nodeExec, h.rejects_eq_false, requestLoop, NodeReq.loop, h.loop_eq, he,
      Effect.call, NodeReq.op]
  have hstep := Program.step_of_silent (P := nodeProgram τ spurious n) []
    (by simp [hthr]) hexec
  simp [runEvents, ReaderEvent.acts, hstep, Outcome.bind]

/-- Up to 255 readers are counted. -/
theorem grant (h : Readers n H s) (ht : t ∉ H) (hlt : H.card < 255) :
    ∃ s', runEvents spurious n s [.grant t] = .next s' ∧ Readers n (insert t H) s' := by
  have hroom : (if n = n ∧ CrudNodeState.readInProgress = .readInProgress then H.card else 0) <
      255 := by simpa using hlt
  obtain ⟨m', hm'⟩ := h.counted.exists_enter (n := n) (s := .readInProgress) (by decide)
    (.inr ⟨rfl, hroom⟩)
  refine ⟨_, h.run_grant spurious ht hm', ?_, fun u => ?_⟩
  · refine (h.counted.enter (by decide) hroom (fun op hop op' s' hop' hpos => ?_) hm'
      fun n' s' _ => ?_).1
    · -- `read_in_progress` is the only state in use
      have hs' : s' = .readInProgress := by
        by_contra hne
        simp [hne] at hpos
      exact releasedState_inj (hs' ▸ hop') hop
    · rw [Finset.card_insert_of_notMem ht]
      split <;> rfl
  · by_cases hu : u = t
    · subst hu; simp
    · simpa [hu] using h.thr u

/-- The 256th reader is granted too, and the counter wraps around to 0. -/
theorem grant_overflow (h : Readers n H s) (ht : t ∉ H) (hfull : H.card = 255) :
    ∃ s', runEvents spurious n s [.grant t] = .next s' ∧
      (s'.mem.node n).counter .readInProgress = 0 ∧ (s'.mem.node n).currOp = .read ∧
      ∀ u, s'.thr u = .running (if u ∈ insert t H then .holds .read else .idle) := by
  have hset : (s.mem.node n).isStatusSet .readInProgress = true := by
    rw [h.isStatusSet_eq _ (by decide), decide_eq_true_iff, ← Finset.card_pos, hfull]
    exact ⟨rfl, by decide⟩
  have hcounter : (s.mem.node n).counter .readInProgress = 255 := by
    rw [h.counted.counter_eq n (by decide)]
    simpa using hfull
  have hcur : (s.mem.node n).currOp = .read :=
    (h.counted.op n).op .read .readInProgress rfl (by simp [hfull])
  have henter : crudNodeEnterState s.mem n .readInProgress =
      some (s.mem.setNode n ((s.mem.node n).setCounter .readInProgress 256)) := by
    simp [crudNodeEnterState, enterStateBody, hset, CrudNodeState.isExclusive, hcounter]
  refine ⟨_, h.run_grant spurious ht henter, ?_, ?_, fun u => ?_⟩
  · simp [CrudNode.setCounter]
  · simpa [CrudNode.setCounter] using hcur
  · by_cases hu : u = t
    · subst hu; simp
    · simpa [hu] using h.thr u

/-- A reader releases. -/
theorem release (h : Readers n H s) (ht : t ∈ H) :
    ∃ s', runEvents spurious n s [.release t] = .next s' ∧ Readers n (H.erase t) s' := by
  have hthr : s.thr t = .running (.holds .read) := by simpa [ht] using h.thr t
  have hpos : 0 < H.card := Finset.card_pos.mpr ⟨t, ht⟩
  have hcur : (s.mem.node n).currOp = .read :=
    (h.counted.op n).op .read .readInProgress rfl (by simpa using hpos)
  obtain ⟨m', hm'⟩ := h.counted.exists_exit (n := n) (s := .readInProgress) (by decide)
    (by simpa using hpos)
  have hcounted : Counted m' fun n' state =>
      if n' = n ∧ state = .readInProgress then (H.erase t).card else 0 := by
    refine h.counted.exit (by decide) hm' fun n' s' _ => ?_
    rw [Finset.card_erase_of_mem ht]
    split <;> omega
  -- with nobody pending there is nobody to notify
  have htail : releaseNodeTail n .read (m'.node n) = some [] := by
    have hpending : ∀ {state : CrudNodeState}, state ≠ .noOp → state ≠ .readInProgress →
        (m'.node n).isStatusSet state = false := by
      intro state hs hread
      simp [hcounted.isStatusSet_eq n hs, hread]
    simp [releaseNodeTail, wakeNotes, hpending]
  have hread : nodeExec n (s.thr t).loc .read s.mem =
      .done s.mem [] (.running (.releasing .read .read)) := by
    simp [hthr, nodeExec, hcur]
  have hleave : nodeExec n (.releasing .read .read) .read s.mem =
      .done m' [] (.running .idle) := by
    simp [nodeExec, releasedState, hm', htail, Effect.call, afterRelease,
      CrudOpType.isStructural]
  have hstep₁ := Program.step_of_silent (P := nodeProgram τ spurious n) []
    (by simp [hthr]) hread
  have hstep₂ := Program.step_of_silent (P := nodeProgram τ spurious n) [] (x := .read)
    (s := ⟨s.mem, Function.update s.thr t (.running (.releasing .read .read))⟩) (t := t)
    (by simp) (by simpa using hleave)
  have hrun : runEvents spurious n s [.release t] =
      .next ⟨m', Function.update s.thr t (.running .idle)⟩ := by
    simp [runEvents, ReaderEvent.acts, hstep₁, hstep₂, Outcome.bind]
  refine ⟨_, hrun, hcounted, fun u => ?_⟩
  by_cases hu : u = t
  · subst hu; simp
  · simpa [hu] using h.thr u

end Readers

section Runs

variable {n : ν} {H : Finset τ} {s : NodeConfig τ ν} (spurious : Bool)

theorem runEvents_append (es es' : List (ReaderEvent τ)) :
    runEvents spurious n s (es ++ es') =
      (runEvents spurious n s es).bind fun s' => runEvents spurious n s' es' := by
  simp only [runEvents, List.flatMap_append]
  exact Machine.exec_append _ _ _ _

theorem runEvents_cons (e : ReaderEvent τ) (es : List (ReaderEvent τ)) :
    runEvents spurious n s (e :: es) =
      (runEvents spurious n s [e]).bind fun s' => runEvents spurious n s' es :=
  runEvents_append spurious [e] es

/-- With fewer than 255 readers, or to release, an event is carried out and counted. -/
theorem Readers.event {e : ReaderEvent τ} (h : Readers n H s) (hv : e.Valid H)
    (hcard : (e.holdersAfter H).card ≤ 255) :
    ∃ s', runEvents spurious n s [e] = .next s' ∧ Readers n (e.holdersAfter H) s' := by
  cases e with
  | grant t =>
      refine h.grant spurious hv ?_
      rw [ReaderEvent.holdersAfter, Finset.card_insert_of_notMem hv] at hcard
      omega
  | release t => exact h.release spurious hv

/-- The event that brings the number of readers above 255 is not counted. -/
theorem Readers.event_overflow {e : ReaderEvent τ} (h : Readers n H s) (hv : e.Valid H)
    (hle : H.card ≤ 255) (hcard : 255 < (e.holdersAfter H).card) {s' : NodeConfig τ ν}
    (hrun : runEvents spurious n s [e] = .next s') : ¬ Bookkept n s' := by
  cases e with
  | grant t =>
      rw [ReaderEvent.holdersAfter, Finset.card_insert_of_notMem hv] at hcard
      obtain ⟨s₁, hs₁, hzero, -, hthr⟩ := h.grant_overflow spurious hv (by omega)
      rw [hs₁] at hrun
      cases hrun
      intro hbook
      have hno := hbook.counter
      rw [hzero, grants_of_thr hthr, Finset.card_insert_of_notMem hv] at hno
      omega
  | release t =>
      have := Finset.card_erase_le (s := H) (a := t)
      simp only [ReaderEvent.holdersAfter] at hcard
      omega

/-- From any number of readers: every prefix of the events is carried out and counted exactly when
there are never more than 255 readers. -/
theorem Readers.run (es : List (ReaderEvent τ)) (h : Readers n H s) (hle : H.card ≤ 255)
    (hv : ValidFrom H es) :
    AllBookkept spurious n s es ↔ NeverAbove255 H es := by
  induction es generalizing H s with
  | nil =>
      simp only [AllBookkept, NeverAbove255, List.prefix_nil, forall_eq]
      exact ⟨fun _ => hle, fun _ => ⟨s, rfl, h.bookkept⟩⟩
  | cons e es ih =>
      obtain ⟨he, hv⟩ := hv
      have hsplit : ∀ {P : List (ReaderEvent τ) → Prop},
          (∀ p, p <+: e :: es → P p) ↔ P [] ∧ ∀ p, p <+: es → P (e :: p) := by
        simp only [List.prefix_cons_iff, or_imp, forall_and, forall_eq]
        refine and_congr_right fun _ => ⟨fun h p hp => h _ ⟨p, rfl, hp⟩, ?_⟩
        rintro h _ ⟨p, rfl, hp⟩
        exact h p hp
      rw [AllBookkept, NeverAbove255, hsplit, hsplit]
      by_cases hcard : (e.holdersAfter H).card ≤ 255
      · -- the event is counted, and the rest follows
        obtain ⟨s₁, hs₁, h₁⟩ := h.event spurious he hcard
        have hrest : ∀ p, runEvents spurious n s (e :: p) = runEvents spurious n s₁ p := by
          intro p
          rw [runEvents_cons, hs₁]
          rfl
        simp only [hrest]
        refine and_congr ⟨fun _ => hle, fun _ => ⟨s, rfl, h.bookkept⟩⟩ (ih h₁ hcard hv)
      · -- the event alone is a prefix that is not counted
        constructor
        · rintro ⟨-, hall⟩
          obtain ⟨s₁, hs₁, hbook⟩ := hall [] List.nil_prefix
          exact absurd hbook (h.event_overflow spurious he hle (by omega) hs₁)
        · rintro ⟨-, hall⟩
          exact absurd (hall [] List.nil_prefix) hcard

/-- **Simultaneous readers.**  Whatever the order of grants and releases, no assertion fails and the
node says how many readers there are, exactly when there are never more than 255. -/
theorem readers_bookkept (hs : (nodeMachine τ spurious n).init s) (es : List (ReaderEvent τ))
    (hv : ValidFrom ∅ es) :
    AllBookkept spurious n s es ↔ NeverAbove255 ∅ es :=
  (Readers.init spurious hs).run spurious es (by simp) hv

/-- Two readers whose grants overlap. -/
def overlapping (t u : τ) : List (ReaderEvent τ) :=
  [.grant t, .grant u, .release t, .grant t, .release u, .release t]

theorem readers_bookkept_overlapping :
    AllBookkept false 0 (freshConfig (Fin 2) 1) (overlapping 0 1) := by
  have hcard : ∀ p ∈ (overlapping (0 : Fin 2) 1).inits, (holdersAfter ∅ p).card ≤ 255 := by
    decide
  refine (readers_bookkept false ⟨freshMgr_initialised 1, fun _ => rfl⟩ _ ?_).mpr fun p hp =>
    hcard p (List.mem_inits p _ |>.mpr hp)
  simp [overlapping, ValidFrom, ReaderEvent.Valid, ReaderEvent.holdersAfter]

/-- A list of grants to different threads. -/
theorem Readers.grants (ts : List τ) (h : Readers n H s) (hnodup : ts.Nodup)
    (hfree : ∀ t ∈ ts, t ∉ H) (hle : H.card + ts.length ≤ 255) :
    ∃ s', runEvents spurious n s (ts.map .grant) = .next s' ∧ Readers n (H ∪ ts.toFinset) s' := by
  induction ts generalizing H s with
  | nil => exact ⟨s, rfl, by simpa using h⟩
  | cons t ts ih =>
      rw [List.length_cons] at hle
      rw [List.nodup_cons] at hnodup
      have ht : t ∉ H := hfree t (by simp)
      obtain ⟨s₁, hs₁, h₁⟩ := h.grant spurious ht (by omega)
      obtain ⟨s₂, hs₂, h₂⟩ := ih h₁ hnodup.2
        (fun u hu => by
          rw [Finset.mem_insert, not_or]
          exact ⟨fun hut => hnodup.1 (hut ▸ hu), hfree u (List.mem_cons_of_mem t hu)⟩)
        (by rw [Finset.card_insert_of_notMem ht]; omega)
      refine ⟨s₂, ?_, ?_⟩
      · rw [List.map_cons, runEvents_cons, hs₁]
        exact hs₂
      · simpa [Finset.insert_union, Finset.union_insert] using h₂

/-- After the 256th grant a release fails its assertion. -/
theorem Readers.release_overflow {t : τ} (h : Readers n H s) (ht : t ∉ H)
    (hfull : H.card = 255) : runEvents spurious n s [.grant t, .release t] = .abort := by
  obtain ⟨s₁, hs₁, hzero, hcur, hthr⟩ := h.grant_overflow spurious ht hfull
  have hself : s₁.thr t = .running (.holds .read) := by simpa using hthr t
  have hread : nodeExec n (s₁.thr t).loc .read s₁.mem =
      .done s₁.mem [] (.running (.releasing .read .read)) := by
    simp [hself, nodeExec, hcur]
  have hexit : nodeExec n (.releasing .read .read) .read s₁.mem = .abort := by
    simp [nodeExec, releasedState, crudNodeExitState, exitStateBody, crudNodeStateVerify, hzero,
      Effect.call]
  have hstep₁ := Program.step_of_silent (P := nodeProgram τ spurious n) []
    (by simp [hself]) hread
  have hstep₂ := Program.step_of_exec_abort (P := nodeProgram τ spurious n) []
    (x := .read) (t := t)
    (s := ⟨s₁.mem, Function.update s₁.thr t (.running (.releasing .read .read))⟩)
    (by simp) (by simpa using hexit)
  rw [runEvents_cons, hs₁]
  simp [runEvents, ReaderEvent.acts, hstep₁, hstep₂, Outcome.bind]

/-- All threads of `ts` are granted, then `t`, and `t` releases. -/
def grantsThenRelease (ts : List τ) (t : τ) : List (ReaderEvent τ) :=
  ts.map .grant ++ [.grant t, .release t]

omit [Fintype τ] in
theorem validFrom_grantsThenRelease {ts : List τ} {t : τ} (hnodup : (t :: ts).Nodup)
    (hfree : ∀ u ∈ t :: ts, u ∉ H) : ValidFrom H (grantsThenRelease ts t) := by
  induction ts generalizing H with
  | nil => simpa [grantsThenRelease, ValidFrom, ReaderEvent.Valid, ReaderEvent.holdersAfter]
      using hfree
  | cons u ts ih =>
      simp only [List.nodup_cons, List.mem_cons, not_or] at hnodup
      obtain ⟨⟨htu, hts⟩, hu, hnodup⟩ := hnodup
      refine ⟨hfree u (by simp), ih (List.nodup_cons.mpr ⟨hts, hnodup⟩) fun v hv => ?_⟩
      rw [ReaderEvent.holdersAfter, Finset.mem_insert, not_or]
      rcases List.mem_cons.mp hv with rfl | hv
      · exact ⟨htu, hfree v (by simp)⟩
      · exact ⟨fun hvu => hu (hvu ▸ hv), hfree v (by simp [hv])⟩

/-- 256 threads are granted reads, and the first release fails an assertion. -/
theorem readers_256_abort :
    ValidFrom ∅ (grantsThenRelease ((List.finRange 255).map Fin.castSucc) (Fin.last 255)) ∧
      runEvents false 0 (freshConfig (Fin 256) 1)
        (grantsThenRelease ((List.finRange 255).map Fin.castSucc) (Fin.last 255)) = .abort := by
  have hnew : Fin.last 255 ∉ (List.finRange 255).map Fin.castSucc := by
    intro hmem
    obtain ⟨t, -, ht⟩ := List.mem_map.mp hmem
    exact Fin.castSucc_ne_last t ht
  have hnodup : ((List.finRange 255).map Fin.castSucc).Nodup :=
    (List.nodup_finRange 255).map (Fin.castSucc_injective 255)
  have hinit : Readers 0 ∅ (freshConfig (Fin 256) 1) :=
    Readers.init false ⟨freshMgr_initialised 1, fun _ => rfl⟩
  obtain ⟨s, hs, h⟩ := hinit.grants false ((List.finRange 255).map Fin.castSucc)
    hnodup (by simp) (by simp)
  refine ⟨validFrom_grantsThenRelease (List.nodup_cons.mpr ⟨hnew, hnodup⟩) (by simp), ?_⟩
  have hfull : (∅ ∪ ((List.finRange 255).map Fin.castSucc).toFinset).card = 255 := by
    rw [Finset.empty_union, List.toFinset_card_of_nodup hnodup]
    simp
  have hlast : Fin.last 255 ∉ ∅ ∪ ((List.finRange 255).map Fin.castSucc).toFinset := by
    rwa [Finset.empty_union, List.mem_toFinset]
  rw [grantsThenRelease, runEvents_append, hs]
  exact h.release_overflow false hlast hfull

end Runs

end CrudMgr
end MultithreadingBible
