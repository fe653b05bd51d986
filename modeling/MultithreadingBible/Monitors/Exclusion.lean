import Mathlib.Data.Fintype.Card
import MultithreadingBible.Monitors.Machine

/-!
# A basic monitor: exclusion

A thread that is granted the resource after a wait is not put on `resource_using_threads_q`, so the
first listed user to release the resource may hand it on, or mark it available, while woken readers
still use it.  In runs where no release does so the monitor excludes as it should.

* `Released` — everything `monitor_inform_resource_released` can do.
* `MonitorInv` — who is on which list, and that the status describes the admitted threads.
* `basicMonitor_excludes` — exclusion and status, in every run without a hand-over that is too early.
-/

namespace MultithreadingBible
namespace Monitors

open Lib GlueThread

variable {τ : Type*}

/-- The list a client of kind `k` is on. -/
def listOf (k : ThreadOp) : Status τ MonitorLoc → Option MonitorList
  | .waiting _ _ => some (.threadWaitQ k)
  | .running (.holds false) => some .resourceUsingThreadsQ
  | _ => none

/-- The client was granted the resource after a wait and has not released it, or it was notified and
will be granted it. -/
def admittedAfterWait : Status τ MonitorLoc → Bool
  | .notified _ _ => true
  | .running (.holds true) => true
  | _ => false

/-- The client was granted the resource, or it was notified. -/
def admitted : Status τ MonitorLoc → Bool
  | .notified _ _ => true
  | .running l => l.isUsing
  | .waiting _ _ => false

variable [DecidableEq τ]

/-- `t` is about to release the resource and will find neither another user on the list nor a
waiting reader, while another thread that was admitted after a wait has not released it. -/
def handsOnTooEarly [Fintype τ] (s : MonitorConfig τ) (t : τ) : Bool :=
  (s.thr t).loc.isUsing &&
    isGlthreadListEmpty (s.mem.unlist t).heap (.head .resourceUsingThreadsQ) &&
    isGlthreadListEmpty (s.mem.unlist t).heap (.head (.threadWaitQ .reader)) &&
    decide (∃ u, u ≠ t ∧ admittedAfterWait (s.thr u) = true)

/-- The step is no hand-over that is too early. -/
def noEarlyHandOver [Fintype τ] (s : MonitorConfig τ) : Act τ Unit → Bool
  | .run t _ _ => !handsOnTooEarly s t
  | .spurious _ => true

section Release

variable {place : τ → Option MonitorList} {m : Monitor τ} {t : τ}

/-- The lists describe `place`. -/
abbrev ListsOk (m : Monitor τ) (place : τ → Option MonitorList) : Prop :=
  Placed m.heap .head .waitGlue place

theorem listsOk_unlist (h : ListsOk m place) (t : τ) :
    ListsOk (m.unlist t) (Function.update place t none) := by
  have hrem := h.remove t
  show Placed (initGlthread (removeGlthread m.heap (.waitGlue t)) (.waitGlue t)) _ _ _
  rw [hrem.initGlthread_eq (Function.update_self t none place)]
  exact hrem

theorem dequeueThread_spec (h : ListsOk m place) {k : ThreadOp}
    (hsome : isGlthreadListEmpty m.heap (.head (.threadWaitQ k)) = false) :
    ∃ u hp, dequeueThread k m.heap = some (u, hp) ∧ place u = some (.threadWaitQ k) ∧
      ∀ status, ListsOk ⟨status, hp⟩ (Function.update place u none) := by
  obtain ⟨u, hu, hdeq⟩ := h.dequeueFirst hsome
  refine ⟨u, removeGlthread m.heap (.waitGlue u), ?_, hu, fun _ => h.remove u⟩
  rw [dequeueThread, hdeq]

variable [Fintype τ]

/-- The number of clients on a list. -/
def listCount (place : τ → Option MonitorList) (i : MonitorList) : Nat :=
  (Finset.univ.filter fun u => place u = some i).card

omit [DecidableEq τ] in
theorem listCount_pos {i : MonitorList} (ht : place t = some i) : 0 < listCount place i := by
  have hmem : t ∈ Finset.univ.filter fun u => place u = some i :=
    Finset.mem_filter.mpr ⟨Finset.mem_univ t, ht⟩
  exact Finset.card_pos.mpr ⟨t, hmem⟩

theorem listCount_remove {i : MonitorList} (ht : place t = some i) :
    listCount (Function.update place t none) i + 1 = listCount place i := by
  have hmem : t ∈ Finset.univ.filter fun u => place u = some i :=
    Finset.mem_filter.mpr ⟨Finset.mem_univ t, ht⟩
  have herase : (Finset.univ.filter fun u => Function.update place t none u = some i) =
      (Finset.univ.filter fun u => place u = some i).erase t := by
    ext u
    by_cases hu : u = t
    · simp [hu]
    · simp [hu]
  unfold listCount
  rw [herase, Finset.card_erase_add_one hmem]

/-- The loop wakes all waiting readers. -/
theorem awakenReaders_spec {fuel : Nat} :
    ∀ {m : Monitor τ} {place : τ → Option MonitorList}, ListsOk m place →
      listCount place (.threadWaitQ .reader) ≤ fuel →
      ∃ m' notes, awakenReaders fuel m = some (m', notes) ∧
        ListsOk m' (fun u => if place u = some (.threadWaitQ .reader) then none else place u) ∧
        (∀ note, note ∈ notes ↔ ∃ u, note = .signal u ∧ place u = some (.threadWaitQ .reader)) ∧
        (isGlthreadListEmpty m.heap (.head (.threadWaitQ .reader)) = false →
          m'.resourceStatus = .busyBy .reader) := by
  -- nobody waits: the loop stops
  have hdone : ∀ (fuel : Nat) {m : Monitor τ} {place : τ → Option MonitorList}, ListsOk m place →
      isGlthreadListEmpty m.heap (.head (.threadWaitQ .reader)) = true →
      awakenReaders fuel m = some (m, []) ∧
        ListsOk m (fun u => if place u = some (.threadWaitQ .reader) then none else place u) ∧
        ∀ note : Note τ, note ∈ [] ↔
          ∃ u, note = .signal u ∧ place u = some (.threadWaitQ .reader) := by
    intro fuel m place h hempty
    have hnobody := (h.isEmpty_head _).mp hempty
    refine ⟨?_, h.congr fun u => if_neg (hnobody u), fun note => ?_⟩
    · unfold awakenReaders
      rw [if_pos hempty]
    · refine iff_of_false List.not_mem_nil ?_
      rintro ⟨u, -, hu⟩
      exact hnobody u hu
  induction fuel with
  | zero =>
      intro m place h hcard
      -- without fuel there is no reader left
      have hempty : isGlthreadListEmpty m.heap (.head (.threadWaitQ .reader)) = true := by
        rw [h.isEmpty_head]
        intro u hu
        have hpos := listCount_pos hu
        omega
      obtain ⟨heq, hlists, hnotes⟩ := hdone 0 h hempty
      refine ⟨m, [], heq, hlists, hnotes, fun hno => ?_⟩
      rw [hempty] at hno
      cases hno
  | succ fuel ih =>
      intro m place h hcard
      cases hempty : isGlthreadListEmpty m.heap (.head (.threadWaitQ .reader)) with
      | true =>
          obtain ⟨heq, hlists, hnotes⟩ := hdone (fuel + 1) h hempty
          exact ⟨m, [], heq, hlists, hnotes, fun hno => nomatch hno⟩
      | false =>
          -- one reader is woken, and one less waits for the rest of the loop
          obtain ⟨u, hp, hdeq, hu, hlists⟩ := dequeueThread_spec h hempty
          have hfewer := listCount_remove hu
          obtain ⟨m', notes, heq, hlists', hnotes, hstatus⟩ := ih (hlists (.busyBy .reader)) (by omega)
          refine ⟨m', .signal u :: notes, ?_, hlists'.congr fun v => ?_, fun note => ?_, fun _ => ?_⟩
          · unfold awakenReaders
            rw [if_neg (by simp [hempty]), hdeq]
            show (awakenReaders fuel _).map _ = _
            rw [heq]
            rfl
          · by_cases hv : v = u
            · simp [hv, hu]
            · simp [hv]
          · rw [List.mem_cons, hnotes]
            constructor
            · rintro (rfl | ⟨v, rfl, hv⟩)
              · exact ⟨u, rfl, hu⟩
              · have hvu : v ≠ u := by
                  rintro rfl
                  simp at hv
                rw [Function.update_of_ne hvu] at hv
                exact ⟨v, rfl, hv⟩
            · rintro ⟨v, rfl, hv⟩
              by_cases hvu : v = u
              · exact .inl (by rw [hvu])
              · exact .inr ⟨v, rfl, by rwa [Function.update_of_ne hvu]⟩
          · cases hrest : isGlthreadListEmpty hp (.head (.threadWaitQ .reader)) with
            | false => exact hstatus hrest
            | true =>
                obtain ⟨heq', -, -⟩ := hdone fuel (hlists (.busyBy .reader)) hrest
                -- the last reader
                rw [heq', Option.some_inj] at heq
                cases heq
                rfl

/-- Whom a release wakes, and the status it leaves. -/
inductive HandOver (place : τ → Option MonitorList) (m : Monitor τ) (t : τ) :
    ResourceStatus → (τ → Bool) → Prop
  /-- Somebody else is on the list of users. -/
  | keep : HandOver place m t m.resourceStatus fun _ => false
  | free
      (hlast : isGlthreadListEmpty (m.unlist t).heap (.head .resourceUsingThreadsQ) = true)
      (hnone : isGlthreadListEmpty (m.unlist t).heap (.head (.threadWaitQ .reader)) = true) :
      HandOver place m t .available fun _ => false
  | writer {w : τ} (hw : place w = some (.threadWaitQ .writer)) (hwt : w ≠ t)
      (hlast : isGlthreadListEmpty (m.unlist t).heap (.head .resourceUsingThreadsQ) = true)
      (hnone : isGlthreadListEmpty (m.unlist t).heap (.head (.threadWaitQ .reader)) = true) :
      HandOver place m t (.busyBy .writer) fun u => decide (u = w)
  | readers : HandOver place m t (.busyBy .reader) fun u =>
      decide (u ≠ t ∧ place u = some (.threadWaitQ .reader))

omit [Fintype τ] in
/-- Whoever is woken was on a wait queue. -/
theorem HandOver.waiting {status : ResourceStatus} {woken : τ → Bool}
    (h : HandOver place m t status woken) {u : τ} (hu : woken u = true) :
    u ≠ t ∧ ∃ k, place u = some (.threadWaitQ k) := by
  cases h with
  | keep => cases hu
  | free => cases hu
  | writer hw hwt =>
      rw [of_decide_eq_true hu]
      exact ⟨hwt, _, hw⟩
  | readers =>
      have hreader := of_decide_eq_true hu
      exact ⟨hreader.1, _, hreader.2⟩

/-- Everything a release does. -/
structure Released (place : τ → Option MonitorList) (m : Monitor τ) (t : τ) (m' : Monitor τ)
    (notes : List (Note τ)) (woken : τ → Bool) : Prop where
  lists : ListsOk m' fun u => if woken u then none else Function.update place t none u
  notes : ∀ note, note ∈ notes ↔ ∃ u, note = .signal u ∧ woken u = true
  handOver : HandOver place m t m'.resourceStatus woken

/-- `monitor_inform_resource_released` always returns. -/
theorem released_spec (h : ListsOk m place) (t : τ) :
    ∃ m' notes woken, monitorInformResourceReleased (Fintype.card τ) t m = some (m', notes) ∧
      Released place m t m' notes woken := by
  have hun := listsOk_unlist h t
  unfold monitorInformResourceReleased
  dsimp only
  cases hlast : isGlthreadListEmpty (m.unlist t).heap (.head .resourceUsingThreadsQ) with
  | false => exact ⟨m.unlist t, [], fun _ => false, by simp, hun, by simp, .keep⟩
  | true =>
      cases hreaders : isGlthreadListEmpty (m.unlist t).heap (.head (.threadWaitQ .reader)) with
      | true =>
          cases hwriters : isGlthreadListEmpty (m.unlist t).heap (.head (.threadWaitQ .writer)) with
          | true =>
              exact ⟨{ m.unlist t with resourceStatus := .available }, [], fun _ => false, by simp,
                hun, by simp, .free hlast hreaders⟩
          | false =>
              obtain ⟨w, hp, hdeq, hw, hlists⟩ := dequeueThread_spec hun hwriters
              have hwt : w ≠ t := by
                rintro rfl
                simp at hw
              rw [Function.update_of_ne hwt] at hw
              refine ⟨⟨.busyBy .writer, hp⟩, [.signal w], fun u => decide (u = w), ?_,
                (hlists _).congr fun u => ?_, fun note => ?_, .writer hw hwt hlast hreaders⟩
              · simp [hdeq]
              · by_cases hu : u = w
                · simp [hu]
                · simp [hu]
              · simp
      | false =>
          have hfuel : listCount (Function.update place t none) (.threadWaitQ .reader) ≤
              Fintype.card τ := Finset.card_le_univ _
          obtain ⟨m', notes, heq, hlists, hnotes, hstatus⟩ := awakenReaders_spec hun hfuel
          have hwoken : ∀ u, Function.update place t none u = some (.threadWaitQ .reader) ↔
              u ≠ t ∧ place u = some (.threadWaitQ .reader) := by
            intro u
            by_cases hu : u = t
            · simp [hu]
            · simp [hu]
          refine ⟨m', notes, fun u => decide (u ≠ t ∧ place u = some (.threadWaitQ .reader)), ?_,
            hlists.congr fun u => ?_, fun note => ?_, ?_⟩
          · simpa using heq
          · simp only [decide_eq_true_eq, hwoken]
          · simp only [decide_eq_true_eq, hnotes, hwoken]
          · rw [hstatus hreaders]
            exact .readers

end Release

/-- The status and the kinds of the threads that are admitted to the resource fit together. -/
structure Describes (threadOp : τ → ThreadOp) (status : ResourceStatus) (adm : τ → Bool) : Prop where
  free : status = .available → ∀ t, adm t = false
  busy : ∀ k, status = .busyBy k → ∀ t, adm t = true → threadOp t = k
  alone : ∀ t u, adm t = true → threadOp t = .writer → adm u = true → u = t

namespace Describes

variable {threadOp : τ → ThreadOp} {status : ResourceStatus} {adm adm' : τ → Bool} {t : τ}

omit [DecidableEq τ] in
/-- Fewer threads are admitted. -/
theorem mono (h : Describes threadOp status adm) (hsub : ∀ u, adm' u = true → adm u = true) :
    Describes threadOp status adm' where
  free hfree u := by
    have hno := mt (hsub u)
    rw [h.free hfree u] at hno
    simpa using hno
  busy k hk u hu := h.busy k hk u (hsub u hu)
  alone t u ht hw hu := h.alone t u (hsub t ht) hw (hsub u hu)

/-- The resource is granted at once. -/
theorem grant (h : Describes threadOp status adm)
    (hyes : status = .available ∨ (threadOp t = .reader ∧ status = .busyBy .reader)) :
    Describes threadOp (.busyBy (threadOp t)) (Function.update adm t true) := by
  have hold : ∀ u, Function.update adm t true u = true → u = t ∨ adm u = true := by
    intro u hu
    by_cases hut : u = t
    · exact .inl hut
    · rw [Function.update_of_ne hut] at hu
      exact .inr hu
  rcases hyes with hfree | ⟨hreader, hbusy⟩
  · have honly : ∀ u, Function.update adm t true u = true → u = t := by
      intro u hu
      rcases hold u hu with hut | hadm
      · exact hut
      · rw [h.free hfree u] at hadm
        cases hadm
    refine ⟨fun hno => (by cases hno), fun k hk u hu => ?_, fun u v hu _ hv => ?_⟩
    · cases hk
      rw [honly u hu]
    · rw [honly u hu, honly v hv]
  · have hreaders : ∀ u, Function.update adm t true u = true → threadOp u = .reader := by
      intro u hu
      rcases hold u hu with rfl | hadm
      · exact hreader
      · exact h.busy _ hbusy u hadm
    refine ⟨fun hno => (by cases hno), fun k hk u hu => ?_, fun u v hu hw hv => ?_⟩
    · cases hk
      rw [hreaders u hu, hreader]
    · rw [hreaders u hu] at hw
      cases hw

omit [DecidableEq τ] in
/-- A thread that was woken finds the status of its kind. -/
theorem status_eq (h : Describes threadOp status adm) (ht : adm t = true) :
    status = .busyBy (threadOp t) := by
  cases hs : status with
  | available =>
      rw [h.free hs t] at ht
      cases ht
  | busyBy k => rw [h.busy k hs t ht]

/-- An admitted thread releases the resource, and `woken` are admitted instead. -/
theorem handOver {place : τ → Option MonitorList} {m : Monitor τ} {status' : ResourceStatus}
    {woken : τ → Bool} (h : Describes threadOp m.resourceStatus adm) (ht : adm t = true)
    (hkind : ∀ u k, place u = some (.threadWaitQ k) → threadOp u = k)
    (hover : HandOver place m t status' woken)
    (hlast : isGlthreadListEmpty (m.unlist t).heap (.head .resourceUsingThreadsQ) = true →
      isGlthreadListEmpty (m.unlist t).heap (.head (.threadWaitQ .reader)) = true →
      ∀ u, u ≠ t → adm u = false) :
    Describes threadOp status' fun u => woken u || (decide (u ≠ t) && adm u) := by
  cases hover with
  | keep => exact h.mono fun u hu => by simp_all
  | free hempty hnone =>
      have hothers := hlast hempty hnone
      have hnobody : ∀ u, (false || (decide (u ≠ t) && adm u)) = false := by
        intro u
        by_cases hu : u = t
        · simp [hu]
        · simp [hothers u hu]
      refine ⟨fun _ => hnobody, fun k hk => (by cases hk), fun u v hu => ?_⟩
      rw [hnobody u] at hu
      cases hu
  | @writer w hw hwt hempty hnone =>
      have hothers := hlast hempty hnone
      have honly : ∀ u, (decide (u = w) || (decide (u ≠ t) && adm u)) = true → u = w := by
        intro u hu
        by_cases hut : u = t
        · simpa [hut] using hu
        · simpa [hothers u hut] using hu
      refine ⟨fun hno => (by cases hno), fun k hk u hu => ?_, fun u v hu _ hv => ?_⟩
      · cases hk
        rw [honly u hu, hkind w _ hw]
      · rw [honly u hu, honly v hv]
  | readers =>
      -- whoever else is admitted is no writer, as the releasing thread was admitted with it
      have hreaders : ∀ u, (decide (u ≠ t ∧ place u = some (.threadWaitQ .reader)) ||
          (decide (u ≠ t) && adm u)) = true → threadOp u = .reader := by
        intro u hu
        simp only [Bool.or_eq_true, Bool.and_eq_true, decide_eq_true_eq] at hu
        rcases hu with ⟨-, hwait⟩ | ⟨hut, hadm⟩
        · exact hkind u _ hwait
        · cases hk : threadOp u with
          | reader => rfl
          | writer => exact absurd (h.alone u t hadm hk ht).symm hut
      refine ⟨fun hno => (by cases hno), fun k hk u hu => ?_, fun u v hu hw _ => ?_⟩
      · cases hk
        exact hreaders u hu
      · rw [hreaders u hu] at hw
        cases hw

end Describes

/-- Where a client can be. -/
inductive Shape (t : τ) : Status τ MonitorLoc → Prop
  | idle : Shape t (.running .idle)
  | holds (waited : Bool) : Shape t (.running (.holds waited))
  | waiting : Shape t (.waiting t .wait)
  | notified : Shape t (.notified t .wait)

/-- The lists clients are on. -/
def place (threadOp : τ → ThreadOp) (s : MonitorConfig τ) (t : τ) : Option MonitorList :=
  listOf (threadOp t) (s.thr t)

/-- The invariant of all runs without a hand-over that is too early. -/
structure MonitorInv (threadOp : τ → ThreadOp) (s : MonitorConfig τ) : Prop where
  lists : ListsOk s.mem (place threadOp s)
  shape : ∀ t, Shape t (s.thr t)
  describes : Describes threadOp s.mem.resourceStatus fun t => admitted (s.thr t)

omit [DecidableEq τ] in
/-- A waiting client is on the queue of its kind. -/
theorem waiting_of_place {threadOp : τ → ThreadOp} {s : MonitorConfig τ} {t : τ} {k : ThreadOp}
    (hshape : Shape t (s.thr t)) (ht : place threadOp s t = some (.threadWaitQ k)) :
    s.thr t = .waiting t .wait ∧ threadOp t = k := by
  unfold place at ht
  generalize s.thr t = st at hshape ht ⊢
  cases hshape with
  | idle => simp [listOf] at ht
  | holds waited => cases waited <;> simp [listOf] at ht
  | waiting => exact ⟨rfl, by simpa [listOf] using ht⟩
  | notified => simp [listOf] at ht

section Steps

variable [Fintype τ] {threadOp : τ → ThreadOp} {s s' : MonitorConfig τ} {t : τ} {x : Unit}
  {notes : List (Note τ)} {st : Status τ MonitorLoc}

namespace MonitorInv

/-- A step that wakes nobody. -/
theorem silent (h : MonitorInv threadOp s) (hran : (monitorProgram threadOp).Ran s t x s' [] st)
    (hlists : ListsOk s'.mem (Function.update (place threadOp s) t (listOf (threadOp t) st)))
    (hshape : Shape t st)
    (hdesc : Describes threadOp s'.mem.resourceStatus
      (Function.update (fun u => admitted (s.thr u)) t (admitted st))) :
    MonitorInv threadOp s' := by
  have hthr : ∀ u, s'.thr u = if u = t then st else s.thr u := by
    intro u
    by_cases hu : u = t
    · rw [if_pos hu, hu, hran.self]
    · rw [if_neg hu, hran.other_of_nil hu]
  refine ⟨hlists.congr fun u => ?_, fun u => ?_, hdesc.mono fun u hu => ?_⟩
  · unfold place
    rw [hthr]
    by_cases hu : u = t
    · simp [hu]
    · simp [hu]
  · rw [hthr]
    by_cases hu : u = t
    · rw [if_pos hu, hu]
      exact hshape
    · rw [if_neg hu]
      exact h.shape u
  · rw [hthr] at hu
    by_cases hut : u = t
    · simpa [hut] using hu
    · simpa [hut] using hu

/-- The threads after a release. -/
theorem thr_of_release {m' : Monitor τ} {woken : τ → Bool} (h : MonitorInv threadOp s)
    (hran : (monitorProgram threadOp).Ran s t x s' notes (.running .idle))
    (hrel : Released (place threadOp s) s.mem t m' notes woken)
    (hwoken : ∀ u, woken u = true → u ≠ t ∧ s.thr u = .waiting u .wait) {u : τ} (hu : u ≠ t) :
    s'.thr u = if woken u then .notified u .wait else s.thr u := by
  cases hw : woken u with
  | true =>
      have hmem : .signal u ∈ notes := (hrel.notes _).mpr ⟨u, rfl, hw⟩
      obtain ⟨v, l, -, hold, hnew⟩ := hran.signal hmem ⟨u, .wait, (hwoken u hw).2⟩
      -- nobody else waits on the condition variable of `u`
      have hshape := h.shape v
      rw [hold] at hshape
      cases hshape
      exact hnew
  | false =>
      rcases hran.other hu with hsame | ⟨c, l, hold, -, hnote⟩
      · simpa using hsame
      · have hshape := h.shape u
        rw [hold] at hshape
        cases hshape
        rcases hnote with hnote | hnote
        · obtain ⟨v, hv, hv'⟩ := (hrel.notes _).mp hnote
          cases hv
          rw [hw] at hv'
          cases hv'
        · obtain ⟨v, hv, -⟩ := (hrel.notes _).mp hnote
          cases hv

/-- A thread that leaves the monitor hands it on. -/
theorem release (h : MonitorInv threadOp s) {waited : Bool} {woken : τ → Bool}
    (hran : (monitorProgram threadOp).Ran s t x s' notes (.running .idle))
    (hthr : s.thr t = .running (.holds waited))
    (hrel : Released (place threadOp s) s.mem t s'.mem notes woken)
    (hnot : handsOnTooEarly s t = false) : MonitorInv threadOp s' := by
  have hkind : ∀ u k, place threadOp s u = some (.threadWaitQ k) → threadOp u = k :=
    fun u k hu => (waiting_of_place (h.shape u) hu).2
  -- whoever is woken was waiting
  have hwoken : ∀ u, woken u = true → u ≠ t ∧ s.thr u = .waiting u .wait := by
    intro u hu
    obtain ⟨hut, k, hplace⟩ := hrel.handOver.waiting hu
    exact ⟨hut, (waiting_of_place (h.shape u) hplace).1⟩
  have hother := fun u hu => h.thr_of_release hran hrel hwoken (u := u) hu
  have hthr' : s'.thr t = .running .idle := hran.self
  refine ⟨?_, fun u => ?_, ?_⟩
  · -- the cells of those who are woken are on no list
    refine hrel.lists.congr fun u => ?_
    unfold place
    by_cases hu : u = t
    · have hno : woken t = false := by
        cases hw : woken t with
        | false => rfl
        | true => exact absurd rfl (hwoken t hw).1
      rw [hu, hthr', hno]
      simp [listOf]
    · rw [hother u hu]
      cases hw : woken u with
      | true => rfl
      | false =>
          rw [if_neg (by simp), if_neg (by simp), Function.update_of_ne hu]
  · by_cases hu : u = t
    · rw [hu, hthr']
      exact .idle
    · rw [hother u hu]
      cases hw : woken u with
      | true => exact .notified
      | false => exact h.shape u
  · have hadm : admitted (s.thr t) = true := by
      rw [hthr]
      rfl
    refine (h.describes.handOver hadm hkind hrel.handOver ?_).mono fun u hu => ?_
    · -- the list of users is empty, so another admitted thread would be one that waited
      intro hempty hnone u hut
      have husing : (s.thr t).loc.isUsing = true := by
        rw [hthr]
        rfl
      simp only [handsOnTooEarly, husing, hempty, hnone, Bool.true_and,
        decide_eq_false_iff_not, not_exists, not_and] at hnot
      have hnoWait := hnot u hut
      have hunlisted := ((listsOk_unlist h.lists t).isEmpty_head _).mp hempty u
      rw [Function.update_of_ne hut] at hunlisted
      unfold place at hunlisted
      have hshape := h.shape u
      generalize s.thr u = old at hshape hnoWait hunlisted ⊢
      cases hshape with
      | idle => rfl
      | holds waited =>
          cases waited with
          | true => exact absurd rfl hnoWait
          | false => exact absurd rfl hunlisted
      | waiting => rfl
      | notified => exact absurd rfl hnoWait
    · by_cases hut : u = t
      · rw [hut, hthr'] at hu
        cases hu
      · rw [hother u hut] at hu
        cases hw : woken u with
        | true => rfl
        | false =>
            rw [hw] at hu
            simpa [hut] using hu

/-- A step of a client keeps the invariant. -/
theorem run (h : MonitorInv threadOp s)
    (hran : (monitorProgram threadOp).Ran s t x s' notes st)
    (hnot : handsOnTooEarly s t = false) : MonitorInv threadOp s' := by
  have hmove : MonitorMove threadOp t s.mem (s.thr t).loc s'.mem notes st :=
    monitorMove_of_exec (x := x) hran.exec
  have hshape := h.shape t
  have hawake := hran.awake
  generalize hl : (s.thr t).loc = l at hmove
  generalize hm : s'.mem = m' at hmove
  cases hmove with
  | grant hyes =>
      have hthr : s.thr t = .running .idle := by
        generalize s.thr t = old at hshape hawake hl
        cases hshape <;> cases hl
        rfl
      have hfree : place threadOp s t = none := by
        unfold place
        rw [hthr]
        rfl
      -- granted at once: the cell goes on the list of the users
      refine h.silent hran ?_ (.holds false) ?_
      · rw [hm]
        exact h.lists.addNext _ hfree
      · rw [hm]
        exact h.describes.grant hyes
  | block hbusy =>
      have hthr : s.thr t = .running .idle := by
        generalize s.thr t = old at hshape hawake hl
        cases hshape <;> cases hl
        rfl
      have hfree : place threadOp s t = none := by
        unfold place
        rw [hthr]
        rfl
      have hadm : admitted (s.thr t) = false := by
        rw [hthr]
        rfl
      refine h.silent hran ?_ .waiting ?_
      · rw [hm]
        show Placed (glthreadAddNext (initGlthread s.mem.heap (.waitGlue t))
          (.head (.threadWaitQ (threadOp t))) (.waitGlue t)) _ _ _
        -- its cell is on no list, so that clearing it changes nothing
        rw [h.lists.initGlthread_eq hfree]
        exact h.lists.addNext _ hfree
      · rw [hm]
        show Describes _ s.mem.resourceStatus (Function.update _ t false)
        rw [← hadm, Function.update_eq_self]
        exact h.describes
  | resume =>
      have hthr : s.thr t = .notified t .wait := by
        generalize s.thr t = old at hshape hawake hl
        cases hshape with
        | idle => cases hl
        | holds waited => cases hl
        | waiting => cases hawake
        | notified => rfl
      -- who resumes was admitted by the signal already
      have hadm : admitted (s.thr t) = true := by
        rw [hthr]
        rfl
      refine h.silent hran ?_ (.holds true) ?_
      · rw [hm]
        exact h.lists.remove t
      · rw [hm]
        show Describes _ (.busyBy (threadOp t)) (Function.update _ t true)
        rw [← hadm, Function.update_eq_self, ← h.describes.status_eq hadm]
        exact h.describes
  | @release waited m₁ notes₁ hr =>
      -- a release hands the resource on to those it wakes
      obtain ⟨m₂, notes₂, woken, heq, hrel⟩ := released_spec h.lists t
      rw [hr, Option.some_inj] at heq
      cases heq
      rw [← hm] at hrel
      have hthr : s.thr t = .running (.holds waited) := by
        generalize s.thr t = old at hshape hawake hl
        cases hshape <;> cases hl
        rfl
      exact h.release hran hthr hrel hnot

end MonitorInv

end Steps

section Runs

variable [Fintype τ] {threadOp : τ → ThreadOp} {s : MonitorConfig τ}

omit [DecidableEq τ] [Fintype τ] in
theorem monitorInv_fresh (threadOp : τ → ThreadOp) : MonitorInv threadOp (freshMonitor τ) where
  lists := Placed.init (fun _ _ h => MonitorAddr.waitGlue.inj h)
    (fun _ _ h => MonitorAddr.head.inj h) fun _ _ h => (by cases h)
  shape _ := .idle
  describes := by
    refine ⟨fun _ _ => rfl, fun k hk => ?_, fun t u ht => ?_⟩
    · cases hk
    · cases ht

theorem monitorInv_reachable
    (h : (monitorMachine threadOp).ReachableUnder (fun s a => noEarlyHandOver s a = true) s) :
    MonitorInv threadOp s := by
  apply Program.invariant _ _ _ h
  · rintro s rfl
    exact monitorInv_fresh threadOp
  · intro s t x picks s' notes st hinv hcond hran
    exact hinv.run hran (by simpa [noEarlyHandOver] using hcond)
  · intro s t c l _ hno
    cases hno

/-- A writer uses the resource alone, it is marked available only while nobody uses it, and every
call returns. -/
structure Excludes (threadOp : τ → ThreadOp) (s : MonitorConfig τ) : Prop where
  alone : ∀ t u, (s.thr t).loc.isUsing = true → threadOp t = .writer →
    (s.thr u).loc.isUsing = true → u = t
  free : s.mem.resourceStatus = .available → ∀ t, (s.thr t).loc.isUsing = false
  returns : ∀ a, (monitorProgram threadOp).step s a ≠ .abort

theorem MonitorInv.excludes (h : MonitorInv threadOp s) : Excludes threadOp s := by
  have hadm : ∀ t, (s.thr t).loc.isUsing = true → admitted (s.thr t) = true := by
    intro t ht
    have hshape := h.shape t
    generalize s.thr t = st at hshape ht ⊢
    cases hshape with
    | idle => exact ht
    | holds waited => rfl
    | waiting => cases ht
    | notified => rfl
  refine ⟨fun t u ht hw hu => h.describes.alone t u (hadm t ht) hw (hadm u hu), ?_, ?_⟩
  · intro hfree t
    cases ht : (s.thr t).loc.isUsing with
    | false => rfl
    | true =>
        have hno := h.describes.free hfree t
        rw [hadm t ht] at hno
        cases hno
  · intro a habort
    cases a with
    | run t x picks =>
        have hexec : monitorExec threadOp t (s.thr t).loc x s.mem = .abort :=
          (Program.exec_of_abort habort).2
        cases hl : (s.thr t).loc with
        | idle =>
            simp only [hl, monitorExec, monitorRequestAccessPermission] at hexec
            split at hexec
            · cases hexec
            · split at hexec <;> cases hexec
        | wait =>
            rw [hl] at hexec
            cases hexec
        | holds waited =>
            obtain ⟨m', notes, woken, heq, -⟩ := released_spec h.lists t
            simp [hl, monitorExec, heq, Effect.call] at hexec
    | spurious t => exact Program.not_abort_spurious habort

/-- **The monitor excludes**, in every run in which no release hands the resource on, or marks it
available, before the threads that were admitted after a wait have released it. -/
theorem basicMonitor_excludes
    (h : (monitorMachine threadOp).ReachableUnder (fun s a => noEarlyHandOver s a = true) s) :
    Excludes threadOp s :=
  (monitorInv_reachable h).excludes

end Runs

/-- Thread 0 is a writer, the others are readers. -/
def oneWriter (t : Fin 3) : ThreadOp := if t = 0 then .writer else .reader

/-- Two readers that waited for the writer use the resource, and the first of them has not released
it yet. -/
theorem basicMonitor_excludes_trace :
    ∃ s : MonitorConfig (Fin 3), Excludes oneWriter s ∧ s.thr 1 = .running (.holds true) ∧
      s.thr 2 = .running (.holds true) := by
  have hrun : ((monitorMachine oneWriter).execUnder noEarlyHandOver (freshMonitor (Fin 3))
      [.run 0 () [], .run 1 () [], .run 2 () [], .run 0 () [some 2, some 1], .run 1 () [],
        .run 2 () []]).holds (fun s =>
        decide (s.thr 1 = .running (.holds true) ∧ s.thr 2 = .running (.holds true))) = true := by
    decide +kernel
  obtain ⟨s, hs, hp⟩ := Outcome.holds_iff.mp hrun
  have hreach := Machine.reachableUnder_of_execUnder (.init rfl) hs
  exact ⟨s, basicMonitor_excludes hreach, of_decide_eq_true hp⟩

/-- A writer never shares the resource, and it is not marked available while it is used. -/
def AlwaysExcludes [Fintype τ] (threadOp : τ → ThreadOp) : Prop :=
  ∀ s, (monitorMachine threadOp).Reachable s → Excludes threadOp s

/-- **The first of the woken readers to release the resource hands it on**: to the waiting writer,
or it marks the resource available, while the other reader uses it. -/
theorem basicMonitor_excludes_fails :
    ¬ AlwaysExcludes oneWriter ∧
      (∃ s, (monitorMachine oneWriter).Reachable s ∧ s.thr 0 = .running (.holds true) ∧
        s.thr 2 = .running (.holds true)) ∧
      ∃ s, (monitorMachine oneWriter).Reachable s ∧ s.mem.resourceStatus = .available ∧
        s.thr 2 = .running (.holds true) := by
  have hinit : (monitorMachine oneWriter).init (freshMonitor (Fin 3)) := rfl
  have hwriter : ((monitorMachine oneWriter).exec (freshMonitor (Fin 3))
      [.run 0 () [], .run 1 () [], .run 2 () [], .run 0 () [some 2, some 1], .run 1 () [],
        .run 2 () [], .run 0 () [], .run 1 () [some 0], .run 0 () []]).holds (fun s =>
        decide (s.thr 0 = .running (.holds true) ∧ s.thr 2 = .running (.holds true))) = true := by
    decide +kernel
  have hfree : ((monitorMachine oneWriter).exec (freshMonitor (Fin 3))
      [.run 0 () [], .run 1 () [], .run 2 () [], .run 0 () [some 2, some 1], .run 1 () [],
        .run 2 () [], .run 1 () []]).holds (fun s =>
        decide (s.mem.resourceStatus = .available ∧ s.thr 2 = .running (.holds true))) = true := by
    decide +kernel
  obtain ⟨s, hs, hp⟩ := Machine.exists_reachable_of_exec hinit hwriter
  obtain ⟨s', hs', hp'⟩ := Machine.exists_reachable_of_exec hinit hfree
  obtain ⟨hp0, hp2⟩ := of_decide_eq_true hp
  refine ⟨fun hall => ?_, ⟨s, hs, hp0, hp2⟩, s', hs', of_decide_eq_true hp'⟩
  have heq := (hall s hs).alone 0 2 (by rw [hp0]; rfl) rfl (by rw [hp2]; rfl)
  cases heq

end Monitors
end MultithreadingBible
