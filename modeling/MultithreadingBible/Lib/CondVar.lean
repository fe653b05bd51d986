import Mathlib.Algebra.BigOperators.Group.Finset.Basic
import Mathlib.Algebra.BigOperators.Group.Finset.Piecewise
import Mathlib.Algebra.Order.BigOperators.Group.Finset
import Mathlib.Data.Fintype.Basic
import MultithreadingBible.Lib.Machine

/-!
# Threads that synchronise through condition variables

Threads share a memory and each of them is at a program location.  One step of a thread is one
uninterrupted piece of its code: it reads and writes the memory, sends notifications to condition
variables, and ends at a new location, possibly inside `pthread_cond_wait`.  A blocked thread
resumes only after it was notified; which blocked thread a signal reaches is the scheduler's choice
(`picks`).

* `Status` / `Note` / `deliverAll` — blocked threads and how notifications reach them.
* `Delivered` — everything later proofs need to know about a delivery.
* `Program.machine` — the interleaving machine of a program.
* `tally` — the sum of a weight over the locations of all threads, which a delivery leaves alone
  and a step changes at one summand.
-/

namespace MultithreadingBible
namespace Lib

/-- Where a thread is, as the scheduler sees it. -/
inductive Status (κ Λ : Type*) where
  /-- Not blocked on a condition variable. -/
  | running (l : Λ)
  /-- Blocked on `c` and not notified; it will resume at `l`. -/
  | waiting (c : κ) (l : Λ)
  /-- Notified while blocked on `c`; it resumes at `l` once it gets the mutex back. -/
  | notified (c : κ) (l : Λ)
  deriving DecidableEq

namespace Status

variable {κ Λ : Type*}

/-- The location a thread is at or will resume at. -/
def loc : Status κ Λ → Λ
  | .running l => l
  | .waiting _ l => l
  | .notified _ l => l

/-- Blocked without having been notified. -/
def isWaiting : Status κ Λ → Bool
  | .waiting _ _ => true
  | _ => false

/-- Notified but not resumed. -/
def isNotified : Status κ Λ → Bool
  | .notified _ _ => true
  | _ => false

/-- Blocked on `c` without having been notified. -/
def waitsOn [DecidableEq κ] (c : κ) : Status κ Λ → Bool
  | .waiting c' _ => c' == c
  | _ => false

/-- The effect of a notification of `c` that reaches the thread. -/
def wake [DecidableEq κ] (c : κ) : Status κ Λ → Status κ Λ
  | .waiting c' l => if c' = c then .notified c' l else .waiting c' l
  | st => st

@[simp] theorem loc_running (l : Λ) : (running l : Status κ Λ).loc = l := rfl

@[simp] theorem loc_waiting (c : κ) (l : Λ) : (waiting c l).loc = l := rfl

@[simp] theorem loc_notified (c : κ) (l : Λ) : (notified c l).loc = l := rfl

@[simp] theorem isWaiting_running (l : Λ) : (running l : Status κ Λ).isWaiting = false := rfl

@[simp] theorem isWaiting_waiting (c : κ) (l : Λ) : (waiting c l).isWaiting = true := rfl

@[simp] theorem isWaiting_notified (c : κ) (l : Λ) : (notified c l).isWaiting = false := rfl

theorem waitsOn_iff [DecidableEq κ] {c : κ} {st : Status κ Λ} :
    st.waitsOn c = true ↔ ∃ l, st = .waiting c l := by
  cases st <;> simp [waitsOn]

theorem isWaiting_iff {st : Status κ Λ} : st.isWaiting = true ↔ ∃ c l, st = .waiting c l := by
  cases st <;> simp [isWaiting]

theorem isNotified_iff {st : Status κ Λ} : st.isNotified = true ↔ ∃ c l, st = .notified c l := by
  cases st <;> simp [isNotified]

end Status

/-- A notification sent to a condition variable. -/
inductive Note (κ : Type*) where
  | signal (c : κ)
  | broadcast (c : κ)

section Delivery

variable {τ κ Λ : Type*}

/-- What a delivery of `notes` guarantees. -/
structure Delivered (thr : τ → Status κ Λ) (notes : List (Note κ)) (thr' : τ → Status κ Λ) :
    Prop where
  /-- Only blocked threads change, by being notified on the variable they are blocked on. -/
  change : ∀ t, thr' t = thr t ∨ ∃ c l, thr t = .waiting c l ∧ thr' t = .notified c l ∧
    (.signal c ∈ notes ∨ .broadcast c ∈ notes)
  /-- After a broadcast nobody is blocked there any more. -/
  broadcast : ∀ c, .broadcast c ∈ notes → ∀ t l, thr' t ≠ .waiting c l
  /-- A signal reaches one of the threads blocked there. -/
  signal : ∀ c, .signal c ∈ notes → (∃ t l, thr t = .waiting c l) →
    ∃ t l, thr t = .waiting c l ∧ thr' t = .notified c l

theorem Delivered.nil (thr : τ → Status κ Λ) : Delivered thr [] thr where
  change t := Or.inl rfl
  broadcast c h := by simp at h
  signal c h := by simp at h

theorem Delivered.loc {thr thr' : τ → Status κ Λ} {notes : List (Note κ)}
    (h : Delivered thr notes thr') (t : τ) : (thr' t).loc = (thr t).loc := by
  rcases h.change t with h | ⟨c, l, h, h', -⟩
  · rw [h]
  · rw [h, h']; rfl

/-- A thread that is blocked afterwards was blocked before. -/
theorem Delivered.waiting {thr thr' : τ → Status κ Λ} {notes : List (Note κ)}
    (h : Delivered thr notes thr') {t : τ} {c : κ} {l : Λ} (ht : thr' t = .waiting c l) :
    thr t = .waiting c l := by
  rcases h.change t with h | ⟨c', l', -, h', -⟩
  · rw [← h, ht]
  · rw [h'] at ht; cases ht

/-- A notified thread stays notified. -/
theorem Delivered.notified {thr thr' : τ → Status κ Λ} {notes : List (Note κ)}
    (h : Delivered thr notes thr') {t : τ} {c : κ} {l : Λ} (ht : thr t = .notified c l) :
    thr' t = .notified c l := by
  rcases h.change t with h | ⟨c', l', h, -⟩
  · rw [h, ht]
  · rw [h] at ht; cases ht

/-- Without notifications nothing is delivered. -/
theorem Delivered.eq_of_nil {thr thr' : τ → Status κ Λ} (h : Delivered thr [] thr') :
    thr' = thr := by
  funext t
  rcases h.change t with h | ⟨c, l, -, -, h⟩
  · exact h
  · simp at h

/-- Deliveries compose. -/
theorem Delivered.cons {thr thr₁ thr' : τ → Status κ Λ} {note : Note κ} {notes : List (Note κ)}
    (h₁ : Delivered thr [note] thr₁) (h₂ : Delivered thr₁ notes thr') :
    Delivered thr (note :: notes) thr' where
  change t := by
    rcases h₁.change t with h | ⟨c, l, h, h', hmem⟩
    · rcases h₂.change t with k | ⟨c, l, k, k', hmem⟩
      · exact .inl (k.trans h)
      · exact .inr ⟨c, l, h ▸ k, k', by simpa using hmem.imp .inr .inr⟩
    · refine .inr ⟨c, l, h, h₂.notified h', ?_⟩
      simp only [List.mem_singleton] at hmem
      simpa using hmem.imp .inl .inl
  broadcast c hc t l ht := by
    rcases List.mem_cons.mp hc with hc | hc
    · exact h₁.broadcast c (by simp [hc]) t l (h₂.waiting ht)
    · exact h₂.broadcast c hc t l ht
  signal c hc hw := by
    obtain ⟨t, l, ht⟩ := hw
    rcases List.mem_cons.mp hc with hc | hc
    · obtain ⟨u, l', hu, hu'⟩ := h₁.signal c (by simp [hc]) ⟨t, l, ht⟩
      exact ⟨u, l', hu, h₂.notified hu'⟩
    · by_cases hsame : thr₁ t = thr t
      · obtain ⟨u, l', hu, hu'⟩ := h₂.signal c hc ⟨t, l, hsame ▸ ht⟩
        exact ⟨u, l', h₁.waiting hu, hu'⟩
      · rcases h₁.change t with h | ⟨c', l', h, h', -⟩
        · exact absurd h hsame
        · rw [ht] at h
          cases h
          exact ⟨t, l, ht, h₂.notified h'⟩

variable [DecidableEq κ]

private theorem wake_cases (c : κ) (st : Status κ Λ) :
    (st.wake c = st ∧ ∀ l, st ≠ .waiting c l) ∨
      ∃ l, st = .waiting c l ∧ st.wake c = .notified c l := by
  cases st with
  | running l => exact .inl ⟨rfl, by simp⟩
  | notified c' l => exact .inl ⟨rfl, by simp⟩
  | waiting c' l =>
      by_cases h : c' = c
      · subst h; exact .inr ⟨l, rfl, by simp [Status.wake]⟩
      · exact .inl ⟨by simp [Status.wake, h], by simp [h]⟩

variable [DecidableEq τ]

omit [DecidableEq κ] in
/-- Waking a blocked thread moves nobody. -/
theorem loc_update_notified {thr : τ → Status κ Λ} {t : τ} {c : κ} {l : Λ}
    (hw : thr t = .waiting c l) (u : τ) :
    (Function.update thr t (.notified c l) u).loc = (thr u).loc := by
  by_cases hu : u = t
  · rw [hu, Function.update_self, hw]
    rfl
  · rw [Function.update_of_ne hu]

omit [DecidableEq κ] in
/-- Waking a thread blocks nobody. -/
theorem waiting_of_update_notified {thr : τ → Status κ Λ} {t u : τ} {c c' : κ} {l l' : Λ}
    (h : Function.update thr t (.notified c l) u = .waiting c' l') : thr u = .waiting c' l' := by
  by_cases hu : u = t
  · rw [hu, Function.update_self] at h
    cases h
  · rwa [Function.update_of_ne hu] at h

omit [DecidableEq κ] in
/-- What holds of the status of every thread, whether woken or not, holds after a spurious wake-up. -/
theorem forall_status_of_woken {thr : τ → Status κ Λ} {t : τ} {c : κ} {l : Λ}
    (hw : thr t = .waiting c l) {p : τ → Status κ Λ → Prop} (hs : ∀ u, p u (thr u))
    (hwake : ∀ u c l, p u (.waiting c l) → p u (.notified c l)) (u : τ) :
    p u (Function.update thr t (.notified c l) u) := by
  have hp := hs u
  by_cases hu : u = t
  · rw [hu, hw] at hp
    rw [hu, Function.update_self]
    exact hwake t c l hp
  · rw [Function.update_of_ne hu]
    exact hp

variable [Fintype τ]

/-- Deliver one notification.  A signal wakes the blocked thread named by `pick`; it is lost only
when nobody is blocked on its condition variable. -/
def deliver (thr : τ → Status κ Λ) (pick : Option τ) : Note κ → Option (τ → Status κ Λ)
  | .broadcast c => some fun t => (thr t).wake c
  | .signal c =>
      match pick with
      | some t =>
          if (thr t).waitsOn c then some (Function.update thr t ((thr t).wake c)) else none
      | none => if ∃ t, (thr t).waitsOn c = true then none else some thr

/-- Deliver notifications in the order they were sent, one pick each. -/
def deliverAll (thr : τ → Status κ Λ) (picks : List (Option τ)) :
    List (Note κ) → Option (τ → Status κ Λ)
  | [] => some thr
  | note :: notes =>
      (deliver thr picks.head?.join note).bind fun thr' => deliverAll thr' picks.tail notes

/-- A signal reaches the thread that is picked, one of those blocked there, or nobody is. -/
theorem pick_of_deliver {thr thr' : τ → Status κ Λ} {pick : Option τ} {c : κ}
    (h : deliver thr pick (.signal c) = some thr') :
    (pick = none ∧ (∀ u l, thr u ≠ .waiting c l) ∧ thr' = thr) ∨
      ∃ u l, pick = some u ∧ thr u = .waiting c l ∧ thr' = Function.update thr u (.notified c l) := by
  cases pick with
  | none =>
      simp only [deliver] at h
      split at h
      case isTrue => simp at h
      case isFalse hno =>
        refine .inl ⟨rfl, fun u l hu => hno ⟨u, Status.waitsOn_iff.mpr ⟨l, hu⟩⟩, ?_⟩
        exact (Option.some.inj h).symm
  | some u =>
      simp only [deliver] at h
      split at h
      case isFalse => simp at h
      case isTrue hu =>
        obtain ⟨l, hl⟩ := Status.waitsOn_iff.mp hu
        refine .inr ⟨u, l, rfl, hl, ?_⟩
        rw [← Option.some.inj h, hl, Status.wake, if_pos rfl]

/-- One delivered notification. -/
theorem delivered_of_deliver {thr thr' : τ → Status κ Λ} {pick : Option τ} {note : Note κ}
    (h : deliver thr pick note = some thr') : Delivered thr [note] thr' := by
  cases note with
  | broadcast c =>
      simp only [deliver, Option.some.injEq] at h
      subst h
      refine ⟨fun t => ?_, ?_, by simp⟩
      · rcases wake_cases c (thr t) with ⟨h, -⟩ | ⟨l, h, h'⟩
        · exact .inl h
        · exact .inr ⟨c, l, h, h', by simp⟩
      · intro c' hc' t l
        simp only [List.mem_singleton, Note.broadcast.injEq] at hc'
        subst hc'
        rcases wake_cases c' (thr t) with ⟨h, hne⟩ | ⟨l', h, h'⟩
        · rw [h]; exact hne l
        · rw [h']; simp
  | signal c =>
      cases pick with
      | none =>
          simp only [deliver] at h
          split at h
          case isTrue => simp at h
          case isFalse hno =>
            simp only [Option.some.injEq] at h
            subst h
            refine ⟨fun t => .inl rfl, by simp, ?_⟩
            rintro c' hc' ⟨t, l, ht⟩
            simp only [List.mem_singleton, Note.signal.injEq] at hc'
            subst hc'
            exact absurd ⟨t, Status.waitsOn_iff.mpr ⟨l, ht⟩⟩ hno
      | some u =>
          simp only [deliver] at h
          split at h
          case isFalse => simp at h
          case isTrue hu =>
            simp only [Option.some.injEq] at h
            subst h
            obtain ⟨l, hl⟩ := Status.waitsOn_iff.mp hu
            have hwake : (thr u).wake c = .notified c l := by simp [hl, Status.wake]
            refine ⟨fun t => ?_, by simp, ?_⟩
            · by_cases ht : t = u
              · subst ht
                exact .inr ⟨c, l, hl, by simp [hwake], by simp⟩
              · exact .inl (by simp [ht])
            · intro c' hc' _
              simp only [List.mem_singleton, Note.signal.injEq] at hc'
              subst hc'
              exact ⟨u, l, hl, by simp [hwake]⟩

/-- Every notification can be delivered. -/
theorem exists_deliver (thr : τ → Status κ Λ) (note : Note κ) :
    ∃ pick thr', deliver thr pick note = some thr' := by
  cases note with
  | broadcast c => exact ⟨none, _, rfl⟩
  | signal c =>
      by_cases hw : ∃ t, (thr t).waitsOn c = true
      · obtain ⟨t, ht⟩ := hw
        exact ⟨some t, _, if_pos ht⟩
      · exact ⟨none, thr, if_neg hw⟩

theorem exists_deliverAll (thr : τ → Status κ Λ) (notes : List (Note κ)) :
    ∃ picks thr', deliverAll thr picks notes = some thr' := by
  induction notes generalizing thr with
  | nil => exact ⟨[], thr, rfl⟩
  | cons note notes ih =>
      obtain ⟨pick, thr₁, h₁⟩ := exists_deliver thr note
      obtain ⟨picks, thr', h'⟩ := ih thr₁
      refine ⟨pick :: picks, thr', ?_⟩
      simp [deliverAll, h₁, h']

theorem delivered_of_deliverAll {notes : List (Note κ)} :
    ∀ {thr thr' : τ → Status κ Λ} {picks : List (Option τ)},
      deliverAll thr picks notes = some thr' → Delivered thr notes thr' := by
  induction notes with
  | nil =>
      intro thr thr' picks h
      simp only [deliverAll, Option.some.injEq] at h
      exact h ▸ Delivered.nil thr
  | cons note notes ih =>
      intro thr thr' picks h
      simp only [deliverAll, Option.bind_eq_some_iff] at h
      obtain ⟨thr₁, h₁, h₂⟩ := h
      exact (delivered_of_deliver h₁).cons (ih h₂)

end Delivery

section Tally

variable {τ κ Λ : Type*} [Fintype τ]

/-- The sum of a weight over the locations of all threads. -/
def tally (thr : τ → Status κ Λ) (w : Λ → Nat) : Nat :=
  ∑ t, w (thr t).loc

theorem tally_congr {thr thr' : τ → Status κ Λ} (h : ∀ t, (thr' t).loc = (thr t).loc)
    (w : Λ → Nat) : tally thr' w = tally thr w := by
  simp only [tally, h]

theorem le_tally (thr : τ → Status κ Λ) (w : Λ → Nat) (t : τ) : w (thr t).loc ≤ tally thr w :=
  Finset.single_le_sum (f := fun u => w (thr u).loc) (fun _ _ => Nat.zero_le _) (Finset.mem_univ t)

theorem tally_pos {thr : τ → Status κ Λ} {w : Λ → Nat} :
    0 < tally thr w ↔ ∃ t, 0 < w (thr t).loc := by
  constructor
  · intro h
    by_contra hno
    have hzero : ∀ t, w (thr t).loc = 0 := fun t => by
      have := mt (Exists.intro t) hno
      omega
    simp [tally, hzero] at h
  · rintro ⟨t, ht⟩
    exact lt_of_lt_of_le ht (le_tally thr w t)

/-- Where the others do not count, a thread counts alone. -/
theorem tally_eq_of_ne {thr : τ → Status κ Λ} {w : Λ → Nat} {t : τ}
    (h : ∀ u, u ≠ t → w (thr u).loc = 0) : tally thr w = w (thr t).loc :=
  Finset.sum_eq_single t (fun u _ hu => h u hu) fun ht => absurd (Finset.mem_univ t) ht

theorem tally_eq_zero {thr : τ → Status κ Λ} {w : Λ → Nat} :
    tally thr w = 0 ↔ ∀ t, w (thr t).loc = 0 := by
  simp [tally]

theorem tally_add (thr : τ → Status κ Λ) (w w' : Λ → Nat) :
    tally thr (fun l => w l + w' l) = tally thr w + tally thr w' :=
  Finset.sum_add_distrib

theorem tally_mono (thr : τ → Status κ Λ) {w w' : Λ → Nat} (h : ∀ l, w l ≤ w' l) :
    tally thr w ≤ tally thr w' :=
  Finset.sum_le_sum fun t _ => h (thr t).loc

/-- Counting threads is a tally. -/
theorem card_filter_loc (thr : τ → Status κ Λ) (p : Λ → Bool) :
    (Finset.univ.filter fun t => p (thr t).loc = true).card = tally thr fun l => (p l).toNat := by
  rw [Finset.card_filter, tally]
  refine Finset.sum_congr rfl fun t _ => ?_
  cases p (thr t).loc <;> rfl

variable [DecidableEq τ]

/-- Moving one thread changes one summand. -/
theorem tally_update (thr : τ → Status κ Λ) (w : Λ → Nat) (t : τ) (st : Status κ Λ) :
    tally (Function.update thr t st) w + w (thr t).loc = tally thr w + w st.loc := by
  have hsplit : ∀ f : τ → Nat, ∑ u, f u = f t + ∑ u ∈ Finset.univ.erase t, f u :=
    fun f => (Finset.add_sum_erase _ f (Finset.mem_univ t)).symm
  have hrest : ∑ u ∈ Finset.univ.erase t, w (Function.update thr t st u).loc =
      ∑ u ∈ Finset.univ.erase t, w (thr u).loc :=
    Finset.sum_congr rfl fun u hu => by simp [Finset.ne_of_mem_erase hu]
  unfold tally
  rw [hsplit fun u => w (Function.update thr t st u).loc, hsplit fun u => w (thr u).loc, hrest]
  simp only [Function.update_self]
  omega

/-- Where one thread moves, one summand changes. -/
theorem tally_step {thr thr' : τ → Status κ Λ} {t : τ} (w : Λ → Nat)
    (h : ∀ u, u ≠ t → (thr' u).loc = (thr u).loc) :
    tally thr' w + w (thr t).loc = tally thr w + w (thr' t).loc := by
  have hloc : ∀ u, (thr' u).loc = (Function.update thr t (thr' t) u).loc := by
    intro u
    by_cases hu : u = t
    · rw [hu, Function.update_self]
    · rw [h u hu, Function.update_of_ne hu]
  rw [tally_congr hloc]
  exact tally_update thr w t (thr' t)

/-- Where the others keep a property, the number of threads that have it changes with one thread. -/
theorem card_filter_step (p p' : τ → Prop) [DecidablePred p] [DecidablePred p'] (t : τ)
    (h : ∀ u, u ≠ t → (p' u ↔ p u)) :
    (Finset.univ.filter p').card + (if p t then 1 else 0) =
      (Finset.univ.filter p).card + (if p' t then 1 else 0) := by
  have hsplit : ∀ q : τ → Prop, ∀ [DecidablePred q], (Finset.univ.filter q).card =
      (if q t then 1 else 0) + ((Finset.univ.erase t).filter q).card := by
    intro q _
    rw [Finset.card_filter, Finset.card_filter]
    exact (Finset.add_sum_erase _ _ (Finset.mem_univ t)).symm
  have hrest : (Finset.univ.erase t).filter p' = (Finset.univ.erase t).filter p := by
    apply Finset.filter_congr
    intro u hu
    exact h u (Finset.ne_of_mem_erase hu)
  rw [hsplit p', hsplit p, hrest]
  omega

/-- The number of threads whose status passes a test. -/
def statusCount (thr : τ → Status κ Λ) (p : Status κ Λ → Bool) : Nat :=
  (Finset.univ.filter fun t => p (thr t) = true).card

/-- One thread takes a new status. -/
theorem statusCount_update (thr : τ → Status κ Λ) (p : Status κ Λ → Bool) (t : τ) (st : Status κ Λ) :
    statusCount (Function.update thr t st) p + (p (thr t)).toNat =
      statusCount thr p + (p st).toNat := by
  have hstep := card_filter_step (fun u => p (thr u) = true)
    (fun u => p (Function.update thr t st u) = true) t
    (fun u hu => by rw [Function.update_of_ne hu])
  rw [Function.update_self] at hstep
  have hnat : ∀ b : Bool, (if b = true then 1 else 0) = b.toNat := by decide
  rwa [hnat, hnat] at hstep

omit [DecidableEq τ] in
theorem statusCount_pos {thr : τ → Status κ Λ} {p : Status κ Λ → Bool} :
    0 < statusCount thr p ↔ ∃ t, p (thr t) = true := by
  unfold statusCount
  rw [Finset.card_pos]
  constructor
  · rintro ⟨t, ht⟩
    exact ⟨t, (Finset.mem_filter.mp ht).2⟩
  · rintro ⟨t, ht⟩
    exact ⟨t, Finset.mem_filter.mpr ⟨Finset.mem_univ t, ht⟩⟩

/-- Two different threads both count. -/
theorem add_le_tally (thr : τ → Status κ Λ) (w : Λ → Nat) {t u : τ} (h : t ≠ u) :
    w (thr t).loc + w (thr u).loc ≤ tally thr w := by
  have hmem : u ∈ Finset.univ.erase t := by simp [h.symm]
  have hle := Finset.single_le_sum (f := fun v => w (thr v).loc) (fun _ _ => Nat.zero_le _) hmem
  have hsplit := Finset.add_sum_erase _ (fun v => w (thr v).loc) (Finset.mem_univ t)
  unfold tally
  omega

/-- The number of notified threads at the locations `p`. -/
def notifiedCount (thr : τ → Status κ Λ) (p : Λ → Bool) : Nat :=
  (Finset.univ.filter fun t => ((thr t).isNotified && p (thr t).loc) = true).card

/-- Notifying threads other than `t` loses at most `t`. -/
theorem notifiedCount_le {thr thr' : τ → Status κ Λ} (p : Λ → Bool) (t : τ)
    (h : ∀ u, u ≠ t → ∀ c l, thr u = .notified c l → thr' u = .notified c l) :
    notifiedCount thr p ≤
      notifiedCount thr' p + ((thr t).isNotified && p (thr t).loc).toNat := by
  have hsub : (Finset.univ.filter fun u => ((thr u).isNotified && p (thr u).loc) = true).erase t ⊆
      Finset.univ.filter fun u => ((thr' u).isNotified && p (thr' u).loc) = true := by
    intro u hu
    rw [Finset.mem_erase, Finset.mem_filter, Bool.and_eq_true] at hu
    obtain ⟨hut, -, hnot, hp⟩ := hu
    obtain ⟨c, l, hthr⟩ := Status.isNotified_iff.mp hnot
    rw [Finset.mem_filter, h u hut c l hthr, ← hthr, hnot, hp]
    exact ⟨Finset.mem_univ u, rfl⟩
  have hcard := Finset.card_le_card hsub
  unfold notifiedCount
  by_cases ht : ((thr t).isNotified && p (thr t).loc) = true
  · rw [Finset.card_erase_of_mem (by simpa using ht)] at hcard
    rw [ht]
    exact Nat.le_add_of_sub_le hcard
  · rw [Finset.erase_eq_of_notMem (by simpa using ht)] at hcard
    exact le_trans hcard (Nat.le_add_right _ _)

/-- One of the others is notified in addition. -/
theorem notifiedCount_lt {thr thr' : τ → Status κ Λ} (p : Λ → Bool) {t u : τ} (hut : u ≠ t)
    (h : ∀ u, u ≠ t → ∀ c l, thr u = .notified c l → thr' u = .notified c l)
    (hold : (thr u).isNotified = false) (hnew : (thr' u).isNotified = true)
    (hp : p (thr' u).loc = true) :
    notifiedCount thr p <
      notifiedCount thr' p + ((thr t).isNotified && p (thr t).loc).toNat := by
  -- the states before, with `u` notified already
  have hkeep : ∀ v, v ≠ t → ∀ c l, Function.update thr u (thr' u) v = .notified c l →
      thr' v = .notified c l := by
    intro v hv c l hthr
    by_cases hvu : v = u
    · rw [hvu, Function.update_self] at hthr
      rw [hvu, hthr]
    · rw [Function.update_of_ne hvu] at hthr
      exact h v hv c l hthr
  have hstep := notifiedCount_le p t hkeep
  rw [Function.update_of_ne hut.symm] at hstep
  refine lt_of_lt_of_le ?_ hstep
  apply Finset.card_lt_card
  rw [Finset.ssubset_iff_of_subset]
  · refine ⟨u, ?_, ?_⟩
    · rw [Finset.mem_filter, Function.update_self, hnew, hp]
      exact ⟨Finset.mem_univ u, rfl⟩
    · rw [Finset.mem_filter, hold]
      simp
  · intro v hv
    rw [Finset.mem_filter] at hv ⊢
    have hvu : v ≠ u := by
      rintro rfl
      rw [hold] at hv
      simp at hv
    rwa [Function.update_of_ne hvu]

end Tally

/-- What a piece of a thread's code does. -/
inductive Effect (μ κ Λ : Type*) where
  /-- It cannot run now. -/
  | blocked
  /-- An assertion fails. -/
  | abort
  /-- It leaves the memory `m`, sends `notes`, and puts the thread into `st`. -/
  | done (m : μ) (notes : List (Note κ)) (st : Status κ Λ)

namespace Effect

variable {μ κ Λ α : Type*}

/-- A call that may fail an assertion, and what follows it. -/
def call (r : Option α) (k : α → Effect μ κ Λ) : Effect μ κ Λ :=
  match r with
  | none => .abort
  | some a => k a

theorem call_eq_done {r : Option α} {k : α → Effect μ κ Λ} {m : μ} {notes : List (Note κ)}
    {st : Status κ Λ} : call r k = .done m notes st ↔ ∃ a, r = some a ∧ k a = .done m notes st := by
  cases r <;> simp [call]

theorem call_eq_abort {r : Option α} {k : α → Effect μ κ Λ} :
    call r k = .abort ↔ r = none ∨ ∃ a, r = some a ∧ k a = .abort := by
  cases r <;> simp [call]

/-- Code that is observed while it runs: `obs` makes a record of what it leaves, which the code
itself does not see. -/
def observed {ν : Type*} (obs : μ → Status κ Λ → ν) : Effect μ κ Λ → Effect ν κ Λ
  | .blocked => .blocked
  | .abort => .abort
  | .done m notes st => .done (obs m st) notes st

section Observed

variable {ν : Type*} {obs : μ → Status κ Λ → ν} {e : Effect μ κ Λ}

/-- What is observed is what the code does. -/
theorem observed_eq_done {n : ν} {notes : List (Note κ)} {st : Status κ Λ} :
    e.observed obs = .done n notes st ↔ ∃ m, e = .done m notes st ∧ obs m st = n := by
  cases e with
  | done m notes' st' =>
      simp only [observed, done.injEq]
      constructor
      · rintro ⟨hn, rfl, rfl⟩
        exact ⟨m, ⟨rfl, rfl, rfl⟩, hn⟩
      · rintro ⟨_, ⟨rfl, rfl, rfl⟩, hn⟩
        exact ⟨hn, rfl, rfl⟩
  | _ => simp [observed]

theorem observed_eq_abort : e.observed obs = .abort ↔ e = .abort := by
  cases e <;> simp [observed]

end Observed

end Effect

/-- Shared memory and threads. -/
structure Config (τ μ κ Λ : Type*) where
  mem : μ
  thr : τ → Status κ Λ

/-- The scheduler's moves: let `t` run, with the client's choice `x` and one pick for each
notification sent, or let a blocked thread wake up without a notification. -/
inductive Act (τ χ : Type*) where
  | run (t : τ) (x : χ) (picks : List (Option τ))
  | spurious (t : τ)

/-- The code of the threads: what each does from each location, and whether the platform may wake
threads spuriously. -/
structure Program (τ μ κ Λ χ : Type*) where
  exec : τ → Λ → χ → μ → Effect μ κ Λ
  spuriousWakeups : Bool

namespace Program

variable {τ μ κ Λ χ : Type*} [DecidableEq τ]

/-- Everything a run step can do. -/
structure Ran (P : Program τ μ κ Λ χ) (s : Config τ μ κ Λ) (t : τ) (x : χ)
    (s' : Config τ μ κ Λ) (notes : List (Note κ)) (st : Status κ Λ) : Prop where
  awake : (s.thr t).isWaiting = false
  exec : P.exec t (s.thr t).loc x s.mem = .done s'.mem notes st
  /-- The moving thread takes its new status, the others at most get notified. -/
  thr : ∃ thr', Delivered s.thr notes thr' ∧ s'.thr = Function.update thr' t st

namespace Ran

variable {P : Program τ μ κ Λ χ} {s s' : Config τ μ κ Λ} {t : τ} {x : χ} {notes : List (Note κ)}
  {st : Status κ Λ}

/-- The thread that moved. -/
theorem self (h : P.Ran s t x s' notes st) : s'.thr t = st := by
  obtain ⟨thr', -, hthr⟩ := h.thr
  rw [hthr, Function.update_self]

/-- The threads that did not move are at the same locations. -/
theorem loc_of_ne (h : P.Ran s t x s' notes st) {u : τ} (hu : u ≠ t) :
    (s'.thr u).loc = (s.thr u).loc := by
  obtain ⟨thr', hdel, hthr⟩ := h.thr
  rw [hthr, Function.update_of_ne hu, hdel.loc]

/-- A thread that did not move is as before or got notified. -/
theorem other (h : P.Ran s t x s' notes st) {u : τ} (hu : u ≠ t) :
    s'.thr u = s.thr u ∨ ∃ c l, s.thr u = .waiting c l ∧ s'.thr u = .notified c l ∧
      (.signal c ∈ notes ∨ .broadcast c ∈ notes) := by
  obtain ⟨thr', hdel, hthr⟩ := h.thr
  rw [hthr, Function.update_of_ne hu]
  exact hdel.change u

/-- A step that sends nothing leaves the other threads alone. -/
theorem other_of_nil (h : P.Ran s t x s' [] st) {u : τ} (hu : u ≠ t) : s'.thr u = s.thr u := by
  rcases h.other hu with h | ⟨c, l, -, -, h⟩
  · exact h
  · simp at h

/-- Where a step that sends nothing leaves the threads. -/
theorem thr_of_nil (h : P.Ran s t x s' [] st) : s'.thr = Function.update s.thr t st := by
  obtain ⟨thr', hdel, hthr⟩ := h.thr
  rw [hthr, hdel.eq_of_nil]

theorem waiting_of_ne (h : P.Ran s t x s' notes st) {u : τ} (hu : u ≠ t) {c : κ} {l : Λ}
    (hw : s'.thr u = .waiting c l) : s.thr u = .waiting c l := by
  rcases h.other hu with h | ⟨c', l', -, h, -⟩
  · rw [← h, hw]
  · rw [h] at hw; cases hw

theorem notified_of_ne (h : P.Ran s t x s' notes st) {u : τ} (hu : u ≠ t) {c : κ} {l : Λ}
    (hw : s.thr u = .notified c l) : s'.thr u = .notified c l := by
  rcases h.other hu with h | ⟨c', l', h, -⟩
  · rw [h, hw]
  · rw [h] at hw; cases hw

/-- What holds of the status of every thread, whether woken or not, and of the moving thread's new one,
holds after the step. -/
theorem forall_status (h : P.Ran s t x s' notes st) {p : τ → Status κ Λ → Prop}
    (hs : ∀ u, p u (s.thr u)) (hst : p t st)
    (hwake : ∀ u c l, p u (.waiting c l) → p u (.notified c l)) (u : τ) : p u (s'.thr u) := by
  by_cases hu : u = t
  · rw [hu, h.self]
    exact hst
  · have hp := hs u
    rcases h.other hu with hsame | ⟨c, l, hw, hn, -⟩
    · rw [hsame]
      exact hp
    · rw [hw] at hp
      rw [hn]
      exact hwake u c l hp

/-- After a broadcast only the moving thread can be blocked there. -/
theorem broadcast (h : P.Ran s t x s' notes st) {c : κ} (hc : .broadcast c ∈ notes) {u : τ}
    (hu : u ≠ t) (l : Λ) : s'.thr u ≠ .waiting c l := by
  obtain ⟨thr', hdel, hthr⟩ := h.thr
  rw [hthr, Function.update_of_ne hu]
  exact hdel.broadcast c hc u l

/-- A signal reaches a thread that was blocked there. -/
theorem signal (h : P.Ran s t x s' notes st) {c : κ} (hc : .signal c ∈ notes)
    (hw : ∃ u l, s.thr u = .waiting c l) :
    ∃ u l, u ≠ t ∧ s.thr u = .waiting c l ∧ s'.thr u = .notified c l := by
  obtain ⟨thr', hdel, hthr⟩ := h.thr
  obtain ⟨u, l, hu, hu'⟩ := hdel.signal c hc hw
  have hne : u ≠ t := by
    rintro rfl
    simpa [hu] using h.awake
  exact ⟨u, l, hne, hu, by rw [hthr, Function.update_of_ne hne, hu']⟩

variable [Fintype τ]

/-- One summand of every tally changes. -/
theorem tally (h : P.Ran s t x s' notes st) (w : Λ → Nat) :
    Lib.tally s'.thr w + w (s.thr t).loc = Lib.tally s.thr w + w st.loc := by
  obtain ⟨thr', hdel, hthr⟩ := h.thr
  have hupd := tally_update thr' w t st
  rw [hdel.loc, tally_congr hdel.loc w] at hupd
  rw [hthr, hupd]

/-- No notified thread is lost but the one that moves. -/
theorem notifiedCount_le (h : P.Ran s t x s' notes st) (p : Λ → Bool) :
    notifiedCount s.thr p ≤
      notifiedCount s'.thr p + ((s.thr t).isNotified && p (s.thr t).loc).toNat :=
  Lib.notifiedCount_le p t fun _ hu _ _ hw => h.notified_of_ne hu hw

/-- A signal adds a notified thread, if there is one to notify. -/
theorem notifiedCount_lt (h : P.Ran s t x s' notes st) {p : Λ → Bool} {c : κ}
    (hc : .signal c ∈ notes) (hw : ∃ u l, s.thr u = .waiting c l)
    (hp : ∀ u l, s.thr u = .waiting c l → p l = true) :
    notifiedCount s.thr p <
      notifiedCount s'.thr p + ((s.thr t).isNotified && p (s.thr t).loc).toNat := by
  obtain ⟨u, l, hut, hold, hnew⟩ := h.signal hc hw
  refine Lib.notifiedCount_lt p hut (fun _ hu _ _ hw => h.notified_of_ne hu hw) ?_ ?_ ?_
  · rw [hold]; rfl
  · rw [hnew]; rfl
  · rw [hnew]; exact hp u l hold

end Ran

variable [Fintype τ] [DecidableEq κ]

/-- One move of the scheduler. -/
def step (P : Program τ μ κ Λ χ) (s : Config τ μ κ Λ) : Act τ χ → Outcome (Config τ μ κ Λ)
  | .run t x picks =>
      if (s.thr t).isWaiting then .blocked
      else
        match P.exec t (s.thr t).loc x s.mem with
        | .blocked => .blocked
        | .abort => .abort
        | .done m notes st =>
            match deliverAll s.thr picks notes with
            | none => .blocked
            | some thr => .next ⟨m, Function.update thr t st⟩
  | .spurious t =>
      match s.thr t with
      | .waiting c l =>
          if P.spuriousWakeups then .next ⟨s.mem, Function.update s.thr t (.notified c l)⟩
          else .blocked
      | _ => .blocked

/-- The interleaving machine of a program. -/
def machine (P : Program τ μ κ Λ χ) (init : Config τ μ κ Λ → Prop) :
    Machine (Config τ μ κ Λ) (Act τ χ) where
  init := init
  step := P.step

/-- A piece of code that sends nothing is carried out as it is. -/
theorem step_of_silent {P : Program τ μ κ Λ χ} {s : Config τ μ κ Λ} {t : τ} {x : χ}
    (picks : List (Option τ)) {m : μ} {st : Status κ Λ} (hawake : (s.thr t).isWaiting = false)
    (hexec : P.exec t (s.thr t).loc x s.mem = .done m [] st) :
    P.step s (.run t x picks) = .next ⟨m, Function.update s.thr t st⟩ := by
  simp [step, hawake, hexec, deliverAll]

/-- A piece of code that can be carried out is carried out by some step. -/
theorem exists_step_of_exec {P : Program τ μ κ Λ χ} {s : Config τ μ κ Λ} {t : τ} {x : χ} {m : μ}
    {notes : List (Note κ)} {st : Status κ Λ} (hawake : (s.thr t).isWaiting = false)
    (hexec : P.exec t (s.thr t).loc x s.mem = .done m notes st) :
    ∃ picks s', P.step s (.run t x picks) = .next s' := by
  obtain ⟨picks, thr, hthr⟩ := exists_deliverAll s.thr notes
  refine ⟨picks, ⟨m, Function.update thr t st⟩, ?_⟩
  simp [step, hawake, hexec, hthr]

theorem step_of_exec_abort {P : Program τ μ κ Λ χ} {s : Config τ μ κ Λ} {t : τ} {x : χ}
    (picks : List (Option τ)) (hawake : (s.thr t).isWaiting = false)
    (hexec : P.exec t (s.thr t).loc x s.mem = .abort) : P.step s (.run t x picks) = .abort := by
  simp [step, hawake, hexec]

theorem ran_of_step {P : Program τ μ κ Λ χ} {s s' : Config τ μ κ Λ} {t : τ} {x : χ}
    {picks : List (Option τ)} (h : P.step s (.run t x picks) = .next s') :
    ∃ notes st, P.Ran s t x s' notes st := by
  simp only [step] at h
  split at h
  case isTrue => simp at h
  case isFalse haw =>
    cases hexec : P.exec t (s.thr t).loc x s.mem with
    | blocked => simp [hexec] at h
    | abort => simp [hexec] at h
    | done m notes st =>
        cases hdel : deliverAll s.thr picks notes with
        | none => simp [hexec, hdel] at h
        | some thr =>
            simp only [hexec, hdel, Outcome.next.injEq] at h
            subst h
            exact ⟨notes, st, by simpa using haw, hexec, thr, delivered_of_deliverAll hdel, rfl⟩

/-- A step that sends one signal notifies the thread that is picked, one of those blocked there, or nobody
is. -/
theorem pick_of_step {P : Program τ μ κ Λ χ} {s s' : Config τ μ κ Λ} {t : τ} {x : χ}
    {picks : List (Option τ)} {m : μ} {c : κ} {st : Status κ Λ}
    (hexec : P.exec t (s.thr t).loc x s.mem = .done m [.signal c] st)
    (h : P.step s (.run t x picks) = .next s') :
    (picks.head?.join = none ∧ (∀ u l, s.thr u ≠ .waiting c l) ∧
      s'.thr = Function.update s.thr t st) ∨
      ∃ u l, picks.head?.join = some u ∧ u ≠ t ∧ s.thr u = .waiting c l ∧
        s'.thr = Function.update (Function.update s.thr u (.notified c l)) t st := by
  simp only [step] at h
  split at h
  case isTrue => simp at h
  case isFalse haw =>
    simp only [hexec, deliverAll] at h
    cases hdel : deliver s.thr picks.head?.join (.signal c) with
    | none => simp [hdel] at h
    | some thr =>
        simp only [hdel, Option.bind_some, Outcome.next.injEq] at h
        subst h
        rcases pick_of_deliver hdel with ⟨hnone, hno, heq⟩ | ⟨u, l, hpick, hu, heq⟩
        · exact .inl ⟨hnone, hno, by rw [heq]⟩
        · refine .inr ⟨u, l, hpick, ?_, hu, by rw [heq]⟩
          rintro rfl
          simp [hu] at haw

/-- A step that sends one signal notifies exactly one of the threads blocked there, or nobody is. -/
theorem signal_of_step {P : Program τ μ κ Λ χ} {s s' : Config τ μ κ Λ} {t : τ} {x : χ}
    {picks : List (Option τ)} {m : μ} {c : κ} {st : Status κ Λ}
    (hexec : P.exec t (s.thr t).loc x s.mem = .done m [.signal c] st)
    (h : P.step s (.run t x picks) = .next s') :
    ((∀ u l, s.thr u ≠ .waiting c l) ∧ s'.thr = Function.update s.thr t st) ∨
      ∃ u l, u ≠ t ∧ s.thr u = .waiting c l ∧
        s'.thr = Function.update (Function.update s.thr u (.notified c l)) t st := by
  rcases pick_of_step hexec h with ⟨-, hno, heq⟩ | ⟨u, l, -, hut, hu, heq⟩
  · exact .inl ⟨hno, heq⟩
  · exact .inr ⟨u, l, hut, hu, heq⟩

/-- A run step aborts only where the thread's code does. -/
theorem exec_of_abort {P : Program τ μ κ Λ χ} {s : Config τ μ κ Λ} {t : τ} {x : χ}
    {picks : List (Option τ)} (h : P.step s (.run t x picks) = .abort) :
    (s.thr t).isWaiting = false ∧ P.exec t (s.thr t).loc x s.mem = .abort := by
  simp only [step] at h
  split at h
  case isTrue => simp at h
  case isFalse haw =>
    refine ⟨by simpa using haw, ?_⟩
    cases hexec : P.exec t (s.thr t).loc x s.mem with
    | blocked => simp [hexec] at h
    | abort => rfl
    | done m notes st =>
        cases hdel : deliverAll s.thr picks notes <;> simp [hexec, hdel] at h

theorem spurious_of_step {P : Program τ μ κ Λ χ} {s s' : Config τ μ κ Λ} {t : τ}
    (h : P.step s (.spurious t) = .next s') :
    P.spuriousWakeups = true ∧ ∃ c l, s.thr t = .waiting c l ∧
      s' = ⟨s.mem, Function.update s.thr t (.notified c l)⟩ := by
  simp only [step] at h
  split at h
  case h_1 c l ht =>
    split at h
    case isTrue hsp => exact ⟨hsp, c, l, ht, by simpa using h.symm⟩
    case isFalse => simp at h
  case h_2 => simp at h

/-- **Invariant rule**: what holds initially, and is preserved by every piece of code that is carried out
and by every thread that wakes up by itself, holds in every state reached. -/
theorem invariant {P : Program τ μ κ Λ χ} {init : Config τ μ κ Λ → Prop}
    {cond : Config τ μ κ Λ → Act τ χ → Prop} {I : Config τ μ κ Λ → Prop}
    (hinit : ∀ s, init s → I s)
    (hrun : ∀ s t x picks s' notes st, I s → cond s (.run t x picks) → P.Ran s t x s' notes st → I s')
    (hwoken : ∀ s t c l, I s → P.spuriousWakeups = true → s.thr t = .waiting c l →
      I ⟨s.mem, Function.update s.thr t (.notified c l)⟩)
    {s : Config τ μ κ Λ} (h : (P.machine init).ReachableUnder cond s) : I s := by
  apply h.invariant
  · exact hinit
  · intro s a s' hinv hcond hstep
    cases a with
    | run t x picks =>
        obtain ⟨notes, st, hran⟩ := ran_of_step hstep
        exact hrun s t x picks s' notes st hinv hcond hran
    | spurious t =>
        obtain ⟨hsp, c, l, hw, rfl⟩ := spurious_of_step hstep
        exact hwoken s t c l hinv hsp hw

theorem not_abort_spurious {P : Program τ μ κ Λ χ} {s : Config τ μ κ Λ} {t : τ} :
    P.step s (.spurious t) ≠ .abort := by
  simp only [step]
  split
  case h_1 => split <;> simp
  case h_2 => simp

end Program

end Lib
end MultithreadingBible
