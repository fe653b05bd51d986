import Mathlib.Data.List.Chain
import MultithreadingBible.Lib.Machine

/-!
# Machines whose steps are recorded

`M.recording obs` runs like `M` and appends to a list what `obs` sees in each step, so that a property
of a whole run becomes an invariant of a state and a list.

* `ReachableUnder.of_recording` / `ReachableUnder.exists_recording` — the recorded runs are the runs.
* `M.polled read` — `M` with threads that may read the state at any moment; they do not disturb it.
* `EachAfter` — what is said of every entry of a log and the entries before it.
-/

namespace MultithreadingBible
namespace Lib

namespace Machine

variable {σ α β : Type*}

/-- Run `M` and record what `obs` sees. -/
def recording (M : Machine σ α) (obs : σ → α → σ → List β) : Machine (σ × List β) α where
  init s := M.init s.1 ∧ s.2 = []
  step s a :=
    match M.step s.1 a with
    | .blocked => .blocked
    | .abort => .abort
    | .next s' => .next (s', s.2 ++ obs s.1 a s')

variable {M : Machine σ α} {obs : σ → α → σ → List β} {cond : σ → α → Prop}

/-- A recorded run begins with nothing recorded. -/
theorem recording_init {s : σ} (h : M.init s) : (M.recording obs).init (s, []) := ⟨h, rfl⟩

/-- A recorded step is a step, and what it records. -/
theorem step_of_recording {s s' : σ × List β} {a : α}
    (h : (M.recording obs).step s a = .next s') :
    M.step s.1 a = .next s'.1 ∧ s'.2 = s.2 ++ obs s.1 a s'.1 := by
  simp only [recording] at h
  cases hstep : M.step s.1 a with
  | blocked => simp [hstep] at h
  | abort => simp [hstep] at h
  | next s₁ =>
      simp only [hstep, Outcome.next.injEq] at h
      rw [← h]
      exact ⟨rfl, rfl⟩

/-- What a recorded run reaches, the run reaches. -/
theorem ReachableUnder.of_recording {s : σ × List β}
    (h : (M.recording obs).ReachableUnder (fun s a => cond s.1 a) s) : M.ReachableUnder cond s.1 := by
  induction h with
  | init h => exact .init h.1
  | step _ hc h ih => exact .step ih hc (step_of_recording h).1

/-- Every run can be recorded. -/
theorem ReachableUnder.exists_recording {s : σ} (h : M.ReachableUnder cond s) :
    ∃ log : List β, (M.recording obs).ReachableUnder (fun s a => cond s.1 a) (s, log) := by
  induction h with
  | init h => exact ⟨[], .init ⟨h, rfl⟩⟩
  | @step s s' a _ hc h ih =>
      obtain ⟨log, hlog⟩ := ih
      have hstep : (M.recording obs).step (s, log) a = .next (s', log ++ obs s a s') := by
        simp only [recording, h]
      exact ⟨_, .step hlog hc hstep⟩

end Machine

section Polls

variable {σ α τ β : Type*}

/-- The answer a thread was given, and the state it was read from. -/
structure Poll (τ σ β : Type*) where
  poller : τ
  during : σ
  answer : β

/-- Run `M` among threads that may read its state between any two steps, as often as they like. -/
def Machine.polled (M : Machine σ α) (τ : Type*) (read : σ → β) :
    Machine (σ × List (Poll τ σ β)) (α ⊕ τ) where
  init s := M.init s.1 ∧ s.2 = []
  step s
    | .inl a =>
        match M.step s.1 a with
        | .blocked => .blocked
        | .abort => .abort
        | .next s' => .next (s', s.2)
    | .inr t => .next (s.1, s.2 ++ [⟨t, s.1, read s.1⟩])

/-- Polls do not disturb a run, and each is answered from a state of it. -/
theorem Machine.reachable_of_polled {M : Machine σ α} {read : σ → β}
    {s : σ × List (Poll τ σ β)} (h : (M.polled τ read).Reachable s) :
    M.Reachable s.1 ∧ ∀ r ∈ s.2, M.Reachable r.during ∧ r.answer = read r.during := by
  induction h with
  | init h =>
      refine ⟨.init h.1, fun r hr => ?_⟩
      rw [h.2] at hr
      cases hr
  | @step s s' a _ _ h ih =>
      obtain ⟨hs, hlog⟩ := ih
      cases a with
      | inl a =>
          simp only [polled] at h
          cases hstep : M.step s.1 a with
          | blocked => simp [hstep] at h
          | abort => simp [hstep] at h
          | next s₁ =>
              simp only [hstep, Outcome.next.injEq] at h
              rw [← h]
              exact ⟨.step hs trivial hstep, hlog⟩
      | inr t =>
          simp only [polled, Outcome.next.injEq] at h
          rw [← h]
          refine ⟨hs, fun r hr => ?_⟩
          rcases List.mem_append.mp hr with hr | hr
          · exact hlog r hr
          · rw [List.mem_singleton.mp hr]
            exact ⟨hs, rfl⟩

end Polls

/-- Every entry of a log is right for the entries before it. -/
def EachAfter {β : Type*} (Q : List β → β → Prop) (log : List β) : Prop :=
  ∀ before b after, log = before ++ b :: after → Q before b

section EachAfter

variable {β : Type*} {Q : List β → β → Prop} {log : List β} {b : β}

theorem EachAfter.nil : EachAfter Q [] := by
  intro before b after heq
  simp at heq

/-- A log is extended entry by entry. -/
theorem EachAfter.concat (h : EachAfter Q log) (hb : Q log b) : EachAfter Q (log ++ [b]) := by
  intro before b' after heq
  rcases List.eq_nil_or_concat after with rfl | ⟨rest, last, rfl⟩
  · obtain ⟨rfl, hlast⟩ := List.append_inj' heq rfl
    cases hlast
    exact hb
  · have hsplit : log ++ [b] = (before ++ b' :: rest) ++ [last] := by simpa using heq
    exact h before b' rest (List.append_inj' hsplit rfl).1

/-- What is right of a log is right of its beginning and of its last entry. -/
theorem EachAfter.of_concat (h : EachAfter Q (log ++ [b])) : EachAfter Q log ∧ Q log b := by
  constructor
  · intro before b' after heq
    exact h before b' (after ++ [b]) (by simp [heq])
  · exact h log b [] rfl

end EachAfter

/-- A list alternates as long as each new element differs from the last one. -/
theorem isChain_ne_concat {β : Type*} {log : List β} {b : β} (h : log.IsChain (· ≠ ·))
    (hb : log.getLast? ≠ some b) : (log ++ [b]).IsChain (· ≠ ·) := by
  rw [List.isChain_append]
  refine ⟨h, List.isChain_singleton b, fun x hx y hy => ?_⟩
  simp only [List.head?_cons, Option.mem_def, Option.some.injEq] at hy
  subst hy
  intro heq
  rw [heq] at hx
  exact hb hx

end Lib
end MultithreadingBible
