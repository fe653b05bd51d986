import Mathlib.Tactic.Common

/-!
# Machines with guarded, possibly aborting steps

A machine is a set of initial states and a step function on labelled actions.  A step is either
`blocked` (the action is not enabled: a mutex is taken, a thread sleeps), `abort` (an assertion of
the modelled program failed, which ends the process), or leads to a `next` state.

`ReachableUnder cond` collects the states of all runs every step of which satisfies `cond` in the
state it is taken from.  `Reachable` is the unconditional case.  An aborting step leads nowhere, so
"no assertion fails" is the statement that no reachable state has an aborting action.
-/

namespace MultithreadingBible
namespace Lib

/-- What one scheduled action does. -/
inductive Outcome (σ : Type*) where
  /-- The action is not enabled. -/
  | blocked
  /-- An assertion fails and the process ends. -/
  | abort
  /-- The action is carried out. -/
  | next (s : σ)

namespace Outcome

variable {σ : Type*}

/-- The successor state satisfies a test. -/
def holds (p : σ → Bool) : Outcome σ → Bool
  | .next s => p s
  | _ => false

/-- The action aborts the process. -/
def isAbort : Outcome σ → Bool
  | .abort => true
  | _ => false

/-- The next action, taken where the previous one ended. -/
def bind (o : Outcome σ) (f : σ → Outcome σ) : Outcome σ :=
  match o with
  | .blocked => .blocked
  | .abort => .abort
  | .next s => f s

theorem holds_iff {p : σ → Bool} {o : Outcome σ} :
    o.holds p = true ↔ ∃ s, o = .next s ∧ p s = true := by
  cases o with
  | blocked => simp [holds]
  | abort => simp [holds]
  | next s => simp [holds]

theorem isAbort_iff {o : Outcome σ} : o.isAbort = true ↔ o = .abort := by
  cases o <;> simp [isAbort]

end Outcome

/-- Initial states and a step function on labelled actions. -/
structure Machine (σ α : Type*) where
  init : σ → Prop
  step : σ → α → Outcome σ

namespace Machine

variable {σ α : Type*}

/-- States reached by runs all of whose steps satisfy `cond` in the state they are taken from. -/
inductive ReachableUnder (M : Machine σ α) (cond : σ → α → Prop) : σ → Prop
  | init {s : σ} (h : M.init s) : ReachableUnder M cond s
  | step {s s' : σ} {a : α} (hs : ReachableUnder M cond s) (hc : cond s a)
      (h : M.step s a = .next s') : ReachableUnder M cond s'

/-- States reached by any run. -/
def Reachable (M : Machine σ α) : σ → Prop :=
  M.ReachableUnder fun _ _ => True

/-- **Invariant rule.**  What holds initially and is preserved by every admitted step holds in
every state reached. -/
theorem ReachableUnder.invariant {M : Machine σ α} {cond : σ → α → Prop} {I : σ → Prop}
    (hinit : ∀ s, M.init s → I s)
    (hstep : ∀ s a s', I s → cond s a → M.step s a = .next s' → I s')
    {s : σ} (h : M.ReachableUnder cond s) : I s := by
  induction h with
  | init h => exact hinit _ h
  | step _ hc h ih => exact hstep _ _ _ ih hc h

/-- An invariant proved earlier may be used to prove the next one. -/
theorem ReachableUnder.invariant_of {M : Machine σ α} {cond : σ → α → Prop} {J I : σ → Prop}
    (hJ : ∀ s, M.ReachableUnder cond s → J s)
    (hinit : ∀ s, M.init s → I s)
    (hstep : ∀ s a s', J s → I s → cond s a → M.step s a = .next s' → I s')
    {s : σ} (h : M.ReachableUnder cond s) : I s := by
  induction h with
  | init h => exact hinit _ h
  | step hs hc h ih => exact hstep _ _ _ (hJ _ hs) ih hc h

/-- A weaker condition on the steps admits more runs. -/
theorem ReachableUnder.mono {M : Machine σ α} {cond cond' : σ → α → Prop}
    (hcc : ∀ s a, cond s a → cond' s a) {s : σ} (h : M.ReachableUnder cond s) :
    M.ReachableUnder cond' s := by
  induction h with
  | init h => exact .init h
  | step _ hc h ih => exact .step ih (hcc _ _ hc) h

theorem ReachableUnder.reachable {M : Machine σ α} {cond : σ → α → Prop} {s : σ}
    (h : M.ReachableUnder cond s) : M.Reachable s :=
  h.mono fun _ _ _ => trivial

/-- Carry out a list of actions, checking a condition before each of them. -/
def execUnder (M : Machine σ α) (cond : σ → α → Bool) : σ → List α → Outcome σ
  | s, [] => .next s
  | s, a :: rest =>
      if cond s a then (M.step s a).bind fun s' => execUnder M cond s' rest else .blocked

/-- Carry out a list of actions. -/
def exec (M : Machine σ α) : σ → List α → Outcome σ :=
  M.execUnder fun _ _ => true

@[simp] theorem exec_nil (M : Machine σ α) (s : σ) : M.exec s [] = .next s := rfl

@[simp] theorem exec_cons (M : Machine σ α) (s : σ) (a : α) (as : List α) :
    M.exec s (a :: as) = (M.step s a).bind fun s' => M.exec s' as := rfl

/-- A list of actions is carried out piece by piece. -/
theorem exec_append (M : Machine σ α) (s : σ) (as bs : List α) :
    M.exec s (as ++ bs) = (M.exec s as).bind fun s' => M.exec s' bs := by
  induction as generalizing s with
  | nil => rfl
  | cons a as ih =>
      rw [List.cons_append, exec_cons, exec_cons]
      cases M.step s a with
      | blocked => rfl
      | abort => rfl
      | next s₁ => exact ih s₁

/-- A computed run is a run. -/
theorem reachableUnder_of_execUnder {M : Machine σ α} {cond : σ → α → Bool} {as : List α} :
    ∀ {s s' : σ}, (M.ReachableUnder fun s a => cond s a = true) s →
      M.execUnder cond s as = .next s' → (M.ReachableUnder fun s a => cond s a = true) s' := by
  induction as with
  | nil =>
      intro s s' hs h
      simp only [execUnder, Outcome.next.injEq] at h
      exact h ▸ hs
  | cons a rest ih =>
      intro s s' hs h
      simp only [execUnder] at h
      split at h
      case isTrue hc =>
        cases hstep : M.step s a with
        | blocked => simp [hstep, Outcome.bind] at h
        | abort => simp [hstep, Outcome.bind] at h
        | next s₁ =>
            simp only [hstep, Outcome.bind] at h
            exact ih (.step hs hc hstep) h
      case isFalse => simp at h

theorem reachable_of_exec {M : Machine σ α} {as : List α} {s s' : σ} (hs : M.init s)
    (h : M.exec s as = .next s') : M.Reachable s' :=
  (reachableUnder_of_execUnder (.init hs) h).mono fun _ _ _ => trivial

/-- A computed run whose last state passes a test shows a reachable state that passes it. -/
theorem exists_reachable_of_exec {M : Machine σ α} {as : List α} {s : σ} {p : σ → Bool}
    (hs : M.init s) (h : (M.exec s as).holds p = true) : ∃ s', M.Reachable s' ∧ p s' = true := by
  obtain ⟨s', hs', hp⟩ := Outcome.holds_iff.mp h
  exact ⟨s', reachable_of_exec hs hs', hp⟩

end Machine

end Lib
end MultithreadingBible
