import MultithreadingBible.Lib.CondVar

/-!
# Programs that use a component

The threads of a client alternate between the code of a component, which may block them, and code of
their own. The client does not touch the memory of the component; it may read it.  What is forgotten
of a client's state, its own memory and the phases its threads are in, leaves a state of the
component, and every run of the client is seen there as a run of the component.

* `Move` — what a thread of a client does in a phase.
* `clientProgram` — a client together with its component.
* `component` — the component's part of a state.
* `component_of_step` — one step of the client is one step of the component or none.
* `reachableUnder_component` — so the component reaches what the client makes of it.
* `blockedInCalls_reachable` — a client blocks in calls only.
-/

namespace MultithreadingBible
namespace Lib

variable {τ μ ν κ Λ Φ χ : Type*}

/-- What a thread of a client does in a phase. -/
inductive Move (μ ν χ Φ : Type*) where
  /-- It carries on in the code of the component, asking for `x`.  When this returns, it is in the
  phase `φ`. -/
  | call (x : χ) (φ : Φ)
  /-- It carries out a piece of code of its own: `none` where an assertion fails. -/
  | own (f : μ → ν → Option (ν × Φ))
  /-- It has ended. -/
  | stop

/-- The code of a client. -/
abbrev Client (τ μ ν χ Φ : Type*) := τ → Φ → Move μ ν χ Φ

namespace Status

/-- A thread that is seen at another location. -/
def map {Λ' : Type*} (f : Λ → Λ') : Status κ Λ → Status κ Λ'
  | .running l => .running (f l)
  | .waiting c l => .waiting c (f l)
  | .notified c l => .notified c (f l)

@[simp] theorem map_running {Λ' : Type*} (f : Λ → Λ') (l : Λ) :
    (running l : Status κ Λ).map f = .running (f l) := rfl

@[simp] theorem isWaiting_map {Λ' : Type*} (f : Λ → Λ') (st : Status κ Λ) :
    (st.map f).isWaiting = st.isWaiting := by
  cases st <;> rfl

@[simp] theorem loc_map {Λ' : Type*} (f : Λ → Λ') (st : Status κ Λ) : (st.map f).loc = f st.loc := by
  cases st <;> rfl

/-- Where a call made in the phase `φ` leaves a thread: in the phase `ψ` if it returned, still in
`φ` if it blocks. -/
def inCall (φ ψ : Φ) : Status κ Λ → Status κ (Λ × Φ)
  | .running l => .running (l, ψ)
  | .waiting c l => .waiting c (l, φ)
  | .notified c l => .notified c (l, φ)

@[simp] theorem map_fst_inCall (φ ψ : Φ) (st : Status κ Λ) : (st.inCall φ ψ).map Prod.fst = st := by
  cases st <;> rfl

@[simp] theorem loc_inCall_fst (φ ψ : Φ) (st : Status κ Λ) : (st.inCall φ ψ).loc.1 = st.loc := by
  cases st <;> rfl

section Wake

variable [DecidableEq κ] {Λ' : Type*}

theorem waitsOn_map (f : Λ → Λ') (c : κ) (st : Status κ Λ) : (st.map f).waitsOn c = st.waitsOn c := by
  cases st <;> rfl

theorem wake_map (f : Λ → Λ') (c : κ) (st : Status κ Λ) : (st.map f).wake c = (st.wake c).map f := by
  cases st with
  | running l => rfl
  | notified c' l => rfl
  | waiting c' l =>
      show (if c' = c then Status.notified c' (f l) else .waiting c' (f l)) =
        (if c' = c then Status.notified c' l else .waiting c' l).map f
      split <;> rfl

end Wake

end Status

section Delivery

variable [DecidableEq τ] [Fintype τ] [DecidableEq κ] {Λ' : Type*}

omit [Fintype τ] [DecidableEq κ] in
theorem map_update (f : Λ → Λ') (thr : τ → Status κ Λ) (t : τ) (st : Status κ Λ) :
    (fun u => (Function.update thr t st u).map f) = Function.update (fun u => (thr u).map f) t
    (st.map f) := by
  ext u
  by_cases hu : u = t
  · rw [hu, Function.update_self, Function.update_self]
  · rw [Function.update_of_ne hu, Function.update_of_ne hu]

/-- Notifications do not see where a thread will resume. -/
theorem deliver_map (f : Λ → Λ') {thr thr' : τ → Status κ Λ} {pick : Option τ} {note : Note κ}
    (h : deliver thr pick note = some thr') :
    deliver (fun t => (thr t).map f) pick note = some fun t => (thr' t).map f := by
  cases note with
  | broadcast c =>
      simp only [deliver, Option.some.injEq] at h ⊢
      rw [← h]
      ext t
      exact Status.wake_map f c (thr t)
  | signal c =>
      cases pick with
      | none =>
          simp only [deliver, Status.waitsOn_map] at h ⊢
          split at h
          case isTrue => cases h
          case isFalse hno =>
            rw [if_neg hno, ← Option.some.inj h]
      | some u =>
          simp only [deliver, Status.waitsOn_map] at h ⊢
          split at h
          case isFalse => cases h
          case isTrue hu =>
            rw [if_pos hu, ← Option.some.inj h, map_update, Status.wake_map]

theorem deliverAll_map (f : Λ → Λ') {notes : List (Note κ)} :
    ∀ {thr thr' : τ → Status κ Λ} {picks : List (Option τ)}, deliverAll thr picks notes = some thr' →
      deliverAll (fun t => (thr t).map f) picks notes = some fun t => (thr' t).map f := by
  induction notes with
  | nil =>
      intro thr thr' picks h
      simp only [deliverAll, Option.some.injEq] at h ⊢
      rw [h]
  | cons note notes ih =>
      intro thr thr' picks h
      simp only [deliverAll, Option.bind_eq_some_iff] at h ⊢
      obtain ⟨thr₁, h₁, h₂⟩ := h
      exact ⟨_, deliver_map f h₁, ih h₂⟩

end Delivery

/-- A client and its component.  The memory is that of the component and that of the client; a
thread is at a location of the component and in a phase of the client. -/
def clientProgram (C : Client τ μ ν χ Φ) (P : Program τ μ κ Λ χ) :
    Program τ (μ × ν) κ (Λ × Φ) Unit where
  exec t l _ m :=
    match C t l.2 with
    | .call x ψ =>
        match P.exec t l.1 x m.1 with
        | .blocked => .blocked
        | .abort => .abort
        | .done m' notes st => .done (m', m.2) notes (st.inCall l.2 ψ)
    | .own f => .call (f m.1 m.2) fun r => .done (m.1, r.1) [] (.running (l.1, r.2))
    | .stop => .blocked
  spuriousWakeups := P.spuriousWakeups

/-- The component's part of a state. -/
def component (s : Config τ (μ × ν) κ (Λ × Φ)) : Config τ μ κ Λ where
  mem := s.mem.1
  thr t := (s.thr t).map Prod.fst

/-- The component at work: only threads in a call of it are blocked. -/
def BlockedInCalls (C : Client τ μ ν χ Φ) (s : Config τ (μ × ν) κ (Λ × Φ)) : Prop :=
  ∀ t, (∃ l, s.thr t = .running l) ∨ ∃ x ψ, C t (s.thr t).loc.2 = .call x ψ

/-- What a piece of a client's code does. -/
inductive ClientRan (C : Client τ μ ν χ Φ) (P : Program τ μ κ Λ χ) (t : τ) (l : Λ × Φ) (m m' : μ × ν) :
    List (Note κ) → Status κ (Λ × Φ) → Prop
  /-- The code of the component is carried out. -/
  | call {x : χ} {ψ : Φ} {notes : List (Note κ)} {st : Status κ Λ} (hphase : C t l.2 = .call x ψ)
      (hexec : P.exec t l.1 x m.1 = .done m'.1 notes st) (hown : m'.2 = m.2) :
      ClientRan C P t l m m' notes (st.inCall l.2 ψ)
  /-- The component is left alone. -/
  | own {f : μ → ν → Option (ν × Φ)} {ψ : Φ} (hphase : C t l.2 = .own f)
      (hcode : f m.1 m.2 = some (m'.2, ψ)) (hmem : m'.1 = m.1) :
      ClientRan C P t l m m' [] (.running (l.1, ψ))

section Code

variable {C : Client τ μ ν χ Φ} {P : Program τ μ κ Λ χ} {t : τ} {l : Λ × Φ} {m m' : μ × ν}
  {notes : List (Note κ)} {st : Status κ (Λ × Φ)}

theorem clientRan_of_exec (h : (clientProgram C P).exec t l () m = .done m' notes st) :
    ClientRan C P t l m m' notes st := by
  simp only [clientProgram] at h
  cases hphase : C t l.2 with
  | call x ψ =>
      simp only [hphase] at h
      cases hexec : P.exec t l.1 x m.1 with
      | blocked => simp [hexec] at h
      | abort => simp [hexec] at h
      | done m₁ notes₁ st₁ =>
          simp only [hexec, Effect.done.injEq] at h
          obtain ⟨rfl, rfl, rfl⟩ := h
          exact .call hphase hexec rfl
  | own f =>
      simp only [hphase, Effect.call_eq_done, Effect.done.injEq] at h
      obtain ⟨⟨n, ψ⟩, hcode, rfl, rfl, rfl⟩ := h
      exact .own hphase hcode rfl
  | stop => simp [hphase] at h

/-- A client fails where its component does or where its own code does. -/
theorem client_abort (h : (clientProgram C P).exec t l () m = .abort) :
    (∃ x ψ, C t l.2 = .call x ψ ∧ P.exec t l.1 x m.1 = .abort) ∨
      ∃ f, C t l.2 = .own f ∧ f m.1 m.2 = none := by
  simp only [clientProgram] at h
  cases hphase : C t l.2 with
  | call x ψ =>
      simp only [hphase] at h
      cases hexec : P.exec t l.1 x m.1 with
      | blocked => simp [hexec] at h
      | abort => exact .inl ⟨x, ψ, rfl, hexec⟩
      | done m₁ notes₁ st₁ => simp [hexec] at h
  | own f =>
      simp only [hphase, Effect.call_eq_abort] at h
      rcases h with h | ⟨r, -, h⟩
      · exact .inr ⟨f, rfl, h⟩
      · cases h
  | stop => simp [hphase] at h

end Code

section Runs

variable [DecidableEq τ] [Fintype τ] [DecidableEq κ] {C : Client τ μ ν χ Φ} {P : Program τ μ κ Λ χ}
  {s s' : Config τ (μ × ν) κ (Λ × Φ)} {init : Config τ (μ × ν) κ (Λ × Φ) → Prop}
  {init' : Config τ μ κ Λ → Prop}

omit [Fintype τ] [DecidableEq κ] in
theorem component_update (m : μ × ν) (thr : τ → Status κ (Λ × Φ)) (t : τ) (st : Status κ (Λ × Φ)) :
    component ⟨m, Function.update thr t st⟩ =
      ⟨m.1, Function.update (fun u => (thr u).map Prod.fst) t (st.map Prod.fst)⟩ := by
  rw [← map_update]
  rfl

/-- **One step** of a thread of the client is a step of the component, or leaves the component as it
is. -/
theorem component_of_step (hin : BlockedInCalls C s) {t : τ} {picks : List (Option τ)}
    (h : (clientProgram C P).step s (.run t () picks) = .next s') :
    (∃ x, P.step (component s) (.run t x picks) = .next (component s')) ∨ component s' = component s := by
  simp only [Program.step] at h
  split at h
  case isTrue => cases h
  case isFalse haw =>
    cases hexec : (clientProgram C P).exec t (s.thr t).loc () s.mem with
    | blocked => simp [hexec] at h
    | abort => simp [hexec] at h
    | done m notes st =>
        cases hdel : deliverAll s.thr picks notes with
        | none => simp [hexec, hdel] at h
        | some thr =>
            simp only [hexec, hdel, Outcome.next.injEq] at h
            subst h
            have hcase := clientRan_of_exec hexec
            generalize hl : (s.thr t).loc = l at hcase
            cases hcase with
            | @call x ψ notes st hphase hexec' hown =>
                refine .inl ⟨x, ?_⟩
                have haw' : ((component s).thr t).isWaiting = false := by
                  simpa [component] using haw
                have hloc : ((component s).thr t).loc = l.1 := by
                  rw [← hl]
                  exact Status.loc_map Prod.fst (s.thr t)
                have hmap := deliverAll_map Prod.fst hdel
                have hexec'' : P.exec t l.1 x (component s).mem = .done m.1 notes st := hexec'
                have hdel' : deliverAll (component s).thr picks notes =
                    some fun u => (thr u).map Prod.fst := hmap
                rw [component_update, Status.map_fst_inCall]
                simp only [Program.step, haw', Bool.false_eq_true, if_false, hloc, hexec'', hdel']
            | @own f ψ hphase hcode hmem =>
                refine .inr ?_
                have hthr : thr = s.thr := by
                  simpa [deliverAll, eq_comm] using hdel
                -- the thread was not blocked in a call, so it was running
                have hrun : ∃ l, s.thr t = .running l := by
                  rcases hin t with hrun | ⟨x, ψ, hcall⟩
                  · exact hrun
                  · rw [hl, hphase] at hcall
                    cases hcall
                obtain ⟨l', hl'⟩ := hrun
                rw [hl', Status.loc_running] at hl
                subst hl
                have hsame : Function.update (component s).thr t (.running l'.1) = (component s).thr := by
                  rw [Function.update_eq_self_iff]
                  simp [component, hl']
                rw [component_update, hthr, hmem]
                exact congrArg (Config.mk s.mem.1) hsame

theorem component_of_spurious {t : τ} (h : (clientProgram C P).step s (.spurious t) = .next s') :
    P.step (component s) (.spurious t) = .next (component s') := by
  obtain ⟨hsp, c, l, hw, rfl⟩ := Program.spurious_of_step h
  have hsp' : P.spuriousWakeups = true := hsp
  have hw' : (component s).thr t = .waiting c l.1 := by
    simp [component, hw, Status.map]
  rw [component_update]
  simp only [Program.step, hw', hsp', if_true]
  rfl

/-- A thread stays in its call while it is blocked. -/
theorem BlockedInCalls.step (hin : BlockedInCalls C s) {a : Act τ Unit}
    (h : (clientProgram C P).step s a = .next s') : BlockedInCalls C s' := by
  cases a with
  | run t x picks =>
      obtain ⟨notes, st, hran⟩ := Program.ran_of_step h
      intro u
      by_cases hu : u = t
      · subst hu
        have hcase := clientRan_of_exec hran.exec
        rw [hran.self]
        cases hcase with
        | @call x ψ notes st hphase hexec hown =>
            cases st with
            | running l => exact .inl ⟨(l, ψ), rfl⟩
            | waiting c l => exact .inr ⟨x, ψ, hphase⟩
            | notified c l => exact .inr ⟨x, ψ, hphase⟩
        | own hphase hcode hmem => exact .inl ⟨_, rfl⟩
      · rcases hran.other hu with hsame | ⟨c, l, hw, hn, -⟩
        · rw [hsame]
          exact hin u
        · rcases hin u with ⟨l', hl'⟩ | hcall
          · rw [hw] at hl'
            cases hl'
          · rw [hw] at hcall
            rw [hn]
            exact .inr hcall
  | spurious t =>
      obtain ⟨-, c, l, hw, rfl⟩ := Program.spurious_of_step h
      intro u
      rcases hin u with hrun | hcall
      · left
        obtain ⟨l', hl'⟩ := hrun
        have hut : u ≠ t := by
          rintro rfl
          rw [hw] at hl'
          cases hl'
        refine ⟨l', ?_⟩
        dsimp only
        rw [Function.update_of_ne hut, hl']
      · right
        dsimp only
        rw [loc_update_notified hw]
        exact hcall

/-- A client blocks in calls only. -/
theorem blockedInCalls_reachable (hinit : ∀ s, init s → ∀ t, ∃ l, s.thr t = .running l)
    (h : ((clientProgram C P).machine init).Reachable s) : BlockedInCalls C s := by
  apply h.invariant
  · intro s hs t
    exact .inl (hinit s hs t)
  · intro s a s' hin _ hstep
    exact hin.step hstep

/-- **Component rule.**  In every run of a client the component goes through one of its own runs,
whose steps satisfy `cond` if those the client makes it take do. -/
theorem reachableUnder_component {cond : Config τ μ κ Λ → Act τ χ → Prop}
    (hinit : ∀ s, init s → (∀ t, ∃ l, s.thr t = .running l) ∧ init' (component s))
    (hcond : ∀ (s s' : Config τ (μ × ν) κ (Λ × Φ)) a, ((clientProgram C P).machine init).Reachable s' →
      P.step (component s) a = .next (component s') → cond (component s) a)
    (h : ((clientProgram C P).machine init).Reachable s) :
    (P.machine init').ReachableUnder cond (component s) := by
  induction h with
  | init h => exact .init (hinit _ h).2
  | @step s s' a hs hc hstep ih =>
      have hs' : ((clientProgram C P).machine init).Reachable s' := .step hs hc hstep
      cases a with
      | run t x picks =>
          have hin := blockedInCalls_reachable (fun s hs => (hinit s hs).1) hs
          rcases component_of_step hin hstep with ⟨x', hstep'⟩ | hsame
          · exact .step ih (hcond s s' _ hs' hstep') hstep'
          · rw [hsame]
            exact ih
      | spurious t =>
          have hstep' := component_of_spurious hstep
          exact .step ih (hcond s s' _ hs' hstep') hstep'

/-- The rule where the component may take any step. -/
theorem reachable_component
    (hinit : ∀ s, init s → (∀ t, ∃ l, s.thr t = .running l) ∧ init' (component s))
    (h : ((clientProgram C P).machine init).Reachable s) : (P.machine init').Reachable (component s) :=
  reachableUnder_component hinit (fun _ _ _ _ _ => trivial) h

end Runs

end Lib
end MultithreadingBible
