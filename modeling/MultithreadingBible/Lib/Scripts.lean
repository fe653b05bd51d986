import MultithreadingBible.Lib.Clients
import MultithreadingBible.Lib.Runs

/-!
# Programs that follow a script

The threads of a program choose what they call.  A script takes these choices from them: from where
a thread is, how far it is in its script and what the memory holds, it says what the thread asks for
next, or that the thread has ended.  What is forgotten of a state, how far the threads are, leaves a
state of the program, and every run by the script is a run of the program.

* `Script` — what the threads ask for.
* `scripted` — a program whose threads follow a script.
* `unscripted` — the state of the program itself.
* `ran_unscripted` — one step by the script is one step of the program.
* `reachable_unscripted` — so what the program keeps, it keeps by every script.
-/

namespace MultithreadingBible
namespace Lib

variable {τ μ κ Λ Φ χ : Type*}

/-- What the threads of a program ask for, one after the other. -/
structure Script (τ μ Λ Φ χ : Type*) where
  /-- What a thread asks for next, or `none` when it has ended. -/
  ask : τ → Λ → Φ → μ → Option χ
  /-- How far a thread is after a step from one location to the next one. -/
  turn : τ → Λ → Λ → Φ → Φ

/-- The threads follow a script. -/
def scripted (P : Program τ μ κ Λ χ) (S : Script τ μ Λ Φ χ) : Program τ μ κ (Λ × Φ) Unit where
  exec t l _ m :=
    match S.ask t l.1 l.2 m with
    | none => .blocked
    | some x =>
        match P.exec t l.1 x m with
        | .blocked => .blocked
        | .abort => .abort
        | .done m' notes st => .done m' notes (st.map fun l' => (l', S.turn t l.1 l' l.2))
  spuriousWakeups := P.spuriousWakeups

/-- A state without how far the threads are. -/
def unscripted (s : Config τ μ κ (Λ × Φ)) : Config τ μ κ Λ where
  mem := s.mem
  thr t := (s.thr t).map Prod.fst

@[simp] theorem unscripted_mem (s : Config τ μ κ (Λ × Φ)) : (unscripted s).mem = s.mem := rfl

@[simp] theorem unscripted_loc (s : Config τ μ κ (Λ × Φ)) (t : τ) :
    ((unscripted s).thr t).loc = (s.thr t).loc.1 := Status.loc_map Prod.fst (s.thr t)

@[simp] theorem unscripted_isWaiting (s : Config τ μ κ (Λ × Φ)) (t : τ) :
    ((unscripted s).thr t).isWaiting = (s.thr t).isWaiting := Status.isWaiting_map Prod.fst (s.thr t)

namespace Status

theorem map_map {Λ' Λ'' : Type*} (f : Λ → Λ') (g : Λ' → Λ'') (st : Status κ Λ) :
    (st.map f).map g = st.map fun l => g (f l) := by
  cases st <;> rfl

@[simp] theorem map_id (st : Status κ Λ) : (st.map fun l => l) = st := by
  cases st <;> rfl

theorem map_eq_waiting {Λ' : Type*} {f : Λ → Λ'} {st : Status κ Λ} {c : κ} {l' : Λ'} :
    st.map f = .waiting c l' ↔ ∃ l, st = .waiting c l ∧ f l = l' := by
  cases st <;> simp [map]

theorem map_eq_running {Λ' : Type*} {f : Λ → Λ'} {st : Status κ Λ} {l' : Λ'} :
    st.map f = .running l' ↔ ∃ l, st = .running l ∧ f l = l' := by
  cases st <;> simp [map]

end Status

section Code

variable {P : Program τ μ κ Λ χ} {S : Script τ μ Λ Φ χ} {t : τ} {l : Λ × Φ} {m m' : μ}
  {notes : List (Note κ)} {st : Status κ (Λ × Φ)}

/-- What a thread does is what it asks for. -/
theorem scripted_done_iff : (scripted P S).exec t l () m = .done m' notes st ↔
    ∃ x st', S.ask t l.1 l.2 m = some x ∧ P.exec t l.1 x m = .done m' notes st' ∧
      st = st'.map fun l' => (l', S.turn t l.1 l' l.2) := by
  simp only [scripted]
  cases hask : S.ask t l.1 l.2 m with
  | none => simp
  | some x =>
      cases hexec : P.exec t l.1 x m with
      | blocked => simp [hexec]
      | abort => simp [hexec]
      | done m₁ notes₁ st₁ =>
          simp only [hexec, Effect.done.injEq, Option.some.injEq]
          constructor
          · rintro ⟨rfl, rfl, rfl⟩
            exact ⟨x, st₁, rfl, hexec, rfl⟩
          · rintro ⟨x', st', rfl, hexec', rfl⟩
            rw [hexec, Effect.done.injEq] at hexec'
            obtain ⟨rfl, rfl, rfl⟩ := hexec'
            exact ⟨rfl, rfl, rfl⟩

/-- A script fails only where the program does. -/
theorem scripted_abort (h : (scripted P S).exec t l () m = .abort) :
    ∃ x, S.ask t l.1 l.2 m = some x ∧ P.exec t l.1 x m = .abort := by
  simp only [scripted] at h
  cases hask : S.ask t l.1 l.2 m with
  | none => simp [hask] at h
  | some x =>
      refine ⟨x, rfl, ?_⟩
      cases hexec : P.exec t l.1 x m with
      | blocked => simp [hask, hexec] at h
      | abort => rfl
      | done m₁ notes₁ st₁ => simp [hask, hexec] at h

end Code

section Runs

variable [DecidableEq τ] {P : Program τ μ κ Λ χ} {S : Script τ μ Λ Φ χ}
  {s s' : Config τ μ κ (Λ × Φ)} {t : τ} {notes : List (Note κ)} {st : Status κ (Λ × Φ)}

omit [DecidableEq τ] in
/-- A delivery does not see how far the threads are. -/
theorem Delivered.map {Λ' : Type*} {thr thr' : τ → Status κ Λ} (f : Λ → Λ')
    (h : Delivered thr notes thr') :
    Delivered (fun u => (thr u).map f) notes fun u => (thr' u).map f where
  change u := by
    rcases h.change u with hsame | ⟨c, l, hw, hn, hmem⟩
    · exact .inl (by rw [hsame])
    · exact .inr ⟨c, f l, by rw [hw]; rfl, by rw [hn]; rfl, hmem⟩
  broadcast c hc u l' hw := by
    obtain ⟨l, hl, -⟩ := Status.map_eq_waiting.mp hw
    exact h.broadcast c hc u l hl
  signal c hc hw := by
    obtain ⟨u, l', hu⟩ := hw
    obtain ⟨l, hl, -⟩ := Status.map_eq_waiting.mp hu
    obtain ⟨v, k, hv, hv'⟩ := h.signal c hc ⟨u, l, hl⟩
    exact ⟨v, f k, by rw [hv]; rfl, by rw [hv']; rfl⟩

/-- **One step** by the script is one step of the program. -/
theorem ran_unscripted (h : (scripted P S).Ran s t () s' notes st) :
    ∃ x st', S.ask t (s.thr t).loc.1 (s.thr t).loc.2 s.mem = some x ∧
      P.Ran (unscripted s) t x (unscripted s') notes st' ∧
      st = st'.map fun l' => (l', S.turn t (s.thr t).loc.1 l' (s.thr t).loc.2) := by
  obtain ⟨x, st', hask, hexec, rfl⟩ := scripted_done_iff.mp h.exec
  refine ⟨x, st', hask, ⟨?_, ?_, ?_⟩, rfl⟩
  · rw [unscripted_isWaiting]
    exact h.awake
  · rw [unscripted_loc]
    exact hexec
  · obtain ⟨thr', hdel, hthr⟩ := h.thr
    refine ⟨_, hdel.map Prod.fst, ?_⟩
    show (fun u => (s'.thr u).map Prod.fst) = _
    rw [hthr, map_update, Status.map_map, Status.map_id]

variable [Fintype τ] [DecidableEq κ] {init : Config τ μ κ (Λ × Φ) → Prop} {init' : Config τ μ κ Λ → Prop}

/-- A step by the script, as the scheduler takes it. -/
theorem step_unscripted {picks : List (Option τ)}
    (h : (scripted P S).step s (.run t () picks) = .next s') :
    ∃ x, P.step (unscripted s) (.run t x picks) = .next (unscripted s') := by
  simp only [Program.step] at h
  split at h
  case isTrue => cases h
  case isFalse haw =>
    cases hexec : (scripted P S).exec t (s.thr t).loc () s.mem with
    | blocked => simp [hexec] at h
    | abort => simp [hexec] at h
    | done m notes st =>
        cases hdel : deliverAll s.thr picks notes with
        | none => simp [hexec, hdel] at h
        | some thr =>
            simp only [hexec, hdel, Outcome.next.injEq] at h
            subst h
            obtain ⟨x, st', -, hexec', rfl⟩ := scripted_done_iff.mp hexec
            refine ⟨x, ?_⟩
            have haw' : ((unscripted s).thr t).isWaiting = false := by
              simpa using haw
            have hexec'' : P.exec t ((unscripted s).thr t).loc x (unscripted s).mem =
              .done m notes st' := by
              rw [unscripted_loc]
              exact hexec'
            have hdel' : deliverAll (unscripted s).thr picks notes = some fun u => (thr u).map Prod.fst :=
              deliverAll_map Prod.fst hdel
            simp only [Program.step, haw', Bool.false_eq_true, if_false, hexec'', hdel']
            show _ = Outcome.next (Config.mk m fun u => (Function.update thr t _ u).map Prod.fst)
            rw [map_update, Status.map_map, Status.map_id]

theorem spurious_unscripted (h : (scripted P S).step s (.spurious t) = .next s') :
    P.step (unscripted s) (.spurious t) = .next (unscripted s') := by
  obtain ⟨hsp, c, l, hw, rfl⟩ := Program.spurious_of_step h
  have hsp' : P.spuriousWakeups = true := hsp
  have hw' : (unscripted s).thr t = .waiting c l.1 := by
    simp [unscripted, hw, Status.map]
  simp only [Program.step, hw', hsp', if_true]
  show _ = Outcome.next (Config.mk s.mem fun u => (Function.update s.thr t _ u).map Prod.fst)
  rw [map_update]
  rfl

/-- **Script rule.**  What is reached by a script is reached by the program. -/
theorem reachable_unscripted (hinit : ∀ s, init s → init' (unscripted s))
    (h : ((scripted P S).machine init).Reachable s) : (P.machine init').Reachable (unscripted s) := by
  induction h with
  | init h => exact .init (hinit _ h)
  | @step s s' a _ _ hstep ih =>
      cases a with
      | run t x picks =>
          obtain ⟨x', hstep'⟩ := step_unscripted hstep
          exact .step (a := .run t x' picks) ih trivial hstep'
      | spurious t => exact .step (a := .spurious t) ih trivial (spurious_unscripted hstep)

/-- Where no step is left, a thread that is awake has ended, or cannot do what it asks for. -/
theorem not_done_of_stuck_script {cond : Config τ μ κ (Λ × Φ) → Act τ Unit → Prop}
    (h : ((scripted P S).machine init).Stuck cond s) (hawake : (s.thr t).isWaiting = false)
    (hc : ∀ picks, cond s (.run t () picks)) {x : χ}
    (hask : S.ask t (s.thr t).loc.1 (s.thr t).loc.2 s.mem = some x) {m : μ} {st' : Status κ Λ} :
    P.exec t (s.thr t).loc.1 x s.mem ≠ .done m notes st' := by
  intro hexec
  exact Program.not_done_of_stuck h hawake hc (scripted_done_iff.mpr ⟨x, st', hask, hexec, rfl⟩)

end Runs

end Lib
end MultithreadingBible
