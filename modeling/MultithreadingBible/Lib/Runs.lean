import MultithreadingBible.Lib.CondVar

/-!
# Runs that end

A machine need not run for ever.  Where every state has a rank that each step lowers, no run is
longer than the rank of the state it starts in.

* `Outcome.map` — what a step leaves, as a part of something larger.
* `Runs` — runs with their number of steps.
* `Stuck` — no step is left.
* `Ends` — all runs are short, and those that cannot go on are where they should be.
* `Ends.of_rank` — the rule: a rank that steps lower, and what holds where none is left.
* `Reachable.simulate` — the rule for two machines: what one reaches, the other reaches too.
* `weigh` — a weight for the status of each thread; `Program.weighed_of_step` says how a step
  changes the sum, when each signal it sends makes at most one thread heavier.
-/

namespace MultithreadingBible
namespace Lib

/-- What a step leaves, made into something else. -/
def Outcome.map {σ ρ : Type*} (f : σ → ρ) : Outcome σ → Outcome ρ
  | .blocked => .blocked
  | .abort => .abort
  | .next s => .next (f s)

namespace Machine

variable {σ α : Type*}

/-- A run of some number of steps, each of which satisfies `cond` in the state it is taken from. -/
inductive Runs (M : Machine σ α) (cond : σ → α → Prop) : σ → Nat → σ → Prop
  | nil (s : σ) : Runs M cond s 0 s
  | snoc {s s₁ s' : σ} {n : Nat} {a : α} (h : Runs M cond s n s₁) (hc : cond s₁ a)
      (hstep : M.step s₁ a = .next s') : Runs M cond s (n + 1) s'

/-- No step that satisfies `cond` is possible. -/
def Stuck (M : Machine σ α) (cond : σ → α → Prop) (s : σ) : Prop :=
  ∀ a s', cond s a → M.step s a ≠ .next s'

/-- All runs from `s` have at most `bound` steps, and those that cannot go on have ended where
`good` holds. -/
structure Ends (M : Machine σ α) (cond : σ → α → Prop) (s : σ) (bound : Nat) (good : σ → Prop) :
    Prop where
  bounded : ∀ n s', M.Runs cond s n s' → n ≤ bound
  final : ∀ n s', M.Runs cond s n s' → M.Stuck cond s' → good s'

variable {M : Machine σ α} {cond : σ → α → Prop} {s s' : σ} {n : Nat} {good : σ → Prop}

namespace Runs

/-- **Rank rule.**  Where every step lowers the rank, a run has no more steps than the rank went down. -/
theorem rank_le {R : σ → Nat → Prop}
    (hstep : ∀ s a s' k, R s k → cond s a → M.step s a = .next s' → ∃ k', k' < k ∧ R s' k')
    (h : M.Runs cond s n s') {k : Nat} (hs : R s k) : ∃ k', n + k' ≤ k ∧ R s' k' := by
  induction h with
  | nil => exact ⟨k, by omega, hs⟩
  | snoc _ hc hnext ih =>
      obtain ⟨k₁, hle, hk₁⟩ := ih
      obtain ⟨k', hlt, hk'⟩ := hstep _ _ _ _ hk₁ hc hnext
      exact ⟨k', by omega, hk'⟩

end Runs

/-- **Simulation rule.**  When every step of a machine from related states is also a step of another
one, to related states again, all that the first machine reaches is related to something the second
one reaches. -/
theorem Reachable.simulate {τ β : Type*} {N : Machine τ β} {R : σ → τ → Prop}
    (hinit : ∀ s, M.init s → ∃ t, N.init t ∧ R s t)
    (hstep : ∀ s a s' t, R s t → N.Reachable t → M.step s a = .next s' →
      ∃ b t', N.step t b = .next t' ∧ R s' t')
    (hs : M.Reachable s) : ∃ t, N.Reachable t ∧ R s t := by
  induction hs with
  | init h =>
      obtain ⟨t, ht, hR⟩ := hinit _ h
      exact ⟨t, .init ht, hR⟩
  | step _ _ h ih =>
      obtain ⟨t, ht, hR⟩ := ih
      obtain ⟨b, t', hnext, hR'⟩ := hstep _ _ _ t hR ht h
      exact ⟨t', .step ht trivial hnext, hR'⟩

namespace Ends

/-- **How to show that all runs end well.** -/
theorem of_rank {R : σ → Nat → Prop}
    (hstep : ∀ s a s' k, R s k → cond s a → M.step s a = .next s' → ∃ k', k' < k ∧ R s' k')
    (hfinal : ∀ s k, R s k → M.Stuck cond s → good s) {k : Nat} (hs : R s k) :
    M.Ends cond s k good where
  bounded n s' h := by
    obtain ⟨k', hle, -⟩ := h.rank_le hstep hs
    omega
  final n s' h hstuck := by
    obtain ⟨k', -, hk'⟩ := h.rank_le hstep hs
    exact hfinal s' k' hk' hstuck

end Ends

end Machine

section Weights

variable {τ κ Λ : Type*} [Fintype τ]

/-- The sum of the weights of all threads. -/
def weigh (thr : τ → Status κ Λ) (w : τ → Status κ Λ → Nat) : Nat := ∑ t, w t (thr t)

variable [DecidableEq τ]

/-- One thread takes a new status. -/
theorem weigh_update (thr : τ → Status κ Λ) (w : τ → Status κ Λ → Nat) (t : τ) (st : Status κ Λ) :
    weigh (Function.update thr t st) w + w t (thr t) = weigh thr w + w t st := by
  have hold := Finset.add_sum_erase Finset.univ (fun u => w u (thr u)) (Finset.mem_univ t)
  have hnew := Finset.add_sum_erase Finset.univ (fun u => w u (Function.update thr t st u))
    (Finset.mem_univ t)
  have hrest : ∑ u ∈ Finset.univ.erase t, w u (Function.update thr t st u) =
      ∑ u ∈ Finset.univ.erase t, w u (thr u) := by
    refine Finset.sum_congr rfl fun u hu => ?_
    rw [Function.update_of_ne (Finset.ne_of_mem_erase hu)]
  rw [Function.update_self, hrest] at hnew
  unfold weigh
  omega

variable [DecidableEq κ]

/-- Each of the signals wakes one thread at most. -/
theorem weigh_deliverAll {w : τ → Status κ Λ → Nat} {g : Nat} {notes : List (Note κ)} :
    ∀ {thr thr' : τ → Status κ Λ} {picks : List (Option τ)},
      (∀ note ∈ notes, ∃ c, note = .signal c ∧
        ∀ u l, thr u = .waiting c l → w u (.notified c l) ≤ w u (.waiting c l) + g) →
      deliverAll thr picks notes = some thr' → weigh thr' w ≤ weigh thr w + g * notes.length := by
  induction notes with
  | nil =>
      intro thr thr' picks _ h
      simp only [deliverAll, Option.some.injEq] at h
      subst h
      simp
  | cons note notes ih =>
      intro thr thr' picks hsignal h
      simp only [deliverAll, Option.bind_eq_some_iff] at h
      obtain ⟨thr₁, h₁, h₂⟩ := h
      obtain ⟨c, rfl, hg⟩ := hsignal note (by simp)
      have hrest := ih (fun n hn => by
        obtain ⟨c', hc', hg'⟩ := hsignal n (by simp [hn])
        exact ⟨c', hc', fun u l hu => hg' u l ((delivered_of_deliver h₁).waiting hu)⟩) h₂
      have hone : weigh thr₁ w ≤ weigh thr w + g := by
        rcases pick_of_deliver h₁ with ⟨-, -, heq⟩ | ⟨u, l, -, hu, heq⟩
        · rw [heq]
          omega
        · have hupd := weigh_update thr w u (.notified c l)
          rw [hu, ← heq] at hupd
          have := hg u l hu
          omega
      rw [List.length_cons, Nat.mul_succ]
      omega

end Weights

namespace Program

variable {τ μ κ Λ χ : Type*} [DecidableEq τ] [Fintype τ] [DecidableEq κ]
  {P : Program τ μ κ Λ χ} {init : Config τ μ κ Λ → Prop} {s : Config τ μ κ Λ}
  {cond : Config τ μ κ Λ → Act τ χ → Prop}

/-- **Weight rule.**  A step puts the weight of the new status of the thread in the place of the old
one, and every signal sent adds at most the gain of one thread it wakes. -/
theorem weighed_of_step {t : τ} {x : χ} {picks : List (Option τ)} {s' : Config τ μ κ Λ}
    (h : P.step s (.run t x picks) = .next s') :
    ∃ notes st, P.Ran s t x s' notes st ∧ ∀ (w : τ → Status κ Λ → Nat) (g : Nat),
      (∀ note ∈ notes, ∃ c, note = .signal c ∧
        ∀ u l, s.thr u = .waiting c l → w u (.notified c l) ≤ w u (.waiting c l) + g) →
        weigh s'.thr w + w t (s.thr t) ≤ weigh s.thr w + w t st + g * notes.length := by
  obtain ⟨notes, st, hran⟩ := ran_of_step h
  refine ⟨notes, st, hran, fun w g hsignal => ?_⟩
  have haw := hran.awake
  simp only [step, haw, Bool.false_eq_true, if_false, hran.exec] at h
  cases hdel : deliverAll s.thr picks notes with
  | none => simp [hdel] at h
  | some thr =>
      simp only [hdel, Outcome.next.injEq] at h
      have hsum := weigh_deliverAll hsignal hdel
      have hupd := weigh_update thr w t st
      -- the thread that moves was not waiting, so no signal reached it
      have hself : thr t = s.thr t := by
        rcases (delivered_of_deliverAll hdel).change t with hsame | ⟨c, l, hw, -⟩
        · exact hsame
        · rw [hw] at haw
          cases haw
      rw [hself] at hupd
      rw [← h]
      show weigh (Function.update thr t st) w + w t (s.thr t) ≤ _
      omega

omit [DecidableEq κ] in
/-- A step wakes each thread at most once. -/
theorem Ran.weigh_le {s' : Config τ μ κ Λ} {t : τ} {x : χ} {notes : List (Note κ)} {st : Status κ Λ}
    (h : P.Ran s t x s' notes st) (w : τ → Status κ Λ → Nat) {g : Nat}
    (hgain : ∀ u c l, w u (.notified c l) ≤ w u (.waiting c l) + g) :
    weigh s'.thr w + w t (s.thr t) ≤ weigh s.thr w + w t st + g * Fintype.card τ := by
  obtain ⟨thr', hdel, hthr⟩ := h.thr
  have hupd := weigh_update thr' w t st
  have hself : thr' t = s.thr t := by
    rcases hdel.change t with hsame | ⟨c, l, hw, -⟩
    · exact hsame
    · have haw := h.awake
      rw [hw] at haw
      cases haw
  have hwoken : weigh thr' w ≤ weigh s.thr w + g * Fintype.card τ := by
    have hone : ∀ u ∈ Finset.univ, w u (thr' u) ≤ w u (s.thr u) + g := by
      intro u _
      rcases hdel.change u with hsame | ⟨c, l, hw, hn, -⟩
      · rw [hsame]
        omega
      · rw [hw, hn]
        exact hgain u c l
    have hsum := Finset.sum_le_sum hone
    rwa [Finset.sum_add_distrib, Finset.sum_const_nat fun _ _ => rfl, Finset.card_univ,
      Nat.mul_comm] at hsum
  rw [hself] at hupd
  rw [hthr]
  omega

omit [DecidableEq κ] in
/-- Where nothing is sent, only the weight of the thread that moves changes. -/
theorem Ran.weigh_of_nil {s' : Config τ μ κ Λ} {t : τ} {x : χ} {st : Status κ Λ}
    (h : P.Ran s t x s' [] st) (w : τ → Status κ Λ → Nat) :
    weigh s'.thr w + w t (s.thr t) = weigh s.thr w + w t st := by
  rw [h.thr_of_nil]
  exact weigh_update s.thr w t st

omit [DecidableEq κ] in
/-- A weight that depends on where the threads are changes at the thread that moves. -/
theorem Ran.weigh_loc {s' : Config τ μ κ Λ} {t : τ} {x : χ} {notes : List (Note κ)} {st : Status κ Λ}
    (h : P.Ran s t x s' notes st) (w : τ → Λ → Nat) :
    weigh s'.thr (fun u st => w u st.loc) + w t (s.thr t).loc =
      weigh s.thr (fun u st => w u st.loc) + w t st.loc := by
  obtain ⟨thr', hdel, hthr⟩ := h.thr
  have hupd := weigh_update thr' (fun u st => w u st.loc) t st
  have hsame : weigh thr' (fun u st => w u st.loc) = weigh s.thr (fun u st => w u st.loc) := by
    refine Finset.sum_congr rfl fun u _ => ?_
    show w u (thr' u).loc = w u (s.thr u).loc
    rw [hdel.loc]
  rw [hdel.loc, hsame] at hupd
  rw [hthr, hupd]

/-- Where no step is left, a thread that is awake has no code it could carry out. -/
theorem not_done_of_stuck (h : (P.machine init).Stuck cond s) {t : τ} {x : χ}
    (hawake : (s.thr t).isWaiting = false) (hc : ∀ picks, cond s (.run t x picks)) {m : μ}
    {notes : List (Note κ)} {st : Status κ Λ} : P.exec t (s.thr t).loc x s.mem ≠ .done m notes st := by
  intro hexec
  obtain ⟨picks, s', hstep⟩ := exists_step_of_exec hawake hexec
  exact h _ s' (hc picks) hstep

end Program

end Lib
end MultithreadingBible
