import MultithreadingBible.Lib.Clients
import MultithreadingBible.Lib.Runs
import MultithreadingBible.RwLocks.Machine

/-!
# The test programs of the reader-writer locks

Each of the locks comes with a program in which reader and writer threads lock and unlock for ever.
In between they count themselves in `n_r` or `n_w`, check that what these counters say is allowed,
and count themselves out.  The programs differ in the lock, in what they check, and in whether the
writers change `n_w` under `state_check_mutex`.

* `Test` — what differs.
* `testThread` — the threads, phase by phase.
* `Calls` — where a lock has its threads while they lock, hold and unlock it.
* `TestInv` — the invariant: `n_r` and `n_w` count the threads between their increment and their
  decrement.
* `TestOk` — what the programs are there to check.

The counters are integers: a program has fewer than `2 ^ 31` threads.
-/

namespace MultithreadingBible
namespace LockTests

open Lib
open RwLocks (Access)

/-- `n_r` and `n_w` -/
abbrev Counters := Access → Int

/-- Where a thread is in its round. -/
inductive Phase where
  /-- In `rw_lock_rd_lock` or `rw_lock_wr_lock`. -/
  | locking
  /-- In `reader_enter_cs` or `writer_enter_cs`. -/
  | entering
  /-- There, between reading and writing the counter. -/
  | adding (seen : Int)
  /-- In `execute_cs`. -/
  | checking
  /-- In `reader_leave_cs` or `writer_leave_cs`. -/
  | leaving
  /-- There, between reading and writing the counter. -/
  | subtracting (seen : Int)
  /-- In `rw_lock_unlock`. -/
  | unlocking
  deriving DecidableEq

/-- What differs between the test programs. -/
structure Test (μ χ : Type*) where
  /-- `rw_lock_rd_lock` and `rw_lock_wr_lock` -/
  lock : Access → χ
  /-- `rw_lock_unlock` -/
  unlock : χ
  /-- The assertions of `cs_status_check`. -/
  csStatusCheck : μ → Counters → Bool
  /-- Whether the counter is changed under `state_check_mutex`. -/
  guarded : Access → Bool

/-- `n_r++`, `n_w++`, `n_r--` and `n_w--` -/
def change (n : Counters) (k : Access) (d : Int) : Counters :=
  Function.update n k (n k + d)

section Code

variable {τ μ χ : Type*}

/-- `reader_enter_cs`, `writer_enter_cs`, `reader_leave_cs` and `writer_leave_cs`: without the mutex
the counter is read in one step and written in another. -/
def Test.count (T : Test μ χ) (k : Access) (d : Int) (halfway : Int → Phase) (after : Phase)
    (n : Counters) :
    Counters × Phase :=
  if T.guarded k then (change n k d, after) else (n, halfway (n k))

/-- `read_thread_fn` and `write_thread_fn` -/
def testThread (T : Test μ χ) (role : τ → Access) : Client τ μ Counters χ Phase := fun t φ =>
  match φ with
  | .locking => .call (T.lock (role t)) .entering
  | .entering => .own fun _ n => some (T.count (role t) 1 .adding .checking n)
  | .adding seen => .own fun _ n => some (Function.update n (role t) (seen + 1), .checking)
  | .checking => .own fun m n => if T.csStatusCheck m n then some (n, .leaving) else none
  | .leaving => .own fun _ n => some (T.count (role t) (-1) .subtracting .unlocking n)
  | .subtracting seen => .own fun _ n => some (Function.update n (role t) (seen + -1), .unlocking)
  | .unlocking => .call T.unlock .locking

end Code

abbrev TestConfig (τ μ κ Λ : Type*) := Config τ (μ × Counters) κ (Λ × Phase)

/-- The test program for the lock `m`, whose threads start at `l`. -/
def testMachine {τ μ κ Λ χ : Type*} [DecidableEq τ] [Fintype τ] [DecidableEq κ] (P : Program τ μ κ Λ χ)
    (T : Test μ χ) (role : τ → Access) (m : μ) (l : Λ) : Machine (TestConfig τ μ κ Λ) (Act τ Unit) :=
  (clientProgram (testThread T role) P).machine fun s =>
    s.mem = (m, fun _ => 0) ∧ ∀ t, s.thr t = .running (l, .locking)

/-- A test program before its threads have done anything. -/
def testStart (τ κ : Type*) {μ Λ : Type*} (m : μ) (l : Λ) : TestConfig τ μ κ Λ :=
  ⟨(m, fun _ => 0), fun _ => .running (l, .locking)⟩

theorem testStart_init {τ μ κ Λ χ : Type*} [DecidableEq τ] [Fintype τ] [DecidableEq κ]
    {P : Program τ μ κ Λ χ}
    {T : Test μ χ} {role : τ → Access} {m : μ} {l : Λ} :
    (testMachine P T role m l).init (testStart τ κ m l) :=
  ⟨rfl, fun _ => rfl⟩

namespace Phase

/-- The thread has locked and not unlocked yet. -/
def inCs : Phase → Bool
  | .locking => false
  | _ => true

/-- The thread is counted. -/
def counted : Phase → Bool
  | .checking | .leaving | .subtracting _ => true
  | _ => false

/-- The value of the counter that the thread has read. -/
def seen : Phase → Option Int
  | .adding v | .subtracting v => some v
  | _ => none

theorem inCs_of_counted {φ : Phase} (h : φ.counted = true) : φ.inCs = true := by
  cases φ <;> first | rfl | cases h

theorem inCs_of_seen {φ : Phase} {v : Int} (h : φ.seen = some v) : φ.inCs = true := by
  cases φ <;> first | rfl | cases h

end Phase

/-- Where a lock has its threads. -/
structure Calls {τ μ κ Λ χ : Type*} (P : Program τ μ κ Λ χ) (T : Test μ χ) where
  /-- Outside all calls, without the lock. -/
  idle : Λ
  /-- In the wait of a call that asks for `k`. -/
  waits : Access → Λ → Prop
  /-- In possession of the lock. -/
  held : Access → Λ
  lock_done : ∀ t l k m m' notes st, l = idle ∨ waits k l →
    P.exec t l (T.lock k) m = .done m' notes st →
      (∃ c l', st = .waiting c l' ∧ waits k l') ∨ st = .running (held k)
  unlock_done : ∀ t k m m' notes st, P.exec t (held k) T.unlock m = .done m' notes st → st = .running idle

section Own

variable {τ μ χ : Type*} {T : Test μ χ} {role : τ → Access} {t : τ} {φ ψ : Phase} {m : μ}
  {n n' : Counters}
  {f : μ → Counters → Option (Counters × Phase)}

/-- **A thread's own code** leaves it in possession of the lock and adds to its counter what it adds
to the threads counted; where it only reads the counter, the counter is not guarded. -/
theorem own_spec (hphase : testThread T role t φ = .own f) (hcode : f m n = some (n', ψ))
    (hseen : ∀ v, φ.seen = some v → n (role t) = v) :
    φ.inCs = true ∧ ψ.inCs = true ∧
      n' = change n (role t) (ψ.counted.toNat - φ.counted.toNat) ∧
        (∀ v, ψ.seen = some v → T.guarded (role t) = false ∧ n' (role t) = v) := by
  have hsame : change n (role t) 0 = n := by
    simp [change]
  -- a change in one step does all of it; in two steps the first only reads
  have hcount : ∀ (d : Int) (halfway : Int → Phase) (after : Phase), after.seen = none →
      (∀ v, (halfway v).seen = some v) → some (T.count (role t) d halfway after n) = some (n', ψ) →
      (n' = change n (role t) d ∧ ψ = after ∨ n' = n ∧ ψ = halfway (n (role t))) ∧
        ∀ v, ψ.seen = some v → T.guarded (role t) = false ∧ n' (role t) = v := by
    intro d halfway after hafter hhalf h
    rw [Option.some.injEq, Test.count] at h
    split at h
    · cases h
      refine ⟨.inl ⟨rfl, rfl⟩, fun v hv => ?_⟩
      rw [hafter] at hv
      cases hv
    · next hg =>
      cases h
      refine ⟨.inr ⟨rfl, rfl⟩, fun v hv => ⟨by simpa using hg, ?_⟩⟩
      rw [hhalf] at hv
      exact Option.some.inj hv
  cases φ with
  | locking => cases hphase
  | unlocking => cases hphase
  | entering =>
      cases hphase
      obtain ⟨⟨rfl, rfl⟩ | ⟨rfl, rfl⟩, hread⟩ := hcount 1 .adding .checking rfl (fun _ => rfl) hcode
      · exact ⟨rfl, rfl, rfl, hread⟩
      · exact ⟨rfl, rfl, hsame.symm, hread⟩
  | leaving =>
      cases hphase
      obtain ⟨⟨rfl, rfl⟩ | ⟨rfl, rfl⟩, hread⟩ :=
        hcount (-1) .subtracting .unlocking rfl (fun _ => rfl) hcode
      · exact ⟨rfl, rfl, rfl, hread⟩
      · exact ⟨rfl, rfl, hsame.symm, hread⟩
  | adding seen =>
      -- the counter still is what the first step read
      cases hphase
      cases hcode
      refine ⟨rfl, rfl, ?_, fun v hv => by cases hv⟩
      rw [← hseen seen rfl]
      rfl
  | subtracting seen =>
      cases hphase
      cases hcode
      refine ⟨rfl, rfl, ?_, fun v hv => by cases hv⟩
      rw [← hseen seen rfl]
      rfl
  | checking =>
      cases hphase
      simp only at hcode
      split at hcode
      · cases hcode
        exact ⟨rfl, rfl, hsame.symm, fun v hv => by cases hv⟩
      · cases hcode

theorem own_inCs (hphase : testThread T role t φ = .own f) (hcode : f m n = some (n', ψ)) :
    φ.inCs = true ∧ ψ.inCs = true := by
  have hcount : ∀ (d : Int) (halfway : Int → Phase) (after : Phase), after.inCs = true →
      (∀ v, (halfway v).inCs = true) → some (T.count (role t) d halfway after n) = some (n', ψ) →
      ψ.inCs = true := by
    intro d halfway after hafter hhalf h
    rw [Option.some.injEq, Test.count] at h
    split at h
    · cases h
      exact hafter
    · cases h
      exact hhalf _
  cases φ with
  | locking => cases hphase
  | unlocking => cases hphase
  | entering => cases hphase; exact ⟨rfl, hcount 1 .adding .checking rfl (fun _ => rfl) hcode⟩
  | leaving => cases hphase; exact ⟨rfl, hcount (-1) .subtracting .unlocking rfl (fun _ => rfl) hcode⟩
  | adding seen => cases hphase; cases hcode; exact ⟨rfl, rfl⟩
  | subtracting seen => cases hphase; cases hcode; exact ⟨rfl, rfl⟩
  | checking =>
      cases hphase
      simp only at hcode
      split at hcode
      · cases hcode
        exact ⟨rfl, rfl⟩
      · cases hcode

/-- The calls of a thread. -/
theorem call_cases {x : χ} (hphase : testThread T role t φ = .call x ψ) :
    (φ = .locking ∧ ψ = .entering ∧ x = T.lock (role t)) ∨
      (φ = .unlocking ∧ ψ = .locking ∧ x = T.unlock) := by
  cases φ with
  | locking => cases hphase; exact .inl ⟨rfl, rfl, rfl⟩
  | unlocking => cases hphase; exact .inr ⟨rfl, rfl, rfl⟩
  | entering => cases hphase
  | leaving => cases hphase
  | adding seen => cases hphase
  | subtracting seen => cases hphase
  | checking => cases hphase

/-- A thread's own code fails only in the check. -/
theorem own_none (hphase : testThread T role t φ = .own f) (hcode : f m n = none) :
    φ = .checking ∧ T.csStatusCheck m n = false := by
  cases φ with
  | locking => cases hphase
  | unlocking => cases hphase
  | entering => cases hphase; cases hcode
  | leaving => cases hphase; cases hcode
  | adding seen => cases hphase; cases hcode
  | subtracting seen => cases hphase; cases hcode
  | checking =>
      cases hphase
      simp only at hcode
      split at hcode
      · cases hcode
      · next hno => exact ⟨rfl, by simpa using hno⟩

end Own

section Invariant

variable {τ μ κ Λ χ : Type*}
  {P : Program τ μ κ Λ χ} {T : Test μ χ} {role : τ → Access} {m : μ} {s s' : TestConfig τ μ κ Λ} {t : τ}
  {notes : List (Note κ)} {st : Status κ (Λ × Phase)}

/-- The thread is in the code of the lock where its phase says. -/
def Calls.At (hc : Calls P T) (k : Access) (l : Λ × Phase) : Prop :=
  if l.2.inCs = true then l.1 = hc.held k else l.1 = hc.idle ∨ hc.waits k l.1

/-- A step leaves the thread where its phase says. -/
theorem Calls.at_ran (hc : Calls P T) {l : Λ × Phase} {m m' : μ × Counters} (h : hc.At (role t) l)
    (hran : ClientRan (testThread T role) P t l m m' notes st) : hc.At (role t) st.loc := by
  cases hran with
  | @call x ψ notes st hphase hexec hown =>
      unfold Calls.At at h
      rcases call_cases hphase with ⟨hφ, rfl, rfl⟩ | ⟨hφ, rfl, rfl⟩
      · rw [hφ] at h
        rcases hc.lock_done _ _ _ _ _ _ _ h hexec with ⟨c, l', rfl, hw⟩ | rfl
        · show hc.At (role t) (l', l.2)
          rw [hφ]
          exact .inr hw
        · exact rfl
      · rw [hφ] at h
        rw [show l.1 = hc.held (role t) from h] at hexec
        rw [hc.unlock_done _ _ _ _ _ _ hexec]
        exact .inl rfl
  | @own f ψ hphase hcode hmem =>
      obtain ⟨hφ, hψ⟩ := own_inCs hphase hcode
      unfold Calls.At at h ⊢
      rw [if_pos hφ] at h
      rw [Status.loc_running, if_pos hψ]
      exact h

/-- Who is past locking holds the lock. -/
theorem Calls.At.held {hc : Calls P T} {k : Access} {l : Λ × Phase} (h : hc.At k l)
    (hφ : l.2.inCs = true) :
    l.1 = hc.held k := by
  unfold Calls.At at h
  rwa [if_pos hφ] at h

section Counts

variable [Fintype τ]

/-- The threads that count in `n_r` or `n_w`. -/
def countedOf (role : τ → Access) (s : TestConfig τ μ κ Λ) (k : Access) : Nat :=
  (Finset.univ.filter fun t => role t = k ∧ (s.thr t).loc.2.counted = true).card

/-- What one thread contributes. -/
def credit (role : τ → Access) (k : Access) (t : τ) (l : Λ × Phase) : Nat :=
  if role t = k then l.2.counted.toNat else 0

theorem countedOf_eq (s : TestConfig τ μ κ Λ) (k : Access) :
    countedOf role s k = weigh s.thr fun t st => credit role k t st.loc := by
  unfold countedOf weigh
  rw [Finset.card_filter]
  refine Finset.sum_congr rfl fun t _ => ?_
  show _ = credit role k t (s.thr t).loc
  unfold credit
  by_cases hk : role t = k
  · rw [if_pos hk]
    cases hcount : (s.thr t).loc.2.counted <;> simp [hk]
  · simp [hk]

/-- The invariant of all runs. -/
structure TestInv (T : Test μ χ) (role : τ → Access) (s : TestConfig τ μ κ Λ) : Prop where
  counted : ∀ k, s.mem.2 k = countedOf role s k
  /-- A value that was read is still the value of the counter. -/
  seen : ∀ t v, (s.thr t).loc.2.seen = some v → T.guarded (role t) = false ∧ s.mem.2 (role t) = v

theorem TestInv.init (hs : s.mem = (m, fun _ => 0))
    (hthr : ∀ t, ∃ l : Λ, s.thr t = .running (l, .locking)) :
    TestInv T role s where
  counted k := by
    have hnone : countedOf role s k = 0 := by
      rw [countedOf, Finset.card_eq_zero, Finset.filter_eq_empty_iff]
      rintro t - ⟨-, hcount⟩
      obtain ⟨l, hl⟩ := hthr t
      rw [hl] at hcount
      cases hcount
    rw [hs, hnone]
    rfl
  seen t v hv := by
    obtain ⟨l, hl⟩ := hthr t
    rw [hl] at hv
    cases hv

variable [DecidableEq Λ]

/-- The number of threads that hold the lock. -/
def heldCount (hc : Calls P T) (s : Config τ μ κ Λ) (k : Access) : Nat :=
  (Finset.univ.filter fun t => (s.thr t).loc = hc.held k).card

/-- What a lock promises about a state. -/
structure Admits (hc : Calls P T) (s : Config τ μ κ Λ) : Prop where
  exclusive : heldCount hc s .reader = 0 ∨ heldCount hc s .writer = 0
  /-- Where the counter is not guarded, one thread at a time has the lock. -/
  alone : ∀ k, T.guarded k = false → heldCount hc s k ≤ 1
  /-- The check allows what the lock allows. -/
  check : ∀ n : Counters, (∀ k, ∃ c : Nat, n k = c ∧ c ≤ heldCount hc s k) →
    T.csStatusCheck s.mem n = true

theorem mem_held {hc : Calls P T} (hat : hc.At (role t) (s.thr t).loc) (hφ : (s.thr t).loc.2.inCs = true)
    {k : Access} (hk : role t = k) :
    t ∈ Finset.univ.filter fun u => ((component s).thr u).loc = hc.held k := by
  rw [Finset.mem_filter]
  refine ⟨Finset.mem_univ t, ?_⟩
  show ((s.thr t).map Prod.fst).loc = hc.held k
  rw [Status.loc_map, ← hk]
  exact hat.held hφ

/-- No more threads are counted than hold the lock. -/
theorem countedOf_le {hc : Calls P T} (hat : ∀ t, hc.At (role t) (s.thr t).loc) (k : Access) :
    countedOf role s k ≤ heldCount hc (component s) k := by
  apply Finset.card_le_card
  intro t ht
  rw [Finset.mem_filter] at ht
  obtain ⟨-, hk, hcount⟩ := ht
  exact mem_held (hat t) (Phase.inCs_of_counted hcount) hk

/-- Where the counter is not guarded, a thread past locking is the only one of its kind. -/
theorem Admits.eq_of_inCs {hc : Calls P T} (h : Admits hc (component s))
    (hat : ∀ t, hc.At (role t) (s.thr t).loc) {u : τ} (hg : T.guarded (role t) = false)
    (ht : (s.thr t).loc.2.inCs = true) (hu : (s.thr u).loc.2.inCs = true) (hrole : role u = role t) :
    u = t :=
  Finset.card_le_one.mp (h.alone _ hg) u (mem_held (hat u) hu hrole) t (mem_held (hat t) ht rfl)

/-- What the threads that do not move have read is not changed. -/
theorem TestInv.seen_of_ne {hc : Calls P T} (h : TestInv T role s) (hadm : Admits hc (component s))
    (hat : ∀ t, hc.At (role t) (s.thr t).loc) (ht : (s.thr t).loc.2.inCs = true) {d : Int} {u : τ}
    (hu : u ≠ t)
    {v : Int} (hv : (s.thr u).loc.2.seen = some v) :
    T.guarded (role u) = false ∧ change s.mem.2 (role t) d (role u) = v := by
  obtain ⟨hg, hold⟩ := h.seen u v hv
  refine ⟨hg, ?_⟩
  unfold change
  by_cases hrole : role u = role t
  · rw [hrole] at hg
    exact absurd (hadm.eq_of_inCs hat hg ht (Phase.inCs_of_seen hv) hrole) hu
  · rw [Function.update_of_ne hrole]
    exact hold

end Counts

variable [DecidableEq τ] [Fintype τ]

theorem countedOf_ran (hran : (clientProgram (testThread T role) P).Ran s t () s' notes st) (k : Access) :
    countedOf role s' k + credit role k t (s.thr t).loc =
      countedOf role s k + credit role k t st.loc := by
  rw [countedOf_eq, countedOf_eq]
  exact hran.weigh_loc (credit role k)

variable [DecidableEq κ]

theorem Calls.at_reachable (hc : Calls P T) (h : (testMachine P T role m hc.idle).Reachable s) (t : τ) :
    hc.At (role t) (s.thr t).loc := by
  have hall : ∀ t, hc.At (role t) (s.thr t).loc := by
    apply Program.invariant _ _ _ h
    · intro s hs t
      rw [hs.2 t]
      exact .inl rfl
    · intro s t x picks s' notes st hat _ hran u
      by_cases hu : u = t
      · rw [hu, hran.self]
        exact hc.at_ran (hat t) (clientRan_of_exec hran.exec)
      · rw [hran.loc_of_ne hu]
        exact hat u
    · intro s t c l hat _ hw u
      dsimp only
      rw [loc_update_notified hw]
      exact hat u
  exact hall t

variable [DecidableEq Λ]

omit [DecidableEq κ] in
/-- **One step** keeps the counters right. -/
theorem TestInv.step {hc : Calls P T} (h : TestInv T role s) (hadm : Admits hc (component s))
    (hat : ∀ t, hc.At (role t) (s.thr t).loc)
    (hran : (clientProgram (testThread T role) P).Ran s t () s' notes st) : TestInv T role s' := by
  have hcount := countedOf_ran hran
  have hcode := clientRan_of_exec hran.exec
  have hself := hran.self
  have hother : ∀ u, u ≠ t → (s'.thr u).loc = (s.thr u).loc := fun u hu => hran.loc_of_ne hu
  have hold := h.seen t
  generalize hl : (s.thr t).loc = l at hcount hcode hold
  cases hcode with
  | @call x ψ notes st hphase hexec hown =>
      -- a call counts nobody, and no counter was read in it
      have hnone : l.2.counted = false ∧ (st.inCall l.2 ψ).loc.2.counted = false ∧
          (st.inCall l.2 ψ).loc.2.seen = none := by
        rcases call_cases hphase with ⟨hφ, rfl, -⟩ | ⟨hφ, rfl, -⟩
        · rw [hφ]
          cases st <;> exact ⟨rfl, rfl, rfl⟩
        · rw [hφ]
          cases st <;> exact ⟨rfl, rfl, rfl⟩
      obtain ⟨hbefore, hafter, hseen⟩ := hnone
      refine ⟨fun k => ?_, fun u v hv => ?_⟩
      · have hk := hcount k
        simp only [credit, hbefore, hafter, Bool.toNat_false, ite_self, Nat.add_zero] at hk
        rw [hown, hk]
        exact h.counted k
      · rw [hown]
        by_cases hu : u = t
        · rw [hu, hself, hseen] at hv
          cases hv
        · rw [hother u hu] at hv
          exact h.seen u v hv
  | @own f ψ hphase hcode hmem =>
      obtain ⟨hφ, hψ, hn, hseen⟩ := own_spec hphase hcode fun v hv => (hold v hv).2
      refine ⟨fun k => ?_, fun u v hv => ?_⟩
      · have hk := hcount k
        have hbefore := h.counted k
        simp only [credit, Status.loc_running] at hk
        rw [hn, change]
        by_cases hrole : role t = k
        · subst hrole
          rw [if_pos rfl, if_pos rfl] at hk
          rw [Function.update_self]
          omega
        · rw [if_neg hrole, if_neg hrole] at hk
          rw [Function.update_of_ne (Ne.symm hrole)]
          omega
      · by_cases hu : u = t
        · rw [hu, hself] at hv
          rw [hu]
          exact hseen v hv
        · rw [hother u hu] at hv
          rw [hn]
          rw [← hl] at hφ
          exact h.seen_of_ne hadm hat hφ hu hv

/-- **The counters are right** in every run, as long as the lock keeps its promises. -/
theorem testInv_reachable {hc : Calls P T}
    (hadm : ∀ s, (testMachine P T role m hc.idle).Reachable s → Admits hc (component s))
    (h : (testMachine P T role m hc.idle).Reachable s) : TestInv T role s := by
  apply Machine.ReachableUnder.invariant_of (J := (testMachine P T role m hc.idle).Reachable) _ _ _ h
  · intro s hs
    exact hs
  · intro s hs
    exact .init hs.1 fun t => ⟨hc.idle, hs.2 t⟩
  · intro s a s' hs hinv _ hstep
    cases a with
    | run t x picks =>
        obtain ⟨notes, st, hran⟩ := Program.ran_of_step hstep
        exact hinv.step (hadm s hs) (hc.at_reachable hs) hran
    | spurious t =>
        obtain ⟨-, c, l, hw, rfl⟩ := Program.spurious_of_step hstep
        have hloc := loc_update_notified hw
        refine ⟨fun k => ?_, fun u v hv => ?_⟩
        · rw [hinv.counted k]
          simp only [countedOf, hloc]
        · rw [hloc] at hv
          exact hinv.seen u v hv

/-- What a test program is there to check. -/
structure TestOk (T : Test μ χ) (role : τ → Access) (s : TestConfig τ μ κ Λ) : Prop where
  /-- Whoever calls `cs_status_check` now passes it. -/
  check : T.csStatusCheck s.mem.1 s.mem.2 = true
  /-- `n_r` and `n_w` count the threads between their increment and their decrement. -/
  counted : ∀ k, s.mem.2 k = countedOf role s k
  /-- Between locking and unlocking there are only readers or only writers. -/
  exclusive : ∀ t u, (s.thr t).loc.2.inCs = true → (s.thr u).loc.2.inCs = true → role t = role u
  /-- A counter that is not guarded is changed by one thread at a time. -/
  alone : ∀ t u, T.guarded (role t) = false → (s.thr t).loc.2.inCs = true →
    (s.thr u).loc.2.inCs = true → u = t

/-- **A test program checks what it is there to check**, as long as its lock keeps its promises. -/
theorem testOk_of_admits {hc : Calls P T}
    (hadm : ∀ s, (testMachine P T role m hc.idle).Reachable s → Admits hc (component s))
    (h : (testMachine P T role m hc.idle).Reachable s) : TestOk T role s := by
  have hinv := testInv_reachable hadm h
  have hat := hc.at_reachable h
  have hexclusive : ∀ t u, (s.thr t).loc.2.inCs = true → (s.thr u).loc.2.inCs = true →
      role t = .reader → role u = .writer → False := by
    intro t u ht hu hr hw
    have hrpos := Finset.card_pos.mpr ⟨t, mem_held (hat t) ht hr⟩
    have hwpos := Finset.card_pos.mpr ⟨u, mem_held (hat u) hu hw⟩
    rcases (hadm s h).exclusive with hzero | hzero
    · exact absurd hzero (Nat.pos_iff_ne_zero.mp hrpos)
    · exact absurd hzero (Nat.pos_iff_ne_zero.mp hwpos)
  have hsame : ∀ t u, (s.thr t).loc.2.inCs = true → (s.thr u).loc.2.inCs = true → role t = role u := by
    intro t u ht hu
    cases hr : role t with
    | reader =>
        cases hw : role u with
        | reader => rfl
        | writer => exact absurd (hexclusive t u ht hu hr hw) id
    | writer =>
        cases hw : role u with
        | reader => exact absurd (hexclusive u t hu ht hw hr) id
        | writer => rfl
  refine ⟨?_, hinv.counted, hsame, fun t u hg ht hu => ?_⟩
  · exact (hadm s h).check s.mem.2 fun k => ⟨countedOf role s k, hinv.counted k, countedOf_le hat k⟩
  · exact (hadm s h).eq_of_inCs hat hg ht hu (hsame u t hu ht)

omit [DecidableEq Λ] in
/-- A test program fails only in the code of its lock. -/
theorem TestOk.abort_in_lock (h : TestOk T role s) {a : Act τ Unit}
    (habort : (clientProgram (testThread T role) P).step s a = .abort) :
    ∃ t picks x ψ, a = .run t () picks ∧ (s.thr t).isWaiting = false ∧
      testThread T role t (s.thr t).loc.2 = .call x ψ ∧ P.exec t (s.thr t).loc.1 x s.mem.1 = .abort := by
  cases a with
  | spurious t => exact absurd habort Program.not_abort_spurious
  | run t x picks =>
      obtain ⟨hawake, hexec⟩ := Program.exec_of_abort habort
      rcases client_abort hexec with ⟨x, ψ, hcall, hlock⟩ | ⟨f, hown, hnone⟩
      · exact ⟨t, picks, x, ψ, rfl, hawake, hcall, hlock⟩
      · obtain ⟨-, hcheck⟩ := own_none hown hnone
        rw [h.check] at hcheck
        cases hcheck

omit [DecidableEq Λ] in
/-- A thread that is not blocked goes on, unless its call of the lock does not let it. -/
theorem TestOk.exists_step (h : TestOk T role s) (hawake : (s.thr t).isWaiting = false)
    (hlock : ∀ x ψ, testThread T role t (s.thr t).loc.2 = .call x ψ →
      ∃ m' notes st, P.exec t (s.thr t).loc.1 x s.mem.1 = .done m' notes st) :
    ∃ a s', (clientProgram (testThread T role) P).step s a = .next s' := by
  cases hphase : testThread T role t (s.thr t).loc.2 with
  | call x ψ =>
      obtain ⟨m', notes, st, hexec⟩ := hlock x ψ hphase
      have hdone : (clientProgram (testThread T role) P).exec t (s.thr t).loc () s.mem =
          .done (m', s.mem.2) notes (st.inCall (s.thr t).loc.2 ψ) := by
        simp only [clientProgram, hphase, hexec]
      obtain ⟨picks, s', hstep⟩ := Program.exists_step_of_exec hawake hdone
      exact ⟨_, s', hstep⟩
  | own f =>
      cases hcode : f s.mem.1 s.mem.2 with
      | none =>
          obtain ⟨-, hcheck⟩ := own_none hphase hcode
          rw [h.check] at hcheck
          cases hcheck
      | some r =>
          have hdone : (clientProgram (testThread T role) P).exec t (s.thr t).loc () s.mem =
              .done (s.mem.1, r.1) [] (.running ((s.thr t).loc.1, r.2)) := by
            simp only [clientProgram, hphase, hcode, Effect.call]
          obtain ⟨picks, s', hstep⟩ := Program.exists_step_of_exec hawake hdone
          exact ⟨_, s', hstep⟩
  | stop =>
      generalize (s.thr t).loc.2 = φ at hphase
      cases φ <;> cases hphase

/-- The program is in order, fails no assertion and goes on. -/
structure TestRuns (P : Program τ μ κ Λ χ) (T : Test μ χ) (role : τ → Access) (s : TestConfig τ μ κ Λ) :
    Prop where
  ok : TestOk T role s
  asserts : ∀ a, (clientProgram (testThread T role) P).step s a ≠ .abort
  goesOn : ∃ a s', (clientProgram (testThread T role) P).step s a = .next s'

omit [DecidableEq Λ] in
/-- A lock whose calls fail no assertion and are carried out lets the program run for ever. -/
theorem TestOk.runs (h : TestOk T role s) (hawake : ∃ t, (s.thr t).isWaiting = false)
    (hlock : ∀ t x ψ, testThread T role t (s.thr t).loc.2 = .call x ψ →
      ∃ m' notes st, P.exec t (s.thr t).loc.1 x s.mem.1 = .done m' notes st) : TestRuns P T role s where
  ok := h
  asserts a habort := by
    obtain ⟨t, picks, x, ψ, -, -, hcall, hfail⟩ := h.abort_in_lock habort
    obtain ⟨m', notes, st, hdone⟩ := hlock t x ψ hcall
    rw [hdone] at hfail
    cases hfail
  goesOn := by
    obtain ⟨t, ht⟩ := hawake
    exact h.exists_step ht (hlock t)

end Invariant

end LockTests
end MultithreadingBible
