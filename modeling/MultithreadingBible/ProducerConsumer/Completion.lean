import Mathlib.Data.Fintype.BigOperators
import MultithreadingBible.Lib.Scripts
import MultithreadingBible.ProducerConsumer.FullOrEmpty

/-!
# Producers and consumers that run once

`main` starts threads that each run `prod_fn` or `cons_fn` once, and joins them.  With any number of
both, every run of the threads comes to an end.  Producers and consumers take turns, so that one
more producer gets through than consumers do, if there are that many; whoever is left over waits on
`q_cv` for ever, and `main` with it. With as many producers as consumers all of them end, and the
integers consumed are those that `new_int` has given, in order.

* `onceScript` — each thread runs its function once; `new_int` counts.
* `CountInv` — how many integers went through the queue.
* `prodCons_ends` — where all runs end.
-/

namespace MultithreadingBible
namespace ProducerConsumer

open Lib

variable {τ : Type*} {role : τ → Role}

/-- `new_int`, after `a` calls.  It counts up an `int`. -/
def newInt (a : Nat) : Nat := a + 1

/-- A thread runs its function once, and has ended when it returned.  Every call of `new_int` produces an
integer. -/
def onceScript (role : τ → Role) : Script τ (PcMem τ Nat) PcLoc Bool (PcChoice Nat) where
  ask t l called m :=
    match l, called with
    | .idle, true => none
    | _, _ => some ⟨role t, newInt m.produced.length⟩
  turn _ _ _ _ := true

abbrev OnceConfig (τ : Type*) := Config τ (PcMem τ Nat) Unit (PcLoc × Bool)

/-- The threads of `main`, before they run. -/
def onceStart (τ : Type*) : OnceConfig τ :=
  ⟨⟨initQ, none, [], []⟩, fun _ => .running (.idle, false)⟩

/-- The threads that have done their work at the queue. -/
def through : PcLoc × Bool → Bool
  | (.inFn _ .unlock, _) => true
  | (.idle, called) => called
  | _ => false

/-- What a thread is doing fits its role. -/
def InRole (role : τ → Role) (t : τ) : PcLoc × Bool → Prop
  | (.idle, _) => True
  | (.inFn r _, called) => r = role t ∧ called = true

variable {s s' : OnceConfig τ} {t : τ} {notes : List (Note Unit)} {st : Status Unit (PcLoc × Bool)}

/-- With the mutex free, every thread can go on, or finds the queue neither full nor empty. -/
theorem pcExec_cases {x : PcChoice Nat} {m : PcMem τ Nat} {l : PcLoc}
    (hfree : (∃ r, l = .inFn r .lock) → m.qMutex = none) :
    pcExec t l x m = .abort ∨ ∃ m' notes st, pcExec t l x m = .done m' notes st := by
  cases l with
  | idle => exact .inr ⟨_, _, _, rfl⟩
  | inFn r p =>
      cases p with
      | lock =>
          have hnone := hfree ⟨r, rfl⟩
          refine .inr ⟨{ m with qMutex := some t }, [], .running (.inFn r .test), ?_⟩
          cases r <;> simp only [pcExec, prodFn, consFn, mutexLock, hnone]
      | test =>
          cases r <;> simp only [pcExec, prodFn, consFn] <;> split
          · exact .inr ⟨_, _, _, rfl⟩
          · split
            · exact .inr ⟨_, _, _, rfl⟩
            · exact .inl rfl
          · exact .inr ⟨_, _, _, rfl⟩
          · split
            · exact .inr ⟨_, _, _, rfl⟩
            · exact .inl rfl
      | work =>
          right
          cases r <;> simp only [pcExec, prodFn, consFn] <;> split <;> exact ⟨_, _, _, rfl⟩
      | unlock =>
          right
          cases r <;> exact ⟨_, _, _, rfl⟩

/-- Only one thread works at a time. -/
theorem eq_of_works (h : PcInv (unscripted s)) {u : τ} (ht : (s.thr t).loc.1.holds = true)
    (hu : (s.thr u).loc.1.works = true) : u = t := by
  have hholds : ∀ v, ((unscripted s).thr v).loc.holds = true ↔ (s.thr v).loc.1.holds = true := by
    intro v
    rw [unscripted_loc]
  exact h.mutex.eq ((hholds u).mpr (PcLoc.holds_of_works hu)) ((hholds t).mpr ht)

/-- What was produced and not consumed is in the queue. -/
theorem produced_length (hinv : PcInv (unscripted s)) :
    s.mem.produced.length = s.mem.consumed.length + s.mem.q.count := by
  obtain ⟨xs, hholds, hfifo⟩ := hinv.queue
  rw [unscripted_mem] at hholds hfifo
  have hlen := congrArg List.length hfifo
  rw [List.length_map, List.length_append, List.length_map] at hlen
  rw [hholds.count]
  exact hlen

section Counts

variable [Fintype τ]

/-- How many threads with a role there are. -/
def roleCount (role : τ → Role) (r : Role) : Nat := (Finset.univ.filter fun t => role t = r).card

/-- How many of them are through. -/
def throughCount (role : τ → Role) (r : Role) (s : OnceConfig τ) : Nat :=
  weigh s.thr fun t st => if role t = r ∧ through st.loc = true then 1 else 0

/-- How many integers went through the queue. -/
structure CountInv (role : τ → Role) (s : OnceConfig τ) : Prop where
  inRole : ∀ t, InRole role t (s.thr t).loc
  counts : s.mem.produced = List.range' 1 s.mem.produced.length
  calm : (∀ t, (s.thr t).loc.1.works = false) →
    s.mem.produced.length = qDefaultSize * throughCount role .producer s ∧
      s.mem.consumed.length = qDefaultSize * throughCount role .consumer s
  filling : ∀ t, (s.thr t).loc.1 = .inFn .producer .work →
    s.mem.produced.length = qDefaultSize * throughCount role .producer s + s.mem.q.count ∧
      s.mem.consumed.length = qDefaultSize * throughCount role .consumer s
  draining : ∀ t, (s.thr t).loc.1 = .inFn .consumer .work →
    s.mem.produced.length = qDefaultSize * throughCount role .producer s ∧
      s.mem.consumed.length + s.mem.q.count = qDefaultSize * throughCount role .consumer s + qDefaultSize

theorem countInv_start : CountInv role (onceStart τ) where
  inRole t := trivial
  counts := rfl
  calm _ := by
    have hzero : ∀ r, throughCount role r (onceStart τ) = 0 := by
      intro r
      simp [throughCount, weigh, onceStart, through]
    rw [hzero, hzero]
    exact ⟨rfl, rfl⟩
  filling t ht := by cases ht
  draining t ht := by cases ht

/-- While a thread works on the queue, nothing but its own count is to be shown. -/
theorem CountInv.of_works {r : Role} (hrole : ∀ t, InRole role t (s.thr t).loc)
    (hcounts : s.mem.produced = List.range' 1 s.mem.produced.length) (hinv : PcInv (unscripted s))
    (ht : (s.thr t).loc.1 = .inFn r .work)
    (hfill : r = .producer →
      s.mem.produced.length = qDefaultSize * throughCount role .producer s + s.mem.q.count ∧
        s.mem.consumed.length = qDefaultSize * throughCount role .consumer s)
    (hdrain : r = .consumer →
      s.mem.produced.length = qDefaultSize * throughCount role .producer s ∧
        s.mem.consumed.length + s.mem.q.count =
          qDefaultSize * throughCount role .consumer s + qDefaultSize) :
    CountInv role s := by
  have hworks : (s.thr t).loc.1.works = true := by rw [ht]; rfl
  have honly : ∀ u r', (s.thr u).loc.1 = .inFn r' .work → r' = r := by
    intro u r' hu
    have heq : u = t := eq_of_works hinv (PcLoc.holds_of_works hworks) (by rw [hu]; rfl)
    rw [heq, ht] at hu
    cases hu
    rfl
  refine ⟨hrole, hcounts, ?_, ?_, ?_⟩
  · intro hcalm
    rw [hcalm t] at hworks
    cases hworks
  · exact fun u hu => hfill (honly u .producer hu).symm
  · exact fun u hu => hdrain (honly u .consumer hu).symm

theorem throughCount_le (role : τ → Role) (r : Role) (s : OnceConfig τ) :
    throughCount role r s ≤ roleCount role r := by
  unfold throughCount weigh roleCount
  rw [Finset.card_filter]
  refine Finset.sum_le_sum fun t _ => ?_
  dsimp only
  split
  case isTrue h => rw [if_pos h.1]
  case isFalse => exact Nat.zero_le _

theorem throughCount_lt {r : Role} (hrole : role t = r) (ht : through (s.thr t).loc = false) :
    throughCount role r s < roleCount role r := by
  unfold throughCount weigh roleCount
  rw [Finset.card_filter]
  apply Finset.sum_lt_sum
  · intro u _
    dsimp only
    split
    case isTrue h => rw [if_pos h.1]
    case isFalse => exact Nat.zero_le _
  · refine ⟨t, Finset.mem_univ t, ?_⟩
    dsimp only
    rw [if_neg (by simp [ht]), if_pos hrole]
    exact Nat.one_pos

/-- No more goes through the queue than the threads there are can put in and take out. -/
theorem CountInv.le (h : CountInv role s) (hinv : PcInv (unscripted s)) :
    s.mem.produced.length ≤ qDefaultSize * roleCount role .producer ∧
      s.mem.consumed.length ≤ qDefaultSize * roleCount role .consumer := by
  have hp := Nat.mul_le_mul_left qDefaultSize (throughCount_le role .producer s)
  have hc := Nat.mul_le_mul_left qDefaultSize (throughCount_le role .consumer s)
  obtain ⟨xs, hholds, -⟩ := hinv.queue
  have hroom : s.mem.q.count ≤ qDefaultSize := by
    rw [show s.mem.q.count = xs.length from hholds.count]
    exact hholds.room
  have hmore : ∀ {t r}, (s.thr t).loc.1 = .inFn r .work →
      qDefaultSize * throughCount role r s + qDefaultSize ≤ qDefaultSize * roleCount role r := by
    intro t r ht
    have hrole := h.inRole t
    generalize hl : (s.thr t).loc = l at ht hrole
    obtain ⟨l, called⟩ := l
    dsimp only at ht
    subst ht
    rw [← Nat.mul_succ]
    apply Nat.mul_le_mul_left
    exact throughCount_lt hrole.1.symm (by rw [hl]; rfl)
  by_cases hcalm : ∀ t, (s.thr t).loc.1.works = false
  · obtain ⟨hfilled, hdrained⟩ := h.calm hcalm
    omega
  · push Not at hcalm
    obtain ⟨t, ht⟩ := hcalm
    generalize hl : (s.thr t).loc.1 = l at ht
    cases l with
    | idle => exact absurd rfl ht
    | inFn r p =>
        cases p with
        | lock | test | unlock => exact absurd rfl ht
        | work =>
            have hle := hmore hl
            cases r with
            | producer =>
                obtain ⟨hfilled, hdrained⟩ := h.filling t hl
                omega
            | consumer =>
                obtain ⟨hfilled, hdrained⟩ := h.draining t hl
                omega

/-- `new_int` is called by the producers that get through, one more than consumers do at most. -/
theorem CountInv.produced_le (h : CountInv role s) (hinv : PcInv (unscripted s)) :
    s.mem.produced.length ≤
      qDefaultSize * min (roleCount role .producer) (roleCount role .consumer + 1) := by
  obtain ⟨hproduced, hconsumed⟩ := h.le hinv
  have hsize := produced_length hinv
  obtain ⟨xs, hholds, -⟩ := hinv.queue
  have hroom : s.mem.q.count ≤ qDefaultSize := by
    rw [show s.mem.q.count = xs.length from hholds.count]
    exact hholds.room
  rw [← Nat.mul_min_mul_left, Nat.mul_succ]
  omega

/-- While so many calls fit into its `int`, what `new_int` returns does. -/
theorem CountInv.fits (h : CountInv role s) (hinv : PcInv (unscripted s))
    (hint : qDefaultSize * min (roleCount role .producer) (roleCount role .consumer + 1) < 2 ^ 31) :
    ∀ a ∈ s.mem.produced, a < 2 ^ 31 := by
  intro a ha
  have hle := h.produced_le hinv
  rw [h.counts, List.mem_range'_1] at ha
  omega

/-- How many threads with a role have ended. -/
def endedCount (role : τ → Role) (r : Role) (s : OnceConfig τ) : Nat :=
  (Finset.univ.filter fun t => role t = r ∧ s.thr t = .running (.idle, true)).card

/-- Where the threads of `main` come to rest. -/
structure OnceOver (role : τ → Role) (s : OnceConfig τ) : Prop where
  /-- One more producer than there are consumers gets through, if there are that many. -/
  producers : endedCount role .producer s = min (roleCount role .producer) (roleCount role .consumer + 1)
  consumers : endedCount role .consumer s = min (roleCount role .consumer) (roleCount role .producer)
  /-- The others wait on `q_cv`. -/
  waiting : ∀ t, s.thr t = .running (.idle, true) ∨ s.thr t = .waiting () (.inFn (role t) .lock, true)
  /-- With as many of both, `main` can join all of them. -/
  joined : roleCount role .producer = roleCount role .consumer → ∀ t, s.thr t = .running (.idle, true)
  produced : s.mem.produced = List.range' 1 (qDefaultSize * endedCount role .producer s)
  consumed : s.mem.consumed = (List.range' 1 (qDefaultSize * endedCount role .consumer s)).map some

/-- Who is through has ended, where no step is left. -/
theorem throughCount_eq_ended
    (hall : ∀ t, s.thr t = .running (.idle, true) ∨ s.thr t = .waiting () (.inFn (role t) .lock, true))
    (r : Role) : throughCount role r s = endedCount role r s := by
  unfold throughCount weigh endedCount
  rw [Finset.card_filter]
  refine Finset.sum_congr rfl fun t _ => ?_
  rcases hall t with ht | ht
  · simp [ht, through]
  · simp [ht, through]

/-- All threads with a role have ended. -/
theorem ended_of_count {r : Role} (hcount : endedCount role r s = roleCount role r) (ht : role t = r) :
    s.thr t = .running (.idle, true) := by
  have hsub : (Finset.univ.filter fun t => role t = r ∧ s.thr t = .running (.idle, true)) ⊆
      Finset.univ.filter fun t => role t = r := by
    intro u hu
    rw [Finset.mem_filter] at hu ⊢
    exact ⟨hu.1, hu.2.1⟩
  have heq := Finset.eq_of_subset_of_card_le hsub (le_of_eq hcount.symm)
  have hmem : t ∈ Finset.univ.filter fun t => role t = r := Finset.mem_filter.mpr ⟨Finset.mem_univ t, ht⟩
  rw [← heq] at hmem
  exact (Finset.mem_filter.mp hmem).2.2

theorem count_of_ended {r : Role} (hall : ∀ t, role t = r → s.thr t = .running (.idle, true)) :
    endedCount role r s = roleCount role r := by
  unfold endedCount roleCount
  congr 1
  ext t
  simp only [Finset.mem_filter, Finset.mem_univ, true_and, and_iff_left_iff_imp]
  exact hall t

end Counts

variable [DecidableEq τ]

/-- A step of a thread is a move of producers and consumers, made in the role of the thread. -/
theorem onceMove_of_ran
    (hran : (scripted (pcProgram τ Nat false) (onceScript role)).Ran s t () s' notes st) :
    (s.thr t).loc ≠ (.idle, true) ∧ ∃ st', st = st'.map (fun l => (l, true)) ∧
      PcMove t ⟨role t, newInt s.mem.produced.length⟩ s.mem (s.thr t).loc.1 s'.mem notes st' := by
  obtain ⟨x, st', hask, hran', rfl⟩ := ran_unscripted hran
  have hmove := pcMove_of_exec hran'.exec
  rw [unscripted_loc] at hmove
  generalize hl : (s.thr t).loc = l at hask hmove
  obtain ⟨l, called⟩ := l
  have hx : (l, called) ≠ (.idle, true) ∧ x = ⟨role t, newInt s.mem.produced.length⟩ := by
    cases l with
    | idle =>
        cases called with
        | true => cases hask
        | false => exact ⟨by simp, (Option.some.inj hask).symm⟩
    | inFn r p => exact ⟨by simp, (Option.some.inj hask).symm⟩
  rw [← hx.2]
  exact ⟨hx.1, st', rfl, hmove⟩

variable [Fintype τ]

/-- All runs of the threads of `main`. -/
def onceMachine (role : τ → Role) : Machine (OnceConfig τ) (Act τ Unit) :=
  (scripted (pcProgram τ Nat false) (onceScript role)).machine fun s => s = onceStart τ

theorem pcInv_reachable_once (h : (onceMachine role).Reachable s) : PcInv (unscripted s) := by
  have hinit : ∀ s : OnceConfig τ, s = onceStart τ → unscripted s = newQueue τ Nat := by
    rintro _ rfl
    rfl
  have hreach : (pcMachine τ Nat false).Reachable (unscripted s) := reachable_unscripted hinit h
  exact reachable_pcInv hreach

section Counting

/-- A step changes the counts at the thread that moves. -/
theorem throughCount_of_ran
    (hran : (scripted (pcProgram τ Nat false) (onceScript role)).Ran s t () s' notes st) (r : Role) :
    throughCount role r s' + (if role t = r ∧ through (s.thr t).loc = true then 1 else 0) =
      throughCount role r s + if role t = r ∧ through st.loc = true then 1 else 0 :=
  hran.weigh_loc fun t l => if role t = r ∧ through l = true then 1 else 0

/-- A step that is not the end of a thread's work leaves the counts alone. -/
theorem throughCount_same
    (hran : (scripted (pcProgram τ Nat false) (onceScript role)).Ran s t () s' notes st)
    (hthrough : through st.loc = through (s.thr t).loc) (r : Role) :
    throughCount role r s' = throughCount role r s := by
  have hstep := throughCount_of_ran hran r
  rw [hthrough] at hstep
  omega

/-- The others are in the functions they were in. -/
theorem CountInv.inRole_step (h : CountInv role s)
    (hran : (scripted (pcProgram τ Nat false) (onceScript role)).Ran s t () s' notes st)
    (hst : InRole role t st.loc) (u : τ) : InRole role u (s'.thr u).loc := by
  by_cases hut : u = t
  · rw [hut, hran.self]
    exact hst
  · rw [hran.loc_of_ne hut]
    exact h.inRole u

/-- A step that leaves the queue alone, and after which nobody works on it who did not before. -/
theorem CountInv.quiet (h : CountInv role s)
    (hran : (scripted (pcProgram τ Nat false) (onceScript role)).Ran s t () s' notes st)
    (hq : s'.mem.q = s.mem.q) (hproduced : s'.mem.produced = s.mem.produced)
    (hconsumed : s'.mem.consumed = s.mem.consumed) (hst : InRole role t st.loc)
    (ht : (s.thr t).loc.1.works = false) (ht' : st.loc.1.works = false)
    (hthrough : through st.loc = through (s.thr t).loc) : CountInv role s' := by
  have hcount := throughCount_same hran hthrough
  have hother : ∀ u, u ≠ t → (s'.thr u).loc = (s.thr u).loc := fun u hu => hran.loc_of_ne hu
  have hwork : ∀ u r, (s'.thr u).loc.1 = .inFn r .work → (s.thr u).loc.1 = .inFn r .work := by
    intro u r hu
    by_cases hut : u = t
    · rw [hut, hran.self] at hu
      rw [hu] at ht'
      cases ht'
    · rwa [← hother u hut]
  constructor
  · exact h.inRole_step hran hst
  · rw [hproduced]
    exact h.counts
  · intro hcalm
    rw [hproduced, hconsumed, hcount, hcount]
    apply h.calm
    intro u
    by_cases hut : u = t
    · rw [hut, ht]
    · rw [← hother u hut]
      exact hcalm u
  · intro u hu
    rw [hproduced, hconsumed, hcount, hcount, hq]
    exact h.filling u (hwork u _ hu)
  · intro u hu
    rw [hproduced, hconsumed, hcount, hcount, hq]
    exact h.draining u (hwork u _ hu)

section Work

variable {r : Role} {called : Bool}

/-- A thread begins its work when nobody else works, so it finds the queue empty or full. -/
theorem CountInv.begins (h : CountInv role s) (hinv : PcInv (unscripted s))
    (hinv' : PcInv (unscripted s'))
    (hran : (scripted (pcProgram τ Nat false) (onceScript role)).Ran s t () s' notes
      (.running (.inFn r .work, true)))
    (hl : (s.thr t).loc = (.inFn r .test, called)) (hblocks : r.blocks s.mem.q = false)
    (hm : s'.mem = s.mem) : CountInv role s' := by
  have hrole := h.inRole t
  rw [hl] at hrole
  have hcalm : ∀ u, (s.thr u).loc.1.works = false := by
    intro u
    by_contra hu
    have heq := eq_of_works hinv (by rw [hl]; rfl) (by simpa using hu)
    rw [heq, hl] at hu
    exact hu rfl
  have hsettled := hinv.settled fun u => by rw [unscripted_loc]; exact hcalm u
  obtain ⟨hfilled, hdrained⟩ := h.calm hcalm
  have hsame := throughCount_same hran (by rw [hl]; rfl)
  have hloc : (s'.thr t).loc.1 = .inFn r .work := by rw [hran.self]; rfl
  apply CountInv.of_works (h.inRole_step hran ⟨hrole.1, rfl⟩) (by rw [hm]; exact h.counts) hinv' hloc
  · rintro rfl
    have hzero : s.mem.q.count = 0 := by
      rcases hsettled with hempty | hfull
      · simpa [isQueueEmpty] using hempty
      · exact absurd hfull (by simpa [Role.blocks] using hblocks)
    rw [hm, hsame, hsame, hzero]
    exact ⟨hfilled, hdrained⟩
  · rintro rfl
    have hfive : s.mem.q.count = qDefaultSize := by
      rcases hsettled with hempty | hfull
      · exact absurd hempty (by simpa [Role.blocks] using hblocks)
      · simpa [isQueueFull] using hfull
    rw [hm, hsame, hsame, hfive, hdrained]
    exact ⟨hfilled, rfl⟩

/-- A producer puts the next integer into the queue. -/
theorem CountInv.produces (h : CountInv role s) (hinv : PcInv (unscripted s))
    (hinv' : PcInv (unscripted s'))
    (hran : (scripted (pcProgram τ Nat false) (onceScript role)).Ran s t () s' notes
      (.running (.inFn .producer .work, true)))
    (hl : (s.thr t).loc = (.inFn .producer .work, called)) (hroom : isQueueFull s.mem.q = false)
    (hm : s'.mem = { s.mem with
      q := (enqueue s.mem.q (some (newInt s.mem.produced.length))).2
      produced := s.mem.produced ++ [newInt s.mem.produced.length] }) : CountInv role s' := by
  have hrole := h.inRole t
  rw [hl] at hrole
  obtain ⟨hfilled, hdrained⟩ := h.filling t (by rw [hl])
  have hsame := throughCount_same hran (by rw [hl]; rfl)
  obtain ⟨xs, hholds, -⟩ := hinv.queue
  rw [unscripted_mem] at hholds
  have hmore := (enqueue_spec hholds hroom (newInt s.mem.produced.length)).count
  rw [List.length_append, ← hholds.count] at hmore
  have hloc : (s'.thr t).loc.1 = .inFn .producer .work := by rw [hran.self]; rfl
  apply CountInv.of_works (h.inRole_step hran ⟨hrole.1, rfl⟩) ?_ hinv' hloc
  · intro _
    rw [hm, hsame, hsame]
    refine ⟨?_, hdrained⟩
    show (s.mem.produced ++ [_]).length = _ + (enqueue s.mem.q _).2.count
    rw [hmore, List.length_append, hfilled]
    rfl
  · exact fun hr => (by cases hr)
  · rw [hm]
    show s.mem.produced ++ [s.mem.produced.length + 1] = List.range' 1 (s.mem.produced ++ [_]).length
    rw [List.length_append, List.length_singleton, List.range'_concat, ← h.counts, Nat.one_mul,
      Nat.add_comm 1]

/-- A consumer takes the oldest integer out of the queue. -/
theorem CountInv.consumes (h : CountInv role s) (hinv : PcInv (unscripted s))
    (hinv' : PcInv (unscripted s'))
    (hran : (scripted (pcProgram τ Nat false) (onceScript role)).Ran s t () s' notes
      (.running (.inFn .consumer .work, true)))
    (hl : (s.thr t).loc = (.inFn .consumer .work, called)) (hsome : isQueueEmpty s.mem.q = false)
    (hm : s'.mem = { s.mem with
      q := (deque s.mem.q).2
      consumed := s.mem.consumed ++ [(deque s.mem.q).1] }) : CountInv role s' := by
  have hrole := h.inRole t
  rw [hl] at hrole
  obtain ⟨hfilled, hdrained⟩ := h.draining t (by rw [hl])
  have hsame := throughCount_same hran (by rw [hl]; rfl)
  obtain ⟨xs, hholds, -⟩ := hinv.queue
  rw [unscripted_mem] at hholds
  obtain ⟨y, ys, rfl⟩ : ∃ y ys, xs = y :: ys := by
    apply List.exists_cons_of_ne_nil
    rw [ne_eq, ← isQueueEmpty_iff hholds]
    exact Bool.eq_false_iff.mp hsome
  have hless := (deque_spec hholds).2.count
  have hold : s.mem.q.count = ys.length + 1 := hholds.count
  have hloc : (s'.thr t).loc.1 = .inFn .consumer .work := by rw [hran.self]; rfl
  apply CountInv.of_works (h.inRole_step hran ⟨hrole.1, rfl⟩) (by rw [hm]; exact h.counts) hinv' hloc
  · exact fun hr => (by cases hr)
  · intro _
    rw [hm, hsame, hsame]
    refine ⟨hfilled, ?_⟩
    show (s.mem.consumed ++ [_]).length + (deque s.mem.q).2.count = _
    rw [hless, List.length_append, List.length_singleton]
    omega

/-- A thread is done with its work, and nobody works. -/
theorem CountInv.finishes (h : CountInv role s) (hinv : PcInv (unscripted s))
    (hran : (scripted (pcProgram τ Nat false) (onceScript role)).Ran s t () s' notes
      (.running (.inFn r .unlock, true)))
    (hl : (s.thr t).loc = (.inFn r .work, called)) (hblocks : r.blocks s.mem.q = true)
    (hm : s'.mem = s.mem) : CountInv role s' := by
  have hrole := h.inRole t
  rw [hl] at hrole
  have hcount := throughCount_of_ran hran
  rw [hl] at hcount
  have hcalm : ∀ u, (s'.thr u).loc.1.works = false := by
    intro u
    by_cases hut : u = t
    · rw [hut, hran.self]
      rfl
    · by_contra hu
      rw [hran.loc_of_ne hut] at hu
      exact hut (eq_of_works hinv (by rw [hl]; rfl) (by simpa using hu))
  have hnobody : ∀ u r', (s'.thr u).loc.1 ≠ .inFn r' .work := by
    intro u r' hu
    have := hcalm u
    rw [hu] at this
    cases this
  have hmore := hcount r
  refine ⟨h.inRole_step hran ⟨hrole.1, rfl⟩, by rw [hm]; exact h.counts, fun _ => ?_,
    fun u hu => absurd hu (hnobody u _), fun u hu => absurd hu (hnobody u _)⟩
  rw [hm]
  cases r with
  | producer =>
      obtain ⟨hfilled, hdrained⟩ := h.filling t (by rw [hl])
      have hfull : s.mem.q.count = qDefaultSize := by simpa [Role.blocks, isQueueFull] using hblocks
      have hothers := hcount .consumer
      simp only [through, ← hrole.1, Status.loc_running] at hmore hothers
      simp at hmore hothers
      rw [hmore, hothers, hfilled, hfull]
      exact ⟨rfl, hdrained⟩
  | consumer =>
      obtain ⟨hfilled, hdrained⟩ := h.draining t (by rw [hl])
      have hempty : s.mem.q.count = 0 := by simpa [Role.blocks, isQueueEmpty] using hblocks
      have hothers := hcount .producer
      simp only [through, ← hrole.1, Status.loc_running] at hmore hothers
      simp at hmore hothers
      rw [hempty] at hdrained
      rw [hmore, hothers]
      exact ⟨hfilled, hdrained⟩

end Work

/-- Every step keeps the counts. -/
theorem CountInv.step (h : CountInv role s) (hinv : PcInv (unscripted s)) (hinv' : PcInv (unscripted s'))
    (hran : (scripted (pcProgram τ Nat false) (onceScript role)).Ran s t () s' notes st) :
    CountInv role s' := by
  obtain ⟨hne, st', rfl, hmove⟩ := onceMove_of_ran hran
  have hrole := h.inRole t
  have hquiet := h.quiet hran
  generalize hl : (s.thr t).loc = l at hne hmove hrole hquiet
  obtain ⟨l, called⟩ := l
  generalize hm : s'.mem = m' at hmove hquiet
  dsimp only at hmove hquiet
  cases hmove with
  | call =>
      apply hquiet rfl rfl rfl ⟨rfl, rfl⟩ rfl rfl
      cases called with
      | true => exact absurd rfl hne
      | false => rfl
  | lock hfree => exact hquiet rfl rfl rfl ⟨hrole.1, rfl⟩ rfl rfl rfl
  | wait hblocks => exact hquiet rfl rfl rfl ⟨hrole.1, rfl⟩ rfl rfl rfl
  | unlock => exact hquiet rfl rfl rfl trivial rfl rfl rfl
  | begin hblocks => exact h.begins hinv hinv' hran hl hblocks hm
  | produce hroom => exact h.produces hinv hinv' hran hl hroom hm
  | consume hsome => exact h.consumes hinv hinv' hran hl hsome hm
  | finish hblocks => exact h.finishes hinv hran hl hblocks hm

theorem countInv_reachable (h : (onceMachine role).Reachable s) : CountInv role s := by
  refine h.invariant_of (J := fun s => (onceMachine role).Reachable s) (fun _ hs => hs) ?_ ?_
  · rintro _ rfl
    exact countInv_start
  · intro s a s' hs hcount _ hstep
    have hs' : (onceMachine role).Reachable s' := .step hs trivial hstep
    cases a with
    | run t x picks =>
        obtain ⟨notes, st, hran⟩ := Program.ran_of_step hstep
        exact hcount.step (pcInv_reachable_once hs) (pcInv_reachable_once hs') hran
    | spurious t =>
        obtain ⟨hsp, -⟩ := Program.spurious_of_step hstep
        cases hsp

end Counting

section Weights

/-- What a thread can still do.  When it is done with the queue it may wake up all `N` threads. -/
def onceWeight (N : Nat) : Status Unit (PcLoc × Bool) → Nat
  | .notified _ _ => 3 * N + 5
  | .waiting _ _ => 3 * N + 2
  | .running (.idle, called) => if called then 0 else 3 * N + 5
  | .running (.inFn _ .lock, _) => 3 * N + 4
  | .running (.inFn _ .test, _) => 3 * N + 3
  | .running (.inFn _ .work, _) => 3 * N + 2
  | .running (.inFn _ .unlock, _) => 1

/-- What can still happen. -/
def onceRank (role : τ → Role) (s : OnceConfig τ) : Nat :=
  weigh s.thr (fun _ => onceWeight (Fintype.card τ)) +
    (qDefaultSize * roleCount role .producer - s.mem.produced.length) +
    (qDefaultSize * roleCount role .consumer - s.mem.consumed.length)

/-- Who was woken has no less to do than who is at its location. -/
theorem onceWeight_awake {N : Nat} {st : Status Unit (PcLoc × Bool)} (hawake : st.isWaiting = false) :
    onceWeight N (.running st.loc) ≤ onceWeight N st := by
  cases st with
  | running l => exact Nat.le_refl _
  | waiting c l => cases hawake
  | notified c l =>
      obtain ⟨l, called⟩ := l
      cases l with
      | idle => cases called <;> simp [onceWeight]
      | inFn r p => cases p <;> simp [onceWeight]

/-- **Every step** leaves less to happen. -/
theorem onceRank_lt (h : CountInv role s') (hinv : PcInv (unscripted s'))
    (hran : (scripted (pcProgram τ Nat false) (onceScript role)).Ran s t () s' notes st) :
    onceRank role s' < onceRank role s := by
  obtain ⟨hne, st', rfl, hmove⟩ := onceMove_of_ran hran
  obtain ⟨hp, hc⟩ := h.le hinv
  have hold := onceWeight_awake (N := Fintype.card τ) hran.awake
  -- a notified thread may gain 3, and only the end of a call notifies
  have hle := hran.weigh_le (fun _ => onceWeight (Fintype.card τ)) (g := 3) fun _ _ _ => Nat.le_refl _
  have hsilent : notes = [] → _ := fun hnotes => by
    subst hnotes
    exact hran.weigh_of_nil fun _ => onceWeight (Fintype.card τ)
  unfold onceRank
  generalize hl : (s.thr t).loc = l at hne hmove hold
  obtain ⟨l, called⟩ := l
  generalize s'.mem = m' at hmove hp hc ⊢
  dsimp only at hmove
  cases hmove with
  | call =>
      have heq := hsilent rfl
      have hcalled : called = false := by
        cases called with
        | true => exact absurd rfl hne
        | false => rfl
      subst hcalled
      simp only [Status.map, onceWeight] at heq hold
      simp only [Bool.false_eq_true, if_false] at hold
      omega
  | lock hfree =>
      have heq := hsilent rfl
      simp only [Status.map, onceWeight] at heq hold
      dsimp only
      omega
  | wait hblocks =>
      have heq := hsilent rfl
      simp only [Status.map, onceWeight] at heq hold
      dsimp only
      omega
  | begin hblocks =>
      have heq := hsilent rfl
      simp only [Status.map, onceWeight] at heq hold
      omega
  | produce hroom =>
      have heq := hsilent rfl
      simp only [Status.map, onceWeight] at heq hold
      -- one more integer is produced, so that one fewer is left to be
      simp only [List.length_append, List.length_singleton] at hp ⊢
      omega
  | consume hsome =>
      have heq := hsilent rfl
      simp only [Status.map, onceWeight] at heq hold
      -- one more integer is consumed
      simp only [List.length_append, List.length_singleton] at hc ⊢
      omega
  | finish hblocks =>
      simp only [Status.map, onceWeight] at hle hold
      omega
  | unlock =>
      have heq := hsilent rfl
      simp only [Status.map, onceWeight, if_true] at heq hold
      dsimp only
      omega

end Weights

section Ends

/-- Who is blocked, or was woken, is before the lock of its function. -/
def AtLock : Status Unit (PcLoc × Bool) → Prop
  | .running _ => True
  | .waiting _ l | .notified _ l => ∃ r, l.1 = .inFn r .lock

theorem atLock_reachable (h : (onceMachine role).Reachable s) (t : τ) : AtLock (s.thr t) := by
  have hall : ∀ t, AtLock (s.thr t) := by
    apply Program.invariant _ _ _ h
    · rintro _ rfl t
      exact trivial
    · intro s t x picks s' notes st hinv _ hran
      apply hran.forall_status hinv
      · obtain ⟨-, st', rfl, hmove⟩ := onceMove_of_ran hran
        generalize (s.thr t).loc.1 = l at hmove
        generalize s'.mem = m' at hmove
        cases hmove with
        | @wait r hblocks => exact ⟨r, rfl⟩
        | call | lock | begin | produce | consume | finish | unlock => exact trivial
      · exact fun u c l hl => hl
    · intro s t c l hinv _ hw
      exact forall_status_of_woken hw hinv fun u c l hl => hl
  exact hall t

/-- No assertion fails. -/
theorem once_not_abort (h : (onceMachine role).Reachable s) {x : PcChoice Nat}
    (hawake : (s.thr t).isWaiting = false) : pcExec t (s.thr t).loc.1 x s.mem ≠ .abort := by
  intro habort
  have hinit : ∀ s : OnceConfig τ, s = onceStart τ → unscripted s = newQueue τ Nat := by
    rintro _ rfl
    rfl
  have hreach : (pcMachine τ Nat false).Reachable (unscripted s) := reachable_unscripted hinit h
  apply (prodCons_ok hreach).2 (.run t x [])
  apply Program.step_of_exec_abort
  · rw [unscripted_isWaiting]
    exact hawake
  · rw [unscripted_loc]
    exact habort

/-- A thread that can go on is no thread of a state in which no step is left. -/
theorem ended_of_stuck (h : (onceMachine role).Reachable s)
    (hstuck : (onceMachine role).Stuck (fun _ _ => True) s) (hawake : (s.thr t).isWaiting = false)
    (hfree : (∃ r, (s.thr t).loc.1 = .inFn r .lock) → s.mem.qMutex = none) :
    (s.thr t).loc = (.idle, true) := by
  by_contra hne
  have hask : (onceScript role).ask t (s.thr t).loc.1 (s.thr t).loc.2 s.mem =
      some ⟨role t, newInt s.mem.produced.length⟩ := by
    generalize (s.thr t).loc = l at hne
    obtain ⟨l, called⟩ := l
    cases l with
    | idle =>
        cases called with
        | true => exact absurd rfl hne
        | false => rfl
    | inFn r p => rfl
  rcases pcExec_cases hfree with habort | ⟨m', notes, st, hdone⟩
  · exact once_not_abort h hawake habort
  · exact not_done_of_stuck_script hstuck hawake (fun _ => trivial) hask hdone

/-- Where no step is left, nobody has the mutex. -/
theorem free_of_stuck (h : (onceMachine role).Reachable s)
    (hstuck : (onceMachine role).Stuck (fun _ _ => True) s) : s.mem.qMutex = none := by
  have hmutex := (pcInv_reachable_once h).mutex
  rw [← unscripted_mem, hmutex.free_iff]
  intro t hholds
  rw [unscripted_loc] at hholds
  have hlock : ¬ ∃ r, (s.thr t).loc.1 = .inFn r .lock := by
    rintro ⟨r, hr⟩
    rw [hr] at hholds
    cases hholds
  have hawake : (s.thr t).isWaiting = false := by
    have hat := atLock_reachable h t
    by_contra hw
    obtain ⟨c, l, hl⟩ := Status.isWaiting_iff.mp (by simpa using hw)
    rw [hl] at hat hlock
    exact hlock hat
  rw [ended_of_stuck h hstuck hawake fun hl => absurd hl hlock] at hholds
  cases hholds

/-- Every thread has ended or is blocked for ever. -/
theorem ended_or_waiting (h : (onceMachine role).Reachable s)
    (hstuck : (onceMachine role).Stuck (fun _ _ => True) s) (t : τ) :
    s.thr t = .running (.idle, true) ∨ s.thr t = .waiting () (.inFn (role t) .lock, true) := by
  have hat := atLock_reachable h t
  have hrole := (countInv_reachable h).inRole t
  have hended := ended_of_stuck (t := t) h hstuck
  cases hst : s.thr t with
  | running l =>
      rw [hst] at hended
      exact .inl (congrArg Status.running (hended rfl fun _ => free_of_stuck h hstuck))
  | notified c l =>
      rw [hst] at hended hat
      obtain ⟨r, hr⟩ := hat
      rw [show l = (.idle, true) from hended rfl fun _ => free_of_stuck h hstuck] at hr
      cases hr
  | waiting c l =>
      right
      rw [hst] at hat hrole
      obtain ⟨l, called⟩ := l
      obtain ⟨r, hr⟩ := hat
      dsimp only at hr
      subst hr
      obtain ⟨rfl, hcalled⟩ := hrole
      rw [show called = true from hcalled]

/-- **Where all runs end.** -/
theorem onceOver_of_stuck (h : (onceMachine role).Reachable s)
    (hstuck : (onceMachine role).Stuck (fun _ _ => True) s) : OnceOver role s := by
  have hall := ended_or_waiting h hstuck
  have hinv := pcInv_reachable_once h
  have hcount := countInv_reachable h
  have hcalm : ∀ t, (s.thr t).loc.1.works = false := by
    intro t
    rcases hall t with ht | ht <;> rw [ht] <;> rfl
  obtain ⟨hfilled, hdrained⟩ := hcount.calm hcalm
  rw [throughCount_eq_ended hall] at hfilled hdrained
  have hp := throughCount_le role .producer s
  have hc := throughCount_le role .consumer s
  rw [throughCount_eq_ended hall] at hp hc
  obtain ⟨xs, hholds, hfifo⟩ := hinv.queue
  rw [unscripted_mem] at hholds hfifo
  have hsize := produced_length hinv
  -- who waits has a reason to
  have hreason : ∀ t, s.thr t ≠ .running (.idle, true) → (role t).blocks s.mem.q = true := by
    intro t ht
    have hw := (hall t).resolve_left ht
    have hw' : (unscripted s).thr t = .waiting () (.inFn (role t) .lock) := by
      simp [unscripted, hw, Status.map]
    obtain ⟨r, hr, hblocks⟩ := hinv.waiting t () _ hw'
    cases hr
    exact hblocks fun u => by rw [unscripted_loc]; exact hcalm u
  have hnums : (endedCount role .producer s = roleCount role .producer ∧
        endedCount role .consumer s = roleCount role .producer) ∨
      (endedCount role .consumer s = roleCount role .consumer ∧
        endedCount role .producer s = roleCount role .consumer + 1) := by
    rcases hinv.settled fun u => by rw [unscripted_loc]; exact hcalm u with hempty | hfull
    · left
      have hzero : s.mem.q.count = 0 := by simpa [isQueueEmpty] using hempty
      have hprod : endedCount role .producer s = roleCount role .producer := by
        apply count_of_ended
        intro t ht
        by_contra hne
        have hblocks := hreason t hne
        rw [ht] at hblocks
        have hfive : s.mem.q.count = qDefaultSize := by simpa [Role.blocks, isQueueFull] using hblocks
        rw [hzero] at hfive
        cases hfive
      refine ⟨hprod, ?_⟩
      have hdef : qDefaultSize = 5 := rfl
      rw [hdef] at hfilled hdrained
      omega
    · right
      have hfive : s.mem.q.count = qDefaultSize := by simpa [isQueueFull] using hfull
      have hcons : endedCount role .consumer s = roleCount role .consumer := by
        apply count_of_ended
        intro t ht
        by_contra hne
        have hblocks := hreason t hne
        rw [ht] at hblocks
        have hzero : s.mem.q.count = 0 := by simpa [Role.blocks, isQueueEmpty] using hblocks
        rw [hfive] at hzero
        cases hzero
      refine ⟨hcons, ?_⟩
      have hdef : qDefaultSize = 5 := rfl
      rw [hdef] at hfilled hdrained hfive
      omega
  have hproducers : endedCount role .producer s =
    min (roleCount role .producer) (roleCount role .consumer + 1) := by
    omega
  have hconsumers : endedCount role .consumer s =
    min (roleCount role .consumer) (roleCount role .producer) := by
    omega
  have hproduced := hcount.counts
  rw [hfilled] at hproduced
  refine ⟨hproducers, hconsumers, hall, ?_, hproduced, ?_⟩
  · intro heq t
    cases ht : role t with
    | producer => exact ended_of_count (by omega) ht
    | consumer => exact ended_of_count (by omega) ht
  · rw [hproduced] at hfifo
    have hfirst :
      s.mem.consumed = ((List.range' 1 (qDefaultSize * endedCount role .producer s)).map some).take
        s.mem.consumed.length := by
      rw [hfifo, List.take_left]
    have hle : endedCount role .consumer s ≤ endedCount role .producer s := by omega
    rw [hfirst, hdrained, ← List.map_take, List.take_range'_of_length_ge (Nat.mul_le_mul_left _ hle)]

/-- **Producers and consumers that run once come to rest**, when the integers they produce fit into
an `int`: no assertion fails and `new_int` does not overflow in any run, no run is long, and in
every run that cannot go on as many have ended as the other side allows. -/
theorem prodCons_ends (role : τ → Role)
    (hint : qDefaultSize * min (roleCount role .producer) (roleCount role .consumer + 1) < 2 ^ 31) :
    (onceMachine role).Ends (fun _ _ => True) (onceStart τ)
        (Fintype.card τ * (3 * Fintype.card τ + 5) +
          qDefaultSize * (roleCount role .producer + roleCount role .consumer))
        (OnceOver role) ∧
      ∀ s, (onceMachine role).Reachable s → (∀ a ∈ s.mem.produced, a < 2 ^ 31) ∧
        ∀ a, (onceMachine role).step s a ≠ .abort := by
  constructor
  · have hstart : onceRank role (onceStart τ) = Fintype.card τ * (3 * Fintype.card τ + 5) +
        qDefaultSize * (roleCount role .producer + roleCount role .consumer) := by
      have hsum : weigh (onceStart τ).thr (fun _ => onceWeight (Fintype.card τ)) =
          Fintype.card τ * (3 * Fintype.card τ + 5) :=
        Finset.sum_const_nat fun _ _ => rfl
      unfold onceRank
      rw [hsum, Nat.mul_add qDefaultSize, ← Nat.add_assoc]
      rfl
    rw [← hstart]
    apply Machine.Ends.of_rank (R := fun s k => (onceMachine role).Reachable s ∧ k = onceRank role s)
    · rintro s a s' k ⟨hreach, rfl⟩ _ hstep
      have hreach' : (onceMachine role).Reachable s' := .step hreach trivial hstep
      refine ⟨_, ?_, hreach', rfl⟩
      cases a with
      | run t x picks =>
          obtain ⟨notes, st, hran⟩ := Program.ran_of_step hstep
          exact onceRank_lt (countInv_reachable hreach') (pcInv_reachable_once hreach') hran
      | spurious t =>
          obtain ⟨hsp, -⟩ := Program.spurious_of_step hstep
          cases hsp
    · rintro s k ⟨hreach, -⟩ hstuck
      exact onceOver_of_stuck hreach hstuck
    · exact ⟨.init rfl, rfl⟩
  · intro s hreach
    refine ⟨(countInv_reachable hreach).fits (pcInv_reachable_once hreach) hint, fun a habort => ?_⟩
    cases a with
    | run t x picks =>
        obtain ⟨hawake, hexec⟩ := Program.exec_of_abort habort
        obtain ⟨x', -, hexec'⟩ := scripted_abort hexec
        exact once_not_abort hreach hawake hexec'
    | spurious t => exact Program.not_abort_spurious habort

/-- Two producers and two consumers, as in `main`. -/
def mainRole (t : Bool × Bool) : Role := if t.1 then .producer else .consumer

theorem prodCons_ends_main :
    (onceMachine mainRole).Ends (fun _ _ => True) (onceStart (Bool × Bool)) 88 (OnceOver mainRole) ∧
      ∀ s, (onceMachine mainRole).Reachable s → (∀ a ∈ s.mem.produced, a < 2 ^ 31) ∧
        ∀ a, (onceMachine mainRole).step s a ≠ .abort :=
  prodCons_ends mainRole (by decide)

end Ends

end ProducerConsumer
end MultithreadingBible
