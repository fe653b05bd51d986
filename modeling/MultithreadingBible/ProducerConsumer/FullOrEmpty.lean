import MultithreadingBible.Lib.CondVar
import MultithreadingBible.Lib.Ownership
import MultithreadingBible.ProducerConsumer.Queue

/-!
# Producers and consumers that leave the queue full or empty

Threads call `prod_fn` and `cons_fn` on one queue.  A producer waits while the queue is full and
then fills it up, a consumer waits while it is empty and then drains it.  All of them wait on one
condition variable.

* `prodFn`, `consFn` — the code; every element is produced or consumed in a step of its own.
* `PcInv` — the invariant: the queue is full or empty unless somebody works on it.
* `prodCons_ok` — assertions never fail, what is consumed is a prefix of what is produced, and whoever is
  blocked has a reason to, unless the queue is being worked on.
-/

namespace MultithreadingBible
namespace ProducerConsumer

open Lib

/-- The functions threads run. -/
inductive Role where
  | producer
  | consumer
  deriving DecidableEq

/-- Where a thread is in its function. -/
inductive Phase where
  /-- About to lock `q_mutex`, at first or at the end of a wait. -/
  | lock
  | test
  /-- In the loop that fills or drains the queue. -/
  | work
  | unlock
  deriving DecidableEq

/-- Where a thread is. -/
inductive PcLoc where
  | idle
  | inFn (r : Role) (p : Phase)
  deriving DecidableEq

/-- The queue with its mutex, and the integers produced and consumed so far. -/
structure PcMem (τ α : Type*) where
  q : Queue α
  qMutex : Option τ
  produced : List α
  consumed : List (Option α)

/-- What a thread calls, and what `new_int` returns. -/
structure PcChoice (α : Type*) where
  call : Role
  newInt : α

/-- All threads wait on `q_cv`. -/
abbrev PcEffect (τ α : Type*) := Effect (PcMem τ α) Unit PcLoc

section Code

variable {τ α : Type*}

/-- `pthread_mutex_lock` -/
def mutexLock (t : τ) (m : PcMem τ α) (l : PcLoc) : PcEffect τ α :=
  match m.qMutex with
  | some _ => .blocked
  | none => .done { m with qMutex := some t } [] (.running l)

def prodFn (t : τ) (p : Phase) (newInt : α) (m : PcMem τ α) : PcEffect τ α :=
  match p with
  | .lock => mutexLock t m (.inFn .producer .test)
  | .test =>
      if isQueueFull m.q then .done { m with qMutex := none } [] (.waiting () (.inFn .producer .lock))
      else if isQueueEmpty m.q then .done m [] (.running (.inFn .producer .work))
      else .abort
  | .work =>
      if !isQueueFull m.q then
        .done { m with q := (enqueue m.q (some newInt)).2, produced := m.produced ++ [newInt] } []
          (.running (.inFn .producer .work))
      else .done m [.broadcast ()] (.running (.inFn .producer .unlock))
  | .unlock => .done { m with qMutex := none } [] (.running .idle)

def consFn (t : τ) (p : Phase) (m : PcMem τ α) : PcEffect τ α :=
  match p with
  | .lock => mutexLock t m (.inFn .consumer .test)
  | .test =>
      if isQueueEmpty m.q then .done { m with qMutex := none } [] (.waiting () (.inFn .consumer .lock))
      else if isQueueFull m.q then .done m [] (.running (.inFn .consumer .work))
      else .abort
  | .work =>
      if !isQueueEmpty m.q then
        .done { m with q := (deque m.q).2, consumed := m.consumed ++ [(deque m.q).1] } []
          (.running (.inFn .consumer .work))
      else .done m [.broadcast ()] (.running (.inFn .consumer .unlock))
  | .unlock => .done { m with qMutex := none } [] (.running .idle)

/-- What a thread does next. -/
def pcExec (t : τ) (l : PcLoc) (x : PcChoice α) (m : PcMem τ α) : PcEffect τ α :=
  match l with
  | .idle => .done m [] (.running (.inFn x.call .lock))
  | .inFn .producer p => prodFn t p x.newInt m
  | .inFn .consumer p => consFn t p m

/-- Producers and consumers of one queue. -/
def pcProgram (τ α : Type*) (spurious : Bool) : Program τ (PcMem τ α) Unit PcLoc (PcChoice α) where
  exec := pcExec
  spuriousWakeups := spurious

abbrev PcConfig (τ α : Type*) := Config τ (PcMem τ α) Unit PcLoc

/-- The start of `main`. -/
def newQueue (τ α : Type*) : PcConfig τ α :=
  ⟨⟨initQ, none, [], []⟩, fun _ => .running .idle⟩

/-- All runs of producers and consumers. -/
def pcMachine (τ α : Type*) [DecidableEq τ] [Fintype τ] (spurious : Bool) :
    Machine (PcConfig τ α) (Act τ (PcChoice α)) :=
  (pcProgram τ α spurious).machine fun s => s = newQueue τ α

/-- The condition of the waiting loop of a function, which ends its working loop. -/
def Role.blocks : Role → Queue α → Bool
  | .producer, q => isQueueFull q
  | .consumer, q => isQueueEmpty q

/-- The threads that have `q_mutex`. -/
def PcLoc.holds : PcLoc → Bool
  | .inFn _ .test | .inFn _ .work | .inFn _ .unlock => true
  | _ => false

/-- The threads that fill or drain the queue. -/
def PcLoc.works : PcLoc → Bool
  | .inFn _ .work => true
  | _ => false

theorem PcLoc.holds_of_works {l : PcLoc} (h : l.works = true) : l.holds = true := by
  cases l with
  | idle => cases h
  | inFn r p => cases p <;> first | rfl | cases h

end Code

section Moves

variable {τ α : Type*} {t : τ} {x : PcChoice α} {m m' : PcMem τ α} {notes : List (Note Unit)}
  {st : Status Unit PcLoc}

/-- Everything a step of a thread can do. -/
inductive PcMove (t : τ) (x : PcChoice α) (m : PcMem τ α) :
    PcLoc → PcMem τ α → List (Note Unit) → Status Unit PcLoc → Prop
  | call : PcMove t x m .idle m [] (.running (.inFn x.call .lock))
  | lock {r : Role} (hfree : m.qMutex = none) :
      PcMove t x m (.inFn r .lock) { m with qMutex := some t } [] (.running (.inFn r .test))
  | wait {r : Role} (hblocks : r.blocks m.q = true) :
      PcMove t x m (.inFn r .test) { m with qMutex := none } [] (.waiting () (.inFn r .lock))
  | begin {r : Role} (hblocks : r.blocks m.q = false) :
      PcMove t x m (.inFn r .test) m [] (.running (.inFn r .work))
  | produce (hroom : isQueueFull m.q = false) :
      PcMove t x m (.inFn .producer .work)
        { m with q := (enqueue m.q (some x.newInt)).2, produced := m.produced ++ [x.newInt] } []
        (.running (.inFn .producer .work))
  | consume (hsome : isQueueEmpty m.q = false) :
      PcMove t x m (.inFn .consumer .work)
        { m with q := (deque m.q).2, consumed := m.consumed ++ [(deque m.q).1] } []
        (.running (.inFn .consumer .work))
  | finish {r : Role} (hblocks : r.blocks m.q = true) :
      PcMove t x m (.inFn r .work) m [.broadcast ()] (.running (.inFn r .unlock))
  | unlock {r : Role} :
      PcMove t x m (.inFn r .unlock) { m with qMutex := none } [] (.running .idle)

theorem pcMove_of_lock {r : Role} (h : mutexLock t m (.inFn r .test) = .done m' notes st) :
    PcMove t x m (.inFn r .lock) m' notes st := by
  unfold mutexLock at h
  split at h
  · cases h
  · next hfree =>
    cases h
    exact .lock hfree

theorem pcMove_of_exec {l : PcLoc} (h : pcExec t l x m = .done m' notes st) :
    PcMove t x m l m' notes st := by
  cases l with
  | idle =>
      cases h
      exact .call
  | inFn r p =>
      cases r with
      | producer =>
          cases p with
          | lock => exact pcMove_of_lock h
          | test =>
              simp only [pcExec, prodFn] at h
              split at h
              · next hfull =>
                cases h
                exact .wait hfull
              · next hroom =>
                split at h
                · cases h
                  exact .begin (Bool.eq_false_iff.mpr hroom)
                · cases h
          | work =>
              simp only [pcExec, prodFn] at h
              split at h
              · next hroom =>
                cases h
                exact .produce (by simpa using hroom)
              · next hfull =>
                cases h
                exact .finish (by simpa [Role.blocks] using hfull)
          | unlock =>
              cases h
              exact .unlock
      | consumer =>
          cases p with
          | lock => exact pcMove_of_lock h
          | test =>
              simp only [pcExec, consFn] at h
              split at h
              · next hempty =>
                cases h
                exact .wait hempty
              · next hsome =>
                split at h
                · cases h
                  exact .begin (Bool.eq_false_iff.mpr hsome)
                · cases h
          | work =>
              simp only [pcExec, consFn] at h
              split at h
              · next hsome =>
                cases h
                exact .consume (by simpa using hsome)
              · next hempty =>
                cases h
                exact .finish (by simpa [Role.blocks] using hempty)
          | unlock =>
              cases h
              exact .unlock

/-- A thread aborts only where it finds the queue neither full nor empty. -/
theorem abort_of_exec {l : PcLoc} (h : pcExec t l x m = .abort) :
    l.holds = true ∧ l.works = false ∧ isQueueEmpty m.q = false ∧ isQueueFull m.q = false := by
  have hlock : ∀ l, mutexLock t m l ≠ .abort := by
    intro l hl
    unfold mutexLock at hl
    split at hl <;> cases hl
  cases l with
  | idle => cases h
  | inFn r p =>
      cases r with
      | producer =>
          cases p with
          | lock => exact absurd h (hlock _)
          | test =>
              simp only [pcExec, prodFn] at h
              split at h
              · cases h
              · next hroom =>
                split at h
                · cases h
                · next hsome =>
                  exact ⟨rfl, rfl, Bool.eq_false_iff.mpr hsome, Bool.eq_false_iff.mpr hroom⟩
          | work =>
              simp only [pcExec, prodFn] at h
              split at h <;> cases h
          | unlock => cases h
      | consumer =>
          cases p with
          | lock => exact absurd h (hlock _)
          | test =>
              simp only [pcExec, consFn] at h
              split at h
              · cases h
              · next hsome =>
                split at h
                · cases h
                · next hroom =>
                  exact ⟨rfl, rfl, Bool.eq_false_iff.mpr hsome, Bool.eq_false_iff.mpr hroom⟩
          | work =>
              simp only [pcExec, consFn] at h
              split at h <;> cases h
          | unlock => cases h

end Moves

variable {τ α : Type*} [DecidableEq τ] {s s' : PcConfig τ α} {t : τ} {spurious : Bool}

/-- The invariant. -/
structure PcInv (s : PcConfig τ α) : Prop where
  mutex : HeldBy s.mem.qMutex fun t => (s.thr t).loc.holds = true
  queue : ∃ xs, s.mem.q.Holds xs ∧ s.mem.produced.map some = s.mem.consumed ++ xs.map some
  settled : (∀ t, (s.thr t).loc.works = false) →
    isQueueEmpty s.mem.q = true ∨ isQueueFull s.mem.q = true
  waiting : ∀ t c l, s.thr t = .waiting c l → ∃ r, l = .inFn r .lock ∧
    ((∀ t, (s.thr t).loc.works = false) → r.blocks s.mem.q = true)

section Steps

variable {x : PcChoice α} {notes : List (Note Unit)} {st : Status Unit PcLoc}

/-- What a step has to show about the queue: that it is being worked on, that it is as before, or that the
loop just ended. -/
def Accounted (s s' : PcConfig τ α) (notes : List (Note Unit)) (l l' : PcLoc) : Prop :=
  l'.works = true ∨ (l.works = false ∧ s'.mem.q = s.mem.q) ∨
    ∃ r : Role, r.blocks s'.mem.q = true ∧ notes = [.broadcast ()]

theorem PcInv.step_of (h : PcInv s) (hran : (pcProgram τ α spurious).Ran s t x s' notes st)
    (hmutex : HeldBy s'.mem.qMutex fun t => (s'.thr t).loc.holds = true)
    (hqueue : ∃ xs, s'.mem.q.Holds xs ∧ s'.mem.produced.map some = s'.mem.consumed ++ xs.map some)
    (hacc : Accounted s s' notes (s.thr t).loc st.loc)
    (hwait : ∀ c l, st = .waiting c l → ∃ r, l = .inFn r .lock ∧ r.blocks s'.mem.q = true) :
    PcInv s' := by
  have hself := hran.self
  -- nobody works after a step by which nobody starts to
  have hcalm : (s.thr t).loc.works = false → (∀ u, (s'.thr u).loc.works = false) →
      ∀ u, (s.thr u).loc.works = false := by
    intro ht hall u
    by_cases hu : u = t
    · rw [hu, ht]
    · rw [← hran.loc_of_ne hu]
      exact hall u
  refine ⟨hmutex, hqueue, ?_, ?_⟩
  · intro hall
    rcases hacc with hworks | ⟨ht, hq⟩ | ⟨r, hr, -⟩
    · rw [← hself, hall t] at hworks
      cases hworks
    · rw [hq]
      exact h.settled (hcalm ht hall)
    · cases r with
      | producer => exact .inr hr
      | consumer => exact .inl hr
  · intro u c l hw
    by_cases hu : u = t
    · rw [hu, hself] at hw
      obtain ⟨r, hl, hr⟩ := hwait c l hw
      exact ⟨r, hl, fun _ => hr⟩
    · obtain ⟨r, hl, hr⟩ := h.waiting u c l (hran.waiting_of_ne hu hw)
      refine ⟨r, hl, fun hall => ?_⟩
      rcases hacc with hworks | ⟨ht, hq⟩ | ⟨-, -, hnotes⟩
      · rw [← hself, hall t] at hworks
        cases hworks
      · rw [hq]
        exact hr (hcalm ht hall)
      · exact absurd hw (hran.broadcast (by rw [hnotes]; exact List.mem_singleton_self _) hu l)

/-- Every step keeps the invariant. -/
theorem PcInv.step (h : PcInv s) (hran : (pcProgram τ α spurious).Ran s t x s' notes st) :
    PcInv s' := by
  have hmove := pcMove_of_exec hran.exec
  have hother : ∀ u, u ≠ t → ((s'.thr u).loc.holds = true ↔ (s.thr u).loc.holds = true) := by
    intro u hu
    rw [hran.loc_of_ne hu]
  -- who moves keeps the mutex, or gives it up
  have hkeep : (s.thr t).loc.holds = st.loc.holds →
      HeldBy s.mem.qMutex fun t => (s'.thr t).loc.holds = true := by
    intro hsame
    refine h.mutex.keep fun u => ?_
    by_cases hu : u = t
    · rw [hu, hran.self, hsame]
    · exact hother u hu
  have hrelease : (s.thr t).loc.holds = true → st.loc.holds = false →
      HeldBy none fun t => (s'.thr t).loc.holds = true := by
    intro hheld hfree
    refine h.mutex.release hheld ?_ hother
    rw [hran.self, hfree]
    exact Bool.false_ne_true
  obtain ⟨xs, hholds, hfifo⟩ := h.queue
  generalize hl : (s.thr t).loc = l at hmove hkeep hrelease
  generalize hm : s'.mem = m' at hmove
  cases hmove with
  | call =>
      apply h.step_of hran
      · rw [hm]
        exact hkeep rfl
      · rw [hm]
        exact h.queue
      · rw [hl]
        exact .inr (.inl ⟨rfl, by rw [hm]⟩)
      · exact fun c l hw => (by cases hw)
  | lock hfree =>
      have hnone := h.mutex
      rw [hfree] at hnone
      apply h.step_of hran
      · rw [hm]
        exact hnone.acquire (by rw [hran.self]; rfl) hother
      · rw [hm]
        exact h.queue
      · rw [hl]
        exact .inr (.inl ⟨rfl, by rw [hm]⟩)
      · exact fun c l hw => (by cases hw)
  | @wait r hblocks =>
      apply h.step_of hran
      · rw [hm]
        exact hrelease rfl rfl
      · rw [hm]
        exact h.queue
      · rw [hl]
        exact .inr (.inl ⟨rfl, by rw [hm]⟩)
      · intro c l hw
        cases hw
        rw [hm]
        -- it waits because the queue is as it found it
        exact ⟨r, rfl, hblocks⟩
  | begin hblocks =>
      apply h.step_of hran
      · rw [hm]
        exact hkeep rfl
      · rw [hm]
        exact h.queue
      · exact .inl rfl
      · exact fun c l hw => (by cases hw)
  | produce hroom =>
      apply h.step_of hran
      · rw [hm]
        exact hkeep rfl
      · rw [hm]
        -- the new integer goes to the end of the queue
        refine ⟨xs ++ [x.newInt], enqueue_spec hholds hroom x.newInt, ?_⟩
        show (s.mem.produced ++ [x.newInt]).map some = s.mem.consumed ++ (xs ++ [x.newInt]).map some
        rw [List.map_append, hfifo, List.map_append, List.append_assoc]
      · exact .inl rfl
      · exact fun c l hw => (by cases hw)
  | consume hsome =>
      -- the queue was not empty: its first integer is consumed
      obtain ⟨y, ys, rfl⟩ : ∃ y ys, xs = y :: ys := by
        apply List.exists_cons_of_ne_nil
        rw [ne_eq, ← isQueueEmpty_iff hholds, hsome]
        exact Bool.false_ne_true
      obtain ⟨hfirst, hrest⟩ := deque_spec hholds
      apply h.step_of hran
      · rw [hm]
        exact hkeep rfl
      · rw [hm]
        refine ⟨ys, hrest, ?_⟩
        show s.mem.produced.map some = (s.mem.consumed ++ [(deque s.mem.q).1]) ++ ys.map some
        rw [hfifo, hfirst, List.append_assoc]
        rfl
      · exact .inl rfl
      · exact fun c l hw => (by cases hw)
  | @finish r hblocks =>
      apply h.step_of hran
      · rw [hm]
        exact hkeep rfl
      · rw [hm]
        exact h.queue
      · exact .inr (.inr ⟨r, by rw [hm]; exact hblocks, rfl⟩)
      · exact fun c l hw => (by cases hw)
  | unlock =>
      apply h.step_of hran
      · rw [hm]
        exact hrelease rfl rfl
      · rw [hm]
        exact h.queue
      · rw [hl]
        exact .inr (.inl ⟨rfl, by rw [hm]⟩)
      · exact fun c l hw => (by cases hw)

omit [DecidableEq τ] in
theorem PcInv.fresh : PcInv (newQueue τ α) where
  mutex t := iff_of_false (by simp [newQueue]) Bool.false_ne_true
  queue := ⟨[], holds_initQ, rfl⟩
  settled _ := .inl rfl
  waiting t c l hw := by cases hw

/-- Whoever is woken without a notification keeps its place. -/
theorem PcInv.step_spurious (h : PcInv s) {c : Unit} {l : PcLoc} (hw : s.thr t = .waiting c l) :
    PcInv ⟨s.mem, Function.update s.thr t (.notified c l)⟩ := by
  have hcalm : (∀ u, (Function.update s.thr t (.notified c l) u).loc.works = false) →
      ∀ u, (s.thr u).loc.works = false := by
    intro hall u
    rw [← loc_update_notified hw]
    exact hall u
  constructor
  · refine h.mutex.keep fun u => ?_
    rw [loc_update_notified hw]
  · exact h.queue
  · exact fun hall => h.settled (hcalm hall)
  · intro u c' l' hu
    obtain ⟨r, hl, hr⟩ := h.waiting u c' l' (waiting_of_update_notified hu)
    exact ⟨r, hl, fun hall => hr (hcalm hall)⟩

theorem reachable_pcInv [Fintype τ] (hs : (pcMachine τ α spurious).Reachable s) : PcInv s := by
  apply Program.invariant _ _ _ hs
  · rintro _ rfl
    exact PcInv.fresh
  · intro s t x picks s' notes st h _ hran
    exact h.step hran
  · intro s t c l h _ hw
    exact h.step_spurious hw

end Steps

section Results

/-- What the solution promises in every state it reaches. -/
structure FullOrEmpty (s : PcConfig τ α) : Prop where
  free : s.mem.qMutex = none → isQueueEmpty s.mem.q = true ∨ isQueueFull s.mem.q = true
  fifo : s.mem.consumed <+: s.mem.produced.map some
  /-- Whoever is blocked has a reason to, unless somebody has the mutex and works on the queue. -/
  awake : ∀ t c l, s.thr t = .waiting c l → ∃ r, l = .inFn r .lock ∧
    (r.blocks s.mem.q = true ∨ ∃ u, s.mem.qMutex = some u ∧ (s.thr u).loc.works = true)

omit [DecidableEq τ] in
theorem PcInv.fullOrEmpty (h : PcInv s) : FullOrEmpty s where
  free hfree := by
    apply h.settled
    intro t
    rw [Bool.eq_false_iff]
    exact fun ht => h.mutex.free_iff.mp hfree t (PcLoc.holds_of_works ht)
  fifo := by
    obtain ⟨xs, -, hfifo⟩ := h.queue
    rw [hfifo]
    exact List.prefix_append _ _
  awake t c l hw := by
    obtain ⟨r, hl, hr⟩ := h.waiting t c l hw
    refine ⟨r, hl, ?_⟩
    by_cases hwork : ∃ u, (s.thr u).loc.works = true
    · obtain ⟨u, hu⟩ := hwork
      exact .inr ⟨u, (h.mutex u).mpr (PcLoc.holds_of_works hu), hu⟩
    · rw [not_exists] at hwork
      exact .inl (hr fun u => Bool.eq_false_iff.mpr (hwork u))

/-- **Producers and consumers leave the queue full or empty**, whatever wakes them, and their assertions
never fail. -/
theorem prodCons_ok [Fintype τ] (hs : (pcMachine τ α spurious).Reachable s) :
    FullOrEmpty s ∧ ∀ a, (pcMachine τ α spurious).step s a ≠ .abort := by
  have h := reachable_pcInv hs
  refine ⟨h.fullOrEmpty, ?_⟩
  intro a habort
  cases a with
  | run t x picks =>
      obtain ⟨hholds, hworks, hsome, hroom⟩ := abort_of_exec (Program.exec_of_abort habort).2
      -- the thread has the mutex, so nobody else works
      have hcalm : ∀ u, (s.thr u).loc.works = false := by
        intro u
        cases hu : (s.thr u).loc.works with
        | false => rfl
        | true =>
            rw [h.mutex.eq (PcLoc.holds_of_works hu) hholds, hworks] at hu
            cases hu
      rcases h.settled hcalm with hempty | hfull
      · rw [hsome] at hempty
        cases hempty
      · rw [hroom] at hfull
        cases hfull
  | spurious t => exact Program.not_abort_spurious habort

/-- A consumer waits, a producer fills the queue, and another one finds it full. -/
theorem prodCons_ok_trace : ∃ s : PcConfig (Fin 3) Nat, FullOrEmpty s ∧
    s.mem.produced = [7, 8, 9, 10, 11] ∧ s.thr 2 = .waiting () (.inFn .producer .lock) := by
  have hrun : ((pcMachine (Fin 3) Nat true).exec (newQueue (Fin 3) Nat)
      (List.flatten [List.replicate 3 (.run 0 ⟨.consumer, 7⟩ []),
        List.replicate 3 (.run 1 ⟨.producer, 7⟩ []),
        [.run 1 ⟨.producer, 7⟩ [], .run 1 ⟨.producer, 8⟩ [], .run 1 ⟨.producer, 9⟩ [],
          .run 1 ⟨.producer, 10⟩ [], .run 1 ⟨.producer, 11⟩ [], .run 1 ⟨.producer, 12⟩ [],
          .run 1 ⟨.producer, 12⟩ []],
        List.replicate 3 (.run 2 ⟨.producer, 12⟩ [])])).holds
      (fun s => decide (s.mem.produced = [7, 8, 9, 10, 11] ∧
        s.thr 2 = .waiting () (.inFn .producer .lock))) = true := by
    decide +kernel
  obtain ⟨s, hs, hp⟩ := Machine.exists_reachable_of_exec rfl hrun
  exact ⟨s, (prodCons_ok hs).1, of_decide_eq_true hp⟩

/-- While a producer fills the queue a consumer is blocked although the queue is not empty any more. -/
theorem prodCons_blocked : ∃ s : PcConfig (Fin 2) Nat, (pcMachine (Fin 2) Nat false).Reachable s ∧
    s.thr 0 = .waiting () (.inFn .consumer .lock) ∧ isQueueEmpty s.mem.q = false ∧
    s.mem.qMutex = some 1 := by
  have hrun : ((pcMachine (Fin 2) Nat false).exec (newQueue (Fin 2) Nat)
      (List.flatten [List.replicate 3 (.run 0 ⟨.consumer, 7⟩ []),
        List.replicate 4 (.run 1 ⟨.producer, 7⟩ [])])).holds
      (fun s => decide (s.thr 0 = .waiting () (.inFn .consumer .lock) ∧
        isQueueEmpty s.mem.q = false ∧ s.mem.qMutex = some 1)) = true := by
    decide +kernel
  obtain ⟨s, hs, hp⟩ := Machine.exists_reachable_of_exec rfl hrun
  exact ⟨s, hs, of_decide_eq_true hp⟩

end Results

end ProducerConsumer
end MultithreadingBible
