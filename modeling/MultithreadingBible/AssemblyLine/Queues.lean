import MultithreadingBible.AssemblyLine.Flow

/-!
# The queues of a pipeline

The code of `worker_thread_fn` and `asl_enqueue` moves objects through linked queues, under the mutexes of
the queues.  This module shows that it does so as `Flow` says, and that no worker sleeps beside objects.

* `Queued` — the heap holds the queues of the stages, with one lemma for each operation on them.
* `AslMove` — everything a piece of code can do, in terms of the queues.
* `QueuesOk` — what holds in every state of every run.  A worker that found its queue empty holds the
  mutex of the queue until it waits, so whoever fills the queue finds it empty and notifies the worker.
-/

namespace MultithreadingBible
namespace AssemblyLine

open Lib GlueThread

variable {σ γ : Type*}

/-- The books of a pipeline with the queues `L`: the objects it accepted are those it allocated. -/
def Asl.books (m : Asl σ) (L : σ → List Nat) : Books σ :=
  ⟨L, m.allocated, m.path, m.processed, m.emitted⟩

/-- The heap holds the queues `L`. -/
def Queued (heap : Heap (AslAddr σ)) (L : σ → List Nat) : Prop :=
  Forest heap .head (fun S => (L S).map .glue) fun a => ∃ o, a = .glue o

theorem Queued.init : Queued (fun _ => Glthread.null) (fun _ : σ => []) where
  row _ := ⟨rfl, trivial⟩
  nodup _ := List.nodup_nil
  disjoint _ _ _ _ ha := absurd ha List.not_mem_nil
  sub _ _ ha := absurd ha List.not_mem_nil
  head _ := by
    rintro ⟨o, ho⟩
    cases ho
  inj _ _ h := AslAddr.head.inj h
  unlinked _ _ _ := rfl

section Operations

variable [DecidableEq σ] {m : Asl σ} {L : σ → List Nat}

/-- The cells of queues of which one changed. -/
theorem map_update_glue (L : σ → List Nat) (S : σ) (os : List Nat) :
    Function.update (fun S => (L S).map (AslAddr.glue (σ := σ))) S (os.map .glue) =
      fun S' => (Function.update L S os S').map .glue := by
  ext1 S'
  by_cases hS : S' = S
  · subst hS
    simp only [Function.update_self]
  · simp only [Function.update_of_ne hS]

omit [DecidableEq σ] in
theorem Queued.isEmpty (h : Queued m.heap L) (S : σ) :
    isGlthreadListEmpty m.heap (.head S) = true ↔ L S = [] := by
  rw [Forest.isEmpty_head h S, List.map_eq_nil_iff]

/-- A queue with objects gives out the oldest one. -/
theorem Queued.dequeue (h : Queued m.heap L) {S : σ} (hne : L S ≠ []) :
    ∃ o os heap, L S = o :: os ∧ dequeueObject S m = some (o, heap) ∧
      Queued heap (Function.update L S os) := by
  obtain ⟨o, os, hL⟩ := List.exists_cons_of_ne_nil hne
  rcases Forest.dequeueFirst h S with ⟨hnil, -⟩ | ⟨a, zs, hcons, hdequeue, hforest⟩
  · simp [hL] at hnil
  · rw [hL, List.map_cons, List.cons.injEq] at hcons
    obtain ⟨ha, hzs⟩ := hcons
    rw [← hzs, map_update_glue] at hforest
    refine ⟨o, os, _, hL, ?_, hforest⟩
    rw [dequeueObject, hdequeue, ← ha]

/-- An object goes to the end of a queue, and the worker is notified where the queue was empty. -/
theorem Queued.enqueue (h : Queued m.heap L) {S : σ} {o : Nat} (hfree : ∀ S, o ∉ L S)
    (hfuel : (L S).length ≤ m.allocated) :
    ∃ heap, aslStageEnqueue S o m =
        some ({ m with heap := heap }, if L S = [] then [.signal (.stage S)] else []) ∧
      Queued heap (Function.update L S (L S ++ [o])) := by
  have hcell : ∀ S, AslAddr.glue o ∉ (L S).map (AslAddr.glue (σ := σ)) := by
    intro S hmem
    obtain ⟨o', ho', heq⟩ := List.mem_map.mp hmem
    rw [AslAddr.glue.inj heq] at ho'
    exact hfree S ho'
  have hlength : ((L S).map (AslAddr.glue (σ := σ))).length ≤ m.allocated := by
    rwa [List.length_map]
  obtain ⟨heap, hadd, hforest⟩ := Forest.addLast h (i := S) ⟨o, rfl⟩ hcell hlength
  refine ⟨heap, ?_, ?_⟩
  · rw [aslStageEnqueue, hadd]
    simp only [h.isEmpty S, Option.map_some]
  · have hlast : (L S).map AslAddr.glue ++ [AslAddr.glue o] =
        (L S ++ [o]).map (AslAddr.glue (σ := σ)) := by simp
    rw [hlast, map_update_glue] at hforest
    exact hforest

/-- The cell of a new object is clear. -/
theorem Queued.initGlthread (h : Queued m.heap L) {o : Nat} (hfree : ∀ S, o ∉ L S) :
    initGlthread m.heap (.glue o) = m.heap := by
  have hnull : m.heap (.glue o) = Glthread.null := by
    apply h.unlinked _ ⟨o, rfl⟩
    intro S hmem
    obtain ⟨o', ho', heq⟩ := List.mem_map.mp hmem
    rw [AslAddr.glue.inj heq] at ho'
    exact hfree S ho'
  rw [GlueThread.initGlthread, ← hnull, Function.update_eq_self]

end Operations

/-- A worker that holds the mutex of its queue. -/
def AslLoc.holds : AslLoc σ → Bool
  | .check held => held
  | .countOut | .sleep | .countIn => true
  | _ => false

/-- Where workers that run are. -/
def AslLoc.ofWorker : AslLoc σ → Bool
  | .wake | .outside | .accepted _ | .destroy | .drain | .cancel => false
  | _ => true

/-- Where callers of `asl_enqueue` are. -/
def AslLoc.ofCaller : AslLoc σ → Bool
  | .outside | .accepted _ => true
  | _ => false

/-- Where the caller of `asl_destroy` is. -/
def AslLoc.ofDestroyer : AslLoc σ → Bool
  | .destroy | .drain | .cancel => true
  | _ => false

/-- Where each kind of thread may be. -/
inductive Fits : AslThread σ γ → Status (AslCv σ) (AslLoc σ) → Prop
  | worker {S : σ} {l : AslLoc σ} (hl : l.ofWorker = true) : Fits (.worker S) (.running l)
  | asleep {S : σ} : Fits (.worker S) (.waiting (.stage S) .wake)
  | woken {S : σ} : Fits (.worker S) (.notified (.stage S) .wake)
  | caller {c : γ} {l : AslLoc σ} (hl : l.ofCaller = true) : Fits (.caller c) (.running l)
  | destroyer {l : AslLoc σ} (hl : l.ofDestroyer = true) : Fits .destroyer (.running l)
  | draining : Fits .destroyer (.waiting .asl .drain)
  | drained : Fits .destroyer (.notified .asl .drain)

/-- A thread that waits and is notified. -/
theorem Fits.notify {t : AslThread σ γ} {c : AslCv σ} {l : AslLoc σ} (h : Fits t (.waiting c l)) :
    Fits t (.notified c l) := by
  cases h with
  | asleep => exact .woken
  | draining => exact .drained

/-- Only its worker waits for a stage. -/
theorem Fits.eq_worker {t : AslThread σ γ} {S : σ} {l : AslLoc σ} (h : Fits t (.waiting (.stage S) l)) :
    t = .worker S := by
  cases h
  rfl

/-- A worker that found its queue empty and was not notified since. -/
inductive Idle : Status (AslCv σ) (AslLoc σ) → Prop
  | countOut : Idle (.running .countOut)
  | sleep : Idle (.running .sleep)
  | waiting {c : AslCv σ} {l : AslLoc σ} : Idle (.waiting c l)

section Moves

variable [DecidableEq σ]

/-- Everything a piece of code can do. -/
inductive AslMove (next0 : σ → Option σ) (root : σ) (m : Asl σ) (L : σ → List Nat) :
    AslThread σ γ → AslLoc σ → Asl σ → (σ → List Nat) → List (Note (AslCv σ)) →
      Status (AslCv σ) (AslLoc σ) → Prop
  | findEmpty {S : σ} {held : Bool} (hfree : held = false → m.qMutex S = false)
      (hempty : L S = []) :
      AslMove next0 root m L (.worker S) (.check held)
        { m with qMutex := Function.update m.qMutex S true } L [] (.running .countOut)
  | take {S : σ} {held : Bool} {o : Nat} {os : List Nat} {heap : Heap (AslAddr σ)}
      (hqueue : L S = o :: os) (hheap : Queued heap (Function.update L S os)) :
      AslMove next0 root m L (.worker S) (.check held)
        { m with heap := heap, qMutex := Function.update m.qMutex S false }
        (Function.update L S os) [] (.running (.process o))
  | countOut {S : σ} :
      AslMove next0 root m L (.worker S) .countOut (aslWorkersInOperation false m).1 L
        (aslWorkersInOperation false m).2 (.running .sleep)
  | sleep {S : σ} :
      AslMove next0 root m L (.worker S) .sleep
        { m with qMutex := Function.update m.qMutex S false } L [] (.waiting (.stage S) .wake)
  | wake {S : σ} (hfree : m.qMutex S = false) :
      AslMove next0 root m L (.worker S) .wake
        { m with qMutex := Function.update m.qMutex S true } L [] (.running .countIn)
  | countIn {S : σ} :
      AslMove next0 root m L (.worker S) .countIn (aslWorkersInOperation true m).1 L
        (aslWorkersInOperation true m).2 (.running (.check true))
  | process {S : σ} {o : Nat} {answer : Option σ} :
      AslMove next0 root m L (.worker S) (.process o)
        (m.process S o answer (answer.or (next0 S))) L []
        (.running (.leaving o (answer.or (next0 S))))
  | emit {S : σ} {o : Nat} :
      AslMove next0 root m L (.worker S) (.emit o) { m with emitted := m.emitted ++ [o] } L []
        (.running (.check false))
  | handOver {S next : σ} {o : Nat} {heap : Heap (AslAddr σ)} (hfree : m.qMutex next = false)
      (hheap : Queued heap (Function.update L next (L next ++ [o]))) :
      AslMove next0 root m L (.worker S) (.handOver next o) { m with heap := heap }
        (Function.update L next (L next ++ [o]))
        (if L next = [] then [.signal (.stage next)] else []) (.running (.check false))
  | refuse {c : γ} (hclosed : m.acceptNewObject = false) :
      AslMove next0 root m L (.caller c) .outside m L [] (.running .outside)
  | accept {c : γ} (hopen : m.acceptNewObject = true) :
      AslMove next0 root m L (.caller c) .outside { m with allocated := m.allocated + 1 } L []
        (.running (.accepted m.allocated))
  | insert {c : γ} {o : Nat} {heap : Heap (AslAddr σ)} (hfree : m.qMutex root = false)
      (hheap : Queued heap (Function.update L root (L root ++ [o]))) :
      AslMove next0 root m L (.caller c) (.accepted o) { m with heap := heap }
        (Function.update L root (L root ++ [o]))
        (if L root = [] then [.signal (.stage root)] else []) (.running .outside)
  | drain {l : AslLoc σ} {m' : Asl σ}
      (hl : l = .destroy ∧ m' = { m with acceptNewObject := false } ∨ l = .drain ∧ m' = m)
      (hbusy : m.nWorkersInOperation ≠ 0) :
      AslMove next0 root m L .destroyer l m' L [] (.waiting .asl .drain)
  | cancel {l : AslLoc σ} {m' : Asl σ}
      (hl : l = .destroy ∧ m' = { m with acceptNewObject := false } ∨ l = .drain ∧ m' = m)
      (hidle : m.nWorkersInOperation = 0) :
      AslMove next0 root m L .destroyer l m' L [] (.running .cancel)

variable {next0 : σ → Option σ} {root : σ} {m : Asl σ} {L : σ → List Nat} {l : AslLoc σ}

/-- The code does one of the moves, or waits for a mutex. -/
def Moves (next0 : σ → Option σ) (root : σ) (m : Asl σ) (L : σ → List Nat) (t : AslThread σ γ)
    (l : AslLoc σ) (effect : AslEffect σ) : Prop :=
  effect = .blocked ∨ ∃ m' L' notes st, effect = .done m' notes st ∧
    AslMove next0 root m L t l m' L' notes st

theorem workerThreadFn_moves (hheap : Queued m.heap L)
    (hfree : ∀ o, l.object = some o → ∀ S, o ∉ L S) (hfuel : ∀ S, (L S).length ≤ m.allocated)
    (S : σ) (answer : Option σ) :
    Moves (γ := γ) next0 root m L (.worker S) l (workerThreadFn next0 S l answer m) := by
  cases l with
  | check held =>
      simp only [workerThreadFn]
      by_cases hbusy : (!held && m.qMutex S) = true
      · rw [if_pos hbusy]
        exact .inl rfl
      rw [if_neg hbusy]
      by_cases hempty : L S = []
      · rw [if_pos ((hheap.isEmpty S).mpr hempty)]
        refine .inr ⟨_, _, _, _, rfl, .findEmpty ?_ hempty⟩
        rintro rfl
        simpa using hbusy
      · rw [if_neg (mt (hheap.isEmpty S).mp hempty)]
        obtain ⟨o, os, heap, hqueue, hdequeue, hheap'⟩ := hheap.dequeue hempty
        rw [hdequeue]
        exact .inr ⟨_, _, _, _, rfl, .take hqueue hheap'⟩
  | countOut => exact .inr ⟨_, _, _, _, rfl, .countOut⟩
  | sleep => exact .inr ⟨_, _, _, _, rfl, .sleep⟩
  | wake =>
      simp only [workerThreadFn]
      by_cases hbusy : m.qMutex S = true
      · rw [if_pos hbusy]
        exact .inl rfl
      · rw [if_neg hbusy]
        exact .inr ⟨_, _, _, _, rfl, .wake (by simpa using hbusy)⟩
  | countIn => exact .inr ⟨_, _, _, _, rfl, .countIn⟩
  | process o =>
      have hmove : AslMove next0 root m L (.worker S : AslThread σ γ) (.process o)
          (m.process S o answer (answer.or (next0 S))) L []
          (.running (.leaving o (answer.or (next0 S)))) := .process
      refine .inr ⟨_, _, _, _, ?_, hmove⟩
      simp only [workerThreadFn]
      cases answer.or (next0 S) <;> rfl
  | emit o => exact .inr ⟨_, _, _, _, rfl, .emit⟩
  | handOver next o =>
      simp only [workerThreadFn]
      by_cases hbusy : m.qMutex next = true
      · rw [if_pos hbusy]
        exact .inl rfl
      · obtain ⟨heap, henqueue, hheap'⟩ := hheap.enqueue (hfree o rfl) (hfuel next)
        rw [if_neg hbusy, henqueue]
        exact .inr ⟨_, _, _, _, rfl, .handOver (by simpa using hbusy) hheap'⟩
  | _ => exact .inl rfl

theorem aslEnqueue_moves (hheap : Queued m.heap L)
    (hfree : ∀ o, l.object = some o → ∀ S, o ∉ L S) (hnew : ∀ S, m.allocated ∉ L S)
    (hfuel : ∀ S, (L S).length ≤ m.allocated) (c : γ) :
    Moves next0 root m L (.caller c) l (aslEnqueue root l m) := by
  cases l with
  | outside =>
      simp only [aslEnqueue]
      by_cases hclosed : m.acceptNewObject = false
      · rw [if_pos hclosed]
        exact .inr ⟨_, _, _, _, rfl, .refuse hclosed⟩
      · rw [if_neg hclosed, hheap.initGlthread hnew]
        exact .inr ⟨_, _, _, _, rfl, .accept (by simpa using hclosed)⟩
  | accepted o =>
      simp only [aslEnqueue]
      by_cases hbusy : m.qMutex root = true
      · rw [if_pos hbusy]
        exact .inl rfl
      · obtain ⟨heap, henqueue, hheap'⟩ := hheap.enqueue (hfree o rfl) (hfuel root)
        rw [if_neg hbusy, henqueue]
        exact .inr ⟨_, _, _, _, rfl, .insert (by simpa using hbusy) hheap'⟩
  | _ => exact .inl rfl

theorem aslDestroy_moves (destroys : Bool) :
    Moves (γ := γ) next0 root m L .destroyer l (aslDestroy destroys l m) := by
  have hdrain : ∀ m' : Asl σ, m'.nWorkersInOperation = m.nWorkersInOperation →
      (l = .destroy ∧ m' = { m with acceptNewObject := false } ∨ l = .drain ∧ m' = m) →
      Moves (γ := γ) next0 root m L .destroyer l (aslDrain m') := by
    intro m' hcount hl
    unfold aslDrain
    by_cases hidle : m'.nWorkersInOperation = 0
    · rw [if_neg (by simpa using hidle)]
      exact .inr ⟨_, _, _, _, rfl, .cancel hl (hcount ▸ hidle)⟩
    · rw [if_pos hidle]
      exact .inr ⟨_, _, _, _, rfl, .drain hl (hcount ▸ hidle)⟩
  cases l with
  | destroy =>
      cases destroys with
      | false => exact .inl rfl
      | true => exact hdrain _ rfl (.inl ⟨rfl, rfl⟩)
  | drain => exact hdrain _ rfl (.inr ⟨rfl, rfl⟩)
  | _ => exact .inl rfl

/-- Every move is a step of the flow of objects. -/
theorem AslMove.flow {t : AslThread σ γ} {m' : Asl σ} {L' : σ → List Nat}
    {notes : List (Note (AslCv σ))} {st : Status (AslCv σ) (AslLoc σ)}
    (h : AslMove next0 root m L t l m' L' notes st) :
    Flow next0 root t l (m.books L) st.loc (m'.books L') := by
  cases h with
  | take hqueue _ => exact Flow.take (b := m.books L) hqueue
  | process => exact Flow.process (b := m.books L)
  | emit => exact Flow.emit (b := m.books L)
  | handOver _ _ => exact Flow.handOver (b := m.books L)
  | accept _ => exact Flow.accept (b := m.books L)
  | insert _ _ => exact Flow.insert (b := m.books L)
  | drain hl _ =>
      rcases hl with ⟨rfl, rfl⟩ | ⟨rfl, rfl⟩
      · exact .still (b := m.books L) rfl rfl
      · exact .still rfl rfl
  | cancel hl _ =>
      rcases hl with ⟨rfl, rfl⟩ | ⟨rfl, rfl⟩
      · exact .still (b := m.books L) rfl rfl
      · exact .still rfl rfl
  | _ => exact .still (b := m.books L) rfl rfl

section Frame

variable {t : AslThread σ γ} {m' : Asl σ} {L' : σ → List Nat} {notes : List (Note (AslCv σ))}
  {st : Status (AslCv σ) (AslLoc σ)} (h : AslMove next0 root m L t l m' L' notes st)

include h

/-- Every move ends where the thread may be. -/
theorem AslMove.fits : Fits t st := by
  cases h with
  | @process S o answer =>
      apply Fits.worker
      cases answer.or (next0 S) <;> rfl
  | sleep => exact .asleep
  | drain _ _ => exact .draining
  | refuse _ => exact .caller rfl
  | accept _ => exact .caller rfl
  | insert _ _ => exact .caller rfl
  | cancel _ _ => exact .destroyer rfl
  | _ => exact .worker rfl

/-- Nobody but its worker touches the mutex of a queue for longer than one piece of code. -/
theorem AslMove.qMutex_of_ne {S : σ} (hS : t ≠ .worker S) : m'.qMutex S = m.qMutex S := by
  have hother : ∀ {S' : σ} (held : Bool), t = .worker S' →
      Function.update m.qMutex S' held S = m.qMutex S := by
    rintro S' held rfl
    apply Function.update_of_ne
    rintro rfl
    exact hS rfl
  cases h with
  | findEmpty _ _ => exact hother true rfl
  | take _ _ => exact hother false rfl
  | sleep => exact hother false rfl
  | wake _ => exact hother true rfl
  | drain hl _ => rcases hl with ⟨-, rfl⟩ | ⟨-, rfl⟩ <;> rfl
  | cancel hl _ => rcases hl with ⟨-, rfl⟩ | ⟨-, rfl⟩ <;> rfl
  | _ => rfl

theorem AslMove.qMutex_self {S : σ} (hS : t = .worker S) (hmutex : m.qMutex S = l.holds) :
    m'.qMutex S = st.loc.holds := by
  cases h with
  | @process S' o answer =>
      have hholds : (AslLoc.leaving o (answer.or (next0 S'))).holds = false := by
        cases answer.or (next0 S') <;> rfl
      exact hmutex.trans hholds.symm
  | drain _ _ => cases hS
  | cancel _ _ => cases hS
  | refuse _ => cases hS
  | accept _ => cases hS
  | insert _ _ => cases hS
  | handOver _ _ => exact hmutex
  | emit => exact hmutex
  | countOut => exact hmutex
  | countIn => exact hmutex
  | _ =>
      cases hS
      exact Function.update_self _ _ _

/-- A worker that is idle after its move was idle before or found its queue empty. -/
theorem AslMove.idle_self {S : σ} (hS : t = .worker S) (hst : Idle st)
    (hl : l = .countOut ∨ l = .sleep → L S = []) : L' S = [] := by
  cases h with
  | findEmpty _ hempty =>
      cases hS
      exact hempty
  | countOut => exact hl (.inl rfl)
  | sleep => exact hl (.inr rfl)
  | @process S' o answer => cases hdest : answer.or (next0 S') <;> rw [hdest] at hst <;> cases hst
  | drain _ _ => cases hS
  | _ => cases hst

/-- Whoever fills the queue of another worker has its mutex, and notifies it if the queue is empty. -/
theorem AslMove.fills {S : σ} (hS : t ≠ .worker S) :
    L' S = L S ∨ m.qMutex S = false ∧ (L S = [] → .signal (.stage S) ∈ notes) := by
  have hfill : ∀ {S' : σ} (o : Nat), m.qMutex S' = false →
      Function.update L S' (L S' ++ [o]) S = L S ∨ m.qMutex S = false ∧
        (L S = [] → .signal (.stage S) ∈
          (if L S' = [] then [.signal (.stage S')] else [] : List (Note (AslCv σ)))) := by
    intro S' o hfree
    by_cases heq : S = S'
    · subst heq
      refine .inr ⟨hfree, ?_⟩
      intro hempty
      rw [if_pos hempty]
      exact List.mem_singleton_self _
    · exact .inl (Function.update_of_ne heq _ _)
  cases h with
  | @take S' held o os heap _ _ =>
      apply Or.inl
      apply Function.update_of_ne
      rintro rfl
      exact hS rfl
  | handOver hfree _ => exact hfill _ hfree
  | insert hfree _ => exact hfill _ hfree
  | _ => exact .inl rfl

/-- An object is allocated where one is accepted. -/
theorem AslMove.allocated : m'.allocated = m.allocated + acceptances l st := by
  cases h with
  | @process S o answer => cases answer.or (next0 S) <;> rfl
  | drain hl _ => rcases hl with ⟨rfl, rfl⟩ | ⟨rfl, rfl⟩ <;> rfl
  | cancel hl _ => rcases hl with ⟨rfl, rfl⟩ | ⟨rfl, rfl⟩ <;> rfl
  | _ => rfl

/-- The queues stay in the heap. -/
theorem AslMove.queued (hheap : Queued m.heap L) : Queued m'.heap L' := by
  cases h with
  | take _ hheap' => exact hheap'
  | handOver _ hheap' => exact hheap'
  | insert _ hheap' => exact hheap'
  | drain hl _ => rcases hl with ⟨-, rfl⟩ | ⟨-, rfl⟩ <;> exact hheap
  | cancel hl _ => rcases hl with ⟨-, rfl⟩ | ⟨-, rfl⟩ <;> exact hheap
  | _ => exact hheap

end Frame

end Moves

section Invariant

variable [DecidableEq σ] [Fintype σ] [DecidableEq γ] [Fintype γ]

/-- What holds in every state, with the queues `L`. -/
structure QueuesOk (next0 : σ → Option σ) (root : σ) (s : AslConfig σ γ) (L : σ → List Nat) :
    Prop where
  /-- An accepted object is known by the number of its acceptance. -/
  named : s.mem.accepted = s.mem.allocated
  queued : Queued s.mem.heap L
  fits : ∀ t, Fits t (s.thr t)
  mutex : ∀ S, s.mem.qMutex S = (s.thr (.worker S)).loc.holds
  idle : ∀ S, Idle (s.thr (.worker S)) → L S = []
  books : BooksOk next0 root (s.mem.books L) s.thr

variable {next0 : σ → Option σ} {root : σ} {destroys spurious : Bool} {s s' : AslConfig σ γ}
  {L : σ → List Nat} {t : AslThread σ γ}

omit [DecidableEq γ] in
/-- A queue is not longer than the number of allocated objects. -/
theorem QueuesOk.length_le (h : QueuesOk next0 root s L) (S : σ) :
    (L S).length ≤ s.mem.allocated := by
  have hnodup : (L S).Nodup := List.Nodup.of_map _ (h.queued.nodup S)
  have hsub : (L S).toFinset ⊆ Finset.range s.mem.allocated := by
    intro o ho
    exact Finset.mem_range.mpr (h.books.lt_of_mem_queue (List.mem_toFinset.mp ho))
  have hcard := Finset.card_le_card hsub
  rwa [List.toFinset_card_of_nodup hnodup, Finset.card_range] at hcard

/-- From every state of a run a thread can only do one of the moves. -/
theorem QueuesOk.moves (h : QueuesOk next0 root s L) (destroys : Bool) (t : AslThread σ γ)
    (answer : Option σ) :
    Moves next0 root s.mem.toAsl L t (s.thr t).loc
      (aslCode next0 root destroys t (s.thr t).loc answer s.mem.toAsl) := by
  have hfree : ∀ o, (s.thr t).loc.object = some o → ∀ S, o ∉ L S :=
    fun o ho => (h.books.alone ho).2.2.1
  have hnew : ∀ S, s.mem.allocated ∉ L S := fun S hmem => Nat.lt_irrefl _ (h.books.lt_of_mem_queue hmem)
  cases t with
  | worker S => exact workerThreadFn_moves h.queued hfree h.length_le S answer
  | caller c => exact aslEnqueue_moves h.queued hfree hnew h.length_le c
  | destroyer => exact aslDestroy_moves destroys

omit [DecidableEq γ] in
theorem QueuesOk.fresh : QueuesOk next0 root (freshAsl σ γ) (fun _ => []) where
  named := rfl
  queued := Queued.init
  fits t := by cases t <;> constructor <;> rfl
  mutex _ := rfl
  idle _ _ := rfl
  books := by
    have hplaces : ∀ o, places ((freshAsl σ γ).mem.books fun _ => []) (freshAsl σ γ).thr o = 0 := by
      intro o
      have htally : tally (freshAsl σ γ).thr (AslLoc.weight o) = 0 := by
        rw [tally_eq_zero]
        rintro (S | c | _) <;> rfl
      rw [places, htally]
      simp [Asl.books, freshAsl, newAsl]
    constructor
    · intro o
      rw [hplaces]
      rfl
    · exact fun o _ => rfl
    · exact fun S o ho => absurd ho List.not_mem_nil
    · rintro (S | c | _) <;> rfl
    · exact fun o ho => absurd ho List.not_mem_nil
    · exact fun A B => rfl

/-- What a step does: what is seen of it, the queues it leaves, and the move it makes. -/
theorem QueuesOk.exists_move (h : QueuesOk next0 root s L) {answer : Option σ}
    {notes : List (Note (AslCv σ))} {st : Status (AslCv σ) (AslLoc σ)}
    (hran : (aslProgram γ next0 root destroys spurious).Ran s t answer s' notes st) :
    s'.mem.accepted = s.mem.accepted + acceptances (s.thr t).loc st ∧
      ∃ L', AslMove next0 root s.mem.toAsl L t (s.thr t).loc s'.mem.toAsl L' notes st := by
  obtain ⟨asl, hcode, hmem⟩ := Effect.observed_eq_done.mp hran.exec
  rw [← hmem]
  refine ⟨rfl, ?_⟩
  rcases h.moves destroys t answer with hblocked | ⟨m', L', notes', st', hdone, hmove⟩
  · exact absurd (hblocked.symm.trans hcode) (by simp)
  · have heq := hdone.symm.trans hcode
    rw [Effect.done.injEq] at heq
    obtain ⟨rfl, rfl, rfl⟩ := heq
    exact ⟨L', hmove⟩

/-- Idle workers have empty queues after a step as well. -/
theorem QueuesOk.step_idle (h : QueuesOk next0 root s L) {L' : σ → List Nat} {answer : Option σ}
    {notes : List (Note (AslCv σ))} {st : Status (AslCv σ) (AslLoc σ)}
    (hran : (aslProgram γ next0 root destroys spurious).Ran s t answer s' notes st)
    (hmove : AslMove next0 root s.mem.toAsl L t (s.thr t).loc s'.mem.toAsl L' notes st) (S : σ)
    (hidle : Idle (s'.thr (.worker S))) : L' S = [] := by
  by_cases hS : t = .worker S
  · subst hS
    rw [hran.self] at hidle
    apply hmove.idle_self rfl hidle
    intro hl
    apply h.idle S
    -- the worker was awake, so it was on its way to its wait
    have hawake := hran.awake
    cases hthr : s.thr (.worker S) with
    | running l =>
        rw [hthr] at hl
        rcases hl with rfl | rfl
        · exact .countOut
        · exact .sleep
    | waiting c l => simp [hthr] at hawake
    | notified c l =>
        have hfits := h.fits (.worker S)
        rw [hthr] at hfits hl
        cases hfits
        simp at hl
  · rcases hran.other (Ne.symm hS) with hsame | ⟨c, l, -, hnotified, -⟩
    · rw [hsame] at hidle
      rcases hmove.fills hS with hkeep | ⟨hfree, hsignal⟩
      · rw [hkeep]
        exact h.idle S hidle
      · -- the mutex is free, so the worker waits, and gets the signal
        have hholds := h.mutex S
        rw [hfree] at hholds
        have hsent := hsignal (h.idle S hidle)
        have hfits := h.fits (.worker S)
        cases hthr : s.thr (.worker S) with
        | waiting c l =>
            rw [hthr] at hfits
            cases hfits
            obtain ⟨u, l, -, hu, hu'⟩ := hran.signal hsent ⟨_, _, hthr⟩
            have hfitsu := h.fits u
            rw [hu] at hfitsu
            rw [hfitsu.eq_worker, hsame, hthr] at hu'
            cases hu'
        | running l =>
            rw [hthr] at hidle hholds
            cases hidle <;> cases hholds
        | notified c l =>
            rw [hthr] at hidle
            cases hidle
    · rw [hnotified] at hidle
      cases hidle

theorem QueuesOk.run (h : QueuesOk next0 root s L) {answer : Option σ}
    {notes : List (Note (AslCv σ))} {st : Status (AslCv σ) (AslLoc σ)}
    (hran : (aslProgram γ next0 root destroys spurious).Ran s t answer s' notes st) :
    ∃ L', QueuesOk next0 root s' L' := by
  obtain ⟨hseen, L', hmove⟩ := h.exists_move hran
  have hself := hran.self
  refine ⟨L', ?_, hmove.queued h.queued,
    hran.forall_status (p := Fits) h.fits hmove.fits fun _ _ _ hfits => hfits.notify, ?_,
    h.step_idle hran hmove, ?_⟩
  · rw [hseen, h.named, hmove.allocated]
  · intro S
    by_cases hS : t = .worker S
    · rw [← hS, hself]
      exact hmove.qMutex_self hS (by rw [h.mutex S, hS])
    · rw [hmove.qMutex_of_ne hS, hran.loc_of_ne (Ne.symm hS)]
      exact h.mutex S
  · exact h.books.step hmove.flow rfl ⟨by rw [hself], fun u hu => hran.loc_of_ne hu⟩

/-- A wake-up without a notification changes nothing but the status of the thread. -/
theorem QueuesOk.awaken (h : QueuesOk next0 root s L) {c : AslCv σ} {l : AslLoc σ}
    (hthr : s.thr t = .waiting c l) :
    QueuesOk next0 root ⟨s.mem, Function.update s.thr t (.notified c l)⟩ L where
  named := h.named
  queued := h.queued
  fits := forall_status_of_woken (p := Fits) hthr h.fits fun _ _ _ hfits => hfits.notify
  mutex S := by
    show s.mem.qMutex S = (Function.update s.thr t (.notified c l) (.worker S)).loc.holds
    rw [loc_update_notified hthr]
    exact h.mutex S
  idle S hidle := by
    apply h.idle S
    change Idle (Function.update s.thr t (.notified c l) (.worker S)) at hidle
    by_cases hS : AslThread.worker S = t
    · rw [hS, Function.update_self] at hidle
      cases hidle
    · rwa [Function.update_of_ne hS] at hidle
  books := h.books.congr (loc_update_notified hthr)

/-- The invariant, over all runs. -/
theorem reachable_queuesOk (hs : (aslMachine γ next0 root destroys spurious).Reachable s) :
    ∃ L, QueuesOk next0 root s L := by
  apply Program.invariant (I := fun s => ∃ L, QueuesOk next0 root s L) _ _ _ hs
  · rintro _ rfl
    exact ⟨_, QueuesOk.fresh⟩
  · rintro s t x picks s' notes st ⟨L, h⟩ - hran
    exact h.run hran
  · rintro s t c l ⟨L, h⟩ - hthr
    exact ⟨L, h.awaken hthr⟩

end Invariant

end AssemblyLine
end MultithreadingBible
