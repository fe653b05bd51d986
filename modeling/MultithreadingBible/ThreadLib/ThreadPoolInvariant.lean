import MultithreadingBible.ThreadLib.ThreadPool

/-!
# The invariant of a thread pool

A thread is linked into the pool and asleep, or one dispatch has it checked out.  The dispatch writes
its task into a thread that sleeps, so that no other task is read from there; the thread wakes up when
it is fired, invokes the task, and only then is linked in again, in the same critical section in which
it falls asleep.

* `Linked` — the pool list as a set of threads, with one rule for each of its operations.
* `PoolOk` — what the callers may rely on.
* `WorkerPhase` / `CallerPhase` — where a thread is in its work cycle, and a caller in its dispatch.
* `PoolInv` — the invariant, and what the parts of it depend on.
-/

namespace MultithreadingBible
namespace ThreadLib

open Lib GlueThread

section List

variable {ω : Type*} {hp : Heap (PoolAddr ω)} {P : ω → Prop} {w : ω}

/-- The pool list has the threads with `P` as its members, each of them once. -/
def Linked (hp : Heap (PoolAddr ω)) (P : ω → Prop) : Prop :=
  ∃ L : List (PoolAddr ω), Forest hp (fun _ : Unit => PoolAddr.head) (fun _ => L)
      (fun a => ∃ w, a = .waitGlue w) ∧
    ∀ w, .waitGlue w ∈ L ↔ P w

theorem Linked.congr {Q : ω → Prop} (h : Linked hp P) (hPQ : ∀ w, P w ↔ Q w) : Linked hp Q := by
  obtain ⟨L, hforest, hmem⟩ := h
  exact ⟨L, hforest, fun w => (hmem w).trans (hPQ w)⟩

theorem Linked.isEmpty (h : Linked hp P) :
    isGlthreadListEmpty hp (.waitGlue w) = true ↔ ¬ P w := by
  obtain ⟨L, hforest, hmem⟩ := h
  rw [hforest.isEmpty_cell ⟨w, rfl⟩, ← hmem w]
  exact ⟨fun hno => hno (), fun hno _ => hno⟩

private theorem update_unit {α : Type*} (f g : Unit → α) :
    Function.update f () (g ()) = fun _ => g () := by
  funext u
  cases u
  exact Function.update_self ..

variable [DecidableEq ω] [Fintype ω]

theorem Linked.length_le {L : List (PoolAddr ω)}
    (h : Forest hp (fun _ : Unit => PoolAddr.head) (fun _ => L) (fun a => ∃ w, a = .waitGlue w)) :
    L.length ≤ Fintype.card ω :=
  length_le_card PoolAddr.waitGlue (h.nodup ()) (h.sub ())

/-- The list as an iteration shows it. -/
theorem Linked.iterate (h : Linked hp P) :
    ∃ ws : List ω, iterateGlthread hp (Fintype.card ω) (base hp .head) =
        some (ws.map PoolAddr.waitGlue) ∧ ws.Nodup ∧ ∀ w, w ∈ ws ↔ P w := by
  obtain ⟨L, hforest, hmem⟩ := h
  have hall : ∀ L : List (PoolAddr ω), (∀ a ∈ L, ∃ w, a = .waitGlue w) →
      ∃ ws : List ω, L = ws.map PoolAddr.waitGlue := by
    intro L
    induction L with
    | nil => exact fun _ => ⟨[], rfl⟩
    | cons a L ih =>
        intro hsub
        obtain ⟨w, rfl⟩ := hsub a (by simp)
        obtain ⟨ws, rfl⟩ := ih fun a ha => hsub a (by simp [ha])
        exact ⟨w :: ws, rfl⟩
  obtain ⟨ws, rfl⟩ := hall L (hforest.sub ())
  refine ⟨ws, hforest.iterate (i := ()) (Linked.length_le hforest), ?_, ?_⟩
  · exact List.Nodup.of_map _ (hforest.nodup ())
  · intro w
    rw [← hmem w]
    simp

theorem Linked.insert (h : Linked hp P) (compFn : PoolAddr ω → PoolAddr ω → Int) (hw : ¬ P w) :
    ∃ hp', poolInsert compFn hp w = some hp' ∧ Linked hp' fun v => v = w ∨ P v := by
  obtain ⟨L, hforest, hmem⟩ := h
  have hfree : PoolAddr.waitGlue w ∉ L := mt (hmem w).mp hw
  obtain ⟨hp', hins, hforest'⟩ := hforest.priorityInsert (i := ()) ⟨w, rfl⟩ (fun _ => hfree)
    (Linked.length_le hforest)
  rw [update_unit _ fun _ => insertBefore compFn (.waitGlue w) L] at hforest'
  refine ⟨hp', hins, _, hforest', ?_⟩
  intro v
  rw [(perm_insertBefore compFn _ L).mem_iff, List.mem_cons, hmem v]
  simp

omit [Fintype ω] in
theorem Linked.get {τ F A : Type*} {m : PoolMem τ ω F A} (h : Linked m.heap P) :
    threadPoolGetThread m = (none, m) ∨
      ∃ w hp', P w ∧ threadPoolGetThread m = (some w, { m with heap := hp' }) ∧
        Linked hp' fun v => v ≠ w ∧ P v := by
  obtain ⟨L, hforest, hmem⟩ := h
  rcases hforest.dequeueFirst () with ⟨-, hdeq⟩ | ⟨a, zs, hL, hdeq, hforest'⟩
  · exact .inl (by simp [threadPoolGetThread, hdeq])
  · obtain ⟨w, rfl⟩ := hforest.sub () a (by simp [hL])
    rw [update_unit _ fun _ => zs] at hforest'
    refine .inr ⟨w, _, (hmem w).mp (by simp [hL]), by simp [threadPoolGetThread, hdeq,
      waitGlueToThread], zs, hforest', ?_⟩
    intro v
    have hnd := hforest.nodup ()
    simp only [hL, List.nodup_cons] at hnd
    show _ ↔ v ≠ w ∧ P v
    rw [← hmem v, hL, List.mem_cons]
    constructor
    · intro hv
      refine ⟨?_, .inr hv⟩
      rintro rfl
      exact hnd.1 hv
    · rintro ⟨hne, heq | hv⟩
      · cases heq
        exact absurd rfl hne
      · exact hv

end List

variable {τ ω F A : Type*}

/-- The dispatch with the number `d` got the thread it names. -/
def Known (m : PoolMem τ ω F A) (d : Nat) (D : Dispatch τ ω F A) : Prop :=
  m.dispatches[d]? = some D

instance [DecidableEq τ] [DecidableEq ω] [DecidableEq F] [DecidableEq A] (m : PoolMem τ ω F A)
    (d : Nat) (D : Dispatch τ ω F A) :
    Decidable (Known m d D) :=
  inferInstanceAs (Decidable (m.dispatches[d]? = some D))

/-- The thread belongs to the pool and no dispatch has it. -/
def Rests (m : PoolMem τ ω F A) (w : ω) : Prop :=
  m.inserted w = true ∧ m.checkedOut w = none

/-- The invocations for one dispatch. -/
def PoolMem.invocations (m : PoolMem τ ω F A) (d : Nat) : List (Invocation ω F A) :=
  m.invoked.filter fun e => e.dispatch == some d

/-- The invocation a dispatch asks for. -/
def Dispatch.invocation (D : Dispatch τ ω F A) (d : Nat) : Invocation ω F A :=
  ⟨D.thread, some d, D.fn, D.arg⟩

/-- The thread is blocked on its condition variable, or was not started yet. -/
def Asleep (s : PoolConfig τ ω F A) (w : ω) : Prop :=
  (s.thr (.inr w) = .running .notStarted ∧ (s.mem.thread w).threadCreated = false) ∨
    (s.thr (.inr w) = .waiting w .parked ∧ (s.mem.thread w).threadCreated = true)

/-- Before the dispatch fired the thread. -/
def Stage1.prepares : Stage1 → Bool
  | .setSemaphore | .setFn | .setArg | .fire => true
  | .semWait | .clearSemaphore => false

/-- What the pool guarantees. -/
structure PoolOk [Fintype ω] (s : PoolConfig τ ω F A) : Prop where
  /-- The pool list holds the threads that no dispatch has, each of them once. -/
  linked : ∃ ws : List ω, iterateGlthread s.mem.heap (Fintype.card ω) (base s.mem.heap .head) =
      some (ws.map PoolAddr.waitGlue) ∧ ws.Nodup ∧ ∀ w, w ∈ ws ↔ Rests s.mem w
  /-- They are asleep. -/
  asleep : ∀ w, Rests s.mem w → Asleep s w
  /-- A checked-out thread was checked out by a dispatch of its own. -/
  holder : ∀ w d, s.mem.checkedOut w = some d →
    s.mem.inserted w = true ∧ ∃ D, Known s.mem d D ∧ D.thread = w
  /-- A caller is in its own dispatch, and has the thread checked out until it fired it. -/
  caller : ∀ c pc d D, s.thr (.inl c) = .running (.stage1 pc d D) →
    Known s.mem d D ∧ D.caller = c ∧
      (pc.prepares = true → s.mem.checkedOut D.thread = some d)
  /-- What is invoked is what the dispatch that has the thread asked for. -/
  own : ∀ e ∈ s.mem.invoked, ∃ d D, Known s.mem d D ∧ e = D.invocation d
  atMostOnce : ∀ d, (s.mem.invocations d).length ≤ 1
  /-- The task of a dispatch that has given its thread back was invoked. -/
  once : ∀ d D, Known s.mem d D → s.mem.checkedOut D.thread ≠ some d →
    s.mem.invocations d = [D.invocation d]

/-- A fired thread before it invokes its task. -/
inductive Fired (D : Dispatch τ ω F A) : Status ω (PoolLoc τ ω F A) → Prop
  | started : Fired D (.running .notStarted)
  | woken (w : ω) : Fired D (.notified w .parked)
  | stage2 : Fired D (.running .stage2)
  | invoke : Fired D (.running (.invoke D.fn))

/-- Where a thread is in its work cycle. -/
inductive WorkerPhase (s : PoolConfig τ ω F A) (w : ω) : Prop
  | rests (out : s.mem.checkedOut w = none) (asleep : Asleep s w)
  | claimed (d : Nat) (D : Dispatch τ ω F A) (out : s.mem.checkedOut w = some d)
      (known : Known s.mem d D) (mine : D.thread = w) (asleep : Asleep s w)
      (notYet : s.mem.invocations d = [])
  | fired (d : Nat) (D : Dispatch τ ω F A) (out : s.mem.checkedOut w = some d)
      (known : Known s.mem d D) (mine : D.thread = w) (awake : Fired D (s.thr (.inr w)))
      (created : (s.mem.thread w).threadCreated = true)
      (fn : (s.mem.thread w).stage2Fn = some D.fn) (arg : (s.mem.thread w).stage2Arg = D.arg)
      (notYet : s.mem.invocations d = [])
  | ran (d : Nat) (D : Dispatch τ ω F A) (out : s.mem.checkedOut w = some d)
      (known : Known s.mem d D) (mine : D.thread = w) (done : s.thr (.inr w) = .running .stage3)
      (created : (s.mem.thread w).threadCreated = true)
      (once : s.mem.invocations d = [D.invocation d])

/-- Which caller of the pool writes what into the thread it has checked out. -/
structure Prepares (s : PoolConfig τ ω F A) (pc : Stage1) (d : Nat) (D : Dispatch τ ω F A) :
    Prop where
  out : s.mem.checkedOut D.thread = some d
  asleep : Asleep s D.thread
  fn : pc = .setArg ∨ pc = .fire → (s.mem.thread D.thread).stage2Fn = some D.fn
  arg : pc = .fire → (s.mem.thread D.thread).stage2Arg = D.arg

/-- Where a caller is in its dispatch. -/
inductive CallerPhase (s : PoolConfig τ ω F A) (c : τ) : Prop
  | idle (out : s.thr (.inl c) = .running .idle)
  | stage1 (pc : Stage1) (d : Nat) (D : Dispatch τ ω F A)
      (inside : s.thr (.inl c) = .running (.stage1 pc d D)) (known : Known s.mem d D)
      (mine : D.caller = c) (prepares : pc.prepares = true → Prepares s pc d D)

/-- The invariant of a pool. -/
structure PoolInv (s : PoolConfig τ ω F A) : Prop where
  linked : Linked s.mem.heap (Rests s.mem)
  outside : ∀ w, s.mem.inserted w = false →
    s.mem.checkedOut w = none ∧ (s.mem.thread w).threadFn = false
  worker : ∀ w, WorkerPhase s w
  caller : ∀ c, CallerPhase s c
  own : ∀ e ∈ s.mem.invoked, ∃ d D, Known s.mem d D ∧ e = D.invocation d
  once : ∀ d D, Known s.mem d D → s.mem.checkedOut D.thread ≠ some d →
    s.mem.invocations d = [D.invocation d]

/-- Neither the list nor the records change. -/
structure SameBooks (m m' : PoolMem τ ω F A) : Prop where
  heap : m'.heap = m.heap
  inserted : m'.inserted = m.inserted
  dispatches : m'.dispatches = m.dispatches
  checkedOut : m'.checkedOut = m.checkedOut
  invoked : m'.invoked = m.invoked

/-- The task in the thread and the creation of the thread do not change. -/
structure SameTask (th th' : PoolThread F A) : Prop where
  created : th'.threadCreated = th.threadCreated
  fn : th'.stage2Fn = th.stage2Fn
  arg : th'.stage2Arg = th.stage2Arg

theorem SameTask.refl (th : PoolThread F A) : SameTask th th := ⟨rfl, rfl, rfl⟩

section Frames

variable {s s' : PoolConfig τ ω F A} {m : PoolMem τ ω F A} {w : ω} {c : τ} {pc : Stage1} {d : Nat}
  {D : Dispatch τ ω F A}

theorem Known.unique {D' : Dispatch τ ω F A} (h : Known m d D) (h' : Known m d D') : D' = D :=
  Option.some.inj (h'.symm.trans h)

theorem Known.lt (h : Known m d D) : d < m.dispatches.length :=
  (List.getElem?_eq_some_iff.mp h).1

theorem SameBooks.known {m' : PoolMem τ ω F A} (h : SameBooks m m') :
    Known m' d D ↔ Known m d D := by
  unfold Known
  rw [h.dispatches]

theorem SameBooks.invocations {m' : PoolMem τ ω F A} (h : SameBooks m m') :
    m'.invocations d = m.invocations d := by
  unfold PoolMem.invocations
  rw [h.invoked]

theorem PoolMem.postSemaphore_books (m : PoolMem τ ω F A) (w : ω) :
    SameBooks m (m.postSemaphore w) := by
  unfold PoolMem.postSemaphore
  split <;> exact ⟨rfl, rfl, rfl, rfl, rfl⟩

theorem PoolMem.postSemaphore_thread (m : PoolMem τ ω F A) (w : ω) :
    (m.postSemaphore w).thread = m.thread := by
  unfold PoolMem.postSemaphore
  split <;> rfl

theorem Asleep.frame (h : Asleep s w) (hthr : s'.thr (.inr w) = s.thr (.inr w))
    (hcreated : (s'.mem.thread w).threadCreated = (s.mem.thread w).threadCreated) :
    Asleep s' w := by
  unfold Asleep
  rw [hthr, hcreated]
  exact h

theorem Fired.not_asleep (h : Fired D (s.thr (.inr w)))
    (hcreated : (s.mem.thread w).threadCreated = true) : ¬ Asleep s w := by
  rintro (⟨-, hno⟩ | ⟨hw, -⟩)
  · rw [hcreated] at hno
    cases hno
  · rw [hw] at h
    cases h

/-- A thread keeps its phase as long as nobody touches it; its task may change while it sleeps. -/
theorem WorkerPhase.frame (h : WorkerPhase s w) (hthr : s'.thr (.inr w) = s.thr (.inr w))
    (htask : SameTask (s.mem.thread w) (s'.mem.thread w))
    (hout : s'.mem.checkedOut w = s.mem.checkedOut w)
    (hknown : ∀ d D, Known s.mem d D → Known s'.mem d D)
    (hinv : ∀ d, s.mem.checkedOut w = some d → s'.mem.invocations d = s.mem.invocations d) :
    WorkerPhase s' w := by
  cases h with
  | rests out asleep => exact .rests (hout.trans out) (asleep.frame hthr htask.created)
  | claimed d D out known mine asleep notYet =>
      exact .claimed d D (hout.trans out) (hknown d D known) mine (asleep.frame hthr htask.created)
        ((hinv d out).trans notYet)
  | fired d D out known mine awake created fn arg notYet =>
      exact .fired d D (hout.trans out) (hknown d D known) mine (hthr ▸ awake)
        (htask.created.trans created) (htask.fn.trans fn) (htask.arg.trans arg)
        ((hinv d out).trans notYet)
  | ran d D out known mine done created once =>
      exact .ran d D (hout.trans out) (hknown d D known) mine (hthr.trans done)
        (htask.created.trans created) ((hinv d out).trans once)

theorem Prepares.frame (h : Prepares s pc d D)
    (hthr : s'.thr (.inr D.thread) = s.thr (.inr D.thread))
    (htask : SameTask (s.mem.thread D.thread) (s'.mem.thread D.thread))
    (hout : s'.mem.checkedOut D.thread = s.mem.checkedOut D.thread) : Prepares s' pc d D where
  out := hout.trans h.out
  asleep := h.asleep.frame hthr htask.created
  fn hpc := htask.fn.trans (h.fn hpc)
  arg hpc := htask.arg.trans (h.arg hpc)

theorem CallerPhase.frame (h : CallerPhase s c) (hthr : s'.thr (.inl c) = s.thr (.inl c))
    (hknown : ∀ d D, Known s.mem d D → Known s'.mem d D)
    (hkeep : ∀ pc d D, s.thr (.inl c) = .running (.stage1 pc d D) → Prepares s pc d D →
      Prepares s' pc d D) : CallerPhase s' c := by
  cases h with
  | idle out => exact .idle (hthr.trans out)
  | stage1 pc d D inside known mine prepares =>
      exact .stage1 pc d D (hthr.trans inside) (hknown d D known) mine fun hpc =>
        hkeep pc d D inside (prepares hpc)

variable [DecidableEq ω]

theorem SameBooks.setThread (m : PoolMem τ ω F A) (w : ω) (f : PoolThread F A → PoolThread F A) :
    SameBooks m (m.setThread w f) := ⟨rfl, rfl, rfl, rfl, rfl⟩

theorem SameBooks.cacheSemaphore (m : PoolMem τ ω F A) (d : Nat) (D : Dispatch τ ω F A) :
    SameBooks m (m.cacheSemaphore d D) := by
  unfold PoolMem.cacheSemaphore
  split <;> exact ⟨rfl, rfl, rfl, rfl, rfl⟩

/-- What a write does not change. -/
theorem PoolMem.setThread_keeps {α : Type*} (g : PoolThread F A → α)
    {f : PoolThread F A → PoolThread F A} (hf : g (f (m.thread w)) = g (m.thread w)) (v : ω) :
    g ((m.setThread w f).thread v) = g (m.thread v) := by
  by_cases hv : v = w
  · subst hv
    simpa [PoolMem.setThread] using hf
  · simp [PoolMem.setThread, hv]

theorem SameTask.setThread {f : PoolThread F A → PoolThread F A}
    (hf : SameTask (m.thread w) (f (m.thread w))) (v : ω) :
    SameTask (m.thread v) ((m.setThread w f).thread v) := by
  exact ⟨PoolMem.setThread_keeps _ hf.created v, PoolMem.setThread_keeps _ hf.fn v,
    PoolMem.setThread_keeps _ hf.arg v⟩

theorem SameTask.cacheSemaphore (m : PoolMem τ ω F A) (d : Nat) (D : Dispatch τ ω F A) (v : ω) :
    SameTask (m.thread v) ((m.cacheSemaphore d D).thread v) := by
  unfold PoolMem.cacheSemaphore
  split
  · exact SameTask.setThread (m := { m with sem := Function.update m.sem d 0 }) ⟨rfl, rfl, rfl⟩ v
  · exact SameTask.setThread ⟨rfl, rfl, rfl⟩ v

theorem PoolMem.cacheSemaphore_threadFn (m : PoolMem τ ω F A) (d : Nat) (D : Dispatch τ ω F A)
    (v : ω) : ((m.cacheSemaphore d D).thread v).threadFn = (m.thread v).threadFn := by
  unfold PoolMem.cacheSemaphore
  split
  · exact PoolMem.setThread_keeps (m := { m with sem := Function.update m.sem d 0 })
      PoolThread.threadFn rfl v
  · exact PoolMem.setThread_keeps PoolThread.threadFn rfl v

end Frames

end ThreadLib
end MultithreadingBible
