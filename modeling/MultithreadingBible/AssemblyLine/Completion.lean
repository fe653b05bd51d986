import MultithreadingBible.AssemblyLine.Drain
import MultithreadingBible.Lib.Runs

/-!
# A pipeline comes to rest

When objects only ever go down in a ranking of the stages, a pipeline that nobody enqueues into any
more does its work and comes to rest: the number of steps it can still make is bounded by a
potential, and when no step is left all workers sleep over empty queues, and every accepted object
was emitted.  The drain loop of `asl_destroy` then ends as well.

* `Descends` -- the steps of such a pipeline.
* `potential` -- what the threads and the objects can still do.
* `asl_comesToRest`, `asl_destroy_returns`.
-/

namespace MultithreadingBible
namespace AssemblyLine

open Lib GlueThread

section Potential

variable {σ γ : Type*}

/-- No object enters, and callbacks send objects down only. -/
def Descends (r : σ → Nat) (s : AslConfig σ γ) : Act (AslThread σ γ) (Option σ) → Prop
  | .run (.worker S) answer _ => ∀ next, answer = some next → r next < r S
  | .run (.caller c) _ _ => (s.thr (.caller c)).loc ≠ .outside
  | .run .destroyer _ _ => True
  | .spurious _ => True

/-- What an object in the queue of a stage can still cause, in steps. -/
def objectWeight (r : σ → Nat) (S : σ) : Nat := 9 * (r S + 1)

/-- What a thread that is awake can still do, in steps. -/
def locWeight (r : σ → Nat) (root : σ) (t : AslThread σ γ) : AslLoc σ → Nat
  | .check _ => 4
  | .countOut => 3
  | .sleep => 1
  | .wake => 6
  | .countIn => 5
  | .process _ =>
      match t with
      | .worker S => objectWeight r S + 3
      | _ => 0
  | .emit _ => 5
  | .handOver next _ => objectWeight r next + 11
  | .outside => 0
  | .accepted _ => objectWeight r root + 7
  | .destroy => 2
  | .drain => 1
  | .cancel => 0

/-- A thread that is asleep does nothing by itself. -/
def statusWeight (r : σ → Nat) (root : σ) (t : AslThread σ γ) (st : Status (AslCv σ) (AslLoc σ)) : Nat :=
  if st.isWaiting then 0 else locWeight r root t st.loc

/-- The signals sent wake threads that gain `g` at most. -/
def Gains (r : σ → Nat) (root : σ) (s : AslConfig σ γ) (notes : List (Note (AslCv σ))) (g : Nat) : Prop :=
  ∀ note ∈ notes, ∃ c, note = .signal c ∧ ∀ u l, s.thr u = .waiting c l →
    statusWeight r root u (.notified c l) ≤ statusWeight r root u (.waiting c l) + g

variable {next0 : σ → Option σ} {root : σ} {r : σ → Nat} {destroys : Bool} {s s' : AslConfig σ γ}
  {m m' : Asl σ} {L L' : σ → List Nat} {l : AslLoc σ} {t : AslThread σ γ} {notes : List (Note (AslCv σ))}
  {st : Status (AslCv σ) (AslLoc σ)} {S : σ}

/-- What a signal to a stage adds. -/
theorem gain_stage (hfits : Fits t (.waiting (.stage S) l)) :
    statusWeight r root t (.notified (.stage S) l) ≤
      statusWeight r root t (.waiting (.stage S) l) + 6 := by
  cases hfits
  exact le_rfl

/-- What a signal to the caller of `asl_destroy` adds. -/
theorem gain_asl (hfits : Fits t (.waiting .asl l)) :
    statusWeight r root t (.notified .asl l) ≤ statusWeight r root t (.waiting .asl l) + 1 := by
  cases hfits
  exact le_rfl

theorem gains_nil : Gains r root s [] 0 := by
  intro note hnote
  cases hnote

theorem gains_stage (hfits : ∀ u, Fits u (s.thr u)) : Gains r root s [.signal (.stage S)] 6 := by
  intro note hnote
  rw [List.mem_singleton] at hnote
  refine ⟨.stage S, hnote, fun u l hu => gain_stage ?_⟩
  rw [← hu]
  exact hfits u

theorem gains_asl (hfits : ∀ u, Fits u (s.thr u)) : Gains r root s [.signal .asl] 1 := by
  intro note hnote
  rw [List.mem_singleton] at hnote
  refine ⟨.asl, hnote, fun u l hu => gain_asl ?_⟩
  rw [← hu]
  exact hfits u

/-- The heap determines the queues. -/
theorem Queued.unique {heap : Heap (AslAddr σ)} (h : Queued heap L) (h' : Queued heap L') : L = L' := by
  ext1 S
  have hle : ((L S).map (AslAddr.glue (σ := σ))).length ≤ max (L S).length (L' S).length := by simp
  have hle' : ((L' S).map (AslAddr.glue (σ := σ))).length ≤ max (L S).length (L' S).length := by simp
  have hone := Forest.iterate h hle
  have htwo := Forest.iterate h' hle'
  rw [hone, Option.some.injEq] at htwo
  exact List.map_injective_iff.mpr (fun o o' heq => AslAddr.glue.inj heq) htwo

/-- The test of `asl_destroy` can always be made. -/
theorem aslDestroy_ne_blocked {st : Status (AslCv σ) (AslLoc σ)}
    (hfits : Fits (.destroyer : AslThread σ γ) st) (hbefore : st.loc ≠ .cancel) :
    aslDestroy true st.loc m ≠ .blocked := by
  have hdrain : ∀ m' : Asl σ, aslDrain m' ≠ .blocked := by
    intro m'
    unfold aslDrain
    split <;> simp
  cases hfits with
  | @destroyer l hl =>
      cases l with
      | destroy => exact hdrain _
      | drain => exact hdrain _
      | cancel => exact absurd rfl hbefore
      | _ => cases hl
  | draining => exact hdrain _
  | drained => exact hdrain _

variable [DecidableEq σ]

/-- Where a callback sends an object lies below. -/
theorem down_of_exec (hr : ∀ S next, next0 S = some next → r next < r S) {answer : Option σ} {o : Nat}
    {next : σ} (hdown : ∀ next, answer = some next → r next < r S)
    (hexec : workerThreadFn next0 S (.process o) answer m =
      .done m' notes (.running (.handOver next o))) :
    r next < r S := by
  simp only [workerThreadFn] at hexec
  cases answer with
  | some n =>
      have heq : n = next := by
        simp only [Option.some_or] at hexec
        injection hexec with _ _ hst
        injection hst with hloc
        injection hloc
      exact hdown next (congrArg some heq)
  | none =>
      simp only [Option.none_or] at hexec
      cases hnext : next0 S with
      | none => simp [hnext] at hexec
      | some n =>
          simp only [hnext] at hexec
          injection hexec with _ _ hst
          injection hst with hloc
          injection hloc with heq
          exact hr S next (heq ▸ hnext)

/-- A worker that is blocked waits for a mutex, and holds none. -/
theorem mutex_of_blocked {answer : Option σ} (hl : l.ofWorker = true ∨ l = .wake)
    (hblocked : workerThreadFn next0 S l answer m = .blocked) :
    l.holds = false ∧ ∃ S', m.qMutex S' = true := by
  cases l with
  | check held =>
      simp only [workerThreadFn] at hblocked
      split at hblocked
      case isTrue hbusy =>
        rw [Bool.and_eq_true, Bool.not_eq_true'] at hbusy
        exact ⟨hbusy.1, S, hbusy.2⟩
      case isFalse =>
        split at hblocked
        · cases hblocked
        · cases hdequeue : dequeueObject S m with
          | none => simp [hdequeue, Effect.call] at hblocked
          | some p => simp [hdequeue, Effect.call] at hblocked
  | countOut => cases hblocked
  | sleep => cases hblocked
  | wake =>
      simp only [workerThreadFn] at hblocked
      split at hblocked
      case isTrue hbusy => exact ⟨rfl, S, hbusy⟩
      case isFalse => cases hblocked
  | countIn => cases hblocked
  | process o =>
      simp only [workerThreadFn] at hblocked
      split at hblocked <;> cases hblocked
  | emit o => cases hblocked
  | handOver next o =>
      simp only [workerThreadFn] at hblocked
      split at hblocked
      case isTrue hbusy => exact ⟨rfl, next, hbusy⟩
      case isFalse =>
        cases henqueue : aslStageEnqueue next o m with
        | none => simp [henqueue, Effect.call] at hblocked
        | some p => simp [henqueue, Effect.call] at hblocked
  | _ => rcases hl with hl | hl <;> cases hl

theorem mutex_of_blocked_caller {o : Nat} (hblocked : aslEnqueue root (.accepted o) m = .blocked) :
    m.qMutex root = true := by
  simp only [aslEnqueue] at hblocked
  split at hblocked
  case isTrue hbusy => exact hbusy
  case isFalse =>
    cases henqueue : aslStageEnqueue root o m with
    | none => simp [henqueue, Effect.call] at hblocked
    | some p => simp [henqueue, Effect.call] at hblocked

/-- Only callers from outside bring objects. -/
theorem AslMove.accepts_none (hmove : AslMove next0 root m L t l m' L' notes st)
    (hin : ∀ c, t = .caller c → l ≠ .outside) : acceptances l st = 0 := by
  cases hmove with
  | accept hopen => exact absurd rfl (hin _ rfl)
  | @process S o answer => cases answer.or (next0 S) <;> rfl
  | drain hl hbusy => rcases hl with ⟨rfl, -⟩ | ⟨rfl, -⟩ <;> rfl
  | cancel hl hidle => rcases hl with ⟨rfl, -⟩ | ⟨rfl, -⟩ <;> rfl
  | _ => rfl

section Counting

variable (hmove : AslMove next0 root m L t l m' L' notes st)

include hmove

/-- Where the counter is changed. -/
theorem AslMove.sameCount (hout : l ≠ .countOut) (hin : l ≠ .countIn) :
    m'.nWorkersInOperation = m.nWorkersInOperation := by
  cases hmove with
  | countOut => exact absurd rfl hout
  | countIn => exact absurd rfl hin
  | drain hl hbusy => rcases hl with ⟨-, rfl⟩ | ⟨-, rfl⟩ <;> rfl
  | cancel hl hidle => rcases hl with ⟨-, rfl⟩ | ⟨-, rfl⟩ <;> rfl
  | _ => rfl

theorem AslMove.loc_of_countIn (hl : l = .countIn) : st = .running (.check true) := by
  cases hmove with
  | countIn => rfl
  | drain hl' _ | cancel hl' _ => rcases hl' with ⟨rfl, -⟩ | ⟨rfl, -⟩ <;> cases hl
  | _ => cases hl

/-- Whoever counts itself out of a closed pipeline tells the caller of `asl_destroy`. -/
theorem AslMove.signal_of_countOut (hl : l = .countOut) (hclosed : m.acceptNewObject = false) :
    .signal .asl ∈ notes := by
  cases hmove with
  | countOut =>
      show Note.signal AslCv.asl ∈ if m.acceptNewObject = false then [Note.signal AslCv.asl] else []
      rw [if_pos hclosed]
      exact List.mem_singleton_self _
  | drain hl' _ | cancel hl' _ => rcases hl' with ⟨rfl, -⟩ | ⟨rfl, -⟩ <;> cases hl
  | _ => cases hl

/-- The caller of `asl_destroy` starts to wait while workers are in operation. -/
theorem AslMove.busy_of_wait (ht : t = .destroyer) (hst : st.isWaiting = true) :
    m'.nWorkersInOperation ≠ 0 := by
  cases hmove with
  | drain hl hbusy => rcases hl with ⟨-, rfl⟩ | ⟨-, rfl⟩ <;> exact hbusy
  | cancel hl hidle => cases hst
  | _ => cases ht

end Counting

variable [Fintype σ]

/-- The objects in the queues after one of them was changed. -/
theorem sum_objectWeight_update (r : σ → Nat) (L : σ → List Nat) (S : σ) (os : List Nat) :
    (∑ S', objectWeight r S' * (Function.update L S os S').length) + objectWeight r S * (L S).length =
      (∑ S', objectWeight r S' * (L S').length) + objectWeight r S * os.length := by
  have hold := Finset.add_sum_erase Finset.univ (fun S' => objectWeight r S' * (L S').length)
    (Finset.mem_univ S)
  have hnew := Finset.add_sum_erase Finset.univ
    (fun S' => objectWeight r S' * (Function.update L S os S').length) (Finset.mem_univ S)
  have hrest : ∑ S' ∈ Finset.univ.erase S, objectWeight r S' * (Function.update L S os S').length =
      ∑ S' ∈ Finset.univ.erase S, objectWeight r S' * (L S').length := by
    refine Finset.sum_congr rfl fun S' hS' => ?_
    rw [Function.update_of_ne (Finset.ne_of_mem_erase hS')]
  rw [Function.update_self, hrest] at hnew
  omega

/-- An object is put into the queue of a stage, whose worker may have to be woken. -/
theorem lowers_insert (hfits : ∀ u, Fits u (s.thr u)) (S : σ) (o : Nat) {before after : Nat}
    (hlt : after + objectWeight r S + 6 < before) :
    ∃ g, Gains r root s (if L S = [] then [.signal (.stage S)] else []) g ∧
      after + g * (if L S = [] then [.signal (.stage S)] else [] : List (Note (AslCv σ))).length +
          ∑ S', objectWeight r S' * (Function.update L S (L S ++ [o]) S').length <
        before + ∑ S', objectWeight r S' * (L S').length := by
  have hsum := sum_objectWeight_update r L S (L S ++ [o])
  rw [List.length_append, List.length_singleton, Nat.mul_succ] at hsum
  split
  · exact ⟨6, gains_stage hfits, by rw [List.length_singleton]; omega⟩
  · exact ⟨0, gains_nil, by rw [List.length_nil]; omega⟩

/-- **Every move lowers the potential**, whatever the signals it sends add to it. -/
theorem AslMove.lowers (hmove : AslMove next0 root m L t l m' L' notes st)
    (hfits : ∀ u, Fits u (s.thr u))
    (hdown : ∀ S o next, t = .worker S → l = .process o → st = .running (.handOver next o) → r next < r S)
    (hin : ∀ c, t = .caller c → l ≠ .outside) :
    ∃ g, Gains r root s notes g ∧
      statusWeight r root t st + g * notes.length + ∑ S, objectWeight r S * (L' S).length <
        locWeight r root t l + ∑ S, objectWeight r S * (L S).length := by
  cases hmove with
  | findEmpty hfree hempty =>
      refine ⟨0, gains_nil, ?_⟩
      simp [statusWeight, locWeight]
  | @take S held o os heap hqueue hheap =>
      -- the weight of the object passes from the queue to the worker
      have hsum := sum_objectWeight_update r L S os
      rw [hqueue, List.length_cons, Nat.mul_succ] at hsum
      refine ⟨0, gains_nil, ?_⟩
      simp only [statusWeight, locWeight, Status.isWaiting_running, Status.loc_running,
        Bool.false_eq_true, if_false]
      omega
  | countOut =>
      unfold aslWorkersInOperation
      simp only [Bool.false_eq_true, if_false]
      split
      · -- the last worker signals whoever destroys the pipeline
        exact ⟨1, gains_asl hfits, by simp [statusWeight, locWeight]⟩
      · exact ⟨0, gains_nil, by simp [statusWeight, locWeight]⟩
  | sleep => exact ⟨0, gains_nil, by simp [statusWeight, locWeight]⟩
  | wake hfree => exact ⟨0, gains_nil, by simp [statusWeight, locWeight]⟩
  | countIn => exact ⟨0, gains_nil, by simp [statusWeight, locWeight]⟩
  | @process S o answer =>
      refine ⟨0, gains_nil, ?_⟩
      cases hdest : answer.or (next0 S) with
      | none =>
          simp only [AslLoc.leaving, statusWeight, locWeight, Status.isWaiting_running,
            Status.loc_running, Bool.false_eq_true, if_false, objectWeight]
          omega
      | some next =>
          -- the object goes down, and with it its weight
          have hlt := hdown S o next rfl rfl (by rw [hdest, AslLoc.leaving])
          simp only [AslLoc.leaving, statusWeight, locWeight, Status.isWaiting_running,
            Status.loc_running, Bool.false_eq_true, if_false, objectWeight]
          omega
  | emit => exact ⟨0, gains_nil, by simp [statusWeight, locWeight]⟩
  | @handOver S next o heap hfree hheap =>
      refine lowers_insert hfits next o ?_
      simp only [statusWeight, locWeight, Status.isWaiting_running, Status.loc_running,
        Bool.false_eq_true, if_false]
      omega
  | refuse hclosed => exact absurd rfl (hin _ rfl)
  | accept hopen => exact absurd rfl (hin _ rfl)
  | @insert c o heap hfree hheap =>
      refine lowers_insert hfits root o ?_
      simp only [statusWeight, locWeight, Status.isWaiting_running, Status.loc_running,
        Bool.false_eq_true, if_false]
      omega
  | drain hl hbusy =>
      refine ⟨0, gains_nil, ?_⟩
      rcases hl with ⟨rfl, -⟩ | ⟨rfl, -⟩ <;> simp [statusWeight, locWeight]
  | cancel hl hidle =>
      refine ⟨0, gains_nil, ?_⟩
      rcases hl with ⟨rfl, -⟩ | ⟨rfl, -⟩ <;> simp [statusWeight, locWeight]

variable [DecidableEq γ] [Fintype γ]

/-- What the threads and the queued objects can still do. -/
def potential (r : σ → Nat) (root : σ) (s : AslConfig σ γ) (L : σ → List Nat) : Nat :=
  weigh s.thr (statusWeight r root) + ∑ S, objectWeight r S * (L S).length

/-- **A step of a pipeline that objects go down lowers the potential.** -/
theorem QueuesOk.potential_lt (h : QueuesOk next0 root s L)
    (hr : ∀ S next, next0 S = some next → r next < r S) {a : Act (AslThread σ γ) (Option σ)}
    (hdesc : Descends r s a) (hstep : (aslMachine γ next0 root destroys false).step s a = .next s') :
    ∃ L', QueuesOk next0 root s' L' ∧ potential r root s' L' < potential r root s L ∧
      s'.mem.accepted = s.mem.accepted := by
  cases a with
  | spurious t =>
      obtain ⟨hspurious, -⟩ := Program.spurious_of_step hstep
      cases hspurious
  | run t answer picks =>
      obtain ⟨notes, st, hran, hweigh⟩ := Program.weighed_of_step hstep
      obtain ⟨hseen, L', hmove⟩ := h.exists_move hran
      obtain ⟨L'', h'⟩ := h.run hran
      have hL : L'' = L' := Queued.unique h'.queued (hmove.queued h.queued)
      subst hL
      have hdown : ∀ S o next, t = .worker S → (s.thr t).loc = .process o →
          st = .running (.handOver next o) → r next < r S := by
        intro S o next ht hl hst
        subst ht hst
        obtain ⟨asl, hcode, -⟩ := Effect.observed_eq_done.mp hran.exec
        rw [hl] at hcode
        exact down_of_exec hr hdesc hcode
      have hin : ∀ c, t = .caller c → (s.thr t).loc ≠ .outside := by
        rintro c rfl
        exact hdesc
      obtain ⟨g, hgains, hlt⟩ := hmove.lowers h.fits hdown hin
      have hsum := hweigh (statusWeight r root) g hgains
      have hself : statusWeight r root t (s.thr t) = locWeight r root t (s.thr t).loc := by
        rw [statusWeight, hran.awake]
        rfl
      rw [hmove.accepts_none hin] at hseen
      refine ⟨L'', h', ?_, hseen⟩
      unfold potential
      omega

variable {cond : AslConfig σ γ → Act (AslThread σ γ) (Option σ) → Prop}

/-- Where no step is left, a thread that is awake is blocked. -/
theorem QueuesOk.blocked_of_stuck (h : QueuesOk next0 root s L)
    (hstuck : (aslMachine γ next0 root destroys false).Stuck cond s)
    (hawake : (s.thr t).isWaiting = false)
    (hcond : ∀ picks, cond s (.run t none picks)) :
    aslCode next0 root destroys t (s.thr t).loc none s.mem.toAsl = .blocked := by
  rcases h.moves destroys t none with hblocked | ⟨m', L', notes, st, hdone, -⟩
  · exact hblocked
  · exact (Program.not_done_of_stuck hstuck hawake hcond
      (Effect.observed_eq_done.mpr ⟨m', hdone, rfl⟩)).elim

omit [DecidableEq γ] in
/-- A worker that sleeps does so at one place. -/
theorem QueuesOk.loc_of_asleep (h : QueuesOk next0 root s L)
    (hwait : (s.thr (.worker S)).isWaiting = true) : (s.thr (.worker S)).loc = .wake := by
  have hfits := h.fits (.worker S)
  generalize s.thr (.worker S) = st at hfits hwait
  cases hfits with
  | worker hl => cases hwait
  | asleep => rfl
  | woken => rfl

omit [DecidableEq γ] in
/-- It holds no mutex. -/
theorem QueuesOk.free_of_asleep (h : QueuesOk next0 root s L)
    (hwait : (s.thr (.worker S)).isWaiting = true) : s.mem.qMutex S = false := by
  rw [h.mutex S, h.loc_of_asleep hwait]
  rfl

/-- **A pipeline in which no step is left is at rest**: the workers sleep over empty queues. -/
theorem QueuesOk.workers_asleep (h : QueuesOk next0 root s L)
    (hstuck : (aslMachine γ next0 root destroys false).Stuck cond s)
    (hcond : ∀ S picks, cond s (.run (.worker S) none picks)) (S : σ) :
    (s.thr (.worker S)).isWaiting = true := by
  have hblocked : ∀ S, (s.thr (.worker S)).isWaiting = false →
      (s.thr (.worker S)).loc.holds = false ∧ ∃ S', s.mem.qMutex S' = true := by
    intro S hawake
    have hloc : (s.thr (.worker S)).loc.ofWorker = true ∨ (s.thr (.worker S)).loc = .wake := by
      have hfits := h.fits (.worker S)
      generalize s.thr (.worker S) = st at hfits
      cases hfits with
      | worker hl => exact .inl hl
      | asleep => exact .inr rfl
      | woken => exact .inr rfl
    exact mutex_of_blocked hloc (h.blocked_of_stuck hstuck hawake (hcond S))
  -- nobody who is awake holds a mutex, and nobody who is asleep does
  have hfree : ∀ S, s.mem.qMutex S = false := by
    intro S
    rw [h.mutex S]
    cases hwait : (s.thr (.worker S)).isWaiting with
    | false => exact (hblocked S hwait).1
    | true =>
        rw [h.loc_of_asleep hwait]
        rfl
  by_contra hawake
  obtain ⟨-, S', hbusy⟩ := hblocked S (by simpa using hawake)
  rw [hfree S'] at hbusy
  cases hbusy

/-- Nobody keeps a caller whose object was accepted from putting it into the queue of the root stage. -/
theorem QueuesOk.callers_outside (h : QueuesOk next0 root s L)
    (hasleep : ∀ S, (s.thr (.worker S)).isWaiting = true)
    (hstuck : (aslMachine γ next0 root destroys false).Stuck cond s)
    (hcond : ∀ c picks, (s.thr (.caller c)).loc ≠ .outside → cond s (.run (.caller c) none picks))
    (c : γ) :
    (s.thr (.caller c)).loc.object = none := by
  have hfits := h.fits (.caller c)
  cases hthr : s.thr (.caller c) with
  | running l =>
      have hblocked : l ≠ .outside → aslEnqueue root l s.mem.toAsl = .blocked := by
        intro hout
        have hb := h.blocked_of_stuck (t := .caller c) hstuck (by rw [hthr]; rfl)
          fun picks => hcond c picks (by rw [hthr]; exact hout)
        rw [hthr] at hb
        exact hb
      rw [hthr] at hfits
      cases hfits with
      | caller hl =>
          cases l with
          | outside => rfl
          | accepted o =>
              have hbusy := mutex_of_blocked_caller (hblocked (by simp))
              rw [h.free_of_asleep (hasleep root)] at hbusy
              cases hbusy
          | _ => cases hl
  | waiting k l =>
      rw [hthr] at hfits
      cases hfits
  | notified k l =>
      rw [hthr] at hfits
      cases hfits

/-- All work is done. -/
structure AtRest (s : AslConfig σ γ) : Prop where
  emitted : AllEmitted s
  empty : ∀ S, isGlthreadListEmpty s.mem.heap (.head S) = true
  asleep : ∀ S, (s.thr (.worker S)).isWaiting = true

/-- A pipeline whose workers sleep, and which nobody is about to put an object into, is at rest. -/
theorem QueuesOk.atRest (h : QueuesOk next0 root s L)
    (hasleep : ∀ S, (s.thr (.worker S)).isWaiting = true)
    (hcallers : ∀ c, (s.thr (.caller c)).loc.object = none) : AtRest s := by
  have hempty : ∀ S, L S = [] := by
    intro S
    obtain ⟨c, l, hwait⟩ := Status.isWaiting_iff.mp (hasleep S)
    exact h.idle S (hwait ▸ .waiting)
  refine ⟨fun o ho => ?_, fun S => (h.queued.isEmpty S).mpr (hempty S), hasleep⟩
  obtain ⟨p, hp⟩ := (h.somewhere o).mp ho
  cases p with
  | out => exact hp
  | queue S =>
      rw [objectsAt, hempty S] at hp
      cases hp
  | hand t =>
      have hobject : (s.thr t).loc.object = none := by
        cases t with
        | caller c => exact hcallers c
        | worker S =>
            rw [h.loc_of_asleep (hasleep S)]
            rfl
        | destroyer =>
            have hfits := h.fits .destroyer
            generalize s.thr .destroyer = st at hfits
            cases hfits with
            | @destroyer l hl => cases l <;> first | rfl | cases hl
            | draining => rfl
            | drained => rfl
      rw [objectsAt, hobject] at hp
      cases hp

/-- **A pipeline comes to rest.**  When objects go down only and nobody enqueues any more, every run
of a pipeline ends, wherever it starts, and then every accepted object was emitted and the workers
sleep over empty queues. -/
theorem asl_comesToRest (hr : ∀ S next, next0 S = some next → r next < r S)
    (hs : (aslMachine γ next0 root false false).Reachable s) :
    ∃ bound, (aslMachine γ next0 root false false).Ends (Descends r) s bound fun s' =>
      AtRest s' ∧ s'.mem.accepted = s.mem.accepted := by
  obtain ⟨L, h⟩ := reachable_queuesOk hs
  refine ⟨potential r root s L, Machine.Ends.of_rank (R := fun s' k => ∃ L', QueuesOk next0 root s' L' ∧
    potential r root s' L' = k ∧ s'.mem.accepted = s.mem.accepted) ?_ ?_ ⟨L, h, rfl, rfl⟩⟩
  · rintro s₁ a s₂ k ⟨L₁, h₁, rfl, haccepted⟩ hdesc hstep
    obtain ⟨L₂, h₂, hlt, hsame⟩ := h₁.potential_lt hr hdesc hstep
    exact ⟨_, hlt, L₂, h₂, rfl, hsame.trans haccepted⟩
  · rintro s₁ k ⟨L₁, h₁, -, haccepted⟩ hstuck
    have hasleep := h₁.workers_asleep hstuck fun S picks next hnext => (by cases hnext)
    exact ⟨h₁.atRest hasleep (h₁.callers_outside hasleep hstuck fun c picks hout => hout), haccepted⟩

/-- **`asl_destroy` misses no signal**: it waits only while a worker is in operation. -/
theorem reachable_busy (hcard : Fintype.card σ < 2 ^ 8)
    (hs : (aslMachine γ next0 root destroys false).Reachable s)
    (hwait : (s.thr .destroyer).isWaiting = true) : s.mem.nWorkersInOperation ≠ 0 := by
  suffices hinv : (s.thr .destroyer).isWaiting = true → s.mem.nWorkersInOperation ≠ 0 from hinv hwait
  refine Machine.ReachableUnder.invariant_of
    (J := fun s => (∃ L, QueuesOk next0 root s L) ∧ Counted s)
    (I := fun s => (s.thr .destroyer).isWaiting = true → s.mem.nWorkersInOperation ≠ 0)
    (fun s hs => ⟨reachable_queuesOk hs, reachable_counted hs⟩) ?_ ?_ hs
  · rintro _ rfl hwait
    cases hwait
  · rintro s (⟨t, x, picks⟩ | t) s' ⟨⟨L, hq⟩, hcounted⟩ hbusy - hstep hwait
    · obtain ⟨notes, st, hran⟩ := Program.ran_of_step hstep
      obtain ⟨-, L', hmove⟩ := hq.exists_move hran
      by_cases ht : t = .destroyer
      · subst ht
        rw [hran.self] at hwait
        exact hmove.busy_of_wait rfl hwait
      obtain ⟨c, l, hw'⟩ := Status.isWaiting_iff.mp hwait
      have hw := hran.waiting_of_ne (Ne.symm ht) hw'
      by_cases hout : (s.thr t).loc = .countOut
      · -- the signal reaches the only one who waits for it
        have hfits := hq.fits .destroyer
        rw [hw] at hfits
        cases hfits
        have hclosed := hcounted.closed (by rw [hw]; simp)
        obtain ⟨u, l', -, hold, hnew⟩ := hran.signal (hmove.signal_of_countOut hout hclosed) ⟨_, _, hw⟩
        have hfitsu := hq.fits u
        rw [hold] at hfitsu
        cases hfitsu
        rw [hw'] at hnew
        cases hnew
      by_cases hin : (s.thr t).loc = .countIn
      · obtain ⟨L'', hq'⟩ := hq.run hran
        intro hzero
        have hnone := (hcounted.run hran hmove).none_counted hq' hcard hzero t
        rw [hran.self, hmove.loc_of_countIn hin] at hnone
        cases hnone
      · rw [hmove.sameCount hout hin]
        exact hbusy (by rw [hw]; rfl)
    · obtain ⟨hspurious, -⟩ := Program.spurious_of_step hstep
      cases hspurious

/-- Only workers are counted. -/
theorem exists_counted (hs : (aslMachine γ next0 root destroys false).Reachable s)
    (hbusy : s.mem.nWorkersInOperation ≠ 0) : ∃ S, (s.thr (.worker S)).loc.counted = true := by
  obtain ⟨L, hq⟩ := reachable_queuesOk hs
  have hpos : 0 < tally s.thr (fun l => l.counted.toNat) := by
    rw [Nat.pos_iff_ne_zero]
    intro hzero
    rw [(reachable_counted hs).counter, hzero] at hbusy
    exact hbusy rfl
  obtain ⟨t, ht⟩ := tally_pos.mp hpos
  have hfits := hq.fits t
  cases t with
  | worker S => exact ⟨S, by simpa [Nat.pos_iff_ne_zero] using ht⟩
  | caller c =>
      generalize s.thr (.caller c) = st at hfits ht
      cases hfits with
      | caller hl => simp [AslLoc.counted_of_ofCaller hl] at ht
  | destroyer =>
      generalize s.thr .destroyer = st at hfits ht
      cases hfits with
      | destroyer hl => simp [AslLoc.counted_of_ofDestroyer hl] at ht
      | draining | drained => cases ht

/-- **`asl_destroy` returns.**  In every run of a pipeline of less than 256 stages it waits only
while workers are in operation; and when objects go down only and nobody enqueues any more, every
run ends, wherever it starts, with `asl_destroy` about to cancel the workers. -/
theorem asl_destroy_returns (hcard : Fintype.card σ < 2 ^ 8)
    (hr : ∀ S next, next0 S = some next → r next < r S)
    (hs : (aslMachine γ next0 root true false).Reachable s) :
    ((s.thr .destroyer).isWaiting = true → s.mem.nWorkersInOperation ≠ 0 ∧
      ∃ S, (s.thr (.worker S)).loc.counted = true) ∧
    ∃ bound, (aslMachine γ next0 root true false).Ends
      (fun s a => Descends r s a ∧ (s.thr .destroyer).loc ≠ .cancel) s bound
      fun s' => (s'.thr .destroyer).loc = .cancel := by
  refine ⟨fun hwait => ?_, ?_⟩
  · have hbusy := reachable_busy hcard hs hwait
    exact ⟨hbusy, exists_counted hs hbusy⟩
  obtain ⟨L, h⟩ := reachable_queuesOk hs
  refine ⟨potential r root s L, Machine.Ends.of_rank (R := fun s' k =>
    (aslMachine γ next0 root true false).Reachable s' ∧ ∃ L', QueuesOk next0 root s' L' ∧
      potential r root s' L' = k) ?_ ?_ ⟨hs, L, h, rfl⟩⟩
  · rintro s₁ a s₂ k ⟨hs₁, L₁, h₁, rfl⟩ ⟨hdesc, -⟩ hstep
    obtain ⟨L₂, h₂, hlt, -⟩ := h₁.potential_lt hr hdesc hstep
    exact ⟨_, hlt, hs₁.step trivial hstep, L₂, h₂, rfl⟩
  · rintro s₁ k ⟨hs₁, L₁, h₁, -⟩ hstuck
    by_contra hbefore
    have hasleep := h₁.workers_asleep hstuck fun S picks => ⟨fun next hnext => (by cases hnext), hbefore⟩
    -- nobody is counted, so a test would pass
    have hzero : s₁.mem.nWorkersInOperation = 0 := by
      by_contra hbusy
      obtain ⟨S, hcounted⟩ := exists_counted hs₁ hbusy
      rw [h₁.loc_of_asleep (hasleep S)] at hcounted
      cases hcounted
    have hwait : (s₁.thr .destroyer).isWaiting = false := by
      by_contra hwait
      exact reachable_busy hcard hs₁ (by simpa using hwait) hzero
    have hblocked := h₁.blocked_of_stuck hstuck hwait fun picks => ⟨trivial, hbefore⟩
    exact aslDestroy_ne_blocked (h₁.fits .destroyer) hbefore hblocked

end Potential

/-- The ranking of two stages one after the other. -/
def twoStagesRank (S : Bool) : Nat := (!S).toNat

theorem twoStagesRank_lt (S next : Bool) (h : twoStages S = some next) :
    twoStagesRank next < twoStagesRank S := by
  revert S next
  decide

/-- Two objects are on their way when the last caller leaves. -/
theorem asl_comesToRest_twoStages : ∃ s : AslConfig Bool Unit, s.mem.accepted = 2 ∧ s.mem.emitted = [] ∧
    ∃ bound, (aslMachine Unit twoStages false false false).Ends (Descends twoStagesRank) s bound
      fun s' => AtRest s' ∧ s'.mem.accepted = 2 := by
  have hrun : ((aslMachine Unit twoStages false false false).exec (freshAsl Bool Unit)
      [callerGoes, callerGoes, workerGoes false none, callerGoes, callerGoes]).holds (fun s =>
        decide (s.mem.accepted = 2 ∧ s.mem.emitted = [])) = true := by
    decide +kernel
  obtain ⟨s, hs, hp⟩ := Machine.exists_reachable_of_exec rfl hrun
  have hp := of_decide_eq_true hp
  obtain ⟨bound, hends⟩ := asl_comesToRest twoStagesRank_lt hs
  rw [hp.1] at hends
  exact ⟨s, hp.1, hp.2, bound, hends⟩

/-- `asl_destroy` waits for the worker with an object. -/
theorem asl_destroy_returns_twoStages : ∃ s : AslConfig Bool Unit,
    (s.thr .destroyer).isWaiting = true ∧ s.mem.accepted = 1 ∧
    (s.mem.nWorkersInOperation ≠ 0 ∧ ∃ S, (s.thr (.worker S)).loc.counted = true) ∧
    ∃ bound, (aslMachine Unit twoStages false true false).Ends
      (fun s a => Descends twoStagesRank s a ∧ (s.thr .destroyer).loc ≠ .cancel) s bound
      fun s' => (s'.thr .destroyer).loc = .cancel := by
  have hrun : ((aslMachine Unit twoStages false true false).exec (freshAsl Bool Unit)
      [callerGoes, callerGoes, workerGoes false none, destroyerGoes]).holds (fun s =>
        decide ((s.thr .destroyer).isWaiting = true ∧ s.mem.accepted = 1)) = true := by
    decide +kernel
  obtain ⟨s, hs, hp⟩ := Machine.exists_reachable_of_exec rfl hrun
  obtain ⟨hwait, haccepted⟩ := of_decide_eq_true hp
  obtain ⟨hbusy, hends⟩ := asl_destroy_returns (by decide) twoStagesRank_lt hs
  exact ⟨s, hwait, haccepted, hbusy hwait, hends⟩

end AssemblyLine
end MultithreadingBible
