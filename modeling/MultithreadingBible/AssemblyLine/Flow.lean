import MultithreadingBible.AssemblyLine.Pipeline

/-!
# The flow of objects through a pipeline

What a pipeline is for, without its mutexes, condition variables and cells: callers bring objects in,
every stage takes the oldest object of its queue, processes it, and puts it into the queue of the stage
it is routed to, or emits it.

* `Books` — the queues and what was done so far.
* `Flow` — one step of a thread, as far as objects are concerned.
* `BooksOk` — every object is in one place, has gone through the stages it was routed to, and objects
  sent from one stage to another arrive in that order.  Every step keeps this.
-/

namespace MultithreadingBible
namespace AssemblyLine

open Lib

/-- The queues of the stages, and what was done so far. -/
structure Books (σ : Type*) where
  queue : σ → List Nat
  accepted : Nat
  path : Nat → List (σ × Option σ)
  processed : σ → List (Nat × Option σ × Option σ)
  emitted : List Nat

/-- The object a thread has in its hand. -/
def AslLoc.object {σ : Type*} : AslLoc σ → Option Nat
  | .process o => some o
  | .emit o => some o
  | .handOver _ o => some o
  | .accepted o => some o
  | _ => none

/-- Where a worker is with an object that goes to `dest`. -/
def AslLoc.leaving {σ : Type*} (o : Nat) : Option σ → AslLoc σ
  | none => .emit o
  | some next => .handOver next o

/-- Whether a thread has the object `o` in its hand. -/
def AslLoc.weight {σ : Type*} (o : Nat) (l : AslLoc σ) : Nat := if l.object = some o then 1 else 0

/-- Where an object goes after the stages and answers in a path: first to the root, and then where the
callback says, or else to the next stage; `none` is out of the pipeline. -/
inductive Routed {σ : Type*} (next0 : σ → Option σ) (root : σ) :
    List (σ × Option σ) → Option σ → Prop
  | enter : Routed next0 root [] (some root)
  | go {path : List (σ × Option σ)} {S : σ} {answer : Option σ}
      (h : Routed next0 root path (some S)) :
      Routed next0 root (path ++ [(S, answer)]) (answer.or (next0 S))

namespace Books

variable {σ : Type*} [DecidableEq σ]

/-- The stage an object came from last. -/
def source (b : Books σ) (o : Nat) : Option σ := (b.path o).getLast?.map Prod.fst

/-- The objects stage `A` has routed to stage `B`, in the order it processed them. -/
def sent (b : Books σ) (A B : σ) : List Nat :=
  (b.processed A).filterMap fun e => if e.2.2 = some B then some e.1 else none

/-- The objects from stage `A` that stage `B` has processed, in the order it did so. -/
def received (b : Books σ) (A B : σ) : List Nat :=
  (b.processed B).filterMap fun e => if e.2.1 = some A then some e.1 else none

/-- The object from stage `A` that the worker of a stage has taken and not processed. -/
def inHand (b : Books σ) (A : σ) : AslLoc σ → List Nat
  | .process o => if b.source o = some A then [o] else []
  | _ => []

/-- The object that the worker of a stage has processed and not yet handed over to stage `B`. -/
def inFlight (B : σ) : AslLoc σ → List Nat
  | .handOver next o => if next = B then [o] else []
  | _ => []

/-- The objects from stage `A` in the queue of stage `B`. -/
def queuedFrom (b : Books σ) (A B : σ) : List Nat :=
  (b.queue B).filter fun o => decide (b.source o = some A)

/-- Stage `S` processes the object `o`, which goes on to `dest`. -/
def process (b : Books σ) (S : σ) (o : Nat) (answer dest : Option σ) : Books σ :=
  { b with
    path := Function.update b.path o (b.path o ++ [(S, answer)])
    processed := Function.update b.processed S (b.processed S ++ [(o, b.source o, dest)]) }

end Books

section Flow

variable {σ γ : Type*}

/-- What the books say about the object in the hand of a thread. -/
def LocOk (next0 : σ → Option σ) (root : σ) (b : Books σ) : AslThread σ γ → AslLoc σ → Prop
  | .worker S, .process o => Routed next0 root (b.path o) (some S)
  | .worker _, .emit o => Routed next0 root (b.path o) none
  | .worker S, .handOver next o => Routed next0 root (b.path o) (some next) ∧ b.source o = some S
  | .caller _, .accepted o => b.path o = []
  | _, l => l.object = none

/-- One thread moved. -/
structure Moved (thr : AslThread σ γ → Status (AslCv σ) (AslLoc σ)) (t : AslThread σ γ) (l : AslLoc σ)
    (thr' : AslThread σ γ → Status (AslCv σ) (AslLoc σ)) : Prop where
  self : (thr' t).loc = l
  other : ∀ u, u ≠ t → (thr' u).loc = (thr u).loc

variable {next0 : σ → Option σ} {root : σ} {b b' : Books σ} {t : AslThread σ γ} {l l' : AslLoc σ}
  {thr thr' : AslThread σ γ → Status (AslCv σ) (AslLoc σ)}

/-- The books say nothing about a thread without an object. -/
theorem locOk_of_none (hl : l.object = none) (b : Books σ) (t : AslThread σ γ) :
    LocOk next0 root b t l := by
  cases t <;> cases l <;> first | exact hl | cases hl

/-- What the books say about a thread depends on the path of its object. -/
theorem LocOk.frame (h : LocOk next0 root b t l) (hpath : ∀ o, l.object = some o → b'.path o = b.path o) :
    LocOk next0 root b' t l := by
  cases t <;> cases l <;> first
    | exact h
    | simpa only [LocOk, Books.source, hpath _ rfl] using h

/-- What does not change for the thread that moved does not change for any. -/
theorem Moved.keeps {α : Type*} (h : Moved thr t l thr') (f : AslLoc σ → α)
    (hf : f l = f (thr t).loc) (u : AslThread σ γ) : f (thr' u).loc = f (thr u).loc := by
  by_cases hu : u = t
  · rw [hu, h.self, hf]
  · rw [h.other u hu]

variable [DecidableEq σ]

/-- One step of a thread: where it is before and after, and the books. -/
inductive Flow (next0 : σ → Option σ) (root : σ) :
    AslThread σ γ → AslLoc σ → Books σ → AslLoc σ → Books σ → Prop
  | still {t : AslThread σ γ} {l l' : AslLoc σ} {b : Books σ} (hl : l.object = none)
      (hl' : l'.object = none) : Flow next0 root t l b l' b
  | accept {c : γ} {b : Books σ} : Flow next0 root (.caller c) .outside b (.accepted b.accepted)
      { b with accepted := b.accepted + 1 }
  | take {S : σ} {held : Bool} {o : Nat} {os : List Nat} {b : Books σ}
      (hqueue : b.queue S = o :: os) : Flow next0 root (.worker S) (.check held) b (.process o)
      { b with queue := Function.update b.queue S os }
  | process {S : σ} {o : Nat} {answer : Option σ} {b : Books σ} :
      Flow next0 root (.worker S) (.process o) b (.leaving o (answer.or (next0 S)))
        (b.process S o answer (answer.or (next0 S)))
  | emit {S : σ} {o : Nat} {b : Books σ} : Flow next0 root (.worker S) (.emit o) b (.check false)
      { b with emitted := b.emitted ++ [o] }
  | handOver {S next : σ} {o : Nat} {b : Books σ} :
      Flow next0 root (.worker S) (.handOver next o) b (.check false)
        { b with queue := Function.update b.queue next (b.queue next ++ [o]) }
  | insert {c : γ} {o : Nat} {b : Books σ} :
      Flow next0 root (.caller c) (.accepted o) b .outside
        { b with queue := Function.update b.queue root (b.queue root ++ [o]) }

theorem inHand_of_none (hl : l.object = none) (b : Books σ) (A : σ) : b.inHand A l = [] := by
  cases l <;> first | rfl | cases hl

theorem inFlight_of_none (hl : l.object = none) (B : σ) : Books.inFlight B l = [] := by
  cases l <;> first | rfl | cases hl

/-- What a stage received and has in hand stays together when it processes its object. -/
theorem received_inHand_process (b : Books σ) (S : σ) (o : Nat) (answer dest : Option σ) (A : σ) :
    (b.process S o answer dest).received A S = b.received A S ++ b.inHand A (.process o) := by
  simp only [Books.received, Books.process, Function.update_self, List.filterMap_append,
    List.filterMap_cons, List.filterMap_nil, Books.inHand]
  split_ifs <;> rfl

theorem received_process_of_ne (b : Books σ) {S B : σ} (hB : B ≠ S) (o : Nat)
    (answer dest : Option σ) (A : σ) :
    (b.process S o answer dest).received A B = b.received A B := by
  simp only [Books.received, Books.process, Function.update_of_ne hB]

/-- What a stage sent to `B` is on its way there. -/
theorem sent_process (b : Books σ) (S : σ) (o : Nat) (answer dest : Option σ) (B : σ) :
    (b.process S o answer dest).sent S B = b.sent S B ++ Books.inFlight B (.leaving o dest) := by
  simp only [Books.sent, Books.process, Function.update_self, List.filterMap_append,
    List.filterMap_cons, List.filterMap_nil]
  cases dest with
  | none => rfl
  | some next =>
      simp only [AslLoc.leaving, Books.inFlight, Option.some_inj]
      split_ifs <;> rfl

theorem sent_process_of_ne (b : Books σ) {S A : σ} (hA : A ≠ S) (o : Nat)
    (answer dest : Option σ) (B : σ) :
    (b.process S o answer dest).sent A B = b.sent A B := by
  simp only [Books.sent, Books.process, Function.update_of_ne hA]

/-- Elsewhere nothing changes its source. -/
theorem source_process_of_ne (b : Books σ) (S : σ) {o o' : Nat} (ho : o' ≠ o)
    (answer dest : Option σ) : (b.process S o answer dest).source o' = b.source o' := by
  simp only [Books.source, Books.process, Function.update_of_ne ho]

/-- What is queued from `A` after `o` was added to the queue of `next`. -/
theorem queuedFrom_add (b : Books σ) (next : σ) (o : Nat) (A B : σ) :
    Books.queuedFrom { b with queue := Function.update b.queue next (b.queue next ++ [o]) } A B =
      b.queuedFrom A B ++ if b.source o = some A ∧ next = B then [o] else [] := by
  unfold Books.queuedFrom
  by_cases hB : B = next
  · subst hB
    have hlast : [o].filter (fun o => decide (b.source o = some A)) =
        if b.source o = some A then [o] else [] := by
      simp only [List.filter_cons, List.filter_nil, decide_eq_true_eq]
    simp only [Function.update_self, List.filter_append, and_true, ← hlast]
    rfl
  · simp only [Function.update_of_ne hB, Ne.symm hB, and_false, if_false, List.append_nil]
    rfl

/-- The oldest object of a queue goes into the hand of its worker. -/
theorem queuedFrom_take (b : Books σ) {S : σ} {o : Nat} {os : List Nat}
    (hqueue : b.queue S = o :: os) (A : σ) :
    b.queuedFrom A S = b.inHand A (.process o) ++
      Books.queuedFrom { b with queue := Function.update b.queue S os } A S := by
  have hrest : Books.queuedFrom { b with queue := Function.update b.queue S os } A S =
      os.filter fun o => decide (b.source o = some A) := by
    simp only [Books.queuedFrom, Function.update_self]
    rfl
  rw [hrest, Books.queuedFrom, hqueue]
  by_cases hsource : b.source o = some A <;> simp [Books.inHand, hsource]

/-- Objects in queues keep their sources while another object is processed. -/
theorem queuedFrom_process (b : Books σ) (S : σ) {o : Nat} (answer dest : Option σ) (A B : σ)
    (ho : o ∉ b.queue B) : (b.process S o answer dest).queuedFrom A B = b.queuedFrom A B := by
  apply List.filter_congr
  intro o' ho'
  have hne : o' ≠ o := fun h => ho (h ▸ ho')
  rw [source_process_of_ne b S hne]

/-- So do objects in hands. -/
theorem inHand_process (b : Books σ) (S : σ) {o : Nat} (answer dest : Option σ) (A : σ)
    (ho : l.object ≠ some o) : (b.process S o answer dest).inHand A l = b.inHand A l := by
  cases l with
  | process o' =>
      have hne : o' ≠ o := fun h => ho (congrArg some h)
      simp only [Books.inHand, source_process_of_ne b S hne]
  | _ => rfl

theorem inHand_leaving (b : Books σ) (o : Nat) (dest : Option σ) (A : σ) :
    b.inHand A (.leaving o dest) = [] := by
  cases dest <;> rfl

/-- Paths change only for an object in the hand of the worker that processes it. -/
theorem Flow.path_eq (h : Flow next0 root t l b l' b') {o : Nat} (ho : l.object ≠ some o) :
    b'.path o = b.path o := by
  cases h with
  | @process S o' answer b =>
      apply Function.update_of_ne
      rintro rfl
      exact ho rfl
  | _ => rfl

variable [Fintype σ]

/-- One queue changes. -/
theorem sum_count_update (q : σ → List Nat) (S : σ) (os : List Nat) (o : Nat) :
    ∑ S', (Function.update q S os S').count o + (q S).count o = ∑ S', (q S').count o + os.count o := by
  have hsplit : ∀ f : σ → Nat, ∑ S', f S' = f S + ∑ S' ∈ Finset.univ.erase S, f S' :=
    fun f => (Finset.add_sum_erase _ f (Finset.mem_univ S)).symm
  have hrest : ∑ S' ∈ Finset.univ.erase S, (Function.update q S os S').count o =
      ∑ S' ∈ Finset.univ.erase S, (q S').count o :=
    Finset.sum_congr rfl fun S' hS => by rw [Function.update_of_ne (Finset.ne_of_mem_erase hS)]
  rw [hsplit fun S' => (Function.update q S os S').count o, hsplit fun S' => (q S').count o, hrest,
    Function.update_self]
  omega

/-- No step loses an object or makes a second one of it. -/
theorem Flow.balance (h : Flow next0 root t l b l' b') (o : Nat) :
    l'.weight o + ∑ S, (b'.queue S).count o + b'.emitted.count o +
        (if o < b.accepted then 1 else 0) =
      l.weight o + ∑ S, (b.queue S).count o + b.emitted.count o +
        (if o < b'.accepted then 1 else 0) := by
  cases h with
  | still hl hl' => simp [AslLoc.weight, hl, hl']
  | accept =>
      -- the number that is given away is the next one
      simp only [AslLoc.weight, AslLoc.object, Option.some_inj, reduceCtorEq, if_false]
      split_ifs <;> omega
  | @take S held o' os b hqueue =>
      have hsum := sum_count_update b.queue S os o
      rw [hqueue, List.count_cons] at hsum
      simp only [AslLoc.weight, AslLoc.object, Option.some_inj, beq_iff_eq, reduceCtorEq,
        if_false] at hsum ⊢
      omega
  | @process S o' answer b => cases answer.or (next0 S) <;> rfl
  | @emit S o' b =>
      simp only [AslLoc.weight, AslLoc.object, Option.some_inj, List.count_append,
        List.count_singleton, beq_iff_eq, reduceCtorEq, if_false]
      omega
  | @handOver S next o' b =>
      have hsum := sum_count_update b.queue next (b.queue next ++ [o']) o
      rw [List.count_append, List.count_singleton] at hsum
      simp only [AslLoc.weight, AslLoc.object, Option.some_inj, beq_iff_eq, reduceCtorEq,
        if_false] at hsum ⊢
      omega
  | @insert c o' b =>
      have hsum := sum_count_update b.queue root (b.queue root ++ [o']) o
      rw [List.count_append, List.count_singleton] at hsum
      simp only [AslLoc.weight, AslLoc.object, Option.some_inj, beq_iff_eq, reduceCtorEq,
        if_false] at hsum ⊢
      omega

omit [DecidableEq σ] in
theorem count_le_sum (b : Books σ) (S : σ) (o : Nat) :
    (b.queue S).count o ≤ ∑ S, (b.queue S).count o :=
  Finset.single_le_sum (f := fun S => (b.queue S).count o) (fun _ _ => Nat.zero_le _)
    (Finset.mem_univ S)

variable [Fintype γ]

/-- The number of places an object is in: hands, queues, and out of the pipeline. -/
def places (b : Books σ) (thr : AslThread σ γ → Status (AslCv σ) (AslLoc σ)) (o : Nat) : Nat :=
  tally thr (AslLoc.weight o) + ∑ S, (b.queue S).count o + b.emitted.count o

/-- The books fit the threads. -/
structure BooksOk (next0 : σ → Option σ) (root : σ) (b : Books σ)
    (thr : AslThread σ γ → Status (AslCv σ) (AslLoc σ)) : Prop where
  places : ∀ o, places b thr o = if o < b.accepted then 1 else 0
  fresh : ∀ o, b.accepted ≤ o → b.path o = []
  queued : ∀ S o, o ∈ b.queue S → Routed next0 root (b.path o) (some S)
  located : ∀ t, LocOk next0 root b t (thr t).loc
  emitted : ∀ o, o ∈ b.emitted → Routed next0 root (b.path o) none
  order : ∀ A B, b.sent A B = b.received A B ++ b.inHand A (thr (.worker B)).loc ++
    b.queuedFrom A B ++ Books.inFlight B (thr (.worker A)).loc

/-- The books say nothing about threads but where they are. -/
theorem BooksOk.congr (hb : BooksOk next0 root b thr) (h : ∀ u, (thr' u).loc = (thr u).loc) :
    BooksOk next0 root b thr' where
  places o := by
    rw [AssemblyLine.places, tally_congr h]
    exact hb.places o
  fresh := hb.fresh
  queued := hb.queued
  located u := by
    rw [h]
    exact hb.located u
  emitted := hb.emitted
  order A B := by
    rw [h, h]
    exact hb.order A B

/-- Queued objects were accepted. -/
theorem BooksOk.lt_of_mem_queue (hb : BooksOk next0 root b thr) {S : σ} {o : Nat}
    (ho : o ∈ b.queue S) : o < b.accepted := by
  have hplaces := hb.places o
  have hpos := List.count_pos_iff.mpr ho
  have hsum := count_le_sum b S o
  unfold AssemblyLine.places at hplaces
  by_contra hge
  rw [if_neg hge] at hplaces
  omega

/-- An object in a queue is nowhere else. -/
theorem BooksOk.queue_alone (hb : BooksOk next0 root b thr) {S : σ} {o : Nat} (ho : o ∈ b.queue S) :
    (b.queue S).count o = 1 ∧ (∀ S', S' ≠ S → o ∉ b.queue S') ∧ o ∉ b.emitted := by
  have hplaces := hb.places o
  have hpos := List.count_pos_iff.mpr ho
  have hle := count_le_sum b S o
  rw [if_pos (hb.lt_of_mem_queue ho)] at hplaces
  unfold AssemblyLine.places at hplaces
  refine ⟨by omega, ?_, ?_⟩
  · intro S' hS' hmem
    have hpos' := List.count_pos_iff.mpr hmem
    have hsplit := Finset.add_sum_erase Finset.univ (fun S => (b.queue S).count o)
      (Finset.mem_univ S)
    have hle' : (b.queue S').count o ≤ ∑ S ∈ Finset.univ.erase S, (b.queue S).count o :=
      Finset.single_le_sum (f := fun S => (b.queue S).count o) (fun _ _ => Nat.zero_le _)
        (Finset.mem_erase.mpr ⟨hS', Finset.mem_univ S'⟩)
    omega
  · intro hmem
    have hpos' := List.count_pos_iff.mpr hmem
    omega

/-- No object leaves the pipeline twice. -/
theorem BooksOk.emitted_nodup (hb : BooksOk next0 root b thr) : b.emitted.Nodup := by
  rw [List.nodup_iff_count_le_one]
  intro o
  have hplaces := hb.places o
  unfold AssemblyLine.places at hplaces
  split_ifs at hplaces <;> omega

variable [DecidableEq γ]

/-- One summand of every tally changes. -/
theorem Moved.tally (h : Moved thr t l thr') (w : AslLoc σ → Nat) :
    Lib.tally thr' w + w (thr t).loc = Lib.tally thr w + w l := by
  rw [← h.self]
  exact tally_step w h.other

/-- An object in a hand is nowhere else. -/
theorem BooksOk.alone (hb : BooksOk next0 root b thr) {o : Nat} (ht : (thr t).loc.object = some o) :
    o < b.accepted ∧ (∀ u, u ≠ t → (thr u).loc.object ≠ some o) ∧ (∀ S, o ∉ b.queue S) ∧
      o ∉ b.emitted := by
  have hplaces := hb.places o
  have hweight : AslLoc.weight o (thr t).loc = 1 := if_pos ht
  have htally := le_tally thr (AslLoc.weight o) t
  unfold AssemblyLine.places at hplaces
  have hlt : o < b.accepted := by
    by_contra hge
    rw [if_neg hge] at hplaces
    omega
  rw [if_pos hlt] at hplaces
  refine ⟨hlt, ?_, ?_, ?_⟩
  · intro u hu hobj
    have hpair := add_le_tally thr (AslLoc.weight o) hu
    have hother : AslLoc.weight o (thr u).loc = 1 := if_pos hobj
    omega
  · intro S hmem
    have hpos := List.count_pos_iff.mpr hmem
    have hsum := count_le_sum b S o
    omega
  · intro hmem
    have hpos := List.count_pos_iff.mpr hmem
    omega

/-- An object in a queue is in no hand. -/
theorem BooksOk.not_in_hand (hb : BooksOk next0 root b thr) {S : σ} {o : Nat} (ho : o ∈ b.queue S)
    (t : AslThread σ γ) : (thr t).loc.object ≠ some o :=
  fun ht => (hb.alone ht).2.2.1 S ho

section Step

variable (hb : BooksOk next0 root b thr) (hflow : Flow next0 root t l b l' b')
  (hl : (thr t).loc = l) (hmoved : Moved thr t l' thr')

include hb hflow hl hmoved

theorem BooksOk.step_places (o : Nat) :
    AssemblyLine.places b' thr' o = if o < b'.accepted then 1 else 0 := by
  have hbalance := hflow.balance o
  have htally := hmoved.tally (AslLoc.weight o)
  have hplaces := hb.places o
  unfold AssemblyLine.places at hplaces ⊢
  rw [hl] at htally
  omega

omit hmoved in
theorem BooksOk.step_fresh (o : Nat) (ho : b'.accepted ≤ o) : b'.path o = [] := by
  cases hflow with
  | accept =>
      apply hb.fresh
      exact Nat.le_of_succ_le ho
  | @process S o' answer b =>
      -- the processed object was accepted
      have hlt := (hb.alone (o := o') (by rw [hl]; rfl)).1
      have hne : o ≠ o' := Nat.ne_of_gt (Nat.lt_of_lt_of_le hlt ho)
      exact (Function.update_of_ne hne _ _).trans (hb.fresh o ho)
  | _ => exact hb.fresh o ho

omit hmoved in
theorem BooksOk.step_queued (A : σ) (o : Nat) (ho : o ∈ b'.queue A) :
    Routed next0 root (b'.path o) (some A) := by
  have hloc := hb.located t
  rw [hl] at hloc
  cases hflow with
  | @take S held o' os b hqueue =>
      apply hb.queued A o
      by_cases hA : A = S
      · subst hA
        simp only [Function.update_self] at ho
        rw [hqueue]
        exact List.mem_cons_of_mem _ ho
      · simpa only [Function.update_of_ne hA] using ho
  | @process S o' answer b =>
      have hne : o ≠ o' := by
        rintro rfl
        exact hb.not_in_hand ho _ (by rw [hl]; rfl)
      have hpath := hb.queued A o ho
      rwa [← Function.update_of_ne hne (b.path o' ++ [(S, answer)]) b.path] at hpath
  | @handOver S next o' b =>
      by_cases hA : A = next
      · subst hA
        simp only [Function.update_self, List.mem_append, List.mem_singleton] at ho
        rcases ho with ho | rfl
        · exact hb.queued A o ho
        · exact hloc.1
      · exact hb.queued A o (by simpa only [Function.update_of_ne hA] using ho)
  | @insert c o' b =>
      by_cases hA : A = root
      · subst hA
        simp only [Function.update_self, List.mem_append, List.mem_singleton] at ho
        rcases ho with ho | rfl
        · exact hb.queued A o ho
        · have hpath : b.path o = [] := hloc
          rw [show b.path o = [] from hpath]
          exact .enter
      · exact hb.queued A o (by simpa only [Function.update_of_ne hA] using ho)
  | _ => exact hb.queued A o ho

omit hmoved in
theorem BooksOk.step_emitted (o : Nat) (ho : o ∈ b'.emitted) :
    Routed next0 root (b'.path o) none := by
  have hloc := hb.located t
  rw [hl] at hloc
  cases hflow with
  | @process S o' answer b =>
      have hne : o ≠ o' := by
        rintro rfl
        exact (hb.alone (by rw [hl]; rfl)).2.2.2 ho
      have hpath := hb.emitted o ho
      rwa [← Function.update_of_ne hne (b.path o' ++ [(S, answer)]) b.path] at hpath
  | @emit S o' b =>
      rcases List.mem_append.mp ho with ho | ho
      · exact hb.emitted o ho
      · rw [List.mem_singleton.mp ho]
        exact hloc
  | _ => exact hb.emitted o ho

theorem BooksOk.step_located (u : AslThread σ γ) : LocOk next0 root b' u (thr' u).loc := by
  by_cases hu : u = t
  · subst hu
    have hloc := hb.located u
    rw [hl] at hloc
    rw [hmoved.self]
    cases hflow with
    | still _ hl' => exact locOk_of_none hl' _ _
    | accept => exact hb.fresh _ (Nat.le_refl _)
    | take hqueue =>
        apply hb.queued
        rw [hqueue]
        exact List.mem_cons_self
    | @process S o answer b =>
        have hgo : Routed next0 root (b.path o ++ [(S, answer)]) (answer.or (next0 S)) := .go hloc
        cases hdest : answer.or (next0 S) with
        | none => simpa [LocOk, AslLoc.leaving, Books.process, hdest] using hgo
        | some next => simpa [LocOk, AslLoc.leaving, Books.process, Books.source, hdest] using hgo
    | emit => rfl
    | handOver => rfl
    | insert => rfl
  · rw [hmoved.other u hu]
    apply (hb.located u).frame
    intro o hobj
    -- the other thread has another object
    apply hflow.path_eq
    rw [← hl]
    exact (hb.alone hobj).2.1 t (Ne.symm hu)

theorem BooksOk.step_order (A B : σ) :
    b'.sent A B = b'.received A B ++ b'.inHand A (thr' (.worker B)).loc ++ b'.queuedFrom A B ++
      Books.inFlight B (thr' (.worker A)).loc := by
  have horder := hb.order A B
  have hloc := hb.located t
  rw [hl] at hloc
  cases hflow with
  | still hl₁ hl₂ =>
      have hhand := hmoved.keeps (b.inHand A)
        (by rw [hl, inHand_of_none hl₁, inHand_of_none hl₂]) (.worker B)
      have hflight := hmoved.keeps (Books.inFlight B)
        (by rw [hl, inFlight_of_none hl₁, inFlight_of_none hl₂]) (.worker A)
      rw [hhand, hflight]
      exact horder
  | accept =>
      rw [← hmoved.keeps (b.inHand A) (by rw [hl]; rfl) (.worker B),
        ← hmoved.keeps (Books.inFlight B) (by rw [hl]; rfl) (.worker A)] at horder
      exact horder
  | @take S held o os b hqueue =>
      rw [← hmoved.keeps (Books.inFlight B) (by rw [hl]; rfl) (.worker A)] at horder
      by_cases hB : B = S
      · subst hB
        rw [hl, queuedFrom_take b hqueue, inHand_of_none rfl, List.append_nil, ← List.append_assoc]
          at horder
        rw [hmoved.self]
        exact horder
      · rw [← hmoved.other (.worker B) (by simpa using hB)] at horder
        have hqueued : Books.queuedFrom { b with queue := Function.update b.queue S os } A B =
            b.queuedFrom A B := by
          simp only [Books.queuedFrom, Function.update_of_ne hB]
          rfl
        rw [hqueued]
        exact horder
  | @process S o answer b =>
      obtain ⟨-, hothers, hqueue, -⟩ := hb.alone (t := .worker S) (o := o) (by rw [hl]; rfl)
      -- what `B` received from `A` and has in hand
      have hreceived : (b.process S o answer (answer.or (next0 S))).received A B ++
          (b.process S o answer (answer.or (next0 S))).inHand A (thr' (.worker B)).loc =
          b.received A B ++ b.inHand A (thr (.worker B)).loc := by
        by_cases hB : B = S
        · subst hB
          rw [hmoved.self, hl, received_inHand_process, inHand_leaving, List.append_nil]
        · rw [hmoved.other (.worker B) (by simpa using hB), received_process_of_ne b hB,
            inHand_process b S _ _ A (hothers _ (by simpa using hB))]
      -- what `A` sent to `B` and what is still on its way
      by_cases hA : A = S
      · subst hA
        rw [hl] at horder
        rw [hreceived, queuedFrom_process b A _ _ A B (hqueue B), hmoved.self, sent_process, horder]
        simp [Books.inFlight]
      · rw [hreceived, queuedFrom_process b S _ _ A B (hqueue B),
          hmoved.other (.worker A) (by simpa using hA), sent_process_of_ne b hA, horder]
  | @emit S o b =>
      rw [← hmoved.keeps (b.inHand A) (by rw [hl]; rfl) (.worker B),
        ← hmoved.keeps (Books.inFlight B) (by rw [hl]; rfl) (.worker A)] at horder
      exact horder
  | @handOver S next o b =>
      rw [← hmoved.keeps (b.inHand A) (by rw [hl]; rfl) (.worker B)] at horder
      rw [queuedFrom_add]
      have hsource : b.source o = some S := hloc.2
      by_cases hA : A = S
      · subst hA
        rw [hl] at horder
        rw [hmoved.self]
        show b.sent A B = b.received A B ++ b.inHand A (thr' (.worker B)).loc ++ _ ++ _
        simpa [Books.inFlight, hsource] using horder
      · have hne : ¬ (b.source o = some A ∧ next = B) := by
          rw [hsource, Option.some_inj]
          exact fun h => hA h.1.symm
        rw [if_neg hne, List.append_nil, hmoved.other (.worker A) (by simpa using hA)]
        exact horder
  | @insert c o b =>
      rw [← hmoved.keeps (b.inHand A) (by rw [hl]; rfl) (.worker B),
        ← hmoved.keeps (Books.inFlight B) (by rw [hl]; rfl) (.worker A)] at horder
      have hne : ¬ (b.source o = some A ∧ root = B) := by
        have hpath : b.path o = [] := hloc
        simp [Books.source, hpath]
      rw [queuedFrom_add, if_neg hne, List.append_nil]
      exact horder

/-- Every step keeps the books in order. -/
theorem BooksOk.step : BooksOk next0 root b' thr' where
  places := hb.step_places hflow hl hmoved
  fresh := hb.step_fresh hflow hl
  queued := hb.step_queued hflow hl
  located := hb.step_located hflow hl hmoved
  emitted := hb.step_emitted hflow hl
  order := hb.step_order hflow hl hmoved

end Step

end Flow

end AssemblyLine
end MultithreadingBible
