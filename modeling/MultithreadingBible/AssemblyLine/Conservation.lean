import MultithreadingBible.AssemblyLine.Queues

/-!
# Conservation and order in a pipeline

Over all runs of a pipeline that is not destroyed: no object is lost, none is in two places, every object
goes through the stages its answers name, stages receive objects in the order they were sent, and no
worker sleeps beside a queue with objects.

* `AslPlace`, `objectsAt` — where objects are.
* `Conserved` — the properties, for the queues that the heap holds.
-/

namespace MultithreadingBible
namespace AssemblyLine

open Lib

/-- Where an object can be. -/
inductive AslPlace (σ γ : Type*) where
  | hand (t : AslThread σ γ)
  | queue (S : σ)
  | out

section Places

variable {σ γ : Type*}

/-- The objects in a place. -/
def objectsAt (s : AslConfig σ γ) (L : σ → List Nat) : AslPlace σ γ → List Nat
  | .hand t => (s.thr t).loc.object.toList
  | .queue S => L S
  | .out => s.mem.emitted

/-- The next stage that an object in a place goes through; none after the last one. -/
def nextStage (root : σ) (s : AslConfig σ γ) : AslPlace σ γ → Option σ
  | .hand (.worker S) =>
      match (s.thr (.worker S)).loc with
      | .process _ => some S
      | .handOver next _ => some next
      | _ => none
  | .hand _ => some root
  | .queue S => some S
  | .out => none

variable [DecidableEq σ]

/-- What a pipeline does with its objects, when its queues are `L`. -/
structure Conserved (next0 : σ → Option σ) (root : σ) (s : AslConfig σ γ) (L : σ → List Nat) :
    Prop where
  queued : Queued s.mem.heap L
  /-- An accepted object is somewhere. -/
  somewhere : ∀ o, o < s.mem.accepted ↔ ∃ p, o ∈ objectsAt s L p
  /-- It is in one place, once. -/
  once : ∀ o p q, o ∈ objectsAt s L p → o ∈ objectsAt s L q → p = q
  nodup : ∀ p, (objectsAt s L p).Nodup
  /-- It went through the stages its answers name, and goes on like that. -/
  routed : ∀ p o, o ∈ objectsAt s L p →
    Routed next0 root (s.mem.path o) (nextStage root s p)
  /-- Stage `B` processed what it received from `A` in the order in which `A` sent it. -/
  ordered : ∀ A B, (s.mem.books L).received A B <+: (s.mem.books L).sent A B
  /-- A worker whose queue has objects is not blocked, or was notified. -/
  awake : ∀ S, L S ≠ [] → (s.thr (.worker S)).isWaiting = false

variable [Fintype σ] [DecidableEq γ] [Fintype γ] {next0 : σ → Option σ} {root : σ}
  {s : AslConfig σ γ} {L : σ → List Nat}

omit [DecidableEq σ] [Fintype σ] [DecidableEq γ] [Fintype γ] in
/-- The object in a hand goes where the thread brings it. -/
theorem LocOk.routed {b : Books σ} {t : AslThread σ γ} (h : LocOk next0 root b t (s.thr t).loc)
    {o : Nat} (ho : (s.thr t).loc.object = some o) :
    Routed next0 root (b.path o) (nextStage root s (.hand t)) := by
  have hnone : ∀ l : AslLoc σ, l.object = some o → l.object ≠ none := by
    intro l hl hno
    rw [hl] at hno
    cases hno
  cases t with
  | destroyer => exact absurd h (hnone _ ho)
  | caller c =>
      simp only [nextStage]
      generalize (s.thr (.caller c)).loc = l at h ho
      cases l with
      | accepted o' =>
          have hpath : b.path o = [] := Option.some.inj ho ▸ h
          rw [hpath]
          exact .enter
      | _ => exact absurd h (hnone _ ho)
  | worker S =>
      simp only [nextStage]
      generalize (s.thr (.worker S)).loc = l at h ho
      cases l with
      | process o' =>
          cases ho
          exact h
      | emit o' =>
          cases ho
          exact h
      | handOver next o' =>
          cases ho
          exact h.1
      | _ => exact absurd h (hnone _ ho)

/-- An object in a hand is in no other place. -/
theorem QueuesOk.hand_alone (h : QueuesOk next0 root s L) {o : Nat} {t : AslThread σ γ}
    (ho : (s.thr t).loc.object = some o) {p : AslPlace σ γ} (hp : o ∈ objectsAt s L p) :
    p = .hand t := by
  obtain ⟨-, hothers, hqueue, hout⟩ := h.books.alone ho
  cases p with
  | hand u =>
      by_contra hne
      apply hothers u
      · rintro rfl
        exact hne rfl
      · exact Option.mem_toList.mp hp
  | queue S => exact absurd hp (hqueue S)
  | out => exact absurd hp hout

/-- Objects are in one place. -/
theorem QueuesOk.once (h : QueuesOk next0 root s L) {o : Nat} {p q : AslPlace σ γ}
    (hp : o ∈ objectsAt s L p) (hq : o ∈ objectsAt s L q) : p = q := by
  cases p with
  | hand t => exact (h.hand_alone (Option.mem_toList.mp hp) hq).symm
  | queue S =>
      obtain ⟨-, hqueue, hout⟩ := h.books.queue_alone hp
      cases q with
      | hand t => exact h.hand_alone (Option.mem_toList.mp hq) hp
      | queue S' =>
          by_contra hne
          apply hqueue S' _ hq
          rintro rfl
          exact hne rfl
      | out => exact absurd hq hout
  | out =>
      cases q with
      | hand t => exact h.hand_alone (Option.mem_toList.mp hq) hp
      | queue S => exact absurd hp (h.books.queue_alone hq).2.2
      | out => rfl

/-- Accepted objects are somewhere, and no others are anywhere. -/
theorem QueuesOk.somewhere (h : QueuesOk next0 root s L) (o : Nat) :
    o < s.mem.accepted ↔ ∃ p, o ∈ objectsAt s L p := by
  rw [h.named]
  have hplaces : places (s.mem.books L) s.thr o = if o < s.mem.allocated then 1 else 0 :=
    h.books.places o
  unfold places at hplaces
  constructor
  · intro ho
    rw [if_pos ho] at hplaces
    by_contra hno
    have hnot : ∀ p, o ∉ objectsAt s L p := fun p hp => hno ⟨p, hp⟩
    have hhands : tally s.thr (AslLoc.weight o) = 0 := by
      rw [tally_eq_zero]
      intro t
      apply if_neg
      exact fun ht => hnot (.hand t) (Option.mem_toList.mpr ht)
    have hqueues : ∑ S, ((s.mem.books L).queue S).count o = 0 :=
      Finset.sum_eq_zero fun S _ => List.count_eq_zero.mpr (hnot (.queue S))
    have hout : (s.mem.books L).emitted.count o = 0 := List.count_eq_zero.mpr (hnot .out)
    omega
  · rintro ⟨p, hp⟩
    cases p with
    | hand t => exact (h.books.alone (Option.mem_toList.mp hp)).1
    | queue S => exact h.books.lt_of_mem_queue hp
    | out =>
        have hpos : 0 < (s.mem.books L).emitted.count o := List.count_pos_iff.mpr hp
        by_contra hge
        rw [if_neg hge] at hplaces
        omega

/-- What a pipeline does with its objects follows from the invariant. -/
theorem QueuesOk.conserved (h : QueuesOk next0 root s L) : Conserved next0 root s L where
  queued := h.queued
  somewhere := h.somewhere
  once _ _ _ := h.once
  nodup p := by
    cases p with
    | hand t =>
        show ((s.thr t).loc.object.toList).Nodup
        cases (s.thr t).loc.object <;> simp
    | queue S => exact List.Nodup.of_map _ (h.queued.nodup S)
    | out => exact h.books.emitted_nodup
  routed p o hp := by
    cases p with
    | queue S => exact h.books.queued S o hp
    | out => exact h.books.emitted o hp
    | hand t => exact (h.books.located t).routed (Option.mem_toList.mp hp)
  ordered A B := by
    have horder := h.books.order A B
    simp only [List.append_assoc] at horder
    exact ⟨_, horder.symm⟩
  awake S hS := by
    cases hthr : s.thr (.worker S) with
    | waiting c l =>
        apply absurd _ hS
        apply h.idle S
        rw [hthr]
        exact .waiting
    | _ => rfl

variable {spurious : Bool}

/-- **Nothing is lost, duplicated or reordered, and no wake-up is missed**, in any run of a pipeline with
any graph of stages, any callbacks, any callers and any spurious wake-ups. -/
theorem conserved_of_reachable (hs : (aslMachine γ next0 root false spurious).Reachable s) :
    (∃ L, Conserved next0 root s L) ∧
      ∀ a, (aslMachine γ next0 root false spurious).step s a ≠ .abort := by
  obtain ⟨L, h⟩ := reachable_queuesOk hs
  refine ⟨⟨L, h.conserved⟩, ?_⟩
  rintro (⟨t, answer, picks⟩ | t) habort
  · have hexec := Effect.observed_eq_abort.mp (Program.exec_of_abort habort).2
    rcases h.moves false t answer with hblocked | ⟨m', L', notes, st, hdone, -⟩
    · exact absurd (hblocked.symm.trans hexec) (by simp)
    · exact absurd (hdone.symm.trans hexec) (by simp)
  · exact Program.not_abort_spurious habort

end Places

/-- Two stages one after the other. -/
def twoStages : Bool → Option Bool
  | false => some true
  | true => none

/-- The caller goes on. -/
abbrev callerGoes : Act (AslThread Bool Unit) (Option Bool) := .run (.caller ()) none []

/-- A worker goes on. -/
abbrev workerGoes (S : Bool) (answer : Option Bool) : Act (AslThread Bool Unit) (Option Bool) :=
  .run (.worker S) answer []

/-- A worker fills the queue of the other one, which was asleep. -/
abbrev workerWakes (S : Bool) : Act (AslThread Bool Unit) (Option Bool) :=
  .run (.worker S) none [some (.worker !S)]

/-- The second of two objects is still in a queue when the first one is emitted. -/
theorem conserved_of_reachable_trace :
    ∃ s : AslConfig Bool Unit, (∃ L, Conserved twoStages false s L) ∧ s.mem.emitted = [0] ∧
      s.mem.accepted = 2 := by
  have hrun : ((aslMachine Unit twoStages false false true).exec (freshAsl Bool Unit)
      [workerGoes true none, workerGoes true none, workerGoes true none, callerGoes, callerGoes,
        callerGoes, callerGoes, workerGoes false none, workerGoes false none, workerWakes false,
        workerGoes true none, workerGoes true none, workerGoes true none, workerGoes true none,
        workerGoes true none]).holds (fun s =>
          decide (s.mem.emitted = [0] ∧ s.mem.accepted = 2)) = true := by
    decide +kernel
  obtain ⟨s, hs, hp⟩ := Machine.exists_reachable_of_exec rfl hrun
  exact ⟨s, (conserved_of_reachable hs).1, of_decide_eq_true hp⟩

end AssemblyLine
end MultithreadingBible
