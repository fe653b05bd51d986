import Mathlib.Data.Fintype.BigOperators
import MultithreadingBible.Lib.Runs
import MultithreadingBible.MapReduceLib.Session

/-!
# Every map-reduce comes to its end

On a platform without spurious wake-ups `map_reduce_start` returns whatever the interleaving: no run
is long, and where none of the threads can go on the caller has returned, all mappers and the
reducer have ended, and the calls on record are a session.

* `CallerLoc.left`, `MapperLoc.left`, `ReducerLoc.left` — the steps a thread has left.  For the last
  critical section of a mapper this includes the thread that its broadcast may wake up.
* `mr_weigh_lt` — every step lowers the sum of what is left.
* `mapReduce_ends` — the result.
-/

namespace MultithreadingBible
namespace MapReduceLib

open Lib

variable {n : Nat} {D : Type*} {app : MrApp n D} {c c' : CallerLoc} {f : Fin n → MapperLoc D}
  {r r' : ReducerLoc} {m m' : MapReduce n D} {notes : List (Note Unit)} {s s' : MrConfig n D}
  {t : MrThread n} {st : Status Unit (MrLoc D)}

/-- What the caller has left, when it is not blocked. -/
def CallerLoc.left (n : Nat) : CallerLoc → Nat
  | .start => n + 9
  | .launch i => n - i + 8
  | .wait => 7
  | .launchReducer => 4
  | .semWait => 3
  | .read => 2
  | .cleanup => 1
  | .finished => 0

/-- What a mapper has left.  A broadcast wakes up at most `n + 2` threads. -/
def MapperLoc.left (n : Nat) : MapperLoc D → Nat
  | .start => n + 5
  | .mapping _ => n + 4
  | .mapped => n + 3
  | .exit => 0

/-- What the reducer has left. -/
def ReducerLoc.left : ReducerLoc → Nat
  | .start => 5
  | .reduce => 4
  | .reducing => 3
  | .reduced => 2
  | .post => 1
  | .exit => 0

/-- What a thread has left.  A blocked caller has one step less, which it gets back when it is woken
up. -/
def mrWeight (n : Nat) (st : Status Unit (MrLoc D)) : Nat :=
  match st.loc with
  | .caller c => c.left n - st.isWaiting.toNat
  | .mapper l => l.left n
  | .reducer r => r.left

theorem mrWeight_notified (k : Unit) (l : MrLoc D) :
    mrWeight n (.notified k l) ≤ mrWeight n (.waiting k l) + 1 := by
  cases l with
  | caller c =>
      show c.left n - 0 ≤ c.left n - 1 + 1
      omega
  | mapper l => exact Nat.le_succ _
  | reducer r => exact Nat.le_succ _

section Moves

theorem CallerMove.left_lt {blocked : Bool} (h : CallerMove app m c m' blocked c') :
    c'.left n - blocked.toNat < c.left n := by
  cases h with
  | launch hk =>
      simp only [CallerLoc.left, Bool.toNat_false]
      omega
  | block htest hprogress =>
      cases htest with
      | first hk =>
          simp only [CallerLoc.left, Bool.toNat_true]
          omega
      | again => simp [CallerLoc.left]
  | pass htest hdone =>
      cases htest with
      | first hk =>
          simp only [CallerLoc.left, Bool.toNat_false]
          omega
      | again => simp [CallerLoc.left]
  | _ => simp [CallerLoc.left]

theorem MapperMove.left_lt {i : Fin n} {l l' : MapperLoc D} (h : MapperMove app i m l m' notes l') :
    l'.left n + (n + 2) < l.left n ∨ notes = [] ∧ l'.left n < l.left n := by
  cases h with
  | call hthread => exact .inr ⟨rfl, by simp [MapperLoc.left]⟩
  | store input => exact .inr ⟨rfl, by simp [MapperLoc.left]⟩
  | done => exact .inl (by simp [MapperLoc.left])

theorem ReducerMove.left_lt (h : ReducerMove app m r m' r') : r'.left < r.left := by
  cases h <;> decide

end Moves

/-- The caller, the reducer and the mappers. -/
def mrThreads (n : Nat) : MrThread n ≃ Option (Option (Fin n)) where
  toFun
    | .caller => none
    | .reducer => some none
    | .mapper i => some (some i)
  invFun
    | none => .caller
    | some none => .reducer
    | some (some i) => .mapper i
  left_inv t := by cases t <;> rfl
  right_inv o := by rcases o with - | - | i <;> rfl

theorem card_mrThread (n : Nat) : Fintype.card (MrThread n) = n + 2 := by
  rw [Fintype.card_congr (mrThreads n), Fintype.card_option, Fintype.card_option, Fintype.card_fin]

theorem sum_mrThread (w : MrThread n → Nat) :
    ∑ t, w t = w .caller + (w .reducer + ∑ i, w (.mapper i)) := by
  rw [Fintype.sum_equiv (mrThreads n) w fun o => w ((mrThreads n).symm o)]
  · rw [Fintype.sum_option, Fintype.sum_option]
    rfl
  · intro t
    rw [Equiv.symm_apply_apply]

/-- What is left in the beginning. -/
theorem mr_weigh_start : weigh (freshMapReduce n D).thr (fun _ => mrWeight n) = n * (n + 5) + n + 14 := by
  have hmappers : ∑ i : Fin n, mrWeight n ((freshMapReduce n D).thr (.mapper i)) =
      (Finset.univ : Finset (Fin n)).card * (n + 5) := Finset.sum_const_nat fun _ _ => rfl
  rw [Finset.card_univ, Fintype.card_fin] at hmappers
  have hcaller : mrWeight n ((freshMapReduce n D).thr .caller) = n + 9 := rfl
  have hreducer : mrWeight n ((freshMapReduce n D).thr .reducer) = 5 := rfl
  have hsum := sum_mrThread fun t => mrWeight n ((freshMapReduce n D).thr t)
  rw [hmappers, hcaller, hreducer] at hsum
  refine hsum.trans ?_
  omega

/-- **Every step** takes more from its thread than it gives to those it wakes up. -/
theorem mr_weigh_lt (h : MrInv app c f r s) (hran : (mrProgram app false).Ran s t () s' notes st) :
    weigh s'.thr (fun _ => mrWeight n) < weigh s.thr fun _ => mrWeight n := by
  have hexec : mrExec app t (s.thr t).loc () s.mem = .done s'.mem notes st := hran.exec
  have hawake := hran.awake
  have hsilent : notes = [] → mrWeight n st < mrWeight n (s.thr t) →
      weigh s'.thr (fun _ => mrWeight n) < weigh s.thr fun _ => mrWeight n := by
    rintro rfl hlt
    have heq := hran.weigh_of_nil fun _ => mrWeight n
    omega
  cases t with
  | caller =>
      rw [h.caller] at hexec
      obtain ⟨blocked, c', rfl, rfl, hmove⟩ := callerMove_of_exec hexec
      refine hsilent rfl ?_
      have hold : mrWeight n (s.thr .caller) = c.left n := by
        unfold mrWeight
        rw [h.caller, hawake]
        rfl
      have hnew : mrWeight n (callerStatus D blocked c') = c'.left n - blocked.toNat := by
        cases blocked <;> rfl
      rw [hold, hnew]
      exact hmove.left_lt
  | mapper i =>
      rw [h.mapper i] at hexec
      obtain ⟨l', rfl, hmove⟩ := mapperMove_of_exec hexec
      have hold : mrWeight n (s.thr (.mapper i)) = (f i).left n := by
        unfold mrWeight
        rw [h.mapper i]
      rcases hmove.left_lt with hlt | ⟨rfl, hlt⟩
      · have hle := hran.weigh_le (fun _ => mrWeight n) fun _ k l => mrWeight_notified k l
        rw [card_mrThread, hold] at hle
        have hnew : mrWeight n (.running (.mapper l') : Status Unit (MrLoc D)) = l'.left n := rfl
        rw [hnew] at hle
        omega
      · refine hsilent rfl ?_
        rw [hold]
        exact hlt
  | reducer =>
      rw [h.reducer] at hexec
      obtain ⟨r', rfl, rfl, hmove⟩ := reducerMove_of_exec hexec
      refine hsilent rfl ?_
      have hold : mrWeight n (s.thr .reducer) = r.left := by
        unfold mrWeight
        rw [h.reducer]
      rw [hold]
      exact hmove.left_lt

/-- A map-reduce is over: the caller has returned, the other threads have ended, nobody is blocked,
and the calls on record are a session. -/
structure MapReduceOver (app : MrApp n D) (s : MrConfig n D) : Prop where
  caller : (s.thr .caller).loc = .caller .finished
  mapper : ∀ i, (s.thr (.mapper i)).loc = .mapper .exit
  reducer : (s.thr .reducer).loc = .reducer .exit
  awake : ∀ t, (s.thr t).isWaiting = false
  session : Session app s.mem.log

/-- Where no step is left, the map-reduce is over. -/
theorem MrInv.over_of_stuck (h : MrInv app c f r s)
    (hstuck : (mrMachine app false).Stuck (fun _ _ => True) s) : MapReduceOver app s := by
  have hc : c = .finished := by
    by_contra hne
    have hlive : ∃ t picks s', (mrProgram app false).step s (.run t () picks) = .next s' := h.live hne
    obtain ⟨t, picks, s', hstep⟩ := hlive
    exact hstuck (.run t () picks) s' trivial hstep
  subst hc
  refine ⟨h.caller, fun i => ?_, ?_, fun t => ?_, h.log.complete h.stage⟩
  · rw [h.mapper i, h.stage.joined rfl i]
  · rw [h.reducer, h.stage.reduced rfl]
  · by_contra hw
    obtain ⟨k, l, hw⟩ := Status.isWaiting_iff.mp (by simpa using hw)
    obtain ⟨-, hwait, -⟩ := h.waiting t k l hw
    cases hwait

/-- **Map-reduce terminates**: without spurious wake-ups no run of `map_reduce_start` with `n`
mappers, as many as fit into its arrays, has more than `n * (n + 5) + n + 14` steps, and every run
that cannot go on has ended with the whole session. -/
theorem mapReduce_ends (_hn : n ≤ mapReduceMaxMapper) (app : MrApp n D) :
    (mrMachine app false).Ends (fun _ _ => True) (freshMapReduce n D) (n * (n + 5) + n + 14)
      (MapReduceOver app) := by
  rw [← mr_weigh_start (D := D)]
  apply Machine.Ends.of_rank (R := fun s k => (mrMachine app false).Reachable s ∧
    k = weigh s.thr fun _ => mrWeight n)
  · rintro s a s' k ⟨hreach, rfl⟩ _ hstep
    refine ⟨_, ?_, .step hreach trivial hstep, rfl⟩
    cases a with
    | run t x picks =>
        obtain ⟨notes, st, hran⟩ := Program.ran_of_step hstep
        obtain ⟨c, f, r, h⟩ := reachable_mrInv hreach
        exact mr_weigh_lt h hran
    | spurious t =>
        obtain ⟨hsp, -⟩ := Program.spurious_of_step hstep
        cases hsp
  · rintro s k ⟨hreach, -⟩ hstuck
    obtain ⟨c, f, r, h⟩ := reachable_mrInv hreach
    exact h.over_of_stuck hstuck
  · exact ⟨.init rfl, rfl⟩

/-- Two mappers need 30 steps at most. -/
theorem mapReduce_ends_countingApp :
    (mrMachine countingApp false).Ends (fun _ _ => True) (freshMapReduce 2 Nat) 30
      (MapReduceOver countingApp) :=
  mapReduce_ends (by decide) countingApp

end MapReduceLib
end MultithreadingBible
