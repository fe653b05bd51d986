import MultithreadingBible.Lib.Runs
import MultithreadingBible.Semaphores.Sema

/-!
# Counting in strict alternation (`semaphore_strict_counter.c`)

One thread prints the odd numbers up to a bound and the other one the even numbers.  Two semaphores
without permits pass the turn: the odd thread posts `sema0_2` after each number and waits for
`sema0_1`, the even thread waits for `sema0_2` before each number and posts `sema0_1` after it.
`main` joins both threads.

* `oddFn`, `evenFn`, `counterMain` — the code, which calls `sema_wait` and `sema_post`.
* `Phase` — where the turn can be, and what was printed by then.
* `strictCounter_counts` — without wake-ups that no post caused, every run prints an initial piece
  of `1, 2, 3, …`, and ends after all numbers up to the bound.  Up to an odd bound, as the program
  has it, the odd thread waits for a last answer that never comes, and `main` never gets to destroy
  the semaphores. A bound from `2 ^ 31 - 2` on is left out: there the `int` of a loop overflows.
-/

namespace MultithreadingBible
namespace Semaphores

open Lib

/-- The threads of the program. -/
inductive CounterThread where
  | main
  | odd
  | even
  deriving DecidableEq

instance : Fintype CounterThread := ⟨{.main, .odd, .even}, by intro t; cases t <;> simp⟩

/-- `sema0_1` and `sema0_2` -/
inductive SemaName where
  | s01
  | s02
  deriving DecidableEq

/-- The semaphores, the numbers printed so far, and the threads that returned. -/
structure CounterMem where
  sema01 : Sema
  sema02 : Sema
  printed : List Nat
  oddReturned : Bool
  evenReturned : Bool

/-- Where a thread is. -/
inductive CounterLoc where
  /-- Before the test of the loop. -/
  | top (i : Nat)
  /-- Before `printf`, in the even thread. -/
  | print (i : Nat)
  /-- Before `sema_post`. -/
  | post (i : Nat)
  /-- Before `sema_wait`, in the odd thread. -/
  | wait (i : Nat)
  /-- In the wait of `sema_wait`. -/
  | resume (i : Nat)
  | returned
  | joinOdd
  | joinEven
  /-- The semaphores are destroyed. -/
  | finished
  deriving DecidableEq

/-- The `int i` of a thread in its loop. -/
def CounterLoc.index : CounterLoc → Nat
  | .top i | .print i | .post i | .wait i | .resume i => i
  | _ => 0

abbrev CounterEffect := Effect CounterMem SemaName CounterLoc

/-- The semaphore of that name. -/
def CounterMem.sema (m : CounterMem) : SemaName → Sema
  | .s01 => m.sema01
  | .s02 => m.sema02

def CounterMem.setSema (m : CounterMem) (which : SemaName) (sema : Sema) : CounterMem :=
  match which with
  | .s01 => { m with sema01 := sema }
  | .s02 => { m with sema02 := sema }

/-- A notification for the sleepers of a semaphore. -/
def noteOf (which : SemaName) : Note Unit → Note SemaName
  | .signal _ => .signal which
  | .broadcast _ => .broadcast which

/-- A caller behind its call or in the wait of it. -/
def statusOf (which : SemaName) (ret asleep : CounterLoc) :
    Status Unit SemaLoc → Status SemaName CounterLoc
  | .running _ => .running ret
  | .waiting _ _ => .waiting which asleep
  | .notified _ _ => .notified which asleep

/-- A call on a semaphore, from which the caller goes on at `ret`, perhaps after a wait at `asleep`. -/
def semaCall (m : CounterMem) (which : SemaName) (f : Sema → SemaEffect) (ret asleep : CounterLoc) :
    CounterEffect :=
  match f (m.sema which) with
  | .blocked => .blocked
  | .abort => .abort
  | .done sema notes st =>
      .done (m.setSema which sema) (notes.map (noteOf which)) (statusOf which ret asleep st)

/-- `thread_fn_callback_odd`, piece by piece. -/
def oddFn (n : Nat) (l : CounterLoc) (m : CounterMem) : CounterEffect :=
  match l with
  | .top i =>
      if i ≤ n then .done { m with printed := m.printed ++ [i] } [] (.running (.post i))
      else .done { m with oddReturned := true } [] (.running .returned)
  | .post i => semaCall m .s02 semaPost (.wait i) (.resume i)
  | .wait i => semaCall m .s01 semaWait (.top (i + 2)) (.resume i)
  | .resume i => semaCall m .s01 semaWaitEnd (.top (i + 2)) (.resume i)
  | _ => .blocked

/-- `thread_fn_callback_even`, piece by piece. -/
def evenFn (n : Nat) (l : CounterLoc) (m : CounterMem) : CounterEffect :=
  match l with
  | .top i =>
      if i ≤ n then semaCall m .s02 semaWait (.print i) (.resume i)
      else .done { m with evenReturned := true } [] (.running .returned)
  | .resume i => semaCall m .s02 semaWaitEnd (.print i) (.resume i)
  | .print i => .done { m with printed := m.printed ++ [i] } [] (.running (.post i))
  | .post i => semaCall m .s01 semaPost (.top (i + 2)) (.resume i)
  | _ => .blocked

/-- `main` after it created the threads: it joins both, and destroys the semaphores. -/
def counterMain (l : CounterLoc) (m : CounterMem) : CounterEffect :=
  match l with
  | .joinOdd => if m.oddReturned then .done m [] (.running .joinEven) else .blocked
  | .joinEven => if m.evenReturned then .done m [] (.running .finished) else .blocked
  | _ => .blocked

/-- What a thread does next, when the loops count up to `n`. -/
def counterExec (n : Nat) (t : CounterThread) (l : CounterLoc) (m : CounterMem) : CounterEffect :=
  match t with
  | .main => counterMain l m
  | .odd => oddFn n l m
  | .even => evenFn n l m

/-- The program, for a bound on the numbers. -/
def counterProgram (n : Nat) : Program CounterThread CounterMem SemaName CounterLoc Unit where
  exec t l _ m := counterExec n t l m
  spuriousWakeups := false

abbrev CounterConfig := Config CounterThread CounterMem SemaName CounterLoc

/-- Both threads were created. -/
def newCounter : CounterConfig where
  mem := ⟨semaInit 0, semaInit 0, [], false, false⟩
  thr
    | .main => .running .joinOdd
    | .odd => .running (.top 1)
    | .even => .running (.top 2)

/-- All runs of the program. -/
def counterMachine (n : Nat) : Machine CounterConfig (Act CounterThread Unit) :=
  (counterProgram n).machine fun s => s = newCounter

/-- The even thread before its turn in round `r`, and the counter of `sema0_2`. -/
inductive EvenWaits (n r : Nat) : Int32 → Status SemaName CounterLoc → Prop
  | top : EvenWaits n r 0 (.running (.top (2 * r + 2)))
  | asleep (h : 2 * r + 2 ≤ n) : EvenWaits n r (-1) (.waiting .s02 (.resume (2 * r + 2)))
  | returned (h : n < 2 * r + 2) : EvenWaits n r 0 (.running .returned)

/-- The even thread when the turn was passed to it in round `r`. -/
inductive EvenPosted (n r : Nat) : Int32 → Status SemaName CounterLoc → Prop
  | top : EvenPosted n r 1 (.running (.top (2 * r + 2)))
  | woken (h : 2 * r + 2 ≤ n) : EvenPosted n r 0 (.notified .s02 (.resume (2 * r + 2)))
  | returned (h : n < 2 * r + 2) : EvenPosted n r 1 (.running .returned)

/-- The odd thread behind its turn in round `r`, and the counter of `sema0_1`. -/
inductive OddWaits (r : Nat) : Int32 → Status SemaName CounterLoc → Prop
  | wait : OddWaits r 0 (.running (.wait (2 * r + 1)))
  | asleep : OddWaits r (-1) (.waiting .s01 (.resume (2 * r + 1)))

/-- The odd thread when it was answered in round `r`. -/
inductive OddPosted (r : Nat) : Int32 → Status SemaName CounterLoc → Prop
  | wait : OddPosted r 1 (.running (.wait (2 * r + 1)))
  | woken : OddPosted r 0 (.notified .s01 (.resume (2 * r + 1)))

/-- **Where the turn can be**, with the counters of `sema0_1` and `sema0_2`, the threads, and the
number of the numbers printed. -/
inductive Phase (n : Nat) :
    Int32 → Status SemaName CounterLoc → Int32 → Status SemaName CounterLoc → Nat → Prop
  | oddTop {r : Nat} {c : Int32} {e : Status SemaName CounterLoc} (he : EvenWaits n r c e)
      (h : 2 * r ≤ n) : Phase n 0 (.running (.top (2 * r + 1))) c e (2 * r)
  | oddPost {r : Nat} {c : Int32} {e : Status SemaName CounterLoc} (he : EvenWaits n r c e)
      (h : 2 * r + 1 ≤ n) : Phase n 0 (.running (.post (2 * r + 1))) c e (2 * r + 1)
  | sent {r : Nat} {c d : Int32} {o e : Status SemaName CounterLoc} (ho : OddWaits r c o)
      (he : EvenPosted n r d e) (h : 2 * r + 1 ≤ n) : Phase n c o d e (2 * r + 1)
  | evenPrint {r : Nat} {c : Int32} {o : Status SemaName CounterLoc} (ho : OddWaits r c o)
      (h : 2 * r + 2 ≤ n) : Phase n c o 0 (.running (.print (2 * r + 2))) (2 * r + 1)
  | evenPost {r : Nat} {c : Int32} {o : Status SemaName CounterLoc} (ho : OddWaits r c o)
      (h : 2 * r + 2 ≤ n) : Phase n c o 0 (.running (.post (2 * r + 2))) (2 * r + 2)
  | answered {r : Nat} {c d : Int32} {o e : Status SemaName CounterLoc} (ho : OddPosted r c o)
      (he : EvenWaits n (r + 1) d e) (h : 2 * r + 2 ≤ n) : Phase n c o d e (2 * r + 2)
  | oddReturned {r : Nat} {c : Int32} {e : Status SemaName CounterLoc} (he : EvenWaits n r c e)
      (h : 2 * r ≤ n) (hn : n < 2 * r + 1) : Phase n 0 (.running .returned) c e (2 * r)

/-- `main` joins a thread only after it returned. -/
inductive MainAt (m : CounterMem) : Status SemaName CounterLoc → Prop
  | joinOdd : MainAt m (.running .joinOdd)
  | joinEven (h : m.oddReturned = true) : MainAt m (.running .joinEven)
  | finished (h : m.oddReturned = true) (h' : m.evenReturned = true) : MainAt m (.running .finished)

/-- The loops end right behind the bound. -/
theorem Phase.index_le {n k : Nat} {c d : Int32} {o e : Status SemaName CounterLoc}
    (h : Phase n c o d e k) : o.loc.index ≤ n + 2 ∧ e.loc.index ≤ n + 2 := by
  have heven : ∀ {r c e}, EvenWaits n r c e → 2 * r ≤ n → e.loc.index ≤ n + 2 := by
    intro r c e he hr
    cases he with
    | top | asleep => exact Nat.add_le_add_right hr 2
    | returned => exact Nat.zero_le _
  have hodd : ∀ {r c o}, OddWaits r c o → 2 * r + 1 ≤ n → o.loc.index ≤ n + 2 := by
    intro r c o ho hr
    cases ho with
    | wait | asleep => exact Nat.le_add_right_of_le hr
  cases h with
  | oddTop he h => exact ⟨Nat.add_le_add h (by decide), heven he h⟩
  | oddPost he h => exact ⟨Nat.le_add_right_of_le h, heven he (by omega)⟩
  | sent ho he h =>
      refine ⟨hodd ho h, ?_⟩
      cases he with
      | top | woken => exact Nat.add_le_add_right (Nat.le_of_succ_le h) 2
      | returned => exact Nat.zero_le _
  | evenPrint ho h => exact ⟨hodd ho (by omega), Nat.le_add_right_of_le h⟩
  | evenPost ho h => exact ⟨hodd ho (by omega), Nat.le_add_right_of_le h⟩
  | answered ho he h =>
      refine ⟨?_, heven he (by omega)⟩
      cases ho with
      | wait | woken => exact Nat.le_add_right_of_le (Nat.le_of_succ_le h)
  | oddReturned he h hn => exact ⟨Nat.zero_le _, heven he h⟩

/-- The turn is somewhere, and the right numbers were printed. -/
def Counting (n : Nat) (m : CounterMem) (o e : Status SemaName CounterLoc) : Prop :=
  ∃ k, Phase n (m.sema .s01).permitCounter o (m.sema .s02).permitCounter e k ∧
    m.printed = List.range' 1 k

/-- The invariant. -/
structure CounterInv (n : Nat) (s : CounterConfig) : Prop where
  counting : Counting n s.mem (s.thr .odd) (s.thr .even)
  odd : s.mem.oddReturned = true ↔ s.thr .odd = .running .returned
  even : s.mem.evenReturned = true ↔ s.thr .even = .running .returned
  main : MainAt s.mem (s.thr .main)

theorem CounterInv.new (n : Nat) : CounterInv n newCounter where
  counting := ⟨0, .oddTop (r := 0) .top (Nat.zero_le n), rfl⟩
  odd := by simp [newCounter]
  even := by simp [newCounter]
  main := .joinOdd

section Calls

variable {m : CounterMem} {which : SemaName} {ret asleep : CounterLoc}

/-- A post that nobody waits for. -/
theorem semaCall_post (hc : (m.sema which).permitCounter = 0) :
    semaCall m which semaPost ret asleep = .done
      (m.setSema which ⟨1, (m.sema which).waits, (m.sema which).posts + 1⟩) [] (.running ret) := by
  simp only [semaCall, semaPost, hc]
  rfl

/-- A post that a sleeper waits for. -/
theorem semaCall_post_asleep (hc : (m.sema which).permitCounter = -1) :
    semaCall m which semaPost ret asleep = .done
      (m.setSema which ⟨0, (m.sema which).waits, (m.sema which).posts + 1⟩) [.signal which]
      (.running ret) := by
  simp only [semaCall, semaPost, hc]
  rfl

/-- A wait before the post. -/
theorem semaCall_wait (hc : (m.sema which).permitCounter = 0) :
    semaCall m which semaWait ret asleep = .done
      (m.setSema which ⟨-1, (m.sema which).waits, (m.sema which).posts⟩) []
      (.waiting which asleep) := by
  simp only [semaCall, semaWait, hc]
  rfl

/-- A wait behind the post. -/
theorem semaCall_wait_posted (hc : (m.sema which).permitCounter = 1) :
    semaCall m which semaWait ret asleep = .done
      (m.setSema which ⟨0, (m.sema which).waits + 1, (m.sema which).posts⟩) [] (.running ret) := by
  simp only [semaCall, semaWait, hc]
  rfl

/-- The end of a wait. -/
theorem semaCall_waitEnd : semaCall m which semaWaitEnd ret asleep = .done
    (m.setSema which { m.sema which with waits := (m.sema which).waits + 1 }) [] (.running ret) :=
  rfl

/-- What a call leaves alone, and where the caller goes on. -/
theorem semaCall_frame {m' : CounterMem} {f : Sema → SemaEffect} {notes : List (Note SemaName)}
    {st : Status SemaName CounterLoc} (h : semaCall m which f ret asleep = .done m' notes st) :
    m'.printed = m.printed ∧ m'.oddReturned = m.oddReturned ∧ m'.evenReturned = m.evenReturned ∧
      (st.loc = ret ∨ st.loc = asleep) := by
  unfold semaCall at h
  split at h
  · cases h
  · cases h
  · next sema _ st' _ =>
    cases h
    refine ⟨?_, ?_, ?_, ?_⟩
    · cases which <;> rfl
    · cases which <;> rfl
    · cases which <;> rfl
    · cases st' <;> simp [statusOf]

end Calls

/-- The next number is printed. -/
theorem printed_next {printed : List Nat} {k : Nat} (hk : printed = List.range' 1 k) :
    printed ++ [k + 1] = List.range' 1 (k + 1) := by
  rw [hk, List.range'_1_concat, Nat.add_comm 1 k]

theorem Phase.counting {n k : Nat} {m : CounterMem} {c d : Int32} {o e : Status SemaName CounterLoc}
    (h : Phase n c o d e k) (hc : (m.sema .s01).permitCounter = c)
    (hd : (m.sema .s02).permitCounter = d) (hk : m.printed = List.range' 1 k) : Counting n m o e := by
  subst hc hd
  exact ⟨k, h, hk⟩

/-- What a step of one of the two threads does to the other one, which waits for `which`.  `P` is
the phase as a function of that. -/
inductive OtherAfter (which : SemaName) (other : Status SemaName CounterLoc)
    (P : Status SemaName CounterLoc → Prop) : List (Note SemaName) → Prop
  | same (h : P other) : OtherAfter which other P []
  | woken {l : CounterLoc} (hw : other = .waiting which l) (h : P (.notified which l)) :
      OtherAfter which other P [.signal which]

section Steps

variable {n k r : Nat} {m m' : CounterMem} {c d : Int32} {o e st : Status SemaName CounterLoc}
  {notes : List (Note SemaName)}

/-- Behind its turn the odd thread can only fall asleep. -/
theorem OddWaits.step (h : OddWaits r c o) (hc : (m.sema .s01).permitCounter = c)
    (hawake : o.isWaiting = false) (hexec : oddFn n o.loc m = .done m' notes st) :
    OddWaits r (m'.sema .s01).permitCounter st ∧ notes = [] ∧
      (m'.sema .s02).permitCounter = (m.sema .s02).permitCounter ∧ m'.printed = m.printed := by
  cases h with
  | wait =>
      simp only [Status.loc_running, oddFn] at hexec
      rw [semaCall_wait hc] at hexec
      cases hexec
      exact ⟨.asleep, rfl, rfl, rfl⟩
  | asleep => cases hawake

/-- Before its turn the even thread can only fall asleep or return. -/
theorem EvenWaits.step (h : EvenWaits n r d e) (hd : (m.sema .s02).permitCounter = d)
    (hawake : e.isWaiting = false) (hexec : evenFn n e.loc m = .done m' notes st) :
    EvenWaits n r (m'.sema .s02).permitCounter st ∧ notes = [] ∧
      (m'.sema .s01).permitCounter = (m.sema .s01).permitCounter ∧ m'.printed = m.printed := by
  cases h with
  | top =>
      simp only [Status.loc_running, evenFn] at hexec
      split at hexec
      · next hle =>
        rw [semaCall_wait hd] at hexec
        cases hexec
        exact ⟨.asleep hle, rfl, rfl, rfl⟩
      · next hlt =>
        cases hexec
        refine ⟨?_, rfl, rfl, rfl⟩
        show EvenWaits n r (m.sema .s02).permitCounter _
        rw [hd]
        exact .returned (by omega)
  | asleep => cases hawake
  | returned => cases hexec

/-- A piece of the odd thread's code takes the turn on. -/
theorem Phase.odd_step (hp : Phase n c o d e k) (hc : (m.sema .s01).permitCounter = c)
    (hd : (m.sema .s02).permitCounter = d) (hk : m.printed = List.range' 1 k)
    (hawake : o.isWaiting = false)
    (hexec : oddFn n o.loc m = .done m' notes st) :
    OtherAfter .s02 e (fun e' => Counting n m' st e') notes := by
  cases hp with
  | @oddTop r _ _ he h =>
      simp only [Status.loc_running, oddFn] at hexec
      split at hexec
      · next hle =>
        cases hexec
        exact .same ((Phase.oddPost he hle).counting hc hd (printed_next hk))
      · next hlt =>
        cases hexec
        exact .same ((Phase.oddReturned he h (by omega)).counting hc hd hk)
  | @oddPost r _ _ he h =>
      -- where the even thread is decides what the post does
      simp only [Status.loc_running, oddFn] at hexec
      cases he with
      | top =>
          rw [semaCall_post hd] at hexec
          cases hexec
          exact .same ((Phase.sent .wait .top h).counting hc rfl hk)
      | asleep h' =>
          rw [semaCall_post_asleep hd] at hexec
          cases hexec
          exact .woken rfl ((Phase.sent .wait (.woken h') h).counting hc rfl hk)
      | returned h' =>
          rw [semaCall_post hd] at hexec
          cases hexec
          exact .same ((Phase.sent .wait (.returned h') h).counting hc rfl hk)
  | @sent r _ _ _ _ ho he h =>
      -- while the even thread has the turn, the odd one only goes to wait
      obtain ⟨ho', hnotes, hd', hk'⟩ := ho.step hc hawake hexec
      subst hnotes
      exact .same ((Phase.sent ho' he h).counting rfl (hd'.trans hd) (hk'.trans hk))
  | @evenPrint r _ _ ho h =>
      obtain ⟨ho', hnotes, hd', hk'⟩ := ho.step hc hawake hexec
      subst hnotes
      exact .same ((Phase.evenPrint ho' h).counting rfl (hd'.trans hd) (hk'.trans hk))
  | @evenPost r _ _ ho h =>
      obtain ⟨ho', hnotes, hd', hk'⟩ := ho.step hc hawake hexec
      subst hnotes
      exact .same ((Phase.evenPost ho' h).counting rfl (hd'.trans hd) (hk'.trans hk))
  | @answered r _ _ _ _ ho he h =>
      -- the even thread has answered, and the next round begins
      cases ho with
      | wait =>
          simp only [Status.loc_running, oddFn] at hexec
          rw [semaCall_wait_posted hc] at hexec
          cases hexec
          exact .same ((Phase.oddTop (r := r + 1) he h).counting rfl hd hk)
      | woken =>
          simp only [Status.loc_notified, oddFn] at hexec
          rw [semaCall_waitEnd] at hexec
          cases hexec
          exact .same ((Phase.oddTop (r := r + 1) he h).counting hc hd hk)
  | oddReturned => cases hexec

/-- A piece of the even thread's code takes the turn on. -/
theorem Phase.even_step (hp : Phase n c o d e k) (hc : (m.sema .s01).permitCounter = c)
    (hd : (m.sema .s02).permitCounter = d) (hk : m.printed = List.range' 1 k)
    (hawake : e.isWaiting = false)
    (hexec : evenFn n e.loc m = .done m' notes st) :
    OtherAfter .s01 o (fun o' => Counting n m' o' st) notes := by
  cases hp with
  | @oddTop r _ _ he h =>
      obtain ⟨he', hnotes, hc', hk'⟩ := he.step hd hawake hexec
      subst hnotes
      exact .same ((Phase.oddTop he' h).counting (hc'.trans hc) rfl (hk'.trans hk))
  | @oddPost r _ _ he h =>
      obtain ⟨he', hnotes, hc', hk'⟩ := he.step hd hawake hexec
      subst hnotes
      exact .same ((Phase.oddPost he' h).counting (hc'.trans hc) rfl (hk'.trans hk))
  | @answered r _ _ _ _ ho he h =>
      obtain ⟨he', hnotes, hc', hk'⟩ := he.step hd hawake hexec
      subst hnotes
      exact .same ((Phase.answered ho he' h).counting (hc'.trans hc) rfl (hk'.trans hk))
  | @oddReturned r _ _ he h hn =>
      obtain ⟨he', hnotes, hc', hk'⟩ := he.step hd hawake hexec
      subst hnotes
      exact .same ((Phase.oddReturned he' h hn).counting (hc'.trans hc) rfl (hk'.trans hk))
  | @sent r _ _ _ _ ho he h =>
      cases he with
      | top =>
          simp only [Status.loc_running, evenFn] at hexec
          split at hexec
          · next hle =>
            rw [semaCall_wait_posted hd] at hexec
            cases hexec
            exact .same ((Phase.evenPrint ho hle).counting hc rfl hk)
          · next hlt =>
            cases hexec
            exact .same ((Phase.sent ho (.returned (by omega)) h).counting hc hd hk)
      | woken h' =>
          simp only [Status.loc_notified, evenFn] at hexec
          rw [semaCall_waitEnd] at hexec
          cases hexec
          exact .same ((Phase.evenPrint ho h').counting hc hd hk)
      | returned => cases hexec
  | @evenPrint r _ _ ho h =>
      cases hexec
      exact .same ((Phase.evenPost ho h).counting hc hd (printed_next hk))
  | @evenPost r _ _ ho h =>
      simp only [Status.loc_running, evenFn] at hexec
      cases ho with
      | wait =>
          rw [semaCall_post hc] at hexec
          cases hexec
          exact .same ((Phase.answered .wait .top h).counting rfl hd hk)
      | asleep =>
          rw [semaCall_post_asleep hc] at hexec
          cases hexec
          exact .woken rfl ((Phase.answered .woken .top h).counting rfl hd hk)

/-- No call returns from the thread. -/
theorem semaCall_not_returned {which : SemaName} {f : Sema → SemaEffect} {ret asleep : CounterLoc}
    (h : semaCall m which f ret asleep = .done m' notes st) (hret : ret ≠ .returned)
    (hasleep : asleep ≠ .returned) : st ≠ .running .returned := by
  intro hst
  have hloc := (semaCall_frame h).2.2.2
  rw [hst] at hloc
  exact hloc.elim hret.symm hasleep.symm

/-- The odd thread leaves the flag of the other one alone, and its own one says whether it returned. -/
theorem oddFn_frame {l : CounterLoc} (hexec : oddFn n l m = .done m' notes st) :
    m'.evenReturned = m.evenReturned ∧
      (m'.oddReturned = true ↔ m.oddReturned = true ∨ st = .running .returned) := by
  cases l with
  | top i =>
      simp only [oddFn] at hexec
      split at hexec
      · cases hexec
        simp
      · cases hexec
        simp
  | post i | wait i | resume i =>
      simp only [oddFn] at hexec
      have hframe := semaCall_frame hexec
      have hst := semaCall_not_returned hexec (by simp) (by simp)
      simp [hframe, hst]
  | _ => cases hexec

theorem evenFn_frame {l : CounterLoc} (hexec : evenFn n l m = .done m' notes st) :
    m'.oddReturned = m.oddReturned ∧
      (m'.evenReturned = true ↔ m.evenReturned = true ∨ st = .running .returned) := by
  cases l with
  | top i =>
      simp only [evenFn] at hexec
      split at hexec
      · have hframe := semaCall_frame hexec
        have hst := semaCall_not_returned hexec (by simp) (by simp)
        simp [hframe, hst]
      · cases hexec
        simp
  | print i =>
      cases hexec
      simp
  | post i | resume i =>
      simp only [evenFn] at hexec
      have hframe := semaCall_frame hexec
      have hst := semaCall_not_returned hexec (by simp) (by simp)
      simp [hframe, hst]
  | _ => cases hexec

end Steps

/-- How many steps the loop of the odd thread has left at most. -/
def CounterLoc.oddSteps (n : Nat) : CounterLoc → Nat
  | .top i => 2 * (n + 3 - i)
  | .post i => 2 * (n + 3 - i) - 1
  | .wait i => 2 * (n + 3 - i) - 2
  | .resume i => 2 * (n + 3 - i) - 3
  | _ => 0

/-- How many steps the loop of the even thread has left at most. -/
def CounterLoc.evenSteps (n : Nat) : CounterLoc → Nat
  | .top i => 2 * (n + 4 - i)
  | .resume i => 2 * (n + 4 - i) - 1
  | .print i => 2 * (n + 4 - i) - 2
  | .post i => 2 * (n + 4 - i) - 3
  | _ => 0

/-- How many steps `main` has left. -/
def CounterLoc.mainSteps : CounterLoc → Nat
  | .joinOdd => 2
  | .joinEven => 1
  | _ => 0

/-- How many steps the program has left at most. -/
def stepsLeft (n : Nat) (s : CounterConfig) : Nat :=
  (s.thr .odd).loc.oddSteps n + (s.thr .even).loc.evenSteps n + (s.thr .main).loc.mainSteps

/-- The number a thread is at. -/
def CounterLoc.inRange (n : Nat) : CounterLoc → Prop
  | .top i => i ≤ n + 2
  | .post i | .wait i | .resume i | .print i => i ≤ n
  | _ => True

section Rank

variable {n k r : Nat} {m m' : CounterMem} {c d : Int32} {o e st : Status SemaName CounterLoc}
  {notes : List (Note SemaName)} {l : CounterLoc}

theorem EvenWaits.inRange (h : EvenWaits n r d e) (hr : 2 * r ≤ n) : e.loc.inRange n := by
  cases h with
  | top => exact Nat.add_le_add_right hr 2
  | asleep h => exact h
  | returned => trivial

theorem OddWaits.inRange (h : OddWaits r c o) (hr : 2 * r + 1 ≤ n) : o.loc.inRange n := by
  cases h <;> exact hr

/-- The numbers the threads are at do not go far beyond the bound. -/
theorem Phase.inRange (h : Phase n c o d e k) : o.loc.inRange n ∧ e.loc.inRange n := by
  cases h with
  | oddTop he h => exact ⟨by show _ ≤ _; omega, he.inRange h⟩
  | oddPost he h => exact ⟨h, he.inRange (by omega)⟩
  | sent ho he h =>
      refine ⟨ho.inRange h, ?_⟩
      cases he with
      | top => show _ ≤ _; omega
      | woken h' => exact h'
      | returned => trivial
  | evenPrint ho h => exact ⟨ho.inRange (by omega), h⟩
  | evenPost ho h => exact ⟨ho.inRange (by omega), h⟩
  | answered ho he h =>
      refine ⟨?_, he.inRange (by omega)⟩
      cases ho <;> (show _ ≤ _; omega)
  | oddReturned he h _ => exact ⟨trivial, he.inRange h⟩

theorem Phase.le (h : Phase n c o d e k) : k ≤ n := by
  cases h <;> omega

/-- A piece of the odd thread's code brings it nearer to its end. -/
theorem oddFn_steps (hl : l.inRange n) (hexec : oddFn n l m = .done m' notes st) :
    st.loc.oddSteps n < l.oddSteps n := by
  cases l with
  | top i =>
      have hi : i ≤ n + 2 := hl
      simp only [oddFn] at hexec
      split at hexec
      · cases hexec
        show 2 * (n + 3 - i) - 1 < 2 * (n + 3 - i)
        omega
      · cases hexec
        show 0 < 2 * (n + 3 - i)
        omega
  | post i | wait i =>
      have hi : i ≤ n := hl
      simp only [oddFn] at hexec
      rcases (semaCall_frame hexec).2.2.2 with hloc | hloc
      all_goals
        rw [hloc]
        simp only [CounterLoc.oddSteps]
        omega
  | resume i =>
      have hi : i ≤ n := hl
      cases hexec
      show 2 * (n + 3 - (i + 2)) < 2 * (n + 3 - i) - 3
      omega
  | _ => cases hexec

/-- A piece of the even thread's code brings it nearer to its end. -/
theorem evenFn_steps (hl : l.inRange n) (hexec : evenFn n l m = .done m' notes st) :
    st.loc.evenSteps n < l.evenSteps n := by
  cases l with
  | top i =>
      have hi : i ≤ n + 2 := hl
      simp only [evenFn] at hexec
      split at hexec
      · rcases (semaCall_frame hexec).2.2.2 with hloc | hloc
        all_goals
          rw [hloc]
          simp only [CounterLoc.evenSteps]
          omega
      · cases hexec
        show 0 < 2 * (n + 4 - i)
        omega
  | resume i =>
      have hi : i ≤ n := hl
      cases hexec
      show 2 * (n + 4 - i) - 2 < 2 * (n + 4 - i) - 1
      omega
  | print i =>
      have hi : i ≤ n := hl
      cases hexec
      show 2 * (n + 4 - i) - 3 < 2 * (n + 4 - i) - 2
      omega
  | post i =>
      have hi : i ≤ n := hl
      have hloc : st.loc = .top (i + 2) := by
        simp only [evenFn, semaCall, semaPost] at hexec
        cases hexec
        rfl
      rw [hloc]
      simp only [CounterLoc.evenSteps]
      omega
  | _ => cases hexec

theorem counterMain_steps (hexec : counterMain l m = .done m' notes st) :
    m' = m ∧ notes = [] ∧ st.loc.mainSteps < l.mainSteps := by
  cases l with
  | joinOdd =>
      simp only [counterMain] at hexec
      split at hexec
      · cases hexec
        exact ⟨rfl, rfl, by decide⟩
      · cases hexec
  | joinEven =>
      simp only [counterMain] at hexec
      split at hexec
      · cases hexec
        exact ⟨rfl, rfl, by decide⟩
      · cases hexec
  | _ => cases hexec

end Rank

section Runs

variable {n : Nat} {s s' : CounterConfig} {notes : List (Note SemaName)}
  {st : Status SemaName CounterLoc} {x : Unit}

/-- `main` does not wait for a semaphore. -/
theorem MainAt.not_waiting {m : CounterMem} (h : MainAt m st) (c : SemaName) (l : CounterLoc) :
    st ≠ .waiting c l := by
  cases h <;> simp

theorem MainAt.awake {m : CounterMem} (h : MainAt m st) : st.isWaiting = false := by
  cases h <;> rfl

/-- A step of another thread leaves `main` where it is. -/
theorem CounterInv.main_kept (h : CounterInv n s) {t : CounterThread} (ht : .main ≠ t)
    (hran : (counterProgram n).Ran s t x s' notes st) : s'.thr .main = s.thr .main := by
  rcases hran.other ht with hsame | ⟨c, l, hw, -, -⟩
  · exact hsame
  · exact absurd hw (h.main.not_waiting c l)

theorem MainAt.mono {m m' : CounterMem} (h : MainAt m st)
    (hodd : m.oddReturned = true → m'.oddReturned = true)
    (heven : m.evenReturned = true → m'.evenReturned = true) : MainAt m' st := by
  cases h with
  | joinOdd => exact .joinOdd
  | joinEven h => exact .joinEven (hodd h)
  | finished h h' => exact .finished (hodd h) (heven h')

/-- What a step leaves a thread in that can only be woken by it. -/
theorem OtherAfter.at {which : SemaName} {t u : CounterThread} {P : Status SemaName CounterLoc → Prop}
    (h : OtherAfter which (s.thr u) P notes) (hu : u ≠ t) (hthird : ∀ v l, v ≠ u → v ≠ t →
      s.thr v ≠ .waiting which l) (hran : (counterProgram n).Ran s t x s' notes st) :
    P (s'.thr u) ∧ (s'.thr u = .running .returned ↔ s.thr u = .running .returned) := by
  cases h with
  | same h =>
      rw [hran.other_of_nil hu]
      exact ⟨h, Iff.rfl⟩
  | @woken l hw h =>
      obtain ⟨v, l', hvt, hv, hv'⟩ := hran.signal (List.mem_singleton.mpr rfl) ⟨u, l, hw⟩
      have hvu : v = u := by
        by_contra hne
        exact hthird v l' hne hvt hv
      subst hvu
      rw [hw] at hv
      cases hv
      rw [hv', hw]
      exact ⟨h, by simp⟩

theorem CounterInv.step_odd (h : CounterInv n s)
    (hran : (counterProgram n).Ran s .odd x s' notes st) : CounterInv n s' := by
  obtain ⟨k, hphase, hk⟩ := h.counting
  have hexec : oddFn n (s.thr .odd).loc s.mem = .done s'.mem notes st := hran.exec
  have hother := hphase.odd_step rfl rfl hk hran.awake hexec
  have hmain := h.main_kept (by simp) hran
  have hthird : ∀ v l, v ≠ CounterThread.even → v ≠ .odd → s.thr v ≠ .waiting .s02 l := by
    intro v l hv hv'
    cases v with
    | main => exact h.main.not_waiting _ _
    | odd => exact absurd rfl hv'
    | even => exact absurd rfl hv
  obtain ⟨hcounting, hreturned⟩ := hother.at (by simp) hthird hran
  obtain ⟨hframe, hflag⟩ := oddFn_frame hexec
  have hself := hran.self
  have hbefore : s.mem.oddReturned ≠ true := by
    intro hflagged
    rw [h.odd.mp hflagged] at hexec
    cases hexec
  constructor
  · rw [hself]
    exact hcounting
  · rw [hself, hflag]
    simp [hbefore]
  · rw [hframe, hreturned]
    exact h.even
  · rw [hmain]
    exact h.main.mono (fun hf => hflag.mpr (.inl hf)) (fun hf => hframe.trans hf)

theorem CounterInv.step_even (h : CounterInv n s)
    (hran : (counterProgram n).Ran s .even x s' notes st) : CounterInv n s' := by
  obtain ⟨k, hphase, hk⟩ := h.counting
  have hexec : evenFn n (s.thr .even).loc s.mem = .done s'.mem notes st := hran.exec
  have hother := hphase.even_step rfl rfl hk hran.awake hexec
  have hmain := h.main_kept (by simp) hran
  have hthird : ∀ v l, v ≠ CounterThread.odd → v ≠ .even → s.thr v ≠ .waiting .s01 l := by
    intro v l hv hv'
    cases v with
    | main => exact h.main.not_waiting _ _
    | odd => exact absurd rfl hv
    | even => exact absurd rfl hv'
  obtain ⟨hcounting, hreturned⟩ := hother.at (by simp) hthird hran
  obtain ⟨hframe, hflag⟩ := evenFn_frame hexec
  have hself := hran.self
  have hbefore : s.mem.evenReturned ≠ true := by
    intro hflagged
    rw [h.even.mp hflagged] at hexec
    cases hexec
  constructor
  · rw [hself]
    exact hcounting
  · rw [hframe, hreturned]
    exact h.odd
  · rw [hself, hflag]
    simp [hbefore]
  · rw [hmain]
    exact h.main.mono (fun hf => hframe.trans hf) (fun hf => hflag.mpr (.inl hf))

/-- `main` goes on once the thread it joins has returned. -/
theorem MainAt.step {m m' : CounterMem} {st' : Status SemaName CounterLoc} (h : MainAt m st')
    (hexec : counterMain st'.loc m = .done m' notes st) : MainAt m st := by
  cases h with
  | joinOdd =>
      simp only [Status.loc_running, counterMain] at hexec
      split at hexec
      · next hodd =>
        cases hexec
        exact .joinEven hodd
      · cases hexec
  | joinEven hodd =>
      simp only [Status.loc_running, counterMain] at hexec
      split at hexec
      · next heven =>
        cases hexec
        exact .finished hodd heven
      · cases hexec
  | finished => cases hexec

theorem CounterInv.step_main (h : CounterInv n s)
    (hran : (counterProgram n).Ran s .main x s' notes st) : CounterInv n s' := by
  have hexec : counterMain (s.thr .main).loc s.mem = .done s'.mem notes st := hran.exec
  obtain ⟨hmem, rfl, -⟩ := counterMain_steps hexec
  have hodd : s'.thr .odd = s.thr .odd := hran.other_of_nil (by simp)
  have heven : s'.thr .even = s.thr .even := hran.other_of_nil (by simp)
  constructor
  · rw [hmem, hodd, heven]
    exact h.counting
  · rw [hmem, hodd]
    exact h.odd
  · rw [hmem, heven]
    exact h.even
  · rw [hmem, hran.self]
    exact h.main.step hexec

theorem CounterInv.step (h : CounterInv n s) {t : CounterThread}
    (hran : (counterProgram n).Ran s t x s' notes st) : CounterInv n s' := by
  cases t with
  | main => exact h.step_main hran
  | odd => exact h.step_odd hran
  | even => exact h.step_even hran

/-- Every step brings the program nearer to its end. -/
theorem CounterInv.stepsLeft_lt (h : CounterInv n s) {t : CounterThread}
    (hran : (counterProgram n).Ran s t x s' notes st) : stepsLeft n s' < stepsLeft n s := by
  obtain ⟨k, hphase, -⟩ := h.counting
  obtain ⟨hodd, heven⟩ := hphase.inRange
  have hself := congrArg Status.loc hran.self
  unfold stepsLeft
  cases t with
  | main =>
      have hlt := (counterMain_steps hran.exec).2.2
      rw [hran.loc_of_ne (by simp : CounterThread.odd ≠ .main),
        hran.loc_of_ne (by simp : CounterThread.even ≠ .main), hself]
      omega
  | odd =>
      have hlt := oddFn_steps hodd hran.exec
      rw [hran.loc_of_ne (by simp : CounterThread.main ≠ .odd),
        hran.loc_of_ne (by simp : CounterThread.even ≠ .odd), hself]
      omega
  | even =>
      have hlt := evenFn_steps heven hran.exec
      rw [hran.loc_of_ne (by simp : CounterThread.main ≠ .even),
        hran.loc_of_ne (by simp : CounterThread.odd ≠ .even), hself]
      omega

end Runs

/-- All numbers were printed.  If the bound is even, everything ended and the semaphores were
destroyed; if it is odd, the odd thread is asleep on `sema0_1` and `main` still joins it. -/
structure Counted (n : Nat) (s : CounterConfig) : Prop where
  printed : s.mem.printed = List.range' 1 n
  even : s.thr .even = .running .returned
  ended : n % 2 = 0 → s.thr .odd = .running .returned ∧ s.thr .main = .running .finished
  asleep : n % 2 = 1 → s.thr .odd = .waiting .s01 (.resume n) ∧ s.thr .main = .running .joinOdd

section Results

variable {n : Nat} {s s' : CounterConfig}

/-- The steps of the program, as they are run. -/
theorem CounterInv.exists_ran {a : Act CounterThread Unit}
    (hstep : (counterMachine n).step s a = .next s') :
    ∃ t x notes st, (counterProgram n).Ran s t x s' notes st := by
  cases a with
  | run t x picks =>
      obtain ⟨notes, st, hran⟩ := Program.ran_of_step hstep
      exact ⟨t, x, notes, st, hran⟩
  | spurious t => exact absurd (Program.spurious_of_step hstep).1 (by simp [counterProgram])

theorem reachable_counterInv (hs : (counterMachine n).Reachable s) : CounterInv n s := by
  refine hs.invariant ?_ ?_
  · rintro _ rfl
    exact CounterInv.new n
  · intro s a s' h _ hstep
    obtain ⟨t, x, notes, st, hran⟩ := CounterInv.exists_ran hstep
    exact h.step hran

/-- Where no step is left, no thread has code it could carry out. -/
theorem stuck_exec (hstuck : (counterMachine n).Stuck (fun _ _ => True) s) {t : CounterThread}
    (hawake : (s.thr t).isWaiting = false) {m : CounterMem} {notes : List (Note SemaName)}
    {st : Status SemaName CounterLoc} : counterExec n t (s.thr t).loc s.mem ≠ .done m notes st :=
  Program.not_done_of_stuck (P := counterProgram n) hstuck (x := ()) hawake fun _ => trivial

/-- A call on a semaphore is never refused. -/
theorem exists_semaCall {m : CounterMem} {which : SemaName} {ret asleep : CounterLoc}
    {f : Sema → SemaEffect}
    (hf : f = semaWait ∨ f = semaPost ∨ f = semaWaitEnd) :
    ∃ m' notes st, semaCall m which f ret asleep = .done m' notes st := by
  rcases hf with rfl | rfl | rfl
  · by_cases hneg : (m.sema which).permitCounter - 1 < 0
    · simp only [semaCall, semaWait, if_pos hneg]
      exact ⟨_, _, _, rfl⟩
    · simp only [semaCall, semaWait, if_neg hneg]
      exact ⟨_, _, _, rfl⟩
  · exact ⟨_, _, _, rfl⟩
  · exact ⟨_, _, _, rfl⟩

/-- In its loop the odd thread always has code it can carry out, unless it is asleep. -/
theorem oddFn_done {m : CounterMem} {l : CounterLoc} (hl : 0 < l.oddSteps n) :
    ∃ m' notes st, oddFn n l m = .done m' notes st := by
  cases l with
  | top i =>
      simp only [oddFn]
      split <;> exact ⟨_, _, _, rfl⟩
  | post i => exact exists_semaCall (.inr (.inl rfl))
  | wait i => exact exists_semaCall (.inl rfl)
  | resume i => exact exists_semaCall (.inr (.inr rfl))
  | _ => simp [CounterLoc.oddSteps] at hl

theorem evenFn_done {m : CounterMem} {l : CounterLoc} (hl : 0 < l.evenSteps n) :
    ∃ m' notes st, evenFn n l m = .done m' notes st := by
  cases l with
  | top i =>
      simp only [evenFn]
      split
      · exact exists_semaCall (.inl rfl)
      · exact ⟨_, _, _, rfl⟩
  | print i => exact ⟨_, _, _, rfl⟩
  | post i => exact exists_semaCall (.inr (.inl rfl))
  | resume i => exact exists_semaCall (.inr (.inr rfl))
  | _ => simp [CounterLoc.evenSteps] at hl

/-- Where no step is left, the odd thread is asleep or has returned. -/
theorem stuck_odd (hstuck : (counterMachine n).Stuck (fun _ _ => True) s)
    (hawake : (s.thr .odd).isWaiting = false) : (s.thr .odd).loc.oddSteps n = 0 := by
  by_contra hpos
  obtain ⟨m, notes, st, hexec⟩ := oddFn_done (m := s.mem) (Nat.pos_of_ne_zero hpos)
  exact stuck_exec hstuck hawake hexec

theorem stuck_even (hstuck : (counterMachine n).Stuck (fun _ _ => True) s)
    (hawake : (s.thr .even).isWaiting = false) : (s.thr .even).loc.evenSteps n = 0 := by
  by_contra hpos
  obtain ⟨m, notes, st, hexec⟩ := evenFn_done (m := s.mem) (Nat.pos_of_ne_zero hpos)
  exact stuck_exec hstuck hawake hexec

/-- Where no step is left, the even thread is asleep, with a number left to print, or has returned. -/
theorem EvenWaits.of_stuck {r : Nat} {d : Int32} {e : Status SemaName CounterLoc} (h : EvenWaits n r d e)
    (hsteps : e.isWaiting = false → e.loc.evenSteps n = 0) (hr : 2 * r ≤ n) :
    2 * r + 2 ≤ n ∨ e = .running .returned := by
  cases h with
  | top =>
      have hzero : 2 * (n + 4 - (2 * r + 2)) = 0 := hsteps rfl
      omega
  | asleep h => exact .inl h
  | returned => exact .inr rfl

/-- **Where it ends**: the even thread has returned, and the odd one has returned or is asleep
behind the last number. -/
theorem Phase.of_stuck {k : Nat} {c d : Int32} {o e : Status SemaName CounterLoc} (h : Phase n c o d e k)
    (hodd : o.isWaiting = false → o.loc.oddSteps n = 0)
    (heven : e.isWaiting = false → e.loc.evenSteps n = 0) :
    k = n ∧ e = .running .returned ∧ (n % 2 = 0 → o = .running .returned) ∧
      (n % 2 = 1 → o = .waiting .s01 (.resume n)) := by
  have hrange := h.inRange
  cases h with
  | @oddTop r _ _ he h =>
      have hzero : 2 * (n + 3 - (2 * r + 1)) = 0 := hodd rfl
      omega
  | @oddPost r _ _ he h =>
      have hzero : 2 * (n + 3 - (2 * r + 1)) - 1 = 0 := hodd rfl
      omega
  | @sent r _ _ _ _ ho he h =>
      cases ho with
      | wait =>
          have hzero : 2 * (n + 3 - (2 * r + 1)) - 2 = 0 := hodd rfl
          omega
      | asleep =>
          cases he with
          | top =>
              have hzero : 2 * (n + 4 - (2 * r + 2)) = 0 := heven rfl
              omega
          | woken h' =>
              have hzero : 2 * (n + 4 - (2 * r + 2)) - 1 = 0 := heven rfl
              omega
          | returned h' =>
              have hn : n = 2 * r + 1 := by omega
              subst hn
              exact ⟨rfl, rfl, by omega, fun _ => rfl⟩
  | @evenPrint r _ _ ho h =>
      have hzero : 2 * (n + 4 - (2 * r + 2)) - 2 = 0 := heven rfl
      omega
  | @evenPost r _ _ ho h =>
      have hzero : 2 * (n + 4 - (2 * r + 2)) - 3 = 0 := heven rfl
      omega
  | @answered r _ _ _ _ ho he h =>
      cases ho with
      | wait =>
          have hzero : 2 * (n + 3 - (2 * r + 1)) - 2 = 0 := hodd rfl
          omega
      | woken =>
          have hzero : 2 * (n + 3 - (2 * r + 1)) - 3 = 0 := hodd rfl
          omega
  | @oddReturned r _ _ he h hn =>
      rcases he.of_stuck heven h with hle | hreturned
      · omega
      · have hn : n = 2 * r := by omega
        exact ⟨hn.symm, hreturned, fun _ => rfl, by omega⟩

/-- Where no step is left, `main` still joins a thread that has not returned. -/
theorem MainAt.of_stuck {m : CounterMem} {st : Status SemaName CounterLoc} (h : MainAt m st)
    (hstuck : ∀ {m' notes st'}, counterMain st.loc m ≠ .done m' notes st') :
    st = .running .joinOdd ∧ m.oddReturned = false ∨ st = .running .joinEven ∧ m.evenReturned = false ∨
      st = .running .finished ∧ m.oddReturned = true := by
  cases h with
  | joinOdd =>
      refine .inl ⟨rfl, ?_⟩
      rw [← Bool.not_eq_true]
      intro hodd
      exact hstuck (by simp only [Status.loc_running, counterMain, if_pos hodd]; rfl)
  | joinEven =>
      refine .inr (.inl ⟨rfl, ?_⟩)
      rw [← Bool.not_eq_true]
      intro heven
      exact hstuck (by simp only [Status.loc_running, counterMain, if_pos heven]; rfl)
  | finished hodd => exact .inr (.inr ⟨rfl, hodd⟩)

/-- Where no step is left, all numbers were printed. -/
theorem CounterInv.counted (h : CounterInv n s)
    (hstuck : (counterMachine n).Stuck (fun _ _ => True) s) : Counted n s := by
  obtain ⟨k, hphase, hk⟩ := h.counting
  obtain ⟨rfl, heven, hended, hasleep⟩ := hphase.of_stuck (stuck_odd hstuck) (stuck_even hstuck)
  have hflag := h.even.mpr heven
  have hmain := h.main.of_stuck (stuck_exec (t := .main) hstuck h.main.awake)
  rw [← Bool.not_eq_true, ← Bool.not_eq_true, h.odd] at hmain
  refine ⟨hk, heven, fun hmod => ⟨hended hmod, ?_⟩, fun hmod => ⟨hasleep hmod, ?_⟩⟩
  · rcases hmain with ⟨-, hodd⟩ | ⟨-, hno⟩ | ⟨hfinished, -⟩
    · exact absurd (hended hmod) hodd
    · exact absurd hflag hno
    · exact hfinished
  · rcases hmain with ⟨hjoin, -⟩ | ⟨-, hno⟩ | ⟨-, hodd⟩
    · exact hjoin
    · exact absurd hflag hno
    · rw [hasleep hmod] at hodd
      cases hodd

/-- **Counting in strict alternation**, to a bound that the loops can pass without an overflow: in
every run the numbers printed are an initial piece of `1, 2, 3, …`, no run goes on for ever, and
those that have ended printed all numbers up to the bound.  With an odd bound, such as the 15 of the
program, the odd thread then waits for an answer that never comes. -/
theorem strictCounter_counts (n : Nat) (hn : n + 2 < 2 ^ 31) :
    (∀ s, (counterMachine n).Reachable s →
        s.mem.printed <+: List.range' 1 n ∧ ∀ t, (s.thr t).loc.index < 2 ^ 31) ∧
      (counterMachine n).Ends (fun _ _ => True) newCounter (4 * n + 10) (Counted n) := by
  constructor
  · intro s hs
    have hinv := reachable_counterInv hs
    obtain ⟨k, hphase, hk⟩ := hinv.counting
    obtain ⟨hodd, heven⟩ := hphase.index_le
    refine ⟨⟨List.range' (1 + k) (n - k), ?_⟩, fun t => ?_⟩
    · rw [hk, List.range'_append_1, Nat.add_sub_cancel' hphase.le]
    · cases t with
      | main =>
          have hmain := hinv.main
          generalize s.thr .main = st at hmain
          cases hmain <;> exact Nat.two_pow_pos 31
      | odd => exact Nat.lt_of_le_of_lt hodd hn
      | even => exact Nat.lt_of_le_of_lt heven hn
  · have hsteps : stepsLeft n newCounter = 4 * n + 10 := by
      show 2 * (n + 3 - 1) + 2 * (n + 4 - 2) + 2 = 4 * n + 10
      omega
    rw [← hsteps]
    refine Machine.Ends.of_rank (R := fun s k => CounterInv n s ∧ stepsLeft n s = k) ?_ ?_
      ⟨CounterInv.new n, rfl⟩
    · rintro s a s' k ⟨h, rfl⟩ - hstep
      obtain ⟨t, x, notes, st, hran⟩ := CounterInv.exists_ran hstep
      exact ⟨_, h.stepsLeft_lt hran, h.step hran, rfl⟩
    · rintro s k ⟨h, -⟩ hstuck
      exact h.counted hstuck

/-- The program counts to 15. -/
theorem strictCounter_counts_fifteen :
    (∀ s, (counterMachine 15).Reachable s →
        s.mem.printed <+: List.range' 1 15 ∧ ∀ t, (s.thr t).loc.index < 2 ^ 31) ∧
      (counterMachine 15).Ends (fun _ _ => True) newCounter 70 (Counted 15) :=
  strictCounter_counts 15 (by decide)

end Results

end Semaphores
end MultithreadingBible
