import MultithreadingBible.Lib.Runs

/-!
# An event pair (`threadlib.c`)

A client and a server share a piece of memory and an event pair, three semaphores without permits.
The client writes a request into the memory, hands off to the server and waits; the server waits,
answers in the memory, and hands off to the client.  A third semaphore tells `main` that the server
has started, before `main` initialises the semaphore of the client and starts it.

* `EventPair` — the semaphores, and the calls on them.
* `Service` — what the two do with the memory, and the requests and responses of a client that calls the
  server like a function.
* `epMachine` — all interleavings of `main`, the server and the client.
* `eventPair_serves` — every run is such a sequence of calls: requests and responses alternate, none
  is lost, repeated or read too early, and the scheduler has no choice.
-/

namespace MultithreadingBible
namespace ThreadLib

open Lib

/-- `event_pair_t`, with the values of the semaphores that are initialised. -/
structure EventPair where
  clientSem0 : Option Nat
  serverSem0 : Option Nat
  initialSyncSem0 : Option Nat

/-- `sem_wait`, which must not be called before `sem_init`. -/
def semWait : Option Nat → Outcome (Option Nat)
  | none => .abort
  | some 0 => .blocked
  | some (value + 1) => .next (some value)

/-- `sem_post`, which must not be called before `sem_init`. -/
def semPost : Option Nat → Outcome (Option Nat)
  | none => .abort
  | some value => .next (some (value + 1))

section Calls

variable (ep : EventPair)

def eventPairServerInit : EventPair := { ep with serverSem0 := some 0, initialSyncSem0 := some 0 }

def eventPairClientInit : EventPair := { ep with clientSem0 := some 0 }

def eventPairServerWait : Outcome EventPair :=
  (semWait ep.serverSem0).map fun value => { ep with serverSem0 := value }

def eventPairClientWait : Outcome EventPair :=
  (semWait ep.clientSem0).map fun value => { ep with clientSem0 := value }

def eventPairServerHandoff : Outcome EventPair :=
  (semPost ep.clientSem0).map fun value => { ep with clientSem0 := value }

def eventPairClientHandoff : Outcome EventPair :=
  (semPost ep.serverSem0).map fun value => { ep with serverSem0 := value }

def eventPairInitialSyncWait : Outcome EventPair :=
  (semWait ep.initialSyncSem0).map fun value => { ep with initialSyncSem0 := value }

def eventPairInitialSyncSignal : Outcome EventPair :=
  (semPost ep.initialSyncSem0).map fun value => { ep with initialSyncSem0 := value }

end Calls

/-- What the client does to the shared memory for its next request, what the server makes of a
request, and the responses after which the client exits. -/
structure Service (S : Type*) where
  prepare : S → S
  respond : S → S
  stop : S → Bool

namespace Service

variable {S : Type*} (v : Service S) (x : S)

/-- The memory after some number of calls, if the server were a function. -/
def memory : Nat → S
  | 0 => x
  | k + 1 => v.respond (v.prepare (memory k))

/-- The first requests. -/
def requests (k : Nat) : List S := (List.range k).map fun i => v.prepare (v.memory x i)

/-- The first responses. -/
def responses (k : Nat) : List S := (List.range k).map fun i => v.memory x (i + 1)

theorem requests_succ (k : Nat) : v.requests x (k + 1) = v.requests x k ++
    [v.prepare (v.memory x k)] := by
  simp [requests, List.range_succ]

theorem responses_succ (k : Nat) : v.responses x (k + 1) = v.responses x k ++ [v.memory x (k + 1)] := by
  simp [responses, List.range_succ]

/-- The client goes on after its first responses. -/
def GoesOn (k : Nat) : Prop := ∀ i < k, v.stop (v.memory x (i + 1)) = false

end Service

/-- The threads of the program. -/
inductive EpThread where
  | main
  | server
  | client

/-- Where `main` is. -/
inductive EpMainLoc where
  | serverInit
  | runServer
  | syncWait
  | clientInit
  | runClient
  | returned

/-- Where the server is.  It reads the request before it writes the response. -/
inductive EpServerLoc (S : Type*) where
  | unborn
  | sync
  | wait
  | recvd
  | respond (request : S)
  | handoff

/-- Where the client is. -/
inductive EpClientLoc where
  | unborn
  | prepare
  | handoff
  | wait
  | recvd

/-- The program, with the requests the server received and the responses the client received. -/
structure EpState (S : Type*) where
  ep : EventPair
  shared : S
  requests : List S
  responses : List S
  main : EpMainLoc
  server : EpServerLoc S
  client : EpClientLoc
  exited : Bool

section Program

variable {S : Type*} (v : Service S) (s : EpState S)

/-- `main`, piece by piece. -/
def epMain : Outcome (EpState S) :=
  match s.main with
  | .serverInit => .next { s with ep := eventPairServerInit s.ep, main := .runServer }
  | .runServer => .next { s with server := .sync, main := .syncWait }
  | .syncWait => (eventPairInitialSyncWait s.ep).map fun ep => { s with ep := ep, main := .clientInit }
  | .clientInit => .next { s with ep := eventPairClientInit s.ep, main := .runClient }
  | .runClient => .next { s with client := .prepare, main := .returned }
  | .returned => .blocked

/-- `server_fn`, piece by piece. -/
def serverFn : Outcome (EpState S) :=
  match s.server with
  | .unborn => .blocked
  | .sync => (eventPairInitialSyncSignal s.ep).map fun ep => { s with ep := ep, server := .wait }
  | .wait => (eventPairServerWait s.ep).map fun ep => { s with ep := ep, server := .recvd }
  | .recvd => .next { s with requests := s.requests ++ [s.shared], server := .respond s.shared }
  | .respond request => .next { s with shared := v.respond request, server := .handoff }
  | .handoff => (eventPairServerHandoff s.ep).map fun ep => { s with ep := ep, server := .wait }

/-- `client_fn`, piece by piece.  Its `exit` ends the process. -/
def clientFn : Outcome (EpState S) :=
  match s.client with
  | .unborn => .blocked
  | .prepare => .next { s with shared := v.prepare s.shared, client := .handoff }
  | .handoff => (eventPairClientHandoff s.ep).map fun ep => { s with ep := ep, client := .wait }
  | .wait => (eventPairClientWait s.ep).map fun ep => { s with ep := ep, client := .recvd }
  | .recvd =>
      let s := { s with responses := s.responses ++ [s.shared] }
      if v.stop s.shared then .next { s with exited := true } else .next { s with client := .prepare }

/-- One step of a thread. -/
def epStep (t : EpThread) : Outcome (EpState S) :=
  if s.exited then .blocked
  else
    match t with
    | .main => epMain s
    | .server => serverFn v s
    | .client => clientFn v s

/-- Before `main` initialises the event pair. -/
def newEp (x : S) : EpState S := ⟨⟨none, none, none⟩, x, [], [], .serverInit, .unborn, .unborn, false⟩

/-- All runs of the program. -/
def epMachine (x : S) : Machine (EpState S) EpThread where
  init s := s = newEp x
  step := epStep v

end Program

/-- The server is behind its wait and before its handoff. -/
def EpServerLoc.inSection {S : Type*} : EpServerLoc S → Bool
  | .recvd | .respond _ | .handoff => true
  | _ => false

/-- The client is not between its handoff and the end of its wait. -/
def EpClientLoc.inSection : EpClientLoc → Bool
  | .prepare | .handoff | .recvd => true
  | _ => false

/-- **Where the program is after some number of steps.** -/
inductive EpAt {S : Type*} (v : Service S) (x : S) : Nat → EpState S → Prop
  | serverInit : EpAt v x 0 (newEp x)
  | runServer :
      EpAt v x 1 ⟨⟨none, some 0, some 0⟩, x, [], [], .runServer, .unborn, .unborn, false⟩
  | sync : EpAt v x 2 ⟨⟨none, some 0, some 0⟩, x, [], [], .syncWait, .sync, .unborn, false⟩
  | synced : EpAt v x 3 ⟨⟨none, some 0, some 1⟩, x, [], [], .syncWait, .wait, .unborn, false⟩
  | clientInit : EpAt v x 4 ⟨⟨none, some 0, some 0⟩, x, [], [], .clientInit, .wait, .unborn, false⟩
  | runClient : EpAt v x 5 ⟨⟨some 0, some 0, some 0⟩, x, [], [], .runClient, .wait, .unborn, false⟩
  | prepare (k : Nat) (h : v.GoesOn x k) :
      EpAt v x (8 * k + 6) ⟨⟨some 0, some 0, some 0⟩, v.memory x k, v.requests x k, v.responses x k,
        .returned, .wait, .prepare, false⟩
  | clientHandoff (k : Nat) (h : v.GoesOn x k) :
      EpAt v x (8 * k + 7) ⟨⟨some 0, some 0, some 0⟩, v.prepare (v.memory x k), v.requests x k,
        v.responses x k, .returned, .wait, .handoff, false⟩
  | sent (k : Nat) (h : v.GoesOn x k) :
      EpAt v x (8 * k + 8) ⟨⟨some 0, some 1, some 0⟩, v.prepare (v.memory x k), v.requests x k,
        v.responses x k, .returned, .wait, .wait, false⟩
  | serverRecvd (k : Nat) (h : v.GoesOn x k) :
      EpAt v x (8 * k + 9) ⟨⟨some 0, some 0, some 0⟩, v.prepare (v.memory x k), v.requests x k,
        v.responses x k, .returned, .recvd, .wait, false⟩
  | respond (k : Nat) (h : v.GoesOn x k) :
      EpAt v x (8 * k + 10) ⟨⟨some 0, some 0, some 0⟩, v.prepare (v.memory x k), v.requests x (k + 1),
        v.responses x k, .returned, .respond (v.prepare (v.memory x k)), .wait, false⟩
  | serverHandoff (k : Nat) (h : v.GoesOn x k) :
      EpAt v x (8 * k + 11) ⟨⟨some 0, some 0, some 0⟩, v.memory x (k + 1), v.requests x (k + 1),
        v.responses x k, .returned, .handoff, .wait, false⟩
  | answered (k : Nat) (h : v.GoesOn x k) :
      EpAt v x (8 * k + 12) ⟨⟨some 1, some 0, some 0⟩, v.memory x (k + 1), v.requests x (k + 1),
        v.responses x k, .returned, .wait, .wait, false⟩
  | clientRecvd (k : Nat) (h : v.GoesOn x k) :
      EpAt v x (8 * k + 13) ⟨⟨some 0, some 0, some 0⟩, v.memory x (k + 1), v.requests x (k + 1),
        v.responses x k, .returned, .wait, .recvd, false⟩
  | exited (k : Nat) (h : v.GoesOn x k) (hstop : v.stop (v.memory x (k + 1)) = true) :
      EpAt v x (8 * k + 14) ⟨⟨some 0, some 0, some 0⟩, v.memory x (k + 1), v.requests x (k + 1),
        v.responses x (k + 1), .returned, .wait, .recvd, true⟩

/-- The one thread that can go on. -/
def EpState.mover {S : Type*} (s : EpState S) : EpThread :=
  if s.server.inSection then .server
  else if s.client.inSection then .client
  else
    match s.main, s.server with
    | .returned, _ => if s.ep.clientSem0 = some 0 then .server else .client
    | _, .sync => .server
    | _, _ => .main

section Runs

variable {S : Type*} {v : Service S} {x : S} {n : Nat} {s s' : EpState S} {t : EpThread}

theorem Service.GoesOn.succ {k : Nat} (h : v.GoesOn x k) (hstop : v.stop (v.memory x (k + 1)) = false) :
    v.GoesOn x (k + 1) := by
  intro i hi
  rcases Nat.lt_succ_iff_lt_or_eq.mp hi with hi | rfl
  · exact h i hi
  · exact hstop

/-- A step of any thread takes the program to the next place. -/
theorem EpAt.step (h : EpAt v x n s) (hstep : epStep v s t = .next s') :
    t = s.mover ∧ EpAt v x (n + 1) s' := by
  cases h with
  | serverInit =>
      cases t <;> cases hstep
      exact ⟨rfl, .runServer⟩
  | runServer =>
      cases t <;> cases hstep
      exact ⟨rfl, .sync⟩
  | sync =>
      cases t <;> cases hstep
      exact ⟨rfl, .synced⟩
  | synced =>
      cases t <;> cases hstep
      exact ⟨rfl, .clientInit⟩
  | clientInit =>
      cases t <;> cases hstep
      exact ⟨rfl, .runClient⟩
  | runClient =>
      cases t <;> cases hstep
      exact ⟨rfl, .prepare 0 fun i hi => absurd hi (Nat.not_lt_zero i)⟩
  | prepare k h =>
      cases t <;> cases hstep
      exact ⟨rfl, .clientHandoff k h⟩
  | clientHandoff k h =>
      cases t <;> cases hstep
      exact ⟨rfl, .sent k h⟩
  | sent k h =>
      cases t <;> cases hstep
      exact ⟨rfl, .serverRecvd k h⟩
  | serverRecvd k h =>
      cases t <;> cases hstep
      refine ⟨rfl, ?_⟩
      rw [← v.requests_succ]
      exact .respond k h
  | respond k h =>
      cases t <;> cases hstep
      exact ⟨rfl, .serverHandoff k h⟩
  | serverHandoff k h =>
      cases t <;> cases hstep
      exact ⟨rfl, .answered k h⟩
  | answered k h =>
      cases t <;> cases hstep
      exact ⟨rfl, .clientRecvd k h⟩
  | clientRecvd k h =>
      -- the only branch: the client stops or prepares the next request
      cases t with
      | main => cases hstep
      | server => cases hstep
      | client =>
          have hclient : (if v.stop (v.memory x (k + 1)) = true then _ else _) = _ := hstep
          split at hclient
          · next hstop =>
            cases hclient
            refine ⟨rfl, ?_⟩
            rw [← v.responses_succ]
            exact .exited k h hstop
          · next hstop =>
            cases hclient
            refine ⟨rfl, ?_⟩
            rw [← v.responses_succ]
            exact .prepare (k + 1) (h.succ (by simpa using hstop))
  | exited k h hstop => cases hstep

/-- A client that received a response goes on or exits. -/
theorem exists_step_of_recvd (hexited : s.exited = false) (hclient : s.client = .recvd) :
    ∃ s', epStep v s .client = .next s' := by
  by_cases hstop : v.stop s.shared = true
  · simp [epStep, clientFn, hexited, hclient, hstop]
  · simp [epStep, clientFn, hexited, hclient, hstop]

/-- No thread fails, and until the client exits one of them can go on. -/
theorem EpAt.alive (h : EpAt v x n s) :
    epStep v s t ≠ .abort ∧ (s.exited = true ∨ ∃ s', epStep v s s.mover = .next s') := by
  cases h with
  | clientRecvd k h =>
      obtain ⟨s', hnext⟩ := exists_step_of_recvd (v := v) (s := ⟨⟨some 0, some 0, some 0⟩,
        v.memory x (k + 1), v.requests x (k + 1), v.responses x k, .returned, .wait, .recvd, false⟩)
          rfl rfl
      refine ⟨?_, .inr ⟨s', hnext⟩⟩
      intro habort
      cases t with
      | client =>
          rw [hnext] at habort
          cases habort
      | _ => cases habort
  | exited k h hstop => exact ⟨fun habort => (by cases habort), .inl rfl⟩
  | _ =>
      refine ⟨?_, .inr ⟨_, rfl⟩⟩
      intro habort
      cases t <;> cases habort

theorem EpAt.exclusive (h : EpAt v x n s) : (s.server.inSection && s.client.inSection) = false := by
  cases h <;> rfl

/-- Requests and responses alternate, and are those of a function call after the other. -/
theorem EpAt.inOrder (h : EpAt v x n s) : ∃ k, s.responses = v.responses x k ∧
    (s.requests = v.requests x k ∨ s.requests = v.requests x (k + 1)) := by
  cases h with
  | prepare k | clientHandoff k | sent k | serverRecvd k => exact ⟨k, rfl, .inl rfl⟩
  | respond k | serverHandoff k | answered k | clientRecvd k => exact ⟨k, rfl, .inr rfl⟩
  | exited k => exact ⟨k + 1, rfl, .inl rfl⟩
  | _ => exact ⟨0, rfl, .inl rfl⟩

end Runs

/-- What holds in every state of every run. -/
structure Serves {S : Type*} (v : Service S) (x : S) (s : EpState S) : Prop where
  /-- Client and server are never both at the shared memory. -/
  exclusive : (s.server.inSection && s.client.inSection) = false
  inOrder : ∃ k, s.responses = v.responses x k ∧
    (s.requests = v.requests x k ∨ s.requests = v.requests x (k + 1))
  /-- No semaphore is used before it is initialised. -/
  safe : ∀ t, epStep v s t ≠ .abort
  /-- Until the client exits, exactly one thread can go on. -/
  alive : s.exited = true ∨ ∃ t, ∀ u, (∃ s', epStep v s u = .next s') ↔ u = t

section Results

variable {S : Type*} {v : Service S} {x : S} {n : Nat} {s s' : EpState S}

theorem EpAt.serves (h : EpAt v x n s) : Serves v x s where
  exclusive := h.exclusive
  inOrder := h.inOrder
  safe t := (h.alive (t := t)).1
  alive := by
    rcases (h.alive (t := .main)).2 with hexited | hnext
    · exact .inl hexited
    · refine .inr ⟨s.mover, fun u => ⟨?_, ?_⟩⟩
      · rintro ⟨s', hstep⟩
        exact (h.step hstep).1
      · rintro rfl
        exact hnext

theorem epAt_of_runs (h : (epMachine v x).Runs (fun _ _ => True) (newEp x) n s) : EpAt v x n s := by
  induction h with
  | nil => exact .serverInit
  | snoc _ _ hstep ih => exact (ih.step hstep).2

theorem exists_epAt (hs : (epMachine v x).Reachable s) : ∃ n, EpAt v x n s := by
  refine hs.invariant (I := fun s => ∃ n, EpAt v x n s) ?_ ?_
  · rintro _ rfl
    exact ⟨0, .serverInit⟩
  · rintro s t s' ⟨n, h⟩ - hstep
    exact ⟨n + 1, (h.step hstep).2⟩

/-- Runs of the same length end in the same state. -/
theorem runs_unique (h : (epMachine v x).Runs (fun _ _ => True) (newEp x) n s) :
    ∀ {s'}, (epMachine v x).Runs (fun _ _ => True) (newEp x) n s' → s' = s := by
  induction h with
  | nil =>
      intro s' h'
      cases h'
      rfl
  | snoc hruns _ hstep ih =>
      intro s' h'
      cases h' with
      | snoc hruns' _ hstep' =>
          obtain rfl := ih hruns'
          have hat := epAt_of_runs hruns
          rw [(hat.step hstep).1] at hstep
          rw [(hat.step hstep').1] at hstep'
          exact Outcome.next.inj (hstep'.symm.trans hstep)

/-- A run does not get beyond the call whose response makes the client exit. -/
theorem EpAt.le_of_stop (h : EpAt v x n s) {k : Nat} (hstop : v.stop (v.memory x (k + 1)) = true) :
    n ≤ 8 * k + 14 := by
  have hle : ∀ {j}, v.GoesOn x j → j ≤ k := by
    intro j hgo
    by_contra hlt
    have hno := hgo k (by omega)
    rw [hstop] at hno
    cases hno
  cases h with
  | prepare j h | clientHandoff j h | sent j h | serverRecvd j h | respond j h | serverHandoff j h
  | answered j h | clientRecvd j h | exited j h =>
      have hj := hle h
      omega
  | _ => omega

/-- The client exited behind the response to its call number `k`. -/
structure Finished (v : Service S) (x : S) (k : Nat) (s : EpState S) : Prop where
  exited : s.exited = true
  requests : s.requests = v.requests x (k + 1)
  responses : s.responses = v.responses x (k + 1)

theorem EpAt.finished (h : EpAt v x n s) {k : Nat} (hgo : v.GoesOn x k)
    (hstop : v.stop (v.memory x (k + 1)) = true)
    (hstuck : (epMachine v x).Stuck (fun _ _ => True) s) : Finished v x k s := by
  have hexited : s.exited = true := by
    rcases (h.alive (t := .main)).2 with hexited | ⟨s', hnext⟩
    · exact hexited
    · exact absurd hnext (hstuck s.mover s' trivial)
  cases h with
  | exited j hj hstop' =>
      have hjk : j = k := by
        rcases Nat.lt_trichotomy j k with hlt | heq | hlt
        · rw [hgo j hlt] at hstop'
          cases hstop'
        · exact heq
        · rw [hj k hlt] at hstop
          cases hstop
      subst hjk
      exact ⟨rfl, rfl, rfl⟩
  | _ => cases hexited

/-- **An event pair makes a server out of a thread**, for any memory and any work of the two.  In
every run client and server are at the memory in turns, the requests received and the responses are
those of calls of a function one after the other, no semaphore is used before it is initialised, and
exactly one thread can go on until the client exits, so that runs of the same length end in the same
state.  If a response makes the client exit, every run ends, behind the first such response. -/
theorem eventPair_serves (v : Service S) (x : S) :
    (∀ s, (epMachine v x).Reachable s → Serves v x s) ∧
      (∀ n s s', (epMachine v x).Runs (fun _ _ => True) (newEp x) n s →
        (epMachine v x).Runs (fun _ _ => True) (newEp x) n s' → s' = s) ∧
      ∀ k, v.GoesOn x k → v.stop (v.memory x (k + 1)) = true →
        (epMachine v x).Ends (fun _ _ => True) (newEp x) (8 * k + 14) (Finished v x k) := by
  refine ⟨?_, ?_, ?_⟩
  · intro s hs
    obtain ⟨n, h⟩ := exists_epAt hs
    exact h.serves
  · intro n s s' h h'
    exact runs_unique h h'
  · intro k hgo hstop
    constructor
    · intro n s h
      exact (epAt_of_runs h).le_of_stop hstop
    · intro n s h hstuck
      exact (epAt_of_runs h).finished hgo hstop hstuck

end Results

/-- The service of the program: the server doubles a number, and the client, which only looks at it, exits
behind the first response greater than 1024. -/
def doubling : Service UInt32 where
  prepare x := x
  respond x := x * 2
  stop x := 1024 < x

/-- The program exits behind the response 2048, in every run. -/
theorem eventPair_serves_doubling :
    (epMachine doubling 1).Ends (fun _ _ => True) (newEp 1) 94 (Finished doubling 1 10) ∧
      doubling.responses 1 11 = [2, 4, 8, 16, 32, 64, 128, 256, 512, 1024, 2048] := by
  refine ⟨(eventPair_serves doubling 1).2.2 10 ?_ (by decide), by decide⟩
  unfold Service.GoesOn
  decide

end ThreadLib
end MultithreadingBible
