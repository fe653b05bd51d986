import MultithreadingBible.FifoWaitQueue.Order

/-!
# FIFO wait queues: who is released

A signal goes to the thread that has been blocked longest, a broadcast to all of them (`fifoQueue_ok`).

`thread_wait_count` counts the threads in the wait, up to wrapping around: with `2 ^ 32` of them it is
zero, and signals are lost (`fifoQueue_wraps`).
-/

namespace MultithreadingBible
namespace FifoWaitQueue

open Lib GlueThread

variable {τ : Type*} [DecidableEq τ]

section Results

variable [Fintype τ] {spurious : Bool} {s s' : WqConfig τ} {t u : τ}

/-- The threads in the wait are those that wait for a signal and those that had theirs. -/
theorem FifoInv.tally_eq (h : FifoInv s) :
    tally s.thr WqLoc.waits =
      (waitingThreads s.mem.log).length + (signalledThreads s.mem.log).length := by
  have hlen := length_standing_add (fun k => k == .blocked) (fun k => k == .signalled)
    (fun k hk => by cases k <;> simp at hk) s.mem.log
  have htally := card_filter_loc s.thr fun l => l == .wait
  have hweight : (fun l : WqLoc => (l == .wait).toNat) = WqLoc.waits := by
    funext l
    cases l <;> rfl
  rw [hweight] at htally
  unfold waitingThreads signalledThreads
  rw [hlen, ← htally]
  congr 1
  ext u
  rw [Finset.mem_filter, Finset.mem_filter]
  have hp := h.placed u
  cases hthr : s.thr u with
  | running l =>
      rw [hthr] at hp
      rw [show l = .idle from hp.1]
      rcases hp.2 with hlast | hlast
      · rw [hlast]; simp
      · rw [hlast]; simp
  | waiting c l =>
      rw [hthr] at hp
      rw [show l = .wait from hp.2.1, hp.2.2]
      simp
  | notified c l =>
      rw [hthr] at hp
      rw [show l = .wait from hp.2.1]
      rcases hp.2.2 with hlast | hlast
      · rw [hlast]; simp
      · rw [hlast]; simp

/-- Calls signal the threads `ts`, and nothing else happens to the threads or the queue. -/
structure Released (s s' : WqConfig τ) (ts : List τ) : Prop where
  log : s'.mem.log = s.mem.log ++ ts.map fun t => ⟨t, .signalled⟩
  rest : waitingThreads s.mem.log = ts ++ waitingThreads s'.mem.log
  count : s'.mem.wq = s.mem.wq
  thr : ∀ t, s'.thr t = if t ∈ ts then (s.thr t).wake (.thread (.glue t)) else s.thr t

/-- A call of `wait_queue_signal` or `wait_queue_broadcast` that is carried out. -/
theorem FifoInv.released_of_step (h : FifoInv s) {x : WqCall} {picks : List (Option τ)}
    (hx : ∀ b, x ≠ .testAndWait b) (hstep : (fifoMachine spurious).step s (.run t x picks) = .next s') :
    Released s s' (released s.mem.wq s.mem.log x) := by
  obtain ⟨notes, st, hran⟩ := Program.ran_of_step hstep
  obtain ⟨-, hmove⟩ := h.move hran
  have hself := hran.self
  have hawake := hran.awake
  generalize hl : (s.thr t).loc = l at hmove
  generalize hwq : s'.mem.wq = wq at hmove
  generalize hlog : s'.mem.log = log at hmove
  cases hmove with
  | pass => exact absurd rfl (hx false)
  | block => exact absurd rfl (hx true)
  | leave => exact absurd rfl (hx false)
  | again => exact absurd rfl (hx true)
  | release x =>
      have hbegin := released_append_drop s.mem.wq s.mem.log x
      have hsub : ∀ v ∈ released s.mem.wq s.mem.log x, v ∈ waitingThreads s.mem.log := by
        intro v hv
        rw [hbegin]
        exact List.mem_append_left _ hv
      refine ⟨hlog, ?_, hwq, fun u => ?_⟩
      · rw [hlog, waitingThreads_signalled hbegin]
        exact hbegin
      · by_cases hu : u = t
        · subst hu
          rw [if_neg fun hmem => h.not_mem_of_idle hl (hsub u hmem), hself]
          -- the caller is in no call, so it is running
          have hp := h.placed u
          cases hthr : s.thr u with
          | running l =>
              rw [hthr] at hp
              rw [show l = .idle from hp.1]
          | waiting c l =>
              rw [hthr] at hawake
              cases hawake
          | notified c l =>
              rw [hthr] at hp hl
              rw [show l = .wait from hp.2.1] at hl
              cases hl
        · exact h.released_thr hsub hran hu

omit [Fintype τ] in
/-- Calls after each other signal the threads of both. -/
theorem Released.trans {s₁ : WqConfig τ} {ts us : List τ} (h₁ : Released s s₁ ts)
    (h₂ : Released s₁ s' us) : Released s s' (ts ++ us) where
  log := by rw [h₂.log, h₁.log, List.map_append, List.append_assoc]
  rest := by rw [h₁.rest, h₂.rest, List.append_assoc]
  count := h₂.count.trans h₁.count
  thr t := by
    have hnd := nodup_waitingThreads s.mem.log
    rw [h₁.rest, h₂.rest] at hnd
    rw [h₂.thr t, h₁.thr t]
    by_cases ht : t ∈ ts
    · have hout : t ∉ us := fun hmem =>
        (List.nodup_append.mp hnd).2.2 t ht t (List.mem_append_left _ hmem) rfl
      rw [if_neg hout, if_pos ht, if_pos (List.mem_append_left us ht)]
    · rw [if_neg ht]
      congr 1
      simp [ht]

/-- Where `thread_wait_count` is not zero, the mutex has been cached. -/
theorem FifoInv.active (h : FifoInv s) (hcount : s.mem.wq.threadWaitCount ≠ 0) :
    (s.mem.wq.applnMutex && s.mem.wq.threadWaitCount != 0) = true := by
  have hpos : 0 < tally s.thr WqLoc.waits := by
    apply Nat.pos_of_ne_zero
    intro hzero
    apply hcount
    rw [h.count, hzero]
    rfl
  obtain ⟨t, ht⟩ := tally_pos.mp hpos
  have hwait : (s.thr t).loc = .wait := by
    cases hl : (s.thr t).loc with
    | idle =>
        rw [hl] at ht
        exact absurd ht (Nat.lt_irrefl 0)
    | wait => rfl
  rw [h.cached t hwait, Bool.true_and, bne_iff_ne]
  exact hcount

/-- Every loop ends: no call is left unfinished. -/
theorem FifoInv.ne_abort (h : FifoInv s) (a : Act τ WqCall) :
    (fifoMachine spurious).step s a ≠ .abort := by
  intro habort
  cases a with
  | spurious t => exact Program.not_abort_spurious habort
  | run t x picks =>
      obtain ⟨-, hexec⟩ := Program.exec_of_abort habort
      have hexec : fifoExec t (s.thr t).loc x s.mem = .abort := hexec
      rcases fifoExec_spec h.queue (fun hl => h.not_mem_of_idle hl) x with
        hblocked | ⟨m', notes, st, hdone, -, -⟩
      · rw [hblocked] at hexec
        cases hexec
      · rw [hdone] at hexec
        cases hexec

/-- Only calls of `wait_queue_signal`. -/
def SignalsOnly (as : List (Act τ WqCall)) : Prop :=
  ∀ a ∈ as, ∃ u lockMutex picks, a = .run u (.signal lockMutex) picks

/-- **Run of signals**: each goes to the thread that has been blocked longest. -/
theorem FifoInv.signals (h : FifoInv s) (hcount : s.mem.wq.threadWaitCount ≠ 0)
    {as : List (Act τ WqCall)} (hall : SignalsOnly as)
    (hrun : (fifoMachine spurious).exec s as = .next s') :
    Released s s' ((waitingThreads s.mem.log).take as.length) := by
  induction as generalizing s with
  | nil =>
      cases hrun
      exact ⟨by simp, rfl, rfl, fun _ => rfl⟩
  | cons a as ih =>
      obtain ⟨u, lockMutex, picks, rfl⟩ := hall a (List.mem_cons_self ..)
      rw [Machine.exec_cons] at hrun
      cases hstep : (fifoMachine spurious).step s (.run u (.signal lockMutex) picks) with
      | blocked => simp [hstep, Outcome.bind] at hrun
      | abort => simp [hstep, Outcome.bind] at hrun
      | next s₁ =>
          simp only [hstep, Outcome.bind] at hrun
          have hfirst := h.released_of_step (fun b hb => by cases hb) hstep
          rw [show released s.mem.wq s.mem.log (.signal lockMutex) =
            (waitingThreads s.mem.log).take 1 from if_pos (h.active hcount)] at hfirst
          obtain ⟨notes, st, hran⟩ := Program.ran_of_step hstep
          have hrest := ih (h.step hran) (by rw [hfirst.count]; exact hcount)
            (fun b hb => hall b (List.mem_cons_of_mem _ hb)) hrun
          -- one signal takes the head of the list, the others what is at its head after that
          have htake : (waitingThreads s.mem.log).take (as.length + 1) =
              (waitingThreads s.mem.log).take 1 ++ (waitingThreads s₁.mem.log).take as.length := by
            have hsplit := hfirst.rest
            cases hL : waitingThreads s.mem.log with
            | nil =>
                rw [hL] at hsplit
                rw [show waitingThreads s₁.mem.log = [] from hsplit.symm]
                simp
            | cons v vs =>
                rw [hL] at hsplit
                rw [show waitingThreads s₁.mem.log = vs from (List.cons.inj hsplit).2.symm]
                rfl
          rw [List.length_cons, htake]
          exact hfirst.trans hrest

/-- **Who is released**: `fifo_thread_q` holds the condition variables of the threads that stand
blocked in the history, each once and in the order in which they blocked last, and every blocked
thread that was not notified is one of them.  `thread_wait_count` counts them and the threads that
were signalled and have not resumed, up to wrapping around.  While it is not zero, signals go to the
first threads of the list, and a broadcast goes to all of them.  No call is left unfinished. -/
theorem fifoQueue_ok (h : (fifoMachine spurious).Reachable s) :
    (iterateGlthread s.mem.heap (Fintype.card τ) (base s.mem.heap .fifoThreadQ) =
        some ((waitingThreads s.mem.log).map .glue) ∧ (waitingThreads s.mem.log).Nodup) ∧
      (∀ a, (fifoMachine spurious).step s a ≠ .abort) ∧
      (∀ t c l, s.thr t = .waiting c l → c = .thread (.glue t) ∧ t ∈ waitingThreads s.mem.log) ∧
      (∀ t, (s.thr t).loc = .wait ↔
        t ∈ waitingThreads s.mem.log ∨ t ∈ signalledThreads s.mem.log) ∧
      s.mem.wq.threadWaitCount =
        ((waitingThreads s.mem.log).length + (signalledThreads s.mem.log).length) % 2 ^ 32 ∧
      (s.mem.wq.threadWaitCount ≠ 0 →
        (∀ as s', SignalsOnly as → (fifoMachine spurious).exec s as = .next s' →
          Released s s' ((waitingThreads s.mem.log).take as.length)) ∧
        ∀ t lockMutex picks s',
          (fifoMachine spurious).step s (.run t (.broadcast lockMutex) picks) = .next s' →
            Released s s' (waitingThreads s.mem.log)) := by
  have hinv := fifoInv_reachable h
  refine ⟨⟨hinv.queue.links.iterate, nodup_waitingThreads _⟩, hinv.ne_abort,
    fun t c l hw => ?_, fun t => ?_, ?_, fun hcount =>
      ⟨fun as s' hall hrun => hinv.signals hcount hall hrun, ?_⟩⟩
  · have hp := hinv.placed t
    rw [hw] at hp
    exact ⟨hp.1, mem_waitingThreads.mpr hp.2.2⟩
  · have hp := hinv.placed t
    rw [mem_waitingThreads, mem_signalledThreads]
    cases hthr : s.thr t with
    | running l =>
        rw [hthr] at hp
        rw [show l = .idle from hp.1]
        rcases hp.2 with hlast | hlast
        · rw [hlast]; simp
        · rw [hlast]; simp
    | waiting c l =>
        rw [hthr] at hp
        exact iff_of_true hp.2.1 (.inl hp.2.2)
    | notified c l =>
        rw [hthr] at hp
        exact iff_of_true hp.2.1 hp.2.2
  · rw [hinv.count, hinv.tally_eq]
  · intro t lockMutex picks s' hstep
    have hall := hinv.released_of_step (fun b hb => by cases hb) hstep
    rwa [show released s.mem.wq s.mem.log (.broadcast lockMutex) = waitingThreads s.mem.log from
      if_pos (hinv.active hcount)] at hall

/-- Of two blocked threads the one that blocked first, `1`, wakes up by itself and blocks again, so
the signal goes to the other. -/
theorem fifoQueue_trace :
    ∃ s s' : WqConfig (Fin 3), (fifoMachine true).Reachable s ∧
      waitingThreads s.mem.log = [0, 1] ∧ Released s s' [0] := by
  have hrun : ((fifoMachine true).exec (freshFifoQueue (Fin 3))
      [.run 1 (.testAndWait true) [], .run 0 (.testAndWait true) [], .spurious 1,
        .run 1 (.testAndWait true) []]).holds (fun s =>
          decide (waitingThreads s.mem.log = [0, 1] ∧ s.mem.wq.threadWaitCount ≠ 0) &&
          ((fifoMachine true).exec s [.run 2 (.signal true) [some 0]]).holds
            fun _ => true) = true := by
    decide +kernel
  obtain ⟨s, hs, hp⟩ := Machine.exists_reachable_of_exec rfl hrun
  obtain ⟨hstate, hnext⟩ := Bool.and_eq_true_iff.mp hp
  obtain ⟨hlist, hcount⟩ := of_decide_eq_true hstate
  obtain ⟨s', hs', -⟩ := Outcome.holds_iff.mp hnext
  have hsignals : SignalsOnly [(.run 2 (.signal true) [some 0] : Act (Fin 3) WqCall)] := by
    simp [SignalsOnly]
  have hrel := ((fifoQueue_ok hs).2.2.2.2.2 hcount).1 _ s' hsignals hs'
  rw [hlist] at hrel
  exact ⟨s, s', hs, hlist, hrel⟩

/-- Threads that block one after the other. -/
theorem exists_all_blocked {ts : List τ} (hnd : ts.Nodup) :
    ∃ s : WqConfig τ, (fifoMachine spurious).Reachable s ∧
      s.mem.log = ts.map (fun t => ⟨t, .blocked⟩) ∧ ∀ u, u ∉ ts → s.thr u = .running .idle := by
  induction ts using List.reverseRecOn with
  | nil => exact ⟨freshFifoQueue τ, .init rfl, rfl, fun u _ => rfl⟩
  | append_singleton ts t ih =>
      obtain ⟨hnd', -, hne⟩ := List.nodup_append.mp hnd
      obtain ⟨s, hs, hlog, hidle⟩ := ih hnd'
      have hout : t ∉ ts := fun hmem => hne t hmem t (List.mem_singleton_self t) rfl
      have ht := hidle t hout
      have hinv := fifoInv_reachable hs
      have hfree : t ∉ waitingThreads s.mem.log := hinv.not_mem_of_idle (by rw [ht]; rfl)
      have hcached : QueueOk { s.mem with wq := s.mem.wq.cacheMutex } :=
        ⟨hinv.queue.fifo, hinv.queue.links⟩
      obtain ⟨hp', hloop, -⟩ := fifoLoop_true hcached hfree true
      have hexec : (fifoProgram spurious).exec t (s.thr t).loc (.testAndWait true) s.mem =
          .done ⟨s.mem.wq.cacheMutex.countUp, hp', s.mem.log ++ [⟨t, .blocked⟩]⟩ []
            (.waiting (.thread (.glue t)) .wait) := by
        rw [ht]
        exact hloop
      have hstep := Program.step_of_silent [] (by rw [ht]; rfl) hexec
      have hnext : (fifoMachine spurious).step s (.run t (.testAndWait true) []) = .next _ := hstep
      refine ⟨_, .step hs trivial hnext, ?_, fun u hu => ?_⟩
      · show s.mem.log ++ [⟨t, .blocked⟩] = _
        rw [hlog, List.map_append]
        rfl
      · show Function.update s.thr t _ u = _
        rw [List.mem_append, List.mem_singleton, not_or] at hu
        rw [Function.update_of_ne hu.2]
        exact hidle u hu.1

/-- Where the number of blocked threads is a multiple of `2 ^ 32`, a signal is lost. -/
theorem exists_signal_lost {ts : List τ} (hnd : ts.Nodup) (hwrap : ts.length % 2 ^ 32 = 0)
    (hu : u ∉ ts) :
    ∃ s s' : WqConfig τ, (fifoMachine spurious).Reachable s ∧ waitingThreads s.mem.log = ts ∧
      s.mem.wq.threadWaitCount = 0 ∧
      (fifoMachine spurious).exec s [.run u (.signal true) []] = .next s' ∧
      waitingThreads s'.mem.log = ts := by
  obtain ⟨s, hs, hlog, hidle⟩ := exists_all_blocked hnd
  have hinv := fifoInv_reachable hs
  have hlist : waitingThreads s.mem.log = ts := by
    rw [hlog]
    exact standing_map rfl hnd
  have hnone : signalledThreads s.mem.log = [] := by
    apply List.eq_nil_iff_forall_not_mem.mpr
    intro t ht
    rw [mem_signalledThreads, hlog, ← List.nil_append (ts.map _), lastKind_append_map] at ht
    split at ht
    · cases ht
    · cases ht
  have hcount : s.mem.wq.threadWaitCount = 0 := by
    rw [hinv.count, hinv.tally_eq, hlist, hnone]
    exact hwrap
  have hlast := hidle u hu
  have hsig : waitQueueSignal s.mem.wq s.mem.heap = ([], s.mem.heap) := by
    unfold waitQueueSignal
    rw [hcount]
    cases s.mem.wq.applnMutex <;> rfl
  have hexec : (fifoProgram spurious).exec u (s.thr u).loc (.signal true) s.mem =
      .done ⟨s.mem.wq, s.mem.heap, s.mem.log ++ []⟩ [] (.running .idle) := by
    rw [hlast]
    show fifoExec u .idle (.signal true) s.mem = _
    unfold fifoExec
    rw [hsig]
    rfl
  have hstep := Program.step_of_silent [] (by rw [hlast]; rfl) hexec
  have hnext : (fifoMachine spurious).step s (.run u (.signal true) []) = .next _ := hstep
  refine ⟨s, ⟨⟨s.mem.wq, s.mem.heap, s.mem.log ++ []⟩, Function.update s.thr u (.running .idle)⟩, hs,
    hlist, hcount, ?_, ?_⟩
  · rw [Machine.exec_cons, hnext]
    rfl
  · show waitingThreads (s.mem.log ++ []) = _
    rw [List.append_nil, hlist]

/-- With `2 ^ 32` blocked threads `thread_wait_count` is zero, and a signal is lost. -/
theorem fifoQueue_wraps :
    ∃ s s' : WqConfig (Fin (2 ^ 32 + 1)), (fifoMachine false).Reachable s ∧
      (waitingThreads s.mem.log).length = 2 ^ 32 ∧ s.mem.wq.threadWaitCount = 0 ∧
      (fifoMachine false).exec s [.run (Fin.last (2 ^ 32)) (.signal true) []] = .next s' ∧
      (waitingThreads s'.mem.log).length = 2 ^ 32 := by
  have hnd : ((List.finRange (2 ^ 32)).map Fin.castSucc).Nodup :=
    (List.nodup_finRange _).map (Fin.castSucc_injective _)
  have hlen : ((List.finRange (2 ^ 32)).map Fin.castSucc).length = 2 ^ 32 := by
    rw [List.length_map, List.length_finRange]
  have hout : Fin.last (2 ^ 32) ∉ (List.finRange (2 ^ 32)).map Fin.castSucc := by
    intro hmem
    obtain ⟨i, -, hi⟩ := List.mem_map.mp hmem
    exact Fin.castSucc_ne_last i hi
  obtain ⟨s, s', hs, hlist, hcount, hexec, hlist'⟩ :=
    exists_signal_lost hnd (by rw [hlen, Nat.mod_self]) hout
  exact ⟨s, s', hs, by rw [hlist, hlen], hcount, hexec, by rw [hlist', hlen]⟩

end Results

end FifoWaitQueue
end MultithreadingBible
