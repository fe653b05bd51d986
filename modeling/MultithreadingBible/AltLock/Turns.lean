import MultithreadingBible.AltLock.Alternation
import MultithreadingBible.Lib.Recording

/-!
# Alternating reader-writer lock: the turn is handed over

When the last thread of one kind leaves while the other kind waits, the kind that leaves is not granted
the lock again before the other kind was granted it.  The runs are recorded: `turnEvents` writes down
every grant and every such departure, and `altLock_handsOver` says that the log is right (`HandsOver`),
however long the other threads take, wake up or come back in between.

The promise is kept by two facts of the state (`TurnInv`): while it is open the leaving kind is not
allowed in, and nobody is inside who could change that.  No bound on the number of threads is needed.
-/

namespace MultithreadingBible
namespace AltLock

open Lib
open RwLocks (Access)

/-- What is seen of a run. -/
inductive TurnEvent where
  /-- `rw_lock_rd_lock` or `rw_lock_wr_lock` returns. -/
  | granted (k : Access)
  /-- The last thread of kind `k` leaves while the other kind is counted as waiting. -/
  | handOver (k : Access)
  deriving DecidableEq

/-- Since some hand-over by `k` the other kind was not granted the lock. -/
def Awaits (k : Access) (log : List TurnEvent) : Prop :=
  ∃ before after, log = before ++ .handOver k :: after ∧ .granted (other k) ∉ after

/-- After a hand-over by `k`, the lock is not granted to `k` before it was granted to the other kind. -/
def HandsOver (log : List TurnEvent) : Prop :=
  ∀ before k mid after, log = before ++ .handOver k :: mid ++ .granted k :: after →
    .granted (other k) ∈ mid

section Log

variable {k k' : Access} {log : List TurnEvent}

theorem not_awaits_nil : ¬ Awaits k [] := by
  intro h
  obtain ⟨before, after, heq, -⟩ := h
  simp at heq

/-- One event more. -/
theorem awaits_concat {e : TurnEvent} (h : Awaits k (log ++ [e])) :
    e = .handOver k ∨ Awaits k log ∧ e ≠ .granted (other k) := by
  obtain ⟨before, after, heq, hno⟩ := h
  rcases List.eq_nil_or_concat after with rfl | ⟨rest, last, rfl⟩
  · obtain ⟨-, hlast⟩ := List.append_inj' heq rfl
    cases hlast
    exact .inl rfl
  · have hsplit : log ++ [e] = (before ++ .handOver k :: rest) ++ [last] := by simpa using heq
    obtain ⟨hlog, hlast⟩ := List.append_inj' hsplit rfl
    cases hlast
    refine .inr ⟨⟨before, rest, hlog, ?_⟩, ?_⟩
    · intro hmem
      exact hno (by simp [hmem])
    · intro he
      exact hno (by simp [he])

/-- The log is right if no kind is granted the lock that still awaits the other one. -/
theorem handsOver_of_eachAfter
    (h : EachAfter (fun before e => ∀ k, e = .granted k → ¬ Awaits k before) log) :
    HandsOver log := by
  intro before k mid after heq
  by_contra hno
  exact h (before ++ .handOver k :: mid) (.granted k) after heq k rfl ⟨before, mid, rfl, hno⟩

end Log

variable {τ : Type*} [Fintype τ]

/-- What is seen of a step. -/
def turnEvents (s : AltConfig τ) (a : Act τ Access) (s' : AltConfig τ) : List TurnEvent :=
  match a with
  | .run t _ _ =>
      match (s.thr t).loc, (s'.thr t).loc with
      | _, .inside k => [.granted k]
      | .inside k, _ =>
          if insideCount s' k = 0 ∧ 0 < s.mem.nWaiting (other k) then [.handOver k] else []
      | _, _ => []
  | .spurious _ => []

variable {maxReaders maxWriters : UInt16} {spurious : Bool} {s s' : AltConfig τ} {t : τ}
  {x k : Access} {notes : List (Note Access)} {st : Status Access AltLoc} {log : List TurnEvent}

theorem turnEvents_of_block {l : AltLoc} {picks : List (Option τ)} (hl : (s.thr t).loc = l)
    (hout : ∀ k, l ≠ .inside k) (hl' : (s'.thr t).loc = .wait k) :
    turnEvents s (.run t x picks) s' = [] := by
  cases l with
  | idle => simp only [turnEvents, hl, hl']
  | wait k' => simp only [turnEvents, hl, hl']
  | inside k' => exact absurd rfl (hout k')

theorem turnEvents_of_enter {picks : List (Option τ)} (hl' : (s'.thr t).loc = .inside k) :
    turnEvents s (.run t x picks) s' = [.granted k] := by
  simp only [turnEvents, hl']

theorem turnEvents_of_release {picks : List (Option τ)} (hl : (s.thr t).loc = .inside k)
    (hl' : (s'.thr t).loc = .idle) :
    turnEvents s (.run t x picks) s' =
      if insideCount s' k = 0 ∧ 0 < s.mem.nWaiting (other k) then [.handOver k] else [] := by
  simp only [turnEvents, hl, hl']

/-- The fields describe who is inside, and whoever awaits the other kind is kept out of a free lock. -/
structure TurnInv (maxReaders maxWriters : UInt16) (s : AltConfig τ) (log : List TurnEvent) :
    Prop where
  holders : Holders (limits maxReaders maxWriters) (insideCount s) s.mem
  kept : ∀ k, Awaits k log → s.mem.dontAllow k = true ∧ ∀ k', insideCount s k' = 0
  right : EachAfter (fun before e => ∀ k, e = .granted k → ¬ Awaits k before) log

variable [DecidableEq τ]

theorem TurnInv.init (h : (altMachine τ spurious maxReaders maxWriters).init s) :
    TurnInv maxReaders maxWriters s [] := by
  have hinside : insideCount s = fun _ => 0 := by
    ext k
    rw [insideCount_eq, tally_eq_zero]
    intro t
    rw [h.2 t]
    rfl
  refine ⟨?_, fun k hk => absurd hk not_awaits_nil, .nil⟩
  rw [hinside, h.1]
  exact .fresh maxReaders maxWriters

/-- A thread that has to wait changes neither who is inside nor whose turn it is. -/
theorem TurnInv.block (h : TurnInv maxReaders maxWriters s log)
    (hran : (altProgram τ spurious).Ran s t x s' notes (.waiting k (.wait k))) {m₁ : RwLock}
    (ha : Arrives x s.mem (s.thr t).loc k m₁) (hm : s'.mem = m₁.countWaiting k) :
    TurnInv maxReaders maxWriters s' log := by
  have hinside : insideCount s' = insideCount s := by
    ext k'
    have hcount := insideCount_ran hran k'
    rwa [ha.isInside, Status.loc_waiting, show (AltLoc.wait k).isInside k' = false from rfl] at hcount
  have hallow : s'.mem.dontAllow = s.mem.dontAllow := by
    rw [hm]
    generalize (s.thr t).loc = l at ha
    cases ha <;> rfl
  refine ⟨?_, ?_, h.right⟩
  · rw [hinside, hm]
    exact (ha.holders h.holders).countWaiting k
  · rw [hinside, hallow]
    exact h.kept

/-- Who is granted the lock does not await the other kind, and is the one the other kind awaits. -/
theorem TurnInv.enter (h : TurnInv maxReaders maxWriters s log)
    (hran : (altProgram τ spurious).Ran s t x s' notes (.running (.inside k))) {m₁ : RwLock}
    (ha : Arrives x s.mem (s.thr t).loc k m₁) (hw : m₁.mustWait k = false)
    (hm : s'.mem = enter k m₁) : TurnInv maxReaders maxWriters s' (log ++ [.granted k]) := by
  have hholders := ha.holders h.holders
  have hinside : insideCount s' = Function.update (insideCount s) k (insideCount s k + 1) := by
    ext k'
    have hcount := insideCount_ran hran k'
    rw [ha.isInside, Status.loc_running] at hcount
    by_cases hk : k' = k
    · rw [hk] at hcount ⊢
      rw [Function.update_self]
      simpa [AltLoc.isInside] using hcount
    · rw [Function.update_of_ne hk]
      rwa [show (AltLoc.inside k).isInside k' = false from beq_false_of_ne (Ne.symm hk)] at hcount
  have hallow : s.mem.dontAllow k = false := by
    rw [ha.mustWait, RwLock.mustWait, Bool.or_eq_false_iff] at hw
    exact hw.2
  -- an open promise would keep this kind out
  have hno : ¬ Awaits k log := by
    intro hawaits
    have hkept := (h.kept k hawaits).1
    rw [hallow] at hkept
    cases hkept
  refine ⟨?_, fun k' hk' => ?_, ?_⟩
  · rw [hinside, hm]
    exact hholders.enter hw
  · -- the grant ends the promise of the other kind
    rcases awaits_concat hk' with heq | ⟨hawaits, hne⟩
    · cases heq
    · by_cases hk : k' = k
      · exact absurd (hk ▸ hawaits) hno
      · rw [eq_other hk, other_other] at hne
        exact absurd rfl hne
  · refine h.right.concat fun k' heq => ?_
    cases heq
    exact hno

/-- Who leaves shows that nobody awaited anything; if it is the last and the other kind waits, the turn
changes. -/
theorem TurnInv.release (h : TurnInv maxReaders maxWriters s log)
    (hran : (altProgram τ spurious).Ran s t x s' notes (.running .idle))
    (hl : (s.thr t).loc = .inside k) (hu : rwLockUnlock s.mem = some (s'.mem, notes)) :
    TurnInv maxReaders maxWriters s' (log ++
      if insideCount s' k = 0 ∧ 0 < s.mem.nWaiting (other k) then [.handOver k] else []) := by
  have hpos := insideCount_pos hl
  obtain ⟨m', notes', hu', hholders, hcase, -⟩ := unlock_spec h.holders hpos
  rw [hu] at hu'
  cases hu'
  have hinside := insideCount_release hran hl
  -- a promise is open only while nobody is inside
  have hnobody : ∀ k', ¬ Awaits k' log := by
    intro k' hawaits
    have hzero := (h.kept k' hawaits).2 k
    omega
  rw [← hinside] at hholders
  split
  · next hturn =>
    refine ⟨hholders, fun k' hk' => ?_, ?_⟩
    · rcases awaits_concat hk' with heq | ⟨hawaits, -⟩
      · cases heq
        have hother : insideCount s' (other k) = 0 := by
          rw [hinside, Function.update_of_ne (other_ne k)]
          exact h.holders.exclusive k hpos
        have hlast : s'.mem.nLocks = 0 := by
          rw [hholders.nLocks_eq k, hturn.1, hother]
        refine ⟨?_, fun k' => ?_⟩
        · -- of the five ways to leave, only one is left
          cases hcase with
          | handOver hleft => exact absurd hlast hleft
          | leave hleft => exact absurd hlast hleft
          | switch hleft hwait hself hother' => exact hself
          | again hleft hnone => exact absurd hturn.2 (by omega)
          | idle hleft hnone =>
              have hzero := hnone (other k)
              exact absurd hturn.2 (by omega)
        · by_cases hk : k' = k
          · rw [hk]
            exact hturn.1
          · rw [eq_other hk]
            exact hother
      · exact absurd hawaits (hnobody k')
    · refine h.right.concat fun k' heq => ?_
      cases heq
  · rw [List.append_nil]
    exact ⟨hholders, fun k' hk' => absurd hk' (hnobody k'), h.right⟩

/-- **Every step keeps the invariant.** -/
theorem TurnInv.step (h : TurnInv maxReaders maxWriters s log) {picks : List (Option τ)}
    (hran : (altProgram τ spurious).Ran s t x s' notes st) :
    TurnInv maxReaders maxWriters s' (log ++ turnEvents s (.run t x picks) s') := by
  have hmove := altMove_of_exec h.holders hran.exec
  have hself := hran.self
  generalize hl : (s.thr t).loc = l at hmove
  generalize hm : s'.mem = m' at hmove
  cases hmove with
  | @block l k m₁ ha hw =>
      have hout : ∀ k', l ≠ .inside k' := by
        intro k' hk'
        rw [hk'] at ha
        cases ha
      rw [turnEvents_of_block hl hout (by rw [hself]; rfl), List.append_nil]
      exact h.block hran (hl ▸ ha) hm
  | @enter l k m₁ ha hw =>
      rw [turnEvents_of_enter (by rw [hself]; rfl)]
      exact h.enter hran (hl ▸ ha) hw hm
  | @release k m' notes hu =>
      rw [turnEvents_of_release hl (by rw [hself]; rfl)]
      exact h.release hran hl (hm ▸ hu)

theorem TurnInv.woken (h : TurnInv maxReaders maxWriters s log) {c : Access} {l : AltLoc}
    (hw : s.thr t = .waiting c l) :
    TurnInv maxReaders maxWriters ⟨s.mem, Function.update s.thr t (.notified c l)⟩ log := by
  have hinside : insideCount ⟨s.mem, Function.update s.thr t (.notified c l)⟩ = insideCount s := by
    ext k
    rw [insideCount_eq, insideCount_eq]
    exact tally_congr (loc_update_notified hw) _
  refine ⟨?_, ?_, h.right⟩
  · rw [hinside]
    exact h.holders
  · rw [hinside]
    exact h.kept

/-- **The turn is handed over**: for any limits, any number of threads and any spurious wake-ups, in every
run. -/
theorem altLock_handsOver {s : AltConfig τ × List TurnEvent}
    (h : ((altMachine τ spurious maxReaders maxWriters).recording turnEvents).Reachable s) :
    HandsOver s.2 := by
  have hinv : TurnInv maxReaders maxWriters s.1 s.2 := by
    apply h.invariant (I := fun s : AltConfig τ × List TurnEvent =>
      TurnInv maxReaders maxWriters s.1 s.2)
    · intro s hs
      rw [hs.2]
      exact .init hs.1
    · intro s a s' hinv _ hstep
      obtain ⟨hstep, hlog⟩ := Machine.step_of_recording hstep
      rw [hlog]
      cases a with
      | run t x picks =>
          obtain ⟨notes, st, hran⟩ := Program.ran_of_step hstep
          exact hinv.step hran
      | spurious t =>
          obtain ⟨-, c, l, hw, hs'⟩ := Program.spurious_of_step hstep
          rw [show turnEvents s.1 (.spurious t) s'.1 = [] from rfl, List.append_nil, hs']
          exact hinv.woken hw
  exact handsOver_of_eachAfter hinv.right

/-- A writer waits when the last reader leaves.  The reader comes back before the writer has resumed, and
has to wait until the writer was in. -/
theorem altLock_handsOver_trace :
    ∃ s : AltConfig Bool × List TurnEvent, HandsOver s.2 ∧
      s.2 = [.granted .reader, .handOver .reader, .granted .writer, .handOver .writer,
        .granted .reader] := by
  have hrun : (((altMachine Bool true 2 1).recording turnEvents).exec (startConfig Bool 2 1, [])
      [.run false .reader [], .run true .writer [], .run false .reader [], .run false .reader [],
        .run true .writer [], .spurious false, .run false .reader [], .run true .writer [],
        .run false .reader []]).holds (fun s =>
        decide (s.2 = [.granted .reader, .handOver .reader, .granted .writer, .handOver .writer,
          .granted .reader])) = true := by
    decide +kernel
  obtain ⟨s, hs, hp⟩ := Machine.exists_reachable_of_exec
    (Machine.recording_init startConfig_init) hrun
  exact ⟨s, altLock_handsOver hs, of_decide_eq_true hp⟩

end AltLock
end MultithreadingBible
