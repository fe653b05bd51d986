import MultithreadingBible.TrafficLight.Vehicles

/-!
# A traffic light: who waits at a light that is not red

A vehicle is exposed from the test that finds the red light on until it is notified in its wait.
While the red light of its direction is on this is right.  The controller turns it off for yellow
without a broadcast, and for green with one, which reaches the vehicles in the wait but none between
its test and its wait.

* `careful` — the steps of the controller that do not leave a vehicle behind.
* `trLight_red` — in runs of careful steps vehicles wait at red lights only.
* `trLight_notRed` — the two ways in which others end.
-/

namespace MultithreadingBible
namespace TrafficLight

open Lib MapReduceLib

variable {τ : Type*} {thDirn : τ → Dirn} {spurious : Bool}
  {s s' : TrConfig τ} {v : τ} {p : Option τ} {x : Dirn × TrLightCol} {notes : List (Note Dirn)}
  {st : Status Dirn TrLoc}

section Conditions

variable [Fintype τ]

/-- No vehicle of direction `d` is between a test that found the red light on and its wait. -/
def noneLate (thDirn : τ → Dirn) (s : TrConfig τ) (d : Dirn) : Bool :=
  decide (∀ v, thDirn v = d → (s.thr (some v)).loc.late = false)

/-- No vehicle of direction `d` is blocked without having been notified. -/
def noneBlocked (thDirn : τ → Dirn) (s : TrConfig τ) (d : Dirn) : Bool :=
  decide (∀ v, thDirn v = d → (s.thr (some v)).isWaiting = false)

/-- The red light of a face is turned off for yellow only where no vehicle is blocked.  When it is
turned off for yellow, and when the broadcast for green is sent or not needed, no vehicle is late,
for which `EAST` sees itself.  A broadcast is not taken to be needless because `thread_wait_count`
has wrapped around. -/
def careful (thDirn : τ → Dirn) (s : TrConfig τ) : Act (Option τ) (Dirn × TrLightCol) → Bool
  | .run none _ _ =>
      match (s.thr none).loc with
      | .set d .yellow .red => noneBlocked thDirn s d && (d == .east || noneLate thDirn s d)
      | .check d =>
          (d == .east || noneLate thDirn s d) &&
            (waiters thDirn s d == 0 || waiters thDirn s d % 2 ^ 32 != 0)
      | .wake d => d == .east || noneLate thDirn s d
      | _ => true
  | _ => true

end Conditions

/-- A vehicle that found the red light on and was not notified. -/
def Exposed (s : TrConfig τ) (v : τ) : Prop :=
  (s.thr (some v)).isWaiting = true ∨ (s.thr (some v)).loc.late = true

/-- The controller has turned off the red light of `d` for green, and its broadcast is still to come. -/
def TrLoc.greening (d : Dirn) : TrLoc → Bool
  | .set e .green .yellow | .set e .green .green | .check e | .wake e => e == d
  | _ => false

/-- Exposed vehicles are at a red light, or the broadcast for them is still to come. -/
def ExposedOk (thDirn : τ → Dirn) (s : TrConfig τ) : Prop :=
  ∀ v, Exposed s v → (s.mem (thDirn v)).light .red = true ∨
    (s.thr none).loc.greening (thDirn v) = true

theorem ExposedOk.init : ExposedOk thDirn (freshLight τ) := by
  intro v h
  rcases h with h | h
  · cases h
  · cases h

section Vehicles

variable [DecidableEq τ]

/-- A vehicle that becomes exposed has seen the red light. -/
theorem exposed_vehicle (hran : (trProgram thDirn spurious).Ran s (some v) x s' notes st)
    (h : Exposed s' v) : Exposed s v ∨ (s.mem (thDirn v)).light .red = true := by
  have hself := hran.self
  obtain ⟨hmove, -⟩ := vehicleMove_of_ran hran
  unfold Exposed at h ⊢
  rw [hself] at h
  generalize (s.thr (some v)).loc = l at hmove ⊢
  generalize s'.mem = m' at hmove
  cases hmove with
  | test hfree =>
      rcases h with h | h
      · cases h
      · exact .inr h
  | cache shouldBlock =>
      cases shouldBlock with
      | false => rcases h with h | h <;> cases h
      | true => exact .inl (.inr rfl)
  | count => exact .inl (.inr rfl)
  | sleep hmutex => exact .inl (.inr rfl)
  | resume hfree => rcases h with h | h <;> cases h
  | retest =>
      cases hred : (s.mem (thDirn v)).light .red with
      | false =>
          rw [hred] at h
          rcases h with h | h <;> cases h
      | true => exact .inr rfl
  | unlock hmutex => rcases h with h | h <;> cases h

/-- A vehicle that has not moved was exposed before if it is. -/
theorem exposed_of_ne (hran : (trProgram thDirn spurious).Ran s p x s' notes st) (hp : some v ≠ p)
    (h : Exposed s' v) : Exposed s v := by
  rcases h with hw | hlate
  · obtain ⟨c, l, hthr⟩ := Status.isWaiting_iff.mp hw
    left
    rw [hran.waiting_of_ne hp hthr]
    rfl
  · right
    rwa [hran.loc_of_ne hp] at hlate

/-- The lights are the controller's. -/
theorem light_vehicle (hran : (trProgram thDirn spurious).Ran s (some v) x s' notes st) (d : Dirn) :
    (s'.mem d).light = (s.mem d).light := by
  obtain ⟨hmove, -⟩ := vehicleMove_of_ran hran
  generalize (s.thr (some v)).loc = l at hmove
  generalize s'.mem = m' at hmove
  cases hmove with
  | test hfree => exact setMutex_light ..
  | cache shouldBlock => exact setQueue_light ..
  | count => exact setQueue_light ..
  | sleep hmutex => exact setMutex_light ..
  | resume hfree => rw [setQueue_light, setMutex_light]
  | retest => rfl
  | unlock hmutex => exact setMutex_light ..

/-- A step of a vehicle. -/
theorem ExposedOk.vehicle (h : ExposedOk thDirn s)
    (hran : (trProgram thDirn spurious).Ran s (some v) x s' notes st) : ExposedOk thDirn s' := by
  intro u hu
  have hcontroller : (s'.thr none).loc = (s.thr none).loc := hran.loc_of_ne (by simp)
  rw [light_vehicle hran, hcontroller]
  by_cases huv : u = v
  · subst huv
    rcases exposed_vehicle hran hu with hbefore | hred
    · exact h u hbefore
    · exact .inl hred
  · exact h u (exposed_of_ne hran (fun heq => huv (Option.some.inj heq)) hu)

/-- A vehicle that wakes up is not exposed any more. -/
theorem ExposedOk.woken (h : ExposedOk thDirn s) {c : Dirn} {l : TrLoc} (hw : s.thr p = .waiting c l) :
    ExposedOk thDirn (⟨s.mem, Function.update s.thr p (.notified c l)⟩ : TrConfig τ) := by
  intro v hv
  rw [loc_update_notified hw]
  apply h v
  rcases hv with hwaiting | hlate
  · obtain ⟨c', l', hthr⟩ := Status.isWaiting_iff.mp hwaiting
    left
    rw [waiting_of_update_notified hthr]
    rfl
  · right
    rwa [loc_update_notified hw] at hlate

end Vehicles

section Controller

variable [Fintype τ]

/-- The vehicles of `EAST` are not late while the controller changes their light. -/
theorem TrInv.noneLate_east (h : TrInv thDirn s) (hl : (s.thr none).loc.holdsEast = true) :
    ∀ v, (s.thr (some v)).loc.late = false := by
  intro v
  rw [Bool.eq_false_iff]
  intro hlate
  have hholds : (s.thr (some v)).loc.holdsEast = true := by
    generalize (s.thr (some v)).loc = l at hlate
    cases l <;> first | rfl | cases hlate
  have heq := h.east.eq hl hholds
  cases heq

/-- Where the controller is careful, nobody it can leave behind is late. -/
theorem TrInv.not_late (h : TrInv thDirn s) {d : Dirn}
    (hl : d = .east → (s.thr none).loc.holdsEast = true)
    (hcareful : (d == .east || noneLate thDirn s d) = true) (hv : thDirn v = d) :
    (s.thr (some v)).loc.late = false := by
  rcases Bool.or_eq_true_iff.mp hcareful with heast | hnone
  · exact h.noneLate_east (hl (eq_of_beq heast)) v
  · exact of_decide_eq_true hnone v hv

/-- A broadcast is not taken to be needless while a vehicle waits for it. -/
theorem TrInv.broadcast_ne_nil (h : TrInv thDirn s) (hw : (s.thr (some v)).isWaiting = true)
    (hwrap : (waiters thDirn s (thDirn v) == 0 ||
      waiters thDirn s (thDirn v) % 2 ^ 32 != 0) = true) :
    waitQueueBroadcast (s.mem (thDirn v)).wq (thDirn v) ≠ [] := by
  obtain ⟨c, l, hthr⟩ := Status.isWaiting_iff.mp hw
  have hplaced := h.vehicle v
  rw [hthr] at hplaced
  have hloc : (s.thr (some v)).loc = .wait .east := by
    rw [hthr]
    exact hplaced.2
  have hpos : 0 < waiters thDirn s (thDirn v) := by
    apply Finset.card_pos.mpr
    exact ⟨v, Finset.mem_filter.mpr ⟨Finset.mem_univ v, rfl, by rw [hloc]; rfl⟩⟩
  have hcount : (s.mem (thDirn v)).wq.threadWaitCount ≠ 0 := by
    rw [h.count]
    rcases Bool.or_eq_true_iff.mp hwrap with hzero | hne
    · exact absurd (eq_of_beq hzero) (Nat.ne_of_gt hpos)
    · exact bne_iff_ne.mp hne
  have hcached := h.cached v (by rw [hloc]; rfl)
  rw [waitQueueBroadcast_eq _ (by rw [hcached]; rfl) hcount]
  exact List.cons_ne_nil _ _

variable [DecidableEq τ]

/-- A careful step of the controller. -/
theorem ExposedOk.controller (h : ExposedOk thDirn s) (hinv : TrInv thDirn s)
    (hran : (trProgram thDirn spurious).Ran s none x s' notes st) {picks : List (Option (Option τ))}
    (hc : careful thDirn s (.run none x picks) = true) : ExposedOk thDirn s' := by
  intro u hu
  have hbefore := exposed_of_ne hran (by simp) hu
  have hok := h u hbefore
  have hlate := fun d hl hcareful => hinv.not_late (d := d) (v := u) hl hcareful
  have hblocked := fun c hw => hran.broadcast (c := c) (u := some u) hw (by simp)
  obtain ⟨l', hself, hmove⟩ := controllerMove_of_ran hran
  rw [show (s'.thr none).loc = l' by rw [hself]; rfl]
  unfold careful at hc
  dsimp only at hc
  generalize (s.thr none).loc = l at hmove hok hc hlate
  generalize s'.mem = m' at hmove
  cases hmove with
  | choose d col hfree =>
      rw [setMutex_light]
      exact .inl (hok.resolve_right Bool.false_ne_true)
  | light d col colIt hnot =>
      cases colIt with
      | red =>
          have hred := hok.resolve_right (by cases col <;> exact Bool.false_ne_true)
          by_cases hd : thDirn u = d
          · subst hd
            rw [setLight_light_self]
            cases col with
            | red => exact .inl rfl
            | yellow =>
                -- nobody of this direction is exposed
                obtain ⟨hnone, hcareful⟩ := Bool.and_eq_true_iff.mp hc
                exfalso
                rcases hbefore with hw | hl
                · rw [of_decide_eq_true hnone u rfl] at hw
                  cases hw
                · rw [hlate _ (fun heast => beq_iff_eq.mpr heast) hcareful rfl] at hl
                  cases hl
            | green => exact .inr (beq_self_eq_true _)
          · rw [setLight_light_of_ne _ _ _ _ _ (.inl hd)]
            exact .inl hred
      | yellow =>
          rw [setLight_light_of_ne _ _ _ _ _ (.inr (by simp))]
          cases col with
          | red => exact .inl (hok.resolve_right Bool.false_ne_true)
          | yellow => exact .inl (hok.resolve_right Bool.false_ne_true)
          | green => exact hok
      | green =>
          rw [setLight_light_of_ne _ _ _ _ _ (.inr (by simp))]
          cases col with
          | red => exact .inl (hok.resolve_right Bool.false_ne_true)
          | yellow => exact .inl (hok.resolve_right Bool.false_ne_true)
          | green => exact absurd ⟨rfl, rfl⟩ hnot
  | green d =>
      rw [setLight_light_of_ne _ _ _ _ _ (.inr (by simp))]
      exact hok
  | skip d hnone =>
      refine hok.imp_right fun hgreen => ?_
      have hd : d = thDirn u := eq_of_beq hgreen
      subst hd
      obtain ⟨hcareful, hwrap⟩ := Bool.and_eq_true_iff.mp hc
      exfalso
      rcases hbefore with hw | hl
      · exact hinv.broadcast_ne_nil hw hwrap hnone
      · rw [hlate _ (fun heast => beq_iff_eq.mpr heast) hcareful rfl] at hl
        cases hl
  | check d => exact hok
  | wake d =>
      refine hok.imp_right fun hgreen => ?_
      have hd : d = thDirn u := eq_of_beq hgreen
      subst hd
      exfalso
      rcases hu with hw | hl
      · -- the broadcast has reached everybody who waits at this face
        obtain ⟨c, l, hthr⟩ := Status.isWaiting_iff.mp hw
        have hplaced := (hinv.step hran).vehicle u
        rw [hthr] at hplaced
        rw [show c = thDirn u from hplaced.1] at hthr
        exact hblocked (thDirn u) (List.mem_singleton_self _) l hthr
      · rw [hran.loc_of_ne (by simp)] at hl
        rw [hlate _ (fun heast => beq_iff_eq.mpr heast) hc rfl] at hl
        cases hl
  | finish d =>
      rw [setMutex_light]
      exact .inl (hok.resolve_right Bool.false_ne_true)

end Controller

end TrafficLight
end MultithreadingBible
