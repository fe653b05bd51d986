import MultithreadingBible.Lib.Ownership
import MultithreadingBible.TrafficLight.Machine

/-!
# A traffic light: the mutex of `EAST` and the queues

* `VehicleMove` / `ControllerMove` — everything a step can do.
* `TrInv` — who has the mutex of `EAST`, and what `thread_wait_count` of a face counts: the vehicles
  of its direction around the wait, up to wrapping around.  It holds in every run
  (`trInv_reachable`).
-/

namespace MultithreadingBible
namespace TrafficLight

open Lib MapReduceLib

variable {τ : Type*} {thDirn : τ → Dirn}

/-- Everything a vehicle can do. -/
inductive VehicleMove (v : τ) (d : Dirn) (m : TrLight τ) :
    TrLoc → TrLight τ → Status Dirn TrLoc → Prop
  | test (hfree : (m .east).mutex = none) : VehicleMove v d m .drive
      (setMutex m .east (some (some v))) (.running (.tested ((m d).light .red)))
  | cache (shouldBlock : Bool) : VehicleMove v d m (.tested shouldBlock)
      (setQueue m d ((m d).wq.cacheMutex .east)) (.running (if shouldBlock then .count else .cross))
  | count : VehicleMove v d m .count (setQueue m d (m d).wq.countUp) (.running .counted)
  | sleep {mutex : Dirn} (hmutex : (m d).wq.applnMutex = some mutex) : VehicleMove v d m .counted
      (setMutex m mutex none) (.waiting d (.wait mutex))
  | resume {mutex : Dirn} (hfree : (m mutex).mutex = none) : VehicleMove v d m (.wait mutex)
      (setQueue (setMutex m mutex (some (some v))) d (m d).wq.countDown) (.running .retest)
  | retest : VehicleMove v d m .retest m (.running (if (m d).light .red then .count else .cross))
  | unlock {mutex : Dirn} (hmutex : (m d).wq.applnMutex = some mutex) : VehicleMove v d m .cross
      (setMutex m mutex none) (.running .drive)

/-- Everything the controller can do. -/
inductive ControllerMove (m : TrLight τ) :
    TrLoc → TrLight τ → List (Note Dirn) → TrLoc → Prop
  | choose (d : Dirn) (col : TrLightCol) (hfree : (m d).mutex = none) : ControllerMove m .menu
      (setMutex m d (some none)) [] (.set d col .red)
  | light (d : Dirn) (col colIt : TrLightCol) (h : ¬ (colIt = .green ∧ col = .green)) :
      ControllerMove m (.set d col colIt) (setLight m d colIt (colIt == col)) [] (nextCol d col colIt)
  | green (d : Dirn) : ControllerMove m (.set d .green .green) (setLight m d .green true) [] (.check d)
  | skip (d : Dirn) (h : waitQueueBroadcast (m d).wq d = []) :
      ControllerMove m (.check d) m [] (.done d)
  | check (d : Dirn) : ControllerMove m (.check d) m [] (.wake d)
  | wake (d : Dirn) : ControllerMove m (.wake d) m [.broadcast d] (.done d)
  | finish (d : Dirn) : ControllerMove m (.done d) (setMutex m d none) [] .menu

section Moves

variable {v : τ} {d : Dirn} {l : TrLoc} {x : Dirn × TrLightCol} {m m' : TrLight τ}
  {notes : List (Note Dirn)} {st : Status Dirn TrLoc}

theorem vehicleMove_of_exec (h : vehicleExec v d l m = .done m' notes st) :
    notes = [] ∧ VehicleMove v d m l m' st := by
  cases l with
  | drive =>
      unfold vehicleExec at h
      dsimp only at h
      split at h
      · cases h
      · next hfree =>
        cases h
        exact ⟨rfl, .test hfree⟩
  | tested shouldBlock =>
      cases h
      exact ⟨rfl, .cache shouldBlock⟩
  | count =>
      cases h
      exact ⟨rfl, .count⟩
  | counted =>
      obtain ⟨mutex, hmutex, h⟩ := Effect.call_eq_done.mp h
      cases h
      exact ⟨rfl, .sleep hmutex⟩
  | wait mutex =>
      unfold vehicleExec at h
      dsimp only at h
      split at h
      · cases h
      · next hfree =>
        cases h
        rw [setMutex_wq]
        exact ⟨rfl, .resume hfree⟩
  | retest =>
      cases h
      exact ⟨rfl, .retest⟩
  | cross =>
      obtain ⟨mutex, hmutex, h⟩ := Effect.call_eq_done.mp h
      cases h
      exact ⟨rfl, .unlock hmutex⟩
  | menu => cases h
  | set d col colIt => cases h
  | check d => cases h
  | wake d => cases h
  | done d => cases h

/-- A pass through the loop other than that for the green light that is turned on. -/
theorem trLightSetStatus_eq {col colIt : TrLightCol} (h : ¬ (colIt = .green ∧ col = .green)) :
    trLightSetStatus d col colIt m = (setLight m d colIt (colIt == col), nextCol d col colIt) := by
  by_cases hcol : colIt = col
  · subst hcol
    have hne : colIt ≠ .green := fun hg => h ⟨hg, hg⟩
    simp [trLightSetStatus, hne]
  · rw [beq_false_of_ne hcol]
    simp [trLightSetStatus, hcol]

theorem controllerMove_of_exec (h : controllerExec l x m = .done m' notes st) :
    ∃ l', st = .running l' ∧ ControllerMove m l m' notes l' := by
  cases l with
  | menu =>
      unfold controllerExec at h
      dsimp only at h
      split at h
      · cases h
      · next hfree =>
        cases h
        exact ⟨_, rfl, .choose x.1 x.2 hfree⟩
  | set d col colIt =>
      have hexec : controllerExec (.set d col colIt) x m =
          .done (trLightSetStatus d col colIt m).1 []
            (.running (trLightSetStatus d col colIt m).2) := rfl
      by_cases hgreen : colIt = .green ∧ col = .green
      · obtain ⟨rfl, rfl⟩ := hgreen
        cases h
        exact ⟨_, rfl, .green d⟩
      · rw [hexec, trLightSetStatus_eq hgreen] at h
        cases h
        exact ⟨_, rfl, .light d col colIt hgreen⟩
  | check d =>
      unfold controllerExec at h
      dsimp only at h
      split at h
      · next hempty =>
        cases h
        exact ⟨_, rfl, .skip d (List.isEmpty_iff.mp hempty)⟩
      · cases h
        exact ⟨_, rfl, .check d⟩
  | wake d =>
      cases h
      exact ⟨_, rfl, .wake d⟩
  | done d =>
      cases h
      exact ⟨_, rfl, .finish d⟩
  | drive => cases h
  | tested b => cases h
  | count => cases h
  | counted => cases h
  | wait mutex => cases h
  | retest => cases h
  | cross => cases h

end Moves

/-- Who has the mutex of `EAST`. -/
def TrLoc.holdsEast : TrLoc → Bool
  | .tested _ | .count | .counted | .retest | .cross => true
  | .set d _ _ | .check d | .wake d | .done d => d == .east
  | _ => false

/-- Vehicles that `thread_wait_count` counts. -/
def TrLoc.counts : TrLoc → Bool
  | .counted | .wait _ => true
  | _ => false

/-- Vehicles that found the red light on and are not in the wait yet. -/
def TrLoc.late : TrLoc → Bool
  | .tested shouldBlock => shouldBlock
  | .count | .counted => true
  | _ => false

/-- Vehicles that have cached the mutex. -/
def TrLoc.cached : TrLoc → Bool
  | .count | .counted | .wait _ | .retest | .cross => true
  | _ => false

/-- Locations of the controller. -/
def TrLoc.isController : TrLoc → Bool
  | .menu | .set _ _ _ | .check _ | .wake _ | .done _ => true
  | _ => false

/-- Where a vehicle of direction `d` can be. -/
def VehiclePlaced (d : Dirn) : Status Dirn TrLoc → Prop
  | .running l => l.isController = false ∧ ∀ mutex, l ≠ .wait mutex
  | .waiting c l => c = d ∧ l = .wait .east
  | .notified c l => c = d ∧ l = .wait .east

/-- A vehicle that is notified stays in its wait. -/
theorem VehiclePlaced.wake {d c : Dirn} {l : TrLoc} (h : VehiclePlaced d (.waiting c l)) :
    VehiclePlaced d (.notified c l) := h

section Invariant

variable {spurious : Bool} {s s' : TrConfig τ} {v : τ} {p : Option τ} {x : Dirn × TrLightCol}
  {notes : List (Note Dirn)} {st : Status Dirn TrLoc}

variable [DecidableEq τ]

/-- A vehicle's step is one of its moves, and tells nobody. -/
theorem vehicleMove_of_ran (hran : (trProgram thDirn spurious).Ran s (some v) x s' notes st) :
    VehicleMove v (thDirn v) s.mem (s.thr (some v)).loc s'.mem st ∧
      s'.thr = Function.update s.thr (some v) st := by
  have hexec : vehicleExec v (thDirn v) (s.thr (some v)).loc s.mem = .done s'.mem notes st :=
    hran.exec
  obtain ⟨rfl, hmove⟩ := vehicleMove_of_exec hexec
  exact ⟨hmove, hran.thr_of_nil⟩

/-- A step of the controller is one of its moves. -/
theorem controllerMove_of_ran (hran : (trProgram thDirn spurious).Ran s none x s' notes st) :
    ∃ l', s'.thr none = .running l' ∧ ControllerMove s.mem (s.thr none).loc s'.mem notes l' := by
  have hexec : controllerExec (s.thr none).loc x s.mem = .done s'.mem notes st := hran.exec
  obtain ⟨l', hst, hmove⟩ := controllerMove_of_exec hexec
  exact ⟨l', hran.self.trans hst, hmove⟩

/-- The controller does not touch the fields of the queues. -/
theorem wq_controller (hran : (trProgram thDirn spurious).Ran s none x s' notes st) (d : Dirn) :
    (s'.mem d).wq = (s.mem d).wq := by
  obtain ⟨l', -, hmove⟩ := controllerMove_of_ran hran
  generalize (s.thr none).loc = l at hmove
  generalize s'.mem = m' at hmove
  cases hmove with
  | choose e col hfree => exact setMutex_wq ..
  | light e col colIt hnot => exact setLight_wq ..
  | green e => exact setLight_wq ..
  | skip e hnone => rfl
  | check e => rfl
  | wake e => rfl
  | finish e => exact setMutex_wq ..

/-- A vehicle does not touch the queues of the other faces. -/
theorem wq_vehicle_of_ne (hran : (trProgram thDirn spurious).Ran s (some v) x s' notes st) {d : Dirn}
    (hd : d ≠ thDirn v) : (s'.mem d).wq = (s.mem d).wq := by
  obtain ⟨hmove, -⟩ := vehicleMove_of_ran hran
  generalize (s.thr (some v)).loc = l at hmove
  generalize s'.mem = m' at hmove
  cases hmove with
  | test hfree => exact setMutex_wq ..
  | cache shouldBlock => exact setQueue_wq_of_ne _ _ _ _ hd
  | count => exact setQueue_wq_of_ne _ _ _ _ hd
  | sleep hmutex => exact setMutex_wq ..
  | resume hfree => rw [setQueue_wq_of_ne _ _ _ _ hd, setMutex_wq]
  | retest => rfl
  | unlock hmutex => exact setMutex_wq ..

/-- The mutex a queue has cached after a vehicle has moved. -/
theorem applnMutex_vehicle (hran : (trProgram thDirn spurious).Ran s (some v) x s' notes st) (d : Dirn) :
    (s'.mem d).wq.applnMutex = (s.mem d).wq.applnMutex ∨
      (s'.mem d).wq.applnMutex = some .east := by
  by_cases hd : d = thDirn v
  · subst hd
    obtain ⟨hmove, -⟩ := vehicleMove_of_ran hran
    generalize (s.thr (some v)).loc = l at hmove
    generalize s'.mem = m' at hmove
    cases hmove with
    | test hfree => rw [setMutex_wq]; exact .inl rfl
    | cache shouldBlock => rw [setQueue_wq_self]; exact .inr rfl
    | count => rw [setQueue_wq_self]; exact .inl rfl
    | sleep hmutex => rw [setMutex_wq]; exact .inl rfl
    | resume hfree => rw [setQueue_wq_self]; exact .inl rfl
    | retest => exact .inl rfl
    | unlock hmutex => rw [setMutex_wq]; exact .inl rfl
  · rw [wq_vehicle_of_ne hran hd]
    exact .inl rfl

/-- The controller stays in its loop. -/
theorem isController_step (hran : (trProgram thDirn spurious).Ran s none x s' notes st) :
    ∃ l, s'.thr none = .running l ∧ l.isController = true := by
  obtain ⟨l', hself, hmove⟩ := controllerMove_of_ran hran
  refine ⟨l', hself, ?_⟩
  generalize (s.thr none).loc = l at hmove
  generalize s'.mem = m' at hmove
  cases hmove with
  | choose d col hfree => rfl
  | light d col colIt hnot => cases colIt <;> rfl
  | green d => rfl
  | skip d hnone => rfl
  | check d => rfl
  | wake d => rfl
  | finish d => rfl

variable [Fintype τ]

/-- How many vehicles of direction `d` the queue of its face counts. -/
def waiters (thDirn : τ → Dirn) (s : TrConfig τ) (d : Dirn) : Nat :=
  (Finset.univ.filter fun v => thDirn v = d ∧ (s.thr (some v)).loc.counts = true).card

/-- What holds in every run. -/
structure TrInv (thDirn : τ → Dirn) (s : TrConfig τ) : Prop where
  controller : ∃ l, s.thr none = .running l ∧ l.isController = true
  vehicle : ∀ v, VehiclePlaced (thDirn v) (s.thr (some v))
  east : HeldBy (s.mem .east).mutex fun p => (s.thr p).loc.holdsEast = true
  mutex : ∀ d mutex, (s.mem d).wq.applnMutex = some mutex → mutex = .east
  cached : ∀ v, (s.thr (some v)).loc.cached = true → (s.mem (thDirn v)).wq.applnMutex = some .east
  count : ∀ d, (s.mem d).wq.threadWaitCount = waiters thDirn s d % 2 ^ 32

omit [DecidableEq τ] in
theorem TrInv.init : TrInv thDirn (freshLight τ) where
  controller := ⟨.menu, rfl, rfl⟩
  vehicle v := ⟨rfl, fun mutex h => by cases h⟩
  east := by
    intro p
    refine iff_of_false (fun h => by cases h) fun h => ?_
    cases p <;> cases h
  mutex d mutex h := by cases h
  cached v h := by cases h
  count d := by
    have hzero : waiters thDirn (freshLight τ) d = 0 := by
      apply Finset.card_eq_zero.mpr
      apply Finset.filter_eq_empty_iff.mpr
      rintro v - ⟨-, h⟩
      cases h
    rw [hzero]
    rfl

/-- The number of counted vehicles of a direction after one of them has moved. -/
theorem waiters_update (thDirn : τ → Dirn) (hthr : s'.thr = Function.update s.thr (some v) st) :
    waiters thDirn s' (thDirn v) + (s.thr (some v)).loc.counts.toNat =
      waiters thDirn s (thDirn v) + st.loc.counts.toNat := by
  have hstep := card_filter_step
    (fun u => thDirn u = thDirn v ∧ (s.thr (some u)).loc.counts = true)
    (fun u => thDirn u = thDirn v ∧ (s'.thr (some u)).loc.counts = true) v (fun u hu => by
      rw [hthr, Function.update_of_ne fun h => hu (Option.some.inj h)])
  rw [show (s'.thr (some v)).loc = st.loc by rw [hthr, Function.update_self]] at hstep
  have hnat : ∀ b : Bool, (if thDirn v = thDirn v ∧ b = true then 1 else 0) = b.toNat := by
    intro b
    cases b <;> simp
  rwa [hnat, hnat] at hstep

/-- The vehicles of the other directions have not moved. -/
theorem waiters_update_of_ne (hthr : s'.thr = Function.update s.thr (some v) st) {d : Dirn}
    (hd : d ≠ thDirn v) : waiters thDirn s' d = waiters thDirn s d := by
  unfold waiters
  congr 1
  ext u
  rw [Finset.mem_filter, Finset.mem_filter]
  by_cases hu : u = v
  · subst hu
    simp [hd.symm]
  · rw [hthr, Function.update_of_ne fun h => hu (Option.some.inj h)]

omit [DecidableEq τ] in
/-- Where no vehicle moves the same vehicles are counted. -/
theorem waiters_congr (hloc : ∀ v, (s'.thr (some v)).loc = (s.thr (some v)).loc) (d : Dirn) :
    waiters thDirn s' d = waiters thDirn s d := by
  unfold waiters
  simp only [hloc]

omit [DecidableEq τ] in
/-- A vehicle in the wait has the mutex of `EAST` to lock. -/
theorem TrInv.wait_east (h : TrInv thDirn s) {mutex : Dirn}
    (hl : (s.thr (some v)).loc = .wait mutex) : mutex = .east := by
  have hp := h.vehicle v
  cases hthr : s.thr (some v) with
  | running l =>
      rw [hthr] at hp hl
      exact absurd hl (hp.2 mutex)
  | waiting c l =>
      rw [hthr] at hp hl
      rw [show l = .wait .east from hp.2] at hl
      cases hl
      rfl
  | notified c l =>
      rw [hthr] at hp hl
      rw [show l = .wait .east from hp.2] at hl
      cases hl
      rfl

/-- The mutex of `EAST` after a vehicle has moved. -/
theorem TrInv.east_vehicle (h : TrInv thDirn s)
    (hran : (trProgram thDirn spurious).Ran s (some v) x s' notes st) :
    HeldBy (s'.mem .east).mutex fun p => (s'.thr p).loc.holdsEast = true := by
  obtain ⟨hmove, hthr⟩ := vehicleMove_of_ran hran
  have hheld := h.east
  have hother : ∀ p, p ≠ some v →
      ((s'.thr p).loc.holdsEast = true ↔ (s.thr p).loc.holdsEast = true) := by
    intro p hp
    rw [hthr, Function.update_of_ne hp]
  have hself : (s'.thr (some v)).loc = st.loc := by rw [hthr, Function.update_self]
  have hkeep : st.loc.holdsEast = (s.thr (some v)).loc.holdsEast →
      ∀ p, (s'.thr p).loc.holdsEast = true ↔ (s.thr p).loc.holdsEast = true := by
    intro hsame p
    by_cases hp : p = some v
    · rw [hp, hself, hsame]
    · exact hother p hp
  have hwait : ∀ mutex, (s.thr (some v)).loc = .wait mutex → mutex = .east :=
    fun mutex => h.wait_east
  generalize hl : (s.thr (some v)).loc = l at hmove hwait hkeep
  generalize hm : s'.mem = m' at hmove
  cases hmove with
  | test hfree =>
      rw [setMutex_mutex_self]
      rw [hfree] at hheld
      exact hheld.acquire (by rw [hself]; rfl) hother
  | cache shouldBlock =>
      rw [setQueue_mutex]
      refine hheld.keep (hkeep ?_)
      cases shouldBlock <;> rfl
  | count =>
      rw [setQueue_mutex]
      exact hheld.keep (hkeep rfl)
  | sleep hmutex =>
      rw [h.mutex _ _ hmutex, setMutex_mutex_self]
      exact hheld.release (i := some v) (by rw [hl]; rfl) (by rw [hself]; exact Bool.false_ne_true)
        hother
  | resume hfree =>
      have heast := hwait _ rfl
      subst heast
      rw [setQueue_mutex, setMutex_mutex_self]
      rw [hfree] at hheld
      exact hheld.acquire (by rw [hself]; rfl) hother
  | retest =>
      refine hheld.keep (hkeep ?_)
      cases (s.mem (thDirn v)).light .red <;> rfl
  | unlock hmutex =>
      rw [h.mutex _ _ hmutex, setMutex_mutex_self]
      exact hheld.release (i := some v) (by rw [hl]; rfl) (by rw [hself]; exact Bool.false_ne_true)
        hother

/-- The mutex of `EAST` after the controller has moved. -/
theorem TrInv.east_controller (h : TrInv thDirn s)
    (hran : (trProgram thDirn spurious).Ran s none x s' notes st) :
    HeldBy (s'.mem .east).mutex fun p => (s'.thr p).loc.holdsEast = true := by
  obtain ⟨l', hself, hmove⟩ := controllerMove_of_ran hran
  have hheld := h.east
  have hother : ∀ p, p ≠ none →
      ((s'.thr p).loc.holdsEast = true ↔ (s.thr p).loc.holdsEast = true) := by
    intro p hp
    rw [hran.loc_of_ne hp]
  have hself : (s'.thr none).loc = l' := by rw [hself]; rfl
  have hkeep : l'.holdsEast = (s.thr none).loc.holdsEast →
      ∀ p, (s'.thr p).loc.holdsEast = true ↔ (s.thr p).loc.holdsEast = true := by
    intro hsame p
    by_cases hp : p = none
    · rw [hp, hself, hsame]
    · exact hother p hp
  generalize hl : (s.thr none).loc = l at hmove hkeep
  generalize hm : s'.mem = m' at hmove
  cases hmove with
  | choose d col hfree =>
      by_cases hd : d = .east
      · subst hd
        rw [setMutex_mutex_self]
        rw [hfree] at hheld
        exact hheld.acquire (by rw [hself]; rfl) hother
      · rw [setMutex_mutex_of_ne _ _ _ _ (Ne.symm hd)]
        exact hheld.keep (hkeep (beq_false_of_ne hd))
  | light d col colIt hnot =>
      rw [setLight_mutex]
      refine hheld.keep (hkeep ?_)
      cases colIt <;> rfl
  | green d =>
      rw [setLight_mutex]
      exact hheld.keep (hkeep rfl)
  | skip d hnone => exact hheld.keep (hkeep rfl)
  | check d => exact hheld.keep (hkeep rfl)
  | wake d => exact hheld.keep (hkeep rfl)
  | finish d =>
      by_cases hd : d = .east
      · subst hd
        rw [setMutex_mutex_self]
        exact hheld.release (i := none) (by rw [hl]; rfl)
          (by rw [hself]; exact Bool.false_ne_true) hother
      · rw [setMutex_mutex_of_ne _ _ _ _ (Ne.symm hd)]
        exact hheld.keep (hkeep (beq_false_of_ne hd).symm)

/-- A vehicle that has cached the mutex knows it. -/
theorem TrInv.cached_vehicle (h : TrInv thDirn s)
    (hran : (trProgram thDirn spurious).Ran s (some v) x s' notes st) (u : τ)
    (hu : (s'.thr (some u)).loc.cached = true) : (s'.mem (thDirn u)).wq.applnMutex = some .east := by
  have hkeep : (s.mem (thDirn u)).wq.applnMutex = some .east →
      (s'.mem (thDirn u)).wq.applnMutex = some .east := by
    intro hcached
    rcases applnMutex_vehicle hran (thDirn u) with hsame | heast
    · rw [hsame, hcached]
    · exact heast
  by_cases huv : u = v
  · subst huv
    have hknown := h.cached u
    have hself := hran.self
    obtain ⟨hmove, -⟩ := vehicleMove_of_ran hran
    generalize (s.thr (some u)).loc = l at hmove hknown
    generalize s'.mem = m' at hmove hkeep
    cases hmove with
    | test hfree =>
        rw [hself] at hu
        cases hu
    | cache shouldBlock =>
        rw [setQueue_wq_self]
        rfl
    | count => exact hkeep (hknown rfl)
    | sleep hmutex => exact hkeep (hknown rfl)
    | resume hfree => exact hkeep (hknown rfl)
    | retest => exact hkeep (hknown rfl)
    | unlock hmutex => exact hkeep (hknown rfl)
  · rw [hran.loc_of_ne fun h => huv (Option.some.inj h)] at hu
    exact hkeep (h.cached u hu)

/-- What `thread_wait_count` counts after a vehicle has moved. -/
theorem TrInv.count_vehicle (h : TrInv thDirn s)
    (hran : (trProgram thDirn spurious).Ran s (some v) x s' notes st) (d : Dirn) :
    (s'.mem d).wq.threadWaitCount = waiters thDirn s' d % 2 ^ 32 := by
  obtain ⟨hmove, hthr⟩ := vehicleMove_of_ran hran
  have hcount := h.count d
  by_cases hd : d = thDirn v
  · subst hd
    have hwaiters := waiters_update thDirn hthr
    generalize (s.thr (some v)).loc = l at hmove hwaiters
    generalize s'.mem = m' at hmove
    cases hmove with
    | test hfree =>
        rw [setMutex_wq, hcount]
        exact congrArg (· % 2 ^ 32) hwaiters.symm
    | cache shouldBlock =>
        rw [setQueue_wq_self, cacheMutex_threadWaitCount, hcount]
        cases shouldBlock with
        | false => exact congrArg (· % 2 ^ 32) hwaiters.symm
        | true => exact congrArg (· % 2 ^ 32) hwaiters.symm
    | count =>
        rw [setQueue_wq_self, show waiters thDirn s' _ = waiters thDirn s _ + 1 from hwaiters]
        show Lib.countUp 32 (s.mem (thDirn v)).wq.threadWaitCount = _
        rw [hcount, countUp_mod]
    | sleep hmutex =>
        rw [setMutex_wq, hcount]
        exact congrArg (· % 2 ^ 32) (Nat.succ.inj hwaiters).symm
    | resume hfree =>
        rw [← show waiters thDirn s' _ + 1 = waiters thDirn s _ from hwaiters] at hcount
        rw [setQueue_wq_self]
        show Lib.countDown 32 (s.mem (thDirn v)).wq.threadWaitCount = _
        rw [hcount, countDown_mod]
    | retest =>
        rw [hcount]
        cases hred : (s.mem (thDirn v)).light .red with
        | false =>
            rw [hred] at hwaiters
            exact congrArg (· % 2 ^ 32) hwaiters.symm
        | true =>
            rw [hred] at hwaiters
            exact congrArg (· % 2 ^ 32) hwaiters.symm
    | unlock hmutex =>
        rw [setMutex_wq, hcount]
        exact congrArg (· % 2 ^ 32) hwaiters.symm
  · -- the queues of the other faces count other vehicles
    rw [waiters_update_of_ne hthr hd, wq_vehicle_of_ne hran hd, hcount]

/-- A vehicle stays on its way. -/
theorem TrInv.placed_vehicle (h : TrInv thDirn s)
    (hran : (trProgram thDirn spurious).Ran s (some v) x s' notes st) :
    VehiclePlaced (thDirn v) (s'.thr (some v)) := by
  obtain ⟨hmove, -⟩ := vehicleMove_of_ran hran
  rw [hran.self]
  generalize (s.thr (some v)).loc = l at hmove
  generalize s'.mem = m' at hmove
  have hrunning : ∀ b : Bool, VehiclePlaced (thDirn v)
      (.running (if b = true then TrLoc.count else .cross)) := by
    intro b
    cases b with
    | false => exact ⟨rfl, fun mutex hw => by cases hw⟩
    | true => exact ⟨rfl, fun mutex hw => by cases hw⟩
  cases hmove with
  | test hfree => exact ⟨rfl, fun mutex hw => by cases hw⟩
  | cache shouldBlock => exact hrunning shouldBlock
  | count => exact ⟨rfl, fun mutex hw => by cases hw⟩
  | sleep hmutex => exact ⟨rfl, by rw [h.mutex _ _ hmutex]⟩
  | resume hfree => exact ⟨rfl, fun mutex hw => by cases hw⟩
  | retest => exact hrunning _
  | unlock hmutex => exact ⟨rfl, fun mutex hw => by cases hw⟩

/-- The other vehicles stay where they are. -/
theorem TrInv.placed_of_ne (h : TrInv thDirn s)
    (hran : (trProgram thDirn spurious).Ran s p x s' notes st) (hp : some v ≠ p) :
    VehiclePlaced (thDirn v) (s'.thr (some v)) := by
  have hplaced := h.vehicle v
  rcases hran.other hp with hsame | ⟨c, l, hw, hn, -⟩
  · rw [hsame]
    exact hplaced
  · rw [hw] at hplaced
    rw [hn]
    exact hplaced.wake

/-- **Step lemma**: every step keeps the invariant. -/
theorem TrInv.step (h : TrInv thDirn s)
    (hran : (trProgram thDirn spurious).Ran s p x s' notes st) : TrInv thDirn s' := by
  cases p with
  | some v =>
      refine ⟨?_, fun u => ?_, h.east_vehicle hran, fun d mutex hmutex => ?_, h.cached_vehicle hran,
        h.count_vehicle hran⟩
      · obtain ⟨l, hl, hcontroller⟩ := h.controller
        obtain ⟨-, hthr⟩ := vehicleMove_of_ran hran
        refine ⟨l, ?_, hcontroller⟩
        rw [hthr, Function.update_of_ne (by simp), hl]
      · by_cases hu : some u = some v
        · cases hu
          exact h.placed_vehicle hran
        · exact h.placed_of_ne hran hu
      · rcases applnMutex_vehicle hran d with hsame | heast
        · rw [hsame] at hmutex
          exact h.mutex d mutex hmutex
        · rw [heast] at hmutex
          exact (Option.some.inj hmutex).symm
  | none =>
      have hwq := wq_controller hran
      have hloc : ∀ v, (s'.thr (some v)).loc = (s.thr (some v)).loc := fun v =>
        hran.loc_of_ne (by simp)
      refine ⟨isController_step hran, fun u => h.placed_of_ne hran (by simp), h.east_controller hran,
        fun d mutex hmutex => ?_, fun u hu => ?_, fun d => ?_⟩
      · rw [hwq] at hmutex
        exact h.mutex d mutex hmutex
      · rw [hloc] at hu
        rw [hwq]
        exact h.cached u hu
      · rw [hwq, waiters_congr hloc]
        exact h.count d

/-- A vehicle may wake up without having been notified. -/
theorem TrInv.woken (h : TrInv thDirn s) {c : Dirn} {l : TrLoc} (hw : s.thr p = .waiting c l) :
    TrInv thDirn (⟨s.mem, Function.update s.thr p (.notified c l)⟩ : TrConfig τ) := by
  have hloc := fun q => loc_update_notified hw q
  refine ⟨?_, fun v => ?_, ?_, h.mutex, fun v hv => ?_, fun d => ?_⟩
  · obtain ⟨l', hl, hcontroller⟩ := h.controller
    refine ⟨l', ?_, hcontroller⟩
    have hne : none ≠ p := by
      rintro rfl
      rw [hl] at hw
      cases hw
    show Function.update s.thr p _ none = _
    rw [Function.update_of_ne hne, hl]
  · have hplaced := h.vehicle v
    show VehiclePlaced _ (Function.update s.thr p _ (some v))
    by_cases hv : some v = p
    · rw [hv] at hplaced ⊢
      rw [Function.update_self]
      rw [hw] at hplaced
      exact hplaced.wake
    · rw [Function.update_of_ne hv]
      exact hplaced
  · refine h.east.keep fun q => ?_
    rw [hloc]
  · rw [hloc] at hv
    exact h.cached v hv
  · rw [waiters_congr fun v => hloc (some v)]
    exact h.count d

end Invariant

end TrafficLight
end MultithreadingBible
