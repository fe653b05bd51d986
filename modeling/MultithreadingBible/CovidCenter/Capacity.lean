import MultithreadingBible.CovidCenter.Waiting

/-!
# The capacity of the center

A center may be given another function in the place of `default_next_citizen`, and a wait may end
without a signal.  Neither lets more citizens in than there is room for.

* `OnlyDequeues` — what is asked of that function.
* `capacityMachine` — all runs of the citizens of a center with such a function and spurious wake-ups.
* `CapacityRespected` — the counters count the citizens in the center and stay within the capacities.
-/

namespace MultithreadingBible
namespace CovidCenter

open Lib GlueThread

section NextCitizen

variable {τ χ : Type*} [DecidableEq τ]

/-- The heaps that dequeuing from the waiting lists leads to: the first cell of a list is taken off,
or the cell of a citizen. -/
inductive OnlyDequeues (hp : Heap (CovidAddr τ)) : Heap (CovidAddr τ) → Prop
  | refl : OnlyDequeues hp hp
  | dequeue {hp' : Heap (CovidAddr τ)} (ctype : CitizenType) (h : OnlyDequeues hp hp') :
      OnlyDequeues hp (dequeueGlthreadFirst hp' (.waitingList ctype)).2
  | remove {hp' : Heap (CovidAddr τ)} (u : τ) (h : OnlyDequeues hp hp') :
      OnlyDequeues hp (removeGlthread hp' (.glue u))

/-- The type of `next_citizen`: whom it returns and the lists it leaves.  What else it reads is part
of the input `χ`. -/
abbrev NextCitizen (χ τ : Type*) := χ → CovidMonitor τ → τ → Option τ × Heap (CovidAddr τ)

/-- The signal of `Exit_Covid_Vaccination_Center`. -/
def wakeUpCall (age : τ → UInt8) : Option τ → List (Note CitizenType)
  | none => []
  | some waitingCitizen => [.signal (citizenType (age waitingCitizen))]

/-- `Exit_Covid_Vaccination_Center` of a center with this `next_citizen`. -/
def exitWith (age : τ → UInt8) (nextCitizen : NextCitizen χ τ) (x : χ) (t : τ) (m : CovidMonitor τ) :
    CovidEffect τ :=
  if !m.isVaccinated t then .abort
  else
    let ctype := citizenType (age t)
    let m := { m with current := Function.update m.current ctype (m.current ctype - 1) }
    let (waitingCitizen, heap) := nextCitizen x m t
    .done { m with heap := heap } (wakeUpCall age waitingCitizen) (.running .left)

/-- `default_next_citizen`, in its place in the monitor. -/
def defaultNext (age : τ → UInt8) : NextCitizen Unit τ := fun _ m t =>
  match defaultNextCitizen m.heap (citizenType (age t)) with
  | none => (none, m.heap)
  | some (waitingCitizen, heap) => (some waitingCitizen, heap)

theorem exitWith_defaultNext (age : τ → UInt8) (t : τ) (m : CovidMonitor τ) :
    exitWith age (defaultNext age) () t m = exitCovidVaccinationCenter age t m := by
  unfold exitWith exitCovidVaccinationCenter defaultNext
  cases hyes : m.isVaccinated t with
  | false => rfl
  | true =>
      cases hnext : defaultNextCitizen m.heap (citizenType (age t)) with
      | none => simp [hnext, wakeUpCall]
      | some r => simp [hnext, wakeUpCall]

/-- `default_next_citizen` dequeues from one list, if from any. -/
theorem onlyDequeues_firstWaiting {hp hp' : Heap (CovidAddr τ)} {u : τ} (ctypes : List CitizenType)
    (h : firstWaiting hp ctypes = some (u, hp')) : OnlyDequeues hp hp' := by
  induction ctypes with
  | nil => cases h
  | cons ctype ctypes ih =>
      simp only [firstWaiting] at h
      split at h
      · simp only [dequeueCitizen] at h
        split at h
        · next v heap hdeq =>
          cases h
          have hrest := congrArg Prod.snd hdeq
          change _ = hp' at hrest
          rw [← hrest]
          exact .dequeue ctype .refl
        · cases h
      · exact ih h

theorem onlyDequeues_defaultNext (age : τ → UInt8) (x : Unit) (m : CovidMonitor τ) (t : τ) :
    OnlyDequeues m.heap (defaultNext age x m t).2 := by
  unfold defaultNext
  split
  · exact .refl
  · next hnext => exact onlyDequeues_firstWaiting _ hnext

/-- Dequeuing only takes citizens off their lists. -/
theorem OnlyDequeues.placed {hp hp' : Heap (CovidAddr τ)} {place : τ → Option CitizenType}
    (hdeq : OnlyDequeues hp hp') (h : Placed hp .waitingList .glue place) :
    ∃ place', Placed hp' .waitingList .glue place' ∧ ∀ t c, place' t = some c → place t = some c := by
  -- to take a citizen off its list
  have hremove : ∀ {hp₁ : Heap (CovidAddr τ)} {place₁ : τ → Option CitizenType} (u : τ),
      Placed hp₁ .waitingList .glue place₁ → (∀ t c, place₁ t = some c → place t = some c) →
      ∃ place', Placed (removeGlthread hp₁ (.glue u)) .waitingList .glue place' ∧
        ∀ t c, place' t = some c → place t = some c := by
    intro hp₁ place₁ u hplaced hsub
    refine ⟨_, hplaced.remove u, ?_⟩
    intro t c ht
    by_cases htu : t = u
    · rw [htu, Function.update_self] at ht
      cases ht
    · rw [Function.update_of_ne htu] at ht
      exact hsub t c ht
  induction hdeq with
  | refl => exact ⟨place, h, fun t c ht => ht⟩
  | @dequeue hp' ctype _ ih =>
      obtain ⟨place', hplaced, hsub⟩ := ih
      cases hempty : isGlthreadListEmpty hp' (.waitingList ctype) with
      | true =>
          have hright : (hp' (.waitingList ctype)).right = none := by
            simp only [isGlthreadListEmpty, Bool.and_eq_true, Option.isNone_iff_eq_none] at hempty
            exact hempty.1
          rw [dequeueGlthreadFirst, hright]
          exact ⟨place', hplaced, hsub⟩
      | false =>
          obtain ⟨u, -, hfirst⟩ := hplaced.dequeueFirst hempty
          rw [hfirst]
          exact hremove u hplaced hsub
  | remove u _ ih =>
      obtain ⟨place', hplaced, hsub⟩ := ih
      exact hremove u hplaced hsub

end NextCitizen

section Machine

variable {τ χ : Type*} [DecidableEq τ] [Fintype τ] (age : τ → UInt8) (nextCitizen : NextCitizen χ τ)

/-- What a citizen of such a center does next. -/
def capacityExec (t : τ) (l : CovidLoc) (x : χ) (m : CovidMonitor τ) : CovidEffect τ :=
  match l with
  | .vaccinated => exitWith age nextCitizen x t m
  | l => covidExec age t l () m

/-- Citizens of one center. -/
def capacityProgram (spurious : Bool) : Program τ (CovidMonitor τ) CitizenType CovidLoc χ where
  exec := capacityExec age nextCitizen
  spuriousWakeups := spurious

/-- All runs of the citizens of one center, none of them vaccinated before. -/
def capacityMachine (spurious : Bool) (limit : CitizenType → UInt16) :
    Machine (CovidConfig τ) (Act τ χ) :=
  (capacityProgram age nextCitizen spurious).machine fun s => s = newCenter limit fun _ => false

end Machine

section Property

variable {τ : Type*} (age : τ → UInt8)

/-- A citizen of this type is between `Enter_Covid_Vaccination_Center` and the decrement of
`Exit_Covid_Vaccination_Center`. -/
def InCenter (s : CovidConfig τ) (ctype : CitizenType) (t : τ) : Prop :=
  citizenType (age t) = ctype ∧ ((s.thr t).loc = .inside ∨ (s.thr t).loc = .vaccinated)

instance (s : CovidConfig τ) (ctype : CitizenType) : DecidablePred (InCenter age s ctype) :=
  fun t => inferInstanceAs (Decidable (citizenType (age t) = ctype ∧
    ((s.thr t).loc = .inside ∨ (s.thr t).loc = .vaccinated)))

variable [Fintype τ]

/-- The counters count, they stay within the capacities, and whoever is about to decrement one finds it
positive. -/
structure CapacityRespected (limit : CitizenType → UInt16) (s : CovidConfig τ) : Prop where
  counted : ∀ c, (s.mem.current c).toNat = (Finset.univ.filter (InCenter age s c)).card
  fixed : s.mem.maxAllowed = limit
  bounded : ∀ c, s.mem.current c ≤ s.mem.maxAllowed c
  positive : ∀ t, (s.thr t).loc = .vaccinated → 0 < s.mem.current (citizenType (age t))

/-- Only citizens in the wait are on the waiting lists, which may lack some of them. -/
structure CapacityInv (limit : CitizenType → UInt16) (s : CovidConfig τ) : Prop where
  lists : ∃ place, Placed s.mem.heap .waitingList .glue place ∧
    ∀ t c, place t = some c → (s.thr t).loc = .wait
  vaccinated : ∀ t, s.mem.isVaccinated t = true ↔ (s.thr t).loc = .vaccinated ∨ (s.thr t).loc = .left
  fixed : s.mem.maxAllowed = limit
  counted : ∀ c, (s.mem.current c).toNat = (Finset.univ.filter (InCenter age s c)).card
  bounded : ∀ c, s.mem.current c ≤ limit c

end Property

section Step

variable {τ χ : Type*} [DecidableEq τ] [Fintype τ] {age : τ → UInt8} {nextCitizen : NextCitizen χ τ}
  {limit : CitizenType → UInt16} {s s' : CovidConfig τ} {t : τ} {x : χ}

omit [DecidableEq τ] in
/-- Whoever is in the center is counted. -/
theorem CapacityInv.current_pos (h : CapacityInv age limit s)
    (hin : (s.thr t).loc = .inside ∨ (s.thr t).loc = .vaccinated) :
    0 < (s.mem.current (citizenType (age t))).toNat := by
  rw [h.counted, Finset.card_pos]
  exact ⟨t, Finset.mem_filter.mpr ⟨Finset.mem_univ t, rfl, hin⟩⟩

omit [DecidableEq τ] [Fintype τ] in
/-- A citizen outside the wait is on no list. -/
theorem unlisted {place : τ → Option CitizenType}
    (hwait : ∀ t c, place t = some c → (s.thr t).loc = .wait)
    (hl : (s.thr t).loc ≠ .wait) : place t = none := by
  rw [Option.eq_none_iff_forall_ne_some]
  intro c hc
  exact hl (hwait t c hc)

omit [DecidableEq τ] in
/-- The invariant contains the property. -/
theorem CapacityInv.respected (h : CapacityInv age limit s) : CapacityRespected age limit s where
  counted := h.counted
  fixed := h.fixed
  bounded c := by
    rw [h.fixed]
    exact h.bounded c
  positive t ht := by
    rw [UInt16.lt_iff_toNat_lt]
    exact h.current_pos (.inr ht)

omit [DecidableEq τ] in
/-- The invariant is about locations and the monitor only. -/
theorem CapacityInv.congr (h : CapacityInv age limit s) (hmem : s'.mem = s.mem)
    (hloc : ∀ u, (s'.thr u).loc = (s.thr u).loc) : CapacityInv age limit s' where
  lists := by
    obtain ⟨place, hplaced, hwait⟩ := h.lists
    refine ⟨place, by rw [hmem]; exact hplaced, ?_⟩
    intro u c hu
    rw [hloc u]
    exact hwait u c hu
  vaccinated u := by rw [hmem, hloc u]; exact h.vaccinated u
  fixed := by rw [hmem]; exact h.fixed
  counted c := by
    rw [hmem, h.counted c]
    congr 1
    ext u
    simp [InCenter, hloc u]
  bounded c := by rw [hmem]; exact h.bounded c

/-- One citizen moves; the counters follow it. -/
theorem CapacityInv.move (h : CapacityInv age limit s)
    (hother : ∀ u, u ≠ t → (s'.thr u).loc = (s.thr u).loc)
    (hlists : ∃ place, Placed s'.mem.heap .waitingList .glue place ∧
      ∀ u c, place u = some c → (s'.thr u).loc = .wait)
    (hvacc : ∀ u, u ≠ t → s'.mem.isVaccinated u = s.mem.isVaccinated u)
    (hself : s'.mem.isVaccinated t = true ↔ (s'.thr t).loc = .vaccinated ∨ (s'.thr t).loc = .left)
    (hfixed : s'.mem.maxAllowed = s.mem.maxAllowed)
    (hcurrent : ∀ c, (s'.mem.current c).toNat + (if InCenter age s c t then 1 else 0) =
      (s.mem.current c).toNat + (if InCenter age s' c t then 1 else 0))
    (hbounded : ∀ c, s'.mem.current c ≤ limit c) : CapacityInv age limit s' where
  lists := hlists
  vaccinated u := by
    by_cases hu : u = t
    · rw [hu]
      exact hself
    · rw [hvacc u hu, hother u hu]
      exact h.vaccinated u
  fixed := hfixed.trans h.fixed
  counted c := by
    have hstep := card_filter_step (InCenter age s c) (InCenter age s' c) t (by
      intro u hu
      simp only [InCenter, hother u hu])
    have hcur := hcurrent c
    rw [h.counted c] at hcur
    omega
  bounded := hbounded

/-- A citizen outside the center moves without being let in. -/
theorem CapacityInv.step_queue (h : CapacityInv age limit s)
    (hother : ∀ u, u ≠ t → (s'.thr u).loc = (s.thr u).loc)
    (hloc : (s.thr t).loc = .outside ∨ (s.thr t).loc = .wait) (hloc' : (s'.thr t).loc = .wait)
    (hlists : ∃ place, Placed s'.mem.heap .waitingList .glue place ∧
      ∀ u c, place u = some c → u = t ∨ (s.thr u).loc = .wait)
    (hmem : s'.mem = { s.mem with heap := s'.mem.heap }) : CapacityInv age limit s' := by
  have hbefore : ∀ c, ¬ InCenter age s c t := by
    rintro c ⟨-, hin⟩
    rcases hloc with hloc | hloc <;> simp [hloc] at hin
  have hafter : ∀ c, ¬ InCenter age s' c t := by
    rintro c ⟨-, hin⟩
    simp [hloc'] at hin
  apply h.move hother
  · obtain ⟨place, hplaced, hwait⟩ := hlists
    refine ⟨place, hplaced, ?_⟩
    intro u c hu
    by_cases hut : u = t
    · rw [hut, hloc']
    · rw [hother u hut]
      exact (hwait u c hu).resolve_left hut
  · intro u _
    rw [hmem]
  · have hno := h.vaccinated t
    rw [hmem, hloc']
    rcases hloc with hloc | hloc <;> simpa [hloc] using hno
  · rw [hmem]
  · intro c
    rw [if_neg (hbefore c), if_neg (hafter c), hmem]
  · intro c
    rw [hmem]
    exact h.bounded c

/-- A citizen is let in where there is room. -/
theorem CapacityInv.step_admit (h : CapacityInv age limit s)
    (hother : ∀ u, u ≠ t → (s'.thr u).loc = (s.thr u).loc)
    (hloc : (s.thr t).loc = .outside ∨ (s.thr t).loc = .wait) (hloc' : (s'.thr t).loc = .inside)
    (hroom : s.mem.maxAllowed (citizenType (age t)) ≠ s.mem.current (citizenType (age t)))
    (hlists : ∃ place, Placed s'.mem.heap .waitingList .glue place ∧
      ∀ u c, place u = some c → u ≠ t ∧ (s.thr u).loc = .wait)
    (hmem : s'.mem = { s.mem with
      heap := s'.mem.heap
      current := Function.update s.mem.current (citizenType (age t))
        (s.mem.current (citizenType (age t)) + 1) }) : CapacityInv age limit s' := by
  have hcur : s'.mem.current = Function.update s.mem.current (citizenType (age t))
      (s.mem.current (citizenType (age t)) + 1) := by rw [hmem]
  rw [h.fixed] at hroom
  have hcounters := counters_admit h.bounded hroom
  have hbefore : ∀ c, ¬ InCenter age s c t := by
    rintro c ⟨-, hin⟩
    rcases hloc with hloc | hloc <;> simp [hloc] at hin
  have hafter : ∀ c, InCenter age s' c t ↔ citizenType (age t) = c := by
    intro c
    simp [InCenter, hloc']
  apply h.move hother
  · obtain ⟨place, hplaced, hwait⟩ := hlists
    refine ⟨place, hplaced, ?_⟩
    intro u c hu
    rw [hother u (hwait u c hu).1]
    exact (hwait u c hu).2
  · intro u _
    rw [hmem]
  · have hno := h.vaccinated t
    rw [hmem, hloc']
    rcases hloc with hloc | hloc <;> simpa [hloc] using hno
  · rw [hmem]
  · intro c
    rw [if_neg (hbefore c), hcur, Nat.add_zero, (hcounters c).1]
    simp only [hafter c]
  · intro c
    rw [hcur]
    exact (hcounters c).2

/-- A citizen in the center is vaccinated. -/
theorem CapacityInv.step_apply (h : CapacityInv age limit s)
    (hother : ∀ u, u ≠ t → (s'.thr u).loc = (s.thr u).loc) (hloc : (s.thr t).loc = .inside)
    (hloc' : (s'.thr t).loc = .vaccinated)
    (hmem : s'.mem = { s.mem with isVaccinated := Function.update s.mem.isVaccinated t true }) :
    CapacityInv age limit s' := by
  obtain ⟨place, hplaced, hwait⟩ := h.lists
  apply h.move hother
  · refine ⟨place, by rw [hmem]; exact hplaced, ?_⟩
    intro u c hu
    have hut : u ≠ t := by
      rintro rfl
      rw [hwait u c hu] at hloc
      cases hloc
    rw [hother u hut]
    exact hwait u c hu
  · intro u hu
    rw [hmem]
    exact Function.update_of_ne hu _ _
  · simp [hmem, hloc']
  · rw [hmem]
  · intro c
    rw [show s'.mem.current = s.mem.current by rw [hmem]]
    simp [InCenter, hloc, hloc']
  · intro c
    rw [hmem]
    exact h.bounded c

/-- A citizen leaves, and others may be taken off the waiting lists. -/
theorem CapacityInv.step_exit (h : CapacityInv age limit s)
    (hother : ∀ u, u ≠ t → (s'.thr u).loc = (s.thr u).loc) (hloc : (s.thr t).loc = .vaccinated)
    (hloc' : (s'.thr t).loc = .left) (hheap : OnlyDequeues s.mem.heap s'.mem.heap)
    (hmem : s'.mem = { s.mem with
      heap := s'.mem.heap
      current := Function.update s.mem.current (citizenType (age t))
        (s.mem.current (citizenType (age t)) - 1) }) : CapacityInv age limit s' := by
  have hcur : s'.mem.current = Function.update s.mem.current (citizenType (age t))
      (s.mem.current (citizenType (age t)) - 1) := by rw [hmem]
  have hcounters := counters_leave h.bounded (h.current_pos (.inr hloc))
  obtain ⟨place, hplaced, hwait⟩ := h.lists
  obtain ⟨place', hplaced', hsub⟩ := hheap.placed hplaced
  apply h.move hother
  · refine ⟨place', hplaced', ?_⟩
    intro u c hu
    have hutWait := hwait u c (hsub u c hu)
    have hut : u ≠ t := by
      rintro rfl
      rw [hutWait] at hloc
      cases hloc
    rw [hother u hut]
    exact hutWait
  · intro u _
    rw [hmem]
  · rw [show s'.mem.isVaccinated = s.mem.isVaccinated by rw [hmem], hloc', h.vaccinated t, hloc]
    simp
  · rw [hmem]
  · intro c
    have hbefore : InCenter age s c t ↔ citizenType (age t) = c := by
      simp [InCenter, hloc]
    have hafter : ¬ InCenter age s' c t := by
      rintro ⟨-, hin⟩
      simp [hloc'] at hin
    rw [if_neg hafter, hcur, Nat.add_zero, ← (hcounters c).1]
    simp only [hbefore]
  · intro c
    rw [hcur]
    exact (hcounters c).2

end Step

section Runs

variable {τ χ : Type*} [DecidableEq τ] [Fintype τ] {age : τ → UInt8} {nextCitizen : NextCitizen χ τ}
  {spurious : Bool} {limit : CitizenType → UInt16} {s s' : CovidConfig τ} {t : τ} {x : χ}

/-- Away from the exit the center does not depend on `next_citizen`. -/
theorem capacityExec_of_ne {l : CovidLoc} (hl : l ≠ .vaccinated) (m : CovidMonitor τ) :
    capacityExec age nextCitizen t l x m = covidExec age t l () m := by
  cases l <;> first | rfl | exact absurd rfl hl

omit [Fintype τ] in
/-- What leaving the center does. -/
theorem exitWith_eq_done {m m' : CovidMonitor τ} {notes : List (Note CitizenType)}
    {st : Status CitizenType CovidLoc}
    (hnext : ∀ x m t, OnlyDequeues m.heap (nextCitizen x m t).2)
    (h : exitWith age nextCitizen x t m = .done m' notes st) :
    OnlyDequeues m.heap m'.heap ∧ st.loc = .left ∧ m' = { m with
      heap := m'.heap
      current := Function.update m.current (citizenType (age t))
        (m.current (citizenType (age t)) - 1) } := by
  simp only [exitWith] at h
  split at h
  · cases h
  · cases h
    refine ⟨?_, rfl, rfl⟩
    exact hnext x { m with
      current := Function.update m.current (citizenType (age t))
        (m.current (citizenType (age t)) - 1) } t

/-- A step of a citizen keeps the invariant. -/
theorem CapacityInv.step (h : CapacityInv age limit s)
    (hnext : ∀ x m t, OnlyDequeues m.heap (nextCitizen x m t).2) {picks : List (Option τ)}
    (hstep : (capacityProgram age nextCitizen spurious).step s (.run t x picks) = .next s') :
    CapacityInv age limit s' := by
  obtain ⟨notes, st, hran⟩ := Program.ran_of_step hstep
  have hself := hran.self
  have hother : ∀ u, u ≠ t → (s'.thr u).loc = (s.thr u).loc := fun u hu => hran.loc_of_ne hu
  have hexec : capacityExec age nextCitizen t (s.thr t).loc x s.mem = .done s'.mem notes st := hran.exec
  by_cases hvac : (s.thr t).loc = .vaccinated
  · rw [hvac] at hexec
    obtain ⟨hheap, hleft, hmem⟩ := exitWith_eq_done hnext hexec
    exact h.step_exit hother hvac (by rw [hself]; exact hleft) hheap hmem
  · rw [capacityExec_of_ne hvac] at hexec
    have hmove := covidMove_of_exec hexec
    obtain ⟨place, hplaced, hwait⟩ := h.lists
    have hfree : (s.thr t).loc ≠ .wait → place t = none := unlisted hwait
    generalize hl : (s.thr t).loc = l at hmove hvac hfree
    generalize hm : s'.mem = m' at hmove
    cases hmove with
    | pass hyes =>
        rcases (h.vaccinated t).mp hyes with hloc | hloc
        · rw [hl] at hloc
          cases hloc
        · rw [hl] at hloc
          cases hloc
    | @block heap hnot hadd hfull =>
        obtain ⟨hp', hadd', hplaced'⟩ := hplaced.addLast (citizenType (age t)) (hfree (by decide))
        rw [hadd, Option.some.injEq] at hadd'
        apply h.step_queue hother (.inl hl) (by rw [hself]; rfl) _ (by rw [hm])
        refine ⟨_, by rw [hm, hadd']; exact hplaced', ?_⟩
        intro u c hu
        by_cases hut : u = t
        · exact .inl hut
        · rw [Function.update_of_ne hut] at hu
          exact .inr (hwait u c hu)
    | @enter heap hnot hadd hroom =>
        obtain ⟨hp', hadd', hplaced'⟩ := hplaced.addLast (citizenType (age t)) (hfree (by decide))
        rw [hadd, Option.some.injEq] at hadd'
        apply h.step_admit hother (.inl hl) (by rw [hself]; rfl) hroom _ (by rw [hm])
        refine ⟨_, by rw [hm, hadd']; exact hplaced'.remove t, ?_⟩
        intro u c hu
        by_cases hut : u = t
        · rw [hut, Function.update_self] at hu
          cases hu
        · rw [Function.update_of_ne hut, Function.update_of_ne hut] at hu
          exact ⟨hut, hwait u c hu⟩
    | again hfull =>
        apply h.step_queue hother (.inr hl) (by rw [hself]; rfl) _ (by rw [hm])
        exact ⟨place, by rw [hm]; exact hplaced, fun u c hu => .inr (hwait u c hu)⟩
    -- whoever was woken may have been taken off its list already
    | resume hroom =>
        apply h.step_admit hother (.inr hl) (by rw [hself]; rfl) hroom _ (by rw [hm])
        refine ⟨_, by rw [hm]; exact hplaced.remove t, ?_⟩
        intro u c hu
        by_cases hut : u = t
        · rw [hut, Function.update_self] at hu
          cases hu
        · rw [Function.update_of_ne hut] at hu
          exact ⟨hut, hwait u c hu⟩
    | apply hnot => exact h.step_apply hother hl (by rw [hself]; rfl) hm
    | leave hyes hnone => exact absurd rfl hvac
    | leaveTo hyes hsome => exact absurd rfl hvac

/-- No assertion fails, and the walk along a waiting list ends. -/
theorem CapacityInv.not_abort (h : CapacityInv age limit s) (a : Act τ χ) :
    (capacityProgram age nextCitizen spurious).step s a ≠ .abort := by
  intro habort
  cases a with
  | spurious t => exact Program.not_abort_spurious habort
  | run t x picks =>
      obtain ⟨-, hexec⟩ := Program.exec_of_abort habort
      change capacityExec age nextCitizen t (s.thr t).loc x s.mem = .abort at hexec
      -- `is_vaccinated` follows the locations, so neither assertion can fail
      have hvacc := h.vaccinated t
      obtain ⟨place, hplaced, hwait⟩ := h.lists
      cases hl : (s.thr t).loc with
      | outside =>
          rw [hl] at hexec
          simp only [capacityExec, covidExec, enterCovidVaccinationCenter] at hexec
          split at hexec
          · cases hexec
          · have hfree : place t = none := by
              rw [Option.eq_none_iff_forall_ne_some]
              intro c hc
              rw [hwait t c hc] at hl
              cases hl
            obtain ⟨hp', hadd, -⟩ := hplaced.addLast (citizenType (age t)) hfree
            rcases Effect.call_eq_abort.mp hexec with hnone | ⟨heap, -, hadmit⟩
            · rw [hadd] at hnone
              cases hnone
            · simp only [admitCitizen] at hadmit
              split at hadmit <;> cases hadmit
      | wait =>
          rw [hl] at hexec
          simp only [capacityExec, covidExec, admitCitizen] at hexec
          split at hexec <;> cases hexec
      | inside =>
          rw [hl] at hexec hvacc
          simp only [capacityExec, covidExec, citizenApplyVaccine] at hexec
          split at hexec
          · next hyes => simp [hyes] at hvacc
          · cases hexec
      | vaccinated =>
          rw [hl] at hexec hvacc
          simp only [capacityExec, exitWith] at hexec
          split at hexec
          · next hno => simp [hvacc.mpr (.inl rfl)] at hno
          · cases hexec
      | left =>
          rw [hl] at hexec
          cases hexec

omit [DecidableEq τ] in
theorem CapacityInv.fresh : CapacityInv age limit (newCenter limit fun _ => false) where
  lists := by
    have hfresh : CovidInv age limit (newCenter limit fun _ => false) := CovidInv.fresh
    refine ⟨_, hfresh.placed, ?_⟩
    intro t c ht
    cases ht
  vaccinated t := by
    constructor
    · intro h
      cases h
    · rintro (h | h) <;> cases h
  fixed := maxAllowed_newCenter
  counted c := by
    have hnobody : Finset.univ.filter (InCenter age (newCenter limit fun _ => false) c) = ∅ := by
      apply Finset.filter_false_of_mem
      rintro t - ⟨-, hin | hin⟩
      · cases hin
      · cases hin
    rw [hnobody]
    rfl
  bounded c := by
    rw [UInt16.le_iff_toNat_le]
    exact Nat.zero_le _

/-- **The capacity is respected** in every run, for any capacities, any number of citizens, any
`next_citizen` that only dequeues from the waiting lists, and with any spurious wake-ups; and no
assertion fails. -/
theorem covid_capacityRespected (hnext : ∀ x m t, OnlyDequeues m.heap (nextCitizen x m t).2)
    (hs : (capacityMachine age nextCitizen spurious limit).Reachable s) :
    CapacityRespected age limit s ∧
      ∀ a, (capacityMachine age nextCitizen spurious limit).step s a ≠ .abort := by
  have hinv : CapacityInv age limit s := by
    refine hs.invariant (I := fun s => CapacityInv age limit s) ?_ ?_
    · rintro _ rfl
      exact CapacityInv.fresh
    · intro s a s' h _ hstep
      cases a with
      | run t x picks => exact h.step hnext hstep
      | spurious t =>
          obtain ⟨-, c, l, hw, rfl⟩ := Program.spurious_of_step hstep
          exact h.congr rfl (loc_update_notified hw)
  exact ⟨hinv.respected, fun a => hinv.not_abort a⟩

end Runs

/-- A spurious wake-up finds no room, the first adult leaves, and the second one is let in. -/
theorem covid_capacityRespected_trace : ∃ s : CovidConfig (Fin 3),
    CapacityRespected threeAges (fun _ => 1) s ∧
    (s.thr 2).loc = .inside ∧ s.mem.current .adult = 1 := by
  have hrun : ((capacityMachine threeAges (defaultNext threeAges) true fun _ => 1).exec
      (newCenter (fun _ => 1) fun _ => false)
      [.run 1 () [], .run 2 () [], .spurious 2, .run 2 () [], .run 1 () [], .run 1 () [some 2],
        .run 2 () []]).holds
      (fun s => decide ((s.thr 2).loc = .inside ∧ s.mem.current .adult = 1)) = true := by
    decide +kernel
  obtain ⟨s, hs, hp⟩ := Machine.exists_reachable_of_exec rfl hrun
  exact ⟨s, (covid_capacityRespected (onlyDequeues_defaultNext threeAges) hs).1, of_decide_eq_true hp⟩

end CovidCenter
end MultithreadingBible
