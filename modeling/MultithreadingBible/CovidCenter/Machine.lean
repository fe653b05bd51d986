import MultithreadingBible.GlueThread.Placement
import MultithreadingBible.Lib.CondVar

/-!
# A vaccination center

Citizens of four types enter a center with a capacity for each type, are vaccinated and leave.  A citizen
without room waits on the condition variable of its type, with its cell on the waiting list of its type.
Whoever leaves takes the next citizen off a waiting list and signals the condition variable of its type.

* `CovidMonitor` — the monitor; its waiting lists are heads in the heap.
* `enterCovidVaccinationCenter`, `citizenApplyVaccine`, `exitCovidVaccinationCenter` — the calls.  Both
  calls of the monitor are one critical section of `state_mutex`, but for the wait inside the first.
* `covidMachine` — citizens that make the three calls once, without spurious wake-ups.
-/

namespace MultithreadingBible
namespace CovidCenter

open Lib GlueThread

inductive CitizenType where
  | teenager
  | adult
  | srAdult
  | old
  deriving DecidableEq

/-- `citizen_type`, of a citizen of this age. -/
def citizenType (age : UInt8) : CitizenType :=
  if 13 ≤ age ∧ age ≤ 19 then .teenager
  else if 20 ≤ age ∧ age ≤ 35 then .adult
  else if 36 ≤ age ∧ age ≤ 60 then .srAdult
  else .old

/-- The cells of a center and of its citizens. -/
inductive CovidAddr (τ : Type*) where
  | waitingList (ctype : CitizenType)
  | glue (t : τ)
  deriving DecidableEq

/-- `covid_vaccination_monitor_t`, the cells, and who is vaccinated. -/
structure CovidMonitor (τ : Type*) where
  maxAllowed : CitizenType → UInt16
  current : CitizenType → UInt16
  heap : Heap (CovidAddr τ)
  isVaccinated : τ → Bool

/-- Where a citizen is. -/
inductive CovidLoc where
  | outside
  /-- In the wait of `Enter_Covid_Vaccination_Center`. -/
  | wait
  /-- After `Enter_Covid_Vaccination_Center`. -/
  | inside
  /-- After `Citizen_Apply_Vaccine`. -/
  | vaccinated
  | left
  deriving DecidableEq

/-- Each type of citizens has its condition variable. -/
abbrev CovidEffect (τ : Type*) := Effect (CovidMonitor τ) CitizenType CovidLoc

/-- `Covid_Center_init`, with citizens that were just created. -/
def covidCenterInit {τ : Type*} (isVaccinated : τ → Bool) : CovidMonitor τ where
  maxAllowed
    | .teenager => 1
    | .adult => 1
    | .srAdult => 1
    | .old => 1
  current _ := 0
  heap _ := Glthread.null
  isVaccinated := isVaccinated

def covidCenterSetCapacity {τ : Type*} (m : CovidMonitor τ) (ctype : CitizenType) (limit : UInt16) :
    CovidMonitor τ :=
  { m with maxAllowed := Function.update m.maxAllowed ctype limit }

/-- The order in which `default_next_citizen` looks at the waiting lists. -/
def CitizenType.searchOrder : CitizenType → List CitizenType
  | .teenager => [.teenager, .adult, .srAdult, .old]
  | .adult => [.adult, .srAdult, .old, .teenager]
  | .srAdult => [.srAdult, .old, .teenager, .adult]
  | .old => [.old, .teenager, .adult, .srAdult]

section Calls

variable {τ : Type*} [DecidableEq τ]

/-- `dequeue_glthread_first` on a waiting list and `glue_to_citizen` of the cell it returns. -/
def dequeueCitizen (hp : Heap (CovidAddr τ)) (ctype : CitizenType) :
    Option (τ × Heap (CovidAddr τ)) :=
  match dequeueGlthreadFirst hp (.waitingList ctype) with
  | (some (.glue u), hp) => some (u, hp)
  | _ => none

/-- The first citizen on the first list that is not empty. -/
def firstWaiting (hp : Heap (CovidAddr τ)) : List CitizenType → Option (τ × Heap (CovidAddr τ))
  | [] => none
  | ctype :: ctypes =>
      if !isGlthreadListEmpty hp (.waitingList ctype) then dequeueCitizen hp ctype
      else firstWaiting hp ctypes

/-- `default_next_citizen`, for a citizen of this type. -/
def defaultNextCitizen (hp : Heap (CovidAddr τ)) (ctype : CitizenType) :
    Option (τ × Heap (CovidAddr τ)) :=
  firstWaiting hp ctype.searchOrder

variable (age : τ → UInt8)

/-- The loop of `Enter_Covid_Vaccination_Center`, and what follows it. -/
def admitCitizen (t : τ) (m : CovidMonitor τ) : CovidEffect τ :=
  let ctype := citizenType (age t)
  if m.maxAllowed ctype = m.current ctype then .done m [] (.waiting ctype .wait)
  else
    .done
      { m with
        heap := removeGlthread m.heap (.glue t)
        current := Function.update m.current ctype (m.current ctype + 1) }
      [] (.running .inside)

/-- `Enter_Covid_Vaccination_Center`, up to its wait. -/
def enterCovidVaccinationCenter [Fintype τ] (t : τ) (m : CovidMonitor τ) : CovidEffect τ :=
  if m.isVaccinated t then .done m [] (.running .inside)
  else
    .call (glthreadAddLast (Fintype.card τ) m.heap (.waitingList (citizenType (age t))) (.glue t))
      fun heap => admitCitizen age t { m with heap := heap }

def citizenApplyVaccine (t : τ) (m : CovidMonitor τ) : CovidEffect τ :=
  if m.isVaccinated t then .abort
  else .done { m with isVaccinated := Function.update m.isVaccinated t true } [] (.running .vaccinated)

def exitCovidVaccinationCenter (t : τ) (m : CovidMonitor τ) : CovidEffect τ :=
  if !m.isVaccinated t then .abort
  else
    let ctype := citizenType (age t)
    let m := { m with current := Function.update m.current ctype (m.current ctype - 1) }
    match defaultNextCitizen m.heap ctype with
    | none => .done m [] (.running .left)
    | some (waitingCitizen, heap) =>
        .done { m with heap := heap } [.signal (citizenType (age waitingCitizen))] (.running .left)

end Calls

section Machine

variable {τ : Type*} [DecidableEq τ] [Fintype τ] (age : τ → UInt8)

/-- What a citizen does next. -/
def covidExec (t : τ) (l : CovidLoc) (_ : Unit) (m : CovidMonitor τ) : CovidEffect τ :=
  match l with
  | .outside => enterCovidVaccinationCenter age t m
  | .wait => admitCitizen age t m
  | .inside => citizenApplyVaccine t m
  | .vaccinated => exitCovidVaccinationCenter age t m
  | .left => .blocked

/-- Citizens of one center. -/
def covidProgram : Program τ (CovidMonitor τ) CitizenType CovidLoc Unit where
  exec := covidExec age
  spuriousWakeups := false

abbrev CovidConfig (τ : Type*) := Config τ (CovidMonitor τ) CitizenType CovidLoc

/-- A center with capacities, before anybody came. -/
def newCenter (limit : CitizenType → UInt16) (isVaccinated : τ → Bool) : CovidConfig τ :=
  ⟨[.teenager, .adult, .srAdult, .old].foldl (fun m c => covidCenterSetCapacity m c (limit c))
    (covidCenterInit isVaccinated), fun _ => .running .outside⟩

/-- All runs of the citizens of one center. -/
def covidMachine (limit : CitizenType → UInt16) (isVaccinated : τ → Bool) :
    Machine (CovidConfig τ) (Act τ Unit) :=
  (covidProgram age).machine fun s => s = newCenter limit isVaccinated

end Machine

section Spec

variable {τ : Type*} {limit : CitizenType → UInt16} {isVaccinated : τ → Bool}

theorem maxAllowed_newCenter : (newCenter limit isVaccinated).mem.maxAllowed = limit := by
  ext ctype
  cases ctype <;> simp [newCenter, covidCenterSetCapacity]

variable [DecidableEq τ] {hp : Heap (CovidAddr τ)} {place : τ → Option CitizenType}

/-- The cell of the citizen that is next in the order of a leaver's type. -/
def nextInLine (hp : Heap (CovidAddr τ)) (ctype : CitizenType) : Option (CovidAddr τ) :=
  ctype.searchOrder.findSome? fun c => base hp (.waitingList c)

/-- The first citizen of the first list that is not empty. -/
theorem firstWaiting_spec (h : Placed hp .waitingList .glue place) (ctypes : List CitizenType) :
    (firstWaiting hp ctypes = none ∧ ctypes.findSome? (fun c => base hp (.waitingList c)) = none ∧
      ∀ c ∈ ctypes, ∀ t, place t ≠ some c) ∨
    ∃ u c, place u = some c ∧
      firstWaiting hp ctypes = some (u, removeGlthread hp (.glue u)) ∧
      ctypes.findSome? (fun c => base hp (.waitingList c)) = some (.glue u) ∧
      ∀ c₀, ctypes.head? = some c₀ → c = c₀ ∨ ∀ t, place t ≠ some c₀ := by
  induction ctypes with
  | nil => exact .inl ⟨rfl, rfl, by simp⟩
  | cons c ctypes ih =>
      cases hempty : isGlthreadListEmpty hp (.waitingList c) with
      | true =>
          have hno := (h.isEmpty_head c).mp hempty
          have hbase : base hp (.waitingList c) = none := by
            simp only [isGlthreadListEmpty, Bool.and_eq_true, Option.isNone_iff_eq_none] at hempty
            exact hempty.1
          have hskip : firstWaiting hp (c :: ctypes) = firstWaiting hp ctypes := by
            simp [firstWaiting, hempty]
          rw [hskip, List.findSome?_cons, hbase]
          rcases ih with ⟨hnone, hfind, hall⟩ | ⟨u, c', hu, hfirst, hfind, -⟩
          · refine .inl ⟨hnone, hfind, ?_⟩
            intro c' hc'
            rcases List.mem_cons.mp hc' with rfl | hc'
            · exact hno
            · exact hall c' hc'
          · refine .inr ⟨u, c', hu, hfirst, hfind, ?_⟩
            intro c₀ hc₀
            cases hc₀
            exact .inr hno
      | false =>
          obtain ⟨u, hu, hdeq⟩ := h.dequeueFirst hempty
          have hbase : base hp (.waitingList c) = some (.glue u) := by
            rw [dequeueGlthreadFirst] at hdeq
            rw [base]
            split at hdeq
            · cases hdeq
            · next temp htemp =>
              rw [htemp]
              exact congrArg Prod.fst hdeq
          refine .inr ⟨u, c, hu, ?_, ?_, ?_⟩
          · simp [firstWaiting, hempty, dequeueCitizen, hdeq]
          · rw [List.findSome?_cons, hbase]
          · intro c₀ hc₀
            cases hc₀
            exact .inl rfl

/-- A leaver wakes nobody when nobody waits, and somebody of another type only when nobody of its own type
waits. -/
theorem defaultNextCitizen_spec (h : Placed hp .waitingList .glue place) (ctype : CitizenType) :
    (defaultNextCitizen hp ctype = none ∧ nextInLine hp ctype = none ∧ ∀ t, place t = none) ∨
    ∃ u c, place u = some c ∧
      defaultNextCitizen hp ctype = some (u, removeGlthread hp (.glue u)) ∧
      nextInLine hp ctype = some (.glue u) ∧ (c = ctype ∨ ∀ t, place t ≠ some ctype) := by
  have hall : ∀ c, c ∈ ctype.searchOrder := by
    intro c
    cases ctype <;> cases c <;> decide
  have hown : ctype.searchOrder.head? = some ctype := by
    cases ctype <;> rfl
  rcases firstWaiting_spec h ctype.searchOrder with
    ⟨hnone, hfind, hno⟩ | ⟨u, c, hu, hfirst, hfind, hhead⟩
  · refine .inl ⟨hnone, hfind, ?_⟩
    intro t
    rw [Option.eq_none_iff_forall_ne_some]
    exact fun c => hno c (hall c) t
  · exact .inr ⟨u, c, hu, hfirst, hfind, hhead ctype hown⟩

end Spec

end CovidCenter
end MultithreadingBible
