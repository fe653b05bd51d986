import MultithreadingBible.CovidCenter.Machine

/-!
# Citizens that wait

* `CovidMove` — everything a citizen can do.
* `NoneForgotten` — whoever waits is on the waiting list of its type, and waits only as long as
  there is no room or somebody of its type has been woken.
* `Orderly` — the steps that keep this, and no others do: a leaver wakes the citizen it takes off a
  waiting list, and whoever was woken finds room.
-/

namespace MultithreadingBible
namespace CovidCenter

open Lib GlueThread

variable {τ : Type*}

section Moves

variable [DecidableEq τ] [Fintype τ]

/-- Everything a citizen can do. -/
inductive CovidMove (age : τ → UInt8) (t : τ) (m : CovidMonitor τ) :
    CovidLoc → CovidMonitor τ → List (Note CitizenType) → Status CitizenType CovidLoc → Prop
  | pass (hyes : m.isVaccinated t = true) : CovidMove age t m .outside m [] (.running .inside)
  | block {heap : Heap (CovidAddr τ)} (hnot : m.isVaccinated t = false)
      (hadd : glthreadAddLast (Fintype.card τ) m.heap (.waitingList (citizenType (age t)))
        (.glue t) = some heap)
      (hfull : m.maxAllowed (citizenType (age t)) = m.current (citizenType (age t))) :
      CovidMove age t m .outside { m with heap := heap } [] (.waiting (citizenType (age t)) .wait)
  | enter {heap : Heap (CovidAddr τ)} (hnot : m.isVaccinated t = false)
      (hadd : glthreadAddLast (Fintype.card τ) m.heap (.waitingList (citizenType (age t)))
        (.glue t) = some heap)
      (hroom : m.maxAllowed (citizenType (age t)) ≠ m.current (citizenType (age t))) :
      CovidMove age t m .outside
        { m with
          heap := removeGlthread heap (.glue t)
          current := Function.update m.current (citizenType (age t))
            (m.current (citizenType (age t)) + 1) }
        [] (.running .inside)
  | again (hfull : m.maxAllowed (citizenType (age t)) = m.current (citizenType (age t))) :
      CovidMove age t m .wait m [] (.waiting (citizenType (age t)) .wait)
  | resume (hroom : m.maxAllowed (citizenType (age t)) ≠ m.current (citizenType (age t))) :
      CovidMove age t m .wait
        { m with
          heap := removeGlthread m.heap (.glue t)
          current := Function.update m.current (citizenType (age t))
            (m.current (citizenType (age t)) + 1) }
        [] (.running .inside)
  | apply (hnot : m.isVaccinated t = false) :
      CovidMove age t m .inside { m with isVaccinated := Function.update m.isVaccinated t true } []
        (.running .vaccinated)
  | leave (hyes : m.isVaccinated t = true)
      (hnext : defaultNextCitizen m.heap (citizenType (age t)) = none) :
      CovidMove age t m .vaccinated
        { m with
          current := Function.update m.current (citizenType (age t))
            (m.current (citizenType (age t)) - 1) }
        [] (.running .left)
  | leaveTo {u : τ} {heap : Heap (CovidAddr τ)} (hyes : m.isVaccinated t = true)
      (hnext : defaultNextCitizen m.heap (citizenType (age t)) = some (u, heap)) :
      CovidMove age t m .vaccinated
        { m with
          heap := heap
          current := Function.update m.current (citizenType (age t))
            (m.current (citizenType (age t)) - 1) }
        [.signal (citizenType (age u))] (.running .left)

/-- A step of a citizen is one of the listed moves. -/
theorem covidMove_of_exec {age : τ → UInt8} {t : τ} {l : CovidLoc} {x : Unit}
    {m m' : CovidMonitor τ} {notes : List (Note CitizenType)} {st : Status CitizenType CovidLoc}
    (h : covidExec age t l x m = .done m' notes st) : CovidMove age t m l m' notes st := by
  cases l with
  | outside =>
      simp only [covidExec, enterCovidVaccinationCenter] at h
      split at h
      · next hyes =>
        cases h
        exact .pass hyes
      · next hnot =>
        rw [Bool.not_eq_true] at hnot
        obtain ⟨heap, hadd, hadmit⟩ := Effect.call_eq_done.mp h
        simp only [admitCitizen] at hadmit
        split at hadmit
        · next hfull =>
          cases hadmit
          exact .block hnot hadd hfull
        · next hroom =>
          cases hadmit
          exact .enter hnot hadd hroom
  | wait =>
      simp only [covidExec, admitCitizen] at h
      split at h
      · next hfull =>
        cases h
        exact .again hfull
      · next hroom =>
        cases h
        exact .resume hroom
  | inside =>
      simp only [covidExec, citizenApplyVaccine] at h
      split at h
      · cases h
      · next hnot =>
        cases h
        exact .apply (Bool.not_eq_true _ ▸ hnot)
  | vaccinated =>
      simp only [covidExec, exitCovidVaccinationCenter] at h
      split at h
      · cases h
      · next hyes =>
        have hyes' : m.isVaccinated t = true := by simpa using hyes
        split at h
        · next hnext =>
          cases h
          exact .leave hyes' hnext
        · next u heap hnext =>
          cases h
          exact .leaveTo hyes' hnext
  | left => cases h

end Moves

section Property

variable [DecidableEq τ] [Fintype τ] (age : τ → UInt8)

/-- The cells on a waiting list. -/
def waitingList (hp : Heap (CovidAddr τ)) (ctype : CitizenType) : List (CovidAddr τ) :=
  (iterateGlthread hp (Fintype.card τ) (base hp (.waitingList ctype))).getD []

/-- Whoever waits is on its list, and there is no room or somebody has been woken. -/
structure NoneForgotten (s : CovidConfig τ) : Prop where
  awaited : ∀ t, (s.thr t).isWaiting = true →
    s.mem.current (citizenType (age t)) < s.mem.maxAllowed (citizenType (age t)) →
    ∃ u, citizenType (age u) = citizenType (age t) ∧ (s.thr u).isNotified = true
  listed : ∀ t, (s.thr t).isWaiting = true →
    (waitingList s.mem.heap (citizenType (age t))).count (.glue t) = 1

/-- A leaver wakes the citizen that is next in line, and a citizen that was woken finds room. -/
def Orderly (s : CovidConfig τ) : Act τ Unit → Prop
  | .run t _ picks =>
      ((s.thr t).loc = .wait →
        s.mem.maxAllowed (citizenType (age t)) ≠ s.mem.current (citizenType (age t))) ∧
      ((s.thr t).loc = .vaccinated →
        (nextInLine s.mem.heap (citizenType (age t))).isSome = true →
        picks.head?.join.map CovidAddr.glue = nextInLine s.mem.heap (citizenType (age t)))
  | .spurious _ => True

instance (s : CovidConfig τ) : DecidablePred (Orderly age s)
  | .run t _ picks => inferInstanceAs (Decidable (((s.thr t).loc = .wait →
        s.mem.maxAllowed (citizenType (age t)) ≠ s.mem.current (citizenType (age t))) ∧
      ((s.thr t).loc = .vaccinated →
        (nextInLine s.mem.heap (citizenType (age t))).isSome = true →
        picks.head?.join.map CovidAddr.glue = nextInLine s.mem.heap (citizenType (age t)))))
  | .spurious _ => .isTrue trivial

/-- The list a citizen is on. -/
def listOf (thr : τ → Status CitizenType CovidLoc) (t : τ) : Option CitizenType :=
  if (thr t).isWaiting then some (citizenType (age t)) else none

/-- A citizen of this type was let in and has not left. -/
def IsInside (s : CovidConfig τ) (ctype : CitizenType) (t : τ) : Prop :=
  citizenType (age t) = ctype ∧
    ((s.thr t).loc = .inside ∧ s.mem.isVaccinated t = false ∨ (s.thr t).loc = .vaccinated)

instance (s : CovidConfig τ) (ctype : CitizenType) : DecidablePred (IsInside age s ctype) :=
  fun t => inferInstanceAs (Decidable (citizenType (age t) = ctype ∧
    ((s.thr t).loc = .inside ∧ s.mem.isVaccinated t = false ∨ (s.thr t).loc = .vaccinated)))

/-- A citizen of this type was woken and has not resumed. -/
def IsWoken (s : CovidConfig τ) (ctype : CitizenType) (t : τ) : Prop :=
  citizenType (age t) = ctype ∧ (s.thr t).isNotified = true

instance (s : CovidConfig τ) (ctype : CitizenType) : DecidablePred (IsWoken age s ctype) :=
  fun t => inferInstanceAs (Decidable (citizenType (age t) = ctype ∧ (s.thr t).isNotified = true))

/-- The waiting lists hold whoever waits, and for each type on them all room is promised to citizens that
have been woken. -/
structure CovidInv (limit : CitizenType → UInt16) (s : CovidConfig τ) : Prop where
  placed : Placed s.mem.heap .waitingList .glue (listOf age s.thr)
  waits : ∀ t c l, s.thr t = .waiting c l → c = citizenType (age t) ∧ l = .wait
  woken : ∀ t c l, s.thr t = .notified c l → l = .wait
  running : ∀ t, s.thr t ≠ .running .wait
  notVaccinated : ∀ t, (s.thr t).loc = .wait → s.mem.isVaccinated t = false
  maxAllowed : s.mem.maxAllowed = limit
  current : ∀ c, (s.mem.current c).toNat = (Finset.univ.filter (IsInside age s c)).card
  bounded : ∀ c, s.mem.current c ≤ limit c
  promised : ∀ t, (s.thr t).isWaiting = true →
    (limit (citizenType (age t))).toNat ≤ (s.mem.current (citizenType (age t))).toNat +
      (Finset.univ.filter (IsWoken age s (citizenType (age t)))).card

end Property

/-- A counter below a limit has room for one more. -/
theorem toNat_succ {n limit : UInt16} (hle : n ≤ limit) (hne : limit ≠ n) :
    (n + 1).toNat = n.toNat + 1 ∧ n + 1 ≤ limit := by
  have hle' : n.toNat ≤ limit.toNat := UInt16.le_iff_toNat_le.mp hle
  have hne' : limit.toNat ≠ n.toNat := fun h => hne (UInt16.toNat_inj.mp h)
  have hlt := limit.toNat_lt
  have hsucc : (n + 1).toNat = n.toNat + 1 := by
    rw [UInt16.toNat_add]
    show (n.toNat + 1) % 2 ^ 16 = _
    omega
  refine ⟨hsucc, ?_⟩
  rw [UInt16.le_iff_toNat_le, hsucc]
  omega

theorem toNat_pred {n : UInt16} (hpos : 0 < n.toNat) : (n - 1).toNat = n.toNat - 1 := by
  have hle : (1 : UInt16) ≤ n := by
    rw [UInt16.le_iff_toNat_le]
    exact hpos
  exact UInt16.toNat_sub_of_le _ _ hle

section Counters

variable {current limit : CitizenType → UInt16} {ctype : CitizenType}

/-- A citizen that finds room is counted, and the counters stay within the limits. -/
theorem counters_admit (hbounded : ∀ c, current c ≤ limit c) (hroom : limit ctype ≠ current ctype)
    (c : CitizenType) :
    (Function.update current ctype (current ctype + 1) c).toNat =
        (current c).toNat + (if ctype = c then 1 else 0) ∧
      Function.update current ctype (current ctype + 1) c ≤ limit c := by
  by_cases hc : ctype = c
  · subst hc
    rw [Function.update_self, if_pos rfl]
    exact toNat_succ (hbounded ctype) hroom
  · rw [Function.update_of_ne (Ne.symm hc), if_neg hc]
    exact ⟨rfl, hbounded c⟩

/-- A citizen that was counted leaves. -/
theorem counters_leave (hbounded : ∀ c, current c ≤ limit c) (hpos : 0 < (current ctype).toNat)
    (c : CitizenType) :
    (Function.update current ctype (current ctype - 1) c).toNat + (if ctype = c then 1 else 0) =
        (current c).toNat ∧
      Function.update current ctype (current ctype - 1) c ≤ limit c := by
  by_cases hc : ctype = c
  · subst hc
    have hpred := toNat_pred hpos
    have hle := UInt16.le_iff_toNat_le.mp (hbounded ctype)
    rw [Function.update_self, if_pos rfl, UInt16.le_iff_toNat_le]
    omega
  · rw [Function.update_of_ne (Ne.symm hc), if_neg hc]
    exact ⟨rfl, hbounded c⟩

end Counters

section Standing

variable {age : τ → UInt8} {limit : CitizenType → UInt16} {s s' : CovidConfig τ} {t : τ}
  {isVaccinated : τ → Bool}

theorem listOf_of_waiting {thr : τ → Status CitizenType CovidLoc} (h : (thr t).isWaiting = true) :
    listOf age thr t = some (citizenType (age t)) := if_pos h

theorem listOf_of_awake {thr : τ → Status CitizenType CovidLoc} (h : (thr t).isWaiting = false) :
    listOf age thr t = none := by
  simp [listOf, h]

theorem isWaiting_of_listOf {thr : τ → Status CitizenType CovidLoc} {c : CitizenType}
    (h : listOf age thr t = some c) : (thr t).isWaiting = true ∧ c = citizenType (age t) := by
  unfold listOf at h
  split at h
  · next hw => exact ⟨hw, (Option.some.inj h).symm⟩
  · cases h

/-- What the invariant says of a citizen in some status. -/
structure Stands (age : τ → UInt8) (t : τ) (isVaccinated : Bool) (st : Status CitizenType CovidLoc) :
    Prop where
  waits : ∀ c l, st = .waiting c l → c = citizenType (age t) ∧ l = .wait
  woken : ∀ c l, st = .notified c l → l = .wait
  running : st ≠ .running .wait
  notVaccinated : st.loc = .wait → isVaccinated = false

/-- Outside its wait a citizen may be anywhere. -/
theorem Stands.of_running {l : CovidLoc} (hl : l ≠ .wait) (isVaccinated : Bool) :
    Stands age t isVaccinated (.running l) where
  waits c l hw := by cases hw
  woken c l hw := by cases hw
  running heq := hl (Status.running.inj heq)
  notVaccinated hloc := absurd hloc hl

theorem Stands.of_waiting : Stands age t false (.waiting (citizenType (age t)) .wait) where
  waits c l hw := by
    rw [Status.waiting.injEq] at hw
    exact ⟨hw.1.symm, hw.2.symm⟩
  woken c l hw := by cases hw
  running := by simp
  notVaccinated _ := rfl

theorem Stands.of_notified (c : CitizenType) : Stands age t false (.notified c .wait) where
  waits c l hw := by cases hw
  woken c l hw := by
    rw [Status.notified.injEq] at hw
    exact hw.2.symm
  running := by simp
  notVaccinated _ := rfl

variable [Fintype τ]

theorem CovidInv.stands (h : CovidInv age limit s) (t : τ) :
    Stands age t (s.mem.isVaccinated t) (s.thr t) :=
  ⟨h.waits t, h.woken t, h.running t, h.notVaccinated t⟩

theorem CovidInv.of_stands (hplaced : Placed s.mem.heap .waitingList .glue (listOf age s.thr))
    (hstands : ∀ t, Stands age t (s.mem.isVaccinated t) (s.thr t)) (hmax : s.mem.maxAllowed = limit)
    (hcurrent : ∀ c, (s.mem.current c).toNat = (Finset.univ.filter (IsInside age s c)).card)
    (hbounded : ∀ c, s.mem.current c ≤ limit c)
    (hpromised : ∀ t, (s.thr t).isWaiting = true →
      (limit (citizenType (age t))).toNat ≤ (s.mem.current (citizenType (age t))).toNat +
        (Finset.univ.filter (IsWoken age s (citizenType (age t)))).card) : CovidInv age limit s where
  placed := hplaced
  waits t := (hstands t).waits
  woken t := (hstands t).woken
  running t := (hstands t).running
  notVaccinated t := (hstands t).notVaccinated
  maxAllowed := hmax
  current := hcurrent
  bounded := hbounded
  promised := hpromised

/-- The counter of a type with somebody inside is positive. -/
theorem CovidInv.current_pos (h : CovidInv age limit s) (hin : IsInside age s (citizenType (age t)) t) :
    0 < (s.mem.current (citizenType (age t))).toNat := by
  rw [h.current]
  exact Finset.card_pos.mpr ⟨t, Finset.mem_filter.mpr ⟨Finset.mem_univ t, hin⟩⟩

/-- The counters when a citizen leaves. -/
theorem CovidInv.leave_current (h : CovidInv age limit s) (hloc : s.thr t = .running .vaccinated)
    (hself : s'.thr t = .running .left) (hcur : s'.mem.current = Function.update s.mem.current
      (citizenType (age t)) (s.mem.current (citizenType (age t)) - 1)) :
    (∀ c, (s'.mem.current c).toNat + (if IsInside age s c t then 1 else 0) =
      (s.mem.current c).toNat + (if IsInside age s' c t then 1 else 0)) ∧
      ∀ c, s'.mem.current c ≤ limit c := by
  have hbefore : ∀ c, IsInside age s c t ↔ citizenType (age t) = c := by
    intro c
    simp [IsInside, hloc]
  have hafter : ∀ c, ¬ IsInside age s' c t := by
    rintro c ⟨-, hin⟩
    simp [hself] at hin
  have hcounters := counters_leave h.bounded (h.current_pos ((hbefore _).mpr rfl))
  constructor
  · intro c
    rw [if_neg (hafter c), hcur, Nat.add_zero, ← (hcounters c).1]
    simp only [hbefore c]
  · intro c
    rw [hcur]
    exact (hcounters c).2

/-- A citizen that makes a step outside the wait was not blocked. -/
theorem CovidInv.running_of_awake (h : CovidInv age limit s)
    (hawake : (s.thr t).isWaiting = false) {l : CovidLoc} (hl : (s.thr t).loc = l) (hne : l ≠ .wait) :
    s.thr t = .running l := by
  cases hthr : s.thr t with
  | running l' =>
      rw [hthr] at hl
      exact congrArg Status.running hl
  | waiting c l' => simp [hthr] at hawake
  | notified c l' =>
      rw [hthr] at hl
      exact absurd (hl.symm.trans (h.woken t c l' hthr)) hne

theorem CovidInv.fresh : CovidInv age limit (newCenter limit isVaccinated) where
  placed := by
    have hplaced : Placed (fun _ => Glthread.null) CovidAddr.waitingList
        (CovidAddr.glue : τ → CovidAddr τ) fun _ => none := by
      apply Placed.init
      · intro t u h
        cases h
        rfl
      · intro c d h
        cases h
        rfl
      · intro c t h
        cases h
    exact hplaced.congr fun t => rfl
  waits t c l h := by cases h
  woken t c l h := by cases h
  running t h := by cases h
  notVaccinated t h := by cases h
  maxAllowed := maxAllowed_newCenter
  current c := by
    have hnobody : Finset.univ.filter (IsInside age (newCenter limit isVaccinated) c) = ∅ := by
      apply Finset.filter_false_of_mem
      rintro t - ⟨-, ⟨hin, -⟩ | hin⟩
      · cases hin
      · cases hin
    rw [hnobody]
    rfl
  bounded c := by
    rw [UInt16.le_iff_toNat_le]
    exact Nat.zero_le _
  promised t h := by cases h

end Standing

section Step

variable [DecidableEq τ] [Fintype τ] {age : τ → UInt8} {limit : CitizenType → UInt16}
  {s s' : CovidConfig τ} {t : τ} {st : Status CitizenType CovidLoc}

/-- The cell of whoever waits is on its list once. -/
theorem CovidInv.listed (h : CovidInv age limit s) (hw : (s.thr t).isWaiting = true) :
    (waitingList s.mem.heap (citizenType (age t))).count (.glue t) = 1 := by
  obtain ⟨zs, hzs, hnodup, hmem⟩ := h.placed.iterate (citizenType (age t))
  rw [waitingList, hzs, Option.getD_some]
  exact List.count_eq_one_of_mem hnodup ((hmem t).mpr (listOf_of_waiting hw))

/-- The invariant contains the property. -/
theorem CovidInv.noneForgotten (h : CovidInv age limit s) : NoneForgotten age s where
  awaited t hw hlt := by
    have hpromised := h.promised t hw
    rw [h.maxAllowed, UInt16.lt_iff_toNat_lt] at hlt
    have hpos : 0 < (Finset.univ.filter (IsWoken age s (citizenType (age t)))).card := by omega
    obtain ⟨u, hu⟩ := Finset.card_pos.mp hpos
    exact ⟨u, (Finset.mem_filter.mp hu).2⟩
  listed t hw := h.listed hw

/-- A step that wakes nobody: the lists, the counters and the promises follow the citizen that moved. -/
theorem CovidInv.step_quiet (h : CovidInv age limit s) (hself : s'.thr t = st)
    (hother : ∀ u, u ≠ t → s'.thr u = s.thr u)
    (hst : st = .waiting (citizenType (age t)) .wait ∨ ∃ l, st = .running l ∧ l ≠ .wait)
    (hplaced : Placed s'.mem.heap .waitingList .glue
      (Function.update (listOf age s.thr) t (listOf age s'.thr t)))
    (hmax : s'.mem.maxAllowed = s.mem.maxAllowed)
    (hnot : st.loc = .wait → s'.mem.isVaccinated t = false)
    (hvacc : ∀ u, u ≠ t → s'.mem.isVaccinated u = s.mem.isVaccinated u)
    (hcurrent : ∀ c, (s'.mem.current c).toNat + (if IsInside age s c t then 1 else 0) =
      (s.mem.current c).toNat + (if IsInside age s' c t then 1 else 0))
    (hbounded : ∀ c, s'.mem.current c ≤ limit c)
    (hfull : st.isWaiting = true → limit (citizenType (age t)) = s'.mem.current (citizenType (age t)))
    (hpromised : ∀ u, u ≠ t → (s.thr u).isWaiting = true →
      (if IsInside age s (citizenType (age u)) t then 1 else 0) +
        (if IsWoken age s (citizenType (age u)) t then 1 else 0) ≤
      (if IsInside age s' (citizenType (age u)) t then 1 else 0)) :
    CovidInv age limit s' := by
  -- after its own step a citizen is not woken
  have hwoken : ∀ c, (Finset.univ.filter (IsWoken age s' c)).card +
      (if IsWoken age s c t then 1 else 0) = (Finset.univ.filter (IsWoken age s c)).card := by
    intro c
    have hno : ¬ IsWoken age s' c t := by
      rintro ⟨-, hnot⟩
      rw [hself] at hnot
      rcases hst with hst | ⟨l, hst, -⟩ <;> simp [hst, Status.isNotified] at hnot
    have hstep := card_filter_step (IsWoken age s c) (IsWoken age s' c) t (by
      intro u hu
      simp only [IsWoken, hother u hu])
    rwa [if_neg hno, Nat.add_zero] at hstep
  refine CovidInv.of_stands ?_ ?_ ?_ ?_ ?_ ?_
  · apply hplaced.congr
    intro u
    by_cases hu : u = t
    · rw [hu, Function.update_self]
    · rw [Function.update_of_ne hu]
      simp only [listOf, hother u hu]
  · intro u
    by_cases hu : u = t
    · rw [hu, hself]
      rcases hst with hst | ⟨l, hst, hl⟩
      · rw [hst, hnot (by rw [hst]; rfl)]
        exact .of_waiting
      · rw [hst]
        exact .of_running hl _
    · rw [hother u hu, hvacc u hu]
      exact h.stands u
  · exact hmax.trans h.maxAllowed
  · intro c
    have hstep := card_filter_step (IsInside age s c) (IsInside age s' c) t (by
      intro u hu
      simp only [IsInside, hother u hu, hvacc u hu])
    have hcur := hcurrent c
    rw [h.current c] at hcur
    omega
  · exact hbounded
  · intro u hu'
    have hw := hwoken (citizenType (age u))
    have hcur := hcurrent (citizenType (age u))
    by_cases hu : u = t
    · rw [hu, hself] at hu'
      rw [hu, hfull hu']
      exact Nat.le_add_right _ _
    · rw [hother u hu] at hu'
      -- what the mover gave up it had taken before
      have hprom := h.promised u hu'
      have hle := hpromised u hu hu'
      omega

/-- A citizen is let in, from outside or after its wait, and is on no list any more. -/
theorem CovidInv.step_admit (h : CovidInv age limit s) (hself : s'.thr t = .running .inside)
    (hother : ∀ u, u ≠ t → s'.thr u = s.thr u) (hawake : (s.thr t).isWaiting = false)
    (hloc : (s.thr t).loc = .outside ∨ (s.thr t).loc = .wait)
    (hroom : s.mem.maxAllowed (citizenType (age t)) ≠ s.mem.current (citizenType (age t)))
    (hnot : s.mem.isVaccinated t = false)
    (hplaced : Placed s'.mem.heap .waitingList .glue (listOf age s.thr))
    (hmem : s'.mem = { s.mem with
      heap := s'.mem.heap
      current := Function.update s.mem.current (citizenType (age t))
        (s.mem.current (citizenType (age t)) + 1) }) : CovidInv age limit s' := by
  have hcur : s'.mem.current = Function.update s.mem.current (citizenType (age t))
      (s.mem.current (citizenType (age t)) + 1) := by rw [hmem]
  have hvacc : s'.mem.isVaccinated = s.mem.isVaccinated := by rw [hmem]
  rw [h.maxAllowed] at hroom
  have hcounters := counters_admit h.bounded hroom
  have hbefore : ∀ c, ¬ IsInside age s c t := by
    rintro c ⟨-, hin⟩
    rcases hloc with hloc | hloc <;> simp [hloc] at hin
  have hafter : ∀ c, IsInside age s' c t ↔ citizenType (age t) = c := by
    intro c
    simp [IsInside, hself, hvacc, hnot]
  apply h.step_quiet hself hother (.inr ⟨.inside, rfl, by decide⟩)
  · have hsame : listOf age s'.thr t = listOf age s.thr t := by
      rw [listOf_of_awake hawake, listOf_of_awake (by rw [hself]; rfl)]
    rw [hsame, Function.update_eq_self]
    exact hplaced
  · rw [hmem]
  · intro hwait
    cases hwait
  · intro u _
    rw [hvacc]
  · intro c
    rw [if_neg (hbefore c), hcur, Nat.add_zero, (hcounters c).1]
    simp only [hafter c]
  · intro c
    rw [hcur]
    exact (hcounters c).2
  · intro hw
    cases hw
  · intro u _ _
    rw [if_neg (hbefore _)]
    by_cases hc : citizenType (age t) = citizenType (age u)
    · rw [if_pos ((hafter _).mpr hc), Nat.zero_add]
      split <;> omega
    · have hwoken : ¬ IsWoken age s (citizenType (age u)) t := fun hwoken => hc hwoken.1
      rw [if_neg hwoken]
      exact Nat.zero_le _

/-- A citizen finds no room and joins its list. -/
theorem CovidInv.step_block (h : CovidInv age limit s)
    (hself : s'.thr t = .waiting (citizenType (age t)) .wait)
    (hother : ∀ u, u ≠ t → s'.thr u = s.thr u) (hloc : s.thr t = .running .outside)
    (hfull : s.mem.maxAllowed (citizenType (age t)) = s.mem.current (citizenType (age t)))
    (hadd : glthreadAddLast (Fintype.card τ) s.mem.heap (.waitingList (citizenType (age t)))
      (.glue t) = some s'.mem.heap)
    (hnot : s.mem.isVaccinated t = false)
    (hmem : s'.mem = { s.mem with heap := s'.mem.heap }) : CovidInv age limit s' := by
  have hcur : s'.mem.current = s.mem.current := by rw [hmem]
  have hfree : listOf age s.thr t = none := listOf_of_awake (by rw [hloc]; rfl)
  have hbefore : ∀ c, ¬ IsInside age s c t := by
    rintro c ⟨-, hin⟩
    simp [hloc] at hin
  have hafter : ∀ c, ¬ IsInside age s' c t := by
    rintro c ⟨-, hin⟩
    simp [hself] at hin
  obtain ⟨hp', hadd', hplaced⟩ := h.placed.addLast (citizenType (age t)) hfree
  rw [hadd, Option.some.injEq] at hadd'
  apply h.step_quiet hself hother (.inl rfl)
  · rw [hadd', listOf_of_waiting (by rw [hself]; rfl)]
    exact hplaced
  · rw [hmem]
  · intro _
    rw [hmem]
    exact hnot
  · intro u _
    rw [hmem]
  · intro c
    rw [if_neg (hbefore c), if_neg (hafter c), hcur]
  · intro c
    rw [hcur]
    exact h.bounded c
  · intro _
    rw [hcur, ← h.maxAllowed]
    exact hfull
  · intro u _ _
    have hwoken : ¬ IsWoken age s (citizenType (age u)) t := by
      rintro ⟨-, hnot⟩
      rw [hloc] at hnot
      cases hnot
    rw [if_neg (hbefore _), if_neg hwoken]
    exact Nat.zero_le _

/-- A citizen moves on outside the monitor. -/
theorem CovidInv.step_outside (h : CovidInv age limit s) {l : CovidLoc} (hl : l ≠ .wait)
    (hself : s'.thr t = .running l) (hother : ∀ u, u ≠ t → s'.thr u = s.thr u)
    (hloc : (s.thr t).loc ≠ .wait)
    (hin : ∀ c, IsInside age s' c t ↔ IsInside age s c t)
    (hmem : s'.mem = { s.mem with isVaccinated := s'.mem.isVaccinated })
    (hvacc : ∀ u, u ≠ t → s'.mem.isVaccinated u = s.mem.isVaccinated u) :
    CovidInv age limit s' := by
  have hrunning : (s.thr t).isWaiting = false ∧ (s.thr t).isNotified = false := by
    cases hthr : s.thr t with
    | running l => exact ⟨rfl, rfl⟩
    | waiting c l =>
        rw [hthr] at hloc
        exact absurd (h.waits t c l hthr).2 hloc
    | notified c l =>
        rw [hthr] at hloc
        exact absurd (h.woken t c l hthr) hloc
  apply h.step_quiet hself hother (.inr ⟨l, rfl, hl⟩)
  · have hsame : listOf age s'.thr t = listOf age s.thr t := by
      rw [listOf_of_awake hrunning.1, listOf_of_awake (by rw [hself]; rfl)]
    rw [hsame, Function.update_eq_self, hmem]
    exact h.placed
  · rw [hmem]
  · intro hwait
    exact absurd hwait hl
  · exact hvacc
  · intro c
    rw [hmem, if_congr (hin c) rfl rfl]
  · intro c
    rw [hmem]
    exact h.bounded c
  · intro hw
    cases hw
  · intro u _ _
    have hwoken : ¬ IsWoken age s (citizenType (age u)) t := by
      rintro ⟨-, hnot⟩
      rw [hrunning.2] at hnot
      cases hnot
    rw [if_neg hwoken, Nat.add_zero, if_congr (hin _) rfl rfl]

end Step

section Leave

variable [DecidableEq τ] [Fintype τ] {age : τ → UInt8} {limit : CitizenType → UInt16}
  {s s' : CovidConfig τ} {t : τ}

/-- A citizen leaves and nobody waits. -/
theorem CovidInv.step_leave (h : CovidInv age limit s) (hloc : s.thr t = .running .vaccinated)
    (hself : s'.thr t = .running .left) (hother : ∀ u, u ≠ t → s'.thr u = s.thr u)
    (hnobody : ∀ u, listOf age s.thr u = none)
    (hmem : s'.mem = { s.mem with
      current := Function.update s.mem.current (citizenType (age t))
        (s.mem.current (citizenType (age t)) - 1) }) : CovidInv age limit s' := by
  obtain ⟨hcurrent, hbounded⟩ := h.leave_current hloc hself (by rw [hmem])
  apply h.step_quiet hself hother (.inr ⟨.left, rfl, by decide⟩)
  · have hsame : listOf age s'.thr t = listOf age s.thr t := by
      rw [hnobody, listOf_of_awake (by rw [hself]; rfl)]
    rw [hsame, Function.update_eq_self, hmem]
    exact h.placed
  · rw [hmem]
  · intro hwait
    cases hwait
  · intro u _
    rw [hmem]
  · exact hcurrent
  · exact hbounded
  · intro hw
    cases hw
  · intro u _ hw
    have hno := hnobody u
    rw [listOf_of_waiting hw] at hno
    cases hno

/-- A citizen leaves and wakes the one it took off a list. -/
theorem CovidInv.step_leaveTo (h : CovidInv age limit s) (hloc : s.thr t = .running .vaccinated)
    {u : τ} {c : CitizenType} {l : CovidLoc} (hu : s.thr u = .waiting c l)
    (hthr : s'.thr = Function.update (Function.update s.thr u (.notified c l)) t (.running .left))
    (hown : citizenType (age u) = citizenType (age t) ∨
      ∀ v, listOf age s.thr v ≠ some (citizenType (age t)))
    (hmem : s'.mem = { s.mem with
      heap := removeGlthread s.mem.heap (.glue u)
      current := Function.update s.mem.current (citizenType (age t))
        (s.mem.current (citizenType (age t)) - 1) }) : CovidInv age limit s' := by
  obtain ⟨rfl, rfl⟩ := h.waits u c l hu
  have hut : u ≠ t := by
    rintro rfl
    rw [hloc] at hu
    cases hu
  have hself : s'.thr t = .running .left := by rw [hthr, Function.update_self]
  have hnew : s'.thr u = .notified (citizenType (age u)) .wait := by
    rw [hthr, Function.update_of_ne hut, Function.update_self]
  have hother : ∀ v, v ≠ u → v ≠ t → s'.thr v = s.thr v := by
    intro v hvu hvt
    rw [hthr, Function.update_of_ne hvt, Function.update_of_ne hvu]
  obtain ⟨hcurrent, hbounded⟩ := h.leave_current hloc hself (by rw [hmem])
  -- who waits now waited before, and is neither of the two
  have hwaits : ∀ v, (s'.thr v).isWaiting = true → v ≠ u ∧ v ≠ t ∧ s'.thr v = s.thr v := by
    intro v hv
    have hvu : v ≠ u := by
      rintro rfl
      rw [hnew] at hv
      cases hv
    have hvt : v ≠ t := by
      rintro rfl
      rw [hself] at hv
      cases hv
    exact ⟨hvu, hvt, hother v hvu hvt⟩
  refine CovidInv.of_stands ?_ ?_ ?_ ?_ ?_ ?_
  · rw [hmem]
    apply (h.placed.remove u).congr
    intro v
    by_cases hvu : v = u
    · rw [hvu, Function.update_self, listOf_of_awake (by rw [hnew]; rfl)]
    · rw [Function.update_of_ne hvu]
      by_cases hvt : v = t
      · rw [hvt, listOf_of_awake (by rw [hself]; rfl), listOf_of_awake (by rw [hloc]; rfl)]
      · simp only [listOf, hother v hvu hvt]
  · intro v
    rw [hmem]
    by_cases hvu : v = u
    · rw [hvu, hnew]
      show Stands age u (s.mem.isVaccinated u) _
      rw [h.notVaccinated u (by rw [hu]; rfl)]
      exact .of_notified _
    · by_cases hvt : v = t
      · rw [hvt, hself]
        exact .of_running (by decide) _
      · rw [hother v hvu hvt]
        exact h.stands v
  · rw [hmem]
    exact h.maxAllowed
  · intro c
    have hstep := card_filter_step (IsInside age s c) (IsInside age s' c) t (by
      intro v hv
      by_cases hvu : v = u
      · rw [hvu]
        simp [IsInside, hu, hnew]
      · simp only [IsInside, hother v hvu hv, hmem])
    have hcur := hcurrent c
    rw [h.current c] at hcur
    omega
  · exact hbounded
  · intro v hv
    obtain ⟨hvu, hvt, heq⟩ := hwaits v hv
    rw [heq] at hv
    have hprom := h.promised v hv
    have hwoken := card_filter_step (IsWoken age s (citizenType (age v)))
      (IsWoken age s' (citizenType (age v))) u (by
        intro w hwu
        by_cases hwt : w = t
        · rw [hwt]
          simp [IsWoken, hself, hloc, Status.isNotified]
        · simp only [IsWoken, hother w hwu hwt])
    have hbefore : ¬ IsWoken age s (citizenType (age v)) u := by
      rintro ⟨-, hnot⟩
      rw [hu] at hnot
      cases hnot
    rw [if_neg hbefore] at hwoken
    have hcur := hcurrent (citizenType (age v))
    by_cases hc : citizenType (age t) = citizenType (age v)
    · -- a place is free and the citizen that was woken is of the same type
      have hsame : citizenType (age u) = citizenType (age v) := by
        rcases hown with hown | hno
        · exact hown.trans hc
        · rw [hc] at hno
          exact absurd (listOf_of_waiting hv) (hno v)
      have hafter : IsWoken age s' (citizenType (age v)) u := ⟨hsame, by rw [hnew]; rfl⟩
      rw [if_pos hafter] at hwoken
      split at hcur <;> split at hcur <;> omega
    · have hnotIn : ¬ IsInside age s (citizenType (age v)) t := fun hin => hc hin.1
      rw [if_neg hnotIn] at hcur
      split at hwoken <;> omega

end Leave

section Runs

variable [DecidableEq τ] [Fintype τ] {age : τ → UInt8} {limit : CitizenType → UInt16}
  {isVaccinated : τ → Bool} {s s' : CovidConfig τ} {t : τ} {picks : List (Option τ)}

/-- A step of a citizen, if it keeps the order, keeps the invariant. -/
theorem CovidInv.step (h : CovidInv age limit s) (horder : Orderly age s (.run t () picks))
    (hstep : (covidProgram age).step s (.run t () picks) = .next s') : CovidInv age limit s' := by
  obtain ⟨notes, st, hran⟩ := Program.ran_of_step hstep
  have hself := hran.self
  have hexec := hran.exec
  have hmove := covidMove_of_exec (x := ()) hexec
  have hother : notes = [] → ∀ u, u ≠ t → s'.thr u = s.thr u := by
    intro hnil u hu
    subst hnil
    exact hran.other_of_nil hu
  -- `Orderly` says what the step does not do
  obtain ⟨hwait, hpick⟩ := horder
  generalize hl : (s.thr t).loc = l at hmove hwait hpick
  generalize hm : s'.mem = m' at hmove hexec
  cases hmove with
  | pass hyes =>
      apply h.step_outside (l := .inside) (by decide) hself (hother rfl) (by simp [hl])
      · intro c
        simp [IsInside, hself, hl, hm, hyes]
      · rw [hm]
      · intro u _
        rw [hm]
  | block hnot hadd hfull =>
      -- a citizen without room goes on the list
      have hloc := h.running_of_awake hran.awake hl (by decide)
      apply h.step_block hself (hother rfl) hloc hfull _ hnot
      · rw [hm]
      · rw [hm]
        exact hadd
  | @enter heap hnot hadd hroom =>
      apply h.step_admit hself (hother rfl) hran.awake (.inl hl) hroom hnot
      · have hfree : listOf age s.thr t = none := listOf_of_awake hran.awake
        obtain ⟨hp', hadd', hplaced⟩ := h.placed.addLast (citizenType (age t)) hfree
        rw [hadd, Option.some.injEq] at hadd'
        rw [hm, hadd']
        have hremoved := hplaced.remove t
        rw [Function.update_idem, ← hfree, Function.update_eq_self] at hremoved
        exact hremoved
      · rw [hm]
  | again hfull => exact absurd hfull (hwait rfl)
  | resume hroom =>
      apply h.step_admit hself (hother rfl) hran.awake (.inr hl) hroom (h.notVaccinated t hl)
      · have hfree : listOf age s.thr t = none := listOf_of_awake hran.awake
        have hremoved := h.placed.remove t
        rw [← hfree, Function.update_eq_self] at hremoved
        rw [hm]
        exact hremoved
      · rw [hm]
  | apply hnot =>
      apply h.step_outside (l := .vaccinated) (by decide) hself (hother rfl) (by simp [hl])
      · intro c
        simp [IsInside, hself, hl, hnot]
      · rw [hm]
      · intro u hu
        rw [hm]
        exact Function.update_of_ne hu _ _
  | leave hyes hnext =>
      have hloc := h.running_of_awake hran.awake hl (by decide)
      apply h.step_leave hloc hself (hother rfl) _ hm
      -- nobody is taken off a list, so all lists are empty
      rcases defaultNextCitizen_spec h.placed (citizenType (age t)) with
        ⟨-, -, hno⟩ | ⟨u, c, -, hsome, -⟩
      · exact hno
      · rw [hnext] at hsome
        cases hsome
  | @leaveTo u heap hyes hnext =>
      have hloc := h.running_of_awake hran.awake hl (by decide)
      rcases defaultNextCitizen_spec h.placed (citizenType (age t)) with
        ⟨hnone, -⟩ | ⟨u', c, hu', hsome, hline, hown⟩
      · rw [hnext] at hnone
        cases hnone
      · rw [hnext, Option.some.injEq, Prod.mk.injEq] at hsome
        obtain ⟨rfl, hheap⟩ := hsome
        obtain ⟨hw, rfl⟩ := isWaiting_of_listOf hu'
        rw [hline] at hpick
        -- the signal reaches the citizen whose cell was taken off
        have hpicked := hpick rfl rfl
        rcases Program.pick_of_step hexec hstep with ⟨hnone, -⟩ | ⟨v, lv, hv, -, hvw, hthr⟩
        · rw [hnone] at hpicked
          cases hpicked
        · rw [hv, Option.map_some, Option.some.injEq, CovidAddr.glue.injEq] at hpicked
          subst hpicked
          exact h.step_leaveTo hloc hvw hthr hown (by rw [hm, hheap])

/-- Whoever is not on its list is not counted there. -/
theorem count_eq_zero {hp : Heap (CovidAddr τ)} {place : τ → Option CitizenType}
    (h : Placed hp .waitingList .glue place) {c : CitizenType} (ht : place t ≠ some c) :
    (waitingList hp c).count (.glue t) = 0 := by
  obtain ⟨zs, hzs, -, hmem⟩ := h.iterate c
  rw [waitingList, hzs, Option.getD_some, List.count_eq_zero]
  exact fun hin => ht ((hmem t).mp hin)

/-- A step of a citizen that does not keep the order leaves a citizen waiting that is on no list. -/
theorem CovidInv.not_noneForgotten (h : CovidInv age limit s)
    (horder : ¬ Orderly age s (.run t () picks))
    (hstep : (covidProgram age).step s (.run t () picks) = .next s') : ¬ NoneForgotten age s' := by
  intro hnone
  obtain ⟨notes, st, hran⟩ := Program.ran_of_step hstep
  have hself := hran.self
  have hexec := hran.exec
  have hmove := covidMove_of_exec (x := ()) hexec
  change ¬ (((s.thr t).loc = .wait → _) ∧ ((s.thr t).loc = .vaccinated → _)) at horder
  generalize hl : (s.thr t).loc = l at hmove horder
  generalize hm : s'.mem = m' at hmove hexec
  cases hmove with
  | again hfull =>
      -- the citizen had been taken off its list before it was woken
      have hfree : listOf age s.thr t ≠ some (citizenType (age t)) := by
        rw [listOf_of_awake hran.awake]
        simp
      have hlisted := hnone.listed t (by rw [hself]; rfl)
      rw [hm, count_eq_zero h.placed hfree] at hlisted
      cases hlisted
  | resume hroom => exact horder ⟨fun _ => hroom, fun hl' => (by cases hl')⟩
  | @leaveTo u heap hyes hnext =>
      have hloc := h.running_of_awake hran.awake hl (by decide)
      rcases defaultNextCitizen_spec h.placed (citizenType (age t)) with
        ⟨hno, -⟩ | ⟨u', c, hu', hsome, hline, -⟩
      · rw [hnext] at hno
        cases hno
      · rw [hnext, Option.some.injEq, Prod.mk.injEq] at hsome
        obtain ⟨rfl, hheap⟩ := hsome
        obtain ⟨hw, rfl⟩ := isWaiting_of_listOf hu'
        obtain ⟨c, lu, hu⟩ := Status.isWaiting_iff.mp hw
        obtain ⟨rfl, rfl⟩ := h.waits u c lu hu
        rcases Program.pick_of_step hexec hstep with ⟨-, hno, -⟩ | ⟨v, lv, hv, -, -, hthr⟩
        · exact hno u .wait hu
        · -- the signal reached another citizen
          have hvu : u ≠ v := by
            rintro rfl
            apply horder
            rw [hline, hv]
            exact ⟨fun hl' => (by cases hl'), fun _ _ => rfl⟩
          have hut : u ≠ t := by
            rintro rfl
            rw [hloc] at hu
            cases hu
          have hwaits : (s'.thr u).isWaiting = true := by
            rw [hthr, Function.update_of_ne hut, Function.update_of_ne hvu]
            exact hw
          have hfree : Function.update (listOf age s.thr) u none u ≠ some (citizenType (age u)) := by
            rw [Function.update_self]
            simp
          have hlisted := hnone.listed u hwaits
          rw [hm, hheap] at hlisted
          rw [count_eq_zero (h.placed.remove u) hfree] at hlisted
          cases hlisted
  | leave hyes hnext =>
      apply horder
      refine ⟨fun hl' => (by cases hl'), fun _ hsome => ?_⟩
      rcases defaultNextCitizen_spec h.placed (citizenType (age t)) with
        ⟨-, hline, -⟩ | ⟨u, c, -, hnext', -⟩
      · rw [hline] at hsome
        cases hsome
      · rw [hnext] at hnext'
        cases hnext'
  | _ => exact horder ⟨fun hl' => (by cases hl'), fun hl' => (by cases hl')⟩

theorem reachable_covidInv
    (hs : (covidMachine age limit isVaccinated).ReachableUnder (Orderly age) s) :
    CovidInv age limit s := by
  refine hs.invariant ?_ ?_
  · rintro _ rfl
    exact CovidInv.fresh
  · intro s a s' h horder hstep
    cases a with
    | run t x picks => exact h.step horder hstep
    | spurious t =>
        have hno := (Program.spurious_of_step hstep).1
        cases hno

/-- **No citizen is forgotten** in any run whose steps keep the order, for any capacities and any
number of citizens; and the first step that does not keep it leaves a waiting citizen off its
list. -/
theorem covid_noneForgotten
    (hs : (covidMachine age limit isVaccinated).ReachableUnder (Orderly age) s) :
    NoneForgotten age s ∧ ∀ a s', (covidMachine age limit isVaccinated).step s a = .next s' →
      (NoneForgotten age s' ↔ Orderly age s a) := by
  have h := reachable_covidInv hs
  refine ⟨h.noneForgotten, ?_⟩
  rintro (⟨t, x, picks⟩ | t) s' hstep
  · constructor
    · intro hnone
      by_contra horder
      exact h.not_noneForgotten horder hstep hnone
    · intro horder
      exact (h.step horder hstep).noneForgotten
  · have hno := (Program.spurious_of_step hstep).1
    cases hno

end Runs

/-- A teenager and two adults. -/
def threeAges : Fin 3 → UInt8
  | 0 => 14
  | 1 => 30
  | 2 => 35

/-- The second adult waits until the first one leaves. -/
theorem covid_noneForgotten_trace : ∃ s : CovidConfig (Fin 3), NoneForgotten threeAges s ∧
    (s.thr 2).isNotified = true ∧ s.mem.current .adult = 0 := by
  have hrun : ((covidMachine threeAges (fun _ => 1) fun _ => false).execUnder
      (fun s a => decide (Orderly threeAges s a)) (newCenter (fun _ => 1) fun _ => false)
      ([1, 2, 1, 1].map fun t => .run t () [some 2])).holds
      (fun s => decide ((s.thr 2).isNotified = true ∧ s.mem.current .adult = 0)) = true := by
    decide +kernel
  obtain ⟨s, hs, hp⟩ := Outcome.holds_iff.mp hrun
  have hreach := (Machine.reachableUnder_of_execUnder (.init rfl) hs).mono
    fun s a hcond => of_decide_eq_true hcond
  exact ⟨s, (covid_noneForgotten hreach).1, of_decide_eq_true hp⟩

/-- The teenager leaves first and takes the second adult off the list, which finds no room and waits
again, on no list.  When the first adult leaves it wakes nobody. -/
theorem covid_noneForgotten_fails : ∃ s : CovidConfig (Fin 3),
    (covidMachine threeAges (fun _ => 1) fun _ => false).Reachable s ∧ ¬ NoneForgotten threeAges s := by
  have hrun : ((covidMachine threeAges (fun _ => 1) fun _ => false).exec
      (newCenter (fun _ => 1) fun _ => false)
      ([0, 1, 2, 0, 0, 2, 1, 1].map fun t => .run t () [some 2])).holds
      (fun s => decide ((s.thr 2).isWaiting = true ∧
        s.mem.current .adult < s.mem.maxAllowed .adult ∧
        ∀ u, (s.thr u).isNotified = false)) = true := by
    decide +kernel
  obtain ⟨s, hs, hp⟩ := Machine.exists_reachable_of_exec rfl hrun
  obtain ⟨hw, hlt, hno⟩ := of_decide_eq_true hp
  refine ⟨s, hs, fun hnone => ?_⟩
  obtain ⟨u, -, hu⟩ := hnone.awaited 2 hw hlt
  rw [hno u] at hu
  cases hu

end CovidCenter
end MultithreadingBible
