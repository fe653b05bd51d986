import MultithreadingBible.StudentCrud.Counting

/-!
# Students are destroyed once, by the last thread that uses them

* `LogsOk` — who brought counts to zero and who destroyed students.
* `CrudInv` — the whole invariant, over all runs with room in the counts.
* `Safe` — what the program promises about its students.
-/

namespace MultithreadingBible
namespace StudentCrud

open Lib RefCounted

variable {τ : Type*}

section Moves

variable {m m' : Crud τ} {t : τ} {l l' : CrudLoc}

/-- A move brings a count to zero, destroys a student, or does nothing of the kind. -/
theorem CrudMove.logs (h : CrudMove m t l m' l') :
    (m'.zeroed = m.zeroed ∧ m'.destroyed = m.destroyed ∧ ∀ o, l ≠ .destroy o ∧ l' ≠ .destroy o) ∨
    (∃ o, l = .done o ∧ l' = .destroy o ∧ m'.zeroed = m.zeroed ++ [(o, t)] ∧
      m'.destroyed = m.destroyed) ∨
    ∃ o, l = .destroy o ∧ l' = .idle ∧ m'.zeroed = m.zeroed ∧
      m'.destroyed = m.destroyed ++ [(o, t)] ∧ m'.students o = none := by
  cases h with
  | @zero o stud _ _ => exact .inr (.inl ⟨o, rfl, rfl, rfl, rfl⟩)
  | @destroy o stud _ => exact .inr (.inr ⟨o, rfl, rfl, rfl, rfl, Function.update_self _ _ _⟩)
  | enter hl _ => exact .inl ⟨rfl, rfl, fun o => by cases hl <;> simp⟩
  | leave hl _ => exact .inl ⟨rfl, rfl, fun o => by cases hl <;> simp⟩
  | look hl => exact .inl ⟨rfl, rfl, fun o => by cases hl <;> simp⟩
  | _ => exact .inl ⟨rfl, rfl, fun o => by simp⟩

/-- Addresses are not used again. -/
theorem CrudMove.stays_free (h : CrudMove m t l m' l') {o : Nat} (ho : o < m.next)
    (hnone : m.students o = none) : m'.students o = none ∧ o < m'.next := by
  have hset : ∀ {o' : Nat} {stud : Student} (x : Option Student), m.students o' = some stud →
      Function.update m.students o' x o = none := by
    intro o' stud x hstud
    have hne : o ≠ o' := by
      rintro rfl
      rw [hnone] at hstud
      cases hstud
    rw [Function.update_of_ne hne]
    exact hnone
  cases h with
  | use hstud => exact ⟨hset _ hstud, ho⟩
  | lockStudent hstud _ => exact ⟨hset _ hstud, ho⟩
  | work _ hstud => exact ⟨hset _ hstud, ho⟩
  | unlockStudent hstud _ => exact ⟨hset _ hstud, ho⟩
  | drop hstud _ _ => exact ⟨hset _ hstud, ho⟩
  | zero hstud _ => exact ⟨hset _ hstud, ho⟩
  | destroy hstud => exact ⟨hset _ hstud, ho⟩
  | countIn hstud => exact ⟨hset _ hstud, ho⟩
  | useRemoved hstud => exact ⟨hset _ hstud, ho⟩
  | countOut hstud _ => exact ⟨hset _ hstud, ho⟩
  | malloc =>
      exact ⟨(Function.update_of_ne (Nat.ne_of_lt ho) _ _).trans hnone, Nat.lt_succ_of_lt ho⟩
  | _ => exact ⟨hnone, ho⟩

theorem CrudMove.next_le (h : CrudMove m t l m' l') : m.next ≤ m'.next := by
  cases h with
  | malloc => exact Nat.le_succ m.next
  | _ => exact Nat.le_refl m.next

end Moves

section Invariant

variable [Fintype τ] {s s' : CrudConfig τ} {t : τ} {l' : CrudLoc}

/-- The logs fit the students and the threads. -/
structure LogsOk (s : CrudConfig τ) : Prop where
  destroyed : ∀ p ∈ s.mem.destroyed,
    s.mem.students p.1 = none ∧ p.1 < s.mem.next ∧ p ∈ s.mem.zeroed
  destroyedOnce : (s.mem.destroyed.map Prod.fst).Nodup
  zeroed : ∀ p ∈ s.mem.zeroed, p ∈ s.mem.destroyed ∨ (s.thr p.2).loc = .destroy p.1
  zeroedOnce : (s.mem.zeroed.map Prod.fst).Nodup
  dying : ∀ t o, (s.thr t).loc = .destroy o → (o, t) ∈ s.mem.zeroed

omit [Fintype τ] in
/-- An allocated student is not in the log of the destroyed ones. -/
theorem LogsOk.not_destroyed (h : LogsOk s) {o : Nat} {stud : Student}
    (hstud : s.mem.students o = some stud) : o ∉ s.mem.destroyed.map Prod.fst := by
  intro ho
  obtain ⟨p, hp, rfl⟩ := List.mem_map.mp ho
  rw [(h.destroyed p hp).1] at hstud
  cases hstud

/-- The count of a student that somebody uses has not been zero. -/
theorem LogsOk.not_zeroed (h : LogsOk s) (hlist : ListOk s) {o : Nat}
    (hrole : (s.thr t).loc.role o = some .user) : o ∉ s.mem.zeroed.map Prod.fst := by
  intro ho
  obtain ⟨p, hp, rfl⟩ := List.mem_map.mp ho
  obtain ⟨stud, hstud⟩ := hlist.allocated_of_role hrole
  rcases h.zeroed p hp with hdestroyed | hdestroy
  · exact h.not_destroyed hstud (List.mem_map_of_mem hdestroyed)
  · have hdying : (s.thr p.2).loc.role p.1 = some .dying := by
      rw [hdestroy]
      exact CrudLoc.role_self rfl
    obtain ⟨honly, -⟩ := (hlist.phase p.1).of_dying (roleCount_pos hdying)
    have hpos := roleCount_pos hrole
    rw [honly .user] at hpos
    cases hpos

omit [Fintype τ] in
/-- The logs when nobody gets to `student_destroy` or leaves it. -/
theorem LogsOk.step_still (h : LogsOk s) (hstep : Stepped s t s' l')
    (hzeroed : s'.mem.zeroed = s.mem.zeroed) (hdestroyed : s'.mem.destroyed = s.mem.destroyed)
    (hno : ∀ o, (s.thr t).loc ≠ .destroy o ∧ l' ≠ .destroy o) : LogsOk s' where
  destroyed p hp := by
    rw [hdestroyed] at hp
    obtain ⟨hnone, hlt, hmem⟩ := h.destroyed p hp
    rw [hzeroed]
    exact ⟨(hstep.move.stays_free hlt hnone).1, (hstep.move.stays_free hlt hnone).2, hmem⟩
  destroyedOnce := by
    rw [hdestroyed]
    exact h.destroyedOnce
  zeroed p hp := by
    rw [hzeroed] at hp
    rw [hdestroyed]
    rcases h.zeroed p hp with hgone | hloc
    · exact .inl hgone
    · have hne : p.2 ≠ t := by
        intro ht
        rw [ht] at hloc
        exact (hno p.1).1 hloc
      exact .inr ((hstep.other p.2 hne).trans hloc)
  zeroedOnce := by
    rw [hzeroed]
    exact h.zeroedOnce
  dying u o hu := by
    rw [hzeroed]
    by_cases hut : u = t
    · rw [hut, hstep.self] at hu
      exact absurd hu (hno o).2
    · rw [hstep.other u hut] at hu
      exact h.dying u o hu

/-- The logs when a count becomes zero. -/
theorem LogsOk.step_zero (h : LogsOk s) (hlist : ListOk s) (hstep : Stepped s t s' l') {o : Nat}
    (hl : (s.thr t).loc = .done o) (hl' : l' = .destroy o)
    (hzeroed : s'.mem.zeroed = s.mem.zeroed ++ [(o, t)])
    (hdestroyed : s'.mem.destroyed = s.mem.destroyed) : LogsOk s' where
  destroyed p hp := by
    rw [hdestroyed] at hp
    obtain ⟨hnone, hlt, hmem⟩ := h.destroyed p hp
    rw [hzeroed]
    exact ⟨(hstep.move.stays_free hlt hnone).1, (hstep.move.stays_free hlt hnone).2,
      List.mem_append_left _ hmem⟩
  destroyedOnce := by
    rw [hdestroyed]
    exact h.destroyedOnce
  zeroed p hp := by
    rw [hzeroed] at hp
    rw [hdestroyed]
    rcases List.mem_append.mp hp with hp | hp
    · rcases h.zeroed p hp with hgone | hloc
      · exact .inl hgone
      · have hne : p.2 ≠ t := by
          intro ht
          rw [ht, hl] at hloc
          cases hloc
        exact .inr ((hstep.other p.2 hne).trans hloc)
    · rw [List.mem_singleton.mp hp]
      exact .inr (hstep.self.trans hl')
  zeroedOnce := by
    have hrole : (s.thr t).loc.role o = some .user := by
      rw [hl]
      exact CrudLoc.role_self rfl
    have hfirst := h.not_zeroed hlist hrole
    rw [hzeroed, List.map_append, List.nodup_append]
    refine ⟨h.zeroedOnce, List.nodup_singleton _, ?_⟩
    intro o₁ ho₁ o₂ ho₂ heq
    rw [heq, List.mem_singleton.mp ho₂] at ho₁
    exact hfirst ho₁
  dying u o' hu := by
    rw [hzeroed]
    by_cases hut : u = t
    · rw [hut, hstep.self, hl'] at hu
      cases hu
      rw [hut]
      exact List.mem_append_right _ (List.mem_singleton_self _)
    · rw [hstep.other u hut] at hu
      exact List.mem_append_left _ (h.dying u o' hu)

/-- The logs when a student is destroyed. -/
theorem LogsOk.step_destroy (h : LogsOk s) (hlist : ListOk s) (hstep : Stepped s t s' l') {o : Nat}
    (hl : (s.thr t).loc = .destroy o) (hl' : l' = .idle)
    (hzeroed : s'.mem.zeroed = s.mem.zeroed)
    (hdestroyed : s'.mem.destroyed = s.mem.destroyed ++ [(o, t)])
    (hnone : s'.mem.students o = none) : LogsOk s' := by
  -- the student was there: its destroyer is the one that counted it down to zero
  have hrole : (s.thr t).loc.role o = some .dying := by
    rw [hl]
    exact CrudLoc.role_self rfl
  obtain ⟨stud, hstud⟩ := hlist.allocated_of_role hrole
  have hlt : o < s.mem.next := by
    by_contra hge
    rw [hlist.fresh o (Nat.le_of_not_lt hge)] at hstud
    cases hstud
  constructor
  · intro p hp
    rw [hdestroyed] at hp
    rw [hzeroed]
    rcases List.mem_append.mp hp with hp | hp
    · obtain ⟨hgone, hlt, hmem⟩ := h.destroyed p hp
      exact ⟨(hstep.move.stays_free hlt hgone).1, (hstep.move.stays_free hlt hgone).2, hmem⟩
    · rw [List.mem_singleton.mp hp]
      exact ⟨hnone, Nat.lt_of_lt_of_le hlt hstep.move.next_le, h.dying t o hl⟩
  · -- and so it was not destroyed before
    have hfirst := h.not_destroyed hstud
    rw [hdestroyed, List.map_append, List.nodup_append]
    refine ⟨h.destroyedOnce, List.nodup_singleton _, ?_⟩
    intro o₁ ho₁ o₂ ho₂ heq
    rw [heq, List.mem_singleton.mp ho₂] at ho₁
    exact hfirst ho₁
  · intro p hp
    rw [hzeroed] at hp
    rw [hdestroyed]
    rcases h.zeroed p hp with hgone | hloc
    · exact .inl (List.mem_append_left _ hgone)
    · by_cases hpt : p.2 = t
      · rw [hpt, hl] at hloc
        cases hloc
        apply Or.inl
        apply List.mem_append_right
        rw [← hpt]
        exact List.mem_singleton_self _
      · exact .inr ((hstep.other p.2 hpt).trans hloc)
  · rw [hzeroed]
    exact h.zeroedOnce
  · intro u o' hu
    rw [hzeroed]
    by_cases hut : u = t
    · rw [hut, hstep.self, hl'] at hu
      cases hu
    · rw [hstep.other u hut] at hu
      exact h.dying u o' hu

theorem LogsOk.step (h : LogsOk s) (hlist : ListOk s) (hstep : Stepped s t s' l') : LogsOk s' := by
  rcases hstep.move.logs with
    ⟨hzeroed, hdestroyed, hno⟩ | ⟨o, hl, hl', hzeroed, hdestroyed⟩ |
      ⟨o, hl, hl', hzeroed, hdestroyed, hnone⟩
  · exact h.step_still hstep hzeroed hdestroyed hno
  · exact h.step_zero hlist hstep hl hl' hzeroed hdestroyed
  · exact h.step_destroy hlist hstep hl hl' hzeroed hdestroyed hnone

/-- What holds in every state as long as there is room in the counts. -/
structure CrudInv (s : CrudConfig τ) : Prop where
  locks : LocksOk s
  list : ListOk s
  logs : LogsOk s

theorem CrudInv.fresh : CrudInv (freshCrud τ) where
  locks := by
    have hlist : ∀ w, tally (freshCrud τ).thr (fun l => (l.holds w).toNat) = 0 := by
      intro w
      rw [tally_eq_zero]
      exact fun t => rfl
    constructor
    · rw [hlist, hlist]
      exact .free
    · intro o stud hstud
      cases hstud
  list := by
    constructor
    · intro o
      apply Phase.absent _ rfl
      intro r
      have hzero : roleCount (freshCrud τ).thr o r = 0 := by
        unfold roleCount
        rw [tally_eq_zero]
        exact fun t => rfl
      rw [hzero]
      rfl
    · exact List.nodup_nil
    · rfl
    · intro o ho
      cases ho
    · intro t o ht
      cases ht
    · intro t rollNo ht
      cases ht
    · exact fun o _ => rfl
  logs := by
    constructor
    · intro p hp
      cases hp
    · exact List.nodup_nil
    · intro p hp
      cases hp
    · exact List.nodup_nil
    · intro t o ht
      cases ht

/-- The counts about to be incremented, and the counter about to be relied on, have not wrapped around. -/
def RoomToCount (s : CrudConfig τ) : Act τ UInt32 → Prop
  | .run t _ _ => Room s.mem (s.thr t).loc
  | .spurious _ => True

instance (s : CrudConfig τ) : DecidablePred (RoomToCount s)
  | .run t _ _ => inferInstanceAs (Decidable (Room s.mem (s.thr t).loc))
  | .spurious _ => .isTrue trivial

variable [DecidableEq τ] {kind : τ → ThType}

/-- A step of the program is one of the moves. -/
theorem CrudInv.stepped (h : CrudInv s) {x : UInt32} (hroom : Room s.mem (s.thr t).loc)
    {notes : List (Note Empty)} {st : Status Empty CrudLoc}
    (hran : (crudProgram kind).Ran s t x s' notes st) : Stepped s t s' st.loc := by
  have hready := h.list.ready h.locks t hroom
  rcases crudExec_moves kind x hready with hblocked | ⟨m', l', hdone, hmove⟩
  · exact absurd (hblocked.symm.trans hran.exec) (by simp)
  · have heq := hdone.symm.trans hran.exec
    rw [Effect.done.injEq] at heq
    obtain ⟨hm, rfl, rfl⟩ := heq
    refine ⟨hm ▸ hmove, ?_, ?_⟩
    · rw [hran.self]
    · exact fun u hu => hran.loc_of_ne hu

theorem CrudInv.step (h : CrudInv s) (hroom : Room s.mem (s.thr t).loc)
    (hstep : Stepped s t s' l') : CrudInv s' where
  locks := by
    apply h.locks.step hstep
    intro u w
    by_contra hholds
    rw [Bool.not_eq_false] at hholds
    obtain ⟨stud, hstud⟩ := h.list.allocated_of_role (CrudLoc.role_of_holdsStudent hholds)
    rw [h.list.fresh _ (Nat.le_refl _)] at hstud
    cases hstud
  list := h.list.step h.locks hstep hroom
  logs := h.logs.step h.list hstep

theorem reachable_crudInv (hs : (crudMachine kind).ReachableUnder RoomToCount s) : CrudInv s := by
  apply Program.invariant _ _ _ hs
  · rintro _ rfl
    exact CrudInv.fresh
  · intro s t x picks s' notes st h hroom hran
    exact h.step hroom (h.stepped hroom hran)
  · intro s t c l _ hno
    cases hno

end Invariant

section Safe

variable [Fintype τ]

/-- Whether a thread is between `thread_using_object` and `thread_using_object_done`. -/
def CrudLoc.uses (o : Nat) (l : CrudLoc) : Bool :=
  decide (l.role o = some .user ∨ l.role o = some .dropping)

/-- The threads that use a student. -/
def users (s : CrudConfig τ) (o : Nat) : Finset τ :=
  Finset.univ.filter fun t => (s.thr t).loc.uses o = true

/-- Reference counts count the list and the threads that use a student. -/
def CountsReferences (s : CrudConfig τ) : Prop :=
  ∀ o stud, s.mem.students o = some stud → stud.refCount = listed s.mem o + (users s o).card

/-- What the program promises about its students. -/
structure Safe (s : CrudConfig τ) : Prop where
  /-- The counts are right while nobody changes the list, -/
  settled : (∀ t, (s.thr t).loc.holds true = false) → CountsReferences s
  /-- and also then for all students but the one that is being inserted, which the creator is about to
  count, or removed, whose reference of the list the deleter is about to give up. -/
  counted : ∀ o stud, s.mem.students o = some stud →
    stud.refCount + (Finset.univ.filter fun t => (s.thr t).loc = .countIn o).card =
      listed s.mem o + (users s o).card +
        (Finset.univ.filter fun t => (s.thr t).loc = .useRemoved o ∨
          (s.thr t).loc = .countOut o).card
  /-- Whatever is in the list or used is allocated. -/
  allocated : ∀ o, o ∈ s.mem.studLst.lst ∨ (users s o).Nonempty → (s.mem.students o).isSome = true
  /-- Nobody leaks a student: it is in the list, or some thread has it. -/
  noLeak : ∀ o, (s.mem.students o).isSome = true →
    o ∈ s.mem.studLst.lst ∨ ∃ t, ((s.thr t).loc.role o).isSome = true
  /-- No student is destroyed twice. -/
  destroyedOnce : (s.mem.destroyed.map Prod.fst).Nodup
  /-- One thread brings its count to zero, -/
  zeroedOnce : (s.mem.zeroed.map Prod.fst).Nodup
  /-- which goes on to destroy it, -/
  zeroed : ∀ p ∈ s.mem.zeroed, p ∈ s.mem.destroyed ∨ (s.thr p.2).loc = .destroy p.1
  /-- and is the one that does, -/
  destroyed : ∀ p ∈ s.mem.destroyed, p ∈ s.mem.zeroed
  dying : ∀ t o, (s.thr t).loc = .destroy o → (o, t) ∈ s.mem.zeroed
  /-- when the student is neither in the list nor used. -/
  unused : ∀ o, o ∈ s.mem.destroyed.map Prod.fst ∨ (∃ t, (s.thr t).loc = .destroy o) →
    o ∉ s.mem.studLst.lst ∧ users s o = ∅
  /-- The list holds each roll number once. -/
  unique : s.mem.studLst.lst.Nodup ∧ ∀ o ∈ s.mem.studLst.lst, ∀ o' ∈ s.mem.studLst.lst,
    rollNoOf s.mem o = rollNoOf s.mem o' → o = o'

variable {s : CrudConfig τ}

/-- Users have one of two roles. -/
theorem card_users (s : CrudConfig τ) (o : Nat) :
    (users s o).card = roleCount s.thr o .user + roleCount s.thr o .dropping := by
  unfold users roleCount
  rw [Finset.card_filter, ← tally_add, tally]
  apply Finset.sum_congr rfl
  intro t _
  unfold CrudLoc.uses
  rcases (s.thr t).loc.role o with - | r
  · simp
  · cases r <;> simp

theorem card_inserting (s : CrudConfig τ) (o : Nat) :
    (Finset.univ.filter fun t => (s.thr t).loc = .countIn o).card =
      roleCount s.thr o .inserted := by
  unfold roleCount
  rw [Finset.card_filter, tally]
  apply Finset.sum_congr rfl
  intro t _
  apply if_congr _ rfl rfl
  constructor
  · intro ht
    rw [ht]
    exact CrudLoc.role_self rfl
  · exact CrudLoc.eq_countIn

theorem card_removing (s : CrudConfig τ) (o : Nat) :
    (Finset.univ.filter fun t => (s.thr t).loc = .useRemoved o ∨ (s.thr t).loc = .countOut o).card =
      roleCount s.thr o .removed + roleCount s.thr o .dropping := by
  unfold roleCount
  rw [Finset.card_filter, ← tally_add, tally]
  apply Finset.sum_congr rfl
  intro t _
  cases (s.thr t).loc <;> simp [CrudLoc.role, CrudLoc.student]

/-- Nobody uses a student that no thread has as a user. -/
theorem users_eq_empty {o : Nat} (huser : roleCount s.thr o .user = 0)
    (hdropping : roleCount s.thr o .dropping = 0) : users s o = ∅ := by
  rw [← Finset.card_eq_zero, card_users, huser, hdropping]

omit [Fintype τ] in
theorem not_mem_of_listed {m : Crud τ} {o : Nat} (h : listed m o = 0) : o ∉ m.studLst.lst := by
  intro ho
  rw [listed_of_mem ho] at h
  cases h

theorem CrudInv.counted (h : CrudInv s) (o : Nat) (stud : Student)
    (hstud : s.mem.students o = some stud) :
    stud.refCount + (Finset.univ.filter fun t => (s.thr t).loc = .countIn o).card =
      listed s.mem o + (users s o).card +
        (Finset.univ.filter fun t => (s.thr t).loc = .useRemoved o ∨
          (s.thr t).loc = .countOut o).card := by
  have hphase := h.list.phase o
  rw [countOf_of_some hstud] at hphase
  rw [card_users, card_inserting, card_removing]
  exact hphase.count_eq

theorem CrudInv.settled (h : CrudInv s) (hno : ∀ t, (s.thr t).loc.holds true = false) :
    CountsReferences s := by
  intro o stud hstud
  have hcounted := h.counted o stud hstud
  have hinserting : (Finset.univ.filter fun t => (s.thr t).loc = .countIn o) = ∅ := by
    ext t
    simp only [Finset.mem_filter, Finset.mem_univ, true_and, Finset.notMem_empty, iff_false]
    intro hl
    have hholds := hno t
    rw [hl] at hholds
    cases hholds
  have hremoving : (Finset.univ.filter fun t => (s.thr t).loc = .useRemoved o ∨
      (s.thr t).loc = .countOut o) = ∅ := by
    ext t
    simp only [Finset.mem_filter, Finset.mem_univ, true_and, Finset.notMem_empty, iff_false]
    rintro (hl | hl)
    · have hholds := hno t
      rw [hl] at hholds
      cases hholds
    · have hholds := hno t
      rw [hl] at hholds
      cases hholds
  rw [hinserting, hremoving, Finset.card_empty] at hcounted
  exact hcounted

theorem CrudInv.allocated (h : CrudInv s) (o : Nat)
    (ho : o ∈ s.mem.studLst.lst ∨ (users s o).Nonempty) : (s.mem.students o).isSome = true := by
  rw [Option.isSome_iff_exists]
  rcases ho with ho | ⟨t, ht⟩
  · exact h.list.allocated ho
  · have huses := of_decide_eq_true (Finset.mem_filter.mp ht).2
    rcases huses with hrole | hrole
    · exact h.list.allocated_of_role hrole
    · exact h.list.allocated_of_role hrole

theorem CrudInv.noLeak (h : CrudInv s) (o : Nat) (ho : (s.mem.students o).isSome = true) :
    o ∈ s.mem.studLst.lst ∨ ∃ t, ((s.thr t).loc.role o).isSome = true := by
  obtain ⟨stud, hstud⟩ := Option.isSome_iff_exists.mp ho
  have hphase := h.list.phase o
  rw [countOf_of_some hstud] at hphase
  rcases hphase.owner with hlisted | ⟨r, hr⟩
  · apply Or.inl
    by_contra hno
    exact hlisted (listed_of_not_mem hno)
  · obtain ⟨t, ht⟩ := tally_pos.mp hr
    have hrole : (s.thr t).loc.role o = some r := by
      by_contra hno
      rw [if_neg hno] at ht
      cases ht
    exact .inr ⟨t, by rw [hrole]; rfl⟩

theorem CrudInv.unused (h : CrudInv s) (o : Nat)
    (ho : o ∈ s.mem.destroyed.map Prod.fst ∨ ∃ t, (s.thr t).loc = .destroy o) :
    o ∉ s.mem.studLst.lst ∧ users s o = ∅ := by
  have hphase := h.list.phase o
  rcases ho with ho | ⟨t, ht⟩
  · obtain ⟨p, hp, rfl⟩ := List.mem_map.mp ho
    have hnone : countOf s.mem p.1 = none := by
      rw [countOf, (h.logs.destroyed p hp).1]
      rfl
    rw [hnone] at hphase
    obtain ⟨honly, hlisted⟩ := hphase.of_none
    exact ⟨not_mem_of_listed hlisted, users_eq_empty (honly .user) (honly .dropping)⟩
  · have hrole : (s.thr t).loc.role o = some .dying := by
      rw [ht]
      exact CrudLoc.role_self rfl
    obtain ⟨honly, hlisted, -⟩ := hphase.of_dying (roleCount_pos hrole)
    exact ⟨not_mem_of_listed hlisted, users_eq_empty (honly .user) (honly .dropping)⟩

/-- The promises follow from the invariant. -/
theorem CrudInv.safe (h : CrudInv s) : Safe s where
  settled := h.settled
  counted := h.counted
  allocated := h.allocated
  noLeak := h.noLeak
  destroyedOnce := h.logs.destroyedOnce
  zeroedOnce := h.logs.zeroedOnce
  zeroed := h.logs.zeroed
  destroyed p hp := (h.logs.destroyed p hp).2.2
  dying := h.logs.dying
  unused := h.unused
  unique := ⟨h.list.nodup, h.list.unique⟩

variable [DecidableEq τ] {kind : τ → ThType}

/-- **No use after free and no leak**: in every run in which no count wraps around, for any number of
threads of each kind, the promises are kept and no step fails an assertion, reads a student that is not
allocated, or unlocks a lock that is not held. -/
theorem crud_safe (hs : (crudMachine kind).ReachableUnder RoomToCount s) :
    Safe s ∧ ∀ a, RoomToCount s a → (crudMachine kind).step s a ≠ .abort := by
  have h := reachable_crudInv hs
  refine ⟨h.safe, ?_⟩
  rintro (⟨t, x, picks⟩ | t) hroom habort
  · have hexec := (Program.exec_of_abort habort).2
    rcases crudExec_moves kind x (h.list.ready h.locks t hroom) with hblocked | ⟨m', l', hdone, -⟩
    · exact absurd (hblocked.symm.trans hexec) (by simp)
    · exact absurd (hdone.symm.trans hexec) (by simp)
  · exact Program.not_abort_spurious habort

end Safe

/-- The threads that `main` creates. -/
def mainThreads : Fin 4 → ThType
  | 0 => .readerTh
  | 1 => .updateTh
  | 2 => .createTh
  | 3 => .deleteTh

/-- A thread of `main` goes on, with a roll number where it starts a loop. -/
abbrev goesOn (t : Fin 4) : Act (Fin 4) UInt32 := .run t 3 []

/-- A deletion is deferred to the reader of the student. -/
theorem crud_safe_trace : ∃ s : CrudConfig (Fin 4), Safe s ∧ s.mem.destroyed = [(0, 0)] := by
  have hrun : ((crudMachine mainThreads).execUnder (fun s a => decide (RoomToCount s a))
      (freshCrud (Fin 4))
      (List.flatten [List.replicate 6 (goesOn 2), List.replicate 5 (goesOn 0),
        List.replicate 6 (goesOn 3), List.replicate 4 (goesOn 0)])).holds
      (fun s => decide (s.mem.destroyed = [(0, 0)])) = true := by
    decide +kernel
  obtain ⟨s, hs, hp⟩ := Outcome.holds_iff.mp hrun
  have hreach := (Machine.reachableUnder_of_execUnder (.init rfl) hs).mono
    fun s a hcond => of_decide_eq_true hcond
  exact ⟨s, (crud_safe hreach).1, of_decide_eq_true hp⟩

end StudentCrud
end MultithreadingBible
