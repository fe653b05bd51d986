import MultithreadingBible.GlueThread.Represent
import MultithreadingBible.Lib.StableSort

/-!
# Ordered insertion

`glthread_priority_insert` puts a cell before the first member it compares -1 with.  The cell may
hold anything before, since the function clears it.

* `Lists` -- well-formed lists behind their heads.
* `Lists.priorityInsert` -- one insertion.
* `priorityInsert_stable` -- where an insertion puts the cell; and cells that are inserted one after
  another into an empty list, with a comparison that follows a total preorder, are sorted stably.
-/

namespace MultithreadingBible
namespace GlueThread

open Lib

variable {A ι : Type*}

/-- The heap holds the lists `L` behind the heads `hd`.  Nothing is said of other cells. -/
def Lists (hp : Heap A) (hd : ι → A) (L : ι → List A) : Prop :=
  Forest hp hd L fun a => ∃ i, a ∈ L i

/-- Insert cells one after another. -/
def priorityInsertAll [DecidableEq A] (fuel : Nat) (compFn : A → A → Int) (glthreadHead : A) :
    Heap A → List A → Option (Heap A)
  | hp, [] => some hp
  | hp, x :: xs =>
      (glthreadPriorityInsert fuel compFn hp glthreadHead x).bind fun hp =>
        priorityInsertAll fuel compFn glthreadHead hp xs

section Insertion

variable [DecidableEq A] [DecidableEq ι] {hp : Heap A} {hd : ι → A} {L : ι → List A} {i : ι} {x : A}

/-- A cell that is in no list is put into one, whatever it held. -/
theorem Lists.priorityInsert (h : Lists hp hd L) (compFn : A → A → Int) (fuel : Nat)
    (hx : ∀ j, x ∉ hd j :: L j) (hfuel : (L i).length ≤ fuel) :
    ∃ hp', glthreadPriorityInsert fuel compFn hp (hd i) x = some hp' ∧
      Lists hp' hd (Function.update L i (insertBefore compFn x (L i))) := by
  have hfree : ∀ j, x ∉ L j := fun j hmem => hx j (List.mem_cons_of_mem _ hmem)
  have hhead : ∀ j, hd j ≠ x := fun j heq => hx j (heq ▸ List.mem_cons_self)
  -- the cleared cell joins those of the lists
  have hcleared : Forest (initGlthread hp x) hd L fun a => (∃ j, a ∈ L j) ∨ a = x := by
    refine Forest.extend h _ _ (fun j => ?_) ?_ (fun a ha => .inl ha) ?_ ?_
    · exact Function.update_of_ne (hhead j) _ _
    · rintro a ⟨j, ha⟩
      exact Function.update_of_ne (ne_of_mem_of_not_mem ha (hfree j)) _ _
    · rintro j (hmem | heq)
      · exact Forest.head h j hmem
      · exact hhead j heq
    · rintro a (ha | rfl) hno
      · exact (hno ha).elim
      · exact Function.update_self ..
  have hinit : initGlthread (initGlthread hp x) x = initGlthread hp x := Function.update_idem ..
  obtain ⟨hp', hok, hforest⟩ : ∃ hp',
      glthreadPriorityInsert fuel compFn (initGlthread hp x) (hd i) x = some hp' ∧ _ :=
    hcleared.priorityInsert (.inr rfl) hfree hfuel
  refine ⟨hp', ?_, ?_⟩
  · rw [glthreadPriorityInsert, hinit] at hok
    exact hok
  · have hperm := perm_insertBefore compFn x (L i)
    refine hforest.restrict ?_ fun j a ha => ⟨j, ha⟩
    rintro a ⟨j, ha⟩
    by_cases hj : j = i
    · subst hj
      rw [Function.update_self, hperm.mem_iff, List.mem_cons] at ha
      rcases ha with rfl | ha
      · exact .inr rfl
      · exact .inl ⟨j, ha⟩
    · rw [Function.update_of_ne hj] at ha
      exact .inl ⟨j, ha⟩

variable {le : A → A → Prop} [DecidableRel le] {compFn : A → A → Int}

/-- More cells are sorted into a list that is a stable sort of those before them. -/
theorem Lists.priorityInsertAll (total : ∀ a b, le a b ∨ le b a)
    (trans : ∀ a b c, le a b → le b c → le a c) (hcomp : ∀ a b, compFn a b = -1 ↔ le a b ∧ ¬ le b a)
    (zs : List A) {xs : List A} {hp : Heap A} {L : ι → List A} (h : Lists hp hd L)
    (hsorted : StableSort le xs (L i)) (hnodup : zs.Nodup) (hzs : ∀ x ∈ zs, ∀ j, x ∉ hd j :: L j)
    {fuel : Nat} (hfuel : xs.length + zs.length ≤ fuel) :
    ∃ hp' ys, GlueThread.priorityInsertAll fuel compFn (hd i) hp zs = some hp' ∧
      Lists hp' hd (Function.update L i ys) ∧ StableSort le (xs ++ zs) ys := by
  induction zs generalizing xs hp L with
  | nil =>
      refine ⟨hp, L i, rfl, ?_, ?_⟩
      · rw [Function.update_eq_self]
        exact h
      · rw [List.append_nil]
        exact hsorted
  | cons x zs ih =>
      obtain ⟨hx, hnodup⟩ := List.nodup_cons.mp hnodup
      rw [List.length_cons] at hfuel
      have hlength := hsorted.perm.length_eq
      obtain ⟨hp₁, hok, h₁⟩ := h.priorityInsert compFn (i := i) fuel
        (hzs x List.mem_cons_self) (by omega)
      have hlt : ∀ y, compFn x y = -1 ↔ ¬ le y x := by
        intro y
        rw [hcomp]
        exact and_iff_right_of_imp fun hno => (total x y).resolve_right hno
      have hsorted₁ := hsorted.insert total trans (fun y => compFn x y = -1) x hlt
      rw [← insertBefore_eq] at hsorted₁
      have hzs₁ : ∀ z ∈ zs, ∀ j,
          z ∉ hd j :: Function.update L i (insertBefore compFn x (L i)) j := by
        intro z hz j hmem
        have hold := hzs z (List.mem_cons_of_mem _ hz)
        by_cases hj : j = i
        · subst hj
          rw [Function.update_self, List.mem_cons, (perm_insertBefore ..).mem_iff, List.mem_cons] at hmem
          rcases hmem with rfl | rfl | hmem
          · exact hold j List.mem_cons_self
          · exact hx hz
          · exact hold j (List.mem_cons_of_mem _ hmem)
        · rw [Function.update_of_ne hj] at hmem
          exact hold j hmem
      have hat : StableSort le (xs ++ [x]) (Function.update L i (insertBefore compFn x (L i)) i) := by
        rw [Function.update_self]
        exact hsorted₁
      obtain ⟨hp', ys, hrest, h', hys⟩ := ih h₁ hat hnodup hzs₁ (by simp; omega)
      refine ⟨hp', ys, ?_, ?_, ?_⟩
      · rw [GlueThread.priorityInsertAll, hok, Option.bind_some, hrest]
      · rw [Function.update_idem] at h'
        exact h'
      · rw [List.append_assoc] at hys
        exact hys

end Insertion

/-- **Ordered insertion.**  A cell that is in no list, inserted into a well-formed list with any
comparison, is placed right before the first member it compares -1 with, or at the end if there is
none, and the lists are well-formed again.  If the comparison is -1 just where its first argument
strictly precedes its second in a total preorder, then cells inserted one after another into an
empty list are sorted stably. -/
theorem priorityInsert_stable [DecidableEq A] [DecidableEq ι] {hp : Heap A} {hd : ι → A}
    {L : ι → List A} (h : Lists hp hd L) (i : ι) (compFn : A → A → Int) :
    (∀ x fuel, (∀ j, x ∉ hd j :: L j) → (L i).length ≤ fuel →
      ∃ hp' us vs, glthreadPriorityInsert fuel compFn hp (hd i) x = some hp' ∧ L i = us ++ vs ∧
        (∀ e ∈ us, compFn x e ≠ -1) ∧ (∀ e ∈ vs.head?, compFn x e = -1) ∧
        Lists hp' hd (Function.update L i (us ++ x :: vs))) ∧
      ∀ (le : A → A → Prop) [DecidableRel le], (∀ a b, le a b ∨ le b a) →
        (∀ a b c, le a b → le b c → le a c) → (∀ a b, compFn a b = -1 ↔ le a b ∧ ¬ le b a) →
        L i = [] → ∀ zs fuel, zs.Nodup → (∀ x ∈ zs, ∀ j, x ∉ hd j :: L j) → zs.length ≤ fuel →
          ∃ hp' ys, priorityInsertAll fuel compFn (hd i) hp zs = some hp' ∧
            Lists hp' hd (Function.update L i ys) ∧ StableSort le zs ys := by
  constructor
  · intro x fuel hx hfuel
    obtain ⟨hp', hok, hlists⟩ := h.priorityInsert compFn fuel hx hfuel
    obtain ⟨us, vs, hsplit, hinsert, hus, hvs⟩ :=
      exists_insertBeforeFirst (fun y => compFn x y = -1) x (L i)
    rw [insertBefore_eq, hinsert] at hlists
    exact ⟨hp', us, vs, hok, hsplit, hus, hvs, hlists⟩
  · intro le _ total trans hcomp hempty zs fuel hnodup hzs hfuel
    have hsorted : StableSort le [] (L i) := by
      rw [hempty]
      exact .nil
    exact h.priorityInsertAll total trans hcomp zs hsorted hnodup hzs (by simpa using hfuel)

/-- Persons whose age is their address divided by 10, the oldest first. -/
theorem priorityInsert_stable_trace :
    ∃ (hp' : Heap Nat) (ys : List Nat),
      priorityInsertAll 3 (fun a b => if b / 10 < a / 10 then -1 else 0) 0 (fun _ => Glthread.null)
        [31, 52, 33] = some hp' ∧ StableSort (fun a b => b / 10 ≤ a / 10) [31, 52, 33] ys := by
  have hlists : Lists (fun _ => Glthread.null) (fun _ : Unit => 0) fun _ => ([] : List Nat) := by
    refine ⟨fun _ => ⟨rfl, trivial⟩, fun _ => List.nodup_nil, fun i j hij => (hij rfl).elim, ?_, ?_,
      fun _ _ _ => rfl, fun a ha _ => rfl⟩
    · intro i a ha
      cases ha
    · intro i hdom
      obtain ⟨j, hmem⟩ := hdom
      cases hmem
  obtain ⟨-, hsorts⟩ := priorityInsert_stable hlists ()
    fun a b => if b / 10 < a / 10 then -1 else 0
  obtain ⟨hp', ys, hok, -, hsorted⟩ := hsorts (fun a b => b / 10 ≤ a / 10) (fun a b => by omega)
    (fun a b c => by omega) (fun a b => by split <;> omega) rfl [31, 52, 33] 3 (by decide)
    (fun x hx j => by simp at hx ⊢; omega) (by decide)
  exact ⟨hp', ys, hok, hsorted⟩

end GlueThread
end MultithreadingBible
