import Mathlib.Logic.Function.Basic

/-!
# Owners of resources

Resources with at most one owner each, as the resources name their owners (`owner`) and as the
owners know what they have (`has`).  One owner acquires or releases one resource at a time.
`HeldBy` is the case of one resource.
-/

namespace MultithreadingBible
namespace Lib

variable {O I : Type*}

/-- The resources and their owners agree. -/
def Owned (owner : O → Option I) (has : I → O → Prop) : Prop :=
  ∀ o i, owner o = some i ↔ has i o

namespace Owned

variable {owner : O → Option I} {has has' : I → O → Prop} {i j : I} {o : O}

/-- A resource has one owner. -/
theorem eq (h : Owned owner has) (hi : has i o) (hj : has j o) : i = j := by
  have howner := (h o i).mpr hi
  rw [(h o j).mpr hj] at howner
  exact (Option.some.inj howner).symm

theorem free_iff (h : Owned owner has) : owner o = none ↔ ∀ i, ¬ has i o := by
  rw [Option.eq_none_iff_forall_ne_some]
  exact forall_congr' fun i => not_congr (h o i)

/-- An owned resource is owned by exactly one. -/
theorem isSome_iff (h : Owned owner has) : (owner o).isSome = true ↔ ∃! i, has i o := by
  rw [Option.isSome_iff_exists]
  constructor
  · rintro ⟨i, hi⟩
    exact ⟨i, (h o i).mp hi, fun j hj => h.eq hj ((h o i).mp hi)⟩
  · rintro ⟨i, hi, -⟩
    exact ⟨i, (h o i).mpr hi⟩

/-- Nothing changes hands. -/
theorem keep (h : Owned owner has) (hhas : ∀ j o, has' j o ↔ has j o) : Owned owner has' :=
  fun o j => (h o j).trans (hhas j o).symm

variable [DecidableEq O]

/-- A free resource is acquired. -/
theorem acquire (h : Owned owner has) (hfree : owner o = none)
    (hself : ∀ o', has' i o' ↔ has i o' ∨ o' = o) (hother : ∀ j, j ≠ i → ∀ o', has' j o' ↔ has j o') :
    Owned (Function.update owner o (some i)) has' := by
  intro o' j
  by_cases ho : o' = o
  · rw [ho, Function.update_self, Option.some.injEq]
    constructor
    · rintro rfl
      exact (hself o).mpr (.inr rfl)
    · intro hj
      by_contra hne
      exact h.free_iff.mp hfree j ((hother j (Ne.symm hne) o).mp hj)
  · rw [Function.update_of_ne ho, h o' j]
    by_cases hj : j = i
    · rw [hj, hself]
      exact (or_iff_left ho).symm
    · exact (hother j hj o').symm

/-- The owner of a resource releases it. -/
theorem release (h : Owned owner has) (ho : has i o)
    (hself : ∀ o', has' i o' ↔ has i o' ∧ o' ≠ o) (hother : ∀ j, j ≠ i → ∀ o', has' j o' ↔ has j o') :
    Owned (Function.update owner o none) has' := by
  intro o' j
  by_cases hoo : o' = o
  · rw [hoo, Function.update_self]
    refine iff_of_false (by simp) fun hj => ?_
    by_cases hji : j = i
    · rw [hji] at hj
      exact ((hself o).mp hj).2 rfl
    · exact hji (h.eq ((hother j hji o).mp hj) ho)
  · rw [Function.update_of_ne hoo, h o' j]
    by_cases hj : j = i
    · rw [hj, hself]
      exact (and_iff_left hoo).symm
    · exact (hother j hj o').symm

end Owned

/-- A single resource, such as a mutex, and who has it. -/
def HeldBy (owner : Option I) (holds : I → Prop) : Prop :=
  ∀ i, owner = some i ↔ holds i

namespace HeldBy

variable {owner : Option I} {holds holds' : I → Prop} {i j : I}

theorem eq (h : HeldBy owner holds) (hi : holds i) (hj : holds j) : i = j := by
  have howner := (h i).mpr hi
  rw [(h j).mpr hj] at howner
  exact (Option.some.inj howner).symm

theorem free_iff (h : HeldBy owner holds) : owner = none ↔ ∀ i, ¬ holds i := by
  rw [Option.eq_none_iff_forall_ne_some]
  exact forall_congr' fun i => not_congr (h i)

/-- The resource stays where it is. -/
theorem keep (h : HeldBy owner holds) (hholds : ∀ j, holds' j ↔ holds j) : HeldBy owner holds' :=
  fun j => (h j).trans (hholds j).symm

/-- The free resource is acquired. -/
theorem acquire (h : HeldBy none holds) (hself : holds' i) (hother : ∀ j, j ≠ i → (holds' j ↔ holds j)) :
    HeldBy (some i) holds' := by
  intro j
  rw [Option.some.injEq]
  constructor
  · rintro rfl
    exact hself
  · intro hj
    by_contra hne
    exact h.free_iff.mp rfl j ((hother j (Ne.symm hne)).mp hj)

/-- The resource is released. -/
theorem release (h : HeldBy owner holds) (hi : holds i) (hself : ¬ holds' i)
    (hother : ∀ j, j ≠ i → (holds' j ↔ holds j)) : HeldBy none holds' := by
  intro j
  refine iff_of_false (by simp) fun hj => ?_
  by_cases hji : j = i
  · rw [hji] at hj
    exact hself hj
  · exact hji (h.eq ((hother j hji).mp hj) hi)

end HeldBy

end Lib
end MultithreadingBible
