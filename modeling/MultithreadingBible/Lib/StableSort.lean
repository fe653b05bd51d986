import Mathlib.Data.List.Perm.Basic
import Mathlib.Data.List.Pairwise

/-!
# Insertion into sorted lists

* `Comparison` -- a comparison that answers -1, 0 or 1 according to a total preorder.
* `insertBeforeFirst p x` -- `x` goes before the first element with the property `p`, or to the end.
* `StableSort` -- a sorted arrangement in which equivalent elements keep their order.
* `StableSort.insert` -- insertion before the first greater element extends a stable sort by one element.
-/

namespace MultithreadingBible
namespace Lib

variable {α : Type*}

/-- Put `x` before the first element with the property `p`, or at the end. -/
def insertBeforeFirst (p : α → Prop) [DecidablePred p] (x : α) : List α → List α
  | [] => [x]
  | y :: ys => if p y then x :: y :: ys else y :: insertBeforeFirst p x ys

section Insertion

variable {p : α → Prop} [DecidablePred p] {x : α}

theorem perm_insertBeforeFirst (p : α → Prop) [DecidablePred p] (x : α) (ys : List α) :
    (insertBeforeFirst p x ys).Perm (x :: ys) := by
  induction ys with
  | nil => exact .refl _
  | cons y ys ih =>
      rw [insertBeforeFirst]
      split
      · exact .refl _
      · exact (ih.cons y).trans (.swap x y ys)

theorem sublist_insertBeforeFirst (p : α → Prop) [DecidablePred p] (x : α) (ys : List α) :
    ys.Sublist (insertBeforeFirst p x ys) := by
  induction ys with
  | nil => exact List.nil_sublist _
  | cons y ys ih =>
      rw [insertBeforeFirst]
      split
      · exact List.sublist_cons_self x _
      · exact ih.cons_cons y

/-- The list is split where the new element goes. -/
theorem exists_insertBeforeFirst (p : α → Prop) [DecidablePred p] (x : α) (ys : List α) :
    ∃ us vs, ys = us ++ vs ∧ insertBeforeFirst p x ys = us ++ x :: vs ∧ (∀ y ∈ us, ¬ p y) ∧
      ∀ y ∈ vs.head?, p y := by
  induction ys with
  | nil => exact ⟨[], [], rfl, rfl, List.forall_mem_nil _, fun y hy => by cases hy⟩
  | cons y ys ih =>
      by_cases hy : p y
      · refine ⟨[], y :: ys, rfl, if_pos hy, List.forall_mem_nil _, fun z hz => ?_⟩
        cases hz
        exact hy
      · obtain ⟨us, vs, hsplit, hinsert, hus, hvs⟩ := ih
        refine ⟨y :: us, vs, by rw [hsplit]; rfl, ?_, List.forall_mem_cons.mpr ⟨hy, hus⟩, hvs⟩
        rw [insertBeforeFirst, if_neg hy, hinsert]
        rfl

end Insertion

/-- `ys` is `xs` sorted, and equivalent elements stand in the same order as in `xs`. -/
structure StableSort (le : α → α → Prop) [DecidableRel le] (xs ys : List α) : Prop where
  perm : ys.Perm xs
  sorted : ys.Pairwise le
  stable : ∀ a, ys.filter (fun y => le a y ∧ le y a) = xs.filter fun y => le a y ∧ le y a

section Sorted

variable {le : α → α → Prop} [DecidableRel le] {xs ys : List α}

theorem StableSort.nil : StableSort le [] [] := ⟨.refl _, .nil, fun _ => rfl⟩

omit [DecidableRel le] in
/-- In a sorted list the elements behind the first greater one are greater. -/
theorem lt_of_head (trans : ∀ a b c, le a b → le b c → le a c) {x : α} {vs : List α}
    (hsorted : vs.Pairwise le) (hhead : ∀ y ∈ vs.head?, ¬ le y x) : ∀ y ∈ vs, ¬ le y x := by
  cases vs with
  | nil => exact List.forall_mem_nil _
  | cons v vs =>
      have hv := hhead v rfl
      refine List.forall_mem_cons.mpr ⟨hv, fun y hy hyx => hv ?_⟩
      exact trans v y x (List.rel_of_pairwise_cons hsorted hy) hyx

/-- **Insertion**: one more element goes before the first greater one, behind those equivalent to it. -/
theorem StableSort.insert (total : ∀ a b, le a b ∨ le b a) (trans : ∀ a b c, le a b → le b c → le a c)
    (h : StableSort le xs ys) (p : α → Prop) [DecidablePred p] (x : α) (hp : ∀ y, p y ↔ ¬ le y x) :
    StableSort le (xs ++ [x]) (insertBeforeFirst p x ys) := by
  obtain ⟨us, vs, hsplit, hinsert, hus, hvs⟩ := exists_insertBeforeFirst p x ys
  have hsorted := h.sorted
  rw [hsplit, List.pairwise_append] at hsorted
  obtain ⟨husorted, hvsorted, hcross⟩ := hsorted
  have hbefore : ∀ y ∈ us, le y x := fun y hy => not_not.mp (mt (hp y).mpr (hus y hy))
  have hbehind : ∀ y ∈ vs, ¬ le y x := lt_of_head trans hvsorted fun y hy => (hp y).mp (hvs y hy)
  refine ⟨?_, ?_, fun a => ?_⟩
  · have hcons : (insertBeforeFirst p x ys).Perm (x :: xs) :=
      (perm_insertBeforeFirst p x ys).trans (h.perm.cons x)
    exact hcons.trans (List.perm_append_singleton x xs).symm
  · rw [hinsert, List.pairwise_append, List.pairwise_cons]
    refine ⟨husorted, ⟨fun y hy => ?_, hvsorted⟩, fun y hy z hz => ?_⟩
    · exact (total x y).resolve_right (hbehind y hy)
    · rcases List.mem_cons.mp hz with rfl | hz
      · exact hbefore y hy
      · exact hcross y hy z hz
  · -- an element equivalent to `x` does not stand behind it
    rw [hinsert, List.filter_append, List.filter_append, ← h.stable a, hsplit, List.filter_append,
      List.append_assoc]
    congr 1
    by_cases hx : le a x ∧ le x a
    · have hnone : vs.filter (fun y => le a y ∧ le y a) = [] := by
        refine List.filter_eq_nil_iff.mpr fun y hy hya => hbehind y hy ?_
        exact trans y a x (of_decide_eq_true hya).2 hx.1
      rw [hnone, List.filter_cons, List.filter_cons, if_pos (decide_eq_true hx),
        if_pos (decide_eq_true hx), hnone]
      rfl
    · rw [List.filter_cons, List.filter_cons, if_neg (by simpa using hx), if_neg (by simpa using hx),
        List.filter_nil, List.append_nil]

end Sorted

/-- A comparison that answers -1, 0 or 1 according to a total preorder. -/
structure Comparison (cmp : α → α → Int) : Prop where
  values : ∀ a b, cmp a b = -1 ∨ cmp a b = 0 ∨ cmp a b = 1
  swap : ∀ a b, cmp b a = - cmp a b
  trans : ∀ a b c, cmp a b ≤ 0 → cmp b c ≤ 0 → cmp a c ≤ 0

theorem Comparison.self_eq {cmp : α → α → Int} (hcmp : Comparison cmp) (a : α) : cmp a a = 0 := by
  have hswap := hcmp.swap a a
  omega

end Lib
end MultithreadingBible
