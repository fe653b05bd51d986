import Mathlib.Data.List.Nodup
import Mathlib.Logic.Function.Basic

/-!
# Singly linked segments

Cells at addresses are linked by next pointers; a null pointer is `none`.  `nx a` is the next
pointer of the cell at `a`, and `none` if there is no cell.  `Segment nx p as q` says that the
pointer `p` leads through the cells `as` to the pointer `q`.

* `Segment.append_iff` -- a segment is split anywhere.
* `Segment.frame` -- cells that are not in a segment do not matter to it.
* `Segment.push`, `Segment.bypass` -- what a change of one pointer does.
* `Segment.nodup` -- a segment that ends in null passes no cell twice.
* `walk` -- the cells of a segment that ends in null, found by following the pointers.
-/

namespace MultithreadingBible
namespace Lib

variable {A : Type*}

/-- From the pointer `p` the links lead through the cells `as` to the pointer `q`. -/
inductive Segment (nx : A → Option (Option A)) : Option A → List A → Option A → Prop where
  | nil (p : Option A) : Segment nx p [] p
  | cons {a : A} {n q : Option A} {as : List A} (link : nx a = some n) (rest : Segment nx n as q) :
      Segment nx (some a) (a :: as) q

/-- The cells from the pointer `p` on up to a null pointer, if that is reached within `fuel` cells. -/
def walk (nx : A → Option (Option A)) : Nat → Option A → Option (List A)
  | _, none => some []
  | 0, some _ => none
  | fuel + 1, some a => (nx a).bind fun n => (walk nx fuel n).map (a :: ·)

namespace Segment

variable {nx nx' : A → Option (Option A)} {p q r : Option A} {a c : A} {as us vs : List A}

theorem nil_iff : Segment nx p [] q ↔ p = q := by
  constructor
  · intro h
    cases h
    rfl
  · intro h
    rw [h]
    exact .nil q

theorem cons_iff :
    Segment nx p (a :: as) q ↔ p = some a ∧ ∃ n, nx a = some n ∧ Segment nx n as q := by
  constructor
  · intro h
    cases h with
    | cons link rest => exact ⟨rfl, _, link, rest⟩
  · intro h
    obtain ⟨rfl, n, link, rest⟩ := h
    exact .cons link rest

theorem append_iff :
    Segment nx p (us ++ vs) q ↔ ∃ r, Segment nx p us r ∧ Segment nx r vs q := by
  induction us generalizing p with
  | nil =>
      constructor
      · intro h
        exact ⟨p, .nil p, h⟩
      · intro h
        obtain ⟨r, hus, hvs⟩ := h
        rw [nil_iff.mp hus]
        exact hvs
  | cons a us ih =>
      constructor
      · intro h
        obtain ⟨rfl, n, link, rest⟩ := cons_iff.mp h
        obtain ⟨r, hus, hvs⟩ := ih.mp rest
        exact ⟨r, .cons link hus, hvs⟩
      · intro h
        obtain ⟨r, hus, hvs⟩ := h
        obtain ⟨rfl, n, link, rest⟩ := cons_iff.mp hus
        exact .cons link (ih.mpr ⟨r, rest, hvs⟩)

/-- A segment depends on its own cells only. -/
theorem frame (h : Segment nx p as q) (hsame : ∀ a ∈ as, nx' a = nx a) : Segment nx' p as q := by
  induction h with
  | nil p => exact .nil p
  | cons link rest ih =>
      refine .cons ((hsame _ List.mem_cons_self).trans link) (ih fun a ha => ?_)
      exact hsame a (List.mem_cons_of_mem _ ha)

/-- A segment up to a null pointer starts with its first cell. -/
theorem head (h : Segment nx p as none) : p = as.head? := by
  cases h with
  | nil => rfl
  | cons => rfl

theorem isSome_of_mem (h : Segment nx p as q) (ha : a ∈ as) : (nx a).isSome = true := by
  induction h with
  | nil => cases ha
  | cons link _ ih =>
      rcases List.mem_cons.mp ha with rfl | ha
      · rw [link]
        rfl
      · exact ih ha

/-- The links from a pointer lead one way only. -/
theorem unique (h : Segment nx p us none) (h' : Segment nx p vs none) : us = vs := by
  induction us generalizing p vs with
  | nil =>
      rw [nil_iff] at h
      rw [h] at h'
      have hhead := h'.head
      cases vs with
      | nil => rfl
      | cons b vs => cases hhead
  | cons a us ih =>
      obtain ⟨rfl, n, link, rest⟩ := cons_iff.mp h
      cases vs with
      | nil => cases nil_iff.mp h'
      | cons b vs =>
          obtain ⟨heq, n', link', rest'⟩ := cons_iff.mp h'
          cases heq
          rw [link] at link'
          cases link'
          rw [ih rest rest']

/-- Cells that lead to a null pointer are passed once. -/
theorem nodup (h : Segment nx p as none) : as.Nodup := by
  induction as generalizing p with
  | nil => exact List.nodup_nil
  | cons a as ih =>
      obtain ⟨rfl, n, link, rest⟩ := cons_iff.mp h
      refine List.nodup_cons.mpr ⟨fun hmem => ?_, ih rest⟩
      -- the cells behind a second occurrence of `a` would be those behind the first
      obtain ⟨us, vs, rfl⟩ := List.append_of_mem hmem
      obtain ⟨r, -, hvs⟩ := append_iff.mp rest
      obtain ⟨rfl, -⟩ := cons_iff.mp hvs
      have hlength := congrArg List.length (h.unique hvs)
      simp at hlength
      omega

variable [DecidableEq A]

/-- A pointer to a new cell in front. -/
theorem push (h : Segment nx p as q) (ha : a ∉ as) :
    Segment (Function.update nx a (some p)) (some a) (a :: as) q := by
  refine .cons (Function.update_self ..) (h.frame fun b hb => ?_)
  exact Function.update_of_ne (ne_of_mem_of_not_mem hb ha) _ _

/-- A new cell between two segments, which the last cell of the first one leads to. -/
theorem insert (hus : Segment nx p us (some c)) (hvs : Segment nx r vs q) (hc : c ∉ us ++ vs)
    (ha : a ∉ us ++ c :: vs) :
    Segment (Function.update (Function.update nx a (some r)) c (some (some a))) p
      (us ++ c :: a :: vs) q := by
  have hcus : c ∉ us := fun hmem => hc (List.mem_append_left _ hmem)
  have haus : a ∉ us := fun hmem => ha (List.mem_append_left _ hmem)
  have hca : c ∉ a :: vs := by
    intro hmem
    rcases List.mem_cons.mp hmem with rfl | hmem
    · exact ha (List.mem_append_right _ List.mem_cons_self)
    · exact hc (List.mem_append_right _ hmem)
  have hvs' := hvs.push fun hmem => ha (List.mem_append_right _ (List.mem_cons_of_mem _ hmem))
  refine append_iff.mpr ⟨some c, hus.frame fun b hb => ?_, hvs'.push hca⟩
  rw [Function.update_of_ne (ne_of_mem_of_not_mem hb hcus)]
  exact Function.update_of_ne (ne_of_mem_of_not_mem hb haus) _ _

/-- A cell is taken out of a segment by its predecessor, which leads where the cell led. -/
theorem bypass (h : Segment nx p (us ++ c :: a :: vs) q) (hnodup : (us ++ c :: a :: vs).Nodup)
    (hr : nx a = some r) : Segment (Function.update nx c (some r)) p (us ++ c :: vs) q := by
  obtain ⟨p', hus, hrest⟩ := append_iff.mp h
  obtain ⟨rfl, n, -, hrest⟩ := cons_iff.mp hrest
  obtain ⟨rfl, n', hlink, hvs⟩ := cons_iff.mp hrest
  rw [hr] at hlink
  cases hlink
  obtain ⟨-, hnodup, hapart⟩ := List.nodup_append.mp hnodup
  have hc : c ∉ us := fun hmem => hapart c hmem c List.mem_cons_self rfl
  have hc' : c ∉ vs := fun hmem => (List.nodup_cons.mp hnodup).1 (List.mem_cons_of_mem _ hmem)
  refine append_iff.mpr ⟨some c, hus.frame fun b hb => ?_, .cons (Function.update_self ..) ?_⟩
  · exact Function.update_of_ne (ne_of_mem_of_not_mem hb hc) _ _
  · exact hvs.frame fun b hb => Function.update_of_ne (ne_of_mem_of_not_mem hb hc') _ _

end Segment

section Walk

variable {nx : A → Option (Option A)} {p : Option A} {as : List A} {fuel : Nat}

theorem Segment.walk_eq (h : Segment nx p as none) (hfuel : as.length ≤ fuel) :
    walk nx fuel p = some as := by
  induction as generalizing p fuel with
  | nil =>
      rw [Segment.nil_iff.mp h]
      cases fuel with
      | zero => rfl
      | succ fuel => rfl
  | cons a as ih =>
      obtain ⟨rfl, n, link, rest⟩ := Segment.cons_iff.mp h
      cases fuel with
      | zero => simp at hfuel
      | succ fuel =>
          rw [walk, link, Option.bind_some, ih rest (Nat.le_of_succ_le_succ hfuel)]
          rfl

theorem length_le_of_walk (h : walk nx fuel p = some as) : as.length ≤ fuel := by
  induction fuel generalizing p as with
  | zero =>
      cases p with
      | none =>
          cases h
          exact Nat.le_refl 0
      | some a => cases h
  | succ fuel ih =>
      cases p with
      | none =>
          cases h
          exact Nat.zero_le _
      | some a =>
          rw [walk] at h
          obtain ⟨n, -, h⟩ := Option.bind_eq_some_iff.mp h
          obtain ⟨bs, hbs, rfl⟩ := Option.map_eq_some_iff.mp h
          exact Nat.succ_le_succ (ih hbs)

end Walk

end Lib
end MultithreadingBible
