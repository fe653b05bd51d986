import MultithreadingBible.Lib.StableSort
import Mathlib.Algebra.Order.Ring.Nat
import Mathlib.Data.List.Induction

/-!
# Ordered insertion as a step on data

What `singly_ll_add_ordered_data` makes of the data of a list.  A list with one node is compared the
wrong way round, so the new datum goes in front of a smaller one; and when the 32-bit count has
wrapped, a long list is taken for an empty one or for one with one node.

* `orderedInsert`, `orderedInsertAll` -- one insertion, and several from the empty list.
* `InOrder` -- the sequences of data that end up sorted: `InOrder.isSorted`, `IsSorted.inOrder`.
-/

namespace MultithreadingBible
namespace LinkedList

open Lib

variable {α : Type*}

/-- What `singly_ll_add_ordered_data` does to the data of a list; the count has 32 bits. -/
def orderedInsert (cmp : α → α → Int) (d : α) : List α → List α
  | [] => [d]
  | e :: es =>
      if (e :: es).length % 2 ^ 32 = 0 then d :: e :: es
      else if (e :: es).length % 2 ^ 32 = 1 then if cmp e d = -1 then d :: e :: es else [e, d]
      else insertBeforeFirst (fun x => cmp d x = -1) d (e :: es)

/-- The list after the data `ds` were inserted one after another. -/
def orderedInsertAll (cmp : α → α → Int) (ds : List α) : List α :=
  ds.foldl (fun xs d => orderedInsert cmp d xs) []

/-- The same data, in non-decreasing order. -/
structure IsSorted (cmp : α → α → Int) (ds xs : List α) : Prop where
  perm : xs.Perm ds
  sorted : xs.Pairwise fun d e => cmp d e ≤ 0

/-- The first two data are equivalent, and there are at most 2^32 of them, or one more that is not
behind any. -/
def InOrder (cmp : α → α → Int) (ds : List α) : Prop :=
  (∀ d e rest, ds = d :: e :: rest → cmp d e = 0) ∧
    (ds.length ≤ 2 ^ 32 ∨ ds.length = 2 ^ 32 + 1 ∧ ∀ d ∈ ds.getLast?, ∀ e ∈ ds, cmp d e ≤ 0)

variable {cmp : α → α → Int} {d e : α} {xs ds : List α}

theorem orderedInsert_front (cmp : α → α → Int) (d : α) (hxs : xs.length % 2 ^ 32 = 0) :
    orderedInsert cmp d xs = d :: xs := by
  cases xs with
  | nil => rfl
  | cons e es => exact if_pos hxs

theorem orderedInsert_one (cmp : α → α → Int) (d e : α) (xs : List α)
    (hxs : (e :: xs).length % 2 ^ 32 = 1) :
    orderedInsert cmp d (e :: xs) = if cmp e d = -1 then d :: e :: xs else [e, d] := by
  rw [orderedInsert, if_neg (by omega), if_pos hxs]

theorem orderedInsert_several (cmp : α → α → Int) (d : α) (hxs : xs.length % 2 ^ 32 ≠ 0)
    (hxs' : xs.length % 2 ^ 32 ≠ 1) :
    orderedInsert cmp d xs = insertBeforeFirst (fun x => cmp d x = -1) d xs := by
  cases xs with
  | nil => exact absurd rfl hxs
  | cons e es => rw [orderedInsert, if_neg hxs, if_neg hxs']

/-- The new datum comes into the list, unless the list is cut after its head. -/
theorem orderedInsert_cases (cmp : α → α → Int) (d : α) (xs : List α) :
    ((orderedInsert cmp d xs).Perm (d :: xs) ∧ xs.Sublist (orderedInsert cmp d xs)) ∨
      ∃ e es, xs = e :: es ∧ orderedInsert cmp d xs = [e, d] := by
  have hfront : (d :: xs).Perm (d :: xs) ∧ xs.Sublist (d :: xs) := ⟨.refl _, List.sublist_cons_self _ _⟩
  by_cases hzero : xs.length % 2 ^ 32 = 0
  · rw [orderedInsert_front cmp d hzero]
    exact .inl hfront
  by_cases hone : xs.length % 2 ^ 32 = 1
  · cases xs with
    | nil => exact absurd rfl hzero
    | cons e es =>
        rw [orderedInsert_one cmp d e es hone]
        by_cases hd : cmp e d = -1
        · rw [if_pos hd]
          exact .inl hfront
        · rw [if_neg hd]
          exact .inr ⟨e, es, rfl, rfl⟩
  · rw [orderedInsert_several cmp d hzero hone]
    exact .inl ⟨perm_insertBeforeFirst _ d xs, sublist_insertBeforeFirst _ d xs⟩

theorem orderedInsertAll_append (cmp : α → α → Int) (ds : List α) (d : α) :
    orderedInsertAll cmp (ds ++ [d]) = orderedInsert cmp d (orderedInsertAll cmp ds) := by
  rw [orderedInsertAll, List.foldl_append]
  rfl

theorem length_orderedInsertAll_le (cmp : α → α → Int) (ds : List α) :
    (orderedInsertAll cmp ds).length ≤ ds.length := by
  induction ds using List.reverseRecOn with
  | nil => exact Nat.le_refl 0
  | append_singleton ds d ih =>
      rw [orderedInsertAll_append, List.length_append, List.length_singleton]
      rcases orderedInsert_cases cmp d (orderedInsertAll cmp ds) with ⟨hperm, -⟩ | ⟨e, es, hxs, hcut⟩
      · rw [hperm.length_eq, List.length_cons]
        omega
      · rw [hxs, List.length_cons] at ih
        rw [hcut, List.length_cons, List.length_singleton]
        omega

/-- What was not sorted does not become so. -/
theorem IsSorted.of_append_singleton (h : IsSorted cmp (ds ++ [d]) (orderedInsertAll cmp (ds ++ [d]))) :
    IsSorted cmp ds (orderedInsertAll cmp ds) := by
  obtain ⟨hperm, hsorted⟩ := h
  rw [orderedInsertAll_append] at hperm hsorted
  have hperm' := hperm.trans (List.perm_append_singleton d ds)
  rcases orderedInsert_cases cmp d (orderedInsertAll cmp ds) with ⟨hinsert, hsub⟩ | ⟨e, es, hxs, hcut⟩
  · exact ⟨(hinsert.symm.trans hperm').cons_inv, hsorted.sublist hsub⟩
  · have hle := length_orderedInsertAll_le cmp ds
    have hlength := hperm'.length_eq
    rw [hcut] at hperm' hlength
    rw [hxs, List.length_cons] at hle
    simp only [List.length_cons, List.length_nil] at hlength
    -- nothing was cut off, or the number of data would not be right
    have hes : es = [] := List.eq_nil_of_length_eq_zero (by omega)
    rw [hxs, hes]
    exact ⟨((List.Perm.swap e d []).trans hperm').cons_inv, List.pairwise_singleton _ _⟩

theorem IsSorted.of_append (es : List α) (h : IsSorted cmp (ds ++ es) (orderedInsertAll cmp (ds ++ es))) :
    IsSorted cmp ds (orderedInsertAll cmp ds) := by
  induction es using List.reverseRecOn with
  | nil =>
      rw [List.append_nil] at h
      exact h
  | append_singleton es e ih =>
      rw [← List.append_assoc] at h
      exact ih h.of_append_singleton

theorem InOrder.of_append_singleton (h : InOrder cmp (ds ++ [d])) : InOrder cmp ds := by
  obtain ⟨hfirst, hlength⟩ := h
  rw [List.length_append, List.length_singleton] at hlength
  refine ⟨fun a b rest hds => hfirst a b (rest ++ [d]) (by rw [hds]; rfl), .inl (by omega)⟩

/-- The list of two data. -/
theorem orderedInsertAll_pair (cmp : α → α → Int) (d e : α) :
    orderedInsertAll cmp [d, e] = if cmp d e = -1 then [e, d] else [d, e] :=
  orderedInsert_one cmp e d [] rfl

/-- As long as the count has not wrapped, data in order are sorted, and equivalent ones keep their
order. -/
theorem InOrder.stableSort (hcmp : Comparison cmp) (h : InOrder cmp ds) (hshort : ds.length ≤ 2 ^ 32) :
    StableSort (fun a b => cmp a b ≤ 0) ds (orderedInsertAll cmp ds) := by
  induction ds using List.reverseRecOn with
  | nil => exact .nil
  | append_singleton ds d ih =>
      rw [List.length_append, List.length_singleton] at hshort
      have hpre := ih h.of_append_singleton (by omega)
      have hlength := hpre.perm.length_eq
      rw [orderedInsertAll_append]
      by_cases hone : ds.length = 1
      · -- a pair of equivalent data
        obtain ⟨e, rfl⟩ := List.length_eq_one_iff.mp hone
        have heq := h.1 e d [] rfl
        have hpair : orderedInsert cmp d (orderedInsertAll cmp [e]) = [e, d] := by
          rw [← orderedInsertAll_append]
          exact (orderedInsertAll_pair cmp e d).trans (if_neg (by omega))
        rw [hpair]
        exact ⟨.refl _, List.pairwise_pair.mpr (by omega), fun _ => rfl⟩
      · have hinsert : orderedInsert cmp d (orderedInsertAll cmp ds) =
            insertBeforeFirst (fun x => cmp d x = -1) d (orderedInsertAll cmp ds) := by
          by_cases hzero : ds.length = 0
          · rw [List.eq_nil_of_length_eq_zero hzero]
            rfl
          · exact orderedInsert_several cmp d (by omega) (by omega)
        rw [hinsert]
        refine hpre.insert (fun a b => ?_) hcmp.trans _ d fun y => ?_
        · have hswap := hcmp.swap a b
          omega
        · have hswap := hcmp.swap d y
          have hvalues := hcmp.values d y
          omega

/-- Data in order are sorted. -/
theorem InOrder.isSorted (hcmp : Comparison cmp) (h : InOrder cmp ds) :
    IsSorted cmp ds (orderedInsertAll cmp ds) := by
  rcases h.2 with hshort | ⟨hlength, hlast⟩
  · exact ⟨(h.stableSort hcmp hshort).perm, (h.stableSort hcmp hshort).sorted⟩
  · induction ds using List.reverseRecOn with
    | nil => exact absurd hlength.symm (Nat.succ_ne_zero _)
    | append_singleton ds d _ =>
        rw [List.length_append, List.length_singleton] at hlength
        have hpre := h.of_append_singleton.stableSort hcmp (by omega)
        have hwrapped : (orderedInsertAll cmp ds).length % 2 ^ 32 = 0 := by
          rw [hpre.perm.length_eq]
          omega
        rw [orderedInsertAll_append, orderedInsert_front cmp d hwrapped]
        refine ⟨(hpre.perm.cons d).trans (List.perm_append_singleton d ds).symm, ?_⟩
        refine List.pairwise_cons.mpr ⟨fun e he => ?_, hpre.sorted⟩
        exact hlast d (by simp) e (List.mem_append_left _ (hpre.perm.mem_iff.mp he))

/-- Two data are sorted only if they are equivalent. -/
theorem IsSorted.pair (hcmp : Comparison cmp) (h : IsSorted cmp [d, e] (orderedInsertAll cmp [d, e])) :
    cmp d e = 0 := by
  have hsorted := h.sorted
  have hvalues := hcmp.values d e
  have hswap := hcmp.swap d e
  rw [orderedInsertAll_pair] at hsorted
  by_cases hlt : cmp d e = -1
  · rw [if_pos hlt, List.pairwise_pair] at hsorted
    omega
  · rw [if_neg hlt, List.pairwise_pair] at hsorted
    omega

/-- Beyond 2^32 data, the last one is in front. -/
theorem IsSorted.wrapped (hcmp : Comparison cmp) (hlength : ds.length = 2 ^ 32)
    (h : IsSorted cmp (ds ++ [d]) (orderedInsertAll cmp (ds ++ [d]))) :
    orderedInsertAll cmp (ds ++ [d]) = d :: orderedInsertAll cmp ds ∧ ∀ e ∈ ds ++ [d], cmp d e ≤ 0 := by
  have hperm := h.of_append_singleton.perm
  have hfront : orderedInsertAll cmp (ds ++ [d]) = d :: orderedInsertAll cmp ds := by
    rw [orderedInsertAll_append]
    exact orderedInsert_front cmp d (by rw [hperm.length_eq, hlength, Nat.mod_self])
  have hsorted := h.sorted
  rw [hfront, List.pairwise_cons] at hsorted
  refine ⟨hfront, fun e he => ?_⟩
  rcases List.mem_append.mp he with he | he
  · exact hsorted.1 e (hperm.mem_iff.mpr he)
  · rw [List.mem_singleton.mp he]
    exact Int.le_of_eq (hcmp.self_eq d)

/-- Two data beyond 2^32 are not sorted. -/
theorem not_isSorted_wrapped (hcmp : Comparison cmp) (hlength : ds.length = 2 ^ 32) :
    ¬ IsSorted cmp (ds ++ [d] ++ [e]) (orderedInsertAll cmp (ds ++ [d] ++ [e])) := by
  intro h
  have hpre := h.of_append_singleton
  obtain ⟨hfront, -⟩ := hpre.wrapped hcmp hlength
  have hone := hpre.perm.length_eq
  rw [hfront] at hone
  rw [List.length_append, List.length_singleton, hlength] at hone
  have hperm := h.perm.length_eq
  have hsorted := h.sorted
  rw [orderedInsertAll_append, hfront, orderedInsert_one cmp e d _ (by omega)] at hperm hsorted
  by_cases hlt : cmp d e = -1
  · have hswap := hcmp.swap d e
    rw [if_pos hlt, List.pairwise_cons] at hsorted
    have hle := hsorted.1 d List.mem_cons_self
    omega
  · rw [if_neg hlt] at hperm
    simp only [List.length_append, List.length_cons, List.length_nil] at hperm
    omega

/-- Data that end up sorted are in order. -/
theorem IsSorted.inOrder (hcmp : Comparison cmp) (h : IsSorted cmp ds (orderedInsertAll cmp ds)) :
    InOrder cmp ds := by
  constructor
  · intro d e rest hds
    subst hds
    have hpair : IsSorted cmp [d, e] (orderedInsertAll cmp [d, e]) := IsSorted.of_append rest h
    exact hpair.pair hcmp
  · by_cases hshort : ds.length ≤ 2 ^ 32
    · exact .inl hshort
    right
    -- the first 2^32 data and the one behind them
    have hsplit : ∃ us d vs, ds = us ++ [d] ++ vs ∧ us.length = 2 ^ 32 := by
      refine ⟨ds.take (2 ^ 32), ds.get ⟨2 ^ 32, by omega⟩, ds.drop (2 ^ 32 + 1), ?_, ?_⟩
      · rw [List.append_assoc, List.singleton_append, List.get_eq_getElem, List.getElem_cons_drop,
          List.take_append_drop]
      · rw [List.length_take]
        omega
    obtain ⟨us, d, vs, rfl, hus⟩ := hsplit
    cases vs with
    | nil =>
        rw [List.append_nil] at h ⊢
        obtain ⟨-, hle⟩ := h.wrapped hcmp hus
        refine ⟨by simp; omega, fun x hx => ?_⟩
        simp only [List.getLast?_append, List.getLast?_singleton, Option.some_or,
          Option.mem_some_iff] at hx
        exact hx ▸ hle
    | cons e vs =>
        rw [List.append_cons] at h
        exact absurd (h.of_append vs) (not_isSorted_wrapped hcmp hus)

end LinkedList
end MultithreadingBible
