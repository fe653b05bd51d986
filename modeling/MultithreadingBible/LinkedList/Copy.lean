import MultithreadingBible.LinkedList.Sequence

/-!
# Copying a list

`copy_singly_ll` runs through the source from its head and adds each datum with
`singly_ll_add_node_by_val`, which puts it in front: the copy is in the opposite order.

* `Holds.copy` -- what `copy_singly_ll` leaves in the destination.
* `Copied` -- the destination has the data of the source, in its order, and the source is as before.
* `copySinglyLl_copied_iff` -- this is so for at most one node.
-/

namespace MultithreadingBible
namespace LinkedList

open Lib

variable {A B D : Type} [DecidableEq A] [DecidableEq B] [DecidableEq D]

/-- The destination is a copy of the source, and the source is unchanged. -/
structure Copied (m m' : LlMem A B D) (src dst : B) : Prop where
  data : dataOf m' dst = dataOf m src
  count : (m'.lists dst).map Ll.nodeCount = (m.lists src).map Ll.nodeCount
  list : m'.lists src = m.lists src
  nodes : nodesOf m' src = nodesOf m src
  same : dataOf m' src = dataOf m src

section Reversal

omit [DecidableEq A] [DecidableEq B] in
/-- Distinct data come into the list one in front of the other. -/
theorem pushAll_reverse (ds xs : List (Option D)) (hnodup : (ds.reverse ++ xs).Nodup)
    (hshort : ds.length + xs.length < 2 ^ 32) : ds.foldl pushAbsent xs = ds.reverse ++ xs := by
  induction ds generalizing xs with
  | nil => rfl
  | cons d ds ih =>
      rw [List.length_cons] at hshort
      rw [List.reverse_cons, List.append_assoc, List.singleton_append] at hnodup ⊢
      have hd : d ∉ xs := (List.nodup_cons.mp (List.nodup_append.mp hnodup).2.1).1
      rw [List.foldl_cons, pushAbsent_short (by omega), if_neg hd]
      exact ih (d :: xs) hnodup (by rw [List.length_cons]; omega)

omit [DecidableEq D] in
/-- Distinct data read the same in both directions only if there is at most one. -/
theorem reverse_eq_self_iff {xs : List (Option D)} (hxs : xs.Nodup) :
    xs.reverse = xs ↔ xs.length ≤ 1 := by
  cases xs with
  | nil => exact iff_of_true rfl (Nat.zero_le 1)
  | cons d ds =>
      obtain ⟨hd, -⟩ := List.nodup_cons.mp hxs
      rw [List.reverse_cons, List.length_cons]
      cases hds : ds.reverse with
      | nil =>
          rw [List.reverse_eq_nil_iff.mp hds]
          exact iff_of_true rfl (Nat.le_refl 1)
      | cons e es =>
          -- `e` is the last datum and not the first one
          have he : e ∈ ds := List.mem_reverse.mp (hds ▸ List.mem_cons_self)
          have hpos := List.length_pos_of_mem he
          refine iff_of_false (fun hrev => hd ?_) (by omega)
          obtain ⟨rfl, -⟩ := List.cons.inj hrev
          exact he

end Reversal

section Copies

variable {m : LlMem A B D} {C : B → Entries A D} {src dst : B} {s t : Ll A D}

/-- `copy_singly_ll` -/
theorem Holds.copy (h : Holds m C) (hs : m.lists src = some s) (ht : m.lists dst = some t)
    (hne : src ≠ dst)
    (hshort : (C dst).length < 2 ^ 32) (hnull : none ∉ (C src).data) :
    Leaves m C dst s.comparisonFn ((C src).data.foldl pushAbsent []) (copySinglyLl m src dst) := by
  obtain ⟨m₁, t₁, hdelete, h₁, hlists₁, -, -⟩ := h.deleteList ht hshort
  have hs₁ : m₁.lists src = some s := by rw [hlists₁, Function.update_of_ne hne, hs]
  have ht₁ : m₁.lists dst = some t₁ := by rw [hlists₁, Function.update_self]
  have hC₁ : Function.update C dst [] src = C src := Function.update_of_ne hne _ _
  have hfuel₁ := h₁.fuel src
  have hhead := h₁.head hs₁
  rw [hC₁] at hfuel₁ hhead
  have hbody : ∀ c ∈ C src, ∀ m next, copyData dst m ⟨c.2, next⟩ =
    LinkedList.addData (A := A) dst m ⟨c.2, next⟩ := by
    intro c hc m next
    refine if_neg fun hnone => hnull ?_
    have hdata : c.2 = none := Option.isNone_iff_eq_none.mp hnone
    rw [← hdata]
    exact List.mem_map_of_mem hc
  have hloop := h₁.iterateAdd (C src) [] m₁.fuel hs₁ ht₁ hne hC₁ hfuel₁ hbody
  rw [Function.update_self] at hloop
  have hrun : copySinglyLl m src dst =
      (iterateList (copyData dst) m₁.fuel (C src).nodes.head? m₁).bind fun m =>
        (m.llAt src).bind fun s => singlyLlSetComparisonFn m dst s.comparisonFn := by
    rw [copySinglyLl, hdelete]
    show (m₁.llAt src).bind _ = _
    rw [LlMem.llAt_eq hs₁, ← hhead]
    rfl
  rw [hrun]
  -- from here on the destination is empty
  suffices hafter : Leaves m₁ (Function.update C dst []) dst _ _ _ from hafter.of_change hlists₁
  refine hloop.bind fun m₂ zs₂ t₂ h₂ hlists₂ hfn₂ hdata₂ => ?_
  have hs₂ : m₂.lists src = some s := by rw [hlists₂, Function.update_of_ne hne, hs₁]
  have ht₂ : m₂.lists dst = some t₂ := by rw [hlists₂, Function.update_self]
  obtain ⟨m₃, hset, h₃, hlists₃⟩ := h₂.setComparisonFn ht₂ s.comparisonFn
  refine .inr ⟨m₃, zs₂, _, ?_, ?_, hlists₃, rfl, hdata₂⟩
  · rw [LlMem.llAt_eq hs₂]
    exact hset
  · rw [Function.update_idem]
    exact h₃

/-- **A list is copied if and only if it has at most one node.**  A longer one is copied in the
opposite order. -/
theorem copySinglyLl_copied_iff (h : Holds m C) (hs : m.lists src = some s) (ht : m.lists dst = some t)
    (hne : src ≠ dst) (hsrc : s.nodeCount = (C src).length) (hdst : t.nodeCount = (C dst).length)
    (hnull : none ∉ (C src).data) (hnodup : (C src).data.Nodup) :
    copySinglyLl m src dst = .error .inUse ∨
      ∃ m', copySinglyLl m src dst = .ok m' ∧ dataOf m' dst = some (C src).data.reverse ∧
        (Copied m m' src dst ↔ s.nodeCount ≤ 1) := by
  have hsshort : (C src).length < 2 ^ 32 := by
    rw [← hsrc, h.count src s hs]
    exact Nat.mod_lt _ (Nat.two_pow_pos 32)
  have hdshort : (C dst).length < 2 ^ 32 := by
    rw [← hdst, h.count dst t ht]
    exact Nat.mod_lt _ (Nat.two_pow_pos 32)
  have hlength : (C src).data.length = (C src).length := List.length_map _
  have hreverse : (C src).data.foldl pushAbsent [] = (C src).data.reverse := by
    have hpush :=
      pushAll_reverse (C src).data [] (by rw [List.append_nil]; exact List.nodup_reverse.mpr hnodup)
      (by rw [hlength]; exact hsshort)
    rw [hpush, List.append_nil]
  rcases h.copy hs ht hne hdshort hnull with herr | ⟨m', zs, t', hok, h', hlists, -, hdata⟩
  · exact .inl herr
  rw [hreverse] at hdata
  have ht' : m'.lists dst = some t' := by rw [hlists, Function.update_self]
  have hs' : m'.lists src = some s := by rw [hlists, Function.update_of_ne hne, hs]
  have hC' : Function.update C dst zs src = C src := Function.update_of_ne hne _ _
  have hdataDst := h'.dataOf_eq ht'
  rw [Function.update_self, hdata] at hdataDst
  have hdataSrc := h'.dataOf_eq hs'
  have hnodesSrc := h'.nodesOf_eq hs'
  rw [hC'] at hdataSrc hnodesSrc
  have hcount : t'.nodeCount = s.nodeCount := by
    have hzs : zs.length = (C src).length := by
      rw [← List.length_map Prod.snd, show zs.map Prod.snd = zs.data from rfl, hdata,
        List.length_reverse, hlength]
    rw [h'.count dst t' ht', Function.update_self, hzs, h.count src s hs]
  refine .inr ⟨m', hok, hdataDst, ?_⟩
  rw [hsrc, ← hlength, ← reverse_eq_self_iff hnodup]
  constructor
  · intro hcopied
    have hsame := hcopied.data
    rw [hdataDst, h.dataOf_eq hs] at hsame
    exact Option.some.inj hsame
  · intro hself
    refine ⟨?_, ?_, ?_, ?_, ?_⟩
    · rw [hdataDst, h.dataOf_eq hs, hself]
    · rw [ht', hs, Option.map_some, Option.map_some, hcount]
    · rw [hs', hs]
    · rw [hnodesSrc, h.nodesOf_eq hs]
    · rw [hdataSrc, h.dataOf_eq hs]

end Copies

section Runs

/-- A list of one node replaces another one. -/
theorem copySinglyLl_copied_iff_trace :
    ∃ m m' : LlMem Nat Bool Nat, dataOf m true = some [some 7] ∧ dataOf m false = some [some 8] ∧
      copySinglyLl m true false = .ok m' ∧ dataOf m' false = some [some 7] ∧ Copied m m' true false := by
  let calls : List (LlCall Nat Bool Nat × List Nat) :=
    [(.init true, []), (.init false, []), (.addByVal false 8, [0]), (.addByVal true 7, [1, 2])]
  have hrun :
    ((llMachine Nat Bool Nat).execUnder (fun m _ => decide (m.fuel < 2 ^ 32)) LlMem.empty
      calls).holds
      (fun m => decide ((m.lists true).map Ll.nodeCount = some 1) &&
        decide ((m.lists false).map Ll.nodeCount = some 1) && decide (dataOf m true = some [some 7]) &&
        decide (dataOf m false = some [some 8]) && (copySinglyLl m true false).toOption.isSome) =
          true := by
    decide +kernel
  obtain ⟨m, hexec, hm⟩ := Outcome.holds_iff.mp hrun
  simp only [Bool.and_eq_true, decide_eq_true_eq] at hm
  obtain ⟨⟨⟨⟨hs, ht⟩, hsrc⟩, hdst⟩, hok⟩ := hm
  obtain ⟨s, hs, hsone⟩ := Option.map_eq_some_iff.mp hs
  obtain ⟨t, ht, htone⟩ := Option.map_eq_some_iff.mp ht
  obtain ⟨C, h, -⟩ := llMachine_invariant (shortRun hexec)
  have hsdata : (C true).data = [some 7] := Option.some.inj ((h.dataOf_eq hs).symm.trans hsrc)
  have htdata : (C false).data = [some 8] := Option.some.inj ((h.dataOf_eq ht).symm.trans hdst)
  have hslength := congrArg List.length hsdata
  have htlength := congrArg List.length htdata
  rw [List.length_map] at hslength htlength
  rcases copySinglyLl_copied_iff h hs ht (by decide) (hsone.trans hslength.symm)
    (htone.trans htlength.symm)
    (by rw [hsdata]; decide) (by rw [hsdata]; decide) with herr | ⟨m', hcopy, hdata, hiff⟩
  · rw [herr] at hok
    cases hok
  · rw [hsdata] at hdata
    exact ⟨m, m', hsrc, hdst, hcopy, hdata, hiff.mpr (Nat.le_of_eq hsone)⟩

/-- A list of two nodes is copied to an empty one: the order is reversed. -/
theorem copySinglyLl_reverses :
    ∃ m m' : LlMem Nat Bool Nat,
      (llMachine Nat Bool Nat).exec LlMem.empty
        [(.init true, []), (.init false, []), (.addByVal true 7, [0]),
          (.addByVal true 8, [1, 2, 3])] = .next m ∧
      dataOf m true = some [some 8, some 7] ∧ dataOf m false = some [] ∧
      copySinglyLl m true false = .ok m' ∧ dataOf m' false = some [some 7, some 8] ∧
        ¬ Copied m m' true false := by
  let calls : List (LlCall Nat Bool Nat × List Nat) :=
    [(.init true, []), (.init false, []), (.addByVal true 7, [0]), (.addByVal true 8, [1, 2, 3])]
  have hrun : ((llMachine Nat Bool Nat).exec LlMem.empty calls).holds (fun m =>
      decide (dataOf m true = some [some 8, some 7]) && decide (dataOf m false = some []) &&
        decide ((copySinglyLl m true false).toOption.bind (dataOf · false) = some [some 7, some 8]))
          = true := by
    decide +kernel
  obtain ⟨m, hexec, hm⟩ := Outcome.holds_iff.mp hrun
  simp only [Bool.and_eq_true, decide_eq_true_eq] at hm
  obtain ⟨⟨hsrc, hdst⟩, hcopy⟩ := hm
  cases hok : copySinglyLl m true false with
  | error e =>
      rw [hok] at hcopy
      cases hcopy
  | ok m' =>
      rw [hok] at hcopy
      have hdata : dataOf m' false = some [some 7, some 8] := hcopy
      refine ⟨m, m', hexec, hsrc, hdst, hok, hdata, fun hcopied => ?_⟩
      have hsame := hcopied.data
      rw [hdata, hsrc] at hsame
      exact absurd hsame (by decide)

end Runs

end LinkedList
end MultithreadingBible
