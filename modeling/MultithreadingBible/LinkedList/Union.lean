import MultithreadingBible.LinkedList.Deletion

/-!
# Adding the data of one list to another

* `pushAbsent` -- what `singly_ll_add_node_by_val` does to the data of a list.
* `Holds.iterateAdd` -- a loop over a list whose body adds the data of the node to another list.
* `Holds.union` -- `union_singly_ll`: the new list gets the data of both lists, one after another.
-/

namespace MultithreadingBible
namespace LinkedList

open Lib

variable {A B D : Type} [DecidableEq A] [DecidableEq B] [DecidableEq D]

/-- What `singly_ll_add_node_by_val` makes of the data of a list. -/
def pushAbsent (xs : List (Option D)) (d : Option D) : List (Option D) :=
  if d ∈ xs.take (xs.length % 2 ^ 32) then xs else d :: xs

omit [DecidableEq A] [DecidableEq B] in
theorem length_le_pushAll (ds xs : List (Option D)) : xs.length ≤ (ds.foldl pushAbsent xs).length := by
  induction ds generalizing xs with
  | nil => exact Nat.le_refl _
  | cons d ds ih =>
      refine Nat.le_trans ?_ (ih (pushAbsent xs d))
      unfold pushAbsent
      split
      · exact Nat.le_refl _
      · exact Nat.le_succ _

omit [DecidableEq A] [DecidableEq B] in
theorem pushAbsent_short {xs : List (Option D)} (h : xs.length < 2 ^ 32) (d : Option D) :
    pushAbsent xs d = if d ∈ xs then xs else d :: xs := by
  rw [pushAbsent, Nat.mod_eq_of_lt h, List.take_length]

omit [DecidableEq A] [DecidableEq B] in
/-- As long as the list is short, each pointer is added once. -/
theorem pushAll_short (ds : List (Option D)) {xs : List (Option D)} (hxs : xs.Nodup)
    (hshort : (ds.foldl pushAbsent xs).length < 2 ^ 32) :
    (ds.foldl pushAbsent xs).Nodup ∧ ∀ d, d ∈ ds.foldl pushAbsent xs ↔ d ∈ xs ∨ d ∈ ds := by
  induction ds generalizing xs with
  | nil => exact ⟨hxs, fun d => by simp⟩
  | cons d ds ih =>
      have hle := length_le_pushAll (d :: ds) xs
      have hpush := pushAbsent_short (show xs.length < 2 ^ 32 by omega) d
      rw [List.foldl_cons] at hshort ⊢
      by_cases hd : d ∈ xs
      · rw [hpush, if_pos hd] at hshort ⊢
        obtain ⟨hnodup, hmem⟩ := ih hxs hshort
        refine ⟨hnodup, fun e => ?_⟩
        rw [hmem e, List.mem_cons]
        constructor
        · exact fun h => h.imp_right .inr
        · rintro (h | rfl | h)
          · exact .inl h
          · exact .inl hd
          · exact .inr h
      · rw [hpush, if_neg hd] at hshort ⊢
        obtain ⟨hnodup, hmem⟩ := ih (List.nodup_cons.mpr ⟨hd, hxs⟩) hshort
        refine ⟨hnodup, fun e => ?_⟩
        rw [hmem e, List.mem_cons, List.mem_cons]
        tauto

variable {m : LlMem A B D} {C : B → Entries A D}

/-- The result `r` of a call is a memory in which the list `ll` has the data `xs` and the comparison
function `fn` and the other lists are as before, unless `calloc` answers with an address in use. -/
def Leaves (m : LlMem A B D) (C : B → Entries A D) (ll : B) (fn : Option (Option D → Option D → Int))
    (xs : List (Option D)) (r : Except Failure (LlMem A B D)) : Prop :=
  r = .error .inUse ∨
    ∃ m' zs l', r = .ok m' ∧ Holds m' (Function.update C ll zs) ∧
      m'.lists = Function.update m.lists ll (some l') ∧ l'.comparisonFn = fn ∧ zs.data = xs

/-- `addData` as a step on the data of a list. -/
theorem Holds.addData (h : Holds m C) {ll : B} {l : Ll A D} (hl : m.lists ll = some l)
    (n : SinglyLlNode A D) :
    Leaves m C ll l.comparisonFn (pushAbsent (C ll).data n.data) (LinkedList.addData ll m n) := by
  have hcounted : (C ll).counted.data = (C ll).data.take ((C ll).data.length % 2 ^ 32) := by
    rw [Entries.counted, Entries.data, List.map_take, List.length_map]
  unfold pushAbsent
  rw [← hcounted]
  rcases h.addByVal hl n.data with herr | ⟨hmem, hok⟩ | ⟨hmem, m', a, hok, hholds, hlists⟩
  · left
    rw [LinkedList.addData, herr]
    rfl
  · right
    refine ⟨m, C ll, l, ?_, (h.unchanged hl).1, (h.unchanged hl).2, rfl, (if_pos hmem).symm⟩
    rw [LinkedList.addData, hok]
    rfl
  · right
    refine ⟨m', (a, n.data) :: C ll, _, ?_, hholds, hlists, rfl, (if_neg hmem).symm⟩
    rw [LinkedList.addData, hok]
    rfl

omit [DecidableEq A] [DecidableEq D] in
/-- Counted from before an earlier change of the same list. -/
theorem Leaves.of_change {ll : B} {fn : Option (Option D → Option D → Int)} {xs : List (Option D)}
    {r : Except Failure (LlMem A B D)} {m₁ : LlMem A B D} {zs₁ : Entries A D} {l₁ : Option (Ll A D)}
    (hr : Leaves m₁ (Function.update C ll zs₁) ll fn xs r)
    (hlists₁ : m₁.lists = Function.update m.lists ll l₁) :
    Leaves m C ll fn xs r := by
  rcases hr with herr | ⟨m', zs, l', hok, h', hlists, hrest⟩
  · exact .inl herr
  · refine .inr ⟨m', zs, l', hok, ?_, ?_, hrest⟩
    · rw [Function.update_idem] at h'
      exact h'
    · rw [hlists, hlists₁, Function.update_idem]

omit [DecidableEq A] [DecidableEq D] in
/-- Two calls on one list, one after the other. -/
theorem Leaves.bind {ll : B} {fn fn' : Option (Option D → Option D → Int)} {xs ys : List (Option D)}
    {r : Except Failure (LlMem A B D)} (hr : Leaves m C ll fn xs r)
    {f : LlMem A B D → Except Failure (LlMem A B D)}
    (hf : ∀ m' zs l', Holds m' (Function.update C ll zs) → m'.lists = Function.update m.lists ll
      (some l') →
      l'.comparisonFn = fn → zs.data = xs → Leaves m' (Function.update C ll zs) ll fn' ys (f m')) :
    Leaves m C ll fn' ys (r.bind f) := by
  rcases hr with rfl | ⟨m₁, zs₁, l₁, rfl, h₁, hlists₁, hfn₁, hdata₁⟩
  · exact .inl rfl
  · exact (hf m₁ zs₁ l₁ h₁ hlists₁ hfn₁ hdata₁).of_change hlists₁

/-- A loop over the rest of a list whose body adds the data of each node to another list. -/
theorem Holds.iterateAdd (suf pre : Entries A D) (fuel : Nat) {m : LlMem A B D} {C : B → Entries A D}
    (h : Holds m C) {src res : B} {s l : Ll A D} (hs : m.lists src = some s) (hl : m.lists res = some l)
    (hne : src ≠ res) (hC : C src = pre ++ suf) (hfuel : suf.length ≤ fuel)
    {body : LlMem A B D → SinglyLlNode A D → Except Failure (LlMem A B D)}
    (hbody : ∀ c ∈ suf, ∀ m next, body m ⟨c.2, next⟩ = LinkedList.addData res m ⟨c.2, next⟩) :
    Leaves m C res l.comparisonFn ((Entries.data suf).foldl pushAbsent (C res).data)
      (iterateList body fuel (Entries.nodes suf).head? m) := by
  -- over the nodes that are left; the other list grows meanwhile
  induction suf generalizing pre fuel m C l with
  | nil =>
      right
      refine ⟨m, C res, l, ?_, (h.unchanged hl).1, (h.unchanged hl).2, rfl, rfl⟩
      cases fuel with
      | zero => rfl
      | succ fuel => rfl
  | cons c suf ih =>
      obtain ⟨a, d⟩ := c
      obtain ⟨fuel, rfl⟩ : ∃ k, fuel = k + 1 := ⟨fuel - 1, by simp at hfuel; omega⟩
      have hstep : iterateList body (fuel + 1) (some a) m =
          (LinkedList.addData res m ⟨d, (Entries.nodes suf).head?⟩).bind fun m =>
            iterateList body fuel (Entries.nodes suf).head? m := by
        show (m.nodeAt (some a)).bind _ = _
        rw [LlMem.nodeAt_eq (h.node hs hC), ← hbody (a, d) List.mem_cons_self]
        rfl
      show Leaves m C res l.comparisonFn _ (iterateList body (fuel + 1) (some a) m)
      rw [hstep]
      refine (h.addData hl ⟨d, (Entries.nodes suf).head?⟩).bind fun m₁ zs₁ l₁ h₁ hlists₁ hfn₁ hdata₁ => ?_
      have hs₁ : m₁.lists src = some s := by rw [hlists₁, Function.update_of_ne hne, hs]
      have hl₁ : m₁.lists res = some l₁ := by rw [hlists₁, Function.update_self]
      have hC₁ : Function.update C res zs₁ src = (pre ++ [(a, d)]) ++ suf := by
        rw [Function.update_of_ne hne, hC, List.append_cons]
      have hrest := ih (pre ++ [(a, d)]) fuel h₁ hs₁ hl₁ hC₁ (Nat.le_of_succ_le_succ hfuel)
        fun c hc => hbody c (List.mem_cons_of_mem _ hc)
      rw [Function.update_self, hdata₁, hfn₁] at hrest
      exact hrest

omit [DecidableEq A] [DecidableEq D] in
/-- `singly_ll_set_comparison_fn` -/
theorem Holds.setComparisonFn (h : Holds m C) {ll : B} {l : Ll A D} (hl : m.lists ll = some l)
    (comparisonFn : Option (Option D → Option D → Int)) :
    ∃ m', singlyLlSetComparisonFn m ll comparisonFn = .ok m' ∧ Holds m' C ∧
      m'.lists = Function.update m.lists ll (some { l with comparisonFn := comparisonFn }) := by
  refine ⟨m.setLl ll { l with comparisonFn := comparisonFn }, ?_, ?_, rfl⟩
  · rw [singlyLlSetComparisonFn, LlMem.llAt_eq hl]
    rfl
  · have hchange : Holds (m.setLl ll { l with comparisonFn := comparisonFn })
      (Function.update C ll (C ll)) :=
      h.change rfl (fun _ _ _ _ => rfl) (h.chain ll l hl) (h.data ll) (h.count ll l hl)
        (fun ll' hne a ha => h.disjoint ll ll' (Ne.symm hne) a ha) (Nat.le_refl _) (h.fuel ll)
    rw [Function.update_eq_self] at hchange
    exact hchange

/-- `union_singly_ll` -/
theorem Holds.union (h : Holds m C) {list1 list2 : B} {l1 l2 : Ll A D} (hl1 : m.lists list1 = some l1)
    (hl2 : m.lists list2 = some l2) (res : B) :
    Leaves m C res (l1.comparisonFn.or l2.comparisonFn)
      (((C list1).data ++ (C list2).data).foldl pushAbsent []) (unionSinglyLl m list1 list2 res) := by
  cases hres : m.lists res with
  | some l =>
      left
      rw [unionSinglyLl, initSinglyLl, hres]
      rfl
  | none =>
      have hne1 : list1 ≠ res := fun heq => by rw [heq, hres] at hl1; cases hl1
      have hne2 : list2 ≠ res := fun heq => by rw [heq, hres] at hl2; cases hl2
      obtain ⟨m₀, hinit, h₀, -, -, -, hlists₀⟩ := h.init hres
      have hl1₀ : m₀.lists list1 = some l1 := by rw [hlists₀, Function.update_of_ne hne1, hl1]
      have hl2₀ : m₀.lists list2 = some l2 := by rw [hlists₀, Function.update_of_ne hne2, hl2]
      have hres₀ : m₀.lists res = some ⟨0, none, none⟩ := by rw [hlists₀, Function.update_self]
      obtain ⟨m₁, hset, h₁, hlists₁⟩ := h₀.setComparisonFn hres₀ (l1.comparisonFn.or l2.comparisonFn)
      have hrun : unionSinglyLl m list1 list2 res =
          (iterateList (LinkedList.addData res) m₁.fuel l1.head m₁).bind fun m =>
            iterateList (LinkedList.addData res) m.fuel l2.head m := by
        rw [unionSinglyLl, hinit]
        show (m₀.llAt list1).bind _ = _
        rw [LlMem.llAt_eq hl1₀]
        show (m₀.llAt list2).bind _ = _
        rw [LlMem.llAt_eq hl2₀]
        show (singlyLlSetComparisonFn m₀ res _).bind _ = _
        rw [hset]
        rfl
      have hl1₁ : m₁.lists list1 = some l1 := by rw [hlists₁, Function.update_of_ne hne1, hl1₀]
      have hres₁ := congrFun hlists₁ res
      rw [Function.update_self] at hres₁
      have hloop₁ :=
        h₁.iterateAdd (C list1) [] m₁.fuel hl1₁ hres₁ hne1 rfl (h₁.fuel list1) fun _ _ _ _ => rfl
      have hlists : m₁.lists = Function.update m.lists res
          (some ⟨0, none, l1.comparisonFn.or l2.comparisonFn⟩) := by
        rw [hlists₁, hlists₀, Function.update_idem]
      have hnil : Function.update C res [] = C := by
        rw [← h.absent res hres, Function.update_eq_self]
      -- the first loop starts from the empty list, the second one from what the first one left
      rw [hrun, h.head hl1, h.head hl2, List.foldl_append]
      suffices hafter : Leaves m₁ (Function.update C res []) res _ _ _ from hafter.of_change hlists
      rw [hnil]
      refine hloop₁.bind fun m₂ zs₂ l₂ h₂ hlists₂ hfn₂ hdata₂ => ?_
      have hC2 : Function.update C res zs₂ list2 = C list2 := Function.update_of_ne hne2 _ _
      have hl2₂ : m₂.lists list2 = some l2 := by
        rw [hlists₂, Function.update_of_ne hne2, hlists₁, Function.update_of_ne hne2, hl2₀]
      have hres₂ : m₂.lists res = some l₂ := by rw [hlists₂, Function.update_self]
      have hfuel₂ := h₂.fuel list2
      rw [hC2] at hfuel₂
      have hloop₂ := h₂.iterateAdd (C list2) [] m₂.fuel hl2₂ hres₂ hne2 hC2 hfuel₂ fun _ _ _ _ => rfl
      rw [Function.update_self, hdata₂, hfn₂, h.absent res hres] at hloop₂
      exact hloop₂

end LinkedList
end MultithreadingBible
