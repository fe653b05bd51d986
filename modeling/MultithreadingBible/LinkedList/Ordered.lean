import MultithreadingBible.LinkedList.OrderedData
import MultithreadingBible.LinkedList.Sequence

/-!
# Ordered insertion

`singly_ll_add_ordered_data` is called for one datum after another, on a list that is empty at first.

* `Holds.addOrderedData` -- one call does to the data of the list what `orderedInsert` does.
* `addAllOrdered_sorted_iff` -- the list is sorted at the end for the data that are `InOrder`, and
  no others.
-/

namespace MultithreadingBible
namespace LinkedList

open Lib

variable {A B D : Type}

section Insertion

variable [DecidableEq A] [DecidableEq B] {m : LlMem A B D} {C : B → Entries A D} {ll : B} {l : Ll A D}
  {a p : A} {d dp : Option D} {us vs ws : Entries A D} {cmp : Option D → Option D → Int}

/-- A new node comes behind the node `p`, and leads to `vs`. -/
theorem Holds.insertBehind (h : Holds m C) (hl : m.lists ll = some l)
    (hC : C ll = us ++ (p, dp) :: (vs ++ ws))
    (hvs : Segment m.links vs.nodes.head? vs.nodes none) (hfresh : m.nodes a = none)
    (hcount : countUp 32 l.nodeCount = (us ++ (p, dp) :: (a, d) :: vs).length % 2 ^ 32)
    (callocs : List A) :
    Holds { (m.setNode a ⟨d, vs.nodes.head?⟩).setNode p ⟨dp, some a⟩ with
        callocs := callocs
        fuel := m.fuel + 1
        lists := Function.update m.lists ll (some { l with nodeCount := countUp 32 l.nodeCount }) }
      (Function.update C ll (us ++ (p, dp) :: (a, d) :: vs)) := by
  have hnot := h.not_mem_of_free hfresh
  have hsub : us ++ (p, dp) :: vs ⊆ C ll := by
    rw [hC]
    exact (List.Sublist.append_left ((List.sublist_append_left vs ws).cons_cons _) us).subset
  -- no other node of the list is `p`, and `a` is on no list
  have hp : ∀ c ∈ us ++ vs, c.1 ≠ p := by
    intro c hc
    refine h.ne_node hl hC ?_
    rw [← List.append_assoc]
    exact List.mem_append_left _ hc
  have hmem : p ∈ (C ll).nodes := List.mem_map_of_mem (f := Prod.fst) (hsub (a := (p, dp)) (by simp))
  have hpa : p ≠ a := fun heq => hnot ll (heq ▸ hmem)
  -- other lists, chain, data, disjointness, and fuel
  refine h.change rfl ?_ ?_ ?_ hcount ?_ (Nat.le_succ _) ?_
  · intro ll' hne b hb
    have hbp : b ≠ p := ne_of_mem_of_not_mem hb (h.disjoint ll ll' (Ne.symm hne) p hmem)
    have hba : b ≠ a := ne_of_mem_of_not_mem hb (hnot ll')
    exact (Function.update_of_ne hbp _ _).trans (Function.update_of_ne hba _ _)
  · -- the part up to `p` is kept
    have hchain := h.chain ll l hl
    rw [hC, Entries.nodes, List.map_append, Segment.append_iff] at hchain
    obtain ⟨r, hus, hrest⟩ := hchain
    obtain ⟨rfl, -, -, -⟩ := Segment.cons_iff.mp hrest
    show Segment (LlMem.links ((m.setNode a ⟨d, vs.nodes.head?⟩).setNode p ⟨dp, some a⟩)) l.head _ none
    have hnodes : Entries.nodes (us ++ (p, dp) :: (a, d) :: vs) = us.nodes ++ p :: a :: vs.nodes :=
      by simp
    rw [LlMem.links_setNode, LlMem.links_setNode, hnodes]
    refine hus.insert hvs ?_ ?_
    · intro hin
      rw [← List.map_append] at hin
      obtain ⟨c, hc, heq⟩ := List.mem_map.mp hin
      exact hp c hc heq
    · intro hin
      have hin' : a ∈ Entries.nodes (us ++ (p, dp) :: vs) := by simpa using hin
      obtain ⟨c, hc, heq⟩ := List.mem_map.mp hin'
      exact hnot ll (heq ▸ List.mem_map_of_mem (hsub hc))
  · intro c hc
    show (Function.update (Function.update m.nodes a _) p _ c.1).map SinglyLlNode.data = some c.2
    by_cases hcp : c = (p, dp)
    · rw [hcp, Function.update_self]
      rfl
    by_cases hca : c = (a, d)
    · rw [hca, Function.update_of_ne (Ne.symm hpa), Function.update_self]
      rfl
    -- the other data are where they were
    have hold : c ∈ us ++ vs := by
      simp only [List.mem_append, List.mem_cons] at hc ⊢
      exact hc.imp_right fun hc => (hc.resolve_left hcp).resolve_left hca
    have hold' : c ∈ C ll :=
      hsub ((List.Sublist.append_left (List.sublist_cons_self (p, dp) vs) us).subset hold)
    rw [Function.update_of_ne (hp c hold),
      Function.update_of_ne (ne_of_mem_of_not_mem (List.mem_map_of_mem hold') (hnot ll))]
    exact h.data ll c hold'
  · intro ll' hne b hb
    obtain ⟨c, hc, rfl⟩ := List.mem_map.mp hb
    by_cases hca : c = (a, d)
    · rw [hca]
      exact hnot ll'
    · refine h.disjoint ll ll' (Ne.symm hne) c.1 (List.mem_map_of_mem (hsub ?_))
      simp only [List.mem_append, List.mem_cons] at hc ⊢
      exact hc.imp_right fun hc => hc.imp_right fun hc => hc.resolve_left hca
  · have hle := h.fuel ll
    rw [hC] at hle
    simp only [List.length_append, List.length_cons] at hle ⊢
    show _ ≤ m.fuel + 1
    omega

omit [DecidableEq A] [DecidableEq B] in
theorem compare_eq (hfn : l.comparisonFn = some cmp) (x y : Option D) :
    compare l x y = .ok (cmp x y) := by
  rw [compare, hfn]

omit [DecidableEq A] in
theorem incNodeCount_eq (hl : m.lists ll = some l) :
    incNodeCount m ll = .ok (m.setLl ll { l with nodeCount := countUp 32 l.nodeCount }) := by
  rw [incNodeCount, LlMem.llAt_eq hl]
  rfl

/-- The new node is linked and counted. -/
theorem Holds.linkNewNode (h : Holds m C) (hl : m.lists ll = some l)
    (hC : C ll = us ++ (p, dp) :: vs) (hcount : countUp 32 l.nodeCount = ((C ll).length + 1) % 2 ^ 32)
    (d : Option D) :
    Leaves m C ll l.comparisonFn (us.data ++ dp :: d :: vs.data)
      ((LinkedList.linkNewNode m d (some p) vs.nodes.head?).bind (incNodeCount · ll)) := by
  rcases singlyLlInitNode_cases m d with herr | ⟨a, callocs, hcallocs, hfresh, hinit⟩
  · left
    rw [LinkedList.linkNewNode, herr]
    rfl
  · right
    have hp := h.node hl hC
    have hpa : p ≠ a := by
      intro heq
      rw [heq, hfresh] at hp
      cases hp
    have hvs : Segment m.links vs.nodes.head? vs.nodes none := by
      have hchain := h.chain ll l hl
      rw [hC, Entries.nodes, List.map_append, Segment.append_iff] at hchain
      obtain ⟨r, -, hrest⟩ := hchain
      obtain ⟨-, n, -, hvs⟩ := Segment.cons_iff.mp hrest
      rw [hvs.head] at hvs
      exact hvs
    have hlength : (C ll).length + 1 = (us ++ (p, dp) :: (a, d) :: vs).length := by
      rw [hC]
      simp
      omega
    rw [hlength] at hcount
    have hholds := h.insertBehind hl (hC.trans (by rw [List.append_nil])) hvs hfresh hcount callocs
    refine ⟨_, _, _, ?_, hholds, rfl, rfl, by simp⟩
    have hnew : ({ m.setNode a ⟨d, none⟩ with callocs := callocs, fuel := m.fuel + 1 } :
        LlMem A B D).nodes a = some ⟨d, none⟩ := Function.update_self ..
    have hprev : ((LlMem.setNode { m.setNode a ⟨d, none⟩ with callocs := callocs, fuel := m.fuel + 1 } a
        ⟨d, vs.nodes.head?⟩).nodes p) = some ⟨dp, vs.nodes.head?⟩ := by
      show Function.update (Function.update m.nodes a _) a _ p = _
      rw [Function.update_of_ne hpa, Function.update_of_ne hpa, hp]
    rw [LinkedList.linkNewNode, hinit]
    show (Except.bind (LlMem.setNext _ (some a) _) _).bind _ = _
    rw [LlMem.setNext_eq hnew]
    show (LlMem.setNext _ (some p) (some a)).bind _ = _
    rw [LlMem.setNext_eq hprev]
    refine (incNodeCount_eq (l := l) ?_).trans ?_
    · exact hl
    · simp only [LlMem.setLl, LlMem.setNode, Function.update_idem]

omit [DecidableEq B] in
/-- The loop leads to the place where the new node is linked. -/
theorem Holds.addOrderedLoop_eq (h : Holds m C) (hl : m.lists ll = some l)
    (hfn : l.comparisonFn = some cmp)
    (d : Option D) (fuel : Nat) (suf us : Entries A D) (p : A) (dp : Option D)
    (hC : C ll = us ++ (p, dp) :: suf) (hfuel : suf.length ≤ fuel) :
    ∃ (us' : Entries A D) (p' : A) (dp' : Option D) (vs : Entries A D), C ll = us' ++ (p', dp') :: vs ∧
      us.data ++ dp :: insertBeforeFirst (fun x => cmp d x = -1) d suf.data = us'.data ++
        dp' :: d :: vs.data ∧
      addOrderedLoop m l d fuel (some p) suf.nodes.head? =
        LinkedList.linkNewNode m d (some p') vs.nodes.head? := by
  -- over the nodes behind `p`
  induction suf generalizing us p dp fuel with
  | nil =>
      refine ⟨us, p, dp, [], hC, rfl, ?_⟩
      cases fuel with
      | zero => rfl
      | succ fuel => rfl
  | cons c suf ih =>
      obtain ⟨q, dq⟩ := c
      obtain ⟨fuel, rfl⟩ : ∃ k, fuel = k + 1 := ⟨fuel - 1, by simp at hfuel; omega⟩
      have hC' : C ll = us ++ [(p, dp)] ++ (q, dq) :: suf := hC.trans (List.append_cons us (p, dp) _)
      have hstep : addOrderedLoop m l d (fuel + 1) (some p) (some q) =
          if cmp d dq ≠ -1 then addOrderedLoop m l d fuel (some q) (Entries.nodes suf).head?
          else LinkedList.linkNewNode m d (some p) (some q) := by
        rw [addOrderedLoop, LlMem.nodeAt_eq (h.node hl hC')]
        show (compare l d dq).bind _ = _
        rw [compare_eq hfn]
        rfl
      show ∃ (us' : Entries A D) (p' : A) (dp' : Option D) (vs : Entries A D), C ll = _ ∧
        us.data ++ dp :: (if cmp d dq = -1 then d :: dq :: Entries.data suf
          else dq :: insertBeforeFirst (fun x => cmp d x = -1) d (Entries.data suf)) = _ ∧
        addOrderedLoop m l d (fuel + 1) (some p) (some q) = _
      rw [hstep]
      by_cases hd : cmp d dq = -1
      · rw [if_pos hd, if_neg (not_not.mpr hd)]
        exact ⟨us, p, dp, (q, dq) :: suf, hC, rfl, rfl⟩
      · obtain ⟨us', p', dp', vs, hsplit, hdata, hloop⟩ :=
          ih fuel (us ++ [(p, dp)]) q dq hC' (Nat.le_of_succ_le_succ hfuel)
        rw [if_neg hd, if_pos hd]
        refine ⟨us', p', dp', vs, hsplit, ?_, hloop⟩
        rw [← hdata, show Entries.data (us ++ [(p, dp)]) = us.data ++ [dp] from List.map_append,
          List.append_assoc]
        rfl

/-- `singly_ll_add_node_by_val` with data that is not found comes to the front. -/
theorem Holds.addInFront [DecidableEq D] (h : Holds m C) (hl : m.lists ll = some l)
    (hd : d ∉ (C ll).counted.data) :
    Leaves m C ll l.comparisonFn (d :: (C ll).data)
      ((singlyLlAddNodeByVal m ll d).bind fun r => .ok r.1) := by
  rcases h.addByVal hl d with herr | ⟨hmem, -⟩ | ⟨-, m', a, hok, hholds, hlists⟩
  · left
    rw [herr]
    rfl
  · exact absurd hmem hd
  · right
    refine ⟨m', (a, d) :: C ll, _, ?_, hholds, hlists, rfl, rfl⟩
    rw [hok]
    rfl

/-- A new node before the head. -/
theorem Holds.linkInFront (h : Holds m C) (hl : m.lists ll = some l) (d : Option D) :
    Leaves m C ll l.comparisonFn (d :: (C ll).data)
      ((singlyLlInitNode m d).bind fun r => (r.1.setNext (some r.2) l.head).bind fun m =>
        incNodeCount (m.setLl ll { l with head := some r.2 }) ll) := by
  rcases singlyLlInitNode_cases m d with herr | ⟨a, callocs, -, hfresh, hinit⟩
  · left
    rw [herr]
    rfl
  · right
    refine ⟨_, (a, d) :: C ll, _, ?_, h.pushed hl hfresh callocs, rfl, rfl, rfl⟩
    have hnew : ({ m.setNode a ⟨d, none⟩ with callocs := callocs, fuel := m.fuel + 1 } :
        LlMem A B D).nodes a = some ⟨d, none⟩ := Function.update_self ..
    rw [hinit]
    show (LlMem.setNext _ (some a) l.head).bind _ = _
    rw [LlMem.setNext_eq hnew]
    refine (incNodeCount_eq (l := { l with head := some a }) (Function.update_self ..)).trans ?_
    simp only [LlMem.setLl, LlMem.setNode, Function.update_idem]

/-- A new node behind the head, which leads to it alone then. -/
theorem Holds.linkBehindHead (h : Holds m C) (hl : m.lists ll = some l) {x : A} {dx : Option D}
    (hC : C ll = (x, dx) :: ws) (hone : l.nodeCount = 1) (d : Option D) :
    Leaves m C ll l.comparisonFn [dx, d]
      ((singlyLlInitNode m d).bind fun r => (r.1.setNext l.head (some r.2)).bind
        (incNodeCount · ll)) := by
  rcases singlyLlInitNode_cases m d with herr | ⟨a, callocs, -, hfresh, hinit⟩
  · left
    rw [herr]
    rfl
  · right
    have hx := h.node hl (show C ll = [] ++ (x, dx) :: ws from hC)
    have hhead : l.head = some x := by
      rw [h.head hl, hC]
      rfl
    have hxa : x ≠ a := by
      intro heq
      rw [heq, hfresh] at hx
      cases hx
    have hcount : countUp 32 l.nodeCount = [(x, dx), (a, d)].length % 2 ^ 32 := by
      rw [hone]
      exact countUp_mod 32 1
    have hholds := h.insertBehind hl (show C ll = [] ++ (x, dx) :: ([] ++ ws) from hC) (.nil none) hfresh
      hcount callocs
    refine ⟨_, _, _, ?_, hholds, rfl, rfl, rfl⟩
    have hx' : ({ m.setNode a ⟨d, none⟩ with callocs := callocs, fuel := m.fuel + 1 } :
        LlMem A B D).nodes x = some ⟨dx, ws.nodes.head?⟩ := (Function.update_of_ne hxa _ _).trans hx
    obtain ⟨count, head, fn⟩ := l
    cases hhead
    rw [hinit]
    show (LlMem.setNext _ (some x) (some a)).bind _ = _
    rw [LlMem.setNext_eq hx']
    refine (incNodeCount_eq (l := ⟨count, some x, fn⟩) ?_).trans ?_
    · exact hl
    · rfl

/-- `singly_ll_add_ordered_data` -/
theorem Holds.addOrderedData [DecidableEq D] (h : Holds m C) (hl : m.lists ll = some l)
    (hfn : l.comparisonFn = some cmp) (hcmp : Comparison cmp) (d : Option D) :
    Leaves m C ll l.comparisonFn (orderedInsert cmp d (C ll).data) (singlyLlAddOrderedData m ll d) := by
  have hcount := h.count ll l hl
  have hrun : singlyLlAddOrderedData m ll d =
      if l.nodeCount = 0 then (singlyLlAddNodeByVal m ll d).bind fun r => .ok r.1
      else (m.nodeAt l.head).bind fun e =>
        if l.nodeCount = 1 then
          if cmp e.data d = -1 then (singlyLlAddNodeByVal m ll d).bind fun r => .ok r.1
          else (singlyLlInitNode m d).bind fun r => (r.1.setNext l.head (some r.2)).bind
            (incNodeCount · ll)
        else if cmp d e.data = -1 then
          (singlyLlInitNode m d).bind fun r => (r.1.setNext (some r.2) l.head).bind fun m =>
            incNodeCount (m.setLl ll { l with head := some r.2 }) ll
        else (addOrderedLoop m l d m.fuel none l.head).bind (incNodeCount · ll) := by
    unfold singlyLlAddOrderedData
    rw [LlMem.llAt_eq hl]
    show (if l.nodeCount = 0 then _ else (m.nodeAt l.head).bind fun e =>
      if l.nodeCount = 1 then (compare l e.data d).bind _ else (compare l d e.data).bind _) = _
    simp only [compare_eq hfn]
    rfl
  have hlength : (C ll).data.length = (C ll).length := List.length_map _
  rw [hrun]
  -- nothing is counted: the list is empty, or the count has wrapped
  by_cases hzero : l.nodeCount = 0
  · rw [if_pos hzero, orderedInsert_front cmp d (by omega)]
    refine h.addInFront hl ?_
    rw [Entries.counted, ← hcount, hzero]
    exact List.not_mem_nil
  obtain ⟨x, dx, zs, hC⟩ : ∃ (x : A) (dx : Option D) (zs : Entries A D), C ll = (x, dx) :: zs := by
    cases hC : C ll with
    | nil => exact absurd (hcount.trans (by rw [hC]; rfl)) hzero
    | cons c zs => exact ⟨c.1, c.2, zs, rfl⟩
  have hdata : (C ll).data = dx :: zs.data := by
    rw [hC]
    rfl
  have hnode := h.node hl (show C ll = [] ++ (x, dx) :: zs from hC)
  have hhead : l.head = some x := by
    rw [h.head hl, hC]
    rfl
  have hnodeAt : m.nodeAt l.head = .ok ⟨dx, zs.nodes.head?⟩ := by
    rw [hhead]
    exact LlMem.nodeAt_eq hnode
  rw [if_neg hzero, hnodeAt]
  show Leaves m C ll l.comparisonFn _ (if l.nodeCount = 1 then _ else _)
  by_cases hone : l.nodeCount = 1
  · have hself : cmp dx dx ≠ -1 := by
      have hswap := hcmp.swap dx dx
      omega
    rw [hdata] at hlength
    rw [if_pos hone, hdata, orderedInsert_one cmp d dx _ (by omega)]
    by_cases hd : cmp dx d = -1
    · rw [if_pos hd, if_pos hd, ← hdata]
      refine h.addInFront hl ?_
      rw [Entries.counted, ← hcount, hone, hC]
      intro hmem
      rw [List.mem_singleton.mp hmem] at hd
      exact hself hd
    · rw [if_neg hd, if_neg hd]
      exact h.linkBehindHead hl hC hone d
  · rw [if_neg hone, orderedInsert_several cmp d (by omega) (by omega), hdata, insertBeforeFirst]
    by_cases hd : cmp d dx = -1
    · rw [if_pos hd, if_pos hd, ← hdata]
      exact h.linkInFront hl d
    · have hfuel := h.fuel ll
      rw [hC, List.length_cons] at hfuel
      obtain ⟨fuel, hm⟩ : ∃ k, m.fuel = k + 1 := ⟨m.fuel - 1, by omega⟩
      -- the loop compares the head once more and goes on
      have hfirst : addOrderedLoop m l d m.fuel none l.head =
          addOrderedLoop m l d fuel (some x) zs.nodes.head? := by
        rw [hm, hhead, addOrderedLoop, LlMem.nodeAt_eq hnode]
        show (compare l d dx).bind _ = _
        rw [compare_eq hfn]
        exact if_pos hd
      obtain ⟨us, p, dp, vs, hsplit, hinsert, hloop⟩ :=
        h.addOrderedLoop_eq hl hfn d fuel zs [] x dx hC (by omega)
      have hup : countUp 32 l.nodeCount = ((C ll).length + 1) % 2 ^ 32 := by
        rw [hcount, countUp_mod]
      have hinsert' : dx :: insertBeforeFirst (fun x => cmp d x = -1) d zs.data =
          us.data ++ dp :: d :: vs.data := hinsert
      rw [if_neg hd, if_neg hd, hinsert', hfirst, hloop]
      exact h.linkNewNode hl hsplit hup d

/-- Insert one datum after another. -/
def addAllOrdered [DecidableEq D] (m : LlMem A B D) (ll : B) :
    List (Option D) → Except Failure (LlMem A B D)
  | [] => .ok m
  | d :: ds => do addAllOrdered (← singlyLlAddOrderedData m ll d) ll ds

theorem Holds.addAllOrdered [DecidableEq D] (ds : List (Option D)) {m : LlMem A B D} {C : B → Entries A D}
    {l : Ll A D} (h : Holds m C) (hl : m.lists ll = some l) (hfn : l.comparisonFn = some cmp)
    (hcmp : Comparison cmp) :
    Leaves m C ll l.comparisonFn (ds.foldl (fun xs d => orderedInsert cmp d xs) (C ll).data)
      (LinkedList.addAllOrdered m ll ds) := by
  induction ds generalizing m C l with
  | nil => exact .inr ⟨m, C ll, l, rfl, (h.unchanged hl).1, (h.unchanged hl).2, rfl, rfl⟩
  | cons d ds ih =>
      show Leaves m C ll l.comparisonFn _ ((singlyLlAddOrderedData m ll d).bind fun m =>
        LinkedList.addAllOrdered m ll ds)
      refine (h.addOrderedData hl hfn hcmp d).bind fun m₁ zs₁ l₁ h₁ hlists₁ hfn₁ hdata₁ => ?_
      have hrest := ih h₁ (by rw [hlists₁, Function.update_self]) (hfn₁.trans hfn)
      rw [Function.update_self, hdata₁, hfn₁] at hrest
      exact hrest

/-- Insertion into an empty list fails for `calloc` only, and sorts exactly the data that are in
order already: with one node in the list the comparison is the wrong way round. -/
theorem addAllOrdered_sorted_iff [DecidableEq D] (h : Holds m C) (hl : m.lists ll = some l)
    (hempty : C ll = [])
    (hfn : l.comparisonFn = some cmp) (hcmp : Comparison cmp) (ds : List (Option D)) :
    LinkedList.addAllOrdered m ll ds = .error .inUse ∨
      ∃ m' xs, LinkedList.addAllOrdered m ll ds = .ok m' ∧ dataOf m' ll = some xs ∧
        (IsSorted cmp ds xs ↔ InOrder cmp ds) := by
  rcases h.addAllOrdered ds hl hfn hcmp with herr | ⟨m', zs, l', hok, h', hlists, -, hdata⟩
  · exact .inl herr
  · have hl' : m'.lists ll = some l' := by rw [hlists, Function.update_self]
    have hdata' := h'.dataOf_eq hl'
    rw [Function.update_self, hdata, hempty] at hdata'
    exact .inr ⟨m', _, hok, hdata', fun hsorted => hsorted.inOrder hcmp, fun hin => hin.isSorted hcmp⟩

end Insertion

section Runs

/-- Numbers are compared by their tens. -/
def byTens (d e : Option Nat) : Int :=
  if d.getD 0 / 10 < e.getD 0 / 10 then -1 else if e.getD 0 / 10 < d.getD 0 / 10 then 1 else 0

theorem comparison_byTens : Comparison byTens where
  values a b := by
    unfold byTens
    split_ifs <;> omega
  swap a b := by
    unfold byTens
    split_ifs <;> omega
  trans a b c := by
    unfold byTens
    split_ifs <;> omega

/-- An empty list with that comparison function, and four free addresses. -/
def emptyByTens : LlMem Nat Unit Nat :=
  { LlMem.empty.setLl () ⟨0, none, some byTens⟩ with callocs := [0, 1, 2, 3] }

theorem holds_emptyByTens : Holds emptyByTens fun _ => [] := by
  have hno : (LlMem.empty : LlMem Nat Unit Nat).lists () = none := rfl
  obtain ⟨m₀, hinit, h₀, -, -, -, hlists₀⟩ := Holds.empty.init hno
  obtain ⟨m₁, hset, h₁, -⟩ := h₀.setComparisonFn (congrFun hlists₀ ()) (some byTens)
  cases hinit
  cases hset
  refine h₁.congr rfl ?_ (Nat.le_refl _)
  ext1 ll
  rfl

theorem addAllOrdered_sorted_iff_trace :
    ∃ m' xs, addAllOrdered emptyByTens () [some 11, some 12, some 7, some 25] = .ok m' ∧
      dataOf m' () = some xs ∧
      IsSorted byTens [some 11, some 12, some 7, some 25] xs := by
  have hruns : (addAllOrdered emptyByTens () [some 11, some 12, some 7, some 25]).toOption.isSome =
    true := by
    decide +kernel
  have hin : InOrder byTens [some 11, some 12, some 7, some 25] := by
    refine ⟨fun d e rest hds => ?_, .inl (by decide)⟩
    cases hds
    rfl
  have hl : emptyByTens.lists () = some ⟨0, none, some byTens⟩ := rfl
  rcases addAllOrdered_sorted_iff holds_emptyByTens hl rfl rfl comparison_byTens
    [some 11, some 12, some 7, some 25] with herr | ⟨m', xs, hok, hdata, hiff⟩
  · rw [herr] at hruns
    cases hruns
  · exact ⟨m', xs, hok, hdata, hiff.mpr hin⟩

/-- Of two data in increasing order, the greater one comes first. -/
theorem addAllOrdered_increasing :
    Comparison byTens ∧ dataOf emptyByTens () = some [] ∧
      ∃ m', addAllOrdered emptyByTens () [some 1, some 12] = .ok m' ∧
        dataOf m' () = some [some 12, some 1] ∧
        byTens (some 12) (some 1) = 1 ∧ ¬ IsSorted byTens [some 1, some 12] [some 12, some 1] := by
  have hruns : (addAllOrdered emptyByTens () [some 1, some 12]).toOption.bind (dataOf · ()) =
      some [some 12, some 1] := by
    decide +kernel
  cases hok : addAllOrdered emptyByTens () [some 1, some 12] with
  | error e =>
      rw [hok] at hruns
      cases hruns
  | ok m' =>
      rw [hok] at hruns
      refine ⟨comparison_byTens, rfl, m', rfl, hruns, rfl, fun h => ?_⟩
      have hle := List.rel_of_pairwise_cons h.sorted List.mem_cons_self
      exact absurd hle (by decide)

end Runs

end LinkedList
end MultithreadingBible
