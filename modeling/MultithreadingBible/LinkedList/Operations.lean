import MultithreadingBible.LinkedList.Represent

/-!
# Insertion and removal

One lemma for each function: with which contents of the lists the memory holds after the call.

* `Holds.addByVal` -- a new node at the front, unless the data is found.
* `Holds.bypass` -- a node passes over the one behind it, which removal and deletion both come down to.
* `Holds.removeNode` -- one position less, and the node is left to the caller.
-/

namespace MultithreadingBible
namespace LinkedList

open Lib

variable {A B D : Type} [DecidableEq A] [DecidableEq B]

omit [DecidableEq B] in
/-- `singly_ll_init_node`: the new node is at an address that is free. -/
theorem singlyLlInitNode_cases (m : LlMem A B D) (d : Option D) :
    singlyLlInitNode m d = .error .inUse ∨
      ∃ a callocs, m.callocs = a :: callocs ∧ m.nodes a = none ∧
        singlyLlInitNode m d =
          .ok ({ m.setNode a ⟨d, none⟩ with callocs := callocs, fuel := m.fuel + 1 }, a) := by
  unfold singlyLlInitNode
  cases m.callocs with
  | nil => exact .inl rfl
  | cons a callocs =>
      show (if (m.nodes a).isSome = true then _ else _) = _ ∨ _
      cases hnode : m.nodes a with
      | some n => exact .inl (if_pos rfl)
      | none =>
          refine .inr ⟨a, callocs, rfl, hnode, ?_⟩
          show (if (m.nodes a).isSome = true then _ else _) = _
          rw [hnode]
          exact if_neg Bool.false_ne_true

namespace Holds

variable {m : LlMem A B D} {C : B → Entries A D} {ll : B} {l : Ll A D} {a : A} {d : Option D}
  {pre post : Entries A D}

omit [DecidableEq A] in
/-- A new list. -/
theorem init (h : Holds m C) (hl : m.lists ll = none) :
    ∃ m', initSinglyLl m ll = .ok m' ∧ Holds m' C ∧ m'.fuel = m.fuel ∧ m'.callocs = m.callocs ∧
      m'.nodes = m.nodes ∧ m'.lists = Function.update m.lists ll (some ⟨0, none, none⟩) := by
  have hnil := h.absent ll hl
  refine ⟨m.setLl ll ⟨0, none, none⟩, ?_, ?_, rfl, rfl, rfl, rfl⟩
  · rw [initSinglyLl, hl]
    rfl
  · have hchange : Holds (m.setLl ll ⟨0, none, none⟩) (Function.update C ll []) :=
      h.change rfl (fun _ _ _ _ => rfl) (.nil none) (List.forall_mem_nil _) rfl
        (fun _ _ => List.forall_mem_nil _) (Nat.le_refl _) (Nat.zero_le _)
    rw [← hnil, Function.update_eq_self] at hchange
    exact hchange

omit [DecidableEq A] [DecidableEq B] in
theorem not_mem_of_free (h : Holds m C) (hfresh : m.nodes a = none) (ll : B) : a ∉ (C ll).nodes := by
  intro hmem
  obtain ⟨c, hc, rfl⟩ := List.mem_map.mp hmem
  have hdata := h.data ll c hc
  rw [hfresh] at hdata
  cases hdata

/-- A new node leads to the head and is the head then. -/
theorem pushed (h : Holds m C) (hl : m.lists ll = some l) (hfresh : m.nodes a = none) (callocs : List A) :
    Holds { m.setNode a ⟨d, l.head⟩ with
        callocs := callocs
        fuel := m.fuel + 1
        lists := Function.update m.lists ll
          (some { l with head := some a, nodeCount := countUp 32 l.nodeCount }) }
      (Function.update C ll ((a, d) :: C ll)) := by
  have hnot := h.not_mem_of_free hfresh
  have hlength := h.fuel ll
  refine h.change rfl ?_ ?_ ?_ ?_ ?_ ?_ ?_
  · intro ll' _ b hb
    exact Function.update_of_ne (ne_of_mem_of_not_mem hb (hnot ll')) _ _
  · show Segment (LlMem.links (m.setNode a ⟨d, l.head⟩)) (some a) (a :: (C ll).nodes) none
    rw [LlMem.links_setNode]
    exact (h.chain ll l hl).push (hnot ll)
  · refine List.forall_mem_cons.mpr ⟨?_, fun c hc => ?_⟩
    · show (Function.update m.nodes a (some ⟨d, l.head⟩) a).map SinglyLlNode.data = some d
      rw [Function.update_self]
      rfl
    · show (Function.update m.nodes a (some ⟨d, l.head⟩) c.1).map SinglyLlNode.data = some c.2
      rw [Function.update_of_ne (ne_of_mem_of_not_mem (List.mem_map_of_mem hc) (hnot ll))]
      exact h.data ll c hc
  · show countUp 32 l.nodeCount = _
    rw [h.count ll l hl, countUp_mod, List.length_cons]
  · intro ll' hne b hb
    rcases List.mem_cons.mp hb with rfl | hb
    · exact hnot ll'
    · exact h.disjoint ll ll' (Ne.symm hne) b hb
  · exact Nat.le_succ _
  · exact Nat.succ_le_succ hlength

/-- A node that is in no list comes to the front of one. -/
theorem push (h : Holds m C) (hl : m.lists ll = some l) (hfresh : m.nodes a = none) (callocs : List A) :
    ∃ m', singlyLlAddNode { m.setNode a ⟨d, none⟩ with callocs := callocs, fuel := m.fuel + 1 } ll a =
        .ok (m', 0) ∧
      Holds m' (Function.update C ll ((a, d) :: C ll)) ∧ m'.callocs = callocs ∧
      m'.lists = Function.update m.lists ll
        (some { l with head := some a, nodeCount := countUp 32 l.nodeCount }) ∧
      ∀ b ≠ a, m'.nodes b = m.nodes b := by
  refine ⟨_, ?_, h.pushed hl hfresh callocs, rfl, rfl, fun b hb => Function.update_of_ne hb _ _⟩
  -- in both cases the node leads to the head
  have hll : LlMem.llAt { m.setNode a ⟨d, none⟩ with callocs := callocs, fuel := m.fuel + 1 } ll =
    .ok l :=
    LlMem.llAt_eq hl
  have hnode : ({ m.setNode a ⟨d, none⟩ with callocs := callocs, fuel := m.fuel + 1 } :
      LlMem A B D).nodes a = some ⟨d, none⟩ := Function.update_self ..
  rw [singlyLlAddNode, hll]
  obtain ⟨count, head, fn⟩ := l
  cases head with
  | none => rfl
  | some head =>
      show (LlMem.setNext _ (some a) (some head)).bind _ = _
      rw [LlMem.setNext_eq hnode]
      simp only [Except.bind, LlMem.setNode, Function.update_idem]
      rfl

/-- `singly_ll_add_node_by_val` with data that is not found. -/
theorem addFresh [DecidableEq D] (h : Holds m C) (hl : m.lists ll = some l) (hd : d ∉ (C ll).counted.data)
    {callocs : List A} (hcallocs : m.callocs = a :: callocs) (hfresh : m.nodes a = none) :
    ∃ m', singlyLlAddNodeByVal m ll d = .ok (m', 0) ∧ Holds m' (Function.update C ll ((a, d) :: C ll)) ∧
      m'.callocs = callocs ∧
      m'.lists = Function.update m.lists ll
        (some { l with head := some a, nodeCount := countUp 32 l.nodeCount }) ∧
      ∀ b ≠ a, m'.nodes b = m.nodes b := by
  obtain ⟨m', hok, hrest⟩ := h.push (d := d) hl hfresh callocs
  refine ⟨m', ?_, hrest⟩
  rw [singlyLlAddNodeByVal, h.getNodeByDataPtr_eq hl d, nodeOf_eq_none.mpr hd]
  show (singlyLlInitNode m d).bind _ = _
  rw [singlyLlInitNode, hcallocs]
  show Except.bind (if (m.nodes a).isSome = true then _ else _) _ = _
  rw [hfresh]
  exact hok

/-- `singly_ll_add_node_by_val`: nothing happens if the data is found among the nodes that are
counted, otherwise a new node comes to the front. -/
theorem addByVal [DecidableEq D] (h : Holds m C) (hl : m.lists ll = some l) (data : Option D) :
    singlyLlAddNodeByVal m ll data = .error .inUse ∨
      (data ∈ (C ll).counted.data ∧ singlyLlAddNodeByVal m ll data = .ok (m, -1)) ∨
      (data ∉ (C ll).counted.data ∧
        ∃ m' a, singlyLlAddNodeByVal m ll data = .ok (m', 0) ∧
          Holds m' (Function.update C ll ((a, data) :: C ll)) ∧
          m'.lists = Function.update m.lists ll
            (some { l with head := some a, nodeCount := countUp 32 l.nodeCount })) := by
  have hfind := h.getNodeByDataPtr_eq hl data
  by_cases hmem : data ∈ (C ll).counted.data
  · right
    left
    obtain ⟨a, ha⟩ := Option.ne_none_iff_exists'.mp (mt nodeOf_eq_none.mp (not_not.mpr hmem))
    refine ⟨hmem, ?_⟩
    rw [singlyLlAddNodeByVal, hfind, ha]
    rfl
  · have hadd : singlyLlAddNodeByVal m ll data =
        (singlyLlInitNode m data).bind fun r => singlyLlAddNode r.1 ll r.2 := by
      rw [singlyLlAddNodeByVal, hfind, nodeOf_eq_none.mpr hmem]
      rfl
    rcases singlyLlInitNode_cases m data with herr | ⟨a, callocs, hcallocs, hfresh, -⟩
    · left
      rw [hadd, herr]
      rfl
    · right
      right
      obtain ⟨m', hok, hholds, -, hlists, -⟩ := h.addFresh hl hmem hcallocs hfresh
      exact ⟨hmem, m', a, hok, hholds, hlists⟩

omit [DecidableEq A] in
/-- The nodes of one list are linked in another way, and some are taken out. -/
theorem rearrange (h : Holds m C) {m' : LlMem A B D} {l' : Ll A D} {zs : Entries A D}
    (hlists : m'.lists = Function.update m.lists ll (some l')) (hfuel : m'.fuel = m.fuel)
    (hother : ∀ b, b ∉ (C ll).nodes → m'.nodes b = m.nodes b)
    (hsub : ∀ b ∈ zs.nodes, b ∈ (C ll).nodes) (hlength : zs.length ≤ (C ll).length)
    (hchain : Segment m'.links l'.head zs.nodes none)
    (hdata : ∀ c ∈ zs, (m'.nodes c.1).map SinglyLlNode.data = some c.2)
    (hcount : l'.nodeCount = zs.length % 2 ^ 32) : Holds m' (Function.update C ll zs) := by
  refine h.change hlists ?_ hchain hdata hcount ?_ (Nat.le_of_eq hfuel.symm) ?_
  · exact fun ll' hne b hb => hother b (h.disjoint ll' ll hne b hb)
  · exact fun ll' hne b hb => h.disjoint ll ll' (Ne.symm hne) b (hsub b hb)
  · rw [hfuel]
    exact hlength.trans (h.fuel ll)

/-- The node `x` gets the data `v` and passes over the node `y` behind it, which becomes `w`. -/
theorem bypass (h : Holds m C) (hl : m.lists ll = some l) {us vs : Entries A D} {x y : A}
    {dx dy : Option D} (hC : C ll = us ++ (x, dx) :: (y, dy) :: vs) (v : Option D)
    (w : Option (SinglyLlNode A D)) :
    Holds { m with
        nodes := Function.update (Function.update m.nodes x (some ⟨v, vs.nodes.head?⟩)) y w
        lists := Function.update m.lists ll (some { l with nodeCount := countDown 32 l.nodeCount }) }
      (Function.update C ll (us ++ (x, v) :: vs)) := by
  have hC' : C ll = us ++ [(x, dx)] ++ (y, dy) :: vs := hC.trans (List.append_cons us (x, dx) _)
  have hchain := h.chain ll l hl
  have hnodup := h.nodup hl
  have hnodes : (C ll).nodes = us.nodes ++ x :: y :: vs.nodes := by
    rw [hC]
    simp
  have hnodes' : Entries.nodes (us ++ (x, v) :: vs) = us.nodes ++ x :: vs.nodes := by simp
  rw [hnodes] at hchain hnodup
  -- `x` and `y` are in the list once
  have hx : ∀ c ∈ us ++ vs, c.1 ≠ x := fun c hc =>
    h.ne_node hl hC ((List.Sublist.append_left (List.sublist_cons_self (y, dy) vs) us).subset hc)
  have hy : ∀ b ∈ us.nodes ++ x :: vs.nodes, b ≠ y := by
    intro b hb
    have hmem : b ∈ Entries.nodes (us ++ [(x, dx)] ++ vs) := by simpa using hb
    obtain ⟨c, hc, rfl⟩ := List.mem_map.mp hmem
    exact h.ne_node hl hC' hc
  refine h.rearrange rfl rfl ?_ ?_ ?_ ?_ ?_ ?_
  · intro b hb
    rw [hnodes] at hb
    have hby : b ≠ y := fun heq => hb (by rw [heq]; simp)
    have hbx : b ≠ x := fun heq => hb (by rw [heq]; simp)
    exact (Function.update_of_ne hby _ _).trans (Function.update_of_ne hbx _ _)
  · intro b hb
    rw [hnodes'] at hb
    rw [hnodes]
    exact (List.Sublist.append_left ((List.sublist_cons_self y vs.nodes).cons_cons x) us.nodes).subset hb
  · rw [hC]
    simp
  · rw [hnodes']
    -- the chain without `y`
    have hpassed := hchain.bypass hnodup (LlMem.links_eq (h.node hl hC'))
    refine hpassed.frame fun b hb => ?_
    show (Function.update (Function.update m.nodes x _) y w b).map SinglyLlNode.next = _
    rw [Function.update_of_ne (hy b hb)]
    exact congrFun (LlMem.links_setNode m x ⟨v, vs.nodes.head?⟩) b
  · intro c hc
    have hmem : c.1 ∈ us.nodes ++ x :: vs.nodes := by
      rw [← hnodes']
      exact List.mem_map_of_mem hc
    show (Function.update (Function.update m.nodes x _) y w c.1).map SinglyLlNode.data = some c.2
    rw [Function.update_of_ne (hy c.1 hmem)]
    by_cases hcx : c = (x, v)
    · rw [hcx, Function.update_self]
      rfl
    · have hrest : c ∈ us ++ vs := by
        rw [List.mem_append, List.mem_cons] at hc
        rw [List.mem_append]
        exact hc.imp_right fun hc => hc.resolve_left hcx
      rw [Function.update_of_ne (hx c hrest)]
      refine h.data ll c ?_
      rw [hC]
      exact (List.Sublist.append_left (.cons _ (.cons _ (.refl vs))) us).subset hrest
  · show countDown 32 l.nodeCount = _
    -- and its length
    have hlength : (C ll).length = (us ++ (x, v) :: vs).length + 1 := by
      rw [hC]
      simp
      omega
    rw [h.count ll l hl, hlength, countDown_mod]

/-- The loop of `singly_ll_remove_node` finds the node and unlinks it. -/
theorem removeNodeLoop_eq (h : Holds m C) (hl : m.lists ll = some l) (left : Nat) (us : Entries A D)
    (p : A)
    (dp : Option D) (mid : Entries A D) (hC : C ll = us ++ (p, dp) :: (mid ++ (a, d) :: post))
    (hleft : mid.length < left) :
    ∃ us' p' dp', us ++ (p, dp) :: mid = us' ++ [(p', dp')] ∧
      removeNodeLoop m ll l a left (some p) (Entries.nodes (mid ++ (a, d) :: post)).head? =
        .ok (((m.setNode p' ⟨dp', post.nodes.head?⟩).setNode a ⟨d, none⟩).setLl ll
          { l with nodeCount := countDown 32 l.nodeCount }, 0) := by
  obtain ⟨left, rfl⟩ : ∃ k, left = k + 1 := ⟨left - 1, by omega⟩
  induction mid generalizing us p dp left with
  | nil =>
      have hp : m.nodes p = some ⟨dp, some a⟩ := h.node hl hC
      have hnode : m.nodes a = some ⟨d, post.nodes.head?⟩ :=
        h.node hl (hC.trans (List.append_cons us (p, dp) _))
      have hne : a ≠ p := h.ne_node hl hC (c := (a, d)) (by simp)
      have hnode' : (m.setNode p ⟨dp, post.nodes.head?⟩).nodes a = some ⟨d, post.nodes.head?⟩ :=
        (Function.update_of_ne hne _ _).trans hnode
      refine ⟨us, p, dp, rfl, ?_⟩
      show (m.nodeAt (some a)).bind _ = _
      rw [LlMem.nodeAt_eq hnode]
      show (if some a = some a then _ else _) = _
      rw [if_pos rfl]
      show (m.setNext (some p) _).bind _ = _
      rw [LlMem.setNext_eq hp]
      show (LlMem.setNext _ (some a) none).bind _ = _
      rw [LlMem.setNext_eq hnode']
      rfl
  | cons c mid ih =>
      obtain ⟨q, dq⟩ := c
      rw [List.cons_append] at hC ⊢
      rw [List.length_cons] at hleft
      have hC' : C ll = us ++ [(p, dp)] ++ (q, dq) :: (mid ++ (a, d) :: post) := by
        rw [hC, List.append_cons]
      have hnode := h.node hl hC'
      have hne : ¬ (some q = some a) := by
        intro heq
        exact h.ne_node hl hC' (c := (a, d)) (by simp) (Option.some.inj heq).symm
      obtain ⟨left, rfl⟩ : ∃ k, left = k + 1 := ⟨left - 1, by omega⟩
      obtain ⟨us', p', dp', hlast, hloop⟩ := ih (us ++ [(p, dp)]) q dq hC' left (by omega)
      refine ⟨us', p', dp', by rw [← hlast, ← List.append_cons], ?_⟩
      show (m.nodeAt (some q)).bind _ = _
      rw [LlMem.nodeAt_eq hnode]
      show (if some q = some a then _ else _) = _
      rw [if_neg hne]
      exact hloop

/-- The first node is taken out, and cleared. -/
theorem unlinkFirst (h : Holds m C) (hl : m.lists ll = some l) (hC : C ll = (a, d) :: post) :
    Holds
      ((m.setLl ll
        { l with head := post.nodes.head?, nodeCount := countDown 32 l.nodeCount }).setNode a
      ⟨d, none⟩) (Function.update C ll post) := by
  have hnodup := h.nodup hl
  have hchain := h.chain ll l hl
  have hcount := h.count ll l hl
  rw [hC] at hnodup hchain hcount
  obtain ⟨ha, -⟩ := List.nodup_cons.mp hnodup
  obtain ⟨-, n, hlink, hrest⟩ := Segment.cons_iff.mp hchain
  have hsub : ∀ c ∈ post, c ∈ C ll := fun c hc => by rw [hC]; exact List.mem_cons_of_mem _ hc
  refine h.rearrange rfl rfl ?_ ?_ ?_ ?_ ?_ ?_
  · intro b hb
    refine Function.update_of_ne (fun heq => hb ?_) _ _
    rw [heq, hC]
    exact List.mem_cons_self
  · intro b hb
    rw [hC]
    exact List.mem_cons_of_mem _ hb
  · rw [hC]
    exact Nat.le_succ _
  · show Segment (LlMem.links (LlMem.setNode _ a _)) post.nodes.head? _ none
    rw [LlMem.links_setNode, ← hrest.head]
    refine hrest.frame fun b hb => ?_
    exact Function.update_of_ne (ne_of_mem_of_not_mem hb ha) _ _
  · intro c hc
    show (Function.update m.nodes a _ c.1).map SinglyLlNode.data = some c.2
    rw [Function.update_of_ne (h.ne_node hl (show C ll = [] ++ (a, d) :: post from hC) hc)]
    exact h.data ll c (hsub c hc)
  · show countDown 32 l.nodeCount = _
    rw [hcount, List.length_cons, countDown_mod]

/-- `singly_ll_remove_node`: the node is unlinked and left to the caller. -/
theorem removeNode (h : Holds m C) (hl : m.lists ll = some l) (hC : C ll = pre ++ (a, d) :: post)
    (hshort : (C ll).length < 2 ^ 32) :
    ∃ m' l', singlyLlRemoveNode m ll a = .ok (m', 0) ∧ Holds m' (Function.update C ll (pre ++ post)) ∧
      m'.nodes a = some ⟨d, none⟩ ∧ m'.lists = Function.update m.lists ll (some l') := by
  have hcount := h.count ll l hl
  rw [Nat.mod_eq_of_lt hshort, hC] at hcount
  have hrun : singlyLlRemoveNode m ll a = (do
      if l.head.isNone then return (m, 0)
      let h ← m.nodeAt l.head
      if l.head = some a then
        let m := m.setLl ll { l with head := h.next, nodeCount := countDown 32 l.nodeCount }
        let m ← m.setNext (some a) none
        return (m, 0)
      else removeNodeLoop m ll l a (l.nodeCount - 1) l.head h.next) := by
    rw [singlyLlRemoveNode, LlMem.llAt_eq hl]
    rfl
  cases pre with
  | nil =>
      -- the head itself goes
      have hnode : m.nodes a = some ⟨d, post.nodes.head?⟩ := h.node hl hC
      have hhead : l.head = some a := by
        rw [h.head hl, hC]
        rfl
      refine ⟨_, _, ?_, h.unlinkFirst hl hC, Function.update_self .., rfl⟩
      rw [hrun, hhead]
      show (m.nodeAt (some a)).bind _ = _
      rw [LlMem.nodeAt_eq hnode]
      show (if some a = some a then _ else _) = _
      rw [if_pos rfl]
      show (LlMem.setNext (m.setLl ll _) (some a) none).bind _ = _
      rw [LlMem.setNext_eq (m := m.setLl ll _) hnode]
      rfl
  | cons c pre =>
      obtain ⟨p, dp⟩ := c
      have hnode := h.node hl (show C ll = [] ++ (p, dp) :: (pre ++ (a, d) :: post) from hC)
      have hhead : l.head = some p := by
        rw [h.head hl, hC]
        rfl
      have hne : ¬ (l.head = some a) := by
        rw [hhead]
        intro heq
        exact h.ne_node hl hC (c := (p, dp)) (by simp) (Option.some.inj heq)
      -- the loop starts behind the head and runs at most up to the node
      have hleft : pre.length < l.nodeCount - 1 := by
        rw [hcount]
        simp
      obtain ⟨us', p', dp', hlast, hloop⟩ := h.removeNodeLoop_eq hl _ [] p dp pre hC hleft
      rw [List.nil_append] at hlast
      have hC' : C ll = us' ++ (p', dp') :: (a, d) :: post := by
        rw [hC, hlast, ← List.append_cons]
      have hholds := h.bypass hl hC' dp' (some ⟨d, none⟩)
      rw [List.append_cons, ← hlast] at hholds
      refine ⟨_, _, ?_, hholds, Function.update_self .., rfl⟩
      rw [hrun]
      show (if l.head.isNone = true then _ else _) = _
      rw [if_neg (by rw [hhead]; simp)]
      show (m.nodeAt l.head).bind _ = _
      rw [congrArg m.nodeAt hhead, LlMem.nodeAt_eq hnode]
      show (if l.head = some a then _ else _) = _
      rw [if_neg hne]
      exact (congrArg (fun q => removeNodeLoop m ll l a _ q _) hhead).trans hloop

end Holds

end LinkedList
end MultithreadingBible
