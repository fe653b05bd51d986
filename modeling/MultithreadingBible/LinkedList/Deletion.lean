import MultithreadingBible.LinkedList.Operations

/-!
# Deleting nodes, reversing and emptying

* `Holds.deleteNode` -- an inner node takes over the data of its successor, which is freed; the last
  node is unlinked.
* `Holds.removeByDataptr`, `Holds.deleteByDataPtr` -- the first node with the data goes.
* `Holds.reverse`, `Holds.deleteList` -- the loops over a whole list.
-/

namespace MultithreadingBible
namespace LinkedList

open Lib

variable {A B D : Type} [DecidableEq A] [DecidableEq B]

namespace Holds

variable {m : LlMem A B D} {C : B → Entries A D} {ll : B} {l : Ll A D} {a : A} {d : Option D}
  {pre post : Entries A D}

omit [DecidableEq B] in
/-- The node before the last one is found. -/
theorem nodeBeforeLoop_eq (h : Holds m C) (hl : m.lists ll = some l) (fuel : Nat) (us : Entries A D)
    (p : A)
    (dp : Option D) (mid : Entries A D) (hC : C ll = us ++ (p, dp) :: (mid ++ (a, d) :: post))
    (hfuel : mid.length < fuel) :
    ∃ us' p' dp', us ++ (p, dp) :: mid = us' ++ [(p', dp')] ∧
      nodeBeforeLoop m a fuel (some p) = .ok (some p') := by
  obtain ⟨fuel, rfl⟩ : ∃ k, fuel = k + 1 := ⟨fuel - 1, by omega⟩
  induction mid generalizing us p dp fuel with
  | nil =>
      have hp : m.nodes p = some ⟨dp, some a⟩ := h.node hl hC
      refine ⟨us, p, dp, rfl, ?_⟩
      rw [nodeBeforeLoop, LlMem.nodeAt_eq hp]
      exact if_pos rfl
  | cons c mid ih =>
      obtain ⟨q, dq⟩ := c
      have hp : m.nodes p = some ⟨dp, some q⟩ := h.node hl hC
      have hC' : C ll = us ++ [(p, dp)] ++ (q, dq) :: (mid ++ (a, d) :: post) := by
        rw [hC, List.append_cons]
        rfl
      have hne : ¬ (some q = some a) := by
        intro heq
        exact h.ne_node hl hC' (c := (a, d)) (by simp) (Option.some.inj heq).symm
      rw [List.length_cons] at hfuel
      obtain ⟨fuel, rfl⟩ : ∃ k, fuel = k + 1 := ⟨fuel - 1, by omega⟩
      obtain ⟨us', p', dp', hlast, hloop⟩ := ih (us ++ [(p, dp)]) q dq hC' fuel (by omega)
      refine ⟨us', p', dp', by rw [← hlast, ← List.append_cons], ?_⟩
      rw [nodeBeforeLoop, LlMem.nodeAt_eq hp]
      exact (if_neg hne).trans hloop

/-- A node with a successor takes its place: the successor is freed, and its data kept. -/
theorem deleteInner (h : Holds m C) (hl : m.lists ll = some l) {y : A} {dy : Option D}
    (hC : C ll = pre ++ (a, d) :: (y, dy) :: post) :
    ∃ m' l', deleteNodeOf m ll l a ⟨d, some y⟩ = .ok (m', 0) ∧
      Holds m' (Function.update C ll (pre ++ (a, dy) :: post)) ∧
      m'.lists = Function.update m.lists ll (some l') := by
  have hC' : C ll = pre ++ [(a, d)] ++ (y, dy) :: post := hC.trans (List.append_cons pre (a, d) _)
  have hy := h.node hl hC'
  have hne : y ≠ a := h.ne_node hl hC (c := (y, dy)) (by simp)
  have hy' : (m.setNode a ⟨dy, post.nodes.head?⟩).nodes y = some ⟨dy, post.nodes.head?⟩ :=
    (Function.update_of_ne hne _ _).trans hy
  refine ⟨_, _, ?_, h.bypass hl hC dy none, rfl⟩
  show (m.nodeAt (some y)).bind _ = _
  rw [LlMem.nodeAt_eq hy]
  show (LlMem.free _ y).bind _ = _
  rw [LlMem.free_eq hy']
  rfl

/-- The only node is freed. -/
theorem deleteOnly (h : Holds m C) (hl : m.lists ll = some l) (hC : C ll = [(a, d)]) :
    ∃ m' l', deleteNodeOf m ll l a ⟨d, none⟩ = .ok (m', 0) ∧ Holds m' (Function.update C ll []) ∧
      m'.lists = Function.update m.lists ll (some l') := by
  have hnode := h.node hl (show C ll = [] ++ (a, d) :: [] from hC)
  have honly : l.nodeCount = 1 ∧ l.head = some a := by
    rw [h.count ll l hl, h.head hl, hC]
    exact ⟨rfl, rfl⟩
  refine ⟨LlMem.setLl { m with nodes := Function.update m.nodes a none } ll
    { l with head := none, nodeCount := countDown 32 l.nodeCount }, _, ?_, ?_, rfl⟩
  · show (if l.nodeCount = 1 ∧ l.head = some a then _ else _) = _
    rw [if_pos honly]
    show (m.free a).bind _ = _
    rw [LlMem.free_eq hnode]
    rfl
  · refine h.rearrange rfl rfl ?_ (List.forall_mem_nil _) (Nat.zero_le _) (.nil none)
      (List.forall_mem_nil _) ?_
    · intro b hb
      refine Function.update_of_ne (fun heq => hb ?_) _ _
      rw [heq, hC]
      exact List.mem_cons_self
    · show countDown 32 l.nodeCount = 0
      rw [honly.1, countDown_eq Nat.one_pos]

/-- The last of several nodes is unlinked from the one before it, and freed. -/
theorem deleteLast (h : Holds m C) (hl : m.lists ll = some l) (hC : C ll = pre ++ [(a, d)])
    (hpre : pre ≠ [])
    (hshort : (C ll).length < 2 ^ 32) :
    ∃ m' l', deleteNodeOf m ll l a ⟨d, none⟩ = .ok (m', 0) ∧ Holds m' (Function.update C ll pre) ∧
      m'.lists = Function.update m.lists ll (some l') := by
  obtain ⟨⟨p, dp⟩, mid, rfl⟩ := List.exists_cons_of_ne_nil hpre
  have hseveral : ¬ (l.nodeCount = 1 ∧ l.head = some a) := by
    rw [h.count ll l hl, Nat.mod_eq_of_lt hshort, hC]
    intro hone
    simp at hone
  have hhead : l.head = some p := by
    rw [h.head hl, hC]
    rfl
  have hfuel : mid.length < m.fuel := by
    have hle := h.fuel ll
    rw [hC] at hle
    simp at hle
    omega
  obtain ⟨us, p', dp', hlast, hloop⟩ := h.nodeBeforeLoop_eq hl m.fuel [] p dp mid hC hfuel
  rw [List.nil_append] at hlast
  have hC' : C ll = us ++ (p', dp') :: (a, d) :: [] := by
    rw [hC, hlast, ← List.append_cons]
  have hp := h.node hl hC'
  have hne : a ≠ p' := h.ne_node hl hC' (c := (a, d)) (by simp)
  have hnode' : (m.setNode p' ⟨dp', none⟩).nodes a = some ⟨d, none⟩ :=
    (Function.update_of_ne hne _ _).trans (h.node hl hC)
  rw [hlast]
  refine ⟨_, _, ?_, h.bypass hl hC' dp' none, rfl⟩
  show (if l.nodeCount = 1 ∧ l.head = some a then _ else _) = _
  rw [if_neg hseveral]
  show (nodeBeforeLoop m a m.fuel l.head).bind _ = _
  rw [congrArg (nodeBeforeLoop m a m.fuel) hhead, hloop]
  show (m.setNext (some p') none).bind _ = _
  rw [LlMem.setNext_eq hp]
  show (LlMem.free _ a).bind _ = _
  rw [LlMem.free_eq hnode']
  rfl

/-- `singly_ll_delete_node` takes one position out of the data. -/
theorem deleteNode (h : Holds m C) (hl : m.lists ll = some l) (hC : C ll = pre ++ (a, d) :: post)
    (hshort : (C ll).length < 2 ^ 32) :
    ∃ m' l' zs, singlyLlDeleteNode m ll a = .ok (m', 0) ∧ Holds m' (Function.update C ll zs) ∧
      zs.data = Entries.data (pre ++ post) ∧ m'.lists = Function.update m.lists ll (some l') := by
  have hhead : ¬ (l.head.isNone = true) := by
    rw [h.head hl, hC]
    simp
  have hrun : singlyLlDeleteNode m ll a = deleteNodeOf m ll l a ⟨d, (Entries.nodes post).head?⟩ := by
    rw [singlyLlDeleteNode, LlMem.llAt_eq hl]
    show (if l.head.isNone = true then _ else _) = _
    rw [if_neg hhead]
    show (m.nodeAt (some a)).bind _ = _
    rw [LlMem.nodeAt_eq (h.node hl hC)]
    rfl
  rw [hrun]
  cases post with
  | cons c post =>
      obtain ⟨y, dy⟩ := c
      obtain ⟨m', l', hok, hholds, hlists⟩ := h.deleteInner hl hC
      exact ⟨m', l', _, hok, hholds, by simp, hlists⟩
  | nil =>
      by_cases hpre : pre = []
      · subst hpre
        obtain ⟨m', l', hok, hholds, hlists⟩ := h.deleteOnly hl hC
        exact ⟨m', l', [], hok, hholds, rfl, hlists⟩
      · obtain ⟨m', l', hok, hholds, hlists⟩ := h.deleteLast hl hC hpre hshort
        exact ⟨m', l', pre, hok, hholds, by rw [List.append_nil], hlists⟩

omit [DecidableEq B] in
/-- A node that is in no list is freed. -/
theorem freeUnlisted (h : Holds m C) (hnot : ∀ ll, a ∉ (C ll).nodes) :
    Holds { m with nodes := Function.update m.nodes a none } C where
  chain ll l hl := by
    refine (h.chain ll l hl).frame fun b hb => ?_
    show (Function.update m.nodes a none b).map SinglyLlNode.next = _
    rw [Function.update_of_ne (ne_of_mem_of_not_mem hb (hnot ll))]
    rfl
  data ll c hc := by
    show (Function.update m.nodes a none c.1).map SinglyLlNode.data = _
    rw [Function.update_of_ne (ne_of_mem_of_not_mem (List.mem_map_of_mem hc) (hnot ll))]
    exact h.data ll c hc
  count := h.count
  absent := h.absent
  disjoint := h.disjoint
  fuel := h.fuel

section ByData

variable [DecidableEq D]

/-- The loop of `singly_ll_remove_node_by_dataptr` calls `singly_ll_remove_node` for the first node
with the data. -/
theorem removeByDataptrLoop_eq (h : Holds m C) (hl : m.lists ll = some l) (data : Option D) (k fuel : Nat)
    (us suf : Entries A D) (hC : C ll = us ++ suf) (hfuel : suf.length ≤ fuel) :
    removeByDataptrLoop m ll data k fuel suf.nodes.head? =
      (nodeOf suf data).elim ((removedCount m ll k).bind fun r => .ok (m, r)) fun a =>
        (singlyLlRemoveNode m ll a).bind fun q =>
          (removedCount q.1 ll k).bind fun r => .ok (q.1, r) := by
  induction suf generalizing us fuel with
  | nil =>
      cases fuel with
      | zero => rfl
      | succ fuel => rfl
  | cons c suf ih =>
      obtain ⟨a, d⟩ := c
      obtain ⟨fuel, rfl⟩ : ∃ k, fuel = k + 1 := ⟨fuel - 1, by simp at hfuel; omega⟩
      have hnode := h.node hl hC
      show (m.nodeAt (some a)).bind _ = _
      rw [LlMem.nodeAt_eq hnode]
      show (if d = data then _ else _) = _
      by_cases hd : d = data
      · have hfound : nodeOf ((a, d) :: suf) data = some a := by
          rw [nodeOf, List.find?_cons, decide_eq_true hd]
          rfl
        rw [if_pos hd, hfound]
        rfl
      · have hnext : nodeOf ((a, d) :: suf) data = nodeOf suf data := by
          rw [nodeOf, List.find?_cons, decide_eq_false hd]
          rfl
        rw [if_neg hd, hnext]
        exact ih fuel (us ++ [(a, d)]) (hC.trans (List.append_cons us (a, d) suf))
          (Nat.le_of_succ_le_succ hfuel)

/-- `singly_ll_remove_node_by_dataptr` -/
theorem removeByDataptr (h : Holds m C) (hl : m.lists ll = some l) (hshort : (C ll).length < 2 ^ 32)
    (data : Option D) :
    (data ∉ (C ll).data ∧ singlyLlRemoveNodeByDataptr m ll data = .ok (m, 0)) ∨
      ∃ pre a post m' l', C ll = pre ++ (a, data) :: post ∧ data ∉ Entries.data pre ∧
        singlyLlRemoveNodeByDataptr m ll data = .ok (m', 1) ∧
        Holds m' (Function.update C ll (pre ++ post)) ∧
        m'.lists = Function.update m.lists ll (some l') := by
  have hcount := h.count ll l hl
  rw [Nat.mod_eq_of_lt hshort] at hcount
  have hloop := h.removeByDataptrLoop_eq hl data l.nodeCount m.fuel [] (C ll) rfl (h.fuel ll)
  have hrun : singlyLlRemoveNodeByDataptr m ll data =
      if l.head.isNone then .ok (m, 0) else removeByDataptrLoop m ll data l.nodeCount m.fuel l.head := by
    rw [singlyLlRemoveNodeByDataptr, LlMem.llAt_eq hl]
    rfl
  rw [hrun, h.head hl]
  cases hof : nodeOf (C ll) data with
  | none =>
      left
      refine ⟨nodeOf_eq_none.mp hof, ?_⟩
      -- nothing was removed: the count is what it was
      have hsame : removedCount m ll l.nodeCount = .ok 0 := by
        rw [removedCount, LlMem.llAt_eq hl]
        show Except.ok ((l.nodeCount + 2 ^ 32 - l.nodeCount) % 2 ^ 32) = _
        rw [Nat.add_sub_cancel_left, Nat.mod_self]
      rw [hof, Option.elim_none, hsame] at hloop
      rw [hloop]
      exact ite_self _
  | some a =>
      right
      obtain ⟨pre, post, hC, hpre⟩ := exists_of_nodeOf hof
      obtain ⟨m', l', hremove, hholds, -, hlists⟩ := h.removeNode hl hC hshort
      have hl' : m'.lists ll = some l' := by rw [hlists, Function.update_self]
      have hcount' := hholds.count ll l' hl'
      rw [Function.update_self] at hcount'
      have hlength : (C ll).length = (pre ++ post).length + 1 := by
        rw [hC]
        simp
        omega
      -- the count went down by one
      have hone : removedCount m' ll l.nodeCount = .ok 1 := by
        rw [removedCount, LlMem.llAt_eq hl']
        show Except.ok ((l.nodeCount + 2 ^ 32 - l'.nodeCount) % 2 ^ 32) = _
        have heq : (l.nodeCount + 2 ^ 32 - l'.nodeCount) % 2 ^ 32 = 1 := by omega
        rw [heq]
      refine ⟨pre, a, post, m', l', hC, hpre, ?_, hholds, hlists⟩
      have hsome : ¬ ((C ll).nodes.head?.isNone = true) := by
        rw [hC]
        simp
      rw [hof, Option.elim_some, hremove] at hloop
      rw [if_neg hsome, hloop]
      show (removedCount m' ll l.nodeCount).bind _ = _
      rw [hone]
      rfl

/-- `singly_ll_delete_node_by_data_ptr` -/
theorem deleteByDataPtr (h : Holds m C) (hl : m.lists ll = some l) (hshort : (C ll).length < 2 ^ 32)
    {data : Option D} (hdata : data ≠ none) :
    (data ∉ (C ll).data ∧ singlyLlDeleteNodeByDataPtr m ll data = .ok m) ∨
      ∃ pre a post m' l', C ll = pre ++ (a, data) :: post ∧ data ∉ Entries.data pre ∧
        singlyLlDeleteNodeByDataPtr m ll data = .ok m' ∧
        Holds m' (Function.update C ll (pre ++ post)) ∧
        m'.lists = Function.update m.lists ll (some l') := by
  have hfind := h.getNodeByDataPtr_eq hl data
  rw [Entries.counted, Nat.mod_eq_of_lt hshort, List.take_length] at hfind
  cases hof : nodeOf (C ll) data with
  | none =>
      refine .inl ⟨nodeOf_eq_none.mp hof, ?_⟩
      rw [singlyLlDeleteNodeByDataPtr, if_neg (by simpa using hdata), hfind, hof]
      rfl
  | some a =>
      obtain ⟨pre, post, hC, hpre⟩ := exists_of_nodeOf hof
      obtain ⟨m', l', hremove, hholds, hnode, hlists⟩ := h.removeNode hl hC hshort
      have hnot : ∀ ll', a ∉ (Function.update C ll (pre ++ post) ll').nodes := by
        intro ll' hmem
        by_cases hll : ll' = ll
        · subst hll
          rw [Function.update_self] at hmem
          obtain ⟨c, hc, heq⟩ := List.mem_map.mp hmem
          exact h.ne_node hl hC hc heq
        · rw [Function.update_of_ne hll] at hmem
          refine h.disjoint ll' ll hll a hmem ?_
          rw [hC]
          simp
      refine .inr ⟨pre, a, post, _, l', hC, hpre, ?_, hholds.freeUnlisted hnot, hlists⟩
      rw [singlyLlDeleteNodeByDataPtr, if_neg (by simpa using hdata), hfind, hof]
      show (singlyLlRemoveNode m ll a).bind _ = _
      rw [hremove]
      exact LlMem.free_eq hnode

end ByData

section Loops

omit [DecidableEq A] [DecidableEq B] in
theorem isSome_node {m : LlMem A B D} {b : A} (h : (m.links b).isSome = true) :
    (m.nodes b).isSome = true := by
  rw [LlMem.links, Option.isSome_map] at h
  exact h

omit [DecidableEq B] in
/-- A node is turned round: it leads to the reversed ones. -/
theorem turn {m : LlMem A B D} {p1 : Option A} {done : List A} {b : A} {bs : List A}
    (hdone : Segment m.links p1 done none) (hrest : Segment m.links (some b) (b :: bs) none)
    (hb : b ∉ done) :
    ∃ n, m.nodes b = some n ∧ n.next = bs.head? ∧
      Segment (m.setNode b ⟨n.data, p1⟩).links (some b) (b :: done) none ∧
      (∀ c, ((m.setNode b ⟨n.data, p1⟩).nodes c).map SinglyLlNode.data =
        (m.nodes c).map SinglyLlNode.data) ∧
      ∀ c, c ≠ b → (m.setNode b ⟨n.data, p1⟩).nodes c = m.nodes c := by
  obtain ⟨-, next, hlink, hbehind⟩ := Segment.cons_iff.mp hrest
  obtain ⟨n, hnode, hnext⟩ := Option.map_eq_some_iff.mp hlink
  refine ⟨n, hnode, by rw [hnext, hbehind.head], ?_, fun c => ?_,
    fun c hc => Function.update_of_ne hc _ _⟩
  · rw [LlMem.links_setNode]
    exact hdone.push hb
  · show (Function.update m.nodes b (some ⟨n.data, p1⟩) c).map SinglyLlNode.data = _
    by_cases hc : c = b
    · rw [hc, Function.update_self, hnode]
      rfl
    · rw [Function.update_of_ne hc]

omit [DecidableEq B] in
/-- The loop of `reverse_singly_ll`: the nodes from `b` on come before those that are reversed already. -/
theorem reverseLoop_eq {m : LlMem A B D} (fuel : Nat) (p1 : Option A) (done : List A) (b : A)
    (bs : List A)
    (hdone : Segment m.links p1 done none) (hrest : Segment m.links (some b) (b :: bs) none)
    (hapart : ∀ c ∈ b :: bs, c ∉ done) (hfuel : bs.length < fuel) :
    ∃ m' q, reverseLoop m fuel p1 (some b) = .ok (m', q) ∧
      Segment m'.links q ((b :: bs).reverse ++ done) none ∧ m'.lists = m.lists ∧ m'.fuel = m.fuel ∧
      (∀ c, (m'.nodes c).map SinglyLlNode.data = (m.nodes c).map SinglyLlNode.data) ∧
      ∀ c, c ∉ b :: bs → m'.nodes c = m.nodes c := by
  induction bs generalizing m p1 done b fuel with
  | nil =>
      obtain ⟨fuel, rfl⟩ : ∃ k, fuel = k + 1 := ⟨fuel - 1, by omega⟩
      obtain ⟨n, hnode, hnext, hturned, hdata, hsame⟩ := turn hdone hrest (hapart b List.mem_cons_self)
      refine ⟨m.setNode b ⟨n.data, p1⟩, some b, ?_, hturned, rfl, rfl, hdata, fun c hc => hsame c ?_⟩
      · show (m.nodeAt (some b)).bind _ = _
        rw [LlMem.nodeAt_eq hnode]
        show (m.setNext (some b) p1).bind _ = _
        rw [LlMem.setNext_eq hnode]
        show (if n.next.isSome = true then _ else _) = _
        rw [hnext]
        rfl
      · exact fun heq => hc (heq ▸ List.mem_cons_self)
  | cons c bs ih =>
      obtain ⟨fuel, rfl⟩ : ∃ k, fuel = k + 1 := ⟨fuel - 1, by omega⟩
      obtain ⟨n, hnode, hnext, hturned, hdata, hsame⟩ := turn hdone hrest (hapart b List.mem_cons_self)
      have hnodup := hrest.nodup
      obtain ⟨-, n', hlink, hbehind⟩ := Segment.cons_iff.mp hrest
      rw [hbehind.head] at hbehind
      have hbehind' : Segment (m.setNode b ⟨n.data, p1⟩).links (some c) (c :: bs) none := by
        refine hbehind.frame fun x hx => ?_
        rw [LlMem.links_setNode]
        exact Function.update_of_ne (ne_of_mem_of_not_mem hx (List.nodup_cons.mp hnodup).1) _ _
      have hapart' : ∀ x ∈ c :: bs, x ∉ b :: done := by
        intro x hx hmem
        rcases List.mem_cons.mp hmem with rfl | hmem
        · exact (List.nodup_cons.mp hnodup).1 hx
        · exact hapart x (List.mem_cons_of_mem _ hx) hmem
      rw [List.length_cons] at hfuel
      obtain ⟨m', q, hloop, hall, hlists, hfuel', hdata', hsame'⟩ :=
        ih fuel (some b) (b :: done) c hturned hbehind' hapart' (by omega)
      refine ⟨m', q, ?_, ?_, hlists, hfuel', fun x => (hdata' x).trans (hdata x), fun x hx => ?_⟩
      · show (m.nodeAt (some b)).bind _ = _
        rw [LlMem.nodeAt_eq hnode]
        show (m.setNext (some b) p1).bind _ = _
        rw [LlMem.setNext_eq hnode]
        show (if n.next.isSome = true then _ else _) = _
        rw [hnext]
        exact hloop
      · rw [List.reverse_cons, List.append_assoc]
        exact hall
      · rw [hsame' x fun hmem => hx (List.mem_cons_of_mem _ hmem)]
        exact hsame x fun heq => hx (heq ▸ List.mem_cons_self)

omit [DecidableEq B] in
/-- The loop of `delete_singly_ll` frees the nodes from `b` on. -/
theorem deleteLoop_eq {m : LlMem A B D} (fuel : Nat) (b : A) (bs : List A)
    (h : Segment m.links (some b) (b :: bs) none) (hfuel : bs.length < fuel) :
    ∃ m', deleteLoop m fuel b bs.head? = .ok m' ∧ m'.lists = m.lists ∧ m'.fuel = m.fuel ∧
      m'.callocs = m.callocs ∧ ∀ c, c ∉ b :: bs → m'.nodes c = m.nodes c := by
  obtain ⟨fuel, rfl⟩ : ∃ k, fuel = k + 1 := ⟨fuel - 1, by omega⟩
  induction bs generalizing m b fuel with
  | nil =>
      obtain ⟨n, hnode⟩ := Option.isSome_iff_exists.mp (isSome_node (h.isSome_of_mem List.mem_cons_self))
      refine ⟨{ m with nodes := Function.update m.nodes b none }, ?_, rfl, rfl, rfl, fun c hc => ?_⟩
      · show (m.free b).bind _ = _
        rw [LlMem.free_eq hnode]
        rfl
      · exact Function.update_of_ne (fun heq => hc (List.mem_singleton.mpr heq)) _ _
  | cons c bs ih =>
      obtain ⟨n, hnode⟩ := Option.isSome_iff_exists.mp (isSome_node (h.isSome_of_mem List.mem_cons_self))
      have hnodup := h.nodup
      obtain ⟨-, n', hlink, hbehind⟩ := Segment.cons_iff.mp h
      rw [hbehind.head] at hbehind
      obtain ⟨-, next, hnext, hrest⟩ := Segment.cons_iff.mp hbehind
      obtain ⟨n₂, hnode₂, rfl⟩ := Option.map_eq_some_iff.mp hnext
      -- the next node is still there when `b` is freed
      have hframe : ∀ x ∈ c :: bs,
          Function.update m.nodes b none x = m.nodes x := fun x hx =>
        Function.update_of_ne (ne_of_mem_of_not_mem hx (List.nodup_cons.mp hnodup).1) _ _
      have hbehind' : Segment (LlMem.links { m with nodes := Function.update m.nodes b none }) (some c)
          (c :: bs) none := by
        refine hbehind.frame fun x hx => ?_
        show (Function.update m.nodes b none x).map SinglyLlNode.next = _
        rw [hframe x hx]
        rfl
      have hnode₂' : (Function.update m.nodes b none) c = some n₂ :=
        (hframe c List.mem_cons_self).trans hnode₂
      rw [List.length_cons] at hfuel
      obtain ⟨fuel, rfl⟩ : ∃ k, fuel = k + 1 := ⟨fuel - 1, by omega⟩
      obtain ⟨m', hloop, hlists, hfuel', hcallocs, hsame⟩ := ih c hbehind' fuel (by omega)
      refine ⟨m', ?_, hlists, hfuel', hcallocs, fun x hx => ?_⟩
      · show (m.free b).bind _ = _
        rw [LlMem.free_eq hnode]
        show (LlMem.nodeAt _ (some c)).bind _ = _
        rw [LlMem.nodeAt_eq (m := { m with nodes := Function.update m.nodes b none }) hnode₂']
        show deleteLoop _ (fuel + 1) c n₂.next = _
        rw [hrest.head]
        exact hloop
      · rw [hsame x fun hmem => hx (List.mem_cons_of_mem _ hmem)]
        exact Function.update_of_ne (fun heq => hx (List.mem_cons.mpr (.inl heq))) _ _

/-- A list of at most one node is its own reverse, and stays as it is. -/
theorem reverseShort (h : Holds m C) (hl : m.lists ll = some l) (hle : (C ll).length ≤ 1) :
    reverseSinglyLl m ll = .ok m ∧ (C ll).reverse = C ll := by
  have hcount := h.count ll l hl
  rw [Nat.mod_eq_of_lt (by omega)] at hcount
  constructor
  · rw [reverseSinglyLl, LlMem.llAt_eq hl]
    show (if l.nodeCount = 0 then _ else _) = _
    by_cases hzero : l.nodeCount = 0
    · rw [if_pos hzero]
      rfl
    · rw [if_neg hzero]
      show (if l.nodeCount = 1 then _ else _) = _
      rw [if_pos (by omega)]
      rfl
  · cases hC : C ll with
    | nil => rfl
    | cons c zs =>
        rw [hC, List.length_cons] at hle
        rw [List.eq_nil_of_length_eq_zero (by omega : zs.length = 0)]
        rfl

/-- A list of several nodes: the first node is turned before the loop, the loop turns the others. -/
theorem reverseLong (h : Holds m C) (hl : m.lists ll = some l) (hshort : (C ll).length < 2 ^ 32) {x y : A}
    {dx dy : Option D} {zs : Entries A D} (hC : C ll = (x, dx) :: (y, dy) :: zs) :
    ∃ m' l', reverseSinglyLl m ll = .ok m' ∧ Holds m' (Function.update C ll (C ll).reverse) ∧
      m'.lists = Function.update m.lists ll (some l') := by
  have hnodes : (C ll).nodes = x :: y :: zs.nodes := by
    rw [hC]
    rfl
  have hhead : l.head = some x := by
    rw [h.head hl, hnodes]
    rfl
  have hcount := h.count ll l hl
  have hchain := h.chain ll l hl
  have hnodup := h.nodup hl
  have hfuel := h.fuel ll
  rw [Nat.mod_eq_of_lt hshort, hC, List.length_cons, List.length_cons] at hcount
  rw [hnodes, hhead] at hchain
  rw [hnodes] at hnodup
  rw [hC, List.length_cons, List.length_cons] at hfuel
  -- the first node is turned and leads nowhere
  obtain ⟨n, hnode, hnext, hturned, hdata, hkeep⟩ := turn (.nil none) hchain List.not_mem_nil
  obtain ⟨-, next, -, hrest⟩ := Segment.cons_iff.mp hchain
  rw [hrest.head] at hrest
  have hx : ∀ b ∈ y :: zs.nodes, b ≠ x :=
    fun b hb => ne_of_mem_of_not_mem hb (List.nodup_cons.mp hnodup).1
  -- the rest of the list is as before
  have hrest' : Segment (m.setNode x ⟨n.data, none⟩).links (some y) (y :: zs.nodes) none := by
    refine hrest.frame fun b hb => ?_
    rw [LlMem.links, hkeep b (hx b hb)]
    rfl
  -- the loop turns the rest and ends at the old last node
  obtain ⟨m', q, hloop, hall, hlists, hfuel', hdata', hkeep'⟩ :=
    reverseLoop_eq m.fuel (some x) [x] y zs.nodes hturned hrest'
      (fun b hb hmem => hx b hb (List.mem_singleton.mp hmem)) (by simp; omega)
  refine ⟨m'.setLl ll { l with head := q }, { l with head := q }, ?_, ?_, ?_⟩
  · have hset : m.setNext l.head none = .ok (m.setNode x ⟨n.data, none⟩) := by
      rw [hhead]
      exact LlMem.setNext_eq hnode none
    have hrun : reverseLoop (m.setNode x ⟨n.data, none⟩) m.fuel l.head n.next = .ok (m', q) := by
      rw [hhead, hnext]
      exact hloop
    -- follow the code: there are more nodes than one
    rw [reverseSinglyLl, LlMem.llAt_eq hl]
    show (if l.nodeCount = 0 then _ else _) = _
    rw [if_neg (by omega)]
    show (if l.nodeCount = 1 then _ else _) = _
    rw [if_neg (by omega)]
    show (m.nodeAt l.head).bind _ = _
    rw [congrArg m.nodeAt hhead, LlMem.nodeAt_eq hnode]
    show (m.setNext l.head none).bind _ = _
    rw [hset]
    show (reverseLoop _ m.fuel l.head n.next).bind _ = _
    rw [hrun]
    rfl
  · refine h.rearrange (congrArg (fun f => Function.update f ll _) hlists) hfuel' ?_ ?_ ?_ ?_ ?_ ?_
    · intro b hb
      rw [hnodes] at hb
      show m'.nodes b = m.nodes b
      rw [hkeep' b fun hmem => hb (List.mem_cons_of_mem _ hmem)]
      exact hkeep b fun heq => hb (List.mem_cons.mpr (.inl heq))
    · intro b hb
      rw [Entries.nodes, List.map_reverse] at hb
      exact List.mem_reverse.mp hb
    · rw [List.length_reverse]
    · show Segment m'.links q _ none
      have hreversed : Entries.nodes (C ll).reverse = (y :: zs.nodes).reverse ++ [x] := by
        rw [Entries.nodes, List.map_reverse, ← List.reverse_cons, ← hnodes]
      rw [hreversed]
      exact hall
    · intro c hc
      show (m'.nodes c.1).map SinglyLlNode.data = some c.2
      rw [hdata', hdata]
      exact h.data ll c (List.mem_reverse.mp hc)
    · rw [List.length_reverse]
      exact h.count ll l hl
  · show Function.update m'.lists ll _ = _
    rw [hlists]
    rfl

/-- `reverse_singly_ll` -/
theorem reverse (h : Holds m C) (hl : m.lists ll = some l) (hshort : (C ll).length < 2 ^ 32) :
    ∃ m' l', reverseSinglyLl m ll = .ok m' ∧ Holds m' (Function.update C ll (C ll).reverse) ∧
      m'.lists = Function.update m.lists ll (some l') := by
  by_cases hle : (C ll).length ≤ 1
  · obtain ⟨hok, hrev⟩ := h.reverseShort hl hle
    rw [hrev]
    exact ⟨m, l, hok, h.unchanged hl⟩
  · cases hC : C ll with
    | nil => simp [hC] at hle
    | cons c zs =>
        cases zs with
        | nil => simp [hC] at hle
        | cons c' zs =>
            rw [← hC]
            exact h.reverseLong hl hshort hC

/-- `delete_singly_ll` -/
theorem deleteList (h : Holds m C) (hl : m.lists ll = some l) (hshort : (C ll).length < 2 ^ 32) :
    ∃ m' l', deleteSinglyLl m ll = .ok m' ∧ Holds m' (Function.update C ll []) ∧
      m'.lists = Function.update m.lists ll (some l') ∧ l'.comparisonFn = l.comparisonFn ∧
      m'.callocs = m.callocs := by
  have hcount := h.count ll l hl
  rw [Nat.mod_eq_of_lt hshort] at hcount
  cases hC : C ll with
  | nil =>
      rw [← hC]
      refine ⟨m, l, ?_, (h.unchanged hl).1, (h.unchanged hl).2, rfl, rfl⟩
      rw [deleteSinglyLl, LlMem.llAt_eq hl]
      show (if l.nodeCount = 0 then _ else _) = _
      rw [hcount, hC, if_pos List.length_nil]
      rfl
  | cons c zs =>
      obtain ⟨x, dx⟩ := c
      have hnodes : (C ll).nodes = x :: Entries.nodes zs := by
        rw [hC]
        rfl
      have hhead : l.head = some x := by
        rw [h.head hl, hnodes]
        rfl
      have hchain := h.chain ll l hl
      have hfuel := h.fuel ll
      rw [hnodes, hhead] at hchain
      rw [hC, List.length_cons] at hfuel
      have hnode := h.node hl (show C ll = [] ++ (x, dx) :: zs from hC)
      obtain ⟨m', hloop, hlists, hfuel', hcallocs, hkeep⟩ :=
        deleteLoop_eq m.fuel x (Entries.nodes zs) hchain (by simp; omega)
      refine ⟨m'.setLl ll { l with nodeCount := 0, head := none },
        { l with nodeCount := 0, head := none },
        ?_, ?_, ?_, rfl, hcallocs⟩
      · rw [deleteSinglyLl, LlMem.llAt_eq hl]
        show (if l.nodeCount = 0 then _ else _) = _
        rw [if_neg (by rw [hcount, hC]; exact Nat.succ_ne_zero _)]
        show (m.nodeAt l.head).bind _ = _
        rw [congrArg m.nodeAt hhead, LlMem.nodeAt_eq hnode]
        obtain ⟨count, head, fn⟩ := l
        cases hhead
        show (deleteLoop m m.fuel x _).bind _ = _
        rw [hloop]
        rfl
      · refine h.rearrange (congrArg (fun f => Function.update f ll _) hlists) hfuel' ?_
          (List.forall_mem_nil _) (Nat.zero_le _) (.nil none) (List.forall_mem_nil _) rfl
        intro b hb
        rw [hnodes] at hb
        exact hkeep b hb
      · show Function.update m'.lists ll _ = _
        rw [hlists]

end Loops

end Holds

end LinkedList
end MultithreadingBible
