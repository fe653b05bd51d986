import MultithreadingBible.LinkedList.LinkedListApi

/-!
# Lists in memory

`Holds m C` says that every list `ll` in memory consists of the nodes and data `C ll`: the nodes are
linked in this order up to a null pointer, the count is their number, as far as 32 bits go, and no
node is in two lists.

* `Holds.change` -- one list is changed and the nodes of the others are left alone.
* `Holds.addByVal`, `Holds.removeNode`, `Holds.deleteNode`, `Holds.reverse`, ... -- one lemma for
  each function.
-/

namespace MultithreadingBible
namespace LinkedList

open Lib

variable {A B D : Type}

/-- The nodes of a list, with their data. -/
abbrev Entries (A D : Type) := List (A × Option D)

/-- The addresses of nodes. -/
abbrev Entries.nodes (zs : Entries A D) : List A := zs.map Prod.fst

/-- The data of nodes. -/
abbrev Entries.data (zs : Entries A D) : List (Option D) := zs.map Prod.snd

/-- The nodes that a search by the count looks at: all of them, unless the count has wrapped. -/
def Entries.counted (zs : Entries A D) : Entries A D := zs.take (zs.length % 2 ^ 32)

/-- The lists in memory consist of the nodes and data `C`. -/
structure Holds (m : LlMem A B D) (C : B → Entries A D) : Prop where
  chain : ∀ ll l, m.lists ll = some l → Segment m.links l.head (C ll).nodes none
  data : ∀ ll, ∀ c ∈ C ll, (m.nodes c.1).map SinglyLlNode.data = some c.2
  count : ∀ ll l, m.lists ll = some l → l.nodeCount = (C ll).length % 2 ^ 32
  absent : ∀ ll, m.lists ll = none → C ll = []
  disjoint : ∀ ll ll', ll ≠ ll' → ∀ a ∈ (C ll).nodes, a ∉ (C ll').nodes
  fuel : ∀ ll, (C ll).length ≤ m.fuel

section Memory

variable {m : LlMem A B D} {a : A} {n : SinglyLlNode A D} {ll : B} {l : Ll A D}

theorem LlMem.nodeAt_eq (h : m.nodes a = some n) : m.nodeAt (some a) = .ok n := by
  rw [nodeAt, Option.bind_some, h]

theorem LlMem.llAt_eq (h : m.lists ll = some l) : m.llAt ll = .ok l := by
  rw [llAt, h]

theorem LlMem.links_eq (h : m.nodes a = some n) : m.links a = some n.next := by
  rw [links, h]
  rfl

variable [DecidableEq A]

theorem LlMem.setNext_eq (h : m.nodes a = some n) (v : Option A) :
    m.setNext (some a) v = .ok (m.setNode a { n with next := v }) := by
  rw [setNext, nodeAt_eq h]
  rfl

theorem LlMem.free_eq (h : m.nodes a = some n) :
    m.free a = .ok { m with nodes := Function.update m.nodes a none } := by
  rw [free, nodeAt_eq h]
  rfl

theorem LlMem.links_setNode (m : LlMem A B D) (a : A) (n : SinglyLlNode A D) :
    (m.setNode a n).links = Function.update m.links a (some n.next) := by
  ext1 b
  by_cases hb : b = a
  · subst hb
    show (Function.update m.nodes b (some n) b).map SinglyLlNode.next = _
    rw [Function.update_self, Function.update_self]
    rfl
  · show (Function.update m.nodes a (some n) b).map SinglyLlNode.next = _
    rw [Function.update_of_ne hb, Function.update_of_ne hb]
    rfl

end Memory

namespace Holds

variable {m : LlMem A B D} {C : B → Entries A D} {ll : B} {l : Ll A D} {a : A} {d : Option D}
  {pre post : Entries A D}

theorem empty : Holds (LlMem.empty : LlMem A B D) fun _ => [] where
  chain _ _ hl := by cases hl
  data _ := List.forall_mem_nil _
  count _ _ hl := by cases hl
  absent _ _ := rfl
  disjoint _ _ _ := List.forall_mem_nil _
  fuel _ := Nat.le_refl _

theorem nodup (h : Holds m C) (hl : m.lists ll = some l) : (C ll).nodes.Nodup := (h.chain ll l hl).nodup

theorem head (h : Holds m C) (hl : m.lists ll = some l) : l.head = (C ll).nodes.head? :=
  (h.chain ll l hl).head

/-- A node of a list leads to the nodes behind it. -/
theorem node (h : Holds m C) (hl : m.lists ll = some l) (hC : C ll = pre ++ (a, d) :: post) :
    m.nodes a = some ⟨d, post.nodes.head?⟩ := by
  have hchain := h.chain ll l hl
  have hdata := h.data ll (a, d) (by rw [hC]; exact List.mem_append_right _ List.mem_cons_self)
  rw [hC, Entries.nodes, List.map_append, Segment.append_iff] at hchain
  obtain ⟨r, -, hrest⟩ := hchain
  obtain ⟨-, n, hlink, hpost⟩ := Segment.cons_iff.mp hrest
  cases hnode : m.nodes a with
  | none =>
      rw [hnode] at hdata
      cases hdata
  | some x =>
      rw [hnode] at hdata
      rw [LlMem.links_eq hnode] at hlink
      cases hdata
      cases hlink
      rw [← hpost.head]

/-- Another node of a list is at another address. -/
theorem ne_node (h : Holds m C) (hl : m.lists ll = some l) (hC : C ll = pre ++ (a, d) :: post)
    {c : A × Option D} (hc : c ∈ pre ++ post) : c.1 ≠ a := by
  have hnodup := h.nodup hl
  rw [hC, Entries.nodes, List.map_append, List.map_cons, List.nodup_middle] at hnodup
  intro heq
  rw [List.nodup_cons, ← List.map_append] at hnodup
  exact hnodup.1 (List.mem_map.mpr ⟨c, hc, heq⟩)

/-- Memory that differs in what `calloc` will answer only. -/
theorem congr (h : Holds m C) {m' : LlMem A B D} (hnodes : m'.nodes = m.nodes)
    (hlists : m'.lists = m.lists) (hfuel : m.fuel ≤ m'.fuel) : Holds m' C where
  chain ll l hl := by
    rw [hlists] at hl
    refine (h.chain ll l hl).frame fun a _ => ?_
    rw [LlMem.links, LlMem.links, hnodes]
  data := by
    rw [hnodes]
    exact h.data
  count ll l hl := h.count ll l (by rw [← hlists]; exact hl)
  absent ll hno := h.absent ll (by rw [← hlists]; exact hno)
  disjoint := h.disjoint
  fuel ll := (h.fuel ll).trans hfuel

variable [DecidableEq B]

/-- A list stays as it is. -/
theorem unchanged (h : Holds m C) (hl : m.lists ll = some l) :
    Holds m (Function.update C ll (C ll)) ∧ m.lists = Function.update m.lists ll (some l) := by
  constructor
  · rw [Function.update_eq_self]
    exact h
  · rw [← hl, Function.update_eq_self]

/-- One list is changed. -/
theorem change (h : Holds m C) {m' : LlMem A B D} {l' : Ll A D} {zs : Entries A D}
    (hlists : m'.lists = Function.update m.lists ll (some l'))
    (hother : ∀ ll' ≠ ll, ∀ a ∈ (C ll').nodes, m'.nodes a = m.nodes a)
    (hchain : Segment m'.links l'.head zs.nodes none)
    (hdata : ∀ c ∈ zs, (m'.nodes c.1).map SinglyLlNode.data = some c.2)
    (hcount : l'.nodeCount = zs.length % 2 ^ 32)
    (hown : ∀ ll' ≠ ll, ∀ a ∈ zs.nodes, a ∉ (C ll').nodes)
    (hfuel : m.fuel ≤ m'.fuel) (hroom : zs.length ≤ m'.fuel) : Holds m' (Function.update C ll zs) where
  chain ll' l₁ hl₁ := by
    rw [hlists] at hl₁
    by_cases hll : ll' = ll
    · subst hll
      rw [Function.update_self] at hl₁ ⊢
      cases hl₁
      exact hchain
    · rw [Function.update_of_ne hll] at hl₁ ⊢
      -- the nodes of the other lists are not touched
      refine (h.chain ll' l₁ hl₁).frame fun a ha => ?_
      rw [LlMem.links, LlMem.links, hother ll' hll a ha]
  data ll' c hc := by
    by_cases hll : ll' = ll
    · subst hll
      rw [Function.update_self] at hc
      exact hdata c hc
    · rw [Function.update_of_ne hll] at hc
      rw [hother ll' hll c.1 (List.mem_map_of_mem hc)]
      exact h.data ll' c hc
  count ll' l₁ hl₁ := by
    rw [hlists] at hl₁
    by_cases hll : ll' = ll
    · subst hll
      rw [Function.update_self] at hl₁ ⊢
      cases hl₁
      exact hcount
    · rw [Function.update_of_ne hll] at hl₁ ⊢
      exact h.count ll' l₁ hl₁
  absent ll' hno := by
    rw [hlists] at hno
    by_cases hll : ll' = ll
    · rw [hll, Function.update_self] at hno
      cases hno
    · rw [Function.update_of_ne hll] at hno ⊢
      exact h.absent ll' hno
  disjoint ll₁ ll₂ hne a ha := by
    by_cases h₁ : ll₁ = ll
    · subst h₁
      rw [Function.update_self] at ha
      rw [Function.update_of_ne (Ne.symm hne)]
      exact hown ll₂ (Ne.symm hne) a ha
    · rw [Function.update_of_ne h₁] at ha
      by_cases h₂ : ll₂ = ll
      · subst h₂
        rw [Function.update_self]
        exact fun hmem => hown ll₁ h₁ a hmem ha
      · rw [Function.update_of_ne h₂]
        exact h.disjoint ll₁ ll₂ hne a ha
  fuel ll' := by
    by_cases hll : ll' = ll
    · subst hll
      rw [Function.update_self]
      exact hroom
    · rw [Function.update_of_ne hll]
      exact (h.fuel ll').trans hfuel

end Holds

section Search

variable [DecidableEq D]

/-- The first node with the given data. -/
def nodeOf (zs : Entries A D) (data : Option D) : Option A :=
  (zs.find? fun c => c.2 = data).map Prod.fst

theorem nodeOf_eq_none {zs : Entries A D} {data : Option D} :
    nodeOf zs data = none ↔ data ∉ zs.data := by
  rw [nodeOf, Option.map_eq_none_iff, List.find?_eq_none]
  constructor
  · intro h hmem
    obtain ⟨c, hc, heq⟩ := List.mem_map.mp hmem
    exact h c hc (decide_eq_true heq)
  · intro h c hc heq
    exact h (of_decide_eq_true heq ▸ List.mem_map_of_mem hc)

theorem exists_of_nodeOf {zs : Entries A D} {data : Option D} {a : A} (h : nodeOf zs data = some a) :
    ∃ pre post, zs = pre ++ (a, data) :: post ∧ data ∉ pre.data := by
  obtain ⟨c, hfind, rfl⟩ := Option.map_eq_some_iff.mp h
  obtain ⟨heq, pre, post, hsplit, hpre⟩ := List.find?_eq_some_iff_append.mp hfind
  refine ⟨pre, post, by rw [hsplit, ← of_decide_eq_true heq], fun hmem => ?_⟩
  obtain ⟨c', hc', heq'⟩ := List.mem_map.mp hmem
  simpa [heq'] using hpre c' hc'

variable {m : LlMem A B D} {C : B → Entries A D} {ll : B} {l : Ll A D}

/-- The search from the middle of a list. -/
theorem Holds.nodeByDataPtrLoop_eq (h : Holds m C) (hl : m.lists ll = some l) (data : Option D) (k : Nat)
    (pre suf : Entries A D) (hC : C ll = pre ++ suf) (hk : k ≤ suf.length) :
    nodeByDataPtrLoop m data k suf.nodes.head? = .ok (nodeOf (suf.take k) data) := by
  induction k generalizing pre suf with
  | zero => rfl
  | succ k ih =>
      cases suf with
      | nil => simp at hk
      | cons c suf =>
          obtain ⟨a, d⟩ := c
          have hnode := h.node hl hC
          rw [List.length_cons] at hk
          have hrest := ih (pre ++ [(a, d)]) suf (by rw [hC]; simp) (by omega)
          show (m.nodeAt (some a)).bind _ = _
          rw [LlMem.nodeAt_eq hnode]
          show (if d = data then _ else _) = _
          rw [List.take_succ_cons, nodeOf, List.find?_cons]
          by_cases hd : d = data
          · rw [if_pos hd, decide_eq_true hd]
            rfl
          · rw [if_neg hd, decide_eq_false hd]
            exact hrest

/-- `singly_ll_get_node_by_data_ptr` looks at as many nodes as are counted. -/
theorem Holds.getNodeByDataPtr_eq (h : Holds m C) (hl : m.lists ll = some l) (data : Option D) :
    singlyLlGetNodeByDataPtr m ll data =
      .ok (nodeOf (C ll).counted data) := by
  have hcount := h.count ll l hl
  have hloop := h.nodeByDataPtrLoop_eq hl data ((C ll).length % 2 ^ 32) [] (C ll) rfl (Nat.mod_le _ _)
  rw [singlyLlGetNodeByDataPtr, LlMem.llAt_eq hl]
  show (if l.head.isNone = true then _ else _) = _
  rw [h.head hl, Entries.counted]
  cases hC : C ll with
  | nil => rfl
  | cons c zs =>
      rw [hC] at hloop
      rw [if_neg (by simp), hcount, hC]
      exact hloop

end Search

end LinkedList
end MultithreadingBible
