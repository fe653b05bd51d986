import MultithreadingBible.Lib.Machine
import MultithreadingBible.LinkedList.Union

/-!
# A list is a sequence of pointers

Any number of lists, made by `init_singly_ll` and `union_singly_ll`, on which the functions are
called one after another with data that is not null and with nodes of the lists.

* `nodesOf`, `dataOf` -- the nodes and data of a list, found by following the pointers.
* `LlCall.Gives` -- the sequence of data that a call leaves behind.
* `llMachine` -- the calls.
* `lists_areSequences` -- as long as no list holds 2^32 nodes, every list ends in a null pointer
  without passing a node twice, its count is its length, no data occurs twice, every call gives what
  it should, and none fails.
-/

namespace MultithreadingBible
namespace LinkedList

open Lib

variable {A B D : Type}

section Contents

variable (m : LlMem A B D)

/-- The nodes of a list, if following the pointers leads to a null pointer. -/
def nodesOf (ll : B) : Option (List A) :=
  (m.lists ll).bind fun l => walk m.links m.fuel l.head

/-- The data of a list, in the order of its nodes. -/
def dataOf (ll : B) : Option (List (Option D)) :=
  (nodesOf m ll).map fun as => as.map fun a => (m.nodes a).bind SinglyLlNode.data

end Contents

/-- The calls. -/
inductive LlCall (A B D : Type) where
  | init (ll : B)
  | addByVal (ll : B) (data : D)
  | removeNode (ll : B) (node : A)
  | deleteNode (ll : B) (node : A)
  | removeByDataptr (ll : B) (data : D)
  | deleteByDataPtr (ll : B) (data : D)
  | reverse (ll : B)
  | delete (ll : B)
  | union (list1 list2 res : B)

namespace LlCall

/-- The list that a call changes or makes. -/
def target : LlCall A B D → B
  | .init ll => ll
  | .addByVal ll _ => ll
  | .removeNode ll _ => ll
  | .deleteNode ll _ => ll
  | .removeByDataptr ll _ => ll
  | .deleteByDataPtr ll _ => ll
  | .reverse ll => ll
  | .delete ll => ll
  | .union _ _ res => res

/-- Calls are made on lists that exist, and for nodes of theirs. -/
def allowed [DecidableEq A] (m : LlMem A B D) : LlCall A B D → Bool
  | .init _ => true
  | .addByVal ll _ => (m.lists ll).isSome
  | .removeNode ll node => (nodesOf m ll).any fun as => decide (node ∈ as)
  | .deleteNode ll node => (nodesOf m ll).any fun as => decide (node ∈ as)
  | .removeByDataptr ll _ => (m.lists ll).isSome
  | .deleteByDataPtr ll _ => (m.lists ll).isSome
  | .reverse ll => (m.lists ll).isSome
  | .delete ll => (m.lists ll).isSome
  | .union list1 list2 _ => (m.lists list1).isSome && (m.lists list2).isSome

variable [DecidableEq D]

/-- The sequence `zs` of data that a call leaves in the list it changes or makes. -/
def Gives [DecidableEq A] (m : LlMem A B D) (zs : List (Option D)) : LlCall A B D → Prop
  | .init _ => zs = []
  | .addByVal ll data =>
      ∃ xs, dataOf m ll = some xs ∧
        (some data ∈ xs ∧ zs = xs ∨ some data ∉ xs ∧ zs = some data :: xs)
  | .removeNode ll node =>
      ∃ as xs, nodesOf m ll = some as ∧ dataOf m ll = some xs ∧ zs = xs.eraseIdx (as.idxOf node)
  | .deleteNode ll node =>
      ∃ as xs, nodesOf m ll = some as ∧ dataOf m ll = some xs ∧ zs = xs.eraseIdx (as.idxOf node)
  | .removeByDataptr ll data => ∃ xs, dataOf m ll = some xs ∧ zs = xs.erase (some data)
  | .deleteByDataPtr ll data => ∃ xs, dataOf m ll = some xs ∧ zs = xs.erase (some data)
  | .reverse ll => ∃ xs, dataOf m ll = some xs ∧ zs = xs.reverse
  | .delete _ => zs = []
  | .union list1 list2 _ =>
      ∃ xs ys, dataOf m list1 = some xs ∧ dataOf m list2 = some ys ∧ zs.Nodup ∧
        ∀ d, d ∈ zs ↔ d ∈ xs ∨ d ∈ ys

/-- Carry out a call. -/
def run [DecidableEq A] [DecidableEq B] (m : LlMem A B D) :
    LlCall A B D → Except Failure (LlMem A B D)
  | .init ll => initSinglyLl m ll
  | .addByVal ll data => (singlyLlAddNodeByVal m ll (some data)).map Prod.fst
  | .removeNode ll node => (singlyLlRemoveNode m ll node).map Prod.fst
  | .deleteNode ll node => (singlyLlDeleteNode m ll node).map Prod.fst
  | .removeByDataptr ll data => (singlyLlRemoveNodeByDataptr m ll (some data)).map Prod.fst
  | .deleteByDataPtr ll data => singlyLlDeleteNodeByDataPtr m ll (some data)
  | .reverse ll => reverseSinglyLl m ll
  | .delete ll => deleteSinglyLl m ll
  | .union list1 list2 res => unionSinglyLl m list1 list2 res

end LlCall

/-- A failing call ends the process; `calloc` does not answer with an address in use. -/
def outcomeOf : Except Failure (LlMem A B D) → Outcome (LlMem A B D)
  | .ok m => .next m
  | .error .inUse => .blocked
  | .error _ => .abort

/-- Memory on which calls are made one after another; `calloc` answers with the addresses given
along with a call. -/
def llMachine (A B D : Type) [DecidableEq A] [DecidableEq B] [DecidableEq D] :
    Machine (LlMem A B D) (LlCall A B D × List A) where
  init m := m = LlMem.empty
  step m a := if a.1.allowed m then outcomeOf (a.1.run { m with callocs := a.2 }) else .blocked

/-- No list holds 2^32 nodes. -/
def Short (m : LlMem A B D) : Prop := ∀ ll as, nodesOf m ll = some as → as.length < 2 ^ 32

section Reading

variable {m : LlMem A B D} {C : B → Entries A D} {ll : B} {l : Ll A D}

theorem Holds.nodesOf_eq (h : Holds m C) (hl : m.lists ll = some l) :
    nodesOf m ll = some (C ll).nodes := by
  rw [nodesOf, hl, Option.bind_some]
  refine (h.chain ll l hl).walk_eq ?_
  rw [List.length_map]
  exact h.fuel ll

theorem Holds.dataOf_eq (h : Holds m C) (hl : m.lists ll = some l) : dataOf m ll = some (C ll).data := by
  rw [dataOf, h.nodesOf_eq hl, Option.map_some, Entries.nodes, List.map_map]
  congr 1
  refine List.map_congr_left fun c hc => ?_
  obtain ⟨n, hn, hd⟩ := Option.map_eq_some_iff.mp (h.data ll c hc)
  show (m.nodes c.1).bind SinglyLlNode.data = c.2
  rw [hn]
  exact hd

theorem dataOf_none (hl : m.lists ll = none) : dataOf m ll = none := by
  rw [dataOf, nodesOf, hl]
  rfl

theorem Holds.short (h : Holds m C) (hshort : Short m) (ll : B) : (C ll).length < 2 ^ 32 := by
  cases hl : m.lists ll with
  | none =>
      rw [h.absent ll hl]
      exact Nat.two_pow_pos 32
  | some l =>
      have hlt := hshort ll _ (h.nodesOf_eq hl)
      rw [List.length_map] at hlt
      exact hlt

theorem short_of_fuel (hfuel : m.fuel < 2 ^ 32) : Short m := by
  intro ll as has
  obtain ⟨l, -, hwalk⟩ := Option.bind_eq_some_iff.mp has
  exact (length_le_of_walk hwalk).trans_lt hfuel

/-- The data in memory after one list was changed. -/
theorem Holds.dataOf_change [DecidableEq B] (h : Holds m C) {m' : LlMem A B D} {zs : Entries A D}
    {l' : Ll A D}
    (h' : Holds m' (Function.update C ll zs)) (hlists : m'.lists = Function.update m.lists ll (some l')) :
    dataOf m' = Function.update (dataOf m) ll (some zs.data) := by
  ext1 ll'
  by_cases hll : ll' = ll
  · subst hll
    rw [Function.update_self, h'.dataOf_eq (l := l') (by rw [hlists, Function.update_self]),
      Function.update_self]
  · have hsame : m'.lists ll' = m.lists ll' := by rw [hlists, Function.update_of_ne hll]
    rw [Function.update_of_ne hll]
    cases hl : m.lists ll' with
    | none => rw [dataOf_none hl, dataOf_none (hsame.trans hl)]
    | some l₁ => rw [h.dataOf_eq hl, h'.dataOf_eq (hsame.trans hl), Function.update_of_ne hll]

end Reading

/-- No data occurs twice in a list, and none is null. -/
structure Distinct (C : B → Entries A D) : Prop where
  nodup : ∀ ll, (C ll).data.Nodup
  notNull : ∀ ll, none ∉ (C ll).data

section Calls

variable [DecidableEq A] [DecidableEq B] [DecidableEq D] {m : LlMem A B D} {C : B → Entries A D} {ll : B}
  {l : Ll A D} {a : A} {d : Option D} {pre post : Entries A D}

/-- What a call does, unless `calloc` answers with an address in use. -/
def LlCall.Done (m : LlMem A B D) (C : B → Entries A D) (call : LlCall A B D) : Prop :=
  ∃ m' zs l', call.run m = .ok m' ∧ Holds m' (Function.update C call.target zs) ∧
    m'.lists = Function.update m.lists call.target (some l') ∧
    (zs.length < 2 ^ 32 → zs.data.Nodup ∧ none ∉ zs.data ∧ call.Gives m zs.data)

omit [DecidableEq B] [DecidableEq D] in
/-- A node of a list, and its position. -/
theorem Holds.split_of_mem (h : Holds m C)
    (hmem : ((nodesOf m ll).any fun as => decide (a ∈ as)) = true) :
    ∃ l pre d post, m.lists ll = some l ∧ C ll = pre ++ (a, d) :: post ∧
      (C ll).data.eraseIdx ((C ll).nodes.idxOf a) = Entries.data (pre ++ post) := by
  cases hl : m.lists ll with
  | none =>
      rw [nodesOf, hl] at hmem
      cases hmem
  | some l =>
      rw [h.nodesOf_eq hl, Option.any_some, decide_eq_true_iff] at hmem
      obtain ⟨⟨a', d⟩, hc, rfl⟩ := List.mem_map.mp hmem
      obtain ⟨pre, post, hC⟩ := List.append_of_mem hc
      refine ⟨l, pre, d, post, rfl, hC, ?_⟩
      -- no node stands twice, so its position is the one found
      have hnot : a' ∉ Entries.nodes pre := by
        intro hpre
        obtain ⟨c, hc, heq⟩ := List.mem_map.mp hpre
        exact h.ne_node hl hC (List.mem_append_left _ hc) heq
      have hidx : (C ll).nodes.idxOf a' = pre.length := by
        rw [hC, Entries.nodes, List.map_append, List.idxOf_append_of_notMem hnot, List.map_cons,
          List.idxOf_cons_self, List.length_map, Nat.add_zero]
      rw [hidx, hC, Entries.data, List.map_append, List.eraseIdx_append_of_length_le (by simp),
        List.length_map,
        Nat.sub_self, List.map_cons, List.eraseIdx_cons_zero, Entries.data, List.map_append]

omit [DecidableEq A] [DecidableEq B] [DecidableEq D] in
/-- What is left when a position is taken out. -/
theorem Distinct.sub (hd : Distinct C) (hC : C ll = pre ++ (a, d) :: post) {xs : List (Option D)}
    (hxs : xs = Entries.data (pre ++ post)) : xs.Nodup ∧ none ∉ xs := by
  have hsub : xs.Sublist (C ll).data := by
    rw [hxs, hC, Entries.data, Entries.data]
    exact (List.Sublist.append_left (List.sublist_cons_self _ _) pre).map Prod.snd
  exact ⟨(hd.nodup ll).sublist hsub, fun hnone => hd.notNull ll (hsub.subset hnone)⟩

omit [DecidableEq A] [DecidableEq B] in
/-- Taking out the first occurrence takes out that position. -/
theorem erase_eq (hC : C ll = pre ++ (a, d) :: post) (hpre : d ∉ Entries.data pre) :
    (C ll).data.erase d = Entries.data (pre ++ post) := by
  rw [hC, Entries.data, List.map_append, List.erase_append_right _ hpre, List.map_cons,
    List.erase_cons_head]
  exact List.map_append.symm

theorem LlCall.init_done (h : Holds m C) (ll : B) :
    (LlCall.init (A := A) (D := D) ll).run m = .error .inUse ∨ (LlCall.init ll).Done m C := by
  cases hl : m.lists ll with
  | some l =>
      left
      show initSinglyLl m ll = _
      rw [initSinglyLl, hl]
      rfl
  | none =>
      obtain ⟨m', hok, hholds, -, -, -, hlists⟩ := h.init hl
      refine .inr ⟨m', [], ⟨0, none, none⟩, hok, ?_, hlists,
        fun _ => ⟨List.nodup_nil, List.not_mem_nil, rfl⟩⟩
      have hsame : Function.update C ll [] = C := by
        rw [← h.absent ll hl, Function.update_eq_self]
      show Holds m' (Function.update C ll [])
      rw [hsame]
      exact hholds

theorem LlCall.addByVal_done (h : Holds m C) (hd : Distinct C) (hshort : (C ll).length < 2 ^ 32)
    (hl : m.lists ll = some l) (data : D) :
    (LlCall.addByVal (A := A) ll data).run m = .error .inUse ∨ (LlCall.addByVal ll data).Done m C := by
  have hcounted : (C ll).counted = C ll := by
    rw [Entries.counted, Nat.mod_eq_of_lt hshort, List.take_length]
  rcases h.addByVal hl (some data) with herr | ⟨hmem, hok⟩ | ⟨hmem, m', a, hok, hholds, hlists⟩
  · left
    show (singlyLlAddNodeByVal m ll (some data)).map Prod.fst = _
    rw [herr]
    rfl
  · right
    rw [hcounted] at hmem
    refine ⟨m, C ll, l, ?_, (h.unchanged hl).1, (h.unchanged hl).2,
      fun _ => ⟨hd.nodup ll, hd.notNull ll, ?_⟩⟩
    · show (singlyLlAddNodeByVal m ll (some data)).map Prod.fst = _
      rw [hok]
      rfl
    · exact ⟨(C ll).data, h.dataOf_eq hl, .inl ⟨hmem, rfl⟩⟩
  · right
    rw [hcounted] at hmem
    refine ⟨m', _, _, ?_, hholds, hlists, fun _ => ⟨List.nodup_cons.mpr ⟨hmem, hd.nodup ll⟩, ?_, ?_⟩⟩
    · show (singlyLlAddNodeByVal m ll (some data)).map Prod.fst = _
      rw [hok]
      rfl
    · exact List.not_mem_cons_of_ne_of_not_mem (Option.some_ne_none data).symm (hd.notNull ll)
    · exact ⟨(C ll).data, h.dataOf_eq hl, .inr ⟨hmem, rfl⟩⟩

theorem LlCall.removeNode_done (h : Holds m C) (hd : Distinct C) (hshort : (C ll).length < 2 ^ 32)
    (hmem : ((nodesOf m ll).any fun as => decide (a ∈ as)) = true) :
    (LlCall.removeNode (D := D) ll a).Done m C := by
  obtain ⟨l, pre, d, post, hl, hC, hidx⟩ := h.split_of_mem hmem
  obtain ⟨m', l', hok, hholds, -, hlists⟩ := h.removeNode hl hC hshort
  obtain ⟨hnodup, hnull⟩ := hd.sub hC rfl
  refine ⟨m', pre ++ post, l', ?_, hholds, hlists, fun _ => ⟨hnodup, hnull, ?_⟩⟩
  · show (singlyLlRemoveNode m ll a).map Prod.fst = _
    rw [hok]
    rfl
  · exact ⟨_, _, h.nodesOf_eq hl, h.dataOf_eq hl, hidx.symm⟩

theorem LlCall.deleteNode_done (h : Holds m C) (hd : Distinct C) (hshort : (C ll).length < 2 ^ 32)
    (hmem : ((nodesOf m ll).any fun as => decide (a ∈ as)) = true) :
    (LlCall.deleteNode (D := D) ll a).Done m C := by
  obtain ⟨l, pre, d, post, hl, hC, hidx⟩ := h.split_of_mem hmem
  obtain ⟨m', l', zs, hok, hholds, hdata, hlists⟩ := h.deleteNode hl hC hshort
  obtain ⟨hnodup, hnull⟩ := hd.sub hC hdata
  refine ⟨m', zs, l', ?_, hholds, hlists, fun _ => ⟨hnodup, hnull, ?_⟩⟩
  · show (singlyLlDeleteNode m ll a).map Prod.fst = _
    rw [hok]
    rfl
  · exact ⟨_, _, h.nodesOf_eq hl, h.dataOf_eq hl, hdata.trans hidx.symm⟩

/-- A call that takes out the first node with some data, if there is one. -/
theorem LlCall.done_of_erase (h : Holds m C) (hd : Distinct C) (hl : m.lists ll = some l)
    {data : Option D}
    {call : LlCall A B D} (htarget : call.target = ll)
    (hgives : ∀ zs, (∃ xs, dataOf m ll = some xs ∧ zs = xs.erase data) → call.Gives m zs)
    (hrun : (data ∉ (C ll).data ∧ call.run m = .ok m) ∨
      ∃ pre a post m' l', C ll = pre ++ (a, data) :: post ∧ data ∉ Entries.data pre ∧
        call.run m = .ok m' ∧
        Holds m' (Function.update C ll (pre ++ post)) ∧ m'.lists = Function.update m.lists ll (some l')) :
    call.Done m C := by
  unfold LlCall.Done
  rw [htarget]
  rcases hrun with ⟨hnot, hok⟩ | ⟨pre, a, post, m', l', hC, hpre, hok, hholds, hlists⟩
  · refine ⟨m, C ll, l, hok, (h.unchanged hl).1, (h.unchanged hl).2,
      fun _ => ⟨hd.nodup ll, hd.notNull ll, ?_⟩⟩
    exact hgives _ ⟨(C ll).data, h.dataOf_eq hl, (List.erase_of_not_mem hnot).symm⟩
  · obtain ⟨hnodup, hnull⟩ := hd.sub hC rfl
    refine ⟨m', pre ++ post, l', hok, hholds, hlists, fun _ => ⟨hnodup, hnull, ?_⟩⟩
    exact hgives _ ⟨(C ll).data, h.dataOf_eq hl, (erase_eq hC hpre).symm⟩

theorem LlCall.removeByDataptr_done (h : Holds m C) (hd : Distinct C) (hshort : (C ll).length < 2 ^ 32)
    (hl : m.lists ll = some l) (data : D) : (LlCall.removeByDataptr (A := A) ll data).Done m C := by
  have hrun : ∀ {m' r}, singlyLlRemoveNodeByDataptr m ll (some data) = .ok (m', r) →
      (LlCall.removeByDataptr (A := A) ll data).run m = .ok m' := by
    intro m' r hok
    show (singlyLlRemoveNodeByDataptr m ll (some data)).map Prod.fst = _
    rw [hok]
    rfl
  refine LlCall.done_of_erase h hd hl rfl (fun zs hzs => hzs) ?_
  rcases h.removeByDataptr hl hshort (some data) with
    ⟨hnot, hok⟩ | ⟨pre, a, post, m', l', hC, hpre, hok, hrest⟩
  · exact .inl ⟨hnot, hrun hok⟩
  · exact .inr ⟨pre, a, post, m', l', hC, hpre, hrun hok, hrest⟩

theorem LlCall.deleteByDataPtr_done (h : Holds m C) (hd : Distinct C) (hshort : (C ll).length < 2 ^ 32)
    (hl : m.lists ll = some l) (data : D) : (LlCall.deleteByDataPtr (A := A) ll data).Done m C :=
  LlCall.done_of_erase h hd hl rfl (fun _ hzs => hzs)
    (h.deleteByDataPtr hl hshort (Option.some_ne_none data))

theorem LlCall.reverse_done (h : Holds m C) (hd : Distinct C) (hshort : (C ll).length < 2 ^ 32)
    (hl : m.lists ll = some l) : (LlCall.reverse (A := A) (D := D) ll).Done m C := by
  obtain ⟨m', l', hok, hholds, hlists⟩ := h.reverse hl hshort
  have hdata : Entries.data (C ll).reverse = (C ll).data.reverse := List.map_reverse
  refine ⟨m', (C ll).reverse, l', hok, hholds, hlists, fun _ => ?_⟩
  rw [hdata]
  exact ⟨List.nodup_reverse.mpr (hd.nodup ll), fun hnone => hd.notNull ll (List.mem_reverse.mp hnone),
    (C ll).data, h.dataOf_eq hl, rfl⟩

theorem LlCall.delete_done (h : Holds m C) (hshort : (C ll).length < 2 ^ 32) (hl : m.lists ll = some l) :
    (LlCall.delete (A := A) (D := D) ll).Done m C := by
  obtain ⟨m', l', hok, hholds, hlists, -, -⟩ := h.deleteList hl hshort
  exact ⟨m', [], l', hok, hholds, hlists, fun _ => ⟨List.nodup_nil, List.not_mem_nil, rfl⟩⟩

theorem LlCall.union_done (h : Holds m C) (hd : Distinct C) {list1 list2 res : B} {l1 l2 : Ll A D}
    (hl1 : m.lists list1 = some l1) (hl2 : m.lists list2 = some l2) :
    (LlCall.union (A := A) (D := D) list1 list2 res).run m = .error .inUse ∨
      (LlCall.union list1 list2 res).Done m C := by
  rcases h.union hl1 hl2 res with herr | ⟨m', zs, l', hok, hholds, hlists, -, hdata⟩
  · exact .inl herr
  · refine .inr ⟨m', zs, l', hok, hholds, hlists, fun hshort => ?_⟩
    rw [← List.length_map Prod.snd, show zs.map Prod.snd = zs.data from rfl, hdata] at hshort
    obtain ⟨hnodup, hmem⟩ := pushAll_short _ List.nodup_nil hshort
    rw [← hdata] at hnodup hmem
    have hmem' : ∀ d, d ∈ zs.data ↔ d ∈ (C list1).data ∨ d ∈ (C list2).data := by
      intro d
      rw [hmem d, List.mem_append]
      exact or_iff_right List.not_mem_nil
    refine ⟨hnodup, fun hnone => ?_, (C list1).data, (C list2).data, h.dataOf_eq hl1, h.dataOf_eq hl2,
      hnodup, hmem'⟩
    exact ((hmem' none).mp hnone).elim (hd.notNull list1) (hd.notNull list2)

/-- Every call leaves the sequence behind that it should. -/
theorem LlCall.done (h : Holds m C) (hd : Distinct C) (hshort : ∀ ll, (C ll).length < 2 ^ 32)
    (call : LlCall A B D) (hallowed : call.allowed m = true) :
    call.run m = .error .inUse ∨ call.Done m C := by
  cases call with
  | init ll => exact LlCall.init_done h ll
  | addByVal ll data =>
      obtain ⟨l, hl⟩ := Option.isSome_iff_exists.mp hallowed
      exact LlCall.addByVal_done h hd (hshort ll) hl data
  | removeNode ll node => exact .inr (LlCall.removeNode_done h hd (hshort ll) hallowed)
  | deleteNode ll node => exact .inr (LlCall.deleteNode_done h hd (hshort ll) hallowed)
  | removeByDataptr ll data =>
      obtain ⟨l, hl⟩ := Option.isSome_iff_exists.mp hallowed
      exact .inr (LlCall.removeByDataptr_done h hd (hshort ll) hl data)
  | deleteByDataPtr ll data =>
      obtain ⟨l, hl⟩ := Option.isSome_iff_exists.mp hallowed
      exact .inr (LlCall.deleteByDataPtr_done h hd (hshort ll) hl data)
  | reverse ll =>
      obtain ⟨l, hl⟩ := Option.isSome_iff_exists.mp hallowed
      exact .inr (LlCall.reverse_done h hd (hshort ll) hl)
  | delete ll =>
      obtain ⟨l, hl⟩ := Option.isSome_iff_exists.mp hallowed
      exact .inr (LlCall.delete_done h (hshort ll) hl)
  | union list1 list2 res =>
      obtain ⟨h1, h2⟩ := Bool.and_eq_true_iff.mp hallowed
      obtain ⟨l1, hl1⟩ := Option.isSome_iff_exists.mp h1
      obtain ⟨l2, hl2⟩ := Option.isSome_iff_exists.mp h2
      exact LlCall.union_done h hd hl1 hl2

end Calls

section Runs

variable [DecidableEq A] [DecidableEq B] [DecidableEq D] {m : LlMem A B D} {C : B → Entries A D}

omit [DecidableEq A] [DecidableEq D] in
theorem Distinct.update (hd : Distinct C) {ll : B} {zs : Entries A D} (hnodup : zs.data.Nodup)
    (hnull : none ∉ zs.data) : Distinct (Function.update C ll zs) where
  nodup ll' := by
    by_cases hll : ll' = ll
    · subst hll
      rw [Function.update_self]
      exact hnodup
    · rw [Function.update_of_ne hll]
      exact hd.nodup ll'
  notNull ll' := by
    by_cases hll : ll' = ll
    · subst hll
      rw [Function.update_self]
      exact hnull
    · rw [Function.update_of_ne hll]
      exact hd.notNull ll'

/-- A step fails no call, and changes the list that the call is for. -/
theorem llMachine_step (h : Holds m C) (hd : Distinct C) (hshort : Short m) (call : LlCall A B D)
    (callocs : List A) :
    (llMachine A B D).step m (call, callocs) ≠ .abort ∧
      ∀ m', (llMachine A B D).step m (call, callocs) = .next m' →
        ∃ zs l', Holds m' (Function.update C call.target zs) ∧
          m'.lists = Function.update m.lists call.target (some l') ∧
          (Short m' → zs.data.Nodup ∧ none ∉ zs.data ∧ call.Gives m zs.data) := by
  have hstep : (llMachine A B D).step m (call, callocs) =
      if call.allowed m then outcomeOf (call.run { m with callocs := callocs }) else .blocked := rfl
  rw [hstep]
  by_cases hallowed : call.allowed m = true
  · rw [if_pos hallowed]
    have h₁ : Holds { m with callocs := callocs } C := h.congr rfl rfl (Nat.le_refl _)
    rcases call.done h₁ hd (h.short hshort) hallowed with herr | ⟨m₁, zs, l', hok, hholds, hlists, hgives⟩
    · rw [herr]
      constructor
      · intro habort
        cases habort
      · intro m' hnext
        cases hnext
    · rw [hok]
      constructor
      · intro habort
        cases habort
      intro m' hnext
      cases hnext
      refine ⟨zs, l', hholds, hlists, fun hshort' => hgives ?_⟩
      have hlt := hholds.short hshort' call.target
      rw [Function.update_self] at hlt
      exact hlt
  · rw [if_neg hallowed]
    constructor
    · intro habort
      cases habort
    · intro m' hnext
      cases hnext

/-- In a run all of whose states are short, no data occurs twice. -/
theorem llMachine_invariant (hm : (llMachine A B D).ReachableUnder (fun m _ => Short m) m) :
    ∃ C, Holds m C ∧ (Short m → Distinct C) := by
  refine Machine.ReachableUnder.invariant
    (I := fun m => ∃ C, Holds m C ∧ (Short m → Distinct C)) ?_ ?_ hm
  · intro m hm
    rw [show m = _ from hm]
    exact ⟨fun _ => [], .empty, fun _ => ⟨fun _ => List.nodup_nil, fun _ => List.not_mem_nil⟩⟩
  · intro m a m' ⟨C, h, hdistinct⟩ hshort hstep
    obtain ⟨zs, l', h', -, hgives⟩ := (llMachine_step h (hdistinct hshort) hshort a.1 a.2).2 m' hstep
    refine ⟨_, h', fun hshort' => ?_⟩
    obtain ⟨hnodup, hnull, -⟩ := hgives hshort'
    exact (hdistinct hshort).update hnodup hnull

/-- As long as no list holds 2^32 nodes, the lists are sequences of distinct pointers, every call
changes them as it should, and none fails. -/
theorem lists_areSequences (hm : (llMachine A B D).ReachableUnder (fun m _ => Short m) m)
    (hshort : Short m) :
    (∀ ll l, m.lists ll = some l →
      ∃ as xs, nodesOf m ll = some as ∧ dataOf m ll = some xs ∧ as.Nodup ∧ l.nodeCount = as.length ∧
        xs.Nodup ∧ none ∉ xs) ∧
      ∀ call callocs, (llMachine A B D).step m (call, callocs) ≠ .abort ∧
        ∀ m', (llMachine A B D).step m (call, callocs) = .next m' → Short m' →
          ∃ zs, call.Gives m zs ∧ dataOf m' = Function.update (dataOf m) call.target (some zs) := by
  obtain ⟨C, h, hdistinct⟩ := llMachine_invariant hm
  have hd := hdistinct hshort
  refine ⟨fun ll l hl => ?_, fun call callocs => ?_⟩
  · refine ⟨_, _, h.nodesOf_eq hl, h.dataOf_eq hl, h.nodup hl, ?_, hd.nodup ll, hd.notNull ll⟩
    rw [h.count ll l hl, Nat.mod_eq_of_lt (h.short hshort ll), List.length_map]
  · obtain ⟨hno, hnext⟩ := llMachine_step h hd hshort call callocs
    refine ⟨hno, fun m' hstep hshort' => ?_⟩
    obtain ⟨zs, l', h', hlists, hgives⟩ := hnext m' hstep
    exact ⟨zs.data, (hgives hshort').2.2, h.dataOf_change h' hlists⟩

/-- In a run that allocates less than 2^32 nodes all states are short. -/
theorem shortRun {calls : List (LlCall A B D × List A)}
    (hexec : (llMachine A B D).execUnder (fun m _ => decide (m.fuel < 2 ^ 32)) LlMem.empty calls =
      .next m) :
    (llMachine A B D).ReachableUnder (fun m _ => Short m) m :=
  (Machine.reachableUnder_of_execUnder (.init rfl) hexec).mono
    fun _ _ hfuel => short_of_fuel (of_decide_eq_true hfuel)

/-- The second of three nodes is deleted. -/
theorem lists_areSequences_trace :
    ∃ m : LlMem Nat Unit Nat, dataOf m () = some [some 3, some 2, some 1] ∧
      ∃ m', (llMachine Nat Unit Nat).step m (.deleteNode () 1, []) = .next m' ∧
        dataOf m' () = some [some 3, some 1] := by
  let calls : List (LlCall Nat Unit Nat × List Nat) :=
    [(.init (), []), (.addByVal () 1, [0]), (.addByVal () 2, [1]), (.addByVal () 3, [2])]
  have hrun : ((llMachine Nat Unit Nat).execUnder (fun m _ => decide (m.fuel < 2 ^ 32))
      LlMem.empty calls).holds (fun m => decide (m.fuel < 2 ^ 32) &&
        decide (nodesOf m () = some [2, 1, 0]) && decide (dataOf m () = some [some 3, some 2, some 1]) &&
        ((llMachine Nat Unit Nat).step m (.deleteNode () 1, [])).holds
          fun m' => decide (m'.fuel < 2 ^ 32)) = true := by
    decide +kernel
  obtain ⟨m, hexec, hm⟩ := Outcome.holds_iff.mp hrun
  obtain ⟨⟨⟨hfuel, hnodes⟩, hdata⟩, hnext⟩ : ((m.fuel < 2 ^ 32 ∧ nodesOf m () = some [2, 1, 0]) ∧
      dataOf m () = some [some 3, some 2, some 1]) ∧ _ := by
    rw [Bool.and_eq_true, Bool.and_eq_true, Bool.and_eq_true] at hm
    exact ⟨⟨⟨of_decide_eq_true hm.1.1.1, of_decide_eq_true hm.1.1.2⟩, of_decide_eq_true hm.1.2⟩, hm.2⟩
  obtain ⟨m', hstep, hfuel'⟩ := Outcome.holds_iff.mp hnext
  obtain ⟨-, hcalls⟩ := lists_areSequences (shortRun hexec) (short_of_fuel hfuel)
  obtain ⟨zs, ⟨as, xs, has, hxs, hzs⟩, hdata'⟩ :=
    (hcalls (.deleteNode () 1) []).2 m' hstep (short_of_fuel (of_decide_eq_true hfuel'))
  rw [hnodes] at has
  rw [hdata] at hxs
  cases has
  cases hxs
  refine ⟨m, hdata, m', hstep, ?_⟩
  rw [hdata', hzs]
  rfl

end Runs

section Overflow

/-- A list is made, and the pointers `0`, ..., `n - 1` are inserted. -/
def insertions (n : Nat) : List (LlCall Nat Unit Nat × List Nat) :=
  (.init (), []) :: (List.range n).map fun i => (.addByVal () i, [i])

/-- The nodes after that. -/
def inserted (n : Nat) : Entries Nat Nat := (List.range n).reverse.map fun i => (i, some i)

theorem inserted_succ (n : Nat) : inserted (n + 1) = (n, some n) :: inserted n := by
  rw [inserted, List.range_succ, List.reverse_append]
  rfl

theorem insertions_exec (n : Nat) :
    ∃ m l, (llMachine Nat Unit Nat).exec LlMem.empty (insertions n) = .next m ∧
      Holds m (fun _ => inserted n) ∧ m.lists () = some l ∧ ∀ a, n ≤ a → m.nodes a = none := by
  induction n with
  | zero =>
      have hno : (LlMem.empty : LlMem Nat Unit Nat).lists () = none := rfl
      obtain ⟨m, hok, h, -, -, -, hlists⟩ := Holds.empty.init hno
      cases hok
      exact ⟨_, _, rfl, h, congrFun hlists (), fun _ _ => rfl⟩
  | succ n ih =>
      obtain ⟨m, l, hexec, h, hl, hfree⟩ := ih
      have hsplit : insertions (n + 1) = insertions n ++ [(.addByVal () n, [n])] := by
        rw [insertions, List.range_succ, List.map_append]
        rfl
      -- whatever the search looks at, it does not find the new pointer
      have hnew : some n ∉ Entries.data (inserted n).counted := by
        intro hmem
        obtain ⟨c, hc, heq⟩ := List.mem_map.mp hmem
        obtain ⟨i, hi, rfl⟩ := List.mem_map.mp (List.mem_of_mem_take hc)
        rw [List.mem_reverse, List.mem_range] at hi
        cases heq
        exact Nat.lt_irrefl n hi
      have h₁ : Holds { m with callocs := [n] } fun _ => inserted n := h.congr rfl rfl (Nat.le_refl _)
      obtain ⟨m', hok, h', -, hlists, hother⟩ := h₁.addFresh hl hnew rfl (hfree n (Nat.le_refl n))
      have hcontents : Function.update (fun _ : Unit => inserted n) () ((n, some n) :: inserted n) =
          fun _ => inserted (n + 1) := by
        ext1 ll
        rw [show ll = () from rfl, Function.update_self, inserted_succ]
      rw [hcontents] at h'
      have hstep : (llMachine Nat Unit Nat).step m (.addByVal () n, [n]) = .next m' := by
        have hallowed : (LlCall.addByVal (A := Nat) () n).allowed m = true := by
          show (m.lists ()).isSome = true
          rw [hl]
          rfl
        show (if (LlCall.addByVal (A := Nat) () n).allowed m = true then
          outcomeOf ((singlyLlAddNodeByVal { m with callocs := [n] } () (some n)).map Prod.fst) else
            _) = _
        rw [if_pos hallowed, hok]
        rfl
      refine ⟨m', _, ?_, h', congrFun hlists () |>.trans (Function.update_self ..), fun a ha => ?_⟩
      · rw [hsplit, Machine.exec_append, hexec]
        show ((llMachine Nat Unit Nat).step m _).bind _ = _
        rw [hstep]
        rfl
      · rw [hother a (by omega)]
        exact hfree a (by omega)

/-- The count of a list of 2^32 nodes is 0. -/
theorem lists_areSequences_wrapped :
    ∃ m l as, (llMachine Nat Unit Nat).exec LlMem.empty (insertions (2 ^ 32)) = .next m ∧
      m.lists () = some l ∧ nodesOf m () = some as ∧ as.length = 2 ^ 32 ∧ l.nodeCount = 0 := by
  obtain ⟨m, l, hexec, h, hl, -⟩ := insertions_exec (2 ^ 32)
  have hlength : (inserted (2 ^ 32)).length = 2 ^ 32 := by
    rw [inserted, List.length_map, List.length_reverse, List.length_range]
  refine ⟨m, l, _, hexec, hl, h.nodesOf_eq hl, ?_, ?_⟩
  · rw [List.length_map, hlength]
  · rw [h.count () l hl, hlength, Nat.mod_self]

end Overflow

end LinkedList
end MultithreadingBible
