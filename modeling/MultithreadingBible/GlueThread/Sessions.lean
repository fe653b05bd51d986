import Mathlib.Data.List.Perm.Subperm
import MultithreadingBible.GlueThread.Represent
import MultithreadingBible.Lib.Machine

/-!
# Lists in use

Any number of heads and nodes are set up by `init_glthread`, at any time and wherever they lie in
memory, and the functions are called on them one after another.

* `Session.contents` -- the nodes of a list, found by following the right pointers.
* `GlthreadCall.Effect` -- what a call returns, and what it does to the sequences of nodes.
* `glthreadMachine` -- the calls.
* `Session.WellFormed` -- what the lists have in common.
* `lists_wellFormed` -- the lists are well-formed after every sequence of calls, and each call has
  its effect.
-/

namespace MultithreadingBible
namespace GlueThread

open Lib

/-- The cells in memory, and those of them that `init_glthread` has set up as heads and as nodes. -/
structure Session (A : Type*) where
  heap : Heap A
  heads : List A
  nodes : List A

variable {A : Type*} [DecidableEq A]

namespace Session

variable (s : Session A)

/-- The nodes of a list, if following the right pointers from its head leads to a null pointer.  As many
steps are made as there are nodes. -/
def contents (head : A) : Option (List A) :=
  if s.heads.contains head then iterateGlthread s.heap s.nodes.length (base s.heap head) else none

/-- A cell is in the list of some head. -/
def isLinked (a : A) : Bool :=
  s.heads.any fun head => (s.contents head).any fun zs => zs.contains a

/-- A node is in no list. -/
def isUnlinked (a : A) : Bool := s.nodes.contains a && !s.isLinked a

/-- A cell has not been set up. -/
def isFresh (a : A) : Bool := !s.heads.contains a && !s.nodes.contains a

end Session

/-- The calls. -/
inductive GlthreadCall (A : Type*) where
  | initHead (glthread : A)
  | initNode (glthread : A)
  | addNext (currGlthread newGlthread : A)
  | addBefore (currGlthread newGlthread : A)
  | addLast (glthreadHead newGlthread : A)
  | remove (currGlthread : A)
  | dequeueFirst (baseGlthread : A)
  | deleteList (glthreadHead : A)

namespace GlthreadCall

/-- Unlinked nodes are put behind heads and linked nodes, before linked nodes and at the end of
lists, and any node may be removed. -/
def allowed (s : Session A) : GlthreadCall A → Bool
  | .initHead glthread => s.isFresh glthread
  | .initNode glthread => s.isFresh glthread
  | .addNext curr new => (s.heads.contains curr || s.isLinked curr) && s.isUnlinked new
  | .addBefore curr new => s.isLinked curr && s.isUnlinked new
  | .addLast head new => s.heads.contains head && s.isUnlinked new
  | .remove curr => s.nodes.contains curr
  | .dequeueFirst head => s.heads.contains head
  | .deleteList head => s.heads.contains head

/-- Carry out a call.  `dequeue_glthread_first` returns a pointer. -/
def run (s : Session A) : GlthreadCall A → Option (Option A × Session A)
  | .initHead glthread => some (none, ⟨initGlthread s.heap glthread, glthread :: s.heads, s.nodes⟩)
  | .initNode glthread => some (none, ⟨initGlthread s.heap glthread, s.heads, glthread :: s.nodes⟩)
  | .addNext curr new => some (none, { s with heap := glthreadAddNext s.heap curr new })
  | .addBefore curr new => some (none, { s with heap := glthreadAddBefore s.heap curr new })
  | .addLast head new =>
      (glthreadAddLast s.nodes.length s.heap head new).map fun hp => (none, { s with heap := hp })
  | .remove curr => some (none, { s with heap := removeGlthread s.heap curr })
  | .dequeueFirst head =>
      let r := dequeueGlthreadFirst s.heap head
      some (r.1, { s with heap := r.2 })
  | .deleteList head =>
      (deleteGlthreadList s.nodes.length s.heap head).map fun hp => (none, { s with heap := hp })

/-- The list of `head` becomes `zs`, and nothing else changes. -/
def Becomes (s s' : Session A) (head : A) (zs : List A) : Prop :=
  s'.heads = s.heads ∧ s'.nodes = s.nodes ∧ s'.contents = Function.update s.contents head (some zs)

/-- What a call returns, and what it does to the sequences of nodes. -/
def Effect (s : Session A) (r : Option A) (s' : Session A) : GlthreadCall A → Prop
  | .initHead glthread =>
      s'.heads = glthread :: s.heads ∧ s'.nodes = s.nodes ∧
        s'.contents = Function.update s.contents glthread (some [])
  | .initNode glthread =>
      s'.heads = s.heads ∧ s'.nodes = glthread :: s.nodes ∧ s'.contents = s.contents
  | .addNext curr new =>
      ∃ head us vs zs zs', s.contents head = some zs ∧ head :: zs = us ++ curr :: vs ∧
        head :: zs' = us ++ curr :: new :: vs ∧ Becomes s s' head zs'
  | .addBefore curr new =>
      ∃ head us vs, s.contents head = some (us ++ curr :: vs) ∧
        Becomes s s' head (us ++ new :: curr :: vs)
  | .addLast head new => ∃ zs, s.contents head = some zs ∧ Becomes s s' head (zs ++ [new])
  | .remove curr =>
      s.isLinked curr = false ∧ s' = s ∨
        ∃ head us vs, s.contents head = some (us ++ curr :: vs) ∧ Becomes s s' head (us ++ vs)
  | .dequeueFirst head =>
      ∃ zs, s.contents head = some zs ∧ r = zs.head? ∧ Becomes s s' head zs.tail
  | .deleteList head => Becomes s s' head []

end GlthreadCall

/-- The calls, from memory in which nothing has been set up. -/
def glthreadMachine (A : Type*) [DecidableEq A] : Machine (Session A) (GlthreadCall A) where
  init s := s.heads = [] ∧ s.nodes = []
  step s call :=
    if call.allowed s then (call.run s).elim .abort fun r => .next r.2 else .blocked

/-- The lists end, and have no node twice or in common; cells are neighbours from the left just if
they are from the right, and have only such neighbours; `IS_GLTHREAD_LIST_EMPTY` tells the nodes
that are in no list, and the heads of empty lists. -/
structure Session.WellFormed (s : Session A) : Prop where
  ends : ∀ head ∈ s.heads, ∃ zs, s.contents head = some zs ∧ (head :: zs).Nodup ∧ zs ⊆ s.nodes
  apart : ∀ head ∈ s.heads, ∀ head' ∈ s.heads, head ≠ head' → ∀ zs zs', s.contents head = some zs →
    s.contents head' = some zs' → (head :: zs).Disjoint (head' :: zs')
  consistent : ∀ x ∈ s.heads ++ s.nodes, ∀ y ∈ s.heads ++ s.nodes,
    ((s.heap x).right = some y ↔ (s.heap y).left = some x)
  closed : ∀ x ∈ s.heads ++ s.nodes, ∀ y, (s.heap x).right = some y ∨ (s.heap x).left = some y →
    y ∈ s.heads ++ s.nodes
  linked : ∀ a ∈ s.nodes, (s.isLinked a = true ↔ isGlthreadListEmpty s.heap a = false)
  empty : ∀ head ∈ s.heads, (s.contents head = some [] ↔ isGlthreadListEmpty s.heap head = true)

/-- The list of every head holds the nodes that `C` gives. -/
def Session.Holds (s : Session A) (C : A → List A) : Prop :=
  Forest s.heap (Subtype.val : {head // head ∈ s.heads} → A) (C ∘ Subtype.val) (· ∈ s.nodes)

section Reading

variable {s : Session A} {C : A → List A} {head a : A}

namespace Session.Holds

omit [DecidableEq A] in
theorem length_le (h : s.Holds C) (hhead : head ∈ s.heads) : (C head).length ≤ s.nodes.length :=
  (List.subperm_of_subset (Forest.nodup h ⟨head, hhead⟩) (Forest.sub h ⟨head, hhead⟩)).length_le

theorem contents_head (h : s.Holds C) (hhead : head ∈ s.heads) : s.contents head = some (C head) := by
  rw [contents, if_pos (List.contains_iff_mem.mpr hhead)]
  exact Forest.iterate h (i := ⟨head, hhead⟩) (h.length_le hhead)

theorem contents_eq_some (h : s.Holds C) {zs : List A} :
    s.contents head = some zs ↔ head ∈ s.heads ∧ C head = zs := by
  by_cases hhead : head ∈ s.heads
  · rw [h.contents_head hhead, Option.some.injEq]
    exact (and_iff_right hhead).symm
  · rw [contents, if_neg (mt List.contains_iff_mem.mp hhead)]
    simp [hhead]

theorem isLinked_iff (h : s.Holds C) : s.isLinked a = true ↔ ∃ head ∈ s.heads, a ∈ C head := by
  rw [isLinked, List.any_eq_true]
  refine exists_congr fun head => and_congr_right fun hhead => ?_
  rw [h.contents_head hhead, Option.any_some, List.contains_iff_mem]

theorem isUnlinked_iff (h : s.Holds C) :
    s.isUnlinked a = true ↔ a ∈ s.nodes ∧ ∀ i : {head // head ∈ s.heads}, a ∉ C i := by
  rw [isUnlinked, Bool.and_eq_true, List.contains_iff_mem, Bool.not_eq_true', ← Bool.not_eq_true,
    h.isLinked_iff]
  refine and_congr_right fun _ => ?_
  constructor
  · intro hno i hmem
    exact hno ⟨i, i.2, hmem⟩
  · rintro hno ⟨head, hhead, hmem⟩
    exact hno ⟨head, hhead⟩ hmem

omit [DecidableEq A] in
/-- The parts of lists are cells that have been set up. -/
theorem mem_cells (h : s.Holds C) {i : {head // head ∈ s.heads}} (ha : a ∈ i.1 :: C i) :
    a ∈ s.heads ++ s.nodes := by
  rw [List.mem_append]
  rcases List.mem_cons.mp ha with rfl | ha
  · exact .inl i.2
  · exact .inr (Forest.sub h i a ha)

end Session.Holds

omit [DecidableEq A] in
theorem Session.mem_cells_iff :
    a ∈ s.heads ++ s.nodes ↔ (∃ i : {head // head ∈ s.heads}, i.1 = a) ∨ a ∈ s.nodes := by
  rw [List.mem_append, Subtype.exists]
  simp

theorem Session.isFresh_iff : s.isFresh a = true ↔ a ∉ s.heads ∧ a ∉ s.nodes := by
  simp [Session.isFresh]

/-- Lists that are represented are well-formed. -/
theorem Session.Holds.wellFormed (h : s.Holds C) : s.WellFormed where
  ends head hhead :=
    ⟨C head, h.contents_head hhead, Forest.nodup_cons h ⟨head, hhead⟩, Forest.sub h ⟨head, hhead⟩⟩
  apart head hhead head' hhead' hne zs zs' hzs hzs' := by
    obtain ⟨-, rfl⟩ := h.contents_eq_some.mp hzs
    obtain ⟨-, rfl⟩ := h.contents_eq_some.mp hzs'
    intro a ha ha'
    have hne' : (⟨head, hhead⟩ : {head // head ∈ s.heads}) ≠ ⟨head', hhead'⟩ := by
      intro heq
      exact hne (congrArg Subtype.val heq)
    exact Forest.not_mem_other h hne' ha ha'
  consistent x hx y hy := by
    constructor
    · intro hright
      exact (Forest.right_left h (Session.mem_cells_iff.mp hx) hright).2
    · intro hleft
      exact (Forest.left_right h (Session.mem_cells_iff.mp hy) hleft).2
  closed x hx y hxy := by
    have hcell := Session.mem_cells_iff.mp hx
    rcases hxy with hright | hleft
    · obtain ⟨⟨i, hi⟩, -⟩ := Forest.right_left h hcell hright
      exact h.mem_cells hi
    · obtain ⟨⟨i, hi⟩, -⟩ := Forest.left_right h hcell hleft
      exact h.mem_cells hi
  linked a ha := by
    rw [h.isLinked_iff, ← Bool.not_eq_true, Forest.isEmpty_cell h ha]
    simp
  empty head hhead := by
    rw [h.contents_head hhead, Option.some.injEq]
    exact (Forest.isEmpty_head h ⟨head, hhead⟩).symm

end Reading

/-- A call goes through, leaves represented lists behind, and has its effect. -/
def GlthreadCall.Done (s : Session A) (call : GlthreadCall A) : Prop :=
  ∃ r s' C', call.run s = some (r, s') ∧ s'.Holds C' ∧ call.Effect s r s'

section Calls

variable {s : Session A} {C : A → List A} {head curr new a : A}

/-- One list is changed. -/
theorem Session.Holds.becomes (h : s.Holds C) (i : {head // head ∈ s.heads}) {hp : Heap A}
    {zs : List A} (h' : Forest hp Subtype.val (Function.update (C ∘ Subtype.val) i zs) (· ∈ s.nodes)) :
    ({ s with heap := hp } : Session A).Holds (Function.update C i zs) ∧
      GlthreadCall.Becomes s { s with heap := hp } i zs := by
  have hholds : ({ s with heap := hp } : Session A).Holds (Function.update C i zs) := by
    rw [← Function.update_comp_eq_of_injective _ Subtype.val_injective] at h'
    exact h'
  refine ⟨hholds, rfl, rfl, ?_⟩
  ext1 head
  by_cases hhead : head = i.1
  · subst hhead
    rw [Function.update_self, hholds.contents_head i.2, Function.update_self]
  · rw [Function.update_of_ne hhead]
    refine Option.ext fun zs' => ?_
    rw [hholds.contents_eq_some, h.contents_eq_some, Function.update_of_ne hhead]

/-- A fresh cell is cleared, and becomes a head with an empty list. -/
theorem Session.Holds.initHead (h : s.Holds C) (hhead : a ∉ s.heads) (hnode : a ∉ s.nodes) :
    (⟨initGlthread s.heap a, a :: s.heads, s.nodes⟩ : Session A).Holds (Function.update C a []) := by
  have hcell : ∀ b, b ≠ a → initGlthread s.heap a b = s.heap b := fun b hb =>
    Function.update_of_ne hb _ _
  have hne : ∀ b ∈ s.heads, b ≠ a := fun b hb => ne_of_mem_of_not_mem hb hhead
  -- only the old heads have members
  have hmem : ∀ b ∈ a :: s.heads, ∀ c ∈ Function.update C a [] b, b ∈ s.heads ∧ c ∈ C b := by
    intro b hb c hc
    rcases List.mem_cons.mp hb with rfl | hb
    · rw [Function.update_self] at hc
      cases hc
    · rw [Function.update_of_ne (hne b hb)] at hc
      exact ⟨hb, hc⟩
  refine ⟨fun i => ?_, fun i => ?_, fun i j hij c hc hc' => ?_, fun i c hc => ?_, fun i hi => ?_,
    Subtype.val_injective, fun c hc hno => ?_⟩
  · obtain ⟨b, hb⟩ := i
    show Row _ none none (b :: Function.update C a [] b)
    rcases List.mem_cons.mp hb with rfl | hb
    · rw [Function.update_self]
      exact ⟨Function.update_self .., trivial⟩
    · rw [Function.update_of_ne (hne b hb)]
      refine (Forest.row h ⟨b, hb⟩).frame fun c hc => hcell c ?_
      rcases List.mem_cons.mp hc with rfl | hc
      · exact hne _ hb
      · exact ne_of_mem_of_not_mem (Forest.sub h ⟨b, hb⟩ c hc) hnode
  · obtain ⟨b, hb⟩ := i
    show (Function.update C a [] b).Nodup
    rcases List.mem_cons.mp hb with rfl | hb
    · rw [Function.update_self]
      exact List.nodup_nil
    · rw [Function.update_of_ne (hne b hb)]
      exact Forest.nodup h ⟨b, hb⟩
  · obtain ⟨hi, hc⟩ := hmem i i.2 c hc
    obtain ⟨hj, hc'⟩ := hmem j j.2 c hc'
    have hij' : (⟨i, hi⟩ : {head // head ∈ s.heads}) ≠ ⟨j, hj⟩ := by
      intro heq
      exact hij (Subtype.ext (Subtype.mk.inj heq))
    exact Forest.disjoint h _ _ hij' c hc hc'
  · obtain ⟨hi, hc⟩ := hmem i i.2 c hc
    exact Forest.sub h ⟨i, hi⟩ c hc
  · rcases List.mem_cons.mp i.2 with heq | hold
    · exact hnode (heq ▸ hi)
    · exact Forest.head h ⟨i, hold⟩ hi
  · show initGlthread s.heap a c = Glthread.null
    rw [hcell c (ne_of_mem_of_not_mem hc hnode)]
    refine Forest.unlinked h c hc fun i hi => ?_
    refine hno ⟨i, List.mem_cons_of_mem _ i.2⟩ ?_
    show c ∈ Function.update C a [] i
    rw [Function.update_of_ne (hne i i.2)]
    exact hi

/-- A fresh cell is cleared, and becomes a node that is in no list. -/
theorem Session.Holds.initNode (h : s.Holds C) (hhead : a ∉ s.heads) (hnode : a ∉ s.nodes) :
    (⟨initGlthread s.heap a, s.heads, a :: s.nodes⟩ : Session A).Holds C := by
  refine Forest.extend h _ _ (fun i => ?_) (fun b hb => ?_) (fun b hb => List.mem_cons_of_mem _ hb)
    (fun i hi => ?_) (fun b hb hnew => ?_)
  · exact Function.update_of_ne (ne_of_mem_of_not_mem i.2 hhead) _ _
  · exact Function.update_of_ne (ne_of_mem_of_not_mem hb hnode) _ _
  · rcases List.mem_cons.mp hi with heq | hi
    · exact hhead (heq ▸ i.2)
    · exact Forest.head h i hi
  · obtain rfl : b = a := (List.mem_cons.mp hb).resolve_right hnew
    exact Function.update_self ..

theorem GlthreadCall.initHead_done (h : s.Holds C) (hfresh : s.isFresh a = true) :
    (GlthreadCall.initHead a).Done s := by
  rw [Session.isFresh_iff] at hfresh
  have hholds := h.initHead hfresh.1 hfresh.2
  refine ⟨none, _, _, rfl, hholds, rfl, rfl, ?_⟩
  ext1 head
  by_cases hhead : head = a
  · subst hhead
    rw [hholds.contents_head List.mem_cons_self, Function.update_self, Function.update_self]
  · rw [Function.update_of_ne hhead]
    refine Option.ext fun zs => ?_
    rw [hholds.contents_eq_some, h.contents_eq_some, Function.update_of_ne hhead,
      List.mem_cons, or_iff_right hhead]

theorem GlthreadCall.initNode_done (h : s.Holds C) (hfresh : s.isFresh a = true) :
    (GlthreadCall.initNode a).Done s := by
  rw [Session.isFresh_iff] at hfresh
  have hholds := h.initNode hfresh.1 hfresh.2
  refine ⟨none, _, _, rfl, hholds, rfl, rfl, ?_⟩
  ext1 head
  refine Option.ext fun zs => ?_
  rw [hholds.contents_eq_some, h.contents_eq_some]

theorem GlthreadCall.addNext_done (h : s.Holds C) (hcurr : curr ∈ s.heads ∨ s.isLinked curr = true)
    (hnew : s.isUnlinked new = true) : (GlthreadCall.addNext curr new).Done s := by
  obtain ⟨hnode, hfree⟩ := h.isUnlinked_iff.mp hnew
  -- the list that `curr` is in, possibly as its head
  obtain ⟨i, hi⟩ : ∃ i : {head // head ∈ s.heads}, curr ∈ i.1 :: C i := by
    rcases hcurr with hhead | hlinked
    · exact ⟨⟨curr, hhead⟩, List.mem_cons_self⟩
    · obtain ⟨head, hhead, hmem⟩ := h.isLinked_iff.mp hlinked
      exact ⟨⟨head, hhead⟩, List.mem_cons_of_mem _ hmem⟩
  obtain ⟨us, vs, hsplit⟩ := List.append_of_mem hi
  obtain ⟨hholds, hbecomes⟩ := h.becomes i (Forest.addNext h hsplit hnode hfree)
  exact ⟨none, _, _, rfl, hholds, i, us, vs, C i, _, h.contents_head i.2, hsplit,
    cons_tail_of_split hsplit (new :: vs), hbecomes⟩

theorem GlthreadCall.addBefore_done (h : s.Holds C) (hcurr : s.isLinked curr = true)
    (hnew : s.isUnlinked new = true) : (GlthreadCall.addBefore curr new).Done s := by
  obtain ⟨hnode, hfree⟩ := h.isUnlinked_iff.mp hnew
  obtain ⟨head, hhead, hmem⟩ := h.isLinked_iff.mp hcurr
  obtain ⟨us, vs, hsplit⟩ := List.append_of_mem hmem
  obtain ⟨hholds, hbecomes⟩ :=
    h.becomes ⟨head, hhead⟩ (Forest.addBefore h (i := ⟨head, hhead⟩) hsplit hnode hfree)
  refine ⟨none, _, _, rfl, hholds, head, us, vs, ?_, hbecomes⟩
  rw [h.contents_head hhead, hsplit]

theorem GlthreadCall.addLast_done (h : s.Holds C) (hhead : head ∈ s.heads)
    (hnew : s.isUnlinked new = true) :
    (GlthreadCall.addLast head new).Done s := by
  obtain ⟨hnode, hfree⟩ := h.isUnlinked_iff.mp hnew
  obtain ⟨hp, hok, h'⟩ :=
    Forest.addLast h (i := ⟨head, hhead⟩) hnode hfree (h.length_le hhead)
  obtain ⟨hholds, hbecomes⟩ := h.becomes ⟨head, hhead⟩ h'
  refine ⟨none, _, _, ?_, hholds, C head, h.contents_head hhead, hbecomes⟩
  rw [GlthreadCall.run, hok, Option.map_some]

theorem GlthreadCall.remove_done (h : s.Holds C) (hnode : curr ∈ s.nodes) :
    (GlthreadCall.remove curr).Done s := by
  by_cases hlinked : s.isLinked curr = true
  · obtain ⟨head, hhead, hmem⟩ := h.isLinked_iff.mp hlinked
    obtain ⟨us, vs, -, hsplit, herase⟩ := List.exists_erase_eq hmem
    have hremove := Forest.remove h (i := ⟨head, hhead⟩) hmem
    obtain ⟨hholds, hbecomes⟩ := h.becomes ⟨head, hhead⟩ hremove
    rw [Function.comp_apply, herase] at hbecomes
    refine ⟨none, _, _, rfl, hholds, .inr ⟨head, us, vs, ?_, hbecomes⟩⟩
    rw [h.contents_head hhead, hsplit]
  · -- both links of an unlinked node are null
    rw [Bool.not_eq_true] at hlinked
    obtain ⟨-, hfree⟩ := h.isUnlinked_iff.mp (show s.isUnlinked curr = true by
      rw [Session.isUnlinked, hlinked, List.contains_iff_mem.mpr hnode]; rfl)
    have hnull := Forest.unlinked h curr hnode hfree
    have hsame : removeGlthread s.heap curr = s.heap := by simp [removeGlthread, hnull]
    refine ⟨none, s, C, ?_, h, .inl ⟨hlinked, rfl⟩⟩
    rw [GlthreadCall.run, hsame]

theorem GlthreadCall.dequeueFirst_done (h : s.Holds C) (hhead : head ∈ s.heads) :
    (GlthreadCall.dequeueFirst head).Done s := by
  rcases Forest.dequeueFirst h ⟨head, hhead⟩ with ⟨hnil, hok⟩ | ⟨a, zs, hcons, hok, h'⟩
  · -- an empty list stays as it is
    have hcontents := h.contents_head hhead
    rw [show C head = [] from hnil] at hcontents
    refine ⟨none, s, C, ?_, h, [], hcontents, rfl, rfl, rfl, ?_⟩
    · rw [GlthreadCall.run, hok]
    · rw [List.tail_nil, ← hcontents, Function.update_eq_self]
  · obtain ⟨hholds, hbecomes⟩ := h.becomes ⟨head, hhead⟩ h'
    refine ⟨some a, _, _, ?_, hholds, a :: zs, ?_, rfl, hbecomes⟩
    · rw [GlthreadCall.run, hok]
    · rw [h.contents_head hhead]
      exact congrArg some hcons

theorem GlthreadCall.deleteList_done (h : s.Holds C) (hhead : head ∈ s.heads) :
    (GlthreadCall.deleteList head).Done s := by
  obtain ⟨hp, hok, h'⟩ := Forest.deleteList h (i := ⟨head, hhead⟩) (h.length_le hhead)
  obtain ⟨hholds, hbecomes⟩ := h.becomes ⟨head, hhead⟩ h'
  refine ⟨none, _, _, ?_, hholds, hbecomes⟩
  rw [GlthreadCall.run, hok, Option.map_some]

/-- Every call that is made goes through. -/
theorem GlthreadCall.done (h : s.Holds C) (call : GlthreadCall A) (hallowed : call.allowed s = true) :
    call.Done s := by
  cases call with
  | initHead glthread => exact GlthreadCall.initHead_done h hallowed
  | initNode glthread => exact GlthreadCall.initNode_done h hallowed
  | addNext curr new =>
      obtain ⟨hcurr, hnew⟩ := Bool.and_eq_true_iff.mp hallowed
      rw [Bool.or_eq_true, List.contains_iff_mem] at hcurr
      exact GlthreadCall.addNext_done h hcurr hnew
  | addBefore curr new =>
      obtain ⟨hcurr, hnew⟩ := Bool.and_eq_true_iff.mp hallowed
      exact GlthreadCall.addBefore_done h hcurr hnew
  | addLast head new =>
      obtain ⟨hhead, hnew⟩ := Bool.and_eq_true_iff.mp hallowed
      exact GlthreadCall.addLast_done h (List.contains_iff_mem.mp hhead) hnew
  | remove curr => exact GlthreadCall.remove_done h (List.contains_iff_mem.mp hallowed)
  | dequeueFirst head => exact GlthreadCall.dequeueFirst_done h (List.contains_iff_mem.mp hallowed)
  | deleteList head => exact GlthreadCall.deleteList_done h (List.contains_iff_mem.mp hallowed)

end Calls

section Runs

variable {s : Session A}

omit [DecidableEq A] in
/-- Nothing is represented where nothing has been set up. -/
theorem Session.holds_empty (hp : Heap A) : (⟨hp, [], []⟩ : Session A).Holds fun _ => [] := by
  refine ⟨fun i => ?_, fun i => ?_, fun i => ?_, fun i => ?_, fun i => ?_, Subtype.val_injective,
    fun a ha => ?_⟩
  · cases i.2
  · cases i.2
  · cases i.2
  · cases i.2
  · cases i.2
  · cases ha

/-- A call that is made leads on. -/
theorem glthreadMachine_step {call : GlthreadCall A} (hallowed : call.allowed s = true) {r : Option A}
    {s' : Session A} (hrun : call.run s = some (r, s')) : (glthreadMachine A).step s call = .next s' := by
  have hstep : (glthreadMachine A).step s call = (call.run s).elim .abort fun r => .next r.2 :=
    if_pos hallowed
  rw [hstep, hrun]
  rfl

theorem glthreadMachine_invariant (hs : (glthreadMachine A).Reachable s) : ∃ C, s.Holds C := by
  refine Machine.ReachableUnder.invariant (I := fun s => ∃ C, s.Holds C) ?_ ?_ hs
  · rintro ⟨hp, heads, nodes⟩ ⟨rfl, rfl⟩
    exact ⟨_, Session.holds_empty hp⟩
  · intro s call s' ⟨C, h⟩ _ hstep
    by_cases hallowed : call.allowed s = true
    · obtain ⟨r, s₁, C', hrun, h', -⟩ := GlthreadCall.done h call hallowed
      rw [glthreadMachine_step hallowed hrun] at hstep
      cases hstep
      exact ⟨C', h'⟩
    · rw [show (glthreadMachine A).step s call = .blocked from if_neg hallowed] at hstep
      cases hstep

end Runs

/-- **Doubly linked lists.**  After every sequence of calls the lists are well-formed, and the next
call goes through, has its effect on the list that it is for, and leaves the others untouched. -/
theorem lists_wellFormed {s : Session A} (hs : (glthreadMachine A).Reachable s) :
    s.WellFormed ∧ ∀ call : GlthreadCall A, call.allowed s = true →
      ∃ r s', call.run s = some (r, s') ∧ (glthreadMachine A).step s call = .next s' ∧
        call.Effect s r s' := by
  obtain ⟨C, h⟩ := glthreadMachine_invariant hs
  refine ⟨h.wellFormed, fun call hallowed => ?_⟩
  obtain ⟨r, s', -, hrun, -, heffect⟩ := GlthreadCall.done h call hallowed
  exact ⟨r, s', hrun, glthreadMachine_step hallowed hrun, heffect⟩

/-- Two lists in memory whose cells point to themselves at first; the first node of one is taken out. -/
theorem lists_wellFormed_trace :
    ∃ s s' : Session Nat, s.WellFormed ∧ s.contents 0 = some [2, 4, 3] ∧ s.contents 1 = some [5] ∧
      (GlthreadCall.dequeueFirst 0).run s = some (some 2, s') ∧ s'.contents 0 = some [4, 3] ∧
      s'.contents 1 = some [5] := by
  let start : Session Nat := ⟨fun a => ⟨some a, some a⟩, [], []⟩
  let calls : List (GlthreadCall Nat) :=
    [.initHead 0, .initNode 2, .initNode 3, .addLast 0 2, .addNext 2 3, .initHead 1, .initNode 4,
      .initNode 5, .addBefore 3 4, .addNext 1 5]
  have hrun : ((glthreadMachine Nat).exec start calls).holds (fun s =>
      decide (s.contents 0 = some [2, 4, 3]) && decide (s.contents 1 = some [5]) &&
        (GlthreadCall.dequeueFirst 0).allowed s) = true := by
    decide +kernel
  have hinit : (glthreadMachine Nat).init start := ⟨rfl, rfl⟩
  obtain ⟨s, hs, htest⟩ := Machine.exists_reachable_of_exec hinit hrun
  rw [Bool.and_eq_true, Bool.and_eq_true, decide_eq_true_eq, decide_eq_true_eq] at htest
  obtain ⟨⟨h0, h1⟩, hallowed⟩ := htest
  obtain ⟨hwell, hcalls⟩ := lists_wellFormed hs
  obtain ⟨r, s', hok, -, zs, hzs, rfl, -, -, hcontents⟩ := hcalls _ hallowed
  rw [h0] at hzs
  cases hzs
  refine ⟨s, s', hwell, h0, h1, hok, ?_, ?_⟩
  · rw [hcontents]
    rfl
  · rw [hcontents, Function.update_of_ne (by decide), h1]

end GlueThread
end MultithreadingBible
