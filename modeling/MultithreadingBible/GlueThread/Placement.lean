import MultithreadingBible.GlueThread.Represent

/-!
# Objects on lists

Often only the list an object is on matters, not its position.  `Placed hp hd cell place` says that
the cell of every object `t` is linked into the list `place t`, or into none.  Each operation on the
lists moves one object.
-/

namespace MultithreadingBible
namespace GlueThread

variable {A ι τ : Type*}

/-- Every object is on the list `place` names. -/
structure Placed (hp : Heap A) (hd : ι → A) (cell : τ → A) (place : τ → Option ι) : Prop where
  cell_inj : Function.Injective cell
  lists : ∃ L, Forest hp hd L (fun a => ∃ t, a = cell t) ∧
    ∀ t i, cell t ∈ L i ↔ place t = some i

namespace Placed

variable {hp : Heap A} {hd : ι → A} {cell : τ → A} {place : τ → Option ι} {t : τ} {i : ι}

/-- Nobody is on a list of a fresh heap. -/
theorem init (hcell : Function.Injective cell) (hhd : Function.Injective hd)
    (hne : ∀ i t, hd i ≠ cell t) :
    Placed (fun _ => Glthread.null) hd cell fun _ => none where
  cell_inj := hcell
  lists := by
    refine ⟨fun _ => [], ⟨fun i => ⟨rfl, trivial⟩, fun _ => List.nodup_nil, ?_, ?_, ?_, hhd, ?_⟩, ?_⟩
    · intro i j _ a ha
      simp at ha
    · intro i a ha
      simp at ha
    · intro i hdom
      obtain ⟨t, ht⟩ := hdom
      exact hne i t ht
    · intro a _ _
      rfl
    · intro t i
      simp

theorem congr {place' : τ → Option ι} (h : Placed hp hd cell place)
    (hplace : ∀ t, place' t = place t) : Placed hp hd cell place' := by
  rw [show place' = place from funext hplace]
  exact h

/-- `IS_GLTHREAD_LIST_EMPTY` of a head. -/
theorem isEmpty_head (h : Placed hp hd cell place) (i : ι) :
    isGlthreadListEmpty hp (hd i) = true ↔ ∀ t, place t ≠ some i := by
  obtain ⟨L, hforest, hmem⟩ := h.lists
  rw [hforest.isEmpty_head i]
  constructor
  · intro hnil t ht
    have hin := (hmem t i).mpr ht
    simp [hnil] at hin
  · intro hno
    rw [List.eq_nil_iff_forall_not_mem]
    intro a ha
    obtain ⟨t, rfl⟩ := hforest.sub i a ha
    exact hno t ((hmem t i).mp ha)

/-- The cell of an object that is on no list is null. -/
theorem null_cell (h : Placed hp hd cell place) (ht : place t = none) :
    hp (cell t) = Glthread.null := by
  obtain ⟨L, hforest, hmem⟩ := h.lists
  refine hforest.unlinked _ ⟨t, rfl⟩ fun j hin => ?_
  rw [hmem, ht] at hin
  cases hin

variable [DecidableEq A] [DecidableEq ι] [DecidableEq τ]

omit [DecidableEq A] in
/-- An object that was on no list is on a list that has grown by its cell. -/
theorem link {hp' : Heap A} {L : ι → List A} {xs : List A} (hcell : Function.Injective cell)
    (hforest : Forest hp' hd (Function.update L i xs) (fun a => ∃ t, a = cell t))
    (hmem : ∀ t i, cell t ∈ L i ↔ place t = some i) (ht : place t = none)
    (hxs : ∀ a, a ∈ xs ↔ a = cell t ∨ a ∈ L i) :
    Placed hp' hd cell (Function.update place t (some i)) where
  cell_inj := hcell
  lists := by
    have hfree : ∀ j, cell t ∉ L j := by
      intro j hin
      rw [hmem, ht] at hin
      cases hin
    refine ⟨_, hforest, fun u j => ?_⟩
    have hcell : cell u = cell t ↔ u = t := hcell.eq_iff
    by_cases hu : u = t
    · subst hu
      rw [Function.update_self]
      by_cases hj : j = i
      · simp [hj, hxs]
      · rw [Function.update_of_ne hj, Option.some_inj]
        exact iff_of_false (hfree j) fun hij => hj hij.symm
    · rw [Function.update_of_ne hu, ← hmem]
      by_cases hj : j = i
      · subst hj
        rw [Function.update_self, hxs, hcell]
        exact or_iff_right hu
      · rw [Function.update_of_ne hj]

/-- `glthread_add_next` puts an object on a list. -/
theorem addNext (h : Placed hp hd cell place) (i : ι) (ht : place t = none) :
    Placed (glthreadAddNext hp (hd i) (cell t)) hd cell (Function.update place t (some i)) := by
  obtain ⟨L, hforest, hmem⟩ := h.lists
  have hfree : ∀ j, cell t ∉ L j := by
    intro j hin
    rw [hmem, ht] at hin
    cases hin
  exact link h.cell_inj (hforest.addFirst ⟨t, rfl⟩ hfree) hmem ht fun a => List.mem_cons

omit [DecidableEq ι] [DecidableEq τ] in
/-- The lists can be walked through in as many steps as there are objects. -/
theorem iterate [Fintype τ] (h : Placed hp hd cell place) (i : ι) :
    ∃ zs, iterateGlthread hp (Fintype.card τ) (base hp (hd i)) = some zs ∧ zs.Nodup ∧
      ∀ t, cell t ∈ zs ↔ place t = some i := by
  obtain ⟨L, hforest, hmem⟩ := h.lists
  have hlen := length_le_card cell (hforest.nodup i) (hforest.sub i)
  exact ⟨L i, hforest.iterate hlen, hforest.nodup i, fun t => hmem t i⟩

/-- `glthread_add_last` puts an object on a list. -/
theorem addLast [Fintype τ] (h : Placed hp hd cell place) (i : ι) (ht : place t = none) :
    ∃ hp', glthreadAddLast (Fintype.card τ) hp (hd i) (cell t) = some hp' ∧
      Placed hp' hd cell (Function.update place t (some i)) := by
  obtain ⟨L, hforest, hmem⟩ := h.lists
  have hfree : ∀ j, cell t ∉ L j := by
    intro j hin
    rw [hmem, ht] at hin
    cases hin
  have hlen := length_le_card cell (hforest.nodup i) (hforest.sub i)
  obtain ⟨hp', hadd, hforest'⟩ := hforest.addLast (x := cell t) ⟨t, rfl⟩ hfree hlen
  refine ⟨hp', hadd, link h.cell_inj hforest' hmem ht fun a => ?_⟩
  rw [List.mem_append, List.mem_singleton]
  exact or_comm

/-- `remove_glthread` takes an object off its list. -/
theorem remove (h : Placed hp hd cell place) (t : τ) :
    Placed (removeGlthread hp (cell t)) hd cell (Function.update place t none) where
  cell_inj := h.cell_inj
  lists := by
    obtain ⟨L, hforest, hmem⟩ := h.lists
    cases hplace : place t with
    | none =>
        -- the cell is null and nothing happens
        have hnull := h.null_cell hplace
        have hkeep : removeGlthread hp (cell t) = hp := by
          unfold removeGlthread
          rw [hnull]
          rfl
        rw [hkeep, ← hplace, Function.update_eq_self]
        exact ⟨L, hforest, hmem⟩
    | some i =>
        have hin := (hmem t i).mpr hplace
        refine ⟨_, hforest.remove hin, fun u j => ?_⟩
        have hcell : cell u = cell t ↔ u = t := h.cell_inj.eq_iff
        by_cases hu : u = t
        · subst hu
          rw [Function.update_self]
          refine iff_of_false ?_ (by simp)
          by_cases hj : j = i
          · rw [hj, Function.update_self, (hforest.nodup i).mem_erase_iff]
            exact fun hne => hne.1 rfl
          · rw [Function.update_of_ne hj, hmem, hplace, Option.some_inj]
            exact fun hij => hj hij.symm
        · rw [Function.update_of_ne hu, ← hmem]
          by_cases hj : j = i
          · subst hj
            rw [Function.update_self, (hforest.nodup j).mem_erase_iff, ne_eq, hcell]
            exact and_iff_right hu
          · rw [Function.update_of_ne hj]

omit [DecidableEq ι] [DecidableEq τ] in
/-- `init_glthread` on the cell of an object that is on no list changes nothing. -/
theorem initGlthread_eq (h : Placed hp hd cell place) (ht : place t = none) :
    initGlthread hp (cell t) = hp := by
  rw [initGlthread, ← h.null_cell ht, Function.update_eq_self]

omit [DecidableEq τ] in
/-- `dequeue_glthread_first` takes an object off a list that is not empty. -/
theorem dequeueFirst (h : Placed hp hd cell place)
    (hsome : isGlthreadListEmpty hp (hd i) = false) :
    ∃ t, place t = some i ∧
      dequeueGlthreadFirst hp (hd i) = (some (cell t), removeGlthread hp (cell t)) := by
  obtain ⟨L, hforest, hmem⟩ := h.lists
  rcases hforest.dequeueFirst i with ⟨hnil, -⟩ | ⟨a, zs, hL, hdeq, -⟩
  · rw [(hforest.isEmpty_head i).mpr hnil] at hsome
    cases hsome
  · have ha : a ∈ L i := by simp [hL]
    obtain ⟨t, rfl⟩ := hforest.sub i a ha
    exact ⟨t, (hmem t i).mp ha, hdeq⟩

end Placed

end GlueThread
end MultithreadingBible
