import Mathlib.Data.Fintype.Card
import Mathlib.Data.List.Nodup
import Mathlib.Tactic.Common
import MultithreadingBible.GlueThread.Basic
import MultithreadingBible.Lib.StableSort

/-!
# What the cells of well-formed lists look like

`Row hp p n zs` says that the cells of `zs` are linked to each other in this order, with `p` to the
left of the first and `n` to the right of the last.  `Forest hp hd L dom` says that the heap holds,
for every index `i`, exactly the list `L i` behind the head `hd i`: the lists are disjoint, have no
repetitions, and every cell of `dom` that is in no list is null.

Insertion (`Forest.addNext`), removal (`Forest.remove`) and ordered insertion
(`Forest.priorityInsert`) act on the lists `L` as their names say and leave the other lists alone.
-/

namespace MultithreadingBible
namespace GlueThread

variable {A : Type*}

/-- The cells of `zs` are linked in order, between `p` and `n`. -/
def Row (hp : Heap A) : Option A → Option A → List A → Prop
  | _, _, [] => True
  | p, n, c :: zs => hp c = ⟨p, zs.head?.or n⟩ ∧ Row hp (some c) n zs

theorem row_append {hp : Heap A} {us vs : List A} :
    ∀ {p n : Option A}, Row hp p n (us ++ vs) ↔
      Row hp p (vs.head?.or n) us ∧ Row hp (us.getLast?.or p) n vs := by
  induction us with
  | nil => simp [Row]
  | cons c us ih =>
      intro p n
      simp only [List.cons_append, Row, ih, and_assoc]
      cases us with
      | nil => simp
      | cons d us =>
          cases hlast : (d :: us).getLast? with
          | none => simp at hlast
          | some e => simp [List.getLast?_cons_cons, hlast]

/-- A row depends on its own cells only. -/
theorem Row.frame {hp hp' : Heap A} {zs : List A} :
    ∀ {p n : Option A}, Row hp p n zs → (∀ a ∈ zs, hp' a = hp a) → Row hp' p n zs := by
  induction zs with
  | nil => intros; trivial
  | cons c zs ih =>
      intro p n h hframe
      exact ⟨(hframe c (by simp)).trans h.1, ih h.2 fun a ha => hframe a (by simp [ha])⟩

/-- A member of a row has a left neighbour unless it is the first. -/
theorem Row.left_ne_none {hp : Heap A} {zs : List A} :
    ∀ {p n : Option A}, Row hp p n zs → p ≠ none → ∀ a ∈ zs, (hp a).left ≠ none := by
  induction zs with
  | nil => simp
  | cons c zs ih =>
      intro p n h hp a ha
      rcases List.mem_cons.mp ha with rfl | ha
      · rw [h.1]; exact hp
      · exact ih h.2 (by simp) a ha

/-- The right neighbour of a member of a row has the member as its left neighbour. -/
theorem Row.right_left {hp : Heap A} {zs : List A} {p : Option A} {x y : A} (h : Row hp p none zs)
    (hx : x ∈ zs) (hright : (hp x).right = some y) : y ∈ zs ∧ (hp y).left = some x := by
  obtain ⟨us, vs, rfl⟩ := List.append_of_mem hx
  obtain ⟨-, hcell, hrest⟩ := row_append.mp h
  rw [hcell, Option.or_none] at hright
  cases vs with
  | nil => cases hright
  | cons z vs =>
      obtain rfl : z = y := Option.some.inj hright
      exact ⟨by simp, by rw [hrest.1]⟩

/-- The left neighbour of a member of a row has the member as its right neighbour. -/
theorem Row.left_right {hp : Heap A} {zs : List A} {n : Option A} {x y : A} (h : Row hp none n zs)
    (hx : x ∈ zs) (hleft : (hp x).left = some y) : y ∈ zs ∧ (hp y).right = some x := by
  obtain ⟨us, vs, rfl⟩ := List.append_of_mem hx
  obtain ⟨hfront, hcell, -⟩ := row_append.mp h
  rw [hcell, Option.or_none] at hleft
  obtain ⟨us, rfl⟩ := List.getLast?_eq_some_iff.mp hleft
  have hy := (row_append.mp hfront).2.1
  exact ⟨by simp, by rw [hy]; rfl⟩

/-- The cell in front of the rest `q` of a list with a head. -/
theorem exists_front (head : A) (p : List A) :
    ∃ us l, ∀ q : List A, head :: (p ++ q) = us ++ l :: q := by
  induction p generalizing head with
  | nil => exact ⟨[], head, fun _ => rfl⟩
  | cons c p ih =>
      obtain ⟨us, l, hus⟩ := ih c
      exact ⟨head :: us, l, fun q => congrArg (head :: ·) (hus q)⟩

/-- What is put behind a cell of a list with a head leaves the head in front. -/
theorem cons_tail_of_split {head : A} {zs p q : List A} {c : A} (h : head :: zs = p ++ c :: q)
    (r : List A) : head :: (p ++ c :: r).tail = p ++ c :: r := by
  cases p with
  | nil =>
      obtain rfl : head = c := (List.cons.inj h).1
      rfl
  | cons d p =>
      obtain rfl : head = d := (List.cons.inj h).1
      rfl

section Writes

variable [DecidableEq A]

section Cells

variable (hp : Heap A) {c x d : A}

/-- The three cells `glthread_add_next` writes. -/
theorem glthreadAddNext_apply (hcx : c ≠ x) (hx : hp x = Glthread.null)
    (hd : ∀ d, (hp c).right = some d → d ≠ c ∧ d ≠ x) (a : A) :
    glthreadAddNext hp c x a =
      if a = c then ⟨(hp c).left, some x⟩
      else if a = x then ⟨some c, (hp c).right⟩
      else if (hp c).right = some a then ⟨some x, (hp a).right⟩
      else hp a := by
  unfold glthreadAddNext
  cases hr : (hp c).right with
  | none =>
      by_cases hac : a = c
      · subst hac; simp [setLeft, setRight, hcx]
      · by_cases hax : a = x
        · subst hax; simp [setLeft, setRight, hac, hx]
        · simp [setLeft, setRight, hac, hax]
  | some d =>
      obtain ⟨hdc, hdx⟩ := hd d hr
      by_cases hac : a = c
      · subst hac; simp [setLeft, setRight, hcx, hdc.symm]
      · by_cases hax : a = x
        · subst hax; simp [setLeft, setRight, hac, hdx.symm]
        · by_cases had : a = d
          · subst had; simp [setLeft, setRight, hac, hax]
          · simp [setLeft, setRight, hac, hax, had, Ne.symm had]

/-- The cells `remove_glthread` writes, for a cell with a left neighbour. -/
theorem removeGlthread_apply {l : A} (hl : (hp x).left = some l) (hlx : l ≠ x)
    (hr : ∀ r, (hp x).right = some r → r ≠ x ∧ r ≠ l) (a : A) :
    removeGlthread hp x a =
      if a = x then Glthread.null
      else if a = l then ⟨(hp l).left, (hp x).right⟩
      else if (hp x).right = some a then ⟨some l, (hp a).right⟩
      else hp a := by
  unfold removeGlthread
  rw [hl]
  cases hrx : (hp x).right with
  | none =>
      by_cases hax : a = x
      · subst hax; simp [setLeft, setRight, hlx.symm, hrx, Glthread.null]
      · by_cases hal : a = l
        · subst hal; simp [setLeft, setRight, hax]
        · simp [setLeft, setRight, hax, hal]
  | some r =>
      obtain ⟨hrx', hrl⟩ := hr r hrx
      by_cases hax : a = x
      · subst hax; simp [setLeft, setRight, Glthread.null]
      · by_cases hal : a = l
        · subst hal; simp [setLeft, setRight, hax, hrl.symm]
        · by_cases har : a = r
          · subst har; simp [setLeft, setRight, hax, hal]
          · simp [setLeft, setRight, hax, hal, har, Ne.symm har]

end Cells

/-- Inserting `x` right after `c`. -/
theorem Row.addNext {hp : Heap A} {us suf : List A} {c x : A} {p : Option A}
    (h : Row hp p none (us ++ c :: suf)) (hnd : (us ++ c :: suf).Nodup)
    (hx : x ∉ us ++ c :: suf) (hnull : hp x = Glthread.null) :
    Row (glthreadAddNext hp c x) p none (us ++ c :: x :: suf) ∧
      ∀ a, a ∉ us ++ c :: x :: suf → glthreadAddNext hp c x a = hp a := by
  obtain ⟨hus, hc, hsuf⟩ := row_append.mp h
  simp only [Option.or_none] at hc hsuf
  have hcx : c ≠ x := by rintro rfl; simp at hx
  have hright : (hp c).right = suf.head? := by rw [hc]
  have hdisj := List.nodup_append.mp hnd
  have hhead : ∀ d, (hp c).right = some d → d ≠ c ∧ d ≠ x := by
    intro d hd
    rw [hright] at hd
    have hmem := List.mem_of_mem_head? hd
    refine ⟨?_, ?_⟩
    · rintro rfl; exact (List.nodup_cons.mp hdisj.2.1).1 hmem
    · rintro rfl; exact hx (by simp [hmem])
  have happ := glthreadAddNext_apply hp hcx hnull hhead
  -- cells of the list other than `c`, `x` and the old successor of `c` are not written
  have hkeep : ∀ a, a ≠ c → a ≠ x → suf.head? ≠ some a → glthreadAddNext hp c x a = hp a := by
    intro a hac hax had
    rw [happ a, if_neg hac, if_neg hax, hright, if_neg had]
  constructor
  · refine row_append.mpr ⟨?_, ?_⟩
    · refine (show Row hp p _ us by simpa using hus).frame fun a ha => ?_
      refine hkeep a ?_ ?_ ?_
      · rintro rfl; exact hdisj.2.2 _ ha _ (by simp) rfl
      · rintro rfl; exact hx (by simp [ha])
      · intro hd
        exact hdisj.2.2 _ ha _ (List.mem_cons_of_mem _ (List.mem_of_mem_head? hd)) rfl
    · refine ⟨?_, ?_, ?_⟩
      · rw [happ c, if_pos rfl, hc]; simp
      · rw [happ x, if_neg hcx.symm, if_pos rfl, hright]; simp
      · cases suf with
        | nil => trivial
        | cons d tl =>
            have hd := hhead d (by simp [hright])
            have hnd' := List.nodup_cons.mp (List.nodup_cons.mp hdisj.2.1).2
            refine ⟨?_, ?_⟩
            · rw [happ d, if_neg hd.1, if_neg hd.2, if_pos (by simp [hright]), hsuf.1]
            · refine hsuf.2.frame fun a ha => hkeep a ?_ ?_ ?_
              · rintro rfl; exact (List.nodup_cons.mp hdisj.2.1).1 (by simp [ha])
              · rintro rfl; exact hx (by simp [ha])
              · simp only [List.head?_cons, ne_eq, Option.some.injEq]
                rintro rfl; exact hnd'.1 ha
  · intro a ha
    refine hkeep a ?_ ?_ ?_
    · rintro rfl; simp at ha
    · rintro rfl; simp at ha
    · intro hd; exact ha (by simp [List.mem_of_mem_head? hd])

/-- Removing `x`, which follows `l`. -/
theorem Row.remove {hp : Heap A} {us suf : List A} {l x : A} {p : Option A}
    (h : Row hp p none (us ++ l :: x :: suf)) (hnd : (us ++ l :: x :: suf).Nodup) :
    Row (removeGlthread hp x) p none (us ++ l :: suf) ∧
      removeGlthread hp x x = Glthread.null ∧
      ∀ a, a ∉ us ++ l :: x :: suf → removeGlthread hp x a = hp a := by
  obtain ⟨hus, hl, hx, hsuf⟩ := row_append.mp h
  simp only [Option.or_none] at hl hx hsuf
  have hdisj := List.nodup_append.mp hnd
  have hndl := List.nodup_cons.mp hdisj.2.1
  have hndx := List.nodup_cons.mp hndl.2
  have hlx : l ≠ x := by rintro rfl; exact hndl.1 (by simp)
  have hright : (hp x).right = suf.head? := by rw [hx]
  have hleft : (hp x).left = some l := by rw [hx]
  have hhead : ∀ r, (hp x).right = some r → r ≠ x ∧ r ≠ l := by
    intro r hr
    rw [hright] at hr
    have hmem := List.mem_of_mem_head? hr
    refine ⟨?_, ?_⟩
    · rintro rfl; exact hndx.1 hmem
    · rintro rfl; exact hndl.1 (by simp [hmem])
  have happ := removeGlthread_apply hp hleft hlx hhead
  have hkeep : ∀ a, a ≠ x → a ≠ l → suf.head? ≠ some a → removeGlthread hp x a = hp a := by
    intro a hax hal har
    rw [happ a, if_neg hax, if_neg hal, hright, if_neg har]
  refine ⟨row_append.mpr ⟨?_, ?_, ?_⟩, ?_, ?_⟩
  · refine (show Row hp p _ us by simpa using hus).frame fun a ha => hkeep a ?_ ?_ ?_
    · rintro rfl; exact hdisj.2.2 _ ha _ (by simp) rfl
    · rintro rfl; exact hdisj.2.2 _ ha _ (by simp) rfl
    · intro hd
      exact hdisj.2.2 _ ha _ (by simp [List.mem_of_mem_head? hd]) rfl
  · rw [happ l, if_neg hlx, if_pos rfl, hl, hright]; simp
  · cases suf with
    | nil => trivial
    | cons d tl =>
        have hd := hhead d (by simp [hright])
        have hndd := List.nodup_cons.mp hndx.2
        refine ⟨?_, ?_⟩
        · rw [happ d, if_neg hd.1, if_neg hd.2, if_pos (by simp [hright]), hsuf.1]
        · refine hsuf.2.frame fun a ha => hkeep a ?_ ?_ ?_
          · rintro rfl; exact hndx.1 (by simp [ha])
          · rintro rfl; exact hndl.1 (by simp [ha])
          · simp only [List.head?_cons, ne_eq, Option.some.injEq]
            rintro rfl; exact hndd.1 ha
  · rw [happ x, if_pos rfl]
  · intro a ha
    refine hkeep a ?_ ?_ ?_
    · rintro rfl; simp at ha
    · rintro rfl; simp at ha
    · intro hd; exact ha (by simp [List.mem_of_mem_head? hd])

/-- Removing `x` from a list without a head cell. -/
theorem Row.removeAt {hp : Heap A} {us suf : List A} {x : A}
    (h : Row hp none none (us ++ x :: suf)) (hnd : (us ++ x :: suf).Nodup) :
    Row (removeGlthread hp x) none none (us ++ suf) := by
  rcases List.eq_nil_or_concat us with rfl | ⟨us, l, rfl⟩
  · -- `x` is the first member: its successor becomes the first
    have hx : hp x = ⟨none, suf.head?⟩ := by simpa using h.1
    cases suf with
    | nil => trivial
    | cons d tl =>
        have hd : hp d = ⟨some x, tl.head?⟩ := by simpa using h.2.1
        have hnd' := List.nodup_cons.mp (List.nodup_cons.mp hnd).2
        have hdx : d ≠ x := by
          intro heq
          exact (List.nodup_cons.mp hnd).1 (by simp [heq])
        have hrem : removeGlthread hp x = setRight (setLeft hp d none) x none := by
          simp [removeGlthread, hx]
        refine ⟨?_, (h.2.2).frame fun a ha => ?_⟩
        · simp [hrem, setRight, setLeft, hdx, hd]
        · have had : a ≠ d := by
            intro heq
            exact hnd'.1 (heq ▸ ha)
          have hax : a ≠ x := by
            intro heq
            exact (List.nodup_cons.mp hnd).1 (by simp [← heq, ha])
          simp [hrem, setRight, setLeft, had, hax]
  · have hmid : us.concat l ++ x :: suf = us ++ l :: x :: suf := by simp
    rw [hmid] at h hnd
    simpa using (h.remove hnd).1

end Writes

/-- The heap holds exactly the lists `L` behind the heads `hd`; the cells of `dom` that are in no
list are null. -/
structure Forest {ι : Type*} (hp : Heap A) (hd : ι → A) (L : ι → List A) (dom : A → Prop) :
    Prop where
  row : ∀ i, Row hp none none (hd i :: L i)
  nodup : ∀ i, (L i).Nodup
  disjoint : ∀ i j, i ≠ j → ∀ a ∈ L i, a ∉ L j
  sub : ∀ i, ∀ a ∈ L i, dom a
  head : ∀ i, ¬ dom (hd i)
  inj : Function.Injective hd
  unlinked : ∀ a, dom a → (∀ i, a ∉ L i) → hp a = Glthread.null

namespace Forest

variable {ι : Type*} {hp : Heap A} {hd : ι → A} {L : ι → List A} {dom : A → Prop}

theorem nodup_cons (h : Forest hp hd L dom) (i : ι) : (hd i :: L i).Nodup :=
  List.nodup_cons.mpr ⟨fun hmem => h.head i (h.sub i _ hmem), h.nodup i⟩

/-- A cell of one list, or its head, is not in another list. -/
theorem not_mem_other (h : Forest hp hd L dom) {i j : ι} (hij : i ≠ j) {a : A}
    (ha : a ∈ hd i :: L i) : a ∉ hd j :: L j := by
  rcases List.mem_cons.mp ha with rfl | ha
  · intro hmem
    rcases List.mem_cons.mp hmem with hmem | hmem
    · exact hij (h.inj hmem)
    · exact h.head i (h.sub j _ hmem)
  · intro hmem
    rcases List.mem_cons.mp hmem with rfl | hmem
    · exact h.head j (h.sub i _ ha)
    · exact h.disjoint i j hij a ha hmem

/-- `BASE` of a head is the first member. -/
theorem base_head (h : Forest hp hd L dom) (i : ι) : base hp (hd i) = (L i).head? := by
  have hrow := (h.row i).1
  simp [base, hrow]

/-- `IS_GLTHREAD_LIST_EMPTY` of a head. -/
theorem isEmpty_head (h : Forest hp hd L dom) (i : ι) :
    isGlthreadListEmpty hp (hd i) = true ↔ L i = [] := by
  have hrow := (h.row i).1
  simp [isGlthreadListEmpty, hrow]

/-- `IS_GLTHREAD_LIST_EMPTY` of a cell says that it is in no list. -/
theorem isEmpty_cell (h : Forest hp hd L dom) {a : A} (ha : dom a) :
    isGlthreadListEmpty hp a = true ↔ ∀ i, a ∉ L i := by
  constructor
  · intro hempty i hmem
    have hleft := Row.left_ne_none (h.row i).2 (by simp) a hmem
    simp [isGlthreadListEmpty, hleft] at hempty
  · intro hfree
    simp [isGlthreadListEmpty, h.unlinked a ha hfree, Glthread.null]

/-- A cell of `dom` or a head is part of a list, or null. -/
theorem mem_or_null (h : Forest hp hd L dom) {x : A} (hx : (∃ i, hd i = x) ∨ dom x) :
    (∃ i, x ∈ hd i :: L i) ∨ hp x = Glthread.null := by
  rcases hx with ⟨i, rfl⟩ | hx
  · exact .inl ⟨i, List.mem_cons_self⟩
  · by_cases hlinked : ∃ i, x ∈ L i
    · obtain ⟨i, hi⟩ := hlinked
      exact .inl ⟨i, List.mem_cons_of_mem _ hi⟩
    · exact .inr (h.unlinked x hx fun i hi => hlinked ⟨i, hi⟩)

/-- Right pointers lead to cells whose left pointers lead back. -/
theorem right_left (h : Forest hp hd L dom) {x y : A} (hx : (∃ i, hd i = x) ∨ dom x)
    (hright : (hp x).right = some y) : (∃ i, y ∈ hd i :: L i) ∧ (hp y).left = some x := by
  rcases h.mem_or_null hx with ⟨i, hi⟩ | hnull
  · obtain ⟨hy, hleft⟩ := (h.row i).right_left hi hright
    exact ⟨⟨i, hy⟩, hleft⟩
  · rw [hnull] at hright
    cases hright

/-- Left pointers lead to cells whose right pointers lead back. -/
theorem left_right (h : Forest hp hd L dom) {x y : A} (hx : (∃ i, hd i = x) ∨ dom x)
    (hleft : (hp x).left = some y) : (∃ i, y ∈ hd i :: L i) ∧ (hp y).right = some x := by
  rcases h.mem_or_null hx with ⟨i, hi⟩ | hnull
  · obtain ⟨hy, hright⟩ := (h.row i).left_right hi hleft
    exact ⟨⟨i, hy⟩, hright⟩
  · rw [hnull] at hleft
    cases hleft

/-- The forest depends on its heads and cells only, and may take in null cells. -/
theorem extend (h : Forest hp hd L dom) (hp' : Heap A) (dom' : A → Prop)
    (hhead : ∀ i, hp' (hd i) = hp (hd i)) (hcell : ∀ a, dom a → hp' a = hp a)
    (hsub : ∀ a, dom a → dom' a) (hnot : ∀ i, ¬ dom' (hd i))
    (hnew : ∀ a, dom' a → ¬ dom a → hp' a = Glthread.null) : Forest hp' hd L dom' where
  row i := (h.row i).frame fun a ha => by
    rcases List.mem_cons.mp ha with rfl | ha
    · exact hhead i
    · exact hcell a (h.sub i a ha)
  nodup := h.nodup
  disjoint := h.disjoint
  sub i a ha := hsub a (h.sub i a ha)
  head := hnot
  inj := h.inj
  unlinked a ha hno := by
    by_cases hold : dom a
    · rw [hcell a hold]; exact h.unlinked a hold hno
    · exact hnew a ha hold

/-- Cells that are in no list may be given up. -/
theorem restrict (h : Forest hp hd L dom) {dom' : A → Prop} (hsub : ∀ a, dom' a → dom a)
    (hkeep : ∀ i, ∀ a ∈ L i, dom' a) : Forest hp hd L dom' where
  row := h.row
  nodup := h.nodup
  disjoint := h.disjoint
  sub := hkeep
  head i hi := h.head i (hsub _ hi)
  inj := h.inj
  unlinked a ha hno := h.unlinked a (hsub a ha) hno

/-- The right neighbour of a member. -/
theorem right_of_split (h : Forest hp hd L dom) {i : ι} {p q : List A} {c : A}
    (hL : L i = p ++ c :: q) : (hp c).right = q.head? := by
  have hrow := h.row i
  rw [hL, ← List.cons_append, row_append] at hrow
  simp [hrow.2.1]

/-- An iteration over a list visits its members in order. -/
theorem iterate (h : Forest hp hd L dom) {i : ι} {fuel : Nat} (hfuel : (L i).length ≤ fuel) :
    iterateGlthread hp fuel (base hp (hd i)) = some (L i) := by
  have hsuffix : ∀ (q p : List A) (k : Nat), L i = p ++ q → q.length ≤ k →
      iterateGlthread hp k q.head? = some q := by
    intro q
    induction q with
    | nil =>
        intro p k _ _
        cases k <;> rfl
    | cons c cs ih =>
        intro p k hL hk
        obtain ⟨k, rfl⟩ : ∃ f, k = f + 1 := ⟨k - 1, by simp at hk; omega⟩
        have hrest := ih (p ++ [c]) k (by simp [hL]) (by simpa using hk)
        show (iterateGlthread hp k (hp c).right).map (c :: ·) = some (c :: cs)
        rw [h.right_of_split hL, hrest]
        rfl
  rw [h.base_head]
  exact hsuffix (L i) [] fuel rfl hfuel

variable [DecidableEq A] [DecidableEq ι]

/-- The list of one head is replaced: only its cells are written, and those it gives up are null. -/
theorem change (h : Forest hp hd L dom) {i : ι} {hp' : Heap A} {zs : List A}
    (hrow : Row hp' none none (hd i :: zs)) (hnodup : zs.Nodup) (hdom : ∀ a ∈ zs, dom a)
    (hother : ∀ j, j ≠ i → ∀ a ∈ zs, a ∉ L j)
    (hframe : ∀ a, a ∉ hd i :: L i → a ∉ zs → hp' a = hp a)
    (hgone : ∀ a ∈ L i, a ∉ zs → hp' a = Glthread.null) :
    Forest hp' hd (Function.update L i zs) dom where
  row j := by
    by_cases hj : j = i
    · subst hj
      rw [Function.update_self]
      exact hrow
    · rw [Function.update_of_ne hj]
      -- no cell of another list is written
      refine (h.row j).frame fun a ha => hframe a (h.not_mem_other hj ha) fun hmem => ?_
      rcases List.mem_cons.mp ha with rfl | ha
      · exact h.head j (hdom _ hmem)
      · exact hother j hj a hmem ha
  nodup j := by
    by_cases hj : j = i
    · subst hj
      rw [Function.update_self]
      exact hnodup
    · rw [Function.update_of_ne hj]
      exact h.nodup j
  disjoint j k hjk a ha := by
    by_cases hj : j = i
    · subst hj
      rw [Function.update_self] at ha
      rw [Function.update_of_ne hjk.symm]
      exact hother k hjk.symm a ha
    · rw [Function.update_of_ne hj] at ha
      by_cases hk : k = i
      · subst hk
        rw [Function.update_self]
        exact fun hmem => hother j hj a hmem ha
      · rw [Function.update_of_ne hk]
        exact h.disjoint j k hjk a ha
  sub j a ha := by
    by_cases hj : j = i
    · subst hj
      rw [Function.update_self] at ha
      exact hdom a ha
    · rw [Function.update_of_ne hj] at ha
      exact h.sub j a ha
  head := h.head
  inj := h.inj
  unlinked a ha hno := by
    have hzs : a ∉ zs := by
      have hi := hno i
      rwa [Function.update_self] at hi
    -- a cell on no list was given up just now, or was on no list before
    by_cases hold : a ∈ L i
    · exact hgone a hold hzs
    · have hhead : a ≠ hd i := by
        rintro rfl
        exact h.head i ha
      rw [hframe a (by simp [hhead, hold]) hzs]
      refine h.unlinked a ha fun j => ?_
      by_cases hj : j = i
      · subst hj
        exact hold
      · have hj' := hno j
        rwa [Function.update_of_ne hj] at hj'

/-- Link `x` in after `c`. -/
theorem addNext (h : Forest hp hd L dom) {i : ι} {p q : List A} {c x : A}
    (hL : hd i :: L i = p ++ c :: q) (hx : dom x) (hfree : ∀ j, x ∉ L j) :
    Forest (glthreadAddNext hp c x) hd (Function.update L i (p ++ c :: x :: q).tail) dom := by
  have hxi : x ∉ hd i :: L i := by
    rw [List.mem_cons]
    rintro (rfl | hmem)
    · exact h.head i hx
    · exact hfree i hmem
  have hnd := h.nodup_cons i
  have hrow := h.row i
  have hcons := cons_tail_of_split hL (x :: q)
  have hperm : (hd i :: (p ++ c :: x :: q).tail).Perm (x :: hd i :: L i) := by
    rw [hcons, hL, List.append_cons p c (x :: q), List.append_cons p c q]
    exact List.perm_middle
  have hndnew := hperm.nodup_iff.mpr (List.nodup_cons.mpr ⟨hxi, hnd⟩)
  have hmem : ∀ a ∈ (p ++ c :: x :: q).tail, a = x ∨ a ∈ L i := by
    intro a ha
    have hne : a ≠ hd i := ne_of_mem_of_not_mem ha (List.nodup_cons.mp hndnew).1
    have hold := hperm.mem_iff.mp (List.mem_cons_of_mem _ ha)
    simpa [hne] using hold
  rw [hL] at hxi hnd hrow
  obtain ⟨hnew, hframe⟩ := hrow.addNext hnd hxi (h.unlinked x hx hfree)
  refine h.change (hcons ▸ hnew) (List.nodup_cons.mp hndnew).2 (fun a ha => ?_) (fun j hj a ha => ?_)
    (fun a ha hno => hframe a ?_) (fun a ha hno => ?_)
  · rcases hmem a ha with rfl | ha
    · exact hx
    · exact h.sub i a ha
  · rcases hmem a ha with rfl | ha
    · exact hfree j
    · exact h.disjoint i j hj.symm a ha
  · rw [← hcons, List.mem_cons]
    rintro (rfl | hmem')
    · exact ha List.mem_cons_self
    · exact hno hmem'
  · -- no member is given up
    have hall := hperm.mem_iff.mpr (List.mem_cons_of_mem x (List.mem_cons_of_mem _ ha))
    rcases List.mem_cons.mp hall with rfl | hall
    · exact (h.head i (h.sub i _ ha)).elim
    · exact (hno hall).elim

/-- `glthread_add_next` on a head inserts at the front. -/
theorem addFirst (h : Forest hp hd L dom) {i : ι} {x : A} (hx : dom x) (hfree : ∀ j, x ∉ L j) :
    Forest (glthreadAddNext hp (hd i) x) hd (Function.update L i (x :: L i)) dom := by
  simpa using h.addNext (p := []) (q := L i) rfl hx hfree

/-- `glthread_add_before` links `x` in before a member `c`: behind the cell in front of it. -/
theorem addBefore (h : Forest hp hd L dom) {i : ι} {p q : List A} {c x : A}
    (hL : L i = p ++ c :: q) (hx : dom x) (hfree : ∀ j, x ∉ L j) :
    Forest (glthreadAddBefore hp c x) hd (Function.update L i (p ++ x :: c :: q)) dom := by
  obtain ⟨us, l, hus⟩ := exists_front (hd i) p
  have hsplit : hd i :: L i = us ++ l :: c :: q := by rw [hL, hus]
  have hrow := h.row i
  rw [hsplit] at hrow
  obtain ⟨-, hl, hc, -⟩ := row_append.mp hrow
  have heq : glthreadAddBefore hp c x = glthreadAddNext hp l x := by
    simp [glthreadAddBefore, glthreadAddNext, hl, hc]
  have hnext := h.addNext hsplit hx hfree
  rw [← heq, ← hus] at hnext
  exact hnext

/-- `remove_glthread` takes a member out of its list. -/
theorem remove (h : Forest hp hd L dom) {i : ι} {x : A} (hx : x ∈ L i) :
    Forest (removeGlthread hp x) hd (Function.update L i ((L i).erase x)) dom := by
  obtain ⟨pre, suf, hL⟩ := List.append_of_mem hx
  have hndL := h.nodup i
  rw [hL] at hndL
  have hxpre : x ∉ pre := fun hin => (List.nodup_append.mp hndL).2.2 x hin x (by simp) rfl
  have herase : (L i).erase x = pre ++ suf := by
    rw [hL, List.erase_append_right _ hxpre, List.erase_cons_head]
  -- the cell in front of `x`, possibly the head
  obtain ⟨us, l, hus⟩ := exists_front (hd i) pre
  have hsplit : hd i :: L i = us ++ l :: x :: suf := by rw [hL, hus]
  have hsplit' : hd i :: (pre ++ suf) = us ++ l :: suf := hus suf
  have hnd := h.nodup_cons i
  have hrow := h.row i
  rw [hsplit] at hnd hrow
  obtain ⟨hnew, hxnull, hframe⟩ := hrow.remove hnd
  have hmem : ∀ a, a ∈ pre ++ suf ↔ a ≠ x ∧ a ∈ L i := by
    intro a
    rw [← herase, List.Nodup.mem_erase_iff (h.nodup i)]
  rw [herase]
  refine h.change (hsplit' ▸ hnew) (herase ▸ (h.nodup i).erase x) (fun a ha => ?_) (fun j hj a ha => ?_)
    (fun a ha _ => hframe a (hsplit ▸ ha)) (fun a ha hno => ?_)
  · exact h.sub i a ((hmem a).mp ha).2
  · exact h.disjoint i j hj.symm a ((hmem a).mp ha).2
  · -- only `x` is given up
    obtain rfl : a = x := by
      by_contra hne
      exact hno ((hmem a).mpr ⟨hne, ha⟩)
    exact hxnull

/-- `dequeue_glthread_first` on a list head. -/
theorem dequeueFirst (h : Forest hp hd L dom) (i : ι) :
    (L i = [] ∧ dequeueGlthreadFirst hp (hd i) = (none, hp)) ∨
      ∃ a zs, L i = a :: zs ∧ dequeueGlthreadFirst hp (hd i) = (some a, removeGlthread hp a) ∧
        Forest (removeGlthread hp a) hd (Function.update L i zs) dom := by
  have hbase : (hp (hd i)).right = (L i).head? := h.base_head i
  cases hL : L i with
  | nil => exact .inl ⟨rfl, by simp [dequeueGlthreadFirst, hbase, hL]⟩
  | cons a zs =>
      have hmem : a ∈ L i := by simp [hL]
      have hremove := h.remove hmem
      rw [hL, List.erase_cons_head] at hremove
      exact .inr ⟨a, zs, rfl, by simp [dequeueGlthreadFirst, hbase, hL], hremove⟩

/-- The loop of `delete_glthread_list` removes the first member again and again. -/
theorem deleteListLoop_eq (h : Forest hp hd L dom) {i : ι} {zs : List A} {fuel : Nat}
    (hL : L i = zs) (hfuel : zs.length ≤ fuel) :
    ∃ hp', deleteListLoop hp fuel zs.head? = some hp' ∧
      Forest hp' hd (Function.update L i []) dom := by
  induction zs generalizing hp L fuel with
  | nil =>
      refine ⟨hp, by cases fuel <;> rfl, ?_⟩
      rw [← hL, Function.update_eq_self]
      exact h
  | cons c zs ih =>
      obtain ⟨fuel, rfl⟩ : ∃ f, fuel = f + 1 := ⟨fuel - 1, by simp at hfuel; omega⟩
      have hremove := h.remove (i := i) (x := c) (by simp [hL])
      rw [hL, List.erase_cons_head] at hremove
      obtain ⟨hp', hloop, h'⟩ := ih hremove (Function.update_self ..) (by simpa using hfuel)
      refine ⟨hp', ?_, ?_⟩
      · show deleteListLoop (removeGlthread hp c) fuel (hp c).right = some hp'
        rw [h.right_of_split (p := []) hL, hloop]
      · rw [Function.update_idem] at h'
        exact h'

/-- `delete_glthread_list` empties a list. -/
theorem deleteList (h : Forest hp hd L dom) {i : ι} {fuel : Nat} (hfuel : (L i).length ≤ fuel) :
    ∃ hp', deleteGlthreadList fuel hp (hd i) = some hp' ∧
      Forest hp' hd (Function.update L i []) dom := by
  rw [deleteGlthreadList, h.base_head]
  exact h.deleteListLoop_eq rfl hfuel

/-- `glthread_add_last` appends to a list. -/
theorem addLast (h : Forest hp hd L dom) {i : ι} {x : A} {fuel : Nat} (hx : dom x)
    (hfree : ∀ j, x ∉ L j) (hfuel : (L i).length ≤ fuel) :
    ∃ hp', glthreadAddLast fuel hp (hd i) x = some hp' ∧
      Forest hp' hd (Function.update L i (L i ++ [x])) dom := by
  refine ⟨_, by rw [glthreadAddLast, h.iterate hfuel]; rfl, ?_⟩
  rcases List.eq_nil_or_concat (L i) with hnil | ⟨p, c, hL⟩
  · have hfirst := h.addFirst (i := i) hx hfree
    rw [hnil] at hfirst ⊢
    exact hfirst
  · have hlast := h.addNext (i := i) (p := hd i :: p) (q := []) (c := c) (by rw [hL]; simp) hx hfree
    rw [hL]
    simpa using hlast

end Forest

/-- Where `glthread_priority_insert` puts a new member: right before the first one it compares
`-1` with, at the end when there is none. -/
def insertBefore (compFn : A → A → Int) (x : A) : List A → List A
  | [] => [x]
  | c :: cs => if compFn x c ≠ -1 then c :: insertBefore compFn x cs else x :: c :: cs

theorem insertBefore_eq (compFn : A → A → Int) (x : A) (ys : List A) :
    insertBefore compFn x ys = Lib.insertBeforeFirst (fun y => compFn x y = -1) x ys := by
  induction ys with
  | nil => rfl
  | cons y ys ih =>
      rw [insertBefore, Lib.insertBeforeFirst, ih]
      by_cases hy : compFn x y = -1
      · rw [if_neg (not_not.mpr hy), if_pos hy]
      · rw [if_pos hy, if_neg hy]

theorem perm_insertBefore (compFn : A → A → Int) (x : A) (xs : List A) :
    (insertBefore compFn x xs).Perm (x :: xs) := by
  rw [insertBefore_eq]
  exact Lib.perm_insertBeforeFirst _ x xs

namespace Forest

variable {ι : Type*} {hp : Heap A} {hd : ι → A} {L : ι → List A} {dom : A → Prop} [DecidableEq A]

/-- The loop of `glthread_priority_insert` from any position `p | q` of a list: it ends by
inserting `x` at some position `u | v`, the one `insertBefore` selects. -/
theorem priorityInsertLoop_eq (h : Forest hp hd L dom) {f : A → A → Int} {i : ι} {x : A} :
    ∀ {q p : List A} {k : Nat}, L i = p ++ q → L i ≠ [] → q.length ≤ k →
      ∃ u v, L i = u ++ v ∧ u ++ x :: v = p ++ insertBefore f x q ∧
        priorityInsertLoop f hp (hd i) x k p.getLast? q.head? =
          some (glthreadAddNext hp (u.getLast?.getD (hd i)) x) := by
  intro q
  induction q with
  | nil =>
      intro p k hL hne _
      refine ⟨p, [], hL, rfl, ?_⟩
      cases hlast : p.getLast? with
      | none =>
          rw [List.getLast?_eq_none_iff] at hlast
          exact absurd (by simpa [hlast] using hL) hne
      | some d => cases k <;> simp [priorityInsertLoop]
  | cons c cs ih =>
      intro p k hL hne hfuel
      obtain ⟨k, rfl⟩ : ∃ f, k = f + 1 := ⟨k - 1, by simp at hfuel; omega⟩
      by_cases hcmp : f x c ≠ -1
      · -- `x` goes behind `c`: the loop moves on
        obtain ⟨u, v, hL', hpos, hloop⟩ :=
          ih (p := p ++ [c]) (k := k) (by simp [hL]) hne (by simpa using hfuel)
        refine ⟨u, v, hL', ?_, ?_⟩
        · rw [hpos]; simp [insertBefore, hcmp]
        · rw [← hloop]
          simp [priorityInsertLoop, hcmp, h.right_of_split hL]
      · exact ⟨p, c :: cs, hL, by simp [insertBefore, hcmp], by simp [priorityInsertLoop, hcmp]⟩

variable [DecidableEq ι]

/-- `glthread_priority_insert` on a list head, with fuel for the length of the list. -/
theorem priorityInsert (h : Forest hp hd L dom) {compFn : A → A → Int} {i : ι} {x : A} {fuel : Nat}
    (hx : dom x) (hfree : ∀ j, x ∉ L j) (hfuel : (L i).length ≤ fuel) :
    ∃ hp', glthreadPriorityInsert fuel compFn hp (hd i) x = some hp' ∧
      Forest hp' hd (Function.update L i (insertBefore compFn x (L i))) dom := by
  have hinit : initGlthread hp x = hp := by
    rw [initGlthread, ← h.unlinked x hx hfree, Function.update_eq_self]
  have hbase : (hp (hd i)).right = (L i).head? := h.base_head i
  -- every way through the function inserts after the last cell of `hd i :: u`
  have hins : ∀ {u v : List A}, L i = u ++ v →
      Forest (glthreadAddNext hp (u.getLast?.getD (hd i)) x) hd
        (Function.update L i (u ++ x :: v)) dom := by
    intro u v hL
    rcases List.eq_nil_or_concat u with rfl | ⟨us, c, rfl⟩
    · simpa [hL] using h.addFirst (i := i) hx hfree
    · have := h.addNext (i := i) (p := hd i :: us) (c := c) (q := v) (by simp [hL]) hx hfree
      simpa using this
  unfold glthreadPriorityInsert
  simp only [hinit, hbase]
  cases hL : L i with
  | nil =>
      refine ⟨_, if_pos ((h.isEmpty_head i).mpr hL), ?_⟩
      simpa [insertBefore, hL] using hins (u := []) (v := []) (by simp [hL])
  | cons c cs =>
      have hright : (hp c).right = cs.head? := h.right_of_split (i := i) (p := []) (by simp [hL])
      simp only [List.head?_cons, hright]
      cases cs with
      | nil =>
          simp only [List.head?_nil, Option.isNone_none, if_true]
          split
          case isTrue hcmp =>
            refine ⟨_, rfl, ?_⟩
            simpa [insertBefore, hL, hcmp] using hins (u := []) (v := [c]) (by simp [hL])
          case isFalse hcmp =>
            refine ⟨_, rfl, ?_⟩
            simpa [insertBefore, hL, hcmp] using hins (u := [c]) (v := []) (by simp [hL])
      | cons d ds =>
          simp only [List.head?_cons, Option.isNone_some, Bool.false_eq_true, if_false]
          obtain ⟨u, v, hL', hpos, hloop⟩ := h.priorityInsertLoop_eq (f := compFn)
            (i := i) (x := x) (p := []) (q := L i) (k := fuel) rfl (by simp [hL]) hfuel
          rw [hL] at hloop hpos
          refine ⟨_, by simpa using hloop, ?_⟩
          have := hins hL'
          rwa [hpos] at this

end Forest

/-- A list of different cells of threads is no longer than there are threads. -/
theorem length_le_card {A τ : Type*} [DecidableEq A] [Fintype τ] {zs : List A} (f : τ → A)
    (hnd : zs.Nodup) (hsub : ∀ a ∈ zs, ∃ t, a = f t) : zs.length ≤ Fintype.card τ := by
  rw [← List.toFinset_card_of_nodup hnd]
  calc zs.toFinset.card ≤ (Finset.univ.image f).card := by
        apply Finset.card_le_card
        intro a ha
        obtain ⟨t, rfl⟩ := hsub a (List.mem_toFinset.mp ha)
        exact Finset.mem_image_of_mem f (Finset.mem_univ t)
    _ ≤ Fintype.card τ := Finset.card_image_le

end GlueThread
end MultithreadingBible
