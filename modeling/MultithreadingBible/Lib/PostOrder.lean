import Mathlib.Data.Fintype.Card
import Mathlib.Data.List.Nodup
import Mathlib.Logic.Relation
import Mathlib.Order.RelClasses
import Mathlib.Tactic.Tauto

/-!
# Depth-first traversals in post-order

A graph is given by the list of children of every node.  A traversal without visited marks walks down to
every child, as often as it meets it, and visits a node after its children.

* `PostOrder` — the order in which a traversal visits the nodes below a list of roots.
* `PostOrder.mem_iff`, `PostOrder.children_first` — what it visits, and when.
* `PostOrder.nodup_iff` — it visits nobody twice exactly where there is one way only to every node.
-/

namespace MultithreadingBible
namespace Lib

variable {σ : Type*}

/-- `L` is the order in which the nodes below `roots` are visited. -/
inductive PostOrder (children : σ → List σ) : List σ → List σ → Prop
  | nil : PostOrder children [] []
  | cons {S : σ} {roots below rest : List σ} (hbelow : PostOrder children (children S) below)
      (hrest : PostOrder children roots rest) : PostOrder children (S :: roots) (below ++ S :: rest)

/-- `c` is a child of `p`. -/
def IsChild (children : σ → List σ) (p c : σ) : Prop := c ∈ children p

/-- `T` is below one of the roots. -/
def Below (children : σ → List σ) (roots : List σ) (T : σ) : Prop :=
  ∃ S ∈ roots, Relation.ReflTransGen (IsChild children) S T

/-- There is one way only from the roots to a node: no node has two parents, or one parent twice,
and a root has no parent. -/
structure OneWay (children : σ → List σ) (roots : List σ) : Prop where
  roots_nodup : roots.Nodup
  root : ∀ p, Below children roots p → ∀ c ∈ children p, c ∉ roots
  nodup : ∀ p, Below children roots p → (children p).Nodup
  parent : ∀ p q, Below children roots p → Below children roots q →
    ∀ c, c ∈ children p → c ∈ children q → p = q

section Below

variable {children : σ → List σ} {S T c : σ} {roots : List σ}

theorem Below.of_mem (h : S ∈ roots) : Below children roots S := ⟨S, h, .refl⟩

/-- A child of a node below the roots is below them. -/
theorem Below.child (h : Below children roots T) (hc : c ∈ children T) : Below children roots c := by
  obtain ⟨S, hS, hpath⟩ := h
  exact ⟨S, hS, hpath.tail hc⟩

theorem below_cons :
    Below children (S :: roots) T ↔
      Relation.ReflTransGen (IsChild children) S T ∨ Below children roots T := by
  simp [Below]

/-- A node is itself or below its children. -/
theorem reaches_iff :
    Relation.ReflTransGen (IsChild children) S T ↔ T = S ∨ Below children (children S) T := by
  rw [Relation.ReflTransGen.cases_head_iff]
  constructor
  · rintro (heq | ⟨c, hc, hpath⟩)
    · exact .inl heq.symm
    · exact .inr ⟨c, hc, hpath⟩
  · rintro (heq | ⟨c, hc, hpath⟩)
    · exact .inl heq.symm
    · exact .inr ⟨c, hc, hpath⟩

/-- A node below the roots is a root or the child of a node below them. -/
theorem Below.eq_or_child (h : Below children roots T) :
    T ∈ roots ∨ ∃ p, Below children roots p ∧ T ∈ children p := by
  obtain ⟨S, hS, hpath⟩ := h
  cases hpath with
  | refl => exact .inl hS
  | tail hpath hT => exact .inr ⟨_, ⟨S, hS, hpath⟩, hT⟩

/-- What is below the children of a root is below the roots. -/
theorem Below.of_children (h : Below children (children S) T) (hS : S ∈ roots) :
    Below children roots T := ⟨S, hS, reaches_iff.mpr (.inr h)⟩

theorem Below.cons (h : Below children roots T) : Below children (S :: roots) T :=
  below_cons.mpr (.inr h)

end Below

namespace PostOrder

variable {children : σ → List σ} {roots L : List σ}

/-- A traversal visits what is below its roots. -/
theorem mem_iff (h : PostOrder children roots L) (T : σ) : T ∈ L ↔ Below children roots T := by
  induction h with
  | nil => simp [Below]
  | @cons S roots below rest _ _ ihbelow ihrest =>
      rw [below_cons, reaches_iff, List.mem_append, List.mem_cons, ihbelow, ihrest]
      tauto

/-- Every node is visited after all its children. -/
theorem children_first (h : PostOrder children roots L) {T c : σ} {before after : List σ}
    (heq : L = before ++ T :: after) (hc : c ∈ children T) : c ∈ before := by
  induction h generalizing before after with
  | nil => simp at heq
  | @cons S roots below rest hbelow _ ihbelow ihrest =>
      rcases List.append_eq_append_iff.mp heq with ⟨xs, hbefore, hrest⟩ | ⟨xs, hbelow', hrest⟩
      · cases xs with
        | nil =>
            -- the root itself
            rw [List.nil_append, List.cons.injEq] at hrest
            rw [← hrest.1] at hc
            rw [hbefore, List.append_nil]
            exact (hbelow.mem_iff c).mpr (.of_mem hc)
        | cons x xs =>
            rw [List.cons_append, List.cons.injEq] at hrest
            have hin := ihrest hrest.2
            rw [hbefore]
            exact List.mem_append_right _ (List.mem_cons_of_mem _ hin)
      · cases xs with
        | nil =>
            rw [List.nil_append, List.cons.injEq] at hrest
            rw [hrest.1] at hc
            rw [List.append_nil] at hbelow'
            rw [← hbelow']
            exact (hbelow.mem_iff c).mpr (.of_mem hc)
        | cons x xs =>
            rw [List.cons_append, List.cons.injEq] at hrest
            rw [← hrest.1] at hbelow'
            exact ihbelow hbelow'

end PostOrder

section OneWay

variable {children : σ → List σ} {S T : σ} {roots : List σ}

/-- One way from the roots to a node is one way from fewer roots. -/
theorem OneWay.of_below {roots' : List σ} (h : OneWay children roots)
    (hsub : ∀ T, Below children roots' T → Below children roots T) (hnodup : roots'.Nodup)
    (hroot : ∀ p, Below children roots' p → ∀ c ∈ children p, c ∉ roots') : OneWay children roots' where
  roots_nodup := hnodup
  root := hroot
  nodup p hp := h.nodup p (hsub p hp)
  parent p q hp hq := h.parent p q (hsub p hp) (hsub q hq)

theorem OneWay.tail (h : OneWay children (S :: roots)) : OneWay children roots := by
  apply h.of_below fun T hT => hT.cons
  · exact (List.nodup_cons.mp h.roots_nodup).2
  · intro p hp c hc hroot
    exact h.root p hp.cons c hc (List.mem_cons_of_mem _ hroot)

/-- A root is not below another one. -/
theorem OneWay.not_below (h : OneWay children (S :: roots)) : ¬ Below children roots S := by
  intro hS
  rcases hS.eq_or_child with hin | ⟨p, hp, hc⟩
  · exact (List.nodup_cons.mp h.roots_nodup).1 hin
  · exact h.root p hp.cons S hc List.mem_cons_self

/-- A root is not below its children. -/
theorem OneWay.not_below_children (h : OneWay children roots) (hS : S ∈ roots) :
    ¬ Below children (children S) S := by
  intro hbelow
  rcases hbelow.eq_or_child with hin | ⟨p, hp, hc⟩
  · exact h.root S (.of_mem hS) S hin hS
  · exact h.root p (hp.of_children hS) S hc hS

/-- There is one way from the children of a root. -/
theorem OneWay.ofChildren (h : OneWay children roots) (hS : S ∈ roots) :
    OneWay children (children S) := by
  apply h.of_below fun T hT => hT.of_children hS
  · exact h.nodup S (.of_mem hS)
  · intro p hp c hc hchild
    -- the second parent of `c` is the root
    have hsame := h.parent p S (hp.of_children hS) (.of_mem hS) c hc hchild
    rw [hsame] at hp
    exact h.not_below_children hS hp

/-- What is below the children of a root is not below another root. -/
theorem OneWay.disjoint (h : OneWay children (S :: roots)) (hT : Below children (children S) T) :
    ¬ Below children roots T := by
  obtain ⟨d, hd, hpath⟩ := hT
  -- along the path from the child of the root
  induction hpath with
  | refl =>
      intro hbelow
      rcases hbelow.eq_or_child with hin | ⟨q, hq, hc⟩
      · exact h.root S (.of_mem List.mem_cons_self) d hd (List.mem_cons_of_mem _ hin)
      · have hsame := h.parent S q (.of_mem List.mem_cons_self) hq.cons d hd hc
        rw [← hsame] at hq
        exact h.not_below hq
  | @tail p T hpath hstep ih =>
      intro hbelow
      have hp : Below children (S :: roots) p :=
        Below.of_children (S := S) ⟨d, hd, hpath⟩ List.mem_cons_self
      rcases hbelow.eq_or_child with hin | ⟨q, hq, hc⟩
      · exact h.root p hp T hstep (List.mem_cons_of_mem _ hin)
      · rw [h.parent p q hp hq.cons T hstep hc] at ih
        exact ih hq

/-- Traversals that share no node, below a root and below the others, go one way. -/
theorem OneWay.cons (hbelow : OneWay children (children S)) (hrest : OneWay children roots)
    (hself : ¬ Below children (children S) S) (hroots : ¬ Below children roots S)
    (hdisjoint : ∀ T, Below children (children S) T → ¬ Below children roots T) :
    OneWay children (S :: roots) where
  roots_nodup := List.nodup_cons.mpr ⟨fun hin => hroots (.of_mem hin), hrest.roots_nodup⟩
  root p hp c hc hin := by
    rw [below_cons, reaches_iff] at hp
    rcases hp with (hpS | hp) | hp
    · rw [hpS] at hc
      rcases List.mem_cons.mp hin with hcS | hin
      · exact hself (.of_mem (hcS ▸ hc))
      · exact hdisjoint c (.of_mem hc) (.of_mem hin)
    · rcases List.mem_cons.mp hin with hcS | hin
      · exact hself (hcS ▸ hp.child hc)
      · exact hdisjoint c (hp.child hc) (.of_mem hin)
    · rcases List.mem_cons.mp hin with hcS | hin
      · exact hroots (hcS ▸ hp.child hc)
      · exact hrest.root p hp c hc hin
  nodup p hp := by
    rw [below_cons, reaches_iff] at hp
    rcases hp with (hpS | hp) | hp
    · rw [hpS]
      exact hbelow.roots_nodup
    · exact hbelow.nodup p hp
    · exact hrest.nodup p hp
  parent p q hp hq c hc hc' := by
    rw [below_cons, reaches_iff] at hp hq
    rcases hp with (hpS | hp) | hp <;> rcases hq with (hqS | hq) | hq
    · rw [hpS, hqS]
    · exact absurd (hpS ▸ hc) (hbelow.root q hq c hc')
    · exact absurd (hq.child hc') (hdisjoint c (.of_mem (hpS ▸ hc)))
    · exact absurd (hqS ▸ hc') (hbelow.root p hp c hc)
    · exact hbelow.parent p q hp hq c hc hc'
    · exact absurd (hq.child hc') (hdisjoint c (hp.child hc))
    · exact absurd (hp.child hc) (hdisjoint c (.of_mem (hqS ▸ hc')))
    · exact absurd (hp.child hc) (hdisjoint c (hq.child hc'))
    · exact hrest.parent p q hp hq c hc hc'

end OneWay

namespace PostOrder

variable {children : σ → List σ} {roots L : List σ}

/-- A traversal visits no node twice exactly where there is one way to every node. -/
theorem nodup_iff (h : PostOrder children roots L) : L.Nodup ↔ OneWay children roots := by
  induction h with
  | nil =>
      refine iff_of_true List.nodup_nil ⟨List.nodup_nil, ?_, ?_, ?_⟩
      · simp [Below]
      · simp [Below]
      · simp [Below]
  | @cons S roots below rest hbelow hrest ihbelow ihrest =>
      rw [List.nodup_append', List.nodup_cons, ihbelow, ihrest, hrest.mem_iff]
      constructor
      · rintro ⟨hone, ⟨hroots, hone'⟩, hdisjoint⟩
        apply hone.cons hone' _ hroots
        · intro T hT hT'
          exact hdisjoint ((hbelow.mem_iff T).mpr hT) (List.mem_cons_of_mem _ ((hrest.mem_iff T).mpr hT'))
        · intro hself
          exact hdisjoint ((hbelow.mem_iff S).mpr hself) List.mem_cons_self
      · intro hone
        refine ⟨hone.ofChildren List.mem_cons_self, ⟨hone.not_below, hone.tail⟩, ?_⟩
        intro T hT hT'
        have hin := (hbelow.mem_iff T).mp hT
        rcases List.mem_cons.mp hT' with heq | hT'
        · exact hone.not_below_children List.mem_cons_self (heq ▸ hin)
        · exact hone.disjoint hin ((hrest.mem_iff T).mp hT')

/-- Without infinite descents every traversal ends. -/
theorem exists_of_wellFounded (hwf : WellFounded fun c p => c ∈ children p) (roots : List σ) :
    ∃ L, PostOrder children roots L := by
  have hroot : ∀ S, ∃ L, PostOrder children (children S) L := by
    intro S
    induction S using hwf.induction with
    | _ S ih =>
        have hsub : ∀ ds : List σ, (∀ d ∈ ds, d ∈ children S) → ∃ L, PostOrder children ds L := by
          intro ds
          induction ds with
          | nil => exact fun _ => ⟨[], .nil⟩
          | cons d ds ihds =>
              intro hds
              obtain ⟨below, hbelow⟩ := ih d (hds d List.mem_cons_self)
              obtain ⟨rest, hrest⟩ := ihds fun d' hd' => hds d' (List.mem_cons_of_mem _ hd')
              exact ⟨_, .cons hbelow hrest⟩
        exact hsub _ fun d hd => hd
  induction roots with
  | nil => exact ⟨[], .nil⟩
  | cons S roots ih =>
      obtain ⟨below, hbelow⟩ := hroot S
      obtain ⟨rest, hrest⟩ := ih
      exact ⟨_, .cons hbelow hrest⟩

end PostOrder

/-- A finite graph without cycles has no infinite descent. -/
theorem wellFounded_of_acyclic [Finite σ] {children : σ → List σ}
    (h : ∀ S, ¬ Relation.TransGen (IsChild children) S S) :
    WellFounded fun c p => c ∈ children p := by
  let r : σ → σ → Prop := fun c p => Relation.TransGen (IsChild children) p c
  have htrans : IsTrans σ r := ⟨fun a b c hab hbc => hbc.trans hab⟩
  have hirrefl : Std.Irrefl r := ⟨h⟩
  have hwf : WellFounded r := Finite.wellFounded_of_trans_of_irrefl r
  exact Subrelation.wf (fun hc => .single hc) hwf

end Lib
end MultithreadingBible
