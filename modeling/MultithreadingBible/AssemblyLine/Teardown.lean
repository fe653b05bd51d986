import Mathlib.Data.List.ReduceOption
import MultithreadingBible.AssemblyLine.Pipeline
import MultithreadingBible.Lib.PostOrder

/-!
# The teardown of a pipeline

Once no worker is in operation `asl_destroy` walks over the stages in post-order, stops the worker of each
stage and frees the stage.  The walk follows the pointers to the next stages and keeps no marks.

* `AslStages` — the stages and how they are wired, call by call.
* `aslTraverseAllStages`, `aslStageCleanup` — the walk, on a heap that knows which stages were freed.
* `CleanedOnce` — every stage below the root is cleaned up once, after its children.
-/

namespace MultithreadingBible
namespace AssemblyLine

open Lib

/-- The root stage of a pipeline and the pointers of its stages. -/
structure AslStages (σ : Type*) where
  rootStage : Option σ
  fanout : σ → UInt8
  nextStage : σ → List (Option σ)
  slots : ∀ S, (nextStage S).length = (fanout S).toNat

/-- The stages after `asl_create_new_stage`. -/
def newStages {σ : Type*} (fanout : σ → UInt8) : AslStages σ where
  rootStage := none
  fanout := fanout
  nextStage S := List.replicate (fanout S).toNat none
  slots _ := List.length_replicate

/-- The stages a traversal goes on to. -/
def AslStages.children {σ : Type*} (asl : AslStages σ) (S : σ) : List σ := (asl.nextStage S).reduceOption

section Wiring

variable {σ : Type*}

def aslAddRootStage (asl : AslStages σ) (rootStage : σ) : Option (AslStages σ) :=
  if asl.rootStage.isSome then none
  else some { asl with rootStage := some rootStage }

/-- The loop of `asl_add_child_stage`: the first free slot takes the child. -/
def fillSlot (cstage : σ) : List (Option σ) → Option (List (Option σ))
  | [] => none
  | none :: slots => some (some cstage :: slots)
  | some S :: slots => (fillSlot cstage slots).map (some S :: ·)

theorem length_fillSlot {cstage : σ} {slots slots' : List (Option σ)}
    (h : fillSlot cstage slots = some slots') : slots'.length = slots.length := by
  induction slots generalizing slots' with
  | nil => cases h
  | cons slot slots ih =>
      cases slot with
      | none =>
          cases h
          rfl
      | some S =>
          obtain ⟨rest, hrest, rfl⟩ := Option.map_eq_some_iff.mp h
          rw [List.length_cons, ih hrest, List.length_cons]

/-- The child is one more of the stages to go on to. -/
theorem perm_fillSlot {cstage : σ} {slots slots' : List (Option σ)}
    (h : fillSlot cstage slots = some slots') :
    slots'.reduceOption.Perm (slots.reduceOption ++ [cstage]) := by
  induction slots generalizing slots' with
  | nil => cases h
  | cons slot slots ih =>
      cases slot with
      | none =>
          cases h
          simp only [List.reduceOption_cons_of_some, List.reduceOption_cons_of_none]
          exact (List.perm_append_singleton _ _).symm
      | some S =>
          obtain ⟨rest, hrest, rfl⟩ := Option.map_eq_some_iff.mp h
          simp only [List.reduceOption_cons_of_some, List.cons_append]
          exact (ih hrest).cons S

variable [DecidableEq σ]

def aslAddChildStage (asl : AslStages σ) (pstage cstage : σ) : Option (AslStages σ) :=
  match h : fillSlot cstage (asl.nextStage pstage) with
  | none => none
  | some slots =>
      some
        { asl with
          nextStage := Function.update asl.nextStage pstage slots
          slots S := by
            by_cases hS : S = pstage
            · rw [hS, Function.update_self, length_fillSlot h, asl.slots]
            · rw [Function.update_of_ne hS, asl.slots] }

/-- A call that wires the stages. -/
inductive WiringCall (σ : Type*) where
  | root (rootStage : σ)
  | child (pstage cstage : σ)
  deriving DecidableEq

/-- What a call does. -/
def WiringCall.run (asl : AslStages σ) : WiringCall σ → Option (AslStages σ)
  | .root rootStage => aslAddRootStage asl rootStage
  | .child pstage cstage => aslAddChildStage asl pstage cstage

/-- Calls one after the other; none of them may abort. -/
def wire (asl : AslStages σ) (calls : List (WiringCall σ)) : Option (AslStages σ) :=
  calls.foldlM WiringCall.run asl

/-- The parent and the child a call names. -/
def WiringCall.added? : WiringCall σ → Option (σ × σ)
  | .root _ => none
  | .child pstage cstage => some (pstage, cstage)

/-- The parents and children the calls name. -/
def added (calls : List (WiringCall σ)) : List (σ × σ) := calls.filterMap WiringCall.added?

end Wiring

section Traversal

/-- What can go wrong in a traversal. -/
inductive StageFault (σ : Type*) where
  /-- A stage is read that was freed. -/
  | readFreed (S : σ)
  | noRoot
  | outOfFuel
  deriving DecidableEq

/-- Which stages were freed, and the calls of `asl_stage_cleanup`. -/
structure StageHeap (σ : Type*) where
  freed : σ → Bool
  cleaned : List σ

variable {σ : Type*}

/-- A traversal so far. -/
abbrev StageRun (σ : Type*) := Except (StageFault σ) (StageHeap σ)

/-- A field of `S` is read on the way to `k`. -/
def readStage (m : StageHeap σ) (S : σ) (k : StageRun σ) : StageRun σ :=
  if m.freed S then .error (.readFreed S) else k

/-- The loop of `asl_traverse_all_stages` over the remaining slots of `S`. -/
def traverseSlots (visit : σ → StageHeap σ → StageRun σ) (S : σ) :
    List (Option σ) → StageHeap σ → StageRun σ
  | [], m => readStage m S (.ok m)
  | none :: slots, m => readStage m S (traverseSlots visit S slots m)
  | some c :: slots, m =>
      readStage m S <|
        match visit c m with
        | .error fault => .error fault
        | .ok m => traverseSlots visit S slots m

def aslTraverseAllStages (asl : AslStages σ) (aslStageProcessingCbk : σ → StageHeap σ → StageRun σ) :
    Nat → σ → StageHeap σ → StageRun σ
  | 0, _, _ => .error .outOfFuel
  | fuel + 1, S, m =>
      match traverseSlots (aslTraverseAllStages asl aslStageProcessingCbk fuel) S (asl.nextStage S) m with
      | .error fault => .error fault
      | .ok m => aslStageProcessingCbk S m

variable [DecidableEq σ]

def aslStageCleanup (S : σ) (m : StageHeap σ) : StageRun σ :=
  readStage m S (.ok ⟨Function.update m.freed S true, m.cleaned ++ [S]⟩)

/-- The part of `asl_destroy` that follows the wait. -/
def aslDestroyStages (fuel : Nat) (asl : AslStages σ) : StageRun σ :=
  match asl.rootStage with
  | none => .error .noRoot
  | some rootStage => aslTraverseAllStages asl aslStageCleanup fuel rootStage ⟨fun _ => false, []⟩

end Traversal

section Property

variable {σ : Type*} [DecidableEq σ]

/-- The calls make `c` a child of `p`. -/
def WiredTo (calls : List (WiringCall σ)) (p c : σ) : Prop := (p, c) ∈ added calls

/-- A stage is reachable from another one. -/
def Reaches (calls : List (WiringCall σ)) : σ → σ → Prop := Relation.ReflTransGen (WiredTo calls)

/-- The teardown ends, reads no freed stage, and cleans up every stage below the root once and after
all its children, and no other stage. -/
def CleanedOnce (calls : List (WiringCall σ)) (asl : AslStages σ) (root : σ) : Prop :=
  ∃ enough, ∀ fuel, enough ≤ fuel → ∃ m, aslDestroyStages fuel asl = .ok m ∧
    (∀ S, Reaches calls root S → m.cleaned.count S = 1) ∧
    (∀ S ∈ m.cleaned, Reaches calls root S) ∧
    ∀ before S after, m.cleaned = before ++ S :: after → ∀ c, WiredTo calls S c → c ∈ before

/-- No stage is added twice as a child of stages below the root. -/
def AddedOnce (calls : List (WiringCall σ)) (root : σ) : Prop :=
  (added calls).Pairwise fun x y => Reaches calls root x.1 → Reaches calls root y.1 → x.2 ≠ y.2

end Property

section Wired

variable {σ : Type*} [DecidableEq σ] {asl asl' : AslStages σ} {calls : List (WiringCall σ)} {root : σ}

/-- One call adds what it names. -/
theorem perm_children_run {call : WiringCall σ} (h : call.run asl = some asl') (S : σ) :
    (asl'.children S).Perm
      (asl.children S ++ ((added [call]).filter fun x => x.1 = S).map Prod.snd) := by
  cases call with
  | root rootStage =>
      simp only [WiringCall.run, aslAddRootStage] at h
      split at h
      · cases h
      · cases h
        simp [added, AslStages.children, List.filterMap_cons, WiringCall.added?]
  | child pstage cstage =>
      simp only [WiringCall.run, aslAddChildStage] at h
      split at h
      · cases h
      · next slots hslots =>
        cases h
        by_cases hS : S = pstage
        · simp only [AslStages.children, hS, Function.update_self]
          simpa [added, WiringCall.added?] using perm_fillSlot hslots
        · simp [AslStages.children, added, WiringCall.added?, Function.update_of_ne hS, Ne.symm hS]

/-- The children of a stage are those the calls name. -/
theorem perm_children_wire (h : wire asl calls = some asl') (S : σ) :
    (asl'.children S).Perm
      (asl.children S ++ ((added calls).filter fun x => x.1 = S).map Prod.snd) := by
  induction calls generalizing asl with
  | nil =>
      cases h
      simp [added]
  | cons call calls ih =>
      rw [wire, List.foldlM_cons] at h
      obtain ⟨asl₁, h₁, h₂⟩ := Option.bind_eq_some_iff.mp h
      have hsplit : added (call :: calls) = added [call] ++ added calls := by
        simp only [added]
        rw [← List.filterMap_append]
        rfl
      rw [hsplit, List.filter_append, List.map_append, ← List.append_assoc]
      exact (ih h₂).trans ((perm_children_run h₁ S).append_right _)

/-- The children in a pipeline that was just wired. -/
theorem perm_children {fanout : σ → UInt8} (h : wire (newStages fanout) calls = some asl) (S : σ) :
    (asl.children S).Perm (((added calls).filter fun x => x.1 = S).map Prod.snd) := by
  have hperm := perm_children_wire h S
  have hnone : (newStages fanout).children S = [] := by
    simp [AslStages.children, newStages]
  rwa [hnone, List.nil_append] at hperm

theorem isChild_iff {fanout : σ → UInt8} (h : wire (newStages fanout) calls = some asl) {p c : σ} :
    IsChild asl.children p c ↔ WiredTo calls p c := by
  rw [IsChild, (perm_children h p).mem_iff, WiredTo]
  simp

theorem isChild_eq {fanout : σ → UInt8} (h : wire (newStages fanout) calls = some asl) :
    IsChild asl.children = WiredTo calls := by
  ext p c
  exact isChild_iff h

theorem below_root_iff {fanout : σ → UInt8} (h : wire (newStages fanout) calls = some asl) {S : σ} :
    Below asl.children [root] S ↔ Reaches calls root S := by
  rw [Below, isChild_eq h]
  simp [Reaches]

/-- In an acyclic pipeline there is one way to every stage exactly where no stage was added twice. -/
theorem oneWay_iff {fanout : σ → UInt8} (h : wire (newStages fanout) calls = some asl)
    (hacyclic : ∀ S, ¬ Relation.TransGen (WiredTo calls) S S) :
    OneWay asl.children [root] ↔ AddedOnce calls root := by
  have hmem : ∀ {p c : σ}, c ∈ asl.children p ↔ (p, c) ∈ added calls := isChild_iff h
  have hnodup : ∀ p, (asl.children p).Nodup ↔
      (added calls).Pairwise fun x y => x.1 = p → y.1 = p → x.2 ≠ y.2 := by
    intro p
    rw [(perm_children h p).nodup_iff, List.Nodup, List.pairwise_map, List.pairwise_filter]
    simp
  constructor
  · intro hone
    rw [AddedOnce, List.pairwise_iff_forall_sublist]
    intro x y hsub hx hy heq
    have hxin : x ∈ added calls := hsub.subset (by simp)
    have hyin : y ∈ added calls := hsub.subset (by simp)
    have hsame := hone.parent x.1 y.1 ((below_root_iff h).mpr hx) ((below_root_iff h).mpr hy) x.2
      (hmem.mpr hxin) (hmem.mpr (heq ▸ hyin))
    have hpair := (hnodup x.1).mp (hone.nodup x.1 ((below_root_iff h).mpr hx))
    exact List.pairwise_iff_forall_sublist.mp hpair hsub rfl hsame.symm heq
  · intro honce
    constructor
    · exact List.nodup_singleton root
    · intro p hp c hc hroot
      rw [List.mem_singleton] at hroot
      rw [hroot, hmem] at hc
      rw [below_root_iff h] at hp
      exact hacyclic root (Relation.TransGen.tail' hp hc)
    · intro p hp
      rw [below_root_iff h] at hp
      rw [hnodup]
      refine honce.imp ?_
      intro x y hxy hx hy
      exact hxy (hx ▸ hp) (hy ▸ hp)
    · intro p q hp hq c hc hc'
      rw [below_root_iff h] at hp hq
      by_contra hpq
      rw [hmem] at hc hc'
      have hsymm : Std.Symm fun x y : σ × σ =>
          Reaches calls root x.1 → Reaches calls root y.1 → x.2 ≠ y.2 :=
        ⟨fun x y hxy hy hx => (hxy hx hy).symm⟩
      exact List.Pairwise.forall honce hc hc' (fun heq => hpq (congrArg Prod.fst heq)) hp hq rfl

end Wired

section Runs

variable {σ : Type*} {asl : AslStages σ} {visit : σ → StageHeap σ → StageRun σ} {S : σ}
  {m m' : StageHeap σ}

theorem readStage_eq_ok {k : StageRun σ} :
    readStage m S k = .ok m' ↔ m.freed S = false ∧ k = .ok m' := by
  unfold readStage
  split
  · next h => simp [h]
  · next h => simp [h]

/-- The loop reads its stage before anything else. -/
theorem readStage_traverseSlots (slots : List (Option σ)) :
    readStage m S (traverseSlots visit S slots m) = traverseSlots visit S slots m := by
  have hidem : ∀ k : StageRun σ, readStage m S (readStage m S k) = readStage m S k := by
    intro k
    unfold readStage
    split <;> rfl
  cases slots with
  | nil => exact hidem _
  | cons slot slots =>
      cases slot with
      | none => exact hidem _
      | some c => exact hidem _

/-- The loop passes over the free slots. -/
theorem traverseSlots_reduceOption (slots : List (Option σ)) (m : StageHeap σ) :
    traverseSlots visit S slots m = traverseSlots visit S (slots.reduceOption.map some) m := by
  induction slots generalizing m with
  | nil => rfl
  | cons slot slots ih =>
      cases slot with
      | none =>
          rw [List.reduceOption_cons_of_none, ← ih m]
          exact readStage_traverseSlots slots
      | some c =>
          rw [List.reduceOption_cons_of_some, List.map_cons]
          simp only [traverseSlots, ih]

/-- The loop over one more child. -/
theorem traverseSlots_cons_eq_ok {c : σ} {roots : List σ} :
    traverseSlots visit S ((c :: roots).map some) m = .ok m' ↔
      m.freed S = false ∧ ∃ m₁, visit c m = .ok m₁ ∧
        traverseSlots visit S (roots.map some) m₁ = .ok m' := by
  rw [List.map_cons, traverseSlots, readStage_eq_ok]
  cases visit c m with
  | error fault => simp
  | ok m₁ => simp

variable [DecidableEq σ]

/-- The heap after some stages were cleaned up. -/
def StageHeap.cleanAll (m : StageHeap σ) (L : List σ) : StageHeap σ :=
  ⟨fun T => m.freed T || decide (T ∈ L), m.cleaned ++ L⟩

theorem StageHeap.cleanAll_nil (m : StageHeap σ) : m.cleanAll [] = m := by
  simp [StageHeap.cleanAll]

theorem StageHeap.cleanAll_append (m : StageHeap σ) (L L' : List σ) :
    (m.cleanAll L).cleanAll L' = m.cleanAll (L ++ L') := by
  simp [StageHeap.cleanAll, Bool.or_assoc]

@[simp] theorem StageHeap.freed_cleanAll (m : StageHeap σ) (L : List σ) (T : σ) :
    (m.cleanAll L).freed T = false ↔ m.freed T = false ∧ T ∉ L := by
  simp [StageHeap.cleanAll]

/-- `asl_stage_cleanup` frees a stage that was not freed. -/
theorem aslStageCleanup_eq_ok :
    aslStageCleanup S m = .ok m' ↔ m.freed S = false ∧ m' = m.cleanAll [S] := by
  have hclean : (⟨Function.update m.freed S true, m.cleaned ++ [S]⟩ : StageHeap σ) = m.cleanAll [S] := by
    unfold StageHeap.cleanAll
    congr 1
    ext T
    by_cases hT : T = S
    · simp [hT]
    · simp [hT]
  rw [aslStageCleanup, readStage_eq_ok, hclean, Except.ok.injEq, eq_comm (a := m')]

/-- One stage is traversed: its children first, then itself. -/
theorem aslTraverseAllStages_eq_ok {fuel : Nat} :
    aslTraverseAllStages asl aslStageCleanup (fuel + 1) S m = .ok m' ↔
      ∃ m₁, traverseSlots (aslTraverseAllStages asl aslStageCleanup fuel) S
        ((asl.children S).map some) m = .ok m₁ ∧ m₁.freed S = false ∧ m' = m₁.cleanAll [S] := by
  rw [aslTraverseAllStages, traverseSlots_reduceOption, ← AslStages.children]
  cases traverseSlots (aslTraverseAllStages asl aslStageCleanup fuel) S ((asl.children S).map some) m with
  | error fault => simp
  | ok m₁ => simp [aslStageCleanup_eq_ok]

/-- Where the order of a traversal names no stage twice and no stage that was freed, the traversal
ends and cleans up in this order. -/
theorem traverseSlots_of_postOrder {roots L : List σ} (h : PostOrder asl.children roots L)
    (hnodup : L.Nodup) :
    ∃ enough, ∀ fuel, enough ≤ fuel → ∀ S m, (∀ T ∈ S :: L, m.freed T = false) → S ∉ L →
      traverseSlots (aslTraverseAllStages asl aslStageCleanup fuel) S (roots.map some) m =
        .ok (m.cleanAll L) := by
  induction h with
  | nil =>
      refine ⟨0, fun fuel _ S m hfree _ => ?_⟩
      rw [m.cleanAll_nil]
      exact readStage_eq_ok.mpr ⟨hfree S List.mem_cons_self, rfl⟩
  | @cons c roots below rest _ _ ihbelow ihrest =>
      -- the child and what is below it come before the other children
      rw [List.nodup_append', List.nodup_cons, List.disjoint_cons_right] at hnodup
      obtain ⟨hbelow, ⟨hcrest, hrest⟩, hcbelow, hdisjoint⟩ := hnodup
      obtain ⟨enough, hchildren⟩ := ihbelow hbelow
      obtain ⟨enough', hothers⟩ := ihrest hrest
      refine ⟨max (enough + 1) enough', fun fuel hfuel S m hfree hS => ?_⟩
      obtain ⟨fuel, rfl⟩ : ∃ k, fuel = k + 1 := ⟨fuel - 1, by omega⟩
      simp only [List.mem_cons, List.mem_append, not_or] at hfree hS
      obtain ⟨hSbelow, hSc, hSrest⟩ := hS
      rw [traverseSlots_cons_eq_ok]
      refine ⟨hfree S (.inl rfl), m.cleanAll (below ++ [c]), ?_, ?_⟩
      · -- the child and what is below it
        rw [aslTraverseAllStages_eq_ok]
        refine ⟨m.cleanAll below, ?_, ?_, ?_⟩
        · apply hchildren fuel (by omega) c m _ hcbelow
          intro T hT
          rcases List.mem_cons.mp hT with rfl | hT
          · exact hfree T (.inr (.inr (.inl rfl)))
          · exact hfree T (.inr (.inl hT))
        · exact (m.freed_cleanAll below c).mpr ⟨hfree c (.inr (.inr (.inl rfl))), hcbelow⟩
        · exact (m.cleanAll_append below [c]).symm
      · -- the other children
        rw [hothers (fuel + 1) (by omega) S _ _ hSrest, StageHeap.cleanAll_append]
        · simp
        · intro T hT
          rw [StageHeap.freed_cleanAll, List.mem_append, List.mem_singleton]
          rcases List.mem_cons.mp hT with rfl | hT
          · exact ⟨hfree T (.inl rfl), by tauto⟩
          · refine ⟨hfree T (.inr (.inr (.inr hT))), ?_⟩
            rintro (hin | rfl)
            · exact hdisjoint hin hT
            · exact hcrest hT

/-- A traversal that ends well named no stage twice and no stage that was freed. -/
theorem nodup_of_traverseSlots {roots L : List σ} (h : PostOrder asl.children roots L) {fuel : Nat}
    (hrun : traverseSlots (aslTraverseAllStages asl aslStageCleanup fuel) S (roots.map some) m = .ok m') :
    L.Nodup ∧ (∀ T ∈ L, m.freed T = false) ∧ m' = m.cleanAll L := by
  induction h generalizing fuel S m m' with
  | nil =>
      obtain ⟨-, hrun⟩ := readStage_eq_ok.mp hrun
      cases hrun
      exact ⟨List.nodup_nil, by simp, m.cleanAll_nil.symm⟩
  | @cons c roots below rest _ _ ihbelow ihrest =>
      obtain ⟨-, m₁, hvisit, hothers⟩ := traverseSlots_cons_eq_ok.mp hrun
      cases fuel with
      | zero => cases hvisit
      | succ fuel =>
          obtain ⟨m₂, hchildren, hfree, rfl⟩ := aslTraverseAllStages_eq_ok.mp hvisit
          obtain ⟨hbelow, hfreeBelow, rfl⟩ := ihbelow hchildren
          obtain ⟨hrest, hfreeRest, rfl⟩ := ihrest hothers
          simp only [StageHeap.freed_cleanAll, List.mem_singleton] at hfree hfreeRest
          refine ⟨?_, ?_, ?_⟩
          · rw [List.nodup_append', List.nodup_cons, List.disjoint_cons_right]
            refine ⟨hbelow, ⟨fun hin => (hfreeRest c hin).2 rfl, hrest⟩, hfree.2, ?_⟩
            exact fun T hT hT' => (hfreeRest T hT').1.2 hT
          · intro T hT
            rw [List.mem_append, List.mem_cons] at hT
            rcases hT with hT | rfl | hT
            · exact hfreeBelow T hT
            · exact hfree.1
            · exact (hfreeRest T hT).1.1
          · rw [StageHeap.cleanAll_append, StageHeap.cleanAll_append]
            simp

end Runs

/-- **Every stage is cleaned up once**, after its children, and no freed stage is read, exactly
where no stage was added twice as a child of stages below the root; for any number of stages, wired
in any way without a cycle. -/
theorem asl_cleanedOnce_iff {σ : Type*} [DecidableEq σ] [Finite σ] {fanout : σ → UInt8}
    {calls : List (WiringCall σ)} {asl : AslStages σ} {root : σ}
    (hwire : wire (newStages fanout) calls = some asl) (hroot : asl.rootStage = some root)
    (hacyclic : ∀ S, ¬ Relation.TransGen (WiredTo calls) S S) :
    CleanedOnce calls asl root ↔ AddedOnce calls root := by
  -- as there are finitely many stages and no cycle, the walk ends
  have hwf : WellFounded fun c p => c ∈ asl.children p := by
    apply wellFounded_of_acyclic
    rw [isChild_eq hwire]
    exact hacyclic
  obtain ⟨below, hbelow⟩ := PostOrder.exists_of_wellFounded hwf (asl.children root)
  have horder : PostOrder asl.children [root] (below ++ [root]) := .cons hbelow .nil
  have hnodup : (below ++ [root]).Nodup ↔ below.Nodup ∧ root ∉ below := by
    rw [List.nodup_append']
    simp
  rw [← oneWay_iff hwire hacyclic, ← horder.nodup_iff, hnodup]
  constructor
  · rintro ⟨enough, hruns⟩
    obtain ⟨m, hrun, -⟩ := hruns (enough + 1) (Nat.le_succ enough)
    simp only [aslDestroyStages, hroot, aslTraverseAllStages_eq_ok] at hrun
    obtain ⟨m₁, hchildren, hfree, -⟩ := hrun
    obtain ⟨hdistinct, -, rfl⟩ := nodup_of_traverseSlots hbelow hchildren
    exact ⟨hdistinct, (StageHeap.freed_cleanAll _ _ _).mp hfree |>.2⟩
  · rintro ⟨hdistinct, hnot⟩
    obtain ⟨enough, hruns⟩ := traverseSlots_of_postOrder hbelow hdistinct
    refine ⟨enough + 1, fun fuel hfuel =>
      ⟨StageHeap.cleanAll ⟨fun _ => false, []⟩ (below ++ [root]), ?_, ?_, ?_, ?_⟩⟩
    · obtain ⟨fuel, rfl⟩ : ∃ k, fuel = k + 1 := ⟨fuel - 1, by omega⟩
      simp only [aslDestroyStages, hroot, aslTraverseAllStages_eq_ok]
      refine ⟨_, hruns fuel (by omega) root _ (fun _ _ => rfl) hnot, ?_, ?_⟩
      · exact (StageHeap.freed_cleanAll _ _ _).mpr ⟨rfl, hnot⟩
      · exact (StageHeap.cleanAll_append _ _ _).symm
    · intro S hS
      apply List.count_eq_one_of_mem (hnodup.mpr ⟨hdistinct, hnot⟩)
      exact (horder.mem_iff S).mpr ((below_root_iff hwire).mpr hS)
    · intro S hS
      exact (below_root_iff hwire).mp ((horder.mem_iff S).mp hS)
    · intro before S after heq c hc
      exact horder.children_first heq ((isChild_iff hwire).mpr hc)

/-- Where every call names a child with a larger number there is no cycle. -/
theorem acyclic_of_increasing {n : Nat} {calls : List (WiringCall (Fin n))}
    (h : ∀ x ∈ added calls, x.1 < x.2) (S : Fin n) : ¬ Relation.TransGen (WiredTo calls) S S := by
  have hlt : ∀ T, Relation.TransGen (WiredTo calls) S T → S < T := by
    intro T hpath
    induction hpath with
    | single hstep => exact h _ hstep
    | tail _ hstep ih => exact ih.trans (h _ hstep)
  exact fun hcycle => lt_irrefl S (hlt S hcycle)

/-- A chain of stages, wired as in the test application. -/
theorem asl_cleanedOnce_chain : ∃ asl : AslStages (Fin 3),
    wire (newStages fun _ => 1) [.root 0, .child 0 1, .child 1 2] = some asl ∧
    CleanedOnce [.root 0, .child 0 1, .child 1 2] asl 0 := by
  have hwire : (wire (newStages fun _ => 1) [.root (0 : Fin 3), .child 0 1, .child 1 2]).bind
      AslStages.rootStage = some 0 := by decide
  obtain ⟨asl, hasl, hroot⟩ := Option.bind_eq_some_iff.mp hwire
  refine ⟨asl, hasl, (asl_cleanedOnce_iff hasl hroot ?_).mpr ?_⟩
  · exact acyclic_of_increasing (by decide)
  · have hdistinct : (added [WiringCall.root (0 : Fin 3), .child 0 1, .child 1 2]).Pairwise
        fun x y => x.2 ≠ y.2 := by decide
    exact hdistinct.imp fun hne _ _ => hne

/-- A root with two children that share one: once the first child was cleaned up, the second one
leads to a stage that was freed. -/
theorem asl_shared_child : ∃ asl : AslStages (Fin 4),
    wire (newStages fun _ => 2) [.root 0, .child 0 1, .child 0 2, .child 1 3, .child 2 3] = some asl ∧
    (∀ S, ¬ Relation.TransGen
      (WiredTo [.root (0 : Fin 4), .child 0 1, .child 0 2, .child 1 3, .child 2 3]) S S) ∧
    (∀ fuel, aslDestroyStages (fuel + 3) asl = .error (.readFreed 3)) ∧
    ¬ CleanedOnce [.root 0, .child 0 1, .child 0 2, .child 1 3, .child 2 3] asl 0 := by
  have hrun : ∀ fuel, (wire (newStages fun _ => 2)
      [.root (0 : Fin 4), .child 0 1, .child 0 2, .child 1 3, .child 2 3]).map
      (aslDestroyStages (fuel + 3)) = some (.error (.readFreed 3)) := by
    intro fuel
    rfl
  obtain ⟨asl, hasl, -⟩ := Option.map_eq_some_iff.mp (hrun 0)
  have hfreed : ∀ fuel, aslDestroyStages (fuel + 3) asl = .error (.readFreed 3) := by
    intro fuel
    have hfuel := hrun fuel
    rw [hasl] at hfuel
    exact Option.some.inj hfuel
  refine ⟨asl, hasl, acyclic_of_increasing (by decide), hfreed, ?_⟩
  rintro ⟨enough, hruns⟩
  obtain ⟨m, hok, -⟩ := hruns (enough + 3) (Nat.le_add_right enough 3)
  rw [hfreed enough] at hok
  cases hok

end AssemblyLine
end MultithreadingBible
