import MultithreadingBible.Lib.Recording
import MultithreadingBible.NotifChain.Operations

/-!
# A routing table is a map

Without subscribers a routing table is a finite map from keys to the addresses published for them.
The key of a call is made of the first 16 characters of `dest`, up to its NUL, and of `mask`.

* `Fib` -- the abstract map, and what each call does to it and is answered.
* `tableMachine` -- a table on which additions, deletions and look-ups are made one after the other.
* `rt_isMap` -- every call is answered as the map answers it; the entries always form one doubly
  linked list with at most one entry for each key; a deletion leaves the other entries alone; and no
  call fails.
-/

namespace MultithreadingBible
namespace NotifChain

open Lib

universe u

/-- The calls on a table that nobody subscribes to. -/
inductive TableCall where
  | addOrUpdate (dest : List UInt8) (mask : UInt8) (gwIp oif : Option (List UInt8))
  | delete (dest : List UInt8) (mask : UInt8)
  | lookUp (dest : List UInt8) (mask : UInt8)

/-- What a call returns: an entry, by its address and its contents, or null; or whether it deleted one. -/
inductive TableAnswer (A E : Type*) where
  | entry (found : Option (A × E))
  | deleted (b : Bool)
  deriving DecidableEq

/-- The addresses published for each key. -/
abbrev Fib := RtEntryKeys → Option (CharArray 16 × CharArray 32)

namespace Fib

/-- The addresses for a key after those that are given were written. -/
def written (T : Fib) (k : RtEntryKeys) (gwIp oif : Option (List UInt8)) :
    CharArray 16 × CharArray 32 :=
  let old := (T k).getD (.zero 16, .zero 32)
  ((gwIp.map (CharArray.strncpy 16)).getD old.1, (oif.map (CharArray.strncpy 32)).getD old.2)

/-- The map after a call. -/
def after (T : Fib) : TableCall → Fib
  | .addOrUpdate dest mask gwIp oif =>
      Function.update T (rtKey dest mask) (some (T.written (rtKey dest mask) gwIp oif))
  | .delete dest mask => Function.update T (rtKey dest mask) none
  | .lookUp _ _ => T

section Answers

variable {A E : Type*} (shown : E → RtEntryKeys × CharArray 16 × CharArray 32)

/-- The pointer `found` leads to the map's data for the key `k`, where `shown` reads an entry. -/
def Shows (T : Fib) (k : RtEntryKeys) (found : Option (A × E)) : Prop :=
  match T k with
  | none => found = none
  | some d => ∃ a e, found = some (a, e) ∧ shown e = (k, d)

/-- What a call on the map is answered. -/
def Answers (T : Fib) (call : TableCall) (answer : TableAnswer A E) : Prop :=
  match call with
  | .addOrUpdate dest mask _ _ =>
      ∃ found, answer = .entry found ∧ (T.after call).Shows shown (rtKey dest mask) found
  | .delete dest mask => answer = .deleted (T (rtKey dest mask)).isSome
  | .lookUp dest mask => ∃ found, answer = .entry found ∧ T.Shows shown (rtKey dest mask) found

end Answers

/-- The routes of a table without subscribers. -/
def routes {F : Type*} (T : Fib) : Routes F := fun k => (T k).map fun d => ⟨d.1, d.2, []⟩

end Fib

/-- The map the calls made amount to. -/
def fibOf {R : Type*} (log : List (TableCall × R)) : Fib :=
  log.foldl (fun T r => T.after r.1) fun _ => none

section Calls

variable {A F : Type u} [DecidableEq A]

/-- The key and the addresses in an entry. -/
def RtEntry.shown (e : RtEntry A) : RtEntryKeys × CharArray 16 × CharArray 32 :=
  (e.rtEntryKeys, e.gwIp, e.oif)

/-- The entry a pointer leads to. -/
def RtMem.found (m : RtMem A F) : Option A → Except Failure (Option (A × RtEntry A))
  | none => .ok none
  | some a => (m.entryAt a).map fun e => some (a, e)

/-- Carry out a call. -/
def TableCall.run (m : RtMem A F) (ans : Calloc A) :
    TableCall → Except Failure (RtMem A F × TableAnswer A (RtEntry A))
  | .addOrUpdate dest mask gwIp oif => do
      let (m, _, a) ← rtAddOrUpdateRtEntry m dest mask gwIp oif ans
      return (m, .entry (← m.found (some a)))
  | .delete dest mask => do
      let (m, _, deleted) ← rtDeleteRtEntry m dest mask
      return (m, .deleted deleted)
  | .lookUp dest mask => do
      let a ← rtLookUpRtEntry m dest mask
      return (m, .entry (← m.found a))

/-- A table and the calls made on it so far, with their answers. -/
structure TableSession (A F : Type*) where
  mem : RtMem A F
  log : List (TableCall × TableAnswer A (RtEntry A))

/-- A table on which calls are made one after the other.  A failing call ends the process. -/
def tableMachine (A F : Type u) [DecidableEq A] :
    Machine (TableSession A F) (TableCall × Calloc A) where
  init s := s = ⟨rtInitRtTable, []⟩
  step s a :=
    match a.1.run s.mem a.2 with
    | .ok (m, answer) => .next ⟨m, s.log ++ [(a.1, answer)]⟩
    | .error .inUse => .blocked
    | .error _ => .abort

end Calls

section Map

variable {A F : Type u} {T : Fib} {k : RtEntryKeys}

theorem Fib.isSome_routes : ((T.routes : Routes F) k).isSome = (T k).isSome := by
  rw [routes, Option.isSome_map]

/-- The routes of the map after a call. -/
theorem Fib.routes_addOrUpdate (gwIp oif : Option (List UInt8)) :
    (T.routes : Routes F).addOrUpdate k gwIp oif =
      Fib.routes (Function.update T k (some (T.written k gwIp oif))) := by
  ext1 k'
  unfold Routes.addOrUpdate routes
  by_cases hk : k' = k
  · subst hk
    rw [Function.update_self, Function.update_self]
    cases hT : T k' with
    | none => simp [written, Routes.route, hT, Route.write, Route.empty]
    | some d => simp [written, Routes.route, hT, Route.write]
  · rw [Function.update_of_ne hk, Function.update_of_ne hk]

theorem Fib.routes_delete :
    (T.routes : Routes F).delete k = Fib.routes (Function.update T k none) := by
  ext1 k'
  unfold Routes.delete routes
  by_cases hk : k' = k
  · rw [hk, Function.update_self, Function.update_self]
    rfl
  · rw [Function.update_of_ne hk, Function.update_of_ne hk]

/-- An entry that holds the route of a key of the map shows its data. -/
theorem Fib.shows_of_holds {d : CharArray 16 × CharArray 32} (hT : T k = some d) {a : A}
    {e : RtEntry A} (he : e.Holds k ((T.routes : Routes F).route k)) :
    T.Shows RtEntry.shown k (some (a, e)) := by
  have hroute : (T.routes : Routes F).route k = ⟨d.1, d.2, []⟩ := by
    rw [Routes.route, routes, hT]
    rfl
  rw [hroute] at he
  unfold Shows
  rw [hT]
  refine ⟨a, e, rfl, ?_⟩
  rw [RtEntry.shown, he.keys, he.gwIp, he.oif]

end Map

section Refinement

variable {A F : Type u} [DecidableEq A] {m : RtMem A F} {zs : List A}
  {S : A → List (A × NotifChainElem F)} {T : Fib}

/-- **Refinement**: a call on memory that holds a map, unless `calloc` answers with an address in use, is
answered as on the map, and the memory then holds the map after the call. -/
theorem TableOk.run (h : TableOk m zs S (T.routes : Routes F)) (call : TableCall) (ans : Calloc A) :
    call.run m ans = .error .inUse ∨
      ∃ m' answer, call.run m ans = .ok (m', answer) ∧ T.Answers RtEntry.shown call answer ∧
        Represents m' ((T.after call).routes : Routes F) := by
  cases call with
  | addOrUpdate dest mask gwIp oif =>
      rcases h.addOrUpdate_spec dest mask gwIp oif ans with
        herr | ⟨m', a, e, zs', S', hok, hrep, ha, he, hholds⟩
      · left
        simp only [TableCall.run, herr]
        rfl
      · right
        rw [Fib.routes_addOrUpdate] at hrep
        refine ⟨m', .entry (some (a, e)), ?_, ⟨_, rfl, ?_⟩, zs', S', hrep⟩
        · simp only [TableCall.run, hok, bind, Except.bind, RtMem.found, TableOk.entryAt_of_entries he]
          rfl
        · -- the entry that is returned shows what the map holds now
          rw [← Routes.route_addOrUpdate, Fib.routes_addOrUpdate] at hholds
          exact Fib.shows_of_holds (Function.update_self ..) hholds
  | delete dest mask =>
      rcases h.delete_spec dest mask with ⟨hT, hok⟩ | ⟨hT, m', e, zs', S', hok, hrep, -, -⟩
      · have hnone : T (rtKey dest mask) = none := by
          rw [← Option.not_isSome_iff_eq_none, ← Fib.isSome_routes (F := F), hT]
          exact Bool.false_ne_true
        refine .inr ⟨m, .deleted false, ?_, ?_, ?_⟩
        · simp only [TableCall.run, hok]
          rfl
        · show TableAnswer.deleted false = .deleted (T (rtKey dest mask)).isSome
          rw [hnone]
          rfl
        · -- deleting a key that is absent leaves the map as it is
          have hsame : T.after (.delete dest mask) = T := by
            rw [Fib.after, ← hnone, Function.update_eq_self]
          rw [hsame]
          exact ⟨zs, S, h⟩
      · rw [Fib.routes_delete] at hrep
        rw [Fib.isSome_routes] at hT
        refine .inr ⟨m', .deleted true, ?_, ?_, zs', S', hrep⟩
        · simp only [TableCall.run, hok]
          rfl
        · show TableAnswer.deleted true = .deleted (T (rtKey dest mask)).isSome
          rw [hT]
  | lookUp dest mask =>
      right
      rcases h.find dest mask with ⟨hlook, hT⟩ | ⟨a, ha, hlook, e, he, hk⟩
      · refine ⟨m, .entry none, ?_, ⟨_, rfl, ?_⟩, zs, S, h⟩
        · simp only [TableCall.run, hlook]
          rfl
        · have hnone : T (rtKey dest mask) = none := by
            rw [← Option.not_isSome_iff_eq_none, ← Fib.isSome_routes (F := F), hT]
            exact Bool.false_ne_true
          unfold Fib.Shows
          rw [hnone]
      · refine ⟨m, .entry (some (a, e)), ?_, ⟨_, rfl, ?_⟩, zs, S, h⟩
        · simp only [TableCall.run, hlook, bind, Except.bind, RtMem.found,
            TableOk.entryAt_of_entries he]
          rfl
        · -- an entry of the table holds the route of its own key
          have hholds := h.holds ha he
          obtain ⟨e', c, he', -, -, -, hroute⟩ := h.exists_entry ha
          rw [he] at he'
          cases he'
          have hsome : (T e.rtEntryKeys).isSome = true := by
            rw [← Fib.isSome_routes (F := F), hroute]
            rfl
          obtain ⟨d, hd⟩ := Option.isSome_iff_exists.mp hsome
          rw [← hk]
          exact Fib.shows_of_holds hd hholds

end Refinement

section Runs

variable {A F : Type u} [DecidableEq A]

/-- The invariant: memory holds the map of the calls made, and all of them were answered from it. -/
structure TableSessionOk (s : TableSession A F) : Prop where
  represents : Represents s.mem ((fibOf s.log).routes : Routes F)
  answered : EachAfter (fun before r => (fibOf before).Answers RtEntry.shown r.1 r.2) s.log

theorem TableSessionOk.step {s s' : TableSession A F} {a : TableCall × Calloc A}
    (h : TableSessionOk s) (hstep : (tableMachine A F).step s a = .next s') : TableSessionOk s' := by
  obtain ⟨zs, S, htable⟩ := h.represents
  rcases htable.run a.1 a.2 with herr | ⟨m', answer, hok, hanswer, hrep⟩
  · simp only [tableMachine, herr] at hstep
    cases hstep
  · simp only [tableMachine, hok] at hstep
    cases hstep
    refine ⟨?_, h.answered.concat hanswer⟩
    show Represents m' (Fib.routes (fibOf (s.log ++ [(a.1, answer)])))
    rw [fibOf, List.foldl_append]
    exact hrep

theorem tableSessionOk {s : TableSession A F} (hs : (tableMachine A F).Reachable s) :
    TableSessionOk s := by
  refine hs.invariant (I := fun s => TableSessionOk s) ?_ fun s a s' h _ hstep => h.step hstep
  intro s hinit
  rw [hinit]
  exact ⟨represents_init, .nil⟩

/-- The entries `zs` in memory: a doubly linked list from the head, one entry for each key of the map. -/
structure LinkedMap (m : RtMem A F) (zs : List A) (T : Fib) : Prop where
  linked : EntriesOk m zs
  unique : ∀ a ∈ zs, ∀ a' ∈ zs, ∀ e e', m.entries a = some e → m.entries a' = some e' →
    e.rtEntryKeys = e'.rtEntryKeys → a = a'
  keys : ∀ k, (T k).isSome = true ↔ ∃ a ∈ zs, ∃ e, m.entries a = some e ∧ e.rtEntryKeys = k

omit [DecidableEq A] in
theorem TableOk.linkedMap {m : RtMem A F} {zs : List A} {S : A → List (A × NotifChainElem F)}
    {T : Fib} (h : TableOk m zs S (T.routes : Routes F)) : LinkedMap m zs T where
  linked := h.entries
  unique a ha a' ha' e e' he he' hk := by
    refine h.keys a ha a' ha' e.body e'.body ?_ ?_ hk
    · rw [RtMem.body, he]
      rfl
    · rw [RtMem.body, he']
      rfl
  keys k := by
    constructor
    · intro hsome
      by_contra hno
      have hnone : (T.routes : Routes F) k = none := by
        refine h.absent k fun a ha b hb hk => hno ?_
        obtain ⟨e, he, hbody, -⟩ := RtMem.exists_entry hb
        exact ⟨a, ha, e, he, by rw [← hk, ← hbody]; rfl⟩
      rw [← Fib.isSome_routes (F := F), hnone] at hsome
      cases hsome
    · rintro ⟨a, ha, e, he, rfl⟩
      obtain ⟨e', c, he', -, -, -, hroute⟩ := h.exists_entry ha
      rw [he] at he'
      cases he'
      rw [← Fib.isSome_routes (F := F), hroute]
      rfl

/-- **A routing table is a map.**  In every sequence of additions, deletions and look-ups on a
table, each call is answered as by the map of the calls before it; the entries always form one
doubly linked list with exactly one entry for each key of the map; a deletion leaves every other
entry in the list as it is; and no call fails. -/
theorem rt_isMap {s : TableSession A F} (hs : (tableMachine A F).Reachable s) :
    EachAfter (fun before r => (fibOf before).Answers RtEntry.shown r.1 r.2) s.log ∧
      (∃ zs, LinkedMap s.mem zs (fibOf s.log) ∧ ∀ dest mask ans s',
        (tableMachine A F).step s (.delete dest mask, ans) = .next s' →
          ∃ zs', LinkedMap s'.mem zs' (fibOf s'.log) ∧ ∀ a ∈ zs, ∀ e, s.mem.entries a = some e →
            e.rtEntryKeys ≠ rtKey dest mask → a ∈ zs' ∧ s'.mem.body a = some e.body) ∧
      ∀ a, (tableMachine A F).step s a ≠ .abort := by
  have h := tableSessionOk hs
  obtain ⟨zs, S, htable⟩ := h.represents
  refine ⟨h.answered, ⟨zs, htable.linkedMap, ?_⟩, ?_⟩
  · intro dest mask ans s' hstep
    rcases htable.delete_spec dest mask with ⟨hT, hok⟩ | ⟨hT, m', e, zs', S', hok, hrep, -, hkeep⟩
    · have hrun : TableCall.run s.mem ans (.delete dest mask) = .ok (s.mem, .deleted false) := by
        simp only [TableCall.run, hok]
        rfl
      simp only [tableMachine, hrun] at hstep
      cases hstep
      have hsame : Fib.routes (fibOf (s.log ++ [(.delete dest mask, .deleted false)])) =
          ((fibOf s.log).routes : Routes F) := by
        rw [fibOf, List.foldl_append]
        show Fib.routes (Function.update (fibOf s.log) (rtKey dest mask) none) = _
        rw [← Fib.routes_delete, Routes.delete, ← hT, Function.update_eq_self]
      refine ⟨zs, TableOk.linkedMap (S := S) ?_, fun a ha e he _ => ⟨ha, ?_⟩⟩
      · rw [hsame]
        exact htable
      · rw [RtMem.body, he]
        rfl
    · have hrun : TableCall.run s.mem ans (.delete dest mask) = .ok (m', .deleted true) := by
        simp only [TableCall.run, hok]
        rfl
      simp only [tableMachine, hrun] at hstep
      cases hstep
      refine ⟨zs', TableOk.linkedMap (S := S') ?_, hkeep⟩
      rw [fibOf, List.foldl_append]
      rw [Fib.routes_delete] at hrep
      exact hrep
  · intro a habort
    rcases htable.run a.1 a.2 with herr | ⟨m', answer, hok, -⟩
    · simp only [tableMachine, herr] at habort
      cases habort
    · simp only [tableMachine, hok] at habort
      cases habort

end Runs

/-- Two keys are added, the older one is updated and the newer one is deleted. -/
theorem rt_isMap_trace :
    ∃ (s : TableSession Nat Nat) (zs : List Nat), LinkedMap s.mem zs (fibOf s.log) ∧
      s.log.length = 4 ∧ (fibOf s.log (rtKey [49] 32)).isSome = true ∧
      (fibOf s.log (rtKey [50] 24)).isSome = false := by
  have hrun : ((tableMachine Nat Nat).exec ⟨rtInitRtTable, []⟩
      [(.addOrUpdate [49] 32 (some [49]) (some [50]), ⟨10, 20, 30⟩),
        (.addOrUpdate [50] 24 (some [51]) none, ⟨11, 21, 31⟩),
        (.addOrUpdate [49, 0, 57] 32 none (some [52]), ⟨12, 22, 32⟩),
        (.delete [50] 24, ⟨12, 22, 32⟩)]).holds
      (fun s => decide (s.log.length = 4) && (fibOf s.log (rtKey [49] 32)).isSome &&
        !(fibOf s.log (rtKey [50] 24)).isSome) = true := by
    decide +kernel
  obtain ⟨s, hs, hp⟩ := Machine.exists_reachable_of_exec rfl hrun
  rw [Bool.and_eq_true, Bool.and_eq_true, decide_eq_true_eq, Bool.not_eq_true'] at hp
  obtain ⟨-, ⟨zs, hzs, -⟩, -⟩ := rt_isMap hs
  exact ⟨s, zs, hzs, hp.1.1, hp.1.2, hp.2⟩

end NotifChain
end MultithreadingBible
