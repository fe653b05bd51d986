import MultithreadingBible.Lib.Recording
import MultithreadingBible.NotifChain.Operations

/-!
# Notifications reach exactly the subscribers

`registrations k log` are the registrations made for the key `k` in a sequence of calls since the
entry for `k` was last deleted.  `Delivered log r` says what the call recorded in `r`, made after
those in `log`, owes them: an update with data notifies each once with `NFC_MOD`, a deletion
notifies each once with `NFC_DEL`, and nobody else is called.

The invariant is that memory represents the table the calls so far amount to (`routesOf`).

* `rt_notifications` -- every call on a table does what it owes, and none fails but a registration
  with a key that is too long
-/

namespace MultithreadingBible
namespace NotifChain

open Lib

universe u

variable {A F : Type u}

/-- The registrations for a key after one more call. -/
def Record.registered (k : RtEntryKeys) (rs : List (Registration F)) (r : Record A F) :
    List (Registration F) :=
  match r.call with
  | .register key _ appCb subsId => if key = k then rs ++ [⟨appCb, subsId⟩] else rs
  | .addOrUpdate _ _ _ _ => rs
  | .delete dest mask => if rtKey dest mask = k ∧ r.deleted = true then [] else rs

/-- The registrations made for a key since its entry was last deleted, in order. -/
def registrations (k : RtEntryKeys) (log : List (Record A F)) : List (Registration F) :=
  log.foldl (Record.registered k) []

/-- `e` is the entry for `k` after the addresses that are given were written; the others are what
they were in `old`. -/
structure Updated (e : RtEntry A) (k : RtEntryKeys) (old : CharArray 16 × CharArray 32)
    (gwIp oif : Option (List UInt8)) : Prop where
  keys : e.rtEntryKeys = k
  gwIp : e.gwIp = (gwIp.map (CharArray.strncpy 16)).getD old.1
  oif : e.oif = (oif.map (CharArray.strncpy 32)).getD old.2

/-- The addresses of a key's entry after one more call. -/
def Record.published (k : RtEntryKeys) (d : CharArray 16 × CharArray 32) (r : Record A F) :
    CharArray 16 × CharArray 32 :=
  match r.call with
  | .register _ _ _ _ => d
  | .addOrUpdate dest mask gwIp oif =>
      if rtKey dest mask = k then
        ((gwIp.map (CharArray.strncpy 16)).getD d.1, (oif.map (CharArray.strncpy 32)).getD d.2)
      else d
  | .delete dest mask => if rtKey dest mask = k ∧ r.deleted = true then (.zero 16, .zero 32) else d

/-- The addresses published for a key since its entry was last deleted. -/
def published (k : RtEntryKeys) (log : List (Record A F)) : CharArray 16 × CharArray 32 :=
  log.foldl (Record.published k) (.zero 16, .zero 32)

/-- What a call owes the subscribers, after the calls in `log`. -/
def Delivered (log : List (Record A F)) (r : Record A F) : Prop :=
  match r.call with
  | .register key _ appCb subsId =>
      r.calls = [] ∨ ∃ e, Updated e key (published key log) none none ∧
        r.calls = [(⟨appCb, subsId⟩ : Registration F).call e .add]
  | .addOrUpdate dest mask gwIp oif =>
      if gwIp.isSome || oif.isSome then
        ∃ e, Updated e (rtKey dest mask) (published (rtKey dest mask) log) gwIp oif ∧
          r.calls = (registrations (rtKey dest mask) log).reverse.map fun s => s.call e .mod
      else r.calls = []
  | .delete dest mask =>
      if r.deleted then
        ∃ e, Updated e (rtKey dest mask) (published (rtKey dest mask) log) none none ∧
          r.calls = (registrations (rtKey dest mask) log).reverse.map fun s => s.call e .del
      else r.calls = []

/-- Every call made did what it owed. -/
def AllDelivered (log : List (Record A F)) : Prop :=
  ∀ before r after, log = before ++ r :: after → Delivered before r

/-- A registration that fails the assertion on the size of the key. -/
def RtCall.keyTooLong : RtCall F → Prop
  | .register _ keySize _ _ => maxNotifKeySize < keySize
  | _ => False

/-- The table after one more call. -/
def Record.routes (T : Routes F) (r : Record A F) : Routes F :=
  match r.call with
  | .register key _ appCb subsId => T.register key ⟨appCb, subsId⟩
  | .addOrUpdate dest mask gwIp oif => T.addOrUpdate (rtKey dest mask) gwIp oif
  | .delete dest mask => T.delete (rtKey dest mask)

/-- The table the calls made amount to. -/
def routesOf (log : List (Record A F)) : Routes F := log.foldl Record.routes fun _ => none

theorem routesOf_concat (log : List (Record A F)) (r : Record A F) :
    routesOf (log ++ [r]) = r.routes (routesOf log) := by
  rw [routesOf, List.foldl_append]
  rfl

/-- A deletion succeeded if there was a route. -/
def Record.Deletes (T : Routes F) (r : Record A F) : Prop :=
  ∀ dest mask, r.call = .delete dest mask → r.deleted = (T (rtKey dest mask)).isSome

/-- What a call leaves on record, carried out on the table `T`, if it hands the entry `e` to the
callbacks. -/
def RtCall.record (call : RtCall F) (T : Routes F) (e : RtEntry A) : Record A F where
  call := call
  calls :=
    match call with
    | .register key _ appCb subsId =>
        if (T key).isSome then [(⟨appCb, subsId⟩ : Registration F).call e .add] else []
    | .addOrUpdate dest mask gwIp oif =>
        if gwIp.isSome || oif.isSome then
          (T.route (rtKey dest mask)).subs.map fun r => r.call e .mod else []
    | .delete dest mask =>
        if (T (rtKey dest mask)).isSome then
          (T.route (rtKey dest mask)).subs.map fun r => r.call e .del else []
  deleted :=
    match call with
    | .delete dest mask => (T (rtKey dest mask)).isSome
    | _ => false

/-- The entry a call hands to the callbacks has the addresses of the key's route. -/
def RtCall.Hands (call : RtCall F) (T : Routes F) (e : RtEntry A) : Prop :=
  match call with
  | .register key _ _ _ => e.Holds key (T.route key)
  | .addOrUpdate dest mask gwIp oif =>
      e.Holds (rtKey dest mask) ((T.route (rtKey dest mask)).write gwIp oif)
  | .delete dest mask => e.Holds (rtKey dest mask) (T.route (rtKey dest mask))

/-- The route of a table for a key, as data and registrations in order. -/
def Routes.Matches (T : Routes F) (k : RtEntryKeys) (d : CharArray 16 × CharArray 32)
    (rs : List (Registration F)) : Prop :=
  (T.route k).gwIp = d.1 ∧ (T.route k).oif = d.2 ∧ (T.route k).subs.reverse = rs

theorem route_update (T : Routes F) (k k' : RtEntryKeys) (v : Option (Route F)) :
    Routes.route (Function.update T k' v) k = if k = k' then v.getD .empty else T.route k := by
  by_cases hk : k = k'
  · subst hk
    simp [Routes.route]
  · simp [Routes.route, hk]

/-- One more call keeps the table in step with the history. -/
theorem Record.matches_step {T : Routes F} {r : Record A F} {k : RtEntryKeys}
    {d : CharArray 16 × CharArray 32} {rs : List (Registration F)} (h : T.Matches k d rs)
    (hdel : r.Deletes T) :
    (r.routes T).Matches k (r.published k d) (r.registered k rs) := by
  obtain ⟨hgw, hoif, hsubs⟩ := h
  obtain ⟨call, calls, deleted⟩ := r
  cases call with
  | register key keySize appCb subsId =>
      show (T.register key ⟨appCb, subsId⟩).Matches k d
        (if key = k then rs ++ [⟨appCb, subsId⟩] else rs)
      rw [Routes.Matches, Routes.register, route_update]
      by_cases hk : key = k
      · rw [if_pos hk.symm, if_pos hk, hk]
        exact ⟨hgw, hoif, by simp [hsubs]⟩
      · rw [if_neg (Ne.symm hk), if_neg hk]
        exact ⟨hgw, hoif, hsubs⟩
  | addOrUpdate dest mask gwIp oif =>
      show (T.addOrUpdate (rtKey dest mask) gwIp oif).Matches k (if rtKey dest mask = k then
        ((gwIp.map (CharArray.strncpy 16)).getD d.1, (oif.map (CharArray.strncpy 32)).getD d.2)
        else d) rs
      rw [Routes.Matches, Routes.addOrUpdate, route_update]
      by_cases hk : rtKey dest mask = k
      · rw [if_pos hk.symm, if_pos hk, hk]
        refine ⟨?_, ?_, hsubs⟩
        · rw [← hgw]
          rfl
        · rw [← hoif]
          rfl
      · rw [if_neg (Ne.symm hk), if_neg hk]
        exact ⟨hgw, hoif, hsubs⟩
  | delete dest mask =>
      have hdeleted : deleted = (T (rtKey dest mask)).isSome := hdel dest mask rfl
      show (T.delete (rtKey dest mask)).Matches k
        (if rtKey dest mask = k ∧ deleted = true then (.zero 16, .zero 32) else d)
        (if rtKey dest mask = k ∧ deleted = true then [] else rs)
      rw [Routes.Matches, Routes.delete, route_update]
      by_cases hk : rtKey dest mask = k
      · rw [if_pos hk.symm]
        by_cases hd : deleted = true
        · rw [if_pos ⟨hk, hd⟩, if_pos ⟨hk, hd⟩]
          exact ⟨rfl, rfl, rfl⟩
        · -- there is no route, hence no data and no registration
          rw [if_neg (fun hc => hd hc.2), if_neg (fun hc => hd hc.2)]
          have hnone : T k = none := by
            rw [hdeleted, hk] at hd
            simpa using hd
          rw [Routes.route_of_none hnone] at hgw hoif hsubs
          exact ⟨hgw, hoif, hsubs⟩
      · rw [if_neg (Ne.symm hk), if_neg (fun hc => hk hc.1), if_neg (fun hc => hk hc.1)]
        exact ⟨hgw, hoif, hsubs⟩

variable [DecidableEq A]

/-- The invariant: the memory represents the calls made, and all of them were right. -/
structure SessionOk (s : RtSession A F) : Prop where
  represents : Represents s.mem (routesOf s.log)
  matches_ : ∀ k, (routesOf s.log).Matches k (published k s.log) (registrations k s.log)
  delivered : AllDelivered s.log

/-- **What one call does** on memory that holds a table: unless `calloc` answers with an address in
use, or the key is too long, it succeeds, and the memory then holds the table the call is for. -/
theorem Represents.run {m : RtMem A F} {T : Routes F} (h : Represents m T) (call : RtCall F)
    (ans : Calloc A) :
    call.run m ans = .error .inUse ∨
      (call.keyTooLong ∧ call.run m ans = .error .assertFailed) ∨
      ∃ m' e, call.run m ans = .ok (m', call.record T e) ∧
        Represents m' ((call.record T e).routes T) ∧ call.Hands T e := by
  obtain ⟨zs, S, htable⟩ := h
  cases call with
  | register key keySize appCb subsId =>
      rcases htable.register_spec key keySize appCb subsId ans with
        herr | ⟨hsize, herr⟩ | ⟨-, m', e, hok, hrep, he⟩
      · left
        simp only [RtCall.run, herr]
        rfl
      · refine .inr (.inl ⟨hsize, ?_⟩)
        simp only [RtCall.run, herr]
        rfl
      · refine .inr (.inr ⟨m', e, ?_, hrep, he⟩)
        simp only [RtCall.run, hok]
        rfl
  | addOrUpdate dest mask gwIp oif =>
      rcases htable.addOrUpdate_spec dest mask gwIp oif ans with
        herr | ⟨m', a, e, zs', S', hok, hrep, -, -, he⟩
      · left
        simp only [RtCall.run, herr]
        rfl
      · refine .inr (.inr ⟨m', e, ?_, ⟨zs', S', hrep⟩, he⟩)
        simp only [RtCall.run, hok]
        rfl
  | delete dest mask =>
      rcases htable.delete_spec dest mask with ⟨hT, hok⟩ | ⟨hT, m', e, zs', S', hok, hrep, he, -⟩
      · -- there is no entry to delete, and the table is what it was
        refine .inr (.inr ⟨m, ⟨rtKey dest mask, .zero 16, .zero 32, none, none, none⟩, ?_, ?_, ?_⟩)
        · simp only [RtCall.run, hok, RtCall.record, hT]
          rfl
        · have hsame : T.delete (rtKey dest mask) = T := by
            rw [Routes.delete, ← hT, Function.update_eq_self]
          show Represents m (T.delete (rtKey dest mask))
          rw [hsame]
          exact ⟨zs, S, htable⟩
        · show RtEntry.Holds _ _ (T.route (rtKey dest mask))
          rw [Routes.route_of_none hT]
          exact ⟨rfl, rfl, rfl⟩
      · refine .inr (.inr ⟨m', e, ?_, ⟨zs', S', hrep⟩, he⟩)
        simp only [RtCall.run, hok, RtCall.record, hT, if_true]
        rfl

omit [DecidableEq A] in
/-- A call does what it owes the subscribers, after a history that matches the table. -/
theorem SessionOk.delivered_record {s : RtSession A F} (h : SessionOk s) {call : RtCall F}
    {e : RtEntry A} (he : call.Hands (routesOf s.log) e) :
    Delivered s.log (call.record (routesOf s.log) e) := by
  -- an entry that holds a route holds what was published for the key
  have hupdated : ∀ {k} {gwIp oif : Option (List UInt8)},
      e.Holds k (((routesOf s.log).route k).write gwIp oif) →
        Updated e k (published k s.log) gwIp oif := by
    intro k gwIp oif he
    obtain ⟨hgw, hoif, -⟩ := h.matches_ k
    refine ⟨he.keys, ?_, ?_⟩
    · rw [he.gwIp, ← hgw]
      rfl
    · rw [he.oif, ← hoif]
      rfl
  have hsubs : ∀ k, ((routesOf s.log).route k).subs = (registrations k s.log).reverse := by
    intro k
    obtain ⟨-, -, hk⟩ := h.matches_ k
    rw [← hk, List.reverse_reverse]
  cases call with
  | register key keySize appCb subsId =>
      by_cases hT : (routesOf s.log key).isSome = true
      · exact .inr ⟨e, hupdated he, if_pos hT⟩
      · exact .inl (if_neg hT)
  | addOrUpdate dest mask gwIp oif =>
      show ite _ _ _
      by_cases hdata : (gwIp.isSome || oif.isSome) = true
      · rw [if_pos hdata]
        refine ⟨e, hupdated he, ?_⟩
        rw [← hsubs]
        exact if_pos hdata
      · rw [if_neg hdata]
        exact if_neg hdata
  | delete dest mask =>
      show ite ((routesOf s.log (rtKey dest mask)).isSome = true) _ _
      by_cases hT : (routesOf s.log (rtKey dest mask)).isSome = true
      · rw [if_pos hT]
        refine ⟨e, hupdated he, ?_⟩
        rw [← hsubs]
        exact if_pos hT
      · rw [if_neg hT]
        exact if_neg hT

omit [DecidableEq A] in
theorem RtCall.record_deletes (call : RtCall F) (T : Routes F) (e : RtEntry A) :
    (call.record T e).Deletes T := by
  intro dest mask hcall
  have hcall : call = .delete dest mask := hcall
  rw [hcall]
  rfl

omit [DecidableEq A] in
/-- A record that did what it owed is added to a history of such records. -/
theorem AllDelivered.snoc {log : List (Record A F)} {r : Record A F} (h : AllDelivered log)
    (hr : Delivered log r) : AllDelivered (log ++ [r]) :=
  EachAfter.concat (Q := Delivered) h hr

/-- A step makes a call, which does what it is for and leaves its record. -/
theorem Represents.step {s s' : RtSession A F} {a : RtCall F × Calloc A}
    (h : Represents s.mem (routesOf s.log)) (hstep : (rtMachine A F).step s a = .next s') :
    ∃ e, s'.log = s.log ++ [a.1.record (routesOf s.log) e] ∧ Represents s'.mem (routesOf s'.log) ∧
      a.1.Hands (routesOf s.log) e := by
  rcases h.run a.1 a.2 with herr | ⟨-, herr⟩ | ⟨m, e, hok, hrep, he⟩
  · simp only [rtMachine, herr] at hstep
    cases hstep
  · simp only [rtMachine, herr] at hstep
    cases hstep
  · simp only [rtMachine, hok] at hstep
    cases hstep
    refine ⟨e, rfl, ?_, he⟩
    rw [routesOf_concat]
    exact hrep

theorem SessionOk.step {s s' : RtSession A F} {a : RtCall F × Calloc A} (h : SessionOk s)
    (hstep : (rtMachine A F).step s a = .next s') : SessionOk s' := by
  obtain ⟨e, hlog, hrep, he⟩ := h.represents.step hstep
  refine ⟨hrep, fun k => ?_, ?_⟩
  · rw [hlog, routesOf_concat, published, registrations, List.foldl_append, List.foldl_append]
    exact Record.matches_step (h.matches_ k) (a.1.record_deletes _ e)
  · rw [hlog]
    exact h.delivered.snoc (h.delivered_record he)

theorem sessionOk {s : RtSession A F} (hs : (rtMachine A F).Reachable s) : SessionOk s := by
  refine hs.invariant (I := fun s => SessionOk s) ?_ fun s a s' h _ hstep => h.step hstep
  intro s hinit
  rw [hinit]
  refine ⟨represents_init, fun k => ⟨rfl, rfl, rfl⟩, fun before r after heq => ?_⟩
  simp at heq

section Results

/-- **Notifications reach exactly the subscribers.**  In every sequence of calls on a table, each
call notifies the registrations it owes and nobody else; and no call fails, save a registration
whose key is too long. -/
theorem rt_notifications {s : RtSession A F} (hs : (rtMachine A F).Reachable s) :
    AllDelivered s.log ∧ ∀ call ans, (rtMachine A F).step s (call, ans) = .abort →
      call.keyTooLong := by
  have h := sessionOk hs
  refine ⟨h.delivered, fun call ans habort => ?_⟩
  rcases h.represents.run call ans with herr | ⟨hlong, -⟩ | ⟨m, e, hok, -⟩
  · simp only [rtMachine, herr] at habort
    cases habort
  · exact hlong
  · simp only [rtMachine, hok] at habort
    cases habort

/-- Two subscribers, one of them ahead of the publisher; an update and a deletion, and an update of
the entry that comes after it. -/
theorem rt_notifications_trace :
    ∃ s : RtSession Nat Nat, (s.log.map fun r => r.calls.map fun c => (c.appCb, c.opCode)) =
      [[], [(7, .mod)], [(8, .add)], [(8, .mod), (7, .mod)], [(8, .del), (7, .del)], []] ∧
      AllDelivered s.log := by
  let dest : List UInt8 := [49, 50, 50, 46, 49]
  let key : RtEntryKeys := rtKey dest 32
  have hrun : ((rtMachine Nat Nat).exec ⟨rtInitRtTable, []⟩
      [(.register key 17 7 1, ⟨10, 20, 30⟩), (.addOrUpdate dest 32 (some [49]) none, ⟨10, 20, 30⟩),
        (.register key 17 8 2, ⟨11, 21, 31⟩), (.addOrUpdate dest 32 none (some [50]), ⟨10, 20, 30⟩),
        (.delete dest 32, ⟨10, 20, 30⟩), (.addOrUpdate dest 32 (some [51]) none, ⟨10, 20, 30⟩)]).holds
      (fun s => decide ((s.log.map fun r => r.calls.map fun c => (c.appCb, c.opCode)) =
        [[], [(7, .mod)], [(8, .add)], [(8, .mod), (7, .mod)], [(8, .del), (7, .del)], []])) =
      true := by
    decide +kernel
  obtain ⟨s, hs, hp⟩ := Machine.exists_reachable_of_exec rfl hrun
  exact ⟨s, of_decide_eq_true hp, (rt_notifications hs).1⟩

end Results

end NotifChain
end MultithreadingBible
