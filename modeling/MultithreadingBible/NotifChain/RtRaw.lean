import MultithreadingBible.Lib.Runs
import MultithreadingBible.NotifChain.RtMap

/-!
# The routing table without notifications (`rt_raw.c`)

`rt_raw.c` is the table of `rt.c` before notification chains were added to it.  Its entries have no
chain, and nothing is called when one is added, updated or deleted.

* `RtRaw.erase`, `RtRaw.attach` -- a table of `rt.c` without its chains, and a table of `rt_raw.c`
  with an empty chain for every entry.
* `rt_refinesRaw` -- whatever is subscribed, the table of `rt.c` stays the one `rt_raw.c` would have made.
* `rtRaw_isMap` -- the table of `rt_raw.c` is a map.
-/

namespace MultithreadingBible
namespace NotifChain
namespace RtRaw

open Lib

universe u

structure RtEntry (A : Type*) where
  rtEntryKeys : RtEntryKeys
  gwIp : CharArray 16
  oif : CharArray 32
  prev : Option A
  next : Option A
  deriving DecidableEq

/-- `rt_table_t` and the entries in memory.  `fuel` is the number of entries ever allocated. -/
structure RtMem (A : Type*) where
  head : Option A
  entries : A → Option (RtEntry A)
  fuel : Nat

/-- The test of `rt_look_up_rt_entry` and `rt_delete_rt_entry`. -/
def RtEntry.hasKey {A : Type*} (e : RtEntry A) (dest : List UInt8) (mask : UInt8) : Bool :=
  e.rtEntryKeys.dest.strncmpEq dest && e.rtEntryKeys.mask == mask

variable {A : Type u}

def rtInitRtTable : RtMem A := ⟨none, fun _ => none, 0⟩

namespace RtMem

/-- Read an entry. -/
def entryAt (m : RtMem A) (a : A) : Except Failure (RtEntry A) :=
  match m.entries a with
  | none => .error .badAccess
  | some e => .ok e

variable [DecidableEq A]

/-- Write an entry. -/
def setEntry (m : RtMem A) (a : A) (e : RtEntry A) : RtMem A :=
  { m with entries := Function.update m.entries a (some e) }

/-- `a->prev = v` -/
def setPrev (m : RtMem A) (a : A) (v : Option A) : Except Failure (RtMem A) :=
  (m.entryAt a).map fun e => m.setEntry a { e with prev := v }

/-- `a->next = v` -/
def setNext (m : RtMem A) (a : A) (v : Option A) : Except Failure (RtMem A) :=
  (m.entryAt a).map fun e => m.setEntry a { e with next := v }

/-- `free(a)` -/
def free (m : RtMem A) (a : A) : Except Failure (RtMem A) :=
  (m.entryAt a).map fun _ => { m with entries := Function.update m.entries a none }

end RtMem

/-- The loop of `rt_look_up_rt_entry`. -/
def rtLookUpLoop (m : RtMem A) (dest : List UInt8) (mask : UInt8) :
    Nat → Option A → Except Failure (Option A)
  | _, none => .ok none
  | 0, some _ => .error .outOfFuel
  | fuel + 1, some a => do
      let e ← m.entryAt a
      if e.hasKey dest mask then return some a
      rtLookUpLoop m dest mask fuel e.next

def rtLookUpRtEntry (m : RtMem A) (dest : List UInt8) (mask : UInt8) :
    Except Failure (Option A) :=
  rtLookUpLoop m dest mask m.fuel m.head

section Calls

variable [DecidableEq A]

def rtEntryRemove (m : RtMem A) (a : A) : Except Failure (RtMem A) := do
  let e ← m.entryAt a
  match e.prev, e.next with
  | none, some n =>
      let m ← m.setPrev n none
      let m := { m with head := some n }
      m.setNext a none
  | none, none => return { m with head := none }
  | some p, none =>
      let m ← m.setNext p none
      m.setPrev a none
  | some p, some n =>
      let m ← m.setNext p (some n)
      let m ← m.setPrev n (some p)
      let m ← m.setPrev a none
      m.setNext a none

/-- A new entry in memory: `calloc` and the keys. -/
def rtNewEntry (m : RtMem A) (dest : List UInt8) (mask : UInt8) (new : A) :
    Except Failure (RtMem A) := do
  if (m.entries new).isSome then throw .inUse
  return { m with
    entries := Function.update m.entries new
      (some ⟨rtKey dest mask, .zero 16, .zero 32, none, none⟩)
    fuel := m.fuel + 1 }

/-- The two `strncpy` calls of `rt_add_or_update_rt_entry`, for the arguments that are not null. -/
def RtEntry.write {A : Type*} (e : RtEntry A) (gwIp oif : Option (List UInt8)) : RtEntry A :=
  { e with
    gwIp := (gwIp.map (CharArray.strncpy 16)).getD e.gwIp
    oif := (oif.map (CharArray.strncpy 32)).getD e.oif }

/-- Put a new entry in front of the table. -/
def rtInsertFirst (m : RtMem A) (a : A) : Except Failure (RtMem A) := do
  let head := m.head
  let m := { m with head := some a }
  let m ← m.setPrev a none
  let m ← m.setNext a head
  match head with
  | none => return m
  | some h => m.setPrev h (some a)

/-- `rt_add_or_update_rt_entry`: the table and the entry returned.  `new` is the answer of `calloc`,
should it be called. -/
def rtAddOrUpdateRtEntry (m : RtMem A) (dest : List UInt8) (mask : UInt8)
    (gwIp oif : Option (List UInt8)) (new : A) : Except Failure (RtMem A × A) := do
  let found ← rtLookUpRtEntry m dest mask
  let newEntry := found.isNone
  let a := found.getD new
  let m ← if newEntry then rtNewEntry m dest mask new else pure m
  let e ← m.entryAt a
  let m := m.setEntry a (e.write gwIp oif)
  let m ← if newEntry then rtInsertFirst m a else pure m
  return (m, a)

/-- The loop of `rt_delete_rt_entry`. -/
def rtDeleteLoop (m : RtMem A) (dest : List UInt8) (mask : UInt8) :
    Nat → Option A → Except Failure (RtMem A × Bool)
  | _, none => return (m, false)
  | 0, some _ => .error .outOfFuel
  | fuel + 1, some a => do
      let e ← m.entryAt a
      let next := e.next
      if e.hasKey dest mask then
        let m ← rtEntryRemove m a
        let m ← m.free a
        return (m, true)
      else rtDeleteLoop m dest mask fuel next

/-- `rt_delete_rt_entry`: the table and the value returned. -/
def rtDeleteRtEntry (m : RtMem A) (dest : List UInt8) (mask : UInt8) :
    Except Failure (RtMem A × Bool) :=
  rtDeleteLoop m dest mask m.fuel m.head

/-- The key and the addresses in an entry. -/
def RtEntry.shown {A : Type*} (e : RtEntry A) : RtEntryKeys × CharArray 16 × CharArray 32 :=
  (e.rtEntryKeys, e.gwIp, e.oif)

/-- The entry a pointer leads to. -/
def RtMem.found {A : Type*} (m : RtMem A) : Option A → Except Failure (Option (A × RtEntry A))
  | none => .ok none
  | some a => (m.entryAt a).map fun e => some (a, e)

/-- Carry out a call.  `new` is the answer of `calloc`, should it be called. -/
def run (m : RtMem A) (new : A) : TableCall → Except Failure (RtMem A × TableAnswer A (RtEntry A))
  | .addOrUpdate dest mask gwIp oif => do
      let (m, a) ← rtAddOrUpdateRtEntry m dest mask gwIp oif new
      return (m, .entry (← m.found (some a)))
  | .delete dest mask => do
      let (m, deleted) ← rtDeleteRtEntry m dest mask
      return (m, .deleted deleted)
  | .lookUp dest mask => do
      let a ← rtLookUpRtEntry m dest mask
      return (m, .entry (← m.found a))

/-- A table and the calls made on it so far, with their answers. -/
structure Session (A : Type*) where
  mem : RtMem A
  log : List (TableCall × TableAnswer A (RtEntry A))

/-- A table on which calls are made one after the other.  A failing call ends the process. -/
def machine (A : Type u) [DecidableEq A] : Machine (Session A) (TableCall × A) where
  init s := s = ⟨rtInitRtTable, []⟩
  step s a :=
    match run s.mem a.2 a.1 with
    | .ok (m, answer) => .next ⟨m, s.log ++ [(a.1, answer)]⟩
    | .error .inUse => .blocked
    | .error _ => .abort

end Calls

section Used

variable {m m' : RtMem A} {a : A}

theorem exists_of_bind_ok {α β : Type u} {x : Except Failure α} {k : α → Except Failure β} {b : β}
    (h : x >>= k = .ok b) : ∃ a, x = .ok a ∧ k a = .ok b := by
  cases x with
  | error f => cases h
  | ok a => exact ⟨a, rfl, h⟩

theorem exists_of_map_ok {α β : Type u} {x : Except Failure α} {f : α → β} {b : β}
    (h : x.map f = .ok b) : ∃ a, x = .ok a ∧ f a = b := by
  cases x with
  | error f => cases h
  | ok a => exact ⟨a, rfl, Except.ok.inj h⟩

/-- The addresses of the entries in use. -/
def RtMem.used {A : Type*} (m : RtMem A) (a : A) : Bool := (m.entries a).isSome

theorem used_of_entryAt {e : RtEntry A} (h : m.entryAt a = .ok e) : m.used a = true := by
  unfold RtMem.entryAt at h
  unfold RtMem.used
  cases he : m.entries a with
  | none => simp [he] at h
  | some e' => rfl

theorem exists_entryAt (h : m.used a = true) : ∃ e, m.entryAt a = .ok e := by
  obtain ⟨e, he⟩ := Option.isSome_iff_exists.mp h
  exact ⟨e, by rw [RtMem.entryAt, he]⟩

variable [DecidableEq A]

theorem setEntry_used (e : RtEntry A) (h : m.used a = true) : (m.setEntry a e).used = m.used := by
  ext1 b
  unfold RtMem.used RtMem.setEntry
  dsimp only
  by_cases hb : b = a
  · subst hb
    rw [Function.update_self]
    exact h.symm
  · rw [Function.update_of_ne hb]

theorem setPrev_used {v : Option A} (h : m.setPrev a v = .ok m') : m'.used = m.used := by
  obtain ⟨e, he, rfl⟩ := exists_of_map_ok h
  exact setEntry_used _ (used_of_entryAt he)

theorem setNext_used {v : Option A} (h : m.setNext a v = .ok m') : m'.used = m.used := by
  obtain ⟨e, he, rfl⟩ := exists_of_map_ok h
  exact setEntry_used _ (used_of_entryAt he)

/-- Unlinking an entry frees nothing. -/
theorem entryRemove_used (h : rtEntryRemove m a = .ok m') : m'.used = m.used := by
  obtain ⟨⟨keys, gwIp, oif, prev, next⟩, he, h⟩ := exists_of_bind_ok h
  cases prev with
  | none =>
      cases next with
      | none =>
          cases h
          rfl
      | some n =>
          obtain ⟨m₁, h₁, h⟩ := exists_of_bind_ok h
          have hhead : ({ m₁ with head := some n } : RtMem A).used = m.used :=
            show m₁.used = m.used from setPrev_used h₁
          exact (setNext_used h).trans hhead
  | some p =>
      cases next with
      | none =>
          obtain ⟨m₁, h₁, h⟩ := exists_of_bind_ok h
          exact (setPrev_used h).trans (setNext_used h₁)
      | some n =>
          obtain ⟨m₁, h₁, h⟩ := exists_of_bind_ok h
          obtain ⟨m₂, h₂, h⟩ := exists_of_bind_ok h
          obtain ⟨m₃, h₃, h⟩ := exists_of_bind_ok h
          rw [setNext_used h, setPrev_used h₃, setPrev_used h₂, setNext_used h₁]

theorem insertFirst_used (h : rtInsertFirst m a = .ok m') : m'.used = m.used := by
  obtain ⟨m₁, h₁, h⟩ := exists_of_bind_ok h
  obtain ⟨m₂, h₂, h⟩ := exists_of_bind_ok h
  have hhead : m₁.used = m.used := by
    rw [setPrev_used h₁]
    rfl
  have hlinked : m₂.used = m.used := (setNext_used h₂).trans hhead
  split at h
  · cases h
    exact hlinked
  · exact (setPrev_used h).trans hlinked

end Used

section Attach

variable {F : Type u} {own : A → Option A} {nfcs : NfcMem A F} {r : RtMem A}

/-- The entry with a chain. -/
def RtEntry.attach {A : Type*} (e : RtEntry A) (c : Option A) : NotifChain.RtEntry A :=
  ⟨e.rtEntryKeys, e.gwIp, e.oif, e.prev, e.next, c⟩

/-- The table with the chains `nfcs`; the entry at `a` has the chain `own a`. -/
def RtMem.attach (own : A → Option A) (nfcs : NfcMem A F) (r : RtMem A) : NotifChain.RtMem A F :=
  ⟨r.head, fun a => (r.entries a).map fun e => e.attach (own a), nfcs, r.fuel⟩

/-- The table without its chains. -/
def erase (m : NotifChain.RtMem A F) : RtMem A where
  head := m.head
  entries a := (m.entries a).map fun e => ⟨e.rtEntryKeys, e.gwIp, e.oif, e.prev, e.next⟩
  fuel := m.fuel

/-- Every table of `rt.c` is one of `rt_raw.c` with chains. -/
theorem attach_erase (m : NotifChain.RtMem A F) :
    (erase m).attach (fun a => (m.entries a).bind fun e => e.nfc) m.nfcs = m := by
  unfold RtMem.attach erase
  congr 1
  ext1 a
  dsimp only
  cases m.entries a with
  | none => rfl
  | some e => rfl

theorem erase_attach : erase (r.attach own nfcs) = r := by
  unfold RtMem.attach erase
  congr 1
  ext1 a
  dsimp only
  cases r.entries a with
  | none => rfl
  | some e => rfl

/-- Two computations that `f` relates, carried on by computations that `g` relates. -/
theorem map_bind_map {α β γ δ : Type u} {f : α → β} {g : γ → δ} {x : Except Failure α}
    {k : β → Except Failure δ} {k' : α → Except Failure γ} (h : ∀ a, k (f a) = (k' a).map g) :
    (x.map f >>= k) = (x >>= k').map g := by
  cases x with
  | error e => rfl
  | ok a => exact h a

theorem attach_entryAt (a : A) :
    (r.attach own nfcs).entryAt a = (r.entryAt a).map fun e => e.attach (own a) := by
  unfold NotifChain.RtMem.entryAt RtMem.entryAt RtMem.attach
  dsimp only
  cases r.entries a with
  | none => rfl
  | some e => rfl

theorem attach_lookUpLoop (dest : List UInt8) (mask : UInt8) (fuel : Nat) (curr : Option A) :
    NotifChain.rtLookUpLoop (r.attach own nfcs) dest mask fuel curr =
      rtLookUpLoop r dest mask fuel curr := by
  induction fuel generalizing curr with
  | zero =>
      cases curr with
      | none => rfl
      | some a => rfl
  | succ fuel ih =>
      cases curr with
      | none => rfl
      | some a =>
          simp only [NotifChain.rtLookUpLoop, rtLookUpLoop, attach_entryAt]
          cases r.entryAt a with
          | error f => rfl
          | ok e =>
              have hkey : (e.attach (own a)).hasKey dest mask = e.hasKey dest mask := rfl
              simp only [Except.map, bind, Except.bind, hkey]
              cases e.hasKey dest mask with
              | true => rfl
              | false => exact ih e.next

theorem attach_lookUp (dest : List UInt8) (mask : UInt8) :
    NotifChain.rtLookUpRtEntry (r.attach own nfcs) dest mask = rtLookUpRtEntry r dest mask :=
  attach_lookUpLoop dest mask r.fuel r.head

variable [DecidableEq A]

theorem attach_setEntry (a : A) (e : RtEntry A) :
    (r.attach own nfcs).setEntry a (e.attach (own a)) = (r.setEntry a e).attach own nfcs := by
  unfold NotifChain.RtMem.setEntry RtMem.setEntry RtMem.attach
  congr 1
  ext1 b
  by_cases hb : b = a
  · subst hb
    simp
  · simp [hb]

theorem attach_setPrev (a : A) (v : Option A) :
    (r.attach own nfcs).setPrev a v = (r.setPrev a v).map (RtMem.attach own nfcs) := by
  unfold NotifChain.RtMem.setPrev RtMem.setPrev
  rw [attach_entryAt]
  cases r.entryAt a with
  | error f => rfl
  | ok e => exact congrArg Except.ok (attach_setEntry a { e with prev := v })

theorem attach_setNext (a : A) (v : Option A) :
    (r.attach own nfcs).setNext a v = (r.setNext a v).map (RtMem.attach own nfcs) := by
  unfold NotifChain.RtMem.setNext RtMem.setNext
  rw [attach_entryAt]
  cases r.entryAt a with
  | error f => rfl
  | ok e => exact congrArg Except.ok (attach_setEntry a { e with next := v })

theorem attach_entryRemove (a : A) :
    NotifChain.rtEntryRemove (r.attach own nfcs) a =
      (rtEntryRemove r a).map (RtMem.attach own nfcs) := by
  unfold NotifChain.rtEntryRemove rtEntryRemove
  rw [attach_entryAt]
  refine map_bind_map fun e => ?_
  obtain ⟨keys, gwIp, oif, prev, next⟩ := e
  cases prev with
  | none =>
      cases next with
      | none => rfl
      | some n =>
          show ((r.attach own nfcs).setPrev n none >>= _) = _
          rw [attach_setPrev]
          refine map_bind_map fun r₁ => ?_
          exact attach_setNext (r := { r₁ with head := some n }) a none
  | some p =>
      cases next with
      | none =>
          show ((r.attach own nfcs).setNext p none >>= _) = _
          rw [attach_setNext]
          exact map_bind_map fun r₁ => attach_setPrev a none
      | some n =>
          show ((r.attach own nfcs).setNext p (some n) >>= _) = _
          rw [attach_setNext]
          refine map_bind_map fun r₁ => ?_
          rw [attach_setPrev]
          refine map_bind_map fun r₂ => ?_
          rw [attach_setPrev]
          exact map_bind_map fun r₃ => attach_setNext a none

theorem attach_insertFirst (a : A) :
    NotifChain.rtInsertFirst (r.attach own nfcs) a =
      (rtInsertFirst r a).map (RtMem.attach own nfcs) := by
  unfold NotifChain.rtInsertFirst rtInsertFirst
  show (({ r with head := some a } : RtMem A).attach own nfcs).setPrev a none >>= _ = _
  rw [attach_setPrev]
  refine map_bind_map fun r₁ => ?_
  rw [attach_setNext]
  refine map_bind_map fun r₂ => ?_
  show (match r.head with | none => _ | some h => _ : Except Failure _) = _
  cases r.head with
  | none => rfl
  | some h => exact attach_setPrev h (some a)

end Attach

section Erase

variable {F : Type u}

/-- The notification at the end of `rt_add_or_update_rt_entry` leaves the table alone. -/
theorem notify_ok {m m' : NotifChain.RtMem A F} {a a' : A} {gwIp oif : Option (List UInt8)}
    {calls : List (NfcCall F (NotifChain.RtEntry A))}
    (h : (if gwIp.isSome || oif.isSome then do
        let e ← m.entryAt a
        let c ← chainOf e
        let calls ← nfcInvokeNotifChain m.nfcs c e none 0 .mod
        return (m, calls, a)
      else return (m, [], a) : Except Failure (_ × List (NfcCall F (NotifChain.RtEntry A)) × A)) =
      .ok (m', calls, a')) : m' = m ∧ a' = a := by
  split at h
  case isTrue =>
    obtain ⟨e, -, h⟩ := exists_of_bind_ok h
    obtain ⟨c, -, h⟩ := exists_of_bind_ok h
    obtain ⟨calls', -, h⟩ := exists_of_bind_ok h
    cases h
    exact ⟨rfl, rfl⟩
  case isFalse =>
    cases h
    exact ⟨rfl, rfl⟩

theorem lookUp_erase (m : NotifChain.RtMem A F) (dest : List UInt8) (mask : UInt8) :
    rtLookUpRtEntry (erase m) dest mask = NotifChain.rtLookUpRtEntry m dest mask := by
  conv_rhs => rw [← attach_erase m]
  rw [attach_lookUp]

variable [DecidableEq A]

/-- The new entry of `rt.c` is the new entry of `rt_raw.c` with its chain. -/
theorem newEntry_ok {own : A → Option A} {nfcs : NfcMem A F} {r : RtMem A}
    {dest : List UInt8} {mask : UInt8} {ans : Calloc A} {m' : NotifChain.RtMem A F}
    (h : NotifChain.rtNewEntry (r.attach own nfcs) dest mask ans = .ok m') :
    ∃ own' nfcs' r', m' = r'.attach own' nfcs' ∧ rtNewEntry r dest mask ans.entry = .ok r' := by
  unfold NotifChain.rtNewEntry at h
  unfold rtNewEntry
  cases hentry : r.entries ans.entry with
  | some e =>
      have hsome : (((r.attach own nfcs).entries ans.entry).isSome) = true := by
        simp [RtMem.attach, hentry]
      rw [if_pos hsome] at h
      cases h
  | none =>
      have hnone : (((r.attach own nfcs).entries ans.entry).isSome) = false := by
        simp [RtMem.attach, hentry]
      rw [if_neg (by rw [hnone]; exact Bool.false_ne_true)] at h
      obtain ⟨nfcs', -, h⟩ := exists_of_bind_ok h
      cases h
      refine ⟨Function.update own ans.entry (some ans.nfc), nfcs', _, ?_, rfl⟩
      unfold RtMem.attach
      congr 1
      ext1 b
      by_cases hb : b = ans.entry
      · subst hb
        simp [RtEntry.attach]
      · simp [hb]

theorem addOrUpdate_attach_ok {own : A → Option A} {nfcs : NfcMem A F} {r : RtMem A}
    {dest : List UInt8} {mask : UInt8} {gwIp oif : Option (List UInt8)} {ans : Calloc A}
    {m' : NotifChain.RtMem A F} {calls : List (NfcCall F (NotifChain.RtEntry A))} {a : A}
    (h : NotifChain.rtAddOrUpdateRtEntry (r.attach own nfcs) dest mask gwIp oif ans =
      .ok (m', calls, a)) :
    rtAddOrUpdateRtEntry r dest mask gwIp oif ans.entry = .ok (erase m', a) := by
  unfold NotifChain.rtAddOrUpdateRtEntry at h
  rw [attach_lookUp] at h
  obtain ⟨found, hfound, h⟩ := exists_of_bind_ok h
  unfold rtAddOrUpdateRtEntry
  rw [hfound]
  cases found with
  | none =>
      obtain ⟨m₁, hnew, h⟩ := exists_of_bind_ok h
      obtain ⟨own₁, nfcs₁, r₁, rfl, hraw⟩ := newEntry_ok hnew
      obtain ⟨e', he', h⟩ := exists_of_bind_ok h
      rw [attach_entryAt] at he'
      obtain ⟨e, he, rfl⟩ := exists_of_map_ok he'
      obtain ⟨m₂, hinsert, h⟩ := exists_of_bind_ok h
      have hfirst :
        NotifChain.rtInsertFirst ((r₁.setEntry ans.entry (e.write gwIp oif)).attach own₁ nfcs₁)
          ans.entry = .ok m₂ := by
        rw [← attach_setEntry]
        exact hinsert
      rw [attach_insertFirst] at hfirst
      obtain ⟨r₂, hr₂, rfl⟩ := exists_of_map_ok hfirst
      obtain ⟨rfl, rfl⟩ := notify_ok h
      have he : r₁.entryAt ans.entry = .ok e := he
      rw [erase_attach]
      simp only [bind, Except.bind, Option.isNone_none, if_true, hraw, Option.getD_none, he, hr₂]
      rfl
  | some b =>
      obtain ⟨m₁, hsame, h⟩ := exists_of_bind_ok h
      have hsame : r.attach own nfcs = m₁ := Except.ok.inj hsame
      subst hsame
      obtain ⟨e', he', h⟩ := exists_of_bind_ok h
      have he' : (r.attach own nfcs).entryAt b = .ok e' := he'
      rw [attach_entryAt] at he'
      obtain ⟨e, he, rfl⟩ := exists_of_map_ok he'
      obtain ⟨m₂, hlater, h⟩ := exists_of_bind_ok h
      have hset : (r.attach own nfcs).setEntry b ((e.attach (own b)).write gwIp oif) =
          (r.setEntry b (e.write gwIp oif)).attach own nfcs := attach_setEntry b (e.write gwIp oif)
      have hlater : (r.setEntry b (e.write gwIp oif)).attach own nfcs = m₂ := by
        rw [← hset]
        exact Except.ok.inj hlater
      obtain ⟨hm, ha⟩ := notify_ok h
      have ha : a = b := ha
      rw [hm, ha, ← hlater, erase_attach]
      simp only [bind, Except.bind, Option.isNone_some, Option.getD_some, Bool.false_eq_true, if_false,
        pure, Except.pure, he]

/-- **`rt_add_or_update_rt_entry`** does to the table what it does without notifications. -/
theorem addOrUpdate_ok {m m' : NotifChain.RtMem A F} {dest : List UInt8} {mask : UInt8}
    {gwIp oif : Option (List UInt8)} {ans : Calloc A}
    {calls : List (NfcCall F (NotifChain.RtEntry A))} {a : A}
    (h : NotifChain.rtAddOrUpdateRtEntry m dest mask gwIp oif ans = .ok (m', calls, a)) :
    rtAddOrUpdateRtEntry (erase m) dest mask gwIp oif ans.entry = .ok (erase m', a) := by
  rw [← attach_erase m] at h
  exact addOrUpdate_attach_ok h

/-- `rt_delete_rt_entry` once it has found the entry. -/
theorem deleteFound_ok {m m' : NotifChain.RtMem A F} {a : A} {b : Bool}
    {calls : List (NfcCall F (NotifChain.RtEntry A))}
    (h : NotifChain.rtDeleteFound m a = .ok (m', calls, b)) :
    (do
      let r ← rtEntryRemove (erase m) a
      let r ← r.free a
      return (r, true) : Except Failure (RtMem A × Bool)) = .ok (erase m', b) := by
  unfold NotifChain.rtDeleteFound at h
  rw [← attach_erase m, attach_entryRemove] at h
  obtain ⟨m₁, hremove, h⟩ := exists_of_bind_ok h
  obtain ⟨r₁, hr₁, rfl⟩ := exists_of_map_ok hremove
  obtain ⟨e', he', h⟩ := exists_of_bind_ok h
  rw [attach_entryAt] at he'
  obtain ⟨e, he, rfl⟩ := exists_of_map_ok he'
  obtain ⟨c, -, h⟩ := exists_of_bind_ok h
  obtain ⟨calls', -, h⟩ := exists_of_bind_ok h
  obtain ⟨nfcs₁, -, h⟩ := exists_of_bind_ok h
  obtain ⟨nfcs₂, -, h⟩ := exists_of_bind_ok h
  cases h
  simp only [bind, Except.bind, hr₁, RtMem.free, he, Except.map, pure, Except.pure]
  congr 2
  unfold erase RtMem.attach
  congr 1
  ext1 b
  by_cases hb : b = a
  · subst hb
    simp
  · cases hentry : r₁.entries b with
    | none => simp [hb, hentry]
    | some e => simp [hb, hentry, RtEntry.attach]

/-- **`rt_delete_rt_entry`** does to the table what it does without notifications. -/
theorem delete_ok {m m' : NotifChain.RtMem A F} {dest : List UInt8} {mask : UInt8} {b : Bool}
    {calls : List (NfcCall F (NotifChain.RtEntry A))}
    (h : NotifChain.rtDeleteRtEntry m dest mask = .ok (m', calls, b)) :
    rtDeleteRtEntry (erase m) dest mask = .ok (erase m', b) := by
  unfold NotifChain.rtDeleteRtEntry at h
  unfold rtDeleteRtEntry
  show rtDeleteLoop (erase m) dest mask m.fuel m.head = _
  generalize m.fuel = fuel, m.head = curr at h ⊢
  induction fuel generalizing curr with
  | zero =>
      cases curr with
      | none =>
          cases h
          rfl
      | some a => cases h
  | succ fuel ih =>
      cases curr with
      | none =>
          cases h
          rfl
      | some a =>
          obtain ⟨e', he', h⟩ := exists_of_bind_ok h
          rw [← attach_erase m, attach_entryAt] at he'
          obtain ⟨e, he, rfl⟩ := exists_of_map_ok he'
          unfold rtDeleteLoop
          rw [he]
          show (if e.hasKey dest mask = true then _ else rtDeleteLoop (erase m) dest mask fuel e.next) = _
          have h : (if e.hasKey dest mask = true then NotifChain.rtDeleteFound m a
            else NotifChain.rtDeleteLoop m dest mask fuel e.next) = .ok (m', calls, b) := h
          split at h
          case isTrue hkey =>
            rw [if_pos hkey]
            exact deleteFound_ok h
          case isFalse hkey =>
            rw [if_neg hkey]
            exact ih e.next h

/-- The entry `rt_add_or_update_rt_entry` returns is in use. -/
theorem addOrUpdate_used {r r' : RtMem A} {dest : List UInt8} {mask : UInt8}
    {gwIp oif : Option (List UInt8)} {new a : A}
    (h : rtAddOrUpdateRtEntry r dest mask gwIp oif new = .ok (r', a)) : r'.used a = true := by
  obtain ⟨found, -, h⟩ := exists_of_bind_ok h
  cases found with
  | none =>
      obtain ⟨r₁, -, h⟩ := exists_of_bind_ok h
      obtain ⟨e, he, h⟩ := exists_of_bind_ok h
      obtain ⟨r₂, hfirst, h⟩ := exists_of_bind_ok h
      cases h
      rw [insertFirst_used hfirst, setEntry_used _ (used_of_entryAt he)]
      exact used_of_entryAt he
  | some b =>
      obtain ⟨r₁, -, h⟩ := exists_of_bind_ok h
      obtain ⟨e, he, h⟩ := exists_of_bind_ok h
      obtain ⟨r₂, hsame, h⟩ := exists_of_bind_ok h
      cases h
      cases hsame
      rw [setEntry_used _ (used_of_entryAt he)]
      exact used_of_entryAt he

/-- Without data, `rt_add_or_update_rt_entry` leaves an entry that exists alone. -/
theorem addOrUpdate_of_found {r : RtMem A} {dest : List UInt8} {mask : UInt8} {new a : A}
    {e : RtEntry A} (hlook : rtLookUpRtEntry r dest mask = .ok (some a)) (he : r.entryAt a = .ok e) :
    rtAddOrUpdateRtEntry r dest mask none none new = .ok (r, a) := by
  have hsame : r.setEntry a (e.write none none) = r := by
    have hentry : r.entries a = some e := by
      unfold RtMem.entryAt at he
      cases hr : r.entries a with
      | none => simp [hr] at he
      | some e' =>
          simp only [hr] at he
          rw [Except.ok.inj he]
    unfold RtMem.setEntry
    rw [show some (e.write none none) = r.entries a from hentry.symm, Function.update_eq_self]
  simp only [rtAddOrUpdateRtEntry, hlook, bind, Except.bind, Option.isNone_some, Option.getD_some,
    Bool.false_eq_true, if_false, pure, Except.pure, he, hsame]

/-- **`rt_table_register_for_notification`** does to the table what adding the key without data does. -/
theorem register_ok {m m' : NotifChain.RtMem A F} {key : RtEntryKeys} {keySize : Nat} {appCb : F}
    {subsId : UInt32} {ans : Calloc A} {calls : List (NfcCall F (NotifChain.RtEntry A))}
    (h : rtTableRegisterForNotification m key keySize appCb subsId ans = .ok (m', calls)) :
    ∃ a, rtAddOrUpdateRtEntry (erase m) key.dest.chars key.mask none none ans.entry =
      .ok (erase m', a) := by
  obtain ⟨found, hfound, h⟩ := exists_of_bind_ok h
  cases found with
  | none =>
      obtain ⟨⟨m₁, calls₁, a⟩, hadd, h⟩ := exists_of_bind_ok h
      refine ⟨a, ?_⟩
      rw [addOrUpdate_ok hadd]
      dsimp only at h
      split at h
      · cases h
      · obtain ⟨e, -, h⟩ := exists_of_bind_ok h
        obtain ⟨c, -, h⟩ := exists_of_bind_ok h
        obtain ⟨nfcs, -, h⟩ := exists_of_bind_ok h
        cases h
        rfl
  | some a =>
      refine ⟨a, ?_⟩
      obtain ⟨m₁, hsame, h⟩ := exists_of_bind_ok h
      cases hsame
      dsimp only at h
      split at h
      · cases h
      · obtain ⟨e', he', h⟩ := exists_of_bind_ok h
        rw [← attach_erase m, attach_entryAt] at he'
        obtain ⟨e, he, rfl⟩ := exists_of_map_ok he'
        obtain ⟨c, -, h⟩ := exists_of_bind_ok h
        obtain ⟨nfcs, -, h⟩ := exists_of_bind_ok h
        obtain ⟨e₁, -, h⟩ := exists_of_bind_ok h
        cases h
        rw [← lookUp_erase] at hfound
        exact addOrUpdate_of_found hfound he

/-- What a call means to the table: a registration adds its key without data. -/
def tableCall {F : Type*} : RtCall F → TableCall
  | .register key _ _ _ => .addOrUpdate key.dest.chars key.mask none none
  | .addOrUpdate dest mask gwIp oif => .addOrUpdate dest mask gwIp oif
  | .delete dest mask => .delete dest mask

/-- The table answers a call with the entry it concerns, or as the deletion on record did. -/
def Agrees {F : Type*} (record : Record A F) (p : TableCall × TableAnswer A (RtEntry A)) : Prop :=
  p.1 = tableCall record.call ∧ ∀ b, p.2 = .deleted b → record.deleted = b

theorem run_of_addOrUpdate {r r' : RtMem A} {dest : List UInt8} {mask : UInt8}
    {gwIp oif : Option (List UInt8)} {new a : A}
    (h : rtAddOrUpdateRtEntry r dest mask gwIp oif new = .ok (r', a)) :
    ∃ e, run r new (.addOrUpdate dest mask gwIp oif) = .ok (r', .entry (some (a, e))) := by
  obtain ⟨e, he⟩ := exists_entryAt (addOrUpdate_used h)
  refine ⟨e, ?_⟩
  simp only [run, bind, Except.bind, h, RtMem.found, he, Except.map, pure, Except.pure]

/-- A call on the table of `rt.c` does to the entries what it means to the table of `rt_raw.c`. -/
theorem run_ok {m m' : NotifChain.RtMem A F} {call : RtCall F} {ans : Calloc A}
    {record : Record A F} (h : call.run m ans = .ok (m', record)) :
    ∃ answer, run (erase m) ans.entry (tableCall call) = .ok (erase m', answer) ∧
      Agrees record (tableCall call, answer) := by
  cases call with
  | register key keySize appCb subsId =>
      obtain ⟨⟨m₁, calls⟩, hreg, heq⟩ := exists_of_map_ok h
      cases heq
      obtain ⟨a, hadd⟩ := register_ok hreg
      obtain ⟨e, hrun⟩ := run_of_addOrUpdate hadd
      exact ⟨_, hrun, rfl, fun b hb => (by cases hb)⟩
  | addOrUpdate dest mask gwIp oif =>
      obtain ⟨⟨m₁, calls, a⟩, hadd, heq⟩ := exists_of_map_ok h
      cases heq
      obtain ⟨e, hrun⟩ := run_of_addOrUpdate (addOrUpdate_ok hadd)
      exact ⟨_, hrun, rfl, fun b hb => (by cases hb)⟩
  | delete dest mask =>
      obtain ⟨⟨m₁, calls, b⟩, hdel, heq⟩ := exists_of_map_ok h
      cases heq
      refine ⟨.deleted b, ?_, rfl, fun b' hb => (by cases hb; rfl)⟩
      simp only [run, tableCall, bind, Except.bind, delete_ok hdel]
      rfl

/-- **Subscriptions leave the table alone.**  Whatever calls are made on a table of `rt.c`, and
whoever is subscribed, there is a run of `rt_raw.c` with the same calls, where a registration adds
its key without data, which deletes when the table deletes and ends with the same entries at the
same addresses, linked in the same order; every look-up is answered alike. -/
theorem rt_refinesRaw {s : RtSession A F} (hs : (rtMachine A F).Reachable s) :
    ∃ r, (machine A).Reachable r ∧ r.mem = erase s.mem ∧ List.Forall₂ Agrees s.log r.log ∧
      ∀ dest mask, rtLookUpRtEntry r.mem dest mask = NotifChain.rtLookUpRtEntry s.mem dest mask := by
  have hsim := hs.simulate (N := machine A)
    (R := fun s r => r.mem = erase s.mem ∧ List.Forall₂ Agrees s.log r.log) ?_ ?_
  · obtain ⟨r, hr, hmem, hlog⟩ := hsim
    refine ⟨r, hr, hmem, hlog, fun dest mask => ?_⟩
    rw [hmem, lookUp_erase]
  · intro s hinit
    rw [hinit]
    exact ⟨_, rfl, rfl, .nil⟩
  · intro s a s' r ⟨hmem, hlog⟩ _ hstep
    cases hrun : a.1.run s.mem a.2 with
    | error f =>
        simp only [rtMachine, hrun] at hstep
        cases f <;> cases hstep
    | ok p =>
        simp only [rtMachine, hrun] at hstep
        cases hstep
        obtain ⟨answer, hraw, hagrees⟩ := run_ok hrun
        rw [← hmem] at hraw
        refine ⟨(tableCall a.1, a.2.entry), ⟨erase p.1, r.log ++ [(tableCall a.1, answer)]⟩, ?_, rfl, ?_⟩
        · simp only [machine, hraw]
        · exact List.rel_append hlog (.cons hagrees .nil)

/-- A subscriber to a key without a route, its publication, and its deletion. -/
theorem rt_refinesRaw_trace :
    ∃ (s : RtSession Nat Nat) (r : Session Nat), s.log.map (·.calls.length) = [0, 1, 1] ∧
      (machine Nat).Reachable r ∧ r.mem.head = s.mem.head ∧ List.Forall₂ Agrees s.log r.log := by
  have hrun : ((rtMachine Nat Nat).exec ⟨NotifChain.rtInitRtTable, []⟩
      [(.register (rtKey [49] 32) 17 7 1, ⟨10, 20, 30⟩),
        (.addOrUpdate [49] 32 (some [51]) none, ⟨11, 21, 31⟩),
        (.delete [49] 32, ⟨11, 21, 31⟩)]).holds
      (fun s => decide (s.log.map (·.calls.length) = [0, 1, 1])) = true := by
    decide +kernel
  obtain ⟨s, hs, hcalls⟩ := Machine.exists_reachable_of_exec rfl hrun
  obtain ⟨r, hr, hmem, hlog, -⟩ := rt_refinesRaw hs
  exact ⟨s, r, of_decide_eq_true hcalls, hr, by rw [hmem]; rfl, hlog⟩

end Erase

section Map

variable {r r' : RtMem A}

/-- An empty chain for every entry in use, at the address of the entry. -/
def emptyChains (r : RtMem A) : NfcMem A PUnit.{u + 1} :=
  ⟨fun _ => GlueThread.Glthread.null, r.used, fun _ => none, 0⟩

/-- The table with an empty chain for every entry. -/
def attached (r : RtMem A) : NotifChain.RtMem A PUnit.{u + 1} := r.attach some (emptyChains r)

theorem attach_emptyChains (h : r'.used = r.used) :
    r'.attach some (emptyChains r) = attached r' := by
  rw [attached, emptyChains, emptyChains, h]

/-- An empty chain makes no calls. -/
theorem invoke_attached {a : A} (h : r.used a = true) (e : NotifChain.RtEntry A) (opCode : NfcOp) :
    nfcInvokeNotifChain (emptyChains r) a e none 0 opCode = .ok [] := by
  have hchain : (emptyChains r).chains a = true := h
  rw [nfcInvokeNotifChain, hchain]
  rfl

/-- An empty chain notifies nobody. -/
theorem notify_attached {a : A} (h : r.used a = true) (gwIp oif : Option (List UInt8)) :
    (if gwIp.isSome || oif.isSome then do
        let e ← (attached r).entryAt a
        let c ← chainOf e
        let calls ← nfcInvokeNotifChain (attached r).nfcs c e none 0 .mod
        return (attached r, calls, a)
      else return (attached r, [], a) :
        Except Failure (_ × List (NfcCall PUnit.{u + 1} (NotifChain.RtEntry A)) × A)) =
      .ok (attached r, [], a) := by
  split
  case isTrue =>
    obtain ⟨e, he⟩ := exists_entryAt h
    have hat : (attached r).entryAt a = .ok (e.attach (some a)) := by
      rw [attached, attach_entryAt, he]
      rfl
    have hinvoke := invoke_attached h (e.attach (some a)) .mod
    have hnfcs : (attached r).nfcs = emptyChains r := rfl
    simp only [hat, bind, Except.bind, chainOf, RtEntry.attach, hnfcs] at hinvoke ⊢
    rw [hinvoke]
    rfl
  case isFalse => rfl

/-- The answer of a table of `rt.c` whose entries own the chains at their addresses. -/
def attachAnswer {A : Type*} :
    TableAnswer A (RtEntry A) → TableAnswer A (NotifChain.RtEntry A)
  | .entry found => .entry (found.map fun p => (p.1, p.2.attach (some p.1)))
  | .deleted b => .deleted b

theorem found_attached (a : Option A) :
    (attached r).found a = (r.found a).map (Option.map fun p => (p.1, p.2.attach (some p.1))) := by
  cases a with
  | none => rfl
  | some a =>
      show ((attached r).entryAt a).map _ = ((r.entryAt a).map _).map _
      rw [attached, attach_entryAt]
      cases r.entryAt a with
      | error f => rfl
      | ok e => rfl

theorem shows_of_attach {T : Fib} {k : RtEntryKeys} {found : Option (A × RtEntry A)}
    (h : T.Shows NotifChain.RtEntry.shown k (found.map fun p => (p.1, p.2.attach (some p.1)))) :
    T.Shows RtEntry.shown k found := by
  unfold Fib.Shows at h ⊢
  cases hT : T k with
  | none =>
      simp only [hT] at h
      exact Option.map_eq_none_iff.mp h
  | some d =>
      simp only [hT] at h
      obtain ⟨a, e, heq, hshown⟩ := h
      obtain ⟨⟨a', e'⟩, hfound, heq⟩ := Option.map_eq_some_iff.mp heq
      cases heq
      exact ⟨a', e', hfound, hshown⟩

theorem answers_of_attach {T : Fib} {call : TableCall} {answer : TableAnswer A (RtEntry A)}
    (h : T.Answers NotifChain.RtEntry.shown call (attachAnswer answer)) :
    T.Answers RtEntry.shown call answer := by
  cases call with
  | addOrUpdate dest mask gwIp oif =>
      obtain ⟨found, heq, hshows⟩ := h
      cases answer with
      | entry found' =>
          cases heq
          exact ⟨found', rfl, shows_of_attach hshows⟩
      | deleted b => cases heq
  | delete dest mask =>
      cases answer with
      | entry found => cases h
      | deleted b =>
          have hb : TableAnswer.deleted (A := A) (E := NotifChain.RtEntry A) b =
            .deleted (T (rtKey dest mask)).isSome := h
          cases hb
          rfl
  | lookUp dest mask =>
      obtain ⟨found, heq, hshows⟩ := h
      cases answer with
      | entry found' =>
          cases heq
          exact ⟨found', rfl, shows_of_attach hshows⟩
      | deleted b => cases heq

/-- The entries `zs` in memory: a doubly linked list from the head, one entry for each key of the map. -/
structure LinkedMap (r : RtMem A) (zs : List A) (T : Fib) : Prop where
  head : r.head = zs.head?
  nodup : zs.Nodup
  linked : ∀ pre a suf, zs = pre ++ a :: suf →
    ∃ e, r.entries a = some e ∧ e.prev = pre.getLast? ∧ e.next = suf.head?
  unique : ∀ a ∈ zs, ∀ a' ∈ zs, ∀ e e', r.entries a = some e → r.entries a' = some e' →
    e.rtEntryKeys = e'.rtEntryKeys → a = a'
  keys : ∀ k, (T k).isSome = true ↔ ∃ a ∈ zs, ∃ e, r.entries a = some e ∧ e.rtEntryKeys = k

theorem entries_attached {a : A} {e' : NotifChain.RtEntry A} (h : (attached r).entries a = some e') :
    ∃ e, r.entries a = some e ∧ e' = e.attach (some a) := by
  obtain ⟨e, he, heq⟩ := Option.map_eq_some_iff.mp h
  exact ⟨e, he, heq.symm⟩

theorem LinkedMap.of_attached {zs : List A} {T : Fib} (h : NotifChain.LinkedMap (attached r) zs T) :
    LinkedMap r zs T where
  head := h.linked.head
  nodup := h.linked.nodup
  linked pre a suf hzs := by
    have ha : a ∈ zs := by simp [hzs]
    have hlinks := h.linked.links_of_split hzs
    obtain ⟨b, hb⟩ := h.linked.used a ha
    obtain ⟨e', he', -, heq⟩ := NotifChain.RtMem.exists_entry hb
    obtain ⟨e, he, rfl⟩ := entries_attached he'
    rw [heq, GlueThread.Glthread.mk.injEq] at hlinks
    exact ⟨e, he, hlinks⟩
  unique a ha a' ha' e e' he he' hk := by
    refine h.unique a ha a' ha' (e.attach (some a)) (e'.attach (some a')) ?_ ?_ hk
    · simp [attached, RtMem.attach, he]
    · simp [attached, RtMem.attach, he']
  keys k := by
    rw [h.keys k]
    constructor
    · rintro ⟨a, ha, e', he', hk⟩
      obtain ⟨e, he, rfl⟩ := entries_attached he'
      exact ⟨a, ha, e, he, hk⟩
    · rintro ⟨a, ha, e, he, hk⟩
      exact ⟨a, ha, e.attach (some a), by simp [attached, RtMem.attach, he], hk⟩

variable [DecidableEq A]

theorem newEntry_attached (dest : List UInt8) (mask : UInt8) (a : A) :
    NotifChain.rtNewEntry (attached r) dest mask ⟨a, a, a⟩ = (rtNewEntry r dest mask a).map attached := by
  unfold NotifChain.rtNewEntry rtNewEntry
  have hentries : ((attached r).entries a).isSome = (r.entries a).isSome := by
    simp [attached, RtMem.attach]
  rw [hentries]
  split
  · rfl
  · rename_i hfree
    have hunused : (attached r).nfcs.chains a = false := by
      simpa [attached, emptyChains, RtMem.attach, RtMem.used] using hfree
    have hfree : r.entries a = none := by simpa using hfree
    simp only [nfcCreateNewNotifChain, hunused]
    refine congrArg Except.ok (NotifChain.RtMem.mk.injEq .. ▸ ⟨rfl, ?_, ?_, rfl⟩)
    · ext1 b
      by_cases hb : b = a
      · subst hb
        simp [RtEntry.attach]
      · simp [hb, attached, RtMem.attach]
    · -- the head of the new chain was a null cell already
      refine NfcMem.mk.injEq .. ▸ ⟨Function.update_eq_self .., ?_, rfl, rfl⟩
      ext1 b
      by_cases hb : b = a
      · subst hb
        simp [RtMem.used]
      · simp [hb, attached, RtMem.attach, emptyChains, RtMem.used]

/-- `rt_add_or_update_rt_entry` with empty chains. -/
theorem addOrUpdate_attached (dest : List UInt8) (mask : UInt8) (gwIp oif : Option (List UInt8)) (a : A) :
    NotifChain.rtAddOrUpdateRtEntry (attached r) dest mask gwIp oif ⟨a, a, a⟩ =
      (rtAddOrUpdateRtEntry r dest mask gwIp oif a).map fun p => (attached p.1, [], p.2) := by
  unfold NotifChain.rtAddOrUpdateRtEntry rtAddOrUpdateRtEntry
  rw [attached, attach_lookUp, ← attached]
  cases rtLookUpRtEntry r dest mask with
  | error f => rfl
  | ok found =>
      cases found with
      | none =>
          show (NotifChain.rtNewEntry (attached r) dest mask ⟨a, a, a⟩ >>= _) =
            (rtNewEntry r dest mask a >>= _).map _
          rw [newEntry_attached]
          refine map_bind_map fun r₁ => ?_
          show ((attached r₁).entryAt a >>= _) = (r₁.entryAt a >>= _).map _
          rw [attached, attach_entryAt]
          cases he : r₁.entryAt a with
          | error f => rfl
          | ok e =>
              have hset : (r₁.attach some (emptyChains r₁)).setEntry a
                ((e.write gwIp oif).attach (some a)) =
                  (r₁.setEntry a (e.write gwIp oif)).attach some (emptyChains r₁) :=
                attach_setEntry a (e.write gwIp oif)
              show (NotifChain.rtInsertFirst ((r₁.attach some (emptyChains r₁)).setEntry a
                ((e.write gwIp oif).attach (some a))) a >>= _) =
                  (rtInsertFirst (r₁.setEntry a (e.write gwIp oif)) a >>= _).map _
              rw [hset, attach_insertFirst]
              cases hfirst : rtInsertFirst (r₁.setEntry a (e.write gwIp oif)) a with
              | error f => rfl
              | ok r₂ =>
                  have hused : r₂.used = r₁.used := by
                    rw [insertFirst_used hfirst, setEntry_used _ (used_of_entryAt he)]
                  have hin : r₂.used a = true := by
                    rw [hused]
                    exact used_of_entryAt he
                  have hnotify := notify_attached hin gwIp oif
                  rw [← attach_emptyChains hused] at hnotify
                  refine hnotify.trans ?_
                  rw [attach_emptyChains hused]
                  rfl
      | some b =>
          show ((attached r).entryAt b >>= _) = (r.entryAt b >>= _).map _
          rw [attached, attach_entryAt]
          cases he : r.entryAt b with
          | error f => rfl
          | ok e =>
              have hset : (r.attach some (emptyChains r)).setEntry b
                ((e.attach (some b)).write gwIp oif) =
                  (r.setEntry b (e.write gwIp oif)).attach some (emptyChains r) :=
                attach_setEntry b (e.write gwIp oif)
              have hused := setEntry_used (e.write gwIp oif) (used_of_entryAt he)
              have hin : (r.setEntry b (e.write gwIp oif)).used b = true := by
                rw [hused]
                exact used_of_entryAt he
              have hnotify := notify_attached hin gwIp oif
              rw [← attach_emptyChains hused, ← hset] at hnotify
              refine hnotify.trans ?_
              rw [hset, attach_emptyChains hused]
              rfl

/-- An empty chain is deleted without being walked, and freed. -/
theorem dropChain_attached {a : A} (h : r.used a = true) :
    nfcDeleteAllNfce (emptyChains r) a = .ok (emptyChains r) ∧
      freeNotifChain (emptyChains r) a =
        .ok { emptyChains r with chains := Function.update r.used a false } := by
  have hchain : (emptyChains r).chains a = true := h
  constructor
  · rw [nfcDeleteAllNfce, hchain]
    rfl
  · rw [freeNotifChain, hchain]
    rfl

theorem deleteFound_attached (a : A) :
    NotifChain.rtDeleteFound (attached r) a =
      (do
        let r ← rtEntryRemove r a
        let r ← r.free a
        return (r, true) : Except Failure (RtMem A × Bool)).map fun p => (attached p.1, [], p.2) := by
  unfold NotifChain.rtDeleteFound
  rw [attached, attach_entryRemove]
  cases hremove : rtEntryRemove r a with
  | error f => rfl
  | ok r₁ =>
      show ((r₁.attach some (emptyChains r)).entryAt a >>= _) = (r₁.free a >>= _).map _
      rw [attach_emptyChains (entryRemove_used hremove), attached, attach_entryAt, RtMem.free]
      cases he : r₁.entryAt a with
      | error f => rfl
      | ok e =>
          have hin := used_of_entryAt he
          obtain ⟨hdelete, hfree⟩ := dropChain_attached hin
          have hinvoke := invoke_attached hin (e.attach (some a)) .del
          have hchain : chainOf (e.attach (some a)) = .ok a := rfl
          have hnfcs : (r₁.attach some (emptyChains r₁)).nfcs = emptyChains r₁ := rfl
          simp only [bind, Except.bind, Except.map, hchain, hnfcs, hinvoke, hdelete, hfree, pure,
            Except.pure]
          refine congrArg (fun m => Except.ok (m, [], true)) ?_
          refine NotifChain.RtMem.mk.injEq .. ▸ ⟨rfl, ?_, ?_, rfl⟩
          · ext1 b
            by_cases hb : b = a
            · subst hb
              simp
            · simp [hb, RtMem.attach]
          · refine NfcMem.mk.injEq .. ▸ ⟨rfl, ?_, rfl, rfl⟩
            ext1 b
            by_cases hb : b = a
            · subst hb
              simp [RtMem.used]
            · simp [hb, RtMem.used]

theorem delete_attached (dest : List UInt8) (mask : UInt8) :
    NotifChain.rtDeleteRtEntry (attached r) dest mask =
      (rtDeleteRtEntry r dest mask).map fun p => (attached p.1, [], p.2) := by
  unfold NotifChain.rtDeleteRtEntry rtDeleteRtEntry
  show NotifChain.rtDeleteLoop (attached r) dest mask r.fuel r.head = _
  generalize r.fuel = fuel, r.head = curr
  induction fuel generalizing curr with
  | zero =>
      cases curr with
      | none => rfl
      | some a => rfl
  | succ fuel ih =>
      cases curr with
      | none => rfl
      | some a =>
          unfold NotifChain.rtDeleteLoop rtDeleteLoop
          rw [attached, attach_entryAt]
          refine map_bind_map fun e => ?_
          show (if e.hasKey dest mask = true then NotifChain.rtDeleteFound (attached r) a
            else NotifChain.rtDeleteLoop (attached r) dest mask fuel e.next) =
              (if e.hasKey dest mask = true then _ else rtDeleteLoop r dest mask fuel e.next).map _
          split
          · exact deleteFound_attached a
          · exact ih e.next

/-- **Embedding**: a table of `rt_raw.c` is a table of `rt.c` without subscribers. -/
theorem run_attached (call : TableCall) (a : A) :
    call.run (attached r) ⟨a, a, a⟩ = (run r a call).map fun p => (attached p.1, attachAnswer p.2) := by
  cases call with
  | addOrUpdate dest mask gwIp oif =>
      show (NotifChain.rtAddOrUpdateRtEntry (attached r) dest mask gwIp oif ⟨a, a, a⟩ >>= _) =
        (rtAddOrUpdateRtEntry r dest mask gwIp oif a >>= _).map _
      rw [addOrUpdate_attached]
      refine map_bind_map fun p => ?_
      show ((attached p.1).found (some p.2) >>= _) = (p.1.found (some p.2) >>= _).map _
      rw [found_attached]
      exact map_bind_map fun found => rfl
  | delete dest mask =>
      show (NotifChain.rtDeleteRtEntry (attached r) dest mask >>= _) =
        (rtDeleteRtEntry r dest mask >>= _).map _
      rw [delete_attached]
      exact map_bind_map fun p => rfl
  | lookUp dest mask =>
      show (NotifChain.rtLookUpRtEntry (r.attach some (emptyChains r)) dest mask >>= _) =
        (rtLookUpRtEntry r dest mask >>= _).map _
      rw [attach_lookUp]
      cases rtLookUpRtEntry r dest mask with
      | error f => rfl
      | ok found =>
          show ((attached r).found found >>= _) = (r.found found >>= _).map _
          rw [found_attached]
          exact map_bind_map fun found => rfl

/-- The invariant: memory holds the map of the calls made, and all of them were answered from it. -/
structure SessionOk (s : Session A) : Prop where
  represents : Represents (attached s.mem) ((fibOf s.log).routes : Routes PUnit.{u + 1})
  answered : EachAfter (fun before r => (fibOf before).Answers RtEntry.shown r.1 r.2) s.log

/-- A call is answered from the map, and memory then holds the map after it. -/
theorem SessionOk.run {s : Session A} (h : SessionOk s) (call : TableCall) (a : A) :
    run s.mem a call = .error .inUse ∨ ∃ m' answer, run s.mem a call = .ok (m', answer) ∧
      SessionOk ⟨m', s.log ++ [(call, answer)]⟩ := by
  obtain ⟨zs, S, htable⟩ := h.represents
  have hrun := run_attached (r := s.mem) call a
  rcases htable.run call ⟨a, a, a⟩ with herr | ⟨m', answer', hok, hanswer, hrep⟩
  · left
    rw [herr] at hrun
    cases hraw : RtRaw.run s.mem a call with
    | error f =>
        rw [hraw] at hrun
        rw [Except.error.inj hrun]
    | ok p =>
        rw [hraw] at hrun
        cases hrun
  · right
    rw [hok] at hrun
    obtain ⟨⟨m₁, answer⟩, hraw, heq⟩ := exists_of_map_ok hrun.symm
    cases heq
    refine ⟨m₁, answer, hraw, ?_, h.answered.concat (answers_of_attach hanswer)⟩
    show Represents (attached m₁) (Fib.routes (fibOf (s.log ++ [(call, answer)])))
    rw [fibOf, List.foldl_append]
    exact hrep

theorem sessionOk {s : Session A} (hs : (machine A).Reachable s) : SessionOk s := by
  refine hs.invariant (I := fun s => SessionOk s) ?_ fun s a s' h _ hstep => ?_
  · intro s hinit
    rw [hinit]
    refine ⟨?_, .nil⟩
    exact represents_init
  · rcases h.run a.1 a.2 with herr | ⟨m', answer, hok, h'⟩
    · simp only [machine, herr] at hstep
      cases hstep
    · simp only [machine, hok] at hstep
      cases hstep
      exact h'

/-- **The table of `rt_raw.c` is a map.**  In every sequence of additions, deletions and look-ups
each call is answered as by the map of the calls before it; the entries always form one doubly
linked list with exactly one entry for each key of the map; and no call fails. -/
theorem rtRaw_isMap {s : Session A} (hs : (machine A).Reachable s) :
    EachAfter (fun before r => (fibOf before).Answers RtEntry.shown r.1 r.2) s.log ∧
      (∃ zs, LinkedMap s.mem zs (fibOf s.log)) ∧ ∀ a, (machine A).step s a ≠ .abort := by
  have h := sessionOk hs
  refine ⟨h.answered, ?_, ?_⟩
  · obtain ⟨zs, S, htable⟩ := h.represents
    exact ⟨zs, .of_attached htable.linkedMap⟩
  · intro a habort
    rcases h.run a.1 a.2 with herr | ⟨m', answer, hok, -⟩
    · simp only [machine, herr] at habort
      cases habort
    · simp only [machine, hok] at habort
      cases habort

/-- Two keys are added, the older one is updated and the newer one is deleted. -/
theorem rtRaw_isMap_trace :
    ∃ (s : Session Nat) (zs : List Nat), LinkedMap s.mem zs (fibOf s.log) ∧ s.log.length = 4 ∧
      (fibOf s.log (rtKey [49] 32)).isSome = true ∧ (fibOf s.log (rtKey [50] 24)).isSome = false := by
  have hrun : ((machine Nat).exec ⟨rtInitRtTable, []⟩
      [(.addOrUpdate [49] 32 (some [49]) (some [50]), 10), (.addOrUpdate [50] 24 (some [51]) none, 11),
        (.addOrUpdate [49, 0, 57] 32 none (some [52]), 12), (.delete [50] 24, 12)]).holds
      (fun s => decide (s.log.length = 4) && (fibOf s.log (rtKey [49] 32)).isSome &&
        !(fibOf s.log (rtKey [50] 24)).isSome) = true := by
    decide +kernel
  obtain ⟨s, hs, hp⟩ := Machine.exists_reachable_of_exec rfl hrun
  rw [Bool.and_eq_true, Bool.and_eq_true, decide_eq_true_eq, Bool.not_eq_true'] at hp
  obtain ⟨-, ⟨zs, hzs⟩, -⟩ := rtRaw_isMap hs
  exact ⟨s, zs, hzs, hp.1.1, hp.1.2, hp.2⟩

end Map

end RtRaw
end NotifChain
end MultithreadingBible
