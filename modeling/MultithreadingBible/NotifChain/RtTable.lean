import MultithreadingBible.Lib.CString
import MultithreadingBible.Lib.Machine
import MultithreadingBible.NotifChain.Chain

/-!
# The routing table (`rt.c`)

The entries of an `rt_table_t` form a doubly linked list without a head cell.  Every entry owns a
notification chain, created with it and freed with it.  A subscriber registers with the chain of an
entry, which `rt_table_register_for_notification` creates without data when there is none yet.

Callbacks do not modify the table.  The functions below return the calls they make, in order.

## Model

* `RtMem` -- the table: its first entry, the entries in use, the memory of their chains
* `rtAddOrUpdateRtEntry`, `rtDeleteRtEntry`, `rtTableRegisterForNotification`
* `rtMachine` -- a table on which calls are made one after the other
-/

namespace MultithreadingBible
namespace NotifChain

open Lib

universe u

structure RtEntryKeys where
  dest : CharArray 16
  mask : UInt8
  deriving DecidableEq

/-- `rt_entry_t`, without the field `created`, which is never used. -/
structure RtEntry (A : Type*) where
  rtEntryKeys : RtEntryKeys
  gwIp : CharArray 16
  oif : CharArray 32
  prev : Option A
  next : Option A
  nfc : Option A
  deriving DecidableEq

/-- `rt_table_t` and the memory behind it.  `fuel` is the number of entries ever allocated. -/
structure RtMem (A F : Type*) where
  head : Option A
  entries : A → Option (RtEntry A)
  nfcs : NfcMem A F
  fuel : Nat

/-- The key a call with the arguments `dest` and `mask` is about. -/
def rtKey (dest : List UInt8) (mask : UInt8) : RtEntryKeys := ⟨.strncpy 16 dest, mask⟩

/-- The test of `rt_look_up_rt_entry` and `rt_delete_rt_entry`. -/
def RtEntry.hasKey {A : Type*} (e : RtEntry A) (dest : List UInt8) (mask : UInt8) : Bool :=
  e.rtEntryKeys.dest.strncmpEq dest && e.rtEntryKeys.mask == mask

/-- The addresses `calloc` answers with, should it be called. -/
structure Calloc (A : Type*) where
  entry : A
  nfc : A
  nfce : A

variable {A F : Type u}

def rtInitRtTable : RtMem A F := ⟨none, fun _ => none, NfcMem.empty, 0⟩

namespace RtMem

/-- Read an entry. -/
def entryAt (m : RtMem A F) (a : A) : Except Failure (RtEntry A) :=
  match m.entries a with
  | none => .error .badAccess
  | some e => .ok e

variable [DecidableEq A]

/-- Write an entry. -/
def setEntry (m : RtMem A F) (a : A) (e : RtEntry A) : RtMem A F :=
  { m with entries := Function.update m.entries a (some e) }

/-- `a->prev = v` -/
def setPrev (m : RtMem A F) (a : A) (v : Option A) : Except Failure (RtMem A F) :=
  (m.entryAt a).map fun e => m.setEntry a { e with prev := v }

/-- `a->next = v` -/
def setNext (m : RtMem A F) (a : A) (v : Option A) : Except Failure (RtMem A F) :=
  (m.entryAt a).map fun e => m.setEntry a { e with next := v }

end RtMem

/-- The loop of `rt_look_up_rt_entry`. -/
def rtLookUpLoop (m : RtMem A F) (dest : List UInt8) (mask : UInt8) :
    Nat → Option A → Except Failure (Option A)
  | _, none => .ok none
  | 0, some _ => .error .outOfFuel
  | fuel + 1, some a => do
      let e ← m.entryAt a
      if e.hasKey dest mask then return some a
      rtLookUpLoop m dest mask fuel e.next

def rtLookUpRtEntry (m : RtMem A F) (dest : List UInt8) (mask : UInt8) :
    Except Failure (Option A) :=
  rtLookUpLoop m dest mask m.fuel m.head

/-- `*rt_entry->nfc` -/
def chainOf (e : RtEntry A) : Except Failure A :=
  match e.nfc with
  | none => .error .badAccess
  | some c => .ok c

variable [DecidableEq A]

def rtEntryRemove (m : RtMem A F) (a : A) : Except Failure (RtMem A F) := do
  let e ← m.entryAt a
  match e.prev, e.next with
  | none, some n =>
      let m ← m.setPrev n none
      let m := { m with head := some n }
      m.setNext a none
  | none, none => return { m with head := none }
  | some p, none =>
      let m ← m.setNext p none
      m.setPrev a none
  | some p, some n =>
      let m ← m.setNext p (some n)
      let m ← m.setPrev n (some p)
      let m ← m.setPrev a none
      m.setNext a none

/-- A new entry in memory, with its chain: `calloc`, the keys and `nfc_create_new_notif_chain`. -/
def rtNewEntry (m : RtMem A F) (dest : List UInt8) (mask : UInt8) (ans : Calloc A) :
    Except Failure (RtMem A F) := do
  if (m.entries ans.entry).isSome then throw .inUse
  let nfcs ← nfcCreateNewNotifChain m.nfcs ans.nfc
  return { m with
    entries := Function.update m.entries ans.entry
      (some ⟨rtKey dest mask, .zero 16, .zero 32, none, none, some ans.nfc⟩)
    nfcs := nfcs
    fuel := m.fuel + 1 }

/-- The two `strncpy` calls of `rt_add_or_update_rt_entry`, for the arguments that are not null. -/
def RtEntry.write {A : Type*} (e : RtEntry A) (gwIp oif : Option (List UInt8)) : RtEntry A :=
  { e with
    gwIp := (gwIp.map (CharArray.strncpy 16)).getD e.gwIp
    oif := (oif.map (CharArray.strncpy 32)).getD e.oif }

/-- Put a new entry in front of the table. -/
def rtInsertFirst (m : RtMem A F) (a : A) : Except Failure (RtMem A F) := do
  let head := m.head
  let m := { m with head := some a }
  let m ← m.setPrev a none
  let m ← m.setNext a head
  match head with
  | none => return m
  | some h => m.setPrev h (some a)

/-- `rt_add_or_update_rt_entry`: the table, the calls and the entry returned. -/
def rtAddOrUpdateRtEntry (m : RtMem A F) (dest : List UInt8) (mask : UInt8)
    (gwIp oif : Option (List UInt8)) (ans : Calloc A) :
    Except Failure (RtMem A F × List (NfcCall F (RtEntry A)) × A) := do
  let found ← rtLookUpRtEntry m dest mask
  let newEntry := found.isNone
  let a := found.getD ans.entry
  let m ← if newEntry then rtNewEntry m dest mask ans else pure m
  let e ← m.entryAt a
  let m := m.setEntry a (e.write gwIp oif)
  let m ← if newEntry then rtInsertFirst m a else pure m
  if gwIp.isSome || oif.isSome then
    let e ← m.entryAt a
    let c ← chainOf e
    let calls ← nfcInvokeNotifChain m.nfcs c e none 0 .mod
    return (m, calls, a)
  return (m, [], a)

/-- `rt_delete_rt_entry` once it has found the entry. -/
def rtDeleteFound (m : RtMem A F) (a : A) :
    Except Failure (RtMem A F × List (NfcCall F (RtEntry A)) × Bool) := do
  let m ← rtEntryRemove m a
  let e ← m.entryAt a
  let c ← chainOf e
  let calls ← nfcInvokeNotifChain m.nfcs c e none 0 .del
  let nfcs ← nfcDeleteAllNfce m.nfcs c
  let nfcs ← freeNotifChain nfcs c
  -- `rt_entry->nfc = NULL; free(rt_entry->nfc); free(rt_entry)`
  return ({ m with nfcs := nfcs, entries := Function.update m.entries a none }, calls, true)

/-- The loop of `rt_delete_rt_entry`. -/
def rtDeleteLoop (m : RtMem A F) (dest : List UInt8) (mask : UInt8) :
    Nat → Option A → Except Failure (RtMem A F × List (NfcCall F (RtEntry A)) × Bool)
  | _, none => return (m, [], false)
  | 0, some _ => .error .outOfFuel
  | fuel + 1, some a => do
      let e ← m.entryAt a
      let next := e.next
      if e.hasKey dest mask then rtDeleteFound m a
      else rtDeleteLoop m dest mask fuel next

/-- `rt_delete_rt_entry`: the table, the calls and the value returned. -/
def rtDeleteRtEntry (m : RtMem A F) (dest : List UInt8) (mask : UInt8) :
    Except Failure (RtMem A F × List (NfcCall F (RtEntry A)) × Bool) :=
  rtDeleteLoop m dest mask m.fuel m.head

/-- `rt_table_register_for_notification`: a subscriber to an entry that exists is called at once. -/
def rtTableRegisterForNotification (m : RtMem A F) (key : RtEntryKeys) (keySize : Nat) (appCb : F)
    (subsId : UInt32) (ans : Calloc A) :
    Except Failure (RtMem A F × List (NfcCall F (RtEntry A))) := do
  let found ← rtLookUpRtEntry m key.dest.chars key.mask
  let (m, calls, a) ← match found with
    | none => rtAddOrUpdateRtEntry m key.dest.chars key.mask none none ans
    | some a => pure (m, [], a)
  if maxNotifKeySize < keySize then throw .assertFailed
  let e ← m.entryAt a
  let c ← chainOf e
  let nfcs ← nfcRegisterNotifChain m.nfcs c ⟨[], 0, subsId, false, appCb⟩ ans.nfce
  let m := { m with nfcs := nfcs }
  if found.isSome then
    return (m, calls ++ [⟨appCb, ← m.entryAt a, .add, subsId⟩])
  return (m, calls)

/-- The calls made on a table. -/
inductive RtCall (F : Type*) where
  | register (key : RtEntryKeys) (keySize : Nat) (appCb : F) (subsId : UInt32)
  | addOrUpdate (dest : List UInt8) (mask : UInt8) (gwIp oif : Option (List UInt8))
  | delete (dest : List UInt8) (mask : UInt8)

/-- A call that was made, the callbacks called in it, and whether it deleted an entry. -/
structure Record (A F : Type*) where
  call : RtCall F
  calls : List (NfcCall F (RtEntry A))
  deleted : Bool

/-- Carry out a call. -/
def RtCall.run (m : RtMem A F) (ans : Calloc A) (call : RtCall F) :
    Except Failure (RtMem A F × Record A F) :=
  match call with
  | .register key keySize appCb subsId =>
      (rtTableRegisterForNotification m key keySize appCb subsId ans).map
        fun r => (r.1, ⟨call, r.2, false⟩)
  | .addOrUpdate dest mask gwIp oif =>
      (rtAddOrUpdateRtEntry m dest mask gwIp oif ans).map fun r => (r.1, ⟨call, r.2.1, false⟩)
  | .delete dest mask =>
      (rtDeleteRtEntry m dest mask).map fun r => (r.1, ⟨call, r.2.1, r.2.2⟩)

/-- A table and the calls made on it so far. -/
structure RtSession (A F : Type*) where
  mem : RtMem A F
  log : List (Record A F)

/-- A table on which calls are made one after the other.  A failing call ends the process. -/
def rtMachine (A F : Type u) [DecidableEq A] : Machine (RtSession A F) (RtCall F × Calloc A) where
  init s := s = ⟨rtInitRtTable, []⟩
  step s a :=
    match a.1.run s.mem a.2 with
    | .ok (m, r) => .next ⟨m, s.log ++ [r]⟩
    | .error .inUse => .blocked
    | .error _ => .abort

end NotifChain
end MultithreadingBible
