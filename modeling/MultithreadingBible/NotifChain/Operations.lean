import MultithreadingBible.NotifChain.Represent

/-!
# The operations on a routing table

Each operation of `rt.c`, carried out on memory that holds a table `T`, either asks `calloc` for an
address that is in use, which never happens, or succeeds as `T` says: the memory then holds the
table the operation is for, and the callbacks called are those of the registrations of the route
concerned.  The only assertion that can fail is the one on the size of a key.
-/

namespace MultithreadingBible
namespace NotifChain

open Lib GlueThread

universe u

variable {A F : Type u}

namespace Routes

variable {T : Routes F} {k : RtEntryKeys}

theorem route_of_some {r : Route F} (h : T k = some r) : T.route k = r := by
  rw [route, h]
  rfl

theorem route_of_none (h : T k = none) : T.route k = .empty := by
  rw [route, h]
  rfl

@[simp] theorem route_addOrUpdate (gwIp oif : Option (List UInt8)) :
    (T.addOrUpdate k gwIp oif).route k = (T.route k).write gwIp oif := by
  simp [route, addOrUpdate]

/-- A call without data leaves an existing route as it is. -/
theorem write_none (r : Route F) : r.write none none = r := rfl

/-- Registering for a route that was just created without data is registering for it. -/
theorem register_addOrUpdate (r : Registration F) :
    (T.addOrUpdate k none none).register k r = T.register k r := by
  rw [register, route_addOrUpdate, write_none, addOrUpdate, Function.update_idem]
  rfl

end Routes

namespace TableOk

variable {m : RtMem A F} {zs : List A} {S : A → List (A × NotifChainElem F)} {T : Routes F}

theorem entryAt_of_entries {a : A} {e : RtEntry A} (he : m.entries a = some e) :
    m.entryAt a = .ok e := by
  simp [RtMem.entryAt, he]

/-- An entry has the key and the addresses of its route. -/
theorem holds (h : TableOk m zs S T) {a : A} (ha : a ∈ zs) {e : RtEntry A}
    (he : m.entries a = some e) : e.Holds e.rtEntryKeys (T.route e.rtEntryKeys) := by
  obtain ⟨c, -, -, hroute⟩ := h.route a ha e.body (by simp [RtMem.body, he])
  have hr : T.route e.rtEntryKeys = ⟨e.gwIp, e.oif, (S c).map fun p => p.2.registration⟩ :=
    Routes.route_of_some hroute
  exact ⟨rfl, by rw [hr], by rw [hr]⟩

/-- A notification of an entry calls every registration of its route once. -/
theorem notify (h : TableOk m zs S T) {a : A} (ha : a ∈ zs) {e : RtEntry A}
    (he : m.entries a = some e) :
    ∃ c, chainOf e = .ok c ∧ e.nfc = some c ∧ m.nfcs.chains c = true ∧
      ∀ (arg : RtEntry A) (opCode : NfcOp), nfcInvokeNotifChain m.nfcs c arg none 0 opCode =
        .ok ((T.route e.rtEntryKeys).subs.map fun r => r.call arg opCode) := by
  obtain ⟨c, hc, hchain, hroute⟩ := h.route a ha e.body (by simp [RtMem.body, he])
  have hnfc : e.nfc = some c := hc
  have hr : T.route e.rtEntryKeys = ⟨e.gwIp, e.oif, (S c).map fun p => p.2.registration⟩ :=
    Routes.route_of_some hroute
  refine ⟨c, by rw [chainOf, hnfc], hnfc, hchain, fun arg opCode => ?_⟩
  rw [h.chains.invoke_all hchain arg opCode, hr, List.map_map]
  rfl

variable [DecidableEq A]

/-- A new entry is allocated, filled and put in front of the table. -/
theorem newEntry (h : TableOk m zs S T) {dest : List UInt8} {mask : UInt8} (ans : Calloc A)
    (hT : T (rtKey dest mask) = none) (gwIp oif : Option (List UInt8)) :
    rtNewEntry m dest mask ans = .error .inUse ∨
      ∃ m₁ e₁ m₂ e₂, rtNewEntry m dest mask ans = .ok m₁ ∧ m₁.entries ans.entry = some e₁ ∧
        rtInsertFirst (m₁.setEntry ans.entry (e₁.write gwIp oif)) ans.entry = .ok m₂ ∧
        m₂.entries ans.entry = some e₂ ∧ e₂.rtEntryKeys = rtKey dest mask ∧
        TableOk m₂ (ans.entry :: zs) S (T.addOrUpdate (rtKey dest mask) gwIp oif) := by
  by_cases hentry : (m.entries ans.entry).isSome = true
  · left
    simp only [rtNewEntry, hentry, if_true]
    rfl
  by_cases hchain : m.nfcs.chains ans.nfc = true
  · left
    simp only [rtNewEntry, hentry, nfcCreateNewNotifChain, hchain, if_true]
    rfl
  right
  have hnone : m.entries ans.entry = none := by simpa using hentry
  have hnew : m.nfcs.chains ans.nfc = false := by simpa using hchain
  obtain ⟨nfcs, hcreate, hok, hchains, -⟩ := h.chains.create hnew
  have ha : ans.entry ∉ zs := h.entries.not_mem hnone
  have hne : ∀ a ∈ zs, a ≠ ans.entry := by
    intro a hmem heq
    exact ha (heq ▸ hmem)
  -- the entry is in use and filled in, but not yet in the table
  set e₁ : RtEntry A := ⟨rtKey dest mask, .zero 16, .zero 32, none, none, some ans.nfc⟩ with he₁
  set m₁ : RtMem A F :=
    { m with
      entries := Function.update m.entries ans.entry (some e₁), nfcs := nfcs, fuel := m.fuel + 1 }
    with hm₁
  have hself : (m₁.setEntry ans.entry (e₁.write gwIp oif)).body ans.entry =
      some (e₁.write gwIp oif).body := by
    simp [RtMem.body, RtMem.setEntry]
  have hother : ∀ a ∈ zs, (m₁.setEntry ans.entry (e₁.write gwIp oif)).body a = m.body a := by
    intro a hmem
    simp [RtMem.body, RtMem.setEntry, hm₁, hne a hmem]
  have hloose : EntriesOk (m₁.setEntry ans.entry (e₁.write gwIp oif)) zs := by
    refine h.entries.frame rfl (Nat.le_succ _) (fun a hmem => ?_) fun a hmem => ?_
    · simp [RtMem.links, RtMem.setEntry, hm₁, hne a hmem]
    · obtain ⟨b, hb⟩ := h.entries.used a hmem
      exact ⟨b, (hother a hmem).trans hb⟩
  obtain ⟨m₂, hinsert, hentries, hbody, hnfcs⟩ :=
    hloose.insertFirst hself ha (Nat.lt_succ_of_le h.entries.fuel)
  have hnfcs₂ : m₂.nfcs = nfcs := hnfcs
  obtain ⟨e₂, he₂, hbody₂, -⟩ := RtMem.exists_entry ((hbody _).trans hself)
  refine ⟨m₁, e₁, m₂, e₂, ?_, by simp [hm₁], hinsert, he₂, congrArg Body.keys hbody₂, ?_⟩
  · simp only [rtNewEntry, hentry, hcreate]
    rfl
  · have hins := h.insert (c := ans.nfc) hentries (hnfcs₂.symm ▸ hok) ((hbody _).trans hself)
      (fun a hmem => (hbody a).trans (hother a hmem)) ha
      (fun d hd => by
        rw [hnfcs₂, hchains]
        by_cases hdc : d = ans.nfc
        · simp [hdc]
        · simpa [Function.update_of_ne hdc] using hd) rfl hnew
      (by rw [hnfcs₂, hchains, Function.update_self]) hT
    have hroute : (⟨(e₁.write gwIp oif).body.gwIp, (e₁.write gwIp oif).body.oif, []⟩ : Route F) =
        (T.route (rtKey dest mask)).write gwIp oif := by
      rw [Routes.route_of_none hT]
      rfl
    rw [hroute] at hins
    exact hins

/-- **`rt_add_or_update_rt_entry`.**  With data it calls every registration for the key, on the
updated entry; without data it calls none. -/
theorem addOrUpdate_spec (h : TableOk m zs S T) (dest : List UInt8) (mask : UInt8)
    (gwIp oif : Option (List UInt8)) (ans : Calloc A) :
    rtAddOrUpdateRtEntry m dest mask gwIp oif ans = .error .inUse ∨
      ∃ m' a e zs' S', rtAddOrUpdateRtEntry m dest mask gwIp oif ans =
          .ok (m', if gwIp.isSome || oif.isSome then
            (T.route (rtKey dest mask)).subs.map fun r => r.call e .mod else [], a) ∧
        TableOk m' zs' S' (T.addOrUpdate (rtKey dest mask) gwIp oif) ∧ a ∈ zs' ∧
        m'.entries a = some e ∧
        e.Holds (rtKey dest mask) ((T.route (rtKey dest mask)).write gwIp oif) := by
  -- once the entry is in the table, the notification is made for it
  have hlast : ∀ {m' : RtMem A F} {a : A} {zs'}, a ∈ zs' →
      TableOk m' zs' S (T.addOrUpdate (rtKey dest mask) gwIp oif) → ∀ {e : RtEntry A},
      m'.entries a = some e → e.rtEntryKeys = rtKey dest mask →
      (if gwIp.isSome || oif.isSome then do
          let e ← m'.entryAt a
          let c ← chainOf e
          let calls ← nfcInvokeNotifChain m'.nfcs c e none 0 .mod
          return (m', calls, a)
        else return (m', [], a) : Except Failure (RtMem A F × List (NfcCall F (RtEntry A)) × A)) =
        .ok (m', if gwIp.isSome || oif.isSome then
          (T.route (rtKey dest mask)).subs.map fun r => r.call e .mod else [], a) := by
    intro m' a zs' ha htable e he hk
    obtain ⟨c, hc, -, -, hinvoke⟩ := htable.notify ha he
    split
    case isTrue =>
      simp only [entryAt_of_entries he, bind, Except.bind, hc, hinvoke, hk, Routes.route_addOrUpdate]
      rfl
    case isFalse => rfl
  rcases h.find dest mask with ⟨hlook, hT⟩ | ⟨a, ha, hlook, e, he, hk⟩
  · rcases h.newEntry ans hT gwIp oif with
      hnew | ⟨m₁, e₁, m₂, e, hnew, he₁, hinsert, he, hk, htable⟩
    · left
      simp only [rtAddOrUpdateRtEntry, hlook, bind, Except.bind, Option.isNone_none, if_true, hnew]
    · right
      have hmem : ans.entry ∈ ans.entry :: zs := by simp
      refine ⟨m₂, ans.entry, e, _, S, ?_, htable, hmem, he, ?_⟩
      · rw [← hlast hmem htable he hk]
        simp only [rtAddOrUpdateRtEntry, hlook, bind, Except.bind, Option.isNone_none, if_true, hnew,
          Option.getD_none, entryAt_of_entries he₁, hinsert]
      · have hholds := htable.holds hmem he
        rwa [hk, Routes.route_addOrUpdate] at hholds
  · right
    have htable := h.write ha he gwIp oif
    rw [hk] at htable
    have he' : (m.setEntry a (e.write gwIp oif)).entries a = some (e.write gwIp oif) := by
      simp [RtMem.setEntry]
    have hk' : (e.write gwIp oif).rtEntryKeys = rtKey dest mask := hk
    refine ⟨_, a, _, zs, S, ?_, htable, ha, he', ?_⟩
    · rw [← hlast ha htable he' hk']
      simp only [rtAddOrUpdateRtEntry, hlook, bind, Except.bind, Option.isNone_some,
        Option.getD_some, Bool.false_eq_true, if_false, pure, Except.pure, entryAt_of_entries he]
    · have hholds := htable.holds ha he'
      rwa [hk', Routes.route_addOrUpdate] at hholds

/-- **`rt_table_register_for_notification`.**  A key of an allowed size is accepted, and the new
registration is called at once when the key has a route already; no other callback is called. -/
theorem register_spec (h : TableOk m zs S T) (key : RtEntryKeys) (keySize : Nat) (appCb : F)
    (subsId : UInt32) (ans : Calloc A) :
    rtTableRegisterForNotification m key keySize appCb subsId ans = .error .inUse ∨
      (maxNotifKeySize < keySize ∧
        rtTableRegisterForNotification m key keySize appCb subsId ans = .error .assertFailed) ∨
      keySize ≤ maxNotifKeySize ∧ ∃ m' e,
        rtTableRegisterForNotification m key keySize appCb subsId ans =
          .ok (m', if (T key).isSome then [(⟨appCb, subsId⟩ : Registration F).call e .add] else []) ∧
        Represents m' (T.register key ⟨appCb, subsId⟩) ∧ e.Holds key (T.route key) := by
  have hkey : rtKey key.dest.chars key.mask = key := by simp [rtKey]
  -- once the entry is in the table, the element is added to its chain
  have hlast : ∀ {m₁ : RtMem A F} {a : A} {e : RtEntry A} {zs₁ S₁} {T₁ : Routes F},
      TableOk m₁ zs₁ S₁ T₁ → a ∈ zs₁ → m₁.entries a = some e → e.rtEntryKeys = key →
      ∃ c, chainOf e = .ok c ∧
        (nfcRegisterNotifChain m₁.nfcs c ⟨[], 0, subsId, false, appCb⟩ ans.nfce = .error .inUse ∨
          ∃ nfcs, nfcRegisterNotifChain m₁.nfcs c ⟨[], 0, subsId, false, appCb⟩ ans.nfce = .ok nfcs ∧
            Represents { m₁ with nfcs := nfcs } (T₁.register key ⟨appCb, subsId⟩)) := by
    intro m₁ a e zs₁ S₁ T₁ htable ha he hk
    obtain ⟨c, hc, hnfc, hchain, -⟩ := htable.notify ha he
    refine ⟨c, hc, ?_⟩
    cases helem : m₁.nfcs.elems ans.nfce with
    | some old =>
        left
        rw [nfcRegisterNotifChain, if_pos (by simp [helem])]
    | none =>
        right
        obtain ⟨nfcs, hreg, hok, hchains⟩ :=
          htable.chains.register hchain helem ⟨[], 0, subsId, false, appCb⟩
        have hnew := htable.register ha he hnfc hok hchains
        rw [hk] at hnew
        exact ⟨nfcs, hreg, _, _, hnew⟩
  rcases h.find key.dest.chars key.mask with ⟨hlook, hT⟩ | ⟨a, ha, hlook, e, he, hk⟩
  · rw [hkey] at hT
    rcases h.addOrUpdate_spec key.dest.chars key.mask none none ans with
      hadd | ⟨m₁, a, e, zs₁, S₁, hadd, htable, ha, he, hholds⟩
    · left
      simp only [rtTableRegisterForNotification, hlook, bind, Except.bind, hadd]
    · rw [hkey] at htable hholds
      rcases Nat.lt_or_ge maxNotifKeySize keySize with hsize | hsize
      · refine .inr (.inl ⟨hsize, ?_⟩)
        simp only [rtTableRegisterForNotification, hlook, bind, Except.bind, hadd, hsize, if_true]
        rfl
      · obtain ⟨c, hc, hreg | ⟨nfcs, hreg, hrep⟩⟩ := hlast htable ha he hholds.keys
        · left
          simp only [rtTableRegisterForNotification, hlook, bind, Except.bind, hadd,
            Nat.not_lt.mpr hsize, if_false, entryAt_of_entries he, hc, hreg]
        · rw [Routes.register_addOrUpdate] at hrep
          refine .inr (.inr ⟨hsize, _, e, ?_, hrep, hholds⟩)
          simp only [rtTableRegisterForNotification, hlook, bind, Except.bind, hadd,
            Nat.not_lt.mpr hsize, if_false, pure, Except.pure, entryAt_of_entries he, hc, hreg, hT]
          rfl
  · rw [hkey] at hk
    have hroute := h.holds ha he
    rw [hk] at hroute
    have hsome : (T key).isSome = true := by
      obtain ⟨e', c, he', -, -, -, hT⟩ := h.exists_entry ha
      rw [he] at he'
      cases he'
      rw [← hk, hT]
      rfl
    rcases Nat.lt_or_ge maxNotifKeySize keySize with hsize | hsize
    · refine .inr (.inl ⟨hsize, ?_⟩)
      simp only [rtTableRegisterForNotification, hlook, bind, Except.bind, pure, Except.pure, hsize,
        if_true]
      rfl
    · obtain ⟨c, hc, hreg | ⟨nfcs, hreg, hrep⟩⟩ := hlast h ha he hk
      · left
        simp only [rtTableRegisterForNotification, hlook, bind, Except.bind,
          Nat.not_lt.mpr hsize, if_false, pure, Except.pure, entryAt_of_entries he, hc, hreg]
      · refine .inr (.inr ⟨hsize, _, e, ?_, hrep, hroute⟩)
        have hat : ({ m with nfcs := nfcs } : RtMem A F).entryAt a = .ok e := entryAt_of_entries he
        simp only [rtTableRegisterForNotification, hlook, bind, Except.bind,
          Nat.not_lt.mpr hsize, if_false, pure, Except.pure, entryAt_of_entries he, hc, hreg,
          Option.isSome_some, if_true, hat, hsome]
        rfl

/-- The loop of `rt_delete_rt_entry` deletes the entry `rt_look_up_rt_entry` finds. -/
theorem rtDeleteLoop_eq (m : RtMem A F) (dest : List UInt8) (mask : UInt8) (fuel : Nat) :
    ∀ curr : Option A,
      (rtLookUpLoop m dest mask fuel curr = .ok none →
        rtDeleteLoop m dest mask fuel curr = .ok (m, [], false)) ∧
      ∀ a, rtLookUpLoop m dest mask fuel curr = .ok (some a) →
        rtDeleteLoop m dest mask fuel curr = rtDeleteFound m a := by
  induction fuel with
  | zero =>
      intro curr
      cases curr with
      | none => exact ⟨fun _ => rfl, fun a h => (by cases h)⟩
      | some a => exact ⟨fun h => (by cases h), fun a h => (by cases h)⟩
  | succ fuel ih =>
      intro curr
      cases curr with
      | none => exact ⟨fun _ => rfl, fun a h => (by cases h)⟩
      | some c =>
          simp only [rtLookUpLoop, rtDeleteLoop, bind, Except.bind]
          cases m.entryAt c with
          | error f => exact ⟨fun h => (by cases h), fun a h => (by cases h)⟩
          | ok e =>
              dsimp only
              cases e.hasKey dest mask with
              | false => exact ih e.next
              | true =>
                  refine ⟨fun h => (by cases h), fun a h => ?_⟩
                  have hca : c = a := by simpa [pure, Except.pure] using h
                  rw [hca]
                  rfl

/-- **`rt_delete_rt_entry`.**  It succeeds when the key has a route, which it ends, and then calls
every registration for the key; otherwise it changes nothing and calls none.  The other entries stay
in the table as they are. -/
theorem delete_spec (h : TableOk m zs S T) (dest : List UInt8) (mask : UInt8) :
    (T (rtKey dest mask) = none ∧ rtDeleteRtEntry m dest mask = .ok (m, [], false)) ∨
      (T (rtKey dest mask)).isSome ∧ ∃ m' e zs' S', rtDeleteRtEntry m dest mask =
          .ok (m', (T.route (rtKey dest mask)).subs.map fun r => r.call e .del, true) ∧
        TableOk m' zs' S' (T.delete (rtKey dest mask)) ∧
        e.Holds (rtKey dest mask) (T.route (rtKey dest mask)) ∧
        ∀ a ∈ zs, ∀ e, m.entries a = some e → e.rtEntryKeys ≠ rtKey dest mask →
          a ∈ zs' ∧ m'.body a = some e.body := by
  have hloop := rtDeleteLoop_eq m dest mask m.fuel m.head
  rcases h.find dest mask with ⟨hlook, hT⟩ | ⟨a, ha, hlook, e, he, hk⟩
  · exact .inl ⟨hT, hloop.1 hlook⟩
  right
  obtain ⟨c, hc, hnfc, hchain, hinvoke⟩ := h.notify ha he
  obtain ⟨pre, suf, hzs⟩ := List.append_of_mem ha
  obtain ⟨m₁, hremove, hentries, hbody, hnfcs⟩ := h.entries.removeEntry hzs
  obtain ⟨e₁, he₁, hbody₁, -⟩ := RtMem.exists_entry ((hbody a).trans (show m.body a = some e.body by
    simp [RtMem.body, he]))
  have hc₁ : chainOf e₁ = .ok c := by
    have hnfc₁ : e₁.nfc = e.nfc := congrArg Body.nfc hbody₁
    rw [chainOf, hnfc₁, hnfc]
  -- the chain is emptied and freed, then the entry
  obtain ⟨n₁, hdelete, hok₁, hchains₁⟩ := h.chains.deleteAll hchain
  obtain ⟨n₂, hfree, hok₂, hchains₂⟩ :=
    hok₁.free (c := c) (by rw [hchains₁]; exact hchain) (by rw [Function.update_self])
  rw [hchains₁] at hchains₂
  set m' : RtMem A F := { m₁ with nfcs := n₂, entries := Function.update m₁.entries a none } with hm'
  have hne : ∀ a' ∈ pre ++ suf, a' ≠ a := by
    have hnd := h.entries.nodup
    rw [hzs] at hnd
    intro a' hmem heq
    exact (List.nodup_cons.mp (List.perm_middle.nodup_iff.mp hnd)).1 (heq ▸ hmem)
  have hbody' : ∀ a', a' ≠ a → m'.body a' = m.body a' := by
    intro a' haa
    rw [← hbody a']
    simp [RtMem.body, hm', haa]
  have hentries' : EntriesOk m' (pre ++ suf) := by
    refine hentries.frame rfl (le_refl _) (fun a' hmem => ?_) fun a' hmem => ?_
    · simp [RtMem.links, hm', hne a' hmem]
    · obtain ⟨b, hb⟩ := hentries.used a' hmem
      exact ⟨b, by rw [hbody' a' (hne a' hmem), ← hbody a', hb]⟩
  have htable := h.delete hzs he hnfc hentries' hbody' hok₂ hchains₂
  rw [hk] at htable
  have hholds : e₁.Holds (rtKey dest mask) (T.route (rtKey dest mask)) := by
    have hold := h.holds ha he
    rw [hk] at hold
    exact ⟨(congrArg Body.keys hbody₁).trans hold.keys, (congrArg Body.gwIp hbody₁).trans hold.gwIp,
      (congrArg Body.oif hbody₁).trans hold.oif⟩
  refine ⟨?_, m', e₁, _, _, ?_, htable, hholds, ?_⟩
  · obtain ⟨e', c', he', -, -, -, hT⟩ := h.exists_entry ha
    rw [he] at he'
    cases he'
    rw [← hk, hT]
    rfl
  · have hinvoke₁ := hinvoke e₁ .del
    rw [hk] at hinvoke₁
    have hfound := hloop.2 a hlook
    rw [rtDeleteRtEntry, hfound]
    simp only [rtDeleteFound, bind, Except.bind, hremove, entryAt_of_entries he₁, hc₁, hnfcs,
      hinvoke₁, hdelete, hfree, pure, Except.pure, hm']
  · intro a' hmem e' he' hne'
    have haa : a' ≠ a := by
      rintro rfl
      rw [he] at he'
      cases he'
      exact hne' hk
    refine ⟨?_, by rw [hbody' a' haa, RtMem.body, he']; rfl⟩
    rw [hzs, List.mem_append, List.mem_cons] at hmem
    rw [List.mem_append]
    exact hmem.imp_right fun hsuf => hsuf.resolve_left haa

end TableOk

end NotifChain
end MultithreadingBible
