import MultithreadingBible.NotifChain.Entries

/-!
# What a routing table means

A table stands for a partial function from keys to routes: the addresses of a route and the
registrations for it, the most recent one first.  `Represents m T` says that the memory `m` holds
the table `T`.  The three operations of `rt.c` act on `T` as `Routes.addOrUpdate`,
`Routes.register` and `Routes.delete` do, and their calls are read off `T`.
-/

namespace MultithreadingBible
namespace NotifChain

open Lib GlueThread

universe u

/-- What a subscriber registers. -/
structure Registration (F : Type*) where
  appCb : F
  subsId : UInt32
  deriving DecidableEq

/-- The call that notifies a registration. -/
def Registration.call {F P : Type*} (r : Registration F) (arg : P) (opCode : NfcOp) :
    NfcCall F P :=
  ⟨r.appCb, arg, opCode, r.subsId⟩

/-- The registration an element of a chain was made for. -/
def NotifChainElem.registration {F : Type*} (nfce : NotifChainElem F) : Registration F :=
  ⟨nfce.appCb, nfce.subsId⟩

/-- A route and the registrations for it. -/
structure Route (F : Type*) where
  gwIp : CharArray 16
  oif : CharArray 32
  subs : List (Registration F)

/-- A route without data or registrations. -/
def Route.empty {F : Type*} : Route F := ⟨.zero 16, .zero 32, []⟩

/-- The route with the addresses that are given. -/
def Route.write {F : Type*} (r : Route F) (gwIp oif : Option (List UInt8)) : Route F :=
  { r with
    gwIp := (gwIp.map (CharArray.strncpy 16)).getD r.gwIp
    oif := (oif.map (CharArray.strncpy 32)).getD r.oif }

/-- The routes of a table. -/
abbrev Routes (F : Type*) := RtEntryKeys → Option (Route F)

namespace Routes

variable {F : Type*}

/-- The route for a key, empty when there is none. -/
def route (T : Routes F) (k : RtEntryKeys) : Route F := (T k).getD .empty

/-- The purpose of `rt_add_or_update_rt_entry`. -/
def addOrUpdate (T : Routes F) (k : RtEntryKeys) (gwIp oif : Option (List UInt8)) : Routes F :=
  Function.update T k (some ((T.route k).write gwIp oif))

/-- The purpose of `rt_table_register_for_notification`. -/
def register (T : Routes F) (k : RtEntryKeys) (r : Registration F) : Routes F :=
  Function.update T k (some { T.route k with subs := r :: (T.route k).subs })

/-- The purpose of `rt_delete_rt_entry`. -/
def delete (T : Routes F) (k : RtEntryKeys) : Routes F := Function.update T k none

end Routes

variable {A F : Type u}

/-- An entry with a route's key and addresses. -/
structure RtEntry.Holds (e : RtEntry A) (k : RtEntryKeys) (r : Route F) : Prop where
  keys : e.rtEntryKeys = k
  gwIp : e.gwIp = r.gwIp
  oif : e.oif = r.oif

/-- The entries `zs` of the table and the registrations `S` in its chains make up the table `T`. -/
structure TableOk (m : RtMem A F) (zs : List A) (S : A → List (A × NotifChainElem F))
    (T : Routes F) : Prop where
  entries : EntriesOk m zs
  chains : NfcOk m.nfcs S
  route : ∀ a ∈ zs, ∀ b, m.body a = some b → ∃ c, b.nfc = some c ∧ m.nfcs.chains c = true ∧
    T b.keys = some ⟨b.gwIp, b.oif, (S c).map fun p => p.2.registration⟩
  absent : ∀ k, (∀ a ∈ zs, ∀ b, m.body a = some b → b.keys ≠ k) → T k = none
  keys : ∀ a ∈ zs, ∀ a' ∈ zs, ∀ b b', m.body a = some b → m.body a' = some b' →
    b.keys = b'.keys → a = a'
  owner : ∀ a ∈ zs, ∀ a' ∈ zs, ∀ b b', m.body a = some b → m.body a' = some b' →
    b.nfc = b'.nfc → a = a'

/-- The memory holds the table `T`. -/
def Represents (m : RtMem A F) (T : Routes F) : Prop := ∃ zs S, TableOk m zs S T

/-- The test of the walks through the table compares keys. -/
theorem RtEntry.hasKey_iff (e : RtEntry A) (dest : List UInt8) (mask : UInt8) :
    e.hasKey dest mask = true ↔ e.rtEntryKeys = rtKey dest mask := by
  rw [RtEntry.hasKey, Bool.and_eq_true, CharArray.strncmpEq_iff, beq_iff_eq]
  cases hk : e.rtEntryKeys with
  | mk dest' mask' => simp [rtKey]

theorem represents_init : Represents (rtInitRtTable : RtMem A F) fun _ => none := by
  refine ⟨[], fun _ => [], ⟨⟨trivial, List.nodup_nil, rfl, ?_, Nat.zero_le _⟩, NfcOk.empty, ?_,
    fun _ _ => rfl, ?_, ?_⟩⟩
  all_goals simp

namespace TableOk

variable {m : RtMem A F} {zs : List A} {S : A → List (A × NotifChainElem F)} {T : Routes F}

/-- An entry of the table in memory, with its chain and its route. -/
theorem exists_entry (h : TableOk m zs S T) {a : A} (ha : a ∈ zs) :
    ∃ e c, m.entries a = some e ∧ m.body a = some e.body ∧ e.nfc = some c ∧
      m.nfcs.chains c = true ∧
      T e.rtEntryKeys = some ⟨e.gwIp, e.oif, (S c).map fun p => p.2.registration⟩ := by
  obtain ⟨b, hb⟩ := h.entries.used a ha
  obtain ⟨e, he, hbody, -⟩ := RtMem.exists_entry hb
  obtain ⟨c, hc, hchain, hroute⟩ := h.route a ha b hb
  rw [← hbody] at hc hroute
  exact ⟨e, c, he, hbody ▸ hb, hc, hchain, hroute⟩

/-- `rt_look_up_rt_entry` finds the entry of a route. -/
theorem find (h : TableOk m zs S T) (dest : List UInt8) (mask : UInt8) :
    (rtLookUpRtEntry m dest mask = .ok none ∧ T (rtKey dest mask) = none) ∨
      ∃ a ∈ zs, rtLookUpRtEntry m dest mask = .ok (some a) ∧
        ∃ e, m.entries a = some e ∧ e.rtEntryKeys = rtKey dest mask := by
  rcases h.entries.lookUp dest mask with ⟨hlook, hno⟩ | ⟨a, ha, e, he, hkey, hlook⟩
  · refine .inl ⟨hlook, h.absent _ fun a ha b hb => ?_⟩
    obtain ⟨e, he, hbody, -⟩ := RtMem.exists_entry hb
    have hfalse := hno a ha e he
    intro hk
    have htrue := (e.hasKey_iff dest mask).mpr (by rw [← hk, ← hbody]; rfl)
    rw [htrue] at hfalse
    cases hfalse
  · exact .inr ⟨a, ha, hlook, e, he, (e.hasKey_iff dest mask).mp hkey⟩

variable [DecidableEq A]

/-- A new registration enters the chain of its entry. -/
theorem register (h : TableOk m zs S T) {a : A} (ha : a ∈ zs) {e : RtEntry A} {c n : A}
    (he : m.entries a = some e) (hc : e.nfc = some c) {nfce : NotifChainElem F} {nfcs : NfcMem A F}
    (hok : NfcOk nfcs (Function.update S c ((n, nfce) :: S c)))
    (hchains : nfcs.chains = m.nfcs.chains) :
    TableOk { m with nfcs := nfcs } zs (Function.update S c ((n, nfce) :: S c))
      (T.register e.rtEntryKeys nfce.registration) := by
  have hbody : m.body a = some e.body := by simp [RtMem.body, he]
  obtain ⟨c', hc', -, hroute⟩ := h.route a ha e.body hbody
  have hcc : c' = c := Option.some.inj (hc'.symm.trans hc)
  subst hcc
  refine ⟨h.entries.frame rfl (le_refl _) (fun _ _ => rfl) h.entries.used, hok, ?_, ?_, h.keys,
    h.owner⟩
  · intro a' ha' b hb
    obtain ⟨d, hd, hdc, hT⟩ := h.route a' ha' b hb
    refine ⟨d, hd, (congrFun hchains d).trans hdc, ?_⟩
    by_cases haa : a' = a
    · -- the entry itself: its route has the registration in front
      subst haa
      have hb' : e.body = b := Option.some.inj (hbody.symm.trans hb)
      subst hb'
      have hdc : d = c' := Option.some.inj (hd.symm.trans hc')
      subst hdc
      have hr : T.route e.rtEntryKeys =
          ⟨e.gwIp, e.oif, (S d).map fun p => p.2.registration⟩ := by
        rw [Routes.route, show T e.rtEntryKeys = _ from hroute]
        rfl
      show Function.update T e.rtEntryKeys _ e.rtEntryKeys = _
      rw [Function.update_self, Function.update_self, hr]
      rfl
    · have hk : b.keys ≠ e.rtEntryKeys := fun hk => haa (h.keys a' ha' a ha b _ hb hbody hk)
      have hdc : d ≠ c' := by
        intro heq
        exact haa (h.owner a' ha' a ha b _ hb hbody (by rw [hd, hc', heq]))
      rw [Routes.register, Function.update_of_ne hk, Function.update_of_ne hdc]
      exact hT
  · intro k hk
    have hke : k ≠ e.rtEntryKeys := fun heq => hk a ha e.body hbody heq.symm
    rw [Routes.register, Function.update_of_ne hke]
    exact h.absent k hk

/-- The publisher's data is written into an entry of the table. -/
theorem write (h : TableOk m zs S T) {a : A} (ha : a ∈ zs) {e : RtEntry A}
    (he : m.entries a = some e) (gwIp oif : Option (List UInt8)) :
    TableOk (m.setEntry a (e.write gwIp oif)) zs S (T.addOrUpdate e.rtEntryKeys gwIp oif) := by
  have hbody : m.body a = some e.body := by simp [RtMem.body, he]
  obtain ⟨c, hc, hchain, hroute⟩ := h.route a ha e.body hbody
  have hself : (m.setEntry a (e.write gwIp oif)).body a = some (e.write gwIp oif).body := by
    simp [RtMem.body, RtMem.setEntry]
  have hother : ∀ a', a' ≠ a → (m.setEntry a (e.write gwIp oif)).body a' = m.body a' := by
    intro a' hne
    simp [RtMem.body, RtMem.setEntry, hne]
  -- keys and chains of the entries are what they were
  have hsame : ∀ a' b', (m.setEntry a (e.write gwIp oif)).body a' = some b' →
      ∃ b, m.body a' = some b ∧ b'.keys = b.keys ∧ b'.nfc = b.nfc := by
    intro a' b' hb'
    by_cases haa : a' = a
    · subst haa
      rw [hself] at hb'
      cases hb'
      exact ⟨_, hbody, rfl, rfl⟩
    · rw [hother a' haa] at hb'
      exact ⟨b', hb', rfl, rfl⟩
  refine ⟨h.entries.frame rfl (le_refl _) ?_ ?_, h.chains, ?_, ?_, ?_, ?_⟩
  · intro a' _
    by_cases haa : a' = a
    · subst haa
      simp [RtMem.links, RtMem.setEntry, he, RtEntry.write]
    · simp [RtMem.links, RtMem.setEntry, haa]
  · intro a' ha'
    by_cases haa : a' = a
    · subst haa
      exact ⟨_, hself⟩
    · obtain ⟨b, hb⟩ := h.entries.used a' ha'
      exact ⟨b, (hother a' haa).trans hb⟩
  · intro a' ha' b' hb'
    by_cases haa : a' = a
    · subst haa
      rw [hself] at hb'
      cases hb'
      refine ⟨c, hc, hchain, ?_⟩
      have hr : T.route e.rtEntryKeys =
          ⟨e.gwIp, e.oif, (S c).map fun p => p.2.registration⟩ := by
        rw [Routes.route, show T e.rtEntryKeys = _ from hroute]
        rfl
      show Function.update T e.rtEntryKeys _ e.rtEntryKeys = _
      rw [Function.update_self, hr]
      rfl
    · rw [hother a' haa] at hb'
      have hk : b'.keys ≠ e.rtEntryKeys := fun hk => haa (h.keys a' ha' a ha b' _ hb' hbody hk)
      rw [Routes.addOrUpdate, Function.update_of_ne hk]
      exact h.route a' ha' b' hb'
  · intro k hk
    have hke : k ≠ e.rtEntryKeys := fun heq => hk a ha _ hself heq.symm
    rw [Routes.addOrUpdate, Function.update_of_ne hke]
    refine h.absent k fun a' ha' b hb hbk => ?_
    by_cases haa : a' = a
    · subst haa
      rw [hbody] at hb
      cases hb
      exact hke hbk.symm
    · exact hk a' ha' b ((hother a' haa).trans hb) hbk
  · intro a₁ h₁ a₂ h₂ b₁ b₂ hb₁ hb₂ hk
    obtain ⟨d₁, hd₁, hk₁, -⟩ := hsame a₁ b₁ hb₁
    obtain ⟨d₂, hd₂, hk₂, -⟩ := hsame a₂ b₂ hb₂
    exact h.keys a₁ h₁ a₂ h₂ d₁ d₂ hd₁ hd₂ (by rw [← hk₁, hk, hk₂])
  · intro a₁ h₁ a₂ h₂ b₁ b₂ hb₁ hb₂ hn
    obtain ⟨d₁, hd₁, -, hn₁⟩ := hsame a₁ b₁ hb₁
    obtain ⟨d₂, hd₂, -, hn₂⟩ := hsame a₂ b₂ hb₂
    exact h.owner a₁ h₁ a₂ h₂ d₁ d₂ hd₁ hd₂ (by rw [← hn₁, hn, hn₂])

omit [DecidableEq A] in
/-- A new entry with a new chain is put in front of the table. -/
theorem insert (h : TableOk m zs S T) {m' : RtMem A F} {a c : A} {b : Body A}
    (hentries : EntriesOk m' (a :: zs)) (hchains : NfcOk m'.nfcs S) (hself : m'.body a = some b)
    (hother : ∀ a' ∈ zs, m'.body a' = m.body a') (ha : a ∉ zs)
    (hkeep : ∀ d, m.nfcs.chains d = true → m'.nfcs.chains d = true) (hc : b.nfc = some c)
    (hnew : m.nfcs.chains c = false) (hused : m'.nfcs.chains c = true) (hT : T b.keys = none) :
    TableOk m' (a :: zs) S (Function.update T b.keys (some ⟨b.gwIp, b.oif, []⟩)) := by
  have hne : ∀ a' ∈ zs, a' ≠ a := by
    intro a' ha' heq
    exact ha (heq ▸ ha')
  -- an old entry has a route, so its key is another one, and its chain was in use before
  have hold : ∀ a' ∈ zs, ∀ b', m'.body a' = some b' → b'.keys ≠ b.keys ∧ b'.nfc ≠ b.nfc := by
    intro a' ha' b' hb'
    rw [hother a' ha'] at hb'
    obtain ⟨d, hd, hdc, hroute⟩ := h.route a' ha' b' hb'
    constructor
    · intro hk
      rw [hk, hT] at hroute
      cases hroute
    · intro hn
      have hcd : d = c := Option.some.inj (by rw [← hd, hn, hc])
      rw [hcd, hnew] at hdc
      cases hdc
  refine ⟨hentries, hchains, ?_, ?_, ?_, ?_⟩
  · intro a' ha' b' hb'
    rcases List.mem_cons.mp ha' with rfl | ha'
    · rw [hself] at hb'
      cases hb'
      refine ⟨c, hc, hused, ?_⟩
      rw [Function.update_self, h.chains.unused c hnew]
      rfl
    · rw [Function.update_of_ne (hold a' ha' b' hb').1]
      rw [hother a' ha'] at hb'
      obtain ⟨d, hd, hdc, hroute⟩ := h.route a' ha' b' hb'
      exact ⟨d, hd, hkeep d hdc, hroute⟩
  · intro k hk
    have hkb : k ≠ b.keys := fun heq => hk a (by simp) b hself heq.symm
    rw [Function.update_of_ne hkb]
    exact h.absent k fun a' ha' b' hb' =>
      hk a' (List.mem_cons_of_mem _ ha') b' ((hother a' ha').trans hb')
  · intro a₁ h₁ a₂ h₂ b₁ b₂ hb₁ hb₂ hk
    rcases List.mem_cons.mp h₁ with rfl | hz₁ <;> rcases List.mem_cons.mp h₂ with rfl | hz₂
    · rfl
    · rw [hself] at hb₁
      cases hb₁
      exact absurd hk.symm (hold a₂ hz₂ b₂ hb₂).1
    · rw [hself] at hb₂
      cases hb₂
      exact absurd hk (hold a₁ hz₁ b₁ hb₁).1
    · rw [hother a₁ hz₁] at hb₁
      rw [hother a₂ hz₂] at hb₂
      exact h.keys a₁ hz₁ a₂ hz₂ b₁ b₂ hb₁ hb₂ hk
  · intro a₁ h₁ a₂ h₂ b₁ b₂ hb₁ hb₂ hn
    rcases List.mem_cons.mp h₁ with rfl | hz₁ <;> rcases List.mem_cons.mp h₂ with rfl | hz₂
    · rfl
    · rw [hself] at hb₁
      cases hb₁
      exact absurd hn.symm (hold a₂ hz₂ b₂ hb₂).2
    · rw [hself] at hb₂
      cases hb₂
      exact absurd hn (hold a₁ hz₁ b₁ hb₁).2
    · rw [hother a₁ hz₁] at hb₁
      rw [hother a₂ hz₂] at hb₂
      exact h.owner a₁ hz₁ a₂ hz₂ b₁ b₂ hb₁ hb₂ hn

/-- An entry leaves the table and its chain is emptied and freed. -/
theorem delete (h : TableOk m zs S T) {m' : RtMem A F} {pre suf : List A} {a c : A} {e : RtEntry A}
    (hzs : zs = pre ++ a :: suf) (he : m.entries a = some e) (hc : e.nfc = some c)
    (hentries : EntriesOk m' (pre ++ suf)) (hbody : ∀ a', a' ≠ a → m'.body a' = m.body a')
    (hchains : NfcOk m'.nfcs (Function.update S c []))
    (hfree : m'.nfcs.chains = Function.update m.nfcs.chains c false) :
    TableOk m' (pre ++ suf) (Function.update S c []) (T.delete e.rtEntryKeys) := by
  have ha : a ∈ zs := by simp [hzs]
  have hself : m.body a = some e.body := by simp [RtMem.body, he]
  have hnd := h.entries.nodup
  rw [hzs] at hnd
  -- the entries that stay are the others
  have hmem : ∀ a' ∈ pre ++ suf, a' ∈ zs ∧ a' ≠ a := by
    intro a' ha'
    have hperm : (pre ++ a :: suf).Perm (a :: (pre ++ suf)) := List.perm_middle
    constructor
    · rw [hzs]
      exact hperm.mem_iff.mpr (List.mem_cons_of_mem _ ha')
    · intro heq
      exact (List.nodup_cons.mp (hperm.nodup_iff.mp hnd)).1 (heq ▸ ha')
  have hall : ∀ a' ∈ zs, a' ≠ a → a' ∈ pre ++ suf := by
    intro a' ha' hne
    rw [hzs] at ha'
    have := List.mem_append.mp ha'
    simp only [List.mem_cons, hne, false_or] at this
    exact List.mem_append.mpr this
  refine ⟨hentries, hchains, ?_, ?_, ?_, ?_⟩
  · intro a' ha' b hb
    obtain ⟨hz, hne⟩ := hmem a' ha'
    rw [hbody a' hne] at hb
    obtain ⟨d, hd, hdc, hroute⟩ := h.route a' hz b hb
    -- they have other keys and other chains
    have hk : b.keys ≠ e.rtEntryKeys := fun hk => hne (h.keys a' hz a ha b _ hb hself hk)
    have hdc' : d ≠ c := by
      intro heq
      exact hne (h.owner a' hz a ha b _ hb hself (by rw [hd, heq]; exact hc.symm))
    refine ⟨d, hd, ?_, ?_⟩
    · rw [hfree, Function.update_of_ne hdc']
      exact hdc
    · rw [Routes.delete, Function.update_of_ne hk, Function.update_of_ne hdc']
      exact hroute
  · -- a key without an entry had none before, or it was the key of `a`
    intro k hk
    by_cases hke : k = e.rtEntryKeys
    · rw [hke, Routes.delete, Function.update_self]
    · rw [Routes.delete, Function.update_of_ne hke]
      refine h.absent k fun a' ha' b hb hbk => ?_
      by_cases haa : a' = a
      · subst haa
        rw [hself] at hb
        cases hb
        exact hke hbk.symm
      · exact hk a' (hall a' ha' haa) b ((hbody a' haa).trans hb) hbk
  · intro a₁ h₁ a₂ h₂ b₁ b₂ hb₁ hb₂ hk
    obtain ⟨hz₁, hne₁⟩ := hmem a₁ h₁
    obtain ⟨hz₂, hne₂⟩ := hmem a₂ h₂
    rw [hbody a₁ hne₁] at hb₁
    rw [hbody a₂ hne₂] at hb₂
    exact h.keys a₁ hz₁ a₂ hz₂ b₁ b₂ hb₁ hb₂ hk
  · intro a₁ h₁ a₂ h₂ b₁ b₂ hb₁ hb₂ hn
    obtain ⟨hz₁, hne₁⟩ := hmem a₁ h₁
    obtain ⟨hz₂, hne₂⟩ := hmem a₂ h₂
    rw [hbody a₁ hne₁] at hb₁
    rw [hbody a₂ hne₂] at hb₂
    exact h.owner a₁ hz₁ a₂ hz₂ b₁ b₂ hb₁ hb₂ hn

end TableOk

end NotifChain
end MultithreadingBible
