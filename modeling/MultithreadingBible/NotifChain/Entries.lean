import MultithreadingBible.NotifChain.RtTable

/-!
# The entries of a routing table as a list

The links of the entries (`RtMem.links`) are cells of the kind the `gluethread` library works on,
and `rt_entry_remove` writes what `remove_glthread` does.  What else an entry holds is its `Body`,
which linking and unlinking leave alone.

`EntriesOk m zs` says that the table consists of the entries `zs`, in this order; `lookUp`,
`insertFirst` and `removeEntry` are the specifications of the functions that walk or relink it.
-/

namespace MultithreadingBible
namespace NotifChain

open Lib GlueThread

universe u

/-- What an entry holds apart from its links. -/
structure Body (A : Type*) where
  keys : RtEntryKeys
  gwIp : CharArray 16
  oif : CharArray 32
  nfc : Option A

variable {A F : Type u}

/-- The contents of an entry. -/
def RtEntry.body (e : RtEntry A) : Body A := ⟨e.rtEntryKeys, e.gwIp, e.oif, e.nfc⟩

namespace RtMem

/-- The links of the entries in use. -/
def links (m : RtMem A F) : Heap A := fun a =>
  match m.entries a with
  | none => Glthread.null
  | some e => ⟨e.prev, e.next⟩

/-- The contents of the entries in use. -/
def body (m : RtMem A F) (a : A) : Option (Body A) := (m.entries a).map RtEntry.body

/-- The same entries with other links. -/
def withLinks (m : RtMem A F) (hp : Heap A) : RtMem A F :=
  { m with
    entries := fun a => (m.entries a).map fun e =>
      { e with prev := (hp a).left, next := (hp a).right } }

variable {m : RtMem A F} {a : A}

/-- An entry in use, with its links and its contents. -/
theorem exists_entry {b : Body A} (h : m.body a = some b) :
    ∃ e, m.entries a = some e ∧ e.body = b ∧ m.links a = ⟨e.prev, e.next⟩ := by
  obtain ⟨e, he, hb⟩ := Option.map_eq_some_iff.mp h
  exact ⟨e, he, hb, by simp [links, he]⟩

theorem withLinks_links (m : RtMem A F) : m.withLinks m.links = m := by
  have hentries : (fun a => (m.entries a).map fun e =>
      { e with prev := (m.links a).left, next := (m.links a).right }) = m.entries := by
    ext1 a
    cases he : m.entries a with
    | none => rfl
    | some e => simp [links, he]
  simp only [withLinks, hentries]

@[simp] theorem body_withLinks (m : RtMem A F) (hp : Heap A) (a : A) :
    (m.withLinks hp).body a = m.body a := by
  simp only [body, withLinks, Option.map_map]
  rfl

theorem links_withLinks (hp : Heap A) {b : Body A} (h : m.body a = some b) :
    (m.withLinks hp).links a = hp a := by
  obtain ⟨e, he, -, -⟩ := exists_entry h
  simp [links, withLinks, he]

variable [DecidableEq A]

theorem setPrev_withLinks (hp : Heap A) {b : Body A} (h : m.body a = some b) (v : Option A) :
    (m.withLinks hp).setPrev a v = .ok (m.withLinks (setLeft hp a v)) := by
  obtain ⟨e, he, -, -⟩ := exists_entry h
  have hat : (m.withLinks hp).entryAt a =
      .ok { e with prev := (hp a).left, next := (hp a).right } := by
    simp [entryAt, withLinks, he]
  rw [setPrev, hat]
  simp only [Except.map, setEntry, withLinks, Except.ok.injEq, RtMem.mk.injEq, and_true, true_and]
  ext1 c
  by_cases hc : c = a
  · subst hc
    simp [he, setLeft]
  · simp [hc, setLeft]

theorem setNext_withLinks (hp : Heap A) {b : Body A} (h : m.body a = some b) (v : Option A) :
    (m.withLinks hp).setNext a v = .ok (m.withLinks (setRight hp a v)) := by
  obtain ⟨e, he, -, -⟩ := exists_entry h
  have hat : (m.withLinks hp).entryAt a =
      .ok { e with prev := (hp a).left, next := (hp a).right } := by
    simp [entryAt, withLinks, he]
  rw [setNext, hat]
  simp only [Except.map, setEntry, withLinks, Except.ok.injEq, RtMem.mk.injEq, and_true, true_and]
  ext1 c
  by_cases hc : c = a
  · subst hc
    simp [he, setRight]
  · simp [hc, setRight]

end RtMem

/-- The table consists of the entries `zs`, in this order. -/
structure EntriesOk (m : RtMem A F) (zs : List A) : Prop where
  row : Row m.links none none zs
  nodup : zs.Nodup
  head : m.head = zs.head?
  used : ∀ a ∈ zs, ∃ b, m.body a = some b
  fuel : zs.length ≤ m.fuel

namespace EntriesOk

variable {m : RtMem A F} {zs : List A}

/-- The links of an entry lead to the entries before and behind it. -/
theorem links_of_split (h : EntriesOk m zs) {pre suf : List A} {a : A}
    (hzs : zs = pre ++ a :: suf) : m.links a = ⟨pre.getLast?, suf.head?⟩ := by
  have hrow := h.row
  rw [hzs, row_append] at hrow
  simpa using hrow.2.1

theorem not_mem (h : EntriesOk m zs) {a : A} (ha : m.entries a = none) : a ∉ zs := by
  intro hmem
  obtain ⟨b, hb⟩ := h.used a hmem
  rw [RtMem.body, ha] at hb
  cases hb

/-- Entries outside the table may change. -/
theorem frame (h : EntriesOk m zs) {m' : RtMem A F} (hhead : m'.head = m.head)
    (hfuel : m.fuel ≤ m'.fuel) (hlinks : ∀ a ∈ zs, m'.links a = m.links a)
    (hused : ∀ a ∈ zs, ∃ b, m'.body a = some b) : EntriesOk m' zs where
  row := h.row.frame hlinks
  nodup := h.nodup
  head := hhead.trans h.head
  used := hused
  fuel := h.fuel.trans hfuel

/-- The walk through the table from any position: it stops at the first entry with the key. -/
theorem lookUpLoop (h : EntriesOk m zs) (dest : List UInt8) (mask : UInt8) (suf : List A) :
    ∀ (pre : List A) {fuel : Nat}, zs = pre ++ suf → suf.length ≤ fuel →
      (rtLookUpLoop m dest mask fuel suf.head? = .ok none ∧
          ∀ a ∈ suf, ∀ e, m.entries a = some e → e.hasKey dest mask = false) ∨
        ∃ a ∈ suf, ∃ e, m.entries a = some e ∧ e.hasKey dest mask = true ∧
          rtLookUpLoop m dest mask fuel suf.head? = .ok (some a) := by
  induction suf with
  | nil =>
      intro pre fuel _ _
      refine .inl ⟨?_, by simp⟩
      cases fuel <;> rfl
  | cons a suf ih =>
      intro pre fuel hzs hlen
      obtain ⟨k, rfl⟩ : ∃ k, fuel = k + 1 := ⟨fuel - 1, by simp at hlen; omega⟩
      obtain ⟨b, hb⟩ := h.used a (by simp [hzs])
      obtain ⟨e, he, -, hlinks⟩ := RtMem.exists_entry hb
      have hnext : e.next = suf.head? := by
        rw [h.links_of_split hzs] at hlinks
        exact (congrArg Glthread.right hlinks).symm
      have hat : m.entryAt a = .ok e := by simp [RtMem.entryAt, he]
      simp only [List.head?_cons, rtLookUpLoop, hat, bind, Except.bind]
      cases hkey : e.hasKey dest mask with
      | true => exact .inr ⟨a, by simp, e, he, hkey, rfl⟩
      | false =>
          simp only [Bool.false_eq_true, if_false, hnext]
          rcases ih (pre ++ [a]) (by simp [hzs]) (Nat.le_of_succ_le_succ hlen) with
            ⟨hloop, hno⟩ | ⟨a', ha', e', he', hkey', hloop⟩
          · refine .inl ⟨hloop, fun a' ha' e' he' => ?_⟩
            rcases List.mem_cons.mp ha' with rfl | ha'
            · rw [he] at he'
              cases he'
              exact hkey
            · exact hno a' ha' e' he'
          · exact .inr ⟨a', List.mem_cons_of_mem _ ha', e', he', hkey', hloop⟩

/-- `rt_look_up_rt_entry` finds the entry with the key. -/
theorem lookUp (h : EntriesOk m zs) (dest : List UInt8) (mask : UInt8) :
    (rtLookUpRtEntry m dest mask = .ok none ∧
        ∀ a ∈ zs, ∀ e, m.entries a = some e → e.hasKey dest mask = false) ∨
      ∃ a ∈ zs, ∃ e, m.entries a = some e ∧ e.hasKey dest mask = true ∧
        rtLookUpRtEntry m dest mask = .ok (some a) := by
  rw [rtLookUpRtEntry, h.head]
  exact h.lookUpLoop dest mask zs [] rfl h.fuel

variable [DecidableEq A]

/-- `rt_entry_remove` writes the links `remove_glthread` would write. -/
theorem rtEntryRemove_eq (h : EntriesOk m zs) {pre suf : List A} {a : A}
    (hzs : zs = pre ++ a :: suf) :
    rtEntryRemove m a = .ok { m.withLinks (removeGlthread m.links a) with
      head := (pre ++ suf).head? } := by
  obtain ⟨b, hb⟩ := h.used a (by simp [hzs])
  obtain ⟨e, he, -, hlinks⟩ := RtMem.exists_entry hb
  have hcell := h.links_of_split hzs
  rw [hcell] at hlinks
  -- the neighbours of the entry are its neighbours in the table
  have hprev : e.prev = pre.getLast? := (congrArg Glthread.left hlinks).symm
  have hnext : e.next = suf.head? := (congrArg Glthread.right hlinks).symm
  have hat : m.entryAt a = .ok e := by simp [RtMem.entryAt, he]
  have hsuf : ∀ n, suf.head? = some n → ∃ bn, m.body n = some bn := fun n hn =>
    h.used n (by simp [hzs, List.mem_of_mem_head? hn])
  have hpre : ∀ p, pre.getLast? = some p → ∃ bp, m.body p = some bp := fun p hp =>
    h.used p (by simp [hzs, List.mem_of_getLast? hp])
  -- with an entry before it, the head stays
  have hnohead : ∀ p, pre.getLast? = some p → m.head = (pre ++ suf).head? := by
    intro p hp
    have hne : pre ≠ [] := by
      intro heq
      simp [heq] at hp
    rw [h.head, hzs, List.head?_append_of_ne_nil _ hne, List.head?_append_of_ne_nil _ hne]
  have hm := m.withLinks_links
  simp only [rtEntryRemove, hat, bind, Except.bind, hprev, hnext]
  rw [removeGlthread, hcell]
  cases hp : pre.getLast? with
  | none =>
      rw [List.getLast?_eq_none_iff] at hp
      -- the first entry: the head moves on, and there is no link back to mend
      subst hp
      cases hn : suf.head? with
      | none =>
          simp only [List.nil_append, hn, hm]
          rfl
      | some n =>
          obtain ⟨bn, hbn⟩ := hsuf n hn
          have hleft := RtMem.setPrev_withLinks m.links hbn none
          have hright := RtMem.setNext_withLinks (m := { m with head := some n })
            (setLeft m.links n none) hb none
          rw [hm] at hleft
          simp only [hleft, List.nil_append, hn]
          exact hright
  | some p =>
      obtain ⟨bp, hbp⟩ := hpre p hp
      have hright := RtMem.setNext_withLinks m.links hbp suf.head?
      rw [hm] at hright
      rw [← hnohead p hp]
      cases hn : suf.head? with
      | none =>
          rw [hn] at hright
          simp only [hright, RtMem.setPrev_withLinks _ hb]
          rfl
      | some n =>
          obtain ⟨bn, hbn⟩ := hsuf n hn
          rw [hn] at hright
          simp only [hright, RtMem.setPrev_withLinks _ hbn, RtMem.setPrev_withLinks _ hb,
            RtMem.setNext_withLinks _ hb]
          rfl

/-- `rt_entry_remove` takes an entry out of the table. -/
theorem removeEntry (h : EntriesOk m zs) {pre suf : List A} {a : A} (hzs : zs = pre ++ a :: suf) :
    ∃ m', rtEntryRemove m a = .ok m' ∧ EntriesOk m' (pre ++ suf) ∧ (∀ c, m'.body c = m.body c) ∧
      m'.nfcs = m.nfcs := by
  refine ⟨_, h.rtEntryRemove_eq hzs, ?_, fun c => RtMem.body_withLinks _ _ c, rfl⟩
  have hrow := h.row
  have hnd := h.nodup
  have hlen := h.fuel
  rw [hzs] at hrow hnd hlen
  have hmem : ∀ c ∈ pre ++ suf, c ∈ zs := by
    intro c hc
    rw [hzs]
    rcases List.mem_append.mp hc with hc | hc
    · simp [hc]
    · simp [hc]
  refine ⟨(hrow.removeAt hnd).frame fun c hc => ?_, ?_, rfl, fun c hc => ?_, ?_⟩
  · obtain ⟨b, hb⟩ := h.used c (hmem c hc)
    exact RtMem.links_withLinks _ hb
  · exact hnd.sublist (by simp)
  · obtain ⟨b, hb⟩ := h.used c (hmem c hc)
    exact ⟨b, (RtMem.body_withLinks _ _ c).trans hb⟩
  · show (pre ++ suf).length ≤ m.fuel
    simp at hlen ⊢
    omega

/-- A new entry goes in front. -/
theorem insertFirst (h : EntriesOk m zs) {a : A} {b : Body A} (hb : m.body a = some b)
    (ha : a ∉ zs) (hfuel : zs.length < m.fuel) :
    ∃ m', rtInsertFirst m a = .ok m' ∧ EntriesOk m' (a :: zs) ∧ (∀ c, m'.body c = m.body c) ∧
      m'.nfcs = m.nfcs := by
  have hm : ({ m with head := some a } : RtMem A F).withLinks m.links = { m with head := some a } :=
    RtMem.withLinks_links { m with head := some a }
  have hb' : ({ m with head := some a } : RtMem A F).body a = some b := hb
  have hprev := RtMem.setPrev_withLinks m.links hb' none
  have hnext := RtMem.setNext_withLinks (setLeft m.links a none) hb' m.head
  rw [hm] at hprev
  have hself : ∀ v, setRight (setLeft m.links a none) a v a = ⟨none, v⟩ := by
    simp [setRight, setLeft]
  have hother : ∀ v c, c ≠ a → setRight (setLeft m.links a none) a v c = m.links c := by
    intro v c hc
    simp [setRight, setLeft, hc]
  -- the new entry's links do not touch the old first entry, whose `prev` is written last
  have hnone : m.head = none → rtInsertFirst m a = .ok (({ m with head := some a } : RtMem A F).withLinks
      (setRight (setLeft m.links a none) a none)) := by
    intro hhead
    rw [hhead] at hnext
    simp only [rtInsertFirst, bind, Except.bind, hprev, hnext, hhead]
    rfl
  have hsome : ∀ d, m.head = some d → rtInsertFirst m a =
      (({ m with head := some a } : RtMem A F).withLinks
        (setRight (setLeft m.links a none) a (some d))).setPrev d (some a) := by
    intro d hhead
    rw [hhead] at hnext
    simp only [rtInsertFirst, bind, Except.bind, hprev, hnext, hhead]
  cases zs with
  | nil =>
      refine ⟨_, hnone h.head, ⟨?_, by simp, rfl, ?_, hfuel⟩, fun c => RtMem.body_withLinks _ _ c, rfl⟩
      · refine ⟨?_, trivial⟩
        rw [RtMem.links_withLinks _ hb', hself]
        rfl
      · intro c hc
        rw [List.mem_singleton.mp hc]
        exact ⟨b, (RtMem.body_withLinks _ _ a).trans hb⟩
  | cons d tl =>
      have hda : d ≠ a := by
        intro heq
        exact ha (by simp [heq])
      have hdtl : d ∉ tl := (List.nodup_cons.mp h.nodup).1
      obtain ⟨bd, hbd⟩ : ∃ bd, ({ m with head := some a } : RtMem A F).body d = some bd :=
        h.used d (by simp)
      have hlast := RtMem.setPrev_withLinks
        (setRight (setLeft m.links a none) a (some d)) hbd (some a)
      refine
        ⟨_, (hsome d h.head).trans hlast,
          ⟨⟨?_, ?_, ?_⟩, List.nodup_cons.mpr ⟨ha, h.nodup⟩, rfl, ?_, hfuel⟩,
        fun c => RtMem.body_withLinks _ _ c, rfl⟩
      · rw [RtMem.links_withLinks _ hb', setLeft, Function.update_of_ne hda.symm, hself]
        rfl
      · have hrow := h.row.1
        rw [RtMem.links_withLinks _ hbd, setLeft, Function.update_self, hother _ d hda, hrow]
      · refine h.row.2.frame fun c hc => ?_
        obtain ⟨bc, hbc⟩ : ∃ bc, ({ m with head := some a } : RtMem A F).body c = some bc :=
          h.used c (List.mem_cons_of_mem _ hc)
        have hcd : c ≠ d := by
          intro heq
          exact hdtl (heq ▸ hc)
        have hca : c ≠ a := by
          intro heq
          exact ha (heq ▸ List.mem_cons_of_mem _ hc)
        rw [RtMem.links_withLinks _ hbc, setLeft, Function.update_of_ne hcd, hother _ c hca]
      · intro c hc
        rcases List.mem_cons.mp hc with rfl | hc
        · exact ⟨b, (RtMem.body_withLinks _ _ c).trans hb⟩
        · obtain ⟨bc, hbc⟩ := h.used c hc
          exact ⟨bc, (RtMem.body_withLinks _ _ c).trans hbc⟩

end EntriesOk

end NotifChain
end MultithreadingBible
