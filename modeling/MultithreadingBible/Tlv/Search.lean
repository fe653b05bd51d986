import MultithreadingBible.Tlv.Buffer

/-!
# Where a search reads

`tlv_buffer_get_particular_tlv` trusts the buffer: it compares an offset with the size, and then
reads a header of two bytes and goes on by the length found there, as a signed character.

* `StaysInside` -- every byte that a search reads lies in the buffer, and so does a value it returns.
* `Scannable` -- the buffer consists of elements shorter than 128 bytes up to the one that is looked for.
* `staysInside_iff` -- a search of a scannable buffer stays inside.  A search of any other buffer
  does not, if the buffer has at most 256 bytes or no long element takes the pointer back.
-/

namespace MultithreadingBible
namespace Tlv

/-- A result that was reached without reading outside of a buffer of `n` bytes, and points to a
value in it. -/
def SearchResult.Inside (n : Nat) : SearchResult → Prop
  | .returned none _ => True
  | .returned (some p) l => 0 ≤ p ∧ p + l.toNat ≤ n
  | .badAccess => False

/-- However long a search runs, it does not leave the buffer. -/
def StaysInside (b : List UInt8) (t : UInt8) : Prop :=
  ∀ fuel r, tlvBufferGetParticularTlv b t fuel = some r → r.Inside b.length

/-- An element that a search for `t` passes over, and whose length is a positive signed character. -/
structure Passed (t : UInt8) (x : Element) : Prop where
  other : ¬ sameType x.tlvNo t
  short : x.data.length < 128

/-- What may follow the elements that are passed over, which take up `passed` bytes. -/
inductive EndsSearch (t : UInt8) (passed : Nat) : List UInt8 → Prop where
  /-- The end of the buffer. -/
  | empty : EndsSearch t passed []
  /-- The element that is looked for, and maybe more. -/
  | found {c l : UInt8} {data : List UInt8} (htype : sameType c t) (hdata : l.toNat ≤ data.length) :
      EndsSearch t passed (c :: l :: data)
  /-- Another element, maybe cut off: its length reaches the end, and the counter of 32 bits does
  not wrap. -/
  | last {c l : UInt8} {data : List UInt8} (htype : ¬ sameType c t) (hdata : data.length ≤ l.toNat)
      (hcounter : passed + 2 + l.toNat < 2 ^ 32) : EndsSearch t passed (c :: l :: data)

/-- The buffer is a sequence of short elements up to the first one of type `t`, or else up to its end. -/
def Scannable (b : List UInt8) (t : UInt8) : Prop :=
  ∃ xs rest, b = bytesOf xs ++ rest ∧ (∀ x ∈ xs, Passed t x) ∧ EndsSearch t (bytesOf xs).length rest

/-- After short elements comes one of another type with a length of 128 or more, and the counter is
still below the size after it. -/
def JumpsBack (b : List UInt8) (t : UInt8) : Prop :=
  ∃ xs c l data, b = bytesOf xs ++ c :: l :: data ∧ (∀ x ∈ xs, Passed t x) ∧ ¬ sameType c t ∧
    128 ≤ l.toNat ∧ (l.toNat < data.length ∨ 2 ^ 32 ≤ (bytesOf xs).length + 2 + l.toNat)

variable {b done rest data : List UInt8} {t c l : UInt8} {fuel n : Nat}

/-- Searches of one buffer end in the same way. -/
theorem searchFrom_unique {fuel' : Nat} {r r' : SearchResult} (h : searchFrom b t fuel n = some r)
    (h' : searchFrom b t fuel' n = some r') : r = r' := by
  have hmore : searchFrom b t (fuel + fuel') n = some r := iterateTlv_mono h
  have hmore' : searchFrom b t (fuel' + fuel) n = some r' := iterateTlv_mono h'
  rw [Nat.add_comm, hmore] at hmore'
  exact Option.some.inj hmore'

theorem staysInside_of_searchFrom {r : SearchResult} (h : searchFrom b t fuel 0 = some r)
    (hr : r.Inside b.length) : StaysInside b t := by
  intro fuel' r' h'
  rw [searchFrom_unique h' h]
  exact hr

section Headers

theorem getElem?_header (hdone : b = done ++ c :: l :: data) :
    b[done.length]? = some c ∧ b[done.length + 1]? = some l := by
  rw [hdone]
  constructor
  · simp
  · rw [List.getElem?_append_right (by omega), Nat.add_sub_cancel_left]
    rfl

/-- A header whose data lies in the buffer is that of an element. -/
theorem exists_element (hdata : l.toNat ≤ data.length) :
    ∃ x : Element, x.tlvNo = c ∧ x.data.length = l.toNat ∧
      c :: l :: data = x.bytes ++ data.drop l.toNat := by
  have htake : (data.take l.toNat).length = l.toNat := List.length_take_of_le hdata
  have hlt := l.toNat_lt
  refine ⟨⟨c, data.take l.toNat, by omega⟩, rfl, htake, ?_⟩
  show c :: l :: data = c :: UInt8.ofNat (data.take l.toNat).length :: data.take l.toNat ++ _
  rw [htake, UInt8.ofNat_toNat, List.cons_append, List.cons_append, List.take_append_drop]

/-- A search passes over short elements of other types. -/
theorem searchFrom_passed (done : List UInt8) (fuel : Nat) (hb : b.length < 2 ^ 32)
    {xs : List Element} (hpassed : ∀ x ∈ xs, Passed t x)
    (hsplit : b = done ++ bytesOf xs ++ rest) :
    searchFrom b t (fuel + xs.length) done.length =
      searchFrom b t fuel (done.length + (bytesOf xs).length) := by
  induction xs generalizing done with
  | nil => rfl
  | cons x xs ih =>
      have hx := hpassed x List.mem_cons_self
      have hheader : b = done ++ x.tlvNo :: x.dataLen :: (x.data ++ bytesOf xs ++ rest) := by
        rw [hsplit, bytesOf_cons]
        simp [Element.bytes]
      obtain ⟨hc, hl⟩ := getElem?_header hheader
      have hshort : x.dataLen.toNat < 128 := by
        rw [x.toNat_dataLen]
        exact hx.short
      have hnext : b = done ++ x.bytes ++ bytesOf xs ++ rest := by
        rw [hsplit, bytesOf_cons, ← List.append_assoc]
      have hrest := ih (done ++ x.bytes) (fun y hy => hpassed y (List.mem_cons_of_mem _ hy)) hnext
      rw [List.length_append, x.length_bytes] at hrest
      rw [List.length_cons, ← Nat.add_assoc, searchFrom_short hb hc hl hx.other hshort, x.toNat_dataLen,
        bytesOf_cons, List.length_append, x.length_bytes]
      have hoffset : done.length + 2 + x.data.length = done.length + (x.data.length + 2) := by omega
      have hoffset' : done.length + (x.data.length + 2 + (bytesOf xs).length) =
          done.length + (x.data.length + 2) + (bytesOf xs).length := by omega
      rw [hoffset, hoffset', hrest]

/-- From the start of a buffer. -/
theorem searchFrom_zero (fuel : Nat) (hb : b.length < 2 ^ 32) {xs : List Element}
    (hpassed : ∀ x ∈ xs, Passed t x)
    (hsplit : b = bytesOf xs ++ rest) :
    searchFrom b t (fuel + xs.length) 0 = searchFrom b t fuel (bytesOf xs).length := by
  have hstart := searchFrom_passed [] fuel hb hpassed (by simpa using hsplit)
  rw [List.length_nil, Nat.zero_add] at hstart
  exact hstart

end Headers

theorem Scannable.staysInside (hb : b.length < 2 ^ 32) (h : Scannable b t) : StaysInside b t := by
  obtain ⟨xs, rest, hsplit, hpassed, hends⟩ := h
  have hlength : b.length = (bytesOf xs).length + rest.length := by rw [hsplit, List.length_append]
  have hstart := searchFrom_zero 2 hb hpassed hsplit
  cases hends with
  | empty =>
      rw [List.length_nil, Nat.add_zero] at hlength
      rw [searchFrom_end hb (by omega) (by omega)] at hstart
      exact staysInside_of_searchFrom hstart trivial
  | found htype hdata =>
      obtain ⟨hc, hl⟩ := getElem?_header hsplit
      rw [searchFrom_found hb hc hl htype] at hstart
      rw [List.length_cons, List.length_cons] at hlength
      refine staysInside_of_searchFrom hstart ⟨?_, ?_⟩
      · omega
      · omega
  | last htype hdata hcounter =>
      obtain ⟨hc, hl⟩ := getElem?_header hsplit
      rw [List.length_cons, List.length_cons] at hlength
      rw [searchFrom_last hb hc hl htype (by omega) hcounter] at hstart
      exact staysInside_of_searchFrom hstart trivial

/-- A length that reaches beyond a buffer of nearly 4 GiB makes the counter wrap: the next header is
read behind the end. -/
theorem searchFrom_wrap (hb : b.length < 2 ^ 32) (hc : b[n]? = some c) (hl : b[n + 1]? = some l)
    (htype : ¬ sameType c t) (hshort : l.toNat < 128) (hwrap : 2 ^ 32 ≤ n + 2 + l.toNat) :
    searchFrom b t (fuel + 2) n = some .badAccess := by
  have hn := (List.getElem?_eq_some_iff.mp hl).1
  have hlen : UInt32.ofNat (n + 2 + l.toNat) < UInt32.ofNat b.length := by
    rw [UInt32.lt_iff_toNat_lt, UInt32.toNat_ofNat', UInt32.toNat_ofNat']
    omega
  have hptr : (n : Int) + 2 + 2 + l.toInt8.toInt = ((n + 2 + l.toNat : Nat) : Int) + 2 := by
    rw [toInt_toInt8, if_pos hshort]
    omega
  rw [searchFrom_header hb hc hl, if_neg htype, hptr]
  refine iterateTlv_badAccess hlen (.inl ?_)
  rw [load_nat, List.getElem?_eq_none (by omega)]

/-- What stays inside is scannable, as long as the pointer is not taken back in a large buffer. -/
theorem StaysInside.scannable (hb : b.length < 2 ^ 32) (hno : b.length ≤ 256 ∨ ¬ JumpsBack b t)
    (h : StaysInside b t) {xs : List Element} (hpassed : ∀ x ∈ xs, Passed t x)
    (hsplit : b = bytesOf xs ++ rest) : Scannable b t := by
  induction hm : rest.length using Nat.strongRecOn generalizing xs rest with
  | _ m ih =>
    have hlength : b.length = (bytesOf xs).length + rest.length := by rw [hsplit, List.length_append]
    have hstart := searchFrom_zero 2 hb hpassed hsplit
    -- the search gets to the first element that is not passed over, and stays inside there
    have hinside : ∀ r, searchFrom b t 2 (bytesOf xs).length = some r → r.Inside b.length := by
      intro r hr
      exact h _ r (hstart.trans hr)
    cases rest with
    | nil => exact ⟨xs, [], hsplit, hpassed, .empty⟩
    | cons c rest =>
        rw [List.length_cons] at hlength
        cases rest with
        | nil =>
            rw [List.length_nil] at hlength
            exact (hinside _ (searchFrom_badAccess hb (by omega) (by omega))).elim
        | cons l data =>
            rw [List.length_cons] at hlength
            obtain ⟨hc, hl⟩ := getElem?_header hsplit
            by_cases htype : sameType c t
            · obtain ⟨-, hdata⟩ := hinside _ (searchFrom_found hb hc hl htype)
              exact ⟨xs, _, hsplit, hpassed, .found htype (by omega)⟩
            · by_cases hlong : 128 ≤ l.toNat
              · by_cases hjump : l.toNat < data.length ∨ 2 ^ 32 ≤ (bytesOf xs).length + 2 + l.toNat
                · rcases hno with hsmall | hno
                  · have hlt := l.toNat_lt
                    exact (hinside _ (searchFrom_long hb hc hl htype hlong (by omega) hsmall)).elim
                  · exact (hno ⟨xs, c, l, data, hsplit, hpassed, htype, hlong, hjump⟩).elim
                · rw [not_or, Nat.not_lt, Nat.not_le] at hjump
                  exact ⟨xs, _, hsplit, hpassed, .last htype hjump.1 hjump.2⟩
              · by_cases hmore : l.toNat < data.length
                · -- one more short element, and less of the buffer remains
                  obtain ⟨x, hno', hx, hbytes⟩ := exists_element (c := c) (Nat.le_of_lt hmore)
                  have hpassed' : ∀ y ∈ xs ++ [x], Passed t y := by
                    intro y hy
                    rcases List.mem_append.mp hy with hy | hy
                    · exact hpassed y hy
                    · rw [List.mem_singleton.mp hy]
                      exact ⟨by rw [hno']; exact htype, by omega⟩
                  have hsplit' : b = bytesOf (xs ++ [x]) ++ data.drop l.toNat := by
                    rw [hsplit, hbytes, bytesOf_append, bytesOf_cons, bytesOf_nil, List.append_nil,
                      List.append_assoc]
                  refine ih (data.drop l.toNat).length ?_ hpassed' hsplit' rfl
                  rw [← hm, List.length_drop, List.length_cons, List.length_cons]
                  omega
                · by_cases hwrap : 2 ^ 32 ≤ (bytesOf xs).length + 2 + l.toNat
                  · exact (hinside _ (searchFrom_wrap hb hc hl htype (by omega) hwrap)).elim
                  · exact ⟨xs, _, hsplit, hpassed, .last htype (by omega) (by omega)⟩

/-- **A search stays inside scannable buffers.**  For a buffer of any size and content and every type, the
search reads no byte outside of the buffer and returns no value that reaches outside, if the buffer is
scannable; and only then, if it has at most 256 bytes or no long element takes the pointer back. -/
theorem staysInside_iff (b : List UInt8) (t : UInt8) (hb : b.length < 2 ^ 32) :
    (Scannable b t → StaysInside b t) ∧
      (b.length ≤ 256 ∨ ¬ JumpsBack b t → (StaysInside b t ↔ Scannable b t)) := by
  refine ⟨fun h => h.staysInside hb, fun hno => ⟨fun h => ?_, fun h => h.staysInside hb⟩⟩
  exact h.scannable hb hno (List.forall_mem_nil _) rfl

/-- Two elements, the second of which is looked for. -/
theorem staysInside_iff_trace : StaysInside [1, 1, 7, 2, 1, 9] 2 := by
  refine ((staysInside_iff [1, 1, 7, 2, 1, 9] 2 (by decide)).2 (.inl (by decide))).mpr ?_
  refine ⟨[⟨1, [7], by decide⟩], [2, 1, 9], rfl, ?_, .found (by decide) (by decide)⟩
  intro x hx
  rw [List.mem_singleton.mp hx]
  exact ⟨by decide, by decide⟩

/-- In a buffer of one byte the length is read behind the end. -/
theorem staysInside_oneByte : ¬ StaysInside [5] 5 :=
  fun h => h 1 .badAccess (by decide)

end Tlv
end MultithreadingBible
