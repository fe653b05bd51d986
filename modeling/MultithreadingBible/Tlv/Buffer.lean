import Mathlib.Algebra.Order.Ring.Nat
import Mathlib.Data.List.Basic

/-!
# Type-length-value buffers

`tlv_buffer_insert_tlv` writes one element, `tlv_buffer_get_particular_tlv` looks for the first one of a
type with the loop of `ITERATE_TLV_BEGIN`.

Memory outside the buffer is never read or written here: such an access is a failure.  A plain
`char` is signed, and the decoder keeps the type and the length of an element in two of them, while
the loop also counts the bytes passed in an `unsigned int`.  The loop need not end (an element of
length 254 leads back to itself), so it is given fuel.
-/

namespace MultithreadingBible
namespace Tlv

abbrev tlvOverheadSize : Nat := 2

/-- `*p` for a pointer `p` that is given by its distance from the start of the buffer. -/
def load (b : List UInt8) (p : Int) : Option UInt8 :=
  if 0 ≤ p then b[p.toNat]? else none

/-- `*p = c` -/
def store (b : List UInt8) (p : Nat) (c : UInt8) : Option (List UInt8) :=
  if p < b.length then some (b.set p c) else none

/-- `memcpy(p, src, n)` -/
def memcpy (b : List UInt8) (p : Nat) (src : List UInt8) (n : Nat) : Option (List UInt8) :=
  if n ≤ src.length ∧ p + n ≤ b.length then some (b.take p ++ src.take n ++ b.drop (p + n)) else none

/-- `tlv_buffer_insert_tlv`: the buffer and the pointer that is returned. -/
def tlvBufferInsertTlv (b : List UInt8) (buff : Nat) (tlvNo dataLen : UInt8) (data : List UInt8) :
    Option (List UInt8 × Nat) := do
  let b ← store b buff tlvNo
  let b ← store b (buff + 1) dataLen
  let b ← memcpy b (buff + tlvOverheadSize) data dataLen.toNat
  return (b, buff + tlvOverheadSize + dataLen.toNat)

/-- How a search ends. -/
inductive SearchResult where
  /-- The pointer that is returned and the length that is written through `tlv_data_len`. -/
  | returned (tlvValue : Option Int) (tlvDataLen : UInt8)
  /-- A byte outside the buffer is read. -/
  | badAccess
  deriving DecidableEq

/-- `tlv_type == tlv_no`: a signed character is compared with an unsigned one. -/
def sameType (c tlvNo : UInt8) : Prop := c.toInt8.toInt = (tlvNo.toNat : Int)

instance (c tlvNo : UInt8) : Decidable (sameType c tlvNo) :=
  inferInstanceAs (Decidable (_ = _))

/-- The loop of `ITERATE_TLV_BEGIN` with the body of `tlv_buffer_get_particular_tlv`, from the
values `len` and `tlvPtr` of `_len` and `tlv_ptr` on. -/
def iterateTlv (b : List UInt8) (tlvBuffSize : UInt32) (tlvNo : UInt8) :
    Nat → UInt32 → Int → Option SearchResult
  | 0, _, _ => none
  | fuel + 1, len, tlvPtr =>
      if len < tlvBuffSize then
        match load b (tlvPtr - 2), load b (tlvPtr - 1) with
        | some type, some tlvValueSize =>
            if sameType type tlvNo then
              some (.returned (some tlvPtr) tlvValueSize.toInt8.toUInt8)
            else
              iterateTlv b tlvBuffSize tlvNo fuel (len + (tlvValueSize.toUInt32 + 2))
                (tlvPtr + 2 + tlvValueSize.toInt8.toInt)
        | _, _ => some .badAccess
      else
        some (.returned none 0)

/-- `tlv_buffer_get_particular_tlv`, given the buffer and its size. -/
def tlvBufferGetParticularTlv (b : List UInt8) (tlvNo : UInt8) (fuel : Nat) : Option SearchResult :=
  iterateTlv b (UInt32.ofNat b.length) tlvNo fuel 0 2

/-- An element: a type and at most 255 bytes of data. -/
@[ext] structure Element where
  tlvNo : UInt8
  data : List UInt8
  length_le : data.length ≤ 255
  deriving DecidableEq

namespace Element

/-- The `data_len` an element is written with. -/
def dataLen (x : Element) : UInt8 := UInt8.ofNat x.data.length

/-- The bytes of an element. -/
def bytes (x : Element) : List UInt8 := x.tlvNo :: x.dataLen :: x.data

@[simp] theorem toNat_dataLen (x : Element) : x.dataLen.toNat = x.data.length := by
  have hlength := x.length_le
  rw [dataLen, UInt8.toNat_ofNat']
  omega

theorem length_bytes (x : Element) : x.bytes.length = x.data.length + 2 := rfl

end Element

/-- The bytes of elements that are written one after another. -/
def bytesOf (xs : List Element) : List UInt8 := xs.flatMap Element.bytes

@[simp] theorem bytesOf_nil : bytesOf [] = [] := rfl

theorem bytesOf_cons (x : Element) (xs : List Element) : bytesOf (x :: xs) = x.bytes ++ bytesOf xs := rfl

theorem bytesOf_append (xs ys : List Element) : bytesOf (xs ++ ys) = bytesOf xs ++ bytesOf ys :=
  List.flatMap_append

/-- Write elements one after another with `tlv_buffer_insert_tlv`. -/
def insertAll : List UInt8 → Nat → List Element → Option (List UInt8 × Nat)
  | b, buff, [] => some (b, buff)
  | b, buff, x :: xs => do
      let (b, buff) ← tlvBufferInsertTlv b buff x.tlvNo x.dataLen x.data
      insertAll b buff xs

section Writing

variable {done rest : List UInt8}

/-- An element is written over the bytes that follow. -/
theorem tlvBufferInsertTlv_spec (x : Element) (old : List UInt8) (hold : old.length = x.bytes.length) :
    tlvBufferInsertTlv (done ++ old ++ rest) done.length x.tlvNo x.dataLen x.data =
      some (done ++ x.bytes ++ rest, done.length + x.bytes.length) := by
  rw [x.length_bytes] at hold
  -- the header overwrites the first two bytes, the data the others
  obtain ⟨c, l, tail, rfl⟩ : ∃ c l tail, old = c :: l :: tail := by
    cases old with
    | nil => simp at hold
    | cons c old =>
        cases old with
        | nil => simp at hold
        | cons l tail => exact ⟨c, l, tail, rfl⟩
  have htail : tail.length = x.data.length := by
    simp at hold
    omega
  have hcopy : memcpy (done ++ x.tlvNo :: x.dataLen :: tail ++ rest) (done.length + 2) x.data
      x.data.length = some (done ++ x.bytes ++ rest) := by
    have hsplit : done ++ x.tlvNo :: x.dataLen :: tail ++ rest =
        (done ++ [x.tlvNo, x.dataLen]) ++ (tail ++ rest) := by simp
    have hlength : done.length + 2 = (done ++ [x.tlvNo, x.dataLen]).length := by simp
    have hbounds : done.length + 2 + x.data.length ≤
        (done ++ x.tlvNo :: x.dataLen :: tail ++ rest).length := by
      simp
      omega
    rw [memcpy, if_pos ⟨Nat.le_refl _, hbounds⟩, hsplit, hlength, List.take_left, List.take_length,
      ← List.drop_drop, List.drop_left, ← htail, List.drop_left]
    simp [Element.bytes]
  have hfirst : store (done ++ c :: l :: tail ++ rest) done.length x.tlvNo =
      some (done ++ x.tlvNo :: l :: tail ++ rest) := by
    rw [store, if_pos (by simp)]
    simp
  have hsecond : store (done ++ x.tlvNo :: l :: tail ++ rest) (done.length + 1) x.dataLen =
      some (done ++ x.tlvNo :: x.dataLen :: tail ++ rest) := by
    rw [store, if_pos (by simp)]
    simp
  have hend : done.length + tlvOverheadSize + x.data.length = done.length + (x.data.length + 2) := by
    show done.length + 2 + x.data.length = _
    omega
  simp only [tlvBufferInsertTlv, hfirst, hsecond, hcopy, Option.bind_eq_bind, Option.bind_some,
    Element.toNat_dataLen, x.length_bytes, Option.pure_def, hend]

/-- A buffer of the size of the elements holds their bytes after they were written. -/
theorem insertAll_spec (done : List UInt8) (xs : List Element) (old : List UInt8)
    (hold : old.length = (bytesOf xs).length) :
    insertAll (done ++ old) done.length xs =
      some (done ++ bytesOf xs, done.length + (bytesOf xs).length) := by
  induction xs generalizing done old with
  | nil =>
      have hnil : old = [] := by simpa using hold
      simp [insertAll, hnil]
  | cons x xs ih =>
      rw [bytesOf_cons, List.length_append] at hold
      have hhead : (old.take x.bytes.length).length = x.bytes.length := by
        rw [List.length_take]
        omega
      have htail : (old.drop x.bytes.length).length = (bytesOf xs).length := by
        rw [List.length_drop]
        omega
      have hrest := ih (done ++ x.bytes) (old.drop x.bytes.length) htail
      rw [List.length_append] at hrest
      rw [insertAll, ← List.take_append_drop x.bytes.length old, ← List.append_assoc,
        tlvBufferInsertTlv_spec x _ hhead, Option.bind_eq_bind, Option.bind_some]
      show insertAll (done ++ x.bytes ++ old.drop x.bytes.length) (done.length + x.bytes.length) xs = _
      rw [hrest, bytesOf_cons, List.length_append, List.append_assoc, Nat.add_assoc]

end Writing

section Reading

variable {b : List UInt8} {size len : UInt32} {t c l : UInt8} {p : Int} {fuel : Nat}

/-- The value of a byte as a signed character. -/
theorem toInt_toInt8 (c : UInt8) :
    c.toInt8.toInt = if c.toNat < 128 then (c.toNat : Int) else c.toNat - 256 := by
  have hlt := c.toNat_lt
  show c.toBitVec.toInt = _
  rw [BitVec.toInt_eq_toNat_cond]
  show (if 2 * c.toNat < 2 ^ 8 then (c.toNat : Int) else c.toNat - 256) = _
  by_cases hc : c.toNat < 128
  · rw [if_pos (by omega), if_pos hc]
  · rw [if_neg (by omega), if_neg hc]

/-- Types from 128 on are never found: they are negative as signed characters. -/
theorem sameType_iff : sameType c t ↔ c = t ∧ t.toNat < 128 := by
  have hlt := c.toNat_lt
  rw [sameType, toInt_toInt8, ← UInt8.toNat_inj]
  by_cases hc : c.toNat < 128
  · rw [if_pos hc]
    omega
  · rw [if_neg hc]
    omega

theorem load_nat (n : Nat) : load b n = b[n]? := by
  rw [load, if_pos (by omega), Int.toNat_natCast]

theorem load_succ (n : Nat) : load b (n + 1) = b[n + 1]? := by
  have hcast : (n : Int) + 1 = ((n + 1 : Nat) : Int) := by omega
  rw [hcast, load_nat]

theorem load_neg (hp : p < 0) : load b p = none := by
  rw [load, if_neg (by omega)]

/-- The end of the loop. -/
theorem iterateTlv_end (hlen : ¬ len < size) :
    iterateTlv b size t (fuel + 1) len p = some (.returned none 0) := by
  rw [iterateTlv, if_neg hlen]

/-- One turn of the loop, with the pointer `p + 2`. -/
theorem iterateTlv_next (hlen : len < size) (hc : load b p = some c) (hl : load b (p + 1) = some l) :
    iterateTlv b size t (fuel + 1) len (p + 2) =
      if sameType c t then some (.returned (some (p + 2)) l)
      else iterateTlv b size t fuel (len + (l.toUInt32 + 2)) (p + 2 + 2 + l.toInt8.toInt) := by
  have hp : p + 2 - 2 = p := by omega
  have hp' : p + 2 - 1 = p + 1 := by omega
  rw [iterateTlv, if_pos hlen, hp, hp', hc, hl]
  show (if sameType c t then some (SearchResult.returned (some (p + 2)) l.toInt8.toUInt8) else _) = _
  rw [UInt8.toUInt8_toInt8]

/-- A header outside the buffer is read. -/
theorem iterateTlv_badAccess (hlen : len < size) (h : load b p = none ∨ load b (p + 1) = none) :
    iterateTlv b size t (fuel + 1) len (p + 2) = some .badAccess := by
  have hp : p + 2 - 2 = p := by omega
  have hp' : p + 2 - 1 = p + 1 := by omega
  rw [iterateTlv, if_pos hlen, hp, hp']
  cases hc : load b p with
  | none => rfl
  | some c =>
      rcases h with h | h
      · rw [hc] at h
        cases h
      · rw [h]

/-- Only types below 128 are found, whatever the buffer holds. -/
theorem iterateTlv_returned {q : Int} {dataLen : UInt8}
    (h : iterateTlv b size t fuel len p = some (.returned (some q) dataLen)) : t.toNat < 128 := by
  induction fuel generalizing len p with
  | zero => cases h
  | succ fuel ih =>
      obtain ⟨p, rfl⟩ : ∃ p', p = p' + 2 := ⟨p - 2, by omega⟩
      by_cases hlen : len < size
      · cases hc : load b p with
        | none =>
            rw [iterateTlv_badAccess hlen (.inl hc)] at h
            cases h
        | some c =>
            cases hl : load b (p + 1) with
            | none =>
                rw [iterateTlv_badAccess hlen (.inr hl)] at h
                cases h
            | some l =>
                rw [iterateTlv_next hlen hc hl] at h
                by_cases htype : sameType c t
                · exact (sameType_iff.mp htype).2
                · rw [if_neg htype] at h
                  exact ih h
      · rw [iterateTlv_end hlen] at h
        cases h

/-- More fuel does not change how a search ends. -/
theorem iterateTlv_mono {more : Nat} {r : SearchResult} (h : iterateTlv b size t fuel len p = some r) :
    iterateTlv b size t (fuel + more) len p = some r := by
  induction fuel generalizing len p with
  | zero => cases h
  | succ fuel ih =>
      obtain ⟨p, rfl⟩ : ∃ p', p = p' + 2 := ⟨p - 2, by omega⟩
      rw [Nat.add_right_comm]
      by_cases hlen : len < size
      · cases hc : load b p with
        | none =>
            rw [iterateTlv_badAccess hlen (.inl hc)] at h ⊢
            exact h
        | some c =>
            cases hl : load b (p + 1) with
            | none =>
                rw [iterateTlv_badAccess hlen (.inr hl)] at h ⊢
                exact h
            | some l =>
                rw [iterateTlv_next hlen hc hl] at h ⊢
                by_cases htype : sameType c t
                · rw [if_pos htype] at h ⊢
                  exact h
                · rw [if_neg htype] at h ⊢
                  exact ih h
      · rw [iterateTlv_end hlen] at h ⊢
        exact h

end Reading

section Offsets

variable {b : List UInt8} {t c l : UInt8} {n fuel : Nat}

/-- The search from offset `n` on, where the counter and the pointer agree. -/
def searchFrom (b : List UInt8) (t : UInt8) (fuel n : Nat) : Option SearchResult :=
  iterateTlv b (UInt32.ofNat b.length) t fuel (UInt32.ofNat n) (n + 2)

theorem ofNat_lt_ofNat {m : Nat} (hn : n < 2 ^ 32) (hm : m < 2 ^ 32) :
    UInt32.ofNat n < UInt32.ofNat m ↔ n < m := by
  rw [UInt32.lt_iff_toNat_lt, UInt32.toNat_ofNat_of_lt' hn, UInt32.toNat_ofNat_of_lt' hm]

/-- The counter after an element of length `l`. -/
theorem counter_next : UInt32.ofNat n + (l.toUInt32 + 2) = UInt32.ofNat (n + 2 + l.toNat) := by
  rw [← UInt32.toNat_inj, UInt32.toNat_add, UInt32.toNat_add, UInt32.toNat_ofNat', UInt32.toNat_ofNat']
  have hlt := l.toNat_lt
  have hl : l.toUInt32.toNat = l.toNat := UInt8.toNat_toUInt32 l
  have htwo : UInt32.toNat 2 = 2 := rfl
  rw [hl, htwo]
  omega

variable (hb : b.length < 2 ^ 32)
include hb

theorem searchFrom_end (hn : n < 2 ^ 32) (hend : b.length ≤ n) :
    searchFrom b t (fuel + 1) n = some (.returned none 0) := by
  rw [searchFrom, iterateTlv_end]
  rw [ofNat_lt_ofNat hn hb]
  omega

theorem searchFrom_badAccess (hn : n < b.length) (htrunc : b.length ≤ n + 1) :
    searchFrom b t (fuel + 1) n = some .badAccess := by
  have hlen : UInt32.ofNat n < UInt32.ofNat b.length := (ofNat_lt_ofNat (by omega) hb).mpr hn
  refine iterateTlv_badAccess hlen (.inr ?_)
  rw [load_succ, List.getElem?_eq_none htrunc]

section Header

variable (hc : b[n]? = some c) (hl : b[n + 1]? = some l)
include hc hl

/-- One turn of the loop at a header that lies in the buffer. -/
theorem searchFrom_header :
    searchFrom b t (fuel + 1) n =
      if sameType c t then some (.returned (some (n + 2)) l)
      else iterateTlv b (UInt32.ofNat b.length) t fuel (UInt32.ofNat (n + 2 + l.toNat))
        (n + 2 + 2 + l.toInt8.toInt) := by
  have hn : n < b.length := (List.getElem?_eq_some_iff.mp hc).1
  have hlen : UInt32.ofNat n < UInt32.ofNat b.length := (ofNat_lt_ofNat (by omega) hb).mpr hn
  rw [searchFrom, iterateTlv_next hlen ((load_nat n).trans hc) ((load_succ n).trans hl), counter_next]

theorem searchFrom_found (htype : sameType c t) :
    searchFrom b t (fuel + 1) n = some (.returned (some (n + 2)) l) := by
  rw [searchFrom_header hb hc hl, if_pos htype]

/-- An element shorter than 128 bytes is passed. -/
theorem searchFrom_short (htype : ¬ sameType c t) (hshort : l.toNat < 128) :
    searchFrom b t (fuel + 1) n = searchFrom b t fuel (n + 2 + l.toNat) := by
  have hptr : (n : Int) + 2 + 2 + l.toInt8.toInt = ((n + 2 + l.toNat : Nat) : Int) + 2 := by
    rw [toInt_toInt8, if_pos hshort]
    omega
  rw [searchFrom_header hb hc hl, if_neg htype, hptr]
  rfl

/-- An element of any length that reaches the end ends the search. -/
theorem searchFrom_last (htype : ¬ sameType c t) (hlast : b.length ≤ n + 2 + l.toNat)
    (hlt : n + 2 + l.toNat < 2 ^ 32) : searchFrom b t (fuel + 2) n = some (.returned none 0) := by
  rw [searchFrom_header hb hc hl, if_neg htype, iterateTlv_end]
  rw [ofNat_lt_ofNat hlt hb]
  omega

/-- An element of 128 bytes or more takes the pointer back: out of a buffer of 256 bytes or fewer. -/
theorem searchFrom_long (htype : ¬ sameType c t) (hlong : 128 ≤ l.toNat)
    (hmore : n + 2 + l.toNat < b.length) (hsmall : b.length ≤ 256) :
    searchFrom b t (fuel + 2) n = some .badAccess := by
  have hptr : (n : Int) + 2 + 2 + l.toInt8.toInt = ((n : Int) + 2 + l.toNat - 256) + 2 := by
    rw [toInt_toInt8, if_neg (by omega)]
    omega
  rw [searchFrom_header hb hc hl, if_neg htype, hptr]
  refine iterateTlv_badAccess ((ofNat_lt_ofNat (by omega) hb).mpr hmore) (.inl (load_neg ?_))
  omega

end Header

end Offsets

end Tlv
end MultithreadingBible
