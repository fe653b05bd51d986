import MultithreadingBible.Tlv.Search

/-!
# Finding what was written

Elements are written one after another with `tlv_buffer_insert_tlv`, and the first one of a type is
looked for with `tlv_buffer_get_particular_tlv`.

* `FindsFirst` -- the search ends, with the position and the length of the data of the first element
  of the type, or with a null pointer and length 0 if there is none.
* `Findable` -- the type is below 128, or there is none of it, and no element before the first one
  of it is longer than 127 bytes, except the last one of the buffer.
* `findsFirst_iff` -- what is findable is found; and nothing else is in buffers of at most 256
  bytes, nor any type from 128 on in buffers of any size.
-/

namespace MultithreadingBible
namespace Tlv

/-- Where the data of the first element of type `t` starts, and its length, for elements from offset
`n` on. -/
def firstOf (t : UInt8) : Nat → List Element → Option (Nat × UInt8)
  | _, [] => none
  | n, x :: xs => if x.tlvNo = t then some (n + 2, x.dataLen) else firstOf t (n + x.bytes.length) xs

/-- The answer that stands for the first element of a type. -/
def answerOf : Option (Nat × UInt8) → SearchResult
  | none => .returned none 0
  | some (p, l) => .returned (some p) l

/-- The search of the buffer `b`, which `xs` was written to, ends with the first element of type `t`. -/
def FindsFirst (b : List UInt8) (xs : List Element) (t : UInt8) : Prop :=
  ∃ fuel, tlvBufferGetParticularTlv b t fuel = some (answerOf (firstOf t 0 xs))

/-- The first element of type `t`, if there is one, comes after no long element and has a type below
128. -/
def Findable (t : UInt8) : List Element → Prop
  | [] => True
  | x :: xs => if x.tlvNo = t then t.toNat < 128 else (x.data.length < 128 ∨ xs = []) ∧ Findable t xs

variable {b done : List UInt8} {t : UInt8} {x : Element} {xs : List Element} {fuel : Nat}

/-- The header of the next element. -/
theorem getElem?_bytesOf (hsplit : b = done ++ bytesOf (x :: xs)) :
    b[done.length]? = some x.tlvNo ∧ b[done.length + 1]? = some x.dataLen := by
  have hheader : b = done ++ x.tlvNo :: x.dataLen :: (x.data ++ bytesOf xs) := by
    rw [hsplit, bytesOf_cons]
    rfl
  exact getElem?_header hheader

theorem length_bytesOf_cons (x : Element) (xs : List Element) :
    (bytesOf (x :: xs)).length = x.data.length + 2 + (bytesOf xs).length := by
  rw [bytesOf_cons, List.length_append, x.length_bytes]

/-- From the start of a findable element on, the search ends as it should. -/
theorem searchFrom_findable (done : List UInt8) (hb : b.length < 2 ^ 31) (h : Findable t xs)
    (hsplit : b = done ++ bytesOf xs) :
    ∃ fuel, searchFrom b t fuel done.length = some (answerOf (firstOf t done.length xs)) := by
  have hb' : b.length < 2 ^ 32 := by omega
  induction xs generalizing done with
  | nil =>
      have hlength : b.length = done.length := by rw [hsplit, bytesOf_nil, List.append_nil]
      exact ⟨1, searchFrom_end hb' (by omega) (by omega)⟩
  | cons x xs ih =>
      obtain ⟨hc, hl⟩ := getElem?_bytesOf hsplit
      have hlength : b.length = done.length + (x.data.length + 2 + (bytesOf xs).length) := by
        rw [hsplit, List.length_append, length_bytesOf_cons]
      rw [Findable] at h
      rw [firstOf]
      by_cases htype : x.tlvNo = t
      · rw [if_pos htype] at h ⊢
        exact ⟨1, searchFrom_found hb' hc hl (sameType_iff.mpr ⟨htype, h⟩)⟩
      · rw [if_neg htype] at h ⊢
        have hother : ¬ sameType x.tlvNo t := fun hsame => htype (sameType_iff.mp hsame).1
        rcases h.1 with hshort | hlast
        · have hsplit' : b = (done ++ x.bytes) ++ bytesOf xs := by
            rw [hsplit, bytesOf_cons, List.append_assoc]
          obtain ⟨fuel, hrest⟩ := ih (done ++ x.bytes) h.2 hsplit'
          have hnext : done.length + 2 + x.dataLen.toNat = (done ++ x.bytes).length := by
            rw [x.toNat_dataLen, List.length_append, x.length_bytes]
            omega
          refine ⟨fuel + 1, ?_⟩
          rw [searchFrom_short hb' hc hl hother (by rw [x.toNat_dataLen]; exact hshort), hnext, hrest,
            List.length_append]
        · -- the last element may have any length: the counter has come to the end
          subst hlast
          rw [bytesOf_nil, List.length_nil, Nat.add_zero] at hlength
          refine ⟨2, searchFrom_last hb' hc hl hother ?_ ?_⟩
          · rw [x.toNat_dataLen]
            omega
          · rw [x.toNat_dataLen]
            omega

/-- A type that is found lies below 128. -/
theorem FindsFirst.lt (h : FindsFirst b xs t) {p : Nat × UInt8} (hp : firstOf t 0 xs = some p) :
    t.toNat < 128 := by
  obtain ⟨fuel, hfuel⟩ := h
  rw [hp] at hfuel
  exact iterateTlv_returned hfuel

theorem exists_firstOf (n : Nat) (hx : x ∈ xs) (htype : x.tlvNo = t) : ∃ p, firstOf t n xs = some p := by
  induction xs generalizing n with
  | nil => cases hx
  | cons y ys ih =>
      rw [firstOf]
      by_cases hy : y.tlvNo = t
      · exact ⟨_, if_pos hy⟩
      · rw [if_neg hy]
        rcases List.mem_cons.mp hx with rfl | hx
        · exact (hy htype).elim
        · exact ih _ hx

/-- In a small buffer, elements that are found are findable. -/
theorem findable_of_searchFrom (done : List UInt8) (hsmall : b.length ≤ 256)
    (hsplit : b = done ++ bytesOf xs)
    (hlt : ∀ x ∈ xs, x.tlvNo = t → t.toNat < 128)
    (h : ∀ fuel, searchFrom b t fuel done.length ≠ some .badAccess) : Findable t xs := by
  have hb : b.length < 2 ^ 32 := by omega
  induction xs generalizing done with
  | nil => trivial
  | cons x xs ih =>
      obtain ⟨hc, hl⟩ := getElem?_bytesOf hsplit
      have hlength : b.length = done.length + (x.data.length + 2 + (bytesOf xs).length) := by
        rw [hsplit, List.length_append, length_bytesOf_cons]
      rw [Findable]
      by_cases htype : x.tlvNo = t
      · rw [if_pos htype]
        exact hlt x List.mem_cons_self htype
      · rw [if_neg htype]
        have hother : ¬ sameType x.tlvNo t := fun hsame => htype (sameType_iff.mp hsame).1
        by_cases hshort : x.data.length < 128
        · have hsplit' : b = (done ++ x.bytes) ++ bytesOf xs := by
            rw [hsplit, bytesOf_cons, List.append_assoc]
          have hnext : done.length + 2 + x.dataLen.toNat = (done ++ x.bytes).length := by
            rw [x.toNat_dataLen, List.length_append, x.length_bytes]
            omega
          refine
            ⟨.inl hshort,
              ih (done ++ x.bytes) hsplit' (fun y hy => hlt y (List.mem_cons_of_mem _ hy)) ?_⟩
          intro fuel hbad
          refine h (fuel + 1) ?_
          rw [searchFrom_short hb hc hl hother (by rw [x.toNat_dataLen]; exact hshort), hnext, hbad]
        · cases xs with
          | nil => exact ⟨.inr rfl, trivial⟩
          | cons y ys =>
              -- the pointer is taken back, out of the buffer
              rw [length_bytesOf_cons] at hlength
              refine (h 2 (searchFrom_long hb hc hl hother ?_ ?_ hsmall)).elim
              · rw [x.toNat_dataLen]
                omega
              · rw [x.toNat_dataLen]
                omega

theorem answerOf_ne_badAccess (o : Option (Nat × UInt8)) : answerOf o ≠ .badAccess := by
  cases o with
  | none => exact fun h => by cases h
  | some p => exact fun h => by cases h

theorem FindsFirst.ne_badAccess (h : FindsFirst b xs t) (fuel : Nat) :
    searchFrom b t fuel 0 ≠ some .badAccess := by
  obtain ⟨fuel', hfuel⟩ := h
  intro hbad
  exact answerOf_ne_badAccess _ (searchFrom_unique hfuel hbad)

/-- **What was written is found.**  Elements of any types and lengths, of a total size below 2 GiB,
are written into a buffer of just that size.  The search for a type then ends with the first element
of the type, if the type is findable; and only then, if the buffer has at most 256 bytes or there is
an element of the type and the type is 128 or more. -/
theorem findsFirst_iff (xs : List Element) (t : UInt8) (old : List UInt8)
    (hold : old.length = (bytesOf xs).length) (hsize : (bytesOf xs).length < 2 ^ 31) :
    ∃ b, insertAll old 0 xs = some (b, old.length) ∧ b.length = old.length ∧
      (Findable t xs → FindsFirst b xs t) ∧
      (b.length ≤ 256 ∨ (∃ x ∈ xs, x.tlvNo = t ∧ 128 ≤ t.toNat) →
        (FindsFirst b xs t ↔ Findable t xs)) := by
  have hwritten := insertAll_spec [] xs old hold
  rw [List.nil_append, List.nil_append, List.length_nil, Nat.zero_add, ← hold] at hwritten
  have hfinds : Findable t xs → FindsFirst (bytesOf xs) xs t := by
    intro h
    exact searchFrom_findable [] hsize h rfl
  refine ⟨bytesOf xs, hwritten, hold.symm, hfinds, fun hcase => ⟨fun h => ?_, hfinds⟩⟩
  have hlt : ∀ x ∈ xs, x.tlvNo = t → t.toNat < 128 := by
    intro x hx htype
    obtain ⟨p, hp⟩ := exists_firstOf 0 hx htype
    exact h.lt hp
  rcases hcase with hsmall | ⟨x, hx, htype, hlarge⟩
  · exact findable_of_searchFrom [] hsmall rfl hlt h.ne_badAccess
  · have hsmaller := hlt x hx htype
    omega

/-- Two elements, the second of which is looked for. -/
theorem findsFirst_iff_trace :
    ∃ b, insertAll [0, 0, 0, 0, 0, 0] 0 [⟨1, [7], by decide⟩, ⟨2, [9], by decide⟩] = some (b, 6) ∧
      FindsFirst b [⟨1, [7], by decide⟩, ⟨2, [9], by decide⟩] 2 := by
  obtain ⟨b, hwritten, -, hfinds, -⟩ := findsFirst_iff [⟨1, [7], by decide⟩, ⟨2, [9], by decide⟩] 2
    [0, 0, 0, 0, 0, 0] rfl (by decide)
  refine ⟨b, hwritten, hfinds ?_⟩
  show (if (1 : UInt8) = 2 then _ else _)
  rw [if_neg (by decide)]
  exact ⟨.inl (by decide), (by decide : (2 : UInt8).toNat < 128)⟩

/-- The only element has type 200, and is not found. -/
theorem findsFirst_type200 :
    insertAll [0, 0, 0] 0 [⟨200, [7], by decide⟩] = some ([200, 1, 7], 3) ∧
      ¬ FindsFirst [200, 1, 7] [⟨200, [7], by decide⟩] 200 := by
  refine ⟨by decide, fun h => ?_⟩
  exact absurd (h.lt (p := (2, 1)) rfl) (by decide)

end Tlv
end MultithreadingBible
