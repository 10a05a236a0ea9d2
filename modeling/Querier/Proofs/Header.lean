import Querier.Header
import Querier.Proofs.View

/-!
# Editing headers in place

Changing the header of a message changes its first twelve octets only, and the
counts that it is given are read back.

## Main results

* `getElem?_edit`: nothing changes behind the header.
* `getElem?_edit_coded`: a change of the response code changes the fourth octet alone.
* `read_congr`: what stands behind the header makes no difference to it.
* `read_octets`, `read_edit`: fields are read back as they were set, but that opcode and
  response code have room for four bits each.
* `count_read_edit`: so are the counts.
* `octets_read`: and what was read is written back as it was.
* `edit_congr`: all that a change makes depends on is the header and the octets behind it.
-/

namespace Querier.Header

theorem getElem?_edit (f : Header → Header) (b : Octets) {i : Nat} (h : length ≤ i) :
    (edit f b)[i]? = b[i]? := by
  have hlen : ((f (read b)).octets.take b.size).toArray.size = min b.size length := by
    simp [length]
  unfold edit
  by_cases hb : length ≤ b.size
  · rw [Array.getElem?_append_right (by omega), hlen, Array.getElem?_extract]
    rw [Nat.min_eq_right hb]
    split
    · congr 1
      omega
    · rw [Array.getElem?_eq_none (by omega)]
  · rw [Array.getElem?_eq_none (by simp [length] at *; omega), Array.getElem?_eq_none (by omega)]

theorem read_congr {b b' : Octets} (h : ∀ i, i < length → b'[i]? = b[i]?) : read b' = read b := by
  have h : ∀ i, i < 12 → b'[i]? = b[i]? := h
  simp only [read, h 0 (by decide), h 1 (by decide), h 2 (by decide), h 3 (by decide),
    h 4 (by decide), h 5 (by decide), h 6 (by decide), h 7 (by decide), h 8 (by decide),
    h 9 (by decide), h 10 (by decide), h 11 (by decide)]

theorem count_setCount (h : Header) (s s' : Section) (v : UInt16) :
    (h.setCount s v).count s' = if s' = s then v else h.count s' := by
  cases s <;> cases s' <;> rfl

/-- The header with one more entry in a section. -/
def counted (s : Section) (h : Header) : Header := h.setCount s (h.count s + 1)

theorem read_append_list (b : Octets) (os : List UInt8) (h : length ≤ b.size) :
    read (b ++ os) = read b := by
  refine read_congr fun i hi => ?_
  rw [Octets.getElem?_append, if_pos (by omega)]

/-! ## All fields -/

/-- A header with as much of its fields as there is room for. -/
def narrowed (h : Header) : Header :=
  { h with
    opcode := ⟨UInt8.ofNat (h.opcode.code.toNat % 16)⟩
    rcode := ⟨UInt8.ofNat (h.rcode.code.toNat % 16)⟩ }

theorem count_narrowed (h : Header) (s : Section) : h.narrowed.count s = h.count s := by
  cases s <;> rfl

theorem bit_flagOctet : ∀ (qr aa tc rd : Bool) (opcode : Fin 16),
    let o := UInt8.ofNat (weight qr 7 + opcode.val * 8 + weight aa 2 + weight tc 1 + weight rd 0)
    bit o 7 = qr ∧ o.toNat / 8 % 16 = opcode.val ∧ bit o 2 = aa ∧ bit o 1 = tc ∧
      bit o 0 = rd := by
  decide +kernel

theorem bit_codeOctet : ∀ (ra z ad cd : Bool) (rcode : Fin 16),
    let o := UInt8.ofNat (weight ra 7 + weight z 6 + weight ad 5 + weight cd 4 + rcode.val)
    bit o 7 = ra ∧ bit o 6 = z ∧ bit o 5 = ad ∧ bit o 4 = cd ∧ o.toNat % 16 = rcode.val := by
  decide +kernel

/-- A header is read back as it was written. -/
theorem read_octets (h : Header) : read h.octets.toArray = h.narrowed := by
  rcases bit_flagOctet h.qr h.aa h.tc h.rd ⟨h.opcode.code.toNat % 16, Nat.mod_lt _ (by decide)⟩
    with ⟨hqr, hopcode, haa, htc, hrd⟩
  rcases bit_codeOctet h.ra h.z h.ad h.cd ⟨h.rcode.code.toNat % 16, Nat.mod_lt _ (by decide)⟩
    with ⟨hra, hz, had, hcd, hrcode⟩
  have hid := Octets.uInt16_ofUInt16 h.id
  have hquestions := Octets.uInt16_ofUInt16 h.questions
  have hanswers := Octets.uInt16_ofUInt16 h.answers
  have hauthorities := Octets.uInt16_ofUInt16 h.authorities
  have hadditionals := Octets.uInt16_ofUInt16 h.additionals
  have hopcode' := congrArg (fun code => Opcode.mk (UInt8.ofNat code)) hopcode
  have hrcode' := congrArg (fun code => ResponseCode.mk (UInt8.ofNat code)) hrcode
  rw [narrowed]
  show Header.mk _ _ _ _ _ _ _ _ _ _ _ _ _ _ _ = Header.mk _ _ _ _ _ _ _ _ _ _ _ _ _ _ _
  rw [Header.mk.injEq]
  exact ⟨hid, hqr, hopcode', haa, htc, hrd, hra, hz, had, hcd, hrcode', hquestions, hanswers,
    hauthorities, hadditionals⟩

theorem edit_eq (f : Header → Header) {b : Octets} (h : length ≤ b.size) :
    edit f b = (f (read b)).octets.toArray ++ b.extract length b.size := by
  have htake : (f (read b)).octets.take b.size = (f (read b)).octets :=
    List.take_of_length_le h
  rw [edit, htake]

/-- A header that was read has no more in its fields than there is room for. -/
theorem narrowed_read (b : Octets) : (read b).narrowed = read b := by
  have fits (n : Nat) : UInt8.ofNat ((UInt8.ofNat (n % 16)).toNat % 16) = UInt8.ofNat (n % 16) := by
    rw [UInt8.toNat_ofNat']
    congr 1
    omega
  simp only [narrowed, read, fits]

/-- After a change the header is what the change makes of it. -/
theorem read_edit (f : Header → Header) {b : Octets} (h : length ≤ b.size) :
    read (edit f b) = (f (read b)).narrowed := by
  have hlong : length ≤ ((f (read b)).octets.toArray).size := Nat.le_refl 12
  rw [edit_eq f h, read_append _ _ hlong, read_octets]

theorem count_read_edit (f : Header → Header) {b : Octets} (h : length ≤ b.size) (s : Section) :
    (read (edit f b)).count s = (f (read b)).count s := by
  rw [read_edit f h, count_narrowed]

/-! ## Headers written back -/

/-- The third octet of a header is written as it was read. -/
theorem flagOctet_bits : ∀ i : Fin 256,
    let o := UInt8.ofNat i.val
    UInt8.ofNat (weight (bit o 7) 7 + (UInt8.ofNat (o.toNat / 8 % 16)).toNat % 16 * 8
      + weight (bit o 2) 2 + weight (bit o 1) 1 + weight (bit o 0) 0) = o := by
  decide +kernel

/-- So is the fourth. -/
theorem codeOctet_bits : ∀ i : Fin 256,
    let o := UInt8.ofNat i.val
    UInt8.ofNat (weight (bit o 7) 7 + weight (bit o 6) 6 + weight (bit o 5) 5
      + weight (bit o 4) 4 + (UInt8.ofNat (o.toNat % 16)).toNat % 16) = o := by
  decide +kernel

/-- A header is written as it was read. -/
theorem octets_read {b : Octets} (h : length ≤ b.size) :
    (read b).octets = b.toList.take length := by
  have hflag := flagOctet_bits ⟨(b[2]?.getD 0).toNat, UInt8.toNat_lt _⟩
  have hcode := codeOctet_bits ⟨(b[3]?.getD 0).toNat, UInt8.toNat_lt _⟩
  simp only [UInt8.ofNat_toNat] at hflag hcode
  have hflag : (read b).flagOctet = b[2]?.getD 0 := hflag
  have hcode : (read b).codeOctet = b[3]?.getD 0 := hcode
  have hoctets : (read b).octets = (List.range length).map fun i => b[i]?.getD 0 := by
    rw [octets, hflag, hcode]
    simp only [read, Octets.ofUInt16_uInt16]
    rfl
  rw [hoctets]
  refine List.ext_getElem ?_ fun i hi hi' => ?_
  · rw [List.length_map, List.length_range, List.length_take, Array.length_toList]
    omega
  · rw [List.length_take, Array.length_toList] at hi'
    rw [List.getElem_map, List.getElem_range, List.getElem_take, Array.getElem_toList,
      Array.getElem?_eq_getElem (by omega), Option.getD_some]

/-- Inside the header a changed buffer holds what the change makes of it. -/
theorem getElem?_edit_of_lt (f : Header → Header) {b : Octets} (h : length ≤ b.size) {i : Nat}
    (hi : i < length) : (edit f b)[i]? = (f (read b)).octets[i]? := by
  have hlength : (f (read b)).octets.toArray.size = length := rfl
  rw [edit_eq f h, Array.getElem?_append_left (by omega), List.getElem?_toArray]

/-- Two changes come to the same if they agree about the header, and the buffers behind it. -/
theorem edit_congr {f g : Header → Header} {b b' : Octets}
    (hheader : (f (read b)).octets = (g (read b')).octets) (hsize : b.size = b'.size)
    (hrest : ∀ i, length ≤ i → b[i]? = b'[i]?) : edit f b = edit g b' := by
  have hextract : b.extract length b.size = b'.extract length b'.size := by
    refine Array.ext_getElem? fun i => ?_
    rw [Array.getElem?_extract, Array.getElem?_extract, hsize,
      hrest (length + i) (Nat.le_add_right _ _)]
  rw [edit, edit, hextract, hheader, hsize]

/-- The lower four bits of an octet have room in an octet. -/
theorem low_low (c : UInt8) : (UInt8.ofNat (c.toNat % 16)).toNat % 16 = c.toNat % 16 := by
  rw [UInt8.toNat_ofNat']
  omega

theorem octets_narrowed (h : Header) : h.narrowed.octets = h.octets := by
  simp only [octets, flagOctet, codeOctet, narrowed, low_low]

/-- Two changes may change places if their sequence makes no difference to the header. -/
theorem edit_comm {f g : Header → Header} {b : Octets} (h : length ≤ b.size)
    (hcomm : (g (f (read b)).narrowed).octets = (f (g (read b)).narrowed).octets) :
    edit g (edit f b) = edit f (edit g b) := by
  refine edit_congr ?_ ?_ fun i hi => ?_
  · rw [read_edit f h, read_edit g h, hcomm]
  · rw [size_edit, size_edit]
  · rw [getElem?_edit f b hi, getElem?_edit g b hi]

/-- A change that comes to nothing after another one. -/
theorem edit_edit {f g : Header → Header} {b : Octets} (h : length ≤ b.size)
    (hsame : g (f (read b)).narrowed = (f (read b)).narrowed) :
    edit g (edit f b) = edit f b := by
  refine edit_congr ?_ (size_edit f b) fun i hi => getElem?_edit f b hi
  rw [read_edit f h, hsame, octets_narrowed]

/-- Counting an entry and setting the response code may change places. -/
theorem octets_coded_counted (h : Header) (s : Section) (code : ResponseCode) :
    let coded (h : Header) : Header := { h with rcode := code }
    (counted s (coded h).narrowed).octets = (coded (counted s h).narrowed).octets := by
  cases s <;> simp only [counted, setCount, count, octets, flagOctet, codeOctet, narrowed, low_low]

/-! ## One octet of a header -/

/-- The header with another response code. -/
def coded (code : ResponseCode) (h : Header) : Header := { h with rcode := code }

theorem read_octet {b : Octets} (h : length ≤ b.size) {i : Nat} (hi : i < length) :
    (read b).octets[i]? = b[i]? := by
  rw [octets_read h, List.getElem?_take_of_lt hi, Array.getElem?_toList]

/-- The response code is in the fourth octet. -/
theorem octet_coded (h : Header) (code : ResponseCode) {i : Nat} (hne : i ≠ 3) :
    (coded code h).octets[i]? = h.octets[i]? := by
  have hset : (coded code h).octets = h.octets.set 3 (coded code h).codeOctet := rfl
  rw [hset, List.getElem?_set_ne hne.symm]

/-- The number of additional records is in the last two octets. -/
theorem octet_counted_additional (h : Header) {i : Nat} (hi : i < 10) :
    (counted .additional h).octets[i]? = h.octets[i]? := by
  have hfront : (counted .additional h).octets.take 10 = h.octets.take 10 := rfl
  rw [← List.getElem?_take_of_lt hi, hfront, List.getElem?_take_of_lt hi]

/-- Setting the response code changes the fourth octet alone. -/
theorem getElem?_edit_coded (code : ResponseCode) {b : Octets} (h : length ≤ b.size) {i : Nat}
    (hne : i ≠ 3) : (edit (coded code) b)[i]? = b[i]? := by
  rcases Nat.lt_or_ge i length with hi | hi
  · rw [getElem?_edit_of_lt _ h hi, octet_coded _ _ hne, read_octet h hi]
  · exact getElem?_edit _ b hi

/-- What the fourth octet becomes depends on nothing but that octet. -/
theorem getElem?_edit_coded_congr (code : ResponseCode) {b b' : Octets} (h : length ≤ b.size)
    (h' : length ≤ b'.size) (hsame : b'[3]? = b[3]?) :
    (edit (coded code) b')[3]? = (edit (coded code) b)[3]? := by
  have octet (b : Octets) : (coded code (read b)).octets[3]? =
      some (coded code (read b)).codeOctet := rfl
  rw [getElem?_edit_of_lt _ h' (by decide), getElem?_edit_of_lt _ h (by decide), octet, octet]
  simp only [codeOctet, coded, read, hsame]

/-- Counting an additional record changes the last two octets of the header alone. -/
theorem getElem?_edit_counted_additional {b : Octets} (h : length ≤ b.size) {i : Nat}
    (hi : i < 10 ∨ length ≤ i) : (edit (counted .additional) b)[i]? = b[i]? := by
  rcases hi with hlt | hge
  · have hi : i < length := Nat.lt_trans hlt (by decide)
    rw [getElem?_edit_of_lt _ h hi, octet_counted_additional _ hlt, read_octet h hi]
  · exact getElem?_edit _ b hge

/-- What stands behind a header stays where it is when the header is changed. -/
theorem edit_append (f : Header → Header) {b : Octets} (h : length ≤ b.size) (os : List UInt8) :
    edit f (b ++ os) = edit f b ++ os := by
  have hsize : length ≤ (b ++ os).size := by
    rw [Octets.size_append]
    exact Nat.le_add_right_of_le h
  have hdrop : (b.toList ++ os).drop length = b.toList.drop length ++ os :=
    List.drop_append_of_le_length h
  apply Array.toList_inj.mp
  rw [edit_eq f hsize, edit_eq f h, read_append_list b os h, Array.toList_append,
    Octets.toList_extract_size, Array.toList_appendList, hdrop, Array.toList_appendList,
    Array.toList_append, Octets.toList_extract_size, List.append_assoc]

end Querier.Header
