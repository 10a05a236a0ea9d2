import Mathlib.Data.List.Induction
import Querier.Proofs.Header

/-!
# The fields of a header are independent

Fifteen fields share twelve octets. The identifier and the counts have two octets each, and the
third and fourth octet hold what is left: eight flags, the opcode and the response code. To get at
one of these its neighbours have to be masked out, and to set one they have to be left alone.

`Field.get` and `Field.set` do so with masks, in the buffer itself. They are tied to `read` and
`edit`, which take all fields out of a buffer and put all of them back. So what is to be said of
the fields can be said of the record with fifteen entries, where it is plain, and what is to be
said of the octets follows, because the record is written as it was read.

## Main results

* `Field.get_eq`, `Field.set_eq`: masks in place do the same as reading and editing.
* `Field.of_put`, `Field.of_put_of_ne`: a setting changes its own field and no other.
* `eq_of_get`: a buffer is known from its fields and what stands behind the header.
* `Field.get_setAll`, `Field.get_setAll_of_none`: the last setting of each field counts.
* `fields_independent`: all of it.
-/

namespace Querier.Header

/-! ## Fields -/

/-- The flags of a header. -/
inductive Flag where
  | qr
  | aa
  | tc
  | rd
  | ra
  | z
  | ad
  | cd
  deriving DecidableEq

/-- The fields of a header. -/
inductive Field where
  | id
  | flag (f : Flag)
  | opcode
  | rcode
  | count (s : Section)
  deriving DecidableEq

/-- What can be said for a field. -/
abbrev Field.Value : Field → Type
  | .id | .count _ => UInt16
  | .flag _ => Bool
  | .opcode => Opcode
  | .rcode => ResponseCode

namespace Flag

/-- A flag of a header. -/
def of : Flag → Header → Bool
  | .qr => Header.qr
  | .aa => Header.aa
  | .tc => Header.tc
  | .rd => Header.rd
  | .ra => Header.ra
  | .z => Header.z
  | .ad => Header.ad
  | .cd => Header.cd

/-- The header with another value for a flag. -/
def put (f : Flag) (v : Bool) (h : Header) : Header :=
  match f with
  | .qr => { h with qr := v }
  | .aa => { h with aa := v }
  | .tc => { h with tc := v }
  | .rd => { h with rd := v }
  | .ra => { h with ra := v }
  | .z => { h with z := v }
  | .ad => { h with ad := v }
  | .cd => { h with cd := v }

theorem of_put (f g : Flag) (v : Bool) (h : Header) :
    g.of (f.put v h) = if g = f then v else g.of h := by
  cases f <;> cases g <;> rfl

/-- The octet that a flag is in. -/
def octet : Flag → Nat
  | .qr | .aa | .tc | .rd => 2
  | .ra | .z | .ad | .cd => 3

/-- The bit of a flag in its octet. -/
def mask : Flag → UInt8
  | .qr | .ra => 0x80
  | .z => 0x40
  | .ad => 0x20
  | .cd => 0x10
  | .aa => 0x04
  | .tc => 0x02
  | .rd => 0x01

/-- An octet with the bit of a flag set or cleared. -/
def stamp (f : Flag) (v : Bool) (o : UInt8) : UInt8 :=
  if v then o ||| f.mask else o &&& ~~~f.mask

end Flag

/-! ## Fields in place -/

/-- The octet at a position; one that is not there counts as zero. -/
def octetAt (b : Octets) (i : Nat) : UInt8 := b[i]?.getD 0

/-- Where the number of entries of a section stands. -/
def countAt : Section → Nat
  | .question => 4
  | .answer => 6
  | .authority => 8
  | .additional => 10

/-- The 16 bit number at a position. -/
def numberAt (b : Octets) (i : Nat) : UInt16 := Octets.uInt16 (octetAt b i) (octetAt b (i + 1))

/-- Puts a 16 bit number at a position. -/
def putNumber (b : Octets) (i : Nat) (v : UInt16) : Octets :=
  (b.setIfInBounds i (UInt8.ofNat (v.toNat / 256))).setIfInBounds (i + 1) (UInt8.ofNat v.toNat)

namespace Field

/-- What a buffer has in a field. -/
def get : (f : Field) → Octets → f.Value
  | .id, b => numberAt b 0
  | .flag f, b => (octetAt b f.octet &&& f.mask) != 0
  | .opcode, b => ⟨(octetAt b 2 >>> 3) &&& 0x0F⟩
  | .rcode, b => ⟨octetAt b 3 &&& 0x0F⟩
  | .count s, b => numberAt b (countAt s)

/-- The buffer with a field set. -/
def set : (f : Field) → f.Value → Octets → Octets
  | .id, v, b => putNumber b 0 v
  | .flag f, v, b => b.setIfInBounds f.octet (f.stamp v (octetAt b f.octet))
  | .opcode, v, b =>
    b.setIfInBounds 2 ((octetAt b 2 &&& 0x87) ||| ((v.code &&& 0x0F) <<< (3 : UInt8)))
  | .rcode, v, b => b.setIfInBounds 3 ((octetAt b 3 &&& 0xF0) ||| v.headerBits)
  | .count s, v, b => putNumber b (countAt s) v

/-- As much of a value as there is room for: the low four bits of an opcode or response code. -/
def held : (f : Field) → f.Value → f.Value
  | .id, v => v
  | .flag _, v => v
  | .opcode, v => ⟨v.code &&& 0x0F⟩
  | .rcode, v => ⟨v.headerBits⟩
  | .count _, v => v

/-! ## Fields of the record -/

/-- What a header has in a field. -/
def of : (f : Field) → Header → f.Value
  | .id, h => h.id
  | .flag f, h => f.of h
  | .opcode, h => h.opcode
  | .rcode, h => h.rcode
  | .count s, h => h.count s

/-- The header with another value in a field. -/
def put : (f : Field) → f.Value → Header → Header
  | .id, v, h => { h with id := v }
  | .flag f, v, h => f.put v h
  | .opcode, v, h => { h with opcode := v }
  | .rcode, v, h => { h with rcode := v }
  | .count s, v, h => h.setCount s v

/-- The lower four bits of an octet. -/
theorem low_eq (c : UInt8) : UInt8.ofNat (c.toNat % 16) = c &&& 0x0F := by
  apply UInt8.toNat_inj.mp
  rw [UInt8.toNat_and, UInt8.toNat_ofNat', show (0x0F : UInt8).toNat = 2 ^ 4 - 1 from rfl,
    Nat.and_two_pow_sub_one_eq_mod]
  omega

/-- Each field of a header loses what there is no room for. -/
theorem of_narrowed (f : Field) (h : Header) : f.of h.narrowed = f.held (f.of h) := by
  cases f with
  | id => rfl
  | flag f => cases f <;> rfl
  | opcode => exact congrArg Opcode.mk (low_eq h.opcode.code)
  | rcode => exact congrArg ResponseCode.mk (low_eq h.rcode.code)
  | count s => exact count_narrowed h s

theorem of_put (f : Field) (v : f.Value) (h : Header) : f.of (f.put v h) = v := by
  cases f with
  | flag f => exact (f.of_put f v h).trans (if_pos rfl)
  | count s => exact (count_setCount h s s v).trans (if_pos rfl)
  | _ => rfl

/-- Other fields stay as they are. -/
theorem of_put_of_ne {f g : Field} (ne : g ≠ f) (v : f.Value) (h : Header) :
    g.of (f.put v h) = g.of h := by
  cases f with
  | flag f =>
      cases g with
      | flag g =>
          show g.of (f.put v h) = g.of h
          rw [Flag.of_put, if_neg fun same => ne (congrArg flag same)]
      | count s => cases f <;> cases s <;> rfl
      | _ => cases f <;> rfl
  | count s =>
      cases g with
      | count s' =>
          show (h.setCount s v).count s' = h.count s'
          rw [count_setCount, if_neg fun same => ne (congrArg count same)]
      | flag g => cases s <;> cases g <;> rfl
      | _ => cases s <;> rfl
  | _ =>
      cases g with
      | flag g => cases g <;> rfl
      | count s => cases s <;> rfl
      | _ => first | rfl | exact absurd rfl ne

/-- A header is known from its fields. -/
theorem eq_of_of {h h' : Header} (same : ∀ f : Field, f.of h = f.of h') : h = h' := by
  have flag (f : Flag) : f.of h = f.of h' := same (.flag f)
  have count (s : Section) : h.count s = h'.count s := same (.count s)
  rw [Header.mk.injEq]
  exact ⟨same .id, flag .qr, same .opcode, flag .aa, flag .tc, flag .rd, flag .ra, flag .z,
    flag .ad, flag .cd, same .rcode, count .question, count .answer, count .authority,
    count .additional⟩

theorem put_of (f : Field) (h : Header) : f.put (f.of h) h = h := by
  cases f with
  | flag f => cases f <;> rfl
  | count s => cases s <;> rfl
  | _ => rfl

/-! ## Masks -/

theorem forall_octet {P : UInt8 → Prop} (h : ∀ i : Fin 256, P (UInt8.ofNat i.val)) (o : UInt8) :
    P o := by
  have at_o := h ⟨o.toNat, o.toNat_lt⟩
  rwa [UInt8.ofNat_toNat] at at_o

/-- Masks and shifts take bits out of an octet as division and remainder do. -/
theorem mask_bits (o : UInt8) :
    ((o &&& 0x80) != 0) = bit o 7 ∧ ((o &&& 0x40) != 0) = bit o 6 ∧
      ((o &&& 0x20) != 0) = bit o 5 ∧ ((o &&& 0x10) != 0) = bit o 4 ∧
      ((o &&& 0x04) != 0) = bit o 2 ∧ ((o &&& 0x02) != 0) = bit o 1 ∧
      ((o &&& 0x01) != 0) = bit o 0 ∧
      (o >>> 3) &&& 0x0F = UInt8.ofNat (o.toNat / 8 % 16) := by
  revert o
  apply forall_octet
  decide +kernel

/-- A mask takes out what reading the header gives. -/
theorem get_eq (f : Field) (b : Octets) : f.get b = f.of (read b) := by
  cases f with
  | flag f =>
      obtain ⟨-, -, -, -, haa, htc, hrd, -⟩ := mask_bits (octetAt b 2)
      obtain ⟨hra, hz, had, hcd, -⟩ := mask_bits (octetAt b 3)
      cases f with
      | qr => exact (mask_bits (octetAt b 2)).1
      | aa => exact haa
      | tc => exact htc
      | rd => exact hrd
      | ra => exact hra
      | z => exact hz
      | ad => exact had
      | cd => exact hcd
  | opcode =>
      obtain ⟨-, -, -, -, -, -, -, hopcode⟩ := mask_bits (octetAt b 2)
      exact congrArg Opcode.mk hopcode
  | rcode => exact congrArg ResponseCode.mk (low_eq (octetAt b 3)).symm
  | count s => cases s <;> rfl
  | id => rfl

/-! ## Setting in place -/

theorem flagOctet_stamp (v : Bool) (o : UInt8) :
    let code := (UInt8.ofNat (o.toNat / 8 % 16)).toNat % 16 * 8
    UInt8.ofNat (weight v 7 + code + weight (bit o 2) 2 + weight (bit o 1) 1
        + weight (bit o 0) 0) = Flag.qr.stamp v o ∧
      UInt8.ofNat (weight (bit o 7) 7 + code + weight v 2 + weight (bit o 1) 1
        + weight (bit o 0) 0) = Flag.aa.stamp v o ∧
      UInt8.ofNat (weight (bit o 7) 7 + code + weight (bit o 2) 2 + weight v 1
        + weight (bit o 0) 0) = Flag.tc.stamp v o ∧
      UInt8.ofNat (weight (bit o 7) 7 + code + weight (bit o 2) 2 + weight (bit o 1) 1
        + weight v 0) = Flag.rd.stamp v o := by
  revert o
  apply forall_octet
  revert v
  decide +kernel

theorem codeOctet_stamp (v : Bool) (o : UInt8) :
    let code := (UInt8.ofNat (o.toNat % 16)).toNat % 16
    UInt8.ofNat (weight v 7 + weight (bit o 6) 6 + weight (bit o 5) 5
        + weight (bit o 4) 4 + code) = Flag.ra.stamp v o ∧
      UInt8.ofNat (weight (bit o 7) 7 + weight v 6 + weight (bit o 5) 5
        + weight (bit o 4) 4 + code) = Flag.z.stamp v o ∧
      UInt8.ofNat (weight (bit o 7) 7 + weight (bit o 6) 6 + weight v 5
        + weight (bit o 4) 4 + code) = Flag.ad.stamp v o ∧
      UInt8.ofNat (weight (bit o 7) 7 + weight (bit o 6) 6 + weight (bit o 5) 5
        + weight v 4 + code) = Flag.cd.stamp v o := by
  revert o
  apply forall_octet
  revert v
  decide +kernel

theorem flagOctet_opcode (c o : UInt8) :
    UInt8.ofNat (weight (bit o 7) 7 + c.toNat % 16 * 8 + weight (bit o 2) 2
        + weight (bit o 1) 1 + weight (bit o 0) 0) =
      (o &&& 0x87) ||| ((c &&& 0x0F) <<< (3 : UInt8)) := by
  have kept : o &&& 0x87 = UInt8.ofNat (weight (bit o 7) 7 + weight (bit o 2) 2
      + weight (bit o 1) 1 + weight (bit o 0) 0) := by
    revert o
    apply forall_octet
    decide +kernel
  have joined : ∀ (qr aa tc rd : Bool) (code : Fin 16),
      UInt8.ofNat (weight qr 7 + code.val * 8 + weight aa 2 + weight tc 1 + weight rd 0) =
        UInt8.ofNat (weight qr 7 + weight aa 2 + weight tc 1 + weight rd 0) |||
          (UInt8.ofNat code.val <<< (3 : UInt8)) := by
    decide +kernel
  rw [kept, ← low_eq]
  exact joined _ _ _ _ ⟨c.toNat % 16, Nat.mod_lt _ (by decide)⟩

theorem codeOctet_rcode (c o : UInt8) :
    UInt8.ofNat (weight (bit o 7) 7 + weight (bit o 6) 6 + weight (bit o 5) 5
        + weight (bit o 4) 4 + c.toNat % 16) = (o &&& 0xF0) ||| (c &&& 0x0F) := by
  have kept : o &&& 0xF0 = UInt8.ofNat (weight (bit o 7) 7 + weight (bit o 6) 6
      + weight (bit o 5) 5 + weight (bit o 4) 4) := by
    revert o
    apply forall_octet
    decide +kernel
  have joined : ∀ (ra z ad cd : Bool) (code : Fin 16),
      UInt8.ofNat (weight ra 7 + weight z 6 + weight ad 5 + weight cd 4 + code.val) =
        UInt8.ofNat (weight ra 7 + weight z 6 + weight ad 5 + weight cd 4) |||
          UInt8.ofNat code.val := by
    decide +kernel
  rw [kept, ← low_eq]
  exact joined _ _ _ _ ⟨c.toNat % 16, Nat.mod_lt _ (by decide)⟩

/-- An edit is made in the list of all octets. -/
theorem toList_edit {f : Header → Header} {b : Octets} (h : length ≤ b.size)
    (change : List UInt8 → List UInt8) (hchange : (f (read b)).octets = change (read b).octets)
    (front : ∀ os rest : List UInt8, os.length = length → change (os ++ rest) = change os ++ rest) :
    (edit f b).toList = change b.toList := by
  have hlong : (b.toList.take length).length = length := by
    rw [List.length_take, Array.length_toList]
    exact Nat.min_eq_left h
  rw [edit_eq f h, Array.toList_append, Octets.toList_extract_size, hchange, octets_read h,
    ← front _ _ hlong, List.take_append_drop]

/-- An edit that changes one octet of the header. -/
theorem edit_eq_set {f : Header → Header} {b : Octets} (h : length ≤ b.size) {i : Nat} {o : UInt8}
    (hi : i < length) (hset : (f (read b)).octets = (read b).octets.set i o) :
    edit f b = b.setIfInBounds i o := by
  apply Array.toList_inj.mp
  rw [Array.toList_setIfInBounds]
  apply toList_edit h (fun os => os.set i o) hset
  intro os rest hlength
  exact List.set_append_left i o (hlength ▸ hi)

/-- An edit that changes two octets of the header. -/
theorem edit_eq_putNumber {f : Header → Header} {b : Octets} (h : length ≤ b.size) {i : Nat}
    {v : UInt16} (hi : i + 1 < length) (hset : (f (read b)).octets =
      ((read b).octets.set i (UInt8.ofNat (v.toNat / 256))).set (i + 1) (UInt8.ofNat v.toNat)) :
    edit f b = putNumber b i v := by
  apply Array.toList_inj.mp
  rw [putNumber, Array.toList_setIfInBounds, Array.toList_setIfInBounds]
  apply toList_edit h (fun os => (os.set i _).set (i + 1) _) hset
  intro os rest hlength
  rw [List.set_append_left i _ (by omega), List.set_append_left]
  rw [List.length_set]
  omega

theorem octets_put_flag (f : Flag) (v : Bool) (b : Octets) :
    (f.put v (read b)).octets =
      (read b).octets.set f.octet (f.stamp v (octetAt b f.octet)) := by
  obtain ⟨hqr, haa, htc, hrd⟩ := flagOctet_stamp v (octetAt b 2)
  obtain ⟨hra, hz, had, hcd⟩ := codeOctet_stamp v (octetAt b 3)
  cases f with
  | qr => exact congrArg ((read b).octets.set 2) hqr
  | aa => exact congrArg ((read b).octets.set 2) haa
  | tc => exact congrArg ((read b).octets.set 2) htc
  | rd => exact congrArg ((read b).octets.set 2) hrd
  | ra => exact congrArg ((read b).octets.set 3) hra
  | z => exact congrArg ((read b).octets.set 3) hz
  | ad => exact congrArg ((read b).octets.set 3) had
  | cd => exact congrArg ((read b).octets.set 3) hcd

/-- Setting a field in place is the same as putting the whole header back with the field set. -/
theorem set_eq (f : Field) (v : f.Value) {b : Octets} (h : length ≤ b.size) :
    f.set v b = edit (f.put v) b := by
  symm
  cases f with
  | id => exact edit_eq_putNumber h (by decide) rfl
  | flag f =>
      refine edit_eq_set h ?_ (octets_put_flag f v b)
      cases f <;> decide
  | opcode =>
      apply edit_eq_set h (by decide)
      exact congrArg ((read b).octets.set 2) (flagOctet_opcode v.code (octetAt b 2))
  | rcode =>
      apply edit_eq_set h (by decide)
      exact congrArg ((read b).octets.set 3) (codeOctet_rcode v.code (octetAt b 3))
  | count s =>
      cases s with
      | question => exact edit_eq_putNumber h (by decide) rfl
      | answer => exact edit_eq_putNumber h (by decide) rfl
      | authority => exact edit_eq_putNumber h (by decide) rfl
      | additional => exact edit_eq_putNumber h (by decide) rfl

theorem size_set (f : Field) (v : f.Value) (b : Octets) : (f.set v b).size = b.size := by
  cases f <;> simp only [set, putNumber, Array.size_setIfInBounds]

variable {b : Octets}

/-- What was set is read back, as far as there is room for it. -/
theorem get_set (f : Field) (v : f.Value) (h : length ≤ b.size) : f.get (f.set v b) = f.held v := by
  rw [get_eq, set_eq f v h, read_edit _ h, of_narrowed, of_put]

/-- No other field changes. -/
theorem get_set_of_ne {f g : Field} (ne : g ≠ f) (v : f.Value) (h : length ≤ b.size) :
    g.get (f.set v b) = g.get b := by
  rw [get_eq, get_eq, set_eq f v h, read_edit _ h, of_narrowed, of_put_of_ne ne, ← of_narrowed,
    narrowed_read]

/-- What stands behind the header stays. -/
theorem getElem?_set (f : Field) (v : f.Value) (h : length ≤ b.size) {i : Nat} (hi : length ≤ i) :
    (f.set v b)[i]? = b[i]? := by
  rw [set_eq f v h]
  exact getElem?_edit (f.put v) b hi

/-- Setting a field to what it has changes nothing. -/
theorem set_get (f : Field) (h : length ≤ b.size) : f.set (f.get b) b = b := by
  have whole : b.toList.take length ++ b.toList.drop length = b.toList := List.take_append_drop ..
  apply Array.toList_inj.mp
  rw [set_eq f _ h, get_eq, edit_eq _ h, put_of, Array.toList_append, Octets.toList_extract_size,
    octets_read h, whole]

end Field

/-- The octets of a header are known from its fields. -/
theorem getElem?_eq_of_get {b b' : Octets} (h : length ≤ b.size) (h' : length ≤ b'.size)
    (same : ∀ f : Field, f.get b' = f.get b) {i : Nat} (hi : i < length) : b'[i]? = b[i]? := by
  have hread : read b' = read b := Field.eq_of_of fun f => by
    rw [← f.get_eq, ← f.get_eq, same]
  rw [← read_octet h' hi, ← read_octet h hi, hread]

/-! ## Settings one after the other -/

/-- A field and what it is set to. -/
abbrev Setting : Type := (f : Field) × f.Value

/-- The buffer after settings one after the other. -/
def setAll (settings : List Setting) (b : Octets) : Octets :=
  settings.foldl (fun b s => s.1.set s.2 b) b

/-- The last setting of a field. -/
def last? (settings : List Setting) (f : Field) : Option Setting :=
  settings.reverse.find? fun s => s.1 = f

theorem setAll_concat (settings : List Setting) (s : Setting) (b : Octets) :
    setAll (settings ++ [s]) b = s.1.set s.2 (setAll settings b) := by
  rw [setAll, List.foldl_append]
  rfl

theorem last?_concat (settings : List Setting) (s : Setting) (f : Field) :
    last? (settings ++ [s]) f = if s.1 = f then some s else last? settings f := by
  rw [last?, List.reverse_append, List.reverse_singleton, List.singleton_append, List.find?_cons]
  by_cases here : s.1 = f
  · simp only [here, decide_true, if_true]
  · simp only [here, decide_false, if_false, last?]

theorem field_of_last? {settings : List Setting} {f : Field} {s : Setting}
    (h : last? settings f = some s) : s.1 = f := by
  rw [last?] at h
  have found := List.find?_some h
  exact of_decide_eq_true found

theorem size_setAll (settings : List Setting) (b : Octets) : (setAll settings b).size = b.size := by
  induction settings using List.reverseRecOn with
  | nil => rfl
  | append_singleton settings s ih => rw [setAll_concat, Field.size_set, ih]

theorem length_le_setAll {b : Octets} (h : length ≤ b.size) (settings : List Setting) :
    length ≤ (setAll settings b).size :=
  (size_setAll settings b).symm ▸ h

/-- No settings change what stands behind the header. -/
theorem getElem?_setAll {b : Octets} (h : length ≤ b.size) (settings : List Setting) {i : Nat}
    (hi : length ≤ i) : (setAll settings b)[i]? = b[i]? := by
  induction settings using List.reverseRecOn with
  | nil => rfl
  | append_singleton settings s ih =>
      rw [setAll_concat, s.1.getElem?_set s.2 (length_le_setAll h settings) hi, ih]

/-- A field holds what it was set to last. -/
theorem Field.get_setAll {b : Octets} (h : length ≤ b.size) {settings : List Setting} {s : Setting}
    (hlast : last? settings s.1 = some s) : s.1.get (setAll settings b) = s.1.held s.2 := by
  induction settings using List.reverseRecOn with
  | nil => cases hlast
  | append_singleton settings s' ih =>
      have hlong := length_le_setAll h settings
      rw [last?_concat] at hlast
      rw [setAll_concat]
      by_cases here : s'.1 = s.1
      · rw [if_pos here] at hlast
        cases hlast
        exact get_set s.1 s.2 hlong
      · rw [if_neg here] at hlast
        rw [get_set_of_ne (Ne.symm here) s'.2 hlong, ih hlast]

/-- A field that is not set holds what it did. -/
theorem Field.get_setAll_of_none {b : Octets} (h : length ≤ b.size) {settings : List Setting}
    {f : Field} (hlast : last? settings f = none) : f.get (setAll settings b) = f.get b := by
  induction settings using List.reverseRecOn with
  | nil => rfl
  | append_singleton settings s ih =>
      rw [last?_concat] at hlast
      by_cases here : s.1 = f
      · rw [if_pos here] at hlast
        cases hlast
      · rw [if_neg here] at hlast
        rw [setAll_concat, get_set_of_ne (Ne.symm here) s.2 (length_le_setAll h settings), ih hlast]

/-- Settings come to the same if the last setting of each field is the same. -/
theorem setAll_congr {b : Octets} (h : length ≤ b.size) {settings others : List Setting}
    (same : ∀ f, last? others f = last? settings f) : setAll others b = setAll settings b := by
  have fields (f : Field) : f.get (setAll others b) = f.get (setAll settings b) := by
    cases hlast : last? settings f with
    | none =>
        rw [Field.get_setAll_of_none h hlast, Field.get_setAll_of_none h ((same f).trans hlast)]
    | some s =>
        obtain rfl := field_of_last? hlast
        rw [Field.get_setAll h hlast, Field.get_setAll h ((same s.1).trans hlast)]
  apply Array.ext_getElem?
  intro i
  rcases Nat.lt_or_ge i length with hi | hi
  · exact getElem?_eq_of_get (length_le_setAll h settings) (length_le_setAll h others) fields hi
  · rw [getElem?_setAll h others hi, getElem?_setAll h settings hi]

/-- If the members of a list are the last settings of another one, each is the last setting of its
field in either. -/
theorem last?_eq_of_mem_iff {settings others : List Setting}
    (h : ∀ s, s ∈ others ↔ last? settings s.1 = some s) (f : Field) :
    last? others f = last? settings f := by
  cases hothers : last? others f with
  | none =>
      cases hlast : last? settings f with
      | none => rfl
      | some s =>
          obtain rfl := field_of_last? hlast
          have hmem : s ∈ others.reverse := List.mem_reverse.mpr ((h s).mpr hlast)
          exact absurd (decide_eq_true rfl) (List.find?_eq_none.mp hothers s hmem)
  | some s =>
      obtain rfl := field_of_last? hothers
      have hmem : s ∈ others := List.mem_reverse.mp (List.mem_of_find?_eq_some hothers)
      exact ((h s).mp hmem).symm

/-- **The fields of a header are independent.** Take a buffer of at least twelve octets. Masks in
place and reading and editing the whole header are the same. After a field is set it holds what it
was set to, of an opcode or response code the low four bits; every other field holds what it did,
and nothing behind the header changes. To set a field to what it holds changes nothing. The fields
together determine the twelve octets of the header. So settings one after the other come to the
same as the last setting of each field, these in any order. -/
theorem fields_independent {b : Octets} (h : length ≤ b.size) :
    (∀ (f : Field) (v : f.Value), f.get b = f.of (read b) ∧ f.set v b = edit (f.put v) b) ∧
      (∀ (f : Field) (v : f.Value), f.get (f.set v b) = f.held v ∧
        (∀ g, g ≠ f → g.get (f.set v b) = g.get b) ∧ (f.set v b).size = b.size ∧
        ∀ i, length ≤ i → (f.set v b)[i]? = b[i]?) ∧
      (∀ f : Field, f.set (f.get b) b = b) ∧
      (∀ b' : Octets, length ≤ b'.size → (∀ f : Field, f.get b' = f.get b) →
        ∀ i, i < length → b'[i]? = b[i]?) ∧
      ∀ settings others : List Setting, (∀ s, s ∈ others ↔ last? settings s.1 = some s) →
        setAll others b = setAll settings b := by
  refine ⟨fun f v => ⟨f.get_eq b, f.set_eq v h⟩, fun f v => ⟨f.get_set v h, ?_, f.size_set v b, ?_⟩,
    fun f => f.set_get h, ?_, ?_⟩
  · exact fun g ne => Field.get_set_of_ne ne v h
  · exact fun i hi => f.getElem?_set v h hi
  · exact fun b' h' same i hi => getElem?_eq_of_get h h' same hi
  · exact fun settings others lasts => setAll_congr h (last?_eq_of_mem_iff lasts)

/-- In a header with all flags set, of which the opcode is set to more than there is room for, then
a flag is cleared, and then the opcode is set again. -/
theorem fields_independent_crowded :
    let b : Octets := #[0xBE, 0xEF, 0xFF, 0xFF, 0, 1, 0, 2, 0, 3, 0, 4, 0xC0, 0x0C]
    let settings : List Setting :=
      [⟨.opcode, ⟨0x15⟩⟩, ⟨.flag .aa, false⟩, ⟨.opcode, ⟨2⟩⟩]
    let others : List Setting := [⟨.opcode, ⟨2⟩⟩, ⟨.flag .aa, false⟩]
    length ≤ b.size ∧ (∀ s, s ∈ others ↔ last? settings s.1 = some s) ∧
      Field.get .opcode (Field.set .opcode ⟨0x15⟩ b) = ⟨5⟩ ∧
      Field.get (.flag .aa) (Field.set .opcode ⟨0x15⟩ b) = true ∧
      setAll others b = setAll settings b := by
  intro b settings others
  have long : length ≤ b.size := by decide
  have lasts : ∀ s, s ∈ others ↔ last? settings s.1 = some s := by
    rintro ⟨f, v⟩
    simp only [others, settings, last?, List.reverse_cons, List.reverse_nil, List.nil_append,
      List.cons_append, List.find?_cons]
    by_cases hopcode : f = .opcode
    · subst hopcode
      simp [eq_comm]
    · by_cases haa : f = .flag .aa
      · subst haa
        simp [eq_comm]
      · simp [hopcode, haa, Ne.symm hopcode, Ne.symm haa, eq_comm]
  obtain ⟨-, fields, -, -, all⟩ := fields_independent long
  obtain ⟨hopcode, hothers, -⟩ := fields .opcode ⟨0x15⟩
  exact ⟨long, lasts, hopcode, (hothers (.flag .aa) (by decide)).trans (by decide),
    all settings others lasts⟩

end Querier.Header
