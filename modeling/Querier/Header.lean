import Querier.Codes
import Querier.DecodeError
import Querier.Section

/-!
# Message headers

The first twelve octets of a message: an identifier, flags with an opcode and a response
code, and the number of entries in each of the four sections.

`Header` holds the fifteen fields as values. `read` takes them out of a buffer, `octets`
writes them, and `edit` changes the header of a buffer in place: what a field holds is
the low four bits for opcode and response code, and nothing behind the twelfth octet is
touched.

## Main results

* `read_append`: what stands behind the first twelve octets does not matter.
* `length_octets`: a header is twelve octets.
-/

namespace Querier

/-- The fields of a message header. -/
structure Header where
  id : UInt16
  qr : Bool
  opcode : Opcode
  aa : Bool
  tc : Bool
  rd : Bool
  ra : Bool
  z : Bool
  ad : Bool
  cd : Bool
  rcode : ResponseCode
  questions : UInt16
  answers : UInt16
  authorities : UInt16
  additionals : UInt16
  deriving DecidableEq, Repr

namespace Header

/-- The number of octets of a header. -/
def length : Nat := 12

/-- The header with all fields zero. -/
def zero : Header where
  id := 0
  qr := false
  opcode := ⟨0⟩
  aa := false
  tc := false
  rd := false
  ra := false
  z := false
  ad := false
  cd := false
  rcode := ⟨0⟩
  questions := 0
  answers := 0
  authorities := 0
  additionals := 0

/-! ## Fields and octets -/

/-- The bit of weight `2 ^ i` of an octet. -/
def bit (o : UInt8) (i : Nat) : Bool := o.toNat.testBit i

/-- The weight of a bit if it is set. -/
def weight (set : Bool) (i : Nat) : Nat := if set then 1 <<< i else 0

/-- Reads the header of a buffer. Octets that are not there count as zero. -/
def read (b : Octets) : Header :=
  let octet (i : Nat) : UInt8 := b[i]?.getD 0
  { id := Octets.uInt16 (octet 0) (octet 1)
    qr := bit (octet 2) 7
    opcode := ⟨UInt8.ofNat ((octet 2).toNat / 8 % 16)⟩
    aa := bit (octet 2) 2
    tc := bit (octet 2) 1
    rd := bit (octet 2) 0
    ra := bit (octet 3) 7
    z := bit (octet 3) 6
    ad := bit (octet 3) 5
    cd := bit (octet 3) 4
    rcode := ⟨UInt8.ofNat ((octet 3).toNat % 16)⟩
    questions := Octets.uInt16 (octet 4) (octet 5)
    answers := Octets.uInt16 (octet 6) (octet 7)
    authorities := Octets.uInt16 (octet 8) (octet 9)
    additionals := Octets.uInt16 (octet 10) (octet 11) }

/-- The third octet of a header. -/
def flagOctet (h : Header) : UInt8 :=
  UInt8.ofNat (weight h.qr 7 + h.opcode.code.toNat % 16 * 8 + weight h.aa 2 + weight h.tc 1
    + weight h.rd 0)

/-- The fourth octet of a header. -/
def codeOctet (h : Header) : UInt8 :=
  UInt8.ofNat (weight h.ra 7 + weight h.z 6 + weight h.ad 5 + weight h.cd 4
    + h.rcode.code.toNat % 16)

/-- The twelve octets of a header. -/
def octets (h : Header) : List UInt8 :=
  Octets.ofUInt16 h.id ++ [h.flagOctet, h.codeOctet] ++ Octets.ofUInt16 h.questions
    ++ Octets.ofUInt16 h.answers ++ Octets.ofUInt16 h.authorities
    ++ Octets.ofUInt16 h.additionals

@[simp] theorem length_octets (h : Header) : h.octets.length = 12 := rfl

/-- Reads the header at the start of a message. -/
def read? (b : Octets) : Except DecodeError Header :=
  if b.size < length then .error .shortInput else .ok (read b)

/-- Changes the header at the start of a buffer. A buffer that is too short keeps its
length: the fields it does not hold are read as zero and written nowhere. -/
def edit (f : Header → Header) (b : Octets) : Octets :=
  ((f (read b)).octets.take b.size).toArray ++ b.extract length b.size

theorem read_append (b t : Octets) (h : length ≤ b.size) : read (b ++ t) = read b := by
  have h : 12 ≤ b.size := h
  have get (i : Nat) (hi : i < 12) : (b ++ t)[i]? = b[i]? :=
    Array.getElem?_append_left (by omega)
  simp only [read, get 0 (by decide), get 1 (by decide), get 2 (by decide), get 3 (by decide),
    get 4 (by decide), get 5 (by decide), get 6 (by decide), get 7 (by decide),
    get 8 (by decide), get 9 (by decide), get 10 (by decide), get 11 (by decide)]

@[simp] theorem size_edit (f : Header → Header) (b : Octets) : (edit f b).size = b.size := by
  simp only [edit, length, Array.size_append, List.size_toArray, List.length_take,
    length_octets, Array.size_extract]
  omega

/-! ## Counts by section -/

/-- The number of entries of a section. -/
def count (h : Header) : Section → UInt16
  | .question => h.questions
  | .answer => h.answers
  | .authority => h.authorities
  | .additional => h.additionals

/-- The header with another number of entries for a section. -/
def setCount (h : Header) (s : Section) (v : UInt16) : Header :=
  match s with
  | .question => { h with questions := v }
  | .answer => { h with answers := v }
  | .authority => { h with authorities := v }
  | .additional => { h with additionals := v }

/-! ## Text -/

/-- The text of a truth value. -/
def boolText (b : Bool) : String := if b then "true" else "false"

/-- The text of a header for diagnostics. The reserved bit does not show. -/
def describe (h : Header) : String :=
  "Header \x7b id: " ++ toString h.id.toNat
    ++ ", qr: " ++ boolText h.qr
    ++ ", opcode: " ++ Opcode.registry.describe h.opcode.code.toNat
    ++ ", aa: " ++ boolText h.aa
    ++ ", tc: " ++ boolText h.tc
    ++ ", rd: " ++ boolText h.rd
    ++ ", ra: " ++ boolText h.ra
    ++ ", ad: " ++ boolText h.ad
    ++ ", cd: " ++ boolText h.cd
    ++ ", rcode: " ++ ResponseCode.registry.describe h.rcode.code.toNat
    ++ ", qdcount: " ++ toString h.questions.toNat
    ++ ", ancount: " ++ toString h.answers.toNat
    ++ ", nscount: " ++ toString h.authorities.toNat
    ++ ", arcount: " ++ toString h.additionals.toNat
    ++ " \x7d"

end Header

end Querier
