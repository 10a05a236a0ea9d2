import Querier.Edns.Opt
import Querier.Header
import Querier.Message.Compression

/-!
# Writing messages

A writer holds a message in the making: a header, one question, and records one after
the other. A record is started with its fixed fields, takes data, and is committed,
which fills in the length of its data and counts it in the header; starting the next
record commits the one before. `rollback` takes back the record started last, and
`truncate` all records.

Names are compressed where the caller, the record and the mode of the writer allow it.
The writer remembers where in the buffer the names it wrote begin, as far as a pointer
can reach them, and forgets those that are cut off.

`Op` and `run` put the operations into data, for statements about whole runs.
-/

namespace Querier

/-- A record that takes data: where its data begins and the section it counts in. -/
structure OpenRecord where
  start : Nat
  part : Section
  deriving DecidableEq, Repr

/-- A message in the making. -/
structure Writer where
  /-- The message so far. -/
  content : Octets
  /-- The name of the question. -/
  qname : Name
  /-- The offsets of the names written so far that a pointer can reach, in that order. -/
  names : List Nat
  /-- The length of the message with the question alone. -/
  questionEnd : Nat
  /-- The length of the message before the record started last. -/
  recordStart : Nat
  /-- The record that takes data. -/
  current : Option OpenRecord
  /-- Whether the record started last allows compression. -/
  recordCompress : Bool
  /-- Whether names are written in canonical form. -/
  canonic : Bool
  /-- Whether names are written in lower case. -/
  lowercase : Bool
  deriving DecidableEq

namespace Writer

/-! ## Data -/

/-- Appends octets. -/
def push (w : Writer) (os : List UInt8) : Writer := { w with content := w.content ++ os }

/-- Appends an octet. -/
def pushUInt8 (w : Writer) (v : UInt8) : Writer := w.push [v]

/-- Appends a 16 bit number. -/
def pushUInt16 (w : Writer) (v : UInt16) : Writer := w.push (Octets.ofUInt16 v)

/-- Appends a 32 bit number. -/
def pushUInt32 (w : Writer) (v : UInt32) : Writer := w.push (Octets.ofUInt32 v)

/-- Appends the lower 48 bits of a number. -/
def pushLow48 (w : Writer) (v : UInt64) : Writer := w.push (Octets.ofLow48 v)

/-- A character string: octets behind their number, of which eight bits are kept. -/
def characterString (os : List UInt8) : List UInt8 := UInt8.ofNat os.length :: os

/-- Text as character strings of 255 octets, the last of which may be shorter. -/
def characterStrings : List UInt8 → List UInt8
  | [] => []
  | o :: rest => characterString (o :: rest.take 254) ++ characterStrings (rest.drop 254)
termination_by os => os.length
decreasing_by
  rw [List.length_drop, List.length_cons]
  omega

/-- Appends text as character strings, an empty text as one empty string. -/
def pushText (w : Writer) (os : List UInt8) : Writer :=
  w.push (if os.isEmpty then characterString [] else characterStrings os)

/-! ## Names -/

/-- Remembers the end of the buffer as the offset of a name, if a pointer can reach it. -/
def remember (w : Writer) : Writer :=
  if w.content.size < Compression.offsetLimit then
    { w with names := w.names ++ [w.content.size] }
  else w

/-- Whether a name that may be compressed is compressed in the mode of the writer. -/
def mayCompress (w : Writer) (compress : Bool) : Bool :=
  compress && w.recordCompress && !w.canonic && !w.lowercase

/-- A pointer to an offset. -/
def pointer (offset : Nat) : List UInt8 := Octets.ofUInt16 (UInt16.ofNat (49152 + offset))

/-- Appends a name, compressed if that is allowed and a suffix of it stands in the
message already. -/
def pushName (w : Writer) (n : Name) (compress : Bool) : Writer :=
  if n.isRoot then w.push [0]
  else
    let found :=
      if w.mayCompress compress then Compression.find w.content w.names n else none
    match found with
    | some suffix =>
      let w' := if suffix.length = n.wireLength then w else w.remember
      w'.push (n.wire.take (n.wireLength - suffix.length) ++ pointer suffix.offset)
    | none => w.remember.push (if w.lowercase then Octets.foldCase n.wire else n.wire)

/-! ## Header -/

/-- Changes the header. -/
def editHeader (w : Writer) (f : Header → Header) : Writer :=
  { w with content := Header.edit f w.content }

/-! ## Records -/

/-- Completes the open record, if there is one: fills in the length of its data, of which
16 bits are kept, and counts the record in its section. -/
def commit (w : Writer) : Writer :=
  match w.current with
  | none => w
  | some r =>
    let len := Octets.ofUInt16 (UInt16.ofNat (w.content.size - r.start))
    let content :=
      w.content.extract 0 (r.start - 2) ++ len ++ w.content.extract r.start w.content.size
    editHeader { w with content, current := none } fun h =>
      h.setCount r.part (h.count r.part + 1)

/-- Appends the owner of a record. The question name is written as a pointer to the
question right away. -/
def pushOwner (w : Writer) (n : Name) (compress : Bool) : Writer :=
  if w.mayCompress compress && !n.isRoot && n.same w.qname then w.push (pointer Header.length)
  else w.pushName n compress

/-- Starts a record: commits the one before and writes the fixed fields. -/
def startRecord (w : Writer) (owner : Name) (rtype : RecordType) (ttl : UInt32)
    (rclass : Class) (part : Section) (compress : Bool) : Writer :=
  let w := w.commit
  let w := { w with recordCompress := compress, recordStart := w.content.size }
  let w := (((w.pushOwner owner compress).pushUInt16 rtype.code).pushUInt16
    rclass.code).pushUInt32 ttl |>.pushUInt16 0
  { w with current := some ⟨w.content.size, part⟩ }

/-- Cuts the message to its first `len` octets. -/
def cutBack (w : Writer) (len : Nat) : Writer :=
  { w with
    content := w.content.extract 0 len
    current := none
    names := w.names.filter (· < len) }

/-- Takes back the record started last. -/
def rollback (w : Writer) : Writer := w.cutBack w.recordStart

/-- Takes back all records and sets their counts to zero. -/
def truncate (w : Writer) : Writer :=
  (w.cutBack w.questionEnd).editHeader fun h =>
    { h with answers := 0, authorities := 0, additionals := 0 }

/-- Appends an OPT record. Unless the extended response code is zero, its lower four bits
go into the header. -/
def addOpt (w : Writer) (payloadSize extendedCode flags : UInt16)
    (options : List EdnsOption) (version : UInt8) : Writer :=
  let upper := UInt8.ofNat (extendedCode.toNat / 16)
  let lower := UInt8.ofNat (extendedCode.toNat % 16)
  let w := if extendedCode = 0 then w else w.editHeader fun h => { h with rcode := ⟨lower⟩ }
  let w := w.startRecord .root .opt (Opt.ttlField upper version flags) ⟨payloadSize⟩
    .additional false
  (w.push (EdnsOption.encodeAll options)).commit

/-! ## Beginning and end -/

/-- A message with a question, all of its header zero but for the opcode. -/
def new (qname : Name) (qtype : RecordType) (qclass : Class) (opcode : Opcode) : Writer :=
  let header : Header := { Header.zero with opcode, questions := 1 }
  let w : Writer := {
    content := header.octets.toArray
    qname
    names := []
    questionEnd := 0
    recordStart := 0
    current := none
    recordCompress := true
    canonic := false
    lowercase := false }
  let w := ((w.pushName qname false).pushUInt16 qtype.code).pushUInt16 qclass.code
  { w with questionEnd := w.content.size }

/-- A message in a used buffer. What the buffer held is dropped. -/
def newIn (buf : Octets) (qname : Name) (qtype : RecordType) (qclass : Class)
    (opcode : Opcode) : Writer :=
  let w : Writer := {
    content := buf.extract 0 0 ++ List.replicate Header.length (0 : UInt8)
    qname
    names := []
    questionEnd := 0
    recordStart := 0
    current := none
    recordCompress := true
    canonic := false
    lowercase := false }
  let w := w.editHeader fun h => { h with opcode, questions := 1 }
  let w := ((w.pushName qname false).pushUInt16 qtype.code).pushUInt16 qclass.code
  { w with questionEnd := w.content.size }

/-- The message, with the open record committed. -/
def finish (w : Writer) : Octets := w.commit.content

/-! ## Looking at the message -/

/-- The size that the message has with an OPT record of the given options. -/
def sizeWithOptions (w : Writer) (options : List EdnsOption) : Nat :=
  w.content.size + 11 + EdnsOption.wireLengthAll options

/-- The data of the open record so far. -/
def recordData (w : Writer) : Octets :=
  match w.current with
  | none => #[]
  | some r => w.content.extract r.start w.content.size

/-- The open record so far, with its data length still zero. -/
def recordWire (w : Writer) : Octets :=
  match w.current with
  | none => #[]
  | some _ => w.content.extract w.recordStart w.content.size

/-! ## Runs -/

/-- An operation on a writer. -/
inductive Op where
  | start (owner : Name) (rtype : RecordType) (ttl : UInt32) (rclass : Class) (part : Section)
      (compress : Bool)
  | commit
  | rollback
  | truncate
  | header (edit : Header → Header)
  | canonic (on : Bool)
  | lowercase (on : Bool)
  | uInt8 (v : UInt8)
  | uInt16 (v : UInt16)
  | uInt32 (v : UInt32)
  | low48 (v : UInt64)
  | data (os : List UInt8)
  | text (os : List UInt8)
  | name (n : Name) (compress : Bool)
  | opt (payloadSize extendedCode flags : UInt16) (options : List EdnsOption) (version : UInt8)

/-- Performs an operation. -/
def step (w : Writer) : Op → Writer
  | .start owner rtype ttl rclass part compress =>
    w.startRecord owner rtype ttl rclass part compress
  | .commit => w.commit
  | .rollback => w.rollback
  | .truncate => w.truncate
  | .header edit => w.editHeader edit
  | .canonic on => { w with canonic := on }
  | .lowercase on => { w with lowercase := on }
  | .uInt8 v => w.pushUInt8 v
  | .uInt16 v => w.pushUInt16 v
  | .uInt32 v => w.pushUInt32 v
  | .low48 v => w.pushLow48 v
  | .data os => w.push os
  | .text os => w.pushText os
  | .name n compress => w.pushName n compress
  | .opt payloadSize extendedCode flags options version =>
    w.addOpt payloadSize extendedCode flags options version

/-- Performs operations one after the other. -/
def run (w : Writer) (ops : List Op) : Writer := ops.foldl step w

end Writer

end Querier
