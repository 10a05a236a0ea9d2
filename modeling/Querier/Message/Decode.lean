import Querier.Message.Basic

/-!
# Decoding messages

A message is its header, then as many questions and records as the header announces, one
directly behind the other; what follows the last of them is ignored. Names may be
compressed wherever the data layout of a record type says that there is a name, and
decoding writes them out.

OPT records are not among the records. The first one that has the root as its owner and
stands in the additional section counts; if its data is no sequence of options, the next
one is looked at.
-/

namespace Querier

/-! ## Record data -/

/-- A part of the data of a record. -/
inductive DataField where
  /-- A name, possibly compressed. -/
  | name
  /-- A number of octets. -/
  | run (len : Nat)
  deriving DecidableEq, Repr

/-- The layout of the data of a record type, for the types whose names may be
compressed. -/
def RecordType.layout? (t : RecordType) : Option (List DataField) :=
  if t = .ns ∨ t = .cname ∨ t = .ptr ∨ t = .dname then some [.name]
  else if t = .mx then some [.run 2, .name]
  else if t = .srv then some [.run 6, .name]
  else if t = .soa then some [.name, .name, .run 20]
  else none

/-- Reads data of a given layout at `pos` and writes its names out. -/
def DataField.readAll (b : Octets) :
    List DataField → Nat → Except DecodeError (List UInt8 × Nat)
  | [], pos => .ok ([], pos)
  | .name :: rest, pos => do
    let (n, pos) ← Name.read b pos
    let (os, pos) ← readAll b rest pos
    return (n.wire ++ os, pos)
  | .run len :: rest, pos => do
    let (taken, pos) ← b.readRun pos len
    let (os, pos) ← readAll b rest pos
    return (taken.toList ++ os, pos)

/-! ## Records -/

/-- A record as it stands in a message: its fixed fields and where its data is. -/
structure RawRecord where
  owner : Name
  rtype : RecordType
  rclass : Class
  ttl : UInt32
  start : Nat
  stop : Nat

namespace RawRecord

/-- Reads a record of a message at `pos`. -/
def read (b : Octets) (pos : Nat) : Except DecodeError (RawRecord × Nat) := do
  let (owner, pos) ← Name.read b pos
  let (rtype, pos) ← b.readUInt16 pos
  let (rclass, pos) ← b.readUInt16 pos
  let (ttl, pos) ← b.readUInt32 pos
  let (len, pos) ← b.readUInt16 pos
  let (_, stop) ← b.readRun pos len.toNat
  return ({ owner, rtype := ⟨rtype⟩, rclass := ⟨rclass⟩, ttl, start := pos, stop }, stop)

/-- The data of a record with its names written out. A layout has to fill the data
exactly. -/
def expand (b : Octets) (r : RawRecord) : Except DecodeError Octets :=
  match r.rtype.layout? with
  | none => .ok (b.extract r.start r.stop)
  | some layout => do
    let (os, pos) ← DataField.readAll b layout r.start
    if pos = r.stop then return os.toArray else throw .dataLength

/-- The record that stands alone. -/
def toRecord (b : Octets) (part : Section) (r : RawRecord) : Except DecodeError Record := do
  let data ← r.expand b
  return { owner := r.owner, rtype := r.rtype, rclass := r.rclass, ttl := r.ttl, data, part }

/-- The content of an OPT record in a section where one counts. -/
def opt? (b : Octets) (part : Section) (r : RawRecord) : Option Opt :=
  if part = .additional ∧ r.owner.isRoot then
    (Opt.ofRecord r.rclass r.ttl (b.extract r.start r.stop).toList).toOption
  else none

end RawRecord

/-! ## Messages -/

namespace Message

/-- Reads `n` questions; the first of all stays. -/
def readQuestions (b : Octets) :
    Nat → Option Question × Nat → Except DecodeError (Option Question × Nat)
  | 0, done => .ok done
  | n + 1, (first, pos) => do
    let (question, pos) ← Question.read b pos
    readQuestions b n (first <|> some question, pos)

/-- What has been read of a message: its records and the OPT record that counts. -/
structure Entries where
  records : List Record
  opt : Option Opt

/-- Reads `n` records of a section behind those read before. -/
def readSection (b : Octets) (part : Section) :
    Nat → Entries × Nat → Except DecodeError (Entries × Nat)
  | 0, done => .ok done
  | n + 1, (entries, pos) => do
    let (raw, pos) ← RawRecord.read b pos
    if raw.rtype = .opt then
      readSection b part n ({ entries with opt := entries.opt <|> raw.opt? b part }, pos)
    else
      let record ← raw.toRecord b part
      readSection b part n ({ entries with records := record :: entries.records }, pos)

/-- Decodes a message. -/
def decode (b : Octets) : Except DecodeError Message := do
  let header ← Header.read? b
  let (question, pos) ← readQuestions b header.questions.toNat (none, Header.length)
  let done ← readSection b .answer header.answers.toNat (⟨[], none⟩, pos)
  let done ← readSection b .authority header.authorities.toNat done
  let (entries, _) ← readSection b .additional header.additionals.toNat done
  return { octets := b, header, question, records := entries.records.reverse, opt := entries.opt }

/-- Reads only the header and the first question. -/
def peek (b : Octets) : Except DecodeError (Header × Option Question) := do
  let header ← Header.read? b
  if header.questions = 0 then return (header, none)
  let (question, _) ← Question.read b Header.length
  return (header, some question)

end Message

end Querier
