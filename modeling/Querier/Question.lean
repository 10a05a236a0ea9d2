import Querier.Codes
import Querier.Name.Wire

/-!
# Questions

What a query asks: a name, a record type and a class.
-/

namespace Querier

/-- A question of a message. -/
structure Question where
  qname : Name
  qtype : RecordType
  qclass : Class
  deriving DecidableEq, Repr

namespace Question

/-- A question about the Internet class. -/
def internet (qname : Name) (qtype : RecordType) : Question := ⟨qname, qtype, .internet⟩

/-- Reads a question of a message at `pos`. -/
def read (b : Octets) (pos : Nat) : Except DecodeError (Question × Nat) := do
  let (qname, pos) ← Name.read b pos
  let (qtype, pos) ← b.readUInt16 pos
  let (qclass, pos) ← b.readUInt16 pos
  return (⟨qname, ⟨qtype⟩, ⟨qclass⟩⟩, pos)

/-- The text of a question. -/
def toText (q : Question) : String :=
  q.qname.toText ++ "\t" ++ q.qclass.toText ++ "\t" ++ q.qtype.toText

/-- The text of a question for diagnostics. -/
def describe (q : Question) : String :=
  "Question \x7b qname: " ++ q.qname.describe
    ++ ", qtype: " ++ RecordType.registry.describe q.qtype.code.toNat
    ++ ", qclass: " ++ Class.registry.describe q.qclass.code.toNat ++ " \x7d"

end Question

end Querier
