import Querier.Codes
import Querier.Name.Text
import Querier.Section
import Querier.Text.Literal

/-!
# Resource records

A record as it stands alone, outside of any message: its data is wire data without
compression, and it remembers the section it came from.
-/

namespace Querier

/-- A resource record. -/
structure Record where
  owner : Name
  rtype : RecordType
  rclass : Class
  ttl : UInt32
  data : Octets
  part : Section
  deriving DecidableEq

namespace Record

/-- The text of a record, with its data in the form for unknown types: the number of
octets, then each octet in hexadecimal. -/
def toText (r : Record) : String :=
  r.owner.toText ++ "\t" ++ toString r.ttl.toNat ++ "\t" ++ r.rclass.toText ++ "\t"
    ++ r.rtype.toText ++ "\t\\# " ++ toString r.data.size
    ++ String.join (r.data.toList.map fun o => " " ++ Text.hexOctet o)

/-- The text of a record for diagnostics. -/
def describe (r : Record) : String :=
  "Record \x7b owner: " ++ r.owner.describe
    ++ ", rtype: " ++ RecordType.registry.describe r.rtype.code.toNat
    ++ ", class: " ++ Class.registry.describe r.rclass.code.toNat
    ++ ", ttl: " ++ toString r.ttl.toNat
    ++ ", data: " ++ Text.Literal.ofOctets r.data.toList
    ++ ", section: " ++ r.part.name ++ " \x7d"

end Record

end Querier
