import Querier.Registry

/-!
# The parameters of a message

Record types, classes, opcodes, response codes and option codes. Each is a number of
fixed width; every number is a value, whether it has a mnemonic or not.
-/

namespace Querier

/-! ## Record types -/

/-- The type of a record or question. -/
structure RecordType where
  code : UInt16
  deriving DecidableEq, Repr

namespace RecordType

/-- The assigned record types that have a mnemonic here. -/
def registry : Registry where
  name := "Rtype"
  assigned := [(1, "A"), (2, "NS"), (5, "CNAME"), (6, "SOA"), (12, "PTR"), (15, "MX"),
    (16, "TXT"), (28, "AAAA"), (33, "SRV"), (39, "DNAME"), (41, "OPT"), (43, "DS"),
    (46, "RRSIG"), (47, "NSEC"), (48, "DNSKEY"), (50, "NSEC3"), (64, "SVCB"),
    (65, "HTTPS"), (252, "AXFR"), (255, "ANY")]
  limit := 65535
  mark := "TYPE"
  unknown := "unknown record type"

def ns : RecordType := ⟨2⟩
def cname : RecordType := ⟨5⟩
def soa : RecordType := ⟨6⟩
def ptr : RecordType := ⟨12⟩
def mx : RecordType := ⟨15⟩
def srv : RecordType := ⟨33⟩
def dname : RecordType := ⟨39⟩
def opt : RecordType := ⟨41⟩

/-- Whether the type never lives in a zone. -/
def isPseudo (t : RecordType) : Bool := t == opt

/-- The text of a record type. -/
def toText (t : RecordType) : String := registry.toText t.code.toNat

end RecordType

/-! ## Classes -/

/-- The class of a record or question. -/
structure Class where
  code : UInt16
  deriving DecidableEq, Repr

namespace Class

/-- The assigned classes. -/
def registry : Registry where
  name := "Class"
  assigned := [(1, "IN"), (3, "CH"), (4, "HS"), (254, "NONE"), (255, "*")]
  limit := 65535
  mark := "CLASS"
  unknown := "unknown class"

/-- The Internet. -/
def internet : Class := ⟨1⟩

/-- The text of a class. -/
def toText (c : Class) : String := registry.toText c.code.toNat

end Class

/-! ## Opcodes -/

/-- What a message asks for. A header holds its low four bits. -/
structure Opcode where
  code : UInt8
  deriving DecidableEq, Repr

namespace Opcode

/-- The assigned opcodes. -/
def registry : Registry where
  name := "Opcode"
  assigned := [(0, "QUERY"), (1, "IQUERY"), (2, "STATUS"), (4, "NOTIFY"), (5, "UPDATE"),
    (6, "DSO")]
  limit := 255
  mark := ""
  unknown := "unknown opcode"

/-- A standard query. -/
def query : Opcode := ⟨0⟩

end Opcode

/-! ## Response codes -/

/-- How a server fared with a query. A header holds its low four bits. -/
structure ResponseCode where
  code : UInt8
  deriving DecidableEq, Repr

namespace ResponseCode

/-- The assigned response codes. -/
def registry : Registry where
  name := "Rcode"
  assigned := [(0, "NOERROR"), (1, "FORMERR"), (2, "SERVFAIL"), (3, "NXDOMAIN"),
    (4, "NOTIMP"), (5, "REFUSED"), (6, "YXDOMAIN"), (7, "YXRRSET"), (8, "NXRRSET"),
    (9, "NOTAUTH"), (10, "NOTZONE")]
  limit := 255
  mark := ""
  unknown := "unknown rcode"

def noError : ResponseCode := ⟨0⟩
def formErr : ResponseCode := ⟨1⟩
def servFail : ResponseCode := ⟨2⟩

/-- The part of the code that fits into a header. -/
def headerBits (r : ResponseCode) : UInt8 := r.code &&& 0x0F

/-- The text of a response code. -/
def toText (r : ResponseCode) : String := registry.toText r.code.toNat

end ResponseCode

/-! ## Option codes -/

/-- The kind of an EDNS option. -/
structure OptionCode where
  code : UInt16
  deriving DecidableEq, Repr

namespace OptionCode

/-- The assigned option codes that have a mnemonic here. -/
def registry : Registry where
  name := "OptionCode"
  assigned := [(3, "NSID"), (8, "edns-client-subnet"), (10, "COOKIE"),
    (11, "edns-tcp-keepalive"), (12, "Padding"), (15, "Extended DNS Error")]
  limit := 65535
  mark := ""
  unknown := "unknown option code"

def clientSubnet : OptionCode := ⟨8⟩
def padding : OptionCode := ⟨12⟩

/-- The text of an option code for diagnostics. -/
def describe (c : OptionCode) : String := registry.describe c.code.toNat

end OptionCode

end Querier
