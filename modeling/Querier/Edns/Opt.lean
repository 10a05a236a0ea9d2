import Querier.Edns.ClientSubnet

/-!
# OPT records

The record that carries EDNS. Its class field is the payload size of the sender, and its
TTL field holds, from the top, eight more bits of the response code, the version and the
flags.
-/

namespace Querier

/-- The content of an OPT record. -/
structure Opt where
  payloadSize : UInt16
  extendedCode : UInt8
  version : UInt8
  flags : UInt16
  options : List EdnsOption
  deriving DecidableEq

namespace Opt

/-- The flag that asks for DNSSEC records. -/
def dnssecOk : UInt16 := 0x8000

/-- Whether DNSSEC records are asked for. -/
def isDnssecOk (o : Opt) : Bool := o.flags.toNat / 32768 % 2 == 1

/-- The TTL field for an extended code, a version and flags. -/
def ttlField (extendedCode version : UInt8) (flags : UInt16) : UInt32 :=
  UInt32.ofNat ((extendedCode.toNat * 256 + version.toNat) * 65536 + flags.toNat)

/-- The content of an OPT record with the given class field, TTL field and data. -/
def ofRecord (rclass : Class) (ttl : UInt32) (data : List UInt8) : Except DecodeError Opt :=
  match EdnsOption.readAll data with
  | .error e => .error e
  | .ok options => .ok {
      payloadSize := rclass.code
      extendedCode := UInt8.ofNat (ttl.toNat / 16777216)
      version := UInt8.ofNat (ttl.toNat / 65536)
      flags := UInt16.ofNat ttl.toNat
      options }

/-- The first option with a code. -/
def first? (o : Opt) (code : OptionCode) : Option EdnsOption :=
  o.options.find? fun option => option.code == code

/-- The client subnet: the first option of that code, if it can be read. -/
def clientSubnet? (o : Opt) : Option ClientSubnet :=
  match o.first? .clientSubnet with
  | none => none
  | some option => (ClientSubnet.read option.data.toList).toOption

/-- The text of an OPT record for diagnostics. -/
def describe (o : Opt) : String :=
  "OptRecord \x7b udp_payload_size: " ++ toString o.payloadSize.toNat
    ++ ", ext_rcode: " ++ toString o.extendedCode.toNat
    ++ ", version: " ++ toString o.version.toNat
    ++ ", flags: " ++ toString o.flags.toNat
    ++ ", options: [" ++ String.intercalate ", " (o.options.map EdnsOption.describe) ++ "] \x7d"

end Opt

end Querier
