import Querier.Address.Text
import Querier.Text.Decimal

/-!
# Subnets

A subnet is an address of which only the left-most bits are significant. The type holds
canonical subnets alone: the length fits the family and all bits beyond it are clear, so
two values are equal exactly when they denote the same network.
-/

namespace Querier

/-- An address and the number of its significant bits. -/
structure Subnet where
  address : IpAddress
  bits : Nat
  bits_le : bits ≤ address.family.bits
  canonical : address.mask bits = address
  deriving DecidableEq, Repr

/-- Why a text is no subnet. -/
inductive SubnetError where
  /-- The part before the slash is no address. -/
  | badAddress
  /-- The part behind the slash is no length or too long for the family. -/
  | badLength
  deriving DecidableEq, Repr

/-- The wording of a subnet error. -/
def SubnetError.message : SubnetError → String
  | .badAddress => "invalid IP address syntax"
  | .badLength => "invalid prefix length"

namespace Subnet

/-- The subnet of an address. A length beyond the family's is cut to it, and the bits
behind the length are cleared. -/
def of (a : IpAddress) (bits : Nat) : Subnet where
  address := a.mask (min bits a.family.bits)
  bits := min bits a.family.bits
  bits_le := Nat.min_le_right ..
  canonical := IpAddress.mask_mask ..

/-- The subnet of exactly one address. -/
def host (a : IpAddress) : Subnet := of a a.family.bits

/-- The family of the address. -/
def family (s : Subnet) : Family := s.address.family

/-- The same network cut to `bits` bits, or unchanged if it is not longer. -/
def truncate (s : Subnet) (bits : Nat) : Subnet :=
  if s.bits ≤ bits then s else of s.address bits

/-- How many octets the significant bits need. -/
def significantOctets (s : Subnet) : Nat := (s.bits + 7) / 8

/-- The text of a subnet: address, slash, length. -/
def toText (s : Subnet) : String := s.address.toText ++ "/" ++ toString s.bits

/-- Splits a text at its first slash. -/
def splitSlash : List UInt8 → Option (List UInt8 × List UInt8)
  | [] => none
  | o :: rest =>
    if o = 47 then some ([], rest) else (splitSlash rest).map fun (a, b) => (o :: a, b)

/-- The subnet that a text is: an address, alone for one host, or with a slash and a
length. -/
def ofText? (text : List UInt8) : Except SubnetError Subnet :=
  match splitSlash text with
  | none =>
    match IpAddress.ofText? text with
    | some a => .ok (host a)
    | none => .error .badAddress
  | some (address, length) =>
    match IpAddress.ofText? address with
    | none => .error .badAddress
    | some a =>
      match Text.Decimal.read? a.family.bits length with
      | some bits => .ok (of a bits)
      | none => .error .badLength

end Subnet

end Querier
