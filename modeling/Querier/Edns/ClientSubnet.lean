import Querier.Address.Subnet
import Querier.Edns.Option

/-!
# The client subnet option

A resolver may say in a query which network it asks for; the server answers with the
same network, the source, and with a scope: how many bits of it the answer depends on.
The option data is the family, both lengths, and as many address octets as the source
needs.
-/

namespace Querier

/-- A source network with a scope. The scope is zero in a query. -/
structure ClientSubnet where
  source : Subnet
  scope : Nat
  scope_le : scope ≤ source.family.bits
  deriving DecidableEq, Repr

namespace ClientSubnet

/-- A source with a scope, which is cut to the size of the address family. -/
def of (source : Subnet) (scope : Nat) : ClientSubnet :=
  ⟨source, min scope source.family.bits, Nat.min_le_right ..⟩

/-- What a query says about its source. -/
def forQuery (source : Subnet) : ClientSubnet := of source 0

/-- The family with a given number. -/
def familyOf? (code : UInt16) : Option Family :=
  if code = Family.v4.code then some .v4
  else if code = Family.v6.code then some .v6
  else none

/-- Reads option data. There may be fewer address octets than the source needs, and more
of them up to the size of an address; bits behind the source length are cleared. -/
def read : List UInt8 → Except DecodeError ClientSubnet
  | f₁ :: f₂ :: source :: scope :: address =>
    match familyOf? (Octets.uInt16 f₁ f₂) with
    | none => .error .subnetFamily
    | some f =>
      if address.length > f.octets || source.toNat > f.bits then .error .subnetAddress
      else .ok (of (Subnet.of (IpAddress.ofLeading f address) source.toNat) scope.toNat)
  | _ => .error .shortInput

/-- The option data. -/
def data (c : ClientSubnet) : List UInt8 :=
  Octets.ofUInt16 c.source.family.code ++ [UInt8.ofNat c.source.bits, UInt8.ofNat c.scope]
    ++ c.source.address.octets.take c.source.significantOctets

/-- The option. -/
def toOption (c : ClientSubnet) : EdnsOption := ⟨.clientSubnet, c.data.toArray⟩

/-- The text of a client subnet: the source, and the scope unless it is zero. -/
def toText (c : ClientSubnet) : String :=
  if c.scope = 0 then c.source.toText else c.source.toText ++ "/" ++ toString c.scope

end ClientSubnet

end Querier
