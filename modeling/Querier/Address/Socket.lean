import Querier.Address.Text

/-!
# Socket addresses

The address of a name server: an IP address and a port. An IPv6 address also has flow
information and a scope, and addresses that differ in one of these are different.

In text an IPv6 address stands in brackets, its scope behind a percent sign unless it is
zero. Flow information is not shown.
-/

namespace Querier

/-- An IP address and a port. -/
structure SocketAddress where
  ip : IpAddress
  port : UInt16
  flow : UInt32
  scope : UInt32
  /-- An IPv4 address has no flow information and no scope. -/
  plain : ip.family = .v4 → flow = 0 ∧ scope = 0
  deriving DecidableEq, Repr

namespace SocketAddress

/-- The socket address without flow information and scope. -/
def of (ip : IpAddress) (port : UInt16) : SocketAddress where
  ip
  port
  flow := 0
  scope := 0
  plain _ := ⟨rfl, rfl⟩

/-- The text of a socket address. -/
def toText (s : SocketAddress) : String :=
  let port := ":" ++ toString s.port.toNat
  match s.ip.family with
  | .v4 => s.ip.toText ++ port
  | .v6 =>
    let scope := if s.scope = 0 then "" else "%" ++ toString s.scope.toNat
    "[" ++ s.ip.toText ++ scope ++ "]" ++ port

/-! ## Reading -/

/-- Reads a decimal of at most `limit`, which has no sign and may have leading zeros. -/
def readDecimal (limit : Nat) (text : List UInt8) : Option (Nat × List UInt8) :=
  let (ds, rest) := IpAddress.leadingDigits 10 text
  let n := ds.foldl (fun acc d => acc * 10 + d) 0
  if ds.isEmpty || limit < n then none else some (n, rest)

/-- Reads a port behind its colon, and nothing behind it. -/
def readPort (text : List UInt8) : Option UInt16 := do
  match ← readDecimal 65535 (← IpAddress.readOctet 58 text) with
  | (n, []) => some (UInt16.ofNat n)
  | _ => none

/-- Reads a scope behind its percent sign, if there is one. -/
def readScope (text : List UInt8) : Option (UInt32 × List UInt8) :=
  match IpAddress.readOctet 37 text with
  | none => some (0, text)
  | some rest => (readDecimal 4294967295 rest).map fun (n, rest) => (UInt32.ofNat n, rest)

/-- The socket address that a text is. -/
def ofText? (text : List UInt8) : Option SocketAddress :=
  match IpAddress.readFamily .v4 text with
  | some (ip, rest) => (readPort rest).map (of ip)
  | none => do
    let (ip, rest) ← IpAddress.readFamily .v6 (← IpAddress.readOctet 91 text)
    let (scope, rest) ← readScope rest
    let port ← readPort (← IpAddress.readOctet 93 rest)
    if h : ip.family = .v4 then none
    else return ⟨ip, port, 0, scope, fun v4 => absurd v4 h⟩

end SocketAddress

end Querier
