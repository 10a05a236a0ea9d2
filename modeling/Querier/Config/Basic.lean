import Querier.Address.Ip
import Querier.Duration

/-!
# Configuration

The settings of the query engine. Two of them have limits that every way of setting them
applies: the network timeout lies between a millisecond and an hour, and the EDNS buffer
size is at least 512 octets.
-/

namespace Querier

/-! ## Limits -/

/-- A default value and the range of permitted values. -/
structure Limits (α : Type) where
  standard : α
  least : α
  most : α

/-- The value of the range that is nearest to `v`. -/
def Limits.apply {α : Type} [Min α] [Max α] (l : Limits α) (v : α) : α :=
  max l.least (min l.most v)

/-- How long to wait for a response or a connection. -/
def timeoutLimits : Limits Duration where
  standard := Duration.ofMillis 1500
  least := Duration.ofMillis 1
  most := Duration.ofMillis 3600000

/-- The payload size announced in queries. -/
def bufferLimits : Limits UInt16 where
  standard := 1232
  least := 512
  most := 65535

/-! ## Settings -/

/-- How the resolver deals with DNSSEC. -/
inductive DnssecMode where
  | off
  | processNoValidate
  | process
  | logFail
  | validate
  deriving DecidableEq, Repr

/-- Settings of the pool of idle connections. -/
structure PoolConfig where
  /-- How many idle connections to one server are kept. -/
  maxIdlePerHost : UInt64 := 10
  /-- How many idle connections are kept. -/
  maxIdleTotal : UInt64 := 100
  /-- How long an idle connection is kept. -/
  maxIdleTime : Duration := Duration.ofMillis 10000
  /-- After how many queries a connection is closed; never, if zero. -/
  maxQueries : UInt64 := 0
  deriving DecidableEq, Repr

/-- Settings of the query engine. -/
structure Config where
  /-- How long to wait for a response or a connection. -/
  networkTimeout : Duration := timeoutLimits.standard
  /-- The payload size announced in queries, which also limits padded queries. -/
  bufferSize : UInt16 := bufferLimits.standard
  dnssec : DnssecMode := .process
  /-- Whether stream queries to port 853 use TLS. -/
  dotToPort853 : Bool := true
  /-- Whether queries over TLS are padded. -/
  padding : Bool := true
  /-- Whether datagrams must echo the client subnet of the query. -/
  subnetHardening : Bool := false
  /-- Whether broken responses are logged prominently. -/
  logCommonErrors : Bool := false
  /-- The local address of IPv4 sockets. -/
  localV4 : IpAddress := .unspecified .v4
  localV4_family : localV4.family = .v4 := by rfl
  /-- The local address of IPv6 sockets. -/
  localV6 : IpAddress := .unspecified .v6
  localV6_family : localV6.family = .v6 := by rfl
  pool : PoolConfig := {}
  deriving DecidableEq, Repr

namespace Config

/-- The local address for sockets of a family. -/
def localAddress (c : Config) : Family → IpAddress
  | .v4 => c.localV4
  | .v6 => c.localV6

/-! ## Setters -/

/-- A change of one setting. -/
inductive Setting where
  | networkTimeout (d : Duration)
  | bufferSize (v : UInt16)
  | dnssec (m : DnssecMode)
  | dotToPort853 (on : Bool)
  | padding (on : Bool)
  | subnetHardening (on : Bool)
  | logCommonErrors (on : Bool)
  | localV4 (a : IpAddress) (h : a.family = .v4)
  | localV6 (a : IpAddress) (h : a.family = .v6)
  | maxIdlePerHost (v : UInt64)
  | maxIdleTotal (v : UInt64)
  | maxIdleTime (d : Duration)
  | maxQueries (v : UInt64)

/-- Applies a change, within the limits of the setting. -/
def set (c : Config) : Setting → Config
  | .networkTimeout d => { c with networkTimeout := timeoutLimits.apply d }
  | .bufferSize v => { c with bufferSize := bufferLimits.apply v }
  | .dnssec m => { c with dnssec := m }
  | .dotToPort853 on => { c with dotToPort853 := on }
  | .padding on => { c with padding := on }
  | .subnetHardening on => { c with subnetHardening := on }
  | .logCommonErrors on => { c with logCommonErrors := on }
  | .localV4 a h => { c with localV4 := a, localV4_family := h }
  | .localV6 a h => { c with localV6 := a, localV6_family := h }
  | .maxIdlePerHost v => { c with pool := { c.pool with maxIdlePerHost := v } }
  | .maxIdleTotal v => { c with pool := { c.pool with maxIdleTotal := v } }
  | .maxIdleTime d => { c with pool := { c.pool with maxIdleTime := d } }
  | .maxQueries v => { c with pool := { c.pool with maxQueries := v } }

end Config

end Querier
