import Querier.Config.Basic
import Querier.Datagram.MatchKey
import Querier.Edns.Padding
import Querier.Message.Writer
import Querier.Telemetry

/-!
# Queries

What a caller asks for, and the message that asks for it: a header with the recursion
bits, one question, and with EDNS an OPT record that carries the payload size, the
DNSSEC flag, the client subnet if there is one, and over TLS the padding.
-/

namespace Querier

/-- A query to send to a name server. -/
structure Request where
  server : SocketAddress
  qname : Name
  qtype : RecordType
  /-- Whether to use a stream. -/
  tcp : Bool := false
  /-- Whether to ask for recursion. -/
  recursionDesired : Bool := false
  /-- The EDNS level; zero for no EDNS. -/
  ednsLevel : UInt8 := 1
  /-- The client subnet to send along, if there is EDNS. -/
  sourceMask : Option Subnet := none
  /-- The name of the name server. -/
  nsName : Option Name := none
  /-- The identifier of the client request behind the query. -/
  initialRequestId : Option MessageId := none

namespace Request

/-- Whether the query has EDNS. -/
def hasEdns (r : Request) : Bool := 0 < r.ednsLevel

/-- The client subnet that is sent. -/
def sentSubnet (r : Request) : Option Subnet := if r.hasEdns then r.sourceMask else none

/-- The identity of the query among outstanding datagrams. -/
def matchKey (r : Request) : MatchKey := ⟨r.server, r.qname, r.qtype, r.sentSubnet⟩

end Request

namespace Config

/-- Whether DNSSEC records are asked for. -/
def wantsDnssec (c : Config) : Bool := c.dnssec != .off

/-- The part of a query before its OPT record. -/
def bareQuery (c : Config) (r : Request) (id : UInt16) : Writer :=
  (Writer.new r.qname r.qtype .internet .query).editHeader fun h =>
    { h with
      id
      rd := r.recursionDesired
      cd := r.recursionDesired && c.wantsDnssec }

/-- The client subnet option of a query. -/
def subnetOptions (r : Request) : List EdnsOption :=
  match r.sourceMask with
  | none => []
  | some s => [(ClientSubnet.forQuery s).toOption]

/-- The padding option of a query that has the given options already. -/
def paddingOptions (c : Config) (tls : Bool) (w : Writer) (options : List EdnsOption) :
    List EdnsOption :=
  if tls && c.padding then
    match Padding.length? (w.sizeWithOptions options) c.bufferSize.toNat with
    | none => []
    | some len => [Padding.option len]
  else []

/-- The query message of a request. -/
def buildQuery (c : Config) (r : Request) (id : UInt16) (tls : Bool) : Octets :=
  let w := c.bareQuery r id
  if r.hasEdns then
    let options := subnetOptions r
    let options := options ++ c.paddingOptions tls w options
    (w.addOpt c.bufferSize 0 (if c.wantsDnssec then Opt.dnssecOk else 0) options 0).finish
  else w.finish

end Config

end Querier
