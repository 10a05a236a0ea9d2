import Querier.Address.Socket
import Querier.Duration
import Querier.Log
import Querier.Outcome

/-!
# Telemetry

Every exchange can be reported to sinks: once when the query goes out and once when it
ends. A sink says which of the two it wants, and may fail to take an event, which is
logged and has no other effect.
-/

namespace Querier

/-! ## Identifiers and protocols -/

/-- The identifier of an exchange: sixteen octets. -/
structure MessageId where
  octets : Vector UInt8 16
  deriving DecidableEq

namespace MessageId

/-- The text of an identifier: hexadecimal with a dash before the octets four, six, eight
and ten. -/
def toText (m : MessageId) : String :=
  String.join (m.octets.toList.zipIdx.map fun (o, i) =>
    (if i = 4 || i = 6 || i = 8 || i = 10 then "-" else "") ++ Text.hexOctet o)

/-- The text of an identifier for diagnostics. -/
def describe (m : MessageId) : String := "MessageId(" ++ m.toText ++ ")"

end MessageId

/-- How a query is carried. -/
inductive Protocol where
  | udp
  | tcp
  /-- TLS over TCP. -/
  | dot
  deriving DecidableEq, Repr

/-- The text of a protocol. -/
def Protocol.text : Protocol → String
  | .udp => "UDP"
  | .tcp => "TCP"
  | .dot => "DoT"

/-! ## Events -/

/-- What both events of an exchange say. -/
structure Exchange where
  messageId : MessageId
  /-- The identifier of the client request that caused the query. -/
  initialRequestId : Option MessageId
  protocol : Protocol
  server : SocketAddress
  /-- The identifier in the header of the query. -/
  id : UInt16
  qname : Name
  qtype : RecordType
  /-- The name of the name server. -/
  nsName : Option Name
  deriving DecidableEq

/-- A query goes out. -/
structure OutgoingQuery extends Exchange where
  /-- The size of the query. -/
  bytes : Nat
  /-- The client subnet sent along. -/
  subnet : Option Subnet
  deriving DecidableEq

/-- The number of the address family of the server. -/
def OutgoingQuery.family (q : OutgoingQuery) : UInt16 := q.server.ip.family.code

/-- An exchange has ended. -/
structure IncomingResponse extends Exchange where
  elapsed : Duration
  /-- The size of the response, zero without one. -/
  bytes : Nat
  /-- The response code, nothing without a response. -/
  rcode : Option ResponseCode
  /-- The records of exported types. -/
  records : List Record
  /-- The client subnet that the response is valid for. -/
  subnet : Option Subnet
  deriving DecidableEq

/-- An event for sinks. -/
inductive TelemetryEvent where
  | query (q : OutgoingQuery)
  | response (r : IncomingResponse)
  deriving DecidableEq

/-! ## Sinks -/

/-- Why a sink did not take an event. -/
inductive SinkError where
  | pipeFull
  | tooLarge
  | other (text : String)
  deriving DecidableEq, Repr

/-- The wording of a sink error. -/
def SinkError.message : SinkError → String
  | .pipeFull => "queue full"
  | .tooLarge => "event too large"
  | .other text => text

/-- The log event for a sink error. -/
def SinkError.note : SinkError → LogEvent
  | .pipeFull => { level := .debug, message := "telemetry sink full, dropping event" }
  | e => { level := .warn, message := "telemetry sink failed", fields := [("error", e.message)] }

/-- A consumer of events. -/
structure Sink where
  wantsQueries : Bool := true
  wantsResponses : Bool := true
  /-- Whether the sink turns events into log events. -/
  logs : Bool := false
  /-- What the sink says to an event, which may change as the engine goes on. -/
  answer : Nat → Option SinkError := fun _ => none

/-- Whether a sink wants an event. -/
def Sink.wants (s : Sink) : TelemetryEvent → Bool
  | .query _ => s.wantsQueries
  | .response _ => s.wantsResponses

/-! ## Events as log events -/

namespace TelemetryEvent

/-- The fields that every event has. -/
def commonFields (e : Exchange) : List (String × String) := [
  ("message_id", e.messageId.toText),
  ("protocol", e.protocol.text),
  ("server", e.server.toText),
  ("id", toString e.id.toNat),
  ("qname", e.qname.toText),
  ("qtype", e.qtype.toText)]

/-- The microseconds of a span, of which 64 bits are kept. -/
def micros (d : Duration) : String := toString (Duration.toMicros d % UInt64.size)

/-- The log event for an event. -/
def note : TelemetryEvent → LogEvent
  | .query q => {
      level := .info
      message := "outgoing query"
      fields := commonFields q.toExchange ++ [("bytes", toString q.bytes)] }
  | .response r =>
    match r.rcode with
    | some rcode => {
        level := .info
        message := "incoming response"
        fields := commonFields r.toExchange ++ [
          ("bytes", toString r.bytes),
          ("rcode", rcode.toText),
          ("records", toString r.records.length),
          ("elapsed_us", micros r.elapsed)] }
    | none => {
        level := .info
        message := "no response"
        fields := commonFields r.toExchange ++ [("elapsed_us", micros r.elapsed)] }

end TelemetryEvent

end Querier
