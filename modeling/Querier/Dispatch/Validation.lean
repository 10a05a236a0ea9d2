import Querier.Dispatch.Query
import Querier.Message.Decode

/-!
# Validating responses

Whether a response answers the query. It has to decode and repeat the name that was asked
for; a server that does not know EDNS may send a format error without a question. A
datagram that echoes another client subnet than was sent cannot be from the server.

Validation is a function of the request and the response. Besides the result it says what
is to be logged and what is to be reported to sinks.
-/

namespace Querier

/-- What is reported about a response. -/
structure Report where
  rcode : ResponseCode
  records : List Record
  subnet : Option Subnet
  deriving DecidableEq

/-- The result of validating a response. -/
structure Validation where
  resolution : Resolution
  notes : List LogEvent := []
  report : Option Report := none
  /-- Whether the response could not be decoded. -/
  undecodable : Bool := false

namespace Validation

/-- A response that cannot be decoded. -/
def broken (c : Config) (r : Request) (res : Resolution) (e : DecodeError) : Validation where
  resolution := { res with rcode := .formErr, validPacket := false }
  notes := [{
    level := if c.logCommonErrors then .info else .debug
    message := "unable to parse packet from remote server"
    fields := [("server", r.server.toText), ("error", e.message)] }]
  report := some { rcode := .formErr, records := [], subnet := none }
  undecodable := true

/-- A format error without a question. -/
def withoutQuestion (res : Resolution) : Validation where
  resolution := { res with validPacket := true }
  report := some { rcode := res.rcode, records := [], subnet := none }

/-- A response to something else. -/
def wrongQuestion (r : Request) (res : Resolution) (question : Option Question) :
    Validation where
  resolution := { res with
    kind := .permanentError
    rcode := if res.rcode = .noError then .servFail else res.rcode }
  notes :=
    match question with
    | none => []
    | some q =>
      if q.qname.isRoot then []
      else [{
        level := .info
        message := "packet purporting to come from remote server contained wrong answer"
        fields := [("server", r.server.toText), ("qname", r.qname.toText),
          ("onwire", q.qname.toText)] }]

/-- A datagram with another client subnet than was sent. -/
def spoofed (r : Request) (res : Resolution) (sent echoed : Subnet) : Validation where
  resolution := { res with kind := .spoofed }
  notes := [{
    level := .info
    message := "incoming ECS does not match outgoing"
    fields := [("server", r.server.toText), ("qname", r.qname.toText),
      ("outgoing", sent.toText), ("incoming", echoed.toText)] }]

/-- A response to the query. -/
def accepted (res : Resolution) (records : List Record) (subnet : Option Subnet) :
    Validation where
  resolution := { res with records, subnet, validPacket := true }
  report := some { rcode := res.rcode, records, subnet }

/-- The client subnet that went out and the one that came back, if there are both. -/
def echo? (r : Request) (o : Opt) : Option (Subnet × ClientSubnet) :=
  match r.sentSubnet, o.clientSubnet? with
  | some sent, some echoed => some (sent, echoed)
  | _, _ => none

/-- What an answer with an echoed client subnet is valid for: the network that was sent,
cut to the scope. -/
def validFor (sent : Subnet) (echoed : ClientSubnet) : Option Subnet :=
  if echoed.scope = 0 then none else some (sent.truncate (min echoed.scope sent.bits))

/-- Looks at the client subnet of a response to the query. -/
def checkSubnet (r : Request) (res : Resolution) (m : Message) : Validation :=
  match m.opt with
  | none => accepted res m.records none
  | some o =>
    if r.hasEdns then
      let res := { res with haveEdns := true }
      match echo? r o with
      | none => accepted res m.records none
      | some (sent, echoed) =>
        if !r.tcp && echoed.source != sent then spoofed r res sent echoed.source
        else accepted res m.records (validFor sent echoed)
    else accepted res m.records none

/-- Validates a decoded response. -/
def ofMessage (r : Request) (res : Resolution) (m : Message) : Validation :=
  let res := { res with aa := m.header.aa, tc := m.header.tc, rcode := m.header.rcode }
  match m.question with
  | none => if res.rcode = .formErr then withoutQuestion res else wrongQuestion r res none
  | some q =>
    if q.qname.same r.qname then checkSubnet r res m else wrongQuestion r res (some q)

end Validation

/-- Validates a response, filling in what is known of the result so far. -/
def validate (c : Config) (r : Request) (res : Resolution) (data : Octets) : Validation :=
  match Message.decode data with
  | .error e => .broken c r res e
  | .ok m => .ofMessage r res m

end Querier
