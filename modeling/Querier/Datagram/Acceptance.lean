import Querier.Datagram.MatchKey
import Querier.Duration
import Querier.Failure.TransportError
import Querier.Log
import Querier.Message.Decode

/-!
# Accepting datagrams

Anyone can send a datagram to the socket of a query. One is taken as the response only if
it carries the identifier of the query, is marked as a response, and repeats the
question; one without a question is taken too. With hardening, a query that went out with
a client subnet wants a whole message that echoes it.

`judge` decides on one datagram, and `await` goes through what arrives until a datagram is
taken, the socket fails, or time runs out.
-/

namespace Querier

/-- What the sender of a query waits for. -/
structure Expectation where
  key : MatchKey
  /-- The identifier of the query. -/
  id : UInt16
  /-- Whether the client subnet must come back. -/
  hardening : Bool

/-- Why a datagram is dropped. -/
inductive Rejection where
  | short
  | wrongId (id : UInt16)
  | undecodableQuestion
  | wrongQuestion (q : Question)
  | undecodable
  | wrongSubnet (sent : Subnet)

namespace Expectation

/-- The log event for a dropped datagram. -/
def note (x : Expectation) (r : Rejection) : LogEvent :=
  let server := ("server", x.key.server.toText)
  let event (message : String) (fields : List (String × String)) : LogEvent :=
    { level := .trace, message, fields := server :: fields }
  match r with
  | .short => event "dropping short datagram" []
  | .wrongId id => event "dropping datagram with wrong ID"
      [("id", toString id.toNat), ("expected", toString x.id.toNat)]
  | .undecodableQuestion => event "dropping datagram with undecodable question" []
  | .wrongQuestion q => event "dropping datagram with wrong question"
      [("qname", q.qname.toText), ("qtype", q.qtype.toText)]
  | .undecodable => event "dropping unparseable datagram" []
  | .wrongSubnet sent => event "dropping datagram without matching client subnet"
      [("sent", sent.toText)]

/-- Whether a question is the one that was asked. -/
def asks (x : Expectation) (q : Question) : Bool :=
  q.qname.same x.key.qname && q.qtype == x.key.qtype

/-- The objection to the question of a datagram, if it has one. -/
def judgeQuestion (x : Expectation) : Option Question → Option Rejection
  | none => none
  | some q => if x.asks q then none else some (.wrongQuestion q)

/-- The client subnet that has to come back. -/
def wantedSubnet (x : Expectation) : Option Subnet :=
  if x.hardening then x.key.subnet else none

/-- The objection to a message that has to echo a client subnet. -/
def judgeEcho (x : Expectation) (sent : Subnet) (m : Message) : Option Rejection :=
  match x.judgeQuestion m.question with
  | some r => some r
  | none =>
    let echoed := (m.opt.bind Opt.clientSubnet?).map (·.source)
    if echoed = some sent then none else some (.wrongSubnet sent)

/-- The objection to a datagram. There is none to the response. -/
def judge (x : Expectation) (data : Octets) : Option Rejection :=
  match Header.read? data with
  | .error _ => some .short
  | .ok h =>
    if h.id ≠ x.id ∨ h.qr = false then some (.wrongId h.id)
    else
      match x.wantedSubnet with
      | none =>
        match Message.peek data with
        | .error _ => some .undecodableQuestion
        | .ok (_, question) => x.judgeQuestion question
      | some sent =>
        match Message.decode data with
        | .error _ => some .undecodable
        | .ok m => x.judgeEcho sent m

/-! ## Waiting -/

/-- Something that happens at the socket of a query, some time after the wait began: a
datagram arrives, or receiving fails. -/
structure SocketEvent where
  time : Duration
  event : Except IoError Octets

/-- The response among what happens within `timeout`, with the objections to what was
dropped before it. Events are in the order of their times. -/
def await (x : Expectation) (timeout : Duration) :
    List SocketEvent → Except TransportError Octets × List Rejection
  | [] => (.error .timeout, [])
  | ⟨time, event⟩ :: rest =>
    if timeout < time then (.error .timeout, [])
    else
      match event with
      | .error e => (.error (.udpReceive e), [])
      | .ok data =>
        match x.judge data with
        | none => (.ok data, [])
        | some r =>
          let (reply, dropped) := x.await timeout rest
          (reply, r :: dropped)

end Expectation

end Querier
