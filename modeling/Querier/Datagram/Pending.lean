import Querier.Datagram.Acceptance
import Querier.Datagram.Flights
import Querier.Host

/-!
# Pending queries

A caller's view of a datagram query: it is sent, or follows one in flight, and later
received or dropped. Each operation is one or more of the atomic steps of `Flights`, done
without anyone coming in between.
-/

namespace Querier

/-- A query whose result is still to come. -/
structure Pending where
  ticket : Ticket
  expectation : Expectation

/-- Whether the result is that of another query. -/
def Pending.isChained (p : Pending) : Bool :=
  match p.ticket with
  | .leader _ => false
  | .follower _ => true

namespace Flights

/-- Sends a query, unless there is one in flight to follow. If it cannot be sent, that is
its result, for those who follow it as well. -/
def start (f : Flights) (h : Host) (c : Config) (x : Expectation) (message : Octets) :
    Flights × Except TransportError Pending :=
  let (f, ticket) := f.send x.key
  match ticket with
  | .follower _ => (f, .ok ⟨ticket, x⟩)
  | .leader id =>
    match h.openDatagram c x.key.server message with
    | .error e => (f.finish id (.error e), .error e)
    | .ok () => (f.opened id, .ok ⟨ticket, x⟩)

/-- What receiving leads to: the table afterwards, the result, and the objections to what
a leader dropped. -/
structure Receipt where
  flights : Flights
  reply : Reply
  dropped : List Rejection

/-- Receives the result of a query, given what happens at its socket in time. A follower
whose leader has no result by then runs out of time. -/
def receive (f : Flights) (p : Pending) (timeout : Duration)
    (events : List Expectation.SocketEvent) : Receipt :=
  match p.ticket with
  | .leader id =>
    let (reply, dropped) := p.expectation.await timeout events
    ⟨f.finish id reply, reply, dropped⟩
  | .follower w => ⟨f, (f.follow w).getD (.error .timeout), []⟩

/-- Drops a query whose result is not wanted any more. -/
def drop (f : Flights) (p : Pending) : Flights :=
  match p.ticket with
  | .leader id => f.abandon id
  | .follower _ => f

end Flights

end Querier
