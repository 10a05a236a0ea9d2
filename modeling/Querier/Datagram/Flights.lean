import Querier.Datagram.MatchKey
import Querier.Failure.TransportError
import Querier.Log
import Querier.Table

/-!
# Queries in flight

While a query is outstanding, another one with the same key is not sent but waits for
the same response. The query that is sent leads, the others follow.

A leader holds the entry of its key in the table of queries in flight from before its
socket is opened until it has a result, and holds a channel on which it tells its
followers the result. It lets go of the entry first and speaks then, so nobody can begin
to follow when it is too late to hear. A leader that goes away without a result closes
its channel, and its followers know that they are abandoned.

The operations are the atomic steps of such a system; any order of them by any number of
callers is a run.
-/

namespace Querier

/-- What a leader tells its followers. -/
abbrev Reply := Except TransportError Octets

/-! ## Channels -/

/-- A channel from one leader to its followers that keeps the last value for those who
have not heard it. -/
structure Channel where
  /-- What has been said, in order. -/
  said : List Reply := []
  /-- Whether there is still someone to speak. -/
  isOpen : Bool := true

/-- What a listener hears. -/
inductive Heard where
  | reply (r : Reply)
  /-- Nothing yet. -/
  | nothing
  /-- Nothing ever again, or something was missed. -/
  | lost

namespace Channel

/-- How many values a channel keeps. -/
def capacity : Nat := 1

/-- What a listener hears who has heard, or was too late for, the first `heard` values. -/
def listen (c : Channel) (heard : Nat) : Heard :=
  if heard + capacity < c.said.length then .lost
  else
    match c.said[heard]? with
    | some r => .reply r
    | none => if c.isOpen then .nothing else .lost

/-- Says something. -/
def say (c : Channel) (r : Reply) : Channel := { c with said := c.said ++ [r] }

/-- Nobody will speak any more. -/
def close (c : Channel) : Channel := { c with isOpen := false }

end Channel

/-! ## Leaders and followers -/

/-- Tells a leader from all others. -/
abbrev LeaderId := Nat

/-- How far a leader is. -/
inductive Phase where
  /-- It opens its socket. -/
  | opening
  /-- Its query is out. -/
  | waiting
  /-- It has a result and has let go of its entry. -/
  | leaving (r : Reply)

/-- A leader that has not gone away. -/
structure Leader where
  key : MatchKey
  phase : Phase

/-- A follower: whom it follows, and how much had been said when it began. -/
structure Follower where
  leader : LeaderId
  heard : Nat
  deriving DecidableEq, Repr

/-- What a caller becomes. -/
inductive Ticket where
  | leader (id : LeaderId)
  | follower (f : Follower)
  deriving DecidableEq, Repr

/-- The queries in flight. -/
structure Flights where
  /-- The entries that others can follow. -/
  inflight : Table MatchKey LeaderId := []
  leaders : Table LeaderId Leader := []
  channels : Table LeaderId Channel := []
  /-- The next leader. -/
  next : LeaderId := 0

namespace Flights

/-- How many queries can be followed. -/
def count (f : Flights) : Nat := f.inflight.length

/-- The channel of a leader. -/
def channel (f : Flights) (id : LeaderId) : Channel := (f.channels.find? id).getD {}

/-- The log event for a query that follows another. -/
def followNote (key : MatchKey) : LogEvent where
  level := .trace
  message := "chaining to outstanding query"
  fields := [("server", key.server.toText), ("qname", key.qname.toText),
    ("qtype", key.qtype.toText)]

/-- Begins a query: follows the one in flight with its key, or leads. -/
def send (f : Flights) (key : MatchKey) : Flights × Ticket :=
  match f.inflight.find? key with
  | some id => (f, .follower ⟨id, (f.channel id).said.length⟩)
  | none =>
    let id := f.next
    ({ inflight := f.inflight.put key id
       leaders := f.leaders.put id ⟨key, .opening⟩
       channels := f.channels.put id {}
       next := id + 1 }, .leader id)

/-- The leader's socket is open and its query out. -/
def opened (f : Flights) (id : LeaderId) : Flights :=
  match f.leaders.find? id with
  | some ⟨key, .opening⟩ => { f with leaders := f.leaders.put id ⟨key, .waiting⟩ }
  | _ => f

/-- The leader has a result and lets go of its entry. -/
def retire (f : Flights) (id : LeaderId) (r : Reply) : Flights :=
  match f.leaders.find? id with
  | some ⟨_, .leaving _⟩ | none => f
  | some ⟨key, _⟩ =>
    { f with
      inflight := f.inflight.erase key
      leaders := f.leaders.put id ⟨key, .leaving r⟩ }

/-- The leader tells its result and is gone. -/
def announce (f : Flights) (id : LeaderId) : Flights :=
  match f.leaders.find? id with
  | some ⟨_, .leaving r⟩ =>
    { f with
      leaders := f.leaders.erase id
      channels := f.channels.put id ((f.channel id).say r).close }
  | _ => f

/-- The leader is done: it lets go of its entry and tells its result. -/
def finish (f : Flights) (id : LeaderId) (r : Reply) : Flights := (f.retire id r).announce id

/-- The leader goes away without a result. -/
def abandon (f : Flights) (id : LeaderId) : Flights :=
  match f.leaders.find? id with
  | some ⟨_, .leaving _⟩ | none => f
  | some ⟨key, _⟩ =>
    { f with
      inflight := f.inflight.erase key
      leaders := f.leaders.erase id
      channels := f.channels.put id (f.channel id).close }

/-- What a follower gets at a moment: the result of its leader, news that there will be
none, or nothing yet. -/
def follow (f : Flights) (w : Follower) : Option Reply :=
  match (f.channel w.leader).listen w.heard with
  | .reply r => some r
  | .lost => some (.error .chainAbandoned)
  | .nothing => none

/-! ## Runs -/

/-- An atomic step. -/
inductive Op where
  | send (key : MatchKey)
  | opened (id : LeaderId)
  | retire (id : LeaderId) (r : Reply)
  | announce (id : LeaderId)
  | abandon (id : LeaderId)

/-- Performs a step. -/
def step (f : Flights) : Op → Flights
  | .send key => (f.send key).1
  | .opened id => f.opened id
  | .retire id r => f.retire id r
  | .announce id => f.announce id
  | .abandon id => f.abandon id

/-- Performs steps one after the other. -/
def run (f : Flights) (ops : List Op) : Flights := ops.foldl step f

end Flights

end Querier
