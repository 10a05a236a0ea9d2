import Querier.Address.Socket
import Querier.Duration
import Querier.Failure.TransportError

/-!
# Streams

A connection to a name server as the engine sees it: what will arrive on it, how much it
takes, and how that ends. Queries and responses travel behind their length in 16 bits,
and one exchange of both has to be done within a span of time.

A stream is a value. Everything that the peer and the network will do on it is in the
list of arrivals; reading takes from its front, and nothing else moves the clock.

## Main results

* `receive_zero`: reading nothing leaves a stream alone.
-/

namespace Querier

/-- What happens next on the receiving side of a stream. -/
inductive Arrival where
  /-- Octets arrive. -/
  | data (os : Octets)
  /-- Nothing happens for a while, counted from when a reader gets here. -/
  | wait (d : Duration)
  /-- A read fails, once. -/
  | failure (e : IoError)
  /-- The stream has ended for good. -/
  | ended
  /-- Nothing ever happens again. -/
  | silence
  deriving DecidableEq

/-- A connection. -/
structure Stream where
  /-- What will arrive. The end of the list is the end of the stream. -/
  arrivals : List Arrival := []
  localAddress : Option SocketAddress := none
  /-- How many octets the stream takes in a turn; any number, if nothing is said. -/
  allowance : Option Nat := none
  /-- How many octets it has taken in this turn. -/
  accepted : Nat := 0
  /-- Whether the allowance is for every turn anew. -/
  renews : Bool := true
  /-- How a write beyond the allowance fails, if not by taking nothing. -/
  writeError : Option IoError := none
  /-- Whether a write beyond the allowance waits for ever instead. -/
  stalls : Bool := false
  /-- How flushing fails, if it does. -/
  flushError : Option IoError := none
  /-- What the peer is called in reports. -/
  label : String := ""
  deriving DecidableEq

namespace Stream

/-- A new turn begins. -/
def renew (s : Stream) : Stream := if s.renews then { s with accepted := 0 } else s

/-! ## Reading -/

/-- How an attempt to read ended. -/
inductive ReadEnd where
  | full (os : Octets)
  | failed (e : TransportError)
  | expired

/-- The end of an attempt to read, what is still to arrive, and the time that is left. -/
structure Received where
  outcome : ReadEnd
  rest : List Arrival
  left : Duration

/-- The error for a failed read. -/
def readError (e : IoError) : TransportError :=
  if e.kind = .unexpectedEof then .streamEnd else .streamRead e

/-- Reads `need` octets behind those in `got` with `left` time to go. What arrives exactly
when time runs out is still read. -/
def receive (got : Octets) (need : Nat) (left : Duration) (arrivals : List Arrival) :
    Received :=
  if need = 0 then ⟨.full got, arrivals, left⟩
  else
    match arrivals with
    | [] => ⟨.failed .streamEnd, [], left⟩
    | .data os :: rest =>
      if os.size ≤ need then receive (got ++ os) (need - os.size) left rest
      else ⟨.full (got ++ os.extract 0 need), .data (os.extract need os.size) :: rest, left⟩
    | .wait d :: rest =>
      if d ≤ left then receive got need (left - d) rest
      else ⟨.expired, .wait (d - left) :: rest, 0⟩
    | .failure e :: rest => ⟨.failed (readError e), rest, left⟩
    | .ended :: rest => ⟨.failed .streamEnd, .ended :: rest, left⟩
    | .silence :: rest => ⟨.expired, .silence :: rest, 0⟩

theorem receive_zero (got : Octets) (left : Duration) (arrivals : List Arrival) :
    receive got 0 left arrivals = ⟨.full got, arrivals, left⟩ := by
  unfold receive
  simp

/-! ## Writing -/

/-- A message behind its length. -/
def frame (message : Octets) : Octets :=
  (Octets.ofUInt16 (UInt16.ofNat message.size)).toArray ++ message

/-- How many octets of a frame the stream takes. -/
def room (s : Stream) (size : Nat) : Nat :=
  match s.allowance with
  | none => size
  | some most => min size (most - s.accepted)

/-! ## Exchanges -/

/-- How an exchange over a stream ended, what the stream took, and how long it lasted. -/
structure Exchanged where
  reply : Except TransportError Octets
  stream : Stream
  sent : Octets
  elapsed : Duration

/-- Reads a response behind its length. -/
def readReply (s : Stream) (timeout : Duration) :
    Except TransportError Octets × Stream × Duration :=
  let first := receive #[] 2 timeout s.arrivals
  match first.outcome with
  | .failed e => (.error e, { s with arrivals := first.rest }, timeout - first.left)
  | .expired => (.error .timeout, { s with arrivals := first.rest }, timeout)
  | .full length =>
    let len := (Octets.uInt16 (length[0]?.getD 0) (length[1]?.getD 0)).toNat
    let second := receive #[] len first.left first.rest
    let s := { s with arrivals := second.rest }
    match second.outcome with
    | .failed e => (.error e, s, timeout - second.left)
    | .expired => (.error .timeout, s, timeout)
    | .full os => (.ok os, s, timeout - second.left)

/-- Sends a query and reads its response within `timeout`. -/
def exchange (s : Stream) (message : Octets) (timeout : Duration) : Exchanged :=
  if 65535 < message.size then
    { reply := .error .messageTooLarge, stream := s, sent := #[], elapsed := 0 }
  else
    let all := frame message
    let taken := s.room all.size
    let s := { s with accepted := s.accepted + taken }
    let sent := all.extract 0 taken
    if taken < all.size then
      if s.stalls then { reply := .error .timeout, stream := s, sent, elapsed := timeout }
      else
        let e := s.writeError.getD (.bare .writeZero)
        { reply := .error (.streamWrite e), stream := s, sent, elapsed := 0 }
    else
      match s.flushError with
      | some e => { reply := .error (.streamWrite e), stream := s, sent, elapsed := 0 }
      | none =>
        let (reply, stream, elapsed) := s.readReply timeout
        { reply, stream, sent, elapsed }

end Stream

end Querier
