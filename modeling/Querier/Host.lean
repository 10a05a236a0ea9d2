import Querier.Address.Socket
import Querier.Config.Basic
import Querier.Duration
import Querier.Failure.TransportError

/-!
# Hosts

Opening sockets on the local host. Every query goes out from a socket of its own, bound to
the configured local address of the server's family.

Which local addresses can be bound, which servers can be reached from them, and how much of
a message is sent at once is up to the operating system. A `Host` is what it answers when a
socket is opened, and nothing is assumed of that.
-/

namespace Querier

/-- What an operating system answers when a socket is opened. -/
structure Host where
  /-- The failure to bind a local address, at the first attempt and at each after it. -/
  bindError : IpAddress → Nat → Option IoError
  /-- How long connecting from a local address to a server takes, and the failure to. -/
  connect : IpAddress → SocketAddress → Duration × Option IoError
  /-- How many octets of a message to a server are sent. -/
  send : SocketAddress → Octets → Except IoError Nat

namespace Host

variable (h : Host)

/-- How many times binding a datagram socket is tried again. -/
def bindRetries : Nat := 10

/-- Binds a datagram socket to a port that the system picks. As long as that port turns out
to be in use and there are retries left, it is tried again. -/
def bindDatagram (here : IpAddress) (attempt : Nat) : Nat → Option IoError
  | 0 => h.bindError here attempt
  | retries + 1 =>
    match h.bindError here attempt with
    | none => none
    | some e => if e.kind = .addrInUse then bindDatagram here (attempt + 1) retries else some e

/-- Opens a datagram socket to a server and sends a query. -/
def openDatagram (c : Config) (server : SocketAddress) (message : Octets) :
    Except TransportError Unit :=
  let here := c.localAddress server.ip.family
  match h.bindDatagram here 0 bindRetries with
  | some e => .error (.udpBind e)
  | none =>
    match (h.connect here server).2 with
    | some e => .error (.udpConnect e)
    | none =>
      match h.send server message with
      | .error e => .error (.udpSend e)
      | .ok sent => if sent = message.size then .ok () else .error .udpShortSend

/-- Opens a stream to a server: how long that takes, and the failure to. -/
def openStream (c : Config) (server : SocketAddress) : Duration × Option IoError :=
  let here := c.localAddress server.ip.family
  match h.bindError here 0 with
  | some e => (0, some e)
  | none => h.connect here server

end Host

end Querier
