import Querier.Dispatch.Journal
import Querier.Host
import Querier.Name.Text

/-!
# Connectors

Setting up the stream of a connection, with TLS where it is asked for. Connecting and the
TLS handshake may each take the time that the request gives them.

A connection with TLS asks for the server by its domain name where that is known and the
TLS library takes it for a name of a server, and by its address otherwise. What the library
takes for one, and how handshakes end, is up to it.
-/

namespace Querier

/-- What a TLS library makes of the names of servers. -/
structure TlsLibrary where
  /-- What a server is asked for by. -/
  ServerName : Type
  /-- The server name that a text is, if it is one. -/
  ofText? : String → Option ServerName
  ofAddress : IpAddress → ServerName
  /-- How long a handshake with a server takes, and the failure to complete it. -/
  handshake : ServerName → Duration × Option IoError

/-- What a server is asked for by: its domain name, without the final dot, if it has one that
is not the root and that the library takes, or else its address. -/
def TlsLibrary.serverName (l : TlsLibrary) (server : SocketAddress) (name : Option Name) :
    l.ServerName :=
  let text := (name.filter fun n => !n.isRoot).map fun n => String.ofList n.toText.toList.dropLast
  (text.bind l.ofText?).getD (l.ofAddress server.ip)

/-- What streams are opened with. -/
structure Connector where
  host : Host
  config : Config
  /-- The TLS library, if connections with TLS can be asked for. -/
  tls : Option TlsLibrary

namespace Connector

/-- Whether TLS is available. -/
def supportsTls (k : Connector) : Bool := k.tls.isSome

/-- Waits for something that may fail, but not for longer than `timeout`. -/
def await (timeout : Duration) (failure : IoError → TransportError)
    (waited : Duration × Option IoError) : Except TransportError Unit :=
  if timeout < waited.1 then .error .timeout
  else
    match waited.2 with
    | some e => .error (failure e)
    | none => .ok ()

/-- Sets up TLS on a stream. -/
def startTls (k : Connector) (r : ConnectRequest) : Except TransportError Unit :=
  match k.tls with
  | none => .error .tlsUnavailable
  | some l => await r.timeout .tlsHandshake (l.handshake (l.serverName r.server r.serverName))

/-- Establishes a connection. -/
def establish (k : Connector) (r : ConnectRequest) : Except TransportError Unit := do
  await r.timeout .streamConnect (k.host.openStream k.config r.server)
  if r.tls then k.startTls r

end Connector

end Querier
