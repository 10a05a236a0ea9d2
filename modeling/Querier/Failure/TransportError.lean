import Querier.Failure.IoError
import Querier.Outcome

/-!
# Failures of transports

Why a query brought no response, and which kind of result that is.
-/

namespace Querier

/-- Why an exchange failed. -/
inductive TransportError where
  /-- The query that was waited for went away without a result. -/
  | chainAbandoned
  /-- The message is too long for the 16 bit length in front of it. -/
  | messageTooLarge
  | streamConnect (cause : IoError)
  | streamRead (cause : IoError)
  /-- A stream ended in the middle of a response. -/
  | streamEnd
  | streamWrite (cause : IoError)
  /-- No response came in time. -/
  | timeout
  | tlsHandshake (cause : IoError)
  /-- A connection with TLS was asked for, but there is no TLS. -/
  | tlsUnavailable
  | udpBind (cause : IoError)
  | udpConnect (cause : IoError)
  | udpReceive (cause : IoError)
  | udpSend (cause : IoError)
  /-- Only a part of a message was sent. -/
  | udpShortSend
  deriving DecidableEq, Repr

namespace TransportError

/-- The failure of input or output behind an error. -/
def cause? : TransportError → Option IoError
  | .streamConnect e | .streamRead e | .streamWrite e | .tlsHandshake e
  | .udpBind e | .udpConnect e | .udpReceive e | .udpSend e => some e
  | _ => none

/-- The result kind of a failure of input or output. -/
def kindOfCause (e : IoError) : ResultKind :=
  if e.kind = .timedOut then .timeout
  else if e.isExhaustion then .osLimitError
  else .permanentError

/-- The result kind of an error. -/
def kind (e : TransportError) : ResultKind :=
  match e.cause? with
  | some cause => kindOfCause cause
  | none => if e = .chainAbandoned ∨ e = .timeout then .timeout else .permanentError

/-- What is said about an error; before its cause, if it has one. -/
def headline : TransportError → String
  | .chainAbandoned => "query waited for was abandoned"
  | .messageTooLarge => "message too large for stream transport"
  | .streamConnect _ => "error connecting stream: "
  | .streamRead _ => "error reading from stream: "
  | .streamEnd => "unexpected end of data"
  | .streamWrite _ => "error writing to stream: "
  | .timeout => "timeout waiting for response"
  | .tlsHandshake _ => "TLS handshake failed: "
  | .tlsUnavailable => "TLS not available"
  | .udpBind _ => "error binding UDP socket: "
  | .udpConnect _ => "error connecting UDP socket: "
  | .udpReceive _ => "error receiving from UDP socket: "
  | .udpSend _ => "error sending to UDP socket: "
  | .udpShortSend => "partial sent to UDP socket"

/-- The wording of an error. -/
def message (e : TransportError) : String :=
  match e.cause? with
  | some cause => e.headline ++ cause.text
  | none => e.headline

end TransportError

end Querier
