import Querier.Address.Subnet
import Querier.Record

/-!
# Outcomes

What the caller of the engine gets: how an exchange ended and, if a response came, what
was in it.
-/

namespace Querier

/-- How an exchange ended. -/
inductive ResultKind where
  /-- A response came. It may still be broken. -/
  | success
  /-- No response came in time. -/
  | timeout
  /-- The exchange failed in a way that trying again does not mend. -/
  | permanentError
  /-- The local system ran out of sockets, memory or the like. -/
  | osLimitError
  /-- A response came that cannot be from the server. -/
  | spoofed
  deriving DecidableEq, Repr

/-- The text of a result kind. -/
def ResultKind.text : ResultKind → String
  | .success => "success"
  | .timeout => "timeout"
  | .permanentError => "permanent error"
  | .osLimitError => "OS limit error"
  | .spoofed => "spoofed"

/-- The result of one exchange with a name server. A response that cannot be decoded is a
success without a valid packet. -/
structure Resolution where
  kind : ResultKind
  /-- The microseconds until the response came. -/
  usec : UInt64 := 0
  /-- Whether a response to the query came that can be used. -/
  validPacket : Bool := false
  /-- The response code in the header. -/
  rcode : ResponseCode := .noError
  /-- Whether EDNS was used and the response has an OPT record. -/
  haveEdns : Bool := false
  aa : Bool := false
  tc : Bool := false
  records : List Record := []
  /-- The client subnet that the response is valid for. -/
  subnet : Option Subnet := none
  /-- Whether the response is shared with an earlier query. -/
  chained : Bool := false
  deriving DecidableEq

/-- Whether an exchange ended with a usable response. -/
def Resolution.isUsable (r : Resolution) : Bool := r.kind == .success && r.validPacket

end Querier
