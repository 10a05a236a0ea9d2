import Querier.Failure.SystemError

/-!
# Failures of input and output

A failure that the network reports is a bare kind, a kind with a text of its own, or an
error number of the operating system. Only a few kinds and numbers are told apart by the
engine: time that ran out, local resources that did, and data that ended early.
-/

namespace Querier

/-- What sort of failure happened. -/
inductive IoErrorKind where
  | addrInUse
  | addrNotAvailable
  | alreadyExists
  | argumentListTooLong
  | brokenPipe
  | connectionAborted
  | connectionRefused
  | connectionReset
  | crossesDevices
  | deadlock
  | directoryNotEmpty
  | executableFileBusy
  | fileTooLarge
  | hostUnreachable
  | interrupted
  | invalidData
  | invalidFilename
  | invalidInput
  | isADirectory
  | networkDown
  | networkUnreachable
  | notADirectory
  | notConnected
  | notFound
  | notSeekable
  | other
  | outOfMemory
  | permissionDenied
  | quotaExceeded
  | readOnlyFilesystem
  | resourceBusy
  | staleNetworkFileHandle
  | storageFull
  | timedOut
  | tooManyLinks
  | unexpectedEof
  | unsupported
  | wouldBlock
  | writeZero
  | uncategorized
  deriving DecidableEq, Repr

namespace IoErrorKind

/-- The text of a failure that is only a kind. -/
def text : IoErrorKind → String
  | .addrInUse => "address in use"
  | .addrNotAvailable => "address not available"
  | .alreadyExists => "entity already exists"
  | .argumentListTooLong => "argument list too long"
  | .brokenPipe => "broken pipe"
  | .connectionAborted => "connection aborted"
  | .connectionRefused => "connection refused"
  | .connectionReset => "connection reset"
  | .crossesDevices => "cross-device link or rename"
  | .deadlock => "deadlock"
  | .directoryNotEmpty => "directory not empty"
  | .executableFileBusy => "executable file busy"
  | .fileTooLarge => "file too large"
  | .hostUnreachable => "host unreachable"
  | .interrupted => "operation interrupted"
  | .invalidData => "invalid data"
  | .invalidFilename => "invalid filename"
  | .invalidInput => "invalid input parameter"
  | .isADirectory => "is a directory"
  | .networkDown => "network down"
  | .networkUnreachable => "network unreachable"
  | .notADirectory => "not a directory"
  | .notConnected => "not connected"
  | .notFound => "entity not found"
  | .notSeekable => "seek on unseekable file"
  | .other => "other error"
  | .outOfMemory => "out of memory"
  | .permissionDenied => "permission denied"
  | .quotaExceeded => "quota exceeded"
  | .readOnlyFilesystem => "read-only filesystem or storage medium"
  | .resourceBusy => "resource busy"
  | .staleNetworkFileHandle => "stale network file handle"
  | .storageFull => "no storage space"
  | .timedOut => "timed out"
  | .tooManyLinks => "too many links"
  | .unexpectedEof => "unexpected end of file"
  | .unsupported => "unsupported"
  | .wouldBlock => "operation would block"
  | .writeZero => "write zero"
  | .uncategorized => "uncategorized error"

/-- The kind of an error number. Numbers that the engine does not tell apart are left
uncategorized. -/
def ofCode (code : Nat) : IoErrorKind :=
  if code = 12 then .outOfMemory
  else if code = 98 then .addrInUse
  else if code = 99 then .addrNotAvailable
  else if code = 101 then .networkUnreachable
  else if code = 110 then .timedOut
  else if code = 111 then .connectionRefused
  else .uncategorized

end IoErrorKind

/-- A failure of input or output. -/
inductive IoError where
  /-- Only a kind. -/
  | bare (kind : IoErrorKind)
  /-- A kind with a text. -/
  | custom (kind : IoErrorKind) (text : String)
  /-- An error number. -/
  | system (code : Nat)
  deriving DecidableEq, Repr

namespace IoError

/-- The kind of a failure. -/
def kind : IoError → IoErrorKind
  | .bare kind => kind
  | .custom kind _ => kind
  | .system code => .ofCode code

/-- The text of a failure that came with it. -/
def ownText? : IoError → Option String
  | .custom _ text => some text
  | _ => none

/-- The text of a failure. -/
def text : IoError → String
  | .bare kind => kind.text
  | .custom _ text => text
  | .system code => SystemError.text code ++ " (os error " ++ toString code ++ ")"

/-- The error numbers that mean that the local system ran out of something: memory, open
files of the system, open files of the process, buffers. -/
def exhaustionCodes : List Nat := [12, 23, 24, 105]

/-- Whether the local system ran out of something: an address, memory, or what one of
the error numbers means. -/
def isExhaustion (e : IoError) : Bool :=
  e.kind == .addrInUse || e.kind == .addrNotAvailable || e.kind == .outOfMemory
    || match e with
      | .system code => exhaustionCodes.contains code
      | _ => false

end IoError

end Querier
