import Querier.Octets

/-!
# Reading with failure

Why octets cannot be read as a part of a message, and the readers for numbers and runs
of octets that the decoders of names, records and options are built from.
-/

namespace Querier

/-- Why wire data cannot be decoded. -/
inductive DecodeError where
  /-- The data ends too early. -/
  | shortInput
  /-- The first two bits of a label are neither both set nor both clear. -/
  | badLabelType
  /-- A name would be longer than 255 octets. -/
  | longName
  /-- A compression pointer does not point to before itself. -/
  | compressionLoop
  /-- Record data is longer or shorter than the layout of its type. -/
  | dataLength
  /-- A client subnet has too many address octets or too long a source. -/
  | subnetAddress
  /-- A client subnet is of an unknown address family. -/
  | subnetFamily
  deriving DecidableEq, Repr

/-- The wording of a decoding error. -/
def DecodeError.message : DecodeError → String
  | .shortInput => "unexpected end of input"
  | .badLabelType => "invalid label type"
  | .longName => "long domain name"
  | .compressionLoop => "compression loop"
  | .dataLength => "record data length mismatch"
  | .subnetAddress => "invalid address length in client subnet option"
  | .subnetFamily => "invalid client subnet address family"

namespace Octets

/-- Reads a 16 bit number. -/
def readUInt16 (b : Octets) (pos : Nat) : Except DecodeError (UInt16 × Nat) :=
  match b[pos]?, b[pos + 1]? with
  | some hi, some lo => .ok (uInt16 hi lo, pos + 2)
  | _, _ => .error .shortInput

/-- Reads a 32 bit number. -/
def readUInt32 (b : Octets) (pos : Nat) : Except DecodeError (UInt32 × Nat) :=
  match b[pos]?, b[pos + 1]?, b[pos + 2]?, b[pos + 3]? with
  | some o₁, some o₂, some o₃, some o₄ => .ok (uInt32 o₁ o₂ o₃ o₄, pos + 4)
  | _, _, _, _ => .error .shortInput

/-- Reads a run of `len` octets. -/
def readRun (b : Octets) (pos len : Nat) : Except DecodeError (Octets × Nat) :=
  if pos + len ≤ b.size then .ok (b.extract pos (pos + len), pos + len)
  else .error .shortInput

end Octets

end Querier
