import Querier.Name.Basic
import Querier.Text.Digits

/-!
# The text of names

A name is written as its labels with a dot behind each; the root is a single dot. Inside
a label a blank, a dot and a backslash stand behind a backslash, and an octet outside
printable ASCII is a backslash with three decimal digits.

Reading takes the octets of a text. It knows both escapes for any octet and does not
need the last dot. What is wrong first in the text is what is reported.
-/

namespace Querier

/-- Why a name cannot be made. -/
inductive NameError where
  /-- The text is empty. -/
  | emptyText
  /-- A backslash is not followed by three digits up to 255 or by another octet. -/
  | badEscape
  /-- A label other than the root is empty. -/
  | emptyLabel
  /-- A label has more than 63 octets. -/
  | longLabel
  /-- The name has more than 255 octets. -/
  | longName
  /-- Wire data holds a compression pointer. -/
  | compressedName
  /-- Wire data holds a label of an unknown type. -/
  | badLabel
  /-- Wire data goes on behind the root label. -/
  | trailingData
  /-- Wire data ends before the root label. -/
  | shortInput
  deriving DecidableEq, Repr

/-- The wording of a name error. -/
def NameError.message : NameError → String
  | .emptyText => "empty string"
  | .badEscape => "illegal escape sequence"
  | .emptyLabel => "an empty label was encountered"
  | .longLabel => "label too long"
  | .longName => "long domain name"
  | .compressedName => "compressed domain name"
  | .badLabel => "invalid label type"
  | .trailingData => "trailing data"
  | .shortInput => "unexpected end of input"

namespace Name

/-! ## Names from labels -/

/-- Puts a label of the given octets at the end of a name. -/
def pushOctets (n : Name) (os : List UInt8) : Except NameError Name :=
  if pos : os.length = 0 then .error .emptyLabel
  else if le : 63 < os.length then .error .longLabel
  else if fits : n.Fits os.length then
    .ok (n.push ⟨os, Nat.pos_of_ne_zero pos, Nat.le_of_not_lt le⟩ fits)
  else .error .longName

/-- The name with the given labels. -/
def ofLabels? (ls : List (List UInt8)) : Except NameError Name := ls.foldlM pushOctets root

/-! ## Names from text -/

/-- The octet of three decimal digits. -/
def escapedOctet? (d₁ d₂ d₃ : UInt8) : Option UInt8 :=
  if Octets.isDigit d₁ && Octets.isDigit d₂ && Octets.isDigit d₃ then
    let value := (d₁.toNat - 48) * 100 + (d₂.toNat - 48) * 10 + (d₃.toNat - 48)
    if value < 256 then some (UInt8.ofNat value) else none
  else none

/-- Reads the rest of a text behind the name `n` and the octets `label` of a label that
is not yet complete, the last of which comes first. -/
def readText (n : Name) (label : List UInt8) : List UInt8 → Except NameError Name
  | [] => if label.isEmpty then .ok n else n.pushOctets label.reverse
  | o :: rest =>
    if o = 46 then
      match n.pushOctets label.reverse with
      | .ok n => readText n [] rest
      | .error e => .error e
    else if o = 92 then
      match rest with
      | [] => .error .badEscape
      | d₁ :: rest =>
        if Octets.isDigit d₁ then
          match rest with
          | d₂ :: d₃ :: rest =>
            match escapedOctet? d₁ d₂ d₃ with
            | some value => readText n (value :: label) rest
            | none => .error .badEscape
          | _ => .error .badEscape
        else readText n (d₁ :: label) rest
    else readText n (o :: label) rest

/-- The name that a text is. -/
def ofText? (text : List UInt8) : Except NameError Name :=
  if text.isEmpty then .error .emptyText
  else if text = [46] then .ok root
  else readText root [] text

end Name

/-! ## Printing -/

/-- One octet of a label in presentation form. -/
def Label.octetText (o : UInt8) : List Char :=
  if o = 32 || o = 46 || o = 92 then ['\\', Char.ofNat o.toNat]
  else if 32 ≤ o && o ≤ 126 then [Char.ofNat o.toNat]
  else '\\' :: Text.threeDigits o

/-- The text of a label. -/
def Label.toText (l : Label) : String := String.ofList (l.octets.flatMap octetText)

/-- The text of a label for diagnostics. -/
def Label.describe (l : Label) : String := "Label(" ++ l.toText ++ ")"

namespace Name

/-- The text of a name, with the last dot. -/
def toText (n : Name) : String :=
  if n.isRoot then "."
  else String.ofList (n.labels.flatMap fun l => l.octets.flatMap Label.octetText ++ ['.'])

/-- The text of a name for diagnostics. -/
def describe (n : Name) : String := "Dname(" ++ n.toText ++ ")"

end Name

end Querier
