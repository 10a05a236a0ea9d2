import Querier.Address.Ip
import Querier.Text.Digits

/-!
# The text of addresses

IPv4 addresses are four decimal numbers with dots. IPv6 addresses are groups of up to
four hexadecimal digits with colons, where the longest run of two or more zero groups,
the first on a tie, is written as a double colon; only an address that embeds an IPv4
address behind `::ffff:` shows dots.

Reading is strict: no leading zeros in the parts of an IPv4 address, no zone names, and
nothing before or behind the address. A reader takes the octets of a text and returns
what it read with the rest, or nothing, in which case it has read nothing.
-/

namespace Querier.IpAddress

/-! ## Numbers inside addresses -/

/-- The value of a digit in a number system of up to sixteen digits. -/
def digitValue? (radix : Nat) (o : UInt8) : Option Nat :=
  let n := o.toNat
  let value :=
    if 48 ≤ n ∧ n ≤ 57 then some (n - 48)
    else if 97 ≤ n ∧ n ≤ 102 then some (n - 87)
    else if 65 ≤ n ∧ n ≤ 70 then some (n - 55)
    else none
  value.filter (· < radix)

/-- The digits at the start of a text, by value, and the rest. -/
def leadingDigits (radix : Nat) : List UInt8 → List Nat × List UInt8
  | [] => ([], [])
  | o :: rest =>
    match digitValue? radix o with
    | some d => (d :: (leadingDigits radix rest).1, (leadingDigits radix rest).2)
    | none => ([], o :: rest)

/-- Reads a number of one to `most` digits. All digits at hand belong to the number, so
one digit too many is a failure. -/
def readNumber (radix most : Nat) (text : List UInt8) : Option (Nat × List UInt8) :=
  let (ds, rest) := leadingDigits radix text
  if ds.isEmpty || ds.length > most then none
  else some (ds.foldl (fun acc d => acc * radix + d) 0, rest)

/-- Reads one given octet. -/
def readOctet (o : UInt8) : List UInt8 → Option (List UInt8)
  | [] => none
  | x :: rest => if x = o then some rest else none

/-! ## IPv4 -/

/-- Reads a part of an IPv4 address: a decimal below 256 without leading zeros. -/
def readPart (text : List UInt8) : Option (UInt8 × List UInt8) :=
  match readNumber 10 3 text with
  | none => none
  | some (n, rest) =>
    if text.length - rest.length > 1 && text.head? == some 48 then none
    else if n < 256 then some (UInt8.ofNat n, rest) else none

/-- Reads an IPv4 address. -/
def readV4 (text : List UInt8) : Option (List UInt8 × List UInt8) := do
  let (a, text) ← readPart text
  let (b, text) ← readPart (← readOctet 46 text)
  let (c, text) ← readPart (← readOctet 46 text)
  let (d, text) ← readPart (← readOctet 46 text)
  return ([a, b, c, d], text)

/-! ## IPv6 -/

/-- The two octets of an IPv6 group. -/
def groupOctets (n : Nat) : List UInt8 := [UInt8.ofNat (n / 256), UInt8.ofNat n]

/-- Skips the colon before a group unless the group is the first. -/
def readColon (first : Bool) (text : List UInt8) : Option (List UInt8) :=
  if first then some text else readOctet 58 text

/-- Reads up to `room` groups. An IPv4 address may stand for two groups where two have
room and ends the run. Returns the octets, the rest, and whether there was an IPv4
address. -/
def readGroups (first : Bool) : Nat → List UInt8 → List UInt8 × List UInt8 × Bool
  | 0, text => ([], text, false)
  | room + 1, text =>
    let embedded := if room = 0 then none else (readColon first text).bind readV4
    match embedded with
    | some (os, rest) => (os, rest, true)
    | none =>
      match (readColon first text).bind (readNumber 16 4) with
      | none => ([], text, false)
      | some (n, rest) =>
        let (os, rest, dotted) := readGroups false room rest
        (groupOctets n ++ os, rest, dotted)

/-- Reads an IPv6 address: eight groups, or fewer with one double colon that stands for
at least one group of zeros. -/
def readV6 (text : List UInt8) : Option (List UInt8 × List UInt8) :=
  let (head, rest, dotted) := readGroups true 8 text
  if head.length = 16 then some (head, rest)
  else if dotted then none
  else do
    let rest ← readOctet 58 rest
    let rest ← readOctet 58 rest
    let (tail, rest, _) := readGroups true (7 - head.length / 2) rest
    return (head ++ List.replicate (16 - head.length - tail.length) 0 ++ tail, rest)

/-! ## Whole texts -/

/-- The address of a family in the given octets, if there are as many as it needs. -/
def ofOctets? (f : Family) (os : List UInt8) : Option IpAddress :=
  if h : os.length = f.octets then some ⟨f, os, h⟩ else none

/-- Reads an address of one family at the start of a text. -/
def readFamily (f : Family) (text : List UInt8) : Option (IpAddress × List UInt8) :=
  match f with
  | .v4 => (readV4 text).bind fun (os, rest) => (ofOctets? .v4 os).map (·, rest)
  | .v6 => (readV6 text).bind fun (os, rest) => (ofOctets? .v6 os).map (·, rest)

/-- The address of one family that a text is. -/
def ofTextIn? (f : Family) (text : List UInt8) : Option IpAddress :=
  match readFamily f text with
  | some (a, []) => some a
  | _ => none

/-- The address at the start of a text, IPv4 tried first. -/
def read? (text : List UInt8) : Option (IpAddress × List UInt8) :=
  readFamily .v4 text <|> readFamily .v6 text

/-- The address that a text is. -/
def ofText? (text : List UInt8) : Option IpAddress :=
  match read? text with
  | some (a, []) => some a
  | _ => none

/-! ## Printing -/

/-- Four octets as decimals with dots. -/
def dotted (os : List UInt8) : String :=
  String.intercalate "." (os.map fun o => toString o.toNat)

/-- The groups of an IPv6 address. -/
def groups : List UInt8 → List UInt16
  | hi :: lo :: rest => Octets.uInt16 hi lo :: groups rest
  | _ => []

/-- Groups with colons between them. -/
def colonized (gs : List UInt16) : String := String.intercalate ":" (gs.map Text.hexWord)

/-- Start and length of the longest run of zero groups, the first on a tie. `pos` is the
position of the groups still to see, `run` the length of the run right before it, and
`best` the longest run so far. -/
def longestZeros (pos run : Nat) (best : Nat × Nat) : List UInt16 → Nat × Nat
  | [] => best
  | g :: rest =>
    if g = 0 then
      longestZeros (pos + 1) (run + 1)
        (if run + 1 > best.2 then (pos - run, run + 1) else best) rest
    else longestZeros (pos + 1) 0 best rest

/-- The text of an IPv6 address. -/
def textV6 (os : List UInt8) : String :=
  if os.take 12 = List.replicate 10 0 ++ [255, 255] then "::ffff:" ++ dotted (os.drop 12)
  else
    let gs := groups os
    let (start, len) := longestZeros 0 0 (0, 0) gs
    if len > 1 then colonized (gs.take start) ++ "::" ++ colonized (gs.drop (start + len))
    else colonized gs

/-- The text of an address. -/
def toText (a : IpAddress) : String :=
  match a.family with
  | .v4 => dotted a.octets
  | .v6 => textV6 a.octets

end Querier.IpAddress
