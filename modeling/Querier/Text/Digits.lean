/-!
# Digits in text

Numbers written with a given number of digits, and hexadecimal numbers in lower case.
-/

namespace Querier.Text

/-- The hexadecimal digit of a number below sixteen. -/
def hexDigit (n : Nat) : Char :=
  if n < 10 then Char.ofNat (48 + n) else Char.ofNat (87 + n)

/-- An octet as two hexadecimal digits. -/
def hexOctet (o : UInt8) : String :=
  String.ofList [hexDigit (o.toNat / 16), hexDigit (o.toNat % 16)]

/-- An octet as three decimal digits. -/
def threeDigits (o : UInt8) : List Char :=
  [Char.ofNat (48 + o.toNat / 100), Char.ofNat (48 + o.toNat / 10 % 10),
    Char.ofNat (48 + o.toNat % 10)]

/-- The hexadecimal digits of a 16 bit number without leading zeros. -/
def hexWord (w : UInt16) : String :=
  let n := w.toNat
  let all := [n / 4096, n / 256 % 16, n / 16 % 16, n % 16]
  let short := match all.dropWhile (· = 0) with
    | [] => [0]
    | ds => ds
  String.ofList (short.map hexDigit)

end Querier.Text
