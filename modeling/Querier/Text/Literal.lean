import Querier.Text.Digits

/-!
# Octets as a literal

A run of octets between quotes with a leading `b`: printable ASCII as it is, a quote or
backslash behind a backslash, the line controls and zero by their letters, and every
other octet as two hexadecimal digits.
-/

namespace Querier.Text.Literal

/-- One octet inside the quotes. -/
def octet (o : UInt8) : String :=
  if o = 0 then "\\0"
  else if o = 9 then "\\t"
  else if o = 10 then "\\n"
  else if o = 13 then "\\r"
  else if o = 34 then "\\\""
  else if o = 92 then "\\\\"
  else if 32 ≤ o && o ≤ 126 then String.singleton (Char.ofNat o.toNat)
  else "\\x" ++ hexOctet o

/-- The literal of a run of octets. -/
def ofOctets (os : List UInt8) : String :=
  "b\"" ++ String.join (os.map octet) ++ "\""

end Querier.Text.Literal
