import Querier.Octets

/-!
# Unsigned decimals

The text of an unsigned number of a limited range: an optional plus sign, then one or
more ASCII digits. Leading zeros are allowed, and a value above the limit is refused.
-/

namespace Querier.Text.Decimal

/-- The value of a run of digits read after the value `acc`, unless some octet is no digit
or the value leaves the range. -/
def digits (limit acc : Nat) : List UInt8 → Option Nat
  | [] => some acc
  | o :: rest =>
    if Octets.isDigit o then
      let value := acc * 10 + (o.toNat - 48)
      if value ≤ limit then digits limit value rest else none
    else none

/-- The digits behind an optional plus sign. -/
def unsigned : List UInt8 → List UInt8
  | 43 :: rest => rest
  | text => text

/-- Reads an unsigned decimal of at most `limit`. -/
def read? (limit : Nat) (text : List UInt8) : Option Nat :=
  match unsigned text with
  | [] => none
  | o :: rest => digits limit 0 (o :: rest)

end Querier.Text.Decimal
