import Querier.Text.Decimal

/-!
# Registries of numbers

A protocol parameter is a number, and a registry gives some of the numbers a mnemonic.
A `Registry` value says all there is to know about one such parameter: its name, the
assigned mnemonics, the largest number, how a number without a mnemonic is spelled, and
what is said about a text that is neither.

Reading ignores ASCII case. A registry with a mark, such as `TYPE`, takes a number only
directly behind the mark and writes it so; one without takes and writes the bare number.
-/

namespace Querier

/-- A registry of numbers with mnemonics. -/
structure Registry where
  /-- The name of the parameter. -/
  name : String
  /-- The assigned numbers with their mnemonics. -/
  assigned : List (Nat × String)
  /-- The largest number. -/
  limit : Nat
  /-- What stands before a number without a mnemonic. -/
  mark : String
  /-- What is said about a text that names nothing. -/
  unknown : String

namespace Registry

/-- The number with the mnemonic `text`. -/
def ofMnemonic? (r : Registry) (text : List UInt8) : Option Nat :=
  (r.assigned.find? fun entry => Octets.sameFolded text (Octets.ofText entry.2)).map (·.1)

/-- The mnemonic of a number. -/
def mnemonic? (r : Registry) (n : Nat) : Option String := r.assigned.lookup n

/-- The number that a text names: a mnemonic, or a number behind the mark. -/
def ofText? (r : Registry) (text : List UInt8) : Option Nat :=
  match r.ofMnemonic? text with
  | some n => some n
  | none =>
    let mark := Octets.ofText r.mark
    if Octets.sameFolded (text.take mark.length) mark then
      Text.Decimal.read? r.limit (text.drop mark.length)
    else none

/-- The text of a number. -/
def toText (r : Registry) (n : Nat) : String :=
  (r.mnemonic? n).getD (r.mark ++ toString n)

/-- The text of a number for diagnostics, which names the registry too. -/
def describe (r : Registry) (n : Nat) : String :=
  match r.mnemonic? n with
  | some m => r.name ++ "::" ++ m
  | none => r.name ++ "(" ++ toString n ++ ")"

end Registry

end Querier
