/-!
# Randomness

The engine draws identifiers, numbers below a bound, and octets. A source is three tapes
and how far each of them has been used; every behaviour of a generator is some choice of
tapes.
-/

namespace Querier

/-- A source of random values. -/
structure Randomness where
  ids : Nat → UInt16
  numbers : Nat → Nat
  octets : Nat → UInt8
  /-- How many identifiers have been drawn. -/
  idsUsed : Nat := 0
  /-- The bounds that numbers were drawn for, in order. -/
  bounds : List Nat := []
  /-- How many octets have been drawn. -/
  octetsUsed : Nat := 0

namespace Randomness

/-- Draws an identifier. -/
def nextId (r : Randomness) : UInt16 × Randomness :=
  (r.ids r.idsUsed, { r with idsUsed := r.idsUsed + 1 })

/-- Draws a number below `bound`; zero if there is none. -/
def below (r : Randomness) (bound : Nat) : Nat × Randomness :=
  (min (r.numbers r.bounds.length) (bound - 1), { r with bounds := r.bounds ++ [bound] })

/-- Draws sixteen octets. -/
def nextOctets (r : Randomness) : Vector UInt8 16 × Randomness :=
  (Vector.ofFn fun i => r.octets (r.octetsUsed + i), { r with octetsUsed := r.octetsUsed + 16 })

end Randomness

end Querier
