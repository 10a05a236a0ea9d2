/-!
# JSON values

The values that a configuration is written in. A number that was written with a fraction
or an exponent is kept apart from the integers, since it never stands for one. An object
keeps all its fields, also those whose key is there twice.
-/

namespace Querier

/-- A JSON value. -/
inductive Json where
  | null
  | bool (b : Bool)
  | int (n : Int)
  | real (literal : String)
  | text (s : String)
  | list (items : List Json)
  | object (fields : List (String × Json))
  deriving Inhabited, Repr

namespace Json

/-- The values of the fields with a key. -/
def values (fields : List (String × Json)) (key : String) : List Json :=
  (fields.filter fun field => field.1 == key).map Prod.snd

/-- The natural number below `limit` that a value is. -/
def below? (limit : Nat) : Json → Option Nat
  | .int (.ofNat n) => if n < limit then some n else none
  | _ => none

/-- The truth value that a value is. -/
def bool? : Json → Option Bool
  | .bool b => some b
  | _ => none

/-- The text that a value is. -/
def text? : Json → Option String
  | .text s => some s
  | _ => none

end Json

end Querier
