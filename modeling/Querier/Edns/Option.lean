import Querier.Codes
import Querier.DecodeError

/-!
# EDNS options

An option is a code and its data. The data of an OPT record is a sequence of options,
each written as its code, the number of its octets and the octets; `encodeAll` and
`readAll` are the two directions.
-/

namespace Querier

/-- An EDNS option. -/
structure EdnsOption where
  code : OptionCode
  data : Octets
  deriving DecidableEq

namespace EdnsOption

/-- How many octets an option takes in record data. -/
def wireLength (o : EdnsOption) : Nat := 4 + o.data.size

/-- How many octets a sequence of options takes. -/
def wireLengthAll : List EdnsOption → Nat
  | [] => 0
  | o :: os => o.wireLength + wireLengthAll os

/-- An option as it stands in record data. Of the number of octets 16 bits are kept. -/
def wire (o : EdnsOption) : List UInt8 :=
  Octets.ofUInt16 o.code.code ++ Octets.ofUInt16 (UInt16.ofNat o.data.size) ++ o.data.toList

/-- A sequence of options as it stands in record data. -/
def encodeAll (os : List EdnsOption) : List UInt8 := os.flatMap wire

/-- Reads record data behind the options `before`, the last of which comes first. -/
def readOnto (before : List EdnsOption) : List UInt8 → Except DecodeError (List EdnsOption)
  | [] => .ok before.reverse
  | c₁ :: c₂ :: l₁ :: l₂ :: rest =>
    let len := (Octets.uInt16 l₁ l₂).toNat
    let data := rest.take len
    if data.length = len then
      readOnto (⟨⟨Octets.uInt16 c₁ c₂⟩, data.toArray⟩ :: before) (rest.drop len)
    else .error .shortInput
  | _ => .error .shortInput
termination_by os => os.length
decreasing_by
  rw [List.length_drop]
  simp only [List.length_cons]
  omega

/-- Reads record data as a sequence of options. -/
def readAll (os : List UInt8) : Except DecodeError (List EdnsOption) := readOnto [] os

/-- What stands before makes no difference to what follows. -/
theorem readOnto_eq (before : List EdnsOption) (os : List UInt8) :
    readOnto before os = (readAll os).map (before.reverse ++ ·) := by
  have move : ∀ before after : List EdnsOption,
      readOnto (after ++ before) os = (readOnto after os).map (before.reverse ++ ·) := by
    intro before after
    induction after, os using readOnto.induct generalizing before with
    | case1 after => simp [readOnto, Except.map]
    | case2 after c₁ c₂ l₁ l₂ rest len data fits ih =>
      rw [readOnto, readOnto, if_pos fits, if_pos fits]
      exact ih before
    | case3 after c₁ c₂ l₁ l₂ rest len data short =>
      rw [readOnto, readOnto, if_neg short, if_neg short]
      rfl
    | case4 after os empty header => simp [readOnto, Except.map]
  exact move before []

/-- The text of an option for diagnostics. -/
def describe (o : EdnsOption) : String :=
  "EdnsOption \x7b code: " ++ o.code.describe ++ ", len: " ++ toString o.data.size ++ " \x7d"

end EdnsOption

end Querier
