import Querier.DecodeError
import Querier.Name.Text

/-!
# Names on the wire

Two readers for the wire form of names. `ofWire?` takes a run of octets that must be one
name and nothing else. `read` takes a name out of a message, where two octets with the
top bits set say that the name goes on at an earlier place. Such a pointer must point to
before itself, so following pointers ends; a name that is too long is refused as soon as
a label does not fit.
-/

namespace Querier

/-! ## Label types -/

/-- What the first octets of a label say. -/
inductive LabelType where
  /-- The root label. -/
  | root
  /-- A label of `len` octets follows. -/
  | normal (len : Nat) (pos : 0 < len) (le : len ≤ 63)
  /-- The name goes on at `target`. -/
  | pointer (target : Nat)
  deriving Repr

/-- Reads the type of a label. -/
def LabelType.read (b : Octets) (pos : Nat) : Except DecodeError (LabelType × Nat) :=
  match b[pos]? with
  | none => .error .shortInput
  | some o =>
    let n := o.toNat
    if zero : n = 0 then .ok (.root, pos + 1)
    else if le : n ≤ 63 then .ok (.normal n (Nat.pos_of_ne_zero zero) le, pos + 1)
    else if n < 192 then .error .badLabelType
    else
      match b[pos + 1]? with
      | none => .error .shortInput
      | some low => .ok (.pointer ((n - 192) * 256 + low.toNat), pos + 2)

namespace Name

/-! ## Names without compression -/

/-- The name with one more label at its end: the first `len` octets of a run. -/
def pushTake (n : Name) (os : List UInt8) (len : Nat) (zero : len ≠ 0) (le : len ≤ 63)
    (fits : n.Fits len) (enough : len ≤ os.length) : Name :=
  have same : (os.take len).length = len := List.length_take_of_le enough
  n.push ⟨os.take len, by omega, by omega⟩ (by rw [same]; exact fits)

/-- Reads the labels behind the name `n` up to the end of the octets. -/
def readWire (n : Name) : List UInt8 → Except NameError Name
  | [] => .error .shortInput
  | o :: rest =>
    let len := o.toNat
    if zero : len = 0 then
      if rest.isEmpty then .ok n else .error .trailingData
    else if le : len ≤ 63 then
      if fits : n.Fits len then
        if enough : len ≤ rest.length then
          readWire (n.pushTake rest len zero le fits enough) (rest.drop len)
        else .error .shortInput
      else .error .longName
    else if len < 192 then .error .badLabel
    else .error .compressedName
termination_by os => os.length
decreasing_by
  simp only [List.length_drop, List.length_cons]
  omega

/-- The name whose wire form the octets are. -/
def ofWire? (os : List UInt8) : Except NameError Name := readWire root os

/-! ## Names in messages -/

/-- Reads the labels behind the name `n` from `pos` on, following pointers. The position
returned is the one behind the first pointer or, without one, behind the root label. -/
def readFrom (b : Octets) (n : Name) (pos : Nat) : Except DecodeError (Name × Nat) :=
  match LabelType.read b pos with
  | .error e => .error e
  | .ok (.root, next) => .ok (n, next)
  | .ok (.normal len lenPos le, next) =>
    if fits : n.Fits len then
      if enough : next + len ≤ b.size then
        have same : (b.extract next (next + len)).toList.length = len := by simp; omega
        readFrom b
          (n.push ⟨(b.extract next (next + len)).toList, by omega, by omega⟩
            (same.symm ▸ fits))
          (next + len)
      else .error .shortInput
    else .error .longName
  | .ok (.pointer target, next) =>
    if target < pos then (readFrom b n target).map fun (name, _) => (name, next)
    else .error .compressionLoop
termination_by (255 - n.wireLength, pos)
decreasing_by
  · apply Prod.Lex.left
    rw [wireLength_push]
    simp only [Fits, Label.wireLength, same] at fits ⊢
    omega
  · apply Prod.Lex.right
    assumption

/-- Reads a name of a message at `pos`. -/
def read (b : Octets) (pos : Nat) : Except DecodeError (Name × Nat) := readFrom b root pos

end Name

end Querier
