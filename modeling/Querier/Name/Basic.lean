import Querier.Octets

/-!
# Domain names

A name is a list of labels below the root. A label has one to 63 octets, and a name is
at most 255 octets long on the wire, where every label stands behind an octet with its
length and a zero octet ends the name. Both bounds are part of the types, so every name
can be written.

Names are equal for DNS when they are equal up to ASCII case, which is `Name.same`;
the equality `=` of the type tells spellings apart.

## Main results

* `length_wire`: a name takes as many octets on the wire as `wireLength` says.
* `wire_lower`: lowering a name folds the case of its wire form.
-/

namespace Querier

/-! ## Labels -/

/-- A label: one to 63 octets. -/
structure Label where
  octets : List UInt8
  length_pos : 0 < octets.length
  length_le : octets.length ≤ 63
  deriving DecidableEq, Repr

namespace Label

/-- The octet with the length of a label, then the label. -/
def wire (l : Label) : List UInt8 := UInt8.ofNat l.octets.length :: l.octets

/-- How many octets a label takes on the wire. -/
def wireLength (l : Label) : Nat := l.octets.length + 1

/-- Whether two labels are equal when ASCII case is ignored. -/
def same (a b : Label) : Bool := Octets.sameFolded a.octets b.octets

/-- A label with all letters in lower case. -/
def lower (l : Label) : Label where
  octets := Octets.foldCase l.octets
  length_pos := by rw [Octets.length_foldCase]; exact l.length_pos
  length_le := by rw [Octets.length_foldCase]; exact l.length_le

@[simp] theorem length_wire (l : Label) : l.wire.length = l.wireLength := rfl

@[simp] theorem wireLength_lower (l : Label) : l.lower.wireLength = l.wireLength := by
  simp [wireLength, lower]

end Label

/-! ## Names -/

/-- How many octets a list of labels takes on the wire with the root behind it. -/
def Label.wireLengthAll : List Label → Nat
  | [] => 1
  | l :: rest => l.wireLength + wireLengthAll rest

/-- A domain name: labels below the root, at most 255 octets on the wire. -/
structure Name where
  labels : List Label
  wireLength_le : Label.wireLengthAll labels ≤ 255
  deriving DecidableEq, Repr

namespace Name

/-- The name without labels. -/
def root : Name := ⟨[], by decide⟩

/-- Whether a name has no labels. -/
def isRoot (n : Name) : Bool := n.labels.isEmpty

/-- How many octets a name takes on the wire. -/
def wireLength (n : Name) : Nat := Label.wireLengthAll n.labels

/-- The wire form of a name. -/
def wire (n : Name) : List UInt8 := n.labels.flatMap Label.wire ++ [0]

theorem wireLengthAll_append (xs ys : List Label) :
    Label.wireLengthAll (xs ++ ys) + 1 = Label.wireLengthAll xs + Label.wireLengthAll ys := by
  induction xs with
  | nil => simp [Label.wireLengthAll, Nat.add_comm]
  | cons x xs ih => simp only [List.cons_append, Label.wireLengthAll]; omega

theorem length_wire (n : Name) : n.wire.length = n.wireLength := by
  obtain ⟨labels, h⟩ := n
  simp only [wire, wireLength]
  clear h
  induction labels with
  | nil => rfl
  | cons l rest ih => simp_all [Label.wireLengthAll]

/-- Whether a label of `len` octets still fits below a name. -/
def Fits (n : Name) (len : Nat) : Prop := n.wireLength + (len + 1) ≤ 255

instance (n : Name) (len : Nat) : Decidable (n.Fits len) :=
  inferInstanceAs (Decidable (_ ≤ _))

/-- The name with one more label at its end, right before the root. -/
def push (n : Name) (l : Label) (h : n.Fits l.octets.length) : Name where
  labels := n.labels ++ [l]
  wireLength_le := by
    have := wireLengthAll_append n.labels [l]
    simp only [Fits, wireLength, Label.wireLengthAll, Label.wireLength] at *
    omega

@[simp] theorem wireLength_push (n : Name) (l : Label) (h : n.Fits l.octets.length) :
    (n.push l h).wireLength = n.wireLength + l.wireLength := by
  have := wireLengthAll_append n.labels [l]
  simp only [push, wireLength, Label.wireLengthAll] at *
  omega

/-! ## Case -/

/-- Whether two names are equal for DNS: their wire forms are equal up to ASCII case. -/
def same (a b : Name) : Bool := Octets.sameFolded a.wire b.wire

/-- What a hasher is fed for a name. Names that are `same` feed the same octets. -/
def hashFeed (n : Name) : List UInt8 := Octets.foldCase n.wire

theorem wireLengthAll_lower (ls : List Label) :
    Label.wireLengthAll (ls.map Label.lower) = Label.wireLengthAll ls := by
  induction ls with
  | nil => rfl
  | cons l rest ih => simp [Label.wireLengthAll, ih]

/-- A name with all letters in lower case. -/
def lower (n : Name) : Name where
  labels := n.labels.map Label.lower
  wireLength_le := by rw [wireLengthAll_lower]; exact n.wireLength_le

/-- Length octets are below 64, so folding never touches them. -/
theorem lowerOctet_length (l : Label) :
    Octets.lowerOctet (UInt8.ofNat l.octets.length) = UInt8.ofNat l.octets.length := by
  have := l.length_le
  unfold Octets.lowerOctet
  rw [if_neg]
  rintro ⟨h, _⟩
  have h := UInt8.le_iff_toNat_le.mp h
  simp only [UInt8.toNat_ofNat', UInt8.reduceToNat] at h
  omega

theorem wire_lower (n : Name) : n.lower.wire = Octets.foldCase n.wire := by
  have zero : Octets.lowerOctet 0 = 0 := by decide
  simp only [wire, lower, Octets.foldCase, List.map_append, List.map_cons, List.map_nil, zero,
    List.flatMap_map, List.map_flatMap]
  congr 2
  funext l
  simp [Label.wire, Label.lower, Octets.foldCase, lowerOctet_length]

end Name

end Querier
