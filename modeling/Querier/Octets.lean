/-!
# Octets

A message on the wire is an array of octets. This module holds what the rest of the
library does with them: numbers of two and four octets with the high octet first,
reading at a position, and ASCII case folding.

Reading never looks past the end. Every reader takes the whole buffer and a position
and returns what it read together with the position behind it.

## Main results

* `uInt16_ofUInt16`, `uInt32_ofUInt32`: a number is read back as it was written.
* `foldCase_foldCase`: folding case twice is folding it once.
-/

namespace Querier

/-- A run of octets. -/
abbrev Octets := Array UInt8

namespace Octets

/-! ## Numbers, high octet first -/

/-- The two octets of a 16 bit number. -/
def ofUInt16 (v : UInt16) : List UInt8 :=
  [UInt8.ofNat (v.toNat / 256), UInt8.ofNat v.toNat]

/-- The four octets of a 32 bit number. -/
def ofUInt32 (v : UInt32) : List UInt8 :=
  [UInt8.ofNat (v.toNat / 16777216), UInt8.ofNat (v.toNat / 65536),
    UInt8.ofNat (v.toNat / 256), UInt8.ofNat v.toNat]

/-- The six octets of the lower 48 bits of a 64 bit number. -/
def ofLow48 (v : UInt64) : List UInt8 :=
  [UInt8.ofNat (v.toNat / 1099511627776), UInt8.ofNat (v.toNat / 4294967296),
    UInt8.ofNat (v.toNat / 16777216), UInt8.ofNat (v.toNat / 65536),
    UInt8.ofNat (v.toNat / 256), UInt8.ofNat v.toNat]

/-- The 16 bit number of two octets. -/
def uInt16 (hi lo : UInt8) : UInt16 :=
  UInt16.ofNat (hi.toNat * 256 + lo.toNat)

/-- The 32 bit number of four octets. -/
def uInt32 (a b c d : UInt8) : UInt32 :=
  UInt32.ofNat (((a.toNat * 256 + b.toNat) * 256 + c.toNat) * 256 + d.toNat)

theorem toNat_uInt16 (hi lo : UInt8) : (uInt16 hi lo).toNat = hi.toNat * 256 + lo.toNat := by
  have := hi.toNat_lt
  have := lo.toNat_lt
  simp only [uInt16, UInt16.toNat_ofNat']
  omega

theorem uInt16_ofUInt16 (v : UInt16) :
    uInt16 (UInt8.ofNat (v.toNat / 256)) (UInt8.ofNat v.toNat) = v := by
  apply UInt16.toNat_inj.mp
  have := v.toNat_lt
  simp only [toNat_uInt16, UInt8.toNat_ofNat']
  omega

theorem toNat_uInt32 (a b c d : UInt8) :
    (uInt32 a b c d).toNat
      = ((a.toNat * 256 + b.toNat) * 256 + c.toNat) * 256 + d.toNat := by
  have := a.toNat_lt
  have := b.toNat_lt
  have := c.toNat_lt
  have := d.toNat_lt
  simp only [uInt32, UInt32.toNat_ofNat']
  omega

theorem uInt32_ofUInt32 (v : UInt32) :
    uInt32 (UInt8.ofNat (v.toNat / 16777216)) (UInt8.ofNat (v.toNat / 65536))
      (UInt8.ofNat (v.toNat / 256)) (UInt8.ofNat v.toNat) = v := by
  apply UInt32.toNat_inj.mp
  have := v.toNat_lt
  simp only [toNat_uInt32, UInt8.toNat_ofNat']
  omega

/-! ## Case folding -/

/-- An upper case ASCII letter becomes its lower case letter, all else stays. -/
def lowerOctet (o : UInt8) : UInt8 :=
  if 65 ≤ o ∧ o ≤ 90 then o + 32 else o

/-- Folds the case of every octet. -/
def foldCase (os : List UInt8) : List UInt8 := os.map lowerOctet

/-- Whether two runs are equal when ASCII case is ignored. -/
def sameFolded (xs ys : List UInt8) : Bool := foldCase xs == foldCase ys

theorem lowerOctet_lowerOctet (o : UInt8) : lowerOctet (lowerOctet o) = lowerOctet o := by
  unfold lowerOctet
  split
  · rename_i h
    rw [if_neg]
    rintro ⟨_, h2⟩
    have h1 := UInt8.le_iff_toNat_le.mp h.1
    have h3 := UInt8.le_iff_toNat_le.mp h.2
    have h4 := UInt8.le_iff_toNat_le.mp h2
    simp only [UInt8.toNat_add, UInt8.reduceToNat] at h1 h3 h4
    omega
  · rfl

theorem foldCase_foldCase (os : List UInt8) : foldCase (foldCase os) = foldCase os := by
  simp [foldCase, Function.comp_def, lowerOctet_lowerOctet]

@[simp] theorem length_foldCase (os : List UInt8) : (foldCase os).length = os.length := by
  simp [foldCase]

/-- Whether an octet is an ASCII digit. -/
def isDigit (o : UInt8) : Bool := 48 ≤ o && o ≤ 57

/-- The octets of the UTF-8 form of a text. -/
def ofText (s : String) : List UInt8 := s.toUTF8.toList

end Octets

end Querier
