import Querier.Octets

/-!
# IP addresses

An address is its family together with the octets of that family: four for IPv4,
sixteen for IPv6. Keeping the octets as one list lets masking, reading and writing be
said once for both families.

Masking goes where the kept bits end: the octets before that place are not looked at, the one
octet that is kept in part is changed only if one of its last bits is set, and the octets behind
it are cleared. `maskBits` is the same by recursion on the octets, and `applyMask_eq` the proof
of it, so that the proofs about masks need not follow the three parts.

## Main results

* `applyMask_eq`: both ways of masking give the same octets and the same flag.
* `maskBits_maskBits`: masking twice with one length is masking once.
* `modified_maskBits`: the flag of `maskBits` says exactly whether an octet changed.
-/

namespace Querier

/-- The two families of IP addresses. -/
inductive Family where
  | v4
  | v6
  deriving DecidableEq, Repr

namespace Family

/-- How many octets an address of the family has. -/
def octets : Family → Nat
  | .v4 => 4
  | .v6 => 16

/-- How many bits an address of the family has. -/
def bits (f : Family) : Nat := f.octets * 8

/-- The number of the family in telemetry and in EDNS options. -/
def code : Family → UInt16
  | .v4 => 1
  | .v6 => 2

end Family

/-! ## Masking -/

/-- Keeps the left-most `keep` bits of an octet and clears the others. -/
def maskOctet (keep : Nat) (o : UInt8) : UInt8 :=
  UInt8.ofNat (o.toNat >>> (8 - keep) <<< (8 - keep))

/-- Keeps the left-most `bits` bits of a run of octets, clears the others, and says
whether that changed an octet. -/
def maskBits (bits : Nat) : List UInt8 → List UInt8 × Bool
  | [] => ([], false)
  | o :: rest =>
    let masked := if bits < 8 then maskOctet bits o else o
    let tail := maskBits (bits - 8) rest
    (masked :: tail.1, masked != o || tail.2)

@[simp] theorem length_maskBits (bits : Nat) (os : List UInt8) :
    (maskBits bits os).1.length = os.length := by
  induction os generalizing bits with
  | nil => rfl
  | cons o rest ih => simp [maskBits, ih]

theorem toNat_maskOctet (keep : Nat) (o : UInt8) :
    (maskOctet keep o).toNat = o.toNat >>> (8 - keep) <<< (8 - keep) := by
  have h : o.toNat >>> (8 - keep) <<< (8 - keep) ≤ o.toNat := by
    rw [Nat.shiftLeft_eq, Nat.shiftRight_eq_div_pow]
    exact Nat.div_mul_le_self _ _
  rw [maskOctet, UInt8.toNat_ofNat', Nat.mod_eq_of_lt (Nat.lt_of_le_of_lt h o.toNat_lt)]

theorem maskOctet_maskOctet (keep : Nat) (o : UInt8) :
    maskOctet keep (maskOctet keep o) = maskOctet keep o := by
  apply UInt8.toNat_inj.mp
  rw [toNat_maskOctet, toNat_maskOctet, Nat.shiftLeft_shiftRight]

theorem maskBits_maskBits (bits : Nat) (os : List UInt8) :
    (maskBits bits (maskBits bits os).1).1 = (maskBits bits os).1 := by
  induction os generalizing bits with
  | nil => rfl
  | cons o rest ih =>
    simp only [maskBits, ih]
    split <;> simp [maskOctet_maskOctet]

theorem modified_maskBits (bits : Nat) (os : List UInt8) :
    (maskBits bits os).2 = true ↔ (maskBits bits os).1 ≠ os := by
  induction os generalizing bits with
  | nil => simp [maskBits]
  | cons o rest ih =>
    simp only [maskBits, Bool.or_eq_true, bne_iff_ne, ne_eq, ih, List.cons.injEq]
    exact (Classical.not_and_iff_not_or_not).symm

theorem maskOctet_zero (o : UInt8) : maskOctet 0 o = 0 := by
  apply UInt8.toNat_inj.mp
  rw [toNat_maskOctet, Nat.shiftRight_eq_div_pow, Nat.div_eq_of_lt o.toNat_lt, Nat.zero_shiftLeft]
  rfl

/-! ## Masking where the kept bits end -/

/-- How many of the last bits of an octet are clear, up to the first that is set. -/
def trailingZeros (o : UInt8) : Nat := o.toBitVec.ctz.toNat

/-- Clears all but the left-most `keep` bits of an octet if one of the others is set, and says
whether one was. -/
def maskPart (keep : Nat) (o : UInt8) : UInt8 × Bool :=
  if trailingZeros o < 8 - keep then (o &&& (255 <<< UInt8.ofNat (8 - keep)), true)
  else (o, false)

/-- Clears octets and says whether one of them was not clear. -/
def clearAll : List UInt8 → List UInt8 × Bool
  | [] => ([], false)
  | o :: rest =>
    let tail := clearAll rest
    (0 :: tail.1, o != 0 || tail.2)

/-- Keeps the left-most `bits` bits of a run of octets, clears the others, and says whether
that changed an octet. Nothing is done where the bits reach to the end. -/
def applyMask (bits : Nat) (os : List UInt8) : List UInt8 × Bool :=
  let front := os.take (bits / 8)
  match os.drop (bits / 8) with
  | [] => (os, false)
  | o :: rest =>
    if bits % 8 = 0 then
      let cleared := clearAll (o :: rest)
      (front ++ cleared.1, cleared.2)
    else
      let part := maskPart (bits % 8) o
      let cleared := clearAll rest
      (front ++ part.1 :: cleared.1, part.2 || cleared.2)

theorem toNat_testBit_of_lt_trailingZeros {o : UInt8} {i : Nat} (h : i < trailingZeros o) :
    o.toNat.testBit i = false :=
  BitVec.getLsbD_false_of_lt_ctz h

theorem toNat_testBit_trailingZeros {o : UInt8} (h : trailingZeros o < 8) :
    o.toNat.testBit (trailingZeros o) = true := by
  apply BitVec.getLsbD_true_ctz_of_ne_zero
  intro zero
  have none : trailingZeros o = 8 := by
    rw [trailingZeros, zero]
    decide
  omega

theorem toNat_testBit_maskOctet (keep : Nat) (o : UInt8) (i : Nat) :
    (maskOctet keep o).toNat.testBit i = (decide (8 - keep ≤ i) && o.toNat.testBit i) := by
  rw [toNat_maskOctet, Nat.testBit_shiftLeft, Nat.testBit_shiftRight]
  by_cases kept : 8 - keep ≤ i
  · rw [decide_eq_true kept, Nat.add_sub_of_le kept]
  · rw [decide_eq_false kept, Bool.false_and, Bool.false_and]

/-- The bits above the mask are kept by the conjunction. -/
theorem and_mask_eq {keep : Nat} (h : 0 < keep) (o : UInt8) :
    o &&& (255 <<< UInt8.ofNat (8 - keep)) = maskOctet keep o := by
  have shift : (UInt8.ofNat (8 - keep)).toNat % 8 = 8 - keep := by
    rw [UInt8.toNat_ofNat']
    omega
  apply UInt8.toNat_inj.mp
  apply Nat.eq_of_testBit_eq
  intro i
  rw [toNat_testBit_maskOctet, UInt8.toNat_and, UInt8.toNat_shiftLeft, shift, Nat.testBit_and,
    Nat.testBit_mod_two_pow, Nat.testBit_shiftLeft, Bool.and_comm]
  by_cases within : i < 8
  · have ones : (255 : UInt8).toNat.testBit (i - (8 - keep)) = true := by
      show (2 ^ 8 - 1).testBit (i - (8 - keep)) = true
      rw [Nat.testBit_two_pow_sub_one]
      exact decide_eq_true (by omega)
    rw [decide_eq_true within, ones, Bool.true_and, Bool.and_true]
  · have above : o.toNat < 2 ^ i :=
      Nat.lt_of_lt_of_le o.toNat_lt (Nat.pow_le_pow_right (by decide) (Nat.le_of_not_lt within))
    rw [Nat.testBit_lt_two_pow above, Bool.and_false, Bool.and_false]

/-- An octet changes exactly if its last bit that is set is not kept. -/
theorem maskPart_eq {keep : Nat} (h : 0 < keep) (o : UInt8) :
    maskPart keep o = (maskOctet keep o, maskOctet keep o != o) := by
  rw [maskPart]
  by_cases cut : trailingZeros o < 8 - keep
  · have changed : maskOctet keep o ≠ o := by
      intro same
      have lost := toNat_testBit_maskOctet keep o (trailingZeros o)
      rw [same, toNat_testBit_trailingZeros (by omega), decide_eq_false (by omega)] at lost
      cases lost
    rw [if_pos cut, and_mask_eq h, bne_iff_ne.mpr changed]
  · have same : maskOctet keep o = o := by
      apply UInt8.toNat_inj.mp
      apply Nat.eq_of_testBit_eq
      intro i
      rw [toNat_testBit_maskOctet]
      by_cases kept : 8 - keep ≤ i
      · rw [decide_eq_true kept, Bool.true_and]
      · rw [toNat_testBit_of_lt_trailingZeros (by omega), Bool.and_false]
    rw [if_neg cut, same, bne_self_eq_false]

theorem clearAll_eq (os : List UInt8) : clearAll os = maskBits 0 os := by
  induction os with
  | nil => rfl
  | cons o rest ih =>
    have flag : ((0 : UInt8) != o) = (o != 0) := bne_comm
    simp only [clearAll, maskBits, ih, maskOctet_zero, flag, Nat.zero_sub, Nat.zero_lt_succ,
      if_true]

theorem applyMask_cons_of_le {bits : Nat} (h : 8 ≤ bits) (o : UInt8) (rest : List UInt8) :
    applyMask bits (o :: rest) =
      (o :: (applyMask (bits - 8) rest).1, (applyMask (bits - 8) rest).2) := by
  have whole : bits / 8 = (bits - 8) / 8 + 1 := by omega
  have part : bits % 8 = (bits - 8) % 8 := by omega
  rw [applyMask, applyMask, whole, part, List.drop_succ_cons, List.take_succ_cons]
  cases rest.drop ((bits - 8) / 8) with
  | nil => rfl
  | cons o' rest' =>
    simp only
    split <;> rfl

/-- Masking where the kept bits end is masking each octet. -/
theorem applyMask_eq (bits : Nat) (os : List UInt8) : applyMask bits os = maskBits bits os := by
  induction os generalizing bits with
  | nil => simp [applyMask, maskBits]
  | cons o rest ih =>
    by_cases whole : 8 ≤ bits
    · rw [applyMask_cons_of_le whole, ih, maskBits]
      simp only [if_neg (Nat.not_lt_of_le whole), bne_self_eq_false, Bool.false_or]
    · have front : bits / 8 = 0 := by omega
      have part : bits % 8 = bits := by omega
      have behind : bits - 8 = 0 := by omega
      rw [applyMask, front, part, List.drop_zero, List.take_zero]
      simp only [List.nil_append]
      by_cases none : bits = 0
      · rw [if_pos none, clearAll_eq, none]
      · rw [if_neg none, maskPart_eq (by omega), clearAll_eq, maskBits, behind]
        simp only [if_pos (Nat.lt_of_not_le whole)]

/-! ## Addresses -/

/-- An IPv4 or IPv6 address. -/
structure IpAddress where
  family : Family
  octets : List UInt8
  length_eq : octets.length = family.octets
  deriving DecidableEq, Repr

namespace IpAddress

/-- The IPv4 address of four octets. -/
def v4 (a b c d : UInt8) : IpAddress := ⟨.v4, [a, b, c, d], rfl⟩

/-- The address that stands for any address of the family. -/
def unspecified (f : Family) : IpAddress :=
  ⟨f, List.replicate f.octets 0, List.length_replicate⟩

/-- The address with all but its left-most `bits` bits cleared. -/
def mask (a : IpAddress) (bits : Nat) : IpAddress :=
  ⟨a.family, (applyMask bits a.octets).1, by rw [applyMask_eq, length_maskBits, a.length_eq]⟩

theorem octets_mask (a : IpAddress) (bits : Nat) :
    (a.mask bits).octets = (maskBits bits a.octets).1 := by
  show (applyMask bits a.octets).1 = _
  rw [applyMask_eq]

theorem mask_mask (a : IpAddress) (bits : Nat) : (a.mask bits).mask bits = a.mask bits := by
  simp only [mask, applyMask_eq, maskBits_maskBits]

/-- The address of a family whose first octets are given; missing octets are zero and
octets too many are left out. -/
def ofLeading (f : Family) (os : List UInt8) : IpAddress :=
  ⟨f, (os ++ List.replicate f.octets 0).take f.octets, by simp⟩

end IpAddress

end Querier
