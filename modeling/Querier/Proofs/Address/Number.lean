import Mathlib.Algebra.Group.Nat.Defs
import Querier.Proofs.Address.Subnet

/-!
# Subnets as prefixes of numbers

An address is a number of 32 or 128 bits, its first octet the highest. The subnets of it are then
a matter of division: with `n` of `w` bits kept, a subnet is what a number is a multiple of
`2 ^ (w - n)` above, and an address is in it if it has the same quotient. Masking knows nothing of
numbers and goes from octet to octet. What holds the two together is `testBit_number`: the bits of
the number are those of the octets, counted from the other end.

## Main results

* `testBit_number`, `IpAddress.toNat_mask`: masking is division and multiplication.
* `IpAddress.div_eq_div_iff`: quotients are equal exactly if the leading bits are.
* `Subnet.bit_truncate`: what truncation does to a bit, whatever the length.
* `Subnet.isPrefix`: all of this about subnets.
-/

namespace Querier

/-! ## Octets as numbers -/

namespace Octets

/-- The number that octets are, the first of them the highest. -/
def number : List UInt8 → Nat
  | [] => 0
  | o :: rest => 2 ^ (rest.length * 8) * o.toNat + number rest

theorem number_lt (os : List UInt8) : number os < 2 ^ (os.length * 8) := by
  induction os with
  | nil => decide
  | cons o rest ih =>
      have hoctet : o.toNat + 1 ≤ 2 ^ 8 := o.toNat_lt
      have hscale : 2 ^ ((o :: rest).length * 8) = 2 ^ (rest.length * 8) * 2 ^ 8 := by
        rw [List.length_cons, Nat.succ_mul, Nat.pow_add]
      have hmul : 2 ^ (rest.length * 8) * (o.toNat + 1) ≤ 2 ^ (rest.length * 8) * 2 ^ 8 :=
        Nat.mul_le_mul_left _ hoctet
      rw [Nat.mul_add, Nat.mul_one] at hmul
      rw [number, hscale]
      omega

/-- The bits of a number are those of its octets, counted from the other end. -/
theorem testBit_number {os : List UInt8} {j : Nat} (h : j < os.length * 8) :
    (number os).testBit j = bitAt os (os.length * 8 - 1 - j) := by
  induction os with
  | nil => exact absurd h (Nat.not_lt_zero j)
  | cons o rest ih =>
      rw [List.length_cons] at h ⊢
      rw [number, Nat.testBit_two_pow_mul_add _ (number_lt rest)]
      by_cases low : j < rest.length * 8
      · have later : (rest.length + 1) * 8 - 1 - j = rest.length * 8 - 1 - j + 8 := by omega
        rw [if_pos low, ih low, later, bitAt_cons_add_eight]
      · have first : (rest.length + 1) * 8 - 1 - j < 8 := by omega
        have place : 7 - ((rest.length + 1) * 8 - 1 - j) = j - rest.length * 8 := by omega
        rw [if_neg low, bitAt_cons_of_lt first, place]

end Octets

/-! ## Addresses as numbers -/

namespace IpAddress

/-- The number that an address is. -/
def toNat (a : IpAddress) : Nat := Octets.number a.octets

variable {a b : IpAddress} {n : Nat}

theorem length_octets_mul (a : IpAddress) : a.octets.length * 8 = a.family.bits := by
  rw [a.length_eq, Family.bits]

theorem toNat_lt (a : IpAddress) : a.toNat < 2 ^ a.family.bits := by
  rw [← length_octets_mul]
  exact Octets.number_lt a.octets

theorem testBit_toNat {j : Nat} (h : j < a.family.bits) :
    a.toNat.testBit j = a.bit (a.family.bits - 1 - j) := by
  rw [← length_octets_mul] at h ⊢
  exact Octets.testBit_number h

theorem testBit_toNat_of_le {j : Nat} (h : a.family.bits ≤ j) : a.toNat.testBit j = false :=
  Nat.testBit_lt_two_pow
    (Nat.lt_of_lt_of_le a.toNat_lt (Nat.pow_le_pow_right (by decide) h))

/-- To keep leading bits is to round down to a multiple of a power of two. -/
theorem toNat_mask (h : n ≤ a.family.bits) :
    (a.mask n).toNat = a.toNat / 2 ^ (a.family.bits - n) * 2 ^ (a.family.bits - n) := by
  have hfamily : (a.mask n).family.bits = a.family.bits := rfl
  apply Nat.eq_of_testBit_eq
  intro j
  rw [Nat.testBit_mul_two_pow, Nat.testBit_div_two_pow]
  by_cases within : j < a.family.bits
  · rw [testBit_toNat (hfamily ▸ within), hfamily, bit_mask]
    by_cases kept : a.family.bits - n ≤ j
    · have leading : a.family.bits - 1 - j < n := by omega
      rw [decide_eq_true kept, decide_eq_true leading, Nat.sub_add_cancel kept,
        testBit_toNat within]
    · have behind : ¬ a.family.bits - 1 - j < n := by omega
      rw [decide_eq_false kept, decide_eq_false behind, Bool.false_and, Bool.false_and]
  · have beyond : a.family.bits ≤ j - (a.family.bits - n) + (a.family.bits - n) := by omega
    rw [testBit_toNat_of_le (hfamily ▸ Nat.le_of_not_lt within), testBit_toNat_of_le beyond,
      Bool.and_false]

/-- Addresses have the same quotient exactly if they have the same leading bits. -/
theorem div_eq_div_iff (family : a.family = b.family) (h : n ≤ a.family.bits) :
    a.toNat / 2 ^ (a.family.bits - n) = b.toNat / 2 ^ (a.family.bits - n) ↔
      ∀ i < n, a.bit i = b.bit i := by
  have place {i : Nat} (hi : i < n) :
      a.family.bits - 1 - (n - 1 - i + (a.family.bits - n)) = i := by omega
  have within {i : Nat} (hi : i < n) : n - 1 - i + (a.family.bits - n) < a.family.bits := by omega
  constructor
  · intro same i hi
    have hbit := congrArg (fun x => x.testBit (n - 1 - i)) same
    simp only [Nat.testBit_div_two_pow] at hbit
    rw [testBit_toNat (within hi), testBit_toNat (family ▸ within hi), ← family, place hi] at hbit
    exact hbit
  · intro same
    apply Nat.eq_of_testBit_eq
    intro j
    rw [Nat.testBit_div_two_pow, Nat.testBit_div_two_pow]
    by_cases leading : j < n
    · have hj : j + (a.family.bits - n) < a.family.bits := by omega
      rw [testBit_toNat hj, testBit_toNat (family ▸ hj), ← family]
      exact same _ (by omega)
    · have beyond : a.family.bits ≤ j + (a.family.bits - n) := by omega
      rw [testBit_toNat_of_le beyond, testBit_toNat_of_le (family ▸ beyond)]

end IpAddress

/-! ## Subnets -/

namespace Subnet

variable {a b : IpAddress} {m n : Nat}

/-- Subnets of one family are equal exactly if they have the same length and were made of addresses
that agree in that many leading bits. -/
theorem of_eq_of_iff (family : a.family = b.family) :
    of a m = of b n ↔ (of a m).bits = (of b n).bits ∧
      ∀ i < (of a m).bits, a.bit i = b.bit i := by
  have hm : (of a m).bits = min m a.family.bits := rfl
  have hn : (of b n).bits = min n a.family.bits := by
    rw [family]
    rfl
  constructor
  · intro same
    have bits : (of a m).bits = (of b n).bits := by rw [same]
    constructor
    · exact bits
    · intro i hi
      have hbit := congrArg (fun s : Subnet => s.address.bit i) same
      simp only [bit_of] at hbit
      rw [decide_eq_true (by omega : i < m), decide_eq_true (by omega : i < n)] at hbit
      exact hbit
  · intro ⟨bits, same⟩
    have families : (of a m).family = (of b n).family := family
    apply eq_of_bit families bits
    intro i
    by_cases hi : i < (of a m).bits
    · rw [bit_of, bit_of, same i hi, decide_eq_true (by omega : i < m),
        decide_eq_true (by omega : i < n)]
    · rw [bit_of_bits_le (Nat.le_of_not_lt hi), bit_of_bits_le (bits ▸ Nat.le_of_not_lt hi)]

variable (s : Subnet)

theorem bits_truncate (n : Nat) : (s.truncate n).bits = min n s.bits := by
  have hbits : s.bits ≤ s.address.family.bits := s.bits_le
  unfold truncate
  split
  · omega
  · show min n s.address.family.bits = min n s.bits
    omega

theorem family_truncate (n : Nat) : (s.truncate n).family = s.family := by
  unfold truncate
  split <;> rfl

/-- Truncation clears the bits behind its length, if there are any. -/
theorem bit_truncate (n i : Nat) :
    (s.truncate n).address.bit i = (decide (i < n) && s.address.bit i) := by
  unfold truncate
  split
  · rename_i whole
    by_cases within : i < n
    · rw [decide_eq_true within, Bool.true_and]
    · rw [bit_of_bits_le (by omega), Bool.and_false]
  · exact bit_of s.address n i

theorem truncate_truncate (m n : Nat) : (s.truncate m).truncate n = s.truncate (min m n) := by
  have family : ((s.truncate m).truncate n).family = (s.truncate (min m n)).family := by
    rw [family_truncate, family_truncate, family_truncate]
  have bits : ((s.truncate m).truncate n).bits = (s.truncate (min m n)).bits := by
    rw [bits_truncate, bits_truncate, bits_truncate]
    omega
  apply eq_of_bit family bits
  intro i
  have both : decide (i < min m n) = (decide (i < n) && decide (i < m)) := by
    rw [← Bool.decide_and, decide_eq_decide]
    omega
  rw [bit_truncate, bit_truncate, bit_truncate, both, Bool.and_assoc]

theorem of_address : of s.address s.bits = s := by
  have hbits : min s.bits s.address.family.bits = s.bits := Nat.min_eq_left s.bits_le
  have haddress : s.address.mask (min s.bits s.address.family.bits) = s.address := by
    rw [hbits, s.canonical]
  exact eq_of_address_of_bits haddress hbits

/-- An address is in a subnet exactly if that is the subnet of its length around the address. -/
theorem contains_iff : s.Contains a ↔ a.family = s.family ∧ of a s.bits = s := by
  apply and_congr_right
  intro family
  have hlength : (of a s.bits).bits = s.bits := by
    show min s.bits a.family.bits = s.bits
    rw [family]
    exact Nat.min_eq_left s.bits_le
  have hequal := of_eq_of_iff (m := s.bits) (n := s.bits) family
  rw [of_address, hlength] at hequal
  rw [hequal, eq_self_iff_true, true_and]

/-- No address is lost by truncation. -/
theorem contains_truncate (n : Nat) (inside : s.Contains a) : (s.truncate n).Contains a := by
  constructor
  · rw [family_truncate]
    exact inside.1
  · intro i hi
    rw [bits_truncate] at hi
    rw [bit_truncate, decide_eq_true (by omega : i < n), Bool.true_and]
    exact inside.2 i (by omega)

/-- **Subnets are canonical prefixes.** The subnet of an address has the length asked for, or that
of the family if it is shorter, and its address is that number of 32 or 128 bits with all bits
behind the length cleared. So two subnets of one family are equal exactly if their lengths are and
their addresses had the same bits up to there. An address is in a subnet if it makes that subnet
with its length. Truncating twice is truncating to the lesser length, truncating to no less than the
length changes nothing, and truncating loses no address. Masking says that it changed something
exactly if it did. -/
theorem isPrefix :
    (Family.v4.bits = 32 ∧ Family.v6.bits = 128) ∧
      (∀ (a : IpAddress) (n : Nat),
        (of a n).family = a.family ∧ (of a n).bits = min n a.family.bits ∧
          (of a n).address.toNat =
            a.toNat / 2 ^ (a.family.bits - min n a.family.bits) *
              2 ^ (a.family.bits - min n a.family.bits)) ∧
      (∀ (a b : IpAddress) (m n : Nat), a.family = b.family →
        (of a m = of b n ↔ (of a m).bits = (of b n).bits ∧
          a.toNat / 2 ^ (a.family.bits - (of a m).bits) =
            b.toNat / 2 ^ (a.family.bits - (of a m).bits))) ∧
      (∀ (s : Subnet) (m n : Nat), (s.truncate m).truncate n = s.truncate (min m n)) ∧
      (∀ (s : Subnet) (n : Nat), s.bits ≤ n → s.truncate n = s) ∧
      (∀ (s : Subnet) (a : IpAddress), s.Contains a ↔ a.family = s.family ∧ of a s.bits = s) ∧
      (∀ (s : Subnet) (n : Nat) (a : IpAddress), s.Contains a → (s.truncate n).Contains a) ∧
      ∀ (n : Nat) (os : List UInt8), (applyMask n os).2 = true ↔ (applyMask n os).1 ≠ os := by
  have hnumber (a : IpAddress) (n : Nat) : (of a n).address.toNat =
      a.toNat / 2 ^ (a.family.bits - min n a.family.bits) *
        2 ^ (a.family.bits - min n a.family.bits) :=
    IpAddress.toNat_mask (Nat.min_le_right n a.family.bits)
  have hequal (a b : IpAddress) (m n : Nat) (family : a.family = b.family) :
      of a m = of b n ↔ (of a m).bits = (of b n).bits ∧
        a.toNat / 2 ^ (a.family.bits - (of a m).bits) =
          b.toNat / 2 ^ (a.family.bits - (of a m).bits) := by
    have hle : (of a m).bits ≤ a.family.bits := (of a m).bits_le
    rw [of_eq_of_iff family, IpAddress.div_eq_div_iff family hle]
  have hmodified (n : Nat) (os : List UInt8) :
      (applyMask n os).2 = true ↔ (applyMask n os).1 ≠ os := by
    rw [applyMask_eq]
    exact modified_maskBits n os
  exact ⟨by decide, fun a n => ⟨rfl, rfl, hnumber a n⟩, hequal, truncate_truncate,
    fun s n whole => if_pos whole, fun s a => contains_iff s,
    fun s n a => contains_truncate s n, hmodified⟩

/-- Two addresses that agree in 18 bits, of which the last two are in the middle of an octet. -/
theorem isPrefix_eighteen :
    of (.v4 192 168 77 5) 18 = of (.v4 192 168 64 1) 18 ∧
      (of (.v4 192 168 77 5) 18).truncate 24 = of (.v4 192 168 77 5) 18 ∧
      ((of (.v4 192 168 77 5) 18).truncate 9).Contains (.v4 192 168 100 9) := by
  have laws := isPrefix
  have equal := laws.2.2.1 (.v4 192 168 77 5) (.v4 192 168 64 1) 18 18 rfl
  have inside : (of (.v4 192 168 77 5) 18).Contains (.v4 192 168 100 9) := by
    constructor
    · rfl
    · decide
  exact ⟨equal.mpr (by decide), laws.2.2.2.2.1 _ 24 (by decide), laws.2.2.2.2.2.2.1 _ 9 _ inside⟩

end Subnet

end Querier
