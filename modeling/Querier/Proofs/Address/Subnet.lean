import Querier.Address.Subnet

/-!
# Subnets bit by bit

Masking goes through an address octet by octet and keeps one octet in part. What a subnet means
knows nothing of octets: it is a number of leading bits. `bitAt` counts the bits of a run of octets
from the left, and `bitAt_maskBits` says once what masking does to them. All that is said of
subnets follows from it, because an address is known from its family and its bits.

## Main results

* `bitAt_maskBits`: masking keeps the leading bits and clears the others.
* `Subnet.isCut_iff`: a subnet cut to fewer bits is what truncation makes of it.
* `Subnet.IsCut.covers`: no address is lost by cutting.
-/

namespace Querier

/-! ## Bits of octets -/

/-- A bit of a run of octets, counted from the left. Behind the last octet all bits are zero. -/
def bitAt (os : List UInt8) (i : Nat) : Bool := (os[i / 8]?.getD 0).toNat.testBit (7 - i % 8)

section

variable {o : UInt8} {os : List UInt8} {i : Nat}

theorem bitAt_cons_of_lt (h : i < 8) : bitAt (o :: os) i = o.toNat.testBit (7 - i) := by
  rw [bitAt, Nat.div_eq_of_lt h, Nat.mod_eq_of_lt h]
  rfl

theorem bitAt_cons_add_eight : bitAt (o :: os) (i + 8) = bitAt os i := by
  rw [bitAt, bitAt, Nat.add_div_right i (by decide), Nat.add_mod_right, List.getElem?_cons_succ]

theorem bitAt_of_length_le (h : os.length * 8 ≤ i) : bitAt os i = false := by
  have behind : os.length ≤ i / 8 := (Nat.le_div_iff_mul_le (by decide)).mpr h
  rw [bitAt, List.getElem?_eq_none behind]
  exact Nat.zero_testBit _

theorem bitAt_append_replicate (n : Nat) : bitAt (os ++ List.replicate n 0) i = bitAt os i := by
  have same : (os ++ List.replicate n 0)[i / 8]?.getD 0 = os[i / 8]?.getD 0 := by
    rw [List.getElem?_append]
    split
    · rfl
    · rename_i behind
      rw [List.getElem?_eq_none (Nat.le_of_not_lt behind), List.getElem?_replicate]
      split <;> rfl
  rw [bitAt, bitAt, same]

/-- Octets are known from their bits. -/
theorem eq_of_bitAt {os os' : List UInt8} (length : os.length = os'.length)
    (same : ∀ i, bitAt os i = bitAt os' i) : os = os' := by
  induction os generalizing os' with
  | nil => exact (List.length_eq_zero_iff.mp length.symm).symm
  | cons o rest ih =>
      cases os' with
      | nil => cases length
      | cons o' rest' =>
          have tail : rest = rest' := by
            apply ih (Nat.succ.inj length)
            intro i
            have later := same (i + 8)
            rwa [bitAt_cons_add_eight, bitAt_cons_add_eight] at later
          have head : o = o' := by
            apply UInt8.toNat_inj.mp
            apply Nat.eq_of_testBit_eq
            intro j
            by_cases h : j < 8
            · have counted := same (7 - j)
              rwa [bitAt_cons_of_lt (by omega), bitAt_cons_of_lt (by omega),
                Nat.sub_sub_self (Nat.le_of_lt_succ h)] at counted
            · have large : 2 ^ 8 ≤ 2 ^ j := Nat.pow_le_pow_right (by decide) (Nat.le_of_not_lt h)
              rw [Nat.testBit_lt_two_pow (Nat.lt_of_lt_of_le o.toNat_lt large),
                Nat.testBit_lt_two_pow (Nat.lt_of_lt_of_le o'.toNat_lt large)]
          rw [head, tail]

theorem testBit_maskOctet (keep : Nat) (o : UInt8) (h : i < 8) :
    (maskOctet keep o).toNat.testBit (7 - i) = (decide (i < keep) && o.toNat.testBit (7 - i)) := by
  have counted : 8 - keep ≤ 7 - i ↔ i < keep := by omega
  rw [toNat_testBit_maskOctet, decide_eq_decide.mpr counted]

/-- Masking keeps the leading bits and clears the others. -/
theorem bitAt_maskBits (bits : Nat) (os : List UInt8) (i : Nat) :
    bitAt (maskBits bits os).1 i = (decide (i < bits) && bitAt os i) := by
  induction os generalizing bits i with
  | nil =>
      have none : bitAt [] i = false := bitAt_of_length_le (Nat.zero_le i)
      rw [maskBits, none, Bool.and_false]
  | cons o rest ih =>
      rw [maskBits]
      by_cases h : i < 8
      · rw [bitAt_cons_of_lt h, bitAt_cons_of_lt h]
        by_cases part : bits < 8
        · rw [if_pos part, testBit_maskOctet bits o h]
        · rw [if_neg part, decide_eq_true (by omega), Bool.true_and]
      · obtain ⟨j, rfl⟩ := Nat.exists_eq_add_of_le' (Nat.le_of_not_lt h)
        rw [bitAt_cons_add_eight, bitAt_cons_add_eight, ih,
          decide_eq_decide.mpr (Nat.lt_sub_iff_add_lt : j < bits - 8 ↔ j + 8 < bits)]

end

/-! ## Bits of addresses -/

namespace IpAddress

/-- A bit of an address, counted from the left. -/
def bit (a : IpAddress) (i : Nat) : Bool := bitAt a.octets i

theorem bit_of_bits_le {a : IpAddress} {i : Nat} (h : a.family.bits ≤ i) : a.bit i = false := by
  apply bitAt_of_length_le
  rw [a.length_eq]
  exact h

theorem bit_mask (a : IpAddress) (bits i : Nat) :
    (a.mask bits).bit i = (decide (i < bits) && a.bit i) := by
  rw [bit, octets_mask]
  exact bitAt_maskBits bits a.octets i

/-- The octets that are missing are zero. -/
theorem octets_ofLeading {f : Family} {os : List UInt8} (h : os.length ≤ f.octets) :
    (ofLeading f os).octets = os ++ List.replicate (f.octets - os.length) 0 := by
  show (os ++ List.replicate f.octets 0).take f.octets = _
  rw [List.take_append, List.take_of_length_le h, List.take_replicate,
    Nat.min_eq_left (Nat.sub_le ..)]

theorem bit_ofLeading {f : Family} {os : List UInt8} (h : os.length ≤ f.octets) (i : Nat) :
    (ofLeading f os).bit i = bitAt os i := by
  rw [bit, octets_ofLeading h]
  exact bitAt_append_replicate _

theorem eq_of_octets {a b : IpAddress} (family : a.family = b.family)
    (octets : a.octets = b.octets) : a = b := by
  cases a
  cases b
  cases family
  cases octets
  rfl

/-- An address is known from its family and its bits. -/
theorem eq_of_bit {a b : IpAddress} (family : a.family = b.family)
    (same : ∀ i, a.bit i = b.bit i) : a = b := by
  apply eq_of_octets family
  apply eq_of_bitAt _ same
  rw [a.length_eq, b.length_eq, family]

end IpAddress

/-! ## Subnets -/

namespace Subnet

theorem bit_of (a : IpAddress) (bits i : Nat) :
    (of a bits).address.bit i = (decide (i < bits) && a.bit i) := by
  show (a.mask (min bits a.family.bits)).bit i = _
  rw [IpAddress.bit_mask]
  by_cases beyond : a.family.bits ≤ i
  · rw [IpAddress.bit_of_bits_le beyond, Bool.and_false, Bool.and_false]
  · have within : i < min bits a.family.bits ↔ i < bits := by omega
    rw [decide_eq_decide.mpr within]

theorem bit_of_bits_le {s : Subnet} {i : Nat} (h : s.bits ≤ i) : s.address.bit i = false := by
  rw [← s.canonical, IpAddress.bit_mask, decide_eq_false (Nat.not_lt_of_le h), Bool.false_and]

theorem eq_of_address_of_bits {s t : Subnet} (address : s.address = t.address)
    (bits : s.bits = t.bits) : s = t := by
  cases s
  cases t
  cases address
  cases bits
  rfl

/-- A subnet is known from its family, its length and its bits. -/
theorem eq_of_bit {s t : Subnet} (family : s.family = t.family) (bits : s.bits = t.bits)
    (same : ∀ i, s.address.bit i = t.address.bit i) : s = t :=
  eq_of_address_of_bits (IpAddress.eq_of_bit family same) bits

/-- The addresses of a subnet are those of its family that begin as it does. -/
def Contains (s : Subnet) (a : IpAddress) : Prop :=
  a.family = s.family ∧ ∀ i < s.bits, a.bit i = s.address.bit i

/-- The first `n` bits of a subnet as a subnet of their own: nothing is set behind them. -/
structure IsCut (x s : Subnet) (n : Nat) : Prop where
  family : x.family = s.family
  bits : x.bits = n
  kept : ∀ i < n, x.address.bit i = s.address.bit i
  cleared : ∀ i, n ≤ i → x.address.bit i = false

variable {x y s : Subnet} {n : Nat}

theorem IsCut.unique (hx : x.IsCut s n) (hy : y.IsCut s n) : x = y := by
  refine eq_of_bit (hx.family.trans hy.family.symm) (hx.bits.trans hy.bits.symm) ?_
  intro i
  by_cases h : i < n
  · rw [hx.kept i h, hy.kept i h]
  · rw [hx.cleared i (Nat.le_of_not_lt h), hy.cleared i (Nat.le_of_not_lt h)]

theorem isCut_of (h : n ≤ s.bits) : (of s.address n).IsCut s n where
  family := rfl
  bits := Nat.min_eq_left (Nat.le_trans h s.bits_le)
  kept i hi := by rw [bit_of, decide_eq_true hi, Bool.true_and]
  cleared i hi := by rw [bit_of, decide_eq_false (Nat.not_lt_of_le hi), Bool.false_and]

theorem isCut_truncate (h : n ≤ s.bits) : (s.truncate n).IsCut s n := by
  unfold truncate
  split
  · rename_i whole
    have all : n = s.bits := Nat.le_antisymm h whole
    exact ⟨rfl, all.symm, fun _ _ => rfl, fun _ hi => bit_of_bits_le (all ▸ hi)⟩
  · exact isCut_of h

/-- A subnet cut to fewer bits is what truncation makes of it. -/
theorem isCut_iff (h : n ≤ s.bits) : x.IsCut s n ↔ s.truncate n = x := by
  constructor
  · intro cut
    exact (isCut_truncate h).unique cut
  · rintro rfl
    exact isCut_truncate h

/-- No address is lost by cutting. -/
theorem IsCut.covers (cut : x.IsCut s n) (h : n ≤ s.bits) {a : IpAddress}
    (inside : s.Contains a) : x.Contains a := by
  refine ⟨inside.1.trans cut.family.symm, ?_⟩
  intro i hi
  rw [cut.bits] at hi
  rw [cut.kept i hi]
  exact inside.2 i (Nat.lt_of_lt_of_le hi h)

end Subnet

end Querier
