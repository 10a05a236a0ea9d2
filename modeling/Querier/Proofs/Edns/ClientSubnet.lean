import Querier.Edns.ClientSubnet
import Querier.Proofs.Address.Subnet
import Querier.Proofs.View

/-!
# Client subnets are read back

A client subnet is written with only as many address octets as its source needs, and what
is not written is zero when it is read. Nothing is lost by this, because a subnet has no
bits set behind its length.

Others may write more octets than the source needs, and set bits that it does not have. `StatedBy`
says bit by bit which client subnet is meant then.

## Main results

* `maskBits_padded`: what stands behind the significant octets does not matter.
* `ClientSubnet.read_data`: what is written is read back.
* `ClientSubnet.read_eq_ok_iff`: what is read is what the octets state.
-/

namespace Querier

/-! ## Significant octets -/

theorem maskBits_zero (os : List UInt8) : (maskBits 0 os).1 = List.replicate os.length 0 := by
  induction os with
  | nil => rfl
  | cons o rest ih =>
      rw [maskBits, List.length_cons, List.replicate_succ]
      simp only [Nat.zero_sub, ih, maskOctet_zero, show (0 : Nat) < 8 from by decide, if_true]

/-- The octets that some bits need, with zeros behind them, are as good as all octets. -/
theorem maskBits_padded (bits : Nat) (os : List UInt8) :
    (maskBits bits (os.take ((bits + 7) / 8) ++
      List.replicate (os.length - (bits + 7) / 8) 0)).1 = (maskBits bits os).1 := by
  induction os generalizing bits with
  | nil => simp
  | cons o rest ih =>
      by_cases none : bits = 0
      · subst none
        simp [maskBits_zero]
      · have more : (bits + 7) / 8 = (bits - 8 + 7) / 8 + 1 := by omega
        rw [more, List.take_succ_cons, List.length_cons, Nat.add_sub_add_right, List.cons_append,
          maskBits, maskBits, ih]

namespace Subnet

theorem significantOctets_le (s : Subnet) : s.significantOctets ≤ s.address.octets.length := by
  have hbits : s.bits ≤ s.address.family.octets * 8 := s.bits_le
  rw [s.address.length_eq, significantOctets]
  omega

theorem octets_ofLeading (s : Subnet) :
    (IpAddress.ofLeading s.family (s.address.octets.take s.significantOctets)).octets =
      s.address.octets.take s.significantOctets ++
        List.replicate (s.address.octets.length - s.significantOctets) 0 := by
  have hle := s.significantOctets_le
  have hlength : (s.address.octets.take s.significantOctets).length = s.significantOctets :=
    List.length_take_of_le hle
  rw [IpAddress.octets_ofLeading, hlength, s.address.length_eq]
  · rfl
  · rw [hlength]
    exact Nat.le_trans hle (Nat.le_of_eq s.address.length_eq)

/-- A subnet is known from its significant octets. -/
theorem of_ofLeading (s : Subnet) :
    Subnet.of (.ofLeading s.family (s.address.octets.take s.significantOctets)) s.bits = s := by
  have hbits : min s.bits s.family.bits = s.bits := Nat.min_eq_left s.bits_le
  have hmask : (IpAddress.ofLeading s.family
      (s.address.octets.take s.significantOctets)).mask s.bits = s.address := by
    have hpadded := maskBits_padded s.bits s.address.octets
    have hcanonical := congrArg IpAddress.octets s.canonical
    rw [IpAddress.octets_mask] at hcanonical
    have hoctets : ((IpAddress.ofLeading s.family
        (s.address.octets.take s.significantOctets)).mask s.bits).octets = s.address.octets := by
      rw [IpAddress.octets_mask, octets_ofLeading]
      exact hpadded.trans hcanonical
    exact IpAddress.eq_of_octets rfl hoctets
  apply eq_of_address_of_bits
  · show IpAddress.mask _ (min s.bits s.family.bits) = s.address
    rw [hbits]
    exact hmask
  · exact hbits

end Subnet

/-! ## The option -/

namespace ClientSubnet

theorem familyOf?_code (f : Family) : familyOf? f.code = some f := by
  cases f <;> decide

theorem bits_lt (f : Family) : f.bits < 256 := by
  cases f <;> decide

theorem of_scope (c : ClientSubnet) : of c.source c.scope = c := by
  have hscope : min c.scope c.source.family.bits = c.scope := Nat.min_eq_left c.scope_le
  cases c
  rw [of, ClientSubnet.mk.injEq]
  exact ⟨rfl, hscope⟩

theorem read_eq_of_fits {f : Family} {source scope : UInt8} {address : List UInt8}
    (length : address.length ≤ f.octets) (bits : source.toNat ≤ f.bits) :
    read (Octets.ofUInt16 f.code ++ source :: scope :: address) =
      .ok (of (.of (.ofLeading f address) source.toNat) scope.toNat) := by
  show read (_ :: _ :: _ :: _ :: address) = _
  rw [read, Octets.uInt16_ofUInt16, familyOf?_code]
  simp only
  rw [if_neg]
  rw [Bool.or_eq_true, decide_eq_true_eq, decide_eq_true_eq, not_or]
  exact ⟨Nat.not_lt_of_le length, Nat.not_lt_of_le bits⟩

/-- The address octets that are written. -/
def octets (c : ClientSubnet) : List UInt8 :=
  c.source.address.octets.take c.source.significantOctets

theorem data_eq (c : ClientSubnet) :
    c.data = Octets.ofUInt16 c.source.family.code ++
      UInt8.ofNat c.source.bits :: UInt8.ofNat c.scope :: c.octets :=
  List.append_assoc ..

theorem toNat_source (c : ClientSubnet) : (UInt8.ofNat c.source.bits).toNat = c.source.bits :=
  UInt8.toNat_ofNat_of_lt' (Nat.lt_of_le_of_lt c.source.bits_le (bits_lt _))

theorem toNat_scope (c : ClientSubnet) : (UInt8.ofNat c.scope).toNat = c.scope :=
  UInt8.toNat_ofNat_of_lt' (Nat.lt_of_le_of_lt c.scope_le (bits_lt _))

/-- What is written is read back. -/
theorem read_data (c : ClientSubnet) : read c.data = .ok c := by
  have hlength : c.octets.length ≤ c.source.family.octets := by
    rw [octets, List.length_take, c.source.address.length_eq]
    exact Nat.min_le_right ..
  have hbits : (UInt8.ofNat c.source.bits).toNat ≤ c.source.family.bits :=
    Nat.le_trans (Nat.le_of_eq c.toNat_source) c.source.bits_le
  rw [data_eq, read_eq_of_fits hlength hbits, toNat_source, toNat_scope, octets,
    Subnet.of_ofLeading, of_scope]

/-- The data states a client subnet: behind the family there are the length of the source, a scope,
and not more octets than an address has. The source has the bits of these octets up to its length;
of a scope beyond the family's size no more than that counts. -/
def StatedBy (c : ClientSubnet) (data : List UInt8) : Prop :=
  ∃ source scope address,
    data = Octets.ofUInt16 c.source.family.code ++ source :: scope :: address ∧
      address.length ≤ c.source.family.octets ∧ source.toNat = c.source.bits ∧
      c.scope = min scope.toNat c.source.family.bits ∧
      ∀ i, c.source.address.bit i = (decide (i < c.source.bits) && bitAt address i)

theorem familyOf?_eq_some {code : UInt16} {f : Family} (h : familyOf? code = some f) :
    f.code = code := by
  unfold familyOf? at h
  split at h
  · rename_i hcode
    cases h
    exact hcode.symm
  · split at h
    · rename_i hcode
      cases h
      exact hcode.symm
    · cases h

/-- What is read is what the octets state. -/
theorem read_eq_ok_iff {data : List UInt8} {c : ClientSubnet} :
    read data = .ok c ↔ c.StatedBy data := by
  constructor
  · intro hread
    unfold read at hread
    split at hread
    · rename_i f₁ f₂ source scope address
      split at hread
      · cases hread
      · rename_i f family
        split at hread
        · cases hread
        · rename_i fits
          cases hread
          rw [Bool.or_eq_true, decide_eq_true_eq, decide_eq_true_eq, not_or] at fits
          have length : address.length ≤ f.octets := Nat.le_of_not_lt fits.1
          have bits : min source.toNat f.bits = source.toNat :=
            Nat.min_eq_left (Nat.le_of_not_lt fits.2)
          refine ⟨source, scope, address, ?_, length, bits.symm, rfl, ?_⟩
          · show _ = Octets.ofUInt16 f.code ++ _
            rw [familyOf?_eq_some family, Octets.ofUInt16_uInt16]
            rfl
          · intro i
            show (Subnet.of _ _).address.bit i = (decide (i < min source.toNat f.bits) && _)
            rw [Subnet.bit_of, IpAddress.bit_ofLeading length, bits]
    · cases hread
  · rintro ⟨source, scope, address, rfl, length, bits, hscope, same⟩
    have fits : source.toNat ≤ c.source.family.bits := bits ▸ c.source.bits_le
    have hsource : Subnet.of (.ofLeading c.source.family address) source.toNat = c.source := by
      refine Subnet.eq_of_bit rfl ((Nat.min_eq_left fits).trans bits) ?_
      intro i
      rw [Subnet.bit_of, IpAddress.bit_ofLeading length, same, bits]
    have whole : of c.source scope.toNat = c := by
      cases c
      rw [of, ClientSubnet.mk.injEq]
      exact ⟨rfl, hscope.symm⟩
    rw [read_eq_of_fits length fits, hsource, whole]

end ClientSubnet

end Querier
