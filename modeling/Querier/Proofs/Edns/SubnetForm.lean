import Querier.Proofs.Address.Number
import Querier.Proofs.Edns.ClientSubnet

/-!
# The form of client subnets

Many option data state one client subnet: with octets left out that would be zero, with octets and
bits behind the source that do not count, or with a scope beyond the size of the family. Of all
these one is written. `Trimmed` says which, without counting octets: there are as many as the bits
of the source need and no more, and nothing is set behind the source. There is only one such run of
octets for a subnet, so data is what would be written for it exactly if its octets are trimmed and
its scope is in range.

## Main results

* `Subnet.Trimmed.unique`: trimmed octets are known from the subnet.
* `ClientSubnet.trimmed_octets`: the octets that are written are trimmed.
* `ClientSubnet.toNat_of_read`: which number the address is that is read.
* `ClientSubnet.canonical_form`: what is read, what comes of it, and what is written for it.
-/

namespace Querier

/-! ## Octets that stand for a subnet -/

theorem bitAt_take (os : List UInt8) (n i : Nat) :
    bitAt (os.take n) i = (decide (i < n * 8) && bitAt os i) := by
  by_cases h : i < n * 8
  · have hplace : i / 8 < n := by omega
    rw [decide_eq_true h, Bool.true_and, bitAt, bitAt, List.getElem?_take_of_lt hplace]
  · have hbehind : (os.take n).length * 8 ≤ i := by
      rw [List.length_take]
      omega
    rw [decide_eq_false h, Bool.false_and, bitAt_of_length_le hbehind]

/-- Address octets for a subnet: as many as its bits need and no more, with these bits and nothing
behind them. -/
structure Subnet.Trimmed (s : Subnet) (os : List UInt8) : Prop where
  enough : s.bits ≤ os.length * 8
  tight : os.length * 8 < s.bits + 8
  kept : ∀ i < s.bits, bitAt os i = s.address.bit i
  cleared : ∀ i, s.bits ≤ i → bitAt os i = false

theorem Subnet.Trimmed.unique {s : Subnet} {os os' : List UInt8} (h : s.Trimmed os)
    (h' : s.Trimmed os') : os = os' := by
  have hlength : os.length = os'.length := by
    have := h.enough
    have := h.tight
    have := h'.enough
    have := h'.tight
    omega
  apply eq_of_bitAt hlength
  intro i
  by_cases hi : i < s.bits
  · rw [h.kept i hi, h'.kept i hi]
  · rw [h.cleared i (Nat.le_of_not_lt hi), h'.cleared i (Nat.le_of_not_lt hi)]

namespace ClientSubnet

theorem trimmed_octets (c : ClientSubnet) : c.source.Trimmed c.octets := by
  have hlength : c.octets.length = (c.source.bits + 7) / 8 := by
    rw [octets, List.length_take, Nat.min_eq_left c.source.significantOctets_le]
    rfl
  have hbit (i : Nat) : bitAt c.octets i =
      (decide (i < c.source.significantOctets * 8) && c.source.address.bit i) :=
    bitAt_take c.source.address.octets c.source.significantOctets i
  have hneeded : c.source.bits ≤ c.source.significantOctets * 8 := by
    rw [Subnet.significantOctets]
    omega
  constructor
  · omega
  · omega
  · intro i hi
    rw [hbit, decide_eq_true (by omega), Bool.true_and]
  · intro i hi
    rw [hbit, Subnet.bit_of_bits_le hi, Bool.and_false]

/-! ## What is read -/

section

variable {f₁ f₂ source scope : UInt8} {address : List UInt8} {c : ClientSubnet}

theorem ofUInt16_code_iff {f : Family} :
    [f₁, f₂] = Octets.ofUInt16 f.code ↔ f₁.toNat * 256 + f₂.toNat = f.code.toNat := by
  rw [← Octets.toNat_uInt16, UInt16.toNat_inj]
  constructor
  · intro h
    rw [Octets.ofUInt16, List.cons.injEq, List.cons.injEq] at h
    rw [h.1, h.2.1, Octets.uInt16_ofUInt16]
  · intro h
    rw [← h, Octets.ofUInt16_uInt16]

/-- Data with its parts told apart is read exactly if its numbers and lengths are those of what is
read. -/
theorem read_cons_eq_ok_iff :
    read (f₁ :: f₂ :: source :: scope :: address) = .ok c ↔
      f₁.toNat * 256 + f₂.toNat = c.source.family.code.toNat ∧
        address.length ≤ c.source.family.octets ∧ source.toNat = c.source.bits ∧
        c.scope = min scope.toNat c.source.family.bits ∧
        ∀ i, c.source.address.bit i = (decide (i < c.source.bits) && bitAt address i) := by
  rw [read_eq_ok_iff, ← ofUInt16_code_iff]
  constructor
  · rintro ⟨source', scope', address', hdata, hrest⟩
    have hparts : f₁ :: f₂ :: source :: scope :: address =
        Octets.ofUInt16 c.source.family.code ++ (source' :: scope' :: address') := hdata
    have hfront : [f₁, f₂] = Octets.ofUInt16 c.source.family.code :=
      congrArg (List.take 2) hparts
    have hback : source :: scope :: address = source' :: scope' :: address' :=
      congrArg (List.drop 2) hparts
    cases hback
    exact ⟨hfront, hrest⟩
  · rintro ⟨hfront, hrest⟩
    refine ⟨source, scope, address, ?_, hrest⟩
    rw [← hfront]
    rfl

/-- The address is the number of the given octets, with zeros behind them, up to the length of the
source. -/
theorem toNat_of_read (h : read (f₁ :: f₂ :: source :: scope :: address) = .ok c) :
    c.source.address.toNat =
      Octets.number (address ++ List.replicate (c.source.family.octets - address.length) 0) /
          2 ^ (c.source.family.bits - c.source.bits) *
        2 ^ (c.source.family.bits - c.source.bits) := by
  rcases read_cons_eq_ok_iff.mp h with ⟨-, hlength, -, -, hbit⟩
  let whole : IpAddress := .ofLeading c.source.family address
  have hwhole : whole.octets =
      address ++ List.replicate (c.source.family.octets - address.length) 0 :=
    IpAddress.octets_ofLeading hlength
  have haddress : c.source.address = whole.mask c.source.bits := by
    have hfamily : c.source.address.family = (whole.mask c.source.bits).family := rfl
    apply IpAddress.eq_of_bit hfamily
    intro i
    rw [hbit, IpAddress.bit_mask, IpAddress.bit_ofLeading hlength]
  have hle : c.source.bits ≤ whole.family.bits := c.source.bits_le
  rw [← hwhole, haddress]
  exact IpAddress.toNat_mask hle

/-- Data is what is written for it exactly if its scope is in range and its octets are trimmed. -/
theorem data_eq_iff (h : read (f₁ :: f₂ :: source :: scope :: address) = .ok c) :
    c.data = f₁ :: f₂ :: source :: scope :: address ↔
      scope.toNat ≤ c.source.family.bits ∧ c.source.Trimmed address := by
  rcases read_cons_eq_ok_iff.mp h with ⟨hcode, -, hsource, hscope, -⟩
  rw [data_eq, ← ofUInt16_code_iff.mpr hcode]
  constructor
  · intro hdata
    have hback : UInt8.ofNat c.source.bits :: UInt8.ofNat c.scope :: c.octets =
        source :: scope :: address := congrArg (List.drop 2) hdata
    rw [List.cons.injEq, List.cons.injEq] at hback
    constructor
    · rw [← hback.2.1, toNat_scope]
      exact c.scope_le
    · rw [← hback.2.2]
      exact c.trimmed_octets
  · intro ⟨hrange, htrimmed⟩
    have hsame : c.scope = scope.toNat := by omega
    rw [← hsource, hsame, UInt8.ofNat_toNat, UInt8.ofNat_toNat, c.trimmed_octets.unique htrimmed]
    rfl

end

/-- Some client subnet is read from data exactly if it has the four octets before the address, they
give a family and a length that it has room for, and there are not more octets than an address of it
has. -/
theorem exists_read_iff (d : List UInt8) :
    (∃ c, read d = .ok c) ↔ ∃ f₁ f₂ source scope address,
      d = f₁ :: f₂ :: source :: scope :: address ∧
        ((f₁.toNat * 256 + f₂.toNat = 1 ∧ source.toNat ≤ 32 ∧ address.length ≤ 4) ∨
          (f₁.toNat * 256 + f₂.toNat = 2 ∧ source.toNat ≤ 128 ∧ address.length ≤ 16)) := by
  constructor
  · rintro ⟨c, hread⟩
    rcases read_eq_ok_iff.mp hread with ⟨source, scope, address, rfl, -⟩
    rcases read_cons_eq_ok_iff.mp hread with ⟨hcode, hlength, hsource, -⟩
    have hbits : source.toNat ≤ c.source.family.bits := hsource ▸ c.source.bits_le
    refine ⟨_, _, source, scope, address, rfl, ?_⟩
    cases hfamily : c.source.family with
    | v4 =>
        rw [hfamily] at hcode hlength hbits
        exact .inl ⟨hcode, hbits, hlength⟩
    | v6 =>
        rw [hfamily] at hcode hlength hbits
        exact .inr ⟨hcode, hbits, hlength⟩
  · rintro ⟨f₁, f₂, source, scope, address, rfl, h⟩
    have hread {f : Family} (hcode : f₁.toNat * 256 + f₂.toNat = f.code.toNat)
        (hbits : source.toNat ≤ f.bits) (hlength : address.length ≤ f.octets) :
        ∃ c, read (f₁ :: f₂ :: source :: scope :: address) = .ok c := by
      have hfits : read (Octets.ofUInt16 f.code ++ source :: scope :: address) = _ :=
        read_eq_of_fits hlength hbits
      rw [← ofUInt16_code_iff.mpr hcode] at hfits
      exact ⟨_, hfits⟩
    rcases h with ⟨hcode, hbits, hlength⟩ | ⟨hcode, hbits, hlength⟩
    · exact hread (f := .v4) hcode hbits hlength
    · exact hread (f := .v6) hcode hbits hlength

/-- **Each client subnet has one form.** What is written for a client subnet is read back, and it
has trimmed octets. Octets are read as a client subnet exactly if they are four or more, give IPv4
or IPv6 and a source length of at most 32 or 128, and go on with at most 4 or 16 octets of an
address. The source then has the length given, the scope is cut to the size of the family, and the
address is that of the given octets with zeros behind them, cleared behind the length. Only if the
scope was in range and the octets were trimmed is the same written again; from then on writing,
reading and writing changes nothing. -/
theorem canonical_form :
    (∀ c : ClientSubnet, read c.data = .ok c) ∧
      (∀ d, (∃ c, read d = .ok c) ↔ ∃ f₁ f₂ source scope address,
        d = f₁ :: f₂ :: source :: scope :: address ∧
          ((f₁.toNat * 256 + f₂.toNat = 1 ∧ source.toNat ≤ 32 ∧ address.length ≤ 4) ∨
            (f₁.toNat * 256 + f₂.toNat = 2 ∧ source.toNat ≤ 128 ∧ address.length ≤ 16))) ∧
      (∀ f₁ f₂ source scope address c,
        read (f₁ :: f₂ :: source :: scope :: address) = .ok c →
          f₁.toNat * 256 + f₂.toNat = c.source.family.code.toNat ∧
            c.source.bits = source.toNat ∧ c.scope = min scope.toNat c.source.family.bits ∧
            c.source.address.toNat =
              Octets.number
                  (address ++ List.replicate (c.source.family.octets - address.length) 0) /
                  2 ^ (c.source.family.bits - c.source.bits) *
                2 ^ (c.source.family.bits - c.source.bits) ∧
            (c.data = f₁ :: f₂ :: source :: scope :: address ↔
              scope.toNat ≤ c.source.family.bits ∧ c.source.Trimmed address)) ∧
      (∀ c : ClientSubnet, ∃ address, c.source.Trimmed address ∧
        c.data = Octets.ofUInt16 c.source.family.code ++
          UInt8.ofNat c.source.bits :: UInt8.ofNat c.scope :: address) ∧
      ∀ c : ClientSubnet, (read c.data).map data = .ok c.data := by
  refine ⟨read_data, exists_read_iff, ?_, fun c => ⟨c.octets, c.trimmed_octets, c.data_eq⟩, ?_⟩
  · intro f₁ f₂ source scope address c hread
    rcases read_cons_eq_ok_iff.mp hread with ⟨hcode, -, hsource, hscope, -⟩
    exact ⟨hcode, hsource.symm, hscope, toNat_of_read hread, data_eq_iff hread⟩
  · intro c
    rw [read_data]
    rfl

/-- Two octets more than nine bits need, bits behind these, and a scope beyond the family: what is
read is written in a form of its own. -/
theorem canonical_form_nine :
    ∃ c, read [0, 1, 9, 200, 10, 255, 7, 1] = .ok c ∧ c.source.bits = 9 ∧ c.scope = 32 ∧
      c.source.address = .v4 10 128 0 0 ∧ c.data = [0, 1, 9, 32, 10, 128] ∧
      c.data ≠ [0, 1, 9, 200, 10, 255, 7, 1] := by
  let c : ClientSubnet := of (.of (.v4 10 255 7 1) 9) 200
  have hread : read [0, 1, 9, 200, 10, 255, 7, 1] = .ok c := rfl
  rcases canonical_form.2.2.1 _ _ _ _ _ c hread with ⟨-, hbits, hscope, -, hsame⟩
  refine ⟨c, hread, hbits, hscope, by decide, by decide, ?_⟩
  intro hdata
  have hrange : (200 : UInt8).toNat ≤ c.source.family.bits := (hsame.mp hdata).1
  exact absurd hrange (by decide)

end ClientSubnet

end Querier
