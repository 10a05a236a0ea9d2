import Mathlib.Order.Bounds.Defs
import Querier.Proofs.Dispatch.Query
import Querier.Proofs.Stream

/-!
# How large a query is

An onlooker on an encrypted connection sees how large a query is. Padding leaves nothing of
that but the number of blocks, as long as the buffer size never cuts it short: the largest
query there is fills three blocks at most, and the least buffer has room for four.

## Main results

* `Padding.isLeast_of_room`: padding that has room for a block fills up the last one.
* `Config.size_buildQuery`: the size of a query is the size that was predicted for it.
* `Config.size_buildQuery_blocks`: how large queries are, with padding and without.
-/

namespace Querier

/-! ## Blocks -/

/-- Where there is room for a block there is padding, and with the four octets of its option
it ends at the first end of a block that leaves room for that. -/
theorem Padding.isLeast_of_room {current limit : Nat} (room : current + 4 + block ≤ limit) :
    ∃ len, length? current limit = some len ∧
      IsLeast {size | block ∣ size ∧ current + 4 ≤ size} (current + 4 + len) := by
  have room : current + 4 + 128 ≤ limit := room
  have below : ¬ limit ≤ current + 4 := by omega
  unfold length?
  simp only [below, if_false]
  by_cases full : (current + 4) % block = 0
  · rw [if_pos full]
    refine ⟨0, rfl, ⟨Nat.dvd_of_mod_eq_zero full, Nat.le_refl _⟩, ?_⟩
    intro size hsize
    exact hsize.2
  · rw [if_neg full]
    have uncut : min (block - (current + 4) % block) (limit - (current + 4)) =
        block - (current + 4) % block := by
      rw [block]
      omega
    rw [uncut]
    refine ⟨_, rfl, ⟨?_, Nat.le_add_right _ _⟩, ?_⟩
    · rw [block] at full ⊢
      omega
    · rintro size ⟨⟨blocks, rfl⟩, hsize⟩
      rw [block] at full hsize ⊢
      omega

/-! ## Queries -/

namespace Config

variable (c : Config) (r : Request) (id : UInt16) (tls : Bool)

/-- The options of a query: the client subnet, and behind it the padding. -/
def queryOptions (c : Config) (r : Request) (id : UInt16) (tls : Bool) : List EdnsOption :=
  subnetOptions r ++ c.paddingOptions tls (c.bareQuery r id) (subnetOptions r)

/-- A query with EDNS is as large as was predicted for its options. -/
theorem size_buildQuery (edns : r.hasEdns = true) : (c.buildQuery r id tls).size =
    (c.bareQuery r id).sizeWithOptions (c.queryOptions r id tls) := by
  have built := built_bareQuery c r id
  obtain ⟨marks, sound⟩ := built.sound
  rw [buildQuery, if_pos edns]
  exact Writer.size_finish_addOpt sound.inRange.bounded _ _ _ _ _

theorem size_buildQuery_plain (plain : r.hasEdns = false) :
    (c.buildQuery r id tls).size = r.qname.wireLength + 16 := by
  rw [buildQuery, if_neg (Bool.eq_false_iff.mp plain), Writer.finish,
    Writer.commit_of_none (built_bareQuery c r id).closed, size_bareQuery]

/-- Without padding a query has the client subnet at most. -/
theorem queryOptions_of_unpadded (unpadded : (tls && c.padding) = false) :
    c.queryOptions r id tls = subnetOptions r := by
  rw [queryOptions, paddingOptions, unpadded, if_neg Bool.false_ne_true, List.append_nil]

theorem size_buildQuery_unpadded_le (unpadded : (tls && c.padding) = false) :
    (c.buildQuery r id tls).size ≤ 306 := by
  cases edns : r.hasEdns with
  | true =>
      rw [size_buildQuery c r id tls edns, queryOptions_of_unpadded c r id tls unpadded]
      exact sizeWithOptions_le c r id
  | false =>
      have hname : r.qname.wireLength ≤ 255 := r.qname.wireLength_le
      rw [size_buildQuery_plain c r id tls edns]
      omega

/-- The query as it would be if padding were turned off. -/
def unpaddedQuery (c : Config) (r : Request) (id : UInt16) (tls : Bool) : Octets :=
  (c.set (.padding false)).buildQuery r id tls

theorem size_unpaddedQuery (edns : r.hasEdns = true) : (c.unpaddedQuery r id tls).size =
    (c.bareQuery r id).sizeWithOptions (subnetOptions r) := by
  have unpadded : (tls && (c.set (.padding false)).padding) = false := Bool.and_false tls
  rw [unpaddedQuery, size_buildQuery _ r id tls edns, queryOptions_of_unpadded _ r id tls unpadded]
  rfl

variable {c tls}

/-- Over TLS a query with EDNS fills whole blocks, and no more of them than it has to. -/
theorem isLeast_size_buildQuery (within : c.Within) (edns : r.hasEdns = true)
    (padded : (tls && c.padding) = true) :
    IsLeast {size | Padding.block ∣ size ∧ (c.unpaddedQuery r id tls).size + 4 ≤ size}
      (c.buildQuery r id tls).size := by
  have hbuffer : 512 ≤ c.bufferSize.toNat := within.least_buffer
  have hsize := sizeWithOptions_le c r id
  have room : (c.bareQuery r id).sizeWithOptions (subnetOptions r) + 4 + Padding.block ≤
      c.bufferSize.toNat := by
    show _ + 4 + 128 ≤ _
    omega
  obtain ⟨len, hlen, hleast⟩ := Padding.isLeast_of_room room
  have hoptions : c.queryOptions r id tls = subnetOptions r ++ [Padding.option len] := by
    rw [queryOptions, paddingOptions, padded, if_pos rfl, hlen]
  have hoption : EdnsOption.wireLengthAll [Padding.option len] = 4 + len := by
    simp only [EdnsOption.wireLengthAll, EdnsOption.wireLength, Padding.option,
      Array.size_replicate, Nat.add_zero]
  have htotal : (c.buildQuery r id tls).size =
      (c.bareQuery r id).sizeWithOptions (subnetOptions r) + 4 + len := by
    rw [size_buildQuery c r id tls edns, hoptions, Writer.sizeWithOptions,
      EdnsOption.wireLengthAll_append, hoption, Writer.sizeWithOptions]
    omega
  rw [size_unpaddedQuery c r id tls edns, htotal]
  exact hleast

/-- Three blocks are enough for every query that is padded. -/
theorem size_buildQuery_mem (within : c.Within) (edns : r.hasEdns = true)
    (padded : (tls && c.padding) = true) :
    (c.buildQuery r id tls).size ∈ [128, 256, 384] := by
  obtain ⟨⟨⟨blocks, hblocks⟩, henough⟩, hleast⟩ := isLeast_size_buildQuery r id within edns padded
  have hbare : (c.unpaddedQuery r id tls).size ≤ 306 := by
    rw [size_unpaddedQuery c r id tls edns]
    exact sizeWithOptions_le c r id
  have hmost : (c.buildQuery r id tls).size ≤ 384 := by
    refine hleast ⟨⟨3, rfl⟩, ?_⟩
    omega
  have hcases : blocks = 1 ∨ blocks = 2 ∨ blocks = 3 := by
    rw [Padding.block] at hblocks
    omega
  rw [hblocks]
  rcases hcases with rfl | rfl | rfl <;> decide

/-- No query is nearly as large as a stream could carry. -/
theorem size_buildQuery_le (within : c.Within) : (c.buildQuery r id tls).size ≤ 384 := by
  by_cases padded : (tls && c.padding) = true
  · by_cases edns : r.hasEdns = true
    · have hmem := size_buildQuery_mem r id within edns padded
      simp only [List.mem_cons, List.not_mem_nil, or_false] at hmem
      omega
    · have hname : r.qname.wireLength ≤ 255 := r.qname.wireLength_le
      rw [size_buildQuery_plain c r id tls (Bool.eq_false_iff.mpr edns)]
      omega
  · have hsize := size_buildQuery_unpadded_le c r id tls (Bool.eq_false_iff.mpr padded)
    omega

/-- **Padded queries show only their number of blocks.** With any configuration there is, a
query with EDNS that goes over TLS while padding is on is one, two or three blocks large: the
fewest that hold it with an empty padding option, and never more than the buffer size. Without
TLS or without padding no query is larger than 306 octets. So over no stream can an exchange
fail because its query is too large. -/
theorem size_buildQuery_blocks (c : Config) (obtained : c.Obtained) (r : Request) (id : UInt16)
    (tls : Bool) :
    (0 < r.ednsLevel → tls = true → c.padding = true →
      (c.buildQuery r id tls).size ∈ [128, 256, 384] ∧
        IsLeast {size | 128 ∣ size ∧ (c.unpaddedQuery r id tls).size + 4 ≤ size}
          (c.buildQuery r id tls).size ∧
        (c.buildQuery r id tls).size ≤ c.bufferSize.toNat) ∧
    (tls = false ∨ c.padding = false → (c.buildQuery r id tls).size ≤ 306) ∧
    ∀ (s : Stream) (timeout : Duration),
      (s.exchange (c.buildQuery r id tls) timeout).reply ≠ .error .messageTooLarge := by
  have within := obtained.within
  have hmost : (c.buildQuery r id tls).size ≤ 384 := size_buildQuery_le r id within
  refine ⟨?_, ?_, ?_⟩
  · intro hedns htls hpadding
    have edns : r.hasEdns = true := decide_eq_true hedns
    have padded : (tls && c.padding) = true := by rw [htls, hpadding, Bool.and_self]
    have hbuffer : 512 ≤ c.bufferSize.toNat := within.least_buffer
    refine ⟨size_buildQuery_mem r id within edns padded,
      isLeast_size_buildQuery r id within edns padded, ?_⟩
    omega
  · intro h
    apply size_buildQuery_unpadded_le
    rw [Bool.and_eq_false_iff]
    exact h
  · intro s timeout htoo
    have hlarge := (Stream.reply_exchange_eq_messageTooLarge_iff s _ timeout).mp htoo
    omega

/-- A request with a client subnet and a name of two labels. With an empty padding option its
query is one octet larger than a block. -/
def twoBlockRequest : Request where
  server := .of (.unspecified .v4) 853
  qname := ⟨[⟨List.replicate 63 97, by decide, by decide⟩,
    ⟨List.replicate 21 98, by decide, by decide⟩], by decide⟩
  qtype := .mx
  tcp := true
  sourceMask := some (.of (.v4 192 0 2 0) 24)

/-- So it takes two. -/
theorem size_buildQuery_blocks_two :
    Obtained {} ∧ 0 < twoBlockRequest.ednsLevel ∧
      (unpaddedQuery {} twoBlockRequest 7 true).size = 125 ∧
      (buildQuery {} twoBlockRequest 7 true).size = 256 ∧
      IsLeast {size | 128 ∣ size ∧ (unpaddedQuery {} twoBlockRequest 7 true).size + 4 ≤ size}
        (buildQuery {} twoBlockRequest 7 true).size ∧
      (buildQuery {} twoBlockRequest 7 false).size ≤ 306 := by
  have bare : (unpaddedQuery {} twoBlockRequest 7 true).size = 125 := by
    rw [size_unpaddedQuery _ _ _ _ rfl, Writer.sizeWithOptions, size_bareQuery]
    decide
  obtain ⟨padded, -⟩ := size_buildQuery_blocks {} .standard twoBlockRequest 7 true
  obtain ⟨-, unpadded, -⟩ := size_buildQuery_blocks {} .standard twoBlockRequest 7 false
  obtain ⟨hmem, hleast, -⟩ := padded (by decide) rfl rfl
  have htwo : (buildQuery {} twoBlockRequest 7 true).size ≤ 256 := hleast.2 ⟨⟨2, rfl⟩, by omega⟩
  have hone : 129 ≤ (buildQuery {} twoBlockRequest 7 true).size := by
    have henough := hleast.1.2
    omega
  simp only [List.mem_cons, List.not_mem_nil, or_false] at hmem
  exact ⟨.standard, by decide, bare, by omega, hleast, unpadded (.inl rfl)⟩

end Config

end Querier
