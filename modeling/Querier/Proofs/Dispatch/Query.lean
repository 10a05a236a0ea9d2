import Querier.Dispatch.Query
import Querier.Proofs.Config
import Querier.Proofs.Edns.ClientSubnet
import Querier.Proofs.Writer.Opt

/-!
# What a query says

A server decodes the query that is built for a request. `Says` is what it then has before it,
in terms of the request and the configuration: all of the header, the question in the case in
which it was asked, and with EDNS an OPT record with the client subnet and the padding and
nothing else.

Padding has to fit below the buffer size, and there is always room for it: a query is at most
306 octets without padding, and no configuration has a buffer of less than 512.

## Main results

* `sizeWithOptions_le`: how large a query is at most.
* `Config.exists_paddingOptions`: padding always fits.
* `Config.decode_buildQuery`: a query says what its request says.
-/

namespace Querier

/-! ## Sizes -/

theorem ClientSubnet.length_data_le (c : ClientSubnet) : c.data.length ≤ 20 := by
  have hoctets := c.source.significantOctets_le
  have hfamily : c.source.address.octets.length ≤ 16 := by
    rw [c.source.address.length_eq]
    cases c.source.address.family <;> decide
  simp only [data, List.length_append, Octets.ofUInt16, List.length_cons, List.length_nil,
    List.length_take]
  omega

/-- Where there is room for an empty option there is padding, less than a block of it. -/
theorem Padding.exists_length? {current limit : Nat} (h : current + 4 < limit) :
    ∃ len, length? current limit = some len ∧ len ≤ block := by
  have room : ¬ limit ≤ current + 4 := Nat.not_le_of_lt h
  unfold length?
  rw [if_neg room]
  by_cases full : (current + 4) % block = 0
  · exact ⟨0, if_pos full, Nat.zero_le _⟩
  · refine ⟨_, if_neg full, ?_⟩
    exact Nat.le_trans (Nat.min_le_left ..) (Nat.sub_le ..)

namespace Config

variable (c : Config) (r : Request) (id : UInt16) (tls : Bool)

theorem wireLengthAll_subnetOptions : EdnsOption.wireLengthAll (subnetOptions r) ≤ 24 := by
  unfold subnetOptions
  cases r.sourceMask with
  | none => exact Nat.zero_le _
  | some s =>
      have hdata := (ClientSubnet.forQuery s).length_data_le
      simp only [EdnsOption.wireLengthAll, EdnsOption.wireLength, ClientSubnet.toOption,
        List.size_toArray]
      omega

theorem size_bareQuery : (c.bareQuery r id).content.size = r.qname.wireLength + 16 := by
  rw [bareQuery, Writer.size_editHeader, Writer.size_new]
  show 12 + (r.qname.wireLength + 4) = _
  omega

/-- A query without padding is at most 306 octets. -/
theorem sizeWithOptions_le : (c.bareQuery r id).sizeWithOptions (subnetOptions r) ≤ 306 := by
  have hname : r.qname.wireLength ≤ 255 := r.qname.wireLength_le
  have hsubnet := wireLengthAll_subnetOptions r
  rw [Writer.sizeWithOptions, size_bareQuery]
  omega

/-! ## The header and the question -/

/-- What the header of a query says. -/
def queryHeader : Header :=
  { Header.zero with
    id
    opcode := .query
    rd := r.recursionDesired
    cd := r.recursionDesired && c.wantsDnssec
    questions := 1
    additionals := if r.hasEdns then 1 else 0 }

theorem read_bareQuery : Header.read (c.bareQuery r id).content =
    { c.queryHeader r id with additionals := 0 } := by
  have hlong : Header.length ≤ (Writer.new r.qname r.qtype .internet .query).content.size := by
    rw [Writer.size_new]
    exact Nat.le_add_right ..
  rw [bareQuery, Writer.editHeader]
  simp only
  rw [Header.read_edit _ hlong, Writer.read_new]
  rfl

theorem built_bareQuery :
    Writer.Built (c.bareQuery r id) (.internet r.qname r.qtype) [] [] := by
  apply (Writer.Built.new (.internet r.qname r.qtype) .query).editHeader
  intro s
  cases s <;> rfl

/-! ## The options -/

variable {c}

/-- There is always room for padding. -/
theorem exists_paddingOptions (within : c.Within) : ∃ len ≤ Padding.block,
    c.paddingOptions tls (c.bareQuery r id) (subnetOptions r) =
      if tls && c.padding then [Padding.option len] else [] := by
  have room : (c.bareQuery r id).sizeWithOptions (subnetOptions r) + 4 < c.bufferSize.toNat := by
    have hsize := sizeWithOptions_le c r id
    have hbuffer : 512 ≤ c.bufferSize.toNat := within.least_buffer
    omega
  rcases Padding.exists_length? room with ⟨len, hlen, hle⟩
  refine ⟨len, hle, ?_⟩
  unfold paddingOptions
  rw [hlen]

/-- The content of the OPT record of a query that is padded, if at all, by `len` octets. -/
def queryOpt (c : Config) (r : Request) (tls : Bool) (len : Nat) : Opt where
  payloadSize := c.bufferSize
  extendedCode := 0
  version := 0
  flags := if c.wantsDnssec then Opt.dnssecOk else 0
  options := subnetOptions r ++ if tls && c.padding then [Padding.option len] else []

theorem flags_queryOpt (len : Nat) :
    (c.queryOpt r tls len).flags = if c.dnssec = .off then 0 else Opt.dnssecOk := by
  rw [queryOpt, wantsDnssec]
  cases c.dnssec <;> rfl

theorem subnetOptions_eq : subnetOptions r =
    r.sourceMask.toList.map fun s => (ClientSubnet.forQuery s).toOption := by
  unfold subnetOptions
  cases r.sourceMask <;> rfl

/-- The client subnet is found, and padding is not taken for one. -/
theorem clientSubnet?_queryOpt (len : Nat) : (c.queryOpt r tls len).clientSubnet?.map
    (fun e => (e.source, e.scope)) = r.sourceMask.map fun s => (s, 0) := by
  rw [Opt.clientSubnet?, Opt.first?, queryOpt, subnetOptions]
  cases r.sourceMask with
  | none => cases tls && c.padding <;> rfl
  | some s =>
      show (ClientSubnet.read (ClientSubnet.forQuery s).data).toOption.map _ = _
      rw [ClientSubnet.read_data]
      show some (s, min 0 _) = some (s, 0)
      rw [Nat.zero_min]

theorem wireLengthAll_queryOpt (len : Nat) (hlen : len ≤ Padding.block) :
    EdnsOption.wireLengthAll (c.queryOpt r tls len).options ≤ 65535 := by
  have hsubnet := wireLengthAll_subnetOptions r
  have hblock : len ≤ 128 := hlen
  have hpadding : EdnsOption.wireLengthAll
      (if tls && c.padding then [Padding.option len] else []) ≤ 4 + len := by
    cases tls && c.padding with
    | false => exact Nat.zero_le _
    | true =>
        simp only [if_true, EdnsOption.wireLengthAll, EdnsOption.wireLength, Padding.option,
          Array.size_replicate]
        omega
  rw [queryOpt, EdnsOption.wireLengthAll_append]
  omega

/-! ## The whole query -/

/-- What a message says that was built for a request. -/
structure Says (c : Config) (r : Request) (id : UInt16) (tls : Bool) (m : Message) : Prop where
  /-- It is a query with this identifier. Of the flags only the two for recursion can be set,
  and there is one question and at most one record, the OPT record. -/
  header : m.header = c.queryHeader r id
  /-- The name is spelled as in the request. -/
  question : m.question = some (.internet r.qname r.qtype)
  records : m.records = []
  opt_isSome : m.opt.isSome = decide (0 < r.ednsLevel)
  opt : ∀ o, m.opt = some o → o.payloadSize = c.bufferSize ∧ o.extendedCode = 0 ∧
    o.version = 0 ∧ o.flags = if c.dnssec = .off then 0 else Opt.dnssecOk
  /-- The client subnet is that of the request, with no scope. -/
  subnet : ∀ o, m.opt = some o →
    (o.clientSubnet?.map fun e => (e.source, e.scope)) = r.sourceMask.map fun s => (s, 0)
  /-- Behind the client subnet there is at most padding, which is blank. -/
  options : ∀ o, m.opt = some o → ∃ len, o.options =
    (r.sourceMask.toList.map fun s => (ClientSubnet.forQuery s).toOption) ++
      if tls && c.padding then [⟨.padding, Array.replicate len 0⟩] else []

/-- What the decoder makes of a message that is written to its end. -/
theorem decode_finish_of_grammar {w : Writer} {q : Question} {records : List Record}
    (hclosed : w.current = none) (h : Message.Grammar w.content [q] records) :
    Message.decode w.finish = .ok (.ofEntries w.content [q] records) := by
  rw [Writer.finish, Writer.commit_of_none hclosed]
  exact Message.decode_eq_ok_iff.mpr ⟨[q], records, h, rfl⟩

theorem decode_bareQuery (plain : r.hasEdns = false) :
    ∃ m, Message.decode (c.bareQuery r id).finish = .ok m ∧ c.Says r id tls m := by
  have built := built_bareQuery c r id
  have grammar := built.grammar (show _ = List.replicate 0 Section.answer ++
    List.replicate 0 .authority ++ List.replicate 0 .additional from rfl)
    (by decide) (by decide) (by decide)
  refine ⟨_, decode_finish_of_grammar built.closed grammar, ?_⟩
  constructor
  · show Header.read (c.bareQuery r id).content = _
    rw [read_bareQuery, queryHeader, plain]
    rfl
  · rfl
  · rfl
  · exact plain.symm
  · intro o ho
    cases ho
  · intro o ho
    cases ho
  · intro o ho
    cases ho

/-- A query with such an OPT record. -/
theorem decode_addOpt (edns : r.hasEdns = true) (len : Nat) (hlen : len ≤ Padding.block) :
    ∃ m, Message.decode ((c.bareQuery r id).addOpt c.bufferSize 0 (c.queryOpt r tls len).flags
        (c.queryOpt r tls len).options 0).finish = .ok m ∧
      c.Says r id tls m := by
  have hoptions := wireLengthAll_queryOpt r tls (c := c) len hlen
  have built := built_bareQuery c r id
  have hheader := built.read_addOpt hoptions c.bufferSize (c.queryOpt r tls len).flags 0
  rcases built.addOpt hoptions c.bufferSize (c.queryOpt r tls len).flags 0 with
    ⟨record, hbuilt, htype, hopt⟩
  have grammar := hbuilt.grammar (show _ = List.replicate 0 Section.answer ++
    List.replicate 0 .authority ++ List.replicate 1 .additional from rfl)
    (by decide) (by decide) (by decide)
  have found : [record].findSome? Record.opt? = some (c.queryOpt r tls len) := by
    rw [List.findSome?_cons, hopt]
    rfl
  refine ⟨_, decode_finish_of_grammar hbuilt.closed grammar, ?_⟩
  constructor
  · show Header.read _ = _
    rw [hheader, read_bareQuery, queryHeader, edns]
    rfl
  · rfl
  · show [record].filter (·.rtype ≠ .opt) = []
    rw [List.filter_cons_of_neg (by simp [htype]), List.filter_nil]
  · show ([record].findSome? Record.opt?).isSome = _
    rw [found]
    exact edns.symm
  · intro o ho
    cases found.symm.trans ho
    exact ⟨rfl, rfl, rfl, flags_queryOpt r tls len⟩
  · intro o ho
    cases found.symm.trans ho
    exact clientSubnet?_queryOpt r tls len
  · intro o ho
    cases found.symm.trans ho
    exact ⟨len, congrArg (· ++ _) (subnetOptions_eq r)⟩

/-- **A query says what its request says.** With any configuration there is, the query for a
request decodes to a message with the given identifier and the flags for recursion that were
asked for, to the question in the case in which it was asked, and to no record. With EDNS, and
only then, it has an OPT record with the buffer size of the configuration and the flag for
DNSSEC, if that is not off; in it the client subnet of the request, if there is one, and blank
padding, exactly if the query goes over TLS and padding is on. -/
theorem decode_buildQuery (c : Config) (obtained : c.Obtained) (r : Request) (id : UInt16)
    (tls : Bool) : ∃ m, Message.decode (c.buildQuery r id tls) = .ok m ∧ c.Says r id tls m := by
  unfold buildQuery
  by_cases edns : r.hasEdns = true
  · rw [if_pos edns]
    rcases exists_paddingOptions r id tls obtained.within with ⟨len, hlen, hpadding⟩
    simp only [hpadding]
    exact decode_addOpt r id tls edns len hlen
  · rw [if_neg edns]
    exact decode_bareQuery r id tls (Bool.eq_false_iff.mpr edns)

/-- A request with a client subnet. -/
def subnetRequest : Request where
  server := .of (.unspecified .v4) 853
  qname := .root
  qtype := .mx
  tcp := true
  sourceMask := some (.of (.v4 192 0 2 0) 24)

/-- The standard configuration will do. -/
theorem decode_buildQuery_standard :
    Obtained {} ∧ ∃ m, Message.decode (buildQuery {} subnetRequest 7 true) = .ok m ∧
      Says {} subnetRequest 7 true m :=
  ⟨.standard, decode_buildQuery {} .standard subnetRequest 7 true⟩

end Config

end Querier
