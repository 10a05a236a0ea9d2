import Querier.Proofs.Datagram.Followers
import Querier.Proofs.Dispatch.Agreement
import Querier.Proofs.Dispatch.QueryLayout

/-!
# Queries that share a response

A query that follows another one is not sent; its caller gets the response to a message that
someone else built. What the two have in common is the key, and there is less in a key than in
a message: the desire for recursion is not in it, and EDNS only where a client subnet is sent.
So a retry without EDNS can follow the query with EDNS that it is to replace.

A leader has the key that it began with for as long as it is there, so following means that
the keys are equal, whatever was done before and in between. The octets of the messages show
the rest.

## Main results

* `Flights.shares_iff`: what follows has an equal key, and equal keys can follow.
* `Config.interchangeable_iff`: where the messages of equal keys differ.
* `Dispatcher.message_of_shares`: the same for the messages that dispatchers build.
-/

namespace Querier

/-! ## Following -/

namespace Flights

variable {f : Flights} {id : LeaderId} {key : MatchKey}

/-- A leader has no other key than this one, and nobody else can become this leader. -/
def KeepsKey (f : Flights) (id : LeaderId) (key : MatchKey) : Prop :=
  id < f.next ∧ ∀ l, f.leaders.find? id = some l → l.key = key

theorem KeepsKey.leader {op : Op} (h : f.KeepsKey id key) (subject : op.leader? = some id)
    {l : Leader} (found : (f.step op).leaders.find? id = some l) : l.key = key := by
  cases op with
  | send other => cases subject
  | opened other =>
      cases subject
      rcases f.opened_cases id with same | ⟨key', old, same⟩
      · rw [step, same] at found
        exact h.2 l found
      · rw [step, same, find?_put_leader, if_pos rfl] at found
        rw [← Option.some.inj found]
        exact h.2 ⟨key', .opening⟩ old
  | retire other r =>
      cases subject
      by_cases leads : f.Leads id
      · rcases leads with ⟨l', old, live⟩
        rw [step, retire_of_live old live, find?_put_leader, if_pos rfl] at found
        rw [← Option.some.inj found]
        exact h.2 l' old
      · rw [step, retire_of_not_leads leads] at found
        exact h.2 l found
  | announce other =>
      cases subject
      rcases f.announce_cases id with same | ⟨key', r, -, same⟩
      · rw [step, same] at found
        exact h.2 l found
      · rw [step, same, find?_erase_leader, if_pos rfl] at found
        cases found
  | abandon other =>
      cases subject
      by_cases leads : f.Leads id
      · rcases leads with ⟨l', old, live⟩
        rw [step, abandon_of_live old live, find?_erase_leader, if_pos rfl] at found
        cases found
      · rw [step, abandon_of_not_leads leads] at found
        exact h.2 l found

theorem KeepsKey.step (h : f.KeepsKey id key) (op : Op) : (f.step op).KeepsKey id key := by
  refine ⟨Nat.lt_of_lt_of_le h.1 (f.next_le_step op), ?_⟩
  intro l found
  by_cases subject : op.leader? = some id
  · exact h.leader subject found
  · -- a step that is about another leader, or makes a new one
    have kept : (f.step op).leaders.find? id = f.leaders.find? id := by
      cases hop : op.leader? with
      | some other =>
          have other_ne : id ≠ other := by
            intro heq
            exact subject (heq ▸ hop)
          exact (f.spares_step hop).leaders id other_ne
      | none =>
          cases op with
          | send other =>
              cases hfound : f.inflight.find? other with
              | some leader => rw [Flights.step, send_of_find? hfound]
              | none =>
                  rw [Flights.step, send_of_find?_eq_none hfound, find?_put_leader,
                    if_neg (Nat.ne_of_lt h.1)]
          | _ => cases hop
    exact h.2 l (kept ▸ found)

theorem KeepsKey.run (h : f.KeepsKey id key) (ops : List Op) : (f.run ops).KeepsKey id key := by
  induction ops generalizing f with
  | nil => exact h
  | cons op ops ih => exact ih (h.step op)

theorem keepsKey_send (sent : (f.send key).2 = .leader id) : (f.send key).1.KeepsKey id key := by
  cases found : f.inflight.find? key with
  | some leader =>
      rw [send_of_find? found] at sent
      cases sent
  | none =>
      rw [send_of_find?_eq_none found] at sent ⊢
      cases sent
      refine ⟨Nat.lt_succ_self f.next, ?_⟩
      intro l hl
      rw [find?_put_leader, if_pos rfl] at hl
      rw [← Option.some.inj hl]

/-- After anything that callers may have done, a query with the key `first` is sent, and after
anything that they may do then, one with the key `second` follows it. -/
def Shares (first second : MatchKey) : Prop :=
  ∃ before between leader heard, ((run {} before).send first).2 = .leader leader ∧
    ((run {} (before ++ .send first :: between)).send second).2 = .follower ⟨leader, heard⟩

/-- Whether a query can follow another one is a matter of their keys. -/
theorem shares_iff {first second : MatchKey} : Shares first second ↔ (second == first) = true := by
  constructor
  · rintro ⟨before, between, leader, heard, leads, follows⟩
    have hrun : run {} (before ++ .send first :: between) =
        ((run {} before).send first).1.run between := by
      rw [run, List.foldl_append, List.foldl_cons]
      rfl
    have kept := (keepsKey_send leads).run between
    rw [← hrun] at kept
    have sound : (run {} (before ++ .send first :: between)).Sound := Sound.empty.run _
    cases found : (run {} (before ++ .send first :: between)).inflight.find? second with
    | none =>
        rw [send_of_find?_eq_none found] at follows
        cases follows
    | some id =>
        rw [send_of_find? found] at follows
        cases follows
        rcases (sound.entry second leader).mp found with ⟨l, hl, -, same⟩
        rw [kept.2 l hl] at same
        exact same
  · intro same
    have missing : (run {} []).inflight.find? first = none := rfl
    have found : (run {} [.send first]).inflight.find? second = some 0 := by
      show (run {} [.send first]).inflight.find? second = _
      rw [run, List.foldl_cons, List.foldl_nil, Flights.step, send_of_find?_eq_none rfl,
        Table.find?_put_eq, if_pos same]
    refine ⟨[], [], 0, ((run {} [.send first]).channel 0).said.length, ?_, ?_⟩
    · rw [send_of_find?_eq_none missing]
      rfl
    · rw [List.nil_append, send_of_find? found]

end Flights

/-! ## Messages of equal keys -/

/-- Two query messages are the same but for the identifier and the case of the name in the
question, which is `n₁` in the one and `n₂` in the other. -/
def Interchangeable (n₁ n₂ : Name) (m₁ m₂ : Octets) : Prop :=
  n₁.same n₂ = true ∧ ∃ (id₁ id₂ : UInt16) (flags rest : List UInt8), flags.length = 10 ∧
    m₁.toList = Octets.ofUInt16 id₁ ++ flags ++ n₁.wire ++ rest ∧
    m₂.toList = Octets.ofUInt16 id₂ ++ flags ++ n₂.wire ++ rest

/-- What is in a header behind the identifier says all but the identifier. -/
theorem Header.narrowed_of_drop {h₁ h₂ : Header} (same : h₁.octets.drop 2 = h₂.octets.drop 2) :
    { h₁ with id := h₂.id }.narrowed = h₂.narrowed := by
  have octets : { h₁ with id := h₂.id }.octets = h₂.octets :=
    congrArg (Octets.ofUInt16 h₂.id ++ ·) same
  rw [← read_octets, octets, read_octets]

namespace Config

variable {c : Config} {r₁ r₂ : Request} {id₁ id₂ : UInt16}

/-- The header of a query has only two things of the request. -/
theorem drop_octets_queryHeader_iff :
    (c.queryHeader r₁ id₁).octets.drop 2 = (c.queryHeader r₂ id₂).octets.drop 2 ↔
      r₁.recursionDesired = r₂.recursionDesired ∧ r₁.hasEdns = r₂.hasEdns := by
  constructor
  · intro same
    have narrowed := Header.narrowed_of_drop same
    have additionals : (if r₁.hasEdns then 1 else 0 : UInt16) = if r₂.hasEdns then 1 else 0 :=
      congrArg Header.additionals narrowed
    refine ⟨congrArg Header.rd narrowed, ?_⟩
    cases h₁ : r₁.hasEdns <;> cases h₂ : r₂.hasEdns <;> rw [h₁, h₂] at additionals <;>
      first | rfl | exact absurd additionals (by decide)
  · rintro ⟨rd, edns⟩
    show (queryHeader _ _ _).octets.drop 2 = _
    rw [queryHeader, queryHeader, rd, edns]
    rfl

/-- The octets behind the name in the question of a query without EDNS. -/
def questionEnd (qtype : RecordType) : List UInt8 :=
  Octets.ofUInt16 qtype.code ++ Octets.ofUInt16 Class.internet.code

/-- The octets of a query that goes out as a datagram. -/
theorem toList_datagramQuery (c : Config) (r : Request) (id : UInt16) :
    (c.buildQuery r id false).toList =
      (c.queryHeader r id).octets ++ r.qname.wire ++ questionEnd r.qtype ++
        c.ednsOctets r id false := by
  rw [toList_buildQuery, Writer.questionOctets, questionEnd]
  simp only [List.append_assoc]
  rfl

theorem ednsOctets_of_plain {r : Request} {id : UInt16} {tls : Bool} (plain : r.hasEdns = false) :
    c.ednsOctets r id tls = [] := by
  rw [ednsOctets, plain, if_neg Bool.false_ne_true]

/-- Where both queries have EDNS, equal keys are enough for the same OPT record. -/
theorem ednsOctets_eq (edns₁ : r₁.hasEdns = true) (edns₂ : r₂.hasEdns = true)
    (subnet : r₁.sentSubnet = r₂.sentSubnet) :
    c.ednsOctets r₁ id₁ false = c.ednsOctets r₂ id₂ false := by
  have mask : r₁.sourceMask = r₂.sourceMask := by
    rw [Request.sentSubnet, if_pos edns₁, Request.sentSubnet, if_pos edns₂] at subnet
    exact subnet
  rw [ednsOctets, if_pos edns₁, ednsOctets, if_pos edns₂, queryOptions_of_unpadded _ _ _ _ rfl,
    queryOptions_of_unpadded _ _ _ _ rfl, subnetOptions, subnetOptions, mask]

/-- The messages for equal keys are interchangeable only if recursion is desired in both or in
neither, and if both have EDNS or neither has. -/
theorem interchangeable_iff (key : (r₂.matchKey == r₁.matchKey) = true) :
    Interchangeable r₁.qname r₂.qname (c.buildQuery r₁ id₁ false) (c.buildQuery r₂ id₂ false) ↔
      r₁.recursionDesired = r₂.recursionDesired ∧ r₁.hasEdns = r₂.hasEdns := by
  rcases MatchKey.beq_iff.mp key with ⟨-, names, qtypes, subnets⟩
  have same : r₁.qname.same r₂.qname = true := by
    rw [Name.same, Octets.sameFolded, beq_iff_eq] at names ⊢
    exact names.symm
  have hid (r : Request) (id : UInt16) : (c.queryHeader r id).octets =
      Octets.ofUInt16 id ++ (c.queryHeader r id).octets.drop 2 := rfl
  constructor
  · rintro ⟨-, a₁, a₂, flags, rest, hflags, hm₁, hm₂⟩
    -- both headers show the same flags
    have flags_eq {r : Request} {id a : UInt16} (hm : (c.buildQuery r id false).toList =
        Octets.ofUInt16 a ++ flags ++ r.qname.wire ++ rest) :
        (c.queryHeader r id).octets.drop 2 = flags := by
      rw [toList_datagramQuery, hid] at hm
      simp only [List.append_assoc] at hm
      have behind := (List.append_inj hm rfl).2
      exact (List.append_inj behind hflags.symm).1
    exact drop_octets_queryHeader_iff.mp ((flags_eq hm₁).trans (flags_eq hm₂).symm)
  · intro agree
    have flags : (c.queryHeader r₁ id₁).octets.drop 2 = (c.queryHeader r₂ id₂).octets.drop 2 :=
      drop_octets_queryHeader_iff.mpr agree
    have opt : c.ednsOctets r₁ id₁ false = c.ednsOctets r₂ id₂ false := by
      by_cases edns : r₁.hasEdns = true
      · exact ednsOctets_eq edns (agree.2 ▸ edns) subnets.symm
      · have plain : r₁.hasEdns = false := Bool.eq_false_iff.mpr edns
        rw [ednsOctets_of_plain plain, ednsOctets_of_plain (agree.2 ▸ plain)]
    refine ⟨same, id₁, id₂, (c.queryHeader r₁ id₁).octets.drop 2,
      questionEnd r₁.qtype ++ c.ednsOctets r₁ id₁ false, rfl, ?_, ?_⟩
    · rw [toList_datagramQuery, hid r₁ id₁]
      simp only [List.append_assoc]
      rfl
    · have qtype : r₂.qtype = r₁.qtype := qtypes
      rw [toList_datagramQuery, hid r₂ id₂, opt, flags, qtype]
      simp only [List.append_assoc]

end Config

/-! ## Dispatchers -/

namespace Dispatcher

/-- The message of an exchange over datagrams. -/
theorem message_begin (d : Dispatcher) (now : Time) (s : Shared) (n : Network) {r : Request}
    (udp : r.tcp = false) : (d.begin now s r n).2.message =
      d.config.buildQuery r (d.begin now s r n).2.exchange.id false := by
  have plain (s : Shared) : (d.useTls r s).1 = false := by
    have unwanted : d.wantsTls r = false := by
      rw [wantsTls, udp]
      rfl
    rw [useTls, unwanted, if_neg Bool.false_ne_true]
  show d.config.buildQuery r _ (d.useTls r _).1 = _
  rw [plain]
  rfl

/-- **What queries that share a response have in common.** Let dispatchers with one configuration
send two queries as datagrams, the second of which follows the first. Then the two ask the same
server for the same name, up to its case, and the same type, and send the same client subnet. The
messages that were built for them are a header, the question, and with EDNS an OPT record, which is
the same for both; what differs in the headers is the identifier, the flags for recursion and the
count of the OPT record. So they are interchangeable exactly if recursion is desired in both or in
neither and both have EDNS or neither has, and with a client subnet both have it. -/
theorem message_of_shares (d₁ d₂ : Dispatcher) (config : d₁.config = d₂.config) (now₁ now₂ : Time)
    (s₁ s₂ : Shared) (n₁ n₂ : Network) (r₁ r₂ : Request) (udp₁ : r₁.tcp = false)
    (udp₂ : r₂.tcp = false) (shares : Flights.Shares r₁.matchKey r₂.matchKey) :
    let t₁ := (d₁.begin now₁ s₁ r₁ n₁).2
    let t₂ := (d₂.begin now₂ s₂ r₂ n₂).2
    (r₁.server = r₂.server ∧ r₁.qname.same r₂.qname = true ∧ r₁.qtype = r₂.qtype ∧
      r₁.sentSubnet = r₂.sentSubnet) ∧
    (∃ opt : List UInt8,
      t₁.message.toList = (d₁.config.queryHeader r₁ t₁.exchange.id).octets ++ r₁.qname.wire ++
          Config.questionEnd r₁.qtype ++ (if r₁.hasEdns then opt else []) ∧
        t₂.message.toList = (d₁.config.queryHeader r₂ t₂.exchange.id).octets ++ r₂.qname.wire ++
          Config.questionEnd r₁.qtype ++ if r₂.hasEdns then opt else []) ∧
    (Interchangeable r₁.qname r₂.qname t₁.message t₂.message ↔
      r₁.recursionDesired = r₂.recursionDesired ∧ r₁.hasEdns = r₂.hasEdns) ∧
    ∀ sent, r₁.sentSubnet = some sent → r₁.hasEdns = true ∧ r₂.hasEdns = true := by
  intro t₁ t₂
  have key : (r₂.matchKey == r₁.matchKey) = true := Flights.shares_iff.mp shares
  have hm₁ : t₁.message = d₁.config.buildQuery r₁ t₁.exchange.id false :=
    d₁.message_begin now₁ s₁ n₁ udp₁
  have hm₂ : t₂.message = d₁.config.buildQuery r₂ t₂.exchange.id false := by
    rw [config]
    exact d₂.message_begin now₂ s₂ n₂ udp₂
  rcases MatchKey.beq_iff.mp key with ⟨server, names, qtype, subnet⟩
  have qtype : r₂.qtype = r₁.qtype := qtype
  have subnet : r₂.sentSubnet = r₁.sentSubnet := subnet
  have same : r₁.qname.same r₂.qname = true := by
    rw [Name.same, Octets.sameFolded, beq_iff_eq] at names ⊢
    exact names.symm
  refine ⟨⟨server.symm, same, qtype.symm, subnet.symm⟩, ?_, ?_, ?_⟩
  · rw [hm₁, hm₂, Config.toList_datagramQuery, Config.toList_datagramQuery, qtype]
    by_cases edns : r₁.hasEdns = true
    · refine ⟨d₁.config.ednsOctets r₁ t₁.exchange.id false, by rw [if_pos edns], ?_⟩
      by_cases edns' : r₂.hasEdns = true
      · rw [if_pos edns', Config.ednsOctets_eq edns edns' subnet.symm]
      · rw [if_neg edns', Config.ednsOctets_of_plain (Bool.eq_false_iff.mpr edns')]
    · have plain : r₁.hasEdns = false := Bool.eq_false_iff.mpr edns
      refine ⟨d₁.config.ednsOctets r₂ t₂.exchange.id false, ?_, ?_⟩
      · rw [if_neg edns, Config.ednsOctets_of_plain plain]
      · by_cases edns' : r₂.hasEdns = true
        · rw [if_pos edns']
        · rw [if_neg edns', Config.ednsOctets_of_plain (Bool.eq_false_iff.mpr edns')]
  · rw [hm₁, hm₂]
    exact Config.interchangeable_iff key
  · intro sent hsent
    have edns_of {r : Request} (h : r.sentSubnet = some sent) : r.hasEdns = true := by
      by_cases edns : r.hasEdns = true
      · exact edns
      · rw [Request.sentSubnet, if_neg edns] at h
        cases h
    exact ⟨edns_of hsent, edns_of (subnet.trans hsent)⟩

/-- A query with EDNS and a wish for recursion. -/
def ednsQuery : Request where
  server := Flights.orgKey.server
  qname := Flights.orgKey.qname
  qtype := Flights.orgKey.qtype
  recursionDesired := true

/-- The same name in upper case. -/
def upperQuery : Request := { ednsQuery with qname := Flights.upperOrgKey.qname }

/-- A retry without EDNS, which does not ask for recursion. -/
def plainRetry : Request := { ednsQuery with ednsLevel := 0, recursionDesired := false }

/-- A query that differs in case only can be answered by the response to the other one. -/
theorem message_of_shares_case :
    Flights.Shares ednsQuery.matchKey upperQuery.matchKey ∧
      Interchangeable ednsQuery.qname upperQuery.qname
        (begin {} 0 idleShared ednsQuery {}).2.message
        (begin {} 0 idleShared upperQuery {}).2.message := by
  have shares : Flights.Shares ednsQuery.matchKey upperQuery.matchKey :=
    Flights.shares_iff.mpr (by decide)
  rcases message_of_shares {} {} rfl 0 0 idleShared idleShared {} {} ednsQuery upperQuery rfl rfl
    shares with ⟨-, -, same, -⟩
  exact ⟨shares, same.mpr ⟨rfl, rfl⟩⟩

/-- A retry without EDNS follows the query with EDNS, and its message is another one. -/
theorem not_interchangeable_plainRetry :
    Flights.Shares ednsQuery.matchKey plainRetry.matchKey ∧
      ¬ Interchangeable ednsQuery.qname plainRetry.qname
        (begin {} 0 idleShared ednsQuery {}).2.message
        (begin {} 0 idleShared plainRetry {}).2.message := by
  have key : (plainRetry.matchKey == ednsQuery.matchKey) = true := by decide
  refine ⟨Flights.shares_iff.mpr key, ?_⟩
  rw [message_begin {} 0 idleShared {} rfl, message_begin {} 0 idleShared {} rfl]
  intro same
  have agree := (Config.interchangeable_iff key).mp same
  exact absurd agree.2 (by decide)

end Dispatcher

end Querier
