import Querier.Proofs.Dispatch.Agreement
import Querier.Proofs.Dispatch.Conclusion
import Querier.Proofs.Dispatch.WithoutEdns
import Querier.Proofs.Edns.ClientSubnet

/-!
# Client subnets of responses

A response may be good for one network of clients only. The server says in the scope for how many
bits of the network that was sent; what it is good for is then cut from that network, and from
nothing that the response brings. So it does not matter what a server says of the source, except
that over datagrams another source than was sent gives away that it is not the server.

Lengths are limited three times on the way: a scope to its family when it is read, to the length
of the network that was sent, and by truncation. `Narrows` knows of one limit, because what remains
is the shorter of scope and network whichever limit has done it.

## Main results

* `Validation.subnet_validate`: what a response is good for.
* `Dispatcher.subnet_narrows`: the client subnet of a result, for every exchange.
-/

namespace Querier

/-! ## Echoes -/

namespace Message

/-- The first client subnet option of a message states a client subnet. -/
def Echoes (m : Message) (e : ClientSubnet) : Prop :=
  ∃ o option, m.opt = some o ∧ o.first? .clientSubnet = some option ∧
    e.StatedBy option.data.toList

theorem echoes_iff {m : Message} {e : ClientSubnet} :
    m.Echoes e ↔ ∃ o, m.opt = some o ∧ o.clientSubnet? = some e := by
  constructor
  · rintro ⟨o, option, hopt, first, stated⟩
    refine ⟨o, hopt, ?_⟩
    rw [Opt.clientSubnet?, first]
    simp only
    rw [ClientSubnet.read_eq_ok_iff.mpr stated]
    rfl
  · rintro ⟨o, hopt, hread⟩
    rw [Opt.clientSubnet?] at hread
    cases first : o.first? .clientSubnet with
    | none =>
        rw [first] at hread
        cases hread
    | some option =>
        rw [first] at hread
        simp only at hread
        cases hdata : ClientSubnet.read option.data.toList with
        | error e =>
            rw [hdata] at hread
            cases hread
        | ok c =>
            rw [hdata] at hread
            cases hread
            exact ⟨o, option, hopt, first, ClientSubnet.read_eq_ok_iff.mp hdata⟩

end Message

/-! ## What a response is good for -/

/-- A response is good for the addresses of `x` only, and `x` is the network that was sent, cut to
the scope if this is shorter. -/
def Narrows (r : Request) (m : Message) (x : Subnet) : Prop :=
  ∃ sent e, 0 < r.ednsLevel ∧ r.sourceMask = some sent ∧ m.Echoes e ∧ e.scope ≠ 0 ∧
    x.IsCut sent (min e.scope sent.bits)

/-- What a message is good for has all addresses of the network that was sent. -/
theorem Narrows.covers {r : Request} {m : Message} {x sent : Subnet} (h : Narrows r m x)
    (hsent : r.sourceMask = some sent) :
    (∀ a, sent.Contains a → x.Contains a) ∧ x.family = sent.family ∧ x.bits ≤ sent.bits ∧
      x.bits ≤ sent.family.bits := by
  rcases h with ⟨sent', e, -, hsent', -, -, cut⟩
  cases hsent.symm.trans hsent'
  have shorter : min e.scope sent.bits ≤ sent.bits := Nat.min_le_right ..
  have bits : x.bits ≤ sent.bits := Nat.le_trans (Nat.le_of_eq cut.bits) shorter
  exact ⟨fun a => cut.covers shorter, cut.family, bits, Nat.le_trans bits sent.bits_le⟩

namespace Validation

variable {r : Request} {res : Resolution} {m : Message} {x : Subnet}

theorem validFor_eq_some_iff {sent : Subnet} {e : ClientSubnet} :
    validFor sent e = some x ↔ e.scope ≠ 0 ∧ x.IsCut sent (min e.scope sent.bits) := by
  rw [Subnet.isCut_iff (Nat.min_le_right ..), validFor]
  by_cases whole : e.scope = 0
  · rw [if_pos whole]
    exact ⟨nofun, fun h => absurd whole h.1⟩
  · rw [if_neg whole, Option.some.injEq]
    exact ⟨fun h => ⟨whole, h⟩, fun h => h.2⟩

theorem spoofs_iff : Spoofs r m ↔ r.tcp = false ∧ ∃ sent e, 0 < r.ednsLevel ∧
    r.sourceMask = some sent ∧ m.Echoes e ∧ e.source ≠ sent := by
  constructor
  · rintro ⟨udp, edns, sent, o, e, hsent, hopt, hread, other⟩
    exact ⟨udp, sent, e, edns, hsent, Message.echoes_iff.mpr ⟨o, hopt, hread⟩, other⟩
  · rintro ⟨udp, sent, e, edns, hsent, echoed, other⟩
    rcases Message.echoes_iff.mp echoed with ⟨o, hopt, hread⟩
    exact ⟨udp, edns, sent, o, e, hsent, hopt, hread, other⟩

/-- A response to the query that is no spoof is good for what the scope leaves of the network. -/
theorem subnet_checkSubnet (h : ¬ Spoofs r m) :
    (checkSubnet r res m).resolution.subnet = some x ↔ Narrows r m x := by
  rw [checkSubnet_not_spoofs res h]
  show (m.opt.bind (echo? r)).bind _ = some x ↔ _
  rw [Option.bind_eq_some_iff]
  constructor
  · rintro ⟨⟨sent, e⟩, hecho, hvalid⟩
    rcases Option.bind_eq_some_iff.mp hecho with ⟨o, hopt, hboth⟩
    rcases echo?_eq_some_iff.mp hboth with ⟨edns, hsent, hread⟩
    exact ⟨sent, e, edns, hsent, Message.echoes_iff.mpr ⟨o, hopt, hread⟩,
      validFor_eq_some_iff.mp hvalid⟩
  · rintro ⟨sent, e, edns, hsent, echoed, narrowed⟩
    rcases Message.echoes_iff.mp echoed with ⟨o, hopt, hread⟩
    refine ⟨(sent, e), ?_, validFor_eq_some_iff.mpr narrowed⟩
    rw [hopt, Option.bind_some]
    exact echo?_eq_some_iff.mpr ⟨edns, hsent, hread⟩

/-- What a response is good for, if it is a valid packet with a question. -/
theorem subnet_validate (c : Config) (r : Request) (elapsed : Duration) (chained : Bool)
    (data : Octets) (x : Subnet) :
    let res := (validate c r (Task.draft elapsed chained) data).resolution
    res.subnet = some x ↔ res.validPacket = true ∧
      ∃ m, Message.decode data = .ok m ∧ m.question ≠ none ∧ Narrows r m x := by
  intro res
  have verdict : Verdict r data res := verdict_validate c r elapsed chained data
  by_cases valid : res.validPacket = true
  · rcases verdict.valid_iff.mp valid with ⟨m, hm, bare | ⟨repeats, genuine⟩⟩
    · have hres : res = { withHeader (Task.draft elapsed chained) m with validPacket := true } := by
        show (validate c r (Task.draft elapsed chained) data).resolution = _
        rw [validate, hm]
        exact ofMessage_bareFormatError bare
      rw [hres]
      refine ⟨nofun, ?_⟩
      rintro ⟨-, m', hm', asked, -⟩
      cases hm.symm.trans hm'
      exact absurd bare.1 asked
    · have hres : res =
          (checkSubnet r (withHeader (Task.draft elapsed chained) m) m).resolution := by
        show (validate c r (Task.draft elapsed chained) data).resolution = _
        rw [validate, hm]
        exact congrArg resolution (ofMessage_repeats repeats)
      have narrows : res.subnet = some x ↔ Narrows r m x := by
        rw [hres]
        exact subnet_checkSubnet genuine
      rw [narrows]
      constructor
      · intro h
        rcases repeats with ⟨q, hq, -⟩
        exact ⟨valid, m, hm, Option.ne_none_iff_exists'.mpr ⟨q, hq⟩, h⟩
      · rintro ⟨-, m', hm', -, h⟩
        cases hm.symm.trans hm'
        exact h
  · rw [(verdict.blank (Bool.eq_false_iff.mpr valid)).2]
    exact ⟨nofun, fun h => absurd h.1 valid⟩

end Validation

namespace Concludes

variable {c : Config} {r : Request} {outcome : Option (Except TransportError Octets)}
  {res : Resolution}

theorem subnet_eq_some_iff (h : Concludes c r outcome res) (x : Subnet) :
    res.subnet = some x ↔ res.validPacket = true ∧ ∃ data m, outcome = some (.ok data) ∧
      Message.decode data = .ok m ∧ m.question ≠ none ∧ Narrows r m x := by
  cases h with
  | unsent e => exact ⟨nofun, nofun⟩
  | failed e elapsed chained => exact ⟨nofun, nofun⟩
  | validated data elapsed chained =>
      have validated := Validation.subnet_validate c r elapsed chained data x
      simp only at validated
      rw [validated]
      constructor
      · rintro ⟨valid, m, narrowed⟩
        exact ⟨valid, data, m, rfl, narrowed⟩
      · rintro ⟨valid, data', m, same, narrowed⟩
        cases same
        exact ⟨valid, m, narrowed⟩

theorem verdict {data : Octets} (h : Concludes c r (some (.ok data)) res) :
    Verdict r data res := by
  cases h with
  | validated _ elapsed chained => exact Validation.verdict_validate c r elapsed chained data

/-- A usable result rests on a message that came. -/
theorem exists_usable (h : Concludes c r outcome res) (usable : res.isUsable = true) :
    ∃ data m, outcome = some (.ok data) ∧ Message.decode data = .ok m ∧ Usable r m := by
  have valid : res.validPacket = true := (Bool.and_eq_true_iff.mp usable).2
  match outcome, h with
  | none, .unsent e => cases valid
  | some (.error e), .failed .. => cases valid
  | some (.ok data), h =>
      rcases h.verdict.valid_iff.mp valid with ⟨m, hm, usable⟩
      exact ⟨data, m, rfl, hm, usable⟩

end Concludes

/-! ## Exchanges -/

namespace Dispatcher

/-- **The client subnet of a result.** Whatever is asked, over datagrams or streams, whatever
comes back, and whenever the steps of the exchange are taken: its result has a client subnet
exactly if it is a valid packet, there is EDNS, a client subnet was given, and a message with a
question came of which the first client subnet option can be read and has a scope. The client subnet
of the result is then the one that was given, cut to the scope or to its own length, whichever is
shorter, with no bit set behind that. It has all addresses of the one that was given, and is no
longer than that and than its family. A usable result rests on a message that came; if it came as a
datagram and has a question, its first client subnet option states no other source than was given.
Without EDNS the client subnet of a request makes no difference to the query, to the identity of the
query or to any step and result of the exchange. An exchange with nothing else going on takes such
steps. -/
theorem subnet_narrows (d : Dispatcher) (now : Time) (s : Shared) (r : Request) (n : Network) :
    (∀ ms res, ((d.begin now s r n).2.after d ms).result? = some res →
      let outcome := (d.begin now s r n).2.outcome? d ms
      (∀ x, res.subnet = some x ↔ res.validPacket = true ∧
        ∃ data m, outcome = some (.ok data) ∧ Message.decode data = .ok m ∧ m.question ≠ none ∧
          Narrows r m x) ∧
      (∀ x sent, res.subnet = some x → r.sourceMask = some sent →
        (∀ a, sent.Contains a → x.Contains a) ∧ x.family = sent.family ∧ x.bits ≤ sent.bits ∧
          x.bits ≤ sent.family.bits) ∧
      (res.isUsable = true → ∃ data m, outcome = some (.ok data) ∧ Message.decode data = .ok m ∧
        (r.tcp = false → 0 < r.ednsLevel → m.question ≠ none →
          ∀ sent e, r.sourceMask = some sent → m.Echoes e → e.source = sent))) ∧
    (r.ednsLevel = 0 → ∀ mask, let r' := { r with sourceMask := mask }
      r'.matchKey = r.matchKey ∧
        (∀ id tls, d.config.buildQuery r' id tls = d.config.buildQuery r id tls) ∧
        (d.begin now s r' n).1 = (d.begin now s r n).1 ∧
        (∀ ms, ((d.begin now s r' n).2.after d ms).result? =
            ((d.begin now s r n).2.after d ms).result? ∧
          (d.begin now s r' n).2.deeds d ms = (d.begin now s r n).2.deeds d ms) ∧
        d.resolve now s r' n = d.resolve now s r n) ∧
    ∃ ms, ((d.begin now s r n).2.after d ms).result? = some (d.resolve now s r n).resolution := by
  refine ⟨?_, ?_, ?_⟩
  · intro ms res ends outcome
    have concludes : Concludes d.config r outcome res := d.concludes_begin now s r n ends
    refine ⟨concludes.subnet_eq_some_iff, ?_, ?_⟩
    · intro x sent hx hsent
      rcases (concludes.subnet_eq_some_iff x).mp hx with ⟨-, data, m, -, -, -, narrowed⟩
      exact narrowed.covers hsent
    · intro usable
      rcases concludes.exists_usable usable with ⟨data, m, came, hm, fit⟩
      refine ⟨data, m, came, hm, ?_⟩
      intro udp edns asked sent e hsent echoed
      by_contra other
      rcases fit with bare | ⟨-, genuine⟩
      · exact asked bare.1
      · exact genuine (Validation.spoofs_iff.mpr ⟨udp, sent, e, edns, hsent, echoed, other⟩)
  · intro zero mask r'
    have bare : r.hasEdns = false := by rw [Request.hasEdns, zero]; rfl
    have begun : d.begin now s r' n =
        ((d.begin now s r n).1, (d.begin now s r n).2.withMask mask) :=
      begin_withMask bare mask d now s n
    have bare' : (d.begin now s r n).2.request.hasEdns = false := bare
    refine ⟨Request.matchKey_withMask bare mask, ?_, ?_, ?_, ?_⟩
    · intro id tls
      exact Config.buildQuery_withMask bare mask d.config id tls
    · rw [begun]
    · intro ms
      rcases Task.after_withMask (d := d) bare' mask ms with ⟨later, same⟩
      rw [begun]
      exact ⟨(congrArg Task.result? later).trans rfl, same⟩
    · rw [resolve, resolve, begun]
      exact Task.run_withMask bare' mask d now (d.begin now s r n).1
  · rcases (d.begin now s r n).2.exists_moments_run d now (d.begin now s r n).1 with
      ⟨ms, result, -⟩
    exact ⟨ms, result⟩

/-- One host of the client network. -/
def clientHost : Subnet := .host (.v4 192 0 2 7)

/-- A query on behalf of this host, over a stream. -/
def hostRequest : Request := { clientRequest with tcp := true, sourceMask := some clientHost }

/-- The response that comes over the first connection is for the whole network. -/
def echoNetwork : Network where
  connects := [⟨0, .ok { arrivals := [.data (Stream.frame echoedResponse)] }⟩]

/-- Over a stream another source is no spoof, and the result is good for the network of the host. -/
theorem subnet_narrows_host :
    let t := (begin {} 0 idleShared hostRequest echoNetwork).2
    ∃ res, (t.after {} (List.replicate 4 ⟨0, idleShared⟩)).result? = some res ∧
      res.isUsable = true ∧ res.subnet = some clientNetwork ∧ clientNetwork.bits = 24 ∧
      ∀ a, clientHost.Contains a → clientNetwork.Contains a := by
  intro t
  have ended : (t.after {} (List.replicate 4 ⟨0, idleShared⟩)).result?.isSome = true := by
    decide +kernel
  have came : (t.outcome? {} (List.replicate 4 ⟨0, idleShared⟩)).bind Except.toOption =
      some echoedResponse := by decide +kernel
  rcases Option.isSome_iff_exists.mp ended with ⟨res, ends⟩
  rcases Option.bind_eq_some_iff.mp came with ⟨_ | data, outcome, delivered⟩
  · cases delivered
  cases delivered
  let m := Message.ofEntries echoedResponse [mixedQuestion] [echoRecord]
  have verdict : Verdict hostRequest echoedResponse res := by
    have concludes : Concludes {} hostRequest (t.outcome? {} _) res :=
      concludes_begin {} 0 idleShared hostRequest echoNetwork ends
    rw [outcome] at concludes
    exact concludes.verdict
  have genuine : ¬ Spoofs hostRequest m := by
    intro spoofs
    cases spoofs.1
  have usable : Usable hostRequest m := .inr ⟨⟨mixedQuestion, rfl, by decide⟩, genuine⟩
  have valid : res.validPacket = true :=
    verdict.valid_iff.mpr ⟨m, decode_echoedResponse, usable⟩
  have opt : m.opt = some ⟨1232, 0, 0, 0, [echoOption]⟩ := by
    show (Message.ofEntries echoedResponse [mixedQuestion] [echoRecord]).opt = _
    rw [Message.ofEntries, List.findSome?_cons, opt?_echoRecord]
  have echoes : m.Echoes (.of clientNetwork 24) := Message.echoes_iff.mpr ⟨_, opt, by decide⟩
  have cut : clientNetwork.IsCut clientHost (min 24 clientHost.bits) :=
    (Subnet.isCut_iff (Nat.min_le_right ..)).mpr (by decide)
  have narrowed : Narrows hostRequest m clientNetwork :=
    ⟨clientHost, .of clientNetwork 24, by decide, rfl, echoes, by decide, cut⟩
  rcases subnet_narrows {} 0 idleShared hostRequest echoNetwork with ⟨results, -, -⟩
  rcases results _ res ends with ⟨subnet, covered, -⟩
  have good : res.subnet = some clientNetwork := by
    refine (subnet clientNetwork).mpr ⟨valid, echoedResponse, m, outcome, ?_, ?_, narrowed⟩
    · exact decode_echoedResponse
    · intro unasked
      cases unasked
  refine ⟨res, ends, ?_, good, rfl, (covered clientNetwork clientHost good rfl).1⟩
  rw [Resolution.isUsable, (verdict.valid m decode_echoedResponse valid).1, valid]
  rfl

end Dispatcher

end Querier
