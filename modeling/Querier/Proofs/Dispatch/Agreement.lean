import Querier.Proofs.Datagram.Acceptance
import Querier.Proofs.Dispatch.Verdict
import Querier.Proofs.Edns.Opt

/-!
# Receiving and validating agree

A response is checked twice. Whoever waits for a datagram looks at its question before
it is taken, and what was taken is validated for everyone who waited for it, the leader
as well as those who asked the same in another case. What passes the first check never
fails the second one for what the first one has looked at.

The first check cannot replace the second: it reads no further than the question, so a
datagram that it takes may still not decode, and without a question it takes any
datagram there is.

## Main results

* `Verdict.permanentError_iff`, `Verdict.spoofed_iff_spoofs`: which responses end in
  these two results.
* `Expectation.judge_agrees_validate`: the two checks agree.
-/

namespace Querier

/-! ## Results by their kinds -/

namespace Verdict

variable {r : Request} {data : Octets} {res : Resolution} {m : Message}

theorem kind_of_valid (h : Verdict r data res) (hvalid : res.validPacket = true) :
    res.kind = .success := by
  obtain ⟨m, hm, -⟩ := h.valid_iff.mp hvalid
  exact (h.valid m hm hvalid).1

theorem kind_of_error (h : Verdict r data res) {e : DecodeError}
    (he : Message.decode data = .error e) : res.kind = .success := by
  by_cases hvalid : res.validPacket = true
  · exact h.kind_of_valid hvalid
  · exact ((h.broken_iff (Bool.eq_false_iff.mpr hvalid)).mpr ⟨e, he⟩).1

theorem not_valid (h : Verdict r data res) (hm : Message.decode data = .ok m)
    (hunusable : ¬ Usable r m) : res.validPacket = false := by
  rw [Bool.eq_false_iff]
  intro hvalid
  obtain ⟨m', hm', husable⟩ := h.valid_iff.mp hvalid
  cases hm.symm.trans hm'
  exact hunusable husable

/-- A permanent error is a message with another question, or with none. -/
theorem permanentError_iff (h : Verdict r data res) (hm : Message.decode data = .ok m) :
    res.kind = .permanentError ↔ ¬ Repeats r m ∧ ¬ m.IsBareFormatError := by
  constructor
  · intro hkind
    have hinvalid : res.validPacket = false := by
      rw [Bool.eq_false_iff]
      intro hvalid
      cases hkind.symm.trans (h.kind_of_valid hvalid)
    have hunusable : ¬ Usable r m := by
      intro husable
      exact Bool.eq_false_iff.mp hinvalid (h.valid_iff.mpr ⟨m, hm, husable⟩)
    rw [Usable, not_or] at hunusable
    refine ⟨?_, hunusable.1⟩
    intro hrepeats
    have hspoofs : Spoofs r m := by
      by_contra hnot
      exact hunusable.2 ⟨hrepeats, hnot⟩
    cases hkind.symm.trans ((h.spoofed_iff hinvalid).mpr ⟨m, hm, hrepeats, hspoofs⟩)
  · rintro ⟨hrepeats, hbare⟩
    have hunusable : ¬ Usable r m := by
      rintro (hformErr | ⟨hyes, -⟩)
      · exact hbare hformErr
      · exact hrepeats hyes
    exact (h.mismatch m hm (h.not_valid hm hunusable) hrepeats).1

/-- Only a message that repeats the name is looked at closely enough to be a spoof. -/
theorem spoofed_iff_spoofs (h : Verdict r data res) (hm : Message.decode data = .ok m) :
    res.kind = .spoofed ↔ Repeats r m ∧ Spoofs r m := by
  constructor
  · intro hkind
    have hinvalid : res.validPacket = false := by
      rw [Bool.eq_false_iff]
      intro hvalid
      cases hkind.symm.trans (h.kind_of_valid hvalid)
    obtain ⟨m', hm', hspoof⟩ := (h.spoofed_iff hinvalid).mp hkind
    cases hm.symm.trans hm'
    exact hspoof
  · rintro ⟨hrepeats, hspoofs⟩
    have hunusable : ¬ Usable r m := by
      rintro (hbare | ⟨-, hnot⟩)
      · obtain ⟨q, hq, -⟩ := hrepeats
        cases hbare.1.symm.trans hq
      · exact hnot hspoofs
    exact (h.spoofed_iff (h.not_valid hm hunusable)).mpr ⟨m, hm, hrepeats, hspoofs⟩

end Verdict

/-! ## Responses to equal keys -/

namespace Expectation.Accepts

variable {x : Expectation} {data : Octets} {r : Request} {m : Message}

/-- The name that was asked for in one case is repeated for those who asked in another. -/
theorem repeats (h : x.Accepts data) (hkey : (x.key == r.matchKey) = true)
    (hm : Message.decode data = .ok m) {q : Question} (hq : m.question = some q) :
    Repeats r m := by
  have hasks := h.asks_of_decode hm hq
  rw [asks, Bool.and_eq_true] at hasks
  obtain ⟨-, hname, -, -⟩ := MatchKey.beq_iff.mp hkey
  exact ⟨q, hq, Name.same_trans hasks.1 hname⟩

/-- With hardening, a response to a query with a client subnet is a message. -/
theorem exists_echo (h : x.Accepts data) (hkey : (x.key == r.matchKey) = true)
    (hhardening : x.hardening = true) {sent : Subnet} (hsent : r.sentSubnet = some sent) :
    ∃ m, Message.decode data = .ok m ∧ echoed? m = some sent := by
  refine h.echo sent ?_
  obtain ⟨-, -, -, hsubnet⟩ := MatchKey.beq_iff.mp hkey
  rw [wantedSubnet, if_pos hhardening, hsubnet]
  exact hsent

/-- What echoes the client subnet that was sent is no spoof. -/
theorem not_spoofs {sent : Subnet} (hsent : r.sentSubnet = some sent)
    (hecho : echoed? m = some sent) : ¬ Spoofs r m := by
  rintro ⟨-, hedns, sent', o, echoed, hmask, hopt, hread, hne⟩
  have hsame : sent' = sent := by
    rw [Request.sentSubnet, Request.hasEdns, if_pos (decide_eq_true hedns), hmask] at hsent
    exact Option.some.inj hsent
  have hsource : echoed.source = sent := by
    rw [echoed?, hopt, Option.bind_some, hread, Option.map_some] at hecho
    exact Option.some.inj hecho
  exact hne (hsource.trans hsame.symm)

/-- A question that was found fault with could not have been taken. -/
theorem kind_ne_permanentError {res : Resolution} (h : x.Accepts data)
    (hkey : (x.key == r.matchKey) = true) (hverdict : Verdict r data res)
    (hannounced : (Header.read data).questions ≠ 0) : res.kind ≠ .permanentError := by
  obtain ⟨header, q, hpeek, -⟩ := h.exists_peek hannounced
  intro hkind
  cases hdecode : Message.decode data with
  | error e => cases hkind.symm.trans (hverdict.kind_of_error hdecode)
  | ok m =>
      have hsame := (Message.peek_of_decode hdecode).symm.trans hpeek
      rw [Except.ok.injEq, Prod.mk.injEq] at hsame
      obtain ⟨hother, -⟩ := (hverdict.permanentError_iff hdecode).mp hkind
      exact hother (h.repeats hkey hdecode hsame.2)

/-- A message that is no spoof and was taken is valid, unless it has nothing to say. -/
theorem valid_or_permanentError {res : Resolution} (h : x.Accepts data)
    (hkey : (x.key == r.matchKey) = true) (hverdict : Verdict r data res)
    (hm : Message.decode data = .ok m) (hgenuine : ¬ Spoofs r m) :
    res.validPacket = true ∨
      (res.kind = .permanentError ∧ m.question = none ∧ m.header.rcode ≠ .formErr) := by
  cases hquestion : m.question with
  | some q =>
      have hrepeats := h.repeats hkey hm hquestion
      exact .inl (hverdict.valid_iff.mpr ⟨m, hm, .inr ⟨hrepeats, hgenuine⟩⟩)
  | none =>
      by_cases hrcode : m.header.rcode = .formErr
      · exact .inl (hverdict.valid_iff.mpr ⟨m, hm, .inl ⟨hquestion, hrcode⟩⟩)
      · refine .inr ⟨(hverdict.permanentError_iff hm).mpr ⟨?_, ?_⟩, rfl, hrcode⟩
        · rintro ⟨q, hq, -⟩
          cases hquestion.symm.trans hq
        · intro hbare
          exact hrcode hbare.2

end Expectation.Accepts

/-! ## The two checks -/

/-- **Receiving and validating agree.** Let a datagram be taken for a key that is equal to
that of a request, which may be the request that was sent or one that was chained to it. If it
announces a question, that question can be read, and validation does not find fault with it. If
a client subnet was sent and has to come back, the datagram decodes and is not found to be a
spoof: it is a valid packet, or it has no question and is not even a format error. Peeking finds
what decoding finds, and hardening takes nothing that is not taken without it. -/
theorem Expectation.judge_agrees_validate (x : Expectation) (c : Config) (r : Request)
    (elapsed : Duration) (chained : Bool) (data : Octets) :
    (x.judge data = none → (x.key == r.matchKey) = true →
      let res := (validate c r (Task.draft elapsed chained) data).resolution
      ((Header.read data).questions ≠ 0 →
        (∃ header q, Message.peek data = .ok (header, some q)) ∧
          res.kind ≠ .permanentError) ∧
      (x.hardening = true → r.sentSubnet ≠ none →
        ∃ m, Message.decode data = .ok m ∧ res.kind ≠ .spoofed ∧
          (res.validPacket = true ∨
            (res.kind = .permanentError ∧ m.question = none ∧ m.header.rcode ≠ .formErr)))) ∧
    (∀ m, Message.decode data = .ok m → Message.peek data = .ok (m.header, m.question)) ∧
    ({ x with hardening := true }.judge data = none →
      { x with hardening := false }.judge data = none) := by
  refine ⟨?_, fun m hm => Message.peek_of_decode hm, ?_⟩
  · intro htaken hkey res
    have haccepts := judge_eq_none_iff.mp htaken
    have hverdict : Verdict r data res :=
      Validation.verdict_validate c r elapsed chained data
    constructor
    · intro hannounced
      obtain ⟨header, q, hpeek, -⟩ := haccepts.exists_peek hannounced
      exact ⟨⟨header, q, hpeek⟩, haccepts.kind_ne_permanentError hkey hverdict hannounced⟩
    · intro hhardening hsome
      obtain ⟨sent, hsent⟩ := Option.ne_none_iff_exists'.mp hsome
      obtain ⟨m, hdecode, hecho⟩ := haccepts.exists_echo hkey hhardening hsent
      have hgenuine : ¬ Spoofs r m := Accepts.not_spoofs hsent hecho
      refine ⟨m, hdecode, ?_, haccepts.valid_or_permanentError hkey hverdict hdecode hgenuine⟩
      intro hkind
      exact hgenuine ((hverdict.spoofed_iff_spoofs hdecode).mp hkind).2
  · intro htaken
    rw [judge_eq_none_iff] at htaken ⊢
    exact htaken.without_hardening

/-- The network that a client is in. -/
def clientNetwork : Subnet := .of (.v4 192 0 2 0) 24

/-- A query on behalf of a client, for the mail exchanges of a name of one label. -/
def clientRequest : Request where
  server := .of (.unspecified .v4) 53
  qname := ⟨[⟨[110, 101, 116], by decide, by decide⟩], by decide⟩
  qtype := .mx
  sourceMask := some clientNetwork

/-- The same was asked for before, in upper case, and the subnet has to come back. -/
def upperExpectation : Expectation where
  key := { clientRequest.matchKey with
    qname := ⟨[⟨[78, 69, 84], by decide, by decide⟩], by decide⟩ }
  id := 7
  hardening := true

/-- A response in mixed case that echoes the client subnet. -/
def echoedResponse : Octets :=
  #[0, 7, 128, 0, 0, 1, 0, 0, 0, 0, 0, 1,
    3, 78, 101, 116, 0, 0, 15, 0, 1,
    0, 0, 41, 4, 208, 0, 0, 0, 0, 0, 11, 0, 8, 0, 7, 0, 1, 24, 24, 192, 0, 2]

/-- Its question. -/
def mixedQuestion : Question :=
  .internet ⟨[⟨[78, 101, 116], by decide, by decide⟩], by decide⟩ .mx

/-- The option with which it echoes the client subnet. -/
def echoOption : EdnsOption := (ClientSubnet.of clientNetwork 24).toOption

/-- Its OPT record. -/
def echoRecord : Record where
  owner := .root
  rtype := .opt
  rclass := ⟨1232⟩
  ttl := Opt.ttlField 0 0 0
  data := (EdnsOption.encodeAll [echoOption]).toArray
  part := .additional

theorem decode_echoedResponse : Message.decode echoedResponse =
    .ok (.ofEntries echoedResponse [mixedQuestion] [echoRecord]) := by
  have question : mixedQuestion.At echoedResponse.view 12 21 := by
    refine ⟨17, .label ?_ (.root rfl), ?_, rfl⟩
    · exact View.holds_iff.mpr (by decide)
    · exact View.holds_iff.mpr (by decide)
  have opt : Record.At echoedResponse.view 21 echoRecord 43 := by
    refine ⟨22, 11, echoRecord.data.toList, .root rfl, ?_, ?_, rfl, rfl, rfl⟩
    · exact View.holds_iff.mpr (by decide)
    · exact View.holds_iff.mpr (by decide)
  refine Message.decode_eq_ok_iff.mpr ⟨_, _, ?_, rfl⟩
  exact ⟨by decide, rfl, rfl, 21, 43, .cons question .nil, .cons opt .nil⟩

theorem opt?_echoRecord : echoRecord.opt? = some ⟨1232, 0, 0, 0, [echoOption]⟩ := by
  have content : Opt.ofRecord echoRecord.rclass echoRecord.ttl echoRecord.data.toList =
      .ok ⟨1232, 0, 0, 0, [echoOption]⟩ := Opt.ofRecord_ttlField 1232 0 0 0 (by decide)
  rw [Record.opt?, if_pos (by decide), content]
  rfl

/-- The response to a query that someone else sent is a valid packet for this request. -/
theorem Expectation.judge_agrees_validate_otherCase :
    upperExpectation.judge echoedResponse = none ∧
      (upperExpectation.key == clientRequest.matchKey) = true ∧
      (Header.read echoedResponse).questions ≠ 0 ∧ clientRequest.sentSubnet ≠ none ∧
      (validate {} clientRequest (Task.draft 0 true) echoedResponse).resolution.validPacket =
        true := by
  have taken : upperExpectation.judge echoedResponse = none := by
    rw [judge_eq_none]
    refine ⟨by decide, by decide, by decide, _, decode_echoedResponse, by decide, ?_⟩
    rw [echoed?, Message.ofEntries, List.findSome?_cons, opt?_echoRecord]
    decide
  have equal : (upperExpectation.key == clientRequest.matchKey) = true := by decide
  have announced : (Header.read echoedResponse).questions ≠ 0 := by decide
  have sent : clientRequest.sentSubnet ≠ none := by decide
  obtain ⟨agrees, -⟩ :=
    judge_agrees_validate upperExpectation {} clientRequest 0 true echoedResponse
  obtain ⟨asked, echo⟩ := agrees taken equal
  obtain ⟨m, -, -, valid | ⟨wrong, -⟩⟩ := echo rfl sent
  · exact ⟨taken, equal, announced, sent, valid⟩
  · exact absurd wrong (asked announced).2

end Querier
