import Querier.Proofs.Datagram.Acceptance
import Querier.Proofs.Dispatch.Verdict

/-!
# Answers over streams

A datagram is looked at before it is taken: it has to carry the identifier of the query, to
be marked as a response and to repeat the question. Over a stream the response is whatever
message comes next, and only validation looks at it. Validation compares names and nothing
else.

So over a stream a message about the name that was asked for is a valid packet, be it the
answer to another type, the answer to an earlier query on a connection that is used again, or
a query.

## Main results

* `Expectation.judge_of_decode`: what is asked of a datagram that decodes and has a question.
* `Dispatcher.Delivers.valid_iff`: over a stream the name decides.
* `Dispatcher.valid_over_stream`: what a datagram would have to have beyond that.
* `Dispatcher.not_forall_valid_belongs`: a valid packet need not belong to the query.
-/

namespace Querier

/-- What is waited for in an exchange if the query goes out as a datagram. -/
def Task.expectation (t : Task) : Expectation where
  key := t.request.matchKey
  id := t.exchange.id
  hardening := false

/-- A datagram with a question is taken for what its header and its question say. -/
theorem Expectation.judge_of_decode {x : Expectation} {data : Octets} {m : Message}
    {q : Question} (hhardening : x.hardening = false) (hm : Message.decode data = .ok m)
    (hq : m.question = some q) :
    x.judge data = none ↔ m.header.id = x.id ∧ m.header.qr = true ∧ x.asks q = true := by
  have hpeek := Message.peek_of_decode hm
  obtain ⟨hsize, hheader, -⟩ := Message.peek_eq_ok_iff.mp hpeek
  have hwanted : x.wantedSubnet = none := by
    rw [wantedSubnet, hhardening]
    rfl
  rw [judge_eq_none, hwanted, ← hheader]
  constructor
  · intro ⟨_, hid, hqr, found, hfound, hasks⟩
    cases hpeek.symm.trans hfound
    exact ⟨hid, hqr, hasks q hq⟩
  · intro ⟨hid, hqr, hasks⟩
    refine ⟨hsize, hid, hqr, _, hpeek, ?_⟩
    intro q' hq'
    cases hq.symm.trans hq'
    exact hasks

namespace Dispatcher

variable {d : Dispatcher} {now : Time} {s : Shared} {r : Request} {n : Network} {data : Octets}
  {m : Message} {q : Question}

/-- Over a stream the name decides: nothing that comes there is a spoof. -/
theorem Delivers.valid_iff (h : d.Delivers now s r n data) (tcp : r.tcp = true)
    (hm : Message.decode data = .ok m) (hq : m.question = some q) :
    (d.resolve now s r n).resolution.validPacket = true ↔ q.qname.same r.qname = true := by
  obtain ⟨hverdict, -⟩ := Task.Delivers.verdict h
  have hvalid : (d.resolve now s r n).resolution.validPacket = true ↔
      ∃ m, Message.decode data = .ok m ∧ Usable r m := hverdict.valid_iff
  rw [hvalid]
  constructor
  · intro ⟨m', hm', husable⟩
    cases hm.symm.trans hm'
    rcases husable with hbare | ⟨⟨q', hq', hsame⟩, -⟩
    · cases hbare.1.symm.trans hq
    · cases hq.symm.trans hq'
      exact hsame
  · intro hsame
    have hspoofs : ¬ Spoofs r m := by
      intro hspoofs
      cases tcp.symm.trans hspoofs.1
    exact ⟨m, hm, .inr ⟨⟨q, hq, hsame⟩, hspoofs⟩⟩

/-- **Over a stream the name of the question decides.** Whatever message with a question comes
over a stream, the exchange ends with a valid packet exactly if the message repeats the name
that was asked for, in whatever case. For a datagram that is not enough: one with these octets
is taken exactly if, besides, it has the identifier of the query, is marked as a response and
repeats the type. -/
theorem valid_over_stream (tcp : r.tcp = true) (h : d.Delivers now s r n data)
    (hm : Message.decode data = .ok m) (hq : m.question = some q) :
    ((d.resolve now s r n).resolution.validPacket = true ↔ q.qname.same r.qname = true) ∧
      ((d.begin now s r n).2.expectation.judge data = none ↔
        (d.resolve now s r n).resolution.validPacket = true ∧
          m.header.id = (d.begin now s r n).2.exchange.id ∧ m.header.qr = true ∧
          q.qtype = r.qtype) := by
  have hvalid := h.valid_iff tcp hm hq
  refine ⟨hvalid, ?_⟩
  rw [Expectation.judge_of_decode rfl hm hq, hvalid, Expectation.asks, Bool.and_eq_true,
    beq_iff_eq]
  show _ ∧ _ ∧ q.qname.same r.qname = true ∧ q.qtype = r.qtype ↔ _
  constructor
  · intro ⟨hid, hqr, hname, htype⟩
    exact ⟨hname, hid, hqr, htype⟩
  · intro ⟨hname, hid, hqr, htype⟩
    exact ⟨hid, hqr, hname, htype⟩

/-! ## A stray message -/

/-- A query of someone else, for the addresses of the root. -/
def strayMessage : Octets := #[0, 9, 0, 0, 0, 1, 0, 0, 0, 0, 0, 0, 0, 0, 1, 0, 1]

/-- Its question. -/
def strayQuestion : Question := .internet .root ⟨1⟩

theorem decode_strayMessage : Message.decode strayMessage =
    .ok (.ofEntries strayMessage [strayQuestion] []) := by
  have question : strayQuestion.At strayMessage.view 12 17 :=
    ⟨13, .root rfl, View.holds_iff.mpr (by decide), rfl⟩
  refine Message.decode_eq_ok_iff.mpr ⟨_, _, ?_, rfl⟩
  exact ⟨by decide, rfl, rfl, 17, 17, .cons question .nil, .nil⟩

/-- A request for the mail exchanges of the root, over a stream. -/
def streamRequest : Request := { rootRequest with tcp := true }

/-- The message comes over the first connection. -/
def strayNetwork : Network where
  connects := [⟨0, .ok { arrivals := [.data (Stream.frame strayMessage)] }⟩]

theorem delivers_strayMessage :
    Delivers {} 0 idleShared streamRequest strayNetwork strayMessage :=
  delivers_stream rfl (by decide) rfl rfl

theorem valid_over_stream_stray :
    streamRequest.tcp = true ∧ Delivers {} 0 idleShared streamRequest strayNetwork strayMessage ∧
      (resolve {} 0 idleShared streamRequest strayNetwork).resolution.validPacket = true ∧
      (begin {} 0 idleShared streamRequest strayNetwork).2.expectation.judge strayMessage ≠
        none := by
  obtain ⟨hvalid, htaken⟩ := valid_over_stream (q := strayQuestion) rfl delivers_strayMessage
    decode_strayMessage rfl
  refine ⟨rfl, delivers_strayMessage, hvalid.mpr (by decide), ?_⟩
  intro h
  obtain ⟨-, -, hqr, -⟩ := htaken.mp h
  exact absurd hqr (by decide)

/-- A valid packet that came over a stream need not belong to the query: this one has another
identifier, is a query itself and asks for another type. -/
theorem not_forall_valid_belongs :
    ¬ ∀ (d : Dispatcher) (now : Time) (s : Shared) (r : Request) (n : Network) (data : Octets)
        (m : Message) (q : Question), r.tcp = true → d.Delivers now s r n data →
      Message.decode data = .ok m → m.question = some q →
      (d.resolve now s r n).resolution.validPacket = true →
        m.header.qr = true ∧ m.header.id = (d.begin now s r n).2.exchange.id ∧
          q.qname.same r.qname = true ∧ q.qtype = r.qtype := by
  intro h
  have hvalid := delivers_strayMessage.valid_iff rfl decode_strayMessage rfl
  obtain ⟨hqr, -⟩ := h {} 0 idleShared streamRequest strayNetwork strayMessage _ strayQuestion rfl
    delivers_strayMessage decode_strayMessage rfl (hvalid.mpr (by decide))
  exact absurd hqr (by decide)

end Dispatcher

end Querier
