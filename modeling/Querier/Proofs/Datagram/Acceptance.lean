import Querier.Datagram.Acceptance
import Querier.Proofs.Message.Grammar

/-!
# What is accepted

A datagram is looked at with two readers. Peeking reads the header and the first
question, and decoding reads all there is. Where both have a result, they agree, so what
`judge` finds in either reader can be said of peeking, and only the echo of the client
subnet needs the whole message.

## Main results

* `Message.peek_of_decode`: what decodes can be peeked at, with the same header and
  question.
* `Expectation.judge_eq_none_iff`: which datagrams are taken.
* `Expectation.Accepts.without_hardening`: hardening only ever takes less.
-/

namespace Querier

/-! ## Peeking -/

namespace Message

variable {b : Octets} {h : Header}

theorem peek_eq_ok_iff {question : Option Question} :
    peek b = .ok (h, question) ↔ Header.length ≤ b.size ∧ h = Header.read b ∧
      ((h.questions = 0 ∧ question = none) ∨
        (h.questions ≠ 0 ∧ ∃ q stop, q.At b.view Header.length stop ∧ question = some q)) := by
  simp only [peek, Octets.bind_eq_ok_iff, Header.read?_eq_ok_iff]
  constructor
  · rintro ⟨_, ⟨hsize, rfl⟩, hread⟩
    by_cases hzero : (Header.read b).questions = 0
    · rw [if_pos hzero] at hread
      cases hread
      exact ⟨hsize, rfl, .inl ⟨hzero, rfl⟩⟩
    · rw [if_neg hzero] at hread
      obtain ⟨⟨q, stop⟩, hq, hresult⟩ := Octets.bind_eq_ok_iff.mp hread
      cases hresult
      exact ⟨hsize, rfl, .inr ⟨hzero, q, stop, Question.read_eq_ok_iff.mp hq, rfl⟩⟩
  · rintro ⟨hsize, rfl, hquestion⟩
    refine ⟨_, ⟨hsize, rfl⟩, ?_⟩
    rcases hquestion with ⟨hzero, rfl⟩ | ⟨hsome, q, stop, hq, rfl⟩
    · rw [if_pos hzero]
      rfl
    · rw [if_neg hsome]
      exact Octets.bind_eq_ok_iff.mpr ⟨(q, stop), Question.read_eq_ok_iff.mpr hq, rfl⟩

/-- What decodes can be peeked at, and peeking finds the header and the question of the
message. -/
theorem peek_of_decode {m : Message} (h : decode b = .ok m) :
    peek b = .ok (m.header, m.question) := by
  obtain ⟨qs, rs, hgrammar, rfl⟩ := decode_eq_ok_iff.mp h
  have hcount := hgrammar.questions_length
  obtain ⟨mid, stop, hquestions, -⟩ := hgrammar.sequence
  refine peek_eq_ok_iff.mpr ⟨hgrammar.header, rfl, ?_⟩
  cases hquestions with
  | nil =>
      have hzero : (Header.read b).questions = 0 := by
        rw [← UInt16.toNat_inj]
        exact hcount.symm
      exact .inl ⟨hzero, rfl⟩
  | cons head tail =>
      refine .inr ⟨?_, _, _, head, rfl⟩
      intro hzero
      rw [show (Header.read b).questions = 0 from hzero] at hcount
      cases hcount

end Message

/-! ## Accepting -/

namespace Expectation

variable {x : Expectation} {data : Octets}

/-- The client subnet that a message echoes. -/
def echoed? (m : Message) : Option Subnet :=
  (m.opt.bind Opt.clientSubnet?).map (·.source)

/-- What makes a datagram the response that is expected. -/
structure Accepts (x : Expectation) (data : Octets) : Prop where
  size : Header.length ≤ data.size
  id : (Header.read data).id = x.id
  qr : (Header.read data).qr = true
  /-- The first question can be read, if there is one, and is the one that was asked. -/
  question : ∃ header question, Message.peek data = .ok (header, question) ∧
    ∀ q, question = some q → x.asks q = true
  /-- With hardening, the whole message can be read and echoes what was sent. -/
  echo : ∀ sent, x.wantedSubnet = some sent →
    ∃ m, Message.decode data = .ok m ∧ echoed? m = some sent

theorem judgeQuestion_eq_none_iff {question : Option Question} :
    x.judgeQuestion question = none ↔ ∀ q, question = some q → x.asks q = true := by
  cases question with
  | none =>
      constructor
      · intro _ q hq
        cases hq
      · intro _
        rfl
  | some q =>
      simp only [judgeQuestion, Option.some.injEq, forall_eq']
      by_cases hasks : x.asks q = true
      · simp only [hasks, if_true]
      · simp only [hasks, if_false, reduceCtorEq]

theorem judgeEcho_eq_none_iff {sent : Subnet} {m : Message} :
    x.judgeEcho sent m = none ↔
      (∀ q, m.question = some q → x.asks q = true) ∧ echoed? m = some sent := by
  rw [← judgeQuestion_eq_none_iff]
  unfold judgeEcho
  cases x.judgeQuestion m.question with
  | some r => simp only [reduceCtorEq, false_and]
  | none =>
      simp only [true_and]
      show (if echoed? m = some sent then none else some _) = none ↔ _
      by_cases hecho : echoed? m = some sent
      · simp only [hecho, if_true]
      · simp only [hecho, if_false, reduceCtorEq]

/-- What is left to ask once the header is right. -/
theorem judge_eq_none :
    x.judge data = none ↔ Header.length ≤ data.size ∧ (Header.read data).id = x.id ∧
      (Header.read data).qr = true ∧
      match x.wantedSubnet with
      | none => ∃ found, Message.peek data = .ok found ∧
          ∀ q, found.2 = some q → x.asks q = true
      | some sent => ∃ m, Message.decode data = .ok m ∧
          (∀ q, m.question = some q → x.asks q = true) ∧ echoed? m = some sent := by
  unfold judge
  cases hread : Header.read? data with
  | error e =>
      simp only [reduceCtorEq, false_iff, not_and]
      intro hsize
      rw [Header.read?_eq_ok_iff.mpr ⟨hsize, rfl⟩] at hread
      cases hread
  | ok header =>
      obtain ⟨hsize, rfl⟩ := Header.read?_eq_ok_iff.mp hread
      simp only [hsize, true_and]
      by_cases hwrong : (Header.read data).id ≠ x.id ∨ (Header.read data).qr = false
      · rw [if_pos hwrong]
        simp only [reduceCtorEq, false_iff, not_and]
        intro hid hqr
        rcases hwrong with hne | hclear
        · exact absurd hid hne
        · exact absurd (hqr.symm.trans hclear) (by decide)
      · rw [if_neg hwrong]
        rw [not_or, not_not, Bool.not_eq_false] at hwrong
        simp only [hwrong.1, hwrong.2, true_and]
        cases x.wantedSubnet with
        | none =>
            cases Message.peek data with
            | error e => simp only [reduceCtorEq, false_and, exists_false]
            | ok found =>
                simp only [judgeQuestion_eq_none_iff, Except.ok.injEq, exists_eq_left']
        | some sent =>
            cases Message.decode data with
            | error e => simp only [reduceCtorEq, false_and, exists_false]
            | ok m => simp only [judgeEcho_eq_none_iff, Except.ok.injEq, exists_eq_left']

/-- Which datagrams are taken, whichever reader looks at them. -/
theorem judge_eq_none_iff : x.judge data = none ↔ x.Accepts data := by
  rw [judge_eq_none]
  cases hwanted : x.wantedSubnet with
  | none =>
      constructor
      · rintro ⟨hsize, hid, hqr, ⟨header, question⟩, hpeek, hasks⟩
        refine ⟨hsize, hid, hqr, ⟨header, question, hpeek, hasks⟩, ?_⟩
        intro sent hsent
        cases hwanted.symm.trans hsent
      · intro h
        obtain ⟨header, question, hpeek, hasks⟩ := h.question
        exact ⟨h.size, h.id, h.qr, (header, question), hpeek, hasks⟩
  | some sent =>
      constructor
      · rintro ⟨hsize, hid, hqr, m, hdecode, hasks, hechoed⟩
        refine ⟨hsize, hid, hqr, ⟨_, _, Message.peek_of_decode hdecode, hasks⟩, ?_⟩
        intro sent' hsent'
        cases hwanted.symm.trans hsent'
        exact ⟨m, hdecode, hechoed⟩
      · intro h
        obtain ⟨m, hdecode, hechoed⟩ := h.echo sent hwanted
        obtain ⟨header, question, hpeek, hasks⟩ := h.question
        -- the question that was peeked at is the one of the message
        cases (Message.peek_of_decode hdecode).symm.trans hpeek
        exact ⟨h.size, h.id, h.qr, m, hdecode, hasks, hechoed⟩

namespace Accepts

/-- Hardening only ever takes less. -/
theorem without_hardening (h : Accepts { x with hardening := true } data) :
    Accepts { x with hardening := false } data where
  size := h.size
  id := h.id
  qr := h.qr
  question := h.question
  echo _ hsent := nomatch hsent

/-- A response that announces a question has one that can be read. -/
theorem exists_peek (h : x.Accepts data) (hsome : (Header.read data).questions ≠ 0) :
    ∃ header q, Message.peek data = .ok (header, some q) ∧ x.asks q = true := by
  obtain ⟨header, question, hpeek, hasks⟩ := h.question
  obtain ⟨-, rfl, ⟨hzero, -⟩ | ⟨-, q, stop, -, rfl⟩⟩ := Message.peek_eq_ok_iff.mp hpeek
  · exact absurd hzero hsome
  · exact ⟨_, q, hpeek, hasks q rfl⟩

/-- If a response can be read as a whole, its question is the one that was asked. -/
theorem asks_of_decode (h : x.Accepts data) {m : Message} (hm : Message.decode data = .ok m)
    {q : Question} (hq : m.question = some q) : x.asks q = true := by
  obtain ⟨header, question, hpeek, hasks⟩ := h.question
  cases (Message.peek_of_decode hm).symm.trans hpeek
  exact hasks q hq

end Accepts

end Expectation

end Querier
