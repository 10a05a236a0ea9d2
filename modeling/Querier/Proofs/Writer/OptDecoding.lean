import Querier.Proofs.Message.Opt
import Querier.Proofs.Writer.Opt

/-!
# OPT records behind any message

An OPT record can be added to whatever stands in the buffer, and not only to what the writer
itself has put together from records. It is enough that with the open record complete there is
a message with nothing behind it. Then the record is one more entry at the end, and all entries
before it are where they were.

They also say what they said, but this is not for free. Adding the record changes the header: the
number of additional records, and the response code if there is one. A name may be spelled by way
of a pointer, and nothing keeps a pointer from leading into the header, so a name may be read from
octets that change. Entries are therefore read in the octets that last, and a message shows that
this is needed.

## Main results

* `bounded_run`: whatever is done with a writer, its open record lies inside the message.
* `Bounded.getElem?_addOpt`: the octets that last when an OPT record is added.
* `Built.whole`: the messages that the writer puts together from records are read in these.
* `addOpt_decodes`: the message is as large as was predicted, and decodes to what it was and the
  content of the OPT record.
* `not_forall_addOpt_decodes`: it need not if a name is read from octets that change.
-/

namespace Querier

open View

/-! ## Whole messages -/

/-- The octets that two buffers have in common, if they may differ in the response code and in the
number of additional records alone. -/
def Message.lasting (before after : Octets) : View := fun i =>
  if (i = 3 ∨ i = 10 ∨ i = 11) ∧ after[i]? ≠ before[i]? then none else before[i]?

/-- The buffer is a message of one question and these records, and nothing else: no OPT record is
among them, and they stand in a view of it up to its end. -/
structure Message.Whole (v : View) (b : Octets) (q : Question) (records : List Record) : Prop where
  grammar : Message.Grammar b [q] records
  others : ∀ r ∈ records, r.rtype ≠ .opt
  entries : ∃ mid, q.At v Header.length mid ∧ Sequence (Record.At v) mid records b.size

namespace Writer

/-! ## All states -/

namespace Bounded

variable {w : Writer}

theorem extend {w' : Writer} (h : w.Bounded) (hext : Extends w w') : w'.Bounded := by
  intro r hr
  rw [hext.current] at hr
  have := h r hr
  have := hext.size_le
  omega

theorem startRecord (w : Writer) (owner : Name) (rtype : RecordType) (ttl : UInt32)
    (rclass : Class) (part : Section) (compress : Bool) :
    (w.startRecord owner rtype ttl rclass part compress).Bounded := by
  generalize hw' : w.startRecord owner rtype ttl rclass part compress = w'
  obtain ⟨hopen, -, hsize⟩ := startRecord_fixed hw'.symm
  intro r hr
  cases hopen.symm.trans hr
  exact ⟨Nat.le_trans (Nat.le_add_left ..) hsize, Nat.le_refl _⟩

theorem step (h : w.Bounded) (op : Op) : (w.step op).Bounded := by
  by_cases hdata : op.isData = true
  · exact h.extend (.step hdata w)
  · cases op with
    | start owner rtype ttl rclass part compress =>
        exact startRecord w owner rtype ttl rclass part compress
    | commit => exact forall_mem_of_none (current_commit w)
    | rollback => exact forall_mem_of_none rfl
    | truncate => exact forall_mem_of_none rfl
    | header edit =>
        intro r hr
        show 10 ≤ r.start ∧ r.start ≤ (w.editHeader edit).content.size
        rw [size_editHeader]
        exact h r hr
    | opt payloadSize extendedCode flags options version =>
        have hclosed :
            (w.addOpt payloadSize extendedCode flags options version).current = none := by
          rw [addOpt_eq, current_commit]
        exact forall_mem_of_none hclosed
    | _ => exact absurd rfl hdata

theorem run (h : w.Bounded) (ops : List Op) : (w.run ops).Bounded := by
  induction ops generalizing w with
  | nil => exact h
  | cons op ops ih => exact ih (h.step op)

end Bounded

theorem bounded_run (qname : Name) (qtype : RecordType) (qclass : Class) (opcode : Opcode)
    (ops : List Op) : ((new qname qtype qclass opcode).run ops).Bounded := by
  refine Bounded.run (forall_mem_of_none ?_) ops
  obtain ⟨names, hnew, -⟩ := new_eq qname qtype qclass opcode
  rw [hnew]

/-! ## What changes -/

section

variable {w : Writer} (payloadSize extendedCode flags : UInt16) (options : List EdnsOption)
  (version : UInt8)

theorem size_content_withCode (w : Writer) (extendedCode : UInt16) :
    (w.withCode extendedCode).content.size = w.content.size := by
  unfold withCode
  split
  · rfl
  · exact size_editHeader w _

/-- Adding an OPT record changes the response code and the number of additional records, and nothing
else of the message with its open record complete. -/
theorem Bounded.getElem?_addOpt (h : w.Bounded) (hlong : Header.length ≤ w.content.size) {i : Nat}
    (hi : i < w.content.size) (hother : ¬ (i = 3 ∨ i = 10 ∨ i = 11)) :
    (w.addOpt payloadSize extendedCode flags options version).content[i]? =
      w.commit.content[i]? := by
  let coded := (w.commit.withCode extendedCode).content
  have hcommit : w.commit.content.size = w.content.size := h.size_commit
  have hsize : coded.size = w.content.size :=
    (size_content_withCode w.commit extendedCode).trans hcommit
  have hcounted : (Header.edit (Header.counted .additional) coded)[i]? = coded[i]? := by
    apply Header.getElem?_edit_counted_additional (hsize ▸ hlong)
    show i < 10 ∨ 12 ≤ i
    omega
  have hcoded : coded[i]? = w.commit.content[i]? := by
    unfold coded Writer.withCode
    split
    · rfl
    · exact Header.getElem?_edit_coded _ (hcommit ▸ hlong) (by omega)
  rw [h.content_addOpt hlong, Octets.getElem?_append, if_pos, hcounted, hcoded]
  rw [Header.size_edit, hsize]
  exact hi

/-- What lasts of a message is there when an OPT record has been added. -/
theorem Bounded.lasting_le (h : w.Bounded) (hlong : Header.length ≤ w.content.size) :
    let after := (w.addOpt payloadSize extendedCode flags options version).content
    Le (Message.lasting w.commit.content after) after.view := by
  intro after i o hi
  unfold Message.lasting at hi
  by_cases hchanged : (i = 3 ∨ i = 10 ∨ i = 11) ∧ after[i]? ≠ w.commit.content[i]?
  · rw [if_pos hchanged] at hi
    cases hi
  · rw [if_neg hchanged] at hi
    show after[i]? = some o
    rw [← hi]
    by_cases hplace : i = 3 ∨ i = 10 ∨ i = 11
    · exact not_not.mp fun hne => hchanged ⟨hplace, hne⟩
    · have hlt : i < w.commit.content.size := Octets.lt_size_of_view hi
      rw [h.size_commit] at hlt
      exact h.getElem?_addOpt _ _ _ _ _ hlong hlt hplace

/-- The header of a message with an OPT record. -/
theorem Bounded.read_addOpt (h : w.Bounded) (hlong : Header.length ≤ w.content.size) :
    Header.read (w.addOpt payloadSize extendedCode flags options version).content =
      (Header.counted .additional
        (if extendedCode = 0 then Header.read w.commit.content
        else Header.coded ⟨UInt8.ofNat (extendedCode.toNat % 16)⟩
          (Header.read w.commit.content)).narrowed).narrowed := by
  have hcommit : Header.length ≤ w.commit.content.size := h.size_commit ▸ hlong
  have hsize : Header.length ≤ (w.commit.withCode extendedCode).content.size := by
    rwa [size_content_withCode]
  have hcoded : Header.read (w.commit.withCode extendedCode).content =
      (if extendedCode = 0 then Header.read w.commit.content
        else Header.coded ⟨UInt8.ofNat (extendedCode.toNat % 16)⟩
          (Header.read w.commit.content)).narrowed := by
    unfold Writer.withCode
    split
    · exact (Header.narrowed_read _).symm
    · exact Header.read_edit (Header.coded ⟨UInt8.ofNat (extendedCode.toNat % 16)⟩) hcommit
  have hcounted : Header.length ≤ (Header.edit (Header.counted .additional)
      (w.commit.withCode extendedCode).content).size := by
    rwa [Header.size_edit]
  rw [h.content_addOpt hlong, Header.read_append_list _ _ hcounted, Header.read_edit _ hsize,
    hcoded]

theorem Bounded.count_addOpt (h : w.Bounded) (hlong : Header.length ≤ w.content.size)
    (s : Section) :
    (Header.read (w.addOpt payloadSize extendedCode flags options version).content).count s =
      if s = .additional then (Header.read w.commit.content).count .additional + 1
      else (Header.read w.commit.content).count s := by
  rw [h.read_addOpt _ _ _ _ _ hlong, Header.count_narrowed, Header.counted, Header.count_setCount]
  simp only [Header.count_narrowed]
  split <;> split <;> cases s <;> rfl

/-- The response code in the header is the lower part of the extended one, or as it was if that is
zero. -/
theorem Bounded.rcode_addOpt (h : w.Bounded) (hlong : Header.length ≤ w.content.size) :
    let header := Header.read (w.addOpt payloadSize extendedCode flags options version).content
    (extendedCode ≠ 0 → header.rcode.code.toNat = extendedCode.toNat % 16) ∧
      (extendedCode = 0 → header.rcode = (Header.read w.commit.content).rcode) := by
  intro header
  have hread := h.read_addOpt payloadSize extendedCode flags options version hlong
  constructor
  · intro hne
    rw [if_neg hne] at hread
    have hcode : header.rcode = ⟨UInt8.ofNat ((UInt8.ofNat ((UInt8.ofNat
        (extendedCode.toNat % 16)).toNat % 16)).toNat % 16)⟩ := congrArg Header.rcode hread
    rw [hcode]
    simp only [UInt8.toNat_ofNat']
    omega
  · intro hzero
    rw [if_pos hzero, Header.narrowed_read] at hread
    have hcode : header.rcode =
        (Header.counted .additional (Header.read w.commit.content)).narrowed.rcode :=
      congrArg Header.rcode hread
    have hnarrow := congrArg Header.rcode (Header.narrowed_read w.commit.content)
    exact hcode.trans hnarrow

end

/-! ## What the decoder finds -/

section

variable {w : Writer} {q : Question} {records : List Record}
  {payloadSize extendedCode flags : UInt16}
  {options : List EdnsOption} {version : UInt8}

/-- The OPT record as it stands in the message. -/
def optRecord (payloadSize : UInt16) (ttl : UInt32) (options : List EdnsOption) : Record where
  owner := .root
  rtype := .opt
  rclass := ⟨payloadSize⟩
  ttl
  data := (EdnsOption.encodeAll options).toArray
  part := .additional

theorem at_optRecord {v : View} {pos : Nat} {ttl : UInt32}
    (hholds : Holds v pos (optOctets payloadSize ttl options))
    (hfits : EdnsOption.wireLengthAll options ≤ 65535) :
    (optRecord payloadSize ttl options).At v pos
      (pos + (optOctets payloadSize ttl options).length) := by
  let len := UInt16.ofNat (EdnsOption.encodeAll options).length
  have hoctets : optOctets payloadSize ttl options =
      [0] ++ ((optRecord payloadSize ttl options).fixed len ++ EdnsOption.encodeAll options) := by
    simp only [optOctets, Record.fixed, optRecord, len, List.append_assoc]
  have hlen : (EdnsOption.encodeAll options).length = len.toNat := by
    have hlength := EdnsOption.length_encodeAll options
    exact (UInt16.toNat_ofNat_of_lt' (by show _ < 65536; omega)).symm
  rw [hoctets] at hholds ⊢
  obtain ⟨hroot, hrest⟩ := holds_append.mp hholds
  obtain ⟨hfixed, hdata⟩ := holds_append.mp hrest
  refine ⟨pos + 1, len, EdnsOption.encodeAll options, .root hroot.1, hfixed, hdata, hlen, ?_, rfl⟩
  rw [List.length_append, List.length_append, ← Nat.add_assoc, ← Nat.add_assoc]
  rfl

theorem opt?_optRecord (upper : UInt8) (hfits : EdnsOption.wireLengthAll options ≤ 65535) :
    (optRecord payloadSize (Opt.ttlField upper version flags) options).opt? =
      some { payloadSize, extendedCode := upper, version, flags, options } := by
  refine Record.opt?_eq_some_iff.mpr ⟨⟨rfl, rfl, rfl⟩, rfl, rfl, rfl, ?_⟩
  intro option hoption
  exact Nat.le_trans (EdnsOption.size_le_wireLengthAll hoption) hfits

/-- With an OPT record a whole message is one of the grammar. -/
theorem Bounded.grammar_addOpt (h : w.Bounded) (hlong : Header.length ≤ w.content.size)
    (hwhole : Message.Whole (Message.lasting w.commit.content
      (w.addOpt payloadSize extendedCode flags options version).content) w.commit.content q records)
    (hfits : EdnsOption.wireLengthAll options ≤ 65535)
    (hroom : (Header.read w.commit.content).additionals.toNat < 65535) :
    Message.Grammar (w.addOpt payloadSize extendedCode flags options version).content [q]
      (records ++ [optRecord payloadSize
        (Opt.ttlField (UInt8.ofNat (extendedCode.toNat / 16)) version flags) options]) := by
  let after := w.addOpt payloadSize extendedCode flags options version
  let ttl := Opt.ttlField (UInt8.ofNat (extendedCode.toNat / 16)) version flags
  have hle := h.lasting_le payloadSize extendedCode flags options version hlong
  have hcount := h.count_addOpt payloadSize extendedCode flags options version hlong
  obtain ⟨mid, hquestion, hrecords⟩ := hwhole.entries
  have hsize : (Header.edit (Header.counted .additional)
      (w.commit.withCode extendedCode).content).size = w.commit.content.size := by
    rw [Header.size_edit, size_content_withCode]
  have hlast : (optRecord payloadSize ttl options).At after.content.view w.commit.content.size
      (w.commit.content.size + (optOctets payloadSize ttl options).length) := by
    refine at_optRecord ?_ hfits
    have hend := Octets.holds_view_append (Header.edit (Header.counted .additional)
      (w.commit.withCode extendedCode).content) (optOctets payloadSize ttl options)
    rwa [hsize, ← h.content_addOpt hlong] at hend
  constructor
  · rw [size_addOpt h, sizeWithOptions]
    omega
  · exact hwhole.grammar.questions_length.trans (congrArg UInt16.toNat (hcount .question)).symm
  · have hanswers := congrArg UInt16.toNat (hcount .answer)
    have hauthorities := congrArg UInt16.toNat (hcount .authority)
    have hadditionals : (Header.read after.content).additionals.toNat =
        (Header.read w.commit.content).additionals.toNat + 1 := by
      refine (congrArg UInt16.toNat (hcount .additional)).trans ?_
      show ((Header.read w.commit.content).additionals + 1).toNat = _
      rw [UInt16.toNat_add]
      exact Nat.mod_eq_of_lt (Nat.succ_lt_succ hroom)
    rw [List.map_append, hwhole.grammar.parts, hadditionals, List.replicate_succ',
      List.append_assoc,
      show (Header.read after.content).answers.toNat = _ from hanswers,
      show (Header.read after.content).authorities.toNat = _ from hauthorities]
    simp only [List.append_assoc]
    rfl
  · have hbefore := hrecords.mono fun _ _ _ hat => hat.mono hle
    have hall := Sequence.append_iff.mpr ⟨_, hbefore, .cons hlast .nil⟩
    exact ⟨mid, _, .cons (hquestion.mono hle) .nil, hall⟩

/-- The OPT record is not among the records of the message, and it is the only one. -/
theorem ofEntries_addOpt (b b' : Octets) (q : Question) (others : ∀ r ∈ records, r.rtype ≠ .opt)
    (payloadSize flags : UInt16) (upper version : UInt8)
    (hfits : EdnsOption.wireLengthAll options ≤ 65535) :
    let m' := Message.ofEntries b' [q] (records ++
      [optRecord payloadSize (Opt.ttlField upper version flags) options])
    m'.question = (Message.ofEntries b [q] records).question ∧
      m'.records = (Message.ofEntries b [q] records).records ∧
      m'.opt = some { payloadSize, extendedCode := upper, version, flags, options } := by
  refine ⟨rfl, ?_, ?_⟩
  · show (records ++ _).filter (·.rtype ≠ .opt) = records.filter (·.rtype ≠ .opt)
    rw [List.filter_append]
    exact List.append_nil _
  · have silent : records.findSome? Record.opt? = none := by
      rw [List.findSome?_eq_none_iff]
      intro r hr
      exact if_neg fun hopt => others r hr hopt.1
    show (records ++ [_]).findSome? Record.opt? = _
    rw [List.findSome?_append, silent, Option.none_or, List.findSome?_singleton,
      opt?_optRecord upper hfits]

end

/-- **An OPT record is read back as it was written.** Whatever was done with a writer, as long as
there is a header: the message with an OPT record is as large as was predicted, whether or not a
record was open. Let the message with its open record complete be one of a single question and of
records that its header announces, none of them an OPT record, with nothing behind them; let all of
it be read in the octets that last when the OPT record is added, the options fit in the length of
its data, and the header have room to count it. Then the message with the OPT record decodes, to
the same question and the same records and to an OPT record with the payload size, version, flags
and options that were given. The extended response code is its upper part with the lower one in
the header, unless it is zero: then the upper part is zero, and the header has the code it had. -/
theorem addOpt_decodes (qname : Name) (qtype : RecordType) (qclass : Class) (opcode : Opcode)
    (ops : List Op) (payloadSize extendedCode flags : UInt16) (options : List EdnsOption)
    (version : UInt8)
    (hlong : Header.length ≤ ((new qname qtype qclass opcode).run ops).content.size) :
    let w := (new qname qtype qclass opcode).run ops
    let after := w.addOpt payloadSize extendedCode flags options version
    after.content.size = w.sizeWithOptions options ∧
      ∀ q records,
        Message.Whole (Message.lasting w.commit.content after.content) w.commit.content q records →
        extendedCode.toNat < 4096 → EdnsOption.wireLengthAll options ≤ 65535 →
        (Header.read w.commit.content).additionals.toNat < 65535 →
        ∃ m m' upper, Message.decode w.finish = .ok m ∧ Message.decode after.finish = .ok m' ∧
          m.question = some q ∧ m.records = records ∧
          m'.question = m.question ∧ m'.records = m.records ∧
          m'.opt = some { payloadSize, extendedCode := upper, version, flags, options } ∧
          (extendedCode ≠ 0 →
            upper.toNat * 16 + m'.header.rcode.code.toNat = extendedCode.toNat) ∧
          (extendedCode = 0 → upper = 0 ∧ m'.header.rcode = m.header.rcode) := by
  intro w after
  have h : w.Bounded := bounded_run qname qtype qclass opcode ops
  refine ⟨size_addOpt h .., ?_⟩
  intro q records hwhole hcode hfits hroom
  let upper := UInt8.ofNat (extendedCode.toNat / 16)
  have hgrammar := h.grammar_addOpt hlong hwhole hfits hroom
  obtain ⟨hquestion, hrecords, hopt⟩ := ofEntries_addOpt w.commit.content after.content q
    hwhole.others payloadSize flags upper version hfits
  obtain ⟨hcoded, hkept⟩ := h.rcode_addOpt payloadSize extendedCode flags options version hlong
  have hfinish : after.finish = after.content :=
    congrArg Writer.content (commit_of_none (by unfold after; rw [addOpt_eq, current_commit]))
  rw [hfinish]
  refine ⟨_, _, upper, Message.decode_eq_ok_iff.mpr ⟨_, _, hwhole.grammar, rfl⟩,
    Message.decode_eq_ok_iff.mpr ⟨_, _, hgrammar, rfl⟩, rfl, ?_, hquestion, hrecords, hopt, ?_, ?_⟩
  · exact List.filter_eq_self.mpr fun r hr => decide_eq_true (hwhole.others r hr)
  · intro hne
    show upper.toNat * 16 + (Header.read after.content).rcode.code.toNat = _
    rw [hcoded hne, UInt8.toNat_ofNat']
    omega
  · intro hzero
    refine ⟨?_, hkept hzero⟩
    unfold upper
    rw [hzero]
    rfl

/-! ## Messages that are put together from records -/

/-- What the writer puts together from records is read in the octets that last: it makes no
pointers into the header. -/
theorem Built.whole {w : Writer} {q : Question} {drafts : List Draft} {records : List Record}
    (h : Built w q drafts records) {answers authorities additionals : Nat}
    (hparts : drafts.map Draft.part = List.replicate answers .answer
      ++ List.replicate authorities .authority ++ List.replicate additionals .additional)
    (hanswers : answers ≤ 65535) (hauthorities : authorities ≤ 65535)
    (hadditionals : additionals ≤ 65535) (hdrafts : ∀ d ∈ drafts, d.rtype ≠ .opt)
    (after : Octets) :
    Message.Whole (Message.lasting w.content after) w.content q records where
  grammar := h.grammar hparts hanswers hauthorities hadditionals
  others r hr := of_decide_eq_true (List.filter_eq_self.mp (Draft.filter_eq h.decodes hdrafts) r hr)
  entries := by
    have hle : Le (w.settledView w.content.size) (Message.lasting w.content after) := by
      intro i o hi
      obtain ⟨-, ⟨hbehind, -⟩, hget⟩ := settledView_eq_some_iff.mp hi
      have hbehind : 12 ≤ i := hbehind
      rw [Message.lasting, if_neg (by omega)]
      exact hget
    exact ⟨w.questionEnd, h.question.mono hle, h.sequence.mono fun _ _ _ hat => hat.mono hle⟩

/-- An option of three octets. -/
def someOption : EdnsOption := ⟨⟨10⟩, #[1, 2, 3]⟩

/-- A record is open, and the extended response code is 23. -/
theorem addOpt_decodes_mailScript :
    let w := (new com .mx .internet ⟨0⟩).run (mailScript.flatMap Piece.ops)
    let after := w.addOpt 1232 23 0x8000 [someOption] 0
    Header.length ≤ w.content.size ∧ w.current ≠ none ∧
      after.content.size = w.sizeWithOptions [someOption] ∧
      ∃ m m' upper, Message.decode w.finish = .ok m ∧ Message.decode after.finish = .ok m' ∧
        m'.question = m.question ∧ m'.records = m.records ∧
        m'.opt = some ⟨1232, upper, 0, 0x8000, [someOption]⟩ ∧
        upper.toNat * 16 + m'.header.rcode.code.toNat = 23 := by
  intro w after
  have hnew := Built.new ⟨com, .mx, .internet⟩ ⟨0⟩
  rw [← commit_of_none hnew.closed] at hnew
  obtain ⟨records, h⟩ := hnew.run formed_mailScript
  rw [List.nil_append] at h
  have hparts : (mailScript.flatMap Piece.drafts).map Draft.part =
      List.replicate 1 .answer ++ List.replicate 0 .authority ++ List.replicate 1 .additional := rfl
  have hwhole := h.whole hparts (by decide) (by decide) (by decide)
    (Piece.rtype_ne_of_mem formed_mailScript) after.content
  have hadditionals : (Header.read w.commit.content).additionals = 1 := by
    refine (h.counts .additional).trans ?_
    rw [Draft.map_part_eq h.decodes, hparts]
    rfl
  have hlong : Header.length ≤ w.content.size := by
    obtain ⟨marks, sound⟩ := h.sound
    have hbounded : w.Bounded := bounded_run com .mx .internet ⟨0⟩ (mailScript.flatMap Piece.ops)
    exact hbounded.size_commit ▸ sound.length_le
  have hopen : w.current ≠ none := by decide +kernel
  obtain ⟨hsize, hdecodes⟩ := addOpt_decodes com .mx .internet ⟨0⟩ (mailScript.flatMap Piece.ops)
    1232 23 0x8000 [someOption] 0 hlong
  obtain ⟨m, m', upper, hm, hm', -, -, hquestion, hrecords, hopt, hcode, -⟩ :=
    hdecodes _ records hwhole (by decide) (by decide) (by rw [hadditionals]; decide)
  exact ⟨hlong, hopen, hsize, m, m', upper, hm, hm', hquestion, hrecords, hopt, hcode (by decide)⟩

/-! ## A name that is read from the header -/

/-- The data of a record is a pointer to the last octet of the header. -/
def headerPointer : List Op :=
  [.start .root .ns 60 .internet .answer true, .data [192, 11]]

/-- The message with this record. -/
def headerPointerOctets : Octets :=
  #[0, 0, 0, 0, 0, 1, 0, 1, 0, 0, 0, 0,
    0, 0, 2, 0, 1,
    0, 0, 2, 0, 1, 0, 0, 0, 60, 0, 2, 192, 11]

/-- The message with an OPT record as well. -/
def headerPointerAfter : Octets :=
  #[0, 0, 0, 0, 0, 1, 0, 1, 0, 0, 0, 1,
    0, 0, 2, 0, 1,
    0, 0, 2, 0, 1, 0, 0, 0, 60, 0, 2, 192, 11,
    0, 0, 41, 4, 208, 0, 0, 0, 0, 0, 0]

/-- The record with a name as its data. -/
def headerPointerRecord (n : Name) : Record where
  owner := .root
  rtype := .ns
  rclass := .internet
  ttl := 60
  data := n.wire.toArray
  part := .answer

/-- The name of one label, which is a zero octet. -/
def zeroLabel : Name := ⟨[⟨[0], by decide, by decide⟩], by decide⟩

theorem finish_headerPointer :
    ((new .root .ns .internet ⟨0⟩).run headerPointer).commit.content = headerPointerOctets ∧
      (((new .root .ns .internet ⟨0⟩).run headerPointer).addOpt 1232 0 0 [] 0).finish =
        headerPointerAfter := by
  decide +kernel

/-- There is no additional record, so the octet that is pointed to is zero and ends a name. -/
theorem whole_headerPointer : Message.Whole headerPointerOctets.view headerPointerOctets
    ⟨.root, .ns, .internet⟩ [headerPointerRecord .root] := by
  have question : Question.At headerPointerOctets.view 12 ⟨.root, .ns, .internet⟩ 17 :=
    ⟨13, .root rfl, holds_iff.mpr (by decide), rfl⟩
  have target : Spelled headerPointerOctets.view 11 Name.root.labels 12 := .root rfl
  have name : Spelled headerPointerOctets.view 28 Name.root.labels 30 :=
    .pointer rfl rfl ⟨by decide, rfl⟩ (by decide) target
  have data : DataField.At headerPointerOctets.view [.name] 28 (Name.root.wire ++ []) 30 :=
    .name name .nil
  have record : (headerPointerRecord .root).At headerPointerOctets.view 17 30 :=
    ⟨18, 2, [192, 11], .root rfl, holds_iff.mpr (by decide), holds_iff.mpr (by decide), rfl, rfl,
      data⟩
  constructor
  · exact ⟨by decide, rfl, rfl, 17, 30, .cons question .nil, .cons record .nil⟩
  · exact List.forall_mem_singleton.mpr (by decide)
  · exact ⟨17, question, .cons record .nil⟩

/-- The OPT record is an additional record, so the octet that is pointed to is one and begins a
label. -/
theorem decode_headerPointerAfter : Message.decode headerPointerAfter =
    .ok (.ofEntries headerPointerAfter [⟨.root, .ns, .internet⟩]
      [headerPointerRecord zeroLabel, optRecord 1232 0 []]) := by
  have question : Question.At headerPointerAfter.view 12 ⟨.root, .ns, .internet⟩ 17 :=
    ⟨13, .root rfl, holds_iff.mpr (by decide), rfl⟩
  have target : Spelled headerPointerAfter.view 11 zeroLabel.labels 14 :=
    .label (holds_iff.mpr (by decide)) (.root rfl)
  have name : Spelled headerPointerAfter.view 28 zeroLabel.labels 30 :=
    .pointer rfl rfl ⟨by decide, rfl⟩ (by decide) target
  have data : DataField.At headerPointerAfter.view [.name] 28 (zeroLabel.wire ++ []) 30 :=
    .name name .nil
  have record : (headerPointerRecord zeroLabel).At headerPointerAfter.view 17 30 :=
    ⟨18, 2, [192, 11], .root rfl, holds_iff.mpr (by decide), holds_iff.mpr (by decide), rfl, rfl,
      data⟩
  have opt : (optRecord 1232 0 []).At headerPointerAfter.view 30 41 :=
    at_optRecord (holds_iff.mpr (by decide)) (by decide)
  refine Message.decode_eq_ok_iff.mpr ⟨_, _, ?_, rfl⟩
  exact ⟨by decide, rfl, rfl, 17, 41, .cons question .nil, .cons record (.cons opt .nil)⟩

/-- Records of a whole message need not stay the same when an OPT record is added: here a name is
read from the number of additional records. -/
theorem not_forall_addOpt_decodes :
    ¬ ∀ (qname : Name) (qtype : RecordType) (qclass : Class) (opcode : Opcode) (ops : List Op)
        (payloadSize extendedCode flags : UInt16) (options : List EdnsOption) (version : UInt8)
        (q : Question) (records : List Record),
      let w := (new qname qtype qclass opcode).run ops
      let after := w.addOpt payloadSize extendedCode flags options version
      Message.Whole w.commit.content.view w.commit.content q records →
      extendedCode.toNat < 4096 → EdnsOption.wireLengthAll options ≤ 65535 →
      (Header.read w.commit.content).additionals.toNat < 65535 →
      ∃ m', Message.decode after.finish = .ok m' ∧ m'.records = records := by
  intro h
  obtain ⟨hbefore, hafter⟩ := finish_headerPointer
  have hwhole := whole_headerPointer
  have hroom : (Header.read headerPointerOctets).additionals.toNat < 65535 := by decide
  rw [← hbefore] at hwhole hroom
  obtain ⟨m', hm', hrecords⟩ := h .root .ns .internet ⟨0⟩ headerPointer 1232 0 0 [] 0 _ _ hwhole
    (by decide) (by decide) hroom
  rw [hafter, decode_headerPointerAfter] at hm'
  cases hm'
  have hdata := congrArg (List.map Record.data) hrecords
  exact absurd hdata (by decide)

end Writer

end Querier
