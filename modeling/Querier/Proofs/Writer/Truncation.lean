import Querier.Proofs.Writer.Rollback
import Querier.Proofs.Writer.RoundTrip

/-!
# Taking back all records

A writer that takes back all of its records is as good as a new one for the same question. What
it has been through shows in the first four octets of its header, which hold the identifier, the
flags and the codes, and in settings that the next record makes anew.

This takes a writer that was left alone in two ways: the question is the only entry of the
question section, and nobody has changed the counts in the header by hand. The count of the
questions is the one that is not set to zero. The invariant is `Kept`: what a message is cut
back to is there all the time.

## Main results

* `Kept.step`, `Kept.run`: the beginning of the message is kept.
* `Kept.sameMessage_truncate`: cut back, it is a new message.
* `Anchored.truncate_truncate`: taking back all records twice is doing it once.
* `truncate_renews`: a writer that has taken back all of its records goes on like a new one.
-/

namespace Querier

/-! ## Counts -/

namespace Header

/-- The header with the counts of another one. -/
def withCountsOf (h h' : Header) : Header :=
  { h with
    questions := h'.questions
    answers := h'.answers
    authorities := h'.authorities
    additionals := h'.additionals }

theorem count_withCountsOf (h h' : Header) (s : Section) :
    (h.withCountsOf h').count s = h'.count s := by
  cases s <;> rfl

/-- The counts are all but the first four octets. -/
theorem octets_withCountsOf (h h' : Header) :
    (h.withCountsOf h').octets = h.octets.take 4 ++ h'.octets.drop 4 := rfl

/-- The header with no records counted. -/
def withoutRecords (h : Header) : Header :=
  { h with answers := 0, authorities := 0, additionals := 0 }

end Header

namespace Writer

open View

/-! ## Runs that leave the counts alone -/

/-- An operation counts no question, and changes no count by hand. -/
def SparesCounts (w : Writer) : Op → Prop
  | .start _ _ _ _ part _ => part ≠ .question
  | .header edit =>
    ∀ s, (edit (Header.read w.content)).count s = (Header.read w.content).count s
  | _ => True

/-- No operation of a run counts a question or changes a count by hand. -/
def Sparing (w : Writer) : List Op → Prop
  | [] => True
  | op :: ops => w.SparesCounts op ∧ (w.step op).Sparing ops

/-! ## New messages with used headers -/

/-- A new message with the header of another one, but for the counts. -/
def newLike (q : Question) (opcode : Opcode) (b : Octets) : Writer :=
  (new q.qname q.qtype q.qclass opcode).editHeader (Header.read b).withCountsOf

section NewLike

variable (q : Question) (opcode : Opcode)

/-- The header of the other message shows in the first four octets alone. -/
theorem content_newLike {b : Octets} (h : Header.length ≤ b.size) :
    (newLike q opcode b).content = b.extract 0 4 ++
      (new q.qname q.qtype q.qclass opcode).content.extract 4
        (new q.qname q.qtype q.qclass opcode).content.size := by
  have hlong : Header.length ≤ (new q.qname q.qtype q.qclass opcode).content.size := by
    rw [size_new]
    exact Nat.le_add_right _ _
  rw [newLike, editHeader]
  generalize (new q.qname q.qtype q.qclass opcode).content = c at hlong
  have hdrop : (c.toList.take Header.length).drop 4 ++ c.toList.drop Header.length =
      c.toList.drop 4 := by
    have hfour : 4 ≤ (c.toList.take Header.length).length := by
      rw [List.length_take, Array.length_toList]
      exact Nat.le_min.mpr ⟨by decide, Nat.le_trans (by decide) hlong⟩
    rw [← List.drop_append_of_le_length hfour, List.take_append_drop]
  have hfront : (b.extract 0 4).toList = b.toList.take 4 := by
    rw [Array.toList_extract, List.extract_eq_take_drop, List.drop_zero]
  refine Array.toList_inj.mp ?_
  rw [Header.edit_eq _ hlong, Header.octets_withCountsOf, Header.octets_read h,
    Header.octets_read hlong, List.take_take, Array.toList_append, Array.toList_append,
    Octets.toList_extract_size, Octets.toList_extract_size, hfront, List.append_assoc, hdrop]
  rfl

/-- Such a message decodes to its question alone. -/
theorem decode_newLike (b : Octets) : Message.decode (newLike q opcode b).content =
    .ok (Message.ofEntries (newLike q opcode b).content [q] []) := by
  have hbuilt : Built (newLike q opcode b) q [] [] :=
    (Built.new q opcode).editHeader fun s => Header.count_withCountsOf _ _ s
  have hparts : ([] : List Draft).map Draft.part = List.replicate 0 .answer
      ++ List.replicate 0 .authority ++ List.replicate 0 .additional := rfl
  have hgrammar := hbuilt.grammar hparts (by decide) (by decide) (by decide)
  exact Message.decode_eq_ok_iff.mpr ⟨_, _, hgrammar, rfl⟩

end NewLike

/-! ## The invariant -/

/-- What a message is cut back to is as in the new message: the question, its count, and the
names that are remembered in it. -/
structure Kept (w : Writer) (q : Question) (opcode : Opcode) : Prop where
  anchored : Anchored w q
  qname : w.qname = q.qname
  names : w.names.filter (· < w.questionEnd) = (new q.qname q.qtype q.qclass opcode).names
  questions : (Header.read w.content).questions = 1
  part : ∀ r ∈ w.current, r.part ≠ .question

namespace Kept

variable {w w' : Writer} {q : Question} {opcode : Opcode}

theorem new (q : Question) (opcode : Opcode) :
    Kept (.new q.qname q.qtype q.qclass opcode) q opcode where
  anchored := .new q opcode
  qname := qname_new q.qname q.qtype q.qclass opcode
  names := by
    refine List.filter_eq_self.mpr fun p hp => decide_eq_true ?_
    rw [questionEnd_new]
    rcases names_new q.qname q.qtype q.qclass opcode with hnone | hone
    · rw [hnone] at hp
      cases hp
    · rw [hone] at hp
      rw [List.mem_singleton.mp hp]
      omega
  questions := count_new q.qname q.qtype q.qclass opcode .question
  part := forall_mem_of_none (current_new q.qname q.qtype q.qclass opcode)

/-- All that counts of a change is what it does to the names before the end of the question, to
the number of questions, and to the section of the open record. -/
theorem frame (h : Kept w q opcode) (hanchored : Anchored w' q) (hqname : w'.qname = w.qname)
    (hnames : w'.names.filter (· < w.questionEnd) = w.names.filter (· < w.questionEnd))
    (hread : (Header.read w'.content).questions = (Header.read w.content).questions)
    (hpart : ∀ r ∈ w'.current, r.part ≠ .question) : Kept w' q opcode where
  anchored := hanchored
  qname := hqname.trans h.qname
  names := by
    rw [hanchored.questionEnd_eq, ← h.anchored.questionEnd_eq, hnames, h.names]
  questions := hread.trans h.questions
  part := hpart

theorem extend (h : Kept w q opcode) (hext : Extends w w') : Kept w' q opcode := by
  refine h.frame (h.anchored.extend hext) hext.qname
    (hext.filter_names h.anchored.questionEnd_le) ?_ ?_
  · rw [hext.read h.anchored.hasHeader]
  · rw [hext.current]
    exact h.part

theorem editHeader (h : Kept w q opcode) {f : Header → Header}
    (hf : (f (Header.read w.content)).questions = (Header.read w.content).questions) :
    Kept (w.editHeader f) q opcode := by
  refine h.frame (h.anchored.editHeader f) rfl rfl ?_ h.part
  exact (Header.count_read_edit f h.anchored.hasHeader .question).trans hf

theorem commit (h : Kept w q opcode) : Kept w.commit q opcode := by
  refine h.frame h.anchored.commit (qname_commit w) ?_ ?_ (forall_mem_of_none (current_commit w))
  · rw [names_commit]
  · cases hcur : w.current with
    | none => rw [commit_of_none hcur]
    | some r =>
        have hpart : Section.question ≠ r.part := (h.part r hcur).symm
        rw [read_commit h.anchored.inRange hcur]
        exact (Header.count_setCount _ r.part .question _).trans (if_neg hpart)

theorem startRecord (h : Kept w q opcode) (owner : Name) (rtype : RecordType) (ttl : UInt32)
    (rclass : Class) {part : Section} (hpart : part ≠ .question) (compress : Bool) :
    Kept (w.startRecord owner rtype ttl rclass part compress) q opcode := by
  have hcommit := h.commit
  have hext := Extends.startRecord w owner rtype ttl rclass part compress
  obtain ⟨hanchored, -⟩ := h.anchored.startRecord owner rtype ttl rclass part compress
  refine hcommit.frame hanchored hext.qname ?_ ?_ ?_
  · exact hext.filter_names hcommit.anchored.questionEnd_le
  · rw [hext.read hcommit.anchored.hasHeader]
    rfl
  · have hopen : (w.startRecord owner rtype ttl rclass part compress).current = some _ :=
      (startRecord_fixed rfl).1
    intro r hr
    rw [hopen] at hr
    rw [← Option.some.inj hr]
    exact hpart

theorem cutBack (h : Kept w q opcode) {len : Nat} (hlen : w.questionEnd ≤ len) :
    Kept (w.cutBack len) q opcode := by
  have hend := h.anchored.questionEnd_eq
  refine h.frame (h.anchored.cutBack hlen) rfl ?_ ?_ (forall_mem_of_none rfl)
  · show (w.names.filter (· < len)).filter (· < w.questionEnd) = _
    rw [List.filter_filter]
    refine List.filter_congr fun p _ => ?_
    rw [← Bool.decide_and, decide_eq_decide]
    omega
  · rw [Header.read_congr fun i hi => getElem?_cutBack w (by omega)]

theorem withCode (h : Kept w q opcode) (extendedCode : UInt16) :
    Kept (w.withCode extendedCode) q opcode := by
  unfold Writer.withCode
  split
  · exact h
  · exact h.editHeader rfl

theorem addOpt (h : Kept w q opcode) (payloadSize extendedCode flags : UInt16)
    (options : List EdnsOption) (version : UInt8) :
    Kept (w.addOpt payloadSize extendedCode flags options version) q opcode := by
  have hpart : Section.additional ≠ .question := by decide
  rw [addOpt_eq]
  exact (((h.withCode extendedCode).startRecord .root .opt _ _ hpart false).extend
    (Extends.push _ _)).commit

/-- Every operation that counts no question keeps the beginning of the message. -/
theorem step (h : Kept w q opcode) {op : Op} (hop : w.Permits op) (hcounts : w.SparesCounts op) :
    Kept (w.step op) q opcode := by
  cases op with
  | start owner rtype ttl rclass part compress => exact h.startRecord _ _ _ _ hcounts _
  | commit => exact h.commit
  | rollback =>
      obtain ⟨r, hr⟩ := Option.isSome_iff_exists.mp hop
      exact h.cutBack (h.anchored.current r hr).1
  | truncate => exact (h.cutBack (Nat.le_refl _)).editHeader rfl
  | header edit => exact h.editHeader (hcounts .question)
  | opt payloadSize extendedCode flags options version => exact h.addOpt ..
  | _ => exact h.extend (Extends.step rfl w)

theorem run (h : Kept w q opcode) {ops : List Op} (hops : w.Orderly ops)
    (hcounts : w.Sparing ops) : Kept (w.run ops) q opcode := by
  induction ops generalizing w with
  | nil => exact h
  | cons op ops ih => exact ih (h.step hops.1 hcounts.1) hops.2 hcounts.2

end Kept

/-! ## Messages that are cut back -/

theorem content_truncate (w : Writer) :
    w.truncate.content = Header.edit Header.withoutRecords (w.cutBack w.questionEnd).content := rfl

/-- Taking back all records twice is doing it once. -/
theorem Anchored.truncate_truncate {w : Writer} {q : Question} (h : Anchored w q) :
    w.truncate.truncate = w.truncate := by
  have hcut : Anchored (w.cutBack w.questionEnd) q := h.cutBack (Nat.le_refl _)
  have hsize : w.truncate.content.size = w.questionEnd := by
    rw [truncate, size_editHeader, size_cutBack h.questionEnd_le]
  have hagain : (w.truncate.cutBack w.truncate.questionEnd).content = w.truncate.content := by
    show w.truncate.content.extract 0 w.questionEnd = w.truncate.content
    rw [← hsize, Array.extract_size]
  have hcontent : w.truncate.truncate.content = w.truncate.content := by
    rw [content_truncate w.truncate, hagain, content_truncate w]
    exact Header.edit_edit hcut.hasHeader rfl
  have hnames : w.truncate.truncate.names = w.truncate.names := by
    show (w.names.filter (· < w.questionEnd)).filter (· < w.questionEnd) =
      w.names.filter (· < w.questionEnd)
    rw [List.filter_filter]
    simp only [Bool.and_self]
  calc w.truncate.truncate
      = { w.truncate with
          content := w.truncate.truncate.content
          names := w.truncate.truncate.names } := rfl
    _ = w.truncate := by rw [hcontent, hnames]

namespace Kept

variable {w : Writer} {q : Question} {opcode : Opcode}

/-- Cut back, the message is a new one but for the first four octets. -/
theorem sameMessage_truncate (h : Kept w q opcode) :
    SameMessage (newLike q opcode w.content) w.truncate where
  content := by
    have hend := h.anchored.questionEnd_eq
    have hcut := h.anchored.cutBack (Nat.le_refl _)
    have hnew := Anchored.new q opcode
    have hread : Header.read (w.cutBack w.questionEnd).content = Header.read w.content :=
      Header.read_congr fun i hi => getElem?_cutBack w (by omega)
    have hsize := size_cutBack h.anchored.questionEnd_le
    have hsize' := size_new q.qname q.qtype q.qclass opcode
    rw [← length_questionOctets] at hsize'
    have hheader : (Header.read w.content).withoutRecords =
        (Header.read w.content).withCountsOf (newHeader opcode).narrowed := by
      show _ = { (Header.read w.content).withoutRecords with questions := 1 }
      rw [← h.questions]
      rfl
    rw [content_truncate, newLike, Writer.editHeader]
    refine Header.edit_congr ?_ (by rw [hsize, hsize', hend]) fun i hi => ?_
    · rw [hread, read_new, hheader]
    · exact Octets.getElem?_eq_of_holds hcut.question hnew.question (hsize.trans hend) hsize' hi
  names := h.names
  qname := h.qname.trans (qname_new q.qname q.qtype q.qclass opcode).symm
  questionEnd := by
    refine h.anchored.questionEnd_eq.trans ?_
    rw [length_questionOctets]
    exact (questionEnd_new q.qname q.qtype q.qclass opcode).symm
  current := (current_new q.qname q.qtype q.qclass opcode).symm

end Kept

/-- **A truncated writer is as good as new.** Take any run on a new message that takes back
records only while one is open, counts no question and changes no count by hand. When all records
are then taken back, the message is a new one with the first four octets of its header from the
old one, the remembered names are those of a new message, and no record is open. To take back
all records again changes nothing, and the message decodes to its question alone. And in whatever
mode the writer goes on, from the next record on it is the same as the new one. -/
theorem truncate_renews (q : Question) (opcode : Opcode) (ops : List Op)
    (hops : (new q.qname q.qtype q.qclass opcode).Orderly ops)
    (hcounts : (new q.qname q.qtype q.qclass opcode).Sparing ops) :
    let start := new q.qname q.qtype q.qclass opcode
    let w := start.run ops
    let fresh := newLike q opcode w.content
    fresh.content = w.content.extract 0 4 ++ start.content.extract 4 start.content.size ∧
      w.truncate.content = fresh.content ∧ w.truncate.names = fresh.names ∧
      w.truncate.current = none ∧ fresh.current = none ∧
      w.truncate.truncate = w.truncate ∧
      Message.decode w.truncate.content = .ok
        { octets := w.truncate.content
          header := Header.read w.truncate.content
          question := some q
          records := []
          opt := none } ∧
      ∀ (canonic lowercase : Bool) (op : Op) (later : List Op), op.opens = true →
        (w.truncate.inMode canonic lowercase).run (op :: later) =
          (fresh.inMode canonic lowercase).run (op :: later) := by
  intro start w fresh
  have hkept : Kept w q opcode := (Kept.new q opcode).run hops hcounts
  have hsame : SameMessage fresh w.truncate := hkept.sameMessage_truncate
  have hnone : w.truncate.current = none := rfl
  have hfresh : fresh.current = none := current_new q.qname q.qtype q.qclass opcode
  refine ⟨content_newLike q opcode hkept.anchored.hasHeader, hsame.content, hsame.names, hnone,
    hfresh, hkept.anchored.truncate_truncate, ?_, ?_⟩
  · rw [hsame.content]
    exact decode_newLike q opcode w.content
  · intro canonic lowercase op later hop
    exact (Alike.inMode hsame.commit canonic lowercase).run (forall_mem_of_none hfresh)
      (forall_mem_of_none hnone) hop later

/-- A response with a mail exchange that is left open. -/
def openResponse : List Op :=
  (.header fun h => { h with id := 4660, qr := true }) :: openExchange

theorem truncate_renews_openResponse :
    let start := new com .mx .internet ⟨0⟩
    let w := start.run openResponse
    let fresh := newLike ⟨com, .mx, .internet⟩ ⟨0⟩ w.content
    start.Orderly openResponse ∧ start.Sparing openResponse ∧
      fresh.content = w.content.extract 0 4 ++ start.content.extract 4 start.content.size ∧
      w.truncate.content = fresh.content ∧ w.truncate.names = fresh.names ∧
      w.truncate.current = none ∧ fresh.current = none ∧
      w.truncate.truncate = w.truncate ∧
      Message.decode w.truncate.content = .ok
        { octets := w.truncate.content
          header := Header.read w.truncate.content
          question := some ⟨com, .mx, .internet⟩
          records := []
          opt := none } ∧
      ∀ (canonic lowercase : Bool) (op : Op) (later : List Op), op.opens = true →
        (w.truncate.inMode canonic lowercase).run (op :: later) =
          (fresh.inMode canonic lowercase).run (op :: later) := by
  intro start w fresh
  have hops : start.Orderly openResponse := ⟨trivial, trivial, trivial, trivial, trivial⟩
  have hsame (h : Header) (s : Section) :
      Header.count { h with id := 4660, qr := true } s = h.count s := by
    cases s <;> rfl
  have hpart : Section.answer ≠ .question := by decide
  have hcounts : start.Sparing openResponse := ⟨hsame _, hpart, trivial, trivial, trivial⟩
  exact ⟨hops, hcounts, truncate_renews ⟨com, .mx, .internet⟩ ⟨0⟩ openResponse hops hcounts⟩

end Writer

end Querier
