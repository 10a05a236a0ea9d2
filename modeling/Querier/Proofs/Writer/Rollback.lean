import Querier.Proofs.Writer.Question

/-!
# Taking back a record

Taking back a record cuts the message to where the record began, but it does not give back the
writer as it was. To start the record completed the one before; where the record began and
whether it allowed compression are left over, and so is the mode that was switched to while it
was open.

What is left over is harmless, because the next record does not look at it. Two writers that
come to the same message once their open records are complete, and are in the same mode, are
`Alike`; and once both of them start a record, they are the same.

## Main results

* `Alike.startRecord`, `Alike.step`: writers that are alike start a record in the same way.
* `Alike.run`: so all that follows is the same.
* `rollback_restores`: a record that is taken back makes no difference to the message, nor to
  any record after it.
-/

namespace Querier.Writer

/-! ## Writers that are alike -/

/-- The writer in a mode. -/
def inMode (w : Writer) (canonic lowercase : Bool) : Writer := { w with canonic, lowercase }

/-- Two writers are in the same mode, and at the same message with all their records complete. -/
structure Alike (w w' : Writer) : Prop where
  message : SameMessage w.commit w'.commit
  canonic : w'.canonic = w.canonic
  lowercase : w'.lowercase = w.lowercase

theorem commit_inMode (w : Writer) (canonic lowercase : Bool) :
    (w.inMode canonic lowercase).commit = w.commit.inMode canonic lowercase := by
  cases hcur : w.current with
  | none =>
      rw [commit_of_none hcur]
      exact commit_of_none hcur
  | some r =>
      unfold commit
      rw [hcur]
      simp only [inMode, hcur]
      rfl

namespace Alike

variable {w w' : Writer}

/-- In the same mode all that counts is the message. -/
theorem inMode (h : SameMessage w.commit w'.commit) (canonic lowercase : Bool) :
    Alike (w.inMode canonic lowercase) (w'.inMode canonic lowercase) where
  message := by
    rw [commit_inMode, commit_inMode]
    exact ⟨h.content, h.names, h.qname, h.questionEnd, h.current⟩
  canonic := rfl
  lowercase := rfl

/-- The settings of the record before are made anew. -/
theorem ready (h : Alike w w') (compress : Bool) : w'.ready compress = w.ready compress := by
  have hcontent := h.message.content
  have hnames := h.message.names
  have hqname := h.message.qname
  have hend := h.message.questionEnd
  rw [names_commit, names_commit] at hnames
  rw [qname_commit, qname_commit] at hqname
  rw [questionEnd_commit, questionEnd_commit] at hend
  rw [Writer.ready, Writer.ready, commit_eq w', commit_eq w]
  simp only [hcontent, hnames, hqname, hend, h.canonic, h.lowercase]

theorem startRecord (h : Alike w w') (owner : Name) (rtype : RecordType) (ttl : UInt32)
    (rclass : Class) (part : Section) (compress : Bool) :
    w'.startRecord owner rtype ttl rclass part compress =
      w.startRecord owner rtype ttl rclass part compress := by
  rw [startRecord_eq_push, startRecord_eq_push, h.ready]

/-- The response code is set before the open record is complete, but it might as well be set
after. -/
theorem withCode (h : Alike w w') (hw : w.InRange) (hw' : w'.InRange) (extendedCode : UInt16) :
    Alike (w.withCode extendedCode) (w'.withCode extendedCode) where
  message := by
    rw [commit_withCode hw, commit_withCode hw']
    unfold Writer.withCode
    split
    · exact h.message
    · exact h.message.editHeader _
  canonic := by
    unfold Writer.withCode
    split <;> exact h.canonic
  lowercase := by
    unfold Writer.withCode
    split <;> exact h.lowercase

/-- Writers that are alike become the same when they start a record. -/
theorem step (h : Alike w w') (hw : w.InRange) (hw' : w'.InRange) {op : Op}
    (hop : op.opens = true) : w'.step op = w.step op := by
  cases op with
  | start owner rtype ttl rclass part compress => exact h.startRecord ..
  | opt payloadSize extendedCode flags options version =>
      have hcode := h.withCode hw hw' extendedCode
      show w'.addOpt payloadSize extendedCode flags options version =
        w.addOpt payloadSize extendedCode flags options version
      rw [addOpt_eq, addOpt_eq, hcode.startRecord]
  | _ => cases hop

/-- What follows is the same. -/
theorem run (h : Alike w w') (hw : w.InRange) (hw' : w'.InRange) {op : Op}
    (hop : op.opens = true) (later : List Op) : w'.run (op :: later) = w.run (op :: later) := by
  have hstep := h.step hw hw' hop
  show (w'.step op).run later = (w.step op).run later
  rw [hstep]

end Alike

/-! ## Records that are taken back -/

/-- **Taking back undoes a record.** In every state of a run that takes back records only while
one is open: when a record is started, takes whatever data in whatever modes, and is taken back,
the message with its header and the remembered names are as they would be had the open record
been completed instead, and no record is open. To complete or finish the message then counts
nothing more. And in whatever mode the writer goes on, from the next record on it is the same as
if the record had never been started. -/
theorem rollback_restores (qname : Name) (qtype : RecordType) (qclass : Class) (opcode : Opcode)
    (before body : List Op) (owner : Name) (rtype : RecordType) (ttl : UInt32) (rclass : Class)
    (part : Section) (compress : Bool)
    (hbefore : (new qname qtype qclass opcode).Orderly before)
    (hbody : ∀ op ∈ body, op.isData = true) :
    let w := (new qname qtype qclass opcode).run before
    let undone := ((w.startRecord owner rtype ttl rclass part compress).run body).rollback
    undone.content = w.commit.content ∧ undone.names = w.commit.names ∧
      undone.current = none ∧ w.commit.current = none ∧
      undone.commit.content = w.commit.content ∧ undone.finish = w.finish ∧
      ∀ (canonic lowercase : Bool) (op : Op) (later : List Op), op.opens = true →
        (undone.inMode canonic lowercase).run (op :: later) =
          (w.inMode canonic lowercase).run (op :: later) := by
  intro w undone
  have hsound := (Sound.new qname qtype qclass opcode).run hbefore
  have hsame : SameMessage w.commit undone :=
    hsound.sameMessage_rollback hbody owner rtype ttl rclass part compress
  have hnone : undone.current = none := rfl
  have hcommit := commit_of_none hnone
  have hcontent : undone.commit.content = w.commit.content := by
    rw [hcommit, hsame.content]
  refine ⟨hsame.content, hsame.names, hnone, current_commit w, hcontent, hcontent, ?_⟩
  intro canonic lowercase op later hop
  have hmessage : SameMessage w.commit undone.commit := by
    rw [hcommit]
    exact hsame
  exact (Alike.inMode hmessage canonic lowercase).run hsound.inRange
    (forall_mem_of_none hnone) hop later

/-- A mail exchange that is left open. -/
def openExchange : List Op :=
  [.start com .mx 60 .internet .answer true, .uInt16 5, .name com true]

/-- The data of an alias, in canonical form. -/
def canonicAlias : List Op := [.canonic true, .name com true]

theorem rollback_restores_openExchange :
    (new com .mx .internet ⟨0⟩).Orderly openExchange ∧
      (∀ op ∈ canonicAlias, op.isData = true) ∧
      let w := (new com .mx .internet ⟨0⟩).run openExchange
      let undone := ((w.startRecord com .cname 60 .internet .answer true).run
        canonicAlias).rollback
      undone.content = w.commit.content ∧ undone.names = w.commit.names ∧
        undone.current = none ∧ w.commit.current = none ∧
        undone.commit.content = w.commit.content ∧ undone.finish = w.finish ∧
        ∀ (canonic lowercase : Bool) (op : Op) (later : List Op), op.opens = true →
          (undone.inMode canonic lowercase).run (op :: later) =
            (w.inMode canonic lowercase).run (op :: later) := by
  have hbefore : (new com .mx .internet ⟨0⟩).Orderly openExchange :=
    ⟨trivial, trivial, trivial, trivial⟩
  have hbody : ∀ op ∈ canonicAlias, op.isData = true := by simp [canonicAlias, Op.isData]
  exact ⟨hbefore, hbody, rollback_restores com .mx .internet ⟨0⟩ openExchange canonicAlias com
    .cname 60 .internet .answer true hbefore hbody⟩

end Querier.Writer
