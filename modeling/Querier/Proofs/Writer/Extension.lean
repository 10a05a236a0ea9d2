import Querier.Proofs.Writer.Integrity

/-!
# Writing data

The operations that write data, with switches of the mode between them, only
add to the end of a message and to the remembered offsets. So what stands in
the message stays, and taking back the record that the data was written for
gives the message back as it was before that record.

## Main results

* `Extends.run`: writing data extends the message.
* `Extends.settledView_le`: what is settled stays.
* `Extends.rollback`, `Sound.sameMessage_rollback`: a record that is taken back leaves nothing
  behind.
-/

namespace Querier.Writer

open View

/-! ## Operations that write data -/

/-- The octets that an operation appends as they are. -/
def Op.raw? : Op → Option (List UInt8)
  | .uInt8 v => some [v]
  | .uInt16 v => some (Octets.ofUInt16 v)
  | .uInt32 v => some (Octets.ofUInt32 v)
  | .low48 v => some (Octets.ofLow48 v)
  | .data os => some os
  | .text os => some (if os.isEmpty then characterString [] else characterStrings os)
  | _ => none

/-- The operation switches the mode of the writer. -/
def Op.isMode : Op → Bool
  | .canonic _ | .lowercase _ => true
  | _ => false

/-- The operation writes data or switches the mode. -/
def Op.isData : Op → Bool
  | .start .. | .commit | .rollback | .truncate | .header _ | .opt .. => false
  | _ => true

theorem step_of_raw? {op : Op} {os : List UInt8} (h : op.raw? = some os) (w : Writer) :
    w.step op = w.push os := by
  cases op <;> cases h <;> rfl

theorem Op.isData_of_raw? {op : Op} {os : List UInt8} (h : op.raw? = some os) :
    op.isData = true := by
  cases op <;> first | rfl | cases h

theorem Op.isData_of_isMode {op : Op} (h : op.isMode = true) : op.isData = true := by
  cases op <;> first | rfl | cases h

/-- Switching the mode does nothing to the message. -/
theorem sameMessage_step {op : Op} (h : op.isMode = true) (w : Writer) :
    SameMessage w (w.step op) ∧ (w.step op).recordStart = w.recordStart := by
  cases op with
  | canonic on => exact ⟨⟨rfl, rfl, rfl, rfl, rfl⟩, rfl⟩
  | lowercase on => exact ⟨⟨rfl, rfl, rfl, rfl, rfl⟩, rfl⟩
  | _ => cases h

theorem SameMessage.commit {w w' : Writer} (h : SameMessage w w') :
    SameMessage w.commit w'.commit where
  content := by
    cases hcur : w.current with
    | none => rw [commit_of_none hcur, commit_of_none (h.current.trans hcur), h.content]
    | some r =>
        rw [content_commit_of_some hcur, content_commit_of_some (h.current.trans hcur), filled,
          filled, h.content]
  names := by rw [names_commit, names_commit, h.names]
  qname := by rw [qname_commit, qname_commit, h.qname]
  questionEnd := by rw [questionEnd_commit, questionEnd_commit, h.questionEnd]
  current := by rw [current_commit, current_commit]

theorem SameMessage.editHeader {w w' : Writer} (h : SameMessage w w') (f : Header → Header) :
    SameMessage (w.editHeader f) (w'.editHeader f) :=
  ⟨congrArg (Header.edit f) h.content, h.names, h.qname, h.questionEnd, h.current⟩

/-! ## Extensions -/

/-- The message has more octets at its end and more remembered offsets behind its old end,
and is the same otherwise. -/
structure Extends (w w' : Writer) : Prop where
  content : ∃ added : List UInt8, w'.content = w.content ++ added
  names : ∃ new, w'.names = w.names ++ new ∧ ∀ p ∈ new, w.content.size ≤ p
  qname : w'.qname = w.qname
  questionEnd : w'.questionEnd = w.questionEnd
  recordStart : w'.recordStart = w.recordStart
  current : w'.current = w.current

namespace Extends

variable {w w' w'' : Writer}

theorem of_sameMessage (h : SameMessage w w') (hrecord : w'.recordStart = w.recordStart) :
    Extends w w' where
  content := ⟨[], by rw [h.content]; exact Array.toList_inj.mp (by simp)⟩
  names := ⟨[], by rw [h.names, List.append_nil], List.forall_mem_nil _⟩
  qname := h.qname
  questionEnd := h.questionEnd
  recordStart := hrecord
  current := h.current

theorem refl (w : Writer) : Extends w w := of_sameMessage ⟨rfl, rfl, rfl, rfl, rfl⟩ rfl

theorem size_le (h : Extends w w') : w.content.size ≤ w'.content.size := by
  obtain ⟨added, hcontent⟩ := h.content
  rw [hcontent, Octets.size_append]
  exact Nat.le_add_right _ _

theorem trans (h : Extends w w') (h' : Extends w' w'') : Extends w w'' where
  content := by
    obtain ⟨xs, hxs⟩ := h.content
    obtain ⟨ys, hys⟩ := h'.content
    exact ⟨xs ++ ys, by rw [hys, hxs, append_assoc]⟩
  names := by
    obtain ⟨ps, hps, hlow⟩ := h.names
    obtain ⟨qs, hqs, hlow'⟩ := h'.names
    refine ⟨ps ++ qs, by rw [hqs, hps, List.append_assoc], fun p hp => ?_⟩
    rcases List.mem_append.mp hp with hp | hp
    · exact hlow p hp
    · exact Nat.le_trans h.size_le (hlow' p hp)
  qname := h'.qname.trans h.qname
  questionEnd := h'.questionEnd.trans h.questionEnd
  recordStart := h'.recordStart.trans h.recordStart
  current := h'.current.trans h.current

theorem push (w : Writer) (os : List UInt8) : Extends w (w.push os) where
  content := ⟨os, rfl⟩
  names := ⟨[], (List.append_nil _).symm, List.forall_mem_nil _⟩
  qname := rfl
  questionEnd := rfl
  recordStart := rfl
  current := rfl

/-- A remembered name begins where the message ended. -/
theorem of_appended {w w' : Writer} {os : List UInt8} {new : List Nat}
    (h : w' = { w with content := w.content ++ os, names := w.names ++ new })
    (hnew : new = [] ∨ new = [w.content.size] ∧ w.content.size < Compression.offsetLimit) :
    Extends w w' := by
  subst h
  refine ⟨⟨os, rfl⟩, ⟨new, rfl, fun p hp => ?_⟩, rfl, rfl, rfl, rfl⟩
  rcases hnew with rfl | ⟨rfl, -⟩
  · cases hp
  · exact Nat.le_of_eq (List.mem_singleton.mp hp).symm

theorem pushName (w : Writer) (n : Name) (compress : Bool) :
    Extends w (w.pushName n compress) := by
  obtain ⟨new, hpush, hnew⟩ := pushName_eq w n compress
  exact of_appended hpush hnew

theorem step {op : Op} (h : op.isData = true) (w : Writer) : Extends w (w.step op) := by
  cases op with
  | canonic on => exact of_sameMessage (sameMessage_step rfl w).1 rfl
  | lowercase on => exact of_sameMessage (sameMessage_step rfl w).1 rfl
  | uInt8 v => exact push w _
  | uInt16 v => exact push w _
  | uInt32 v => exact push w _
  | low48 v => exact push w _
  | data os => exact push w _
  | text os => exact push w _
  | name n compress => exact pushName w n compress
  | _ => cases h

/-- Writing data extends the message. -/
theorem run {ops : List Op} (h : ∀ op ∈ ops, op.isData = true) (w : Writer) :
    Extends w (w.run ops) := by
  induction ops generalizing w with
  | nil => exact refl w
  | cons op ops ih =>
      have hop := step (h op List.mem_cons_self) w
      have hops := ih (fun op' hop' => h op' (List.mem_cons_of_mem op hop')) (w.step op)
      exact hop.trans hops

/-- What is settled stays. -/
theorem settledView_le (h : Extends w w') {limit : Nat} (hlimit : limit ≤ w.content.size) :
    Le (w.settledView limit) (w'.settledView limit) := by
  obtain ⟨added, hcontent⟩ := h.content
  refine Writer.settledView_le fun i o hi hsettled hget => ⟨⟨hsettled.1, ?_⟩, ?_⟩
  · rw [h.current]
    exact hsettled.2
  · rw [hcontent, Octets.getElem?_append, if_pos (by omega)]
    exact hget

/-- Starting a record extends the message that has the record open. -/
theorem startRecord (w : Writer) (owner : Name) (rtype : RecordType) (ttl : UInt32)
    (rclass : Class) (part : Section) (compress : Bool) :
    Extends { w.ready compress with
        current := (w.startRecord owner rtype ttl rclass part compress).current }
      (w.startRecord owner rtype ttl rclass part compress) := by
  obtain ⟨new, hstart, hnew⟩ := startRecord_eq w owner rtype ttl rclass part compress
  rw [hstart, ← names_commit w]
  exact of_appended rfl hnew

/-- What is remembered before some offset in the message stays. -/
theorem filter_names (h : Extends w w') {limit : Nat} (hlimit : limit ≤ w.content.size) :
    w'.names.filter (· < limit) = w.names.filter (· < limit) := by
  obtain ⟨new, hnames, hlow⟩ := h.names
  have hnew : new.filter (· < limit) = [] :=
    List.filter_eq_nil_iff.mpr fun p hp => by
      have := hlow p hp
      simp only [decide_eq_true_eq]
      omega
  rw [hnames, List.filter_append, hnew, List.append_nil]

/-- Writing data changes nothing of the header. -/
theorem read (h : Extends w w') (hsize : Header.length ≤ w.content.size) :
    Header.read w'.content = Header.read w.content := by
  obtain ⟨added, hcontent⟩ := h.content
  rw [hcontent, Header.read_append_list _ _ hsize]

/-- A record that is taken back leaves nothing behind. -/
theorem rollback (h : Extends w w') (hstart : w.recordStart = w.content.size)
    (hnames : ∀ p ∈ w.names, p < w.content.size) :
    SameMessage { w with current := none } w'.rollback where
  content := by
    obtain ⟨added, hcontent⟩ := h.content
    show w'.content.extract 0 w'.recordStart = w.content
    rw [h.recordStart, hstart, hcontent]
    exact Array.toList_inj.mp (by simp)
  names := by
    show w'.names.filter (· < w'.recordStart) = w.names
    rw [h.recordStart, hstart, h.filter_names (Nat.le_refl _)]
    exact List.filter_eq_self.mpr fun p hp => decide_eq_true (hnames p hp)
  qname := h.qname
  questionEnd := h.questionEnd
  current := rfl

end Extends

/-- A record that is started, takes data and is taken back leaves the message as it is with all
records before complete. -/
theorem Sound.sameMessage_rollback {w : Writer} {marks : List Mark} (h : Sound w marks)
    {body : List Op} (hbody : ∀ op ∈ body, op.isData = true) (owner : Name) (rtype : RecordType)
    (ttl : UInt32) (rclass : Class) (part : Section) (compress : Bool) :
    SameMessage w.commit
      ((w.startRecord owner rtype ttl rclass part compress).run body).rollback := by
  have hstart := Extends.startRecord w owner rtype ttl rclass part compress
  have hrun := hstart.trans (Extends.run hbody _)
  have hsame := hrun.rollback rfl h.commit.lt_size
  exact ⟨hsame.content, hsame.names, hsame.qname, hsame.questionEnd,
    hsame.current.trans (current_commit w).symm⟩

end Querier.Writer
