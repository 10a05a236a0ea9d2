import Querier.Proofs.Writer.Extension

/-!
# The question stays

A message begins with its header and its question, and what a writer does leaves the question
alone: records and their data come behind it, and so does all that is filled in later. The
invariant is `Anchored`. It says nothing about where a record was started unless one is open,
so it holds of a writer that has taken back its record or all of them, and went on writing.

There is one way to lose the question. Until a record was started, the offset that a writer
cuts its message back to is zero. A record that is taken back before any was started takes the
whole message with it, and the next access to the header is one outside of the buffer.

## Main results

* `newIn_eq`: a message in a used buffer is a new message.
* `Anchored.step`, `Anchored.run`: the question stays.
* `Anchored.inside`: no operation leaves the buffer.
* `begins_iff_opensFirst`: a message begins with its question at all times exactly if no record
  is taken back before one was started.
* `run_rollback_new`: such a writer loses its header.
-/

namespace Querier.Writer

open View

/-! ## Accesses to the buffer -/

/-- The header can be accessed. -/
def HasHeader (w : Writer) : Prop := Header.length ≤ w.content.size

/-- Completing the open record writes the octets before its data and accesses the header. -/
def CommitsInside (w : Writer) : Prop :=
  ∀ r ∈ w.current, 2 ≤ r.start ∧ r.start ≤ w.content.size ∧ w.HasHeader

/-- Looking up a name reads the labels of the names that are remembered. -/
def LooksInside (w : Writer) (compress : Bool) : Prop :=
  w.mayCompress compress = true → ∀ start ∈ w.names, ∀ offsets,
    Compression.labelOffsets w.content start = some offsets → ∀ o ∈ offsets, o < w.content.size

/-- The open record can be looked at, all of it or its data alone. -/
def ShowsInside (w : Writer) : Prop :=
  ∀ r ∈ w.current, w.recordStart ≤ w.content.size ∧ r.start ≤ w.content.size

/-- No access of an operation is outside of the buffer. -/
def Inside (w : Writer) : Op → Prop
  | .start _ _ _ _ _ compress => w.CommitsInside ∧ (w.ready compress).LooksInside compress
  | .commit => w.CommitsInside
  | .truncate => (w.cutBack w.questionEnd).HasHeader
  | .header _ => w.HasHeader
  | .name _ compress => w.LooksInside compress
  | .opt payloadSize extendedCode flags options version =>
    (extendedCode ≠ 0 → w.HasHeader) ∧ (w.withCode extendedCode).CommitsInside ∧
      CommitsInside (((w.withCode extendedCode).startRecord .root .opt
        (Opt.ttlField (UInt8.ofNat (extendedCode.toNat / 16)) version flags) ⟨payloadSize⟩
        .additional false).push (EdnsOption.encodeAll options))
  | _ => True

/-- Names are only looked up where the walk has found labels. -/
theorem looksInside (w : Writer) (compress : Bool) : w.LooksInside compress := by
  intro _ start _ offsets hoffsets
  exact Compression.lt_size_of_offsetsOnto hoffsets (List.forall_mem_nil _)

/-! ## The first record -/

/-- The operation starts a record. -/
def Op.opens : Op → Bool
  | .start .. | .opt .. => true
  | _ => false

/-- The operation takes a record back. -/
def Op.takesBack : Op → Bool
  | .rollback => true
  | _ => false

/-- No record is taken back before one was started. -/
def OpensFirst : List Op → Prop
  | [] => True
  | op :: ops => op.opens = true ∨ (op.takesBack = false ∧ OpensFirst ops)

theorem Op.takesBack_of_opens {op : Op} (h : op.opens = true) : op.takesBack = false := by
  cases op <;> first | rfl | cases h

@[simp] theorem recordStart_commit (w : Writer) : w.commit.recordStart = w.recordStart := by
  rw [commit_eq]

/-- Only the start of a record moves the offset that a message is cut back to. -/
theorem recordStart_step {op : Op} (h : op.opens = false) (w : Writer) :
    (w.step op).recordStart = w.recordStart := by
  cases op with
  | start => cases h
  | opt => cases h
  | commit => exact recordStart_commit w
  | name n compress => exact (Extends.pushName w n compress).recordStart
  | _ => rfl

theorem questionEnd_startRecord (w : Writer) (owner : Name) (rtype : RecordType) (ttl : UInt32)
    (rclass : Class) (part : Section) (compress : Bool) :
    (w.startRecord owner rtype ttl rclass part compress).questionEnd = w.questionEnd := by
  rw [(Extends.startRecord w owner rtype ttl rclass part compress).questionEnd]
  exact questionEnd_commit w

/-- The offset behind the question never moves. -/
theorem questionEnd_step (w : Writer) (op : Op) : (w.step op).questionEnd = w.questionEnd := by
  cases op with
  | start owner rtype ttl rclass part compress => exact questionEnd_startRecord ..
  | opt payloadSize extendedCode flags options version =>
      show (w.addOpt payloadSize extendedCode flags options version).questionEnd = _
      rw [addOpt_eq, questionEnd_commit, push, questionEnd_startRecord]
      unfold withCode
      split <;> rfl
  | commit => exact questionEnd_commit w
  | name n compress => exact (Extends.pushName w n compress).questionEnd
  | _ => rfl

/-! ## The invariant -/

/-- A message begins with a header and the question. -/
def Begins (q : Question) (b : Octets) : Prop :=
  ∃ header rest : List UInt8, header.length = Header.length ∧
    b.toList = header ++ questionOctets q ++ rest

/-- Something that begins with a header is not empty. -/
theorem not_begins_empty (q : Question) : ¬ Begins q #[] := by
  intro ⟨header, rest, hlength, hlist⟩
  have hsize := congrArg List.length hlist
  rw [List.length_append, List.length_append, hlength] at hsize
  change 0 = 12 + _ + _ at hsize
  omega

/-- The question stands behind the header, and the open record behind the question. -/
structure Anchored (w : Writer) (q : Question) : Prop where
  question : Holds w.content.view Header.length (questionOctets q)
  questionEnd_eq : w.questionEnd = Header.length + (questionOctets q).length
  questionEnd_le : w.questionEnd ≤ w.content.size
  current : ∀ r ∈ w.current,
    w.questionEnd ≤ w.recordStart ∧ w.recordStart + 2 ≤ r.start ∧ r.start ≤ w.content.size

namespace Anchored

variable {w w' : Writer} {q : Question}

theorem hasHeader (h : Anchored w q) : w.HasHeader := by
  have hend := h.questionEnd_eq
  have hle := h.questionEnd_le
  unfold HasHeader
  omega

theorem inRange (h : Anchored w q) : w.InRange := by
  intro r hr
  have hcur := h.current r hr
  have hend := h.questionEnd_eq
  omega

theorem begins (h : Anchored w q) : Begins q w.content := by
  have hheader : Header.length ≤ w.content.size := h.hasHeader
  have hquestion : (w.content.toList.drop Header.length).take (questionOctets q).length =
      questionOctets q := by
    have hextract := congrArg Array.toList (Octets.extract_of_holds_view h.question hheader)
    rw [Array.toList_extract, List.extract_eq_take_drop, Nat.add_sub_cancel_left] at hextract
    exact hextract
  have hsplit := List.take_append_drop (questionOctets q).length
    (w.content.toList.drop Header.length)
  rw [hquestion] at hsplit
  refine ⟨w.content.toList.take Header.length,
    (w.content.toList.drop Header.length).drop (questionOctets q).length, ?_, ?_⟩
  · rw [List.length_take, Array.length_toList]
    omega
  · calc w.content.toList
        = w.content.toList.take Header.length ++ w.content.toList.drop Header.length :=
          (List.take_append_drop ..).symm
      _ = w.content.toList.take Header.length ++ (questionOctets q ++
            (w.content.toList.drop Header.length).drop (questionOctets q).length) := by
          rw [hsplit]
      _ = _ := (List.append_assoc ..).symm

/-- What changes nothing between the header and the end of the question keeps it. -/
theorem frame (h : Anchored w q) (hend : w'.questionEnd = w.questionEnd)
    (hsize : w.questionEnd ≤ w'.content.size)
    (hkeep : ∀ i, Header.length ≤ i → i < w.questionEnd → w'.content[i]? = w.content[i]?)
    (hcur : ∀ r ∈ w'.current, w.questionEnd ≤ w'.recordStart ∧ w'.recordStart + 2 ≤ r.start ∧
      r.start ≤ w'.content.size) : Anchored w' q where
  question := by
    have hquestion := holds_iff.mp h.question
    have hlast := h.questionEnd_eq
    refine holds_iff.mpr ?_
    intro i hi
    rw [← hquestion i hi]
    exact hkeep _ (Nat.le_add_right _ _) (by omega)
  questionEnd_eq := hend.trans h.questionEnd_eq
  questionEnd_le := hend ▸ hsize
  current := hend ▸ hcur

/-- What is written behind the end keeps the question. -/
theorem extend (h : Anchored w q) (hext : Extends w w') : Anchored w' q := by
  obtain ⟨added, hcontent⟩ := hext.content
  have hsize := hext.size_le
  have hle := h.questionEnd_le
  refine h.frame hext.questionEnd (by omega) ?_ ?_
  · intro i _ hi
    rw [hcontent, Octets.getElem?_append, if_pos (by omega)]
  · intro r hr
    rw [hext.current] at hr
    have hcur := h.current r hr
    rw [hext.recordStart]
    omega

theorem editHeader (h : Anchored w q) (f : Header → Header) : Anchored (w.editHeader f) q := by
  have hsize := size_editHeader w f
  refine h.frame rfl (hsize ▸ h.questionEnd_le) ?_ (hsize ▸ h.current)
  intro i hi _
  exact Header.getElem?_edit f w.content hi

theorem commit (h : Anchored w q) : Anchored w.commit q := by
  refine h.frame (questionEnd_commit w) ?_ ?_ (forall_mem_of_none (current_commit w))
  · rw [size_commit h.inRange]
    exact h.questionEnd_le
  · intro i hi hlast
    refine getElem?_commit h.inRange hi ?_
    intro r hr
    have hcur := h.current r hr
    omega

/-- A record is started behind the question. -/
theorem startRecord (h : Anchored w q) (owner : Name) (rtype : RecordType) (ttl : UInt32)
    (rclass : Class) (part : Section) (compress : Bool) :
    Anchored (w.startRecord owner rtype ttl rclass part compress) q ∧
      w.questionEnd ≤ (w.startRecord owner rtype ttl rclass part compress).recordStart := by
  obtain ⟨new, hstart, -⟩ := startRecord_eq w owner rtype ttl rclass part compress
  have hle : w.questionEnd ≤ w.commit.content.size := by
    rw [← questionEnd_commit w]
    exact h.commit.questionEnd_le
  rw [hstart]
  refine ⟨h.commit.frame rfl ?_ ?_ ?_, hle⟩
  · rw [questionEnd_commit, Octets.size_append]
    omega
  · intro i _ hi
    rw [questionEnd_commit] at hi
    rw [Octets.getElem?_append, if_pos (by omega)]
  · intro r hr
    cases hr
    rw [questionEnd_commit]
    simp only [Octets.size_append, List.length_append, length_fixedOctets]
    show _ ≤ w.commit.content.size ∧ w.commit.content.size + 2 ≤ _ ∧ _
    omega

/-- A message is cut back behind its question. -/
theorem cutBack (h : Anchored w q) {len : Nat} (hlen : w.questionEnd ≤ len) :
    Anchored (w.cutBack len) q := by
  have hle := h.questionEnd_le
  refine h.frame rfl ?_ ?_ (forall_mem_of_none rfl)
  · simp only [Writer.cutBack, Array.size_extract]
    omega
  · intro i _ hi
    exact getElem?_cutBack w (by omega)

theorem withCode (h : Anchored w q) (extendedCode : UInt16) :
    Anchored (w.withCode extendedCode) q ∧
      (w.withCode extendedCode).questionEnd = w.questionEnd := by
  unfold Writer.withCode
  split
  · exact ⟨h, rfl⟩
  · exact ⟨h.editHeader _, rfl⟩

theorem commitsInside (h : Anchored w q) : w.CommitsInside := by
  intro r hr
  have hcur := h.current r hr
  exact ⟨by omega, hcur.2.2, h.hasHeader⟩

theorem showsInside (h : Anchored w q) : w.ShowsInside := by
  intro r hr
  have hcur := h.current r hr
  omega

/-- The question of a new message. -/
theorem new (q : Question) (opcode : Opcode) :
    Anchored (.new q.qname q.qtype q.qclass opcode) q where
  question := holds_new q.qname q.qtype q.qclass opcode
  questionEnd_eq := by rw [questionEnd_new, length_questionOctets]
  questionEnd_le := Nat.le_of_eq (by rw [questionEnd_new, size_new])
  current := forall_mem_of_none (current_new ..)

theorem addOpt (h : Anchored w q) (payloadSize extendedCode flags : UInt16)
    (options : List EdnsOption) (version : UInt8) :
    Anchored (w.addOpt payloadSize extendedCode flags options version) q ∧
      w.questionEnd ≤
        (w.addOpt payloadSize extendedCode flags options version).recordStart := by
  obtain ⟨hcode, hend⟩ := h.withCode extendedCode
  obtain ⟨hstart, hopened⟩ := hcode.startRecord .root .opt
    (Opt.ttlField (UInt8.ofNat (extendedCode.toNat / 16)) version flags) ⟨payloadSize⟩
    .additional false
  have hpush := hstart.extend (Extends.push _ (EdnsOption.encodeAll options))
  rw [addOpt_eq, recordStart_commit, (Extends.push _ _).recordStart, ← hend]
  exact ⟨hpush.commit, hopened⟩

/-- Every operation keeps the question, but that a record can only be taken back once one was
started. -/
theorem step (h : Anchored w q) {op : Op}
    (hop : op.takesBack = true → w.questionEnd ≤ w.recordStart) : Anchored (w.step op) q := by
  cases op with
  | start owner rtype ttl rclass part compress => exact (h.startRecord ..).1
  | commit => exact h.commit
  | rollback => exact h.cutBack (hop rfl)
  | truncate => exact (h.cutBack (Nat.le_refl _)).editHeader _
  | header edit => exact h.editHeader edit
  | opt payloadSize extendedCode flags options version => exact (h.addOpt ..).1
  | _ => exact h.extend (Extends.step rfl w)

/-- No operation leaves the buffer. -/
theorem inside (h : Anchored w q) (op : Op) : w.Inside op := by
  cases op with
  | start owner rtype ttl rclass part compress =>
      exact ⟨h.commitsInside, looksInside _ _⟩
  | commit => exact h.commitsInside
  | truncate => exact (h.cutBack (Nat.le_refl _)).hasHeader
  | header edit => exact h.hasHeader
  | name n compress => exact looksInside _ _
  | opt payloadSize extendedCode flags options version =>
      obtain ⟨hcode, -⟩ := h.withCode extendedCode
      refine ⟨fun _ => h.hasHeader, hcode.commitsInside, ?_⟩
      exact ((hcode.startRecord ..).1.extend (Extends.push _ _)).commitsInside
  | _ => trivial

/-- Once a record was started, a message is cut back behind its question. -/
theorem opened_step (h : Anchored w q) {op : Op}
    (hopened : w.questionEnd ≤ w.recordStart ∨ op.opens = true) :
    (w.step op).questionEnd ≤ (w.step op).recordStart := by
  rw [questionEnd_step]
  by_cases hop : op.opens = true
  · cases op with
    | start owner rtype ttl rclass part compress => exact (h.startRecord ..).2
    | opt payloadSize extendedCode flags options version => exact (h.addOpt ..).2
    | _ => cases hop
  · rw [recordStart_step (Bool.eq_false_iff.mpr hop)]
    exact hopened.resolve_right hop

/-- The question stays as long as no record is taken back before one was started. -/
theorem run (h : Anchored w q) {ops : List Op}
    (hops : w.questionEnd ≤ w.recordStart ∨ OpensFirst ops) :
    ∀ p, p <+: ops → Anchored (w.run p) q := by
  induction ops generalizing w with
  | nil =>
      intro p hp
      rw [List.prefix_nil.mp hp]
      exact h
  | cons op ops ih =>
      intro p hp
      rcases List.prefix_cons_iff.mp hp with rfl | ⟨rest, rfl, hrest⟩
      · exact h
      · have hback : op.takesBack = true → w.questionEnd ≤ w.recordStart := by
          intro htakes
          rcases hops with hopened | hopens | ⟨hnot, -⟩
          · exact hopened
          · cases htakes.symm.trans (Op.takesBack_of_opens hopens)
          · cases htakes.symm.trans hnot
        refine ih (h.step hback) ?_ rest hrest
        rcases hops with hopened | hopens | ⟨-, hlater⟩
        · exact .inl (h.opened_step (.inl hopened))
        · exact .inl (h.opened_step (.inr hopens))
        · exact .inr hlater

end Anchored

/-! ## New messages -/

/-- A message in a used buffer is a new message. -/
theorem newIn_eq (buf : Octets) (qname : Name) (qtype : RecordType) (qclass : Class)
    (opcode : Opcode) : newIn buf qname qtype qclass opcode = new qname qtype qclass opcode := by
  have hempty : buf.extract 0 0 = #[] := Array.extract_zero
  have hzero : Header.read ((#[] : Octets) ++ List.replicate Header.length (0 : UInt8)) =
      Header.zero := by decide
  have hheader : Header.edit (fun h => { h with opcode, questions := 1 })
      ((#[] : Octets) ++ List.replicate Header.length (0 : UInt8)) =
        (newHeader opcode).octets.toArray := by
    rw [Header.edit, hzero]
    rfl
  simp only [newIn, editHeader, hempty, hheader]
  rfl

/-- A record that is taken back before one was started takes the message with it. -/
theorem exists_empty {w : Writer} {ops : List Op} (h : w.recordStart = 0)
    (hops : ¬ OpensFirst ops) : ∃ p, p <+: ops ∧ (w.run p).content = #[] := by
  induction ops generalizing w with
  | nil => exact absurd trivial hops
  | cons op ops ih =>
      rw [OpensFirst, not_or, not_and] at hops
      obtain ⟨hopens, hrest⟩ := hops
      by_cases hback : op.takesBack = true
      · refine ⟨[op], List.prefix_cons_inj op |>.mpr List.nil_prefix, ?_⟩
        cases op with
        | rollback =>
            show w.content.extract 0 w.recordStart = #[]
            rw [h]
            exact Array.extract_zero
        | _ => cases hback
      · have hstart := recordStart_step (Bool.eq_false_iff.mpr hopens) w
        obtain ⟨p, hp, hempty⟩ := ih (hstart.trans h) (hrest (Bool.eq_false_iff.mpr hback))
        exact ⟨op :: p, (List.prefix_cons_inj op).mpr hp, hempty⟩

/-- **The question stays.** Whatever is done to a new message, in a used buffer or not, it
begins with its header and its question at all times exactly if no record is taken back before
one was started. Then nothing that is done accesses anything outside of the buffer, nor would
it to look at the open record. Otherwise the message is empty at some time. -/
theorem begins_iff_opensFirst (buf : Octets) (q : Question) (opcode : Opcode) (ops : List Op) :
    ((∀ p, p <+: ops → Begins q ((newIn buf q.qname q.qtype q.qclass opcode).run p).content) ↔
        OpensFirst ops) ∧
      (OpensFirst ops → ∀ p, p <+: ops →
        ((newIn buf q.qname q.qtype q.qclass opcode).run p).ShowsInside ∧
          ∀ op, p ++ [op] <+: ops →
            ((newIn buf q.qname q.qtype q.qclass opcode).run p).Inside op) ∧
      (¬ OpensFirst ops → ∃ p, p <+: ops ∧
        ((newIn buf q.qname q.qtype q.qclass opcode).run p).content = #[]) := by
  rw [newIn_eq]
  have hnew := Anchored.new q opcode
  have hempty : ¬ OpensFirst ops → ∃ p, p <+: ops ∧
      ((new q.qname q.qtype q.qclass opcode).run p).content = #[] :=
    exists_empty (recordStart_new ..)
  refine ⟨⟨?_, ?_⟩, ?_, hempty⟩
  · intro hbegins
    by_contra hops
    obtain ⟨p, hp, hnone⟩ := hempty hops
    exact not_begins_empty q (hnone ▸ hbegins p hp)
  · intro hops p hp
    exact (hnew.run (.inr hops) p hp).begins
  · intro hops p hp
    have hp := hnew.run (.inr hops) p hp
    exact ⟨hp.showsInside, fun op _ => hp.inside op⟩

/-- A writer that takes back a record before it started one is left with nothing. It cannot
even take back all records: that accesses the header. -/
theorem run_rollback_new :
    ((new com .mx .internet ⟨0⟩).run [.rollback]).content = #[] ∧
      ¬ Begins ⟨com, .mx, .internet⟩ ((new com .mx .internet ⟨0⟩).run [.rollback]).content ∧
      ¬ ((new com .mx .internet ⟨0⟩).run [.rollback]).Inside .truncate := by
  have hempty : ((new com .mx .internet ⟨0⟩).run [.rollback]).content = #[] := by
    show (new com .mx .internet ⟨0⟩).content.extract 0 _ = #[]
    rw [recordStart_new]
    exact Array.extract_zero
  refine ⟨hempty, hempty ▸ not_begins_empty _, ?_⟩
  intro hinside
  have hlong : 12 ≤ (((new com .mx .internet ⟨0⟩).run [.rollback]).content.extract 0 _).size :=
    hinside
  rw [hempty, Array.size_extract] at hlong
  change 12 ≤ min _ 0 - 0 at hlong
  omega

end Querier.Writer
