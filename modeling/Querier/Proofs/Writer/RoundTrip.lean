import Mathlib.Data.List.Forall2
import Querier.Proofs.Message.Grammar
import Querier.Proofs.Writer.Extension

/-!
# What is written is read back

A caller writes records one after the other, in the order of the sections. It
may give up a record while it is open, and it may switch the mode of the writer
at any point. What it gets is a message that decodes to the records that it did
not give up.

Writer and decoder meet in the grammar of messages. The invariant is `Built`:
with the open record completed, the message is one of the grammar up to its
end, and its header counts the records that it has.

## Main results

* `Follows.run`: data that is written in the order of a layout stands there as
  data of that layout.
* `Built.run`: writing records keeps to the grammar.
* `decode_finish_run`: the message that is written decodes to what was written.
-/

namespace Querier.Writer

open View

/-! ## What a caller writes -/

/-- The operations write data of a layout: each name by one operation, each run of octets in
any number of pieces, and with switches of the mode anywhere. -/
inductive Follows : List DataField → List Op → Prop where
  | nil : Follows [] []
  | mode {op : Op} {fields : List DataField} {ops : List Op} (switch : op.isMode = true)
      (rest : Follows fields ops) : Follows fields (op :: ops)
  | name {n : Name} {compress : Bool} {fields : List DataField} {ops : List Op}
      (rest : Follows fields ops) : Follows (.name :: fields) (.name n compress :: ops)
  | raw {op : Op} {os : List UInt8} {len : Nat} {fields : List DataField} {ops : List Op}
      (appends : op.raw? = some os) (rest : Follows (.run len :: fields) ops) :
      Follows (.run (os.length + len) :: fields) (op :: ops)
  | full {fields : List DataField} {ops : List Op} (rest : Follows fields ops) :
      Follows (.run 0 :: fields) ops

/-- The data that operations write, with its names written out: all other octets as they were
given, and the names up to case. -/
inductive Writes : List Op → List UInt8 → Prop where
  | nil : Writes [] []
  | mode {op : Op} {ops : List Op} {os : List UInt8} (switch : op.isMode = true)
      (rest : Writes ops os) : Writes (op :: ops) os
  | name {n m : Name} {compress : Bool} {ops : List Op} {os : List UInt8}
      (same : m.same n = true) (rest : Writes ops os) :
      Writes (.name n compress :: ops) (m.wire ++ os)
  | raw {op : Op} {taken os : List UInt8} {ops : List Op} (appends : op.raw? = some taken)
      (rest : Writes ops os) : Writes (op :: ops) (taken ++ os)

/-- Writes with one operation that appends octets write these octets. -/
theorem Writes.eq_of_data {os taken : List UInt8} (h : Writes [.data taken] os) : os = taken := by
  cases h with
  | mode switch _ => cases switch
  | raw appends rest =>
      cases appends
      cases rest with
      | nil => exact List.append_nil _

/-- A record that a caller writes: what it is started with and the operations that write its
data. -/
structure Draft where
  owner : Name
  rtype : RecordType
  ttl : UInt32
  rclass : Class
  part : Section
  compress : Bool
  body : List Op

namespace Draft

/-- The operation that starts a record. -/
def start (d : Draft) : Op := .start d.owner d.rtype d.ttl d.rclass d.part d.compress

/-- The operations that write a record. -/
def ops (d : Draft) : List Op := d.start :: d.body

/-- The data of a record is what a decoder takes it for: data of the layout of its type, or
for a type without one other than OPT, any octets that their length field can count. -/
structure Formed (d : Draft) : Prop where
  rtype_ne : d.rtype ≠ .opt
  follows : match d.rtype.layout? with
    | some layout => Follows layout d.body
    | none => ∃ len, len ≤ 65535 ∧ Follows [.run len] d.body

/-- The record is the one that was written, up to the case of its names. -/
structure Decodes (d : Draft) (r : Record) : Prop where
  owner : r.owner.same d.owner = true
  rtype : r.rtype = d.rtype
  rclass : r.rclass = d.rclass
  ttl : r.ttl = d.ttl
  part : r.part = d.part
  data : Writes d.body r.data.toList

end Draft

/-- One thing that a caller does, from one record to the next. -/
inductive Piece where
  /-- It writes a record. -/
  | record (d : Draft)
  /-- It starts a record, writes some data, and takes the record back. -/
  | dropped (d : Draft)
  /-- It completes the record before. -/
  | commit
  /-- It switches the mode of the writer. -/
  | mode (op : Op)

namespace Piece

def ops : Piece → List Op
  | .record d => d.ops
  | .dropped d => d.ops ++ [.rollback]
  | .commit => [.commit]
  | .mode op => [op]

/-- The records that stay in the message. -/
def drafts : Piece → List Draft
  | .record d => [d]
  | _ => []

def Formed : Piece → Prop
  | .record d => d.Formed
  | .dropped d => ∀ op ∈ d.body, op.isData = true
  | .commit => True
  | .mode op => op.isMode = true

end Piece

/-! ## Writing data -/

theorem Follows.isData {fields : List DataField} {ops : List Op} (h : Follows fields ops) :
    ∀ op ∈ ops, op.isData = true := by
  induction h with
  | nil => exact List.forall_mem_nil _
  | mode switch _ ih => exact List.forall_mem_cons.mpr ⟨Op.isData_of_isMode switch, ih⟩
  | name _ ih => exact List.forall_mem_cons.mpr ⟨rfl, ih⟩
  | raw appends _ ih => exact List.forall_mem_cons.mpr ⟨Op.isData_of_raw? appends, ih⟩
  | full _ ih => exact ih

/-- Octets that are appended are settled: the open record has its length before its data. -/
theorem Sound.holds_push {w : Writer} {marks : List Mark} (h : Sound w marks) (os : List UInt8) :
    Holds ((w.push os).settledView (w.push os).content.size) w.content.size os := by
  have hsize : (w.push os).content.size = w.content.size + os.length := Octets.size_append _ _
  refine holds_settledView (Octets.holds_view_append _ _) h.length_le (Nat.le_of_eq hsize.symm) ?_
  intro r hr
  exact .inl (h.current r hr).2.2

/-- Data that is written in the order of a layout stands at the old end of the message as
data of that layout. -/
theorem Follows.run {w : Writer} {marks : List Mark} {fields : List DataField} {ops : List Op}
    (h : Sound w marks) (hf : Follows fields ops) :
    ∃ marks' os, Sound (w.run ops) marks' ∧ Writes ops os ∧
      DataField.At ((w.run ops).settledView (w.run ops).content.size) fields w.content.size os
        (w.run ops).content.size := by
  induction hf generalizing w marks with
  | nil => exact ⟨marks, [], h, .nil, .nil⟩
  | @mode op fields ops switch rest ih =>
      obtain ⟨hsame, hrecord⟩ := sameMessage_step switch w
      obtain ⟨marks', os, hsound, hwrites, hat⟩ := ih (h.congr hsame fun _ _ => hrecord)
      rw [hsame.content] at hat
      exact ⟨marks', os, hsound, .mode switch hwrites, hat⟩
  | @name n compress fields ops rest ih =>
      have hname := h.pushName n compress
      obtain ⟨marks', os, hsound, hwrites, hat⟩ := ih hname
      obtain ⟨-, -, m, hm, hsame⟩ := hname.keeps _ (List.mem_append_right _ List.mem_cons_self)
      have hext := Extends.run rest.isData (w.pushName n compress)
      have hle := (hext.settledView_le (Nat.le_refl _)).trans (settledView_mono hext.size_le)
      exact ⟨marks', m.wire ++ os, hsound, .name hsame hwrites, .name (hm.mono hle) hat⟩
  | @raw op taken len fields ops appends rest ih =>
      have hext := Extends.run rest.isData (w.push taken)
      have hle := (hext.settledView_le (Nat.le_refl _)).trans (settledView_mono hext.size_le)
      obtain ⟨marks', os, hsound, hwrites, hat⟩ := ih (h.push taken)
      have hrun : w.run (op :: ops) = (w.push taken).run ops := by
        rw [← step_of_raw? appends]
        rfl
      have hsize : (w.push taken).content.size = w.content.size + taken.length :=
        Octets.size_append _ _
      have hholds := h.holds_push taken
      rw [hrun]
      refine ⟨marks', taken ++ os, hsound, .raw appends hwrites, ?_⟩
      rw [hsize] at hat
      cases hat with
      | run length holds tail =>
          rw [← List.append_assoc]
          refine .run ?_ (holds_append.mpr ⟨hholds.mono hle, holds⟩) ?_
          · rw [List.length_append, length]
          · rw [← Nat.add_assoc]
            exact tail
  | @full fields ops rest ih =>
      obtain ⟨marks', os, hsound, hwrites, hat⟩ := ih h
      have hempty : Holds ((w.run ops).settledView (w.run ops).content.size) w.content.size [] :=
        trivial
      exact ⟨marks', os, hsound, hwrites, .run rfl hempty hat⟩

/-! ## The length of data -/

/-- The most octets that data of a layout takes. -/
def fieldsLimit : List DataField → Nat
  | [] => 0
  | .name :: fields => 256 + fieldsLimit fields
  | .run len :: fields => len + fieldsLimit fields

theorem stop_le_of_dataAt {v : View} {fields : List DataField} {pos stop : Nat} {os : List UInt8}
    (h : DataField.At v fields pos os stop) : stop ≤ pos + fieldsLimit fields := by
  induction h with
  | nil => exact Nat.le_refl _
  | @name pos mid stop fields n os spelled _ ih =>
      have hmid := spelled.stop_le
      have hlen : Label.wireLengthAll n.labels ≤ 255 := n.wireLength_le
      rw [fieldsLimit]
      omega
  | run length _ _ ih =>
      rw [fieldsLimit]
      omega

theorem fieldsLimit_layout {t : RecordType} {layout : List DataField}
    (h : t.layout? = some layout) : fieldsLimit layout ≤ 65535 := by
  unfold RecordType.layout? at h
  split at h
  · cases h
    decide
  · split at h
    · cases h
      decide
    · split at h
      · cases h
        decide
      · split at h
        · cases h
          decide
        · cases h

/-! ## Data of a type -/

/-- Data of these fields is data of the type: a length can count it, and where its octets
stand and it fills them, it is what a decoder makes of them. -/
structure Takes (t : RecordType) (fields : List DataField) : Prop where
  limit : fieldsLimit fields ≤ 65535
  dataAt : ∀ {v : View} {r : Record} {pos : Nat} {os raw : List UInt8}, r.rtype = t →
    r.data = os.toArray → Holds v pos raw → DataField.At v fields pos os (pos + raw.length) →
      r.DataAt v pos raw

theorem takes_layout {t : RecordType} {layout : List DataField} (h : t.layout? = some layout) :
    Takes t layout := by
  refine ⟨fieldsLimit_layout h, ?_⟩
  intro v r pos os raw htype hdata _ hat
  unfold Record.DataAt
  rw [htype, h, hdata]
  exact hat

theorem takes_run {t : RecordType} {len : Nat} (h : t.layout? = none) (hlen : len ≤ 65535) :
    Takes t [.run len] := by
  refine ⟨hlen, ?_⟩
  intro v r pos os raw htype hdata hraw hat
  unfold Record.DataAt
  rw [htype, h, hdata]
  generalize hstop : pos + raw.length = stop at hat
  cases hat with
  | run length holds tail =>
      cases tail
      rw [List.append_nil, holds.unique hraw (by omega)]

/-- Wherever the operations are performed, they write data of these fields. -/
structure Fills (fields : List DataField) (ops : List Op) : Prop where
  isData : ∀ op ∈ ops, op.isData = true
  run : ∀ {w : Writer} {marks : List Mark}, Sound w marks →
    ∃ marks' os, Sound (w.run ops) marks' ∧ Writes ops os ∧
      DataField.At ((w.run ops).settledView (w.run ops).content.size) fields w.content.size os
        (w.run ops).content.size

theorem Follows.fills {fields : List DataField} {ops : List Op} (h : Follows fields ops) :
    Fills fields ops :=
  ⟨h.isData, fun hw => h.run hw⟩

namespace Draft

variable {d : Draft}

/-- The operations write data that a decoder can take for data of the type of the record. An
OPT record has such data too, although it is no record of a message. -/
def Lays (d : Draft) : Prop :=
  match d.rtype.layout? with
  | some layout => Follows layout d.body
  | none => ∃ len, len ≤ 65535 ∧ Follows [.run len] d.body

/-- Wherever the operations are performed, they write data of the type of the record. -/
def Lands (d : Draft) : Prop := ∃ fields, Takes d.rtype fields ∧ Fills fields d.body

theorem Lays.lands (h : d.Lays) : d.Lands := by
  unfold Lays at h
  cases hlayout : d.rtype.layout? with
  | some layout =>
      rw [hlayout] at h
      exact ⟨layout, takes_layout hlayout, h.fills⟩
  | none =>
      rw [hlayout] at h
      obtain ⟨len, hlen, hfollows⟩ := h
      exact ⟨[.run len], takes_run hlayout hlen, hfollows.fills⟩

theorem Lands.isData (h : d.Lands) : ∀ op ∈ d.body, op.isData = true := by
  obtain ⟨fields, -, hfills⟩ := h
  exact hfills.isData

end Draft

/-! ## Writing records -/

theorem step_start (w : Writer) (d : Draft) :
    w.step d.start = w.startRecord d.owner d.rtype d.ttl d.rclass d.part d.compress := rfl

theorem run_ops (w : Writer) (d : Draft) : w.run d.ops = (w.step d.start).run d.body := by
  unfold run Draft.ops
  exact List.foldl_cons ..

theorem run_ops_commit (w : Writer) (d : Draft) : w.commit.run d.ops = w.run d.ops := by
  rw [run_ops, run_ops, step_start, step_start, startRecord_commit]

/-- A record that is written extends the message that has it open. -/
theorem extends_run_ops (w : Writer) (d : Draft) (h : ∀ op ∈ d.body, op.isData = true) :
    Extends { w.ready d.compress with current := (w.step d.start).current } (w.run d.ops) := by
  rw [run_ops, step_start]
  exact (Extends.startRecord w ..).trans (Extends.run h _)

/-- Without an open record, all behind the header is settled. -/
theorem holds_settledView_commit {w : Writer} {os : List UInt8} {pos limit : Nat}
    (h : Holds w.commit.content.view pos os) (hpos : Header.length ≤ pos)
    (hlimit : pos + os.length ≤ limit) : Holds (w.commit.settledView limit) pos os := by
  exact holds_settledView h hpos hlimit (forall_mem_of_none (current_commit w))

/-- The fixed octets of a record before the length of its data. -/
def fixedFront (d : Draft) : List UInt8 :=
  Octets.ofUInt16 d.rtype.code ++ Octets.ofUInt16 d.rclass.code ++ Octets.ofUInt32 d.ttl

@[simp] theorem length_fixedFront (d : Draft) : (fixedFront d).length = 8 := rfl

/-- When a record is started, all that stands before the length of its data is settled. -/
theorem Sound.start {w w₁ : Writer} {marks : List Mark} {d : Draft} (h : Sound w marks)
    (hw₁ : w₁ = w.step d.start) :
    (∃ marks', Sound w₁ marks') ∧ w₁.current = some ⟨w₁.content.size, d.part⟩ ∧
      Header.length + 10 ≤ w₁.content.size ∧
      Holds (w₁.settledView w₁.content.size) (w₁.content.size - 10) (fixedFront d) ∧
      ∃ n : Name, n.same d.owner = true ∧
        Spelled (w₁.settledView w₁.content.size) w.content.size n.labels
          (w₁.content.size - 10) ∧
        w.step { d with owner := n }.start = w.step d.start := by
  rw [step_start] at hw₁
  obtain ⟨hopen, hfixed, hlow⟩ := startRecord_fixed hw₁
  have h₁ := h.startRecord d.owner d.rtype d.ttl d.rclass d.part d.compress
  rw [← hw₁] at h₁
  have hheader := h.commit.length_le
  obtain ⟨-, -, n, hn, hsame⟩ := h₁.keeps _ (List.mem_append_right _ List.mem_cons_self)
  have hread := hn.mono (settledView_le_view w₁ _)
  rw [hw₁] at hread
  refine ⟨⟨_, h₁⟩, hopen, by omega, ?_, n, hsame, hn.mono (settledView_mono (Nat.sub_le _ _)),
    h.startRecord_reread hread⟩
  refine holds_settledView (holds_append.mp hfixed).1 (by omega) ?_ fun r hr => .inr ?_
  · rw [length_fixedFront]
    omega
  · rw [hopen] at hr
    cases hr
    rw [length_fixedFront]
    simp only
    omega

/-- When a record is completed, the length of its data stands before the data. -/
theorem Sound.length {w : Writer} {marks : List Mark} {r : OpenRecord} (h : Sound w marks)
    (hcur : w.current = some r) :
    Holds (w.commit.settledView w.commit.content.size) (r.start - 2)
      (Octets.ofUInt16 (UInt16.ofNat (w.content.size - r.start))) := by
  have hrange := h.inRange r hcur
  have hsize := size_commit h.inRange
  refine holds_settledView_commit (holds_commit h.inRange hcur) (by omega) ?_
  show r.start - 2 + 2 ≤ w.commit.content.size
  omega

/-- A record that is written and completed stands at the old end of the message and is the
one that was written. With the owner that it has there it would have been started in the same
way. -/
theorem Sound.record {w : Writer} {marks : List Mark} {d : Draft} (h : Sound w marks)
    (hd : d.Lands) :
    ∃ r, r.At ((w.run d.ops).commit.settledView (w.run d.ops).commit.content.size)
        w.content.size (w.run d.ops).commit.content.size ∧ d.Decodes r ∧
      w.step { d with owner := r.owner }.start = w.step d.start ∧
      ∃ marks', Sound (w.run d.ops) marks' := by
  obtain ⟨fields, htakes, hfills⟩ := hd
  have hlimit := htakes.limit
  obtain ⟨w₁, hw₁⟩ : ∃ w₁, w₁ = w.step d.start := ⟨_, rfl⟩
  obtain ⟨⟨marks₁, h₁⟩, hopen, hlow, hfront, n, hsame, howner, hstart⟩ := h.start hw₁
  obtain ⟨marks₂, os, h₂, hwrites, hat⟩ := hfills.run h₁
  have hext := Extends.run hfills.isData w₁
  rw [run_ops, ← hw₁]
  generalize w₁.run d.body = w₂ at h₂ hat hext
  have hsize : w₂.commit.content.size = w₂.content.size := size_commit h₂.inRange
  have hgrow : w₁.content.size ≤ w₂.content.size := hext.size_le
  have hlen := h₂.length (hext.current.trans hopen)
  let v := w₂.commit.settledView w₂.commit.content.size
  -- What stands before the data is settled when the record is started, the data when it is
  -- written, and all of it stays when the record is completed.
  have hle₂ : Le (w₂.settledView w₂.content.size) v := by
    show Le _ (w₂.commit.settledView w₂.commit.content.size)
    rw [hsize]
    exact h₂.settledView_commit_le _
  have hle₁ : Le (w₁.settledView w₁.content.size) v :=
    ((hext.settledView_le (Nat.le_refl _)).trans (settledView_mono hgrow)).trans hle₂
  have hfixed : Holds v (w₁.content.size - 10)
      (fixedFront d ++ Octets.ofUInt16 (UInt16.ofNat (w₂.content.size - w₁.content.size))) := by
    refine holds_append.mpr ⟨hfront.mono hle₁, ?_⟩
    have hplace : w₁.content.size - 10 + (fixedFront d).length = w₁.content.size - 2 := by
      rw [length_fixedFront]
      omega
    rw [hplace]
    exact hlen
  obtain ⟨raw, hraw, hend⟩ := Octets.exists_holds_view hgrow (Nat.le_of_eq hsize.symm)
  have hholds : Holds v w₁.content.size raw :=
    holds_settledView_commit hraw (by omega) (by omega)
  have hrawlen : raw.length = (UInt16.ofNat (w₂.content.size - w₁.content.size)).toNat := by
    have hstop := stop_le_of_dataAt hat
    have hsub : raw.length = w₂.content.size - w₁.content.size := by omega
    have hlt : raw.length < UInt16.size := Nat.lt_succ_of_le (by omega)
    rw [← hsub, UInt16.toNat_ofNat_of_lt' hlt]
  have hpos : w₁.content.size - 10 + 10 = w₁.content.size := by omega
  refine ⟨⟨n, d.rtype, d.rclass, d.ttl, os.toArray, d.part⟩,
    ⟨w₁.content.size - 10, _, raw, howner.mono hle₁, hfixed, ?_, hrawlen, ?_, ?_⟩,
    ⟨hsame, rfl, rfl, rfl, rfl, hwrites⟩, hstart.trans hw₁.symm, marks₂, h₂⟩
  · rw [hpos]
    exact hholds
  · rw [hpos, hend, hsize]
  · rw [hpos]
    refine htakes.dataAt rfl rfl hholds ?_
    rw [hend]
    exact hat.mono hle₂

/-- A record that is being written is open behind the old end of the message. -/
theorem exists_run_ops {w : Writer} {d : Draft} (hclosed : w.current = none)
    (hdata : ∀ op ∈ d.body, op.isData = true) :
    ∃ (added : List UInt8) (start : Nat), (w.run d.ops).content = w.content ++ added ∧
      (w.run d.ops).current = some ⟨start, d.part⟩ ∧ w.content.size + 10 ≤ start := by
  have hext := extends_run_ops w d hdata
  obtain ⟨hopen, -, hlow⟩ := startRecord_fixed (step_start w d)
  obtain ⟨added, hcontent⟩ := hext.content
  have hcommit : (w.ready d.compress).content = w.content := by
    rw [ready, commit_of_none hclosed]
  rw [commit_of_none hclosed] at hlow
  exact ⟨added, _, by rw [hcontent, hcommit], hext.current.trans hopen, hlow⟩

/-- What was settled before a record stays when the record is complete: it is behind the header
and not in the length field of the record. -/
theorem settledView_le_commit {w w' : Writer} {added : List UInt8} (h : w'.InRange)
    (hcontent : w'.content = w.content ++ added)
    (hopen : ∀ r ∈ w'.current, w.content.size + 2 ≤ r.start) :
    Le (w.settledView w.content.size) (w'.commit.settledView w'.commit.content.size) := by
  have hgrow : w.content.size ≤ w'.commit.content.size := by
    rw [size_commit h, hcontent, Octets.size_append]
    exact Nat.le_add_right _ _
  refine (settledView_le fun i o hi hsettled hget => ⟨⟨hsettled.1, ?_⟩, ?_⟩).trans
    (settledView_mono hgrow)
  · exact forall_mem_of_none (current_commit w')
  · have hfree : ∀ r ∈ w'.current, i + 2 < r.start ∨ r.start ≤ i := by
      intro r hr
      have := hopen r hr
      exact .inl (by omega)
    rw [getElem?_commit h hsettled.1 hfree, hcontent, Octets.getElem?_append, if_pos hi]
    exact hget

/-! ## Messages in the making -/

/-- The message, with no record open, is one of the grammar: it is made of the question and
these records, which decode what was written, and its header counts them. -/
structure Built (w : Writer) (q : Question) (drafts : List Draft) (records : List Record) :
    Prop where
  closed : w.current = none
  sound : ∃ marks, Sound w marks
  question : q.At (w.settledView w.content.size) Header.length w.questionEnd
  sequence : Sequence (Record.At (w.settledView w.content.size)) w.questionEnd records
    w.content.size
  decodes : List.Forall₂ Draft.Decodes drafts records
  counts : ∀ s, (Header.read w.content).count s =
    UInt16.ofNat ((Section.question :: records.map Record.part).count s)

namespace Built

variable {w w' : Writer} {q : Question} {drafts : List Draft} {records : List Record}

theorem congr (h : Built w q drafts records) (hsame : SameMessage w w') :
    Built w' q drafts records := by
  obtain ⟨marks, hsound⟩ := h.sound
  have hclosed : w'.current = none := hsame.current.trans h.closed
  have hle := settledView_le_of_sameMessage hsame w.content.size
  have hrecord : ∀ r ∈ w.current, w'.recordStart = w.recordStart := forall_mem_of_none h.closed
  refine ⟨hclosed, ⟨marks, hsound.congr hsame hrecord⟩, ?_, ?_, h.decodes, ?_⟩
  · rw [hsame.content, hsame.questionEnd]
    exact h.question.mono hle
  · rw [hsame.content, hsame.questionEnd]
    exact h.sequence.mono fun _ _ _ hr => hr.mono hle
  · rw [hsame.content]
    exact h.counts

/-- All of the header may change but the counts. -/
theorem editHeader (h : Built w q drafts records) {f : Header → Header}
    (hcount : ∀ s, (f (Header.read w.content)).count s = (Header.read w.content).count s) :
    Built (w.editHeader f) q drafts records := by
  obtain ⟨marks, hsound⟩ := h.sound
  have hle := settledView_editHeader_le w f w.content.size
  refine ⟨h.closed, ⟨marks, hsound.editHeader f⟩, ?_, ?_, h.decodes, fun s => ?_⟩
  · rw [size_editHeader]
    exact h.question.mono hle
  · rw [size_editHeader]
    exact h.sequence.mono fun _ _ _ hr => hr.mono hle
  · rw [show (Header.read (w.editHeader f).content).count s = _ from
      Header.count_read_edit f hsound.length_le s, hcount, h.counts]

/-- A message begins with its question. -/
theorem new (q : Question) (opcode : Opcode) :
    Built (.new q.qname q.qtype q.qclass opcode) q [] [] := by
  have hsound := Sound.new q.qname q.qtype q.qclass opcode
  have hholds := holds_new q.qname q.qtype q.qclass opcode
  have hsize := size_new q.qname q.qtype q.qclass opcode
  have hname := hsound.question
  rw [qname_new] at hname
  rw [questionOctets, List.append_assoc] at hholds
  refine ⟨current_new .., ⟨_, hsound⟩, ⟨_, hname.mono (settledView_mono (by omega)), ?_, ?_⟩, ?_,
    .nil, ?_⟩
  · have hfixed := (holds_append.mp hholds).2
    rw [Name.length_wire] at hfixed
    refine holds_settledView hfixed (by omega) ?_ ?_
    · show Header.length + q.qname.wireLength + 4 ≤ _
      omega
    · exact forall_mem_of_none (current_new ..)
  · rw [questionEnd_new, Nat.add_assoc]
  · rw [questionEnd_new, hsize]
    exact .nil
  · intro s
    rw [count_new]
    cases s <;> rfl

/-- A record that is written changes nothing of the header but the count of its section. -/
theorem read_record {d : Draft} (h : Built w q drafts records) (hd : d.Lands) :
    Header.read (w.run d.ops).commit.content = ((Header.read w.content).setCount d.part
      ((Header.read w.content).count d.part + 1)).narrowed := by
  obtain ⟨marks, hsound⟩ := h.sound
  obtain ⟨-, -, -, -, marks', hsound'⟩ := hsound.record hd
  obtain ⟨added, start, hcontent, hopen, -⟩ := exists_run_ops h.closed hd.isData
  have hread : Header.read (w.run d.ops).content = Header.read w.content := by
    rw [hcontent]
    exact Header.read_append_list _ _ hsound.length_le
  rw [read_commit hsound'.inRange hopen, hread]

/-- A record that is written is one more record of the message. -/
theorem record {d : Draft} (h : Built w q drafts records) (hd : d.Lands) :
    ∃ r, d.Decodes r ∧ w.step { d with owner := r.owner }.start = w.step d.start ∧
      Built (w.run d.ops).commit q (drafts ++ [d]) (records ++ [r]) := by
  obtain ⟨marks, hsound⟩ := h.sound
  obtain ⟨r, hat, hdecodes, hstart, marks', hsound'⟩ := hsound.record hd
  obtain ⟨added, start, hcontent, hopen, hlow⟩ := exists_run_ops h.closed hd.isData
  have hend : (w.run d.ops).commit.questionEnd = w.questionEnd := by
    rw [questionEnd_commit, (extends_run_ops w d hd.isData).questionEnd]
    exact questionEnd_commit w
  have hread := h.read_record hd
  generalize w.run d.ops = w' at hat hsound' hcontent hopen hend hread
  have hle := settledView_le_commit hsound'.inRange hcontent fun r hr => by
    rw [hopen] at hr
    cases hr
    exact Nat.le_trans (Nat.add_le_add_left (by decide) _) hlow
  refine ⟨r, hdecodes, hstart, current_commit w', ⟨marks', hsound'.commit⟩, ?_, ?_, ?_,
    fun s => ?_⟩
  · rw [hend]
    exact h.question.mono hle
  · rw [hend]
    exact Sequence.append_iff.mpr
      ⟨_, h.sequence.mono fun _ _ _ hr => hr.mono hle, .cons hat .nil⟩
  · exact List.rel_append h.decodes (.cons hdecodes .nil)
  · rw [hread, Header.count_narrowed, Header.count_setCount, h.counts, h.counts, List.map_append,
      ← List.cons_append, List.count_append, List.map_singleton, hdecodes.part,
      List.count_singleton]
    by_cases hs : s = d.part
    · rw [if_pos hs, hs, beq_self_eq_true, if_pos rfl, UInt16.ofNat_add]
      rfl
    · have hne : (d.part == s) = false := beq_eq_false_iff_ne.mpr fun h => hs h.symm
      rw [if_neg hs, hne]
      rfl

/-- A record that is taken back leaves the message as it was. -/
theorem dropped {d : Draft} (h : Built w q drafts records)
    (hdata : ∀ op ∈ d.body, op.isData = true) :
    Built (w.run d.ops).rollback q drafts records := by
  obtain ⟨marks, hsound⟩ := h.sound
  have hsame := hsound.sameMessage_rollback hdata d.owner d.rtype d.ttl d.rclass d.part d.compress
  rw [commit_of_none h.closed] at hsame
  exact h.congr hsame

/-- Each piece adds the records that stay. -/
theorem piece {p : Piece} (h : Built w.commit q drafts records) (hp : p.Formed) :
    ∃ records', Built (w.run p.ops).commit q (drafts ++ p.drafts) records' := by
  cases p with
  | record d =>
      have hlays : d.Lays := hp.follows
      obtain ⟨r, -, -, hr⟩ := h.record hlays.lands
      rw [run_ops_commit] at hr
      exact ⟨_, hr⟩
  | dropped d =>
      have hrun : w.run (Piece.dropped d).ops = (w.run d.ops).rollback := by
        unfold run Piece.ops
        rw [List.foldl_append]
        rfl
      have hnone : (Piece.dropped d).drafts = [] := rfl
      have hdrop := h.dropped hp
      rw [run_ops_commit] at hdrop
      refine ⟨records, ?_⟩
      rw [hrun, commit_of_none hdrop.closed, hnone, List.append_nil]
      exact hdrop
  | commit =>
      refine ⟨records, ?_⟩
      show Built w.commit.commit q (drafts ++ []) records
      rw [commit_commit, List.append_nil]
      exact h
  | mode op =>
      refine ⟨records, ?_⟩
      show Built (w.step op).commit q (drafts ++ []) records
      rw [List.append_nil]
      exact h.congr (sameMessage_step hp w).1.commit

/-- Writing records keeps to the grammar. -/
theorem run {script : List Piece} (h : Built w.commit q drafts records)
    (hscript : ∀ p ∈ script, p.Formed) :
    ∃ records', Built (w.run (script.flatMap Piece.ops)).commit q
      (drafts ++ script.flatMap Piece.drafts) records' := by
  induction script generalizing w drafts records with
  | nil =>
      refine ⟨records, ?_⟩
      show Built w.commit q (drafts ++ []) records
      rw [List.append_nil]
      exact h
  | cons p script ih =>
      obtain ⟨hp, hrest⟩ := List.forall_mem_cons.mp hscript
      obtain ⟨records₁, h₁⟩ := h.piece hp
      obtain ⟨records₂, h₂⟩ := ih h₁ hrest
      refine ⟨records₂, ?_⟩
      have hrun : w.run ((p :: script).flatMap Piece.ops) =
          (w.run p.ops).run (script.flatMap Piece.ops) := by
        unfold run
        rw [List.flatMap_cons, List.foldl_append]
      rw [hrun, List.flatMap_cons, ← List.append_assoc]
      exact h₂

end Built

theorem Piece.rtype_ne_of_mem {script : List Piece} (h : ∀ p ∈ script, p.Formed) :
    ∀ d ∈ script.flatMap Piece.drafts, d.rtype ≠ .opt := by
  intro d hd
  obtain ⟨p, hp, hd⟩ := List.mem_flatMap.mp hd
  cases p with
  | record d' =>
      have hformed : d'.Formed := h _ hp
      rw [List.mem_singleton.mp hd]
      exact hformed.rtype_ne
  | _ => cases hd

theorem Draft.map_part_eq {drafts : List Draft} {records : List Record}
    (h : List.Forall₂ Draft.Decodes drafts records) :
    records.map Record.part = drafts.map Draft.part := by
  induction h with
  | nil => rfl
  | cons hd _ ih => rw [List.map_cons, List.map_cons, hd.part, ih]

theorem Draft.filter_eq {drafts : List Draft} {records : List Record}
    (h : List.Forall₂ Draft.Decodes drafts records) (hdrafts : ∀ d ∈ drafts, d.rtype ≠ .opt) :
    records.filter (·.rtype ≠ .opt) = records := by
  induction h with
  | nil => rfl
  | cons hd _ ih =>
      obtain ⟨hfirst, hrest⟩ := List.forall_mem_cons.mp hdrafts
      rw [List.filter_cons_of_pos, ih hrest]
      rw [hd.rtype]
      exact decide_eq_true hfirst

/-- A message that is built with its records in the order of the sections, not more of them
than a header can count, is one of the grammar. -/
theorem Built.grammar {w : Writer} {q : Question} {drafts : List Draft} {records : List Record}
    (h : Built w q drafts records) {answers authorities additionals : Nat}
    (hparts : drafts.map Draft.part = List.replicate answers .answer
      ++ List.replicate authorities .authority ++ List.replicate additionals .additional)
    (hanswers : answers ≤ 65535) (hauthorities : authorities ≤ 65535)
    (hadditionals : additionals ≤ 65535) : Message.Grammar w.content [q] records := by
  obtain ⟨marks, hsound⟩ := h.sound
  have hview := settledView_le_view w w.content.size
  have hrecords := (Draft.map_part_eq h.decodes).trans hparts
  have hcounts := h.counts
  rw [hrecords] at hcounts
  have hquestion : (Header.read w.content).questions = 1 := by
    refine (hcounts .question).trans ?_
    simp [List.count_replicate]
  have hanswer : (Header.read w.content).answers = UInt16.ofNat answers := by
    refine (hcounts .answer).trans ?_
    simp [List.count_replicate]
  have hauthority : (Header.read w.content).authorities = UInt16.ofNat authorities := by
    refine (hcounts .authority).trans ?_
    simp [List.count_replicate]
  have hadditional : (Header.read w.content).additionals = UInt16.ofNat additionals := by
    refine (hcounts .additional).trans ?_
    simp [List.count_replicate]
  have toNat : ∀ {n : Nat}, n ≤ 65535 → (UInt16.ofNat n).toNat = n :=
    fun hn => UInt16.toNat_ofNat_of_lt' (Nat.lt_succ_of_le hn)
  exact {
    header := hsound.length_le
    questions_length := by
      rw [hquestion]
      rfl
    parts := by
      rw [hanswer, hauthority, hadditional, toNat hanswers, toNat hauthorities,
        toNat hadditionals]
      exact hrecords
    sequence := ⟨_, _, .cons (h.question.mono hview) .nil,
      h.sequence.mono fun _ _ _ hr => hr.mono hview⟩ }

/-- **What is written is read back.** Whatever records a caller writes in the order of the
sections, with whatever compression and in whatever modes, and whatever records it takes back
in between: the message decodes to the question as it was given and to the records that stay,
in order. Each of them has its type, class, time to live and section as they were given, and
its owner and its data up to the case of the names. -/
theorem decode_finish_run (q : Question) (opcode : Opcode) (script : List Piece)
    (answers authorities additionals : Nat) (hscript : ∀ p ∈ script, p.Formed)
    (hparts : (script.flatMap Piece.drafts).map Draft.part =
      List.replicate answers .answer ++ List.replicate authorities .authority
        ++ List.replicate additionals .additional)
    (hanswers : answers ≤ 65535) (hauthorities : authorities ≤ 65535)
    (hadditionals : additionals ≤ 65535) :
    ∃ m, Message.decode ((new q.qname q.qtype q.qclass opcode).run
        (script.flatMap Piece.ops)).finish = .ok m ∧
      m.question = some q ∧
      List.Forall₂ Draft.Decodes (script.flatMap Piece.drafts) m.records := by
  have hnew := Built.new q opcode
  rw [← commit_of_none hnew.closed] at hnew
  obtain ⟨records, h⟩ := hnew.run hscript
  rw [List.nil_append] at h
  have hgrammar := h.grammar hparts hanswers hauthorities hadditionals
  have hkept := Draft.filter_eq h.decodes (Piece.rtype_ne_of_mem hscript)
  refine ⟨_, Message.decode_eq_ok_iff.mpr ⟨_, _, hgrammar, rfl⟩, rfl, ?_⟩
  show List.Forall₂ Draft.Decodes _ (records.filter (·.rtype ≠ .opt))
  rw [hkept]
  exact h.decodes

/-- A mail exchange, a record that is taken back, and an address in lower case mode. -/
def mailScript : List Piece :=
  [.record ⟨com, .mx, 60, .internet, .answer, true, [.uInt16 5, .name com true]⟩,
    .dropped ⟨com, .cname, 60, .internet, .answer, true, [.name com true]⟩,
    .mode (.lowercase true),
    .record ⟨com, ⟨1⟩, 60, .internet, .additional, true, [.uInt32 2130706433]⟩]

theorem formed_mailScript : ∀ p ∈ mailScript, p.Formed := by
  have hexchange : Follows [.run ((Octets.ofUInt16 5).length + 0), .name]
      [.uInt16 5, .name com true] := .raw rfl (.full (.name .nil))
  have haddress : Follows [.run ((Octets.ofUInt32 2130706433).length + 0)]
      [.uInt32 2130706433] := .raw rfl (.full .nil)
  have hdropped : ∀ op ∈ [Op.name com true], op.isData = true := by simp [Op.isData]
  simp only [mailScript, List.forall_mem_cons]
  exact ⟨⟨by decide, hexchange⟩, hdropped, rfl, ⟨by decide, 4, by decide, haddress⟩,
    List.forall_mem_nil _⟩

theorem decode_finish_run_mailScript :
    ∃ m, Message.decode ((new com .mx .internet ⟨0⟩).run (mailScript.flatMap Piece.ops)).finish =
        .ok m ∧
      m.question = some ⟨com, .mx, .internet⟩ ∧
      List.Forall₂ Draft.Decodes (mailScript.flatMap Piece.drafts) m.records :=
  decode_finish_run ⟨com, .mx, .internet⟩ ⟨0⟩ mailScript 1 0 1 formed_mailScript rfl (by decide)
    (by decide) (by decide)

end Querier.Writer
