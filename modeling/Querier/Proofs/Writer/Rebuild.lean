import Querier.Proofs.Writer.RoundTrip

/-!
# Messages that are written anew

A decoded record stands on its own. Its names are written out, its data is as long as a
length can count, and nothing in it refers to the message that it came from. So a message can
be written anew from its question and its records, each with its data in one piece, and what
is decoded then is what was decoded before.

Compression may change the case of an owner, but only once: what reads back where an owner
was written would have been written in the same way.

## Main results

* `DataField.At.expanded`: data with its names written out is data of the same layout
  wherever its octets stand.
* `lands_draftOf`: a decoded record can be written with its data in one piece.
* `Built.rebuild`: writing records with their data in one piece keeps to the grammar, and
  writing them as they read back does the same to the message.
* `decode_rebuild`: a message that is written anew decodes to the same question and records,
  and is not changed by being written anew once more.
-/

namespace Querier

open View

/-! ## Data that stands on its own -/

/-- Data with its names written out is data of the same layout wherever its octets stand. -/
theorem DataField.At.expanded {v v' : View} {fields : List DataField} {pos pos' stop : Nat}
    {os : List UInt8} (h : DataField.At v fields pos os stop) (hos : Holds v' pos' os) :
    DataField.At v' fields pos' os (pos' + os.length) := by
  induction h generalizing pos' with
  | nil => exact .nil
  | name _ _ ih =>
      obtain ⟨hname, hrest⟩ := holds_append.mp hos
      have hspelled := spelled_of_holds_wire hname
      rw [← Name.length_wire] at hspelled
      rw [List.length_append, ← Nat.add_assoc]
      exact .name hspelled (ih hrest)
  | run length _ _ ih =>
      obtain ⟨htaken, hrest⟩ := holds_append.mp hos
      rw [length] at hrest
      rw [List.length_append, length, ← Nat.add_assoc]
      exact .run length htaken (ih hrest)

/-- Two records are equal up to the case of their owners. -/
structure Record.Alike (r r' : Record) : Prop where
  owner : r'.owner.same r.owner = true
  others : r' = { r with owner := r'.owner }

/-! ## Records of one section -/

namespace Message.Grammar

variable {b : Octets} {questions : List Question} {records : List Record}

/-- Records that are left out leave the others in the order of the sections. -/
theorem exists_parts (h : Grammar b questions records) {kept : List Record}
    (hkept : kept.Sublist records) :
    ∃ answers authorities additionals, kept.map Record.part =
        List.replicate answers .answer ++ List.replicate authorities .authority
          ++ List.replicate additionals .additional ∧
      answers ≤ 65535 ∧ authorities ≤ 65535 ∧ additionals ≤ 65535 := by
  have hparts := hkept.map Record.part
  rw [h.parts] at hparts
  obtain ⟨front, last, hsplit, hfront, hlast⟩ := List.sublist_append_iff.mp hparts
  obtain ⟨first, second, rfl, hfirst, hsecond⟩ := List.sublist_append_iff.mp hfront
  obtain ⟨answers, hanswers, rfl⟩ := List.sublist_replicate_iff.mp hfirst
  obtain ⟨authorities, hauthorities, rfl⟩ := List.sublist_replicate_iff.mp hsecond
  obtain ⟨additionals, hadditionals, rfl⟩ := List.sublist_replicate_iff.mp hlast
  have hlimit : ∀ n : UInt16, n.toNat ≤ 65535 := fun n => Nat.le_of_lt_succ n.toNat_lt
  exact ⟨answers, authorities, additionals, hsplit, Nat.le_trans hanswers (hlimit _),
    Nat.le_trans hauthorities (hlimit _), Nat.le_trans hadditionals (hlimit _)⟩

/-- The header counts the records of a section, the OPT records included. -/
theorem count_part (h : Grammar b questions records) {s : Section} (hs : s ≠ .question) :
    (records.map Record.part).count s = ((Header.read b).count s).toNat := by
  rw [h.parts]
  cases s with
  | question => exact absurd rfl hs
  | _ => simp [List.count_replicate, Header.count]

end Message.Grammar

theorem Message.length_inSection (m : Message) (s : Section) :
    (m.inSection s).length = (m.records.map Record.part).count s := by
  rw [inSection, ← List.countP_eq_length_filter, List.count_eq_countP, List.countP_map]
  rfl

theorem Record.Alike.map_part_eq {rs rs' : List Record} (h : List.Forall₂ Record.Alike rs rs') :
    rs'.map Record.part = rs.map Record.part := by
  induction h with
  | nil => rfl
  | cons hr _ ih => rw [List.map_cons, List.map_cons, ih, hr.others]

namespace Writer

/-! ## Records that are written anew -/

/-- A record as a caller would write it that has its data in one piece. -/
def draftOf (r : Record) (compress : Bool) : Draft where
  owner := r.owner
  rtype := r.rtype
  ttl := r.ttl
  rclass := r.rclass
  part := r.part
  compress := compress
  body := [.data r.data.toList]

/-- Records as a caller would write them, each with compression or without. -/
def draftsOf (compress : Nat → Bool) (records : List Record) : List Draft :=
  records.mapIdx fun i r => draftOf r (compress i)

theorem draftsOf_cons (compress : Nat → Bool) (r : Record) (rs : List Record) :
    draftsOf compress (r :: rs) =
      draftOf r (compress 0) :: draftsOf (fun i => compress (i + 1)) rs :=
  List.mapIdx_cons

theorem forall_mem_draftsOf {compress : Nat → Bool} {rs : List Record} {P : Draft → Prop}
    (h : ∀ r ∈ rs, ∀ c, P (draftOf r c)) : ∀ d ∈ draftsOf compress rs, P d := by
  intro d hd
  obtain ⟨i, hi, rfl⟩ := List.mem_mapIdx.mp hd
  exact h _ (List.getElem_mem hi) _

/-- A message that is written anew from its question and its records. -/
def rebuild (q : Question) (opcode : Opcode) (compress : Nat → Bool) (records : List Record) :
    Octets :=
  ((new q.qname q.qtype q.qclass opcode).run
    ((draftsOf compress records).flatMap Draft.ops)).finish

/-- Data of a layout can be written in one piece once its names are written out. -/
theorem fills_data {v : View} {fields : List DataField} {pos stop : Nat} {os : List UInt8}
    (h : DataField.At v fields pos os stop) : Fills fields [.data os] where
  isData := List.forall_mem_singleton.mpr rfl
  run := by
    intro w marks hw
    have hsize : (w.push os).content.size = w.content.size + os.length := Octets.size_append _ _
    have hwrites : Writes [.data os] (os ++ []) := .raw rfl .nil
    have hat := h.expanded (hw.holds_push os)
    rw [List.append_nil] at hwrites
    rw [← hsize] at hat
    exact ⟨marks, os, hw.push os, hwrites, hat⟩

/-- A record that stands in a message can be written with its data in one piece. -/
theorem lands_draftOf {v : View} {r : Record} {pos stop : Nat} (h : r.At v pos stop)
    (compress : Bool) : (draftOf r compress).Lands := by
  obtain ⟨start, len, raw, -, -, hraw, hlen, -, hdata⟩ := h
  unfold Record.DataAt at hdata
  cases hlayout : r.rtype.layout? with
  | some layout =>
      rw [hlayout] at hdata
      exact ⟨layout, takes_layout hlayout, fills_data hdata⟩
  | none =>
      rw [hlayout] at hdata
      have hlimit : raw.length ≤ 65535 := hlen ▸ Nat.le_of_lt_succ len.toNat_lt
      have hlist : r.data.toList = raw ++ [] := by
        rw [hdata, List.append_nil]
      have hat : DataField.At v [.run raw.length] (start + 10) r.data.toList
          (start + 10 + raw.length) := by
        rw [hlist]
        exact .run rfl hraw .nil
      exact ⟨[.run raw.length], takes_run hlayout hlimit, fills_data hat⟩

theorem Draft.Decodes.alike {r r' : Record} {compress : Bool}
    (h : (draftOf r compress).Decodes r') : r.Alike r' := by
  have hdata : r'.data = r.data := Array.toList_inj.mp h.data.eq_of_data
  refine ⟨h.owner, ?_⟩
  cases r'
  cases h.rtype
  cases h.rclass
  cases h.ttl
  cases h.part
  cases hdata
  rfl

theorem run_flatMap_cons (w : Writer) (d : Draft) (ds : List Draft) :
    w.run ((d :: ds).flatMap Draft.ops) = (w.run d.ops).run (ds.flatMap Draft.ops) := by
  unfold run
  rw [List.flatMap_cons, List.foldl_append]

/-- A record as it reads back does the same to the message as the record that was written. -/
theorem run_ops_alike {w : Writer} {r r' : Record} {compress : Bool} (h : r.Alike r')
    (hstart : w.step { draftOf r compress with owner := r'.owner }.start =
      w.step (draftOf r compress).start) :
    w.run (draftOf r' compress).ops = w.run (draftOf r compress).ops := by
  rw [h.others, run_ops, run_ops, ← hstart]
  rfl

/-- Writing records that stand on their own keeps to the grammar. The records read back as
they were, up to the case of their owners, and writing them as they read back does the same to
the message. -/
theorem Built.rebuild {w : Writer} {q : Question} {drafts : List Draft}
    {records rs : List Record} (h : Built w.commit q drafts records)
    (hrs : ∀ r ∈ rs, ∀ compress, (draftOf r compress).Lands) (compress : Nat → Bool) :
    ∃ rs', Built (w.run ((draftsOf compress rs).flatMap Draft.ops)).commit q
        (drafts ++ draftsOf compress rs) (records ++ rs') ∧
      List.Forall₂ Record.Alike rs rs' ∧
      w.run ((draftsOf compress rs').flatMap Draft.ops) =
        w.run ((draftsOf compress rs).flatMap Draft.ops) := by
  induction rs generalizing w drafts records compress with
  | nil =>
      refine ⟨[], ?_, .nil, rfl⟩
      show Built w.commit q (drafts ++ []) (records ++ [])
      rw [List.append_nil, List.append_nil]
      exact h
  | cons r rs ih =>
      obtain ⟨hr, hrest⟩ := List.forall_mem_cons.mp hrs
      obtain ⟨r', hdecodes, hstart, hbuilt⟩ := h.record (hr (compress 0))
      rw [run_ops_commit] at hbuilt
      rw [step_start, step_start, startRecord_commit, startRecord_commit] at hstart
      obtain ⟨rs', hbuilt, halike, hrun⟩ := ih hbuilt hrest fun i => compress (i + 1)
      refine ⟨r' :: rs', ?_, .cons hdecodes.alike halike, ?_⟩
      · rw [draftsOf_cons, run_flatMap_cons, List.append_cons drafts, List.append_cons records]
        exact hbuilt
      · rw [draftsOf_cons, draftsOf_cons, run_flatMap_cons, run_flatMap_cons,
          run_ops_alike hdecodes.alike hstart, hrun]

/-- The records of a decoded message are in the order of the sections, and each of them can be
written with its data in one piece. -/
theorem records_of_decode {b : Octets} {m : Message} (h : Message.decode b = .ok m) :
    (∀ r ∈ m.records, r.rtype ≠ .opt ∧ ∀ compress, (draftOf r compress).Lands) ∧
      ∃ answers authorities additionals, m.records.map Record.part =
          List.replicate answers .answer ++ List.replicate authorities .authority
            ++ List.replicate additionals .additional ∧
        answers ≤ 65535 ∧ authorities ≤ 65535 ∧ additionals ≤ 65535 := by
  obtain ⟨questions, records, hgrammar, rfl⟩ := Message.decode_eq_ok_iff.mp h
  obtain ⟨mid, stop, -, hsequence⟩ := hgrammar.sequence
  refine ⟨?_, hgrammar.exists_parts List.filter_sublist⟩
  intro r hr
  obtain ⟨hmem, hrtype⟩ := List.mem_filter.mp hr
  obtain ⟨pos, stop, hat⟩ := hsequence.exists_at r hmem
  exact ⟨of_decide_eq_true hrtype, lands_draftOf hat⟩

/-- **Decoded records stand on their own.** Whatever message was decoded, a caller may write
its question and then its records, in order, each with its data in one piece and with or
without compression. That decodes to the same question and to the same records, with the same
data, up to the case of their owners, and the header counts the question and the records of
each section. To write once more what was decoded gives the same octets. -/
theorem decode_rebuild {b : Octets} {m : Message} {q : Question} (opcode : Opcode)
    (compress : Nat → Bool) (h : Message.decode b = .ok m) (hquestion : m.question = some q) :
    ∃ m', Message.decode (rebuild q opcode compress m.records) = .ok m' ∧
      m'.question = m.question ∧ List.Forall₂ Record.Alike m.records m'.records ∧
      m'.header.questions = 1 ∧
      (∀ s, s ≠ .question → (m'.header.count s).toNat = (m'.inSection s).length) ∧
      rebuild q opcode compress m'.records = rebuild q opcode compress m.records := by
  obtain ⟨hrecords, answers, authorities, additionals, hparts, hanswers, hauthorities,
    hadditionals⟩ := records_of_decode h
  have hnew := Built.new q opcode
  rw [← commit_of_none hnew.closed] at hnew
  obtain ⟨records, hbuilt, halike, hrun⟩ := hnew.rebuild (fun r hr => (hrecords r hr).2) compress
  rw [List.nil_append, List.nil_append] at hbuilt
  rw [← Record.Alike.map_part_eq halike, Draft.map_part_eq hbuilt.decodes] at hparts
  have hgrammar := hbuilt.grammar hparts hanswers hauthorities hadditionals
  have hkept := Draft.filter_eq hbuilt.decodes
    (forall_mem_draftsOf fun r hr _ => (hrecords r hr).1)
  let m' := Message.ofEntries (rebuild q opcode compress m.records) [q] records
  have hm' : m'.records = records := hkept
  refine ⟨m', Message.decode_eq_ok_iff.mpr ⟨_, _, hgrammar, rfl⟩, hquestion.symm, ?_, ?_, ?_, ?_⟩
  · rw [hm']
    exact halike
  · exact UInt16.toNat_inj.mp hgrammar.questions_length.symm
  · intro s hs
    rw [Message.length_inSection, hm', hgrammar.count_part hs]
    rfl
  · rw [hm']
    exact congrArg finish hrun

/-- A mail exchange with a pointer in its data, of an owner that is spelled in upper case. -/
def pointing : Octets :=
  #[0, 7, 128, 0, 0, 1, 0, 1, 0, 0, 0, 0,
    3, 99, 111, 109, 0, 0, 15, 0, 1,
    3, 67, 79, 77, 0, 0, 15, 0, 1, 0, 0, 0, 60, 0, 4, 0, 5, 192, 12]

/-- Its record. -/
def pointingRecord : Record where
  owner := ⟨[⟨[67, 79, 77], by decide, by decide⟩], by decide⟩
  rtype := .mx
  rclass := .internet
  ttl := 60
  data := ([0, 5] ++ com.wire).toArray
  part := .answer

theorem decode_pointing : Message.decode pointing =
    .ok (.ofEntries pointing [.internet com .mx] [pointingRecord]) := by
  have name : Spelled pointing.view 12 com.labels 17 :=
    .label (holds_iff.mpr (by decide)) (.root rfl)
  have question : (Question.internet com .mx).At pointing.view 12 21 :=
    ⟨17, name, holds_iff.mpr (by decide), rfl⟩
  have owner : Spelled pointing.view 21 pointingRecord.owner.labels 26 :=
    .label (holds_iff.mpr (by decide)) (.root rfl)
  have data : DataField.At pointing.view [.run 2, .name] 36 ([0, 5] ++ (com.wire ++ [])) 40 :=
    .run rfl (holds_iff.mpr (by decide))
      (.name (.pointer rfl rfl ⟨by decide, rfl⟩ (by decide) name) .nil)
  have record : pointingRecord.At pointing.view 21 40 :=
    ⟨26, 4, [0, 5, 192, 12], owner, holds_iff.mpr (by decide), holds_iff.mpr (by decide), rfl,
      rfl, data⟩
  refine Message.decode_eq_ok_iff.mpr ⟨_, _, ?_, rfl⟩
  exact ⟨by decide, rfl, rfl, 21, 40, .cons question .nil, .cons record .nil⟩

theorem decode_rebuild_pointing :
    Message.decode pointing =
        .ok (.ofEntries pointing [.internet com .mx] [pointingRecord]) ∧
      ∃ m', Message.decode (rebuild (.internet com .mx) ⟨0⟩ (fun _ => true) [pointingRecord]) =
          .ok m' ∧
        m'.question = some (.internet com .mx) ∧
        List.Forall₂ Record.Alike [pointingRecord] m'.records ∧ m'.header.questions = 1 ∧
        (∀ s, s ≠ .question → (m'.header.count s).toNat = (m'.inSection s).length) ∧
        rebuild (.internet com .mx) ⟨0⟩ (fun _ => true) m'.records =
          rebuild (.internet com .mx) ⟨0⟩ (fun _ => true) [pointingRecord] := by
  have hrecords : (Message.ofEntries pointing [.internet com .mx] [pointingRecord]).records =
      [pointingRecord] := rfl
  have hrebuild := decode_rebuild ⟨0⟩ (fun _ => true) decode_pointing rfl
  rw [hrecords] at hrebuild
  exact ⟨decode_pointing, hrebuild⟩

end Writer

end Querier
