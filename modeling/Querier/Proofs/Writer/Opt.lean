import Querier.Proofs.Edns.Opt
import Querier.Proofs.Writer.RoundTrip

/-!
# OPT records in messages

To the writer an OPT record is a record like all others: of the root, in the additional
section, with the options as its data. Only the decoder treats it in its own way. So what is
said of records that are written holds of it too, and what is left to say is what the decoder
makes of it.

The record is written with the length of its data left open and completed afterwards, which is an
edit in place, and so is the count of the record in the header.

## Main results

* `Built.addOpt`: a message with an OPT record is one of the grammar, and the decoder finds
  the content in the record.
* `read_addOpt`: the header counts the record and is the same else.
* `Bounded.content_addOpt`: the octets of a message with the record.
* `size_addOpt`: the message is as large with the record as was said before.
-/

namespace Querier

namespace Writer

/-! ## The record -/

/-- An OPT record as a caller would write it. -/
def optDraft (payloadSize : UInt16) (extendedCode version : UInt8) (flags : UInt16)
    (options : List EdnsOption) : Draft where
  owner := .root
  rtype := .opt
  ttl := Opt.ttlField extendedCode version flags
  rclass := ⟨payloadSize⟩
  part := .additional
  compress := false
  body := [.data (EdnsOption.encodeAll options)]

section

variable {payloadSize flags : UInt16} {extendedCode version : UInt8} {options : List EdnsOption}

theorem lays_optDraft (payloadSize flags : UInt16) (extendedCode version : UInt8)
    (h : EdnsOption.wireLengthAll options ≤ 65535) :
    (optDraft payloadSize extendedCode version flags options).Lays := by
  have hlength := EdnsOption.length_encodeAll options
  have hlayout : RecordType.opt.layout? = none := by decide
  have hfollows : Follows [.run ((EdnsOption.encodeAll options).length + 0)]
      [.data (EdnsOption.encodeAll options)] := .raw rfl (.full .nil)
  unfold Draft.Lays optDraft
  rw [hlayout]
  exact ⟨_, hlength.symm ▸ h, hfollows⟩

/-- What the decoder finds in the record. -/
theorem opt?_of_decodes {r : Record} (h : EdnsOption.wireLengthAll options ≤ 65535)
    (hr : (optDraft payloadSize extendedCode version flags options).Decodes r) :
    r.rtype = .opt ∧
      r.opt? = some { payloadSize, extendedCode, version, flags, options } := by
  have hroot : r.owner.isRoot = true := Name.isRoot_congr hr.owner
  have hdata : r.data.toList = EdnsOption.encodeAll options := hr.data.eq_of_data
  refine ⟨hr.rtype, ?_⟩
  rw [Record.opt?, if_pos ⟨hr.rtype, hr.part, hroot⟩, hr.rclass, hr.ttl, hdata]
  show (Opt.ofRecord ⟨payloadSize⟩ (Opt.ttlField extendedCode version flags) _).toOption = _
  rw [Opt.ofRecord_ttlField payloadSize flags extendedCode version h]
  rfl

end

/-! ## The octets of the record -/

/-- The octets of an OPT record. -/
def optOctets (payloadSize : UInt16) (ttl : UInt32) (options : List EdnsOption) : List UInt8 :=
  [0] ++ Octets.ofUInt16 RecordType.opt.code ++ Octets.ofUInt16 payloadSize ++ Octets.ofUInt32 ttl
    ++ Octets.ofUInt16 (UInt16.ofNat (EdnsOption.encodeAll options).length)
    ++ EdnsOption.encodeAll options

/-- Completing a record puts the length of its data in place of the two octets before it. -/
theorem filled_eq {w : Writer} {r : OpenRecord} (front : Octets) (mark body : List UInt8)
    (hcontent : w.content = front ++ mark ++ body) (hmark : mark.length = 2)
    (hstart : r.start = front.size + 2) :
    w.filled r = front ++ Octets.ofUInt16 (UInt16.ofNat body.length) ++ body := by
  have hsize : w.content.size = front.size + 2 + body.length := by
    rw [hcontent, Octets.size_append, Octets.size_append, hmark]
  have hlen : w.content.size - r.start = body.length := by omega
  have hfront : w.content.extract 0 (r.start - 2) = front := by
    apply Array.toList_inj.mp
    rw [hstart, Nat.add_sub_cancel, hcontent]
    simp
  have hbody : (w.content.extract r.start w.content.size).toList = body := by
    have hlength : (front.toList ++ mark).length = front.size + 2 := by
      rw [List.length_append, Array.length_toList, hmark]
    rw [Octets.toList_extract_size, hstart, hcontent, Array.toList_appendList,
      Array.toList_appendList]
    exact List.drop_left' hlength
  apply Array.toList_inj.mp
  rw [filled, hfront, hlen, Array.toList_append, hbody, Array.toList_appendList,
    Array.toList_appendList, Array.toList_appendList]

/-- Whether or not a record was open, the message with it complete is longer by the octets of the
OPT record; in its header the record is counted and the response code set. -/
theorem Bounded.content_addOpt {w : Writer} (h : w.Bounded) (hlong : Header.length ≤ w.content.size)
    (payloadSize extendedCode flags : UInt16) (options : List EdnsOption) (version : UInt8) :
    (w.addOpt payloadSize extendedCode flags options version).content =
      Header.edit (Header.counted .additional) (w.commit.withCode extendedCode).content ++
        optOctets payloadSize
          (Opt.ttlField (UInt8.ofNat (extendedCode.toNat / 16)) version flags) options := by
  let ttl := Opt.ttlField (UInt8.ofNat (extendedCode.toNat / 16)) version flags
  let before := (w.commit.withCode extendedCode).content
  have hbefore : Header.length ≤ before.size := by
    have hcommit := (h.withCode extendedCode).1.size_commit
    rw [h.content_commit_withCode hlong, (h.withCode extendedCode).2] at hcommit
    exact hcommit ▸ hlong
  rcases startRecord_eq (w.withCode extendedCode) .root .opt ttl ⟨payloadSize⟩ .additional false
    with ⟨names, hstart, -⟩
  rw [ownerOctets_root, h.content_commit_withCode hlong] at hstart
  let front : Octets := before ++ ([0] ++ Octets.ofUInt16 RecordType.opt.code ++
    Octets.ofUInt16 payloadSize ++ Octets.ofUInt32 ttl)
  rw [addOpt_eq, hstart, content_commit_of_some rfl,
    filled_eq front (Octets.ofUInt16 0) (EdnsOption.encodeAll options)]
  · rw [← Header.edit_append _ hbefore, append_assoc, append_assoc]
    simp only [optOctets, List.append_assoc, before, ttl]
  · simp only [push, front, append_assoc, fixedOctets, List.append_assoc, before]
  · rfl
  · show before.size + 1 + 10 = _
    simp only [front, Octets.size_append, List.length_append, Octets.ofUInt16, Octets.ofUInt32,
      List.length_cons, List.length_nil]

/-! ## The size of the message -/

section

variable {w : Writer}

/-- The size that was predicted is the size of the message, whether or not a record was
open. -/
theorem size_addOpt (h : w.Bounded) (payloadSize extendedCode flags : UInt16)
    (options : List EdnsOption) (version : UInt8) :
    (w.addOpt payloadSize extendedCode flags options version).content.size =
      w.sizeWithOptions options := by
  obtain ⟨hcode, hsize⟩ := h.withCode extendedCode
  rw [addOpt_eq]
  generalize hw' : (w.withCode extendedCode).startRecord .root .opt _ _ _ _ = w'
  have hstart : w'.content.size = w.content.size + 11 := by
    rw [← hw', size_startRecord_root hcode, hsize]
  have hopen : w'.current = some ⟨w'.content.size, .additional⟩ := (startRecord_fixed hw'.symm).1
  have hpush : (w'.push (EdnsOption.encodeAll options)).content.size =
      w.sizeWithOptions options := by
    rw [push, Octets.size_append, hstart, EdnsOption.length_encodeAll, sizeWithOptions]
  -- the open record begins behind its fixed fields
  have hbounded : (w'.push (EdnsOption.encodeAll options)).Bounded := by
    intro r hr
    cases hopen.symm.trans hr
    rw [hpush, sizeWithOptions]
    show 10 ≤ w'.content.size ∧ w'.content.size ≤ _
    omega
  rw [hbounded.size_commit, hpush]

/-- There is nothing left to complete behind the record. -/
theorem size_finish_addOpt (h : w.Bounded) (payloadSize extendedCode flags : UInt16)
    (options : List EdnsOption) (version : UInt8) :
    (w.addOpt payloadSize extendedCode flags options version).finish.size =
      w.sizeWithOptions options := by
  rw [finish, commit_of_none (by rw [addOpt_eq, current_commit])]
  exact size_addOpt h payloadSize extendedCode flags options version

end

/-! ## Messages with the record -/

section

variable {w : Writer} {q : Question} {drafts : List Draft} {records : List Record}
  {options : List EdnsOption}

theorem addOpt_eq_run (w : Writer) (payloadSize flags : UInt16) (options : List EdnsOption)
    (version : UInt8) : w.addOpt payloadSize 0 flags options version =
      (w.run (optDraft payloadSize 0 version flags options).ops).commit := rfl

/-- With an OPT record a message has one more record, and the decoder finds the content. -/
theorem Built.addOpt (h : Built w q drafts records)
    (hoptions : EdnsOption.wireLengthAll options ≤ 65535) (payloadSize flags : UInt16)
    (version : UInt8) :
    ∃ r, Built (w.addOpt payloadSize 0 flags options version) q
        (drafts ++ [optDraft payloadSize 0 version flags options]) (records ++ [r]) ∧
      r.rtype = .opt ∧
      r.opt? = some { payloadSize, extendedCode := 0, version, flags, options } := by
  rw [addOpt_eq_run]
  have hlands := (lays_optDraft payloadSize flags 0 version hoptions).lands
  rcases h.record hlands with ⟨r, hdecodes, -, hbuilt⟩
  exact ⟨r, hbuilt, opt?_of_decodes hoptions hdecodes⟩

/-- The header counts the record, and else it stays as it is. -/
theorem Built.read_addOpt (h : Built w q drafts records)
    (hoptions : EdnsOption.wireLengthAll options ≤ 65535) (payloadSize flags : UInt16)
    (version : UInt8) :
    Header.read (w.addOpt payloadSize 0 flags options version).content =
      ((Header.read w.content).setCount .additional
        ((Header.read w.content).count .additional + 1)).narrowed := by
  rw [addOpt_eq_run]
  exact h.read_record (lays_optDraft payloadSize flags 0 version hoptions).lands

end

end Writer

end Querier
