import Querier.Proofs.Header
import Querier.Question
import Querier.Proofs.Writer.Names

/-!
# What the operations of a writer do

One statement for each operation that says all of what becomes of the writer,
so that nothing later has to look into the operation again.

## Main results

* `pushOwner_eq`, `startRecord_eq`: starting a record appends its owner and its
  fixed fields to the message with everything before committed.
* `commit_eq`, `size_commit`, `getElem?_commit`, `holds_commit`, `read_commit`:
  completing a record fills in its length field and counts it, and changes
  nothing else of the message.
* `commit_editHeader`, `commit_withCode`: a change of the header may as well be
  made after the open record is complete, if it leaves the counts alone.
* `addOpt_eq`: an OPT record is a record of the root in one piece.
* `size_cutBack`, `getElem?_cutBack`: cutting back keeps what is before the cut.
* `new_eq`: a new message is a header and a question.
-/

namespace Querier.Writer

open View

/-! ## Data -/

theorem append_assoc (b : Octets) (xs ys : List UInt8) : b ++ xs ++ ys = b ++ (xs ++ ys) :=
  Array.toList_inj.mp (by simp)

theorem push_push (w : Writer) (xs ys : List UInt8) : (w.push xs).push ys = w.push (xs ++ ys) := by
  simp only [push, append_assoc]

theorem size_editHeader (w : Writer) (f : Header → Header) :
    (w.editHeader f).content.size = w.content.size := by
  simp only [editHeader, Header.size_edit]

@[simp] theorem current_pushName (w : Writer) (n : Name) (compress : Bool) :
    (w.pushName n compress).current = w.current := by
  obtain ⟨new, hpush, -⟩ := pushName_eq w n compress
  rw [hpush]

/-! ## The message in the making -/

/-- Two writers are at the same message, in whatever mode. -/
structure SameMessage (w w' : Writer) : Prop where
  content : w'.content = w.content
  names : w'.names = w.names
  qname : w'.qname = w.qname
  questionEnd : w'.questionEnd = w.questionEnd
  current : w'.current = w.current

/-! ## Completing records -/

/-- Without an open record there is nothing to show of it. -/
theorem forall_mem_of_none {w : Writer} {P : OpenRecord → Prop} (h : w.current = none) :
    ∀ r ∈ w.current, P r := by
  intro r hr
  rw [h] at hr
  cases hr

/-- The message with the length of the data of a record filled in. -/
def filled (w : Writer) (r : OpenRecord) : Octets :=
  w.content.extract 0 (r.start - 2) ++ Octets.ofUInt16 (UInt16.ofNat (w.content.size - r.start))
    ++ w.content.extract r.start w.content.size

theorem commit_of_none {w : Writer} (h : w.current = none) : w.commit = w := by
  unfold commit
  rw [h]

theorem content_commit_of_some {w : Writer} {r : OpenRecord} (h : w.current = some r) :
    w.commit.content = Header.edit (Header.counted r.part) (w.filled r) := by
  unfold commit
  rw [h]
  rfl

/-- Completing a record changes the message and closes the record. -/
theorem commit_eq (w : Writer) :
    w.commit = { w with content := w.commit.content, current := none } := by
  cases h : w.current with
  | none =>
      rw [commit_of_none h, ← h]
  | some r =>
      unfold commit
      rw [h]
      rfl

@[simp] theorem current_commit (w : Writer) : w.commit.current = none := by
  rw [commit_eq]

@[simp] theorem names_commit (w : Writer) : w.commit.names = w.names := by
  rw [commit_eq]

@[simp] theorem qname_commit (w : Writer) : w.commit.qname = w.qname := by
  rw [commit_eq]

@[simp] theorem questionEnd_commit (w : Writer) : w.commit.questionEnd = w.questionEnd := by
  rw [commit_eq]

@[simp] theorem commit_commit (w : Writer) : w.commit.commit = w.commit :=
  commit_of_none (current_commit w)

section Filled

variable {w : Writer} {r : OpenRecord}

theorem size_filled (hstart : 2 ≤ r.start) (hsize : r.start ≤ w.content.size) :
    (w.filled r).size = w.content.size := by
  unfold filled
  rw [Array.size_append, Octets.size_append]
  simp only [Array.size_extract, Octets.ofUInt16, List.length_cons, List.length_nil]
  omega

theorem getElem?_filled (hstart : 2 ≤ r.start) (hsize : r.start ≤ w.content.size) {i : Nat}
    (hi : i + 2 < r.start ∨ r.start ≤ i) : (w.filled r)[i]? = w.content[i]? := by
  have hfront : (w.content.extract 0 (r.start - 2)).size = r.start - 2 := by
    rw [Array.size_extract]
    omega
  have hlen : (w.content.extract 0 (r.start - 2) ++
      Octets.ofUInt16 (UInt16.ofNat (w.content.size - r.start))).size = r.start := by
    rw [Octets.size_append, hfront]
    simp only [Octets.ofUInt16, List.length_cons, List.length_nil]
    omega
  unfold filled
  rcases hi with hlt | hge
  · rw [Array.getElem?_append_left (by omega), Octets.getElem?_append, if_pos (by omega),
      Array.getElem?_extract, if_pos (by omega), Nat.zero_add]
  · rw [Array.getElem?_append_right (by omega), hlen, Array.getElem?_extract]
    split
    · congr 1
      omega
    · rw [Array.getElem?_eq_none (by omega)]

theorem holds_filled (hstart : 2 ≤ r.start) (hsize : r.start ≤ w.content.size) :
    Holds (w.filled r).view (r.start - 2)
      (Octets.ofUInt16 (UInt16.ofNat (w.content.size - r.start))) := by
  have hfront : (w.content.extract 0 (r.start - 2)).size = r.start - 2 := by
    rw [Array.size_extract]
    omega
  have h := Octets.holds_view_append (w.content.extract 0 (r.start - 2))
    (Octets.ofUInt16 (UInt16.ofNat (w.content.size - r.start)))
  rw [hfront] at h
  refine h.mono fun i o hi => ?_
  unfold filled
  rw [Octets.view, Array.getElem?_append_left (Octets.lt_size_of_view hi)]
  exact hi

theorem length_le_size_filled (hstart : Header.length + 2 ≤ r.start)
    (hsize : r.start ≤ w.content.size) : Header.length ≤ (w.filled r).size := by
  rw [size_filled (by omega) hsize]
  omega

theorem read_filled (hstart : Header.length + 2 ≤ r.start) (hsize : r.start ≤ w.content.size) :
    Header.read (w.filled r) = Header.read w.content :=
  Header.read_congr fun i hi => getElem?_filled (by omega) hsize (.inl (by omega))

/-- What is filled in depends on the size of the message, and all else is left as it is. -/
theorem getElem?_filled_congr {w' : Writer} (hstart : 2 ≤ r.start) (hsize : r.start ≤ w.content.size)
    (hsize' : w'.content.size = w.content.size) {i : Nat} (hi : w'.content[i]? = w.content[i]?) :
    (w'.filled r)[i]? = (w.filled r)[i]? := by
  by_cases hfree : i + 2 < r.start ∨ r.start ≤ i
  · rw [getElem?_filled hstart (hsize' ▸ hsize) hfree, getElem?_filled hstart hsize hfree, hi]
  · have hlen := holds_filled hstart hsize
    have hlen' := holds_filled (w := w') hstart (hsize' ▸ hsize)
    rw [hsize'] at hlen'
    have hfield : i - (r.start - 2) <
        (Octets.ofUInt16 (UInt16.ofNat (w.content.size - r.start))).length := by
      simp only [Octets.ofUInt16, List.length_cons, List.length_nil]
      omega
    have hat : r.start - 2 + (i - (r.start - 2)) = i := by omega
    have hget := holds_iff.mp hlen _ hfield
    have hget' := holds_iff.mp hlen' _ hfield
    rw [hat] at hget hget'
    exact hget'.trans hget.symm

/-- Filling in the length of the data of a record and changing the header may change places. -/
theorem filled_editHeader (f : Header → Header) (hstart : Header.length + 2 ≤ r.start)
    (hsize : r.start ≤ w.content.size) :
    (w.editHeader f).filled r = Header.edit f (w.filled r) := by
  have hsize' : r.start ≤ (w.editHeader f).content.size := by rwa [size_editHeader]
  have hlong := length_le_size_filled hstart hsize
  have hread := read_filled hstart hsize
  refine Array.ext_getElem? fun i => ?_
  rcases Nat.lt_or_ge i Header.length with hi | hi
  · rw [getElem?_filled (by omega) hsize' (.inl (by omega)),
      Header.getElem?_edit_of_lt f hlong hi, hread]
    exact Header.getElem?_edit_of_lt f (by omega) hi
  · rw [Header.getElem?_edit f _ hi]
    exact getElem?_filled_congr (by omega) hsize (size_editHeader w f)
      (Header.getElem?_edit f w.content hi)

/-- So may filling in the length and setting the response code, even where the length stands in
octets of the header. -/
theorem filled_coded (code : ResponseCode) (hstart : 10 ≤ r.start) (hsize : r.start ≤ w.content.size)
    (hlong : Header.length ≤ w.content.size) :
    (w.editHeader (Header.coded code)).filled r =
      Header.edit (Header.coded code) (w.filled r) := by
  have hfilled : (w.filled r).size = w.content.size := size_filled (by omega) hsize
  have hedited := size_editHeader w (Header.coded code)
  have hfour : 3 + 2 < r.start := by omega
  refine Array.ext_getElem? fun i => ?_
  by_cases hi : i = 3
  · subst hi
    rw [getElem?_filled (by omega) (hedited ▸ hsize) (.inl hfour)]
    apply Header.getElem?_edit_coded_congr code (hfilled ▸ hlong) hlong
    exact (getElem?_filled (by omega) hsize (.inl hfour)).symm
  · rw [Header.getElem?_edit_coded code (hfilled ▸ hlong) hi]
    exact getElem?_filled_congr (by omega) hsize hedited
      (Header.getElem?_edit_coded code hlong hi)

end Filled

/-- The open record lies behind the header and inside the message. -/
def InRange (w : Writer) : Prop :=
  ∀ r ∈ w.current, Header.length + 2 ≤ r.start ∧ r.start ≤ w.content.size

/-- The open record lies inside the message and behind its own fixed fields. That is so in every
message, while the header may have been taken back. -/
def Bounded (w : Writer) : Prop :=
  ∀ r ∈ w.current, 10 ≤ r.start ∧ r.start ≤ w.content.size

theorem InRange.bounded {w : Writer} (h : w.InRange) : w.Bounded := by
  intro r hr
  have hstart : 12 + 2 ≤ r.start := (h r hr).1
  exact ⟨by omega, (h r hr).2⟩

theorem Bounded.size_commit {w : Writer} (h : w.Bounded) :
    w.commit.content.size = w.content.size := by
  cases hcur : w.current with
  | none => rw [commit_of_none hcur]
  | some r =>
      obtain ⟨hstart, hsize⟩ := h r hcur
      rw [content_commit_of_some hcur, Header.size_edit, size_filled (by omega) hsize]

theorem size_commit {w : Writer} (h : w.InRange) : w.commit.content.size = w.content.size :=
  h.bounded.size_commit

/-- Behind the header, completing a record changes the length field of the record alone. -/
theorem getElem?_commit {w : Writer} (h : w.InRange) {i : Nat} (hi : Header.length ≤ i)
    (hfree : ∀ r ∈ w.current, i + 2 < r.start ∨ r.start ≤ i) :
    w.commit.content[i]? = w.content[i]? := by
  cases hcur : w.current with
  | none => rw [commit_of_none hcur]
  | some r =>
      obtain ⟨hstart, hsize⟩ := h r hcur
      rw [content_commit_of_some hcur, Header.getElem?_edit _ _ hi,
        getElem?_filled (by omega) hsize (hfree r hcur)]

/-- The length of the data of a completed record stands before the data. -/
theorem holds_commit {w : Writer} {r : OpenRecord} (h : w.InRange) (hcur : w.current = some r) :
    Holds w.commit.content.view (r.start - 2)
      (Octets.ofUInt16 (UInt16.ofNat (w.content.size - r.start))) := by
  obtain ⟨hstart, hsize⟩ := h r hcur
  have hlen := holds_filled (w := w) (by omega) hsize
  rw [holds_iff] at hlen ⊢
  intro i hi
  rw [content_commit_of_some hcur, Octets.view, Header.getElem?_edit _ _ (by omega)]
  exact hlen i hi

/-- Completing a record changes nothing of the header but the count of its section. -/
theorem read_commit {w : Writer} {r : OpenRecord} (h : w.InRange) (hcur : w.current = some r) :
    Header.read w.commit.content = ((Header.read w.content).setCount r.part
      ((Header.read w.content).count r.part + 1)).narrowed := by
  obtain ⟨hstart, hsize⟩ := h r hcur
  have hlong := length_le_size_filled hstart hsize
  rw [content_commit_of_some hcur, Header.read_edit _ hlong, read_filled hstart hsize]
  rfl

/-- Completing a record and a change of the header may change places if counting the record and
that change may. -/
theorem commit_editHeader {w : Writer} {f : Header → Header} (h : w.InRange)
    (hcomm : ∀ (header : Header) (s : Section), (Header.counted s (f header).narrowed).octets =
      (f (Header.counted s header).narrowed).octets) :
    (w.editHeader f).commit = w.commit.editHeader f := by
  cases hcur : w.current with
  | none =>
      rw [commit_of_none hcur]
      exact commit_of_none hcur
  | some r =>
      obtain ⟨hstart, hsize⟩ := h r hcur
      have hlong := length_le_size_filled hstart hsize
      have hcur' : (w.editHeader f).current = some r := hcur
      have hcontent : (w.editHeader f).commit.content = Header.edit f w.commit.content := by
        rw [content_commit_of_some hcur', content_commit_of_some hcur,
          filled_editHeader f hstart hsize, Header.edit_comm hlong (hcomm _ _)]
      rw [commit_eq (w.editHeader f), hcontent, commit_eq w]
      rfl

/-! ## Starting records -/

/-- The octets that the owner of a record is written as. -/
def ownerOctets (w : Writer) (n : Name) (compress : Bool) : List UInt8 :=
  if w.mayCompress compress && !n.isRoot && n.same w.qname then pointer Header.length
  else w.nameOctets n compress

theorem pushOwner_eq (w : Writer) (n : Name) (compress : Bool) :
    ∃ new, w.pushOwner n compress =
        { w with content := w.content ++ w.ownerOctets n compress, names := w.names ++ new } ∧
      (new = [] ∨ new = [w.content.size] ∧ w.content.size < Compression.offsetLimit) := by
  unfold pushOwner ownerOctets
  split
  · exact ⟨[], by rw [List.append_nil]; rfl, .inl rfl⟩
  · exact pushName_eq w n compress

theorem pushOwner_congr {w : Writer} {n m : Name} {compress : Bool} (hsame : m.same n = true)
    (h : w.pushName m compress = w.pushName n compress) :
    w.pushOwner m compress = w.pushOwner n compress := by
  unfold pushOwner
  rw [Name.isRoot_congr hsame, Name.same_congr hsame, h]

/-- The octets of a record behind its owner, with the length of its data still zero. -/
def fixedOctets (rtype : RecordType) (ttl : UInt32) (rclass : Class) : List UInt8 :=
  Octets.ofUInt16 rtype.code ++ Octets.ofUInt16 rclass.code ++ Octets.ofUInt32 ttl
    ++ Octets.ofUInt16 0

@[simp] theorem length_fixedOctets (rtype : RecordType) (ttl : UInt32) (rclass : Class) :
    (fixedOctets rtype ttl rclass).length = 10 := rfl

/-- The writer before it writes a record: all records complete, and the settings of the
record made. -/
def ready (w : Writer) (compress : Bool) : Writer :=
  { w.commit with recordCompress := compress, recordStart := w.commit.content.size }

/-- A record is started by writing its owner and its fixed fields. -/
theorem startRecord_eq_push (w : Writer) (owner : Name) (rtype : RecordType) (ttl : UInt32)
    (rclass : Class) (part : Section) (compress : Bool) :
    w.startRecord owner rtype ttl rclass part compress =
      let w := ((w.ready compress).pushOwner owner compress).push (fixedOctets rtype ttl rclass)
      { w with current := some ⟨w.content.size, part⟩ } := by
  have hstart : w.startRecord owner rtype ttl rclass part compress =
      let w := (((((w.ready compress).pushOwner owner compress).push
        (Octets.ofUInt16 rtype.code)).push (Octets.ofUInt16 rclass.code)).push
        (Octets.ofUInt32 ttl)).push (Octets.ofUInt16 0)
      { w with current := some ⟨w.content.size, part⟩ } := rfl
  rw [hstart, push_push, push_push, push_push]
  simp only [fixedOctets, List.append_assoc]

/-- All that starting a record does. -/
theorem startRecord_eq (w : Writer) (owner : Name) (rtype : RecordType) (ttl : UInt32)
    (rclass : Class) (part : Section) (compress : Bool) :
    ∃ new, w.startRecord owner rtype ttl rclass part compress =
        { w.ready compress with
          content := w.commit.content ++ ((w.ready compress).ownerOctets owner compress
            ++ fixedOctets rtype ttl rclass)
          names := w.names ++ new
          current := some ⟨w.commit.content.size
            + ((w.ready compress).ownerOctets owner compress).length + 10, part⟩ } ∧
      (new = [] ∨
        new = [w.commit.content.size] ∧ w.commit.content.size < Compression.offsetLimit) := by
  obtain ⟨new, hpush, hnew⟩ := pushOwner_eq (w.ready compress) owner compress
  refine ⟨new, ?_, hnew⟩
  rw [startRecord_eq_push, hpush]
  simp only [push, ready, append_assoc, names_commit, Octets.size_append, List.length_append,
    length_fixedOctets, Nat.add_assoc]

theorem startRecord_commit (w : Writer) (owner : Name) (rtype : RecordType) (ttl : UInt32)
    (rclass : Class) (part : Section) (compress : Bool) :
    w.commit.startRecord owner rtype ttl rclass part compress =
      w.startRecord owner rtype ttl rclass part compress := by
  unfold startRecord
  rw [commit_commit]

/-- A record that has been started is open at the end of the message, behind its fixed
fields. -/
theorem startRecord_fixed {w w' : Writer} {owner : Name} {rtype : RecordType} {ttl : UInt32}
    {rclass : Class} {part : Section} {compress : Bool}
    (h : w' = w.startRecord owner rtype ttl rclass part compress) :
    w'.current = some ⟨w'.content.size, part⟩ ∧
      Holds w'.content.view (w'.content.size - 10) (fixedOctets rtype ttl rclass) ∧
      w.commit.content.size + 10 ≤ w'.content.size := by
  obtain ⟨new, hstart, -⟩ := startRecord_eq w owner rtype ttl rclass part compress
  let os := (w.ready compress).ownerOctets owner compress
  have hholds := Octets.holds_view_append w.commit.content (os ++ fixedOctets rtype ttl rclass)
  rw [h, hstart]
  simp only [Octets.size_append, List.length_append, length_fixedOctets, ← Nat.add_assoc,
    Nat.add_sub_cancel, Nat.add_le_add_iff_right, Nat.le_add_right, and_true, true_and]
  exact (holds_append.mp hholds).2

theorem ownerOctets_root (w : Writer) (compress : Bool) : w.ownerOctets .root compress = [0] := by
  have hroot : Name.root.isRoot = true := rfl
  unfold ownerOctets
  rw [hroot, Bool.not_true, Bool.and_false, Bool.false_and]
  unfold nameOctets
  rw [found_root hroot]
  exact plainOctets_root hroot

/-- A record of the root is eleven octets without its data. -/
theorem size_startRecord_root {w : Writer} (h : w.Bounded) (rtype : RecordType) (ttl : UInt32)
    (rclass : Class) (part : Section) (compress : Bool) :
    (w.startRecord .root rtype ttl rclass part compress).content.size = w.content.size + 11 := by
  obtain ⟨new, hstart, -⟩ := startRecord_eq w .root rtype ttl rclass part compress
  rw [hstart, ownerOctets_root]
  simp only [Octets.size_append, List.length_append, length_fixedOctets, h.size_commit,
    List.length_singleton]

/-- The writer with the lower bits of an extended response code in the header, unless that
code is zero. -/
def withCode (w : Writer) (extendedCode : UInt16) : Writer :=
  if extendedCode = 0 then w
  else w.editHeader fun h => { h with rcode := ⟨UInt8.ofNat (extendedCode.toNat % 16)⟩ }

/-- Completing a record and setting the response code may change places. -/
theorem commit_withCode {w : Writer} (h : w.InRange) (extendedCode : UInt16) :
    (w.withCode extendedCode).commit = w.commit.withCode extendedCode := by
  unfold withCode
  split
  · rfl
  · exact commit_editHeader h fun header s => Header.octets_coded_counted header s _

theorem Bounded.withCode {w : Writer} (h : w.Bounded) (extendedCode : UInt16) :
    (w.withCode extendedCode).Bounded ∧
      (w.withCode extendedCode).content.size = w.content.size := by
  unfold Writer.withCode
  split
  · exact ⟨h, rfl⟩
  · refine ⟨?_, size_editHeader w _⟩
    intro r hr
    rw [size_editHeader]
    exact h r hr

/-- The message comes to the same even if the open record lies in the header. -/
theorem Bounded.content_commit_withCode {w : Writer} (h : w.Bounded)
    (hlong : Header.length ≤ w.content.size) (extendedCode : UInt16) :
    (w.withCode extendedCode).commit.content = (w.commit.withCode extendedCode).content := by
  unfold Writer.withCode
  split
  · rfl
  · cases hcur : w.current with
    | none =>
        rw [commit_of_none hcur]
        exact congrArg Writer.content (commit_of_none hcur)
    | some r =>
        obtain ⟨hstart, hsize⟩ := h r hcur
        have hfilled : Header.length ≤ (w.filled r).size := by
          rwa [size_filled (by omega) hsize]
        let code : ResponseCode := ⟨UInt8.ofNat (extendedCode.toNat % 16)⟩
        have hcurrent : (w.editHeader (Header.coded code)).current = some r := hcur
        show (w.editHeader (Header.coded code)).commit.content =
          Header.edit (Header.coded code) w.commit.content
        rw [content_commit_of_some hcurrent, content_commit_of_some hcur,
          filled_coded code hstart hsize hlong]
        exact Header.edit_comm hfilled (Header.octets_coded_counted _ _ code)

/-- An OPT record is a record of the root in one piece. -/
theorem addOpt_eq (w : Writer) (payloadSize extendedCode flags : UInt16)
    (options : List EdnsOption) (version : UInt8) :
    w.addOpt payloadSize extendedCode flags options version =
      (((w.withCode extendedCode).startRecord .root .opt
        (Opt.ttlField (UInt8.ofNat (extendedCode.toNat / 16)) version flags) ⟨payloadSize⟩
        .additional false).push (EdnsOption.encodeAll options)).commit := rfl

/-! ## Cutting back -/

theorem size_cutBack {w : Writer} {len : Nat} (h : len ≤ w.content.size) :
    (w.cutBack len).content.size = len := by
  simp only [cutBack, Array.size_extract]
  omega

theorem getElem?_cutBack (w : Writer) {len i : Nat} (h : i < len) :
    (w.cutBack len).content[i]? = w.content[i]? := by
  simp only [cutBack, Array.getElem?_extract]
  split
  · rw [Nat.zero_add]
  · rw [Array.getElem?_eq_none (by omega)]

/-! ## New messages -/

/-- The header of a new message. -/
def newHeader (opcode : Opcode) : Header := { Header.zero with opcode, questions := 1 }

/-- The octets of a question that is not compressed. -/
def questionOctets (q : Question) : List UInt8 :=
  q.qname.wire ++ Octets.ofUInt16 q.qtype.code ++ Octets.ofUInt16 q.qclass.code

theorem length_questionOctets (q : Question) :
    (questionOctets q).length = q.qname.wireLength + 4 := by
  simp only [questionOctets, List.length_append, Name.length_wire, Octets.ofUInt16,
    List.length_cons, List.length_nil]

/-- A new message is a header and a question, the name of which may be remembered. -/
theorem new_eq (qname : Name) (qtype : RecordType) (qclass : Class) (opcode : Opcode) :
    ∃ names, new qname qtype qclass opcode =
        { content := (newHeader opcode).octets.toArray ++ questionOctets ⟨qname, qtype, qclass⟩
          qname
          names
          questionEnd := Header.length + (qname.wireLength + 4)
          recordStart := 0
          current := none
          recordCompress := true
          canonic := false
          lowercase := false } ∧
      (names = [] ∨ names = [Header.length]) := by
  let w : Writer := {
    content := (newHeader opcode).octets.toArray
    qname
    names := []
    questionEnd := 0
    recordStart := 0
    current := none
    recordCompress := true
    canonic := false
    lowercase := false }
  obtain ⟨names, hpush, hnames⟩ := pushName_eq w qname false
  have hnew : new qname qtype qclass opcode =
      let w := ((w.pushName qname false).push (Octets.ofUInt16 qtype.code)).push
        (Octets.ofUInt16 qclass.code)
      { w with questionEnd := w.content.size } := rfl
  have hos : w.nameOctets qname false = qname.wire := rfl
  refine ⟨names, ?_, ?_⟩
  · have hsize : w.content.size = Header.length := rfl
    have hlen := length_questionOctets ⟨qname, qtype, qclass⟩
    rw [hnew, push_push, hpush, hos]
    simp only [push, append_assoc, Octets.size_append, hsize]
    rw [questionOctets, List.append_assoc] at hlen ⊢
    rw [hlen]
    rfl
  · rcases hnames with h | ⟨h, -⟩
    · exact .inl h
    · exact .inr h

section New

variable (qname : Name) (qtype : RecordType) (qclass : Class) (opcode : Opcode)

@[simp] theorem current_new : (new qname qtype qclass opcode).current = none := by
  obtain ⟨names, hnew, -⟩ := new_eq qname qtype qclass opcode
  rw [hnew]

@[simp] theorem qname_new : (new qname qtype qclass opcode).qname = qname := by
  obtain ⟨names, hnew, -⟩ := new_eq qname qtype qclass opcode
  rw [hnew]

@[simp] theorem recordStart_new : (new qname qtype qclass opcode).recordStart = 0 := by
  obtain ⟨names, hnew, -⟩ := new_eq qname qtype qclass opcode
  rw [hnew]

@[simp] theorem questionEnd_new : (new qname qtype qclass opcode).questionEnd =
    Header.length + (qname.wireLength + 4) := by
  obtain ⟨names, hnew, -⟩ := new_eq qname qtype qclass opcode
  rw [hnew]

@[simp] theorem size_new : (new qname qtype qclass opcode).content.size =
    Header.length + (qname.wireLength + 4) := by
  obtain ⟨names, hnew, -⟩ := new_eq qname qtype qclass opcode
  rw [hnew, Octets.size_append, length_questionOctets]
  rfl

theorem names_new : (new qname qtype qclass opcode).names = [] ∨
    (new qname qtype qclass opcode).names = [Header.length] := by
  obtain ⟨names, hnew, hnames⟩ := new_eq qname qtype qclass opcode
  rw [hnew]
  exact hnames

/-- The question of a new message stands behind the header. -/
theorem holds_new : Holds (new qname qtype qclass opcode).content.view Header.length
    (questionOctets ⟨qname, qtype, qclass⟩) := by
  obtain ⟨names, hnew, -⟩ := new_eq qname qtype qclass opcode
  rw [hnew]
  exact Octets.holds_view_append (newHeader opcode).octets.toArray _

/-- The header of a new message is as it was given. -/
theorem read_new : Header.read (new qname qtype qclass opcode).content =
    (newHeader opcode).narrowed := by
  obtain ⟨names, hnew, -⟩ := new_eq qname qtype qclass opcode
  have hlong : Header.length ≤ ((newHeader opcode).octets.toArray).size := Nat.le_refl 12
  rw [hnew, Header.read_append_list _ _ hlong, Header.read_octets]

/-- A new message counts its question and nothing else. -/
theorem count_new (s : Section) : (Header.read (new qname qtype qclass opcode).content).count s =
    if s = .question then 1 else 0 := by
  rw [read_new, Header.count_narrowed]
  cases s <;> rfl

end New

end Querier.Writer
