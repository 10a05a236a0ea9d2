import Querier.Message.Decode
import Querier.Proofs.Name.Spelling

/-!
# The grammar of messages

What a message is, said without a reader: a header, the questions and records
that it announces, one directly behind the other, and names spelled as
`Spelled` has it. Each definition says what stands in a view of the buffer from
one offset to another; what stands behind the last record does not matter.

A record of the grammar has its data as a decoded message has it: with the
names of its layout written out, or as the octets between the bounds of the
data where the type has no layout. OPT records are entries of the grammar like
all others; `Message.ofEntries` says what becomes of them.

## Main results

* `Question.read_eq_ok_iff`, `DataField.readAll_eq_ok_iff`,
  `Record.read_eq_ok_iff`: each reader is its part of the grammar.
* `decode_iff_grammar`: a message decodes exactly if it is one of the grammar,
  and gives what the grammar says.
* `Record.At.mono`, `Sequence.mono`: entries stay where they are as long as the
  octets stay that make them up.
-/

namespace Querier

open View

/-! ## Entries -/

/-- Entries stand one directly behind the other. -/
inductive Sequence {α : Type} (At : Nat → α → Nat → Prop) : Nat → List α → Nat → Prop where
  | nil {pos : Nat} : Sequence At pos [] pos
  | cons {pos mid stop : Nat} {a : α} {as : List α} (head : At pos a mid)
      (tail : Sequence At mid as stop) : Sequence At pos (a :: as) stop

/-- A question stands at `pos` and ends before `stop`. -/
def Question.At (v : View) (pos : Nat) (q : Question) (stop : Nat) : Prop :=
  ∃ mid, Spelled v pos q.qname.labels mid ∧
    Holds v mid (Octets.ofUInt16 q.qtype.code ++ Octets.ofUInt16 q.qclass.code) ∧
    stop = mid + 4

/-- Data of a layout stands at `pos`: it is `os` with its names written out. -/
inductive DataField.At (v : View) : List DataField → Nat → List UInt8 → Nat → Prop where
  | nil {pos : Nat} : At v [] pos [] pos
  | name {pos mid stop : Nat} {fields : List DataField} {n : Name} {os : List UInt8}
      (spelled : Spelled v pos n.labels mid) (rest : At v fields mid os stop) :
      At v (.name :: fields) pos (n.wire ++ os) stop
  | run {pos stop len : Nat} {fields : List DataField} {taken os : List UInt8}
      (length : taken.length = len) (holds : Holds v pos taken)
      (rest : At v fields (pos + len) os stop) :
      At v (.run len :: fields) pos (taken ++ os) stop

namespace Record

/-- The fixed octets of a record behind its owner, with the length of its data. -/
def fixed (r : Record) (len : UInt16) : List UInt8 :=
  Octets.ofUInt16 r.rtype.code ++ Octets.ofUInt16 r.rclass.code ++ Octets.ofUInt32 r.ttl
    ++ Octets.ofUInt16 len

/-- What the octets `raw` that stand at `pos` are as data of a record: themselves, or
what the layout of the record's type makes of them, which it has to fill exactly. -/
def DataAt (v : View) (r : Record) (pos : Nat) (raw : List UInt8) : Prop :=
  match r.rtype.layout? with
  | none => r.data = raw.toArray
  | some layout => DataField.At v layout pos r.data.toList (pos + raw.length)

/-- A record stands at `pos` and ends before `stop`: its owner, its fixed fields, and as
many octets of data as they say. -/
def At (v : View) (pos : Nat) (r : Record) (stop : Nat) : Prop :=
  ∃ start len raw, Spelled v pos r.owner.labels start ∧ Holds v start (r.fixed len) ∧
    Holds v (start + 10) raw ∧ raw.length = len.toNat ∧ stop = start + 10 + raw.length ∧
    r.DataAt v (start + 10) raw

/-- The content of an OPT record where one counts. -/
def opt? (r : Record) : Option Opt :=
  if r.rtype = .opt ∧ r.part = .additional ∧ r.owner.isRoot then
    (Opt.ofRecord r.rclass r.ttl r.data.toList).toOption
  else none

end Record

namespace Message

/-- The buffer is a message of these questions and records: the header announces them,
and they stand one directly behind the other. -/
structure Grammar (b : Octets) (questions : List Question) (records : List Record) :
    Prop where
  header : Header.length ≤ b.size
  questions_length : questions.length = (Header.read b).questions.toNat
  parts : records.map Record.part =
    List.replicate (Header.read b).answers.toNat .answer
      ++ List.replicate (Header.read b).authorities.toNat .authority
      ++ List.replicate (Header.read b).additionals.toNat .additional
  sequence : ∃ mid stop, Sequence (Question.At b.view) Header.length questions mid ∧
    Sequence (Record.At b.view) mid records stop

/-- The message of a buffer with these entries: the first question counts, and the OPT
records are not among the records. -/
def ofEntries (b : Octets) (questions : List Question) (records : List Record) : Message where
  octets := b
  header := Header.read b
  question := questions.head?
  records := records.filter (·.rtype ≠ .opt)
  opt := records.findSome? Record.opt?

end Message

/-! ## Larger views -/

section Mono

variable {v v' : View} {pos stop : Nat}

theorem Sequence.mono {α : Type} {At At' : Nat → α → Nat → Prop} {as : List α}
    (h : Sequence At pos as stop) (hle : ∀ p a s, At p a s → At' p a s) :
    Sequence At' pos as stop := by
  induction h with
  | nil => exact .nil
  | cons head _ ih => exact .cons (hle _ _ _ head) ih

theorem Question.At.mono {q : Question} (h : q.At v pos stop) (hle : Le v v') :
    q.At v' pos stop := by
  obtain ⟨mid, hname, hfixed, rfl⟩ := h
  exact ⟨mid, hname.mono hle, hfixed.mono hle, rfl⟩

theorem DataField.At.mono {fields : List DataField} {os : List UInt8}
    (h : DataField.At v fields pos os stop) (hle : Le v v') :
    DataField.At v' fields pos os stop := by
  induction h with
  | nil => exact .nil
  | name spelled _ ih => exact .name (spelled.mono hle) ih
  | run length holds _ ih => exact .run length (holds.mono hle) ih

theorem Record.At.mono {r : Record} (h : r.At v pos stop) (hle : Le v v') :
    r.At v' pos stop := by
  obtain ⟨start, len, raw, howner, hfixed, hraw, hlen, hstop, hdata⟩ := h
  refine ⟨start, len, raw, howner.mono hle, hfixed.mono hle, hraw.mono hle, hlen, hstop, ?_⟩
  unfold DataAt at hdata ⊢
  split at hdata
  · exact hdata
  · exact hdata.mono hle

end Mono

/-! ## The readers -/

section Readers

variable {b : Octets} {pos stop : Nat}

theorem Header.read?_eq_ok_iff {h : Header} :
    Header.read? b = .ok h ↔ Header.length ≤ b.size ∧ h = Header.read b := by
  unfold Header.read?
  split
  · rename_i hshort
    simp only [reduceCtorEq, false_iff, not_and]
    omega
  · rename_i hsize
    simp only [Except.ok.injEq]
    constructor
    · rintro rfl
      exact ⟨by omega, rfl⟩
    · rintro ⟨-, rfl⟩
      rfl

theorem Question.read_eq_ok_iff {q : Question} :
    Question.read b pos = .ok (q, stop) ↔ q.At b.view pos stop := by
  simp only [Question.read, Octets.bind_eq_ok_iff, Prod.exists, Name.read_eq_ok_iff,
    Octets.readUInt16_eq_ok_iff]
  constructor
  · rintro ⟨qname, mid, hname, qtype, _, ⟨htype, rfl⟩, qclass, _, ⟨hclass, rfl⟩, hq⟩
    cases hq
    exact ⟨mid, hname, holds_append.mpr ⟨htype, hclass⟩, rfl⟩
  · rintro ⟨mid, hname, hfixed, rfl⟩
    obtain ⟨htype, hclass⟩ := holds_append.mp hfixed
    exact ⟨_, mid, hname, _, _, ⟨htype, rfl⟩, _, _, ⟨hclass, rfl⟩, rfl⟩

theorem DataField.readAll_eq_ok_iff {fields : List DataField} {os : List UInt8}
    (hpos : pos ≤ b.size) :
    DataField.readAll b fields pos = .ok (os, stop) ↔
      DataField.At b.view fields pos os stop := by
  induction fields generalizing pos os with
  | nil =>
      simp only [DataField.readAll, Except.ok.injEq, Prod.mk.injEq]
      constructor
      · rintro ⟨rfl, rfl⟩
        exact .nil
      · intro h
        cases h
        exact ⟨rfl, rfl⟩
  | cons field fields ih =>
      cases field with
      | name =>
          simp only [DataField.readAll, Octets.bind_eq_ok_iff, Prod.exists,
            Name.read_eq_ok_iff]
          constructor
          · rintro ⟨n, mid, hname, rest, _, hrest, hos⟩
            cases hos
            exact .name hname ((ih hname.stop_le_size).mp hrest)
          · intro h
            cases h with
            | name spelled rest =>
                exact ⟨_, _, spelled, _, _, (ih spelled.stop_le_size).mpr rest, rfl⟩
      | run len =>
          simp only [DataField.readAll, Octets.bind_eq_ok_iff, Prod.exists,
            Octets.readRun_eq_ok_iff]
          constructor
          · rintro ⟨taken, _, ⟨hsize, rfl, rfl⟩, rest, _, hrest, hos⟩
            cases hos
            refine .run ?_ (Octets.holds_view_extract b pos (pos + len)) ((ih hsize).mp hrest)
            simp
            omega
          · intro h
            cases h with
            | run length holds rest =>
                have hsize := Octets.le_size_of_holds holds hpos
                subst length
                refine ⟨_, _, ⟨hsize, rfl, rfl⟩, _, _, (ih hsize).mpr rest, ?_⟩
                rw [Octets.extract_of_holds_view holds hpos]
                rfl

theorem RawRecord.read_eq_ok_iff {raw : RawRecord} :
    RawRecord.read b pos = .ok (raw, stop) ↔
      ∃ mid len, Spelled b.view pos raw.owner.labels mid ∧
        Holds b.view mid (Octets.ofUInt16 raw.rtype.code ++ Octets.ofUInt16 raw.rclass.code
          ++ Octets.ofUInt32 raw.ttl ++ Octets.ofUInt16 len) ∧
        raw.start = mid + 10 ∧ raw.stop = mid + 10 + len.toNat ∧ raw.stop ≤ b.size ∧
        stop = raw.stop := by
  simp only [RawRecord.read, Octets.bind_eq_ok_iff, Prod.exists, Name.read_eq_ok_iff,
    Octets.readUInt16_eq_ok_iff, Octets.readUInt32_eq_ok_iff, Octets.readRun_eq_ok_iff,
    holds_append]
  constructor
  · rintro ⟨owner, mid, howner, rtype, _, ⟨htype, rfl⟩, rclass, _, ⟨hclass, rfl⟩, ttl, _,
      ⟨httl, rfl⟩, len, _, ⟨hlen, rfl⟩, _, _, ⟨hsize, rfl, rfl⟩, hraw⟩
    cases hraw
    exact ⟨mid, len, howner, ⟨⟨⟨htype, hclass⟩, httl⟩, hlen⟩, rfl, rfl, hsize, rfl⟩
  · rintro ⟨mid, len, howner, ⟨⟨⟨htype, hclass⟩, httl⟩, hlen⟩, hstart, hstop, hsize, rfl⟩
    obtain ⟨owner, rtype, rclass, ttl, start, last⟩ := raw
    subst hstart hstop
    exact ⟨owner, mid, howner, _, _, ⟨htype, rfl⟩, _, _, ⟨hclass, rfl⟩, _, _, ⟨httl, rfl⟩, len,
      _, ⟨hlen, rfl⟩, _, _, ⟨hsize, rfl, rfl⟩, rfl⟩

theorem RawRecord.expand_eq_ok_iff {raw : RawRecord} {data : Octets}
    (hsize : raw.start ≤ b.size) :
    raw.expand b = .ok data ↔
      match raw.rtype.layout? with
      | none => data = b.extract raw.start raw.stop
      | some layout => DataField.At b.view layout raw.start data.toList raw.stop := by
  unfold RawRecord.expand
  cases raw.rtype.layout? with
  | none =>
      simp only [Except.ok.injEq]
      exact eq_comm
  | some layout =>
      simp only [Octets.bind_eq_ok_iff, Prod.exists, DataField.readAll_eq_ok_iff hsize]
      constructor
      · rintro ⟨os, pos, hos, h⟩
        split at h
        · rename_i hpos
          cases h
          rw [← hpos]
          exact hos
        · cases h
      · intro h
        exact ⟨_, _, h, by rw [if_pos rfl]; rfl⟩

/-- A record is read and expanded exactly where it stands. -/
theorem Record.read_eq_ok_iff {part : Section} {r : Record} :
    (∃ raw, RawRecord.read b pos = .ok (raw, stop) ∧ raw.toRecord b part = .ok r) ↔
      r.At b.view pos stop ∧ r.part = part := by
  simp only [RawRecord.toRecord, Octets.bind_eq_ok_iff, RawRecord.read_eq_ok_iff]
  constructor
  · rintro ⟨raw, ⟨mid, len, howner, hfixed, hstart, hstop, hsize, rfl⟩, data, hdata, hr⟩
    cases hr
    rw [RawRecord.expand_eq_ok_iff (by omega), hstart] at hdata
    have hlen : (b.extract (mid + 10) raw.stop).toList.length = len.toNat := by
      simp
      omega
    refine ⟨⟨mid, len, (b.extract (mid + 10) raw.stop).toList, howner, hfixed,
      Octets.holds_view_extract b (mid + 10) raw.stop, hlen, by omega, ?_⟩, rfl⟩
    unfold Record.DataAt
    rw [hlen, ← hstop]
    exact hdata
  · rintro ⟨⟨mid, len, raw, howner, hfixed, hraw, hlen, rfl, hdata⟩, hpart⟩
    have hmid : mid + 10 ≤ b.size := by
      have := Octets.le_size_of_holds hfixed howner.stop_le_size
      exact this
    have hend := Octets.le_size_of_holds hraw hmid
    refine ⟨⟨r.owner, r.rtype, r.rclass, r.ttl, mid + 10, mid + 10 + raw.length⟩,
      ⟨mid, len, howner, hfixed, rfl, by rw [hlen], hend, rfl⟩, r.data, ?_, ?_⟩
    · rw [RawRecord.expand_eq_ok_iff hmid]
      unfold Record.DataAt at hdata
      simp only [Octets.extract_of_holds_view hraw hmid]
      exact hdata
    · cases hpart
      rfl

/-- An OPT record always expands: its type has no layout. -/
theorem RawRecord.exists_toRecord_of_opt {raw : RawRecord} (part : Section)
    (h : raw.rtype = .opt) :
    ∃ r, raw.toRecord b part = .ok r ∧ r.rtype = .opt ∧ r.opt? = raw.opt? b part := by
  have hlayout : raw.rtype.layout? = none := by
    rw [h]
    decide
  refine ⟨_, by rw [toRecord, expand, hlayout]; rfl, h, ?_⟩
  simp only [Record.opt?, opt?, h, true_and]

theorem RawRecord.rtype_of_toRecord {raw : RawRecord} {part : Section} {r : Record}
    (h : raw.toRecord b part = .ok r) : r.rtype = raw.rtype := by
  simp only [toRecord, Octets.bind_eq_ok_iff] at h
  obtain ⟨data, -, hr⟩ := h
  cases hr
  rfl

end Readers

/-! ## Messages -/

theorem Sequence.append_iff {α : Type} {At : Nat → α → Nat → Prop} {as bs : List α}
    {pos stop : Nat} :
    Sequence At pos (as ++ bs) stop ↔ ∃ mid, Sequence At pos as mid ∧ Sequence At mid bs stop := by
  constructor
  · intro h
    induction as generalizing pos with
    | nil => exact ⟨pos, .nil, h⟩
    | cons a as ih =>
        cases h with
        | cons head tail =>
            obtain ⟨mid, has, hbs⟩ := ih tail
            exact ⟨mid, .cons head has, hbs⟩
  · rintro ⟨mid, has, hbs⟩
    induction has with
    | nil => exact hbs
    | cons head _ ih => exact .cons head (ih hbs)

/-- Each entry of a sequence stands somewhere. -/
theorem Sequence.exists_at {α : Type} {At : Nat → α → Nat → Prop} {as : List α} {pos stop : Nat}
    (h : Sequence At pos as stop) : ∀ a ∈ as, ∃ pos stop, At pos a stop := by
  induction h with
  | nil => exact List.forall_mem_nil _
  | cons head _ ih => exact List.forall_mem_cons.mpr ⟨⟨_, _, head⟩, ih⟩

namespace Message

variable {b : Octets} {pos stop : Nat}

theorem readQuestions_eq_ok_iff {n : Nat} {first question : Option Question} :
    readQuestions b n (first, pos) = .ok (question, stop) ↔
      ∃ qs : List Question, qs.length = n ∧ Sequence (Question.At b.view) pos qs stop ∧
        question = (first <|> qs.head?) := by
  induction n generalizing first pos with
  | zero =>
      simp only [readQuestions, Except.ok.injEq, Prod.mk.injEq]
      constructor
      · rintro ⟨rfl, rfl⟩
        exact ⟨[], rfl, .nil, by simp⟩
      · rintro ⟨qs, hlen, hqs, rfl⟩
        rw [List.length_eq_zero_iff] at hlen
        subst hlen
        cases hqs
        simp
  | succ n ih =>
      simp only [readQuestions, Octets.bind_eq_ok_iff, Prod.exists, Question.read_eq_ok_iff, ih]
      constructor
      · rintro ⟨q, mid, hq, qs, hlen, hqs, rfl⟩
        exact ⟨q :: qs, by simpa using hlen, .cons hq hqs, by cases first <;> simp⟩
      · rintro ⟨qs, hlen, hqs, rfl⟩
        cases hqs with
        | nil => simp at hlen
        | @cons _ mid _ q qs head tail =>
            exact ⟨q, mid, head, qs, by simpa using hlen, tail, by cases first <;> simp⟩

/-- What has been read of a message with one more record. -/
def Entries.add (e : Entries) (r : Record) : Entries where
  records := if r.rtype = .opt then e.records else r :: e.records
  opt := e.opt <|> r.opt?

theorem Entries.add_of_ne_opt {e : Entries} {r : Record} (h : r.rtype ≠ .opt) :
    e.add r = { e with records := r :: e.records } := by
  rw [add, if_neg h, Record.opt?, if_neg (fun hopt => h hopt.1)]
  cases e with
  | mk records opt => cases opt <;> rfl

/-- One step of reading a section reads one record. -/
theorem readSection_succ_iff {part : Section} {n : Nat} {e : Entries} {done : Entries × Nat} :
    readSection b part (n + 1) (e, pos) = .ok done ↔
      ∃ r mid, r.At b.view pos mid ∧ r.part = part ∧
        readSection b part n (e.add r, mid) = .ok done := by
  simp only [readSection, Octets.bind_eq_ok_iff, Prod.exists]
  constructor
  · rintro ⟨raw, mid, hraw, h⟩
    split at h
    · rename_i hopt
      obtain ⟨r, hr, htype, hcontent⟩ := raw.exists_toRecord_of_opt part hopt
      obtain ⟨hat, hpart⟩ := Record.read_eq_ok_iff.mp ⟨raw, hraw, hr⟩
      refine ⟨r, mid, hat, hpart, ?_⟩
      rw [Entries.add, if_pos htype, hcontent]
      exact h
    · rename_i hopt
      obtain ⟨r, hr, h⟩ := Octets.bind_eq_ok_iff.mp h
      obtain ⟨hat, hpart⟩ := Record.read_eq_ok_iff.mp ⟨raw, hraw, hr⟩
      have htype := RawRecord.rtype_of_toRecord hr
      refine ⟨r, mid, hat, hpart, ?_⟩
      rw [Entries.add_of_ne_opt (by rw [htype]; exact hopt)]
      exact h
  · rintro ⟨r, mid, hat, hpart, h⟩
    obtain ⟨raw, hraw, hr⟩ := Record.read_eq_ok_iff.mpr ⟨hat, hpart⟩
    have htype := RawRecord.rtype_of_toRecord hr
    refine ⟨raw, mid, hraw, ?_⟩
    split
    · rename_i hopt
      obtain ⟨r', hr', htype', hcontent⟩ := raw.exists_toRecord_of_opt part hopt
      rw [hr] at hr'
      cases hr'
      rw [Entries.add, if_pos htype', hcontent] at h
      exact h
    · rename_i hopt
      rw [Entries.add_of_ne_opt (by rw [htype]; exact hopt)] at h
      exact Octets.bind_eq_ok_iff.mpr ⟨r, hr, h⟩

theorem readSection_eq_ok_iff {part : Section} {n : Nat} {e e' : Entries} :
    readSection b part n (e, pos) = .ok (e', stop) ↔
      ∃ rs : List Record, rs.map Record.part = List.replicate n part ∧
        Sequence (Record.At b.view) pos rs stop ∧ e' = rs.foldl Entries.add e := by
  induction n generalizing e pos with
  | zero =>
      simp only [readSection, Except.ok.injEq, Prod.mk.injEq]
      constructor
      · rintro ⟨rfl, rfl⟩
        exact ⟨[], rfl, .nil, rfl⟩
      · rintro ⟨rs, hparts, hrs, rfl⟩
        rw [List.replicate_zero, List.map_eq_nil_iff] at hparts
        subst hparts
        cases hrs
        exact ⟨rfl, rfl⟩
  | succ n ih =>
      simp only [readSection_succ_iff, ih]
      constructor
      · rintro ⟨r, mid, hr, hpart, rs, hparts, hrs, rfl⟩
        refine ⟨r :: rs, ?_, .cons hr hrs, rfl⟩
        rw [List.map_cons, hparts, hpart, List.replicate_succ]
      · rintro ⟨rs, hparts, hrs, rfl⟩
        cases hrs with
        | nil => simp at hparts
        | @cons _ mid _ r rs head tail =>
            rw [List.map_cons, List.replicate_succ, List.cons.injEq] at hparts
            exact ⟨r, mid, head, hparts.1, rs, hparts.2, tail, rfl⟩

theorem foldl_add (rs : List Record) (e : Entries) :
    rs.foldl Entries.add e =
      ⟨(rs.filter (·.rtype ≠ .opt)).reverse ++ e.records, e.opt <|> rs.findSome? Record.opt?⟩ := by
  induction rs generalizing e with
  | nil => simp
  | cons r rs ih =>
      rw [List.foldl_cons, ih]
      by_cases hopt : r.rtype = .opt
      · cases e with
        | mk records opt => cases opt <;> cases hr : r.opt? <;> simp [Entries.add, hopt, hr]
      · rw [Entries.add_of_ne_opt hopt]
        simp [hopt, Record.opt?]

/-- The records of the sections of a message are the records of the message. -/
theorem entries_eq_ofEntries (qs : List Question) (rs : List Record) :
    { octets := b, header := Header.read b, question := none <|> qs.head?,
      records := (rs.foldl Entries.add ⟨[], none⟩).records.reverse,
      opt := (rs.foldl Entries.add ⟨[], none⟩).opt } = ofEntries b qs rs := by
  rw [foldl_add]
  simp [ofEntries]

/-- Decoding is the grammar: where the entries of a buffer stand, its message is made of
them. -/
theorem decode_eq_ok_iff {m : Message} :
    decode b = .ok m ↔ ∃ qs rs, Grammar b qs rs ∧ m = ofEntries b qs rs := by
  simp only [decode, Octets.bind_eq_ok_iff, Prod.exists, readQuestions_eq_ok_iff,
    readSection_eq_ok_iff, Header.read?_eq_ok_iff]
  constructor
  · rintro ⟨header, ⟨hsize, rfl⟩, question, mid, ⟨qs, hlen, hqs, rfl⟩, _, p₁,
      ⟨answers, h₁, hs₁, rfl⟩, _, p₂, ⟨authorities, h₂, hs₂, rfl⟩, _, p₃,
      ⟨additionals, h₃, hs₃, rfl⟩, hm⟩
    refine ⟨qs, answers ++ authorities ++ additionals, ⟨hsize, hlen, ?_, mid, p₃, hqs, ?_⟩, ?_⟩
    · rw [List.map_append, List.map_append, h₁, h₂, h₃]
    · exact Sequence.append_iff.mpr ⟨p₂, Sequence.append_iff.mpr ⟨p₁, hs₁, hs₂⟩, hs₃⟩
    · rw [← entries_eq_ofEntries, List.foldl_append, List.foldl_append]
      cases hm
      rfl
  · rintro ⟨qs, rs, ⟨hsize, hlen, hparts, mid, p₃, hqs, hrs⟩, rfl⟩
    obtain ⟨answers', additionals, rfl, hparts, h₃⟩ := List.map_eq_append_iff.mp hparts
    obtain ⟨answers, authorities, rfl, h₁, h₂⟩ := List.map_eq_append_iff.mp hparts
    obtain ⟨p₂, hrs, hs₃⟩ := Sequence.append_iff.mp hrs
    obtain ⟨p₁, hs₁, hs₂⟩ := Sequence.append_iff.mp hrs
    refine ⟨_, ⟨hsize, rfl⟩, _, mid, ⟨qs, hlen, hqs, rfl⟩, _, p₁, ⟨answers, h₁, hs₁, rfl⟩, _, p₂,
      ⟨authorities, h₂, hs₂, rfl⟩, _, p₃, ⟨additionals, h₃, hs₃, rfl⟩, ?_⟩
    rw [← entries_eq_ofEntries, List.foldl_append, List.foldl_append]
    rfl

/-- **The decoder accepts exactly the grammar.** Octets decode exactly if they are a message
of some questions and records, and the decoded message is what these make: its question is
the first one, and its records are those of other types than OPT, in order, each in the
section whose count announced it. -/
theorem decode_iff_grammar (b : Octets) :
    ((∃ m, decode b = .ok m) ↔ ∃ qs rs, Grammar b qs rs) ∧
      ∀ m, decode b = .ok m ↔ ∃ qs rs, Grammar b qs rs ∧ m = ofEntries b qs rs := by
  refine ⟨?_, fun m => decode_eq_ok_iff⟩
  constructor
  · rintro ⟨m, hm⟩
    obtain ⟨qs, rs, hgrammar, -⟩ := decode_eq_ok_iff.mp hm
    exact ⟨qs, rs, hgrammar⟩
  · rintro ⟨qs, rs, hgrammar⟩
    exact ⟨ofEntries b qs rs, decode_eq_ok_iff.mpr ⟨qs, rs, hgrammar, rfl⟩⟩

end Message

end Querier
