import Querier.Proofs.Header
import Querier.Proofs.Message.Grammar

/-!
# What stands behind a message

A reader finds out that its buffer ends in one way only: it looks for an octet that is not there,
and gives up. So a reader that has come to any other result, be it what it reads or a fault that it
finds, has seen nothing of the end, and comes to the same result in every buffer that begins with
the same octets. `Settled` says this of two runs of a reader, and readers put together from readers
keep it.

This is not to say that a message ends with its last entry. A pointer leads backwards, but the
labels that it leads to go forwards again and may go past the entry that points to them, and past
the last entry of all. Those octets are part of what decodes, and `overrunning` is a message that
needs them.

## Main results

* `Settled.bind`, `Settled.andThen`: a reader that goes on with another one is settled if both are.
* `Name.settled_read`, `RawRecord.settled_read`, `Message.settled_readSection`: a longer buffer
  reads the same.
* `Message.decode_append`: whatever is put behind a buffer that decodes, the message is the same.
-/

namespace Querier

open View

/-! ## Two runs of a reader -/

/-- What a reader gives in one buffer it also gives in the other, unless it came to the end of the
first. -/
def Settled {α : Type} (x y : Except DecodeError α) : Prop := x ≠ .error .shortInput → y = x

namespace Settled

variable {α β : Type} {x y : Except DecodeError α}

theorem refl (x : Except DecodeError α) : Settled x x := fun _ => rfl

theorem short (y : Except DecodeError α) : Settled (.error .shortInput) y :=
  fun h => absurd rfl h

theorem eq_ok {a : α} (h : Settled x y) (hx : x = .ok a) : y = .ok a := by
  subst hx
  exact h (by simp)

theorem eq_error {e : DecodeError} (h : Settled x y) (hx : x = .error e) (he : e ≠ .shortInput) :
    y = .error e := by
  subst hx
  exact h (by simpa using he)

/-- The second of two readers is run only on what the first one read. -/
theorem bind {f g : α → Except DecodeError β} (h : Settled x y)
    (hfg : ∀ a, x = .ok a → Settled (f a) (g a)) : Settled (x >>= f) (y >>= g) := by
  intro hne
  cases hx : x with
  | error e =>
      have hy : y = .error e := h.eq_error hx (by rintro rfl; exact hne (by rw [hx]; rfl))
      rw [hy]
      rfl
  | ok a =>
      rw [h.eq_ok hx]
      rw [hx] at hne
      exact hfg a hx hne

/-- The second one begins where the first one stopped. -/
theorem andThen {x y : Except DecodeError (α × Nat)} {f g : α × Nat → Except DecodeError β}
    (h : Settled x y)
    (hfg : ∀ a pos, x = .ok (a, pos) → Settled (f (a, pos)) (g (a, pos))) :
    Settled (x >>= f) (y >>= g) :=
  h.bind fun read hread => hfg read.1 read.2 hread

theorem map {f : α → β} (h : Settled x y) : Settled (x.map f) (y.map f) := by
  intro hne
  have hx : x ≠ .error .shortInput := by
    rintro rfl
    exact hne rfl
  rw [h hx]

end Settled

/-! ## The parts of a message -/

section Readers

variable {b b' : Octets} {pos : Nat}

namespace Octets

theorem size_le_of_le (h : Le b.view b'.view) : b.size ≤ b'.size := by
  by_cases hempty : b.size = 0
  · omega
  · have hlast : b.view (b.size - 1) = some b[b.size - 1] := Array.getElem?_eq_getElem (by omega)
    have hlt := lt_size_of_view (h _ _ hlast)
    omega

theorem view_le_append_octets (b t : Octets) : Le b.view (view (b ++ t)) := by
  intro i o hi
  show (b ++ t)[i]? = some o
  rw [Array.getElem?_append_left (lt_size_of_view hi)]
  exact hi

theorem getElem?_of_le {i : Nat} {o : UInt8} (h : Le b.view b'.view) (hi : b[i]? = some o) :
    b'[i]? = some o := h i o hi

theorem extract_of_le {start stop : Nat} (h : Le b.view b'.view) (hstop : stop ≤ b.size) :
    b'.extract start stop = b.extract start stop := by
  have hsize := size_le_of_le h
  have hlength : (b'.extract start stop).toList.length = (b.extract start stop).toList.length := by
    simp only [Array.length_toList, Array.size_extract]
    omega
  have hheld := (holds_view_extract b start stop).mono h
  exact Array.toList_inj.mp ((holds_view_extract b' start stop).unique hheld hlength)

theorem settled_readUInt16 (h : Le b.view b'.view) (pos : Nat) :
    Settled (b.readUInt16 pos) (b'.readUInt16 pos) := by
  unfold readUInt16
  split
  · rename_i hi lo hhi hlo
    rw [getElem?_of_le h hhi, getElem?_of_le h hlo]
    exact .refl _
  · exact .short _

theorem settled_readUInt32 (h : Le b.view b'.view) (pos : Nat) :
    Settled (b.readUInt32 pos) (b'.readUInt32 pos) := by
  unfold readUInt32
  split
  · rename_i o₁ o₂ o₃ o₄ h₁ h₂ h₃ h₄
    rw [getElem?_of_le h h₁, getElem?_of_le h h₂, getElem?_of_le h h₃, getElem?_of_le h h₄]
    exact .refl _
  · exact .short _

theorem settled_readRun (h : Le b.view b'.view) (pos len : Nat) :
    Settled (b.readRun pos len) (b'.readRun pos len) := by
  have hsize := size_le_of_le h
  unfold readRun
  by_cases hfits : pos + len ≤ b.size
  · rw [if_pos hfits, if_pos (Nat.le_trans hfits hsize), extract_of_le h hfits]
    exact .refl _
  · rw [if_neg hfits]
    exact .short _

end Octets

theorem LabelType.settled_read (h : Le b.view b'.view) (pos : Nat) :
    Settled (LabelType.read b pos) (LabelType.read b' pos) := by
  unfold LabelType.read
  cases ho : b[pos]? with
  | none => exact .short _
  | some o =>
      rw [Octets.getElem?_of_le h ho]
      simp only
      split
      · exact .refl _
      · split
        · exact .refl _
        · split
          · exact .refl _
          · cases hlow : b[pos + 1]? with
            | none => exact .short _
            | some low =>
                rw [Octets.getElem?_of_le h hlow]
                exact .refl _

namespace Name

/-- The labels before do not matter, nor how many pointers there are. -/
theorem settled_readFrom (h : Le b.view b'.view) (n : Name) (pos : Nat) :
    Settled (readFrom b n pos) (readFrom b' n pos) := by
  have htype := LabelType.settled_read h
  fun_induction readFrom b n pos with
  | case1 n pos e hread =>
      intro hne
      have hread' := (htype pos).eq_error hread (by rintro rfl; exact hne rfl)
      rw [readFrom, hread']
  | case2 n pos next hread =>
      rw [readFrom, (htype pos).eq_ok hread]
      exact .refl _
  | case3 n pos len lenPos le next hread fits enough same ih =>
      obtain ⟨hlen, rfl⟩ := LabelType.view_of_read_normal hread
      let l : Label := ⟨(b.extract (pos + 1) (pos + 1 + len)).toList, by omega, by omega⟩
      have hl : l.octets.length = len := same
      have wire : Holds b.view pos l.wire := Label.holds_wire_of_extract hlen hl rfl
      have hnext : pos + 1 + len = pos + l.wireLength := by
        rw [Label.wireLength]
        omega
      have hsize := Octets.size_le_of_le h
      rw [readFrom_label (wire.mono h) (by omega) (hl.symm ▸ fits), ← hnext]
      exact ih
  | case4 n pos len lenPos le next hread fits enough => exact .short _
  | case5 n pos len lenPos le next hread fits =>
      rw [readFrom, (htype pos).eq_ok hread]
      simp only
      rw [dif_neg fits]
      exact .refl _
  | case6 n pos target next hread back ih =>
      obtain ⟨hi, lo, high, low, points, rfl⟩ := LabelType.view_of_read_pointer hread
      rw [readFrom_pointer (h _ _ high) (h _ _ low) points back]
      exact ih.map
  | case7 n pos target next hread back =>
      rw [readFrom, (htype pos).eq_ok hread]
      simp only
      rw [if_neg back]
      exact .refl _

theorem settled_read (h : Le b.view b'.view) (pos : Nat) :
    Settled (read b pos) (read b' pos) :=
  settled_readFrom h root pos

end Name

theorem Question.settled_read (h : Le b.view b'.view) (pos : Nat) :
    Settled (Question.read b pos) (Question.read b' pos) := by
  unfold Question.read
  refine (Name.settled_read h pos).andThen fun qname pos _ => ?_
  refine (Octets.settled_readUInt16 h pos).andThen fun qtype pos _ => ?_
  exact (Octets.settled_readUInt16 h pos).andThen fun _ _ _ => .refl _

theorem DataField.settled_readAll (h : Le b.view b'.view) (fields : List DataField) (pos : Nat) :
    Settled (DataField.readAll b fields pos) (DataField.readAll b' fields pos) := by
  induction fields generalizing pos with
  | nil => exact .refl _
  | cons field fields ih =>
      cases field with
      | name =>
          unfold DataField.readAll
          refine (Name.settled_read h pos).andThen fun n pos _ => ?_
          exact (ih pos).andThen fun _ _ _ => .refl _
      | run len =>
          unfold DataField.readAll
          refine (Octets.settled_readRun h pos len).andThen fun taken pos _ => ?_
          exact (ih pos).andThen fun _ _ _ => .refl _

namespace RawRecord

theorem settled_read (h : Le b.view b'.view) (pos : Nat) :
    Settled (read b pos) (read b' pos) := by
  unfold read
  refine (Name.settled_read h pos).andThen fun owner pos _ => ?_
  refine (Octets.settled_readUInt16 h pos).andThen fun rtype pos _ => ?_
  refine (Octets.settled_readUInt16 h pos).andThen fun rclass pos _ => ?_
  refine (Octets.settled_readUInt32 h pos).andThen fun ttl pos _ => ?_
  refine (Octets.settled_readUInt16 h pos).andThen fun len pos _ => ?_
  exact (Octets.settled_readRun h pos len.toNat).andThen fun _ _ _ => .refl _

variable {raw : RawRecord} {stop : Nat}

theorem stop_le_size (hread : read b pos = .ok (raw, stop)) : raw.stop ≤ b.size := by
  obtain ⟨mid, len, -, -, -, -, hsize, -⟩ := read_eq_ok_iff.mp hread
  exact hsize

/-- A name in the data is read from the whole buffer, but data without names is not. -/
theorem settled_toRecord (h : Le b.view b'.view) (hsize : raw.stop ≤ b.size) (part : Section) :
    Settled (raw.toRecord b part) (raw.toRecord b' part) := by
  have hexpand : Settled (raw.expand b) (raw.expand b') := by
    unfold expand
    cases raw.rtype.layout? with
    | none =>
        simp only
        rw [Octets.extract_of_le h hsize]
        exact .refl _
    | some layout =>
        exact (DataField.settled_readAll h layout raw.start).andThen fun _ _ _ => .refl _
  exact hexpand.bind fun _ _ => .refl _

theorem opt?_of_le (h : Le b.view b'.view) (hsize : raw.stop ≤ b.size) (part : Section) :
    raw.opt? b' part = raw.opt? b part := by
  unfold opt?
  rw [Octets.extract_of_le h hsize]

end RawRecord

theorem Header.settled_read? (h : Le b.view b'.view) :
    Settled (Header.read? b) (Header.read? b') := by
  have hsize := Octets.size_le_of_le h
  unfold Header.read?
  by_cases hshort : b.size < Header.length
  · rw [if_pos hshort]
    exact .short _
  · have hread : Header.read b' = Header.read b := by
      refine Header.read_congr fun i hi => ?_
      have hi' : i < b.size := Nat.lt_of_lt_of_le hi (Nat.le_of_not_lt hshort)
      rw [Array.getElem?_eq_getElem hi']
      exact Octets.getElem?_of_le h (Array.getElem?_eq_getElem hi')
    rw [if_neg hshort, if_neg (by omega), hread]
    exact .refl _

end Readers

/-! ## Messages -/

namespace Message

variable {b b' : Octets}

theorem settled_readQuestions (h : Le b.view b'.view) (n : Nat) (done : Option Question × Nat) :
    Settled (readQuestions b n done) (readQuestions b' n done) := by
  induction n generalizing done with
  | zero => exact .refl _
  | succ n ih =>
      unfold readQuestions
      exact (Question.settled_read h done.2).andThen fun _ _ _ => ih _

theorem settled_readSection (h : Le b.view b'.view) (part : Section) (n : Nat)
    (done : Entries × Nat) : Settled (readSection b part n done) (readSection b' part n done) := by
  induction n generalizing done with
  | zero => exact .refl _
  | succ n ih =>
      unfold readSection
      refine (RawRecord.settled_read h done.2).andThen fun raw pos hraw => ?_
      have hsize : raw.stop ≤ b.size := RawRecord.stop_le_size hraw
      by_cases hopt : raw.rtype = .opt
      · simp only [if_pos hopt, RawRecord.opt?_of_le h hsize]
        exact ih _
      · simp only [if_neg hopt]
        exact (RawRecord.settled_toRecord h hsize part).bind fun _ _ => ih _

theorem settled_peek (h : Le b.view b'.view) : Settled (peek b) (peek b') := by
  unfold peek
  refine (Header.settled_read? h).bind fun header _ => ?_
  split
  · exact .refl _
  · exact (Question.settled_read h Header.length).andThen fun _ _ _ => .refl _

/-- A decoded message holds its buffer, and that is all it takes from the octets that are not
read. -/
theorem settled_decode (h : Le b.view b'.view) :
    Settled ((decode b).map fun m => { m with octets := b' }) (decode b') := by
  show Settled ((fun m => { m with octets := b' }) <$> decode b) (decode b')
  simp only [decode, map_bind, map_pure]
  refine (Header.settled_read? h).bind fun header _ => ?_
  refine (settled_readQuestions h _ _).andThen fun question pos _ => ?_
  refine (settled_readSection h _ _ _).andThen fun done pos _ => ?_
  refine (settled_readSection h _ _ _).andThen fun done pos _ => ?_
  exact (settled_readSection h _ _ _).andThen fun _ _ _ => .refl _

/-- **What follows a message is ignored.** Whatever octets are put behind a buffer that decodes,
the message has the same header, question, records and OPT record; a peek at the question gives the
same, and so does each name that could be read in the buffer, wherever it is. What is no message
stays none for the same reason, unless the reason is that it ends too early. -/
theorem decode_append (b t : Octets) :
    (∀ m, decode b = .ok m → decode (b ++ t) = .ok { m with octets := b ++ t }) ∧
      (∀ e, decode b = .error e → e ≠ .shortInput → decode (b ++ t) = .error e) ∧
      (∀ result, peek b = .ok result → peek (b ++ t) = .ok result) ∧
      ∀ pos n stop, Name.read b pos = .ok (n, stop) → Name.read (b ++ t) pos = .ok (n, stop) := by
  have hle : Le b.view (Octets.view (b ++ t)) := Octets.view_le_append_octets b t
  have hdecode := settled_decode hle
  refine ⟨fun m hm => ?_, fun e he hne => ?_, fun result hresult => ?_, fun pos n stop hread => ?_⟩
  · refine hdecode.eq_ok ?_
    rw [hm]
    rfl
  · refine hdecode.eq_error ?_ hne
    rw [he]
    rfl
  · exact (settled_peek hle).eq_ok hresult
  · exact (Name.settled_read hle pos).eq_ok hread

/-! ## A message that goes on behind its last entry -/

/-- A response with two additional records: an OPT record, and an NS record whose data is a pointer
to its own type field. From there labels of two and seven octets lead over the pointer, so that the
root label of the name is the octet behind the record. -/
def overrunning : Octets := #[0, 0, 128, 0, 0, 1, 0, 0, 0, 0, 0, 2,
  0, 0, 2, 0, 1,
  0, 0, 41, 4, 208, 0, 0, 0, 0, 0, 0,
  0, 0, 2, 0, 1, 7, 0, 0, 0, 0, 2, 192, 30,
  0]

/-- The name that the pointer leads to. -/
def overrunningName : Name :=
  ⟨[⟨[0, 1], by decide, by decide⟩, ⟨[0, 0, 0, 0, 2, 192, 30], by decide, by decide⟩], by decide⟩

/-- What it decodes to. -/
def overrunningMessage : Message where
  octets := overrunning
  header := Header.read overrunning
  question := some ⟨.root, .ns, .internet⟩
  records := [⟨.root, .ns, .internet, 117440512, overrunningName.wire.toArray, .additional⟩]
  opt := some ⟨1232, 0, 0, 0, []⟩

/-- A question whose name is a pointer to itself. -/
def selfPointing : Octets := #[0, 0, 0, 0, 0, 1, 0, 0, 0, 0, 0, 0, 192, 12, 0, 1, 0, 1]

/-- The message needs the octet behind its last record and no other. -/
theorem decode_append_overrunning :
    decode (overrunning.extract 0 41) = .error .shortInput ∧
      decode overrunning = .ok overrunningMessage ∧
      decode (overrunning ++ #[192, 12, 255]) =
        .ok { overrunningMessage with octets := overrunning ++ #[192, 12, 255] } ∧
      peek (overrunning ++ #[192, 12, 255]) =
        .ok (Header.read overrunning, some ⟨.root, .ns, .internet⟩) ∧
      Name.read (overrunning ++ #[192, 12, 255]) 39 = .ok (overrunningName, 41) ∧
      decode (selfPointing ++ #[0]) = .error .compressionLoop := by
  have whole : decode overrunning = .ok overrunningMessage := by cbv
  have question :
      peek overrunning = .ok (Header.read overrunning, some ⟨.root, .ns, .internet⟩) := by cbv
  have name : Name.read overrunning 39 = .ok (overrunningName, 41) := by cbv
  have loop : decode selfPointing = .error .compressionLoop := by cbv
  have behind := decode_append overrunning #[192, 12, 255]
  have refused := decode_append selfPointing #[0]
  exact ⟨by cbv, whole, behind.1 _ whole, behind.2.2.1 _ question, behind.2.2.2 _ _ _ name,
    refused.2.1 _ loop (by decide)⟩

end Message

end Querier
