import Querier.Message.Writer
import Querier.Proofs.Message.Compression

/-!
# Writing names

A name is written in full or as some of its labels and a pointer. Either way
the octets are appended to the message and nothing else of it changes.

## Main results

* `pushName_eq`: all that writing a name does to a writer.
* `spells_of_nameOctets`: in every view that holds the octets a name is written
  as, and spells the names the writer remembers, the name is spelled there, up
  to case.
* `respells_of_nameOctets`: what is spelled there would have been written in the
  same way.
* `pushName_sound`: what is written for a name reads back as that name, takes
  no more octets than the name, and points backwards if at all.
-/

namespace Querier

open View

@[simp] theorem Name.wireLength_lower (n : Name) : n.lower.wireLength = n.wireLength :=
  wireLengthAll_lower n.labels

namespace Writer

theorem pointer_eq {target : Nat} (h : target < Compression.offsetLimit) :
    ∃ hi lo, pointer target = [hi, lo] ∧ PointsTo hi lo target := by
  have hlimit : target < 16384 := h
  refine ⟨_, _, rfl, ?_⟩
  simp only [PointsTo, UInt16.toNat_ofNat', UInt8.toNat_ofNat']
  omega

/-- What a name is compressed with, if it is. -/
def found (w : Writer) (n : Name) (compress : Bool) : Option Compression.Suffix :=
  if w.mayCompress compress then Compression.find w.content w.names n else none

/-- The octets of a name that is not compressed. -/
def plainOctets (w : Writer) (n : Name) : List UInt8 :=
  if w.lowercase then Octets.foldCase n.wire else n.wire

/-- The octets that a name is written as. -/
def nameOctets (w : Writer) (n : Name) (compress : Bool) : List UInt8 :=
  match w.found n compress with
  | some s => n.wire.take (n.wireLength - s.length) ++ pointer s.offset
  | none => w.plainOctets n

theorem found_root {w : Writer} {n : Name} {compress : Bool} (h : n.isRoot = true) :
    w.found n compress = none := by
  unfold found
  split
  · cases hfind : Compression.find w.content w.names n with
    | none => rfl
    | some s =>
        obtain ⟨front, back, -, -, hlabels, hback, -⟩ := Compression.find_eq_some
          (Le.refl w.content.view) (fun _ _ _ => Compression.exists_spelled) hfind
        rw [List.isEmpty_iff.mp h] at hlabels
        exact absurd (List.append_eq_nil_iff.mp hlabels.symm).2 hback
  · rfl

theorem plainOctets_root {w : Writer} {n : Name} (h : n.isRoot = true) :
    w.plainOctets n = [0] := by
  have hwire : n.wire = [0] := by
    rw [Name.wire, List.isEmpty_iff.mp h]
    rfl
  unfold plainOctets
  split
  · rw [hwire]
    decide
  · exact hwire

/-- Writing a name appends its octets. Its place is remembered unless it is the root or a
pointer alone. -/
theorem pushName_eq_push (w : Writer) (n : Name) (compress : Bool) :
    w.pushName n compress =
      (if n.isRoot || (w.found n compress).any (·.length == n.wireLength) then w
        else w.remember).push (w.nameOctets n compress) := by
  have hpush : w.pushName n compress =
      if n.isRoot then w.push [0]
      else
        match w.found n compress with
        | some s => (if s.length = n.wireLength then w else w.remember).push
            (n.wire.take (n.wireLength - s.length) ++ pointer s.offset)
        | none => w.remember.push (w.plainOctets n) := rfl
  rw [hpush, nameOctets]
  by_cases hroot : n.isRoot = true
  · rw [if_pos hroot, found_root hroot, hroot, plainOctets_root hroot]
    rfl
  · rw [if_neg hroot, Bool.eq_false_iff.mpr hroot, Bool.false_or]
    cases w.found n compress with
    | none => rfl
    | some s => simp only [Option.any_some, beq_iff_eq]

/-- All that writing a name does: its octets are appended, and their place is remembered,
if at all, where a pointer can reach it. -/
theorem pushName_eq (w : Writer) (n : Name) (compress : Bool) :
    ∃ new, w.pushName n compress =
        { w with content := w.content ++ w.nameOctets n compress, names := w.names ++ new } ∧
      (new = [] ∨ new = [w.content.size] ∧ w.content.size < Compression.offsetLimit) := by
  have kept (os : List UInt8) : w.push os =
      { w with content := w.content ++ os, names := w.names ++ [] } := by
    rw [List.append_nil]
    rfl
  rw [pushName_eq_push]
  split
  · exact ⟨[], kept _, .inl rfl⟩
  · unfold remember
    split
    · rename_i hlt
      exact ⟨[w.content.size], rfl, .inr ⟨rfl, hlt⟩⟩
    · exact ⟨[], kept _, .inl rfl⟩

/-- What the writer remembers of names is spelled in a view below its message. -/
def Remembers (w : Writer) (v : View) : Prop :=
  Le v w.content.view ∧ ∀ start ∈ w.names, ∀ offsets,
    Compression.labelOffsets w.content start = some offsets → ∃ ls stop, Spelled v start ls stop

theorem remembers_view (w : Writer) : w.Remembers w.content.view :=
  ⟨Le.refl _, fun _ _ _ => Compression.exists_spelled⟩

/-- With a suffix of it found in the message, a name is written as its other labels and a
pointer. -/
theorem nameOctets_of_found {w : Writer} {n : Name} {compress : Bool} {s : Compression.Suffix}
    {front back : List Label} (h : w.found n compress = some s) (hlabels : n.labels = front ++ back)
    (hlen : s.length = Label.wireLengthAll back) :
    w.nameOctets n compress = front.flatMap Label.wire ++ pointer s.offset := by
  have hall := Name.wireLengthAll_append front back
  have hfront := Label.length_flatMap_wire front
  have htake : n.wireLength - s.length = (front.flatMap Label.wire).length := by
    rw [Name.wireLength, hlabels, hlen]
    omega
  unfold nameOctets
  rw [h]
  simp only [htake, Name.wire_eq_append hlabels, List.take_left]

theorem nameOctets_of_not_found {w : Writer} {n : Name} {compress : Bool}
    (h : w.found n compress = none) : w.nameOctets n compress = w.plainOctets n := by
  unfold nameOctets
  rw [h]

/-- What is found of a name in the message is a suffix of it that is spelled there. -/
theorem found_eq_some {w : Writer} {v : View} {n : Name} {compress : Bool}
    {s : Compression.Suffix} (hrem : w.Remembers v) (h : w.found n compress = some s) :
    w.mayCompress compress = true ∧ ∃ front back ls stop, n.labels = front ++ back ∧ back ≠ [] ∧
      s.length = Label.wireLengthAll back ∧ Spelled v s.offset ls stop ∧ SameLabels ls back ∧
      s.offset < Compression.offsetLimit := by
  unfold found at h
  split at h
  · rename_i hmay
    exact ⟨hmay, Compression.find_eq_some hrem.1 hrem.2 h⟩
  · cases h

/-- The three ways to write a name: in full, in lower case, or as some of its labels and a
pointer to the rest of them. -/
theorem nameOctets_cases {w : Writer} {v : View} (n : Name) (compress : Bool)
    (h : w.Remembers v) :
    (w.found n compress = none ∧ w.nameOctets n compress = w.plainOctets n) ∨
      (w.mayCompress compress = true ∧ ∃ front back target ls stop, n.labels = front ++ back ∧
        back ≠ [] ∧ w.nameOctets n compress = front.flatMap Label.wire ++ pointer target ∧
        target < Compression.offsetLimit ∧ Spelled v target ls stop ∧ SameLabels ls back) := by
  cases hfound : w.found n compress with
  | none => exact .inl ⟨rfl, nameOctets_of_not_found hfound⟩
  | some s =>
      obtain ⟨hmay, front, back, ls, stop, hlabels, hback, hlen, hls, hsame, hlt⟩ :=
        found_eq_some h hfound
      exact .inr ⟨hmay, front, back, s.offset, ls, stop, hlabels, hback,
        nameOctets_of_found hfound hlabels hlen, hlt, hls, hsame⟩

@[simp] theorem length_plainOctets (w : Writer) (n : Name) :
    (w.plainOctets n).length = n.wireLength := by
  unfold plainOctets
  split
  · rw [Octets.length_foldCase, Name.length_wire]
  · exact Name.length_wire n

theorem length_nameOctets_le (w : Writer) (n : Name) (compress : Bool) :
    (w.nameOctets n compress).length ≤ n.wireLength := by
  rcases nameOctets_cases n compress w.remembers_view with
    ⟨-, heq⟩ | ⟨-, front, back, target, -, -, hlabels, hback, heq, -⟩
  · rw [heq]
    exact Nat.le_of_eq (length_plainOctets w n)
  · have hall := Name.wireLengthAll_append front back
    have hfront := Label.length_flatMap_wire front
    have hlen : 3 ≤ Label.wireLengthAll back := by
      cases back with
      | nil => exact absurd rfl hback
      | cons l ls =>
          have hl := l.length_pos
          have hls := Name.wireLengthAll_pos ls
          rw [Label.wireLengthAll, Label.wireLength]
          omega
    rw [heq, Name.wireLength, hlabels, List.length_append]
    simp only [pointer, Octets.ofUInt16, List.length_cons, List.length_nil]
    omega

/-! ## What reads back -/

theorem found_congr {n m : Name} (h : SameLabels m.labels n.labels) (w : Writer)
    (compress : Bool) : w.found m compress = w.found n compress := by
  unfold found
  rw [Compression.find_congr h]

/-- Names that are equal up to case and are written as the same octets are written alike. -/
theorem pushName_congr {w : Writer} {n m : Name} {compress : Bool}
    (h : SameLabels m.labels n.labels)
    (hoctets : w.nameOctets m compress = w.nameOctets n compress) :
    w.pushName m compress = w.pushName n compress := by
  have hlength : m.wireLength = n.wireLength := h.wireLengthAll_eq
  rw [pushName_eq_push, pushName_eq_push, hoctets, found_congr h, Name.isRoot_congr h.same, hlength]

/-- A name that is written in full, in whatever mode, is spelled where it is written. -/
theorem spells_of_plainOctets {w : Writer} {v : View} {n : Name} {pos : Nat}
    (h : Holds v pos (w.plainOctets n)) :
    ∃ m : Name, Spelled v pos m.labels (pos + n.wireLength) ∧ SameLabels m.labels n.labels ∧
      w.plainOctets m = w.plainOctets n := by
  by_cases hlower : w.lowercase = true
  · have hplain : ∀ m, w.plainOctets m = Octets.foldCase m.wire := fun m => if_pos hlower
    rw [hplain, ← Name.wire_lower] at h
    have hspelled := spelled_of_holds_wire h
    rw [Name.wireLength_lower] at hspelled
    refine ⟨n.lower, hspelled, .lower n, ?_⟩
    rw [hplain, hplain, Name.wire_lower, Octets.foldCase_foldCase]
  · have hplain : w.plainOctets n = n.wire := if_neg hlower
    rw [hplain] at h
    exact ⟨n, spelled_of_holds_wire h, .refl _, rfl⟩

/-- The octets of a name spell it, up to case, wherever they stand at the end of the message
and the names that the writer remembers stay spelled. The name as it is spelled there would
have been written in the same way: the labels in front are its own, and what is found for the
others does not depend on case. -/
theorem respells_of_nameOctets {w : Writer} {v v' : View} {n : Name} {compress : Bool}
    (hrem : w.Remembers v) (hle : Le v v')
    (h : Holds v' w.content.size (w.nameOctets n compress)) :
    ∃ m : Name, Spelled v' w.content.size m.labels
        (w.content.size + (w.nameOctets n compress).length) ∧ m.same n = true ∧
      w.pushName m compress = w.pushName n compress := by
  cases hfound : w.found n compress with
  | none =>
      have hplain := nameOctets_of_not_found hfound
      rw [hplain, length_plainOctets]
      rw [hplain] at h
      obtain ⟨m, hm, hlabels, hoctets⟩ := spells_of_plainOctets h
      refine ⟨m, hm, hlabels.same, pushName_congr hlabels ?_⟩
      rw [nameOctets_of_not_found ((found_congr hlabels w compress).trans hfound), hoctets, hplain]
  | some s =>
      obtain ⟨-, front, back, ls, stop, hlabels, -, hlen, hls, hsame, hlimit⟩ :=
        found_eq_some hrem hfound
      have heq := nameOctets_of_found hfound hlabels hlen
      rw [heq] at h
      obtain ⟨hi, lo, hpointer, points⟩ := pointer_eq hlimit
      have hback : s.offset < w.content.size := by
        obtain ⟨o, ho⟩ := hls.exists_octet
        exact Octets.lt_size_of_view (hrem.1 _ _ ho)
      have hspelled : Spelled v' w.content.size (front ++ ls)
          (w.content.size + (front.flatMap Label.wire ++ pointer s.offset).length) := by
        rw [hpointer] at h ⊢
        obtain ⟨hfront, high, low, -⟩ := holds_append.mp h
        rw [List.length_append, ← Nat.add_assoc]
        exact Spelled.append hfront (.pointer high low points (by omega) (hls.mono hle))
      have hall : SameLabels (front ++ ls) n.labels := by
        rw [hlabels]
        exact (SameLabels.refl front).append hsame
      obtain ⟨m, hm⟩ := hall.exists_name
      rw [← hm] at hspelled hall
      refine ⟨m, heq ▸ hspelled, hall.same, pushName_congr hall ?_⟩
      rw [heq]
      exact nameOctets_of_found ((found_congr hall w compress).trans hfound) hm
        (hlen.trans hsame.wireLengthAll_eq.symm)

theorem spells_of_nameOctets {w : Writer} {v v' : View} {n : Name} {compress : Bool}
    (hrem : w.Remembers v) (hle : Le v v')
    (h : Holds v' w.content.size (w.nameOctets n compress)) :
    ∃ m : Name, Spelled v' w.content.size m.labels
        (w.content.size + (w.nameOctets n compress).length) ∧ m.same n = true := by
  obtain ⟨m, hm, hsame, -⟩ := respells_of_nameOctets hrem hle h
  exact ⟨m, hm, hsame⟩

/-- **Compression is sound when a name is written.** Whatever led to the state of the writer,
the octets that writing a name appends read back, from the old end of the message to its new
end, as that name up to case. They are no more than the octets of the name; they end in a
pointer only if it leads to before them and below the reach of pointers; and where nothing
allows compression they are the name itself, in lower case in that mode. -/
theorem pushName_sound (w : Writer) (n : Name) (compress : Bool) :
    ∃ added : List UInt8, (w.pushName n compress).content = w.content ++ added ∧
      (∃ m : Name, Name.read (w.pushName n compress).content w.content.size =
          .ok (m, (w.pushName n compress).content.size) ∧ m.same n = true) ∧
      added.length ≤ n.wireLength ∧
      (added = (if w.lowercase then Octets.foldCase n.wire else n.wire) ∨
        ∃ front back target, n.labels = front ++ back ∧
          added = front.flatMap Label.wire ++ pointer target ∧
          target < w.content.size ∧ target < 16384) ∧
      (compress = false ∨ w.recordCompress = false ∨ w.canonic = true ∨ w.lowercase = true →
        added = if w.lowercase then Octets.foldCase n.wire else n.wire) := by
  obtain ⟨new, hpush, -⟩ := pushName_eq w n compress
  refine ⟨w.nameOctets n compress, by rw [hpush], ?_, length_nameOctets_le w n compress, ?_, ?_⟩
  · obtain ⟨m, hm, hsame⟩ := spells_of_nameOctets w.remembers_view
      (Octets.view_le_append w.content _) (Octets.holds_view_append w.content _)
    refine ⟨m, Name.read_eq_ok_iff.mpr ?_, hsame⟩
    rw [hpush]
    simpa using hm
  · rcases nameOctets_cases n compress w.remembers_view with
      ⟨-, heq⟩ | ⟨-, front, back, target, ls, stop, hlabels, -, heq, hlimit, hls, -⟩
    · exact .inl heq
    · obtain ⟨o, ho⟩ := hls.exists_octet
      exact .inr ⟨front, back, target, hlabels, heq, Octets.lt_size_of_view ho, hlimit⟩
  · intro hoff
    have hmay : w.mayCompress compress = false := by
      unfold mayCompress
      rcases hoff with h | h | h | h <;> simp [h]
    rcases nameOctets_cases n compress w.remembers_view with ⟨-, heq⟩ | ⟨hcompress, -⟩
    · exact heq
    · rw [hmay] at hcompress
      cases hcompress

end Writer

end Querier
