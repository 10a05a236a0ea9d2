import Querier.Proofs.Name.Spelling

/-!
# The wire form of names

`IsWireName` says of octets what the wire form of a name is, with nothing about names in it:
labels of one to 63 octets, each behind its length, then a zero octet, and no more than 255 octets
in all. The type of names says the same of labels. Here the two are put together, so that the
ways to make a name and the ways to take it apart can be compared: what makes a name gives all of
these octets and no others.

The makers of names count in different ways. Reading octets and reading labels both put one label
after the other at the end of a name as long as `Fits` allows it, so for both the question is which
labels are still to come, `labels_of_readWire` and `foldlM_pushOctets`. A walk over the labels
knows only octets and a position. It is tied to the labels by what stands before the position
and what behind it.

## Main results

* `isWireName_iff`: the wire forms of names.
* `ofWire?_eq_ok_iff`, `ofLabels?_eq_ok_iff`: which octets and which labels make which name.
* `next_cursor`: a walk shows the labels one after the other, and then no more.
* `wellFormed`: all of this, for each of the ways to make a name.
-/

namespace Querier

/-- Labels one after the other, each behind its length, and the root label. -/
def wireOf (ls : List (List UInt8)) : List UInt8 :=
  ls.flatMap (fun l => UInt8.ofNat l.length :: l) ++ [0]

/-- Labels that a name can have. -/
structure WireLabels (ls : List (List UInt8)) : Prop where
  sized : ∀ l ∈ ls, 1 ≤ l.length ∧ l.length ≤ 63
  fits : (wireOf ls).length ≤ 255

/-- Octets that are the wire form of a name. -/
def IsWireName (os : List UInt8) : Prop := ∃ ls, WireLabels ls ∧ os = wireOf ls

instance (ls : List (List UInt8)) : Decidable (WireLabels ls) :=
  decidable_of_iff ((∀ l ∈ ls, 1 ≤ l.length ∧ l.length ≤ 63) ∧ (wireOf ls).length ≤ 255)
    ⟨fun h => ⟨h.1, h.2⟩, fun h => ⟨h.sized, h.fits⟩⟩

theorem Label.octets_injective : Function.Injective Label.octets := by
  rintro ⟨os, _, _⟩ ⟨os', _, _⟩ h
  cases h
  rfl

namespace Name

variable {n m : Name} {os : List UInt8} {ls : List (List UInt8)}

/-- The octets of the labels of a name. -/
def labelOctets (n : Name) : List (List UInt8) := n.labels.map Label.octets

theorem wireOf_labelOctets (n : Name) : wireOf n.labelOctets = n.wire := by
  rw [wireOf, labelOctets, List.flatMap_map]
  rfl

theorem wireLabels_labelOctets (n : Name) : WireLabels n.labelOctets where
  sized l hl := by
    obtain ⟨k, -, rfl⟩ := List.mem_map.mp hl
    exact ⟨k.length_pos, k.length_le⟩
  fits := by
    rw [wireOf_labelOctets, length_wire]
    exact n.wireLength_le

theorem exists_labelOctets (h : WireLabels ls) : ∃ n : Name, n.labelOctets = ls := by
  let ks : List Label := ls.pmap (fun l sized => ⟨l, sized.1, sized.2⟩) h.sized
  have hks : ks.map Label.octets = ls := by
    rw [List.map_pmap, List.pmap_eq_map, List.map_id']
  have hle : Label.wireLengthAll ks ≤ 255 := by
    have hwire : ks.flatMap Label.wire = ls.flatMap fun l => UInt8.ofNat l.length :: l := by
      rw [← hks, List.flatMap_map]
      rfl
    have := h.fits
    rwa [wireOf, ← hwire, List.length_append, List.length_singleton,
      Label.length_flatMap_wire] at this
  exact ⟨⟨ks, hle⟩, hks⟩

/-- Octets are a wire form exactly if they are that of a name. -/
theorem isWireName_iff : IsWireName os ↔ ∃ n : Name, n.wire = os := by
  constructor
  · rintro ⟨ls, h, rfl⟩
    obtain ⟨n, rfl⟩ := exists_labelOctets h
    exact ⟨n, (wireOf_labelOctets n).symm⟩
  · rintro ⟨n, rfl⟩
    exact ⟨n.labelOctets, wireLabels_labelOctets n, (wireOf_labelOctets n).symm⟩

/-! ## Names from octets -/

theorem readWire_label {l : Label} {rest : List UInt8} (fits : n.Fits l.octets.length) :
    readWire n (l.wire ++ rest) = readWire (n.push l fits) rest := by
  have hpos := l.length_pos
  have enough : l.octets.length ≤ (l.octets ++ rest).length := by
    rw [List.length_append]
    exact Nat.le_add_right ..
  rw [Label.wire, List.cons_append, readWire]
  simp only [l.toNat_ofNat_length]
  rw [dif_neg (by omega), dif_pos l.length_le, dif_pos fits, dif_pos enough, List.drop_left]
  congr 1
  unfold pushTake
  apply push_congr
  exact List.take_left ..

theorem readWire_of_labels {rest : List Label} (h : m.labels = n.labels ++ rest) :
    readWire n (rest.flatMap Label.wire ++ [0]) = .ok m := by
  induction rest generalizing n with
  | nil =>
      rw [List.append_nil] at h
      rw [eq_of_labels h, List.flatMap_nil, List.nil_append, readWire]
      rfl
  | cons l rest ih =>
      rw [List.flatMap_cons, List.append_assoc, readWire_label (fits_of_labels h)]
      apply ih
      rw [h, push, List.append_assoc, List.singleton_append]

theorem labels_of_readWire (h : readWire n os = .ok m) :
    ∃ rest : List Label, m.labels = n.labels ++ rest ∧ os = rest.flatMap Label.wire ++ [0] := by
  fun_induction readWire n os with
  | case2 n o rest len zero none =>
      cases h
      have hzero : o = 0 := UInt8.toNat_inj.mp zero
      exact ⟨[], (List.append_nil _).symm, by rw [hzero, List.isEmpty_iff.mp none]; rfl⟩
  | case4 n o rest len zero le fits enough ih =>
      obtain ⟨labels, hm, hrest⟩ := ih h
      have same : (rest.take len).length = len := List.length_take_of_le enough
      let l : Label := ⟨rest.take len, by omega, by omega⟩
      have hl : l.wire = o :: rest.take len := by
        rw [Label.wire, same, UInt8.ofNat_toNat]
      refine ⟨l :: labels, ?_, ?_⟩
      · rw [hm, pushTake, push, List.append_assoc, List.singleton_append]
      · rw [List.flatMap_cons, hl, List.append_assoc, ← hrest, List.cons_append,
          List.take_append_drop]
  | _ => cases h

/-- The octets that a name is made from are its wire form. -/
theorem ofWire?_eq_ok_iff : ofWire? os = .ok n ↔ n.wire = os := by
  constructor
  · intro h
    obtain ⟨rest, hn, rfl⟩ := labels_of_readWire h
    rw [wire, hn]
    rfl
  · rintro rfl
    exact readWire_of_labels rfl

/-! ## Names from labels -/

theorem labelOctets_pushOctets (h : n.pushOctets os = .ok m) :
    m.labelOctets = n.labelOctets ++ [os] := by
  unfold pushOctets at h
  repeat' split at h
  all_goals cases h
  rw [labelOctets, push, List.map_append]
  rfl

theorem pushOctets_octets {l : Label} (fits : n.Fits l.octets.length) :
    n.pushOctets l.octets = .ok (n.push l fits) := by
  rw [pushOctets, dif_neg (Nat.pos_iff_ne_zero.mp l.length_pos),
    dif_neg (Nat.not_lt.mpr l.length_le), dif_pos fits]

theorem foldlM_pushOctets :
    ls.foldlM pushOctets n = .ok m ↔ m.labelOctets = n.labelOctets ++ ls := by
  constructor
  · intro h
    induction ls generalizing n with
    | nil =>
        cases h
        rw [List.append_nil]
    | cons os ls ih =>
        rw [List.foldlM_cons] at h
        cases hpush : n.pushOctets os with
        | error e =>
            rw [hpush] at h
            cases h
        | ok n' =>
            rw [hpush] at h
            rw [ih h, labelOctets_pushOctets hpush, List.append_assoc, List.singleton_append]
  · intro h
    obtain ⟨front, rest, hm, hfront, rfl⟩ := List.map_eq_append_iff.mp h
    obtain rfl : front = n.labels := Label.octets_injective.list_map hfront
    clear h hfront
    induction rest generalizing n with
    | nil =>
        rw [List.append_nil] at hm
        rw [eq_of_labels hm]
        rfl
    | cons l rest ih =>
        rw [List.map_cons, List.foldlM_cons, pushOctets_octets (fits_of_labels hm)]
        apply ih
        rw [hm, push, List.append_assoc, List.singleton_append]

/-- The labels that a name is made from are its labels. -/
theorem ofLabels?_eq_ok_iff : ofLabels? ls = .ok n ↔ n.labelOctets = ls := foldlM_pushOctets

/-! ## Walks over labels -/

end Name

/-- A place in octets, from which a walk over labels goes on. -/
structure Cursor where
  octets : List UInt8
  pos : Nat

namespace Cursor

/-- The label at the place, if there is one, and the place behind it. -/
def next (c : Cursor) : Option (List UInt8) × Cursor :=
  match c.octets[c.pos]? with
  | none => (none, c)
  | some o =>
    if o = 0 then (none, c)
    else
      let start := c.pos + 1
      let stop := start + o.toNat
      let label := (c.octets.drop start).take o.toNat
      (if stop ≤ c.octets.length then some label else none, { c with pos := stop })

/-- The place after a number of labels. -/
def after (c : Cursor) : Nat → Cursor
  | 0 => c
  | k + 1 => c.next.2.after k

/-- Where the wire form of a label stands, a walk shows it and is behind it. -/
theorem next_label {c : Cursor} {front back : List UInt8} {l : Label}
    (hoctets : c.octets = front ++ (l.wire ++ back)) (hpos : c.pos = front.length) :
    c.next = (some l.octets, { c with pos := (front ++ l.wire).length }) := by
  have hget : c.octets[c.pos]? = some (UInt8.ofNat l.octets.length) := by
    rw [hoctets, hpos, List.getElem?_append_right (Nat.le_refl _), Nat.sub_self]
    rfl
  have some : UInt8.ofNat l.octets.length ≠ 0 := by
    intro zero
    have := l.toNat_ofNat_length
    rw [zero] at this
    exact absurd this.symm (Nat.pos_iff_ne_zero.mp l.length_pos)
  have hlabel : (c.octets.drop (c.pos + 1)).take l.octets.length = l.octets := by
    rw [hoctets, hpos, Label.wire, List.cons_append, List.append_cons, List.drop_left',
      List.take_left]
    rw [List.length_append, List.length_singleton]
  have hstop : c.pos + 1 + l.octets.length = (front ++ l.wire).length := by
    rw [hpos, List.length_append, Label.length_wire, Label.wireLength]
    omega
  have fits : (front ++ l.wire).length ≤ c.octets.length := by
    rw [hoctets, ← List.append_assoc]
    exact (List.prefix_append ..).length_le
  simp only [next, hget, if_neg some, l.toNat_ofNat_length, hlabel, hstop, if_pos fits]

/-- At the root label a walk stays for good. -/
theorem after_root {c : Cursor} (h : c.octets[c.pos]? = some 0) (k : Nat) :
    c.after k = c ∧ c.next.1 = none := by
  have hnext : c.next = (none, c) := by
    simp only [next, h, if_true]
  refine ⟨?_, by rw [hnext]⟩
  induction k with
  | zero => rfl
  | succ k ih => rw [after, hnext, ih]

theorem next_after {c : Cursor} {front : List UInt8} {labels : List Label}
    (hoctets : c.octets = front ++ (labels.flatMap Label.wire ++ [0]))
    (hpos : c.pos = front.length) (k : Nat) :
    (c.after k).next.1 = (labels.map Label.octets)[k]? := by
  induction labels generalizing c front k with
  | nil =>
      have hroot : c.octets[c.pos]? = some 0 := by
        rw [hoctets, hpos, List.getElem?_append_right (Nat.le_refl _), Nat.sub_self]
        rfl
      obtain ⟨hafter, hnone⟩ := after_root hroot k
      rw [hafter, hnone]
      rfl
  | cons l labels ih =>
      rw [List.flatMap_cons, List.append_assoc] at hoctets
      have hnext := next_label hoctets hpos
      cases k with
      | zero =>
          rw [after, hnext]
          rfl
      | succ k =>
          have hoctets' : ({ c with pos := (front ++ l.wire).length } : Cursor).octets =
              front ++ l.wire ++ (labels.flatMap Label.wire ++ [0]) := by
            rw [hoctets, List.append_assoc]
          rw [after, hnext]
          exact ih hoctets' rfl k

end Cursor

namespace Name

/-- The place where a walk over the labels of a name begins. -/
def cursor (n : Name) : Cursor := ⟨n.wire, 0⟩

/-- A walk over a name shows each label once, in order, and then no more. -/
theorem next_cursor (n : Name) (k : Nat) : (n.cursor.after k).next.1 = n.labelOctets[k]? :=
  Cursor.next_after (List.nil_append _).symm rfl k

/-! ## All ways to make a name -/

/-- Whatever makes a name makes one with a wire form, and reading a message makes the one that is
spelled there. Octets make one exactly if they are a wire form, which the name keeps, and labels
exactly if a name can have them. A walk over a name shows its labels and ends, and the labels it
shows make the name again. -/
theorem wellFormed :
    (IsWireName root.wire ∧ (∀ os n, ofWire? os = .ok n → IsWireName n.wire) ∧
      (∀ ls n, ofLabels? ls = .ok n → IsWireName n.wire) ∧
      (∀ text n, ofText? text = .ok n → IsWireName n.wire) ∧
      (∀ b pos n stop, read b pos = .ok (n, stop) →
        IsWireName n.wire ∧ Spelled b.view pos n.labels stop) ∧
      ∀ n : Name, IsWireName n.lower.wire ∧ n.lower.wire = Octets.foldCase n.wire) ∧
    (∀ os, ((∃ n, ofWire? os = .ok n) ↔ IsWireName os) ∧ ∀ n, ofWire? os = .ok n → n.wire = os) ∧
    (∀ ls, ((∃ n, ofLabels? ls = .ok n) ↔ WireLabels ls) ∧
      ∀ n, ofLabels? ls = .ok n → n.wire = wireOf ls) ∧
    ∀ n : Name, ∃ visited, (∀ k, (n.cursor.after k).next.1 = visited[k]?) ∧
      ofLabels? visited = .ok n := by
  have holds (n : Name) : IsWireName n.wire := isWireName_iff.mpr ⟨n, rfl⟩
  refine ⟨?made, ?octets, ?labels, ?walked⟩
  case made =>
    exact ⟨holds root, fun _ n _ => holds n, fun _ n _ => holds n, fun _ n _ => holds n,
      fun _ _ n _ h => ⟨holds n, read_eq_ok_iff.mp h⟩, fun n => ⟨holds n.lower, wire_lower n⟩⟩
  case octets =>
    intro os
    refine ⟨?_, fun n h => ofWire?_eq_ok_iff.mp h⟩
    rw [isWireName_iff]
    exact exists_congr fun n => ofWire?_eq_ok_iff
  case labels =>
    intro ls
    refine ⟨⟨?_, fun h => ?_⟩, fun n h => ?_⟩
    · rintro ⟨n, h⟩
      rw [← ofLabels?_eq_ok_iff.mp h]
      exact wireLabels_labelOctets n
    · obtain ⟨n, hn⟩ := exists_labelOctets h
      exact ⟨n, ofLabels?_eq_ok_iff.mpr hn⟩
    · rw [← ofLabels?_eq_ok_iff.mp h, wireOf_labelOctets]
  case walked =>
    exact fun n => ⟨n.labelOctets, next_cursor n, ofLabels?_eq_ok_iff.mpr rfl⟩

/-- Three labels of 63 octets leave room for one of 61, with which the name is as long as a name
can be, and not for one of 62. -/
theorem wellFormed_longest :
    let labels (last : Nat) := [63, 63, 63, last].map fun len => List.replicate len (97 : UInt8)
    (∃ n, ofLabels? (labels 61) = .ok n) ∧ (∃ n, ofWire? (wireOf (labels 61)) = .ok n) ∧
      ¬ ∃ n, ofLabels? (labels 62) = .ok n := by
  intro labels
  have longest : WireLabels (labels 61) := by decide +kernel
  have tooLong : ¬ WireLabels (labels 62) := by decide +kernel
  exact ⟨(wellFormed.2.2.1 _).1.mpr longest, (wellFormed.2.1 _).1.mpr ⟨_, longest, rfl⟩,
    fun h => tooLong ((wellFormed.2.2.1 _).1.mp h)⟩

end Name

end Querier
