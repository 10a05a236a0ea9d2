import Querier.Proofs.Name.Spelling

/-!
# Names without regard to case

Names are compared by their wire forms, in which the octets with the lengths stand between those
of the labels, and the case of all octets is folded alike. That this compares the labels one by
one rests on two facts. No length is a letter, so folding leaves the lengths alone; and the first
length says where the first label ends, so two wire forms that are equal when folded are cut into
labels at the same places.

## Main results

* `sameLabels_of_foldCase`: folded wire forms tell where labels begin and end.
* `Name.same_iff_sameLabels`: names are equal up to case exactly if their labels are.
* `Name.same_iff_lower`: and exactly if they are spelled alike in lower case.
-/

namespace Querier

/-- Folding leaves the length of a label alone. -/
theorem Label.foldCase_wire (l : Label) :
    Octets.foldCase l.wire = UInt8.ofNat l.octets.length :: Octets.foldCase l.octets := by
  rw [Label.wire, Octets.foldCase, List.map_cons, Name.lowerOctet_length]
  rfl

/-- The octet with the length of a label is not that of the root. -/
theorem Label.ofNat_length_ne_zero (l : Label) : UInt8.ofNat l.octets.length ≠ 0 := by
  have pos := l.length_pos
  have length := Label.toNat_ofNat_length l
  intro zero
  rw [zero] at length
  exact Nat.ne_of_lt pos length

/-- The folded wire form of labels and the root behind them. -/
theorem foldCase_wire_cons (l : Label) (ls : List Label) :
    Octets.foldCase ((l :: ls).flatMap Label.wire ++ [0]) =
      UInt8.ofNat l.octets.length ::
        (Octets.foldCase l.octets ++ Octets.foldCase (ls.flatMap Label.wire ++ [0])) := by
  rw [List.flatMap_cons, List.append_assoc, Octets.foldCase, List.map_append]
  exact congrArg (· ++ _) l.foldCase_wire

/-- Labels are read off the folded wire form one after the other. -/
theorem sameLabels_of_foldCase {ls ls' : List Label}
    (h : Octets.foldCase (ls.flatMap Label.wire ++ [0]) =
      Octets.foldCase (ls'.flatMap Label.wire ++ [0])) : SameLabels ls ls' := by
  have root : Octets.foldCase (([] : List Label).flatMap Label.wire ++ [0]) = [0] := rfl
  induction ls generalizing ls' with
  | nil =>
      cases ls' with
      | nil => exact .nil
      | cons l' ls' =>
          rw [root, foldCase_wire_cons] at h
          exact absurd (List.cons.inj h).1.symm l'.ofNat_length_ne_zero
  | cons l ls ih =>
      cases ls' with
      | nil =>
          rw [root, foldCase_wire_cons] at h
          exact absurd (List.cons.inj h).1 l.ofNat_length_ne_zero
      | cons l' ls' =>
          rw [foldCase_wire_cons, foldCase_wire_cons] at h
          obtain ⟨hlength, hrest⟩ := List.cons.inj h
          have length : l.octets.length = l'.octets.length := by
            rw [← Label.toNat_ofNat_length l, hlength, Label.toNat_ofNat_length l']
          have cut : (Octets.foldCase l.octets).length = (Octets.foldCase l'.octets).length := by
            rw [Octets.length_foldCase, Octets.length_foldCase, length]
          obtain ⟨hlabel, hlabels⟩ := List.append_inj hrest cut
          exact .cons (beq_of_eq hlabel) (ih hlabels)

namespace Name

theorem same_iff_sameLabels {a b : Name} :
    a.same b = true ↔ SameLabels a.labels b.labels :=
  ⟨fun h => sameLabels_of_foldCase (eq_of_beq h), SameLabels.same⟩

theorem same_iff_lower {a b : Name} : a.same b = true ↔ a.lower.wire = b.lower.wire := by
  rw [wire_lower, wire_lower]
  exact beq_iff_eq

theorem same_equivalence : Equivalence fun a b : Name => a.same b = true :=
  ⟨same_refl, same_symm, same_trans⟩

end Name

end Querier
