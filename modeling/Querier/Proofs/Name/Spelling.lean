import Querier.Name.Wire
import Querier.Proofs.View
import Mathlib.Data.List.Forall2

/-!
# How names are spelled in a message

`Spelled v pos ls stop` says that the view `v` spells the labels `ls` from
`pos` on: label after label, each behind its length, going on at an earlier
place wherever a pointer stands, up to a root label. The spelling at `pos`
itself ends before `stop`, which is behind the first pointer or, without one,
behind the root label. The relation is the grammar of names alone; it knows
nothing of the order in which a reader checks things.

## Main results

* `read_eq_ok_iff`: reading a name succeeds exactly where the labels of a name
  are spelled, and gives that name.
* `readFrom_of_spelled_long`: what is spelled but too long is refused as too long.
* `Spelled.mono`: a name stays where it is as long as the octets stay that
  spell it.
* `Spelled.append`, `spelled_of_holds_wire`: labels stand before what goes on behind them,
  so the wire form of a name spells it.
* `SameLabels.exists_name`, `SameLabels.same`: labels that equal those of a name up to
  case, label by label, make a name that is the same.
-/

namespace Querier

open View

/-- The octets of a pointer to an offset: the offset in 14 bits below two set
bits. -/
def PointsTo (hi lo : UInt8) (target : Nat) : Prop :=
  192 ≤ hi.toNat ∧ target = (hi.toNat - 192) * 256 + lo.toNat

/-- The labels `ls` are spelled in the view from `pos` on, with the octets at
`pos` ending before `stop`. -/
inductive Spelled (v : View) : Nat → List Label → Nat → Prop where
  /-- A zero octet ends the name. -/
  | root {pos : Nat} (zero : v pos = some 0) : Spelled v pos [] (pos + 1)
  /-- A label stands behind its length. -/
  | label {pos stop : Nat} {l : Label} {ls : List Label} (wire : Holds v pos l.wire)
      (rest : Spelled v (pos + l.wireLength) ls stop) : Spelled v pos (l :: ls) stop
  /-- A pointer leads to an offset before its own. -/
  | pointer {pos target stop : Nat} {hi lo : UInt8} {ls : List Label}
      (high : v pos = some hi) (low : v (pos + 1) = some lo) (points : PointsTo hi lo target)
      (back : target < pos) (rest : Spelled v target ls stop) : Spelled v pos ls (pos + 2)

namespace Spelled

variable {v v' : View} {pos stop stop' : Nat} {ls ls' : List Label}

theorem mono (h : Spelled v pos ls stop) (hle : Le v v') : Spelled v' pos ls stop := by
  induction h with
  | root zero => exact .root (hle _ _ zero)
  | label wire _ ih => exact .label (wire.mono hle) ih
  | pointer high low points back _ ih =>
      exact .pointer (hle _ _ high) (hle _ _ low) points back ih

theorem lt_stop (h : Spelled v pos ls stop) : pos < stop := by
  induction h with
  | root => omega
  | label _ _ ih => omega
  | pointer => omega

/-- The place where a name begins is shown by the view. -/
theorem exists_octet (h : Spelled v pos ls stop) : ∃ o, v pos = some o := by
  cases h with
  | root zero => exact ⟨_, zero⟩
  | label wire => exact ⟨_, wire.1⟩
  | pointer high => exact ⟨_, high⟩

end Spelled

theorem Label.toNat_ofNat_length (l : Label) :
    (UInt8.ofNat l.octets.length).toNat = l.octets.length := by
  have := l.length_le
  rw [UInt8.toNat_ofNat']
  omega

/-- A name that is spelled in a buffer ends inside of it. -/
theorem Spelled.stop_le_size {b : Octets} {pos stop : Nat} {ls : List Label}
    (h : Spelled b.view pos ls stop) : stop ≤ b.size := by
  induction h with
  | root zero => exact Octets.lt_size_of_view zero
  | label _ _ ih => exact ih
  | pointer _ low => exact Octets.lt_size_of_view low

/-- A name that is spelled in a buffer begins inside of it. -/
theorem Spelled.start_le_size {b : Octets} {pos stop : Nat} {ls : List Label}
    (h : Spelled b.view pos ls stop) : pos ≤ b.size :=
  Nat.le_trans (Nat.le_of_lt h.lt_stop) h.stop_le_size

/-- A label that is cut out of a buffer behind its length stands there. -/
theorem Label.holds_wire_of_extract {b : Octets} {pos len : Nat} {l : Label}
    (hlen : b.view pos = some (UInt8.ofNat len)) (hl : l.octets.length = len)
    (hoctets : l.octets = (b.extract (pos + 1) (pos + 1 + len)).toList) :
    Holds b.view pos l.wire := by
  refine ⟨by rw [hl]; exact hlen, ?_⟩
  rw [hoctets]
  exact Octets.holds_view_extract b (pos + 1) (pos + 1 + len)

/-- Labels of one length that stand at one offset are equal. -/
theorem Label.eq_of_holds {v : View} {pos : Nat} {l l' : Label} (h : Holds v pos l.wire)
    (h' : Holds v pos l'.wire) (hlength : l.wireLength = l'.wireLength) : l = l' := by
  have hwire : l.wire = l'.wire := h.unique h' hlength
  obtain ⟨-, hoctets⟩ := List.cons.inj hwire
  cases l
  cases l'
  cases hoctets
  rfl

/-! ## Reading label types -/

namespace LabelType
variable {b : Octets} {pos : Nat}

theorem read_of_root (zero : b.view pos = some 0) :
    LabelType.read b pos = .ok (.root, pos + 1) := by
  rw [LabelType.read, show b[pos]? = some 0 from zero]
  rfl

theorem read_of_label {l : Label} (h : Holds b.view pos l.wire) :
    ∃ lenPos le, LabelType.read b pos
      = .ok (.normal l.octets.length lenPos le, pos + 1) := by
  have hpos := l.length_pos
  have hle := l.length_le
  have hget : b[pos]? = some (UInt8.ofNat l.octets.length) := h.1
  refine ⟨hpos, hle, ?_⟩
  rw [LabelType.read, hget]
  simp only [l.toNat_ofNat_length]
  rw [dif_neg (by omega), dif_pos hle]

theorem read_of_pointer {hi lo : UInt8} {target : Nat} (high : b.view pos = some hi)
    (low : b.view (pos + 1) = some lo) (points : PointsTo hi lo target) :
    LabelType.read b pos = .ok (.pointer target, pos + 2) := by
  obtain ⟨hhi, rfl⟩ := points
  have hget : b[pos]? = some hi := high
  have hget' : b[pos + 1]? = some lo := low
  rw [LabelType.read, hget]
  simp only
  rw [dif_neg (by omega), dif_neg (by omega), if_neg (by omega), hget']

theorem view_of_read_root {next : Nat} (h : LabelType.read b pos = .ok (.root, next)) :
    b.view pos = some 0 ∧ next = pos + 1 := by
  unfold LabelType.read at h
  split at h
  · cases h
  · rename_i o ho
    simp only at h
    split at h
    · rename_i zero
      cases h
      have hzero : o = 0 := UInt8.toNat_inj.mp zero
      exact ⟨by rw [Octets.view, ho, hzero], rfl⟩
    · repeat' split at h
      all_goals cases h

theorem view_of_read_normal {len next : Nat} {lenPos : 0 < len} {le : len ≤ 63}
    (h : LabelType.read b pos = .ok (.normal len lenPos le, next)) :
    b.view pos = some (UInt8.ofNat len) ∧ next = pos + 1 := by
  unfold LabelType.read at h
  split at h
  · cases h
  · rename_i o ho
    simp only at h
    split at h
    · cases h
    · split at h
      · cases h
        exact ⟨by rw [Octets.view, ho, UInt8.ofNat_toNat], rfl⟩
      · repeat' split at h
        all_goals cases h

theorem view_of_read_pointer {target next : Nat}
    (h : LabelType.read b pos = .ok (.pointer target, next)) :
    ∃ hi lo, b.view pos = some hi ∧ b.view (pos + 1) = some lo ∧ PointsTo hi lo target
      ∧ next = pos + 2 := by
  unfold LabelType.read at h
  split at h
  · cases h
  · rename_i o ho
    simp only at h
    split at h
    · cases h
    · split at h
      · cases h
      · split at h
        · cases h
        · rename_i hhigh
          split at h
          · cases h
          · rename_i low hlow
            cases h
            exact ⟨o, low, ho, hlow, ⟨by omega, rfl⟩, rfl⟩

end LabelType

/-! ## Reading names -/

namespace Name
variable {b : Octets} {pos stop : Nat} {n m : Name}

theorem readFrom_root (zero : b.view pos = some 0) : readFrom b n pos = .ok (n, pos + 1) := by
  rw [readFrom, LabelType.read_of_root zero]

theorem wireLengthAll_pos (ls : List Label) : 1 ≤ Label.wireLengthAll ls := by
  induction ls with
  | nil => exact Nat.le_refl 1
  | cons l ls ih =>
      rw [Label.wireLengthAll]
      omega

/-- A label that a longer name has next fits. -/
theorem fits_of_labels {l : Label} {rest : List Label} (h : m.labels = n.labels ++ l :: rest) :
    n.Fits l.octets.length := by
  have hle := m.wireLength_le
  have happ := wireLengthAll_append n.labels (l :: rest)
  have hrest := wireLengthAll_pos rest
  simp only [h, Label.wireLengthAll, Label.wireLength, Fits, wireLength] at *
  omega

theorem eq_of_labels (h : m.labels = n.labels) : m = n := by
  cases m
  cases n
  cases h
  rfl

theorem push_congr {l l' : Label} (h : l.octets = l'.octets) (fits : n.Fits l.octets.length)
    (fits' : n.Fits l'.octets.length) : n.push l fits = n.push l' fits' := by
  cases l
  cases l'
  cases h
  rfl

theorem readFrom_label {l : Label} (wire : Holds b.view pos l.wire)
    (enough : pos + l.wireLength ≤ b.size) (fits : n.Fits l.octets.length) :
    readFrom b n pos = readFrom b (n.push l fits) (pos + l.wireLength) := by
  obtain ⟨lenPos, le, hread⟩ := LabelType.read_of_label wire
  have hnext : pos + 1 + l.octets.length = pos + l.wireLength := by
    rw [Label.wireLength]
    omega
  have hext : (b.extract (pos + 1) (pos + 1 + l.octets.length)).toList = l.octets := by
    rw [Octets.extract_of_holds_view wire.2 (by omega)]
  rw [readFrom, hread]
  simp only
  rw [dif_pos fits, dif_pos (by omega)]
  congr 1
  exact push_congr hext _ _

theorem readFrom_pointer {hi lo : UInt8} {target : Nat} (high : b.view pos = some hi)
    (low : b.view (pos + 1) = some lo) (points : PointsTo hi lo target) (back : target < pos) :
    readFrom b n pos = (readFrom b n target).map fun (name, _) => (name, pos + 2) := by
  rw [readFrom, LabelType.read_of_pointer high low points]
  simp only
  rw [if_pos back]

theorem readFrom_of_spelled {ls : List Label} (h : Spelled b.view pos ls stop) (n m : Name)
    (hm : m.labels = n.labels ++ ls) : readFrom b n pos = .ok (m, stop) := by
  induction h generalizing n with
  | root zero =>
      rw [List.append_nil] at hm
      rw [readFrom_root zero, eq_of_labels hm]
  | @label pos stop l ls wire rest ih =>
      have fits := fits_of_labels hm
      rw [readFrom_label wire rest.start_le_size fits]
      apply ih
      rw [hm, push, List.append_assoc, List.singleton_append]
  | pointer high low points back _ ih =>
      rw [readFrom_pointer high low points back, ih n hm]
      rfl

/-- Labels that are spelled but do not all fit below a name are refused as too long. -/
theorem readFrom_of_spelled_long {ls : List Label} (h : Spelled b.view pos ls stop) (n : Name)
    (long : 255 < Label.wireLengthAll (n.labels ++ ls)) :
    readFrom b n pos = .error .longName := by
  induction h generalizing n with
  | root =>
      rw [List.append_nil] at long
      exact absurd n.wireLength_le (Nat.not_le_of_lt long)
  | @label pos stop l ls wire rest ih =>
      by_cases fits : n.Fits l.octets.length
      · rw [readFrom_label wire rest.start_le_size fits]
        apply ih
        rw [push, List.append_assoc, List.singleton_append]
        exact long
      -- The length is looked at before the octets of the label are.
      · obtain ⟨lenPos, le, hread⟩ := LabelType.read_of_label wire
        rw [readFrom, hread]
        simp only
        rw [dif_neg fits]
  | pointer high low points back _ ih =>
      rw [readFrom_pointer high low points back, ih n long]
      rfl

theorem spelled_of_readFrom (h : readFrom b n pos = .ok (m, stop)) :
    ∃ ls, Spelled b.view pos ls stop ∧ m.labels = n.labels ++ ls := by
  fun_induction readFrom b n pos generalizing m stop with
  | case1 => cases h
  | case2 n pos next hread =>
      cases h
      obtain ⟨zero, rfl⟩ := LabelType.view_of_read_root hread
      exact ⟨[], .root zero, (List.append_nil _).symm⟩
  | case3 n pos len lenPos le next hread fits enough same ih =>
      obtain ⟨hlen, rfl⟩ := LabelType.view_of_read_normal hread
      obtain ⟨ls, hls, hm⟩ := ih h
      let l : Label :=
        ⟨(b.extract (pos + 1) (pos + 1 + len)).toList, by omega, by omega⟩
      have hl : l.octets.length = len := same
      have wire : Holds b.view pos l.wire := Label.holds_wire_of_extract hlen hl rfl
      have hnext : pos + 1 + len = pos + l.wireLength := by
        rw [Label.wireLength]
        omega
      rw [hnext] at hls
      refine ⟨l :: ls, .label wire hls, ?_⟩
      rw [hm, push, List.append_assoc, List.singleton_append]
  | case4 => cases h
  | case5 => cases h
  | case6 n pos target next hread back ih =>
      obtain ⟨hi, lo, high, low, points, rfl⟩ := LabelType.view_of_read_pointer hread
      cases htarget : readFrom b n target with
      | error e =>
          rw [htarget] at h
          cases h
      | ok read =>
          rw [htarget] at h
          cases h
          obtain ⟨ls, hls, hm⟩ := ih htarget
          exact ⟨ls, .pointer high low points back hls, hm⟩
  | case7 => cases h

/-- **Reading is the grammar.** A name is read at a place exactly if its labels are spelled
there. -/
theorem read_eq_ok_iff :
    Name.read b pos = .ok (n, stop) ↔ Spelled b.view pos n.labels stop := by
  constructor
  · intro h
    obtain ⟨ls, hls, hn⟩ := spelled_of_readFrom h
    rw [hn]
    exact hls
  · intro h
    exact readFrom_of_spelled h root n rfl

end Name

/-- A name takes no more octets than it has when it is written out, but that a pointer may
lead to the root. -/
theorem Spelled.stop_le {v : View} {pos stop : Nat} {ls : List Label}
    (h : Spelled v pos ls stop) : stop ≤ pos + Label.wireLengthAll ls + 1 := by
  induction h with
  | root => omega
  | label _ _ ih =>
      rw [Label.wireLengthAll]
      omega
  | @pointer _ _ _ _ _ ls =>
      have := Name.wireLengthAll_pos ls
      omega

/-! ## Octets that spell a name -/

theorem Name.wire_eq_append {n : Name} {front back : List Label} (h : n.labels = front ++ back) :
    n.wire = front.flatMap Label.wire ++ (back.flatMap Label.wire ++ [0]) := by
  rw [wire, h, List.flatMap_append, List.append_assoc]

theorem Label.length_flatMap_wire (ls : List Label) :
    (ls.flatMap Label.wire).length + 1 = wireLengthAll ls := by
  induction ls with
  | nil => rfl
  | cons l ls ih =>
      rw [List.flatMap_cons, List.length_append, length_wire, wireLengthAll, ← ih, Nat.add_assoc]

/-- Labels stand before what goes on behind them. -/
theorem Spelled.append {v : View} {pos stop : Nat} {front ls : List Label}
    (hfront : Holds v pos (front.flatMap Label.wire))
    (h : Spelled v (pos + (front.flatMap Label.wire).length) ls stop) :
    Spelled v pos (front ++ ls) stop := by
  induction front generalizing pos with
  | nil => exact h
  | cons l front ih =>
      rw [List.flatMap_cons, holds_append, Label.length_wire] at hfront
      rw [List.flatMap_cons, List.length_append, Label.length_wire, ← Nat.add_assoc] at h
      exact .label hfront.1 (ih hfront.2 h)

/-- The wire form of a name spells it. -/
theorem spelled_of_holds_wire {v : View} {pos : Nat} {n : Name} (h : Holds v pos n.wire) :
    Spelled v pos n.labels (pos + n.wireLength) := by
  rw [Name.wire, holds_append] at h
  have hroot := Spelled.root h.2.1
  have hlen : pos + (n.labels.flatMap Label.wire).length + 1 = pos + n.wireLength := by
    rw [Name.wireLength, ← Label.length_flatMap_wire, Nat.add_assoc]
  rw [hlen] at hroot
  have hspelled := Spelled.append h.1 hroot
  rw [List.append_nil] at hspelled
  exact hspelled

/-! ## Names up to case -/

/-- Two lists of labels are equal up to case, label by label. -/
def SameLabels : List Label → List Label → Prop :=
  List.Forall₂ fun a b => a.same b = true

theorem Label.length_eq_of_same {a b : Label} (h : a.same b = true) :
    a.octets.length = b.octets.length := by
  have hfold : Octets.foldCase a.octets = Octets.foldCase b.octets := eq_of_beq h
  simpa using congrArg List.length hfold

theorem Label.foldCase_wire_of_same {a b : Label} (h : a.same b = true) :
    Octets.foldCase a.wire = Octets.foldCase b.wire := by
  have hfold : Octets.foldCase a.octets = Octets.foldCase b.octets := eq_of_beq h
  simp only [Octets.foldCase] at hfold
  simp only [Label.wire, Octets.foldCase, List.map_cons, hfold, Label.length_eq_of_same h]

namespace SameLabels

variable {ls ls' : List Label}

theorem refl (ls : List Label) : SameLabels ls ls :=
  List.forall₂_same.mpr fun _ _ => beq_self_eq_true _

theorem append {ks ks' : List Label} (h : SameLabels ls ls') (h' : SameLabels ks ks') :
    SameLabels (ls ++ ks) (ls' ++ ks') :=
  List.rel_append h h'

theorem wireLengthAll_eq (h : SameLabels ls ls') :
    Label.wireLengthAll ls = Label.wireLengthAll ls' := by
  induction h with
  | nil => rfl
  | cons hab _ ih =>
      rw [Label.wireLengthAll, Label.wireLengthAll, Label.wireLength, Label.wireLength,
        Label.length_eq_of_same hab, ih]

theorem foldCase_flatMap_wire (h : SameLabels ls ls') :
    Octets.foldCase (ls.flatMap Label.wire) = Octets.foldCase (ls'.flatMap Label.wire) := by
  induction h with
  | nil => rfl
  | cons hab _ ih =>
      have hwire := Label.foldCase_wire_of_same hab
      simp only [Octets.foldCase] at hwire ih ⊢
      rw [List.flatMap_cons, List.flatMap_cons, List.map_append, List.map_append, hwire, ih]

/-- Names with labels that are equal up to case are the same. -/
theorem same {n m : Name} (h : SameLabels n.labels m.labels) : n.same m = true := by
  have hfold := h.foldCase_flatMap_wire
  simp only [Octets.foldCase] at hfold
  simp only [Name.same, Octets.sameFolded, Octets.foldCase, Name.wire, List.map_append, hfold,
    beq_self_eq_true]

/-- Labels that are equal up to case to those of a name make a name. -/
theorem exists_name {n : Name} (h : SameLabels ls n.labels) : ∃ m : Name, m.labels = ls := by
  have hle : Label.wireLengthAll ls ≤ 255 := by
    rw [h.wireLengthAll_eq]
    exact n.wireLength_le
  exact ⟨⟨ls, hle⟩, rfl⟩

theorem lower (n : Name) : SameLabels n.lower.labels n.labels := by
  refine List.forall₂_map_left_iff.mpr (List.forall₂_same.mpr fun l _ => ?_)
  exact beq_of_eq (Octets.foldCase_foldCase l.octets)

end SameLabels

namespace Name

theorem same_refl (n : Name) : n.same n = true := beq_self_eq_true _

theorem same_trans {a b c : Name} (h : a.same b = true) (h' : b.same c = true) :
    a.same c = true := by
  have hab : Octets.foldCase a.wire = Octets.foldCase b.wire := eq_of_beq h
  have hbc : Octets.foldCase b.wire = Octets.foldCase c.wire := eq_of_beq h'
  exact beq_of_eq (hab.trans hbc)

theorem same_symm {a b : Name} (h : a.same b = true) : b.same a = true := by
  have hab : Octets.foldCase a.wire = Octets.foldCase b.wire := eq_of_beq h
  exact beq_of_eq hab.symm

theorem same_congr {a b : Name} (h : a.same b = true) (c : Name) : a.same c = b.same c := by
  have hab : Octets.foldCase a.wire = Octets.foldCase b.wire := eq_of_beq h
  unfold same Octets.sameFolded
  rw [hab]

/-- A name is the root if it takes one octet. -/
theorem isRoot_eq (n : Name) : n.isRoot = (n.wireLength == 1) := by
  unfold isRoot wireLength
  cases n.labels with
  | nil => rfl
  | cons l ls =>
      have hl := l.length_pos
      have hls := wireLengthAll_pos ls
      have hlong : Label.wireLengthAll (l :: ls) ≠ 1 := by
        rw [Label.wireLengthAll, Label.wireLength]
        omega
      exact (beq_eq_false_iff_ne.mpr hlong).symm

theorem isRoot_congr {a b : Name} (h : a.same b = true) : a.isRoot = b.isRoot := by
  have hab : Octets.foldCase a.wire = Octets.foldCase b.wire := eq_of_beq h
  have hlength : a.wireLength = b.wireLength := by
    rw [← length_wire, ← length_wire, ← Octets.length_foldCase, hab, Octets.length_foldCase]
  rw [isRoot_eq, isRoot_eq, hlength]

/-- One name is spelled at one place of a buffer. -/
theorem eq_of_spelled {b : Octets} {n m : Name} {pos stop stop' : Nat}
    (hn : Spelled b.view pos n.labels stop) (hm : Spelled b.view pos m.labels stop') : n = m := by
  have hread := (read_eq_ok_iff.mpr hn).symm.trans (read_eq_ok_iff.mpr hm)
  cases hread
  rfl

end Name

end Querier
