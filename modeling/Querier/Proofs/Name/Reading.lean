import Mathlib.Logic.Relation
import Querier.Proofs.Name.Spelling

/-!
# How names are read

Reading a name is a walk through the message. A label is taken if it still fits into the name,
and a pointer is followed if it leads to before itself. That alone does not keep the walk from
coming to the same place twice, since labels lead forwards again. What ends it is that both
kinds of steps lower one number, `stepsLeft`: a label takes up some of the 255 octets of the
name, and from one label to the next pointers lead to ever lower offsets, of which 14 bits tell
16384 apart.

`Step` is one step of this walk, with the limits that the reader keeps to. `Leads` is what the
octets alone say, wherever it leads: the way of a name that loops.

## Main results

* `Step.stepsLeft_lt`, `Walk.length_le`: no walk is longer than `stepsLeft` says.
* `ends_readFrom`: the reader walks until no step is left, and what it gives can be seen there.
* `Spelled.inPlace`: a name ends behind its root label or behind its first pointer.
* `Spelled.not_cycle`: what is spelled leads into no cycle.
* `read_exact`: all of this about the reader, which accepts exactly the names that are spelled
  and not too long.
-/

namespace Querier

open View

/-! ## Where names end -/

/-- The octets of a name at its own place: all of its labels and the root label, or its first
labels and the pointer that leads to the others. They end before `stop`. -/
def InPlace (v : View) (pos : Nat) (ls : List Label) (stop : Nat) : Prop :=
  ∃ front last, Holds v pos (front.flatMap Label.wire) ∧
    last = pos + (front.flatMap Label.wire).length ∧
    ((ls = front ∧ v last = some 0 ∧ stop = last + 1) ∨
      ∃ back hi lo target, ls = front ++ back ∧ v last = some hi ∧ v (last + 1) = some lo ∧
        PointsTo hi lo target ∧ target < last ∧ (∃ end', Spelled v target back end') ∧
        stop = last + 2)

theorem Spelled.inPlace {v : View} {pos stop : Nat} {ls : List Label}
    (h : Spelled v pos ls stop) : InPlace v pos ls stop := by
  induction h with
  | @root pos zero => exact ⟨[], pos, trivial, rfl, .inl ⟨rfl, zero, rfl⟩⟩
  | @label pos stop l ls wire rest ih =>
      obtain ⟨front, last, hfront, hlast, hend⟩ := ih
      have hall : Holds v pos ((l :: front).flatMap Label.wire) := by
        rw [List.flatMap_cons, holds_append]
        exact ⟨wire, hfront⟩
      have hlast' : last = pos + ((l :: front).flatMap Label.wire).length := by
        rw [List.flatMap_cons, List.length_append, Label.length_wire]
        omega
      refine ⟨l :: front, last, hall, hlast', ?_⟩
      rcases hend with ⟨rfl, hzero, hstop⟩ | ⟨back, hi, lo, target, rfl, hpointer⟩
      · exact .inl ⟨rfl, hzero, hstop⟩
      · exact .inr ⟨back, hi, lo, target, rfl, hpointer⟩
  | @pointer pos target stop hi lo ls high low points back rest =>
      exact ⟨[], pos, trivial, rfl,
        .inr ⟨ls, hi, lo, target, rfl, high, low, points, back, ⟨stop, rest⟩, rfl⟩⟩

/-! ## Cycles -/

/-- The octets at an offset lead to another one: past a label, or wherever a pointer points. -/
inductive Leads (v : View) : Nat → Nat → Prop where
  | label {pos : Nat} {o : UInt8} (length : v pos = some o) (nonzero : 0 < o.toNat)
      (le : o.toNat ≤ 63) : Leads v pos (pos + (o.toNat + 1))
  | pointer {pos target : Nat} {hi lo : UInt8} (high : v pos = some hi)
      (low : v (pos + 1) = some lo) (points : PointsTo hi lo target) : Leads v pos target

namespace Leads

variable {v : View} {p q q' : Nat}

/-- There is only one way on. -/
theorem unique (h : Leads v p q) (h' : Leads v p q') : q = q' := by
  cases h with
  | label length _ le =>
      cases h' with
      | label length' =>
          cases length.symm.trans length'
          rfl
      | pointer high' _ points' =>
          cases length.symm.trans high'
          have := points'.1
          omega
  | pointer high low points =>
      cases h' with
      | label length' _ le' =>
          cases high.symm.trans length'
          have := points.1
          omega
      | pointer high' low' points' =>
          cases high.symm.trans high'
          cases low.symm.trans low'
          rw [points.2, points'.2]

/-- The root label leads nowhere. -/
theorem not_zero (h : Leads v p q) : v p ≠ some 0 := by
  intro hzero
  cases h with
  | label length nonzero _ =>
      cases length.symm.trans hzero
      exact absurd nonzero (by decide)
  | pointer high _ points =>
      cases high.symm.trans hzero
      exact absurd points.1 (by decide)

theorem of_label {l : Label} (wire : Holds v p l.wire) : Leads v p (p + l.wireLength) := by
  have hlen := l.toNat_ofNat_length
  have hpos := l.length_pos
  have hle := l.length_le
  have hleads := Leads.label wire.1 (by omega) (by omega)
  rw [hlen] at hleads
  exact hleads

end Leads

/-- **A name that is spelled leads into no cycle.** From each of its places there is one way on,
so a cycle would go through all that comes behind it, the root label included. -/
theorem Spelled.not_cycle {v : View} {pos stop : Nat} {ls : List Label}
    (h : Spelled v pos ls stop) {p : Nat} (hp : Relation.ReflTransGen (Leads v) pos p) :
    ¬ Relation.TransGen (Leads v) p p := by
  -- With one way on from `pos` to `next`, a cycle that `pos` leads into is one of `next`.
  have step : ∀ {pos next : Nat}, Leads v pos next →
      (∀ {p}, Relation.ReflTransGen (Leads v) next p → ¬ Relation.TransGen (Leads v) p p) →
      ∀ {p}, Relation.ReflTransGen (Leads v) pos p → ¬ Relation.TransGen (Leads v) p p := by
    intro pos next hnext hlater p hp hcycle
    rcases Relation.ReflTransGen.cases_head hp with rfl | ⟨q, hq, hp⟩
    · obtain ⟨q, hq, hback⟩ := Relation.TransGen.head'_iff.mp hcycle
      cases hnext.unique hq
      exact hlater hback hcycle
    · cases hnext.unique hq
      exact hlater hp hcycle
  induction h generalizing p with
  | @root pos zero =>
      intro hcycle
      rcases Relation.ReflTransGen.cases_head hp with rfl | ⟨q, hq, -⟩
      · obtain ⟨q, hq, -⟩ := Relation.TransGen.head'_iff.mp hcycle
        exact hq.not_zero zero
      · exact hq.not_zero zero
  | label wire _ ih => exact step (.of_label wire) ih hp
  | pointer high low points _ _ ih => exact step (.pointer high low points) ih hp

namespace Name

variable {b : Octets}

/-! ## The walk of a reader -/

/-- One step of a reader that has the labels of `n` and stands at an offset: it takes a label
that fits below the name, or it follows a pointer backwards. -/
inductive Step (b : Octets) : Name × Nat → Name × Nat → Prop where
  | label {n : Name} {pos : Nat} {l : Label} (wire : Holds b.view pos l.wire)
      (fits : n.Fits l.octets.length) : Step b (n, pos) (n.push l fits, pos + l.wireLength)
  | pointer {n : Name} {pos target : Nat} {hi lo : UInt8} (high : b.view pos = some hi)
      (low : b.view (pos + 1) = some lo) (points : PointsTo hi lo target) (back : target < pos) :
      Step b (n, pos) (n, target)

/-- A number of steps of a reader. -/
inductive Walk (b : Octets) : Nat → Name × Nat → Name × Nat → Prop where
  | refl (s : Name × Nat) : Walk b 0 s s
  | cons {k : Nat} {s t u : Name × Nat} (head : Step b s t) (tail : Walk b k t u) :
      Walk b (k + 1) s u

/-- How many steps are left at most. A label takes two octets of a name or more, and is worth
one step more than there are offsets to point to. -/
def stepsLeft (s : Name × Nat) : Nat := (255 - s.1.wireLength) / 2 * 16385 + min s.2 16384

theorem Step.stepsLeft_lt {s t : Name × Nat} (h : Step b s t) : stepsLeft t < stepsLeft s := by
  cases h with
  | @label n pos l wire fits =>
      have hlong : 2 ≤ l.wireLength := Nat.succ_le_succ l.length_pos
      have hfits : n.wireLength + l.wireLength ≤ 255 := fits
      simp only [stepsLeft, wireLength_push]
      omega
  | @pointer n pos target hi lo high low points back =>
      have hhi := hi.toNat_lt
      have hlo := lo.toNat_lt
      have htarget := points.2
      simp only [stepsLeft]
      omega

theorem Walk.length_le {k : Nat} {s t : Name × Nat} (h : Walk b k s t) :
    k + stepsLeft t ≤ stepsLeft s := by
  induction h with
  | refl => omega
  | cons head _ ih =>
      have := head.stepsLeft_lt
      omega

theorem stepsLeft_root_le (pos : Nat) : stepsLeft (root, pos) ≤ 2097279 := by
  have hroot : root.wireLength = 1 := rfl
  simp only [stepsLeft, hroot]
  omega

/-- A step is possible only where the reader finds a label that is all there and fits, or a
pointer backwards. -/
theorem Step.cases_read {n : Name} {pos : Nat} {t : Name × Nat} (h : Step b (n, pos) t) :
    (∃ len lenPos le, LabelType.read b pos = .ok (.normal len lenPos le, pos + 1) ∧
        n.Fits len ∧ pos + 1 + len ≤ b.size) ∨
      ∃ target, LabelType.read b pos = .ok (.pointer target, pos + 2) ∧ target < pos := by
  cases h with
  | label wire fits =>
      obtain ⟨lenPos, le, hread⟩ := LabelType.read_of_label wire
      have hsize := Octets.le_size_of_holds wire.2 (Octets.lt_size_of_view wire.1)
      exact .inl ⟨_, lenPos, le, hread, fits, hsize⟩
  | pointer high low points back =>
      exact .inr ⟨_, LabelType.read_of_pointer high low points, back⟩

/-- A reader with this result ends its walk: it comes to where no step is left, and gives the
name that it has there if a root label stands there, and an error otherwise. -/
def Ends (b : Octets) (s : Name × Nat) (result : Except DecodeError (Name × Nat)) : Prop :=
  ∃ k t, Walk b k s t ∧ (∀ u, ¬ Step b t u) ∧
    ((b.view t.2 = some 0 ∧ ∃ stop, result = .ok (t.1, stop)) ∨
      (b.view t.2 ≠ some 0 ∧ ∃ e, result = .error e))

namespace Ends

variable {s t : Name × Nat} {result : Except DecodeError (Name × Nat)}

theorem cons (head : Step b s t) (h : Ends b t result) : Ends b s result := by
  obtain ⟨k, u, hwalk, hlast⟩ := h
  exact ⟨k + 1, u, .cons head hwalk, hlast⟩

/-- Where the name ends does not matter for the walk. -/
theorem map (h : Ends b s result) (stop : Nat) :
    Ends b s (result.map fun (n, _) => (n, stop)) := by
  obtain ⟨k, t, hwalk, hlast, hresult⟩ := h
  refine ⟨k, t, hwalk, hlast, ?_⟩
  rcases hresult with ⟨hzero, stop', rfl⟩ | ⟨hzero, e, rfl⟩
  · exact .inl ⟨hzero, stop, rfl⟩
  · exact .inr ⟨hzero, e, rfl⟩

theorem of_root {n : Name} {pos : Nat} (zero : b.view pos = some 0) (stop : Nat) :
    Ends b (n, pos) (.ok (n, stop)) := by
  refine ⟨0, (n, pos), .refl _, fun u h => ?_, .inl ⟨zero, stop, rfl⟩⟩
  have hroot := LabelType.read_of_root zero
  rcases h.cases_read with ⟨_, _, _, hread, -⟩ | ⟨_, hread, -⟩
  · cases hroot.symm.trans hread
  · cases hroot.symm.trans hread

/-- Anything else than a root label without a step on is an error. -/
theorem of_stuck {n : Name} {pos : Nat} {read : Except DecodeError (LabelType × Nat)}
    (hread : LabelType.read b pos = read) (hroot : ∀ next, read ≠ .ok (.root, next))
    (hlast : ∀ u, ¬ Step b (n, pos) u) (e : DecodeError) : Ends b (n, pos) (.error e) := by
  refine ⟨0, (n, pos), .refl _, hlast, .inr ⟨fun hzero => ?_, e, rfl⟩⟩
  exact hroot _ (hread.symm.trans (LabelType.read_of_root hzero))

end Ends

/-- The reader walks until no step is left. -/
theorem ends_readFrom (b : Octets) (n : Name) (pos : Nat) :
    Ends b (n, pos) (readFrom b n pos) := by
  fun_induction readFrom b n pos with
  | case1 n pos e hread =>
      refine .of_stuck hread (by simp) (fun u h => ?_) e
      rcases h.cases_read with ⟨_, _, _, hread', -⟩ | ⟨_, hread', -⟩
      · cases hread.symm.trans hread'
      · cases hread.symm.trans hread'
  | case2 n pos next hread => exact .of_root (LabelType.view_of_read_root hread).1 next
  | case3 n pos len lenPos le next hread fits enough same ih =>
      obtain ⟨hlen, rfl⟩ := LabelType.view_of_read_normal hread
      let l : Label := ⟨(b.extract (pos + 1) (pos + 1 + len)).toList, by omega, by omega⟩
      have hl : l.octets.length = len := same
      have hnext : pos + 1 + len = pos + l.wireLength := by
        rw [Label.wireLength]
        omega
      have hstep := Step.label (Label.holds_wire_of_extract hlen hl rfl) (hl.symm ▸ fits)
      rw [← hnext] at hstep
      exact ih.cons hstep
  | case4 n pos len lenPos le next hread fits enough =>
      refine .of_stuck hread (by simp) (fun u h => ?_) _
      obtain ⟨-, rfl⟩ := LabelType.view_of_read_normal hread
      rcases h.cases_read with ⟨_, _, _, hread', -, hsize⟩ | ⟨_, hread', -⟩
      · cases hread.symm.trans hread'
        exact enough hsize
      · cases hread.symm.trans hread'
  | case5 n pos len lenPos le next hread fits =>
      refine .of_stuck hread (by simp) (fun u h => ?_) _
      rcases h.cases_read with ⟨_, _, _, hread', hfits, -⟩ | ⟨_, hread', -⟩
      · cases hread.symm.trans hread'
        exact fits hfits
      · cases hread.symm.trans hread'
  | case6 n pos target next hread back ih =>
      obtain ⟨hi, lo, high, low, points, rfl⟩ := LabelType.view_of_read_pointer hread
      exact (ih.cons (.pointer high low points back)).map _
  | case7 n pos target next hread back =>
      refine .of_stuck hread (by simp) (fun u h => ?_) _
      rcases h.cases_read with ⟨_, _, _, hread', -⟩ | ⟨_, hread', hback⟩
      · cases hread.symm.trans hread'
      · cases hread.symm.trans hread'
        exact back hback

/-! ## Exactness -/

/-- What is not read is an error. -/
theorem exists_error {pos : Nat} (h : ∀ n stop, read b pos ≠ .ok (n, stop)) :
    ∃ e, read b pos = .error e := by
  cases hread : read b pos with
  | error e => exact ⟨e, rfl⟩
  | ok result => exact absurd hread (h result.1 result.2)

/-- **Reading a name ends and is exact.** Whatever the buffer and the offset, no walk of the
reader is longer than 127 labels with at most 16384 pointers before, between and behind them, and
the walk that cannot go on shows what is read. A name is read exactly if it is spelled at the
offset and takes 255 octets or less on the wire; it is the one that is spelled, and it ends
behind its root label or the first pointer at its own place. So a name that is written out reads
back from its own octets, and a place from where labels and pointers lead into a cycle is
refused. -/
theorem read_exact (b : Octets) (pos : Nat) :
    (∀ k s, Walk b k (root, pos) s → k ≤ 2097279) ∧
      Ends b (root, pos) (read b pos) ∧
      (∀ ls stop, (∃ n : Name, n.labels = ls ∧ read b pos = .ok (n, stop)) ↔
        Spelled b.view pos ls stop ∧ Label.wireLengthAll ls ≤ 255) ∧
      (∀ n stop, read b pos = .ok (n, stop) → InPlace b.view pos n.labels stop) ∧
      (∀ n : Name, Holds b.view pos n.wire → read b pos = .ok (n, pos + n.wireLength)) ∧
      (∀ p, Relation.ReflTransGen (Leads b.view) pos p →
        Relation.TransGen (Leads b.view) p p → ∃ e, read b pos = .error e) := by
  refine ⟨fun k s hwalk => ?_, ends_readFrom b root pos, fun ls stop => ⟨?_, ?_⟩,
    fun n stop hread => (read_eq_ok_iff.mp hread).inPlace,
    fun n hwire => read_eq_ok_iff.mpr (spelled_of_holds_wire hwire), fun p hp hcycle => ?_⟩
  · have hlength := hwalk.length_le
    have hroot := stepsLeft_root_le pos
    omega
  · rintro ⟨n, rfl, hread⟩
    exact ⟨read_eq_ok_iff.mp hread, n.wireLength_le⟩
  · rintro ⟨hspelled, hshort⟩
    exact ⟨⟨ls, hshort⟩, rfl, read_eq_ok_iff.mpr hspelled⟩
  · refine exists_error fun n stop hread => ?_
    exact (read_eq_ok_iff.mp hread).not_cycle hp hcycle

end Name

end Querier
