import Mathlib.Data.List.Chain
import Querier.Proofs.Message.Compression
import Querier.Proofs.Name.Reading

/-!
# The writer's walk and the reader's walk

Two walks go over the names of a message. The reader of names takes labels for as long as they
fit into 255 octets. The search for earlier names takes them for as long as it can point to them,
34 labels at most and all of them below offset 16384. Neither knows the limits of the other, and
each looks at the octets for itself, yet a pointer that the one writes is followed by the other.

Both are compared with the `Chain` at a place, which is the name there with the offsets of its
labels, whatever its length. There is only one, because from each place there is one way on
(`Leads.unique`). The limits of each walk then say what it makes of the chain: the reader refuses
a chain that is too long, and for no other reason, and the search one that it cannot point into.

That the search ends is not for the chain to say, since where octets lead into a cycle there is
none. `Step` is one turn of its walk. As for the reader, a number of turns that are left at most
gets lower with each of them: a label takes up room, and from one label to the next pointers lead
to ever lower offsets.

## Main results

* `Chain.unique`: there is at most one chain at a place.
* `Step.stepsLeft_lt`, `length_le_of_isChain`: no walk of the search is longer than `stepsLeft`.
* `ends_offsetsOnto`: the search walks until no turn is left, and what it gives can be seen there.
* `walks_agree`: the search and the reader accept the same names but for their limits.
-/

namespace Querier.Compression

open View

variable {b : Octets} {v : View} {pos : Nat}

/-! ## One chain at a place -/

namespace Chain

variable {ps ps' : List (Nat × Label)}

/-- There is at most one chain at a place. -/
theorem unique (h : Chain v pos ps) (h' : Chain v pos ps') : ps = ps' := by
  induction h generalizing ps' with
  | root zero =>
      cases h' with
      | root => rfl
      | label wire => exact absurd zero (Leads.of_label wire).not_zero
      | pointer high low points => exact absurd zero (Leads.pointer high low points).not_zero
  | @label pos l ps wire _ ih =>
      cases h' with
      | root zero => exact absurd zero (Leads.of_label wire).not_zero
      | @label _ l' ps' wire' rest' =>
          have hnext := (Leads.of_label wire).unique (.of_label wire')
          obtain rfl : l = l' := Label.eq_of_holds wire wire' (Nat.add_left_cancel hnext)
          rw [ih rest']
      -- A label leads forwards and a pointer backwards.
      | pointer high low points back =>
          have hnext := (Leads.of_label wire).unique (.pointer high low points)
          omega
  | @pointer pos target hi lo ps high low points back _ ih =>
      cases h' with
      | root zero => exact absurd zero (Leads.pointer high low points).not_zero
      | label wire =>
          have hnext := (Leads.pointer high low points).unique (.of_label wire)
          omega
      | pointer high' low' points' _ rest' =>
          have hnext := (Leads.pointer high low points).unique (.pointer high' low' points')
          rw [← hnext] at rest'
          exact ih rest'

/-- A chain leads into no cycle. -/
theorem not_cycle (h : Chain v pos ps) {p : Nat} (hp : Relation.ReflTransGen (Leads v) pos p) :
    ¬ Relation.TransGen (Leads v) p p := by
  obtain ⟨stop, hspelled⟩ := h.spelled
  exact hspelled.not_cycle hp

/-- The reader makes a name of a chain that is not too long. -/
theorem exists_read (h : Chain b.view pos ps)
    (short : Label.wireLengthAll (ps.map Prod.snd) ≤ 255) :
    ∃ n stop, n.labels = ps.map Prod.snd ∧ Name.read b pos = .ok (n, stop) := by
  obtain ⟨stop, hspelled⟩ := h.spelled
  exact ⟨⟨_, short⟩, stop, rfl, Name.read_eq_ok_iff.mpr hspelled⟩

theorem read_of_long (h : Chain b.view pos ps)
    (long : 255 < Label.wireLengthAll (ps.map Prod.snd)) :
    Name.read b pos = .error .longName := by
  obtain ⟨stop, hspelled⟩ := h.spelled
  exact Name.readFrom_of_spelled_long hspelled Name.root long

end Chain

/-! ## The walk of the search -/

/-- One turn of the search at a name. It has found the labels at some offsets, the last one first,
and stands at another: there it finds a label that can be pointed to, or it follows a pointer
backwards. -/
inductive Step (b : Octets) : List Nat × Nat → List Nat × Nat → Prop where
  | label {found : List Nat} {pos : Nat} {o : UInt8} (length : b.view pos = some o)
      (nonzero : 0 < o.toNat) (le : o.toNat ≤ 63) (reach : pos < offsetLimit)
      (room : found.length < labelLimit) :
      Step b (found, pos) (pos :: found, pos + (o.toNat + 1))
  | pointer {found : List Nat} {pos target : Nat} {hi lo : UInt8} (high : b.view pos = some hi)
      (low : b.view (pos + 1) = some lo) (points : PointsTo hi lo target) (back : target < pos) :
      Step b (found, pos) (found, target)

/-- How many turns are left at most. A label that there is room for is worth one turn more than
there are offsets to point to. -/
def stepsLeft (s : List Nat × Nat) : Nat :=
  (labelLimit - s.1.length) * (offsetLimit + 1) + min s.2 offsetLimit

namespace Step

variable {s t : List Nat × Nat}

theorem stepsLeft_lt (h : Step b s t) : stepsLeft t < stepsLeft s := by
  cases h with
  | @label found pos o length nonzero le reach room =>
      simp only [stepsLeft, offsetLimit, labelLimit, List.length_cons] at reach room ⊢
      omega
  | @pointer found pos target hi lo high low points back =>
      have hhi := hi.toNat_lt
      have hlo := lo.toNat_lt
      have htarget := points.2
      simp only [stepsLeft, offsetLimit]
      omega

/-- A turn is possible only where a label begins, within the limits, or a pointer backwards. -/
theorem exists_octet {found : List Nat} (h : Step b (found, pos) t) :
    ∃ o, b[pos]? = some o ∧ o ≠ 0 ∧
      ((o < 64 ∧ pos < offsetLimit ∧ found.length < labelLimit) ∨
        (¬ o < 192 ∧ ∃ low, b[pos + 1]? = some low ∧
          (o.toNat - 192) * 256 + low.toNat < pos)) := by
  cases h with
  | @label found pos o length nonzero le reach room =>
      refine ⟨o, length, ?_, .inl ⟨UInt8.lt_iff_toNat_lt.mpr (Nat.lt_succ_of_le le), reach, room⟩⟩
      rintro rfl
      exact absurd nonzero (by decide)
  | @pointer found pos target hi lo high low points back =>
      obtain ⟨hhi, rfl⟩ := points
      refine ⟨hi, high, ?_, .inr ⟨?_, lo, low, back⟩⟩
      · rintro rfl
        exact absurd hhi (by decide)
      · exact fun hlt => absurd (UInt8.lt_iff_toNat_lt.mp hlt) (Nat.not_lt_of_le hhi)

end Step

theorem length_le_of_isChain {s : List Nat × Nat} {ss : List (List Nat × Nat)}
    (h : List.IsChain (Step b) (s :: ss)) : ss.length ≤ stepsLeft s := by
  induction ss generalizing s with
  | nil => exact Nat.zero_le _
  | cons t ss ih =>
      obtain ⟨hstep, hrest⟩ := List.isChain_cons_cons.mp h
      have hlt := hstep.stepsLeft_lt
      have hle := ih hrest
      rw [List.length_cons]
      omega

/-- A walk of the search with this result ends: it comes to where no turn is left, and gives what
it has found there if a root label stands there, and nothing otherwise. -/
def Ends (b : Octets) (s : List Nat × Nat) (result : Option (List Nat)) : Prop :=
  ∃ t, Relation.ReflTransGen (Step b) s t ∧ (∀ u, ¬ Step b t u) ∧
    result = if b.view t.2 = some 0 then some t.1 else none

namespace Ends

variable {s t : List Nat × Nat} {result : Option (List Nat)}

theorem cons (head : Step b s t) (h : Ends b t result) : Ends b s result := by
  obtain ⟨u, hwalk, hlast⟩ := h
  exact ⟨u, .head head hwalk, hlast⟩

theorem of_root {found : List Nat} (zero : b[pos]? = some 0) :
    Ends b (found, pos) (some found) := by
  refine ⟨(found, pos), .refl, fun u h => ?_, (if_pos zero).symm⟩
  obtain ⟨o, ho, hne, -⟩ := h.exists_octet
  exact hne (Option.some.inj (ho.symm.trans zero))

/-- Where no octet stands, nothing is given. -/
theorem of_end {found : List Nat} (hend : b[pos]? = none) : Ends b (found, pos) none := by
  refine ⟨(found, pos), .refl, fun u h => ?_, (if_neg ?_).symm⟩
  · obtain ⟨o, ho, -⟩ := h.exists_octet
    cases hend.symm.trans ho
  · intro zero
    cases hend.symm.trans zero

/-- Where an octet stands that is no root label and allows no turn, nothing is given. -/
theorem of_stuck {found : List Nat} {o : UInt8} (ho : b[pos]? = some o) (hne : o ≠ 0)
    (hlabel : ¬ (o < 64 ∧ pos < offsetLimit ∧ found.length < labelLimit))
    (hpointer : ∀ low, b[pos + 1]? = some low →
      ¬ (¬ o < 192 ∧ (o.toNat - 192) * 256 + low.toNat < pos)) :
    Ends b (found, pos) none := by
  refine ⟨(found, pos), .refl, fun u h => ?_, (if_neg ?_).symm⟩
  · obtain ⟨o', ho', -, hstep⟩ := h.exists_octet
    cases ho.symm.trans ho'
    rcases hstep with hstep | ⟨large, low, hlow, back⟩
    · exact hlabel hstep
    · exact hpointer low hlow ⟨large, back⟩
  · intro zero
    exact hne (Option.some.inj (ho.symm.trans zero))

end Ends

/-- The search walks until no turn is left. -/
theorem ends_offsetsOnto {found : List Nat} {room : Nat}
    (hroom : found.length + room = labelLimit) (pos : Nat) :
    Ends b (found, pos) (offsetsOnto found b room pos) := by
  fun_induction offsetsOnto found b room pos with
  | case1 found room pos ho => exact .of_end ho
  | case2 found room pos ho => exact .of_root ho
  | case3 found pos o ho zero small reach =>
      refine .of_stuck ho zero (fun h => ?_) fun low _ h =>
        h.1 (UInt8.lt_trans small (by decide))
      omega
  | case4 found pos o ho zero small reach room ih =>
      obtain ⟨hpos, hle⟩ := length_bounds zero small
      have hlt : found.length < labelLimit := by omega
      refine Ends.cons (.label ho hpos hle reach hlt) (ih ?_)
      rw [List.length_cons]
      omega
  | case5 found room pos o ho zero small reach =>
      exact .of_stuck ho zero (fun h => reach h.2.1) fun low _ h =>
        h.1 (UInt8.lt_trans small (by decide))
  | case6 found room pos o ho zero large small =>
      exact .of_stuck ho zero (fun h => large h.1) fun low _ h => h.1 small
  | case7 found room pos o ho zero small large hlow =>
      refine .of_stuck ho zero (fun h => small h.1) fun low hlow' _ => ?_
      cases hlow.symm.trans hlow'
  | case8 found room pos o ho zero small large low hlow target back ih =>
      have hhigh : 192 ≤ o.toNat := UInt8.le_iff_toNat_le.mp (UInt8.not_lt.mp large)
      exact Ends.cons (.pointer ho hlow ⟨hhigh, rfl⟩ back) (ih hroom)
  | case9 found room pos o ho zero small large low hlow target back =>
      refine .of_stuck ho zero (fun h => small h.1) fun low' hlow' h => ?_
      cases hlow.symm.trans hlow'
      exact back h.2

/-! ## Agreement -/

/-- **The search and the reader agree on the names of a message.** Whatever the buffer and the
place, there is at most one name there for both of them. Where the search finds offsets, they are
those of all labels of this name in order, and the reader gives it if it takes 255 octets or less
and refuses it as too long otherwise. Where the reader gives a name, the search finds the offsets
of all its labels if they are 34 or fewer, all of them below 16384, and nothing otherwise. The
search ends after at most 34 labels with at most 16384 pointers before, between and behind them,
where it can go no further, and it finds nothing at a place that leads into a cycle. -/
theorem walks_agree (b : Octets) (pos : Nat) :
    (∀ ps ps', Chain b.view pos ps → Chain b.view pos ps' → ps = ps') ∧
      (∀ offsets, labelOffsets b pos = some offsets →
        ∃ ps, Chain b.view pos ps ∧ offsets.reverse = ps.map Prod.fst ∧
          (Label.wireLengthAll (ps.map Prod.snd) ≤ 255 →
            ∃ n stop, n.labels = ps.map Prod.snd ∧ Name.read b pos = .ok (n, stop)) ∧
          (255 < Label.wireLengthAll (ps.map Prod.snd) → Name.read b pos = .error .longName)) ∧
      (∀ n stop, Name.read b pos = .ok (n, stop) →
        ∃ ps, Chain b.view pos ps ∧ n.labels = ps.map Prod.snd ∧
          labelOffsets b pos =
            if ps.length ≤ 34 ∧ ∀ p ∈ ps, p.1 < 16384 then some (ps.map Prod.fst).reverse
            else none) ∧
      (∀ ss, List.IsChain (Step b) (([], pos) :: ss) → ss.length ≤ 573474) ∧
      Ends b ([], pos) (labelOffsets b pos) ∧
      (∀ p, Relation.ReflTransGen (Leads b.view) pos p →
        Relation.TransGen (Leads b.view) p p → labelOffsets b pos = none) := by
  refine ⟨fun _ _ => Chain.unique, fun offsets h => ?_, fun n stop h => ?_, fun ss h => ?_,
    ends_offsetsOnto rfl pos, fun p hp hcycle => ?_⟩
  · obtain ⟨ps, heligible, rfl⟩ := labelOffsets_eq_some_iff.mp h
    have hps := heligible.chain
    exact ⟨ps, hps, List.reverse_reverse _, hps.exists_read, hps.read_of_long⟩
  · obtain ⟨ps, hps, hlabels⟩ := Chain.of_spelled (Name.read_eq_ok_iff.mp h)
    refine ⟨ps, hps, hlabels.symm, ?_⟩
    rw [labelOffsets, hps.offsetsOnto_eq (Le.refl b.view), List.append_nil]
    exact if_congr Iff.rfl rfl rfl
  · have hlength := length_le_of_isChain h
    simp only [stepsLeft, offsetLimit, labelLimit, List.length_nil] at hlength
    omega
  · refine Option.eq_none_iff_forall_ne_some.mpr fun offsets h => ?_
    obtain ⟨ps, hps⟩ := exists_chain h
    exact hps.not_cycle hp hcycle

/-- The label `a` and a pointer back to it. -/
def looped : Octets := #[1, 97, 192, 0]

/-- The name `a`, and behind it `b.a` with a pointer to the first. -/
def joined : Octets := #[1, 97, 0, 1, 98, 192, 0]

/-- The name `b.a` has the offsets of its labels at two places, one of them behind a pointer, and
is read there. In the loop nothing is found. -/
theorem walks_agree_joined :
    labelOffsets joined 3 = some [0, 3] ∧
      (∃ n stop, n.labels.map Label.octets = [[98], [97]] ∧
        Name.read joined 3 = .ok (n, stop)) ∧
      labelOffsets looped 0 = none := by
  let a : Label := ⟨[97], by decide, by decide⟩
  let b : Label := ⟨[98], by decide, by decide⟩
  have hpoints : PointsTo 192 0 0 := ⟨by decide, rfl⟩
  have hstart : Chain joined.view 0 [(0, a)] := .label (holds_iff.mpr (by decide)) (.root rfl)
  have hjoin : Chain joined.view 5 [(0, a)] := .pointer rfl rfl hpoints (by decide) hstart
  have hchain : Chain joined.view 3 [(3, b), (0, a)] := .label (holds_iff.mpr (by decide)) hjoin
  have hfound : labelOffsets joined 3 = some [0, 3] :=
    labelOffsets_eq_some_iff.mpr ⟨_, ⟨hchain, by decide, by decide⟩, rfl⟩
  obtain ⟨ps, hps, -, hread, -⟩ := (walks_agree joined 3).2.1 _ hfound
  obtain rfl := (walks_agree joined 3).1 _ _ hps hchain
  obtain ⟨n, stop, hlabels, hread⟩ := hread (by decide)
  have hone : looped.view 0 = some 1 := rfl
  have hforth : Leads looped.view 0 2 := .label hone (by decide) (by decide)
  have hback : Leads looped.view 2 0 := .pointer rfl rfl hpoints
  refine ⟨hfound, ⟨n, stop, by rw [hlabels]; rfl, hread⟩, ?_⟩
  exact (walks_agree looped 0).2.2.2.2.2 0 .refl (.tail (.single hforth) hback)

end Querier.Compression
