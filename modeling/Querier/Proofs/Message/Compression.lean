import Querier.Message.Compression
import Querier.Proofs.Name.Spelling

/-!
# What the search for earlier names finds

The search walks the names of a buffer, but what it finds has to be right for
later readers too. All statements here are therefore about a view below the
buffer: if the names where the search starts are spelled in that view, then so
is the suffix that it finds.

A `Chain` is a spelled name with the offsets of its labels. `Eligible` says
which chains the walk goes through, and `Offers` what a name at a place of the
buffer has in common with a new one. Neither says how the search goes about it.

## Main results

* `exists_chain`, `Chain.offsetsOnto_eq`: the walk goes through the labels of a
  chain, and succeeds if they are not too many and in the reach of pointers.
* `labelAt_eq_same`: where a label stands, a match is equality up to case.
* `find_eq_some`: what the search finds for a name is spelled in the view and
  equal, up to case, to a suffix of the name of the length that it says.
* `find_congr`: the search ignores the case of the name.
-/

namespace Querier.Compression

open View

variable {b : Octets} {v : View}

/-! ## Chains -/

/-- From `pos` labels and pointers lead, over these labels at these offsets, up to a root label.
Pointers lead strictly backwards. -/
inductive Chain (v : View) : Nat → List (Nat × Label) → Prop where
  | root {pos : Nat} (zero : v pos = some 0) : Chain v pos []
  | label {pos : Nat} {l : Label} {ps : List (Nat × Label)} (wire : Holds v pos l.wire)
      (rest : Chain v (pos + l.wireLength) ps) : Chain v pos ((pos, l) :: ps)
  | pointer {pos target : Nat} {hi lo : UInt8} {ps : List (Nat × Label)}
      (high : v pos = some hi) (low : v (pos + 1) = some lo) (points : PointsTo hi lo target)
      (back : target < pos) (rest : Chain v target ps) : Chain v pos ps

namespace Chain

variable {pos : Nat} {ps : List (Nat × Label)}

theorem spelled (h : Chain v pos ps) : ∃ stop, Spelled v pos (ps.map Prod.snd) stop := by
  induction h with
  | root zero => exact ⟨_, .root zero⟩
  | label wire _ ih =>
      obtain ⟨stop, hrest⟩ := ih
      exact ⟨stop, .label wire hrest⟩
  | pointer high low points back _ ih =>
      obtain ⟨stop, hrest⟩ := ih
      exact ⟨_, .pointer high low points back hrest⟩

theorem of_spelled {ls : List Label} {stop : Nat} (h : Spelled v pos ls stop) :
    ∃ ps, Chain v pos ps ∧ ps.map Prod.snd = ls := by
  induction h with
  | root zero => exact ⟨[], .root zero, rfl⟩
  | label wire _ ih =>
      obtain ⟨ps, hps, rfl⟩ := ih
      exact ⟨_, .label wire hps, rfl⟩
  | pointer high low points back _ ih =>
      obtain ⟨ps, hps, rfl⟩ := ih
      exact ⟨ps, .pointer high low points back hps, rfl⟩

theorem holds (h : Chain v pos ps) : ∀ p ∈ ps, Holds v p.1 p.2.wire := by
  induction h with
  | root => exact List.forall_mem_nil _
  | label wire _ ih => exact List.forall_mem_cons.mpr ⟨wire, ih⟩
  | pointer _ _ _ _ _ ih => exact ih

/-- A chain goes on from each of its labels. -/
theorem drop (h : Chain v pos ps) {ahead behind : List (Nat × Label)} {p : Nat × Label}
    (hps : ps = ahead ++ p :: behind) : Chain v p.1 (p :: behind) := by
  induction h generalizing ahead with
  | root => cases ahead <;> cases hps
  | label wire rest ih =>
      cases ahead with
      | nil =>
          cases hps
          exact .label wire rest
      | cons q ahead =>
          cases hps
          exact ih rfl
  | pointer _ _ _ _ _ ih => exact ih hps

end Chain

/-! ## The walk -/

/-- What the walk takes for a label has a length of one to 63. -/
theorem length_bounds {o : UInt8} (nonzero : ¬ o = 0) (small : o < 64) :
    0 < o.toNat ∧ o.toNat ≤ 63 :=
  ⟨Nat.pos_of_ne_zero fun hzero => nonzero (UInt8.toNat_inj.mp hzero),
    Nat.le_of_lt_succ (UInt8.lt_iff_toNat_lt.mp small)⟩

/-- The walk only accepts a place where a chain begins. -/
theorem exists_chain {found offsets : List Nat} {room pos : Nat}
    (h : offsetsOnto found b room pos = some offsets) : ∃ ps, Chain b.view pos ps := by
  fun_induction offsetsOnto found b room pos with
  | case1 => cases h
  | case2 found room pos ho => exact ⟨[], .root ho⟩
  | case3 => cases h
  | case4 found pos o ho zero small reachable room ih =>
      obtain ⟨ps, hps⟩ := ih h
      obtain ⟨stop, hls⟩ := hps.spelled
      obtain ⟨hpos, hle⟩ := length_bounds zero small
      have hsize := hls.start_le_size
      have hlen : (b.extract (pos + 1) (pos + 1 + o.toNat)).toList.length = o.toNat := by
        simp
        omega
      let l : Label := ⟨(b.extract (pos + 1) (pos + 1 + o.toNat)).toList, by omega, by omega⟩
      have hnext : pos + o.toNat + 1 = pos + l.wireLength := by
        rw [Label.wireLength, hlen]
        omega
      rw [hnext] at hps
      refine ⟨(pos, l) :: ps, .label (Label.holds_wire_of_extract ?_ hlen rfl) hps⟩
      rw [UInt8.ofNat_toNat]
      exact ho
  | case5 => cases h
  | case6 => cases h
  | case7 => cases h
  | case8 found room pos o ho zero small large low hlow target back ih =>
      obtain ⟨ps, hps⟩ := ih h
      have hhigh : 192 ≤ o.toNat := UInt8.le_iff_toNat_le.mp (UInt8.not_lt.mp large)
      exact ⟨ps, .pointer ho hlow ⟨hhigh, rfl⟩ back hps⟩
  | case9 => cases h

theorem exists_spelled {found offsets : List Nat} {room pos : Nat}
    (h : offsetsOnto found b room pos = some offsets) :
    ∃ ls stop, Spelled b.view pos ls stop := by
  obtain ⟨ps, hps⟩ := exists_chain h
  exact ⟨_, hps.spelled⟩

theorem offsetsOnto_root {found : List Nat} {room pos : Nat} (zero : b.view pos = some 0) :
    offsetsOnto found b room pos = some found := by
  rw [offsetsOnto, show b[pos]? = some 0 from zero]
  rfl

/-- The walk past a label: it has to be reachable, and there has to be room for it. -/
theorem offsetsOnto_label {found : List Nat} {room pos : Nat} {l : Label}
    (wire : Holds b.view pos l.wire) :
    offsetsOnto found b room pos =
      if pos < offsetLimit then
        match room with
        | 0 => none
        | room + 1 => offsetsOnto (pos :: found) b room (pos + l.wireLength)
      else none := by
  have hpos := l.length_pos
  have hle := l.length_le
  have hlen := l.toNat_ofNat_length
  have hzero : UInt8.ofNat l.octets.length ≠ 0 := by
    intro hzero
    rw [hzero] at hlen
    simp at hlen
    omega
  have hsmall : UInt8.ofNat l.octets.length < 64 := by
    rw [UInt8.lt_iff_toNat_lt, hlen]
    exact Nat.lt_succ_of_le hle
  rw [offsetsOnto, show b[pos]? = _ from wire.1]
  simp only [if_neg hzero, if_pos hsmall, hlen]
  rfl

theorem offsetsOnto_pointer {found : List Nat} {room pos target : Nat} {hi lo : UInt8}
    (high : b.view pos = some hi) (low : b.view (pos + 1) = some lo)
    (points : PointsTo hi lo target) (back : target < pos) :
    offsetsOnto found b room pos = offsetsOnto found b room target := by
  obtain ⟨hhi, rfl⟩ := points
  have hzero : hi ≠ 0 := by
    rintro rfl
    simp at hhi
  have hsmall : ¬hi < 64 := by
    rw [UInt8.lt_iff_toNat_lt]
    simp
    omega
  have hlarge : ¬hi < 192 := by
    rw [UInt8.lt_iff_toNat_lt]
    simp
    omega
  rw [offsetsOnto, show b[pos]? = some hi from high]
  simp only [if_neg hzero, if_neg hsmall, if_neg hlarge, show b[pos + 1]? = some lo from low]
  rw [if_pos back]

/-- The walk goes through the labels of a chain, from the last one back. It succeeds if there is
room for all of them and all are in the reach of pointers. -/
theorem Chain.offsetsOnto_eq {found : List Nat} {room pos : Nat} {ps : List (Nat × Label)}
    (h : Chain v pos ps) (hle : Le v b.view) :
    offsetsOnto found b room pos =
      if ps.length ≤ room ∧ ∀ p ∈ ps, p.1 < offsetLimit then
        some ((ps.map Prod.fst).reverse ++ found)
      else none := by
  induction h generalizing found room with
  | root zero =>
      rw [offsetsOnto_root (hle _ _ zero)]
      simp
  | @label pos l ps wire _ ih =>
      rw [offsetsOnto_label (wire.mono hle)]
      by_cases hreach : pos < offsetLimit
      · rw [if_pos hreach]
        cases room with
        | zero => simp
        | succ room =>
            simp only [ih, List.length_cons, Nat.add_le_add_iff_right, List.forall_mem_cons,
              hreach, true_and, List.map_cons, List.reverse_cons, List.append_assoc,
              List.singleton_append]
      · simp [hreach]
  | pointer high low points back _ ih =>
      rw [offsetsOnto_pointer (hle _ _ high) (hle _ _ low) points back, ih]

/-- The walk finds no offset outside of the buffer. -/
theorem lt_size_of_offsetsOnto {found offsets : List Nat} {room pos : Nat}
    (h : offsetsOnto found b room pos = some offsets) (hfound : ∀ o ∈ found, o < b.size) :
    ∀ o ∈ offsets, o < b.size := by
  fun_induction offsetsOnto found b room pos with
  | case2 =>
      cases h
      exact hfound
  | case4 found pos o ho zero small reachable room ih =>
      exact ih h (List.forall_mem_cons.mpr ⟨Octets.lt_size_of_view ho, hfound⟩)
  | case8 found room pos o ho zero small large low hlow target back ih => exact ih h hfound
  | _ => cases h

/-! ## Comparing suffixes -/

theorem foldedAt_eq_sameFolded {pos : Nat} {os xs : List UInt8} (hxs : Holds b.view pos xs)
    (hlen : xs.length = os.length) : foldedAt b pos os = Octets.sameFolded xs os := by
  induction os generalizing pos xs with
  | nil =>
      rw [List.length_nil, List.length_eq_zero_iff] at hlen
      rw [hlen]
      rfl
  | cons o os ih =>
      cases xs with
      | nil => simp at hlen
      | cons x xs =>
          have htail := ih hxs.2 (by simpa using hlen)
          rw [foldedAt, show b[pos]? = some x from hxs.1]
          simp only [htail, Octets.sameFolded, Octets.foldCase, List.map_cons, List.cons_beq_cons]
          rw [Bool.beq_comm]

/-- Where a label stands, the labels that match it are those equal to it up to case. -/
theorem labelAt_eq_same {offset : Nat} {l : Label} (wire : Holds b.view offset l.wire)
    (k : Label) : labelAt b k offset = l.same k := by
  have hl := l.toNat_ofNat_length
  have hk := k.toNat_ofNat_length
  unfold labelAt
  rw [show b[offset]? = _ from wire.1]
  by_cases hlen : l.octets.length = k.octets.length
  · rw [hlen, beq_self_eq_true, Bool.true_and, foldedAt_eq_sameFolded wire.2 hlen, Label.same]
  · have hne : (some (UInt8.ofNat l.octets.length) == some (UInt8.ofNat k.octets.length)) =
        false := by
      rw [beq_eq_false_iff_ne]
      intro heq
      rw [Option.some.inj heq, hk] at hl
      exact hlen hl.symm
    have hsame : l.same k = false :=
      Bool.eq_false_iff.mpr fun hsame => hlen (Label.length_eq_of_same hsame)
    rw [hne, hsame, Bool.false_and]

/-- Labels that stand at their offsets match label by label if they are equal up to case. -/
theorem forall₂_labelAt_iff {ps : List (Nat × Label)}
    (hps : ∀ p ∈ ps, Holds b.view p.1 p.2.wire) (ks : List Label) :
    List.Forall₂ (fun k o => labelAt b k o = true) ks (ps.map Prod.fst) ↔
      SameLabels (ps.map Prod.snd) ks := by
  induction ps generalizing ks with
  | nil => cases ks <;> simp [SameLabels]
  | cons p ps ih =>
      obtain ⟨hp, hps⟩ := List.forall_mem_cons.mp hps
      cases ks with
      | nil => simp [SameLabels]
      | cons k ks =>
          have htail := ih hps ks
          simp only [SameLabels, List.map_cons, List.forall₂_cons] at htail ⊢
          rw [labelAt_eq_same hp, htail]

/-- How many octets some labels take on the wire, the root apart. -/
def wireLengthBelow : List Label → Nat
  | [] => 0
  | l :: ls => l.wireLength + wireLengthBelow ls

/-- Both lists are gone through from the last label on: what is found is the best so far or
ends at the last of the pairs that match in a row. -/
theorem commonSuffix_eq_some {length : Nat} {best : Option Suffix} {labels : List Label}
    {offsets : List Nat} {s : Suffix} (h : commonSuffix b length best labels offsets = some s) :
    best = some s ∨ ∃ ks k ks' os o os', labels = ks ++ k :: ks' ∧ offsets = os ++ o :: os' ∧
      List.Forall₂ (fun l o => labelAt b l o = true) (ks ++ [k]) (os ++ [o]) ∧
      s = ⟨o, length + wireLengthBelow (ks ++ [k])⟩ := by
  induction labels generalizing length best offsets with
  | nil =>
      rw [commonSuffix] at h
      · exact .inl h
      · simp
  | cons k labels ih =>
      cases offsets with
      | nil =>
          rw [commonSuffix] at h
          · exact .inl h
          · simp
      | cons o offsets =>
          rw [commonSuffix] at h
          split at h
          · rename_i hmatch
            right
            rcases ih h with heq | ⟨ks, k', ks', os, o', os', rfl, rfl, hall, rfl⟩
            · cases heq
              exact ⟨[], k, labels, [], o, offsets, rfl, rfl, by simpa using hmatch,
                by simp [wireLengthBelow]⟩
            · refine ⟨k :: ks, k', ks', o :: os, o', os', rfl, rfl, .cons hmatch hall, ?_⟩
              simp only [wireLengthBelow, List.cons_append, Nat.add_assoc]
          · exact .inl h

theorem better_eq_some {best new : Option Suffix} {s : Suffix} (h : better best new = some s) :
    best = some s ∨ new = some s := by
  cases best with
  | none => exact .inr h
  | some best =>
      cases new with
      | none => exact .inl h
      | some new =>
          simp only [better] at h
          split at h
          · exact .inr h
          · exact .inl h

/-- What the search finds is the best so far or was found at one of the starts. -/
theorem search_eq_some {reversed : List Label} {whole : Nat} {best : Option Suffix}
    {starts : List Nat} {s : Suffix} (h : search b reversed whole best starts = some s) :
    best = some s ∨ ∃ start ∈ starts, ∃ offsets, labelOffsets b start = some offsets ∧
      commonSuffix b 1 none reversed offsets = some s := by
  induction starts generalizing best with
  | nil => exact .inl h
  | cons start starts ih =>
      have later {best' : Option Suffix} (h : search b reversed whole best' starts = some s) :
          best' = some s ∨ ∃ start' ∈ start :: starts, ∃ offsets,
            labelOffsets b start' = some offsets ∧
              commonSuffix b 1 none reversed offsets = some s := by
        rcases ih h with heq | ⟨start', hmem, hfound⟩
        · exact .inl heq
        · exact .inr ⟨start', List.mem_cons_of_mem _ hmem, hfound⟩
      rw [search] at h
      split at h
      · exact later h
      · rename_i offsets hoffsets
        simp only at h
        split at h
        · exact .inr ⟨start, List.mem_cons_self, offsets, hoffsets, h⟩
        · rcases later h with heq | hfound
          · rcases better_eq_some heq with hbest | hnew
            · exact .inl hbest
            · exact .inr ⟨start, List.mem_cons_self, offsets, hoffsets, hnew⟩
          · exact .inr hfound

/-! ## What names offer -/

theorem wireLengthBelow_append (ks ls : List Label) :
    wireLengthBelow (ks ++ ls) = wireLengthBelow ks + wireLengthBelow ls := by
  induction ks with
  | nil => exact (Nat.zero_add _).symm
  | cons k ks ih => rw [List.cons_append, wireLengthBelow, wireLengthBelow, ih, Nat.add_assoc]

theorem wireLengthBelow_reverse (ls : List Label) :
    1 + wireLengthBelow ls.reverse = Label.wireLengthAll ls := by
  induction ls with
  | nil => rfl
  | cons l ls ih =>
      rw [Label.wireLengthAll, ← ih, List.reverse_cons, wireLengthBelow_append]
      simp only [wireLengthBelow]
      omega

/-- A chain that a new name can point into: it has at most 34 labels, all of them at offsets
below 16384. -/
structure Eligible (v : View) (start : Nat) (ps : List (Nat × Label)) : Prop where
  chain : Chain v start ps
  length_le : ps.length ≤ 34
  reach : ∀ p ∈ ps, p.1 < 16384

/-- The walk goes through the eligible chains. -/
theorem labelOffsets_eq_some_iff {start : Nat} {offsets : List Nat} :
    labelOffsets b start = some offsets ↔
      ∃ ps, Eligible b.view start ps ∧ offsets = (ps.map Prod.fst).reverse := by
  constructor
  · intro h
    obtain ⟨ps, hps⟩ := exists_chain h
    rw [labelOffsets, hps.offsetsOnto_eq (Le.refl _), List.append_nil] at h
    split at h
    · rename_i hlimits
      exact ⟨ps, ⟨hps, hlimits.1, hlimits.2⟩, (Option.some.inj h).symm⟩
    · cases h
  · rintro ⟨ps, ⟨hps, hlength, hreach⟩, rfl⟩
    rw [labelOffsets, hps.offsetsOnto_eq (Le.refl _), if_pos ⟨hlength, hreach⟩, List.append_nil]

/-- The name at `start` ends, up to case, in the same labels as `n`: those from this offset on,
which take so many octets of `n` with the root. -/
def Offers (v : View) (n : Name) (start : Nat) (s : Suffix) : Prop :=
  ∃ ahead p behind back, Eligible v start (ahead ++ p :: behind) ∧ back <:+ n.labels ∧
    SameLabels ((p :: behind).map Prod.snd) back ∧ s = ⟨p.1, Label.wireLengthAll back⟩

/-- What a chain has in common with a name is what it offers. -/
theorem offers_of_commonSuffix {n : Name} {start : Nat} {offsets : List Nat} {s : Suffix}
    {ps : List (Nat × Label)} (hps : Eligible v start ps) (hle : Le v b.view)
    (hoffsets : offsets = (ps.map Prod.fst).reverse)
    (h : commonSuffix b 1 none n.labels.reverse offsets = some s) : Offers v n start s := by
  rcases commonSuffix_eq_some h with heq | ⟨ks, k, ks', os, o, os', hks, hos, hall, rfl⟩
  · cases heq
  rw [hoffsets, ← List.map_reverse] at hos
  obtain ⟨qs, rest, hrev, rfl, hrest⟩ := List.map_eq_append_iff.mp hos
  obtain ⟨p, qs', rfl, rfl, -⟩ := List.map_eq_cons_iff.mp hrest
  have hsplit : ps = qs'.reverse ++ p :: qs.reverse := by
    rw [← List.reverse_reverse ps, hrev]
    simp
  have hlabels : n.labels = ks'.reverse ++ k :: ks.reverse := by
    rw [← List.reverse_reverse n.labels, hks]
    simp
  have hholds : ∀ q ∈ qs ++ [p], Holds b.view q.1 q.2.wire := by
    intro q hq
    refine (hps.chain.holds q ?_).mono hle
    rw [hsplit]
    simp only [List.mem_append, List.mem_cons, List.mem_reverse, List.not_mem_nil] at hq ⊢
    tauto
  have hsame : SameLabels ((qs ++ [p]).map Prod.snd) (ks ++ [k]) := by
    refine (forall₂_labelAt_iff hholds _).mp ?_
    rw [List.map_append]
    exact hall
  refine ⟨qs'.reverse, p, qs.reverse, k :: ks.reverse, hsplit ▸ hps, ⟨_, hlabels.symm⟩, ?_, ?_⟩
  · have hreverse := List.forall₂_reverse_iff.mpr hsame
    rw [← List.map_reverse, List.reverse_append, List.reverse_append] at hreverse
    exact hreverse
  · rw [← wireLengthBelow_reverse, List.reverse_cons, List.reverse_reverse]

namespace Offers

variable {n : Name} {start : Nat} {s : Suffix}

/-- What is offered is a suffix of the name that is spelled at the offset. -/
theorem exists_back (h : Offers v n start s) :
    ∃ front back ls stop, n.labels = front ++ back ∧ back ≠ [] ∧
      s.length = Label.wireLengthAll back ∧ Spelled v s.offset ls stop ∧ SameLabels ls back ∧
      s.offset < offsetLimit := by
  obtain ⟨ahead, p, behind, back, heligible, ⟨front, hfront⟩, hsame, rfl⟩ := h
  obtain ⟨stop, hspelled⟩ := (heligible.chain.drop rfl).spelled
  have hback : back ≠ [] := by
    rintro rfl
    cases hsame
  have hreach : p.1 < 16384 := heligible.reach p (by simp)
  exact ⟨front, back, _, stop, hfront.symm, hback, rfl, hspelled, hsame, hreach⟩

end Offers

/-- **What the search finds can be pointed to.** If the view spells a name at every start
where the walk finds one, then it spells at the offset found a suffix of the name that is
searched, up to case and of the length found. -/
theorem find_eq_some {starts : List Nat} {n : Name} {s : Suffix} (hle : Le v b.view)
    (hstarts : ∀ start ∈ starts, ∀ offsets, labelOffsets b start = some offsets →
      ∃ ls stop, Spelled v start ls stop)
    (h : find b starts n = some s) :
    ∃ front back ls stop, n.labels = front ++ back ∧ back ≠ [] ∧
      s.length = Label.wireLengthAll back ∧ Spelled v s.offset ls stop ∧ SameLabels ls back ∧
      s.offset < offsetLimit := by
  rw [find] at h
  split at h
  · rcases search_eq_some h with heq | ⟨start, hmem, offsets, hoffsets, hcommon⟩
    · cases heq
    obtain ⟨ls, stop, hls⟩ := hstarts start hmem offsets hoffsets
    obtain ⟨ps, hps, -⟩ := Chain.of_spelled hls
    rw [labelOffsets, hps.offsetsOnto_eq hle, List.append_nil] at hoffsets
    split at hoffsets
    · rename_i hlimits
      have heligible : Eligible v start ps := ⟨hps, hlimits.1, hlimits.2⟩
      exact (offers_of_commonSuffix heligible hle (Option.some.inj hoffsets).symm
        hcommon).exists_back
    · cases hoffsets
  · cases h

/-! ## Names up to case -/

theorem foldedAt_congr {pos : Nat} {os os' : List UInt8}
    (h : Octets.foldCase os = Octets.foldCase os') : foldedAt b pos os = foldedAt b pos os' := by
  induction os generalizing pos os' with
  | nil =>
      rw [List.map_eq_nil_iff.mp h.symm]
  | cons o os ih =>
      cases os' with
      | nil => cases h
      | cons o' os' =>
          obtain ⟨ho, hos⟩ := List.cons.inj h
          rw [foldedAt, foldedAt, ho]
          simp only [ih hos]

theorem labelAt_congr {l l' : Label} (h : l.same l' = true) (offset : Nat) :
    labelAt b l offset = labelAt b l' offset := by
  unfold labelAt
  rw [Label.length_eq_of_same h, foldedAt_congr (eq_of_beq h)]

theorem commonSuffix_congr {length : Nat} {best : Option Suffix} {ls ls' : List Label}
    {offsets : List Nat} (h : SameLabels ls ls') :
    commonSuffix b length best ls offsets = commonSuffix b length best ls' offsets := by
  induction h generalizing length best offsets with
  | nil => rfl
  | @cons l l' ls ls' hl _ ih =>
      cases offsets with
      | nil => rfl
      | cons o offsets =>
          rw [commonSuffix, commonSuffix, labelAt_congr hl]
          simp only [Label.wireLength, Label.length_eq_of_same hl, ih]

theorem search_congr {ls ls' : List Label} {whole : Nat} {best : Option Suffix}
    {starts : List Nat} (h : SameLabels ls ls') :
    search b ls whole best starts = search b ls' whole best starts := by
  induction starts generalizing best with
  | nil => rfl
  | cons start starts ih =>
      simp only [search, commonSuffix_congr h, ih]

/-- The search does not tell names apart that are equal up to case. -/
theorem find_congr {n m : Name} (h : SameLabels n.labels m.labels) (starts : List Nat) :
    find b starts n = find b starts m := by
  have hlength : n.labels.length = m.labels.length := h.length_eq
  have hreverse : SameLabels n.labels.reverse m.labels.reverse := List.forall₂_reverse_iff.mpr h
  unfold find
  rw [hlength, Name.wireLength, Name.wireLength, h.wireLengthAll_eq, search_congr hreverse]

end Querier.Compression
