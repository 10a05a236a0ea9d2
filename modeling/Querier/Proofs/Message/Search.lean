import Querier.Message.Writer
import Querier.Proofs.Message.Compression

/-!
# The longest earlier suffix

The search goes through the remembered names in the order in which they were written. Of each
it takes the labels from the last one back for as long as they match, it keeps what is strictly
longer than the best so far, and it stops early at a name that offers all of the new one. What
comes of this is said by `Longest`, without the search: no name that can be pointed into offers
more, and none before it as much.

The invariant of the loop is `Best`, which says of the best so far what `Longest` says of the
result. It can be added to at the end (`Best.add`), and it survives the early return because
nothing is longer than the whole name.

## Main results

* `offers_of_offered`, `offered_of_offers`: what is taken from one name is the most that it
  offers.
* `best_search`: the search finds the best of the names that it goes through.
* `Longest.unique`: there is only one longest suffix that comes first.
* `find_longest`: the search finds it, and finds nothing exactly if no name ends in the same
  last label.
-/

namespace Querier.Compression

open View

variable {b : Octets} {v : View} {n : Name} {start : Nat} {s : Suffix}

/-! ## One name -/

/-- What the search takes from the name at one of the starts. -/
def offered (b : Octets) (n : Name) (start : Nat) : Option Suffix :=
  (labelOffsets b start).bind (commonSuffix b 1 none n.labels.reverse)

theorem offers_of_offered (h : offered b n start = some s) : Offers b.view n start s := by
  obtain ⟨offsets, hoffsets, hcommon⟩ := Option.bind_eq_some_iff.mp h
  obtain ⟨ps, hps, hrev⟩ := labelOffsets_eq_some_iff.mp hoffsets
  exact offers_of_commonSuffix hps (Le.refl _) hrev hcommon

theorem commonSuffix_of_match {length : Nat} {best : Option Suffix} {l : Label} {o : Nat}
    (h : labelAt b l o = true) (labels : List Label) (offsets : List Nat) :
    commonSuffix b length best (l :: labels) (o :: offsets) =
      commonSuffix b (length + l.wireLength) (some ⟨o, length + l.wireLength⟩) labels offsets := by
  rw [commonSuffix, if_pos h]

/-- With something to keep, the comparison of labels gives that or something longer. -/
theorem le_commonSuffix {length : Nat} (h : s.length ≤ length) (labels : List Label)
    (offsets : List Nat) :
    ∃ t, commonSuffix b length (some s) labels offsets = some t ∧ s.length ≤ t.length := by
  induction labels generalizing length s offsets with
  | nil => exact ⟨s, rfl, Nat.le_refl _⟩
  | cons l labels ih =>
      cases offsets with
      | nil => exact ⟨s, rfl, Nat.le_refl _⟩
      | cons o offsets =>
          rw [commonSuffix]
          split
          · obtain ⟨t, ht, hle⟩ := ih (s := ⟨o, length + l.wireLength⟩) (Nat.le_refl _) offsets
            refine ⟨t, ht, ?_⟩
            simp only at hle
            omega
          · exact ⟨s, rfl, Nat.le_refl _⟩

/-- The comparison goes on for as long as labels match. -/
theorem commonSuffix_of_forall₂ {k : Label} {ks ks' : List Label} {o : Nat} {os os' : List Nat}
    (h : List.Forall₂ (fun k o => labelAt b k o = true) (k :: ks) (o :: os)) (length : Nat)
    (best : Option Suffix) :
    ∃ t, commonSuffix b length best (k :: ks ++ ks') (o :: os ++ os') = some t ∧
      length + wireLengthBelow (k :: ks) ≤ t.length := by
  induction ks generalizing length best k o os with
  | nil =>
      cases h with
      | cons hmatch hrest =>
          obtain ⟨t, ht, hle⟩ := le_commonSuffix (b := b) (s := ⟨o, length + k.wireLength⟩)
            (Nat.le_refl _) ks' (os ++ os')
          exact ⟨t, (commonSuffix_of_match hmatch _ _).trans ht, hle⟩
  | cons k' ks ih =>
      cases h with
      | cons hmatch hrest =>
          cases os with
          | nil => cases hrest
          | cons o' os =>
              obtain ⟨t, ht, hle⟩ := ih hrest (length + k.wireLength)
                (some ⟨o, length + k.wireLength⟩)
              refine ⟨t, (commonSuffix_of_match hmatch _ _).trans ht, ?_⟩
              rw [wireLengthBelow, ← Nat.add_assoc]
              exact hle

/-- The search takes the most that a name offers. -/
theorem offered_of_offers (h : Offers b.view n start s) :
    ∃ t, offered b n start = some t ∧ s.length ≤ t.length := by
  obtain ⟨ahead, p, behind, back, heligible, ⟨front, hfront⟩, hsame, rfl⟩ := h
  have hoffsets := labelOffsets_eq_some_iff.mpr ⟨_, heligible, rfl⟩
  have hstands : ∀ q ∈ (p :: behind).reverse, Holds b.view q.1 q.2.wire := by
    intro q hq
    refine heligible.chain.holds q (List.mem_append_right _ ?_)
    exact List.mem_reverse.mp hq
  have hmatch : List.Forall₂ (fun k o => labelAt b k o = true) back.reverse
      ((p :: behind).reverse.map Prod.fst) := by
    refine (forall₂_labelAt_iff hstands back.reverse).mpr ?_
    rw [List.map_reverse]
    exact List.forall₂_reverse_iff.mpr hsame
  have hlength := wireLengthBelow_reverse back
  have hrev : ((ahead ++ p :: behind).map Prod.fst).reverse =
      (p :: behind).reverse.map Prod.fst ++ (ahead.map Prod.fst).reverse := by
    rw [List.map_append, List.reverse_append, List.map_reverse]
  have hlabels : n.labels.reverse = back.reverse ++ front.reverse := by
    rw [← hfront, List.reverse_append]
  rw [offered, hoffsets, Option.bind_some, hrev, hlabels]
  -- The labels that match are not none, so both lists have a first one.
  cases hks : back.reverse with
  | nil =>
      rw [List.reverse_eq_nil_iff] at hks
      subst hks
      cases hsame
  | cons k ks =>
      rw [hks] at hmatch hlength
      cases hos : (p :: behind).reverse.map Prod.fst with
      | nil =>
          rw [hos] at hmatch
          cases hmatch
      | cons o os =>
          rw [hos] at hmatch
          rw [← hlength]
          exact commonSuffix_of_forall₂ hmatch 1 none

theorem Offers.length_le (h : Offers v n start s) : s.length ≤ n.wireLength := by
  obtain ⟨front, back, -, -, hlabels, -, hlength, -⟩ := h.exists_back
  have hall := Name.wireLengthAll_append front back
  have hfront := Name.wireLengthAll_pos front
  rw [Name.wireLength, hlabels, hlength]
  omega

/-! ## All names -/

/-- The suffix `s` of `n` is the longest that the names at the starts offer, and it is at the
first start that offers as much. -/
def Longest (v : View) (n : Name) (starts : List Nat) (s : Suffix) : Prop :=
  ∃ before start after, starts = before ++ start :: after ∧ Offers v n start s ∧
    (∀ earlier ∈ before, ∀ t, Offers v n earlier t → t.length < s.length) ∧
    ∀ later ∈ start :: after, ∀ t, Offers v n later t → t.length ≤ s.length

/-- The best that the names at the starts offer, if they offer anything. -/
def Best (v : View) (n : Name) (starts : List Nat) : Option Suffix → Prop
  | none => ∀ start ∈ starts, ∀ s, ¬ Offers v n start s
  | some s => Longest v n starts s

variable {starts : List Nat}

theorem Longest.le (h : Longest v n starts s) :
    ∀ start ∈ starts, ∀ t, Offers v n start t → t.length ≤ s.length := by
  obtain ⟨before, start', after, rfl, -, hbefore, hafter⟩ := h
  intro start hstart t ht
  rcases List.mem_append.mp hstart with hstart | hstart
  · exact Nat.le_of_lt (hbefore start hstart t ht)
  · exact hafter start hstart t ht

/-- Names that come later and offer no more change nothing. -/
theorem Longest.append (h : Longest v n starts s) {more : List Nat}
    (hmore : ∀ later ∈ more, ∀ t, Offers v n later t → t.length ≤ s.length) :
    Longest v n (starts ++ more) s := by
  obtain ⟨before, start, after, rfl, hs, hbefore, hafter⟩ := h
  refine ⟨before, start, after ++ more, by simp, hs, hbefore, fun later hlater => ?_⟩
  rw [← List.cons_append] at hlater
  rcases List.mem_append.mp hlater with hlater | hlater
  · exact hafter later hlater
  · exact hmore later hlater

/-- A name that offers more than all before it is the first to offer as much. -/
theorem Best.longest {best : Option Suffix} (h : Best v n starts best)
    (hs : Offers v n start s) (hbest : ∀ t ∈ best, t.length < s.length) {after : List Nat}
    (hafter : ∀ later ∈ start :: after, ∀ t, Offers v n later t → t.length ≤ s.length) :
    Longest v n (starts ++ start :: after) s := by
  refine ⟨starts, start, after, rfl, hs, fun earlier hearlier t ht => ?_, hafter⟩
  cases best with
  | none => exact absurd ht (h earlier hearlier t)
  | some best =>
      have hle := Longest.le h earlier hearlier t ht
      have hlt := hbest best rfl
      omega

/-- The best with one more name is the better of the best so far and what that name offers. -/
theorem Best.add {best : Option Suffix} (h : Best b.view n starts best) (start : Nat) :
    Best b.view n (starts ++ [start]) (better best (offered b n start)) := by
  have hall : ∀ later ∈ [start], ∀ t, Offers b.view n later t →
      ∃ s, offered b n start = some s ∧ t.length ≤ s.length := by
    intro later hlater t ht
    rw [List.mem_singleton.mp hlater] at ht
    exact offered_of_offers ht
  cases hnew : offered b n start with
  | none =>
      have hnone : ∀ later ∈ [start], ∀ t, ¬ Offers b.view n later t := by
        intro later hlater t ht
        obtain ⟨s, hs, -⟩ := hall later hlater t ht
        cases hnew.symm.trans hs
      cases best with
      | none =>
          intro later hlater t ht
          rcases List.mem_append.mp hlater with hlater | hlater
          · exact h later hlater t ht
          · exact hnone later hlater t ht
      | some s => exact Longest.append h fun later hlater t ht => absurd ht (hnone later hlater t)
  | some new =>
      have hle : ∀ later ∈ [start], ∀ t, Offers b.view n later t → t.length ≤ new.length := by
        intro later hlater t ht
        obtain ⟨s, hs, hle⟩ := hall later hlater t ht
        cases hnew.symm.trans hs
        exact hle
      have hoffers := offers_of_offered hnew
      cases best with
      | none => exact h.longest hoffers (by simp) hle
      | some best =>
          simp only [better]
          split
          · rename_i hlt
            exact h.longest hoffers (by simpa using hlt) hle
          · rename_i hge
            refine Longest.append h fun later hlater t ht => ?_
            have := hle later hlater t ht
            omega

@[simp] theorem better_none (best : Option Suffix) : better best none = best := by
  cases best <;> rfl

theorem search_cons (b : Octets) (n : Name) (best : Option Suffix) (start : Nat)
    (starts : List Nat) :
    search b n.labels.reverse n.wireLength best (start :: starts) =
      if (offered b n start).any (·.length == n.wireLength) then offered b n start
      else search b n.labels.reverse n.wireLength (better best (offered b n start)) starts := by
  rw [search]
  unfold offered
  cases labelOffsets b start with
  | none => simp
  | some offsets => rfl

/-- The search finds the best of the names before it and those that it goes through, as long as
none so far has offered the whole name. -/
theorem best_search {best : Option Suffix} {later : List Nat} (h : Best b.view n starts best)
    (hshort : ∀ s ∈ best, s.length < n.wireLength) :
    Best b.view n (starts ++ later)
      (search b n.labels.reverse n.wireLength best later) := by
  induction later generalizing starts best with
  | nil =>
      rw [List.append_nil]
      exact h
  | cons start later ih =>
      rw [search_cons]
      split
      -- A name that offers all of `n` ends the search, and nothing after it is longer.
      · rename_i hany
        obtain ⟨new, hnew, hany⟩ := (Option.any_eq_true _ _).mp hany
        have hwhole : new.length = n.wireLength := beq_iff_eq.mp hany
        rw [hnew]
        refine h.longest (offers_of_offered hnew) (hwhole ▸ hshort) fun start' _ t ht => ?_
        rw [hwhole]
        exact ht.length_le
      · rename_i hany
        have hrest := ih (h.add start) ?_
        · rwa [List.append_assoc, List.singleton_append] at hrest
        · intro s hs
          rcases better_eq_some hs with hbest | hnew
          · exact hshort s hbest
          · have hoffers := offers_of_offered hnew
            refine Nat.lt_of_le_of_ne hoffers.length_le fun hwhole => hany ?_
            rw [hnew, Option.any_some, hwhole, beq_self_eq_true]

theorem best_find (h : n.labels.length ≤ 34) (starts : List Nat) :
    Best b.view n starts (find b starts n) := by
  have hlimit : n.labels.length ≤ labelLimit := h
  have hnone : Best b.view n [] none := List.forall_mem_nil _
  rw [find, if_pos hlimit]
  exact best_search hnone (by simp)

/-! ## The result -/

theorem eq_of_suffix {back back' : List Label} (h : back <:+ back')
    (hlength : Label.wireLengthAll back = Label.wireLengthAll back') : back = back' := by
  obtain ⟨front, rfl⟩ := h
  have hall := Name.wireLengthAll_append front back
  cases front with
  | nil => rfl
  | cons l front =>
      have hl := l.length_pos
      have hfront := Name.wireLengthAll_pos front
      rw [Label.wireLengthAll, Label.wireLength] at hall
      omega

/-- A name offers a number of octets at one offset only. -/
theorem Offers.unique {t : Suffix} (hs : Offers b.view n start s) (ht : Offers b.view n start t)
    (hlength : s.length = t.length) : s = t := by
  obtain ⟨ahead, p, behind, back, heligible, hback, hsame, rfl⟩ := hs
  obtain ⟨ahead', p', behind', back', heligible', hback', hsame', rfl⟩ := ht
  have hbacks : back = back' := by
    rcases List.suffix_or_suffix_of_suffix hback hback' with h | h
    · exact eq_of_suffix h hlength
    · exact (eq_of_suffix h hlength.symm).symm
  have hbehind : behind.length = behind'.length := by
    have hs := hsame.length_eq
    have ht := hsame'.length_eq
    rw [← hbacks, ← hs] at ht
    simpa using ht.symm
  have hoffsets := labelOffsets_eq_some_iff.mpr ⟨_, heligible, rfl⟩
  rw [labelOffsets_eq_some_iff.mpr ⟨_, heligible', rfl⟩, Option.some.injEq,
    List.reverse_inj, List.map_append, List.map_append] at hoffsets
  have htails := List.append_inj_right' hoffsets (by simp [hbehind])
  rw [List.map_cons, List.map_cons, List.cons.injEq] at htails
  rw [htails.1, hbacks]

/-- There is only one longest suffix that comes first. -/
theorem Longest.unique {t : Suffix} (hs : Longest b.view n starts s)
    (ht : Longest b.view n starts t) : s = t := by
  have hle := hs.le
  have hle' := ht.le
  obtain ⟨before, start, after, rfl, hs, hbefore, -⟩ := hs
  obtain ⟨before', start', after', hsplit, ht, hbefore', -⟩ := ht
  have hlength : s.length = t.length := by
    refine Nat.le_antisymm (hle' start (by simp) s hs) (hle start' ?_ t ht)
    rw [hsplit]
    simp
  -- Neither of the two starts can be among those before the other.
  rcases List.append_eq_append_iff.mp hsplit with ⟨more, rfl, hrest⟩ | ⟨more, rfl, hrest⟩
  · cases more with
    | nil =>
        cases hrest
        exact hs.unique ht hlength
    | cons _ more =>
        cases hrest
        have := hbefore' start (by simp) s hs
        omega
  · cases more with
    | nil =>
        cases hrest
        exact hs.unique ht hlength
    | cons _ more =>
        cases hrest
        have := hbefore start' (by simp) t ht
        omega

/-- A name offers nothing exactly if its last label is another one. -/
theorem not_offers_iff :
    (∀ s, ¬ Offers v n start s) ↔ ∀ ahead p front l, Eligible v start (ahead ++ [p]) →
      n.labels = front ++ [l] → p.2.same l = false := by
  constructor
  · intro h ahead p front l heligible hlabels
    refine Bool.eq_false_iff.mpr fun hsame => ?_
    exact h _ ⟨ahead, p, [], [l], heligible, ⟨front, hlabels.symm⟩, .cons hsame .nil, rfl⟩
  · rintro h s ⟨ahead, p, behind, back, heligible, ⟨front, hfront⟩, hsame, rfl⟩
    obtain ⟨init, q, hlast⟩ := (p :: behind).eq_nil_or_concat.resolve_left (by simp)
    rw [List.concat_eq_append] at hlast
    have hreverse := List.forall₂_reverse_iff.mpr hsame
    rw [hlast, List.map_append, List.reverse_append] at hreverse
    cases hback : back.reverse with
    | nil =>
        rw [hback] at hreverse
        cases hreverse
    | cons l ls =>
        rw [hback] at hreverse
        have hsplit : back = ls.reverse ++ [l] := by
          rw [← List.reverse_reverse back, hback, List.reverse_cons]
        have hdiffers := h (ahead ++ init) q (front ++ ls.reverse) l
          (by rw [List.append_assoc, ← hlast]; exact heligible)
          (by rw [List.append_assoc, ← hsplit]; exact hfront.symm)
        cases hreverse with
        | cons hmatch _ => cases hdiffers.symm.trans hmatch

/-- **The search finds the longest earlier suffix, and the first one of that length.** Whatever
stands in the message and is remembered of it, nothing is found exactly if no name that can be
pointed into ends in the last label of the new name. Otherwise it is the longest suffix of the
new name that such a name ends in, up to case, in octets with the root, at the offset where it
begins in the first of the remembered names that have as much of it. -/
theorem find_longest (w : Writer) (n : Name) (h : n.labels.length ≤ 34) :
    (find w.content w.names n = none ↔ ∀ start ∈ w.names, ∀ ahead p front l,
        Eligible w.content.view start (ahead ++ [p]) → n.labels = front ++ [l] →
          p.2.same l = false) ∧
      ∀ s, find w.content w.names n = some s ↔ Longest w.content.view n w.names s := by
  have hbest : Best w.content.view n w.names (find w.content w.names n) := best_find h w.names
  cases hfind : find w.content w.names n with
  | none =>
      rw [hfind] at hbest
      refine ⟨⟨fun _ start hstart => not_offers_iff.mp (hbest start hstart), fun _ => rfl⟩,
        fun s => ⟨fun hs => (by cases hs), fun hs => ?_⟩⟩
      obtain ⟨before, start, after, hnames, hs, -⟩ := hs
      exact absurd hs (hbest start (by simp [hnames]) s)
  | some found =>
      rw [hfind] at hbest
      have hlongest : Longest w.content.view n w.names found := hbest
      refine ⟨⟨fun hnone => (by cases hnone), fun hnone => ?_⟩,
        fun s => ⟨fun hs => ?_, fun hs => ?_⟩⟩
      · obtain ⟨before, start, after, hnames, hs, -⟩ := hlongest
        exact absurd hs (not_offers_iff.mpr (hnone start (by simp [hnames])) found)
      · cases hs
        exact hlongest
      · rw [hlongest.unique hs]

/-- The label `info`. -/
def info : Label := ⟨[105, 110, 102, 111], by decide, by decide⟩

/-- The label `INFO`. -/
def upperInfo : Label := ⟨[73, 78, 70, 79], by decide, by decide⟩

/-- The label `mail`. -/
def mail : Label := ⟨[109, 97, 105, 108], by decide, by decide⟩

/-- The label `mx`. -/
def mx : Label := ⟨[109, 120], by decide, by decide⟩

/-- A message for `mail.info` with a record at `mx.INFO` that is not compressed, so that the last
label of both names stands twice. -/
def doubled : Writer :=
  (Writer.new ⟨[mail, info], by decide⟩ .mx .internet ⟨0⟩).run
    [.start ⟨[mx, upperInfo], by decide⟩ .mx 60 .internet .answer false]

/-- The name `mx.info`. -/
def mxInfo : Name := ⟨[mx, info], by decide⟩

theorem find_longest_doubled :
    mxInfo.labels.length ≤ 34 ∧ doubled.names = [12, 27] ∧
      Longest doubled.content.view mxInfo doubled.names ⟨27, 9⟩ := by
  have hshort : mxInfo.labels.length ≤ 34 := by decide
  have hlimit : mxInfo.labels.length ≤ labelLimit := hshort
  have hnames : doubled.names = [12, 27] := by decide
  have hfirst : Eligible doubled.content.view 12 [(12, mail), (17, info)] :=
    ⟨.label (holds_iff.mpr (by decide)) (.label (holds_iff.mpr (by decide)) (.root (by decide))),
      by decide, by decide⟩
  have hsecond : Eligible doubled.content.view 27 [(27, mx), (30, upperInfo)] :=
    ⟨.label (holds_iff.mpr (by decide)) (.label (holds_iff.mpr (by decide)) (.root (by decide))),
      by decide, by decide⟩
  have hfind : find doubled.content doubled.names mxInfo = some ⟨27, 9⟩ := by
    rw [find, if_pos hlimit, hnames]
    simp only [search, labelOffsets_eq_some_iff.mpr ⟨_, hfirst, rfl⟩,
      labelOffsets_eq_some_iff.mpr ⟨_, hsecond, rfl⟩]
    decide
  exact ⟨hshort, hnames, ((find_longest doubled mxInfo hshort).2 ⟨27, 9⟩).mp hfind⟩

end Querier.Compression
