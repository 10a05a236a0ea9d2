import Querier.Address.Text
import Querier.Proofs.Text
import Querier.Proofs.View

/-!
# Addresses are read as they were printed

The text of an address is made of numbers with dots or colons between them. Each number is read
with anything behind it that is no digit, so the texts can be read piece by piece from the front.

Two things need care with IPv6. A group is first tried as an embedded IPv4 address, which fails
because no dot follows the decimal digits that the group may begin with. And the groups that a
double colon stands for are not in the text: they come back because the run that was left out
consists of zeros, wherever the longest run was found, and because the length of the address says
how many there are.

## Main results

* `readV4_text`: four octets with dots.
* `readGroups_spelled`: groups with colons, up to the end or a double colon.
* `zerosAt_longestZeros`: the run that is left out consists of zeros.
* `ofTextIn?_toText`: the text of an address is read as the address.
-/

namespace Querier

namespace IpAddress

open Text (digit)

/-! ## Numbers -/

section

variable {radix most n : Nat} {ds : List Nat} {text rest : List UInt8}

/-- No digit of the number system comes next. -/
def Stops (radix : Nat) (rest : List UInt8) : Prop :=
  ∀ o ∈ rest.head?, digitValue? radix o = none

theorem readOctet_self (o : UInt8) (rest : List UInt8) : readOctet o (o :: rest) = some rest :=
  if_pos rfl

theorem digitValue?_ten : ∀ d < 10, digitValue? 10 (digit d) = some d := by decide

theorem digitValue?_sixteen : ∀ d < 16, digitValue? 16 (digit d) = some d := by decide

theorem leadingDigits_digits (read : ∀ d ∈ ds, digitValue? radix (digit d) = some d)
    (stops : Stops radix rest) : leadingDigits radix (ds.map digit ++ rest) = (ds, rest) := by
  induction ds with
  | nil =>
      cases rest with
      | nil => rfl
      | cons o more => rw [List.map_nil, List.nil_append, leadingDigits, stops o rfl]
  | cons d ds ih =>
      have hrest := ih fun e he => read e (List.mem_cons_of_mem _ he)
      rw [List.map_cons, List.cons_append, leadingDigits, read d List.mem_cons_self, hrest]

/-- A number is read if no digit follows. -/
theorem readNumber_numeral (h : Text.Numeral radix most n text)
    (read : ∀ d < radix, digitValue? radix (digit d) = some d) (stops : Stops radix rest) :
    readNumber radix most (text ++ rest) = some (n, rest) := by
  obtain ⟨below, some, few⟩ := h
  rw [readNumber, leadingDigits_digits (fun d hd => read d (below d hd)) stops]
  refine if_neg ?_
  simp only [Bool.or_eq_true, List.isEmpty_iff, decide_eq_true_eq, not_or]
  exact ⟨some, Nat.not_lt_of_le few⟩

theorem leadingDigits_of_stops (stops : Stops radix rest) :
    leadingDigits radix rest = ([], rest) :=
  leadingDigits_digits (List.forall_mem_nil _) stops

/-- There is no number without a digit. -/
theorem readNumber_of_stops (stops : Stops radix rest) : readNumber radix most rest = none := by
  rw [readNumber, leadingDigits_of_stops stops]
  rfl

end

/-! ## IPv4 -/

section

variable {text rest : List UInt8}

/-- The text of a part of an IPv4 address. -/
def part (o : UInt8) : List UInt8 := Octets.ofText (toString o.toNat)

theorem readPart_part (o : UInt8) (stops : Stops 10 rest) :
    readPart (part o ++ rest) = some (o, rest) := by
  have ho := o.toNat_lt
  have small : o.toNat < 1000 := by omega
  have number : readNumber 10 3 (part o ++ rest) = some (o.toNat, rest) :=
    readNumber_numeral (Text.numeral_decimal small) digitValue?_ten stops
  have zero : ∀ d < 10, digit d = 48 → d = 0 := by decide
  obtain ⟨d, ds, hds, leading⟩ := Text.exists_decimalDigits small
  have proper : ¬ ((part o ++ rest).length - rest.length > 1 ∧
      (part o ++ rest).head? = some 48) := by
    rintro ⟨long, first⟩
    rw [part, Text.ofText_toString small, hds, List.map_cons, List.cons_append, List.head?_cons,
      Option.some.injEq] at first
    have hd := Text.decimalDigits_lt small d (by rw [hds]; exact List.mem_cons_self)
    rw [part, Text.ofText_toString small, hds, leading (zero d hd first), List.map_singleton,
      List.length_append, List.length_singleton] at long
    omega
  rw [readPart, number]
  simp only [Bool.and_eq_true, decide_eq_true_eq, beq_iff_eq]
  rw [if_neg proper, if_pos ho, UInt8.ofNat_toNat]

theorem ofText_dotted (a b c d : UInt8) : Octets.ofText (dotted [a, b, c, d]) =
    part a ++ 46 :: (part b ++ 46 :: (part c ++ 46 :: part d)) := by
  have dot : Octets.ofText "." = [46] := Octets.ofText_ascii rfl
  simp only [dotted, List.map_cons, List.map_nil, String.intercalate_cons_cons,
    String.intercalate_singleton, Octets.ofText_append, dot, List.append_assoc,
    List.singleton_append, part]

/-- The text of an IPv4 address is read if no digit follows. -/
theorem readV4_dotted (a b c d : UInt8) (stops : Stops 10 rest) :
    readV4 (Octets.ofText (dotted [a, b, c, d]) ++ rest) = some ([a, b, c, d], rest) := by
  have dot (more : List UInt8) : Stops 10 (46 :: more) := by
    intro o ho
    cases ho
    decide
  rw [ofText_dotted]
  simp only [readV4, List.append_assoc, List.cons_append, readPart_part _ (dot _),
    readPart_part _ stops, readOctet_self, Option.bind_eq_bind, Option.bind_some, Option.pure_def]

theorem readV4_text (a b c d : UInt8) :
    readV4 (Octets.ofText (dotted [a, b, c, d])) = some ([a, b, c, d], []) := by
  have stops : Stops 10 [] := fun o ho => by cases ho
  have read := readV4_dotted a b c d stops
  rwa [List.append_nil] at read

theorem rest_of_readPart {o : UInt8} (h : readPart text = some (o, rest)) :
    rest = (leadingDigits 10 text).2 := by
  rw [readPart, readNumber] at h
  simp only at h
  split at h
  · cases h
  · rename_i n more hmore
    split at hmore
    · cases hmore
    · cases hmore
      split at h
      · cases h
      · split at h
        · cases h
          rfl
        · cases h

/-- There is no IPv4 address without a dot behind the first digits. -/
theorem readV4_eq_none (h : (leadingDigits 10 text).2.head? ≠ some 46) : readV4 text = none := by
  rw [readV4]
  cases hpart : readPart text with
  | none => rfl
  | some read =>
      obtain ⟨o, rest⟩ := read
      rw [← rest_of_readPart hpart] at h
      have dot : readOctet 46 rest = none := by
        cases rest with
        | nil => rfl
        | cons x more => exact if_neg fun hx => h (congrArg some hx)
      simp only [Option.bind_eq_bind, Option.bind_some, dot, Option.bind_none]

end

/-! ## Groups -/

section

variable {rest : List UInt8} {gs : List UInt16}

/-- The text of a group. -/
def word (g : UInt16) : List UInt8 := Octets.ofText (Text.hexWord g)

/-- The text of groups, with a colon before each of them but the first of all. -/
def spelled (first : Bool) : List UInt16 → List UInt8
  | [] => []
  | g :: gs => (if first then [] else [58]) ++ (word g ++ spelled false gs)

/-- The groups are at an end: nothing follows, or a double colon. -/
inductive Break : List UInt8 → Prop where
  | nil : Break []
  | colons (more : List UInt8) : Break (58 :: 58 :: more)

theorem ofText_colonized (gs : List UInt16) :
    Octets.ofText (colonized gs) = spelled true gs := by
  have colon : Octets.ofText ":" = [58] := Octets.ofText_ascii rfl
  have tail (g : UInt16) (gs : List UInt16) :
      58 :: spelled true (g :: gs) = spelled false (g :: gs) := rfl
  rw [colonized]
  induction gs with
  | nil => exact Octets.ofText_ascii rfl
  | cons g gs ih =>
      cases gs with
      | nil =>
          rw [List.map_singleton, String.intercalate_singleton]
          exact (List.append_nil _).symm
      | cons g' gs =>
          rw [List.map_cons] at ih ⊢
          rw [List.map_cons, String.intercalate_cons_cons, Octets.ofText_append,
            Octets.ofText_append, ih, colon, List.append_assoc, List.singleton_append, tail]
          rfl

theorem head?_colon (more : List UInt8) : ∀ o ∈ (58 :: more).head?, o = 58 :=
  fun _ ho => (Option.mem_some_iff.mp ho).symm

/-- A colon follows a group, if anything. -/
theorem head?_spelled (h : Break rest) (gs : List UInt16) :
    ∀ o ∈ (spelled false gs ++ rest).head?, o = 58 := by
  cases gs with
  | nil =>
      cases h with
      | nil => exact fun o ho => by cases ho
      | colons more => exact head?_colon _
  | cons g gs => exact head?_colon _

section

variable (h : ∀ o ∈ rest.head?, o = 58)

include h

theorem stops_of_colon : Stops 10 rest ∧ Stops 16 rest := by
  refine ⟨fun o ho => ?_, fun o ho => ?_⟩ <;> rw [h o ho] <;> decide

/-- A group is read if a colon follows, if anything. -/
theorem readNumber_word (g : UInt16) :
    readNumber 16 4 (word g ++ rest) = some (g.toNat, rest) :=
  readNumber_numeral (Text.numeral_hexWord g) digitValue?_sixteen (stops_of_colon h).2

/-- A hexadecimal number is not the beginning of an IPv4 address. -/
theorem readV4_numeral {most n : Nat} {text : List UInt8}
    (numeral : Text.Numeral 16 most n text) : readV4 (text ++ rest) = none := by
  have dot : ∀ d < 16, digit d ≠ 46 := by decide
  have letter : ∀ d < 16, ¬ d < 10 → digitValue? 10 (digit d) = none := by decide
  obtain @⟨ds, below, -, -⟩ := numeral
  apply readV4_eq_none
  induction ds with
  | nil =>
      rw [List.map_nil, List.nil_append, leadingDigits_of_stops (stops_of_colon h).1]
      exact fun first => absurd (h 46 first) (by decide)
  | cons d ds ih =>
      obtain ⟨hd, hds⟩ := List.forall_mem_cons.mp below
      rw [List.map_cons, List.cons_append, leadingDigits]
      by_cases decimal : d < 10
      · rw [digitValue?_ten d decimal]
        exact ih hds
      · rw [letter d hd decimal]
        exact fun first => dot d hd (Option.some.inj first)

end

/-- No group begins where groups break off, even behind a colon. -/
theorem head?_of_readColon (h : Break rest) {first : Bool} {text : List UInt8}
    (hread : readColon first rest = some text) : ∀ o ∈ text.head?, o = 58 := by
  cases h with
  | nil =>
      cases first with
      | false => cases hread
      | true =>
          cases hread
          exact fun o ho => by cases ho
  | colons more =>
      cases first with
      | false =>
          rw [readColon, if_neg Bool.false_ne_true, readOctet_self] at hread
          cases hread
          exact head?_colon _
      | true =>
          cases hread
          exact head?_colon _

theorem readGroups_break (h : Break rest) (first : Bool) (room : Nat) :
    readGroups first room rest = ([], rest, false) := by
  cases room with
  | zero => rfl
  | succ room =>
      rw [readGroups]
      cases hread : readColon first rest with
      | none => simp only [Option.bind_none, ite_self]
      | some text =>
          have stops := stops_of_colon (head?_of_readColon h hread)
          have dotted : readV4 text = none := by
            rw [readV4, readPart, readNumber_of_stops stops.1]
            rfl
          simp only [Option.bind_some, dotted, readNumber_of_stops stops.2, ite_self]

theorem readColon_spelled (first : Bool) (g : UInt16) (gs : List UInt16) :
    readColon first (spelled first (g :: gs) ++ rest) =
      some (word g ++ (spelled false gs ++ rest)) := by
  rw [spelled, List.append_assoc, List.append_assoc]
  cases first with
  | false => rw [readColon, if_neg Bool.false_ne_true, if_neg Bool.false_ne_true,
      List.singleton_append, readOctet_self]
  | true => rfl

/-- Groups are read up to where they break off, if there is room for them. -/
theorem readGroups_spelled (h : Break rest) (first : Bool) (gs : List UInt16) {room : Nat}
    (fits : gs.length ≤ room) : readGroups first room (spelled first gs ++ rest) =
      (gs.flatMap Octets.ofUInt16, rest, false) := by
  induction gs generalizing first room with
  | nil => exact readGroups_break h first room
  | cons g gs ih =>
      cases room with
      | zero => cases fits
      | succ room =>
          have behind := head?_spelled h gs
          have dotted : readV4 (word g ++ (spelled false gs ++ rest)) = none :=
            readV4_numeral behind (Text.numeral_hexWord g)
          rw [readGroups, readColon_spelled, Option.bind_some, Option.bind_some, dotted, ite_self,
            readNumber_word behind g]
          simp only [ih false (Nat.le_of_succ_le_succ fits), List.flatMap_cons]
          rfl

end

/-! ## The longest run of zeros -/

/-- From a position on there are some groups of zeros. -/
def ZerosAt (gs : List UInt16) (start len : Nat) : Prop :=
  ∃ before after, before.length = start ∧ gs = before ++ (List.replicate len 0 ++ after)

/-- The longest run of zeros is one, if the longest so far is one and zeros are right before the
groups that are still to be seen. -/
theorem zerosAt_longestZeros {all seen gs : List UInt16} {run : Nat} {best : Nat × Nat}
    (hall : all = seen ++ (List.replicate run 0 ++ gs)) (hbest : ZerosAt all best.1 best.2) :
    ZerosAt all (longestZeros (seen.length + run) run best gs).1
      (longestZeros (seen.length + run) run best gs).2 := by
  induction gs generalizing seen run best with
  | nil => exact hbest
  | cons g gs ih =>
      rw [longestZeros]
      by_cases zero : g = 0
      · have longer : all = seen ++ (List.replicate (run + 1) 0 ++ gs) := by
          rw [hall, zero, List.replicate_succ', List.append_assoc, List.singleton_append]
        rw [if_pos zero, Nat.add_assoc]
        apply ih longer
        split
        · rw [Nat.add_sub_cancel]
          exact ⟨seen, gs, rfl, longer⟩
        · exact hbest
      · have beyond : all =
            (seen ++ (List.replicate run 0 ++ [g])) ++ (List.replicate 0 0 ++ gs) := by
          rw [hall, List.replicate_zero, List.nil_append, List.append_assoc, List.append_assoc,
            List.singleton_append]
        have position :
            seen.length + run + 1 = (seen ++ (List.replicate run 0 ++ [g])).length := by
          simp only [List.length_append, List.length_replicate, List.length_singleton,
            Nat.add_assoc]
        rw [if_neg zero, position]
        exact ih beyond hbest

/-! ## IPv6 -/

theorem flatMap_groups {os : List UInt8} (even : os.length % 2 = 0) :
    (groups os).flatMap Octets.ofUInt16 = os := by
  fun_induction groups os with
  | case1 hi lo rest ih =>
      have hrest : rest.length % 2 = 0 := by
        rw [List.length_cons, List.length_cons] at even
        omega
      rw [List.flatMap_cons, Octets.ofUInt16_uInt16, ih hrest]
      rfl
  | case2 os none =>
      cases os with
      | nil => rfl
      | cons hi os =>
          cases os with
          | nil => cases even
          | cons lo rest => exact (none hi lo rest rfl).elim

theorem length_flatMap_ofUInt16 (gs : List UInt16) :
    (gs.flatMap Octets.ofUInt16).length = 2 * gs.length := by
  induction gs with
  | nil => rfl
  | cons g gs ih =>
      rw [List.flatMap_cons, List.length_append, ih, List.length_cons]
      show 2 + 2 * gs.length = _
      omega

theorem flatMap_zeros (len : Nat) :
    (List.replicate len (0 : UInt16)).flatMap Octets.ofUInt16 = List.replicate (2 * len) 0 := by
  induction len with
  | zero => rfl
  | succ len ih =>
      rw [List.replicate_succ, List.flatMap_cons, ih, Nat.mul_succ]
      rfl

section

variable {os : List UInt8}

theorem readV6_colonized {gs : List UInt16} (h : gs.length = 8) :
    readV6 (Octets.ofText (colonized gs)) = some (gs.flatMap Octets.ofUInt16, []) := by
  have read := readGroups_spelled .nil true gs (Nat.le_of_eq h)
  rw [List.append_nil] at read
  rw [ofText_colonized, readV6, read]
  simp only [length_flatMap_ofUInt16, h, if_true]

/-- Zeros that are left out are read again. -/
theorem readV6_leftOut {gs : List UInt16} {start len : Nat} (h : gs.length = 8)
    (zeros : ZerosAt gs start len) (pos : 0 < len) :
    readV6 (Octets.ofText
        (colonized (gs.take start) ++ "::" ++ colonized (gs.drop (start + len)))) =
      some (gs.flatMap Octets.ofUInt16, []) := by
  obtain ⟨before, after, rfl, rfl⟩ := zeros
  rw [List.length_append, List.length_append, List.length_replicate] at h
  have front := readGroups_spelled (.colons (spelled true after)) true before
    (show before.length ≤ 8 by omega)
  have back := readGroups_spelled .nil true after
    (show after.length ≤ 7 - 2 * before.length / 2 by omega)
  rw [List.append_nil] at back
  have colons : Octets.ofText "::" = [58, 58] := Octets.ofText_ascii rfl
  have filled : 16 - 2 * before.length - 2 * after.length = 2 * len := by omega
  rw [List.take_left, ← List.drop_drop, List.drop_left, List.drop_left' List.length_replicate,
    Octets.ofText_append, Octets.ofText_append, colons, ofText_colonized, ofText_colonized,
    List.append_assoc, List.cons_append, List.singleton_append, readV6, front]
  simp only [length_flatMap_ofUInt16, if_neg (show ¬ 2 * before.length = 16 by omega), back,
    readOctet_self, Bool.false_eq_true, if_false, Option.bind_eq_bind, Option.bind_some, Option.pure_def, filled,
    List.flatMap_append, flatMap_zeros, List.append_assoc]

/-- An embedded IPv4 address is read behind a group, as two groups for which there is room. -/
theorem readGroups_embedded (g : UInt16) (a b c d : UInt8) :
    readGroups true 7 (word g ++ 58 :: Octets.ofText (dotted [a, b, c, d])) =
      (Octets.ofUInt16 g ++ [a, b, c, d], [], true) := by
  have behind := head?_colon (Octets.ofText (dotted [a, b, c, d]))
  have group : readV4 (word g ++ 58 :: Octets.ofText (dotted [a, b, c, d])) = none :=
    readV4_numeral behind (Text.numeral_hexWord g)
  have tail : readGroups false 6 (58 :: Octets.ofText (dotted [a, b, c, d])) =
      ([a, b, c, d], [], true) := by
    rw [readGroups, readColon, if_neg Bool.false_ne_true, readOctet_self, Option.bind_some,
      readV4_text]
    rfl
  rw [readGroups, readColon, if_pos rfl, Option.bind_some, Option.bind_some, group, ite_self,
    readNumber_word behind]
  simp only [tail]
  rfl

theorem readV6_embedded (a b c d : UInt8) :
    readV6 (Octets.ofText ("::ffff:" ++ dotted [a, b, c, d])) =
      some (List.replicate 10 0 ++ [255, 255, a, b, c, d], []) := by
  have colons : Octets.ofText "::ffff:" = [58, 58] ++ (word 65535 ++ [58]) := by
    have group : word 65535 = [102, 102, 102, 102] := Octets.ofText_ascii rfl
    rw [group]
    exact Octets.ofText_ascii rfl
  have front := readGroups_break
    (.colons (word 65535 ++ 58 :: Octets.ofText (dotted [a, b, c, d]))) true 8
  rw [Octets.ofText_append, colons, List.append_assoc, List.append_assoc, List.cons_append,
    List.singleton_append, List.singleton_append, readV6, front]
  simp only [List.length_nil, readOctet_self, Option.bind_eq_bind, Option.bind_some,
    Option.pure_def, Nat.zero_div, Nat.sub_zero, readGroups_embedded]
  rfl

/-- The text of an IPv6 address is read as its octets. -/
theorem readV6_textV6 (h : os.length = 16) :
    readV6 (Octets.ofText (textV6 os)) = some (os, []) := by
  have hgroups : (groups os).flatMap Octets.ofUInt16 = os := flatMap_groups (by rw [h])
  have eight : (groups os).length = 8 := by
    have length := length_flatMap_ofUInt16 (groups os)
    rw [hgroups, h] at length
    omega
  have zeros : ZerosAt (groups os) (longestZeros 0 0 (0, 0) (groups os)).1
      (longestZeros 0 0 (0, 0) (groups os)).2 := by
    have none : groups os = [] ++ (List.replicate 0 0 ++ groups os) := rfl
    exact zerosAt_longestZeros none ⟨[], groups os, rfl, rfl⟩
  rw [textV6]
  split
  · rename_i embeds
    obtain ⟨a, b, c, d, hlast⟩ := List.length_eq_four.mp
      (show (os.drop 12).length = 4 by rw [List.length_drop, h])
    have whole : os = List.replicate 10 0 ++ [255, 255, a, b, c, d] := by
      rw [← List.take_append_drop 12 os, embeds, hlast, List.append_assoc]
      rfl
    rw [hlast, readV6_embedded, ← whole]
  · simp only
    split
    · rename_i long
      rw [readV6_leftOut eight zeros (Nat.lt_of_succ_lt long), hgroups]
    · rw [readV6_colonized eight, hgroups]

end

/-! ## Both families -/

/-- The text of an address is read as the address. -/
theorem ofTextIn?_toText (a : IpAddress) :
    ofTextIn? a.family (Octets.ofText a.toText) = some a := by
  obtain ⟨family, os, length⟩ := a
  cases family with
  | v4 =>
      obtain ⟨a, b, c, d, rfl⟩ := List.length_eq_four.mp length
      show ofTextIn? .v4 (Octets.ofText (dotted [a, b, c, d])) = _
      rw [ofTextIn?, readFamily, readV4_text]
      rfl
  | v6 =>
      have read : readV6 (Octets.ofText (textV6 os)) = some (os, []) := readV6_textV6 length
      show ofTextIn? .v6 (Octets.ofText (textV6 os)) = _
      rw [ofTextIn?, readFamily, read]
      simp only [Option.bind_some, ofOctets?, dif_pos length, Option.map_some]

/-- Of two runs of zeros that are equally long the first is left out. -/
example :
    textV6 [32, 1, 13, 184, 0, 0, 0, 0, 0, 1, 0, 0, 0, 0, 0, 1] = "2001:db8::1:0:0:1" := by
  decide

end IpAddress

end Querier
