import Querier.Proofs.Name.WireForm
import Querier.Proofs.Text

/-!
# The presentation form of names

A name can be written in many ways. `NameSpelling` says what all of them are: every octet is
written as it is, behind a backslash or as three digits behind a backslash, as far as the octet
allows it, and there are dots between the labels and perhaps one behind them. It is a grammar of
texts; neither what reads a text nor what prints one is part of it.

Reading is tied to it one octet at a time. The reader has a label in hand that it is not yet
through with, and the spelling of an octet, whichever it is, puts that octet on the label,
`readText_octet`. What a dot or the end of the text does with the label is what making a name from
labels does, so the two agree on names and on errors. The printer is a choice among the spellings
of each octet. That what is printed can be read, and read in one way, is then no question of the
reader and printer together.

## Main results

* `readText_spelling`: reading a spelling of labels is making a name of them.
* `ofText?_eq_ok_iff`: what is read is the dot of the root or a spelling.
* `spelling_toText`: what is printed is a spelling.
* `presentation`: both, and what follows for printing and reading again.
-/

namespace Querier

/-! ## Spellings -/

/-- The digit of a number below ten. -/
def digitOctet (d : Nat) : UInt8 := UInt8.ofNat (48 + d)

/-- The ways to write an octet of a label. -/
inductive OctetSpelling (o : UInt8) : List UInt8 → Prop where
  /-- As it is. -/
  | plain (dot : o ≠ 46) (backslash : o ≠ 92) : OctetSpelling o [o]
  /-- Behind a backslash. -/
  | escaped (digit : Octets.isDigit o = false) : OctetSpelling o [92, o]
  /-- As its three digits behind a backslash. -/
  | decimal : OctetSpelling o [92, digitOctet (o.toNat / 100), digitOctet (o.toNat / 10 % 10),
      digitOctet (o.toNat % 10)]

/-- The ways to write a label. -/
inductive LabelSpelling : List UInt8 → List UInt8 → Prop where
  | nil : LabelSpelling [] []
  | cons {o : UInt8} {os text rest : List UInt8} (first : OctetSpelling o text)
      (others : LabelSpelling os rest) : LabelSpelling (o :: os) (text ++ rest)

/-- The ways to write some labels with dots between them, with or without a dot at the end. -/
inductive NameSpelling : Bool → List (List UInt8) → List UInt8 → Prop where
  | undotted {l text : List UInt8} (last : LabelSpelling l text) : NameSpelling false [l] text
  | dotted {l text : List UInt8} (last : LabelSpelling l text) :
      NameSpelling true [l] (text ++ [46])
  | cons {dot : Bool} {l text rest : List UInt8} {ls : List (List UInt8)}
      (first : LabelSpelling l text) (others : NameSpelling dot ls rest) :
      NameSpelling dot (l :: ls) (text ++ 46 :: rest)

section

variable {o : UInt8} {l text : List UInt8} {ls : List (List UInt8)} {dot : Bool}

/-- No spelling of an octet begins with a dot. -/
theorem OctetSpelling.exists_cons (h : OctetSpelling o text) :
    ∃ c rest, text = c :: rest ∧ c ≠ 46 := by
  cases h with
  | plain dot => exact ⟨_, _, rfl, dot⟩
  | escaped => exact ⟨_, _, rfl, by decide⟩
  | decimal => exact ⟨_, _, rfl, by decide⟩

theorem LabelSpelling.exists_cons (h : LabelSpelling l text) (some : l ≠ []) :
    ∃ c rest, text = c :: rest ∧ c ≠ 46 := by
  cases h with
  | nil => exact absurd rfl some
  | cons first =>
      obtain ⟨c, rest, rfl, hc⟩ := first.exists_cons
      exact ⟨c, _, List.cons_append, hc⟩

/-- Spellings of two parts of a label make one of the whole. -/
theorem LabelSpelling.append {l' text' : List UInt8} (h : LabelSpelling l text)
    (h' : LabelSpelling l' text') : LabelSpelling (l ++ l') (text ++ text') := by
  induction h with
  | nil => exact h'
  | cons first _ ih =>
      rw [List.append_assoc]
      exact .cons first ih

theorem OctetSpelling.label (h : OctetSpelling o text) : LabelSpelling [o] text := by
  have := LabelSpelling.cons h .nil
  rwa [List.append_nil] at this

/-- Nor does one of labels, if they are not empty. -/
theorem NameSpelling.exists_cons (h : NameSpelling dot ls text) (some : ∀ l ∈ ls, l ≠ []) :
    ∃ c rest, text = c :: rest ∧ c ≠ 46 := by
  cases h with
  | undotted last => exact last.exists_cons (some _ (.head _))
  | dotted last =>
      obtain ⟨c, rest, rfl, hc⟩ := last.exists_cons (some _ (.head _))
      exact ⟨c, _, List.cons_append, hc⟩
  | cons first =>
      obtain ⟨c, rest, rfl, hc⟩ := first.exists_cons (some _ (.head _))
      exact ⟨c, _, List.cons_append, hc⟩

end

/-! ## Reading -/

theorem toNat_digitOctet {d : Nat} (h : d < 10) : (digitOctet d).toNat = 48 + d := by
  rw [digitOctet, UInt8.toNat_ofNat']
  omega

theorem isDigit_digitOctet {d : Nat} (h : d < 10) : Octets.isDigit (digitOctet d) = true := by
  have hd := toNat_digitOctet h
  simp only [Octets.isDigit, Bool.and_eq_true, decide_eq_true_eq, UInt8.le_iff_toNat_le, hd,
    UInt8.reduceToNat]
  omega

namespace Name

variable {n : Name} {o : UInt8} {l text : List UInt8} {ls : List (List UInt8)} {dot : Bool}

/-- The digits of an octet are those of no other. -/
theorem escapedOctet?_digits (o : UInt8) :
    escapedOctet? (digitOctet (o.toNat / 100)) (digitOctet (o.toNat / 10 % 10))
      (digitOctet (o.toNat % 10)) = some o := by
  have ho := o.toNat_lt
  have h₁ : o.toNat / 100 < 10 := by omega
  have h₂ : o.toNat / 10 % 10 < 10 := by omega
  have h₃ : o.toNat % 10 < 10 := by omega
  have value : (48 + o.toNat / 100 - 48) * 100 + (48 + o.toNat / 10 % 10 - 48) * 10 +
      (48 + o.toNat % 10 - 48) = o.toNat := by omega
  simp only [escapedOctet?, isDigit_digitOctet h₁, isDigit_digitOctet h₂, isDigit_digitOctet h₃,
    toNat_digitOctet h₁, toNat_digitOctet h₂, toNat_digitOctet h₃, value, Bool.and_self, if_true,
    if_pos (show o.toNat < 256 from ho), UInt8.ofNat_toNat]

/-- However an octet is written, it is put on the label. -/
theorem readText_octet (h : OctetSpelling o text) (n : Name) (label rest : List UInt8) :
    readText n label (text ++ rest) = readText n (o :: label) rest := by
  cases h with
  | plain dot backslash =>
      rw [List.singleton_append, readText.eq_def]
      simp only [if_neg dot, if_neg backslash]
  | escaped digit =>
      rw [List.cons_append, List.singleton_append, readText.eq_def]
      simp only [if_neg (show (92 : UInt8) ≠ 46 by decide), if_true, digit, Bool.false_eq_true,
        if_false]
  | decimal =>
      have first : o.toNat / 100 < 10 := by
        have := o.toNat_lt
        omega
      simp only [List.cons_append, List.nil_append]
      rw [readText.eq_def]
      simp only [if_neg (show (92 : UInt8) ≠ 46 by decide), if_true, isDigit_digitOctet first,
        escapedOctet?_digits]

theorem readText_label (h : LabelSpelling l text) (n : Name) (label rest : List UInt8) :
    readText n label (text ++ rest) = readText n (l.reverse ++ label) rest := by
  induction h generalizing label with
  | nil => rfl
  | cons first _ ih =>
      rw [List.append_assoc, readText_octet first, ih, List.reverse_cons, List.append_assoc,
        List.singleton_append]

/-- A dot ends the label. -/
theorem readText_dot (n : Name) (label rest : List UInt8) :
    readText n label (46 :: rest) = n.pushOctets label.reverse >>= fun n => readText n [] rest := by
  rw [readText.eq_def]
  simp only [if_true]
  cases n.pushOctets label.reverse with
  | error e => rfl
  | ok n => rfl

/-- Reading a spelling of labels puts them at the end of the name, or fails as that does. -/
theorem readText_spelling (h : NameSpelling dot ls text) (some : ∀ l ∈ ls, l ≠ []) (n : Name) :
    readText n [] text = ls.foldlM pushOctets n := by
  induction h generalizing n with
  | @undotted l text last =>
      have hread := readText_label last n [] []
      have more : l.reverse.isEmpty = false := by
        rw [List.isEmpty_reverse, List.isEmpty_eq_false_iff]
        exact some l (.head _)
      rw [List.append_nil, List.append_nil] at hread
      rw [hread, readText.eq_def, List.foldlM_cons]
      simp only [more, Bool.false_eq_true, if_false, List.reverse_reverse]
      exact (bind_pure _).symm
  | dotted last =>
      rw [readText_label last, List.append_nil, readText_dot, List.reverse_reverse,
        List.foldlM_cons]
      rfl
  | cons first _ ih =>
      rw [readText_label first, List.append_nil, readText_dot, List.reverse_reverse,
        List.foldlM_cons]
      congr 1
      funext n
      exact ih (fun l hl => some l (.tail _ hl)) n

/-- A spelling of labels makes the name that the labels make, or fails as they do. -/
theorem ofText?_spelling (h : NameSpelling dot ls text) (some : ∀ l ∈ ls, l ≠ []) :
    ofText? text = ofLabels? ls := by
  obtain ⟨c, rest, rfl, hc⟩ := h.exists_cons some
  have other : c :: rest ≠ [46] := by
    intro h
    cases h
    exact hc rfl
  rw [ofText?, if_neg (by simp), if_neg other, readText_spelling h some]
  rfl

/-! ### Texts that can be read -/

theorem labelOctets_ne_nil (n : Name) : ∀ l ∈ n.labelOctets, l ≠ [] := fun l hl =>
  List.ne_nil_of_length_pos ((wireLabels_labelOctets n).sized l hl).1

/-- Digits that are read as an octet are the digits of it. -/
theorem digits_of_escapedOctet? {d₁ d₂ d₃ : UInt8} (h : escapedOctet? d₁ d₂ d₃ = some o) :
    d₁ = digitOctet (o.toNat / 100) ∧ d₂ = digitOctet (o.toNat / 10 % 10) ∧
      d₃ = digitOctet (o.toNat % 10) := by
  unfold escapedOctet? at h
  split at h
  · rename_i digits
    simp only at h
    split at h
    · rename_i small
      cases h
      simp only [Octets.isDigit, Bool.and_eq_true, decide_eq_true_eq, UInt8.le_iff_toNat_le,
        UInt8.reduceToNat] at digits
      obtain ⟨⟨h₁, h₂⟩, h₃⟩ := digits
      have value := UInt8.toNat_ofNat_of_lt' small
      refine ⟨?_, ?_, ?_⟩ <;> apply UInt8.toNat_inj.mp <;>
        rw [toNat_digitOctet (by omega), value] <;> omega
    · cases h
  · cases h

/-- With what has been read of a label in front of it, however that was written, the rest of a text
spells the labels by which `m` is longer than `n`, unless there is nothing more of either. -/
def Continues (n : Name) (label rest : List UInt8) (m : Name) : Prop :=
  ∀ text, LabelSpelling label.reverse text → (label = [] ∧ rest = [] ∧ m = n) ∨
    ∃ dot ls, m.labelOctets = n.labelOctets ++ ls ∧ NameSpelling dot ls (text ++ rest)

theorem Continues.octet {label piece rest : List UInt8} {m : Name}
    (h : Continues n (o :: label) rest m) (spelled : OctetSpelling o piece) :
    Continues n label (piece ++ rest) m := by
  intro text hlabel
  have longer : LabelSpelling (o :: label).reverse (text ++ piece) := by
    rw [List.reverse_cons]
    exact hlabel.append spelled.label
  rcases h _ longer with ⟨empty, -, -⟩ | ⟨dot, ls, hm, hrest⟩
  · cases empty
  · refine .inr ⟨dot, ls, hm, ?_⟩
    rwa [List.append_assoc] at hrest

/-- Only spellings are read. -/
theorem continues_of_readText {label rest : List UInt8} {m : Name}
    (h : readText n label rest = .ok m) : Continues n label rest m := by
  fun_induction readText n label rest with
  | case1 n label empty =>
      cases h
      exact fun _ _ => .inl ⟨List.isEmpty_iff.mp empty, rfl, rfl⟩
  | case2 n label some =>
      intro text hlabel
      rw [List.append_nil]
      exact .inr ⟨false, [label.reverse], labelOctets_pushOctets h, .undotted hlabel⟩
  | case3 n label rest n' hpush ih =>
      intro text hlabel
      have hn' := labelOctets_pushOctets hpush
      rcases ih h [] .nil with ⟨-, rfl, rfl⟩ | ⟨dot, ls, hm, hrest⟩
      · exact .inr ⟨true, [label.reverse], hn', .dotted hlabel⟩
      · refine .inr ⟨dot, label.reverse :: ls, ?_, .cons hlabel hrest⟩
        rw [hm, hn', List.append_assoc, List.singleton_append]
  | case6 n label d₁ digit d₂ d₃ rest value hvalue _ ih =>
      obtain ⟨rfl, rfl, rfl⟩ := digits_of_escapedOctet? hvalue
      exact (ih h).octet .decimal
  | case9 n label d rest other _ ih =>
      exact (ih h).octet (.escaped (Bool.eq_false_iff.mpr other))
  | case10 n label o rest dot backslash ih => exact (ih h).octet (.plain dot backslash)
  | _ => cases h

/-- A text is read as a name exactly if it is a dot, which is the root, or spells the labels. -/
theorem ofText?_eq_ok_iff : ofText? text = .ok n ↔
    text = [46] ∧ n = root ∨ ∃ dot, NameSpelling dot n.labelOctets text := by
  constructor
  · intro h
    unfold ofText? at h
    split at h
    · cases h
    · rename_i some
      split at h
      · rename_i isDot
        cases h
        exact .inl ⟨isDot, rfl⟩
      · rcases continues_of_readText h [] .nil with ⟨-, rfl, -⟩ | ⟨dot, ls, hn, hspelled⟩
        · exact absurd rfl some
        · obtain rfl : n.labelOctets = ls := hn
          exact .inr ⟨dot, hspelled⟩
  · rintro (⟨rfl, rfl⟩ | ⟨dot, h⟩)
    · rfl
    · rw [ofText?_spelling h n.labelOctets_ne_nil]
      exact ofLabels?_eq_ok_iff.mpr rfl

/-- Labels that are not empty can only be too long, each or all together. -/
theorem foldlM_pushOctets_error {e : NameError} (some : ∀ l ∈ ls, l ≠ [])
    (h : ls.foldlM pushOctets n = .error e) : e = .longLabel ∨ e = .longName := by
  induction ls generalizing n with
  | nil => cases h
  | cons l ls ih =>
      rw [List.foldlM_cons] at h
      cases hpush : n.pushOctets l with
      | ok n' =>
          rw [hpush] at h
          exact ih (fun l hl => some l (.tail _ hl)) h
      | error e' =>
          rw [hpush] at h
          cases h
          have nonempty : l.length ≠ 0 := fun h =>
            some l (.head _) (List.length_eq_zero_iff.mp h)
          rw [pushOctets, dif_neg nonempty] at hpush
          split at hpush
          · cases hpush
            exact .inl rfl
          · split at hpush
            · cases hpush
            · cases hpush
              exact .inr rfl

end Name

/-! ## Printing -/

theorem charOctet_digit {d : Nat} (h : d < 10) : charOctet (Char.ofNat (48 + d)) = digitOctet d :=
  charOctet_ofNat (by omega)

namespace Label

/-- Only ASCII characters are printed. -/
theorem octetText_ascii (o : UInt8) : ∀ c ∈ octetText o, c.toNat < 128 := by
  have ho := o.toNat_lt
  have backslash : '\\'.toNat < 128 := by decide
  unfold octetText
  split
  · rename_i special
    have small : o.toNat < 128 := by
      simp only [Bool.or_eq_true, decide_eq_true_eq] at special
      rcases special with (rfl | rfl) | rfl <;> decide
    simp only [List.mem_cons, List.not_mem_nil, or_false, forall_eq_or_imp, forall_eq,
      toNat_ofNat_char ho]
    exact ⟨backslash, small⟩
  · split
    · rename_i printable
      simp only [Bool.and_eq_true, decide_eq_true_eq, UInt8.le_iff_toNat_le,
        UInt8.reduceToNat] at printable
      simp only [List.mem_singleton, forall_eq, toNat_ofNat_char ho]
      omega
    · have digit {d : Nat} (h : d < 10) : (Char.ofNat (48 + d)).toNat < 128 := by
        rw [toNat_ofNat_char (by omega)]
        omega
      simp only [Text.threeDigits, List.mem_cons, List.not_mem_nil, or_false, forall_eq_or_imp,
        forall_eq]
      exact ⟨backslash, digit (by omega), digit (by omega), digit (by omega)⟩

/-- What is printed of an octet is one of its spellings. -/
theorem octetText_spelling (o : UInt8) : OctetSpelling o ((octetText o).map charOctet) := by
  have ho := o.toNat_lt
  have same : charOctet (Char.ofNat o.toNat) = o := by
    rw [charOctet_ofNat ho, UInt8.ofNat_toNat]
  have backslash : charOctet '\\' = 92 := by decide
  unfold octetText
  split
  · rename_i special
    simp only [Bool.or_eq_true, decide_eq_true_eq] at special
    rw [List.map_cons, List.map_singleton, same, backslash]
    apply OctetSpelling.escaped
    rcases special with (rfl | rfl) | rfl <;> decide
  · rename_i ordinary
    simp only [Bool.or_eq_true, decide_eq_true_eq, not_or] at ordinary
    split
    · rw [List.map_singleton, same]
      exact .plain ordinary.1.2 ordinary.2
    · rw [Text.threeDigits, List.map_cons, List.map_cons, List.map_cons, List.map_singleton,
        backslash, charOctet_digit (by omega), charOctet_digit (by omega),
        charOctet_digit (by omega)]
      exact .decimal

theorem spelling_octetText (os : List UInt8) :
    LabelSpelling os ((os.flatMap octetText).map charOctet) := by
  induction os with
  | nil => exact .nil
  | cons o os ih =>
      rw [List.flatMap_cons, List.map_append]
      exact .cons (octetText_spelling o) ih

end Label

namespace Name

variable {n m : Name}

/-- The characters of labels with a dot behind each. -/
def dottedText (labels : List Label) : List Char :=
  labels.flatMap fun l => l.octets.flatMap Label.octetText ++ ['.']

theorem dottedText_ascii (labels : List Label) : ∀ c ∈ dottedText labels, c.toNat < 128 := by
  intro c hc
  obtain ⟨l, -, hc⟩ := List.mem_flatMap.mp hc
  rcases List.mem_append.mp hc with hc | hc
  · obtain ⟨o, -, hc⟩ := List.mem_flatMap.mp hc
    exact Label.octetText_ascii o c hc
  · rw [List.mem_singleton.mp hc]
    decide

theorem dottedText_spelling (l : Label) (rest : List Label) :
    NameSpelling true ((l :: rest).map Label.octets) ((dottedText (l :: rest)).map charOctet) := by
  induction rest generalizing l with
  | nil =>
      have hl := Label.spelling_octetText l.octets
      rw [dottedText, List.flatMap_singleton, List.map_append]
      exact .dotted hl
  | cons l' rest ih =>
      have hl := Label.spelling_octetText l.octets
      rw [dottedText, List.flatMap_cons, List.map_append, List.map_append, List.append_assoc]
      exact .cons hl (ih l')

/-- What is printed of a name other than the root is a spelling with a dot at the end. -/
theorem spelling_toText (h : n.isRoot = false) :
    NameSpelling true n.labelOctets (Octets.ofText n.toText) := by
  have printed : n.toText = String.ofList (dottedText n.labels) := if_neg (by simp [h])
  rw [printed, Octets.ofText_ofList (dottedText_ascii _), labelOctets]
  unfold isRoot at h
  cases hn : n.labels with
  | nil =>
      rw [hn] at h
      cases h
  | cons l rest => exact dottedText_spelling l rest

theorem ofText_dot : Octets.ofText (String.ofList ['.']) = [46] := Octets.ofText_ascii rfl

/-- What is printed of a name is read as the name. -/
theorem ofText?_toText (n : Name) : ofText? (Octets.ofText n.toText) = .ok n := by
  rw [ofText?_eq_ok_iff]
  cases h : n.isRoot with
  | true =>
      obtain rfl : n = root := eq_of_labels (List.isEmpty_iff.mp h)
      exact .inl ⟨ofText_dot, rfl⟩
  | false => exact .inr ⟨true, spelling_toText h⟩

/-- However labels are written, reading them makes the name that they make, and fails as they
do, which is because one of them or all together are too long. No other text but the dot of the
root is read as a name. A name is printed as one of the spellings of its labels, so it is read
again as it was, and no two names are printed alike. -/
theorem presentation :
    (∀ dot ls text, (∀ l ∈ ls, l ≠ []) → NameSpelling dot ls text →
      ofText? text = ofLabels? ls ∧
        ∀ e, ofText? text = .error e → e = .longLabel ∨ e = .longName) ∧
    (∀ text n, ofText? text = .ok n ↔
      text = [46] ∧ n = root ∨ ∃ dot, NameSpelling dot n.labelOctets text) ∧
    (∀ n : Name, if n.isRoot then n.toText = "."
      else NameSpelling true n.labelOctets (Octets.ofText n.toText)) ∧
    (∀ n : Name, ofText? (Octets.ofText n.toText) = .ok n) ∧
    Function.Injective toText := by
  refine ⟨fun dot ls text some h => ?read, fun text n => ofText?_eq_ok_iff, fun n => ?printed,
    ofText?_toText, fun n m h => ?differ⟩
  case read =>
    have hread := ofText?_spelling h some
    refine ⟨hread, fun e he => ?_⟩
    rw [hread] at he
    exact foldlM_pushOctets_error some he
  case printed =>
    cases h : n.isRoot with
    | true => exact if_pos h
    | false => exact spelling_toText h
  case differ =>
    have hn := ofText?_toText n
    rw [h, ofText?_toText m] at hn
    cases hn
    rfl

/-- The same two labels, the first of which is a dot and a digit, written in two ways, with a dot
at the end and without one; and a label that is too long. -/
theorem presentation_escapes :
    ofText? [92, 46, 55, 46, 97] = ofLabels? [[46, 55], [97]] ∧
      ofText? [92, 48, 52, 54, 92, 48, 53, 53, 46, 92, 97, 46] = ofLabels? [[46, 55], [97]] ∧
      ofText? (List.replicate 64 97) = .error .longLabel := by
  have dot : OctetSpelling 46 [92, 46] := .escaped rfl
  have dot' : OctetSpelling 46 [92, 48, 52, 54] := .decimal
  have seven : OctetSpelling 55 [55] := .plain (by decide) (by decide)
  have seven' : OctetSpelling 55 [92, 48, 53, 53] := .decimal
  have a : OctetSpelling 97 [97] := .plain (by decide) (by decide)
  have a' : OctetSpelling 97 [92, 97] := .escaped rfl
  have many (k : Nat) : LabelSpelling (List.replicate k 97) (List.replicate k 97) := by
    induction k with
    | zero => exact .nil
    | succ k ih => exact .cons a ih
  have first := (presentation.1 false [[46, 55], [97]] [92, 46, 55, 46, 97] (by decide)
    (.cons (.cons dot (.cons seven .nil)) (.undotted (.cons a .nil)))).1
  have second := (presentation.1 true [[46, 55], [97]]
    [92, 48, 52, 54, 92, 48, 53, 53, 46, 92, 97, 46] (by decide)
    (.cons (.cons dot' (.cons seven' .nil)) (.dotted (.cons a' .nil)))).1
  have third := (presentation.1 false [List.replicate 64 97] (List.replicate 64 97) (by decide)
    (.undotted (many 64))).1
  exact ⟨first, second, third⟩

end Name

end Querier
