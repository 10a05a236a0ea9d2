import Mathlib.Data.List.Basic
import Querier.Octets
import Querier.Text.Digits

/-!
# The octets of printed text

Text is printed as a string and read as octets. What is printed is ASCII, where each character is
one octet, so a printed text can be followed piece by piece on the side of the octets: the octets
of a text of two parts are those of the parts, and numbers are printed as runs of digits with a
value.

## Main results

* `Octets.ofText_ofList`, `Octets.ofText_ascii`: the octets of ASCII characters are those of the
  characters.
* `Octets.ofText_append`: the octets of two texts one behind the other.
* `Text.numeral_decimal`, `Text.numeral_hexWord`: the digits of numbers as they are printed, and
  their value.
-/

namespace Querier

/-! ## Characters -/

theorem toList_byteArray (bs : ByteArray) : bs.toList = bs.data.toList := by
  have loop (i : Nat) (read : List UInt8) :
      ByteArray.toList.loop bs i read = read.reverse ++ bs.data.toList.drop i := by
    fun_induction ByteArray.toList.loop bs i read with
    | case1 i read inside ih =>
        have hi : i < bs.data.toList.length := inside
        have hget : bs.get! i = bs.data.toList[i] := by
          cases bs
          exact getElem!_pos _ i inside
        rw [ih, List.drop_eq_getElem_cons hi, hget, List.reverse_cons, List.append_assoc,
          List.singleton_append]
    | case2 i read outside =>
        rw [List.drop_eq_nil_of_le (Nat.le_of_not_lt outside), List.append_nil]
  exact loop 0 []

/-- The octet of a character. -/
def charOctet (c : Char) : UInt8 := UInt8.ofNat c.toNat

/-- The octets of a text of ASCII characters are those of the characters. -/
theorem Octets.ofText_ofList {cs : List Char} (ascii : ∀ c ∈ cs, c.toNat < 128) :
    Octets.ofText (String.ofList cs) = cs.map charOctet := by
  have single (c : Char) (hc : c ∈ cs) : String.utf8EncodeChar c = [charOctet c] := by
    have := ascii c hc
    exact if_pos (Nat.le_of_lt_succ this)
  have encoded : cs.flatMap String.utf8EncodeChar = cs.map charOctet := by
    rw [List.map_eq_flatMap]
    exact List.flatMap_congr single
  rw [Octets.ofText, String.toUTF8, String.toByteArray_ofList, List.utf8Encode, toList_byteArray,
    List.data_toByteArray, encoded]

theorem Octets.ofText_ascii {s : String} (ascii : s.toList.all (·.toNat < 128)) :
    Octets.ofText s = s.toList.map charOctet := by
  have small : ∀ c ∈ s.toList, c.toNat < 128 := by simpa using ascii
  rw [← Octets.ofText_ofList small, String.ofList_toList]

theorem toNat_ofNat_char {v : Nat} (h : v < 256) : (Char.ofNat v).toNat = v := by
  have valid : v.isValidChar := .inl (by omega)
  rw [Char.ofNat, dif_pos valid]
  rfl

theorem charOctet_ofNat {v : Nat} (h : v < 256) : charOctet (Char.ofNat v) = UInt8.ofNat v := by
  rw [charOctet, toNat_ofNat_char h]

@[simp] theorem Octets.ofText_append (s t : String) :
    Octets.ofText (s ++ t) = Octets.ofText s ++ Octets.ofText t := by
  simp only [Octets.ofText, String.toUTF8, toList_byteArray, String.toByteArray_append,
    ByteArray.data_append, Array.toList_append]

namespace Text

/-! ## Digits -/

/-- The octet of a digit. -/
def digit (d : Nat) : UInt8 := charOctet (hexDigit d)

/-- The value of digits in a number system, the highest first. -/
def value (radix : Nat) (ds : List Nat) : Nat := ds.foldl (fun acc d => acc * radix + d) 0

/-- A text is a number in up to `most` digits of a number system. -/
inductive Numeral (radix most : Nat) : Nat → List UInt8 → Prop where
  | mk {ds : List Nat} (below : ∀ d ∈ ds, d < radix) (some : ds ≠ [])
      (few : ds.length ≤ most) : Numeral radix most (value radix ds) (ds.map digit)

theorem hexDigit_ascii {d : Nat} (h : d < 16) : (hexDigit d).toNat < 128 := by
  rw [hexDigit]
  split
  · rw [toNat_ofNat_char (by omega)]
    omega
  · rw [toNat_ofNat_char (by omega)]
    omega

theorem digitChar_eq_hexDigit {d : Nat} (h : d < 16) : d.digitChar = hexDigit d := by
  revert d
  decide

theorem ofText_digits {ds : List Nat} (h : ∀ d ∈ ds, d < 16) :
    Octets.ofText (String.ofList (ds.map hexDigit)) = ds.map digit := by
  rw [Octets.ofText_ofList, List.map_map]
  · rfl
  · intro c hc
    obtain ⟨d, hd, rfl⟩ := List.mem_map.mp hc
    exact hexDigit_ascii (h d hd)

/-! ## Decimals -/

/-- The decimal digits of a number below a thousand. -/
def decimalDigits (n : Nat) : List Nat :=
  if n < 10 then [n] else if n < 100 then [n / 10, n % 10] else [n / 100, n / 10 % 10, n % 10]

theorem toDigits_eq {n : Nat} (h : n < 1000) :
    Nat.toDigits 10 n = (decimalDigits n).map hexDigit := by
  have last {k : Nat} (hk : k < 10) : Nat.toDigits 10 k = [hexDigit k] := by
    rw [Nat.toDigits_of_lt_base hk, digitChar_eq_hexDigit (by omega)]
  have more {k : Nat} (hk : 10 ≤ k) :
      Nat.toDigits 10 k = Nat.toDigits 10 (k / 10) ++ [hexDigit (k % 10)] := by
    rw [Nat.toDigits_of_base_le (by decide) hk, digitChar_eq_hexDigit (by omega)]
  rw [decimalDigits]
  split
  · exact last (by assumption)
  · split
    · rw [more (by omega), last (by omega)]
      rfl
    · rw [more (by omega), more (by omega), last (by omega), Nat.div_div_eq_div_mul]
      rfl

section

variable {n : Nat}

theorem decimalDigits_lt (h : n < 1000) : ∀ d ∈ decimalDigits n, d < 10 := by
  rw [decimalDigits]
  split
  · simpa
  · split
    · simp only [List.forall_mem_cons]
      exact ⟨by omega, by omega, List.forall_mem_nil _⟩
    · simp only [List.forall_mem_cons]
      exact ⟨by omega, by omega, by omega, List.forall_mem_nil _⟩

theorem value_decimalDigits (n : Nat) : value 10 (decimalDigits n) = n := by
  rw [decimalDigits]
  split
  · exact Nat.zero_add n
  · split
    · show (0 * 10 + n / 10) * 10 + n % 10 = n
      omega
    · show ((0 * 10 + n / 100) * 10 + n / 10 % 10) * 10 + n % 10 = n
      omega

theorem length_decimalDigits (n : Nat) : (decimalDigits n).length ≤ 3 := by
  rw [decimalDigits]
  split
  · exact (by decide : 1 ≤ 3)
  · split
    · exact (by decide : 2 ≤ 3)
    · exact Nat.le_refl 3

/-- There is more than one digit only if the first is not zero. -/
theorem exists_decimalDigits (h : n < 1000) :
    ∃ d ds, decimalDigits n = d :: ds ∧ (d = 0 → ds = []) := by
  rw [decimalDigits]
  split
  · exact ⟨n, [], rfl, fun _ => rfl⟩
  · split
    · exact ⟨n / 10, [n % 10], rfl, by omega⟩
    · exact ⟨n / 100, [n / 10 % 10, n % 10], rfl, by omega⟩

theorem ofText_toString (h : n < 1000) :
    Octets.ofText (toString n) = (decimalDigits n).map digit := by
  rw [Nat.toString_eq_repr, Nat.repr_eq_ofList_toDigits, toDigits_eq h]
  exact ofText_digits fun d hd => Nat.lt_trans (decimalDigits_lt h d hd) (by decide)

theorem numeral_decimal (h : n < 1000) : Numeral 10 3 n (Octets.ofText (toString n)) := by
  obtain ⟨d, ds, hds, -⟩ := exists_decimalDigits h
  have numeral : Numeral 10 3 (value 10 (decimalDigits n)) ((decimalDigits n).map digit) :=
    .mk (decimalDigits_lt h) (by rw [hds]; exact List.cons_ne_nil _ _) (length_decimalDigits n)
  rwa [value_decimalDigits, ← ofText_toString h] at numeral

end

/-! ## Hexadecimal numbers -/

theorem value_dropWhile (radix : Nat) (ds : List Nat) :
    value radix (ds.dropWhile (· = 0)) = value radix ds := by
  induction ds with
  | nil => rfl
  | cons d ds ih =>
      by_cases zero : d = 0
      · rw [List.dropWhile_cons, if_pos (decide_eq_true zero), ih, zero, value, value,
          List.foldl_cons, Nat.zero_mul]
      · rw [List.dropWhile_cons, if_neg (by simpa using zero)]

theorem numeral_hexWord (w : UInt16) : Numeral 16 4 w.toNat (Octets.ofText (hexWord w)) := by
  have hw := w.toNat_lt
  let all := [w.toNat / 4096, w.toNat / 256 % 16, w.toNat / 16 % 16, w.toNat % 16]
  have below : ∀ d ∈ all.dropWhile (· = 0), d < 16 := by
    intro d hd
    have hd := (List.dropWhile_sublist _).mem hd
    simp only [all, List.mem_cons, List.not_mem_nil, or_false] at hd
    omega
  have few : (all.dropWhile (· = 0)).length ≤ 4 := (List.dropWhile_sublist _).length_le
  have hvalue : value 16 (all.dropWhile (· = 0)) = w.toNat := by
    rw [value_dropWhile]
    show (((0 * 16 + w.toNat / 4096) * 16 + w.toNat / 256 % 16) * 16 + w.toNat / 16 % 16) * 16
      + w.toNat % 16 = w.toNat
    omega
  rw [← hvalue]
  cases hds : all.dropWhile (· = 0) with
  | nil =>
      have printed : hexWord w = String.ofList ([0].map hexDigit) := by
        rw [hexWord, show List.dropWhile _ _ = [] from hds]
      rw [printed, ofText_digits (by decide)]
      exact @Numeral.mk 16 4 [0] (by decide) (by decide) (by decide)
  | cons d ds =>
      have printed : hexWord w = String.ofList ((d :: ds).map hexDigit) := by
        rw [hexWord, show List.dropWhile _ _ = d :: ds from hds]
      rw [hds] at below few
      rw [printed, ofText_digits below]
      exact .mk below (List.cons_ne_nil _ _) few

end Text

end Querier
