import Mathlib.Logic.Relation
import Querier.Proofs.Writer.OptDecoding

/-!
# Option sequences

The data of an OPT record is read in turns, and each turn takes one option from the front of what
is left. It needs four octets for the code and the length, and then as many as the length says, so
every turn leaves less, and what cannot be taken is left over. `Turn` is one turn and `Concatenated`
what data has to be so that nothing is left over. Neither knows how options are read or written.

Writing is the other way round, and the length is written in sixteen bits whatever it is. Options
with more data than that are written all the same, but not as what they are.

## Main results

* `EdnsOption.Turn.length_le`, `EdnsOption.length_le_of_turns`: how many turns there can be.
* `EdnsOption.ends_readOnto`: reading goes on until no turn is possible, and fails if anything is
  left then.
* `EdnsOption.concatenated_iff`: data is the concatenation of options exactly if it is what they are
  written as and their lengths fit.
* `Opt.ofRecord_exact`: what is read of an OPT record, and that writing it gives the record again.
-/

namespace Querier

namespace EdnsOption

/-! ## Concatenated options -/

/-- Octets are options one behind the other: of each the code, the number of its octets in sixteen
bits, and the octets. -/
inductive Concatenated : List EdnsOption → List UInt8 → Prop where
  | nil : Concatenated [] []
  | cons {code len : UInt16} {data : Octets} {options : List EdnsOption} {rest : List UInt8}
      (length : data.size = len.toNat) (tail : Concatenated options rest) :
      Concatenated (⟨⟨code⟩, data⟩ :: options)
        (Octets.ofUInt16 code ++ Octets.ofUInt16 len ++ data.toList ++ rest)

theorem concatenated_iff {options : List EdnsOption} {os : List UInt8} :
    Concatenated options os ↔ os = encodeAll options ∧ ∀ o ∈ options, o.data.size ≤ 65535 := by
  constructor
  · intro h
    induction h with
    | nil => exact ⟨rfl, List.forall_mem_nil _⟩
    | @cons code len data options rest length tail ih =>
        have hwire : wire ⟨⟨code⟩, data⟩ =
            Octets.ofUInt16 code ++ Octets.ofUInt16 len ++ data.toList := by
          rw [wire, length, UInt16.ofNat_toNat]
        have hfits : data.size ≤ 65535 := by
          rw [length]
          exact Nat.le_of_lt_succ len.toNat_lt
        constructor
        · rw [encodeAll, List.flatMap_cons, hwire, ← encodeAll, ← ih.1]
        · exact List.forall_mem_cons.mpr ⟨hfits, ih.2⟩
  · rintro ⟨rfl, hfits⟩
    induction options with
    | nil => exact .nil
    | cons o options ih =>
        rw [List.forall_mem_cons] at hfits
        have hlength : o.data.size = (UInt16.ofNat o.data.size).toNat :=
          (UInt16.toNat_ofNat_of_lt' (Nat.lt_succ_of_le hfits.1)).symm
        exact .cons hlength (ih hfits.2)

/-- Octets are read as options exactly if they are these options one behind the other. -/
theorem readAll_eq_ok_iff_concatenated {options : List EdnsOption} {os : List UInt8} :
    readAll os = .ok options ↔ Concatenated options os := by
  rw [readAll_eq_ok_iff, concatenated_iff]

/-- There is only one such list. -/
theorem Concatenated.unique {xs ys : List EdnsOption} {os : List UInt8} (h : Concatenated xs os)
    (h' : Concatenated ys os) : xs = ys := by
  have hx := readAll_eq_ok_iff_concatenated.mpr h
  have hy := readAll_eq_ok_iff_concatenated.mpr h'
  exact Except.ok.inj (hx.symm.trans hy)

/-! ## Turns -/

/-- One turn of reading: an option is taken from the front of what is left, and put behind those
that were taken before. -/
inductive Turn : List EdnsOption × List UInt8 → List EdnsOption × List UInt8 → Prop where
  | take {taken : List EdnsOption} {code len : UInt16} {data : Octets} {rest : List UInt8}
      (length : data.size = len.toNat) :
      Turn (taken, Octets.ofUInt16 code ++ Octets.ofUInt16 len ++ data.toList ++ rest)
        (taken ++ [⟨⟨code⟩, data⟩], rest)

/-- A turn takes four octets or more for its option. -/
theorem Turn.length_le {s t : List EdnsOption × List UInt8} (h : Turn s t) :
    4 * t.1.length + t.2.length ≤ 4 * s.1.length + s.2.length := by
  cases h with
  | take length =>
      simp only [Octets.ofUInt16, List.length_append, List.length_cons, List.length_nil]
      omega

theorem length_le_of_turns {s t : List EdnsOption × List UInt8}
    (h : Relation.ReflTransGen Turn s t) :
    4 * t.1.length + t.2.length ≤ 4 * s.1.length + s.2.length := by
  induction h with
  | refl => exact Nat.le_refl _
  | tail _ last ih => exact Nat.le_trans last.length_le ih

/-- A turn is possible only where there are the four octets before an option and as many behind
them as they say. -/
theorem Turn.exists_header {taken : List EdnsOption} {os : List UInt8}
    {t : List EdnsOption × List UInt8} (h : Turn (taken, os) t) :
    ∃ c₁ c₂ l₁ l₂ rest, os = c₁ :: c₂ :: l₁ :: l₂ :: rest ∧
      (Octets.uInt16 l₁ l₂).toNat ≤ rest.length := by
  cases h with
  | @take _ code len data rest length =>
      have hlen := Octets.uInt16_ofUInt16 len
      refine ⟨_, _, _, _, data.toList ++ rest, rfl, ?_⟩
      rw [hlen, List.length_append, Array.length_toList]
      omega

/-- Where there are these octets, a turn takes them. -/
theorem Turn.of_header (taken : List EdnsOption) {c₁ c₂ l₁ l₂ : UInt8} {rest : List UInt8} :
    let len := (Octets.uInt16 l₁ l₂).toNat
    (rest.take len).length = len →
      Turn (taken, c₁ :: c₂ :: l₁ :: l₂ :: rest)
        (taken ++ [⟨⟨Octets.uInt16 c₁ c₂⟩, (rest.take len).toArray⟩], rest.drop len) := by
  intro len fits
  have hos : Octets.ofUInt16 (Octets.uInt16 c₁ c₂) ++ Octets.ofUInt16 (Octets.uInt16 l₁ l₂) ++
      (rest.take len).toArray.toList ++ rest.drop len = c₁ :: c₂ :: l₁ :: l₂ :: rest := by
    rw [Octets.ofUInt16_uInt16, Octets.ofUInt16_uInt16, List.append_assoc, List.take_append_drop]
    rfl
  rw [← hos]
  exact .take fits

/-- Reading goes on until no turn is possible. Then it gives the options that were taken, if
nothing is left, and fails otherwise. -/
theorem ends_readOnto (before : List EdnsOption) (os : List UInt8) :
    ∃ t, Relation.ReflTransGen Turn (before.reverse, os) t ∧ (∀ u, ¬ Turn t u) ∧
      ((t.2 = [] ∧ readOnto before os = .ok t.1) ∨
        (t.2 ≠ [] ∧ readOnto before os = .error .shortInput)) := by
  induction before, os using readOnto.induct with
  | case1 before =>
      have stuck : ∀ u, ¬ Turn (before.reverse, []) u := by
        intro u hturn
        rcases hturn.exists_header with ⟨_, _, _, _, _, hos, -⟩
        cases hos
      exact ⟨_, .refl, stuck, .inl ⟨rfl, by rw [readOnto]⟩⟩
  | case2 before c₁ c₂ l₁ l₂ rest len data fits ih =>
      have hturn : Turn (before.reverse, c₁ :: c₂ :: l₁ :: l₂ :: rest) _ :=
        Turn.of_header before.reverse fits
      rw [List.reverse_cons] at ih
      rw [readOnto, if_pos fits]
      rcases ih with ⟨t, hturns, hend⟩
      exact ⟨t, .head hturn hturns, hend⟩
  | case3 before c₁ c₂ l₁ l₂ rest len data short =>
      have stuck : ∀ u, ¬ Turn (before.reverse, c₁ :: c₂ :: l₁ :: l₂ :: rest) u := by
        intro u hturn
        rcases hturn.exists_header with ⟨_, _, _, _, _, hos, hlen⟩
        cases hos
        exact short (List.length_take_of_le hlen)
      exact ⟨_, .refl, stuck, .inr ⟨List.cons_ne_nil _ _, by rw [readOnto, if_neg short]⟩⟩
  | case4 before os empty header =>
      have stuck : ∀ u, ¬ Turn (before.reverse, os) u := by
        intro u hturn
        rcases hturn.exists_header with ⟨c₁, c₂, l₁, l₂, rest, hos, -⟩
        exact header c₁ c₂ l₁ l₂ rest hos
      have hread : readOnto before os = .error .shortInput := by
        rw [readOnto]
        · exact empty
        · exact header
      exact ⟨_, .refl, stuck, .inr ⟨empty, hread⟩⟩

end EdnsOption

/-! ## Records -/

namespace Opt

theorem exists_ofRecord_iff {rclass : Class} {ttl : UInt32} {data : List UInt8} :
    (∃ o, ofRecord rclass ttl data = .ok o) ↔
      ∃ options, EdnsOption.Concatenated options data := by
  constructor
  · rintro ⟨o, ho⟩
    have hdata := (ofRecord_eq_ok_iff.mp ho).2.2
    exact ⟨o.options, EdnsOption.concatenated_iff.mpr hdata⟩
  · rintro ⟨options, hdata⟩
    rw [← EdnsOption.readAll_eq_ok_iff_concatenated] at hdata
    rw [ofRecord, hdata]
    exact ⟨_, rfl⟩

/-- The content is read off where the turns end. -/
theorem ends_ofRecord (rclass : Class) (ttl : UInt32) (data : List UInt8) :
    ∃ t, Relation.ReflTransGen EdnsOption.Turn ([], data) t ∧ (∀ u, ¬ EdnsOption.Turn t u) ∧
      ((t.2 = [] ∧ ∃ o, ofRecord rclass ttl data = .ok o ∧ o.options = t.1) ∨
        (t.2 ≠ [] ∧ ofRecord rclass ttl data = .error .shortInput)) := by
  rcases EdnsOption.ends_readOnto [] data with ⟨t, hturns, stuck, hend⟩
  refine ⟨t, hturns, stuck, ?_⟩
  rw [ofRecord, EdnsOption.readAll]
  rcases hend with ⟨hleft, hread⟩ | ⟨hleft, hread⟩
  · rw [hread]
    exact .inl ⟨hleft, _, rfl, rfl⟩
  · rw [hread]
    exact .inr ⟨hleft, rfl⟩

/-- Adding an OPT record with the content that was read puts the record there again. -/
theorem content_addOpt_of_ofRecord {w : Writer} (hw : w.Bounded)
    (hlong : Header.length ≤ w.content.size) {rclass : Class} {ttl : UInt32} {data : List UInt8}
    {o : Opt} (ho : ofRecord rclass ttl data = .ok o) {extendedCode : UInt16}
    (hcode : UInt8.ofNat (extendedCode.toNat / 16) = o.extendedCode) :
    ∃ front : Octets, front.size = w.content.size ∧
      (w.addOpt o.payloadSize extendedCode o.flags o.options o.version).content =
        front ++ ([0] ++ Octets.ofUInt16 RecordType.opt.code ++ Octets.ofUInt16 rclass.code ++
          Octets.ofUInt32 ttl ++ Octets.ofUInt16 (UInt16.ofNat data.length) ++ data) := by
  rcases ofRecord_eq_ok_iff.mp ho with ⟨rfl, rfl, rfl, -⟩
  let front := Header.edit (Header.counted .additional) (w.commit.withCode extendedCode).content
  have hsize : front.size = w.content.size := by
    rw [Header.size_edit, Writer.size_content_withCode, hw.size_commit]
  have hcontent := hw.content_addOpt hlong o.payloadSize extendedCode o.flags o.options o.version
  rw [hcode] at hcontent
  exact ⟨front, hsize, hcontent⟩

/-- Which OPT records can be read and what is read of them: data is read if it is a concatenation of
options, these are the only ones it is the concatenation of, and the record that is written for them
is this record. All options that fit are read back, class and time to live are made of the other
fields, and reading comes to an end after no more than a quarter as many turns as there are
octets. -/
theorem ofRecord_exact (rclass : Class) (ttl : UInt32) (data : List UInt8) :
    ((∃ o, ofRecord rclass ttl data = .ok o) ↔
        ∃ options, EdnsOption.Concatenated options data) ∧
      (∀ o, ofRecord rclass ttl data = .ok o →
        EdnsOption.Concatenated o.options data ∧
          (∀ options, EdnsOption.Concatenated options data → options = o.options) ∧
          EdnsOption.encodeAll o.options = data ∧
          EdnsOption.wireLengthAll o.options = data.length ∧
          rclass = ⟨o.payloadSize⟩ ∧
          ttl.toNat = (o.extendedCode.toNat * 256 + o.version.toNat) * 65536 + o.flags.toNat ∧
          ∀ (qname : Name) (qtype : RecordType) (qclass : Class) (opcode : Opcode)
            (ops : List Writer.Op) (extendedCode : UInt16),
            let w := (Writer.new qname qtype qclass opcode).run ops
            Header.length ≤ w.content.size →
            UInt8.ofNat (extendedCode.toNat / 16) = o.extendedCode →
            ∃ front : Octets, front.size = w.content.size ∧
              (w.addOpt o.payloadSize extendedCode o.flags o.options o.version).content =
                front ++ ([0] ++ Octets.ofUInt16 RecordType.opt.code ++
                  Octets.ofUInt16 rclass.code ++ Octets.ofUInt32 ttl ++
                  Octets.ofUInt16 (UInt16.ofNat data.length) ++ data)) ∧
      (∀ options : List EdnsOption, (∀ option ∈ options, option.data.size ≤ 65535) →
        ∃ o, ofRecord rclass ttl (EdnsOption.encodeAll options) = .ok o ∧
          o.options = options) ∧
      (∀ t, Relation.ReflTransGen EdnsOption.Turn ([], data) t →
        4 * t.1.length + t.2.length ≤ data.length) ∧
      ∃ t, Relation.ReflTransGen EdnsOption.Turn ([], data) t ∧ (∀ u, ¬ EdnsOption.Turn t u) ∧
        ((t.2 = [] ∧ ∃ o, ofRecord rclass ttl data = .ok o ∧ o.options = t.1) ∨
          (t.2 ≠ [] ∧ ofRecord rclass ttl data = .error .shortInput)) := by
  refine ⟨exists_ofRecord_iff, ?_, ?_, ?_, ends_ofRecord rclass ttl data⟩
  · intro o ho
    rcases ofRecord_eq_ok_iff.mp ho with ⟨hclass, httl, hdata, hfits⟩
    have hconcatenated := EdnsOption.concatenated_iff.mpr ⟨hdata, hfits⟩
    have hlength : EdnsOption.wireLengthAll o.options = data.length := by
      rw [hdata, EdnsOption.length_encodeAll]
    have httl : ttl.toNat =
        (o.extendedCode.toNat * 256 + o.version.toNat) * 65536 + o.flags.toNat := by
      rw [httl, toNat_ttlField]
    refine ⟨hconcatenated, ?_, hdata.symm, hlength, hclass, httl, ?_⟩
    · intro options hoptions
      exact hoptions.unique hconcatenated
    · intro qname qtype qclass opcode ops extendedCode w hlong hcode
      have hw : w.Bounded := Writer.bounded_run qname qtype qclass opcode ops
      exact content_addOpt_of_ofRecord hw hlong ho hcode
  · intro options hfits
    have hread := EdnsOption.readAll_encodeAll hfits
    rw [ofRecord, hread]
    exact ⟨_, rfl, rfl⟩
  · intro t hturns
    have hbound := EdnsOption.length_le_of_turns hturns
    rwa [List.length_nil, Nat.mul_zero, Nat.zero_add] at hbound

/-- Two octets of padding and a client subnet without data, sent with the DNSSEC flag and the
extended code 17. -/
theorem ofRecord_exact_padding :
    let o : Opt := ⟨1232, 1, 0, 0x8000, [⟨.padding, #[0, 0]⟩, ⟨.clientSubnet, #[]⟩]⟩
    let w := Writer.new .root .mx .internet ⟨0⟩
    ofRecord ⟨1232⟩ 0x01008000 [0, 12, 0, 2, 0, 0, 0, 8, 0, 0] = .ok o ∧
      (∀ options, EdnsOption.Concatenated options [0, 12, 0, 2, 0, 0, 0, 8, 0, 0] →
        options = [⟨.padding, #[0, 0]⟩, ⟨.clientSubnet, #[]⟩]) ∧
      EdnsOption.encodeAll o.options = [0, 12, 0, 2, 0, 0, 0, 8, 0, 0] ∧
      (∃ front : Octets, front.size = 17 ∧
        (w.addOpt 1232 17 0x8000 o.options 0).content = front ++ ([0, 0, 41, 4, 208, 1, 0, 128, 0,
          0, 10, 0, 12, 0, 2, 0, 0, 0, 8, 0, 0] : List UInt8)) ∧
      (∃ o', ofRecord ⟨1232⟩ 0x01008000 (EdnsOption.encodeAll o.options) = .ok o' ∧
        o'.options = o.options) ∧
      Relation.ReflTransGen EdnsOption.Turn ([], [0, 12, 0, 2, 0, 0, 0, 8, 0, 0])
        ([⟨.padding, #[0, 0]⟩], [0, 8, 0, 0]) ∧
      4 * 1 + 4 ≤ 10 := by
  intro o w
  have hread : ofRecord ⟨1232⟩ 0x01008000 [0, 12, 0, 2, 0, 0, 0, 8, 0, 0] = .ok o := by
    cbv
  have hlong : Header.length ≤ w.content.size := by decide +kernel
  have hfits : ∀ option ∈ o.options, option.data.size ≤ 65535 := by decide
  have hturn : Relation.ReflTransGen EdnsOption.Turn ([], [0, 12, 0, 2, 0, 0, 0, 8, 0, 0])
      ([⟨.padding, #[0, 0]⟩], [0, 8, 0, 0]) :=
    .single (@EdnsOption.Turn.take [] 12 2 #[0, 0] [0, 8, 0, 0] rfl)
  rcases ofRecord_exact ⟨1232⟩ 0x01008000 [0, 12, 0, 2, 0, 0, 0, 8, 0, 0] with
    ⟨-, hof, hback, hbound, -⟩
  rcases hof o hread with ⟨-, hunique, hencode, -, -, -, hwriter⟩
  rcases hwriter .root .mx .internet ⟨0⟩ [] 17 hlong rfl with ⟨front, hsize, hcontent⟩
  have hrecord : (w.addOpt 1232 17 0x8000 o.options 0).content = front ++ ([0, 0, 41, 4, 208, 1, 0,
      128, 0, 0, 10, 0, 12, 0, 2, 0, 0, 0, 8, 0, 0] : List UInt8) :=
    hcontent.trans (congrArg (fun os : List UInt8 => front ++ os) (by decide))
  exact ⟨hread, hunique, hencode, ⟨front, hsize, hrecord⟩, hback o.options hfits, hturn,
    hbound _ hturn⟩

end Opt

end Querier
