import Querier.Edns.Opt
import Querier.Proofs.View

/-!
# OPT records are read back

The data of an OPT record is a sequence of options behind one another, each with its length
in sixteen bits. As long as that is enough for every option, the sequence that was written
is read back. The other fields share the time to live of the record and do not get in the way
of each other.

There is one way to write a sequence of options, so octets that are read as options are what
these options are written as.

## Main results

* `EdnsOption.readAll_encodeAll`: options are read back as they were written.
* `EdnsOption.readAll_eq_ok_iff`: what is read as options is these options and nothing else.
* `Opt.ofRecord_ttlField`: the whole content of a record is read back.
* `Opt.ofRecord_eq_ok_iff`: the fields and the data of a record say what its content is.
-/

namespace Querier

/-! ## Options -/

namespace EdnsOption

theorem length_encodeAll (options : List EdnsOption) :
    (encodeAll options).length = wireLengthAll options := by
  induction options with
  | nil => rfl
  | cons o rest ih =>
      rw [encodeAll, List.flatMap_cons, List.length_append, ← encodeAll, ih, wireLengthAll,
        wireLength, wire]
      simp only [List.length_append, Octets.ofUInt16, List.length_cons, List.length_nil,
        Array.length_toList]

/-- The option at the front is read, and then what stands behind it. -/
theorem readAll_wire_append {o : EdnsOption} (hsize : o.data.size ≤ 65535) (os : List UInt8) :
    readAll (o.wire ++ os) = (readAll os).map (o :: ·) := by
  have hcode := Octets.uInt16_ofUInt16 o.code.code
  have hfits : (UInt16.ofNat o.data.size).toNat = o.data.toList.length :=
    UInt16.toNat_ofNat_of_lt' (Nat.lt_succ_of_le hsize)
  have hlength := (congrArg UInt16.toNat
    (Octets.uInt16_ofUInt16 (UInt16.ofNat o.data.size))).trans hfits
  show readOnto [] (_ :: _ :: _ :: _ :: (o.data.toList ++ os)) = _
  rw [readOnto]
  simp only [hcode, hlength, List.take_left, List.drop_left, if_true]
  rw [readOnto_eq]
  rfl

/-- What is written is read back. -/
theorem readAll_encodeAll {options : List EdnsOption} (h : ∀ o ∈ options, o.data.size ≤ 65535) :
    readAll (encodeAll options) = .ok options := by
  induction options with
  | nil =>
      rw [encodeAll, List.flatMap_nil, readAll, readOnto]
      rfl
  | cons o rest ih =>
      have hrest : ∀ o' ∈ rest, o'.data.size ≤ 65535 := by
        intro o' ho'
        exact h o' (List.mem_cons_of_mem _ ho')
      rw [encodeAll, List.flatMap_cons, readAll_wire_append (h o List.mem_cons_self),
        ← encodeAll, ih hrest]
      rfl

/-- What is read behind other options is what stands there. -/
theorem encodeAll_of_readOnto {before : List EdnsOption} {os : List UInt8} :
    ∀ options, readOnto before os = .ok options →
      ∃ read, options = before.reverse ++ read ∧ os = encodeAll read ∧
        ∀ o ∈ read, o.data.size ≤ 65535 := by
  induction before, os using readOnto.induct with
  | case1 before =>
      intro options h
      rw [readOnto] at h
      cases h
      refine ⟨[], (List.append_nil _).symm, rfl, ?_⟩
      intro o ho
      cases ho
  | case2 before c₁ c₂ l₁ l₂ rest len data fits ih =>
      intro options h
      rw [readOnto, if_pos fits] at h
      rcases ih options h with ⟨read, hoptions, hrest, sizes⟩
      let o : EdnsOption := ⟨⟨Octets.uInt16 c₁ c₂⟩, data.toArray⟩
      have length : o.data.size = len := fits
      have wire : o.wire = c₁ :: c₂ :: l₁ :: l₂ :: data := by
        rw [wire, length, UInt16.ofNat_toNat, Octets.ofUInt16_uInt16, Octets.ofUInt16_uInt16]
        rfl
      refine ⟨o :: read, ?_, ?_, ?_⟩
      · rw [hoptions, List.reverse_cons, List.append_assoc, List.singleton_append]
      · rw [encodeAll, List.flatMap_cons, wire, ← encodeAll, ← hrest]
        simp only [List.cons_append, data, List.take_append_drop]
      · intro o' ho'
        rcases List.mem_cons.mp ho' with rfl | hread
        · rw [length]
          exact Nat.le_of_lt_succ (Octets.uInt16 l₁ l₂).toNat_lt
        · exact sizes o' hread
  | case3 before c₁ c₂ l₁ l₂ rest len data short =>
      intro options h
      rw [readOnto, if_neg short] at h
      cases h
  | case4 before os empty header =>
      intro options h
      rw [readOnto] at h
      · cases h
      · exact empty
      · exact header

/-- Octets are read as options exactly if they are what these options are written as, and their
lengths fit. -/
theorem readAll_eq_ok_iff {os : List UInt8} {options : List EdnsOption} :
    readAll os = .ok options ↔ os = encodeAll options ∧ ∀ o ∈ options, o.data.size ≤ 65535 := by
  constructor
  · intro h
    rcases encodeAll_of_readOnto options h with ⟨read, hoptions, hos, sizes⟩
    rw [List.reverse_nil, List.nil_append] at hoptions
    subst hoptions
    exact ⟨hos, sizes⟩
  · rintro ⟨rfl, sizes⟩
    exact readAll_encodeAll sizes

theorem wireLengthAll_append (xs ys : List EdnsOption) :
    wireLengthAll (xs ++ ys) = wireLengthAll xs + wireLengthAll ys := by
  rw [← length_encodeAll, ← length_encodeAll, ← length_encodeAll, encodeAll, List.flatMap_append,
    List.length_append]
  rfl

theorem size_le_wireLengthAll {o : EdnsOption} {options : List EdnsOption} (h : o ∈ options) :
    o.data.size ≤ wireLengthAll options := by
  induction options with
  | nil => cases h
  | cons o' rest ih =>
      rw [wireLengthAll, wireLength]
      rcases List.mem_cons.mp h with rfl | hrest
      · omega
      · have := ih hrest
        omega

end EdnsOption

/-! ## Records -/

namespace Opt

theorem toNat_ttlField (extendedCode version : UInt8) (flags : UInt16) :
    (ttlField extendedCode version flags).toNat =
      (extendedCode.toNat * 256 + version.toNat) * 65536 + flags.toNat := by
  have hcode := extendedCode.toNat_lt
  have hversion := version.toNat_lt
  have hflags := flags.toNat_lt
  apply UInt32.toNat_ofNat_of_lt'
  show _ < 4294967296
  omega

/-- The fields that share a time to live are taken out of it as they were put in. -/
theorem fields_ttlField (extendedCode version : UInt8) (flags : UInt16) :
    let ttl := (ttlField extendedCode version flags).toNat
    UInt8.ofNat (ttl / 16777216) = extendedCode ∧ UInt8.ofNat (ttl / 65536) = version ∧
      UInt16.ofNat ttl = flags := by
  have hcode := extendedCode.toNat_lt
  have hversion := version.toNat_lt
  have hflags := flags.toNat_lt
  simp only [toNat_ttlField, ← UInt8.toNat_inj, ← UInt16.toNat_inj, UInt8.toNat_ofNat',
    UInt16.toNat_ofNat']
  omega

/-- A time to live is made of its upper eight bits, the next eight and the lower sixteen. -/
theorem ttlField_toNat (ttl : UInt32) :
    ttlField (UInt8.ofNat (ttl.toNat / 16777216)) (UInt8.ofNat (ttl.toNat / 65536))
      (UInt16.ofNat ttl.toNat) = ttl := by
  have := ttl.toNat_lt
  apply UInt32.toNat_inj.mp
  rw [toNat_ttlField, UInt8.toNat_ofNat', UInt8.toNat_ofNat', UInt16.toNat_ofNat']
  omega

/-- A record has a content exactly if its fields are those of the content and its data is what the
options are written as. -/
theorem ofRecord_eq_ok_iff {rclass : Class} {ttl : UInt32} {data : List UInt8} {o : Opt} :
    ofRecord rclass ttl data = .ok o ↔
      rclass = ⟨o.payloadSize⟩ ∧ ttl = ttlField o.extendedCode o.version o.flags ∧
        data = EdnsOption.encodeAll o.options ∧
        ∀ option ∈ o.options, option.data.size ≤ 65535 := by
  constructor
  · intro h
    rw [ofRecord] at h
    cases hread : EdnsOption.readAll data with
    | error e =>
        rw [hread] at h
        cases h
    | ok options =>
        rw [hread] at h
        cases h
        exact ⟨rfl, (ttlField_toNat ttl).symm, EdnsOption.readAll_eq_ok_iff.mp hread⟩
  · rintro ⟨rfl, rfl, written⟩
    rcases fields_ttlField o.extendedCode o.version o.flags with ⟨code, version, flags⟩
    rw [ofRecord, EdnsOption.readAll_eq_ok_iff.mpr written]
    simp only [code, version, flags]

/-- The content of a record is read back. -/
theorem ofRecord_ttlField (payloadSize flags : UInt16) (extendedCode version : UInt8)
    {options : List EdnsOption} (h : EdnsOption.wireLengthAll options ≤ 65535) :
    ofRecord ⟨payloadSize⟩ (ttlField extendedCode version flags)
      (EdnsOption.encodeAll options) =
        .ok { payloadSize, extendedCode, version, flags, options } := by
  refine ofRecord_eq_ok_iff.mpr ⟨rfl, rfl, rfl, ?_⟩
  intro o ho
  exact Nat.le_trans (EdnsOption.size_le_wireLengthAll ho) h

end Opt

end Querier
