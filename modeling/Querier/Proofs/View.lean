import Querier.DecodeError

/-!
# Views of a buffer

A reader sees of a buffer which octet stands at which offset. A *view* is a
partial function from offsets to octets: all of a buffer, or only the part of
it that is known not to change any more. What can be read in a view can be
read in every view that shows more, which is how a statement about a buffer
outlives the writes that follow.

## Main results

* `holds_append`: octets stand one behind the other exactly when they stand as
  one run.
* `Holds.mono`: what stands in a view stands in every larger one.
* `readUInt16_eq_ok_iff`, `readUInt32_eq_ok_iff`, `readRun_eq_ok_iff`: the
  readers read exactly what stands in the view of the buffer.
-/

namespace Querier

/-- Which octet stands at which offset, as far as that is known. -/
abbrev View := Nat → Option UInt8

namespace View

/-- One view shows all that another one shows. -/
def Le (v v' : View) : Prop := ∀ i o, v i = some o → v' i = some o

/-- The octets stand in the view from `pos` on. -/
def Holds (v : View) (pos : Nat) : List UInt8 → Prop
  | [] => True
  | o :: os => v pos = some o ∧ Holds v (pos + 1) os

variable {v v' v'' : View} {pos : Nat} {xs ys : List UInt8}

theorem Le.refl (v : View) : Le v v := fun _ _ h => h

theorem Le.trans (h : Le v v') (h' : Le v' v'') : Le v v'' :=
  fun i o hi => h' i o (h i o hi)

theorem Holds.mono (h : Holds v pos xs) (hle : Le v v') : Holds v' pos xs := by
  induction xs generalizing pos with
  | nil => trivial
  | cons x xs ih => exact ⟨hle pos x h.1, ih h.2⟩

theorem holds_append :
    Holds v pos (xs ++ ys) ↔ Holds v pos xs ∧ Holds v (pos + xs.length) ys := by
  induction xs generalizing pos with
  | nil => simp [Holds]
  | cons x xs ih =>
      have hpos : pos + 1 + xs.length = pos + (x :: xs).length := by
        rw [List.length_cons]
        omega
      simp only [List.cons_append, Holds, ih, hpos, and_assoc]

/-- A run stands in a view if the view shows each of its octets. -/
theorem holds_iff : Holds v pos xs ↔ ∀ i, i < xs.length → v (pos + i) = xs[i]? := by
  induction xs generalizing pos with
  | nil => simp [Holds]
  | cons x xs ih =>
      simp only [Holds, ih]
      constructor
      · rintro ⟨hx, hxs⟩ i hi
        cases i with
        | zero => simpa using hx
        | succ i =>
            have hstep := hxs i (by simpa using hi)
            rw [List.getElem?_cons_succ, ← hstep]
            congr 1
            omega
      · intro h
        refine ⟨by simpa using h 0 (by simp), fun i hi => ?_⟩
        have hstep := h (i + 1) (by simpa using hi)
        rw [List.getElem?_cons_succ] at hstep
        rw [← hstep]
        congr 1
        omega

/-- Runs of one length that stand at one offset are equal. -/
theorem Holds.unique (hx : Holds v pos xs) (hy : Holds v pos ys)
    (hlen : xs.length = ys.length) : xs = ys := by
  apply List.ext_getElem? fun i => ?_
  by_cases hi : i < xs.length
  · rw [← holds_iff.mp hx i hi, ← holds_iff.mp hy i (by omega)]
  · rw [List.getElem?_eq_none (by omega), List.getElem?_eq_none (by omega)]

end View

namespace Octets

open View

/-- All of a buffer. -/
def view (b : Octets) : View := fun i => b[i]?

variable {b : Octets} {pos stop : Nat}

theorem lt_size_of_view {i : Nat} {o : UInt8} (h : b.view i = some o) : i < b.size :=
  (Array.getElem?_eq_some_iff.mp h).1

theorem getElem?_append (b : Octets) (os : List UInt8) (i : Nat) :
    (b ++ os)[i]? = if i < b.size then b[i]? else os[i - b.size]? := by
  rw [← Array.getElem?_toList, Array.toList_appendList, List.getElem?_append]
  simp

@[simp] theorem size_append (b : Octets) (os : List UInt8) :
    (b ++ os).size = b.size + os.length := by
  rw [← Array.length_toList, Array.toList_appendList, List.length_append, Array.length_toList]

theorem view_le_append (b : Octets) (os : List UInt8) : Le b.view (view (b ++ os)) := by
  intro i o h
  rw [view, getElem?_append, if_pos (lt_size_of_view h)]
  exact h

/-- What stands in a buffer ends inside of it. -/
theorem le_size_of_holds {os : List UInt8} (h : Holds b.view pos os) (hpos : pos ≤ b.size) :
    pos + os.length ≤ b.size := by
  induction os generalizing pos with
  | nil => simpa using hpos
  | cons o os ih =>
      have hstep := ih h.2 (lt_size_of_view h.1)
      rw [List.length_cons]
      omega

/-- Octets that are appended stand at the old end. -/
theorem holds_view_append (b : Octets) (os : List UInt8) : Holds (view (b ++ os)) b.size os := by
  rw [holds_iff]
  intro i _
  rw [view, getElem?_append, if_neg (by omega), Nat.add_sub_cancel_left]

/-- A run that is cut out of a buffer stands where it was cut out. -/
theorem holds_view_extract (b : Octets) (pos stop : Nat) :
    Holds b.view pos (b.extract pos stop).toList := by
  rw [holds_iff]
  intro i hi
  simp only [Array.length_toList, Array.size_extract] at hi
  rw [view, Array.getElem?_toList, Array.getElem?_extract, if_pos (by omega)]

/-- Something stands between any two offsets of a buffer. -/
theorem exists_holds_view (hle : pos ≤ stop) (hsize : stop ≤ b.size) :
    ∃ os, Holds b.view pos os ∧ pos + os.length = stop := by
  refine ⟨(b.extract pos stop).toList, holds_view_extract b pos stop, ?_⟩
  rw [Array.length_toList, Array.size_extract]
  omega

/-- A run that stands in a buffer can be cut out of it. -/
theorem extract_of_holds_view {os : List UInt8} (h : Holds b.view pos os)
    (hpos : pos ≤ b.size) : b.extract pos (pos + os.length) = os.toArray := by
  have hlen : (b.extract pos (pos + os.length)).toList.length = os.length := by
    have := le_size_of_holds h hpos
    simp
    omega
  exact Array.toList_inj.mp ((holds_view_extract b _ _).unique h hlen)

theorem toList_extract_size (b : Octets) (start : Nat) :
    (b.extract start b.size).toList = b.toList.drop start := by
  rw [Array.toList_extract, List.extract_eq_take_drop]
  apply List.take_of_length_le
  have length : (b.toList.drop start).length = b.size - start := by
    rw [List.length_drop, Array.length_toList]
  exact Nat.le_of_eq length

/-- Two buffers that end in the same octets at the same place are equal from there on. -/
theorem getElem?_eq_of_holds {b' : Octets} {os : List UInt8} (h : Holds b.view pos os)
    (h' : Holds b'.view pos os) (hsize : b.size = pos + os.length)
    (hsize' : b'.size = pos + os.length) {i : Nat} (hi : pos ≤ i) : b[i]? = b'[i]? := by
  rcases Nat.lt_or_ge i (pos + os.length) with hlt | hge
  · have hget := holds_iff.mp h (i - pos) (by omega)
    have hget' := holds_iff.mp h' (i - pos) (by omega)
    rw [Nat.add_sub_cancel' hi] at hget hget'
    exact hget.trans hget'.symm
  · rw [Array.getElem?_eq_none (by omega), Array.getElem?_eq_none (by omega)]

/-! ## The readers -/

/-- Two steps of reading succeed when the first one does and the second one on its
result. -/
theorem bind_eq_ok_iff {α β : Type} {x : Except DecodeError α}
    {f : α → Except DecodeError β} {y : β} :
    (x >>= f) = .ok y ↔ ∃ a, x = .ok a ∧ f a = .ok y := by
  cases x with
  | error e =>
      constructor
      · intro h
        cases h
      · rintro ⟨a, ha, -⟩
        cases ha
  | ok a =>
      constructor
      · intro h
        exact ⟨a, rfl, h⟩
      · rintro ⟨a', ha, hf⟩
        cases ha
        exact hf

theorem ofUInt16_uInt16 (hi lo : UInt8) : ofUInt16 (uInt16 hi lo) = [hi, lo] := by
  have := hi.toNat_lt
  have := lo.toNat_lt
  simp only [ofUInt16, toNat_uInt16, List.cons.injEq, ← UInt8.toNat_inj, UInt8.toNat_ofNat',
    and_true]
  omega

theorem ofUInt32_uInt32 (o₁ o₂ o₃ o₄ : UInt8) :
    ofUInt32 (uInt32 o₁ o₂ o₃ o₄) = [o₁, o₂, o₃, o₄] := by
  have := o₁.toNat_lt
  have := o₂.toNat_lt
  have := o₃.toNat_lt
  have := o₄.toNat_lt
  simp only [ofUInt32, toNat_uInt32, List.cons.injEq, ← UInt8.toNat_inj, UInt8.toNat_ofNat',
    and_true]
  omega

theorem readUInt16_eq_ok_iff {x : UInt16} :
    b.readUInt16 pos = .ok (x, stop) ↔ Holds b.view pos (ofUInt16 x) ∧ stop = pos + 2 := by
  unfold readUInt16
  constructor
  · intro h
    split at h
    · rename_i hi lo hhi hlo
      cases h
      rw [ofUInt16_uInt16]
      exact ⟨⟨hhi, hlo, trivial⟩, rfl⟩
    · cases h
  · rintro ⟨⟨hhi, hlo, -⟩, rfl⟩
    simp only [view] at hhi hlo
    rw [hhi, hlo, ← uInt16_ofUInt16 x]
    simp only [uInt16_ofUInt16]

theorem readUInt32_eq_ok_iff {x : UInt32} :
    b.readUInt32 pos = .ok (x, stop) ↔ Holds b.view pos (ofUInt32 x) ∧ stop = pos + 4 := by
  unfold readUInt32
  constructor
  · intro h
    split at h
    · rename_i o₁ o₂ o₃ o₄ h₁ h₂ h₃ h₄
      cases h
      rw [ofUInt32_uInt32]
      exact ⟨⟨h₁, h₂, h₃, h₄, trivial⟩, rfl⟩
    · cases h
  · rintro ⟨⟨h₁, h₂, h₃, h₄, -⟩, rfl⟩
    simp only [view] at h₁ h₂ h₃ h₄
    rw [h₁, h₂, h₃, h₄]
    simp only [uInt32_ofUInt32]

theorem readRun_eq_ok_iff {len : Nat} {run : Octets} :
    b.readRun pos len = .ok (run, stop) ↔
      pos + len ≤ b.size ∧ run = b.extract pos (pos + len) ∧ stop = pos + len := by
  unfold readRun
  constructor
  · intro h
    split at h
    · rename_i hsize
      cases h
      exact ⟨hsize, rfl, rfl⟩
    · cases h
  · rintro ⟨hsize, rfl, rfl⟩
    rw [if_pos hsize]

end Octets

end Querier
