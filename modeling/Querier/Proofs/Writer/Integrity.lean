import Querier.Proofs.Writer.Operations

/-!
# Names stay intact

A pointer is only as good as what it leads to, and a writer does change its
message after the fact: it sets counts and flags in the header, it fills in the
length of the data of a record when that is complete, and it cuts the message
back. None of this ever touches a name that stays in the message.

The invariant is `Sound`. The octets of a name are *settled*: they are behind
the header and not in the length field of the open record. A name is spelled in
the settled octets before its own end, so all that it leads to was there before
it; and it never lies across an offset where the message may be cut.

## Main results

* `Sound.step`, `Sound.run`: every operation keeps the writer sound, if
  `rollback` has a record to take back.
* `run_names_intact`: in every state of such a run the remembered offsets are
  in order and in range, and every name that is still in the message reads back
  where it was written.
-/

namespace Querier.Writer

open View

/-! ## Settled octets -/

/-- An octet does not change as long as it stays in the message: it is behind the header and
not in the length field of the open record. -/
def Settled (w : Writer) (i : Nat) : Prop :=
  Header.length ≤ i ∧ ∀ r ∈ w.current, i + 2 < r.start ∨ r.start ≤ i

instance (w : Writer) (i : Nat) : Decidable (w.Settled i) :=
  inferInstanceAs (Decidable (_ ∧ _))

/-- The settled octets before an offset. -/
def settledView (w : Writer) (limit : Nat) : View := fun i =>
  if i < limit ∧ w.Settled i then w.content[i]? else none

variable {w w' : Writer} {limit : Nat}

theorem settledView_eq_some_iff {i : Nat} {o : UInt8} :
    w.settledView limit i = some o ↔ i < limit ∧ w.Settled i ∧ w.content[i]? = some o := by
  unfold settledView
  split
  · rename_i h
    simp [h]
  · rename_i h
    simp only [reduceCtorEq, false_iff]
    exact fun h' => h ⟨h'.1, h'.2.1⟩

theorem settledView_le_view (w : Writer) (limit : Nat) : Le (w.settledView limit) w.content.view :=
  fun _ _ h => (settledView_eq_some_iff.mp h).2.2

theorem settledView_mono {limit' : Nat} (h : limit ≤ limit') :
    Le (w.settledView limit) (w.settledView limit') := by
  intro i o hi
  obtain ⟨hlt, hsettled, hget⟩ := settledView_eq_some_iff.mp hi
  exact settledView_eq_some_iff.mpr ⟨Nat.lt_of_lt_of_le hlt h, hsettled, hget⟩

/-- Settled octets stay if they stay settled and are not overwritten. -/
theorem settledView_le (h : ∀ i o, i < limit → w.Settled i → w.content[i]? = some o →
      w'.Settled i ∧ w'.content[i]? = some o) :
    Le (w.settledView limit) (w'.settledView limit) := by
  intro i o hi
  obtain ⟨hlt, hsettled, hget⟩ := settledView_eq_some_iff.mp hi
  exact settledView_eq_some_iff.mpr ⟨hlt, h i o hlt hsettled hget⟩

theorem settledView_le_of_sameMessage (h : SameMessage w w') (limit : Nat) :
    Le (w.settledView limit) (w'.settledView limit) := by
  refine settledView_le fun i o _ hsettled hget => ⟨⟨hsettled.1, ?_⟩, ?_⟩
  · rw [h.current]
    exact hsettled.2
  · rw [h.content]
    exact hget

/-- What stands behind the header and not across a length field is settled. -/
theorem holds_settledView {os : List UInt8} {pos : Nat} (h : Holds w.content.view pos os)
    (hpos : Header.length ≤ pos) (hlimit : pos + os.length ≤ limit)
    (hfree : ∀ r ∈ w.current, r.start ≤ pos ∨ pos + os.length + 2 ≤ r.start) :
    Holds (w.settledView limit) pos os := by
  rw [holds_iff] at h ⊢
  intro i hi
  have hget := h i hi
  rw [List.getElem?_eq_getElem hi] at hget ⊢
  refine settledView_eq_some_iff.mpr ⟨by omega, ⟨by omega, fun r hr => ?_⟩, hget⟩
  have := hfree r hr
  omega

theorem settledView_push_le (w : Writer) (os : List UInt8) (h : limit ≤ w.content.size) :
    Le (w.settledView limit) ((w.push os).settledView limit) := by
  refine settledView_le fun i o hi hsettled hget => ⟨hsettled, ?_⟩
  simp only [push]
  rw [Octets.getElem?_append, if_pos (by omega)]
  exact hget

/-- The header is not settled, so it may change. -/
theorem settledView_editHeader_le (w : Writer) (f : Header → Header) (limit : Nat) :
    Le (w.settledView limit) ((w.editHeader f).settledView limit) := by
  refine settledView_le fun i o hi hsettled hget => ⟨hsettled, ?_⟩
  simp only [editHeader]
  rw [Header.getElem?_edit f _ hsettled.1]
  exact hget

/-! ## The invariant -/

/-- A name that was written: from where to where. -/
structure Mark where
  start : Nat
  name : Name
  stop : Nat

/-- A name does not lie across an offset. -/
def Mark.Clear (m : Mark) (cut : Nat) : Prop := m.stop ≤ cut ∨ cut ≤ m.start

/-- A name is spelled in the settled octets before its own end, up to case. -/
def Keeps (w : Writer) (m : Mark) : Prop :=
  ∃ n : Name, Spelled (w.settledView m.stop) m.start n.labels m.stop ∧ n.same m.name = true

theorem Keeps.mono {m : Mark} (h : w.Keeps m)
    (hle : Le (w.settledView m.stop) (w'.settledView m.stop)) : w'.Keeps m := by
  obtain ⟨n, hn, hsame⟩ := h
  exact ⟨n, hn.mono hle, hsame⟩

/-- The marked names are intact, and the remembered ones are among them. -/
structure Sound (w : Writer) (marks : List Mark) : Prop where
  /-- The question name is spelled as it was given. -/
  question : Spelled (w.settledView (Header.length + w.qname.wireLength)) Header.length
    w.qname.labels (Header.length + w.qname.wireLength)
  questionEnd_eq : w.questionEnd = Header.length + (w.qname.wireLength + 4)
  questionEnd_le : w.questionEnd ≤ w.content.size
  /-- The open record was started behind the question. -/
  current : ∀ r ∈ w.current,
    w.questionEnd ≤ w.recordStart ∧ w.recordStart + 2 ≤ r.start ∧ r.start ≤ w.content.size
  keeps : ∀ m ∈ marks, m.stop ≤ w.content.size ∧ Header.length ≤ m.start ∧ w.Keeps m
  /-- No name lies across an offset where the message may be cut. -/
  clear : ∀ m ∈ marks, m.Clear w.questionEnd ∧ ∀ r ∈ w.current, m.Clear w.recordStart
  sorted : w.names.Pairwise (· < ·)
  names : ∀ p ∈ w.names, p < Compression.offsetLimit ∧ ∃ m ∈ marks, m.start = p

namespace Sound

variable {marks : List Mark}

theorem length_le (h : Sound w marks) : Header.length ≤ w.content.size := by
  have := h.questionEnd_eq
  have := h.questionEnd_le
  omega

theorem inRange (h : Sound w marks) : w.InRange := by
  intro r hr
  have hcur := h.current r hr
  have := h.questionEnd_eq
  omega

theorem lt_size (h : Sound w marks) : ∀ p ∈ w.names, p < w.content.size := by
  intro p hp
  obtain ⟨-, m, hm, rfl⟩ := h.names p hp
  obtain ⟨hstop, -, n, hn, -⟩ := h.keeps m hm
  exact Nat.lt_of_lt_of_le hn.lt_stop hstop

/-- The remembered names are spelled in the settled octets. -/
theorem remembers (h : Sound w marks) : w.Remembers (w.settledView w.content.size) := by
  refine ⟨settledView_le_view w _, fun p hp _ _ => ?_⟩
  obtain ⟨-, m, hm, rfl⟩ := h.names p hp
  obtain ⟨hstop, -, n, hn, -⟩ := h.keeps m hm
  exact ⟨n.labels, m.stop, hn.mono (settledView_mono hstop)⟩

/-- What keeps the settled octets and cuts nothing off keeps the writer sound. -/
theorem frame (h : Sound w marks) (hqname : w'.qname = w.qname)
    (hend : w'.questionEnd = w.questionEnd) (hnames : w'.names = w.names)
    (hsize : w.content.size ≤ w'.content.size)
    (hcur : ∀ r ∈ w'.current, r ∈ w.current ∧ w'.recordStart = w.recordStart)
    (hle : ∀ limit ≤ w.content.size, Le (w.settledView limit) (w'.settledView limit)) :
    Sound w' marks where
  question := by
    have := h.questionEnd_eq
    have := h.questionEnd_le
    rw [hqname]
    exact h.question.mono (hle _ (by omega))
  questionEnd_eq := by rw [hqname, hend]; exact h.questionEnd_eq
  questionEnd_le := by rw [hend]; exact Nat.le_trans h.questionEnd_le hsize
  current := by
    intro r hr
    obtain ⟨hr, hrecord⟩ := hcur r hr
    have := h.current r hr
    rw [hend, hrecord]
    omega
  keeps := by
    intro m hm
    obtain ⟨hstop, hstart, hkeeps⟩ := h.keeps m hm
    exact ⟨Nat.le_trans hstop hsize, hstart, hkeeps.mono (hle _ hstop)⟩
  clear := by
    intro m hm
    obtain ⟨hclear, hopen⟩ := h.clear m hm
    rw [hend]
    refine ⟨hclear, fun r hr => ?_⟩
    obtain ⟨hr, hrecord⟩ := hcur r hr
    rw [hrecord]
    exact hopen r hr
  sorted := by rw [hnames]; exact h.sorted
  names := by rw [hnames]; exact h.names

/-- Neither the mode of the writer nor, without an open record, the settings of a record make
a difference. -/
theorem congr (h : Sound w marks) (hsame : SameMessage w w')
    (hrecord : ∀ r ∈ w.current, w'.recordStart = w.recordStart) : Sound w' marks := by
  have hsize : w.content.size ≤ w'.content.size := Nat.le_of_eq (by rw [hsame.content])
  refine h.frame hsame.qname hsame.questionEnd hsame.names hsize (fun r hr => ?_)
    fun limit _ => settledView_le_of_sameMessage hsame limit
  rw [hsame.current] at hr
  exact ⟨hr, hrecord r hr⟩

/-- Another name that is spelled and lies across no cut. -/
theorem mark (h : Sound w marks) {m : Mark} (hstop : m.stop ≤ w.content.size)
    (hend : w.questionEnd ≤ m.start) (hopen : ∀ r ∈ w.current, w.recordStart ≤ m.start)
    (hkeeps : w.Keeps m) : Sound w (marks ++ [m]) where
  question := h.question
  questionEnd_eq := h.questionEnd_eq
  questionEnd_le := h.questionEnd_le
  current := h.current
  keeps := by
    have := h.questionEnd_eq
    intro m' hm'
    rcases List.mem_append.mp hm' with hm' | hm'
    · exact h.keeps m' hm'
    · rw [List.mem_singleton.mp hm']
      exact ⟨hstop, by omega, hkeeps⟩
  clear := by
    intro m' hm'
    rcases List.mem_append.mp hm' with hm' | hm'
    · exact h.clear m' hm'
    · rw [List.mem_singleton.mp hm']
      exact ⟨.inr hend, fun r hr => .inr (hopen r hr)⟩
  sorted := h.sorted
  names := by
    intro p hp
    obtain ⟨hlt, m', hm', hstart⟩ := h.names p hp
    exact ⟨hlt, m', List.mem_append_left _ hm', hstart⟩

/-- A marked name that begins behind all remembered ones may be remembered. -/
theorem remember (h : Sound w marks) {p : Nat} {new : List Nat}
    (hnew : new = [] ∨ new = [p] ∧ p < Compression.offsetLimit) (hlast : ∀ q ∈ w.names, q < p)
    (hmark : ∃ m ∈ marks, m.start = p) :
    Sound { w with names := w.names ++ new } marks where
  question := h.question
  questionEnd_eq := h.questionEnd_eq
  questionEnd_le := h.questionEnd_le
  current := h.current
  keeps := h.keeps
  clear := h.clear
  sorted := by
    rcases hnew with rfl | ⟨rfl, -⟩
    · rw [List.append_nil]
      exact h.sorted
    · exact List.pairwise_append.mpr ⟨h.sorted, List.pairwise_singleton _ p, by simpa using hlast⟩
  names := by
    intro q hq
    rcases List.mem_append.mp hq with hq | hq
    · exact h.names q hq
    · rcases hnew with rfl | ⟨rfl, hlt⟩
      · cases hq
      · rw [List.mem_singleton.mp hq]
        exact ⟨hlt, hmark⟩

/-! ## The operations -/

theorem push (h : Sound w marks) (os : List UInt8) : Sound (w.push os) marks := by
  refine h.frame rfl rfl rfl ?_ (fun r hr => ⟨hr, rfl⟩) fun _ => settledView_push_le w os
  simp [Writer.push]

theorem editHeader (h : Sound w marks) (f : Header → Header) : Sound (w.editHeader f) marks := by
  refine h.frame rfl rfl rfl ?_ (fun r hr => ⟨hr, rfl⟩) fun limit _ => settledView_editHeader_le w f limit
  exact Nat.le_of_eq (size_editHeader w f).symm

theorem settledView_commit_le (h : Sound w marks) (limit : Nat) :
    Le (w.settledView limit) (w.commit.settledView limit) := by
  refine settledView_le fun i o hi hsettled hget => ⟨⟨hsettled.1, ?_⟩, ?_⟩
  · exact forall_mem_of_none (current_commit w)
  · rw [getElem?_commit h.inRange hsettled.1 hsettled.2]
    exact hget

theorem commit (h : Sound w marks) : Sound w.commit marks := by
  have hsize := size_commit h.inRange
  exact h.frame (qname_commit w) (questionEnd_commit w) (names_commit w) (by omega)
    (forall_mem_of_none (current_commit w)) fun limit _ => h.settledView_commit_le limit

theorem ready (h : Sound w marks) (compress : Bool) : Sound (w.ready compress) marks := by
  exact h.commit.congr ⟨rfl, rfl, rfl, rfl, rfl⟩ (forall_mem_of_none (current_commit w))

/-- A name that is written at the end of the message is one more name in it. -/
theorem pushName (h : Sound w marks) (n : Name) (compress : Bool) :
    Sound (w.pushName n compress)
      (marks ++ [⟨w.content.size, n, (w.pushName n compress).content.size⟩]) := by
  obtain ⟨new, hpush, hnew⟩ := pushName_eq w n compress
  let os := w.nameOctets n compress
  have hsize : (w.push os).content.size = w.content.size + os.length := by simp [Writer.push]
  have hholds : Holds ((w.push os).settledView (w.content.size + os.length)) w.content.size os :=
    holds_settledView (Octets.holds_view_append w.content os) h.length_le (Nat.le_refl _)
      fun r hr => .inl (h.current r hr).2.2
  have hle := (settledView_push_le w os (Nat.le_refl _)).trans
    (settledView_mono (Nat.le_add_right _ os.length))
  have hopen : ∀ r ∈ w.current, w.recordStart ≤ w.content.size := by
    intro r hr
    have := h.current r hr
    omega
  have hmark : Sound (w.push os) (marks ++ [⟨w.content.size, n, w.content.size + os.length⟩]) :=
    (h.push os).mark (Nat.le_of_eq hsize.symm) h.questionEnd_le hopen
      (spells_of_nameOctets h.remembers hle hholds)
  rw [hpush]
  simp only [Octets.size_append]
  exact hmark.remember hnew h.lt_size ⟨_, List.mem_append_right _ List.mem_cons_self, rfl⟩

theorem settledView_open_le (os : List UInt8) {r : OpenRecord}
    (hr : w.content.size + 2 ≤ r.start) (h : limit ≤ w.content.size) :
    Le (w.settledView limit) (settledView { w.push os with current := some r } limit) := by
  refine (settledView_push_le w os h).trans
    (settledView_le fun i o hi hsettled hget => ⟨⟨hsettled.1, fun r' hr' => ?_⟩, hget⟩)
  cases hr'
  omega

/-- A record may be opened at the end of the message, its length field included in what is
appended. -/
theorem openRecord (h : Sound w marks) (hstart : w.recordStart = w.content.size)
    (os : List UInt8) {r : OpenRecord} (hlow : w.content.size + 2 ≤ r.start)
    (hhigh : r.start ≤ w.content.size + os.length) :
    Sound { w.push os with current := some r } marks where
  question := by
    have := h.questionEnd_eq
    have := h.questionEnd_le
    exact h.question.mono (settledView_open_le os hlow (by omega))
  questionEnd_eq := h.questionEnd_eq
  questionEnd_le := (h.push os).questionEnd_le
  current := by
    intro r' hr'
    cases hr'
    have := h.questionEnd_le
    simp only [Writer.push, Octets.size_append, hstart]
    omega
  keeps := by
    intro m hm
    obtain ⟨hstop, hstart, hkeeps⟩ := h.keeps m hm
    exact ⟨((h.push os).keeps m hm).1, hstart, hkeeps.mono (settledView_open_le os hlow hstop)⟩
  clear := by
    intro m hm
    refine ⟨(h.clear m hm).1, fun _ _ => .inl ?_⟩
    simp only [Writer.push, hstart]
    exact (h.keeps m hm).1
  sorted := h.sorted
  names := h.names

/-- The owner of a record is spelled where it is written, be it as a pointer to the question,
and what is spelled there would have been written in the same way. -/
theorem respells_of_ownerOctets (h : Sound w marks) {n : Name} {compress : Bool} {v : View}
    (hle : Le (w.settledView w.content.size) v)
    (hholds : Holds v w.content.size (w.ownerOctets n compress)) :
    ∃ m : Name, Spelled v w.content.size m.labels
        (w.content.size + (w.ownerOctets n compress).length) ∧ m.same n = true ∧
      w.pushOwner m compress = w.pushOwner n compress := by
  unfold ownerOctets at hholds ⊢
  split at hholds
  · rename_i hcompress
    rw [if_pos hcompress]
    have hlimit : Header.length < Compression.offsetLimit := by decide
    obtain ⟨hi, lo, hpointer, points⟩ := pointer_eq hlimit
    rw [hpointer] at hholds ⊢
    have hquestion := h.question.mono ((settledView_mono (by
      have := h.questionEnd_eq
      have := h.questionEnd_le
      omega)).trans hle)
    have hback : Header.length < w.content.size := by
      have := h.questionEnd_eq
      have := h.questionEnd_le
      omega
    obtain ⟨hmay, hsame⟩ := Bool.and_eq_true_iff.mp hcompress
    refine ⟨w.qname, .pointer hholds.1 hholds.2.1 points hback hquestion, Name.same_symm hsame, ?_⟩
    unfold pushOwner
    rw [if_pos hcompress, if_pos]
    rw [Name.isRoot_congr (Name.same_symm hsame), Name.same_refl, Bool.and_true]
    exact hmay
  · rename_i hcompress
    rw [if_neg hcompress]
    obtain ⟨m, hm, hsame, hpush⟩ := respells_of_nameOctets h.remembers hle hholds
    exact ⟨m, hm, hsame, pushOwner_congr hsame hpush⟩

theorem spells_of_ownerOctets (h : Sound w marks) {n : Name} {compress : Bool} {v : View}
    (hle : Le (w.settledView w.content.size) v)
    (hholds : Holds v w.content.size (w.ownerOctets n compress)) :
    ∃ m : Name, Spelled v w.content.size m.labels
        (w.content.size + (w.ownerOctets n compress).length) ∧ m.same n = true := by
  obtain ⟨m, hm, hsame, -⟩ := h.respells_of_ownerOctets hle hholds
  exact ⟨m, hm, hsame⟩

/-- What reads back where the owner of a record was written starts the record in the same
way. -/
theorem startRecord_reread (h : Sound w marks) {n owner : Name} {rtype : RecordType}
    {ttl : UInt32} {rclass : Class} {part : Section} {compress : Bool} {stop : Nat}
    (hn : Spelled (w.startRecord owner rtype ttl rclass part compress).content.view
      w.content.size n.labels stop) :
    w.startRecord n rtype ttl rclass part compress =
      w.startRecord owner rtype ttl rclass part compress := by
  obtain ⟨new, hstart, -⟩ := startRecord_eq w owner rtype ttl rclass part compress
  have hready := h.ready compress
  let os := (w.ready compress).ownerOctets owner compress ++ fixedOctets rtype ttl rclass
  have hle : Le ((w.ready compress).settledView w.commit.content.size)
      (Octets.view (w.commit.content ++ os)) :=
    (settledView_le_view _ _).trans (Octets.view_le_append w.commit.content os)
  have hholds := Octets.holds_view_append w.commit.content os
  obtain ⟨m, hm, -, hpush⟩ := hready.respells_of_ownerOctets hle (holds_append.mp hholds).1
  rw [hstart, ← size_commit h.inRange] at hn
  rw [Name.eq_of_spelled hn hm, startRecord_eq_push, startRecord_eq_push, hpush]

/-- Starting a record writes its owner as one more name. -/
theorem startRecord (h : Sound w marks) (owner : Name) (rtype : RecordType) (ttl : UInt32)
    (rclass : Class) (part : Section) (compress : Bool) :
    Sound (w.startRecord owner rtype ttl rclass part compress)
      (marks ++ [⟨w.content.size, owner,
        (w.startRecord owner rtype ttl rclass part compress).content.size - 10⟩]) := by
  obtain ⟨new, hstart, hnew⟩ := startRecord_eq w owner rtype ttl rclass part compress
  have hready := h.ready compress
  let os := (w.ready compress).ownerOctets owner compress
  let fixed := fixedOctets rtype ttl rclass
  let r : OpenRecord := ⟨w.commit.content.size + os.length + 10, part⟩
  let w₁ : Writer := { (w.ready compress).push (os ++ fixed) with current := some r }
  have hopened : Sound w₁ marks := by
    refine hready.openRecord rfl (os ++ fixed) ?_ ?_
    · show w.commit.content.size + 2 ≤ w.commit.content.size + os.length + 10
      omega
    · rw [List.length_append, length_fixedOctets, ← Nat.add_assoc]
      exact Nat.le_refl _
  have hholds : Holds (w₁.settledView (w.commit.content.size + os.length))
      w.commit.content.size os := by
    have hview := Octets.holds_view_append w.commit.content (os ++ fixed)
    refine holds_settledView (holds_append.mp hview).1 h.commit.length_le (Nat.le_refl _)
      fun r' hr' => .inr ?_
    cases hr'
    show w.commit.content.size + os.length + 2 ≤ w.commit.content.size + os.length + 10
    omega
  have hle : Le ((w.ready compress).settledView w.commit.content.size)
      (w₁.settledView (w.commit.content.size + os.length)) := by
    refine (settledView_open_le (os ++ fixed) ?_ (Nat.le_refl _)).trans
      (settledView_mono (Nat.le_add_right _ _))
    show w.commit.content.size + 2 ≤ w.commit.content.size + os.length + 10
    omega
  have hsize : w₁.content.size = w.commit.content.size + os.length + 10 := by
    show ((w.ready compress).content ++ (os ++ fixed)).size = _
    rw [Octets.size_append, List.length_append, length_fixedOctets, ← Nat.add_assoc]
    rfl
  have hmark : Sound w₁ (marks ++
      [⟨w.commit.content.size, owner, w.commit.content.size + os.length⟩]) :=
    hopened.mark (by simp only; omega) h.commit.questionEnd_le (fun _ _ => Nat.le_refl _)
      (hready.spells_of_ownerOctets hle hholds)
  rw [hstart, ← size_commit h.inRange]
  simp only [Octets.size_append, List.length_append, length_fixedOctets, ← Nat.add_assoc,
    Nat.add_sub_cancel]
  rw [← names_commit]
  exact hmark.remember hnew h.commit.lt_size ⟨_, List.mem_append_right _ List.mem_cons_self, rfl⟩

/-- Cutting back where no name lies across takes away the names behind the cut. -/
theorem cutBack (h : Sound w marks) {len : Nat} (hlow : w.questionEnd ≤ len)
    (hhigh : len ≤ w.content.size) (hclear : ∀ m ∈ marks, m.Clear len) :
    Sound (w.cutBack len) (marks.filter (·.stop ≤ len)) := by
  have hend := h.questionEnd_eq
  have hle : ∀ limit ≤ len, Le (w.settledView limit) ((w.cutBack len).settledView limit) := by
    intro limit hlimit
    refine settledView_le fun i o hi hsettled hget =>
      ⟨⟨hsettled.1, forall_mem_of_none rfl⟩, ?_⟩
    rw [getElem?_cutBack w (by omega)]
    exact hget
  exact {
    question := h.question.mono (hle _ (by omega))
    questionEnd_eq := hend
    questionEnd_le := by
      rw [size_cutBack hhigh]
      exact hlow
    current := forall_mem_of_none rfl
    keeps := by
      intro m hm
      obtain ⟨hm, hstop⟩ := List.mem_filter.mp hm
      obtain ⟨-, hstart, hkeeps⟩ := h.keeps m hm
      have hstop := of_decide_eq_true hstop
      rw [size_cutBack hhigh]
      exact ⟨hstop, hstart, hkeeps.mono (hle _ hstop)⟩
    clear := fun m hm => ⟨(h.clear m (List.mem_filter.mp hm).1).1, forall_mem_of_none rfl⟩
    sorted := h.sorted.filter _
    names := by
      intro p hp
      obtain ⟨hp, hlt⟩ := List.mem_filter.mp hp
      obtain ⟨hlimit, m, hm, rfl⟩ := h.names p hp
      have hlt := of_decide_eq_true hlt
      refine ⟨hlimit, m, List.mem_filter.mpr ⟨hm, decide_eq_true ?_⟩, rfl⟩
      rcases hclear m hm with hstop | hstart
      · exact hstop
      · omega }

/-! ## Steps and runs -/

theorem rollback (h : Sound w marks) (hopen : w.current.isSome = true) :
    Sound w.rollback (marks.filter (·.stop ≤ w.rollback.content.size)) := by
  obtain ⟨r, hr⟩ := Option.isSome_iff_exists.mp hopen
  have hcur := h.current r hr
  have hsize : w.recordStart ≤ w.content.size := by omega
  have hcut := h.cutBack hcur.1 hsize fun m hm => (h.clear m hm).2 r hr
  rw [Writer.rollback, size_cutBack hsize]
  exact hcut

theorem truncate (h : Sound w marks) :
    Sound w.truncate (marks.filter (·.stop ≤ w.truncate.content.size)) := by
  have hcut := h.cutBack (Nat.le_refl _) h.questionEnd_le fun m hm => (h.clear m hm).1
  have hsize : w.truncate.content.size = w.questionEnd := by
    rw [Writer.truncate, size_editHeader, size_cutBack h.questionEnd_le]
  rw [hsize]
  exact hcut.editHeader _

theorem addOpt (h : Sound w marks) (payloadSize extendedCode flags : UInt16)
    (options : List EdnsOption) (version : UInt8) :
    Sound (w.addOpt payloadSize extendedCode flags options version)
      (marks ++ [⟨w.content.size, .root, w.content.size + 1⟩]) := by
  have hcode : Sound (w.withCode extendedCode) marks ∧
      (w.withCode extendedCode).content.size = w.content.size := by
    unfold withCode
    split
    · exact ⟨h, rfl⟩
    · exact ⟨h.editHeader _, size_editHeader w _⟩
  obtain ⟨hsound, hsize⟩ := hcode
  have hstart := hsound.startRecord .root .opt
    (Opt.ttlField (UInt8.ofNat (extendedCode.toNat / 16)) version flags) ⟨payloadSize⟩
    .additional false
  rw [size_startRecord_root hsound.inRange.bounded, hsize] at hstart
  rw [addOpt_eq]
  exact (hstart.push (EdnsOption.encodeAll options)).commit

/-- No mark of a sound writer lies behind the end of the message. -/
theorem filter_eq (h : Sound w marks) : marks.filter (·.stop ≤ w.content.size) = marks :=
  List.filter_eq_self.mpr fun m hm => decide_eq_true (h.keeps m hm).1

end Sound

/-- The names that an operation writes. The fixed fields behind the owner of a record are ten
octets. -/
def written (w : Writer) : Op → List Mark
  | .start owner rtype ttl rclass part compress =>
      [⟨w.content.size, owner,
        (w.startRecord owner rtype ttl rclass part compress).content.size - 10⟩]
  | .name n compress => [⟨w.content.size, n, (w.pushName n compress).content.size⟩]
  | .opt _ _ _ _ _ => [⟨w.content.size, .root, w.content.size + 1⟩]
  | _ => []

/-- The names in the message after an operation: those that were in it and those that it
writes, without the ones that it cuts off. -/
def marksAfter (w : Writer) (marks : List Mark) (op : Op) : List Mark :=
  (marks ++ w.written op).filter (·.stop ≤ (w.step op).content.size)

/-- The names in the message after a run. -/
def marksOf (w : Writer) (marks : List Mark) : List Op → List Mark
  | [] => marks
  | op :: ops => (w.step op).marksOf (w.marksAfter marks op) ops

/-- An operation has what it needs: there is a record to take back. -/
def Permits (w : Writer) : Op → Prop
  | .rollback => w.current.isSome = true
  | _ => True

/-- Each operation of a run has what it needs. -/
def Orderly (w : Writer) : List Op → Prop
  | [] => True
  | op :: ops => w.Permits op ∧ (w.step op).Orderly ops

/-- The name of the question, which every message begins with. -/
def questionMark (qname : Name) : Mark :=
  ⟨Header.length, qname, Header.length + qname.wireLength⟩

namespace Sound

variable {marks : List Mark}

theorem step (h : Sound w marks) {op : Op} (hop : w.Permits op) :
    Sound (w.step op) (w.marksAfter marks op) := by
  -- Only `rollback` and `truncate` take marks away.
  have keep : ∀ {op : Op}, Sound (w.step op) (marks ++ w.written op) →
      Sound (w.step op) (w.marksAfter marks op) := by
    intro op h
    rw [marksAfter, h.filter_eq]
    exact h
  have same : ∀ {op : Op}, w.written op = [] → Sound (w.step op) marks →
      Sound (w.step op) (w.marksAfter marks op) := by
    intro op hnone h
    refine keep ?_
    rw [hnone, List.append_nil]
    exact h
  cases op with
  | start owner rtype ttl rclass part compress => exact keep (h.startRecord ..)
  | commit => exact same rfl h.commit
  | rollback =>
      have hnone : w.written .rollback = [] := rfl
      rw [marksAfter, hnone, List.append_nil]
      exact h.rollback hop
  | truncate =>
      have hnone : w.written .truncate = [] := rfl
      rw [marksAfter, hnone, List.append_nil]
      exact h.truncate
  | header edit => exact same rfl (h.editHeader edit)
  | canonic on => exact same rfl (h.congr ⟨rfl, rfl, rfl, rfl, rfl⟩ fun _ _ => rfl)
  | lowercase on => exact same rfl (h.congr ⟨rfl, rfl, rfl, rfl, rfl⟩ fun _ _ => rfl)
  | uInt8 v => exact same rfl (h.push _)
  | uInt16 v => exact same rfl (h.push _)
  | uInt32 v => exact same rfl (h.push _)
  | low48 v => exact same rfl (h.push _)
  | data os => exact same rfl (h.push _)
  | text os => exact same rfl (h.push _)
  | name n compress => exact keep (h.pushName n compress)
  | opt payloadSize extendedCode flags options version => exact keep (h.addOpt ..)

theorem run (h : Sound w marks) {ops : List Op} (hops : w.Orderly ops) :
    Sound (w.run ops) (w.marksOf marks ops) := by
  induction ops generalizing w marks with
  | nil => exact h
  | cons op ops ih => exact ih (h.step hops.1) hops.2

/-- The name of the question of a new message is spelled as it was given. -/
theorem spelled_new (qname : Name) (qtype : RecordType) (qclass : Class) (opcode : Opcode) :
    Spelled ((Writer.new qname qtype qclass opcode).settledView
      (Header.length + qname.wireLength)) Header.length qname.labels
      (Header.length + qname.wireLength) := by
  have hholds := holds_new qname qtype qclass opcode
  rw [questionOctets, List.append_assoc] at hholds
  have hname : Holds ((Writer.new qname qtype qclass opcode).settledView
      (Header.length + qname.wire.length)) Header.length qname.wire := by
    exact holds_settledView (holds_append.mp hholds).1 (Nat.le_refl _) (Nat.le_refl _)
      (forall_mem_of_none (current_new ..))
  rw [Name.length_wire] at hname
  exact spelled_of_holds_wire hname

theorem new (qname : Name) (qtype : RecordType) (qclass : Class) (opcode : Opcode) :
    Sound (.new qname qtype qclass opcode) [questionMark qname] := by
  have hquestion := spelled_new qname qtype qclass opcode
  have hnames := names_new qname qtype qclass opcode
  exact {
    question := by
      rw [qname_new]
      exact hquestion
    questionEnd_eq := by rw [qname_new, questionEnd_new]
    questionEnd_le := Nat.le_of_eq (by rw [size_new, questionEnd_new])
    current := forall_mem_of_none (current_new ..)
    keeps := by
      intro m hm
      rw [List.mem_singleton.mp hm, size_new]
      refine ⟨?_, Nat.le_refl _, qname, hquestion, qname.same_refl⟩
      simp only [questionMark]
      omega
    clear := by
      intro m hm
      rw [List.mem_singleton.mp hm, questionEnd_new]
      refine ⟨.inl ?_, forall_mem_of_none (current_new ..)⟩
      simp only [questionMark]
      omega
    sorted := by
      rcases hnames with h | h
      · rw [h]
        exact .nil
      · rw [h]
        exact List.pairwise_singleton _ _
    names := by
      intro p hp
      rcases hnames with h | h
      · rw [h] at hp
        cases hp
      · rw [h] at hp
        rw [List.mem_singleton.mp hp]
        exact ⟨by decide, _, List.mem_cons_self, rfl⟩ }

end Sound

/-- **Names stay intact.** After every run that takes back a record only while one is open,
the remembered offsets are in order, behind the header, inside the message and in the reach
of a pointer. Every name that was written as the question, as an owner or as data and was not
cut off reads back from where it was written to where it ended then, as itself up to case. -/
theorem run_names_intact (qname : Name) (qtype : RecordType) (qclass : Class) (opcode : Opcode)
    (ops : List Op) (h : (new qname qtype qclass opcode).Orderly ops) :
    let w := (new qname qtype qclass opcode).run ops
    w.names.Pairwise (· < ·) ∧
      (∀ p ∈ w.names, 12 ≤ p ∧ p < 16384 ∧ p < w.content.size) ∧
      ∀ m ∈ (new qname qtype qclass opcode).marksOf [questionMark qname] ops,
        ∃ n : Name, Name.read w.content m.start = .ok (n, m.stop) ∧ n.same m.name = true := by
  have hsound := (Sound.new qname qtype qclass opcode).run h
  refine ⟨hsound.sorted, fun p hp => ?_, fun m hm => ?_⟩
  · obtain ⟨hlimit, m, hm, rfl⟩ := hsound.names p hp
    exact ⟨(hsound.keeps m hm).2.1, hlimit, hsound.lt_size _ hp⟩
  · obtain ⟨-, -, n, hn, hsame⟩ := hsound.keeps m hm
    exact ⟨n, Name.read_eq_ok_iff.mpr (hn.mono (settledView_le_view _ _)), hsame⟩

/-- The name of the label `com`. -/
def com : Name := ⟨[⟨[99, 111, 109], by decide, by decide⟩], by decide⟩

/-- A record is taken back while it is open, and another one is written in its place. -/
def takenBack : List Op :=
  [.start com .cname 60 .internet .answer true, .name com true, .rollback,
    .start com .mx 60 .internet .answer true, .uInt16 5, .name com true, .commit]

theorem run_names_intact_takenBack :
    (new com .mx .internet ⟨0⟩).Orderly takenBack ∧
      ((new com .mx .internet ⟨0⟩).run takenBack).names.Pairwise (· < ·) ∧
      (∀ p ∈ ((new com .mx .internet ⟨0⟩).run takenBack).names,
        12 ≤ p ∧ p < 16384 ∧ p < ((new com .mx .internet ⟨0⟩).run takenBack).content.size) ∧
      ∀ m ∈ (new com .mx .internet ⟨0⟩).marksOf [questionMark com] takenBack,
        ∃ n : Name, Name.read ((new com .mx .internet ⟨0⟩).run takenBack).content m.start =
          .ok (n, m.stop) ∧ n.same m.name = true := by
  have hopen : (new com .mx .internet ⟨0⟩).Orderly takenBack := by
    refine ⟨trivial, trivial, ?_, trivial, trivial, trivial, trivial, trivial⟩
    simp only [Permits, step, current_pushName]
    rfl
  exact ⟨hopen, run_names_intact com .mx .internet ⟨0⟩ takenBack hopen⟩

end Querier.Writer
