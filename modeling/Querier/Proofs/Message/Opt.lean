import Querier.Proofs.Edns.Opt
import Querier.Proofs.Message.Grammar

/-!
# Which OPT record counts

A message may have any number of OPT records, and of those that stand in the additional
section with the root as their owner one counts. It is not the first of them but the first
whose data is a sequence of options: a broken record leaves no trace while a message is
decoded, so the next one is looked at. Where the first one is broken and a later one is not,
the message has an OPT record that it would not have if the first one decided.

## Main results

* `Record.opt?_eq_some_iff`: what the content of an OPT record is.
* `Message.findSome?_opt?_eq_some_iff`: the record that counts, and those before it.
* `Message.decode_opt`: what the OPT record of a decoded message is, and when the first one
  decides.
-/

namespace Querier

namespace Record

/-- It is an OPT record where one may count. -/
def MayCount (r : Record) : Prop := r.rtype = .opt ∧ r.part = .additional ∧ r.owner.isRoot = true

instance : DecidablePred MayCount := fun _ => inferInstanceAs (Decidable (_ ∧ _ ∧ _))

/-- The record carries this content, if it is taken for an OPT record. -/
structure Carries (r : Record) (o : Opt) : Prop where
  payloadSize : r.rclass = ⟨o.payloadSize⟩
  ttl : r.ttl = Opt.ttlField o.extendedCode o.version o.flags
  data : r.data.toList = EdnsOption.encodeAll o.options
  fits : ∀ option ∈ o.options, option.data.size ≤ 65535

theorem ofRecord_eq_ok_iff {r : Record} {o : Opt} :
    Opt.ofRecord r.rclass r.ttl r.data.toList = .ok o ↔ r.Carries o := by
  rw [Opt.ofRecord_eq_ok_iff]
  constructor
  · rintro ⟨payloadSize, ttl, data, fits⟩
    exact ⟨payloadSize, ttl, data, fits⟩
  · rintro ⟨payloadSize, ttl, data, fits⟩
    exact ⟨payloadSize, ttl, data, fits⟩

theorem opt?_eq_some_iff {r : Record} {o : Opt} : r.opt? = some o ↔ r.MayCount ∧ r.Carries o := by
  rw [← ofRecord_eq_ok_iff]
  by_cases counts : r.MayCount
  · rw [show r.opt? = _ from if_pos counts]
    cases Opt.ofRecord r.rclass r.ttl r.data.toList with
    | error e => simp [Except.toOption]
    | ok o' => simp [Except.toOption, counts]
  · rw [show r.opt? = none from if_neg counts]
    simp [counts]

theorem opt?_eq_none_iff {r : Record} (h : r.MayCount) : r.opt? = none ↔ ∀ o, ¬ r.Carries o := by
  simp only [Option.eq_none_iff_forall_ne_some, ne_eq, opt?_eq_some_iff, h, true_and]

end Record

namespace Message

/-- Other records than those that may count are passed over. -/
theorem findSome?_opt?_filter (rs : List Record) :
    rs.findSome? Record.opt? = (rs.filter Record.MayCount).findSome? Record.opt? := by
  induction rs with
  | nil => rfl
  | cons r rs ih =>
      by_cases counts : r.MayCount
      · rw [List.filter_cons_of_pos (by simpa using counts), List.findSome?_cons,
          List.findSome?_cons, ih]
      · have passed : r.opt? = none := if_neg counts
        rw [List.filter_cons_of_neg (by simpa using counts), List.findSome?_cons, passed, ih]

/-- The first record counts that carries anything. -/
theorem findSome?_opt?_eq_some_iff {rs : List Record} {o : Opt} :
    rs.findSome? Record.opt? = some o ↔
      ∃ before r after, rs.filter Record.MayCount = before ++ r :: after ∧ r.Carries o ∧
        ∀ x ∈ before, ∀ o', ¬ x.Carries o' := by
  rw [findSome?_opt?_filter, List.findSome?_eq_some_iff]
  have counts {before after : List Record} {x r : Record}
      (hsplit : rs.filter Record.MayCount = before ++ r :: after) (hx : x ∈ before ++ [r]) :
      x.MayCount := by
    have mem : x ∈ rs.filter Record.MayCount := by
      rw [hsplit, List.append_cons]
      exact List.mem_append_left _ hx
    exact of_decide_eq_true (List.mem_filter.mp mem).2
  constructor
  · rintro ⟨before, r, after, hsplit, hr, hbefore⟩
    refine ⟨before, r, after, hsplit, (Record.opt?_eq_some_iff.mp hr).2, fun x hx => ?_⟩
    exact (Record.opt?_eq_none_iff (counts hsplit (List.mem_append_left _ hx))).mp (hbefore x hx)
  · rintro ⟨before, r, after, hsplit, hr, hbefore⟩
    have hcounts := counts hsplit (List.mem_append_right before (List.mem_singleton_self r))
    refine ⟨before, r, after, hsplit, Record.opt?_eq_some_iff.mpr ⟨hcounts, hr⟩, fun x hx => ?_⟩
    exact (Record.opt?_eq_none_iff (counts hsplit (List.mem_append_left _ hx))).mpr (hbefore x hx)

/-- No record counts if none carries anything. -/
theorem findSome?_opt?_eq_none_iff {rs : List Record} :
    rs.findSome? Record.opt? = none ↔
      ∀ r ∈ rs.filter Record.MayCount, ∀ o, ¬ r.Carries o := by
  rw [findSome?_opt?_filter, List.findSome?_eq_none_iff]
  apply forall₂_congr
  intro r hr
  exact Record.opt?_eq_none_iff (of_decide_eq_true (List.mem_filter.mp hr).2)

/-- What the OPT record of a message would be if the first that may count decided. -/
def firstOpt? (rs : List Record) : Option Opt :=
  (rs.filter Record.MayCount).head?.bind Record.opt?

/-- The first that may count decides if it carries anything or no other does. -/
theorem findSome?_opt?_eq_firstOpt?_iff {rs : List Record} :
    rs.findSome? Record.opt? = firstOpt? rs ↔
      (∃ r o, (rs.filter Record.MayCount).head? = some r ∧ r.Carries o) ∨
        ∀ r ∈ rs.filter Record.MayCount, ∀ o, ¬ r.Carries o := by
  rw [← findSome?_opt?_eq_none_iff, firstOpt?, findSome?_opt?_filter]
  cases hfilter : rs.filter Record.MayCount with
  | nil => simp
  | cons r rest =>
      have counts : r.MayCount := by
        have mem : r ∈ rs.filter Record.MayCount := by
          rw [hfilter]
          exact List.mem_cons_self
        exact of_decide_eq_true (List.mem_filter.mp mem).2
      rw [List.head?_cons, Option.bind_some, List.findSome?_cons]
      cases hr : r.opt? with
      | none =>
          have broken := (Record.opt?_eq_none_iff counts).mp hr
          simp [broken]
      | some o =>
          have carries := (Record.opt?_eq_some_iff.mp hr).2
          simp only [true_iff]
          exact .inl ⟨r, o, rfl, carries⟩

/-- **Which OPT record counts.** A buffer that decodes is a message of some questions and records,
and of whichever it is one, its OPT record is this: among the records of type OPT that stand in
the additional section with the root as their owner, the first whose data is a sequence of
options, with all before it passed over, and none if there is no such record. So the first of them
all decides, whatever follows, exactly if it is well-formed itself or none of them is. -/
theorem decode_opt {b : Octets} {m : Message} (h : decode b = .ok m) :
    (∃ qs rs, Grammar b qs rs) ∧ ∀ qs rs, Grammar b qs rs →
      (∀ o, m.opt = some o ↔
        ∃ before r after, rs.filter Record.MayCount = before ++ r :: after ∧ r.Carries o ∧
          ∀ x ∈ before, ∀ o', ¬ x.Carries o') ∧
      (m.opt = none ↔ ∀ r ∈ rs.filter Record.MayCount, ∀ o, ¬ r.Carries o) ∧
      (m.opt = firstOpt? rs ↔
        (∃ r o, (rs.filter Record.MayCount).head? = some r ∧ r.Carries o) ∨
          ∀ r ∈ rs.filter Record.MayCount, ∀ o, ¬ r.Carries o) := by
  refine ⟨(decode_iff_grammar b).1.mp ⟨m, h⟩, fun qs rs grammar => ?_⟩
  have same : m = ofEntries b qs rs :=
    Except.ok.inj (h.symm.trans (decode_eq_ok_iff.mpr ⟨qs, rs, grammar, rfl⟩))
  rw [same]
  exact ⟨fun o => findSome?_opt?_eq_some_iff, findSome?_opt?_eq_none_iff,
    findSome?_opt?_eq_firstOpt?_iff⟩

/-! ## A broken record before a sound one -/

/-- A response with two OPT records, the first of which has an octet too few for an option. -/
def brokenFirst : Octets := #[0, 0, 128, 0, 0, 0, 0, 0, 0, 0, 0, 2,
  0, 0, 41, 2, 0, 0, 0, 0, 0, 0, 1, 0,
  0, 0, 41, 4, 208, 0, 0, 0, 0, 0, 0]

/-- Its first OPT record. -/
def brokenRecord : Record where
  owner := .root
  rtype := .opt
  rclass := ⟨512⟩
  ttl := 0
  data := #[0]
  part := .additional

/-- Its second OPT record. -/
def soundRecord : Record := { brokenRecord with rclass := ⟨1232⟩, data := #[] }

theorem grammar_brokenFirst : Grammar brokenFirst [] [brokenRecord, soundRecord] := by
  have broken : brokenRecord.At brokenFirst.view 12 24 := by
    refine ⟨13, 1, [0], .root rfl, ?_, ?_, rfl, rfl, rfl⟩
    · exact View.holds_iff.mpr (by decide)
    · exact View.holds_iff.mpr (by decide)
  have sound : soundRecord.At brokenFirst.view 24 35 := by
    refine ⟨25, 0, [], .root rfl, ?_, trivial, rfl, rfl, rfl⟩
    exact View.holds_iff.mpr (by decide)
  exact ⟨by decide, rfl, rfl, 12, 35, .nil, .cons broken (.cons sound .nil)⟩

theorem decode_brokenFirst :
    decode brokenFirst = .ok (ofEntries brokenFirst [] [brokenRecord, soundRecord]) :=
  decode_eq_ok_iff.mpr ⟨_, _, grammar_brokenFirst, rfl⟩

theorem not_carries_brokenRecord (o : Opt) : ¬ brokenRecord.Carries o := by
  intro h
  have short : EdnsOption.readAll [0] = .error .shortInput := by
    rw [EdnsOption.readAll, EdnsOption.readOnto] <;> simp
  have read := EdnsOption.readAll_eq_ok_iff.mpr ⟨h.data, h.fits⟩
  rw [show brokenRecord.data.toList = [0] from rfl, short] at read
  cases read

theorem carries_soundRecord : soundRecord.Carries ⟨1232, 0, 0, 0, []⟩ where
  payloadSize := rfl
  ttl := by decide
  data := rfl
  fits _ h := nomatch h

theorem decode_opt_brokenFirst :
    decode brokenFirst = .ok (ofEntries brokenFirst [] [brokenRecord, soundRecord]) ∧
      (ofEntries brokenFirst [] [brokenRecord, soundRecord]).opt =
        some ⟨1232, 0, 0, 0, []⟩ := by
  refine ⟨decode_brokenFirst, ?_⟩
  rcases (decode_opt decode_brokenFirst).2 _ _ grammar_brokenFirst with ⟨counts, -, -⟩
  refine (counts _).mpr ⟨[brokenRecord], soundRecord, [], by decide, carries_soundRecord, ?_⟩
  intro x hx
  rw [List.mem_singleton.mp hx]
  exact not_carries_brokenRecord

/-- The first OPT record that may count does not decide: this message has one that says nothing,
and takes the next. -/
theorem not_forall_first_decides :
    ¬ ∀ (b : Octets) (m : Message) (qs : List Question) (rs : List Record),
      decode b = .ok m → Grammar b qs rs → m.opt = firstOpt? rs := by
  intro h
  have first := h _ _ _ _ decode_brokenFirst grammar_brokenFirst
  have passed : brokenRecord.opt? = none :=
    (Record.opt?_eq_none_iff (by decide)).mpr not_carries_brokenRecord
  have counted : soundRecord.opt? = some ⟨1232, 0, 0, 0, []⟩ :=
    Record.opt?_eq_some_iff.mpr ⟨by decide, carries_soundRecord⟩
  rw [ofEntries, List.findSome?_cons, passed, List.findSome?_cons, counted, firstOpt?] at first
  have none_first : (([brokenRecord, soundRecord].filter Record.MayCount).head?).bind
      Record.opt? = none := passed
  rw [none_first] at first
  cases first

end Message

end Querier
