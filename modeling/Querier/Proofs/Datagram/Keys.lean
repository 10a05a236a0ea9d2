import Mathlib.Tactic.Common
import Querier.Proofs.Datagram.Guards
import Querier.Proofs.Name.Case

/-!
# Entries are found in any spelling

The entries of the queries in flight are a table that is searched by comparing keys. Where they
are kept in a hash map instead, a key is looked for only among those that hash alike. That finds
the same entries, with any hasher, because keys that are equal feed the same to it, and they do
because names that are equal up to case do.

The steps of callers are taken on both sides here, and what is found in the hash map is what is
found in the table. With what is known of the table, an entry is found under every spelling of its
key and under no other key.

## Main results

* `Flights.Indexes.step`, `Flights.Indexes.run`: the hash map and the table find the same.
* `Flights.found_in_any_spelling`: from labels to entries, what equality up to case means.
-/

namespace Querier

/-! ## Hashing -/

/-- Keys hashed by what they feed to a hasher. -/
abbrev MatchKey.hashable (hasher : MatchKey.HashFeed → UInt64) : Hashable MatchKey :=
  ⟨fun key => hasher key.hashFeed⟩

theorem MatchKey.lawfulHashable (hasher : MatchKey.HashFeed → UInt64) :
    @LawfulHashable MatchKey _ (MatchKey.hashable hasher) :=
  @LawfulHashable.mk _ _ (MatchKey.hashable hasher) fun a b same =>
    congrArg hasher ((beq_iff_hashFeed a b).mp same)

namespace Flights

variable [Hashable MatchKey] {f : Flights} {entries : Std.HashMap MatchKey LeaderId}

/-- What a step does to the entries if they are kept in a hash map. -/
def stepEntries (f : Flights) (entries : Std.HashMap MatchKey LeaderId) :
    Op → Std.HashMap MatchKey LeaderId
  | .send key => if entries.contains key then entries else entries.insert key f.next
  | .retire id _ | .abandon id =>
    match f.leaders.find? id with
    | some l => if l.phase.isLive then entries.erase l.key else entries
    | none => entries
  | .opened _ | .announce _ => entries

/-- What steps make of the entries in a hash map. -/
def runEntries (f : Flights) (entries : Std.HashMap MatchKey LeaderId) :
    List Op → Std.HashMap MatchKey LeaderId
  | [] => entries
  | op :: ops => (f.step op).runEntries (f.stepEntries entries op) ops

/-- The same is found in the hash map as in the table. -/
def Indexes (entries : Std.HashMap MatchKey LeaderId) (f : Flights) : Prop :=
  ∀ key : MatchKey, entries[key]? = f.inflight.find? key

namespace Indexes

variable [LawfulHashable MatchKey]

theorem contains_eq (h : Indexes entries f) (key : MatchKey) :
    entries.contains key = (f.inflight.find? key).isSome := by
  rw [Std.HashMap.contains_eq_isSome_getElem?, h]

theorem send (h : Indexes entries f) (key : MatchKey) :
    Indexes (f.stepEntries entries (.send key)) (f.step (.send key)) := by
  intro asked
  rw [stepEntries, h.contains_eq]
  show _ = (f.send key).1.inflight.find? asked
  cases found : f.inflight.find? key with
  | some id =>
      rw [send_of_find? found]
      exact h asked
  | none =>
      rw [send_of_find?_eq_none found, Table.find?_put_eq, ← h asked, BEq.comm]
      exact Std.HashMap.getElem?_insert

theorem erase (h : Indexes entries f) (key asked : MatchKey) :
    (entries.erase key)[asked]? = (f.inflight.erase key).find? asked := by
  rw [Std.HashMap.getElem?_erase, Table.find?_erase_eq, h asked, BEq.comm]

/-- Whatever ends a leader takes the entry of its key out. -/
theorem leave (h : Indexes entries f) {id : LeaderId} {f' : Flights}
    (live : ∀ l, f.leaders.find? id = some l → l.phase.isLive = true →
      f'.inflight = f.inflight.erase l.key)
    (same : ¬ f.Leads id → f' = f) : Indexes (match f.leaders.find? id with
      | some l => if l.phase.isLive then entries.erase l.key else entries
      | none => entries) f' := by
  intro asked
  cases found : f.leaders.find? id with
  | none =>
      have gone : ¬ f.Leads id := fun ⟨_, hl, _⟩ => nomatch found.symm.trans hl
      rw [same gone]
      exact h asked
  | some l =>
      by_cases hlive : l.phase.isLive = true
      · simp only [if_pos hlive]
        rw [live l found hlive]
        exact h.erase l.key asked
      · have done : ¬ f.Leads id := fun ⟨_, hl, hlive'⟩ =>
          hlive (Option.some.inj (found.symm.trans hl) ▸ hlive')
        simp only [if_neg hlive]
        rw [same done]
        exact h asked

theorem step (h : Indexes entries f) (op : Op) :
    Indexes (f.stepEntries entries op) (f.step op) := by
  cases op with
  | send key => exact h.send key
  | opened id =>
      show Indexes entries (f.opened id)
      obtain same | ⟨key, -, same⟩ := f.opened_cases id <;> rw [same] <;> exact h
  | retire id r =>
      refine h.leave (fun l found live => ?_) fun gone => retire_of_not_leads gone r
      exact congrArg inflight (retire_of_live found live r)
  | announce id =>
      show Indexes entries (f.announce id)
      obtain same | ⟨key, r, -, same⟩ := f.announce_cases id <;> rw [same] <;> exact h
  | abandon id =>
      refine h.leave (fun l found live => ?_) fun gone => abandon_of_not_leads gone
      exact congrArg inflight (abandon_of_live found live)

theorem run (h : Indexes entries f) (ops : List Op) :
    Indexes (f.runEntries entries ops) (f.run ops) := by
  induction ops generalizing f entries with
  | nil => exact h
  | cons op ops ih => exact ih (h.step op)

end Indexes

theorem indexes_empty : Indexes (∅ : Std.HashMap MatchKey LeaderId) {} :=
  fun _ => Std.HashMap.getElem?_empty

end Flights

/-- **Entries are found in any spelling.** Names are equal exactly if they have equally many labels
and these are equal in pairs when case is ignored, and exactly if they are spelled alike in lower
case. This is an equivalence, and names that are equal feed the same octets to a hasher. So do
keys, which are equal if server, type and subnet are and the names are equal. If the entries of
queries in flight are kept in a hash map, then with any hasher and after any steps of any number
of callers the same is found there as by comparing keys one by one: an entry is found under all
keys that are equal to its own and under no others. -/
theorem Flights.found_in_any_spelling :
    (∀ a b : Name,
      (a.same b = true ↔ a.labels.length = b.labels.length ∧
        ∀ p ∈ a.labels.zip b.labels, p.1.same p.2 = true) ∧
      (a.same b = true ↔ a.lower.wire = b.lower.wire) ∧
      (a.same b = true → a.hashFeed = b.hashFeed)) ∧
    (Equivalence fun a b : Name => a.same b = true) ∧
    (∀ a b : MatchKey,
      ((a == b) = true ↔ a.server = b.server ∧ a.qname.same b.qname = true ∧
        a.qtype = b.qtype ∧ a.subnet = b.subnet) ∧
      ((a == b) = true → a.hashFeed = b.hashFeed)) ∧
    ∀ (hasher : MatchKey.HashFeed → UInt64) (ops : List Op),
      letI := MatchKey.hashable hasher
      let entries := runEntries {} ∅ ops
      (∀ key : MatchKey, entries[key]? = (run {} ops).inflight.find? key) ∧
      ∀ (key : MatchKey) (id : LeaderId), entries[key]? = some id →
        ∀ other : MatchKey, entries[other]? = some id ↔ (other == key) = true := by
  refine ⟨fun a b => ⟨?_, Name.same_iff_lower, eq_of_beq⟩, Name.same_equivalence,
    fun a b => ⟨MatchKey.beq_iff, (MatchKey.beq_iff_hashFeed a b).mp⟩, fun hasher ops => ?_⟩
  · rw [Name.same_iff_sameLabels, SameLabels, List.forall₂_iff_zip]
    exact and_congr_right fun _ => ⟨fun h p hp => h hp, fun h _ _ hp => h _ hp⟩
  · let _ := MatchKey.hashable hasher
    have := MatchKey.lawfulHashable hasher
    intro entries
    have indexes : Indexes entries (run {} ops) := Indexes.run indexes_empty ops
    have sound : (run {} ops).Sound := Sound.empty.run ops
    refine ⟨indexes, fun key id found other => ?_⟩
    rw [indexes] at found ⊢
    obtain ⟨l, hl, live, hkey⟩ := (sound.entry key id).mp found
    rw [sound.entry, guards_iff_of_find? hl]
    constructor
    · rintro ⟨-, hother⟩
      exact BEq.trans hother (BEq.symm hkey)
    · intro same
      exact ⟨live, BEq.trans same hkey⟩

end Querier
