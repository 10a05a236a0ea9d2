import Querier.Datagram.Pending

/-!
# Who holds an entry

A leader guards the entry of its key from before its socket is opened until it
has a result or goes away. The entry is taken out by the key alone, so it must be
sure that what is taken out is one's own: a leader that is late would take out
the entry of its successor, and a leader that forgets leaves an entry behind that
later queries follow for ever.

The invariant is `Sound`: the table of entries is exactly the table of guards.

## Main results

* `Sound.step`, `Sound.run`: every atomic step keeps this.
* `inflight_exactly_guarded`: in every state that can be reached a key has an entry
  if and only if exactly one leader guards it.
-/

namespace Querier

/-- Whether a leader has no result yet. -/
def Phase.isLive : Phase → Bool
  | .opening | .waiting => true
  | .leaving _ => false

namespace Flights

variable {f : Flights} {id other : LeaderId} {l : Leader}

/-! ## Guards -/

/-- A leader without a result guards the entry of its key, in whatever case the key is
spelled. -/
def Guards (f : Flights) (id : LeaderId) (key : MatchKey) : Prop :=
  ∃ l, f.leaders.find? id = some l ∧ l.phase.isLive = true ∧ (key == l.key) = true

/-- A leader is there and has no result. -/
def Leads (f : Flights) (id : LeaderId) : Prop :=
  ∃ l, f.leaders.find? id = some l ∧ l.phase.isLive = true

theorem Guards.leads {key : MatchKey} (h : f.Guards id key) : f.Leads id := by
  obtain ⟨l, found, live, -⟩ := h
  exact ⟨l, found, live⟩

theorem guards_iff_of_find? (h : f.leaders.find? id = some l) (key : MatchKey) :
    f.Guards id key ↔ l.phase.isLive = true ∧ (key == l.key) = true := by
  constructor
  · rintro ⟨l', found, live, same⟩
    obtain rfl : l = l' := Option.some.inj (h.symm.trans found)
    exact ⟨live, same⟩
  · rintro ⟨live, same⟩
    exact ⟨l, h, live, same⟩

theorem guards_congr {f' : Flights} (h : f'.leaders.find? id = f.leaders.find? id)
    (key : MatchKey) : f'.Guards id key ↔ f.Guards id key := by
  simp only [Guards, h]

/-! ## What each step does -/

theorem send_of_find? {key : MatchKey} (found : f.inflight.find? key = some id) :
    f.send key = (f, .follower ⟨id, (f.channel id).said.length⟩) := by
  simp only [send, found]

theorem send_of_find?_eq_none {key : MatchKey} (missing : f.inflight.find? key = none) :
    f.send key = ({ inflight := f.inflight.put key f.next
                    leaders := f.leaders.put f.next ⟨key, .opening⟩
                    channels := f.channels.put f.next {}
                    next := f.next + 1 }, .leader f.next) := by
  simp only [send, missing]

theorem opened_cases (f : Flights) (id : LeaderId) :
    f.opened id = f ∨ ∃ key, f.leaders.find? id = some ⟨key, .opening⟩ ∧
      f.opened id = { f with leaders := f.leaders.put id ⟨key, .waiting⟩ } := by
  unfold opened
  split
  · rename_i key found
    exact .inr ⟨key, found, rfl⟩
  · exact .inl rfl

theorem retire_of_live (found : f.leaders.find? id = some l) (live : l.phase.isLive = true)
    (r : Reply) : f.retire id r =
      { f with
        inflight := f.inflight.erase l.key
        leaders := f.leaders.put id ⟨l.key, .leaving r⟩ } := by
  obtain ⟨key, phase⟩ := l
  cases phase with
  | opening => simp only [retire, found]
  | waiting => simp only [retire, found]
  | leaving _ => cases live

theorem retire_of_not_leads (h : ¬ f.Leads id) (r : Reply) : f.retire id r = f := by
  cases found : f.leaders.find? id with
  | none => simp only [retire, found]
  | some l =>
      obtain ⟨key, phase⟩ := l
      cases phase with
      | opening => exact absurd ⟨_, found, rfl⟩ h
      | waiting => exact absurd ⟨_, found, rfl⟩ h
      | leaving _ => simp only [retire, found]

theorem abandon_of_live (found : f.leaders.find? id = some l) (live : l.phase.isLive = true) :
    f.abandon id =
      { f with
        inflight := f.inflight.erase l.key
        leaders := f.leaders.erase id
        channels := f.channels.put id (f.channel id).close } := by
  obtain ⟨key, phase⟩ := l
  cases phase with
  | opening => simp only [abandon, found]
  | waiting => simp only [abandon, found]
  | leaving _ => cases live

theorem abandon_of_not_leads (h : ¬ f.Leads id) : f.abandon id = f := by
  cases found : f.leaders.find? id with
  | none => simp only [abandon, found]
  | some l =>
      obtain ⟨key, phase⟩ := l
      cases phase with
      | opening => exact absurd ⟨_, found, rfl⟩ h
      | waiting => exact absurd ⟨_, found, rfl⟩ h
      | leaving _ => simp only [abandon, found]

theorem announce_cases (f : Flights) (id : LeaderId) :
    f.announce id = f ∨ ∃ key r, f.leaders.find? id = some ⟨key, .leaving r⟩ ∧
      f.announce id = { f with
        leaders := f.leaders.erase id
        channels := f.channels.put id ((f.channel id).say r).close } := by
  unfold announce
  split
  · rename_i key r found
    exact .inr ⟨key, r, found, rfl⟩
  · exact .inl rfl

theorem announce_of_find? {key : MatchKey} {r : Reply}
    (found : f.leaders.find? id = some ⟨key, .leaving r⟩) : f.announce id =
      { f with
        leaders := f.leaders.erase id
        channels := f.channels.put id ((f.channel id).say r).close } := by
  simp only [announce, found]

/-! ## Steps concern one leader -/

theorem find?_put_leader (t : Table LeaderId Leader) (id other : LeaderId) (l : Leader) :
    (t.put id l).find? other = if other = id then some l else t.find? other := by
  simp only [Table.find?_put_eq, beq_iff_eq]

theorem find?_erase_leader (t : Table LeaderId Leader) (id other : LeaderId) :
    (t.erase id).find? other = if other = id then none else t.find? other := by
  simp only [Table.find?_erase_eq, beq_iff_eq]

theorem channel_put (f : Flights) (id other : LeaderId) (c : Channel) :
    ((f.channels.put id c).find? other).getD {} = if other = id then c else f.channel other := by
  simp only [Table.find?_put_eq, beq_iff_eq, channel]
  split <;> rfl

/-- Nothing but the one leader, its channel and entries has changed. -/
structure Spares (f f' : Flights) (id : LeaderId) : Prop where
  next_eq : f'.next = f.next
  leaders : ∀ other, other ≠ id → f'.leaders.find? other = f.leaders.find? other
  channel : ∀ other, other ≠ id → f'.channel other = f.channel other

theorem Spares.refl (f : Flights) (id : LeaderId) : f.Spares f id :=
  ⟨rfl, fun _ _ => rfl, fun _ _ => rfl⟩

theorem spares_opened (f : Flights) (id : LeaderId) : f.Spares (f.opened id) id := by
  obtain same | ⟨key, -, same⟩ := f.opened_cases id
  · rw [same]
    exact .refl f id
  · rw [same]
    exact ⟨rfl, fun other ne => by rw [find?_put_leader, if_neg ne], fun _ _ => rfl⟩

theorem spares_retire (f : Flights) (id : LeaderId) (r : Reply) :
    f.Spares (f.retire id r) id := by
  by_cases leads : f.Leads id
  · obtain ⟨l, found, live⟩ := leads
    rw [retire_of_live found live]
    exact ⟨rfl, fun other ne => by rw [find?_put_leader, if_neg ne], fun _ _ => rfl⟩
  · rw [retire_of_not_leads leads]
    exact .refl f id

theorem spares_announce (f : Flights) (id : LeaderId) : f.Spares (f.announce id) id := by
  obtain same | ⟨key, r, -, same⟩ := f.announce_cases id
  · rw [same]
    exact .refl f id
  · rw [same]
    exact ⟨rfl, fun other ne => by rw [find?_erase_leader, if_neg ne],
      fun other ne => by rw [channel, channel_put, if_neg ne]⟩

theorem spares_abandon (f : Flights) (id : LeaderId) : f.Spares (f.abandon id) id := by
  by_cases leads : f.Leads id
  · obtain ⟨l, found, live⟩ := leads
    rw [abandon_of_live found live]
    exact ⟨rfl, fun other ne => by rw [find?_erase_leader, if_neg ne],
      fun other ne => by rw [channel, channel_put, if_neg ne]⟩
  · rw [abandon_of_not_leads leads]
    exact .refl f id

/-- The leader that a step is about. -/
def Op.leader? : Op → Option LeaderId
  | .send _ => none
  | .opened id | .retire id _ | .announce id | .abandon id => some id

theorem spares_step (f : Flights) {op : Op} (h : op.leader? = some id) :
    f.Spares (f.step op) id := by
  cases op with
  | send key => cases h
  | opened id => exact Option.some.inj h ▸ f.spares_opened id
  | retire id r => exact Option.some.inj h ▸ f.spares_retire id r
  | announce id => exact Option.some.inj h ▸ f.spares_announce id
  | abandon id => exact Option.some.inj h ▸ f.spares_abandon id

/-! ## The invariant -/

/-- The entries are those of the guards, and nobody has spoken on the channel of a leader
that is there. -/
structure Sound (f : Flights) : Prop where
  entry : ∀ key id, f.inflight.find? key = some id ↔ f.Guards id key
  lt_next : ∀ id l, f.leaders.find? id = some l → id < f.next
  silent : ∀ id l, f.leaders.find? id = some l → f.channel id = {}

namespace Sound

variable {f' : Flights}

theorem empty : Sound {} where
  entry _ _ := ⟨nofun, fun ⟨_, found, _⟩ => nomatch found⟩
  lt_next _ _ found := nomatch found
  silent _ _ found := nomatch found

/-- Two guards of one key are one. -/
theorem unique (h : f.Sound) {key : MatchKey} (hid : f.Guards id key)
    (hother : f.Guards other key) : id = other := by
  have found := (h.entry key id).mpr hid
  exact Option.some.inj (found.symm.trans ((h.entry key other).mpr hother))

/-- A step that concerns one leader keeps the rest of the invariant, if it makes no new
leader and leaves the channel of one that stays alone. -/
theorem of_spares (h : f.Sound) (spares : f.Spares f' id)
    (own : ∀ l', f'.leaders.find? id = some l' →
      (∃ l, f.leaders.find? id = some l) ∧ f'.channel id = f.channel id)
    (entry : ∀ key other, f'.inflight.find? key = some other ↔ f'.Guards other key) :
    f'.Sound := by
  refine ⟨entry, fun other l' found => ?_, fun other l' found => ?_⟩
  · rw [spares.next_eq]
    by_cases same : other = id
    · subst same
      obtain ⟨⟨l, hl⟩, -⟩ := own l' found
      exact h.lt_next other l hl
    · rw [spares.leaders other same] at found
      exact h.lt_next other l' found
  · by_cases same : other = id
    · subst same
      obtain ⟨⟨l, hl⟩, hchannel⟩ := own l' found
      rw [hchannel]
      exact h.silent other l hl
    · rw [spares.leaders other same] at found
      rw [spares.channel other same]
      exact h.silent other l' found

/-- If the leader goes on guarding what it guarded, the entries may stay as they are. -/
theorem entry_of_spares (h : f.Sound) (spares : f.Spares f' id)
    (entries : f'.inflight = f.inflight) (own : ∀ key, f'.Guards id key ↔ f.Guards id key)
    (key : MatchKey) (other : LeaderId) :
    f'.inflight.find? key = some other ↔ f'.Guards other key := by
  rw [entries, h.entry]
  by_cases same : other = id
  · rw [same, own]
  · exact (guards_congr (spares.leaders other same) key).symm

/-- A leader that lets go takes its own entry with it and no other: the entry under its key
is its own. -/
theorem entry_of_erase (h : f.Sound) (found : f.leaders.find? id = some l)
    (live : l.phase.isLive = true) (spares : f.Spares f' id)
    (entries : f'.inflight = f.inflight.erase l.key) (own : ¬ f'.Leads id)
    (key : MatchKey) (other : LeaderId) :
    f'.inflight.find? key = some other ↔ f'.Guards other key := by
  rw [entries, Table.find?_erase_eq]
  by_cases same : other = id
  · subst same
    refine ⟨fun hfound => ?_, fun guards => absurd guards.leads own⟩
    split at hfound
    · cases hfound
    · rename_i elsewhere
      have guards := (h.entry key other).mp hfound
      exact absurd ((guards_iff_of_find? found key).mp guards).2 elsewhere
  · rw [guards_congr (spares.leaders other same)]
    split
    · rename_i here
      refine ⟨nofun, fun guards => ?_⟩
      exact absurd (h.unique guards ⟨l, found, live, here⟩) same
    · exact h.entry key other

/-! ### One case per step -/

theorem send (h : f.Sound) (key : MatchKey) : (f.send key).1.Sound := by
  cases found : f.inflight.find? key with
  | some id =>
      rw [send_of_find? found]
      exact h
  | none =>
      have fresh : ∀ l, f.leaders.find? f.next ≠ some l :=
        fun l hl => Nat.lt_irrefl _ (h.lt_next _ l hl)
      rw [send_of_find?_eq_none found]
      refine ⟨fun key' id => ?_, fun id l hl => ?_, fun id l hl => ?_⟩
      · rw [Table.find?_put_eq]
        by_cases new : id = f.next
        · have now : (f.leaders.put f.next ⟨key, .opening⟩).find? id = some ⟨key, .opening⟩ := by
            rw [find?_put_leader, if_pos new]
          rw [guards_iff_of_find? now, new]
          split
          · rename_i asked
            exact ⟨fun _ => ⟨rfl, asked⟩, fun _ => rfl⟩
          · rename_i elsewhere
            refine ⟨fun hfound => ?_, fun ⟨_, asked⟩ => absurd asked elsewhere⟩
            obtain ⟨l, hl, -⟩ := (h.entry key' f.next).mp hfound
            exact absurd hl (fresh l)
        · have old : (f.leaders.put f.next ⟨key, .opening⟩).find? id = f.leaders.find? id := by
            rw [find?_put_leader, if_neg new]
          rw [guards_congr old, ← h.entry]
          split
          · rename_i asked
            rw [Table.find?_congr _ asked, found]
            exact ⟨fun hnext => absurd (Option.some.inj hnext).symm new, nofun⟩
          · rfl
      · simp only [find?_put_leader] at hl
        split at hl
        · rename_i new
          rw [new]
          exact Nat.lt_succ_self _
        · exact Nat.lt_succ_of_lt (h.lt_next id l hl)
      · simp only [find?_put_leader] at hl
        rw [channel, channel_put]
        split
        · rfl
        · rename_i old
          rw [if_neg old] at hl
          exact h.silent id l hl

theorem opened (h : f.Sound) (id : LeaderId) : (f.opened id).Sound := by
  have spares := f.spares_opened id
  obtain same | ⟨key, found, same⟩ := f.opened_cases id
  · rw [same]
    exact h
  · rw [same] at spares ⊢
    have now : (f.leaders.put id ⟨key, .waiting⟩).find? id = some ⟨key, .waiting⟩ := by
      rw [find?_put_leader, if_pos rfl]
    refine h.of_spares spares (fun _ _ => ⟨⟨_, found⟩, rfl⟩)
      (h.entry_of_spares spares rfl fun key' => ?_)
    rw [guards_iff_of_find? now, guards_iff_of_find? found]
    rfl

theorem retire (h : f.Sound) (id : LeaderId) (r : Reply) : (f.retire id r).Sound := by
  have spares := f.spares_retire id r
  by_cases leads : f.Leads id
  · obtain ⟨l, found, live⟩ := leads
    rw [retire_of_live found live] at spares ⊢
    refine h.of_spares spares (fun _ _ => ⟨⟨_, found⟩, rfl⟩)
      (h.entry_of_erase found live spares rfl ?_)
    rintro ⟨l', found', live'⟩
    rw [find?_put_leader, if_pos rfl] at found'
    cases found'
    cases live'
  · rw [retire_of_not_leads leads]
    exact h

theorem announce (h : f.Sound) (id : LeaderId) : (f.announce id).Sound := by
  have spares := f.spares_announce id
  obtain same | ⟨key, r, found, same⟩ := f.announce_cases id
  · rw [same]
    exact h
  · rw [same] at spares ⊢
    have now : (f.leaders.erase id).find? id = none := by
      rw [find?_erase_leader, if_pos rfl]
    refine h.of_spares spares (fun _ found' => nomatch now.symm.trans found')
      (h.entry_of_spares spares rfl fun key' => ?_)
    rw [guards_iff_of_find? found]
    exact ⟨fun ⟨_, found', _⟩ => (nomatch now.symm.trans found'), fun ⟨live, _⟩ => nomatch live⟩

theorem abandon (h : f.Sound) (id : LeaderId) : (f.abandon id).Sound := by
  have spares := f.spares_abandon id
  by_cases leads : f.Leads id
  · obtain ⟨l, found, live⟩ := leads
    rw [abandon_of_live found live] at spares ⊢
    have now : (f.leaders.erase id).find? id = none := by
      rw [find?_erase_leader, if_pos rfl]
    exact h.of_spares spares (fun _ found' => nomatch now.symm.trans found')
      (h.entry_of_erase found live spares rfl fun ⟨_, found', _⟩ =>
        nomatch now.symm.trans found')
  · rw [abandon_of_not_leads leads]
    exact h

theorem step (h : f.Sound) (op : Op) : (f.step op).Sound := by
  cases op with
  | send key => exact h.send key
  | opened id => exact h.opened id
  | retire id r => exact h.retire id r
  | announce id => exact h.announce id
  | abandon id => exact h.abandon id

theorem run (h : f.Sound) (ops : List Op) : (f.run ops).Sound := by
  induction ops generalizing f with
  | nil => exact h
  | cons op ops ih => exact ih (h.step op)

theorem inflight_eq_nil (h : f.Sound) (idle : ∀ id, ¬ f.Leads id) : f.inflight = [] := by
  cases hentries : f.inflight with
  | nil => rfl
  | cons entry rest =>
      obtain ⟨key, id⟩ := entry
      have found : f.inflight.find? key = some id := by
        rw [hentries, Table.find?, if_pos BEq.rfl]
      exact absurd ((h.entry key id).mp found).leads (idle id)

/-- The entry of a leader stays whatever becomes of the others. -/
theorem find?_of_spares (h : f.Sound) (h' : f'.Sound) (spares : f.Spares f' id)
    (ne : other ≠ id) {key : MatchKey} (guards : f.Guards other key) :
    f'.inflight.find? key = f.inflight.find? key := by
  rw [(h.entry key other).mpr guards, h'.entry, guards_congr (spares.leaders other ne)]
  exact guards

end Sound

/-- **Exactly the live leaders have entries.** After any steps of any number of callers a key
has an entry if and only if there is exactly one leader that opens its socket or waits for
its response and has an equal key. Never are there two of them; a leader that ends, in
whatever way, leaves the entries of the others alone; and where there is no leader there is
no entry. -/
theorem inflight_exactly_guarded (ops : List Op) :
    let f := run {} ops
    (∀ key, (f.inflight.find? key).isSome ↔
        ∃ id, f.Guards id key ∧ ∀ other, f.Guards other key → other = id) ∧
      (∀ key id other, f.Guards id key → f.Guards other key → id = other) ∧
      (∀ key id other op, f.Guards other key → op.leader? = some id → other ≠ id →
        (f.step op).inflight.find? key = f.inflight.find? key) ∧
      ((∀ id, ¬ f.Leads id) → f.inflight = []) := by
  intro f
  have h : f.Sound := Sound.empty.run ops
  refine ⟨fun key => ?_, fun key id other => h.unique, ?_, h.inflight_eq_nil⟩
  · rw [Option.isSome_iff_exists]
    constructor
    · rintro ⟨id, found⟩
      have guards := (h.entry key id).mp found
      exact ⟨id, guards, fun other hother => h.unique hother guards⟩
    · rintro ⟨id, guards, -⟩
      exact ⟨id, (h.entry key id).mpr guards⟩
  · intro key id other op guards subject ne
    exact h.find?_of_spares (h.step op) (f.spares_step subject) ne guards

/-! ## What callers do -/

theorem exists_run_start (f : Flights) (h : Host) (c : Config) (x : Expectation)
    (message : Octets) : ∃ ops, (f.start h c x message).1 = f.run ops := by
  unfold start
  cases hsend : f.send x.key with
  | mk f' ticket =>
      have sent : f.run [.send x.key] = f' := by
        simp only [run, List.foldl_cons, List.foldl_nil, step, hsend]
      cases ticket with
      | follower w => exact ⟨[.send x.key], sent.symm⟩
      | leader id =>
          simp only
          cases h.openDatagram c x.key.server message with
          | ok _ => exact ⟨[.send x.key, .opened id], congrArg (·.opened id) sent.symm⟩
          | error e =>
              exact ⟨[.send x.key, .retire id (.error e), .announce id],
                congrArg (·.finish id (.error e)) sent.symm⟩

theorem exists_run_receive (f : Flights) (p : Pending) (timeout : Duration)
    (events : List Expectation.SocketEvent) :
    ∃ ops, (f.receive p timeout events).flights = f.run ops := by
  unfold receive
  cases p.ticket with
  | leader id =>
      exact ⟨[.retire id (p.expectation.await timeout events).1, .announce id], rfl⟩
  | follower w => exact ⟨[], rfl⟩

theorem exists_run_drop (f : Flights) (p : Pending) : ∃ ops, f.drop p = f.run ops := by
  unfold drop
  cases p.ticket with
  | leader id => exact ⟨[.abandon id], rfl⟩
  | follower w => exact ⟨[], rfl⟩

end Flights

end Querier
