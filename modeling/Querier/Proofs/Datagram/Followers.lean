import Querier.Proofs.Datagram.Guards

/-!
# What followers hear

A follower hears what its leader says, whenever it begins to listen: the leader has
let go of its entry before it speaks, so whoever follows it was there in time, and
it speaks only once, so nothing is lost in a channel that keeps one value.

What a follower has to hear is said without the table: the `Fate` of a leader is what
the steps that name it make of it.

## Main results

* `Mirrors.step`, `Mirrors.run`: the channel of a leader shows its fate.
* `awaitLeader_eq_fate`: a follower has a leader with an equal key and without a
  result, and receives what becomes of that leader, or runs out of time.
-/

namespace Querier.Flights

variable {f : Flights} {id : LeaderId}

/-! ## Fates -/

/-- What becomes of a leader. -/
inductive Fate where
  /-- It has no result yet. -/
  | pending
  /-- It has a result that it has not told. -/
  | decided (r : Reply)
  | told (r : Reply)
  /-- It went away without a result. -/
  | gone

/-- What a step makes of a leader: the first result counts, and so does going away before
there is one. -/
def Fate.after (id : LeaderId) : Fate → Op → Fate
  | .pending, .retire other r => if other = id then .decided r else .pending
  | .pending, .abandon other => if other = id then .gone else .pending
  | .decided r, .announce other => if other = id then .told r else .decided r
  | fate, _ => fate

theorem Fate.after_of_ne {op : Op} (h : op.leader? ≠ some id) (fate : Fate) :
    fate.after id op = fate := by
  cases op <;> cases fate <;> simp_all [after, Op.leader?]

/-- What steps make of a leader that has no result. -/
def fate (id : LeaderId) (ops : List Op) : Fate := ops.foldl (Fate.after id) .pending

/-- What a follower receives whose time is up. -/
def Fate.received : Fate → Reply
  | .told r => r
  | .gone => .error .chainAbandoned
  | .pending | .decided _ => .error .timeout

/-- What a follower receives who begins to listen now, goes on while the steps are taken,
and whose time is up after the last of them. -/
def awaitLeader (f : Flights) (w : Follower) : List Op → Reply
  | [] => (f.follow w).getD (.error .timeout)
  | op :: ops =>
    match f.follow w with
    | some r => r
    | none => (f.step op).awaitLeader w ops

/-! ## Channels show fates -/

/-- The table shows what became of a leader. -/
def Mirrors (f : Flights) (id : LeaderId) : Fate → Prop
  | .pending => f.Leads id ∧ f.channel id = {}
  | .decided r => (∃ key, f.leaders.find? id = some ⟨key, .leaving r⟩) ∧ f.channel id = {}
  | .told r => f.leaders.find? id = none ∧ f.channel id = ⟨[r], false⟩
  | .gone => f.leaders.find? id = none ∧ f.channel id = ⟨[], false⟩

theorem Mirrors.congr {f' : Flights} {fate : Fate} (h : f.Mirrors id fate)
    (leaders : f'.leaders.find? id = f.leaders.find? id)
    (channel : f'.channel id = f.channel id) : f'.Mirrors id fate := by
  cases fate <;> simpa only [Mirrors, Leads, leaders, channel] using h

theorem mirrors_of_spares {f' : Flights} {other : LeaderId} {fate : Fate}
    (h : f.Mirrors id fate) (spares : f.Spares f' other) (ne : other ≠ id) :
    f'.Mirrors id fate :=
  h.congr (spares.leaders id ne.symm) (spares.channel id ne.symm)

/-- A leader that is not there, or has a result already, does not come by one. -/
theorem not_leads_of_mirrors {fate : Fate} (h : f.Mirrors id fate) (settled : fate ≠ .pending) :
    ¬ f.Leads id := by
  rintro ⟨l, found, live⟩
  cases fate with
  | pending => exact settled rfl
  | decided r =>
      obtain ⟨⟨key, hdecided⟩, -⟩ := h
      cases hdecided.symm.trans found
      cases live
  | told r => cases h.1.symm.trans found
  | gone => cases h.1.symm.trans found

namespace Mirrors

variable {fate : Fate}

theorem send (h : f.Mirrors id fate) (lt : id < f.next) (key : MatchKey) :
    (f.send key).1.Mirrors id fate := by
  cases found : f.inflight.find? key with
  | some leader =>
      rw [send_of_find? found]
      exact h
  | none =>
      rw [send_of_find?_eq_none found]
      refine h.congr ?_ ?_
      · rw [find?_put_leader, if_neg (Nat.ne_of_lt lt)]
      · rw [channel, channel_put, if_neg (Nat.ne_of_lt lt)]

theorem opened (h : f.Mirrors id fate) : (f.opened id).Mirrors id fate := by
  obtain same | ⟨key, found, same⟩ := f.opened_cases id
  · rw [same]
    exact h
  · cases fate with
    | pending =>
        rw [same]
        refine ⟨⟨⟨key, .waiting⟩, ?_, rfl⟩, h.2⟩
        rw [find?_put_leader, if_pos rfl]
    | _ => exact absurd ⟨_, found, rfl⟩ (not_leads_of_mirrors h nofun)

theorem retire (h : f.Mirrors id fate) (r : Reply) :
    (f.retire id r).Mirrors id (fate.after id (.retire id r)) := by
  cases fate with
  | pending =>
      obtain ⟨⟨l, found, live⟩, hchannel⟩ := h
      rw [retire_of_live found live, Fate.after, if_pos rfl]
      refine ⟨⟨l.key, ?_⟩, hchannel⟩
      rw [find?_put_leader, if_pos rfl]
  | _ =>
      rw [retire_of_not_leads (not_leads_of_mirrors h nofun)]
      exact h

theorem announce (h : f.Mirrors id fate) :
    (f.announce id).Mirrors id (fate.after id (.announce id)) := by
  cases fate with
  | decided r =>
      obtain ⟨⟨key, found⟩, hchannel⟩ := h
      rw [announce_of_find? found, Fate.after, if_pos rfl]
      refine ⟨?_, ?_⟩
      · rw [find?_erase_leader, if_pos rfl]
      · rw [channel, channel_put, if_pos rfl, hchannel]
        rfl
  | pending =>
      obtain same | ⟨key, r, found, -⟩ := f.announce_cases id
      · rw [same]
        exact h
      · obtain ⟨⟨l, hl, live⟩, -⟩ := h
        cases found.symm.trans hl
        cases live
  | told _ | gone =>
      obtain same | ⟨key, r, found, -⟩ := f.announce_cases id
      · rw [same]
        exact h
      · cases h.1.symm.trans found

theorem abandon (h : f.Mirrors id fate) :
    (f.abandon id).Mirrors id (fate.after id (.abandon id)) := by
  cases fate with
  | pending =>
      obtain ⟨⟨l, found, live⟩, hchannel⟩ := h
      rw [abandon_of_live found live, Fate.after, if_pos rfl]
      refine ⟨?_, ?_⟩
      · rw [find?_erase_leader, if_pos rfl]
      · rw [channel, channel_put, if_pos rfl, hchannel]
        rfl
  | _ =>
      have notLeads := not_leads_of_mirrors h (by rintro ⟨⟩)
      rw [abandon_of_not_leads notLeads]
      exact h

/-- Every step leaves the table showing what it makes of the leader. -/
theorem step (h : f.Mirrors id fate) (lt : id < f.next) (op : Op) :
    (f.step op).Mirrors id (fate.after id op) := by
  by_cases subject : op.leader? = some id
  · cases op with
    | send key => cases subject
    | opened other =>
        cases subject
        cases fate <;> exact h.opened
    | retire other r =>
        cases subject
        exact h.retire r
    | announce other =>
        cases subject
        exact h.announce
    | abandon other =>
        cases subject
        exact h.abandon
  · rw [Fate.after_of_ne subject]
    cases hop : op.leader? with
    | none =>
        cases op with
        | send key => exact h.send lt key
        | _ => cases hop
    | some other =>
        refine mirrors_of_spares h (f.spares_step hop) ?_
        rintro rfl
        exact subject hop

end Mirrors

theorem next_le_step (f : Flights) (op : Op) : f.next ≤ (f.step op).next := by
  cases hop : op.leader? with
  | some id => exact Nat.le_of_eq (f.spares_step hop).next_eq.symm
  | none =>
      cases op with
      | send key =>
          cases found : f.inflight.find? key with
          | some id =>
              have same : f.step (.send key) = f := by rw [step, send_of_find? found]
              exact Nat.le_of_eq (congrArg next same).symm
          | none =>
              rw [step, send_of_find?_eq_none found]
              exact Nat.le_succ _
      | _ => cases hop

theorem Mirrors.run {fate : Fate} (h : f.Mirrors id fate) (lt : id < f.next) (ops : List Op) :
    (f.run ops).Mirrors id (ops.foldl (Fate.after id) fate) ∧ id < (f.run ops).next := by
  induction ops generalizing f fate with
  | nil => exact ⟨h, lt⟩
  | cons op ops ih => exact ih (h.step lt op) (Nat.lt_of_lt_of_le lt (f.next_le_step op))

/-! ## Listening -/

theorem follow_getD {fate : Fate} (h : f.Mirrors id fate) :
    (f.follow ⟨id, 0⟩).getD (.error .timeout) = fate.received := by
  cases fate <;> (simp only [follow, h.2]; rfl)

/-- A fate that a follower hears of does not change any more. -/
theorem foldl_after_of_follow {fate : Fate} (h : f.Mirrors id fate) {r : Reply}
    (heard : f.follow ⟨id, 0⟩ = some r) (ops : List Op) :
    ops.foldl (Fate.after id) fate = fate := by
  have still : ∀ op, fate.after id op = fate := by
    intro op
    cases fate with
    | pending | decided _ =>
        simp only [follow, h.2] at heard
        cases heard
    | told _ | gone => rfl
  induction ops with
  | nil => rfl
  | cons op ops ih => rw [List.foldl_cons, still, ih]

/-- A follower receives the fate of its leader, as it is when time is up. -/
theorem awaitLeader_of_mirrors {fate : Fate} (h : f.Mirrors id fate) (lt : id < f.next)
    (ops : List Op) :
    f.awaitLeader ⟨id, 0⟩ ops = (ops.foldl (Fate.after id) fate).received := by
  induction ops generalizing f fate with
  | nil => exact follow_getD h
  | cons op ops ih =>
      rw [awaitLeader]
      cases heard : f.follow ⟨id, 0⟩ with
      | some r =>
          rw [foldl_after_of_follow h heard, ← follow_getD h, heard]
          rfl
      | none => exact ih (h.step lt op) (Nat.lt_of_lt_of_le lt (f.next_le_step op))

/-- **Followers receive what becomes of their leader.** Whoever follows, follows a leader with
an equal key that has no result yet. Whatever any number of callers do until the follower
begins to listen and while it listens: it receives the result that its leader tells, if it
tells one before time is up; it hears that it was abandoned if its leader goes away without
one; and else it runs out of time. -/
theorem awaitLeader_eq_fate (before between during : List Op) (key : MatchKey) (w : Follower)
    (follows : ((run {} before).send key).2 = .follower w) :
    (run {} before).Guards w.leader key ∧
      (run {} (before ++ .send key :: between)).awaitLeader w during =
        (fate w.leader (between ++ during)).received := by
  have sound : (run {} before).Sound := Sound.empty.run before
  cases found : (run {} before).inflight.find? key with
  | none =>
      rw [send_of_find?_eq_none found] at follows
      cases follows
  | some id =>
      have guards := (sound.entry key id).mp found
      obtain ⟨l, hl, live⟩ := guards.leads
      have silent := sound.silent id l hl
      rw [send_of_find? found, silent] at follows
      obtain rfl : ⟨id, 0⟩ = w := Ticket.follower.inj follows
      refine ⟨guards, ?_⟩
      have start : (run {} before).Mirrors id .pending := ⟨⟨l, hl, live⟩, silent⟩
      have sent : (run {} before).step (.send key) = run {} before := by
        rw [step, send_of_find? found]
      have hrun : run {} (before ++ .send key :: between) = (run {} before).run between := by
        rw [run, List.foldl_append, List.foldl_cons]
        exact congrArg (fun f => run f between) sent
      obtain ⟨now, lt⟩ := start.run (sound.lt_next id l hl) between
      rw [hrun, awaitLeader_of_mirrors now lt, fate, List.foldl_append]

/-- A query for the mail exchanges of a name of one label. -/
def mailKey (label : Label) (fits : label.wireLength + 1 ≤ 255) : MatchKey :=
  ⟨.of (.unspecified .v4) 53, ⟨[label], fits⟩, .mx, none⟩

def orgKey : MatchKey := mailKey ⟨[111, 114, 103], by decide, by decide⟩ (by decide)

/-- The same in upper case. -/
def upperOrgKey : MatchKey := mailKey ⟨[79, 82, 71], by decide, by decide⟩ (by decide)

/-- The leader has its response before the follower listens, and another one with an equal
key is on its way by then. -/
theorem awaitLeader_eq_fate_lateListener :
    ((run {} [.send orgKey, .opened 0]).send upperOrgKey).2 = .follower ⟨0, 0⟩ ∧
      (run {} [.send orgKey, .opened 0]).Guards 0 upperOrgKey ∧
      (run {} [.send orgKey, .opened 0, .send upperOrgKey, .retire 0 (.ok #[7]), .announce 0,
        .send orgKey]).awaitLeader ⟨0, 0⟩ [.retire 1 (.ok #[8]), .announce 1] = .ok #[7] := by
  have follows : ((run {} [.send orgKey, .opened 0]).send upperOrgKey).2 = .follower ⟨0, 0⟩ := by
    decide
  exact ⟨follows, awaitLeader_eq_fate [.send orgKey, .opened 0]
    [.retire 0 (.ok #[7]), .announce 0, .send orgKey] [.retire 1 (.ok #[8]), .announce 1]
    upperOrgKey ⟨0, 0⟩ follows⟩

end Querier.Flights
