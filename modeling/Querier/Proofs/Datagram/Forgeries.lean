import Querier.Proofs.Datagram.Acceptance
import Querier.Proofs.Datagram.Followers

/-!
# Forged datagrams

Someone who does not see a query can still send datagrams to its socket, as many as they
like, but has to guess the identifier and the question. A datagram that gets one of them
wrong is `Forged`, and like everything else that is not taken it goes by without a trace:
the wait has the same result at the same time as if it had not been sent. A wait is not
begun anew for a datagram, so its deadline does not move either.

Followers hear of none of this. What they hear is the result of the wait and when it
came, whatever else callers do in the meantime and in whatever order.

## Main results

* `Expectation.judge_of_forged`: no forgery is taken.
* `Expectation.ends_await`: how a wait ends.
* `Expectation.await_filter`: what is dropped might as well not have been there.
* `Flights.hears_eq`: what a follower hears of a wait.
* `Flights.forgeries_do_not_matter`: the whole of it, for two runs that differ in what is
  dropped.
-/

namespace Querier

namespace Expectation

variable {x : Expectation} {data : Octets}

/-! ## Forgeries -/

/-- A datagram gets something wrong that the response gets right. Of its questions the first
one counts. -/
inductive Forged (x : Expectation) (data : Octets) : Prop where
  | short (h : data.size < Header.length)
  | otherId (h : (Header.read data).id ≠ x.id)
  | query (h : (Header.read data).qr = false)
  | undecodable (announced : (Header.read data).questions ≠ 0)
      (h : ∀ (q : Question) stop, ¬ q.At data.view Header.length stop)
  | otherName {q : Question} {stop : Nat} (announced : (Header.read data).questions ≠ 0)
      (found : q.At data.view Header.length stop) (h : q.qname.same x.key.qname = false)
  | otherType {q : Question} {stop : Nat} (announced : (Header.read data).questions ≠ 0)
      (found : q.At data.view Header.length stop) (h : q.qtype ≠ x.key.qtype)

/-- A response that announces a question repeats the one that was asked. -/
theorem Accepts.asks_of_at (h : x.Accepts data) (announced : (Header.read data).questions ≠ 0)
    {q : Question} {stop : Nat} (found : q.At data.view Header.length stop) :
    q.qname.same x.key.qname = true ∧ q.qtype = x.key.qtype := by
  rcases h.exists_peek announced with ⟨header, q', hpeek, hasks⟩
  have hfound : Message.peek data = .ok (Header.read data, some q) :=
    Message.peek_eq_ok_iff.mpr ⟨h.size, rfl, .inr ⟨announced, q, stop, found, rfl⟩⟩
  cases hpeek.symm.trans hfound
  rw [asks, Bool.and_eq_true, beq_iff_eq] at hasks
  exact hasks

/-- No forgery is taken, with hardening or without. -/
theorem judge_of_forged (h : x.Forged data) : x.judge data ≠ none := by
  intro taken
  have haccepts := judge_eq_none_iff.mp taken
  cases h with
  | short hshort => exact absurd haccepts.size (Nat.not_le_of_lt hshort)
  | otherId hid => exact hid haccepts.id
  | query hqr => exact absurd (haccepts.qr.symm.trans hqr) (by decide)
  | undecodable announced hnone =>
      rcases haccepts.exists_peek announced with ⟨header, q, hpeek, -⟩
      rcases Message.peek_eq_ok_iff.mp hpeek with ⟨-, -, ⟨-, hq⟩ | ⟨-, q', stop, found, -⟩⟩
      · cases hq
      · exact hnone q' stop found
  | otherName announced found hname =>
      exact absurd ((haccepts.asks_of_at announced found).1.symm.trans hname) (by decide)
  | otherType announced found htype => exact htype (haccepts.asks_of_at announced found).2

/-! ## How a wait ends -/

/-- Whether a wait takes notice of what happens at its socket. -/
def heeds (x : Expectation) (e : SocketEvent) : Bool :=
  match e.event with
  | .error _ => true
  | .ok data => (x.judge data).isNone

/-- The result of a wait that takes notice: the datagram as it came, or the failure. -/
def SocketEvent.reply (e : SocketEvent) : Reply :=
  match e.event with
  | .error err => .error (.udpReceive err)
  | .ok data => .ok data

/-- When a wait is over, counted from when it began. -/
def settledAt (x : Expectation) (timeout : Duration) : List SocketEvent → Duration
  | [] => timeout
  | e :: rest =>
    if timeout < e.time then timeout
    else if x.heeds e then e.time
    else x.settledAt timeout rest

/-- How a wait ends, and when. -/
inductive Ends (x : Expectation) (timeout : Duration) (events : List SocketEvent) :
    Reply → Duration → Prop where
  /-- The first thing that it takes notice of comes in time. -/
  | heeded {before after : List SocketEvent} {e : SocketEvent}
      (split : events = before ++ e :: after) (dropped : ∀ d ∈ before, x.heeds d = false)
      (heeded : x.heeds e = true) (inTime : e.time ≤ timeout) : Ends x timeout events e.reply e.time
  /-- There is nothing to take notice of before the deadline. -/
  | timeout (dropped : ∀ e ∈ events, e.time ≤ timeout → x.heeds e = false) :
      Ends x timeout events (.error .timeout) timeout

variable {timeout : Duration} {e : SocketEvent} {rest events events' : List SocketEvent}

/-- Events are in the order of their times. -/
def Ordered (events : List SocketEvent) : Prop := events.Pairwise (·.time ≤ ·.time)

theorem await_of_late (late : timeout < e.time) :
    (x.await timeout (e :: rest)).1 = .error .timeout ∧
      x.settledAt timeout (e :: rest) = timeout := by
  rcases e with ⟨time, event⟩
  rw [settledAt, if_pos late]
  cases event with
  | error err =>
      rw [await, if_pos late]
      exact ⟨rfl, rfl⟩
  | ok data =>
      rw [await, if_pos late]
      exact ⟨rfl, rfl⟩

theorem await_of_heeds (inTime : e.time ≤ timeout) (heeded : x.heeds e = true) :
    (x.await timeout (e :: rest)).1 = e.reply ∧ x.settledAt timeout (e :: rest) = e.time := by
  have notLate : ¬ timeout < e.time := Nat.not_lt_of_le inTime
  rcases e with ⟨time, event⟩
  rw [settledAt, if_neg notLate, if_pos heeded]
  refine ⟨?_, rfl⟩
  cases event with
  | error err =>
      rw [await, if_neg notLate]
      rfl
  | ok data =>
      have taken : x.judge data = none := Option.isNone_iff_eq_none.mp heeded
      rw [await, if_neg notLate]
      simp only [taken, SocketEvent.reply]

theorem await_of_dropped (inTime : e.time ≤ timeout) (dropped : x.heeds e = false) :
    (x.await timeout (e :: rest)).1 = (x.await timeout rest).1 ∧
      x.settledAt timeout (e :: rest) = x.settledAt timeout rest := by
  have notLate : ¬ timeout < e.time := Nat.not_lt_of_le inTime
  have unheeded : ¬ x.heeds e = true := Bool.eq_false_iff.mp dropped
  rcases e with ⟨time, event⟩
  rw [settledAt, if_neg notLate, if_neg unheeded]
  refine ⟨?_, rfl⟩
  cases event with
  | error err => exact absurd rfl unheeded
  | ok data =>
      rw [await, if_neg notLate]
      cases hjudge : x.judge data with
      | none => exact absurd (Option.isNone_iff_eq_none.mpr hjudge) unheeded
      | some r => rfl

theorem await_of_all_late (late : ∀ e ∈ events, timeout < e.time) :
    (x.await timeout events).1 = .error .timeout ∧ x.settledAt timeout events = timeout := by
  cases events with
  | nil => exact ⟨rfl, rfl⟩
  | cons e rest => exact await_of_late (late e List.mem_cons_self)

theorem Ordered.late (ordered : Ordered (e :: rest)) (late : timeout < e.time) :
    ∀ d ∈ e :: rest, timeout < d.time := by
  intro d hd
  rcases List.mem_cons.mp hd with rfl | hlater
  · exact late
  · exact Nat.lt_of_lt_of_le late ((List.pairwise_cons.mp ordered).1 d hlater)

/-- What is dropped first is dropped before everything else. -/
theorem Ends.cons {reply : Reply} {time : Duration} (h : x.Ends timeout rest reply time)
    (dropped : x.heeds e = false) : x.Ends timeout (e :: rest) reply time := by
  cases h with
  | @heeded before after d split hbefore heeded inTime =>
      have hsplit : e :: rest = (e :: before) ++ d :: after := by
        rw [split, List.cons_append]
      refine .heeded hsplit ?_ heeded inTime
      intro d' hd'
      rcases List.mem_cons.mp hd' with rfl | hrest
      · exact dropped
      · exact hbefore d' hrest
  | timeout hrest =>
      refine .timeout ?_
      intro d hd inTime
      rcases List.mem_cons.mp hd with rfl | hlater
      · exact dropped
      · exact hrest d hlater inTime

/-- A wait ends with the first thing in time that is not dropped. -/
theorem ends_await (x : Expectation) (timeout : Duration) (ordered : Ordered events) :
    x.Ends timeout events (x.await timeout events).1 (x.settledAt timeout events) := by
  induction events with
  | nil =>
      refine .timeout ?_
      intro e he
      cases he
  | cons e rest ih =>
      by_cases late : timeout < e.time
      · rw [(await_of_late late).1, (await_of_late late).2]
        refine .timeout ?_
        intro d hd inTime
        exact absurd inTime (Nat.not_le_of_lt (ordered.late late d hd))
      · have inTime : e.time ≤ timeout := Nat.le_of_not_lt late
        by_cases heeded : x.heeds e = true
        · rw [(await_of_heeds inTime heeded).1, (await_of_heeds inTime heeded).2]
          refine .heeded (List.nil_append _).symm ?_ heeded inTime
          intro d hd
          cases hd
        · have dropped : x.heeds e = false := Bool.eq_false_iff.mpr heeded
          rw [(await_of_dropped inTime dropped).1, (await_of_dropped inTime dropped).2]
          exact (ih (List.pairwise_cons.mp ordered).2).cons dropped

/-- A wait is what it would be if nothing had come that is dropped. -/
theorem await_filter (x : Expectation) (timeout : Duration) (ordered : Ordered events) :
    (x.await timeout (events.filter x.heeds)).1 = (x.await timeout events).1 ∧
      x.settledAt timeout (events.filter x.heeds) = x.settledAt timeout events := by
  induction events with
  | nil => exact ⟨rfl, rfl⟩
  | cons e rest ih =>
      by_cases late : timeout < e.time
      · have allLate := ordered.late late
        have filteredLate : ∀ d ∈ (e :: rest).filter x.heeds, timeout < d.time := by
          intro d hd
          exact allLate d (List.mem_filter.mp hd).1
        rw [(await_of_all_late allLate).1, (await_of_all_late allLate).2]
        exact await_of_all_late filteredLate
      · have inTime : e.time ≤ timeout := Nat.le_of_not_lt late
        by_cases heeded : x.heeds e = true
        · have whole : (x.await timeout (e :: rest)).1 = e.reply ∧
              x.settledAt timeout (e :: rest) = e.time := await_of_heeds inTime heeded
          rw [List.filter_cons_of_pos heeded, whole.1, whole.2]
          exact await_of_heeds inTime heeded
        · have dropped : x.heeds e = false := Bool.eq_false_iff.mpr heeded
          rw [List.filter_cons_of_neg heeded, (await_of_dropped inTime dropped).1,
            (await_of_dropped inTime dropped).2]
          exact ih (List.pairwise_cons.mp ordered).2

/-- Two waits that differ in what is dropped have the same result at the same time. -/
theorem await_congr (ordered : Ordered events) (ordered' : Ordered events')
    (same : events'.filter x.heeds = events.filter x.heeds) :
    (x.await timeout events').1 = (x.await timeout events).1 ∧
      x.settledAt timeout events' = x.settledAt timeout events := by
  have filtered := await_filter x timeout ordered
  have filtered' := await_filter x timeout ordered'
  rw [same] at filtered'
  exact ⟨filtered'.1.symm.trans filtered.1, filtered'.2.symm.trans filtered.2⟩

end Expectation

/-! ## Followers -/

namespace Flights

variable {f : Flights} {id : LeaderId} {began start stop : Time} {x : Expectation}
  {timeout : Duration} {events : List Expectation.SocketEvent}

/-- Whether a step may decide what becomes of a leader. -/
def Op.decides (id : LeaderId) : Op → Bool
  | .retire other _ | .announce other | .abandon other => other == id
  | .send _ | .opened _ => false

theorem Fate.after_of_not_decides {op : Op} (h : op.decides id = false) (fate : Fate) :
    fate.after id op = fate := by
  cases op with
  | send key => cases fate <;> rfl
  | opened other => cases fate <;> rfl
  | retire other r => exact fate.after_of_ne (by simpa [Op.leader?, Op.decides] using h)
  | announce other => exact fate.after_of_ne (by simpa [Op.leader?, Op.decides] using h)
  | abandon other => exact fate.after_of_ne (by simpa [Op.leader?, Op.decides] using h)

/-- What becomes of a leader is up to the steps that decide it. -/
theorem foldl_after_filter (ops : List Op) (fate : Fate) :
    ops.foldl (Fate.after id) fate = (ops.filter (·.decides id)).foldl (Fate.after id) fate := by
  induction ops generalizing fate with
  | nil => rfl
  | cons op ops ih =>
      by_cases decides : op.decides id = true
      · rw [List.filter_cons_of_pos decides, List.foldl_cons, List.foldl_cons, ih]
      · rw [List.filter_cons_of_neg decides, List.foldl_cons, ih,
          Fate.after_of_not_decides (Bool.eq_false_iff.mpr decides)]

/-- A step at a moment. -/
structure Moment where
  time : Time
  op : Op

/-- The last steps of a leader that began to wait at a moment: it has a result, and tells it. -/
def endOfWait (id : LeaderId) (began : Time) (x : Expectation) (timeout : Duration)
    (events : List Expectation.SocketEvent) : List Moment :=
  let time := began + x.settledAt timeout events
  [⟨time, .retire id (x.await timeout events).1⟩, ⟨time, .announce id⟩]

/-- In a history a leader ends its wait as it does, and nobody else decides what becomes of
it. All other steps of all other callers may be in between. -/
def Waits (history : List Moment) (id : LeaderId) (began : Time) (x : Expectation)
    (timeout : Duration) (events : List Expectation.SocketEvent) : Prop :=
  history.filter (·.op.decides id) = endOfWait id began x timeout events

/-- The steps of a history at the moments that are picked. -/
def stepsAt (history : List Moment) (picked : Time → Bool) : List Op :=
  (history.filter fun m => picked m.time).map Moment.op

/-- What a follower hears that follows since before the history, begins to listen at `start`
and runs out of time at `stop`. -/
def hears (f : Flights) (w : Follower) (history : List Moment) (start stop : Time) : Reply :=
  (f.run (stepsAt history fun t => t ≤ start)).awaitLeader w
    (stepsAt history fun t => start < t && t ≤ stop)

theorem filter_stepsAt {history : List Moment} (h : Waits history id began x timeout events)
    (picked : Time → Bool) : (stepsAt history picked).filter (·.decides id) =
      if picked (began + x.settledAt timeout events) then
        [.retire id (x.await timeout events).1, .announce id]
      else [] := by
  have regrouped : (history.filter fun m => (Op.decides id ∘ Moment.op) m && picked m.time) =
      (history.filter (·.op.decides id)).filter fun m => picked m.time := by
    rw [List.filter_filter]
    congr 1
    funext m
    exact Bool.and_comm _ _
  rw [stepsAt, List.filter_map, List.filter_filter, regrouped, h]
  by_cases hpicked : picked (began + x.settledAt timeout events) = true
  · simp [endOfWait, hpicked]
  · simp [endOfWait, hpicked]

/-- A follower of a leader that waits hears the result of the wait if its own time is not up
before, and else runs out of time. -/
theorem hears_eq {history : List Moment} (pending : f.Mirrors id .pending) (lt : id < f.next)
    (h : Waits history id began x timeout events) : f.hears ⟨id, 0⟩ history start stop =
      if began + x.settledAt timeout events ≤ start ∨ began + x.settledAt timeout events ≤ stop then
        (x.await timeout events).1
      else .error .timeout := by
  rcases pending.run lt (stepsAt history fun t => t ≤ start) with ⟨now, lt'⟩
  rw [hears, awaitLeader_of_mirrors now lt', foldl_after_filter (stepsAt _ _) .pending,
    foldl_after_filter, filter_stepsAt h, filter_stepsAt h]
  generalize began + x.settledAt timeout events = settled
  by_cases early : settled ≤ start
  · have notLater : ¬ start < settled := Nat.not_lt_of_le early
    simp [early, notLater, Fate.after, Fate.received]
  · have later : start < settled := Nat.lt_of_not_le early
    by_cases inTime : settled ≤ stop
    · simp [early, later, inTime, Fate.after, Fate.received]
    · simp [early, inTime, Fate.received]

/-- Whoever follows, follows a leader that has not said anything yet. -/
theorem exists_mirrors_of_send {key : MatchKey} {w : Follower} (before : List Op)
    (follows : ((run {} before).send key).2 = .follower w) :
    ∃ id, w = ⟨id, 0⟩ ∧ ((run {} before).send key).1.Mirrors id .pending ∧
      id < ((run {} before).send key).1.next := by
  have sound : (run {} before).Sound := Sound.empty.run before
  cases found : (run {} before).inflight.find? key with
  | none =>
      rw [send_of_find?_eq_none found] at follows
      cases follows
  | some id =>
      rcases (sound.entry key id).mp found with ⟨l, hl, live, -⟩
      have silent := sound.silent id l hl
      rw [send_of_find? found, silent] at follows
      rw [send_of_find? found]
      exact ⟨id, (Ticket.follower.inj follows).symm, ⟨⟨l, hl, live⟩, silent⟩,
        sound.lt_next id l hl⟩

/-- **Forgeries do not matter.** Let a leader wait for what happens at its socket, in the order
of time. A datagram is not taken if it is too short, has another identifier, is no response, or
has a question that cannot be read or has another name or type. The wait ends with the first
thing in time that is not dropped: with the datagram as it came, or with the failure to receive;
else it ends at its deadline. And if any datagrams that are dropped are put in or left out,
anywhere, it has the same result at the same time and leaves the table alike; and whoever follows
it, whenever they listen, hears that result if it came before their own time was up, whatever
other callers do in between. -/
theorem forgeries_do_not_matter (x : Expectation) (timeout : Duration)
    (events : List Expectation.SocketEvent) (ordered : Expectation.Ordered events) :
    (∀ data, x.Forged data → x.judge data ≠ none) ∧
    x.Ends timeout events (x.await timeout events).1 (x.settledAt timeout events) ∧
    ∀ events', Expectation.Ordered events' → events'.filter x.heeds = events.filter x.heeds →
      (x.await timeout events').1 = (x.await timeout events).1 ∧
      x.settledAt timeout events' = x.settledAt timeout events ∧
      (∀ (f : Flights) id,
        (f.receive ⟨.leader id, x⟩ timeout events').reply =
            (f.receive ⟨.leader id, x⟩ timeout events).reply ∧
          (f.receive ⟨.leader id, x⟩ timeout events').flights =
            (f.receive ⟨.leader id, x⟩ timeout events).flights) ∧
      ∀ before key w history began start stop,
        ((run {} before).send key).2 = .follower w →
        Waits history w.leader began x timeout events' →
        ((run {} before).send key).1.hears w history start stop =
          let settled := began + x.settledAt timeout events
          if settled ≤ start ∨ settled ≤ stop then (x.await timeout events).1
          else .error .timeout := by
  refine ⟨fun data => Expectation.judge_of_forged, Expectation.ends_await x timeout ordered, ?_⟩
  intro events' ordered' same
  have congr : (x.await timeout events').1 = (x.await timeout events).1 ∧
      x.settledAt timeout events' = x.settledAt timeout events :=
    Expectation.await_congr ordered ordered' same
  rcases congr with ⟨reply, settled⟩
  refine ⟨reply, settled, ?_, ?_⟩
  · intro f id
    refine ⟨reply, ?_⟩
    show f.finish id (x.await timeout events').1 = f.finish id (x.await timeout events).1
    rw [reply]
  · intro before key w history began start stop follows waits
    rcases exists_mirrors_of_send before follows with ⟨id, rfl, pending, lt⟩
    rw [hears_eq pending lt waits, reply, settled]

/-- A query for `orgKey` that is out. -/
def orgExpectation : Expectation := ⟨orgKey, 7, false⟩

/-- A response without a question. -/
def bareResponse : Octets := #[0, 7, 128, 0, 0, 0, 0, 0, 0, 0, 0, 0]

/-- The response comes. -/
def quietSocket : List Expectation.SocketEvent := [⟨5, .ok bareResponse⟩]

/-- Before the response there come half a header and one with another identifier. -/
def noisySocket : List Expectation.SocketEvent :=
  [⟨1, .ok #[0, 7, 128]⟩, ⟨4, .ok #[0, 8, 128, 0, 0, 0, 0, 0, 0, 0, 0, 0]⟩,
    ⟨5, .ok bareResponse⟩]

/-- The leader is heard although someone forges responses to it, and although a new leader with
its key turns up before it speaks. -/
theorem forgeries_do_not_matter_noisySocket :
    Expectation.Ordered quietSocket ∧ Expectation.Ordered noisySocket ∧
      noisySocket.filter orgExpectation.heeds = quietSocket.filter orgExpectation.heeds ∧
      orgExpectation.settledAt 9 noisySocket = 5 ∧
      ((run {} [.send orgKey, .opened 0]).send upperOrgKey).1.hears ⟨0, 0⟩
        [⟨15, .retire 0 (.ok bareResponse)⟩, ⟨15, .send orgKey⟩, ⟨15, .announce 0⟩] 12 20 =
          .ok bareResponse := by
  have quiet : Expectation.Ordered quietSocket := by simp [Expectation.Ordered, quietSocket]
  have noisy : Expectation.Ordered noisySocket := by simp [Expectation.Ordered, noisySocket]
  have same : noisySocket.filter orgExpectation.heeds = quietSocket.filter orgExpectation.heeds :=
    rfl
  have follows : ((run {} [.send orgKey, .opened 0]).send upperOrgKey).2 = .follower ⟨0, 0⟩ := by
    decide
  have waits : Waits [⟨15, .retire 0 (.ok bareResponse)⟩, ⟨15, .send orgKey⟩, ⟨15, .announce 0⟩]
      0 10 orgExpectation 9 noisySocket := rfl
  rcases (forgeries_do_not_matter orgExpectation 9 quietSocket quiet).2.2 noisySocket noisy same with
    ⟨-, settled, -, hears⟩
  exact ⟨quiet, noisy, same, settled, hears _ _ _ _ 10 12 20 follows waits⟩

end Flights

end Querier
