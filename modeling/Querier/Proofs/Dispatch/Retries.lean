import Querier.Proofs.Dispatch.Interleaving
import Querier.Proofs.Dispatch.Traffic

/-!
# Trying one connection after the other

An exchange over streams takes connections from the pool until one of them brings a response, and
asks for a new one when there is none left. There is no counter: what ends the loop is that every
failure makes the stack of the server smaller, while connections that expire meanwhile or have the
wrong protection make it smaller still.

`Visit.course` is what an exchange goes through until there is a reply, and `Visit.arrival` is where
it then is. `Rounds` describes the course round by round, one case for each way to begin and to end,
and everything else is an induction on the rounds.

## Main results

* `Visit.rounds_course`: the course of an exchange consists of rounds.
* `Rounds.bound`: each round but the last one costs a connection of the stack.
* `Rounds.ending`: how the last round ends.
* `Visit.conducted`: all of this for the course of an exchange.
-/

namespace Querier

/-! ## Stops on the way -/

/-- An exchange at some stage of its way, when it gets there, and what is shared then. -/
structure Visit extends Moment where
  task : Task

namespace Visit

variable (d : Dispatcher) (v : Visit)

/-- The next stop. -/
def next : Visit where
  now := v.now + (v.task.step d v.now v.shared).2.2
  shared := (v.task.step d v.now v.shared).1
  task := (v.task.step d v.now v.shared).2.1

theorem weight_next {v : Visit} (awaits : v.task.stage.awaitsReply = true) :
    (v.next d).task.weight (v.next d).shared < v.task.weight v.shared :=
  Task.weight_step v.task d v.now v.shared (Task.result?_of_awaitsReply awaits)

/-- The stops until there is a reply. -/
def course (v : Visit) : List Visit :=
  if _awaits : v.task.stage.awaitsReply = true then v :: (v.next d).course else []
termination_by v.task.weight v.shared
decreasing_by exact v.weight_next d _awaits

/-- The stop at which there is a reply. -/
def arrival (v : Visit) : Visit :=
  if _awaits : v.task.stage.awaitsReply = true then (v.next d).arrival else v
termination_by v.task.weight v.shared
decreasing_by exact v.weight_next d _awaits

theorem course_of_awaitsReply {v : Visit} (awaits : v.task.stage.awaitsReply = true) :
    v.course d = v :: (v.next d).course d ∧ v.arrival d = (v.next d).arrival d := by
  rw [course, arrival, dif_pos awaits, dif_pos awaits]
  exact ⟨rfl, rfl⟩

theorem course_of_not_awaitsReply {v : Visit} (arrived : v.task.stage.awaitsReply = false) :
    v.course d = [] ∧ v.arrival d = v := by
  have arrived : ¬ v.task.stage.awaitsReply = true := Bool.eq_false_iff.mp arrived
  rw [course, arrival, dif_neg arrived, dif_neg arrived]
  exact ⟨rfl, rfl⟩

/-- The exchange goes on from where it arrives. -/
theorem run_arrival : v.task.run d v.now v.shared =
    (v.arrival d).task.run d (v.arrival d).now (v.arrival d).shared := by
  induction v using Visit.course.induct d with
  | case1 v awaits ih =>
      rw [Task.run_step (Task.result?_of_awaitsReply awaits), (course_of_awaitsReply d awaits).2]
      exact ih
  | case2 v arrived =>
      rw [(course_of_not_awaitsReply d (Bool.eq_false_iff.mpr arrived)).2]

/-! ## What a stop is for -/

/-- The idle connections to the server of the exchange. -/
def stack : List Idle := v.shared.pool.stack v.task.request.server

/-- What comes of the query over a connection. -/
def exchanged (c : Connection) : Stream.Exchanged :=
  c.stream.exchange v.task.message d.config.networkTimeout

/-- What comes of asking for a connection. -/
def connected : Except TransportError Stream :=
  (v.task.network.connects.head?.getD
    { outcome := .error (.streamConnect (.bare .connectionRefused)) }).outcome

/-- Whether a connection is asked for. -/
def connects : Bool :=
  match v.task.stage with
  | .connecting => true
  | _ => false

/-- The exchange is the same, and the pool differs in the stack of its server only. -/
structure Follows (v w : Visit) : Prop where
  request : w.task.request = v.task.request
  message : w.task.message = v.task.message
  others : ∀ other, other ≠ v.task.request.server →
    w.shared.pool.stack other = v.shared.pool.stack other

theorem Follows.refl : v.Follows v := ⟨rfl, rfl, fun _ _ => rfl⟩

variable {d v}

theorem Follows.trans {w x : Visit} (h : v.Follows w) (h' : w.Follows x) : v.Follows x where
  request := h'.request.trans h.request
  message := h'.message.trans h.message
  others other ne := by
    rw [h'.others other (by rwa [h.request]), h.others other ne]

/-! ## One step -/

/-- From the pool comes a connection, with the stack below it left, or none, with no stack left. -/
theorem next_of_acquiring (d : Dispatcher) (h : v.task.stage = .acquiring) :
    v.Follows (v.next d) ∧
    (v.next d).shared.nextConnection = v.shared.nextConnection ∧
    ((∃ above i, v.stack = above ++ i :: (v.next d).stack ∧
        (v.next d).task.stage = .exchanging i.conn.countQuery false ∧
        (i.conn.holding :: (v.next d).shared.pool.holdings).Subperm v.shared.pool.holdings) ∨
      ((v.next d).stack = [] ∧ (v.next d).task.stage = .connecting ∧
        (v.next d).shared.pool.holdings.Subperm v.shared.pool.holdings)) := by
  have others (other : SocketAddress) (ne : other ≠ v.task.request.server) :=
    v.shared.pool.stack_acquire_of_ne v.now v.task.request.server v.task.tls ne
  have subperm := v.shared.pool.holdings_acquire v.now v.task.request.server v.task.tls
  simp only [Visit.next, Task.step, h, Task.stepAcquiring, Shared.acquire]
  rcases v.shared.pool.acquire_cases v.now v.task.request.server v.task.tls with
    ⟨above, i, hstack, hconn⟩ | ⟨hconn, hstack⟩
  · rw [hconn] at subperm
    simp only [hconn]
    exact ⟨⟨rfl, rfl, others⟩, rfl, .inl ⟨above, i, hstack, rfl, subperm⟩⟩
  · rw [hconn] at subperm
    simp only [hconn]
    exact ⟨⟨rfl, rfl, others⟩, rfl, .inr ⟨hstack, rfl, subperm⟩⟩

/-- A new connection is opened, or none, and the exchange is given up. -/
theorem next_of_connecting (d : Dispatcher) (h : v.task.stage = .connecting) :
    v.Follows (v.next d) ∧ (v.next d).shared.pool = v.shared.pool ∧
    ((∃ stream c, v.connected = .ok stream ∧ (v.next d).task.stage = .exchanging c true ∧
        c.id = v.shared.nextConnection) ∨
      ∃ e, v.connected = .error e ∧ (v.next d).task.stage = .answered (.error e) false none) := by
  unfold connected
  simp only [Visit.next, Task.step, h, Task.stepConnecting]
  cases (v.task.network.connects.head?.getD _).outcome with
  | error e => exact ⟨⟨rfl, rfl, fun _ _ => rfl⟩, rfl, .inr ⟨e, rfl, rfl⟩⟩
  | ok stream => exact ⟨⟨rfl, rfl, fun _ _ => rfl⟩, rfl, .inl ⟨stream, _, rfl, rfl, rfl⟩⟩

/-- A connection over which the query was sent. -/
def used (d : Dispatcher) (v : Visit) (c : Connection) : Connection :=
  { c with stream := (v.exchanged d c).stream }

/-- A connection that fails at a stop is closed: the exchange has it no more, it is not given to the
pool, and the log says that it is discarded. -/
structure Closes (d : Dispatcher) (v : Visit) (c : Connection) : Prop where
  given_up : (v.next d).task.stage.connection? = none
  kept_out : (v.next d).shared.pool = v.shared.pool
  logged : ∃ more, (v.next d).shared.journal.logged =
    v.shared.journal.logged ++ (v.used d c).discardNote :: more

/-- Writing to a connection does not show in the log. -/
theorem logged_wrote (s : Shared) (id : Nat) (label : String) (os : Octets) :
    (s.note (.wrote id label os)).journal.logged = s.journal.logged := by
  show (s.journal.push _).logged = _
  rw [Journal.logged, Journal.entries_push, List.filterMap_append, Journal.logged]
  exact List.append_nil _

theorem logged_discard (s : Shared) (c : Connection) :
    (s.discard c).journal.logged = s.journal.logged ++ [c.discardNote] :=
  s.journal.logged_log [c.discardNote]

/-- A connection that fails is closed, whether the exchange goes on or not. -/
theorem closes_of_error {c : Connection} {fresh : Bool} {e : TransportError}
    (h : v.task.stage = .exchanging c fresh) (error : (v.exchanged d c).reply = .error e) :
    v.Closes d c := by
  have reply : (c.stream.exchange v.task.message d.config.networkTimeout).reply = .error e := error
  constructor
  · simp only [Visit.next, Task.step, h, Task.stepExchanging, reply]
    cases fresh <;> rfl
  · simp only [Visit.next, Task.step, h, Task.stepExchanging, reply]
    cases fresh <;> rfl
  · simp only [Visit.next, Task.step, h, Task.stepExchanging, reply]
    cases fresh with
    | true => exact ⟨[], (logged_discard ..).trans (congrArg (· ++ _) (logged_wrote ..))⟩
    | false =>
        -- the retry is logged behind
        refine ⟨[v.task.retryNote e], ?_⟩
        refine (Journal.logged_log ..).trans ?_
        rw [logged_discard, logged_wrote, List.append_assoc]
        rfl

/-- Over a connection there comes a response, or it fails and is closed; a new one is the last. -/
theorem next_of_exchanging (d : Dispatcher) {c : Connection} {fresh : Bool}
    (h : v.task.stage = .exchanging c fresh) :
    v.Follows (v.next d) ∧ (v.next d).shared.pool = v.shared.pool ∧
    (v.next d).shared.nextConnection = v.shared.nextConnection ∧
    ((∃ data, (v.exchanged d c).reply = .ok data ∧
        (v.next d).task.stage = .answered (.ok data) false (some (v.used d c))) ∨
      ∃ e, (v.exchanged d c).reply = .error e ∧ v.Closes d c ∧
        (v.next d).task.stage = if fresh then .answered (.error e) false none else .acquiring) := by
  cases hreply : (v.exchanged d c).reply with
  | ok data =>
      have reply : (c.stream.exchange v.task.message d.config.networkTimeout).reply = .ok data :=
        hreply
      simp only [Visit.next, Task.step, h, Task.stepExchanging, reply]
      exact ⟨⟨rfl, rfl, fun _ _ => rfl⟩, rfl, rfl, .inl ⟨data, rfl, rfl⟩⟩
  | error e =>
      have reply : (c.stream.exchange v.task.message d.config.networkTimeout).reply = .error e :=
        hreply
      have closes : v.Closes d c := closes_of_error h hreply
      simp only [Visit.next, Task.step, h, Task.stepExchanging, reply]
      cases fresh with
      | true => exact ⟨⟨rfl, rfl, fun _ _ => rfl⟩, rfl, rfl, .inr ⟨e, rfl, closes, rfl⟩⟩
      | false => exact ⟨⟨rfl, rfl, fun _ _ => rfl⟩, rfl, rfl, .inr ⟨e, rfl, closes, rfl⟩⟩

/-- What goes out on the way to the reply is what goes out at the stops. -/
theorem traffic_arrival : (v.arrival d).shared.journal.traffic =
    v.shared.journal.traffic ++ (v.course d).flatMap fun u => u.task.sends d := by
  induction v using Visit.course.induct d with
  | case1 v awaits ih =>
      rcases course_of_awaitsReply d awaits with ⟨course, arrival⟩
      rcases (v.task.journal_step_of_awaitsReply d v.shared v.now awaits).1 with
        ⟨events, journal⟩
      have sent : (v.next d).shared.journal.traffic =
          v.shared.journal.traffic ++ v.task.sends d := by
        rw [next, journal, Journal.traffic_log, Journal.traffic_append,
          Journal.traffic_of_isTraffic (v.task.isTraffic_sends d)]
      rw [course, arrival, ih, sent, List.flatMap_cons, List.append_assoc]
  | case2 v arrived =>
      rcases course_of_not_awaitsReply d (Bool.eq_false_iff.mpr arrived) with ⟨course, arrival⟩
      rw [course, arrival, List.flatMap_nil, List.append_nil]

end Visit

/-! ## Rounds -/

/-- The rounds of an exchange from the stop at which it looks for a connection: its stops, and
last the one at which there is a reply. -/
inductive Rounds (d : Dispatcher) : Visit → List Visit → Visit → Prop where
  /-- A connection from the pool brings a response. -/
  | pooled {v : Visit} {c : Connection} {data : Octets} (acquiring : v.task.stage = .acquiring)
      (took : (v.next d).task.stage = .exchanging c false)
      (reply : ((v.next d).exchanged d c).reply = .ok data) :
      Rounds d v [v, v.next d] ((v.next d).next d)
  /-- A connection from the pool fails. -/
  | again {v : Visit} {c : Connection} {e : TransportError} {vs : List Visit} {w : Visit}
      (acquiring : v.task.stage = .acquiring)
      (took : (v.next d).task.stage = .exchanging c false)
      (reply : ((v.next d).exchanged d c).reply = .error e)
      (rest : Rounds d ((v.next d).next d) vs w) : Rounds d v (v :: v.next d :: vs) w
  /-- There is none left, and no new one is to be had. -/
  | refused {v : Visit} {e : TransportError} (acquiring : v.task.stage = .acquiring)
      (missed : (v.next d).task.stage = .connecting) (outcome : (v.next d).connected = .error e) :
      Rounds d v [v, v.next d] ((v.next d).next d)
  /-- A new connection is opened, and whatever it brings is the end. -/
  | opened {v : Visit} {c : Connection} (acquiring : v.task.stage = .acquiring)
      (missed : (v.next d).task.stage = .connecting)
      (took : ((v.next d).next d).task.stage = .exchanging c true) :
      Rounds d v [v, v.next d, (v.next d).next d] (((v.next d).next d).next d)

namespace Visit

variable {d : Dispatcher} {v : Visit}

theorem arrives (d : Dispatcher)
    (answered : ∃ reply chained c, v.task.stage = .answered reply chained c) :
    v.course d = [] ∧ v.arrival d = v := by
  apply course_of_not_awaitsReply
  rcases answered with ⟨reply, chained, c, h⟩
  rw [h]
  rfl

/-- The course of an exchange that looks for a connection consists of rounds. -/
theorem rounds_course (acquiring : v.task.stage = .acquiring) :
    Rounds d v (v.course d) (v.arrival d) := by
  induction hweight : v.task.weight v.shared using Nat.strongRecOn generalizing v with
  | ind weight ih =>
      have first := course_of_awaitsReply d (v := v) (by rw [acquiring]; rfl)
      rcases next_of_acquiring d acquiring with
        ⟨-, -, ⟨above, i, -, took, -⟩ | ⟨-, missed, -⟩⟩
      · have second := course_of_awaitsReply d (v := v.next d) (by rw [took]; rfl)
        rw [first.1, first.2, second.1, second.2]
        rcases next_of_exchanging d took with ⟨-, -, -, ⟨data, reply, answered⟩ |
          ⟨e, reply, -, again⟩⟩
        · rcases arrives d ⟨_, _, _, answered⟩ with ⟨course, arrival⟩
          rw [course, arrival]
          exact .pooled acquiring took reply
        · have lighter : ((v.next d).next d).task.weight ((v.next d).next d).shared < weight := by
            rw [← hweight]
            exact Nat.lt_trans (weight_next d (by rw [took]; rfl))
              (weight_next d (by rw [acquiring]; rfl))
          exact .again acquiring took reply (ih _ lighter again rfl)
      · have second := course_of_awaitsReply d (v := v.next d) (by rw [missed]; rfl)
        rw [first.1, first.2, second.1, second.2]
        rcases next_of_connecting d missed with ⟨-, -, ⟨stream, c, -, took, -⟩ |
          ⟨e, outcome, answered⟩⟩
        · have third := course_of_awaitsReply d (v := (v.next d).next d) (by rw [took]; rfl)
          have answered : ∃ reply chained c,
              (((v.next d).next d).next d).task.stage = .answered reply chained c := by
            rcases next_of_exchanging d took with ⟨-, -, -, ⟨data, -, answered⟩ |
              ⟨e, -, -, answered⟩⟩
            · exact ⟨_, _, _, answered⟩
            · exact ⟨_, _, _, answered⟩
          rcases arrives d answered with ⟨course, arrival⟩
          rw [third.1, third.2, course, arrival]
          exact .opened acquiring missed took
        · rcases arrives d ⟨_, _, _, answered⟩ with ⟨course, arrival⟩
          rw [course, arrival]
          exact .refused acquiring missed outcome

/-! ### What a round does -/

theorem stack_next (follows : v.Follows (v.next d))
    (pool : (v.next d).shared.pool = v.shared.pool) : (v.next d).stack = v.stack := by
  rw [stack, stack, follows.request, pool]

theorem taken {c : Connection} (acquiring : v.task.stage = .acquiring)
    (took : (v.next d).task.stage = .exchanging c false) :
    (∃ above i, v.stack = above ++ i :: (v.next d).stack) ∧
      (c.holding :: (v.next d).shared.pool.holdings).Subperm v.shared.pool.holdings := by
  rcases next_of_acquiring d acquiring with
    ⟨-, -, ⟨above, i, hstack, took', subperm⟩ | ⟨-, missed, -⟩⟩
  · cases took.symm.trans took'
    exact ⟨⟨above, i, hstack⟩, subperm⟩
  · cases took.symm.trans missed

theorem missed (acquiring : v.task.stage = .acquiring)
    (missed : (v.next d).task.stage = .connecting) :
    (v.next d).stack = [] ∧
      (v.next d).shared.pool.holdings.Subperm v.shared.pool.holdings := by
  rcases next_of_acquiring d acquiring with
    ⟨-, -, ⟨above, i, -, took, -⟩ | ⟨empty, -, subperm⟩⟩
  · cases took.symm.trans missed
  · exact ⟨empty, subperm⟩

theorem failed {c : Connection} {e : TransportError} {fresh : Bool}
    (took : v.task.stage = .exchanging c fresh) (reply : (v.exchanged d c).reply = .error e) :
    v.Closes d c ∧ (v.next d).task.stage =
      if fresh then .answered (.error e) false none else .acquiring := by
  rcases next_of_exchanging d took with ⟨-, -, -, ⟨data, ok, -⟩ | ⟨e', error, closes, stage⟩⟩
  · cases reply.symm.trans ok
  · cases reply.symm.trans error
    exact ⟨closes, stage⟩

theorem succeeded {c : Connection} {data : Octets} {fresh : Bool}
    (took : v.task.stage = .exchanging c fresh) (reply : (v.exchanged d c).reply = .ok data) :
    (v.next d).task.stage = .answered (.ok data) false (some (v.used d c)) := by
  rcases next_of_exchanging d took with ⟨-, -, -, ⟨data', ok, stage⟩ | ⟨e, error, -, -⟩⟩
  · cases reply.symm.trans ok
    exact stage
  · cases reply.symm.trans error

theorem connects_iff : v.connects = true ↔ v.task.stage = .connecting := by
  unfold connects
  cases v.task.stage <;> simp

end Visit

open Visit

/-- The connections that an exchange has for itself at these stops. -/
def triedAt (vs : List Visit) : List Connection :=
  vs.filterMap fun u => u.task.stage.connection?

/-- The connections over which the query is sent, in order. -/
def Visit.tried (d : Dispatcher) (v : Visit) : List Connection := triedAt (v.course d)

section

variable {u : Visit} (vs : List Visit)

theorem triedAt_acquiring (h : u.task.stage = .acquiring) : triedAt (u :: vs) = triedAt vs := by
  rw [triedAt, List.filterMap_cons, h]
  rfl

theorem triedAt_connecting (h : u.task.stage = .connecting) : triedAt (u :: vs) = triedAt vs := by
  rw [triedAt, List.filterMap_cons, h]
  rfl

theorem triedAt_exchanging {c : Connection} {fresh : Bool}
    (h : u.task.stage = .exchanging c fresh) : triedAt (u :: vs) = c :: triedAt vs := by
  rw [triedAt, List.filterMap_cons, h]
  rfl

end

/-- Which connections are in the pool. -/
def Pool.numbers (p : Pool) : List Nat := p.holdings.map Prod.fst

/-- How the stops `vs` of an exchange end at `w`. -/
inductive Ending (d : Dispatcher) (vs : List Visit) (w : Visit) : Prop where
  /-- The last connection that was tried brought a response, and is the one that is used. -/
  | answered {last : Visit} {c : Connection} {fresh : Bool} {data : Octets}
      (last_of : vs.getLast? = some last) (stage : last.task.stage = .exchanging c fresh)
      (reply : (last.exchanged d c).reply = .ok data)
      (arrived : w.task.stage = .answered (.ok data) false (some (last.used d c)))
  /-- No new connection was to be had. -/
  | refused {last : Visit} {e : TransportError} (last_of : vs.getLast? = some last)
      (stage : last.task.stage = .connecting) (outcome : last.connected = .error e)
      (arrived : w.task.stage = .answered (.error e) false none) (empty : w.stack = [])
  /-- The new connection failed. -/
  | failed {asked : Visit} {c : Connection} {e : TransportError} (asked_of : asked ∈ vs)
      (connecting : asked.task.stage = .connecting) (last_of : vs.getLast? = some (asked.next d))
      (stage : (asked.next d).task.stage = .exchanging c true)
      (reply : ((asked.next d).exchanged d c).reply = .error e)
      (arrived : w.task.stage = .answered (.error e) false none) (empty : w.stack = [])

namespace Rounds

variable {d : Dispatcher} {v w : Visit} {vs : List Visit}

theorem ne_nil (h : Rounds d v vs w) : vs ≠ [] := by
  cases h <;> exact List.cons_ne_nil _ _

/-- The exchange stays the same, and the pool changes for its server only. -/
theorem follows (h : Rounds d v vs w) : v.Follows w ∧ ∀ u ∈ vs, v.Follows u := by
  induction h with
  | @pooled v c data acquiring took reply =>
      have first := (next_of_acquiring d acquiring).1
      have second := (next_of_exchanging d took).1
      refine ⟨first.trans second, ?_⟩
      simp only [List.forall_mem_cons, List.not_mem_nil, false_implies, implies_true, and_true]
      exact ⟨.refl v, first⟩
  | @again v c e vs w acquiring took reply rest ih =>
      have first := (next_of_acquiring d acquiring).1
      have both := first.trans (next_of_exchanging d took).1
      refine ⟨both.trans ih.1, ?_⟩
      simp only [List.forall_mem_cons]
      exact ⟨.refl v, first, fun u hu => both.trans (ih.2 u hu)⟩
  | @refused v e acquiring missed outcome =>
      have first := (next_of_acquiring d acquiring).1
      have second := (next_of_connecting d missed).1
      refine ⟨first.trans second, ?_⟩
      simp only [List.forall_mem_cons, List.not_mem_nil, false_implies, implies_true, and_true]
      exact ⟨.refl v, first⟩
  | @opened v c acquiring missed took =>
      have first := (next_of_acquiring d acquiring).1
      have both := first.trans (next_of_connecting d missed).1
      have third := (next_of_exchanging d took).1
      refine ⟨both.trans third, ?_⟩
      simp only [List.forall_mem_cons, List.not_mem_nil, false_implies, implies_true, and_true]
      exact ⟨.refl v, first, both⟩

/-- Every try but one costs an idle connection. -/
theorem bound (h : Rounds d v vs w) :
    (triedAt vs).length + w.stack.length ≤ v.stack.length + 1 := by
  induction h with
  | @pooled v c data acquiring took reply =>
      rcases next_of_exchanging d took with ⟨follows, pool, -⟩
      rcases (taken acquiring took).1 with ⟨above, i, hstack⟩
      rw [stack_next follows pool, hstack, triedAt_acquiring _ acquiring,
        triedAt_exchanging _ took, List.length_cons, List.length_append, List.length_cons]
      have none_more : (triedAt []).length = 0 := rfl
      omega
  | @again v c e vs w acquiring took reply rest ih =>
      rcases next_of_exchanging d took with ⟨follows, pool, -⟩
      rcases (taken acquiring took).1 with ⟨above, i, hstack⟩
      rw [stack_next follows pool] at ih
      rw [hstack, triedAt_acquiring _ acquiring, triedAt_exchanging _ took, List.length_cons,
        List.length_append, List.length_cons]
      omega
  | @refused v e acquiring missing outcome =>
      rcases next_of_connecting d missing with ⟨follows, pool, -⟩
      rw [stack_next follows pool, (missed acquiring missing).1, triedAt_acquiring _ acquiring,
        triedAt_connecting _ missing]
      exact Nat.zero_le _
  | @opened v c acquiring missing took =>
      rcases next_of_connecting d missing with ⟨follows, pool, -⟩
      rcases next_of_exchanging d took with ⟨follows', pool', -⟩
      rw [stack_next follows' pool', stack_next follows pool, (missed acquiring missing).1,
        triedAt_acquiring _ acquiring, triedAt_connecting _ missing, triedAt_exchanging _ took]
      exact Nat.le_add_left ..

/-- A new connection is asked for once at most, and not before the stack is empty. -/
theorem connects (h : Rounds d v vs w) :
    vs.countP Visit.connects ≤ 1 ∧ ∀ u ∈ vs, u.task.stage = .connecting → u.stack = [] := by
  have quiet {u : Visit} (other : u.task.stage ≠ .connecting) : ¬ u.connects = true := by
    rw [connects_iff]
    exact other
  induction h with
  | @pooled v c data acquiring took reply =>
      have first : v.task.stage ≠ .connecting := by rw [acquiring]; nofun
      have second : (v.next d).task.stage ≠ .connecting := by rw [took]; nofun
      rw [List.countP_cons_of_neg (quiet first), List.countP_cons_of_neg (quiet second)]
      refine ⟨Nat.zero_le 1, ?_⟩
      simp only [List.forall_mem_cons, first, second, false_implies, true_and]
      exact fun u hu => nomatch hu
  | @again v c e vs w acquiring took reply rest ih =>
      have first : v.task.stage ≠ .connecting := by rw [acquiring]; nofun
      have second : (v.next d).task.stage ≠ .connecting := by rw [took]; nofun
      rw [List.countP_cons_of_neg (quiet first), List.countP_cons_of_neg (quiet second)]
      refine ⟨ih.1, ?_⟩
      simp only [List.forall_mem_cons, first, second, false_implies, true_and]
      exact ih.2
  | @refused v e acquiring missing outcome =>
      have first : v.task.stage ≠ .connecting := by rw [acquiring]; nofun
      rw [List.countP_cons_of_neg (quiet first), List.countP_cons_of_pos (connects_iff.mpr missing)]
      refine ⟨Nat.le_refl 1, ?_⟩
      simp only [List.forall_mem_cons, first, false_implies, true_and]
      exact ⟨fun _ => (missed acquiring missing).1, fun u hu => nomatch hu⟩
  | @opened v c acquiring missing took =>
      have first : v.task.stage ≠ .connecting := by rw [acquiring]; nofun
      have third : ((v.next d).next d).task.stage ≠ .connecting := by rw [took]; nofun
      rw [List.countP_cons_of_neg (quiet first), List.countP_cons_of_pos (connects_iff.mpr missing),
        List.countP_cons_of_neg (quiet third)]
      refine ⟨Nat.le_refl 1, ?_⟩
      simp only [List.forall_mem_cons, first, third, false_implies, true_and]
      exact ⟨fun _ => (missed acquiring missing).1, fun u hu => nomatch hu⟩

/-- The rounds end with a response, with a connection that was refused, or with a new one that
failed. -/
theorem ending (h : Rounds d v vs w) : Ending d vs w := by
  induction h with
  | @pooled v c data acquiring took reply =>
      exact .answered rfl took reply (succeeded took reply)
  | @again v c e vs w acquiring took reply rest ih =>
      have same : (v :: v.next d :: vs).getLast? = vs.getLast? := by
        rw [List.getLast?_cons_cons, List.getLast?_cons_of_ne_nil rest.ne_nil]
      cases ih with
      | answered last_of stage reply arrived =>
          exact .answered (same.trans last_of) stage reply arrived
      | refused last_of stage outcome arrived empty =>
          exact .refused (same.trans last_of) stage outcome arrived empty
      | failed asked_of connecting last_of stage reply arrived empty =>
          exact .failed (List.mem_cons_of_mem _ (List.mem_cons_of_mem _ asked_of)) connecting
            (same.trans last_of) stage reply arrived empty
  | @refused v e acquiring missing outcome =>
      rcases next_of_connecting d missing with ⟨follows, pool, ⟨stream, c, ok, -⟩ |
        ⟨e', error, stage⟩⟩
      · cases outcome.symm.trans ok
      · cases outcome.symm.trans error
        refine .refused rfl missing outcome stage ?_
        rw [stack_next follows pool, (missed acquiring missing).1]
  | @opened v c acquiring missing took =>
      rcases next_of_connecting d missing with ⟨follows, pool, -⟩
      rcases next_of_exchanging d took with ⟨follows', pool', -⟩
      cases hreply : (((v.next d).next d).exchanged d c).reply with
      | ok data => exact .answered rfl took hreply (succeeded took hreply)
      | error e =>
          refine .failed (List.mem_cons_of_mem _ List.mem_cons_self) missing rfl took hreply
            (failed took hreply).2 ?_
          rw [stack_next follows' pool', stack_next follows pool, (missed acquiring missing).1]

/-- Before the last try there were only failures, and each closed its connection. -/
theorem closes (h : Rounds d v vs w) : ∀ u ∈ vs.dropLast, ∀ c fresh,
    u.task.stage = .exchanging c fresh → u.Closes d c := by
  induction h with
  | @pooled v c data acquiring took reply =>
      intro u hu c' fresh hstage
      cases List.mem_singleton.mp hu
      cases acquiring.symm.trans hstage
  | @again v c e vs w acquiring took reply rest ih =>
      intro u hu c' fresh hstage
      rw [List.dropLast_cons_of_ne_nil (List.cons_ne_nil _ _),
        List.dropLast_cons_of_ne_nil rest.ne_nil] at hu
      rcases List.mem_cons.mp hu with rfl | hu
      · cases acquiring.symm.trans hstage
      · rcases List.mem_cons.mp hu with rfl | hu
        · cases took.symm.trans hstage
          exact (failed took reply).1
        · exact ih u hu c' fresh hstage
  | @refused v e acquiring missing outcome =>
      intro u hu c' fresh hstage
      cases List.mem_singleton.mp hu
      cases acquiring.symm.trans hstage
  | @opened v c acquiring missing took =>
      intro u hu c' fresh hstage
      rcases List.mem_cons.mp hu with rfl | hu
      · cases acquiring.symm.trans hstage
      · cases List.mem_singleton.mp hu
        cases missing.symm.trans hstage

theorem numbers_subperm {p p' : Pool} (hs : List Holding)
    (h : (hs ++ p'.holdings).Subperm p.holdings) :
    (hs.map Prod.fst ++ p'.numbers).Subperm p.numbers := by
  rcases h with ⟨same, perm, sub⟩
  have mapped := perm.map Prod.fst
  rw [List.map_append] at mapped
  exact ⟨same.map Prod.fst, mapped, sub.map Prod.fst⟩

/-- What was tried and what is left in the pool at the end was all there at the beginning, or is the
one new connection. -/
theorem once (h : Rounds d v vs w) :
    ((triedAt vs).map Connection.id ++ w.shared.pool.numbers).Subperm
      (v.shared.pool.numbers ++ [v.shared.nextConnection]) := by
  have weaken {u : Visit} {ns : List Nat} (hu : ns.Subperm u.shared.pool.numbers) :
      ns.Subperm (u.shared.pool.numbers ++ [u.shared.nextConnection]) :=
    hu.trans (List.sublist_append_left ..).subperm
  induction h with
  | @pooled v c data acquiring took reply =>
      rw [triedAt_acquiring _ acquiring, triedAt_exchanging _ took,
        (next_of_exchanging d took).2.1]
      exact weaken (numbers_subperm [c.holding] (taken acquiring took).2)
  | @again v c e vs w acquiring took reply rest ih =>
      have before := (next_of_acquiring d acquiring).2.1
      rcases next_of_exchanging d took with ⟨-, pool, number, -⟩
      have taken_one := numbers_subperm [c.holding] (taken acquiring took).2
      rw [pool, number, before] at ih
      rw [triedAt_acquiring _ acquiring, triedAt_exchanging _ took]
      show (c.id :: ((triedAt vs).map Connection.id ++ w.shared.pool.numbers)).Subperm _
      have both := (List.subperm_cons c.id).mpr ih
      exact both.trans ((List.subperm_append_right _).mpr taken_one)
  | @refused v e acquiring missing outcome =>
      rw [triedAt_acquiring _ acquiring, triedAt_connecting _ missing,
        (next_of_connecting d missing).2.1]
      exact weaken (numbers_subperm [] (missed acquiring missing).2)
  | @opened v c acquiring missing took =>
      have before := (next_of_acquiring d acquiring).2.1
      rcases next_of_connecting d missing with ⟨-, pool, ⟨stream, c', -, took', number⟩ |
        ⟨e, -, stage⟩⟩
      · cases took.symm.trans took'
        have left := numbers_subperm [] (missed acquiring missing).2
        rw [triedAt_acquiring _ acquiring, triedAt_connecting _ missing, triedAt_exchanging _ took,
          (next_of_exchanging d took).2.1, pool]
        show (c.id :: (v.next d).shared.pool.numbers).Subperm _
        rw [number, before]
        exact ((List.subperm_cons _).mpr left).trans (List.perm_append_singleton ..).symm.subperm
      · cases took.symm.trans stage

end Rounds

/-! ## The whole course -/

namespace Visit

/-- How an exchange gets to a reply over streams. -/
structure Conducted (d : Dispatcher) (v : Visit) : Prop where
  /-- The rest of the exchange goes on from there. -/
  run : v.task.run d v.now v.shared =
    (v.arrival d).task.run d (v.arrival d).now (v.arrival d).shared
  /-- It is still for the same request. -/
  request : (v.arrival d).task.request = v.task.request
  /-- At each stop the message is the same. -/
  message : ∀ u ∈ v.course d, u.task.message = v.task.message
  /-- Only at these stops something goes out, over one connection or to ask for one. -/
  traffic : (v.arrival d).shared.journal.traffic =
    v.shared.journal.traffic ++ (v.course d).flatMap fun u => u.task.sends d
  /-- There are not more tries than there were idle connections, and one. -/
  tries : (v.tried d).length + (v.arrival d).stack.length ≤ v.stack.length + 1
  /-- A connection is asked for at most once, when there is no idle one left. -/
  connects : (v.course d).countP Visit.connects ≤ 1
  connects_empty : ∀ u ∈ v.course d, u.task.stage = .connecting → u.stack = []
  /-- It ends with a response, or with the failure of a new connection and an empty stack. -/
  ending : Ending d (v.course d) (v.arrival d)
  /-- Every connection that was tried before the last one is closed. -/
  closes : ∀ u ∈ (v.course d).dropLast, ∀ c fresh, u.task.stage = .exchanging c fresh →
    u.Closes d c
  /-- What was tried and what is left in the pool are different connections, of those that were
  there and the new one. -/
  once : ((v.tried d).map Connection.id ++ (v.arrival d).shared.pool.numbers).Subperm
    (v.shared.pool.numbers ++ [v.shared.nextConnection])
  distinct : v.shared.pool.numbers.Nodup →
    (∀ id ∈ v.shared.pool.numbers, id < v.shared.nextConnection) →
    ((v.tried d).map Connection.id ++ (v.arrival d).shared.pool.numbers).Nodup
  /-- The idle connections to other servers stay where they are. -/
  others : ∀ other, other ≠ v.task.request.server →
    (v.arrival d).shared.pool.stack other = v.shared.pool.stack other

theorem nodup_of_subperm_concat {ns ids : List Nat} {n : Nat} (h : ns.Subperm (ids ++ [n]))
    (once : ids.Nodup) (below : ∀ id ∈ ids, id < n) : ns.Nodup := by
  have all : (ids ++ [n]).Nodup := by
    refine List.nodup_append.mpr ⟨once, List.nodup_singleton n, ?_⟩
    intro a ha b hb
    rw [List.mem_singleton.mp hb]
    exact Nat.ne_of_lt (below a ha)
  rcases h with ⟨same, perm, sub⟩
  exact perm.nodup_iff.mp (all.sublist sub)

/-- **Connections are tried one after the other, and not for ever.** Whatever is in the pool and
however connections behave, if nobody else uses the pool: an exchange that looks for a connection
gets to a reply after at most one more try than there were idle connections to its server, all
with the same message. It asks for a new connection at most once, and only when there is no idle one
left. It ends with an error only if no new connection was to be had or the new one failed, and then
there is none to this server in the pool. If it ends with a response, the connection that brought it
is no longer in the pool. All that were tried before are closed, and the idle connections to other
servers are where they were. -/
theorem conducted (d : Dispatcher) (v : Visit) (acquiring : v.task.stage = .acquiring) :
    v.Conducted d := by
  have rounds : Rounds d v (v.course d) (v.arrival d) := rounds_course acquiring
  rcases rounds.follows with ⟨follows, each⟩
  exact {
    run := v.run_arrival d
    request := follows.request
    message := fun u hu => (each u hu).message
    traffic := traffic_arrival
    tries := rounds.bound
    connects := rounds.connects.1
    connects_empty := rounds.connects.2
    ending := rounds.ending
    closes := rounds.closes
    once := rounds.once
    distinct := nodup_of_subperm_concat rounds.once
    others := follows.others }

/-- A query over a stream, with two servers that have an idle connection each. The one to its server
has been closed by the peer, and a new one would bring a response. -/
def staleVisit (d : Dispatcher) : Visit where
  now := 0
  shared := { Dispatcher.idleShared with
    nextConnection := 2
    pool := {
      config := d.config.pool
      hosts := [(.of (.unspecified .v4) 53, [⟨{ id := 0, stream := {}, tls := false }, 0⟩]),
        (.of (.unspecified .v4) 54, [⟨{ id := 1, stream := {}, tls := false }, 0⟩])]
      total := 2 } }
  task := (d.begin 0 Dispatcher.idleShared { Dispatcher.rootRequest with tcp := true }
    { connects := [⟨0, .ok { arrivals := [.data #[0, 1, 7]] }⟩] }).2

/-- There are two tries at most, and the other server keeps its connection. -/
theorem conducted_stale :
    let v := staleVisit {}
    v.task.stage = .acquiring ∧ v.stack.length = 1 ∧ (v.tried {}).length ≤ 2 ∧
      (v.course {}).countP Visit.connects ≤ 1 ∧
      ((v.tried {}).map Connection.id ++ (v.arrival {}).shared.pool.numbers).Nodup ∧
      (v.arrival {}).shared.pool.stack (.of (.unspecified .v4) 54) =
        [⟨{ id := 1, stream := {}, tls := false }, 0⟩] := by
  intro v
  have h : v.Conducted {} := conducted {} (staleVisit {}) rfl
  have one : v.stack.length = 1 := rfl
  have tries := h.tries
  rw [one] at tries
  exact ⟨rfl, one, by omega, h.connects, h.distinct (by decide) (by decide),
    h.others _ (by decide)⟩

end Visit

end Querier
