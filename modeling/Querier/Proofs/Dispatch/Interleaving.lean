import Querier.Proofs.Dispatch.Verdict
import Querier.Proofs.Journal

/-!
# An exchange among others

Others may do what they like between two steps of an exchange. What an exchange does itself is
then what its own steps add to the journal, each to the journal as it finds it.

A `Moment` is when a step is taken and what is shared at that time. `Task.after` and `Task.deeds`
say what becomes of an exchange that takes its steps at given moments, and what it does. A run
with nothing else going on is one way to choose the moments.

## Main results

* `Task.journal_step_of_awaitsReply`: what a step adds to the journal before there is a reply.
* `Task.extends_step`: a step adds to the journal and takes nothing away.
* `Task.exists_moments_run`: a run as steps at moments.
* `Dispatcher.begin_snd`, `Dispatcher.begin_fst`: how an exchange begins.
-/

namespace Querier

/-- When a step is taken, and what is shared then. -/
structure Moment where
  now : Time
  shared : Shared

/-! ## Steps add to the journal -/

section

variable (d : Dispatcher) (t : Task) (s : Shared) (now : Time)

theorem Shared.extends_release (server : SocketAddress) (c : Connection) :
    s.journal.Extends (s.release now server c).journal :=
  s.journal.extends_log _

theorem Shared.extends_deliver (sinks : List Sink) (e : TelemetryEvent) :
    s.journal.Extends (s.deliver sinks e).journal :=
  s.journal.extends_deliver e 0 sinks

/-- Drawing how long a response is held back leaves no trace. -/
theorem Dispatcher.journal_jitter (elapsed : Duration) :
    (d.jitter s elapsed).2.journal = s.journal := by
  unfold jitter
  cases d.jitterBound elapsed <;> rfl

namespace Task

theorem extends_record (elapsed : Duration) (bytes : Nat) (v : Validation) :
    s.journal.Extends (t.record d s elapsed bytes v).journal := by
  have logged : s.journal.Extends (s.log v.notes).journal := s.journal.extends_log v.notes
  simp only [record]
  cases v.undecodable <;> cases v.report
  · exact logged
  · exact logged.trans (Shared.extends_deliver ..)
  · exact logged
  · exact logged.trans (Shared.extends_deliver ..)

theorem extends_settle (good : Bool) (c : Option Connection) :
    s.journal.Extends (t.settle now s good c).journal := by
  cases c with
  | none => exact .refl _
  | some c =>
      cases good with
      | true => exact s.extends_release now t.request.server c
      | false => exact s.journal.extends_log _

theorem extends_conclude (elapsed : Duration) (data : Octets) (chained : Bool)
    (c : Option Connection) :
    s.journal.Extends (t.conclude d now s elapsed data chained c).1.journal :=
  (t.extends_record d s ..).trans (t.extends_settle _ now ..)

theorem extends_stepAnswered (reply : Except TransportError Octets) (chained : Bool)
    (c : Option Connection) :
    s.journal.Extends (t.stepAnswered d now s reply chained c).1.journal := by
  unfold stepAnswered
  cases reply with
  | error e =>
      exact (s.journal.extends_log [_]).trans (Shared.extends_deliver ..)
  | ok data =>
      by_cases h : chained = true
      · simp only [if_pos h]
        rw [d.journal_jitter s]
        exact .refl _
      · simp only [if_neg h]
        exact t.extends_conclude d s now ..

/-- What goes out to the network in the next step. -/
def sends (d : Dispatcher) (t : Task) : List Entry :=
  match t.stage with
  | .sending => [.datagram t.request.matchKey t.exchange.id t.message]
  | .connecting => [.connect {
      server := t.request.server
      tls := t.tls
      serverName := t.request.nsName
      timeout := d.config.networkTimeout }]
  | .exchanging c _ =>
    let x := c.stream.exchange t.message d.config.networkTimeout
    [.wrote c.id x.stream.label x.sent]
  | _ => []

theorem isTraffic_sends : ∀ e ∈ t.sends d, e.isTraffic = true := by
  unfold sends
  cases t.stage <;> simp [Entry.isTraffic]

/-- Until there is a reply, a step lets something go out or not, and then logs or not. The
exchange stays what it is. -/
theorem journal_step_of_awaitsReply (awaits : t.stage.awaitsReply = true) :
    (∃ events, (t.step d now s).1.journal =
        (s.journal ++ ⟨(t.sends d).toArray⟩ : Journal).log events) ∧
      (t.step d now s).2.1.exchange = t.exchange := by
  have nothing : s.journal ++ ⟨#[]⟩ = s.journal := s.journal.append_empty
  have noted (e : Entry) : (s.note e).journal = s.journal ++ ⟨#[e]⟩ := s.journal.push_eq_append e
  unfold step sends
  cases hstage : t.stage with
  | sending =>
      simp only [stepSending, ← noted]
      cases t.network.datagram with
      | refused e => exact ⟨⟨[t.failureNote "sending query failed" e], rfl⟩, rfl⟩
      | _ => exact ⟨⟨[], rfl⟩, rfl⟩
  | waiting plan => exact ⟨⟨[], nothing.symm⟩, rfl⟩
  | acquiring =>
      simp only [stepAcquiring, nothing]
      cases (s.acquire now t.request.server t.tls).1 <;> exact ⟨⟨_, rfl⟩, rfl⟩
  | connecting =>
      simp only [stepConnecting, ← noted]
      cases (t.network.connects.head?.getD _).outcome <;> exact ⟨⟨[], rfl⟩, rfl⟩
  | exchanging c fresh =>
      simp only [stepExchanging, ← noted]
      cases (c.stream.exchange t.message d.config.networkTimeout).reply with
      | ok data => exact ⟨⟨[], rfl⟩, rfl⟩
      | error e =>
          cases fresh with
          | true => exact ⟨⟨[Connection.discardNote _], rfl⟩, rfl⟩
          | false => exact ⟨⟨[Connection.discardNote _, t.retryNote e], rfl⟩, rfl⟩
  | answered reply chained c =>
      rw [hstage] at awaits
      cases awaits
  | spreading data elapsed =>
      rw [hstage] at awaits
      cases awaits
  | finished r =>
      rw [hstage] at awaits
      cases awaits

theorem extends_step : s.journal.Extends (t.step d now s).1.journal := by
  by_cases awaits : t.stage.awaitsReply = true
  · rcases (t.journal_step_of_awaitsReply d s now awaits).1 with ⟨events, journal⟩
    have sent : s.journal.Extends (s.journal ++ ⟨(t.sends d).toArray⟩) := ⟨_, rfl⟩
    rw [journal]
    exact sent.trans (Journal.extends_log ..)
  · unfold step
    cases hstage : t.stage with
    | answered reply chained c => exact t.extends_stepAnswered d s now reply chained c
    | spreading data elapsed => exact t.extends_conclude d s now elapsed data true none
    | finished r => exact .refl _
    | _ => exact absurd (by rw [hstage]; rfl) awaits

end Task

end

/-! ## Many steps -/

namespace Task

/-- The exchange after steps at these moments. -/
def after (d : Dispatcher) (t : Task) : List Moment → Task
  | [] => t
  | m :: ms => (t.step d m.now m.shared).2.1.after d ms

/-- What a step adds to the journal. -/
def deed (d : Dispatcher) (t : Task) (m : Moment) : Journal :=
  (t.step d m.now m.shared).1.journal.since m.shared.journal.size

/-- What steps at these moments add to the journal. -/
def deeds (d : Dispatcher) (t : Task) : List Moment → Journal
  | [] => {}
  | m :: ms => t.deed d m ++ (t.step d m.now m.shared).2.1.deeds d ms

/-- What the transport came up with, if the exchange got to hear of it in steps at these
moments. -/
def outcome? (d : Dispatcher) (t : Task) : List Moment → Option (Except TransportError Octets)
  | [] => none
  | m :: ms =>
    match t.stage with
    | .answered reply _ _ => some reply
    | _ => (t.step d m.now m.shared).2.1.outcome? d ms

theorem result?_of_awaitsReply {t : Task} (awaits : t.stage.awaitsReply = true) :
    t.result? = none := by
  unfold result?
  cases hstage : t.stage with
  | finished res =>
      rw [hstage] at awaits
      cases awaits
  | _ => rfl

theorem journal_step (d : Dispatcher) (t : Task) (m : Moment) :
    (t.step d m.now m.shared).1.journal = m.shared.journal ++ t.deed d m :=
  (t.extends_step d m.shared m.now).eq_append_since

/-- A run takes steps at moments of its own choice. -/
theorem exists_moments_run (d : Dispatcher) (t : Task) (now : Time) (s : Shared) :
    ∃ ms, (t.after d ms).result? = some (t.run d now s).resolution ∧
      (t.run d now s).shared.journal = s.journal ++ t.deeds d ms := by
  induction t, now, s using Task.run.induct d with
  | case1 t now s r h =>
      rw [run_finished h]
      exact ⟨[], h, s.journal.append_empty.symm⟩
  | case2 t now s h next ih =>
      rcases ih with ⟨ms, result, journal⟩
      refine ⟨⟨now, s⟩ :: ms, ?_, ?_⟩
      · rw [run_step h]
        exact result
      · rw [run_step h]
        rw [journal, t.journal_step d ⟨now, s⟩, Journal.append_assoc]
        rfl

end Task

/-! ## Beginnings -/

namespace Dispatcher

variable (d : Dispatcher) (now : Time) (s : Shared) (r : Request) (n : Network)

/-- The dispatcher with other sinks. -/
def withSinks (sinks : List Sink) : Dispatcher := { d with sinks }

/-- The report of a query that goes out. -/
def queryReport (t : Task) : OutgoingQuery :=
  { t.exchange with bytes := t.message.size, subnet := t.request.sentSubnet }

/-- What is shared when an exchange has its identifier and it is known whether it uses TLS. -/
def decided (s : Shared) (r : Request) : Shared :=
  (d.useTls r { s with random := s.random.nextId.2 }).2

/-- What is shared when the query of an exchange is reported. -/
def prepared (s : Shared) (r : Request) : Shared := (d.messageId (d.decided s r)).2

/-- An exchange that begins with these identifiers. -/
def newTask (id : UInt16) (tls : Bool) (messageId : MessageId) : Task where
  request := r
  exchange := {
    messageId
    initialRequestId := r.initialRequestId
    protocol := protocol tls r
    server := r.server
    id
    qname := r.qname
    qtype := r.qtype
    nsName := r.nsName }
  tls
  message := d.config.buildQuery r id tls
  started := now
  network := n
  stage := if r.tcp then .acquiring else .sending

theorem begin_snd : (d.begin now s r n).2 = d.newTask now r n s.random.nextId.1
    (d.useTls r { s with random := s.random.nextId.2 }).1 (d.messageId (d.decided s r)).1 := rfl

theorem begin_fst : (d.begin now s r n).1 =
    (d.prepared s r).deliver d.sinks (.query (queryReport (d.begin now s r n).2)) := rfl

end Dispatcher

end Querier
