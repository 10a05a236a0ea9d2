import Mathlib.Data.List.Forall2
import Querier.Proofs.Dispatch.Interleaving

/-!
# Telemetry makes no difference

Sinks are called in the middle of an exchange, fail as they like, and the identifier that their
events carry is drawn from the source that also gives the identifiers of queries. None of this
shows in what an exchange leads to.

Two dispatchers that differ in their sinks only are compared step by step. Their exchanges are the
same but for the identifier in their events, and what they share is the same but for what was
logged and handed to sinks. Where the number of draws is the same too, so are all later ones; where
there are no sinks at all, the only number that could come out different is how long a shared
response is held back, and that is not part of a result.

## Main results

* `Task.alike_step`: a step keeps the two exchanges alike.
* `Task.alike_run`: so do all steps together.
* `Dispatcher.sinks_make_no_difference`: the same for any sequence of exchanges.
-/

namespace Querier

/-! ## What is alike -/

namespace Shared

/-- The same but for what was logged and handed to sinks, and for the random source. -/
structure Alike (s s' : Shared) : Prop where
  pool : s.pool = s'.pool
  parseErrors : s.parseErrors = s'.parseErrors
  dotUnavailable : s.dotUnavailable = s'.dotUnavailable
  nextConnection : s.nextConnection = s'.nextConnection
  traffic : s.journal.traffic = s'.journal.traffic

variable {s s' : Shared}

namespace Alike

theorem refl (s : Shared) : s.Alike s := ⟨rfl, rfl, rfl, rfl, rfl⟩

theorem random (h : s.Alike s') (ρ ρ' : Randomness) :
    { s with random := ρ }.Alike { s' with random := ρ' } :=
  ⟨h.pool, h.parseErrors, h.dotUnavailable, h.nextConnection, h.traffic⟩

/-- Nothing that is logged matters. -/
theorem log (h : s.Alike s') (events events' : List LogEvent) :
    (s.log events).Alike (s'.log events') where
  pool := h.pool
  parseErrors := h.parseErrors
  dotUnavailable := h.dotUnavailable
  nextConnection := h.nextConnection
  traffic := by
    show (s.journal.log events).traffic = (s'.journal.log events').traffic
    rw [Journal.traffic_log, Journal.traffic_log, h.traffic]

/-- Nor does any event, or to whom it is handed. -/
theorem deliver (h : s.Alike s') (sinks sinks' : List Sink) (e e' : TelemetryEvent) :
    (s.deliver sinks e).Alike (s'.deliver sinks' e') where
  pool := h.pool
  parseErrors := h.parseErrors
  dotUnavailable := h.dotUnavailable
  nextConnection := h.nextConnection
  traffic := by
    show (s.journal.deliver e 0 sinks).traffic = (s'.journal.deliver e' 0 sinks').traffic
    rw [Journal.traffic_deliver, Journal.traffic_deliver, h.traffic]

theorem note (h : s.Alike s') (e : Entry) : (s.note e).Alike (s'.note e) where
  pool := h.pool
  parseErrors := h.parseErrors
  dotUnavailable := h.dotUnavailable
  nextConnection := h.nextConnection
  traffic := by
    show (s.journal.push e).traffic = (s'.journal.push e).traffic
    rw [Journal.traffic_push, Journal.traffic_push, h.traffic]

theorem acquire (h : s.Alike s') (now : Time) (server : SocketAddress) (tls : Bool) :
    (s.acquire now server tls).1 = (s'.acquire now server tls).1 ∧
      (s.acquire now server tls).2.Alike (s'.acquire now server tls).2 := by
  rw [Shared.acquire, Shared.acquire, h.pool]
  have taken : { s with pool := (s'.pool.acquire now server tls).pool }.Alike
      { s' with pool := (s'.pool.acquire now server tls).pool } :=
    ⟨rfl, h.parseErrors, h.dotUnavailable, h.nextConnection, h.traffic⟩
  exact ⟨rfl, taken.log _ _⟩

theorem release (h : s.Alike s') (now : Time) (server : SocketAddress) (c : Connection) :
    (s.release now server c).Alike (s'.release now server c) := by
  rw [Shared.release, Shared.release, h.pool]
  have given : { s with pool := (s'.pool.release now server c).1 }.Alike
      { s' with pool := (s'.pool.release now server c).1 } :=
    ⟨rfl, h.parseErrors, h.dotUnavailable, h.nextConnection, h.traffic⟩
  exact given.log _ _

theorem openConnection (h : s.Alike s') (stream : Stream) (tls : Bool) :
    (s.openConnection stream tls).1 = (s'.openConnection stream tls).1 ∧
      (s.openConnection stream tls).2.Alike (s'.openConnection stream tls).2 := by
  rw [Shared.openConnection, Shared.openConnection, h.nextConnection]
  exact ⟨rfl, h.pool, h.parseErrors, h.dotUnavailable, rfl, h.traffic⟩

end Alike

end Shared

/-- Two results are the same but for what was logged and handed to sinks: the resolution, the time,
the pool, the counters, the random source, and everything that went out to the network. -/
structure Resolved.Alike (x x' : Resolved) : Prop where
  resolution : x.resolution = x'.resolution
  finish : x.finish = x'.finish
  shared : x.shared.Alike x'.shared
  random : x.shared.random = x'.shared.random

/-- The exchange with another identifier in its events. -/
def Task.withId (t : Task) (id : MessageId) : Task :=
  { t with exchange := { t.exchange with messageId := id } }

/-! ## Parts of a step -/

section

variable {s s' : Shared} (h : s.Alike s') (d : Dispatcher) (sinks : List Sink) (t : Task)
  (id : MessageId) (now : Time)

include h

namespace Task

theorem alike_settle (good : Bool) (c : Option Connection) :
    (t.settle now s good c).Alike ((t.withId id).settle now s' good c) := by
  cases c with
  | none => exact h
  | some c =>
      cases good with
      | true => exact h.release now t.request.server c
      | false => exact h.log _ _

theorem alike_record (elapsed : Duration) (bytes : Nat) (v : Validation) :
    (t.record d s elapsed bytes v).Alike
      ((t.withId id).record (d.withSinks sinks) s' elapsed bytes v) := by
  have logged := h.log v.notes v.notes
  have counted : { s.log v.notes with parseErrors := (s.log v.notes).parseErrors + 1 }.Alike
      { s'.log v.notes with parseErrors := (s'.log v.notes).parseErrors + 1 } :=
    ⟨logged.pool, congrArg (· + 1) logged.parseErrors, logged.dotUnavailable,
      logged.nextConnection, logged.traffic⟩
  simp only [record]
  cases v.undecodable <;> cases v.report
  · exact logged
  · exact logged.deliver ..
  · exact counted
  · exact counted.deliver ..

theorem alike_conclude (elapsed : Duration) (data : Octets) (chained : Bool)
    (c : Option Connection) :
    (t.conclude d now s elapsed data chained c).1.Alike
        ((t.withId id).conclude (d.withSinks sinks) now s' elapsed data chained c).1 ∧
      ((t.withId id).conclude (d.withSinks sinks) now s' elapsed data chained c).2 =
        (t.conclude d now s elapsed data chained c).2.withId id :=
  ⟨alike_settle (alike_record h d sinks t id ..) t id now .., rfl⟩

end Task

/-- How long a shared response is held back is all that a different source changes. -/
theorem Dispatcher.alike_jitter (elapsed : Duration) :
    (d.jitter s elapsed).2.Alike ((d.withSinks sinks).jitter s' elapsed).2 ∧
      (s.random = s'.random →
        (d.jitter s elapsed).1 = ((d.withSinks sinks).jitter s' elapsed).1 ∧
        (d.jitter s elapsed).2.random = ((d.withSinks sinks).jitter s' elapsed).2.random) := by
  have bound : (d.withSinks sinks).jitterBound elapsed = d.jitterBound elapsed := rfl
  rw [jitter, jitter, bound]
  cases d.jitterBound elapsed with
  | none => exact ⟨h, fun same => ⟨rfl, same⟩⟩
  | some bound =>
      refine ⟨h.random _ _, ?_⟩
      intro same
      simp only [same, and_self]

end

/-! ## One step -/

namespace Task

/-- Two steps leave alike exchanges. They go on at the same time, unless a response begins to be
held back, and in any case if the source was the same; then it still is. -/
structure Lockstep (same : Prop) (id : MessageId) (x x' : Shared × Task × Duration) : Prop where
  shared : x.1.Alike x'.1
  task : x'.2.1 = x.2.1.withId id
  wait : x'.2.2 = x.2.2 ∨ ∃ data elapsed, x.2.1.stage = .spreading data elapsed
  random : same → x'.2.2 = x.2.2 ∧ x.1.random = x'.1.random

/-- A step that draws nothing. -/
theorem lockstep_of_alike {s s' : Shared} {id : MessageId} {x x' : Shared × Task × Duration}
    (shared : x.1.Alike x'.1) (task : x'.2.1 = x.2.1.withId id) (wait : x'.2.2 = x.2.2)
    (undrawn : x.1.random = s.random) (undrawn' : x'.1.random = s'.random) :
    Lockstep (s.random = s'.random) id x x' where
  shared := shared
  task := task
  wait := .inl wait
  random same := ⟨wait, undrawn.trans (same.trans undrawn'.symm)⟩

theorem random_settle (t : Task) (now : Time) (s : Shared) (good : Bool) (c : Option Connection) :
    (t.settle now s good c).random = s.random := by
  cases c with
  | none => rfl
  | some c => cases good <;> rfl

theorem random_record (t : Task) (d : Dispatcher) (s : Shared) (elapsed : Duration) (bytes : Nat)
    (v : Validation) : (t.record d s elapsed bytes v).random = s.random := by
  simp only [record]
  cases v.undecodable <;> cases v.report <;> rfl

theorem random_conclude (t : Task) (d : Dispatcher) (now : Time) (s : Shared) (elapsed : Duration)
    (data : Octets) (chained : Bool) (c : Option Connection) :
    (t.conclude d now s elapsed data chained c).1.random = s.random :=
  (random_settle ..).trans (random_record ..)

/-- The octets for identifiers of events are all drawn at the beginning. -/
theorem octetsUsed_step (t : Task) (d : Dispatcher) (now : Time) (s : Shared) :
    (t.step d now s).1.random.octetsUsed = s.random.octetsUsed := by
  have undrawn {x : Shared} (h : x.random = s.random) : x.random.octetsUsed = s.random.octetsUsed :=
    congrArg (·.octetsUsed) h
  unfold step
  cases t.stage with
  | sending =>
      simp only [stepSending]
      cases t.network.datagram <;> rfl
  | waiting plan => rfl
  | acquiring =>
      simp only [stepAcquiring]
      cases (s.acquire now t.request.server t.tls).1 <;> rfl
  | connecting =>
      simp only [stepConnecting]
      cases (t.network.connects.head?.getD _).outcome <;> rfl
  | exchanging c fresh =>
      simp only [stepExchanging]
      cases (c.stream.exchange t.message d.config.networkTimeout).reply with
      | ok data => rfl
      | error e => cases fresh <;> rfl
  | answered reply chained c =>
      cases reply with
      | error e => rfl
      | ok data =>
          cases chained with
          | false => exact undrawn (random_conclude ..)
          | true =>
              show (d.jitter s (now - t.started)).2.random.octetsUsed = _
              unfold Dispatcher.jitter
              cases d.jitterBound (now - t.started) <;> rfl
  | spreading data elapsed => exact undrawn (random_conclude ..)
  | finished r => rfl

theorem octetsUsed_run (t : Task) (d : Dispatcher) (now : Time) (s : Shared) :
    (t.run d now s).shared.random.octetsUsed = s.random.octetsUsed := by
  induction t, now, s using Task.run.induct d with
  | case1 t now s r hresult => rw [run_finished hresult]
  | case2 t now s unfinished next ih =>
      rw [run_step unfinished]
      exact ih.trans (octetsUsed_step ..)

variable {s s' : Shared} (h : s.Alike s') (d : Dispatcher) (sinks : List Sink) (t : Task)
  (id : MessageId) (now : Time)

include h

theorem lockstep_sending :
    Lockstep (s.random = s'.random) id (t.stepSending s) ((t.withId id).stepSending s') := by
  have noted := h.note (.datagram t.request.matchKey t.exchange.id t.message)
  simp only [stepSending, withId]
  cases t.network.datagram with
  | refused e => exact lockstep_of_alike (noted.log _ _) rfl rfl rfl rfl
  | _ => exact lockstep_of_alike noted rfl rfl rfl rfl

theorem lockstep_acquiring :
    Lockstep (s.random = s'.random) id (t.stepAcquiring now s)
      ((t.withId id).stepAcquiring now s') := by
  rcases h.acquire now t.request.server t.tls with ⟨same, taken⟩
  simp only [stepAcquiring, withId, ← same]
  cases (s.acquire now t.request.server t.tls).1 <;>
    exact lockstep_of_alike taken rfl rfl rfl rfl

theorem lockstep_connecting :
    Lockstep (s.random = s'.random) id (t.stepConnecting d s)
      ((t.withId id).stepConnecting (d.withSinks sinks) s') := by
  have noted := h.note
    (.connect ⟨t.request.server, t.tls, t.request.nsName, d.config.networkTimeout⟩)
  simp only [stepConnecting, withId, Dispatcher.withSinks]
  cases (t.network.connects.head?.getD _).outcome with
  | error e => exact lockstep_of_alike noted rfl rfl rfl rfl
  | ok stream =>
      rcases noted.openConnection stream t.tls with ⟨same, opened⟩
      simp only [← same]
      exact lockstep_of_alike opened rfl rfl rfl rfl

theorem lockstep_exchanging (c : Connection) (fresh : Bool) :
    Lockstep (s.random = s'.random) id (t.stepExchanging d s c fresh)
      ((t.withId id).stepExchanging (d.withSinks sinks) s' c fresh) := by
  have wrote := h.note (.wrote c.id
    (c.stream.exchange t.message d.config.networkTimeout).stream.label
    (c.stream.exchange t.message d.config.networkTimeout).sent)
  simp only [stepExchanging, withId, Dispatcher.withSinks]
  cases (c.stream.exchange t.message d.config.networkTimeout).reply with
  | ok data => exact lockstep_of_alike wrote rfl rfl rfl rfl
  | error e =>
      cases fresh with
      | true => exact lockstep_of_alike (wrote.log _ _) rfl rfl rfl rfl
      | false => exact lockstep_of_alike ((wrote.log _ _).log _ _) rfl rfl rfl rfl

theorem lockstep_answered (reply : Except TransportError Octets) (chained : Bool)
    (c : Option Connection) :
    Lockstep (s.random = s'.random) id (t.stepAnswered d now s reply chained c)
      ((t.withId id).stepAnswered (d.withSinks sinks) now s' reply chained c) := by
  cases reply with
  | error e => exact lockstep_of_alike ((h.log _ _).deliver ..) rfl rfl rfl rfl
  | ok data =>
      cases chained with
      | false =>
          rcases alike_conclude h d sinks t id now (now - t.started) data false c with
            ⟨shared, task⟩
          exact lockstep_of_alike shared task rfl (random_conclude ..) (random_conclude ..)
      | true =>
          rcases Dispatcher.alike_jitter h d sinks (now - t.started) with ⟨shared, drawn⟩
          refine ⟨shared, rfl, .inr ⟨data, now - t.started, rfl⟩, ?_⟩
          intro same
          rcases drawn same with ⟨wait, random⟩
          exact ⟨wait.symm, random⟩

/-- A step keeps exchanges alike. -/
theorem lockstep_step : Lockstep (s.random = s'.random) id (t.step d now s)
    ((t.withId id).step (d.withSinks sinks) now s') := by
  have stage : (t.withId id).stage = t.stage := rfl
  unfold step
  rw [stage]
  cases t.stage with
  | sending => exact lockstep_sending h t id
  | waiting plan => exact lockstep_of_alike h rfl rfl rfl rfl
  | acquiring => exact lockstep_acquiring h t id now
  | connecting => exact lockstep_connecting h d sinks t id
  | exchanging c fresh => exact lockstep_exchanging h d sinks t id c fresh
  | answered reply chained c => exact lockstep_answered h d sinks t id now reply chained c
  | spreading data elapsed =>
      rcases alike_conclude h d sinks t id now elapsed data true none with ⟨shared, task⟩
      exact lockstep_of_alike shared task rfl (random_conclude ..) (random_conclude ..)
  | finished r => exact lockstep_of_alike h rfl rfl rfl rfl

/-! ## Whole exchanges -/

/-- A shared response comes to the same however long it is held back. -/
theorem alike_run_spreading {data : Octets} {elapsed : Duration}
    (hstage : t.stage = .spreading data elapsed) (now' : Time) :
    (t.run d now s).resolution =
        ((t.withId id).run (d.withSinks sinks) now' s').resolution ∧
      (t.run d now s).shared.Alike ((t.withId id).run (d.withSinks sinks) now' s').shared := by
  have unfinished : t.result? = none := by rw [result?, hstage]
  have unfinished' : (t.withId id).result? = none := unfinished
  have hstage' : (t.withId id).stage = .spreading data elapsed := hstage
  have concluded : (t.step d now s).2.1.result? =
      some (validate d.config t.request (draft elapsed true) data).resolution := by
    rw [step, hstage]
    rfl
  have concluded' : ((t.withId id).step (d.withSinks sinks) now' s').2.1.result? =
      some (validate d.config t.request (draft elapsed true) data).resolution := by
    rw [step, hstage']
    rfl
  rw [run_step unfinished, run_finished concluded, run_step unfinished',
    run_finished concluded']
  refine ⟨rfl, ?_⟩
  show (t.step d now s).1.Alike ((t.withId id).step (d.withSinks sinks) now' s').1
  rw [step, hstage, step, hstage']
  -- there is no connection to give back, so it does not matter when this is
  exact (alike_conclude h d sinks t id now elapsed data true none).1

/-- Exchanges that are alike come to the same result and leave all alike. If the source is the same
for both, they end at the same time and leave the source the same. -/
theorem alike_run :
    (t.run d now s).resolution = ((t.withId id).run (d.withSinks sinks) now s').resolution ∧
      (t.run d now s).shared.Alike ((t.withId id).run (d.withSinks sinks) now s').shared ∧
      (s.random = s'.random →
        (t.run d now s).finish = ((t.withId id).run (d.withSinks sinks) now s').finish ∧
        (t.run d now s).shared.random =
          ((t.withId id).run (d.withSinks sinks) now s').shared.random) := by
  induction t, now, s using Task.run.induct d generalizing s' with
  | case1 t now s r hresult =>
      have hresult' : (t.withId id).result? = some r := hresult
      rw [run_finished hresult, run_finished hresult']
      exact ⟨rfl, h, fun same => ⟨rfl, same⟩⟩
  | case2 t now s unfinished next =>
      rename_i ih
      have unfinished' : (t.withId id).result? = none := unfinished
      have steps := lockstep_step h d sinks t id now
      rw [run_step unfinished, run_step unfinished', steps.task]
      by_cases wait : ((t.withId id).step (d.withSinks sinks) now s').2.2 = (t.step d now s).2.2
      · rw [wait]
        rcases ih steps.shared with ⟨result, left, later⟩
        refine ⟨result, left, ?_⟩
        intro same
        exact later (steps.random same).2
      · rcases steps.wait with same | ⟨data, elapsed, spreads⟩
        · exact absurd same wait
        · rcases alike_run_spreading steps.shared d sinks _ id _ spreads
            (now + ((t.withId id).step (d.withSinks sinks) now s').2.2) with ⟨result, left⟩
          refine ⟨result, left, ?_⟩
          intro same
          exact absurd (steps.random same).1 wait

end Task

namespace Dispatcher

variable {s s' : Shared} (d : Dispatcher) (sinks : List Sink) (now : Time) (r : Request)
  (n : Network)

theorem alike_useTls (h : s.Alike s') :
    (d.useTls r s).1 = ((d.withSinks sinks).useTls r s').1 ∧
      (d.useTls r s).2.Alike ((d.withSinks sinks).useTls r s').2 := by
  have wanted : (d.withSinks sinks).wantsTls r = d.wantsTls r := rfl
  have available : (d.withSinks sinks).tlsAvailable = d.tlsAvailable := rfl
  have counted : { s with dotUnavailable := s.dotUnavailable + 1 }.Alike
      { s' with dotUnavailable := s'.dotUnavailable + 1 } :=
    ⟨h.pool, h.parseErrors, congrArg (· + 1) h.dotUnavailable, h.nextConnection, h.traffic⟩
  rw [useTls, useTls, wanted, available]
  cases d.wantsTls r with
  | false => exact ⟨rfl, h⟩
  | true =>
      cases d.tlsAvailable with
      | true => exact ⟨rfl, h⟩
      | false => exact ⟨rfl, counted.log _ _⟩

/-- The identifier for events is drawn where there is a sink, and it is all that is drawn. -/
theorem messageId_snd (s : Shared) : (d.messageId s).2 =
    { s with random := if d.sinks.isEmpty then s.random else s.random.nextOctets.2 } := by
  unfold messageId
  cases d.sinks.isEmpty <;> rfl

theorem random_decided (s : Shared) : (d.decided s r).random = s.random.nextId.2 := by
  unfold decided useTls
  cases d.wantsTls r with
  | false => rfl
  | true => cases d.tlsAvailable <;> rfl

theorem random_begin : (d.begin now s r n).1.random =
    if d.sinks.isEmpty then s.random.nextId.2 else s.random.nextId.2.nextOctets.2 := by
  have delivered : (d.begin now s r n).1.random = (d.prepared s r).random := rfl
  rw [delivered, prepared, messageId_snd, random_decided]

/-- Exchanges begin alike, if the next identifier is the same. -/
theorem alike_begin (h : s.Alike s') (sameId : s.random.nextId.1 = s'.random.nextId.1) :
    (d.begin now s r n).1.Alike ((d.withSinks sinks).begin now s' r n).1 ∧
      ∃ id, ((d.withSinks sinks).begin now s' r n).2 = (d.begin now s r n).2.withId id := by
  rcases d.alike_useTls sinks r (h.random s.random.nextId.2 s'.random.nextId.2) with ⟨tls, left⟩
  refine ⟨?_, ((d.withSinks sinks).begin now s' r n).2.exchange.messageId, ?_⟩
  · rw [begin_fst, begin_fst, prepared, prepared, messageId_snd, messageId_snd]
    exact (left.random _ _).deliver ..
  · rw [begin_snd, begin_snd, ← tls, ← sameId]
    rfl

theorem isEmpty_eq_false {sinks : List Sink} (inhabited : sinks ≠ []) : sinks.isEmpty = false := by
  rw [List.isEmpty_eq_false_iff]
  exact inhabited

theorem octetsUsed_begin : (d.begin now s r n).1.random.octetsUsed =
    s.random.octetsUsed + if d.sinks.isEmpty then 0 else 16 := by
  rw [random_begin]
  cases d.sinks.isEmpty <;> rfl

theorem octetsUsed_resolve : (d.resolve now s r n).shared.random.octetsUsed =
    s.random.octetsUsed + if d.sinks.isEmpty then 0 else 16 :=
  (Task.octetsUsed_run (d.begin now s r n).2 d now (d.begin now s r n).1).trans
    (d.octetsUsed_begin now r n)

theorem alike_resolve (h : s.Alike s') (same : s.random = s'.random) (inhabited : d.sinks ≠ [])
    (inhabited' : sinks ≠ []) :
    (d.resolve now s r n).Alike ((d.withSinks sinks).resolve now s' r n) := by
  have sameId : s.random.nextId.1 = s'.random.nextId.1 := congrArg (·.nextId.1) same
  rcases d.alike_begin sinks now r n h sameId with ⟨left, id, task⟩
  have drawn : (d.begin now s r n).1.random =
      ((d.withSinks sinks).begin now s' r n).1.random := by
    have empty : (d.withSinks sinks).sinks.isEmpty = false := isEmpty_eq_false inhabited'
    rw [random_begin, random_begin, isEmpty_eq_false inhabited, empty, same]
  rcases Task.alike_run left d sinks (d.begin now s r n).2 id now with ⟨result, shared, rest⟩
  rw [← task] at result shared rest
  exact ⟨result, (rest drawn).1, shared, (rest drawn).2⟩

/-! ## Sequences of exchanges -/

/-- An exchange that is asked for some time after the last one, and what the network will do. -/
structure Errand where
  pause : Duration
  request : Request
  network : Network

/-- Performs one exchange after the other. In between the source may come to depend in any way on
what was drawn from it. -/
def resolveAll (d : Dispatcher) (renew : Randomness → Randomness) (now : Time) (s : Shared) :
    List Errand → List Resolved
  | [] => []
  | e :: rest =>
    let x := d.resolve (now + e.pause) { s with random := renew s.random } e.request e.network
    x :: d.resolveAll renew x.finish x.shared rest

theorem alike_resolveAll (renew : Randomness → Randomness) (h : s.Alike s')
    (same : s.random = s'.random) (inhabited : d.sinks ≠ []) (inhabited' : sinks ≠ [])
    (errands : List Errand) : List.Forall₂ Resolved.Alike (d.resolveAll renew now s errands)
      ((d.withSinks sinks).resolveAll renew now s' errands) := by
  induction errands generalizing now s s' with
  | nil => exact .nil
  | cons e rest ih =>
      have first := alike_resolve d sinks (now + e.pause) e.request e.network
        (h.random (renew s.random) (renew s'.random)) (congrArg renew same)
        inhabited inhabited'
      rw [resolveAll, resolveAll]
      refine .cons first ?_
      rw [← first.finish]
      exact ih _ first.shared first.random

/-- **Telemetry makes no difference.** Let a dispatcher perform any sequence of exchanges, whatever
they ask for and however the network behaves, and have any sinks but at least one. With any other
sinks in their place, at least one, of which each wants what it likes and fails when it likes, every
exchange leads to the same resolution at the same time, sends the same octets over the same
connections, and leaves the pool, the counters and the random source the same. A single exchange
leads to the same resolution and sends the same octets even if there is no sink at all, as long as
it draws the same identifier; then no octets are drawn for its events, and else sixteen are. -/
theorem sinks_make_no_difference (d : Dispatcher) (now : Time) (s : Shared) :
    (∀ sinks renew errands, d.sinks ≠ [] → sinks ≠ [] →
      List.Forall₂ Resolved.Alike (d.resolveAll renew now s errands)
        ((d.withSinks sinks).resolveAll renew now s errands)) ∧
    ∀ r n ρ, ρ.nextId.1 = s.random.nextId.1 →
      let x := d.resolve now s r n
      let quiet := (d.withSinks []).resolve now { s with random := ρ } r n
      x.resolution = quiet.resolution ∧ x.shared.Alike quiet.shared ∧
        quiet.shared.random.octetsUsed = ρ.octetsUsed ∧
        (d.sinks ≠ [] → x.shared.random.octetsUsed = s.random.octetsUsed + 16) := by
  constructor
  · intro sinks renew errands inhabited inhabited'
    exact alike_resolveAll d sinks now renew (.refl s) rfl inhabited inhabited' errands
  · intro r n ρ sameId x quiet
    have h : s.Alike { s with random := ρ } := (Shared.Alike.refl s).random s.random ρ
    rcases d.alike_begin [] now r n h sameId.symm with ⟨left, id, task⟩
    rcases Task.alike_run left d [] (d.begin now s r n).2 id now with ⟨result, shared, -⟩
    rw [← task] at result shared
    refine ⟨result, shared, ?_, ?_⟩
    · exact (d.withSinks []).octetsUsed_resolve now r n
    · intro inhabited
      have drawn := d.octetsUsed_resolve now r n (s := s)
      rw [isEmpty_eq_false inhabited, if_neg Bool.false_ne_true] at drawn
      exact drawn

/-- A sink that wants responses only, and one that fails each time in another way. -/
def poorSinks : List Sink :=
  [{ wantsQueries := false },
    { logs := true
      answer := fun asked => if asked % 2 = 0 then some .pipeFull else some .tooLarge }]

/-- Two queries for the same, the response to the second of which is shared and late. -/
def twoErrands : List Errand :=
  [⟨0, rootRequest, formatErrorNetwork⟩,
    ⟨7, rootRequest, { datagram := .reply true (Duration.ofMillis 1400) (.ok formatError) }⟩]

/-- The sinks fail, and nobody who asks is any the wiser. -/
theorem sinks_make_no_difference_poor :
    let d := withSinks {} [{}]
    List.Forall₂ Resolved.Alike (d.resolveAll id 0 idleShared twoErrands)
        ((d.withSinks poorSinks).resolveAll id 0 idleShared twoErrands) ∧
      (d.resolve 0 idleShared rootRequest formatErrorNetwork).resolution =
        ((d.withSinks []).resolve 0 idleShared rootRequest formatErrorNetwork).resolution ∧
      (d.resolve 0 idleShared rootRequest formatErrorNetwork).shared.random.octetsUsed = 16 := by
  intro d
  rcases sinks_make_no_difference (withSinks {} [{}]) 0 idleShared with ⟨many, single⟩
  have inhabited : (withSinks {} [{}]).sinks ≠ [] := List.cons_ne_nil _ _
  rcases single rootRequest formatErrorNetwork idleShared.random rfl with
    ⟨result, -, -, drawn⟩
  exact ⟨many poorSinks id twoErrands inhabited (List.cons_ne_nil _ _), result, drawn inhabited⟩

end Dispatcher

end Querier
