import Querier.Datagram.MatchKey
import Querier.Duration
import Querier.Telemetry

/-!
# The journal

Everything that the engine does to its surroundings, in order: what it logs and reports,
the datagrams it sends, the connections it asks for, and what it writes to them.

## Main results

* `entries_push`, `entries_log`: a journal only grows, at its end.
* `logged_log`, `filterMap_log`: logging shows in the log and nowhere else.
-/

namespace Querier

/-- A connection that is asked for. -/
structure ConnectRequest where
  server : SocketAddress
  tls : Bool
  /-- The name to authenticate the server by. -/
  serverName : Option Name
  /-- How long connecting may take. -/
  timeout : Duration
  deriving DecidableEq

/-- Something the engine does. -/
inductive Entry where
  | logged (e : LogEvent)
  /-- An event is handed to the sink with the given number. -/
  | delivered (sink : Nat) (e : TelemetryEvent)
  /-- A query is handed to the datagram transport. -/
  | datagram (key : MatchKey) (id : UInt16) (message : Octets)
  | connect (c : ConnectRequest)
  /-- Octets are written to the connection with the given number. -/
  | wrote (connection : Nat) (label : String) (os : Octets)

/-- What the engine did, in order. -/
structure Journal where
  entries : Array Entry := #[]

namespace Journal

/-- How many things were done. -/
def size (j : Journal) : Nat := j.entries.size

/-- What was done after the first `n` things. -/
def since (j : Journal) (n : Nat) : Journal := ⟨j.entries.extract n j.size⟩

/-- Adds an entry. -/
def push (j : Journal) (e : Entry) : Journal := ⟨j.entries.push e⟩

/-- Adds log events. -/
def log (j : Journal) (events : List LogEvent) : Journal :=
  events.foldl (fun j e => j.push (.logged e)) j

/-- Hands an event to those of the sinks that want it. `index` is the number of the first
sink. A sink's failure is logged. -/
def deliver (j : Journal) (e : TelemetryEvent) (index : Nat) : List Sink → Journal
  | [] => j
  | s :: rest =>
    if s.wants e then
      let answer := s.answer j.size
      let j := j.push (.delivered index e)
      let j := if s.logs then j.log [e.note] else j
      let j := match answer with
        | none => j
        | some err => j.log [err.note]
      deliver j e (index + 1) rest
    else deliver j e (index + 1) rest

/-! ## Views -/

/-- What was logged. -/
def logged (j : Journal) : List LogEvent :=
  j.entries.toList.filterMap fun
    | .logged e => some e
    | _ => none

/-- The events that were handed to sinks, with the numbers of the sinks. -/
def deliveries (j : Journal) : List (Nat × TelemetryEvent) :=
  j.entries.toList.filterMap fun
    | .delivered sink e => some (sink, e)
    | _ => none

/-- What was written to connections, with their numbers and labels. -/
def writes (j : Journal) : List (Nat × String × Octets) :=
  j.entries.toList.filterMap fun
    | .wrote connection label os => some (connection, label, os)
    | _ => none

/-! ## What is added -/

theorem entries_push (j : Journal) (e : Entry) :
    (j.push e).entries.toList = j.entries.toList ++ [e] := by
  rw [push, Array.toList_push]

theorem entries_log (j : Journal) (events : List LogEvent) :
    (j.log events).entries.toList = j.entries.toList ++ events.map .logged := by
  induction events generalizing j with
  | nil => simp [log]
  | cons e rest ih =>
    have step : j.log (e :: rest) = (j.push (.logged e)).log rest := rfl
    rw [step, ih, entries_push, List.map_cons, List.append_assoc, List.singleton_append]

theorem logged_log (j : Journal) (events : List LogEvent) :
    (j.log events).logged = j.logged ++ events := by
  rw [logged, entries_log, List.filterMap_append, logged, List.filterMap_map]
  congr 1
  induction events with
  | nil => rfl
  | cons e rest ih => rw [List.filterMap_cons, ih]; rfl

/-- What does not look at the log does not see what is logged. -/
theorem filterMap_log {α : Type} {view : Entry → Option α} (blind : ∀ e, view (.logged e) = none)
    (j : Journal) (events : List LogEvent) :
    (j.log events).entries.toList.filterMap view = j.entries.toList.filterMap view := by
  rw [entries_log, List.filterMap_append, List.filterMap_map]
  have silent : events.filterMap (view ∘ Entry.logged) = [] := by
    rw [List.filterMap_eq_nil_iff]
    exact fun e _ => blind e
  rw [silent, List.append_nil]

theorem deliveries_log (j : Journal) (events : List LogEvent) :
    (j.log events).deliveries = j.deliveries :=
  filterMap_log (fun _ => rfl) j events

theorem writes_log (j : Journal) (events : List LogEvent) : (j.log events).writes = j.writes :=
  filterMap_log (fun _ => rfl) j events

theorem writes_push (j : Journal) (e : Entry) :
    (j.push e).writes = j.writes ++
      match e with
      | .wrote connection label os => [(connection, label, os)]
      | _ => [] := by
  rw [writes, entries_push, List.filterMap_append, writes]
  cases e <;> rfl

theorem writes_deliver (j : Journal) (e : TelemetryEvent) (index : Nat) (sinks : List Sink) :
    (j.deliver e index sinks).writes = j.writes := by
  induction sinks generalizing j index with
  | nil => rfl
  | cons s rest ih =>
    rw [deliver]
    split
    · rw [ih]
      have delivered : (j.push (.delivered index e)).writes = j.writes := by
        rw [writes_push, List.append_nil]
      split <;> split <;> simp only [writes_log, delivered]
    · exact ih j (index + 1)

end Journal

end Querier
