import Querier.Dispatch.Resolve

/-!
# What makes no difference to connections

Much of what an exchange does is talk: it logs, it reports to sinks, it draws numbers.
None of this opens a connection, writes to one or moves one in or out of the pool, and
none of it counts a response as undecodable. `Shared.Quiet` says so of two states.

## Main results

* `Dispatcher.quiet_begin`: beginning an exchange is quiet.
* `Task.quiet_record`: judging a response is, but for the one count.
-/

namespace Querier

namespace Shared

/-- From one state to the other there was nothing but talk. -/
structure Quiet (s s' : Shared) : Prop where
  pool : s'.pool = s.pool
  nextConnection : s'.nextConnection = s.nextConnection
  parseErrors : s'.parseErrors = s.parseErrors
  writes : s'.journal.writes = s.journal.writes

namespace Quiet

variable {s s' s'' : Shared}

theorem refl (s : Shared) : Quiet s s := ⟨rfl, rfl, rfl, rfl⟩

theorem trans (h : Quiet s s') (h' : Quiet s' s'') : Quiet s s'' where
  pool := h'.pool.trans h.pool
  nextConnection := h'.nextConnection.trans h.nextConnection
  parseErrors := h'.parseErrors.trans h.parseErrors
  writes := h'.writes.trans h.writes

end Quiet

variable (s : Shared)

theorem quiet_random (random : Randomness) : Quiet s { s with random } := ⟨rfl, rfl, rfl, rfl⟩

theorem quiet_log (events : List LogEvent) : Quiet s (s.log events) :=
  ⟨rfl, rfl, rfl, s.journal.writes_log events⟩

theorem quiet_deliver (sinks : List Sink) (e : TelemetryEvent) : Quiet s (s.deliver sinks e) :=
  ⟨rfl, rfl, rfl, s.journal.writes_deliver e 0 sinks⟩

theorem quiet_discard (c : Connection) : Quiet s (s.discard c) := s.quiet_log _

theorem quiet_datagram (key : MatchKey) (id : UInt16) (message : Octets) :
    Quiet s (s.note (.datagram key id message)) :=
  ⟨rfl, rfl, rfl, (s.journal.writes_push _).trans (List.append_nil _)⟩

theorem quiet_connect (c : ConnectRequest) : Quiet s (s.note (.connect c)) :=
  ⟨rfl, rfl, rfl, (s.journal.writes_push _).trans (List.append_nil _)⟩

end Shared

open Shared (Quiet)

namespace Dispatcher

variable (d : Dispatcher) (s : Shared)

theorem quiet_useTls (r : Request) : Quiet s (d.useTls r s).2 := by
  unfold useTls
  split
  · split
    · exact .refl s
    · have counted : Quiet s { s with dotUnavailable := s.dotUnavailable + 1 } :=
        ⟨rfl, rfl, rfl, rfl⟩
      exact counted.trans (by exact Shared.quiet_log ..)
  · exact .refl s

theorem quiet_messageId : Quiet s (d.messageId s).2 := by
  unfold messageId
  split
  · exact .refl s
  · exact s.quiet_random _

theorem quiet_jitter (elapsed : Duration) : Quiet s (d.jitter s elapsed).2 := by
  unfold jitter
  split
  · exact .refl s
  · exact s.quiet_random _

theorem quiet_begin (now : Time) (r : Request) (n : Network) : Quiet s (d.begin now s r n).1 :=
  (s.quiet_random s.random.nextId.2).trans <| (d.quiet_useTls _ r).trans <|
    (d.quiet_messageId _).trans (Shared.quiet_deliver ..)

end Dispatcher

/-- Judging a response counts it if it cannot be decoded, and is quiet otherwise. -/
theorem Task.quiet_record (t : Task) (d : Dispatcher) (s : Shared) (elapsed : Duration)
    (bytes : Nat) (v : Validation) :
    Quiet { s with parseErrors := s.parseErrors + if v.undecodable then 1 else 0 }
      (t.record d s elapsed bytes v) := by
  have logged := (s.quiet_log v.notes).writes
  simp only [record]
  split
  · have counted : Quiet { s with parseErrors := s.parseErrors + 1 }
        { s.log v.notes with parseErrors := (s.log v.notes).parseErrors + 1 } :=
      ⟨rfl, rfl, rfl, logged⟩
    split
    · exact counted
    · exact counted.trans (Shared.quiet_deliver ..)
  · have counted : Quiet { s with parseErrors := s.parseErrors + 0 } (s.log v.notes) :=
      ⟨rfl, rfl, (UInt64.add_zero s.parseErrors).symm, logged⟩
    split
    · exact counted
    · exact counted.trans (Shared.quiet_deliver ..)

end Querier
