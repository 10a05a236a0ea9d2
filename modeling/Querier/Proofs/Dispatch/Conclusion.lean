import Querier.Proofs.Dispatch.Accounting

/-!
# How an exchange ends

What an exchange leads to is decided by what the transport came up with: a response is validated,
and what is no response is a result of its own kind. `Concludes` says this of a whole result and
not only of what is right about it, so whatever is known of validation is known of exchanges.

As with reports, the steps of an exchange are gone through once, from the last one back.

## Main results

* `Task.concludes_of_awaitsReply`: an exchange on its way ends by what the transport will come up
  with.
* `Dispatcher.concludes_begin`: so does every exchange from its beginning.
-/

namespace Querier

/-- The results of an exchange, by what the transport came up with. -/
inductive Concludes (c : Config) (r : Request) :
    Option (Except TransportError Octets) → Resolution → Prop where
  /-- The query could not be sent. -/
  | unsent (e : TransportError) : Concludes c r none { kind := e.kind }
  | failed (e : TransportError) (elapsed : Duration) (chained : Bool) :
      Concludes c r (some (.error e)) { Task.draft elapsed chained with kind := e.kind }
  | validated (data : Octets) (elapsed : Duration) (chained : Bool) :
      Concludes c r (some (.ok data))
        (validate c r (Task.draft elapsed chained) data).resolution

namespace Task

variable {d : Dispatcher} {t : Task} {m : Moment} {ms : List Moment} {res last : Resolution}

/-- After the last step the result stays. -/
theorem result?_after_of_last (h : (t.step d m.now m.shared).2.1.result? = some last)
    (ends : (t.after d (m :: ms)).result? = some res) : last = res := by
  have still := (after_of_finished (d := d) (Option.isSome_of_eq_some h) ms).1
  rw [after, still, h] at ends
  exact Option.some.inj ends

theorem concludes_of_spreading {data : Octets} {elapsed : Duration}
    (h : t.stage = .spreading data elapsed) (ends : (t.after d ms).result? = some res) :
    Concludes d.config t.request (some (.ok data)) res := by
  cases ms with
  | nil =>
      rw [after, result?, h] at ends
      cases ends
  | cons m ms =>
      have concluded : (t.step d m.now m.shared).2.1.result? =
          some (validate d.config t.request (draft elapsed true) data).resolution := by
        rw [step, h]
        rfl
      rw [← result?_after_of_last concluded ends]
      exact .validated data elapsed true

theorem concludes_of_answered {reply : Except TransportError Octets} {chained : Bool}
    {c : Option Connection} (h : t.stage = .answered reply chained c)
    (ends : (t.after d ms).result? = some res) :
    Concludes d.config t.request (some reply) res := by
  cases ms with
  | nil =>
      rw [after, result?, h] at ends
      cases ends
  | cons m ms =>
      cases reply with
      | error e =>
          have failed : (t.step d m.now m.shared).2.1.result? =
              some { draft (m.now - t.started) chained with kind := e.kind } := by
            rw [step, h]
            rfl
          rw [← result?_after_of_last failed ends]
          exact .failed e _ chained
      | ok data =>
          cases chained with
          | false =>
              have concluded : (t.step d m.now m.shared).2.1.result? = some (validate d.config
                  t.request (draft (m.now - t.started) false) data).resolution := by
                rw [step, h]
                rfl
              rw [← result?_after_of_last concluded ends]
              exact .validated data _ false
          | true =>
              -- the response is held back before it is validated
              have held : (t.step d m.now m.shared).2.1 =
                  t.moveTo (.spreading data (m.now - t.started)) := by
                rw [step, h]
                rfl
              have later : (t.moveTo (.spreading data (m.now - t.started))).stage =
                  .spreading data (m.now - t.started) := rfl
              rw [after, held] at ends
              have rest := concludes_of_spreading later ends
              exact rest

/-- An exchange on its way ends by what the transport will come up with. -/
theorem concludes_of_awaitsReply (awaits : t.stage.awaitsReply = true)
    (ends : (t.after d ms).result? = some res) :
    Concludes d.config t.request (t.outcome? d ms) res := by
  induction ms generalizing t with
  | nil =>
      rw [after, result?_of_awaitsReply awaits] at ends
      cases ends
  | cons m ms ih =>
      rw [outcome?_cons (answered_of_awaitsReply awaits),
        ← (step_of_awaitsReply d m.now m.shared awaits).2]
      rcases t.stage_step_of_awaitsReply d m awaits with
        ⟨later, -, -⟩ | ⟨⟨reply, chained, c, later⟩, -⟩ | ⟨finished, sending, e, refused⟩
      · exact ih later ends
      · cases ms with
        | nil =>
            rw [after, after, result?, later] at ends
            cases ends
        | cons m' ms =>
            rw [outcome?_of_answered later]
            exact concludes_of_answered later ends
      · have unsent : (t.step d m.now m.shared).2.1.result? = some { kind := e.kind } := by
          rw [step, sending]
          simp only [stepSending, refused]
          rfl
        rw [outcome?_of_finished finished, ← result?_after_of_last unsent ends]
        exact .unsent e

end Task

namespace Dispatcher

/-- Whenever the steps of an exchange are taken, it ends by what the transport came up with. -/
theorem concludes_begin (d : Dispatcher) (now : Time) (s : Shared) (r : Request) (n : Network)
    {ms : List Moment} {res : Resolution}
    (ends : ((d.begin now s r n).2.after d ms).result? = some res) :
    Concludes d.config r ((d.begin now s r n).2.outcome? d ms) res := by
  have awaits : (d.begin now s r n).2.stage.awaitsReply = true := by
    rw [(d.task_begin now s r n).1]
    cases r.tcp <;> rfl
  exact Task.concludes_of_awaitsReply awaits ends

end Dispatcher

end Querier
