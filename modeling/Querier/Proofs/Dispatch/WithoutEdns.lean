import Querier.Proofs.Dispatch.Interleaving

/-!
# Requests without EDNS

A client subnet goes out in the OPT record, so a request without EDNS has no place for it. It is as
good as absent then: it is not sent, it is no part of the identity of the query, and no response is
compared with it. Two exchanges that differ in it take the same steps on the same shared state and
differ in nothing but their requests.

## Main results

* `Dispatcher.begin_withMask`, `Task.step_withMask`: without EDNS the client subnet of a request is
  not looked at.
* `Task.after_withMask`, `Task.run_withMask`: so many steps and whole exchanges are the same.
-/

namespace Querier

namespace Request

/-- The request with another client subnet, or without. -/
def withMask (r : Request) (mask : Option Subnet) : Request := { r with sourceMask := mask }

variable {r : Request}

theorem sentSubnet_withMask (bare : r.hasEdns = false) (mask : Option Subnet) :
    (r.withMask mask).sentSubnet = r.sentSubnet := by
  have bare' : (r.withMask mask).hasEdns = false := bare
  rw [sentSubnet, sentSubnet, bare, bare']
  rfl

theorem matchKey_withMask (bare : r.hasEdns = false) (mask : Option Subnet) :
    (r.withMask mask).matchKey = r.matchKey := by
  rw [matchKey, matchKey, sentSubnet_withMask bare]
  rfl

end Request

section

variable {r : Request} (bare : r.hasEdns = false) (mask : Option Subnet)

include bare

theorem Config.buildQuery_withMask (c : Config) (id : UInt16) (tls : Bool) :
    c.buildQuery (r.withMask mask) id tls = c.buildQuery r id tls := by
  have bare' : (r.withMask mask).hasEdns = false := bare
  have same : c.bareQuery (r.withMask mask) id = c.bareQuery r id := rfl
  simp only [buildQuery, bare, bare', same, Bool.false_eq_true, if_false]

theorem validate_withMask (c : Config) (res : Resolution) (data : Octets) :
    validate c (r.withMask mask) res data = validate c r res data := by
  have checked (res : Resolution) (m : Message) : Validation.checkSubnet (r.withMask mask) res m =
      Validation.checkSubnet r res m := by
    have bare' : (r.withMask mask).hasEdns = false := bare
    rw [Validation.checkSubnet, Validation.checkSubnet, bare, bare']
    rfl
  unfold validate Validation.ofMessage
  simp only [checked]
  rfl

end

namespace Task

/-- The task of an exchange with another client subnet in its request. -/
def withMask (t : Task) (mask : Option Subnet) : Task :=
  { t with request := t.request.withMask mask }

variable {d : Dispatcher} {t : Task}

theorem request_step (t : Task) (d : Dispatcher) (now : Time) (s : Shared) :
    (t.step d now s).2.1.request = t.request := by
  by_cases awaits : t.stage.awaitsReply = true
  · exact (step_of_awaitsReply d now s awaits).2
  · unfold step
    cases hstage : t.stage with
    | answered reply chained c =>
        simp only [stepAnswered]
        cases reply with
        | error e => rfl
        | ok data => cases chained <;> rfl
    | spreading data elapsed => rfl
    | finished res => rfl
    | _ => exact absurd (by rw [hstage]; rfl) awaits

variable (bare : t.request.hasEdns = false) (mask : Option Subnet)

include bare

omit mask in
theorem bare_step (d : Dispatcher) (now : Time) (s : Shared) :
    (t.step d now s).2.1.request.hasEdns = false := by
  rw [t.request_step]
  exact bare

theorem conclude_withMask (now : Time) (s : Shared) (elapsed : Duration) (data : Octets)
    (chained : Bool) (c : Option Connection) :
    (t.withMask mask).conclude d now s elapsed data chained c =
      ((t.conclude d now s elapsed data chained c).1,
        (t.conclude d now s elapsed data chained c).2.withMask mask) := by
  have same := validate_withMask bare mask d.config (draft elapsed chained) data
  have request : (t.withMask mask).request = t.request.withMask mask := rfl
  simp only [conclude, request, same]
  cases c <;> rfl

/-- Without EDNS the client subnet of a request is not looked at. -/
theorem step_withMask (d : Dispatcher) (now : Time) (s : Shared) :
    (t.withMask mask).step d now s =
      ((t.step d now s).1, (t.step d now s).2.1.withMask mask, (t.step d now s).2.2) := by
  have stage : (t.withMask mask).stage = t.stage := rfl
  have request : (t.withMask mask).request = t.request.withMask mask := rfl
  unfold step
  rw [stage]
  cases t.stage with
  | sending =>
      have network : (t.withMask mask).network = t.network := rfl
      simp only [stepSending, request, network, Request.matchKey_withMask bare mask]
      cases t.network.datagram <;> rfl
  | waiting plan => rfl
  | acquiring =>
      have server : (t.withMask mask).request.server = t.request.server := rfl
      have tls : (t.withMask mask).tls = t.tls := rfl
      simp only [stepAcquiring, server, tls]
      cases (s.acquire now t.request.server t.tls).1 <;> rfl
  | connecting =>
      have network : (t.withMask mask).network = t.network := rfl
      simp only [stepConnecting, network]
      cases (t.network.connects.head?.getD _).outcome <;> rfl
  | exchanging c fresh =>
      have message : (t.withMask mask).message = t.message := rfl
      simp only [stepExchanging, message]
      cases (c.stream.exchange t.message d.config.networkTimeout).reply with
      | ok data => rfl
      | error e => cases fresh <;> rfl
  | answered reply chained c =>
      simp only [stepAnswered]
      cases reply with
      | error e => rfl
      | ok data =>
          cases chained with
          | false =>
              have started : (t.withMask mask).started = t.started := rfl
              simp only [Bool.false_eq_true, if_false, started, conclude_withMask bare mask]
          | true => rfl
  | spreading data elapsed => simp only [conclude_withMask bare mask]
  | finished res => rfl

theorem after_withMask (ms : List Moment) :
    (t.withMask mask).after d ms = (t.after d ms).withMask mask ∧
      (t.withMask mask).deeds d ms = t.deeds d ms := by
  induction ms generalizing t with
  | nil => exact ⟨rfl, rfl⟩
  | cons m ms ih =>
      have step := step_withMask bare mask d m.now m.shared
      rcases ih (bare_step bare d m.now m.shared) with ⟨same, rest⟩
      rw [after, deeds, deed, step]
      refine ⟨same, ?_⟩
      rw [rest]
      rfl

theorem run_withMask (d : Dispatcher) (now : Time) (s : Shared) :
    (t.withMask mask).run d now s = t.run d now s := by
  induction t, now, s using Task.run.induct d with
  | case1 t now s r h =>
      have h' : (t.withMask mask).result? = some r := h
      rw [run_finished h, run_finished h']
  | case2 t now s h next ih =>
      have h' : (t.withMask mask).result? = none := h
      rw [run_step h, run_step h', step_withMask bare mask d now s]
      exact ih (bare_step bare d now s)

end Task

namespace Dispatcher

theorem begin_withMask {r : Request} (bare : r.hasEdns = false) (mask : Option Subnet)
    (d : Dispatcher) (now : Time) (s : Shared) (n : Network) :
    d.begin now s (r.withMask mask) n =
      ((d.begin now s r n).1, (d.begin now s r n).2.withMask mask) := by
  have tls (s : Shared) : d.useTls (r.withMask mask) s = d.useTls r s := rfl
  have decided : d.decided s (r.withMask mask) = d.decided s r := rfl
  have prepared : d.prepared s (r.withMask mask) = d.prepared s r := rfl
  have task : (d.begin now s (r.withMask mask) n).2 = (d.begin now s r n).2.withMask mask := by
    rw [begin_snd, begin_snd, newTask, newTask, tls, decided, Config.buildQuery_withMask bare]
    rfl
  have report : queryReport ((d.begin now s r n).2.withMask mask) =
      queryReport (d.begin now s r n).2 := by
    have subnet := Request.sentSubnet_withMask bare mask
    have request : (d.begin now s r n).2.request = r := rfl
    rw [queryReport, queryReport, request, ← subnet]
    rfl
  apply Prod.ext
  · rw [begin_fst, begin_fst, prepared, task, report]
  · exact task

end Dispatcher

end Querier
