import Querier.Proofs.Dispatch.Interleaving

/-!
# What sinks are told of an exchange

An exchange is reported when its query goes out and once more when it ends. Not every end is
reported: there is no report of a query that could not be sent, of a response to something else, or
of a spoof.

Every step either tells sinks nothing or is the last one of its exchange, so what an exchange has
reported is found by going through its steps once. Which step is the last depends on what the
transport came up with. `Reported` has one case for each of the three ways there are, and the
cases agree with the verdict on the response.

## Main results

* `Validation.report_validate`: what is reported of a response is what its result shows.
* `Task.accounts_of_awaitsReply`: the reports of an exchange on its way.
* `Dispatcher.accounts_begin`: all that sinks are told of an exchange, from its beginning on.
-/

namespace Querier

/-! ## Telling sinks -/

namespace Dispatcher

/-- Every sink that wants the event receives it, once, and no other sink receives anything. -/
def Tells (d : Dispatcher) (j : Journal) (e : Option TelemetryEvent) : Prop :=
  ∀ i sink, d.sinks[i]? = some sink → j.received i = (e.filter sink.wants).toList

variable {d : Dispatcher} {j more : Journal} {s s' : Shared} {e : Option TelemetryEvent}

theorem tells_empty : d.Tells {} none := by
  intro i sink _
  rfl

theorem Tells.append (h : d.Tells j none) (h' : d.Tells more e) : d.Tells (j ++ more) e := by
  intro i sink hsink
  rw [Journal.received_append, h i sink hsink, h' i sink hsink]
  rfl

theorem Tells.append_none (h : d.Tells j e) (h' : d.Tells more none) : d.Tells (j ++ more) e := by
  intro i sink hsink
  rw [Journal.received_append, h i sink hsink, h' i sink hsink]
  exact List.append_nil _

/-- Handing an event to all sinks tells it to those that want it. -/
theorem received_deliver (s : Shared) (e : TelemetryEvent) {i : Nat} {sink : Sink}
    (hsink : d.sinks[i]? = some sink) : (s.deliver d.sinks e).journal.received i =
      s.journal.received i ++ ((some e).filter sink.wants).toList := by
  have at_zero := s.journal.received_deliver i e 0 d.sinks
  rw [Nat.zero_add, hsink] at at_zero
  rw [Shared.deliver, at_zero, Option.any_some]
  by_cases wants : sink.wants e = true
  · rw [if_pos wants, Option.filter_some_pos wants]
    rfl
  · rw [if_neg wants, Option.filter_some_neg (Bool.eq_false_iff.mpr wants)]
    rfl

end Dispatcher

/-! ## What is reported of a response -/

namespace Validation

/-- What is reported is what the result shows. -/
def Faithful (v : Validation) : Prop :=
  (v.report.isSome = true ↔ v.undecodable = true ∨ v.resolution.validPacket = true) ∧
    ∀ x, v.report = some x → x.rcode = v.resolution.rcode ∧ x.records = v.resolution.records ∧
      x.subnet = v.resolution.subnet

variable {r : Request} {res : Resolution} {m : Message}

theorem faithful_accepted (records : List Record) (subnet : Option Subnet) :
    (accepted res records subnet).Faithful := by
  refine ⟨⟨fun _ => .inr rfl, fun _ => rfl⟩, ?_⟩
  intro x hx
  cases hx
  exact ⟨rfl, rfl, rfl⟩

/-- Nothing is reported of a response that is not valid. -/
theorem faithful_silent {v : Validation} (silent : v.report = none)
    (decoded : v.undecodable = false) (invalid : v.resolution.validPacket = false) :
    v.Faithful := by
  refine ⟨?_, ?_⟩
  · rw [silent, decoded, invalid]
    decide
  · intro x hx
    rw [silent] at hx
    cases hx

theorem faithful_checkSubnet (unjudged : res.validPacket = false) :
    (checkSubnet r res m).Faithful := by
  by_cases spoofs : Spoofs r m
  · rcases checkSubnet_spoofs res spoofs with ⟨sent, echoed, checked⟩
    rw [checked]
    exact faithful_silent rfl rfl unjudged
  · rw [checkSubnet_not_spoofs res spoofs]
    exact faithful_accepted ..

theorem faithful_ofMessage (unjudged : res.validPacket = false) (empty : res.records = [])
    (bare : res.subnet = none) : (ofMessage r res m).Faithful := by
  unfold ofMessage
  cases m.question with
  | none =>
      by_cases format : m.header.rcode = .formErr
      · simp only [if_pos format]
        refine ⟨⟨fun _ => .inr rfl, fun _ => rfl⟩, ?_⟩
        intro x hx
        cases hx
        exact ⟨rfl, empty.symm, bare.symm⟩
      · simp only [if_neg format]
        exact faithful_silent rfl rfl unjudged
  | some q =>
      by_cases same : q.qname.same r.qname = true
      · simp only [if_pos same]
        exact faithful_checkSubnet (by exact unjudged)
      · simp only [if_neg same]
        exact faithful_silent rfl rfl unjudged

/-- What is reported of a response is what its result shows, and there is a report if it cannot be
decoded or is usable. -/
theorem report_validate (c : Config) (r : Request) (elapsed : Duration) (chained : Bool)
    (data : Octets) :
    let v := validate c r (Task.draft elapsed chained) data
    (v.report.isSome = true ↔ (∃ e, Message.decode data = .error e) ∨
        ∃ m, Message.decode data = .ok m ∧ Usable r m) ∧
      ∀ x, v.report = some x → x.rcode = v.resolution.rcode ∧ x.records = v.resolution.records ∧
        x.subnet = v.resolution.subnet := by
  intro v
  have faithful : v.Faithful := by
    show (validate c r (Task.draft elapsed chained) data).Faithful
    unfold validate
    cases Message.decode data with
    | error e =>
        refine ⟨⟨fun _ => .inl rfl, fun _ => rfl⟩, ?_⟩
        intro x hx
        cases hx
        exact ⟨rfl, rfl, rfl⟩
    | ok m => exact faithful_ofMessage rfl rfl rfl
  have broken : v.undecodable = true ↔ ∃ e, Message.decode data = .error e := by
    rw [undecodable_validate]
    cases Message.decode data with
    | error e => exact ⟨fun _ => ⟨e, rfl⟩, fun _ => rfl⟩
    | ok m => exact ⟨nofun, fun ⟨_, he⟩ => nomatch he⟩
  have valid := (verdict_validate c r elapsed chained data).valid_iff
  refine ⟨?_, faithful.2⟩
  rw [faithful.1, broken, valid]

end Validation

/-! ## Reports -/

/-- What is reported of an exchange that ended with `res`, by what the transport came up with. -/
inductive Reported (d : Dispatcher) (r : Request) (res : Resolution) :
    Option (Except TransportError Octets) → Option IncomingResponse → Prop where
  /-- The query could not be sent, so there was nothing to come up with. -/
  | unsent : Reported d r res none none
  | failed (e : TransportError) (x : IncomingResponse) (kind : res.kind = e.kind)
      (invalid : res.validPacket = false) (rcode : x.rcode = none) (bytes : x.bytes = 0)
      (records : x.records = []) (subnet : x.subnet = none) :
      Reported d r res (some (.error e)) (some x)
  | judged (data : Octets) (response : Option IncomingResponse) (verdict : Verdict r data res)
      (isSome_iff : response.isSome = true ↔ (∃ e, Message.decode data = .error e) ∨
        ∃ m, Message.decode data = .ok m ∧ Usable r m)
      (shows : ∀ x, response = some x → x.bytes = data.size ∧ x.rcode = some res.rcode ∧
        x.records = res.records.filter (fun record => d.exported.contains record.rtype) ∧
        x.subnet = res.subnet) : Reported d r res (some (.ok data)) response

namespace Task

/-- The reports of an exchange that takes its steps at given moments: there is one at most, it
goes to every sink that wants it, it belongs to the exchange, and it comes with the end. -/
structure Accounts (d : Dispatcher) (t : Task) (ms : List Moment)
    (outcome : Option (Except TransportError Octets)) (response : Option IncomingResponse) :
    Prop where
  told : d.Tells (t.deeds d ms) (response.map .response)
  exchange : ∀ x, response = some x → x.toExchange = t.exchange
  underway : (t.after d ms).result? = none → response = none
  reported : ∀ res, (t.after d ms).result? = some res → Reported d t.request res outcome response

variable {d : Dispatcher} {t : Task} {m : Moment} {ms : List Moment}
  {outcome : Option (Except TransportError Octets)} {response : Option IncomingResponse}

/-! ### One step -/

/-- A step is told as what it adds to what sinks have received. -/
theorem tells_deed {e : Option TelemetryEvent} (h : ∀ i sink, d.sinks[i]? = some sink →
      (t.step d m.now m.shared).1.journal.received i =
        m.shared.journal.received i ++ (e.filter sink.wants).toList) :
    d.Tells (t.deed d m) e := by
  intro i sink hsink
  exact (t.extends_step d m.shared m.now).received_since i (h i sink hsink)

/-- Until there is a reply, sinks are told nothing. -/
theorem received_step_of_awaitsReply (now : Time) (s : Shared) (i : Nat)
    (awaits : t.stage.awaitsReply = true) :
    (t.step d now s).1.journal.received i = s.journal.received i := by
  rcases (t.journal_step_of_awaitsReply d s now awaits).1 with ⟨events, journal⟩
  rw [journal, Journal.received_log, Journal.received_append,
    Journal.received_of_isTraffic i (t.isTraffic_sends d), List.append_nil]

/-- The report of a response. -/
def reportOf (d : Dispatcher) (t : Task) (elapsed : Duration) (data : Octets) (chained : Bool) :
    Option IncomingResponse :=
  (validate d.config t.request (draft elapsed chained) data).report.map fun x =>
    { t.exchange with
      elapsed
      bytes := data.size
      rcode := some x.rcode
      records := x.records.filter fun record => d.exported.contains record.rtype
      subnet := x.subnet }

theorem received_settle (now : Time) (s : Shared) (good : Bool) (c : Option Connection) (i : Nat) :
    (t.settle now s good c).journal.received i = s.journal.received i := by
  cases c with
  | none => rfl
  | some c => cases good <;> exact s.journal.received_log i _

theorem received_conclude (now : Time) (s : Shared) (elapsed : Duration) (data : Octets)
    (chained : Bool) (c : Option Connection) {i : Nat} {sink : Sink}
    (hsink : d.sinks[i]? = some sink) :
    (t.conclude d now s elapsed data chained c).1.journal.received i = s.journal.received i ++
      (((t.reportOf d elapsed data chained).map TelemetryEvent.response).filter
        sink.wants).toList := by
  have logged (events : List LogEvent) : (s.log events).journal.received i = s.journal.received i :=
    s.journal.received_log i events
  simp only [conclude, received_settle, record, reportOf]
  generalize validate d.config t.request (draft elapsed chained) data = v
  cases v.undecodable <;> cases v.report
  · exact (logged _).trans (List.append_nil _).symm
  · exact (Dispatcher.received_deliver _ _ hsink).trans (congrArg (· ++ _) (logged _))
  · exact (logged _).trans (List.append_nil _).symm
  · exact (Dispatcher.received_deliver _ _ hsink).trans (congrArg (· ++ _) (logged _))

/-- The report of a response is what its result shows. -/
theorem reported_reportOf (elapsed : Duration) (data : Octets) (chained : Bool) :
    Reported d t.request (validate d.config t.request (draft elapsed chained) data).resolution
      (some (.ok data)) (t.reportOf d elapsed data chained) := by
  rcases Validation.report_validate d.config t.request elapsed chained data with ⟨isSome, shows⟩
  refine .judged data _ (Validation.verdict_validate ..) ?_ ?_
  · rw [reportOf, Option.isSome_map]
    exact isSome
  · intro x hx
    rcases Option.map_eq_some_iff.mp hx with ⟨report, hreport, rfl⟩
    rcases shows report hreport with ⟨rcode, records, subnet⟩
    exact ⟨rfl, congrArg some rcode, congrArg _ records, subnet⟩

/-! ### From step to step -/

theorem accounts_nil (unfinished : t.result? = none) : t.Accounts d [] outcome none where
  told := Dispatcher.tells_empty
  exchange := nofun
  underway _ := rfl
  reported _ hres := nomatch unfinished.symm.trans hres

theorem step_of_finished (finished : t.result?.isSome = true) (now : Time) (s : Shared) :
    t.step d now s = (s, t, 0) := by
  unfold result? at finished
  unfold step
  cases hstage : t.stage with
  | finished res => rfl
  | _ =>
      rw [hstage] at finished
      cases finished

theorem after_of_finished (finished : t.result?.isSome = true) (ms : List Moment) :
    t.after d ms = t ∧ d.Tells (t.deeds d ms) none := by
  induction ms with
  | nil => exact ⟨rfl, Dispatcher.tells_empty⟩
  | cons m ms ih =>
      have still : t.step d m.now m.shared = (m.shared, t, 0) := step_of_finished finished ..
      have silent : d.Tells (t.deed d m) none := by
        apply tells_deed
        intro i sink _
        rw [still]
        exact (List.append_nil _).symm
      rw [after, deeds, still]
      exact ⟨ih.1, silent.append ih.2⟩

/-- A step without a report leaves the reports to the others. -/
theorem Accounts.cons (h : (t.step d m.now m.shared).2.1.Accounts d ms outcome response)
    (silent : ∀ i, (t.step d m.now m.shared).1.journal.received i = m.shared.journal.received i)
    (request : (t.step d m.now m.shared).2.1.request = t.request)
    (exchange : (t.step d m.now m.shared).2.1.exchange = t.exchange) :
    t.Accounts d (m :: ms) outcome response where
  told := by
    have quiet : d.Tells (t.deed d m) none := by
      apply tells_deed
      intro i sink _
      rw [silent]
      exact (List.append_nil _).symm
    exact quiet.append h.told
  exchange x hx := (h.exchange x hx).trans exchange
  underway := h.underway
  reported res hres := request ▸ h.reported res hres

/-- After the last step there is nothing to report any more. -/
theorem accounts_of_last (res : Resolution)
    (told : ∀ i sink, d.sinks[i]? = some sink → (t.step d m.now m.shared).1.journal.received i =
      m.shared.journal.received i ++
        ((response.map TelemetryEvent.response).filter sink.wants).toList)
    (last : (t.step d m.now m.shared).2.1.result? = some res)
    (exchange : ∀ x, response = some x → x.toExchange = t.exchange)
    (reported : Reported d t.request res outcome response) :
    t.Accounts d (m :: ms) outcome response := by
  rcases after_of_finished (d := d) (Option.isSome_of_eq_some last) ms with ⟨still, silent⟩
  constructor
  · exact (tells_deed told).append_none silent
  · exact exchange
  · intro hnone
    rw [after, still, last] at hnone
    cases hnone
  · intro res' hres
    rw [after, still, last] at hres
    cases hres
    exact reported

theorem accounts_conclude (elapsed : Duration) (data : Octets) (chained : Bool)
    (c : Option Connection) (wait : Duration)
    (concludes : t.step d m.now m.shared =
      ((t.conclude d m.now m.shared elapsed data chained c).1,
        (t.conclude d m.now m.shared elapsed data chained c).2, wait)) (ms : List Moment) :
    t.Accounts d (m :: ms) (some (.ok data)) (t.reportOf d elapsed data chained) := by
  apply accounts_of_last (validate d.config t.request (draft elapsed chained) data).resolution
  · intro i sink hsink
    rw [concludes]
    exact received_conclude _ _ _ _ _ _ hsink
  · rw [concludes]
    rfl
  · intro x hx
    rcases Option.map_eq_some_iff.mp hx with ⟨report, -, rfl⟩
    rfl
  · exact reported_reportOf ..

/-! ### The stages of an exchange -/

theorem answered_of_awaitsReply (awaits : t.stage.awaitsReply = true)
    (reply : Except TransportError Octets) (chained : Bool) (c : Option Connection) :
    t.stage ≠ .answered reply chained c := by
  intro h
  rw [h] at awaits
  cases awaits

theorem accounts_of_spreading {data : Octets} {elapsed : Duration}
    (h : t.stage = .spreading data elapsed) (ms : List Moment) :
    ∃ response, t.Accounts d ms (some (.ok data)) response := by
  cases ms with
  | nil => exact ⟨none, accounts_nil (by rw [result?, h])⟩
  | cons m ms =>
      refine ⟨t.reportOf d elapsed data true, accounts_conclude elapsed data true none 0 ?_ ms⟩
      rw [step, h]

/-- What the transport came up with is known as soon as the reply is dealt with. -/
theorem outcome?_of_answered {reply : Except TransportError Octets} {chained : Bool}
    {c : Option Connection} (h : t.stage = .answered reply chained c) (m : Moment)
    (ms : List Moment) : t.outcome? d (m :: ms) = some reply := by
  rw [outcome?, h]

theorem outcome?_cons (unanswered : ∀ reply chained c, t.stage ≠ .answered reply chained c)
    (m : Moment) (ms : List Moment) :
    t.outcome? d (m :: ms) = (t.step d m.now m.shared).2.1.outcome? d ms := by
  rw [outcome?]
  cases hstage : t.stage with
  | answered reply chained c => exact absurd hstage (unanswered reply chained c)
  | _ => rfl

theorem outcome?_of_finished (finished : t.result?.isSome = true) (ms : List Moment) :
    t.outcome? d ms = none := by
  induction ms with
  | nil => rfl
  | cons m ms ih =>
      rw [outcome?_cons, step_of_finished finished]
      · exact ih
      · intro reply chained c h
        rw [result?, h] at finished
        cases finished

theorem accounts_of_answered {reply : Except TransportError Octets} {chained : Bool}
    {c : Option Connection} (h : t.stage = .answered reply chained c) (ms : List Moment) :
    ∃ response, t.Accounts d ms (some reply) response := by
  cases ms with
  | nil => exact ⟨none, accounts_nil (by rw [result?, h])⟩
  | cons m ms =>
      cases reply with
      | error e =>
          refine ⟨some { t.exchange with
            elapsed := m.now - t.started, bytes := 0, rcode := none, records := []
            subnet := none }, ?_⟩
          apply accounts_of_last { draft (m.now - t.started) chained with kind := e.kind }
          · intro i sink hsink
            simp only [step, h, stepAnswered, Dispatcher.respond]
            exact (Dispatcher.received_deliver _ _ hsink).trans
              (congrArg (· ++ _) (Journal.received_log ..))
          · simp only [step, h, stepAnswered]
            rfl
          · intro x hx
            cases hx
            rfl
          · exact .failed e _ rfl rfl rfl rfl rfl rfl
      | ok data =>
          cases chained with
          | false =>
              refine ⟨_, accounts_conclude (m.now - t.started) data false c 0 ?_ ms⟩
              rw [step, h]
              rfl
          | true =>
              -- the response is held back before it is judged
              have next : t.step d m.now m.shared =
                  ((d.jitter m.shared (m.now - t.started)).2,
                    t.moveTo (.spreading data (m.now - t.started)),
                    (d.jitter m.shared (m.now - t.started)).1) := by
                rw [step, h]
                rfl
              have later : (t.step d m.now m.shared).2.1.stage =
                  .spreading data (m.now - t.started) := by rw [next]; rfl
              rcases accounts_of_spreading (d := d) later ms with ⟨response, rest⟩
              refine ⟨response, rest.cons ?_ ?_ ?_⟩
              · intro i
                rw [next]
                exact congrArg (·.received i) (d.journal_jitter m.shared _)
              · rw [next]
                rfl
              · rw [next]
                rfl

/-- Where a step leads that waits for the transport: on with the wait, to a reply, or, if the query
cannot be sent, to the end. -/
theorem stage_step_of_awaitsReply (d : Dispatcher) (m : Moment)
    (awaits : t.stage.awaitsReply = true) :
    ((t.step d m.now m.shared).2.1.stage.awaitsReply = true ∧
        (t.step d m.now m.shared).2.1.stage ≠ .sending ∧
        ¬ (t.stage = .sending ∧ ∃ e, t.network.datagram = .refused e)) ∨
      ((∃ reply chained c, (t.step d m.now m.shared).2.1.stage = .answered reply chained c) ∧
        t.stage ≠ .sending) ∨
      ((t.step d m.now m.shared).2.1.result?.isSome = true ∧
        t.stage = .sending ∧ ∃ e, t.network.datagram = .refused e) := by
  unfold step
  cases hstage : t.stage with
  | sending =>
      simp only [stepSending]
      cases hplan : t.network.datagram with
      | refused e => exact .inr (.inr ⟨rfl, trivial, e, rfl⟩)
      | _ => exact .inl ⟨rfl, by simp [moveTo], by simp⟩
  | waiting plan => exact .inr (.inl ⟨⟨_, _, _, rfl⟩, by simp⟩)
  | acquiring =>
      simp only [stepAcquiring]
      cases (m.shared.acquire m.now t.request.server t.tls).1 <;>
        exact .inl ⟨rfl, by simp [moveTo], by simp⟩
  | connecting =>
      simp only [stepConnecting]
      cases (t.network.connects.head?.getD _).outcome with
      | error e => exact .inr (.inl ⟨⟨_, _, _, rfl⟩, by simp⟩)
      | ok stream => exact .inl ⟨rfl, by simp [moveTo], by simp⟩
  | exchanging c fresh =>
      simp only [stepExchanging]
      cases (c.stream.exchange t.message d.config.networkTimeout).reply with
      | ok data => exact .inr (.inl ⟨⟨_, _, _, rfl⟩, by simp⟩)
      | error e =>
          cases fresh with
          | true => exact .inr (.inl ⟨⟨_, _, _, rfl⟩, by simp⟩)
          | false => exact .inl ⟨rfl, by simp [moveTo], by simp⟩
  | answered reply chained c =>
      rw [hstage] at awaits
      cases awaits
  | spreading data elapsed =>
      rw [hstage] at awaits
      cases awaits
  | finished r =>
      rw [hstage] at awaits
      cases awaits

/-- An exchange on its way makes its reports by what the transport will come up with. -/
theorem accounts_of_awaitsReply (awaits : t.stage.awaitsReply = true) (ms : List Moment) :
    ∃ response, t.Accounts d ms (t.outcome? d ms) response := by
  induction ms generalizing t with
  | nil =>
      refine ⟨none, accounts_nil ?_⟩
      exact result?_of_awaitsReply awaits
  | cons m ms ih =>
      have quiet (i : Nat) := t.received_step_of_awaitsReply (d := d) m.now m.shared i awaits
      have request := (step_of_awaitsReply d m.now m.shared awaits).2
      have exchange := (t.journal_step_of_awaitsReply d m.shared m.now awaits).2
      have onward {response : Option IncomingResponse}
          (rest : (t.step d m.now m.shared).2.1.Accounts d ms (t.outcome? d (m :: ms)) response) :
          t.Accounts d (m :: ms) (t.outcome? d (m :: ms)) response :=
        rest.cons quiet request exchange
      have outcome := outcome?_cons (d := d) (answered_of_awaitsReply awaits) m ms
      rcases t.stage_step_of_awaitsReply d m awaits with
        ⟨later, -, -⟩ | ⟨⟨reply, chained, c, later⟩, -⟩ | ⟨finished, -, -⟩
      · rcases ih later with ⟨response, rest⟩
        exact ⟨response, onward (outcome ▸ rest)⟩
      · cases ms with
        | nil => exact ⟨none, onward (accounts_nil (by rw [result?, later]))⟩
        | cons m' ms =>
            rw [outcome?_of_answered later] at outcome
            rcases accounts_of_answered (d := d) later (m' :: ms) with ⟨response, rest⟩
            exact ⟨response, onward (outcome ▸ rest)⟩
      · have none_later := outcome?_of_finished (d := d) finished ms
        rcases after_of_finished (d := d) finished ms with ⟨-, silent⟩
        refine ⟨none, onward ?_⟩
        constructor
        · exact silent
        · intro x hx
          cases hx
        · intro _
          rfl
        · intro res _
          rw [outcome, none_later]
          exact .unsent

/-- If an exchange comes to its end, the transport came up with something, unless the query
could not be sent at all. -/
theorem outcome?_eq_none_iff (awaits : t.stage.awaitsReply = true) {ms : List Moment}
    (ends : (t.after d ms).result?.isSome = true) : t.outcome? d ms = none ↔
      t.stage = .sending ∧ ∃ e, t.network.datagram = .refused e := by
  induction ms generalizing t with
  | nil =>
      rw [after, result?_of_awaitsReply awaits] at ends
      cases ends
  | cons m ms ih =>
      rw [outcome?_cons (answered_of_awaitsReply awaits)]
      rcases t.stage_step_of_awaitsReply d m awaits with
        ⟨later, sent, possible⟩ | ⟨⟨reply, chained, c, later⟩, sent⟩ | ⟨finished, refused⟩
      · rw [ih later ends]
        exact ⟨fun h => absurd h.1 sent, fun h => absurd h possible⟩
      · cases ms with
        | nil =>
            rw [after, after, result?, later] at ends
            cases ends
        | cons m' ms =>
            rw [outcome?_of_answered later]
            refine ⟨?_, fun h => absurd h.1 sent⟩
            intro h
            cases h
      · rw [outcome?_of_finished finished]
        exact ⟨fun _ => refused, fun _ => rfl⟩

end Task

/-! ## From the beginning on -/

namespace Dispatcher

section Opening

variable (d : Dispatcher) (now : Time) (s : Shared) (r : Request) (n : Network)

/-- What beginning an exchange adds to the journal. -/
def opening : Journal := (d.begin now s r n).1.journal.since s.journal.size

theorem journal_useTls (s : Shared) :
    s.journal.Extends (d.useTls r s).2.journal ∧
      (d.useTls r s).2.journal.traffic = s.journal.traffic ∧
      ∀ i, (d.useTls r s).2.journal.received i = s.journal.received i := by
  unfold useTls
  by_cases wants : d.wantsTls r = true
  · rw [if_pos wants]
    by_cases available : d.tlsAvailable = true
    · rw [if_pos available]
      exact ⟨.refl _, rfl, fun _ => rfl⟩
    · rw [if_neg available]
      exact ⟨s.journal.extends_log _, s.journal.traffic_log _, fun i => s.journal.received_log i _⟩
  · rw [if_neg wants]
    exact ⟨.refl _, rfl, fun _ => rfl⟩

theorem journal_messageId (s : Shared) : (d.messageId s).2.journal = s.journal := by
  unfold messageId
  cases d.sinks.isEmpty <;> rfl

theorem journal_prepared : s.journal.Extends (d.prepared s r).journal ∧
    (d.prepared s r).journal.traffic = s.journal.traffic ∧
    ∀ i, (d.prepared s r).journal.received i = s.journal.received i := by
  rw [prepared, journal_messageId, decided]
  exact d.journal_useTls r { s with random := s.random.nextId.2 }

/-- Beginning an exchange tells the sinks of the query, and sends nothing. -/
theorem opening_spec : s.journal.Extends (d.begin now s r n).1.journal ∧
    (d.opening now s r n).traffic = [] ∧
    d.Tells (d.opening now s r n) (some (.query (queryReport (d.begin now s r n).2))) := by
  rcases d.journal_prepared s r with ⟨more, quiet, silent⟩
  have extends_begin : s.journal.Extends (d.begin now s r n).1.journal := by
    rw [begin_fst]
    exact more.trans (Shared.extends_deliver ..)
  refine ⟨extends_begin, extends_begin.traffic_since ?_, ?_⟩
  · rw [begin_fst, Shared.deliver, Journal.traffic_deliver, quiet, List.append_nil]
  · intro i sink hsink
    apply extends_begin.received_since
    rw [begin_fst, received_deliver _ _ hsink, silent]

end Opening

/-- **Reports of an exchange.** Whatever is asked and however the transport behaves, and whatever
sinks there are: beginning an exchange tells every sink that wants queries of the query, once, and
nothing is sent before. From then on, whenever the steps of the exchange are taken and whatever
others do in between, every sink that wants responses is told of the end at most once, and not
before the end; both reports are of the same exchange, that of the request. At the end there was
no report if the query could not be sent as a datagram; if the transport failed otherwise there was
one without a response code, octets or records; and if there was a response, there was a report
exactly if it cannot be decoded or is usable, which is to say a format error without a question
or a response to the question that is no spoof, and then with the size of the response and with
the response code, the exported records and the client subnet of the result. An exchange with
nothing else going on takes such steps. -/
theorem accounts_begin (d : Dispatcher) (now : Time) (s : Shared) (r : Request) (n : Network) :
    let t := (d.begin now s r n).2
    let q := queryReport t
    (q.initialRequestId = r.initialRequestId ∧ q.protocol = protocol t.tls r ∧
        q.server = r.server ∧ q.qname = r.qname ∧ q.qtype = r.qtype ∧
        t.message = d.config.buildQuery r q.id t.tls) ∧
      (d.opening now s r n).traffic = [] ∧ d.Tells (d.opening now s r n) (some (.query q)) ∧
      (∀ ms, ∃ response : Option IncomingResponse,
        d.Tells (t.deeds d ms) (response.map .response) ∧
        (∀ x, response = some x → x.toExchange = q.toExchange) ∧
        ((t.after d ms).result? = none → response = none) ∧
        ∀ res, (t.after d ms).result? = some res →
          Reported d r res (t.outcome? d ms) response ∧
          (t.outcome? d ms = none ↔ r.tcp = false ∧ ∃ e, n.datagram = .refused e)) ∧
      ∃ ms, (t.after d ms).result? = some (d.resolve now s r n).resolution ∧
        (d.resolve now s r n).shared.journal =
          s.journal ++ d.opening now s r n ++ t.deeds d ms := by
  intro t q
  rcases d.opening_spec now s r n with ⟨extends_begin, unsent, told⟩
  have stage : t.stage = if r.tcp then .acquiring else .sending := rfl
  have awaits : t.stage.awaitsReply = true := by
    rw [stage]
    cases r.tcp <;> rfl
  refine ⟨⟨rfl, rfl, rfl, rfl, rfl, rfl⟩, unsent, told, ?_, ?_⟩
  · intro ms
    rcases Task.accounts_of_awaitsReply (d := d) awaits ms with ⟨response, h⟩
    refine ⟨response, h.told, h.exchange, h.underway, ?_⟩
    intro res hres
    refine ⟨h.reported res hres, ?_⟩
    rw [Task.outcome?_eq_none_iff awaits (Option.isSome_of_eq_some hres), stage]
    by_cases tcp : r.tcp = true
    · rw [if_pos tcp, tcp]
      exact ⟨fun refused => (nomatch refused.1), fun refused => (nomatch refused.1)⟩
    · rw [if_neg tcp]
      exact ⟨fun refused => ⟨Bool.eq_false_iff.mpr tcp, refused.2⟩,
        fun refused => ⟨rfl, refused.2⟩⟩
  · rcases t.exists_moments_run d now (d.begin now s r n).1 with ⟨ms, result, journal⟩
    refine ⟨ms, result, ?_⟩
    show (t.run d now (d.begin now s r n).1).shared.journal = _
    rw [journal, extends_begin.eq_append_since]
    rfl

/-- One sink wants queries only, the other one takes both and has no room for either. -/
def twoSinks : List Sink :=
  [{ wantsResponses := false }, { answer := fun _ => some .pipeFull }]

/-- The next datagram is a single octet. -/
def scrapNetwork : Network where
  datagram := .reply false 0 (.ok #[7])

/-- What cannot be decoded is reported, to the sink that wants responses. -/
theorem accounts_begin_scrap :
    let d := withSinks {} twoSinks
    let t := (d.begin 0 idleShared rootRequest scrapNetwork).2
    let opening := d.opening 0 idleShared rootRequest scrapNetwork
    let deeds := t.deeds d (List.replicate 3 ⟨0, idleShared⟩)
    opening.received 0 = [.query (queryReport t)] ∧
      opening.received 1 = [.query (queryReport t)] ∧ deeds.received 0 = [] ∧
      ∃ x : IncomingResponse, deeds.received 1 = [.response x] ∧ x.toExchange = t.exchange ∧
        x.bytes = 1 ∧ x.rcode = some .formErr := by
  intro d t opening deeds
  rcases accounts_begin (withSinks {} twoSinks) 0 idleShared rootRequest scrapNetwork with
    ⟨-, -, query, reports, -⟩
  rcases reports (List.replicate 3 ⟨0, idleShared⟩) with ⟨response, told, same, -, ends⟩
  have scrap : Message.decode #[7] = .error .shortInput := rfl
  rcases ends { kind := .success, rcode := .formErr } rfl with ⟨reported, -⟩
  have judged : Reported d rootRequest { kind := .success, rcode := .formErr }
      (some (.ok #[7])) response := reported
  cases judged with
  | judged _ _ _ isSome shows =>
      rcases Option.isSome_iff_exists.mp (isSome.mpr (.inl ⟨_, scrap⟩)) with ⟨x, hx⟩
      rcases shows x hx with ⟨bytes, rcode, -, -⟩
      rw [hx] at told
      exact ⟨query 0 _ rfl, query 1 _ rfl, told 0 _ rfl, x, told 1 _ rfl, same x hx, bytes, rcode⟩

end Dispatcher

end Querier
