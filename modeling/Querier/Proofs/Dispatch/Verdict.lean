import Querier.Proofs.Dispatch.Quiet

/-!
# What makes a response usable

An exchange ends with a valid packet in two cases only: the response repeats the
name that was asked for and is no spoof, or it is a bare format error. All else that
a transport may deliver leaves nothing of itself in the result but the response code
and two flags.

`Verdict` says this of a result, in terms of the decoded message alone. `Delivers`
says that the transport, whichever it is, comes up with certain octets in an
exchange.

## Main results

* `Validation.verdict_validate`: validation gives the verdict.
* `Dispatcher.resolve_verdict`: so does an exchange, over datagrams as over streams,
  and it counts exactly the responses that cannot be decoded.
-/

namespace Querier

/-! ## Verdicts -/

/-- A response echoes another client subnet than was sent. Only a datagram can be sent by
someone else, so only there this is held against it. -/
def Spoofs (r : Request) (m : Message) : Prop :=
  r.tcp = false ∧ 0 < r.ednsLevel ∧
    ∃ sent o echoed, r.sourceMask = some sent ∧ m.opt = some o ∧
      o.clientSubnet? = some echoed ∧ echoed.source ≠ sent

/-- A response repeats the name that was asked for, in whatever case. -/
def Repeats (r : Request) (m : Message) : Prop :=
  ∃ q, m.question = some q ∧ q.qname.same r.qname = true

/-- A format error without a question: what a server says that does not know EDNS. -/
def Message.IsBareFormatError (m : Message) : Prop :=
  m.question = none ∧ m.header.rcode = .formErr

/-- What can be used as the response to a request. -/
def Usable (r : Request) (m : Message) : Prop :=
  m.IsBareFormatError ∨ (Repeats r m ∧ ¬ Spoofs r m)

/-- The result of an exchange in which `data` was delivered is what it has to be. -/
structure Verdict (r : Request) (data : Octets) (res : Resolution) : Prop where
  /-- Exactly the usable responses are valid packets. -/
  valid_iff : res.validPacket = true ↔ ∃ m, Message.decode data = .ok m ∧ Usable r m
  /-- A valid packet is a success. It shows the header and the records of the response. -/
  valid : ∀ m, Message.decode data = .ok m → res.validPacket = true →
    res.kind = .success ∧ res.rcode = m.header.rcode ∧ res.aa = m.header.aa ∧
      res.tc = m.header.tc ∧ res.records = if m.question.isNone then [] else m.records
  /-- Nothing of a response that is not valid gets through. -/
  blank : res.validPacket = false → res.records = [] ∧ res.subnet = none
  /-- What cannot be decoded is a success with a format error. -/
  broken_iff : res.validPacket = false →
    ((res.kind = .success ∧ res.rcode = .formErr) ↔ ∃ e, Message.decode data = .error e)
  spoofed_iff : res.validPacket = false →
    (res.kind = .spoofed ↔ ∃ m, Message.decode data = .ok m ∧ Repeats r m ∧ Spoofs r m)
  /-- Everything else is a permanent error, and never one without an error code. -/
  mismatch : ∀ m, Message.decode data = .ok m → res.validPacket = false → ¬ Repeats r m →
    res.kind = .permanentError ∧
      res.rcode = if m.header.rcode = .noError then .servFail else m.header.rcode

theorem Request.sentSubnet_eq_some_iff {r : Request} {sent : Subnet} :
    r.sentSubnet = some sent ↔ 0 < r.ednsLevel ∧ r.sourceMask = some sent := by
  unfold sentSubnet hasEdns
  by_cases edns : 0 < r.ednsLevel
  · rw [if_pos (decide_eq_true edns)]
    exact ⟨fun h => ⟨edns, h⟩, fun h => h.2⟩
  · rw [if_neg (by rwa [decide_eq_true_eq])]
    exact ⟨nofun, fun h => absurd h.1 edns⟩

namespace Validation

variable {c : Config} {r : Request} {res : Resolution} {m : Message}

/-! ## The cases of validation -/

/-- The result so far with what the header says. -/
def withHeader (res : Resolution) (m : Message) : Resolution :=
  { res with aa := m.header.aa, tc := m.header.tc, rcode := m.header.rcode }

theorem ofMessage_bareFormatError (h : m.IsBareFormatError) :
    (ofMessage r res m).resolution = { withHeader res m with validPacket := true } := by
  obtain ⟨hquestion, hrcode⟩ := h
  simp only [ofMessage, hquestion, hrcode, if_true, withoutQuestion, withHeader]

theorem ofMessage_repeats (h : Repeats r m) :
    ofMessage r res m = checkSubnet r (withHeader res m) m := by
  obtain ⟨q, hquestion, same⟩ := h
  simp only [ofMessage, hquestion, same, if_true, withHeader]

theorem ofMessage_mismatch (hrepeats : ¬ Repeats r m) (hbare : ¬ m.IsBareFormatError) :
    (ofMessage r res m).resolution = { withHeader res m with
      kind := .permanentError
      rcode := if m.header.rcode = .noError then .servFail else m.header.rcode } := by
  unfold ofMessage
  cases hquestion : m.question with
  | none =>
      have hrcode : m.header.rcode ≠ .formErr := fun h => hbare ⟨hquestion, h⟩
      simp only [hrcode, if_false, wrongQuestion, withHeader]
  | some q =>
      have differs : q.qname.same r.qname = false :=
        Bool.eq_false_iff.mpr fun h => hrepeats ⟨q, hquestion, h⟩
      simp only [differs, Bool.false_eq_true, if_false, wrongQuestion, withHeader]

theorem echo?_eq_some_iff {o : Opt} {sent : Subnet} {echoed : ClientSubnet} :
    echo? r o = some (sent, echoed) ↔
      0 < r.ednsLevel ∧ r.sourceMask = some sent ∧ o.clientSubnet? = some echoed := by
  rw [← and_assoc, ← Request.sentSubnet_eq_some_iff, echo?]
  cases r.sentSubnet with
  | none => exact ⟨nofun, nofun⟩
  | some sent' =>
      cases o.clientSubnet? with
      | none => exact ⟨nofun, nofun⟩
      | some echoed' => simp only [Option.some.injEq, Prod.mk.injEq]

theorem checkSubnet_spoofs (res : Resolution) (h : Spoofs r m) : ∃ sent echoed,
    checkSubnet r res m = spoofed r { res with haveEdns := true } sent echoed := by
  obtain ⟨htcp, hedns, sent, o, echoed, hsent, hopt, hechoed, ne⟩ := h
  have has : r.hasEdns = true := decide_eq_true hedns
  have hecho : echo? r o = some (sent, echoed) := echo?_eq_some_iff.mpr ⟨hedns, hsent, hechoed⟩
  refine ⟨sent, echoed.source, ?_⟩
  simp only [checkSubnet, hopt, has, if_true, hecho, htcp, Bool.not_false, Bool.true_and,
    bne_iff_ne.mpr ne]

theorem checkSubnet_not_spoofs (res : Resolution) (h : ¬ Spoofs r m) :
    checkSubnet r res m =
      accepted { res with haveEdns := (m.opt.isSome && r.hasEdns) || res.haveEdns } m.records
        ((m.opt.bind (echo? r)).bind fun both => validFor both.1 both.2) := by
  unfold checkSubnet
  cases hopt : m.opt with
  | none => rfl
  | some o =>
      by_cases has : r.hasEdns = true
      · simp only [has, if_true, Option.isSome_some, Bool.true_and, Bool.true_or,
          Option.bind_some]
        cases hecho : echo? r o with
        | none => rfl
        | some both =>
            by_cases differs : (!r.tcp && both.2.source != both.1) = true
            · -- here the code says that it is spoofed, so it is
              obtain ⟨hedns, hsent, hechoed⟩ := echo?_eq_some_iff.mp hecho
              rw [Bool.and_eq_true, Bool.not_eq_true', bne_iff_ne] at differs
              exact absurd ⟨differs.1, hedns, both.1, o, both.2, hsent, hopt, hechoed,
                differs.2⟩ h
            · simp only [if_neg differs]
              rfl
      · have unsent : echo? r o = none := by rw [echo?, Request.sentSubnet, if_neg has]
        simp only [Option.bind_some, unsent, Bool.eq_false_iff.mpr has,
          Bool.and_false, Bool.false_or]
        rfl

/-! ## Validation gives the verdict -/

theorem verdict_broken (elapsed : Duration) (chained : Bool) {data : Octets} {e : DecodeError}
    (h : Message.decode data = .error e) :
    Verdict r data (broken c r (Task.draft elapsed chained) e).resolution where
  valid_iff := ⟨nofun, fun ⟨_, hm, _⟩ => nomatch h.symm.trans hm⟩
  valid _ hm := nomatch h.symm.trans hm
  blank _ := ⟨rfl, rfl⟩
  broken_iff _ := ⟨fun _ => ⟨e, h⟩, fun _ => ⟨rfl, rfl⟩⟩
  spoofed_iff _ := ⟨nofun, fun ⟨_, hm, _⟩ => nomatch h.symm.trans hm⟩
  mismatch _ hm := nomatch h.symm.trans hm

theorem verdict_bareFormatError (elapsed : Duration) (chained : Bool) {data : Octets}
    (h : Message.decode data = .ok m) (hbare : m.IsBareFormatError) :
    Verdict r data { withHeader (Task.draft elapsed chained) m with validPacket := true } where
  valid_iff := ⟨fun _ => ⟨m, h, .inl hbare⟩, fun _ => rfl⟩
  valid m' hm _ := by
    cases h.symm.trans hm
    refine ⟨rfl, rfl, rfl, rfl, ?_⟩
    rw [hbare.1]
    rfl
  blank := nofun
  broken_iff := nofun
  spoofed_iff := nofun
  mismatch _ _ := nofun

theorem verdict_mismatch (elapsed : Duration) (chained : Bool) {data : Octets}
    (h : Message.decode data = .ok m) (hrepeats : ¬ Repeats r m)
    (hbare : ¬ m.IsBareFormatError) :
    Verdict r data { withHeader (Task.draft elapsed chained) m with
      kind := .permanentError
      rcode := if m.header.rcode = .noError then .servFail else m.header.rcode } where
  valid_iff := by
    refine ⟨nofun, fun ⟨m', hm, husable⟩ => ?_⟩
    cases h.symm.trans hm
    exact husable.elim (absurd · hbare) fun hanswer => absurd hanswer.1 hrepeats
  valid _ _ := nofun
  blank _ := ⟨rfl, rfl⟩
  broken_iff _ := ⟨nofun, fun ⟨_, he⟩ => nomatch h.symm.trans he⟩
  spoofed_iff _ := by
    refine ⟨nofun, fun ⟨m', hm, hrepeats', _⟩ => ?_⟩
    cases h.symm.trans hm
    exact absurd hrepeats' hrepeats
  mismatch m' hm _ _ := by
    cases h.symm.trans hm
    exact ⟨rfl, rfl⟩

theorem verdict_spoofed (elapsed : Duration) (chained : Bool) {data : Octets}
    (h : Message.decode data = .ok m) (hrepeats : Repeats r m) (hspoofs : Spoofs r m) :
    Verdict r data { withHeader (Task.draft elapsed chained) m with
      haveEdns := true, kind := .spoofed } where
  valid_iff := by
    refine ⟨nofun, fun ⟨m', hm, husable⟩ => ?_⟩
    cases h.symm.trans hm
    obtain hbare | hanswer := husable
    · obtain ⟨q, hquestion, -⟩ := hrepeats
      cases hbare.1.symm.trans hquestion
    · exact absurd hspoofs hanswer.2
  valid _ _ := nofun
  blank _ := ⟨rfl, rfl⟩
  broken_iff _ := ⟨nofun, fun ⟨_, he⟩ => nomatch h.symm.trans he⟩
  spoofed_iff _ := ⟨fun _ => ⟨m, h, hrepeats, hspoofs⟩, fun _ => rfl⟩
  mismatch m' hm _ hother := by
    cases h.symm.trans hm
    exact absurd hrepeats hother

theorem verdict_answer (elapsed : Duration) (chained : Bool) {data : Octets}
    (h : Message.decode data = .ok m) (hrepeats : Repeats r m) (hspoofs : ¬ Spoofs r m)
    (haveEdns : Bool) (subnet : Option Subnet) :
    Verdict r data { withHeader (Task.draft elapsed chained) m with
      haveEdns, records := m.records, subnet, validPacket := true } where
  valid_iff := ⟨fun _ => ⟨m, h, .inr ⟨hrepeats, hspoofs⟩⟩, fun _ => rfl⟩
  valid m' hm _ := by
    cases h.symm.trans hm
    obtain ⟨q, hquestion, -⟩ := hrepeats
    refine ⟨rfl, rfl, rfl, rfl, ?_⟩
    rw [hquestion]
    rfl
  blank := nofun
  broken_iff := nofun
  spoofed_iff := nofun
  mismatch _ _ := nofun

theorem verdict_validate (c : Config) (r : Request) (elapsed : Duration) (chained : Bool)
    (data : Octets) :
    Verdict r data (validate c r (Task.draft elapsed chained) data).resolution := by
  unfold validate
  cases h : Message.decode data with
  | error e => exact verdict_broken elapsed chained h
  | ok m =>
      simp only
      by_cases hbare : m.IsBareFormatError
      · rw [ofMessage_bareFormatError hbare]
        exact verdict_bareFormatError elapsed chained h hbare
      · by_cases hrepeats : Repeats r m
        · rw [ofMessage_repeats hrepeats]
          by_cases hspoofs : Spoofs r m
          · obtain ⟨sent, echoed, hchecked⟩ := checkSubnet_spoofs _ hspoofs
            rw [hchecked]
            exact verdict_spoofed elapsed chained h hrepeats hspoofs
          · rw [checkSubnet_not_spoofs _ hspoofs]
            exact verdict_answer elapsed chained h hrepeats hspoofs _ _
        · rw [ofMessage_mismatch hrepeats hbare]
          exact verdict_mismatch elapsed chained h hrepeats hbare

theorem undecodable_checkSubnet : (checkSubnet r res m).undecodable = false := by
  by_cases hspoofs : Spoofs r m
  · obtain ⟨sent, echoed, hchecked⟩ := checkSubnet_spoofs res hspoofs
    rw [hchecked]
    rfl
  · rw [checkSubnet_not_spoofs res hspoofs]
    rfl

theorem undecodable_ofMessage : (ofMessage r res m).undecodable = false := by
  unfold ofMessage
  split
  · simp only
    split <;> rfl
  · simp only
    split
    · exact undecodable_checkSubnet
    · rfl

theorem undecodable_validate (c : Config) (r : Request) (res : Resolution) (data : Octets) :
    (validate c r res data).undecodable = !(Message.decode data).isOk := by
  unfold validate
  cases Message.decode data with
  | error e => rfl
  | ok m => exact undecodable_ofMessage

end Validation

/-! ## Exchanges -/

/-- Whether the transport of an exchange has not come up with anything yet. -/
def Stage.awaitsReply : Stage → Bool
  | .sending | .waiting _ | .acquiring | .connecting | .exchanging .. => true
  | .answered .. | .spreading .. | .finished _ => false

namespace Task

/-- In the rest of an exchange the transport, be it datagrams or streams, comes up with
`data`. -/
inductive Delivers (d : Dispatcher) (data : Octets) : Task → Time → Shared → Prop where
  | reply {t now s chained c} (h : t.stage = .answered (.ok data) chained c) :
      Delivers d data t now s
  | step {t now s} (h : t.stage.awaitsReply = true)
      (rest : Delivers d data (t.step d now s).2.1 (now + (t.step d now s).2.2)
        (t.step d now s).1) : Delivers d data t now s

variable {t : Task} {d : Dispatcher} {now : Time} {s : Shared} {data : Octets}

theorem step_of_awaitsReply (d : Dispatcher) (now : Time) (s : Shared)
    (h : t.stage.awaitsReply = true) :
    (t.step d now s).1.parseErrors = s.parseErrors ∧
      (t.step d now s).2.1.request = t.request := by
  unfold step
  split
  · unfold stepSending
    split <;> exact ⟨rfl, rfl⟩
  · exact ⟨rfl, rfl⟩
  · simp only [stepAcquiring, Shared.acquire]
    split <;> exact ⟨rfl, rfl⟩
  · simp only [stepConnecting]
    split <;> exact ⟨rfl, rfl⟩
  · simp only [stepExchanging]
    split
    · exact ⟨rfl, rfl⟩
    · split <;> exact ⟨rfl, rfl⟩
  all_goals
    rename_i hstage
    rw [hstage] at h
    cases h

theorem parseErrors_settle (t : Task) (now : Time) (s : Shared) (good : Bool)
    (c : Option Connection) : (t.settle now s good c).parseErrors = s.parseErrors := by
  unfold settle
  split
  · rfl
  · split <;> rfl

/-- An exchange that has a response ends with what validation makes of it. -/
theorem run_conclude (t : Task) (d : Dispatcher) (now later : Time) (s : Shared)
    (elapsed : Duration) (data : Octets) (chained : Bool) (c : Option Connection) :
    let x := t.conclude d now s elapsed data chained c
    (x.2.run d later x.1).resolution =
        (validate d.config t.request (draft elapsed chained) data).resolution ∧
      (x.2.run d later x.1).shared.parseErrors =
        s.parseErrors + if (Message.decode data).isOk then 0 else 1 := by
  intro x
  rw [run_finished (show x.2.result? = some _ from rfl)]
  refine ⟨rfl, ?_⟩
  show (t.settle now _ _ c).parseErrors = _
  rw [parseErrors_settle, (t.quiet_record d s ..).parseErrors, Validation.undecodable_validate]
  cases (Message.decode data).isOk <;> rfl

theorem run_spreading (t : Task) (d : Dispatcher) (now : Time) (s : Shared)
    {elapsed : Duration} (h : t.stage = .spreading data elapsed) :
    (t.run d now s).resolution =
        (validate d.config t.request (draft elapsed true) data).resolution ∧
      (t.run d now s).shared.parseErrors =
        s.parseErrors + if (Message.decode data).isOk then 0 else 1 := by
  have unfinished : t.result? = none := by rw [result?, h]
  rw [run_step unfinished]
  simp only [step, h]
  exact run_conclude t d now (now + 0) s elapsed data true none

theorem run_answered {chained : Bool} {c : Option Connection}
    (h : t.stage = .answered (.ok data) chained c) :
    (∃ elapsed, (t.run d now s).resolution =
        (validate d.config t.request (draft elapsed chained) data).resolution) ∧
      (t.run d now s).shared.parseErrors =
        s.parseErrors + if (Message.decode data).isOk then 0 else 1 := by
  have unfinished : t.result? = none := by rw [result?, h]
  rw [run_step unfinished]
  simp only [step, h, stepAnswered]
  cases chained with
  | false =>
      obtain ⟨hresolution, hcount⟩ := run_conclude t d now (now + 0) s (now - t.started) data false c
      exact ⟨⟨_, hresolution⟩, hcount⟩
  | true =>
      -- the response is held back for a while, and then concluded
      simp only [if_true]
      obtain ⟨hresolution, hcount⟩ := run_spreading (t.moveTo (.spreading data (now - t.started))) d
        (now + (d.jitter s (now - t.started)).1) (d.jitter s (now - t.started)).2 rfl
      rw [(d.quiet_jitter s (now - t.started)).parseErrors] at hcount
      exact ⟨⟨_, hresolution⟩, hcount⟩

/-- Whatever the transport comes up with is judged. -/
theorem Delivers.verdict (h : Delivers d data t now s) :
    Verdict t.request data (t.run d now s).resolution ∧
      (t.run d now s).shared.parseErrors =
        s.parseErrors + if (Message.decode data).isOk then 0 else 1 := by
  induction h with
  | @reply t now s chained c hstage =>
      obtain ⟨⟨elapsed, hresolution⟩, hcount⟩ := run_answered hstage
      rw [hresolution]
      exact ⟨Validation.verdict_validate .., hcount⟩
  | @step t now s hawaits _ ih =>
      have unfinished : t.result? = none := by
        unfold result?
        split
        · rename_i hstage
          rw [hstage] at hawaits
          cases hawaits
        · rfl
      obtain ⟨hcount, hrequest⟩ := step_of_awaitsReply d now s hawaits
      rw [run_step unfinished]
      rw [hrequest, hcount] at ih
      exact ih

end Task

namespace Dispatcher

/-- In an exchange for a request the transport, be it datagrams or streams, comes up with
`data`. -/
def Delivers (d : Dispatcher) (now : Time) (s : Shared) (r : Request) (n : Network)
    (data : Octets) : Prop :=
  Task.Delivers d data (d.begin now s r n).2 now (d.begin now s r n).1

section

variable {d : Dispatcher} {now : Time} {s : Shared} {r : Request} {n : Network} {data : Octets}

theorem task_begin (d : Dispatcher) (now : Time) (s : Shared) (r : Request) (n : Network) :
    (d.begin now s r n).2.stage = (if r.tcp then .acquiring else .sending) ∧
      (d.begin now s r n).2.network = n ∧ (d.begin now s r n).2.request = r := ⟨rfl, rfl, rfl⟩

/-- A datagram that comes in time is delivered. -/
theorem delivers_datagram {chained : Bool} {delay : Duration} (udp : r.tcp = false)
    (plan : n.datagram = .reply chained delay (.ok data))
    (inTime : delay ≤ d.config.networkTimeout) : d.Delivers now s r n data := by
  unfold Delivers
  obtain ⟨sending, network, -⟩ := d.task_begin now s r n
  rw [udp, if_neg Bool.false_ne_true] at sending
  refine .step (by rw [sending]; rfl) ?_
  simp only [Task.step, sending, Task.stepSending, network, plan]
  refine .step rfl ?_
  simp only [Task.step, Task.moveTo, Task.stepWaiting, Task.awaitPlan, if_pos inTime]
  exact .reply rfl

/-- So is what a new connection brings, if there is none in the pool. -/
theorem delivers_stream {delay : Duration} {stream : Stream} (tcp : r.tcp = true)
    (empty : (s.pool.acquire now r.server (d.begin now s r n).2.tls).conn = none)
    (connects : n.connects.head? = some ⟨delay, .ok stream⟩)
    (reply : (stream.exchange (d.begin now s r n).2.message d.config.networkTimeout).reply =
      .ok data) : d.Delivers now s r n data := by
  unfold Delivers
  have pool := (d.quiet_begin s now r n).pool
  obtain ⟨acquiring, network, request⟩ := d.task_begin now s r n
  rw [tcp, if_pos rfl] at acquiring
  refine .step (by rw [acquiring]; rfl) ?_
  simp only [Task.step, acquiring, Task.stepAcquiring, Shared.acquire, pool, request, empty]
  refine .step rfl ?_
  simp only [Task.step, Task.moveTo, Task.stepConnecting, network, connects, Option.getD_some]
  refine .step rfl ?_
  simp only [Task.step, Task.moveTo, Task.stepExchanging, Shared.openConnection,
    Connection.countQuery, reply]
  exact .reply rfl

end

/-- **What makes a resolution usable.** Whatever octets the transport delivers for a request,
the result of the exchange is a valid packet exactly if they are a usable response, shows the
response if it is one and nothing of it otherwise, and says what was wrong with it; and the
count of responses that cannot be decoded grows by one exactly if this one cannot. -/
theorem resolve_verdict (d : Dispatcher) (now : Time) (s : Shared) (r : Request) (n : Network)
    (data : Octets) (h : d.Delivers now s r n data) :
    Verdict r data (d.resolve now s r n).resolution ∧
      (d.resolve now s r n).shared.parseErrors =
        s.parseErrors + if (Message.decode data).isOk then 0 else 1 := by
  obtain ⟨hverdict, hcount⟩ := h.verdict
  rw [(d.quiet_begin s now r n).parseErrors] at hcount
  exact ⟨hverdict, hcount⟩

/-- A format error without a question. -/
def formatError : Octets := #[0, 7, 128, 1, 0, 0, 0, 0, 0, 0, 0, 0]

def rootRequest : Request where
  server := .of (.unspecified .v4) 53
  qname := .root
  qtype := .mx

/-- A dispatcher that has not done anything yet. -/
def idleShared : Shared where
  pool := { config := {} }
  random := ⟨fun _ => 7, fun _ => 0, fun _ => 0, 0, [], 0⟩

/-- The next datagram is a format error. -/
def formatErrorNetwork : Network where
  datagram := .reply false 0 (.ok formatError)

/-- A name server that does not know EDNS says so, and that is a valid packet. -/
theorem resolve_verdict_formatError :
    Delivers {} 0 idleShared rootRequest formatErrorNetwork formatError ∧
      (resolve {} 0 idleShared rootRequest formatErrorNetwork).resolution.validPacket = true ∧
      (resolve {} 0 idleShared rootRequest formatErrorNetwork).shared.parseErrors = 0 := by
  have delivered : Delivers {} 0 idleShared rootRequest formatErrorNetwork formatError :=
    delivers_datagram rfl rfl (by decide)
  obtain ⟨verdict, count⟩ :=
    resolve_verdict {} 0 idleShared rootRequest formatErrorNetwork formatError delivered
  have header : (Message.decode formatError).toOption.any
      (fun m => m.question.isNone && m.header.rcode == .formErr) = true := by decide +kernel
  cases hdecode : Message.decode formatError with
  | error e =>
      rw [hdecode] at header
      cases header
  | ok m =>
      rw [hdecode] at header count
      simp only [Except.toOption, Option.any_some, Bool.and_eq_true, Option.isNone_iff_eq_none,
        beq_iff_eq] at header
      exact ⟨delivered, verdict.valid_iff.mpr ⟨m, hdecode, .inl header⟩, count⟩

end Dispatcher

end Querier
