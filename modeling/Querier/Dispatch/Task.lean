import Querier.Dispatch.Journal
import Querier.Dispatch.Validation
import Querier.Pool
import Querier.Randomness

/-!
# Exchanges as tasks

A dispatcher performs one exchange per request. A `Task` is an exchange on its way: what
it asked, and the stage it is at. `Task.step` takes it to its next stage. A step is what
happens without waiting; it says how long the waiting after it lasts, and changes what
the tasks of a dispatcher share. Tasks may be stepped in any order.

Over streams a connection comes from the pool if there is one that fits. If an exchange
over a connection from the pool fails, the connection is closed and the exchange begins
again; over a new connection it is given up.

## Main results

* `Task.weight_step`: every step of an unfinished task makes its weight smaller, so an
  exchange ends after as many steps as its weight says.
-/

namespace Querier

/-! ## Surroundings -/

/-- What the datagram transport will make of a query. -/
inductive DatagramPlan where
  /-- It cannot be sent. -/
  | refused (e : TransportError)
  /-- A result comes after a delay. -/
  | reply (chained : Bool) (delay : Duration) (r : Except TransportError Octets)
  /-- No result comes. -/
  | lost (chained : Bool)

/-- What the connector will make of a request for a connection. -/
structure ConnectPlan where
  delay : Duration := 0
  outcome : Except TransportError Stream

/-- What the network will do in an exchange. -/
structure Network where
  datagram : DatagramPlan := .lost false
  /-- What connecting leads to, each time. After the last, connections are refused. -/
  connects : List ConnectPlan := []

/-- What a dispatcher is made of. -/
structure Dispatcher where
  config : Config := {}
  /-- Whether the connector can set up TLS. -/
  tlsAvailable : Bool := false
  sinks : List Sink := []
  /-- The types of records that response events show. -/
  exported : List RecordType := []

/-- What the exchanges of a dispatcher share. -/
structure Shared where
  pool : Pool
  random : Randomness
  /-- How many responses could not be decoded. -/
  parseErrors : UInt64 := 0
  /-- How many times TLS was asked for but not available. -/
  dotUnavailable : UInt64 := 0
  /-- The number of the next connection. -/
  nextConnection : Nat := 0
  journal : Journal := {}

namespace Shared

/-- Adds a journal entry. -/
def note (s : Shared) (e : Entry) : Shared := { s with journal := s.journal.push e }

/-- Adds log events to the journal. -/
def log (s : Shared) (events : List LogEvent) : Shared :=
  { s with journal := s.journal.log events }

/-- Hands an event to sinks. -/
def deliver (s : Shared) (sinks : List Sink) (e : TelemetryEvent) : Shared :=
  { s with journal := s.journal.deliver e 0 sinks }

/-- Takes a connection from the pool. -/
def acquire (s : Shared) (now : Time) (server : SocketAddress) (tls : Bool) :
    Option Connection × Shared :=
  let a := s.pool.acquire now server tls
  (a.conn, { s with pool := a.pool }.log (a.closed.map (Closing.note · server)))

/-- Gives a connection back to the pool. -/
def release (s : Shared) (now : Time) (server : SocketAddress) (c : Connection) : Shared :=
  let (pool, closing) := s.pool.release now server c
  { s with pool }.log (closing.toList.map (Closing.note · server))

/-- Closes a connection that failed. -/
def discard (s : Shared) (c : Connection) : Shared := s.log [c.discardNote]

/-- Makes a stream a connection. -/
def openConnection (s : Shared) (stream : Stream) (tls : Bool) : Connection × Shared :=
  ({ id := s.nextConnection, stream, tls }, { s with nextConnection := s.nextConnection + 1 })

end Shared

/-! ## Tasks -/

/-- How far an exchange is. -/
inductive Stage where
  /-- The query is about to go out as a datagram. -/
  | sending
  /-- The query went out as a datagram. -/
  | waiting (plan : DatagramPlan)
  /-- A connection is about to be taken from the pool. -/
  | acquiring
  /-- The pool had no connection, so one is asked for. -/
  | connecting
  /-- The query is about to go out over a connection. -/
  | exchanging (c : Connection) (fresh : Bool)
  /-- There is a response, or none will come. -/
  | answered (reply : Except TransportError Octets) (chained : Bool) (c : Option Connection)
  /-- A shared response is held back for a while. -/
  | spreading (data : Octets) (elapsed : Duration)
  | finished (r : Resolution)

/-- An exchange on its way. -/
structure Task where
  request : Request
  /-- What its events say. -/
  exchange : Exchange
  tls : Bool
  message : Octets
  /-- When the query went out. -/
  started : Time
  /-- What the network will do in it. -/
  network : Network
  stage : Stage

namespace Dispatcher

/-- DNS over TLS is served on this port. -/
def dotPort : UInt16 := 853

/-- Whether a stream query to a server has to use TLS. -/
def wantsTls (d : Dispatcher) (r : Request) : Bool :=
  r.tcp && d.config.dotToPort853 && r.server.port == dotPort

/-- Whether a query uses TLS. Where it should but cannot, that is logged and counted. -/
def useTls (d : Dispatcher) (r : Request) (s : Shared) : Bool × Shared :=
  if d.wantsTls r then
    if d.tlsAvailable then (true, s)
    else (false, { s with dotUnavailable := s.dotUnavailable + 1 }.log [{
      level := .error
      message := "DoT requested but not available"
      fields := [("server", r.server.toText)] }])
  else (false, s)

/-- The identifier of an exchange. It is only drawn if there is a sink. -/
def messageId (d : Dispatcher) (s : Shared) : MessageId × Shared :=
  if d.sinks.isEmpty then (⟨Vector.replicate 16 0⟩, s)
  else
    let (octets, random) := s.random.nextOctets
    (⟨octets⟩, { s with random })

/-- How a query is carried. -/
def protocol (tls : Bool) (r : Request) : Protocol :=
  if tls then .dot else if r.tcp then .tcp else .udp

/-- Begins an exchange: draws the identifiers, builds the query, and reports it. -/
def begin (d : Dispatcher) (now : Time) (s : Shared) (r : Request) (n : Network) :
    Shared × Task :=
  let (id, random) := s.random.nextId
  let (tls, s) := d.useTls r { s with random }
  let message := d.config.buildQuery r id tls
  let (messageId, s) := d.messageId s
  let exchange : Exchange := {
    messageId
    initialRequestId := r.initialRequestId
    protocol := protocol tls r
    server := r.server
    id
    qname := r.qname
    qtype := r.qtype
    nsName := r.nsName }
  let s := s.deliver d.sinks
    (.query { exchange with bytes := message.size, subnet := r.sentSubnet })
  (s, { request := r, exchange, tls, message, started := now, network := n
        stage := if r.tcp then .acquiring else .sending })

/-- Reports the end of an exchange. -/
def respond (d : Dispatcher) (t : Task) (s : Shared) (elapsed : Duration) (bytes : Nat)
    (rcode : Option ResponseCode) (records : List Record) (subnet : Option Subnet) : Shared :=
  s.deliver d.sinks (.response { t.exchange with
    elapsed
    bytes
    rcode
    records := records.filter fun r => d.exported.contains r.rtype
    subnet })

/-- How long a shared response that took `elapsed` is held back at most: not at all
unless it took more than two thirds of the time there is. -/
def jitterBound (d : Dispatcher) (elapsed : Duration) : Option Nat :=
  let msec := Duration.toMicros elapsed % UInt64.size / 1000
  if Duration.toMillis d.config.networkTimeout * 2 / 3 < msec then some msec else none

/-- Draws how long a shared response is held back. -/
def jitter (d : Dispatcher) (s : Shared) (elapsed : Duration) : Duration × Shared :=
  match d.jitterBound elapsed with
  | none => (0, s)
  | some bound =>
    let (ms, random) := s.random.below bound
    (Duration.ofMillis ms, { s with random })

end Dispatcher

namespace Task

/-- The result so far of an exchange that took `elapsed`. -/
def draft (elapsed : Duration) (chained : Bool) : Resolution :=
  { kind := .success, usec := UInt64.ofNat (Duration.toMicros elapsed), chained }

/-- The log event for a query that failed. -/
def failureNote (t : Task) (message : String) (e : TransportError) : LogEvent where
  level := .debug
  message := message
  fields := [("server", t.request.server.toText), ("qname", t.request.qname.toText),
    ("error", e.message)]

/-- The log event for another attempt. -/
def retryNote (t : Task) (e : TransportError) : LogEvent where
  level := .trace
  message := "pooled connection failed, retrying"
  fields := [("server", t.request.server.toText), ("error", e.message)]

/-- The task at another stage. -/
def moveTo (t : Task) (stage : Stage) : Task := { t with stage }

/-- Logs and reports what validation found. -/
def record (t : Task) (d : Dispatcher) (s : Shared) (elapsed : Duration) (bytes : Nat)
    (v : Validation) : Shared :=
  let s := s.log v.notes
  let s := if v.undecodable then { s with parseErrors := s.parseErrors + 1 } else s
  match v.report with
  | none => s
  | some r => d.respond t s elapsed bytes (some r.rcode) r.records r.subnet

/-- Deals with the connection of an exchange: it goes back to the pool if it brought a good
response, and is closed otherwise. -/
def settle (t : Task) (now : Time) (s : Shared) (good : Bool) : Option Connection → Shared
  | none => s
  | some c => if good then s.release now t.request.server c else s.discard c

/-- Validates a response and finishes. -/
def conclude (t : Task) (d : Dispatcher) (now : Time) (s : Shared) (elapsed : Duration)
    (data : Octets) (chained : Bool) (c : Option Connection) : Shared × Task :=
  let v := validate d.config t.request (draft elapsed chained) data
  let s := t.record d s elapsed data.size v
  (t.settle now s v.resolution.validPacket c, t.moveTo (.finished v.resolution))

/-- A reply, the wait for it bounded by `timeout`. -/
def awaitPlan (timeout : Duration) : DatagramPlan → Except TransportError Octets × Duration
  | .reply _ delay r => if delay ≤ timeout then (r, delay) else (.error .timeout, timeout)
  | .lost _ => (.error .timeout, timeout)
  | .refused e => (.error e, 0)

/-- Whether a reply is shared with an earlier query. -/
def isChained : DatagramPlan → Bool
  | .reply chained _ _ => chained
  | .lost chained => chained
  | .refused _ => false

/-- Hands the query to the datagram transport. -/
def stepSending (t : Task) (s : Shared) : Shared × Task × Duration :=
  let s := s.note (.datagram t.request.matchKey t.exchange.id t.message)
  match t.network.datagram with
  | .refused e =>
    (s.log [t.failureNote "sending query failed" e],
      t.moveTo (.finished { kind := e.kind }), 0)
  | plan => (s, t.moveTo (.waiting plan), 0)

/-- Waits for the reply to a datagram. -/
def stepWaiting (t : Task) (d : Dispatcher) (s : Shared) (plan : DatagramPlan) :
    Shared × Task × Duration :=
  let (reply, delay) := awaitPlan d.config.networkTimeout plan
  (s, t.moveTo (.answered reply (isChained plan) none), delay)

/-- Takes a connection from the pool. -/
def stepAcquiring (t : Task) (now : Time) (s : Shared) : Shared × Task × Duration :=
  let (c, s) := s.acquire now t.request.server t.tls
  match c with
  | some c => (s, t.moveTo (.exchanging c.countQuery false), 0)
  | none => (s, t.moveTo .connecting, 0)

/-- Asks for a connection. -/
def stepConnecting (t : Task) (d : Dispatcher) (s : Shared) : Shared × Task × Duration :=
  let s := s.note (.connect {
    server := t.request.server
    tls := t.tls
    serverName := t.request.nsName
    timeout := d.config.networkTimeout })
  let plan := t.network.connects.head?.getD
    { outcome := .error (.streamConnect (.bare .connectionRefused)) }
  let t := { t with network.connects := t.network.connects.tail }
  match plan.outcome with
  | .error e => (s, t.moveTo (.answered (.error e) false none), plan.delay)
  | .ok stream =>
    let (c, s) := s.openConnection stream t.tls
    (s, t.moveTo (.exchanging c.countQuery true), plan.delay)

/-- Exchanges the query over a connection. -/
def stepExchanging (t : Task) (d : Dispatcher) (s : Shared) (c : Connection) (fresh : Bool) :
    Shared × Task × Duration :=
  let x := c.stream.exchange t.message d.config.networkTimeout
  let c := { c with stream := x.stream }
  let s := s.note (.wrote c.id c.stream.label x.sent)
  match x.reply with
  | .ok data => (s, t.moveTo (.answered (.ok data) false (some c)), x.elapsed)
  | .error e =>
    let s := s.discard c
    if fresh then (s, t.moveTo (.answered (.error e) false none), x.elapsed)
    else (s.log [t.retryNote e], t.moveTo .acquiring, x.elapsed)

/-- Deals with the end of the wait. -/
def stepAnswered (t : Task) (d : Dispatcher) (now : Time) (s : Shared)
    (reply : Except TransportError Octets) (chained : Bool) (c : Option Connection) :
    Shared × Task × Duration :=
  let elapsed := now - t.started
  match reply with
  | .error e =>
    let s := s.log [t.failureNote "query failed" e]
    let s := d.respond t s elapsed 0 none [] none
    (s, t.moveTo (.finished { draft elapsed chained with kind := e.kind }), 0)
  | .ok data =>
    if chained then
      let (hold, s) := d.jitter s elapsed
      (s, t.moveTo (.spreading data elapsed), hold)
    else
      let (s, t) := t.conclude d now s elapsed data chained c
      (s, t, 0)

/-- Takes an exchange to its next stage. Returns how long the wait lasts that follows. -/
def step (t : Task) (d : Dispatcher) (now : Time) (s : Shared) : Shared × Task × Duration :=
  match t.stage with
  | .sending => t.stepSending s
  | .waiting plan => t.stepWaiting d s plan
  | .acquiring => t.stepAcquiring now s
  | .connecting => t.stepConnecting d s
  | .exchanging c fresh => t.stepExchanging d s c fresh
  | .answered reply chained c => t.stepAnswered d now s reply chained c
  | .spreading data elapsed =>
    let (s, t) := t.conclude d now s elapsed data true none
    (s, t, 0)
  | .finished _ => (s, t, 0)

/-! ## Progress -/

end Task

/-- How many steps a stage is away from the end, given enough connections. -/
def Stage.rank : Stage → Nat
  | .finished _ => 0
  | .spreading .. => 3
  | .answered .. => 4
  | .exchanging _ true => 5
  | .waiting _ => 5
  | .connecting => 6
  | .sending => 6
  | .acquiring => 7
  | .exchanging _ false => 8

namespace Task

/-- The result of an exchange that has one. -/
def result? (t : Task) : Option Resolution :=
  match t.stage with
  | .finished r => some r
  | _ => none

/-- A bound on the steps of a task: every idle connection may cost two more. -/
def weight (t : Task) (s : Shared) : Nat := 2 * s.pool.size + t.stage.rank

theorem pool_record (t : Task) (d : Dispatcher) (s : Shared) (elapsed : Duration)
    (bytes : Nat) (v : Validation) : (t.record d s elapsed bytes v).pool = s.pool := by
  simp only [record]
  split <;> split <;> rfl

theorem size_settle_le (t : Task) (now : Time) (s : Shared) (good : Bool)
    (c : Option Connection) : (t.settle now s good c).pool.size ≤ s.pool.size + 1 := by
  unfold settle
  split
  · omega
  · rename_i c
    split
    · exact Pool.size_release_le s.pool now t.request.server c
    · exact Nat.le_succ _

theorem weight_conclude (t : Task) (d : Dispatcher) (now : Time) (s : Shared)
    (elapsed : Duration) (data : Octets) (chained : Bool) (c : Option Connection) :
    (t.conclude d now s elapsed data chained c).2.weight
      (t.conclude d now s elapsed data chained c).1 ≤ 2 * s.pool.size + 2 := by
  have settled := size_settle_le t now
    (t.record d s elapsed data.size (validate d.config t.request (draft elapsed chained) data))
    (validate d.config t.request (draft elapsed chained) data).resolution.validPacket c
  rw [pool_record] at settled
  simp only [conclude, weight, moveTo, Stage.rank]
  omega

theorem weight_stepSending (t : Task) (s : Shared) :
    (t.stepSending s).2.1.weight (t.stepSending s).1 < 2 * s.pool.size + 6 := by
  unfold stepSending
  split <;> simp [weight, moveTo, Stage.rank, Shared.note, Shared.log]

theorem weight_stepAcquiring (t : Task) (now : Time) (s : Shared) :
    (t.stepAcquiring now s).2.1.weight (t.stepAcquiring now s).1 < 2 * s.pool.size + 7 := by
  simp only [stepAcquiring, Shared.acquire]
  split
  · rename_i c found
    have := Pool.size_acquire_lt found
    simp only [weight, moveTo, Stage.rank, Shared.log]
    omega
  · have := Pool.size_acquire s.pool now t.request.server t.tls
    simp only [weight, moveTo, Stage.rank, Shared.log]
    omega

theorem weight_stepConnecting (t : Task) (d : Dispatcher) (s : Shared) :
    (t.stepConnecting d s).2.1.weight (t.stepConnecting d s).1 < 2 * s.pool.size + 6 := by
  simp only [stepConnecting]
  split <;> simp [weight, moveTo, Stage.rank, Shared.note, Shared.openConnection]

theorem weight_stepExchanging (t : Task) (d : Dispatcher) (s : Shared) (c : Connection)
    (fresh : Bool) :
    (t.stepExchanging d s c fresh).2.1.weight (t.stepExchanging d s c fresh).1
      < 2 * s.pool.size + Stage.rank (.exchanging c fresh) := by
  simp only [stepExchanging]
  split
  · cases fresh <;> simp [weight, moveTo, Stage.rank, Shared.note]
  · cases fresh <;> simp [weight, moveTo, Stage.rank, Shared.note, Shared.discard, Shared.log]

theorem weight_stepAnswered (t : Task) (d : Dispatcher) (now : Time) (s : Shared)
    (reply : Except TransportError Octets) (chained : Bool) (c : Option Connection) :
    (t.stepAnswered d now s reply chained c).2.1.weight
      (t.stepAnswered d now s reply chained c).1 < 2 * s.pool.size + 4 := by
  unfold stepAnswered
  split
  · simp [weight, moveTo, Stage.rank, Dispatcher.respond, Shared.deliver, Shared.log]
  · split
    · simp only [Dispatcher.jitter]
      split <;> simp [weight, moveTo, Stage.rank]
    · have := weight_conclude t d now s (now - t.started) ‹Octets› chained c
      simp only
      omega

/-- A step of an unfinished task makes its weight smaller. -/
theorem weight_step (t : Task) (d : Dispatcher) (now : Time) (s : Shared)
    (h : t.result? = none) :
    (t.step d now s).2.1.weight (t.step d now s).1 < t.weight s := by
  unfold result? at h
  unfold step
  split
  · rename_i stage
    have := weight_stepSending t s
    simp only [weight, stage, Stage.rank] at this ⊢
    omega
  · rename_i plan stage
    simp [weight, stepWaiting, moveTo, stage, Stage.rank]
  · rename_i stage
    have := weight_stepAcquiring t now s
    simp only [weight, stage, Stage.rank] at this ⊢
    omega
  · rename_i stage
    have := weight_stepConnecting t d s
    simp only [weight, stage, Stage.rank] at this ⊢
    omega
  · rename_i c fresh stage
    have := weight_stepExchanging t d s c fresh
    simp only [weight, stage] at this ⊢
    omega
  · rename_i reply chained c stage
    have := weight_stepAnswered t d now s reply chained c
    simp only [weight, stage, Stage.rank] at this ⊢
    omega
  · rename_i data elapsed stage
    have := weight_conclude t d now s elapsed data true none
    simp only [weight, stage, Stage.rank] at this ⊢
    omega
  · rename_i r stage
    simp [stage] at h

end Task

end Querier
