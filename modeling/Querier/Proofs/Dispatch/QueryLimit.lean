import Querier.Proofs.Dispatch.Alignment

/-!
# How many queries a connection carries

The pool looks at the counter of a connection only when it gets the connection back, and the
counter goes up long before, when a query is about to go out. So what keeps a connection within
its limit is the whole cycle: what is in the pool is below the limit, taking it up adds one, and
whatever is at the limit after its exchange does not come back.

An exchange is started when the counter goes up. Until it has ended, it is under way, and the
counter is one ahead of the history of the connection. `Metered` says so of every connection that
an exchange has or that is in the pool; that no connection is in two places is what makes one
exchange leave the counts of the others alone. A counter has 64 bits, and so does the limit, so
while there is a limit no counter ever begins again from zero.

## Main results

* `Task.passes_step`: how a step passes connections between the pool and the exchange.
* `Traffic.ended_step`, `Traffic.ended_leave`: what ends when an exchange goes on or is dropped.
* `Traffic.Metered.run`: where there is a limit, counters stay right and within it.
* `Traffic.started_le_run`: the limit holds of every connection.
-/

namespace Querier

open Shared (Quiet)

/-! ## Exchanges that have ended -/

namespace Stage

/-- Whether an exchange is under way over the connection with a number. -/
def sendsOver (id : Nat) : Stage → Bool
  | .exchanging c _ => c.id == id
  | .sending | .waiting _ | .acquiring | .connecting | .answered .. | .spreading ..
  | .finished _ => false

/-- How many exchanges over its connection have been started and not ended. -/
def pending : Stage → Nat
  | .exchanging .. => 1
  | .sending | .waiting _ | .acquiring | .connecting | .answered .. | .spreading ..
  | .finished _ => 0

/-- An exchange over a connection ends with the stage at which it is under way. -/
theorem length_uses_incident (message : Octets) (stage next : Stage) (id : Nat) :
    (uses (historyOf (stage.incident? message next).toList id)).length =
      if stage.sendsOver id = true then 1 else 0 := by
  have used (i : Nat) (reply : Option Octets) :
      (uses (historyOf [(i, .exchanged message reply)] id)).length =
        if (i == id) = true then 1 else 0 := by
    by_cases here : i = id
    · simp [historyOf, uses, Incident.use?, here]
    · simp [historyOf, uses, here]
  have unused (i : Nat) (e : Incident) (silent : e.use? = none) :
      (uses (historyOf [(i, e)] id)).length = 0 := by
    by_cases here : i = id
    · simp [historyOf, uses, here, silent]
    · simp [historyOf, uses, here]
  unfold incident?
  split
  · exact unused _ _ rfl
  · exact used ..
  · exact used ..
  · exact unused _ _ rfl
  · rename_i rested _ _ _
    cases stage with
    | exchanging c fresh => exact absurd rfl (rested c fresh)
    | _ => rfl

end Stage

/-! ## How connections pass -/

/-- How connections pass between the pool and an exchange that goes from one stage to the next. -/
inductive Stage.Passes (limit : UInt64) (s s' : Shared) : Stage → Stage → Prop where
  /-- The exchange has none after that, and none of its own goes to the pool. -/
  | apart {stage next : Stage} (gone : next.connection? = none)
      (pool : s'.pool.conns ⊆ s.pool.conns) : Passes limit s s' stage next
  | taken {c : Connection} (pooled : c ∈ s.pool.conns) (pool : s'.pool.conns ⊆ s.pool.conns) :
      Passes limit s s' .acquiring (.exchanging c.countQuery false)
  | opened {c : Connection} (next : c.id = s.nextConnection) (unused : c.queries = 0)
      (pool : s'.pool.conns ⊆ s.pool.conns) :
      Passes limit s s' .connecting (.exchanging c.countQuery true)
  | used {c c' : Connection} {fresh chained : Bool} {reply : Except TransportError Octets}
      (same : c'.id = c.id) (count : c'.queries = c.queries)
      (pool : s'.pool.conns ⊆ s.pool.conns) :
      Passes limit s s' (.exchanging c fresh) (.answered reply chained (some c'))
  /-- A connection goes to the pool only if it may carry another query. -/
  | given {c : Connection} {chained : Bool} {reply : Except TransportError Octets}
      {r : Resolution} (below : 0 < limit → c.queries < limit)
      (pool : s'.pool.conns ⊆ c :: s.pool.conns) :
      Passes limit s s' (.answered reply chained (some c)) (.finished r)

namespace Stage

variable {limit : UInt64} {s s' : Shared} {stage next : Stage}

theorem passes_of_quiet (quiet : Quiet s s') (gone : next.connection? = none) :
    s'.pool.config = s.pool.config ∧ stage.Passes limit s s' next := by
  rw [quiet.pool]
  exact ⟨rfl, .apart gone (by rw [quiet.pool]; exact .refl _)⟩

end Stage

namespace Task

variable (t : Task) (d : Dispatcher) (now : Time) (s : Shared)

open Querier.Stage (passes_of_quiet)

theorem passes_stepAcquiring :
    (t.stepAcquiring now s).1.pool.config = s.pool.config ∧
      Stage.acquiring.Passes s.pool.config.maxQueries s (t.stepAcquiring now s).1
        (t.stepAcquiring now s).2.1.stage := by
  have parts := (s.pool.conns_acquire now t.request.server t.tls).subset
  have config := s.pool.config_acquire now t.request.server t.tls
  have left := (List.append_subset.mp parts).2
  simp only [stepAcquiring, Shared.acquire]
  split
  · rename_i c found
    have pooled : c ∈ s.pool.conns := by
      apply parts
      rw [found]
      exact .head _
    exact ⟨config, .taken pooled left⟩
  · exact ⟨config, .apart rfl left⟩

theorem passes_stepConnecting :
    (t.stepConnecting d s).1.pool.config = s.pool.config ∧
      Stage.connecting.Passes s.pool.config.maxQueries s (t.stepConnecting d s).1
        (t.stepConnecting d s).2.1.stage := by
  simp only [stepConnecting]
  split
  · exact ⟨rfl, .apart rfl (.refl _)⟩
  · exact ⟨rfl, .opened rfl rfl (.refl _)⟩

theorem passes_stepExchanging (c : Connection) (fresh : Bool) :
    (t.stepExchanging d s c fresh).1.pool.config = s.pool.config ∧
      (Stage.exchanging c fresh).Passes s.pool.config.maxQueries s
        (t.stepExchanging d s c fresh).1 (t.stepExchanging d s c fresh).2.1.stage := by
  simp only [stepExchanging]
  split
  · exact ⟨rfl, .used rfl rfl (.refl _)⟩
  · cases fresh with
    | true => exact ⟨rfl, .apart rfl (.refl _)⟩
    | false => exact ⟨rfl, .apart rfl (.refl _)⟩

/-- A connection is given back only behind the stage at which there is a response over it. -/
theorem passes_conclude (elapsed : Duration) (data : Octets) (chained : Bool)
    {stage : Stage} {c : Option Connection} (held : ∀ conn, c = some conn →
      ∃ reply chained, stage = .answered reply chained (some conn)) :
    (t.conclude d now s elapsed data chained c).1.pool.config = s.pool.config ∧
      stage.Passes s.pool.config.maxQueries s
        (t.conclude d now s elapsed data chained c).1
        (t.conclude d now s elapsed data chained c).2.stage := by
  have recorded := t.pool_record d s elapsed data.size
    (validate d.config t.request (draft elapsed chained) data)
  have kept (s' : Shared) (same : s'.pool = s.pool) (r : Resolution) :
      s'.pool.config = s.pool.config ∧
        stage.Passes s.pool.config.maxQueries s s' (.finished r) := by
    rw [same]
    exact ⟨rfl, .apart rfl (by rw [same]; exact .refl _)⟩
  cases c with
  | none => exact kept _ recorded _
  | some c =>
      obtain ⟨reply, chained', rfl⟩ := held c rfl
      by_cases valid : (validate d.config t.request (draft elapsed chained) data
          ).resolution.validPacket = true
      · have config := s.pool.config_release now t.request.server c
        have settled : (t.conclude d now s elapsed data chained (some c)).1.pool =
            (s.pool.release now t.request.server c).1 := by
          simp only [conclude, settle, valid, if_true]
          exact congrArg (fun p => (Pool.release p now t.request.server c).1) recorded
        rw [settled]
        refine ⟨config, ?_⟩
        rcases s.pool.conns_release now t.request.server c with fewer | ⟨more, below⟩
        · exact .apart rfl (by rw [settled]; exact fewer.subset)
        · exact .given below (by rw [settled]; exact more.subset)
      · refine kept _ ?_ _
        simp only [conclude, settle, valid, Bool.false_eq_true, if_false]
        exact recorded

theorem passes_stepAnswered (reply : Except TransportError Octets) (chained : Bool)
    (c : Option Connection) :
    (t.stepAnswered d now s reply chained c).1.pool.config = s.pool.config ∧
      (Stage.answered reply chained c).Passes s.pool.config.maxQueries s
        (t.stepAnswered d now s reply chained c).1
        (t.stepAnswered d now s reply chained c).2.1.stage := by
  unfold stepAnswered
  cases reply with
  | error e => exact passes_of_quiet ((s.quiet_log _).trans (Shared.quiet_deliver ..)) rfl
  | ok data =>
      simp only
      cases chained with
      | true => exact passes_of_quiet (d.quiet_jitter s _) rfl
      | false =>
          apply t.passes_conclude d now s
          rintro conn rfl
          exact ⟨_, _, rfl⟩

/-- A step passes connections in one of few ways, and the limit stays as it is. -/
theorem passes_step :
    (t.step d now s).1.pool.config = s.pool.config ∧
      t.stage.Passes s.pool.config.maxQueries s (t.step d now s).1
        (t.step d now s).2.1.stage := by
  unfold step
  split
  all_goals
    rename_i hstage
    rw [hstage]
  · have sent := s.quiet_datagram t.request.matchKey t.exchange.id t.message
    unfold stepSending
    split
    · exact passes_of_quiet (sent.trans (Shared.quiet_log ..)) rfl
    · exact passes_of_quiet sent rfl
  · exact passes_of_quiet (.refl s) rfl
  · exact t.passes_stepAcquiring now s
  · exact t.passes_stepConnecting d s
  · exact t.passes_stepExchanging d s ..
  · exact t.passes_stepAnswered d now s ..
  · apply t.passes_conclude d now s
    intro conn none
    cases none
  · exact passes_of_quiet (.refl s) rfl

end Task

/-! ## Counters -/

/-- A counter below a limit goes up by one. -/
theorem Connection.toNat_queries_countQuery {c : Connection} {limit : UInt64}
    (below : c.queries.toNat < limit.toNat) :
    c.countQuery.queries.toNat = c.queries.toNat + 1 := by
  have small : c.queries.toNat + 1 < 2 ^ 64 := Nat.lt_of_le_of_lt below limit.toNat_lt
  exact (UInt64.toNat_add ..).trans (Nat.mod_eq_of_lt small)

/-- The counter of a connection is right: it counts the exchanges that have ended and those that
are still under way, and there was one of them at least. -/
structure Connection.Metered (limit : UInt64) (ended : Nat → Nat) (pending : Nat) (c : Connection) :
    Prop where
  counted : c.queries.toNat = ended c.id + pending
  carried : 0 < c.queries.toNat
  within : c.queries.toNat ≤ limit.toNat

theorem Connection.Metered.alike {limit : UInt64} {pending : Nat} {ended ended' : Nat → Nat}
    {c c' : Connection} (h : c.Metered limit ended pending) (same : ended' c'.id = ended c.id)
    (queries : c'.queries = c.queries) : c'.Metered limit ended' pending where
  counted := by rw [queries, same, h.counted]
  carried := by rw [queries]; exact h.carried
  within := by rw [queries]; exact h.within

/-- A connection with a right counter below the limit may start another exchange. -/
theorem Connection.metered_countQuery {limit : UInt64} {ended : Nat → Nat} {c : Connection}
    (below : c.queries.toNat < limit.toNat) (counted : c.queries.toNat = ended c.id) :
    c.countQuery.Metered limit ended 1 := by
  have count := toNat_queries_countQuery below
  constructor
  case counted =>
    rw [count, counted]
    rfl
  case carried =>
    rw [count]
    exact Nat.succ_pos _
  case within =>
    rw [count]
    exact below

/-- Wherever a connection passes in a step, its counter is right again, if the counters were right
before and nothing has ended yet over a connection that is new. -/
theorem Stage.Passes.metered {limit : UInt64} {s s' : Shared} {stage next : Stage}
    {ended ended' : Nat → Nat} (h : stage.Passes limit s s' next) (limited : 0 < limit)
    (pooled : ∀ c ∈ s.pool.conns, c.Metered limit ended 0 ∧ c.queries.toNat < limit.toNat)
    (carried : ∀ c, stage.connection? = some c → c.Metered limit ended stage.pending)
    (blank : ended s.nextConnection = 0)
    (ends : ∀ id, ended' id = ended id + if stage.sendsOver id = true then 1 else 0) :
    (∀ c ∈ s'.pool.conns, c ∈ s.pool.conns ∨
        c.Metered limit ended' 0 ∧ c.queries.toNat < limit.toNat) ∧
      ∀ c, next.connection? = some c → c.Metered limit ended' next.pending := by
  have room : 0 < limit.toNat := UInt64.lt_iff_toNat_lt.mp limited
  cases h with
  | apart gone pool =>
      refine ⟨fun c hc => .inl (pool hc), fun c hc => ?_⟩
      rw [gone] at hc
      cases hc
  | @taken c mem pool =>
      refine ⟨fun c hc => .inl (pool hc), fun user hc => ?_⟩
      cases hc
      obtain ⟨metered, below⟩ := pooled c mem
      have counted : c.queries.toNat = ended' c.id := metered.counted.trans (ends c.id).symm
      exact Connection.metered_countQuery below counted
  | @opened c new unused pool =>
      refine ⟨fun c hc => .inl (pool hc), fun user hc => ?_⟩
      cases hc
      have zero : c.queries.toNat = 0 := congrArg UInt64.toNat unused
      have none : ended' c.id = 0 := by
        rw [ends, new]
        exact blank
      exact Connection.metered_countQuery (zero ▸ room) (zero.trans none.symm)
  | @used c c' fresh chained reply same queries pool =>
      refine ⟨fun c hc => .inl (pool hc), fun user hc => ?_⟩
      cases hc
      have metered := carried c rfl
      have sends : (Stage.exchanging c fresh).sendsOver c'.id = true := beq_iff_eq.mpr same.symm
      constructor
      case counted =>
        rw [queries, metered.counted, ends, if_pos sends, same]
        rfl
      case carried =>
        rw [queries]
        exact metered.carried
      case within =>
        rw [queries]
        exact metered.within
  | @given c chained reply r below pool =>
      have metered : c.Metered limit ended' 0 := (carried c rfl).alike (ends c.id) rfl
      refine ⟨fun conn hc => ?_, fun conn hc => by cases hc⟩
      rcases List.mem_cons.mp (pool hc) with rfl | old
      · exact .inr ⟨metered, UInt64.lt_iff_toNat_lt.mp (below limited)⟩
      · exact .inl old

namespace Traffic

variable {t t' : Traffic} {limit : UInt64}

/-- How many exchanges over a connection have ended. -/
def ended (t : Traffic) (id : Nat) : Nat := (uses (t.history id)).length

/-- How many exchanges over a connection are under way. -/
def underway (t : Traffic) (id : Nat) : Nat := t.exchanges.countP fun x => x.2.stage.sendsOver id

/-- How many exchanges were started on a connection. -/
def started (t : Traffic) (id : Nat) : Nat := t.ended id + t.underway id

/-- The counters of all connections are right, and those in the pool are below the limit. -/
structure Metered (limit : UInt64) (t : Traffic) : Prop where
  pooled : ∀ c ∈ t.pool.conns, c.Metered limit t.ended 0 ∧ c.queries.toNat < limit.toNat
  carried : ∀ (i : Nat) (x : Nat × Task) (c : Connection), t.exchanges[i]? = some x →
    x.2.stage.connection? = some c → c.Metered limit t.ended x.2.stage.pending
  bounded : ∀ id, t.ended id ≤ limit.toNat

/-! ### What has ended -/

theorem ended_append {more : List (Nat × Incident)}
    (h : t'.incidents = t.incidents ++ more) (id : Nat) :
    t'.ended id = t.ended id + (uses (historyOf more id)).length := by
  have history : t'.history id = t.history id ++ historyOf more id := by
    rw [Traffic.history, h, historyOf, List.filterMap_append]
    rfl
  rw [ended, history, uses, List.filterMap_append, List.length_append]
  rfl

theorem ended_of_incidents (h : t'.incidents = t.incidents) (id : Nat) :
    t'.ended id = t.ended id := by
  rw [ended, Traffic.history, h]
  rfl

theorem ended_begin (client : Nat) (now : Time) (r : Request) (n : Network) (id : Nat) :
    (t.move (.begin client now r n)).ended id = t.ended id := by
  apply ended_of_incidents
  simp only [move]
  split <;> rfl

/-- When an exchange takes a step, what it had under way has ended. -/
theorem ended_step {exchange : Nat} {client : Nat} {task : Task} {c : Client}
    (found : t.exchanges[exchange]? = some (client, task)) (known : t.clients[client]? = some c)
    (now : Time) (id : Nat) : (t.move (.step exchange now)).ended id =
      t.ended id + if task.stage.sendsOver id = true then 1 else 0 := by
  rw [← Stage.length_uses_incident task.message task.stage
    (task.step c.dispatcher now (t.shared c)).2.1.stage id]
  apply ended_append
  simp only [move, found, known]

/-- The same holds if it is dropped. -/
theorem ended_leave {exchange : Nat} {client : Nat} {task : Task}
    (found : t.exchanges[exchange]? = some (client, task)) (taken : Nat) (id : Nat) :
    (t.move (.leave exchange taken)).ended id =
      t.ended id + if task.stage.sendsOver id = true then 1 else 0 := by
  rw [← Stage.length_uses_incident task.message task.stage .sending id]
  apply ended_append
  simp only [move, found]
  cases task.stage with
  | exchanging c fresh => rfl
  | answered reply chained c =>
      -- nothing is said of a response that nobody judges
      cases reply <;> cases c <;> exact (List.append_nil _).symm
  | _ => exact (List.append_nil _).symm

/-! ### One exchange among others -/

theorem id_ne_of_pooled (once : (t.holdings.map Prod.fst).Nodup) {i : Nat} {x : Nat × Task}
    {c c' : Connection} (found : t.exchanges[i]? = some x)
    (has : x.2.stage.connection? = some c) (pooled : c' ∈ t.pool.conns) : c'.id ≠ c.id := by
  apply not_pooled_of_usedBy once ⟨x.1, x.2, c, found, has, rfl⟩ c'.holding
  rw [Pool.holdings_eq]
  exact List.mem_map_of_mem pooled

theorem id_ne_of_carried (once : (t.holdings.map Prod.fst).Nodup) {i j : Nat}
    {x y : Nat × Task} {c c' : Connection} (found : t.exchanges[i]? = some x)
    (has : x.2.stage.connection? = some c) (found' : t.exchanges[j]? = some y)
    (has' : y.2.stage.connection? = some c') (ne : j ≠ i) : c'.id ≠ c.id := fun same =>
  ne (usedBy_unique once ⟨y.1, y.2, c', found', has', rfl⟩ ⟨x.1, x.2, c, found, has, same.symm⟩)

/-- What one exchange ends leaves the counters of all other connections right. So only those have
to be looked at that are new in the pool or with the exchange. -/
theorem Metered.after (h : t.Metered limit) (once : (t.holdings.map Prod.fst).Nodup) {i : Nat}
    {x : Nat × Task} (found : t.exchanges[i]? = some x)
    (ends : ∀ id, t'.ended id = t.ended id + if x.2.stage.sendsOver id = true then 1 else 0)
    (pooled : ∀ c ∈ t'.pool.conns, c ∈ t.pool.conns ∨
      c.Metered limit t'.ended 0 ∧ c.queries.toNat < limit.toNat)
    (carried : ∀ (j : Nat) (y : Nat × Task), t'.exchanges[j]? = some y →
      (∃ k, k ≠ i ∧ t.exchanges[k]? = some y) ∨
      ∀ c, y.2.stage.connection? = some c → c.Metered limit t'.ended y.2.stage.pending) :
    t'.Metered limit := by
  -- over the connection with a number, something has ended only if the exchange has it
  have cases (id : Nat) : t'.ended id = t.ended id ∨ ∃ c, x.2.stage.connection? = some c ∧
      x.2.stage.pending = 1 ∧ c.id = id ∧ t'.ended id = t.ended id + 1 := by
    rw [ends]
    cases hstage : x.2.stage with
    | exchanging c fresh =>
        by_cases here : c.id = id
        · have sends : (Stage.exchanging c fresh).sendsOver id = true := beq_iff_eq.mpr here
          exact .inr ⟨c, rfl, rfl, here, by rw [if_pos sends]⟩
        · have not_over : ¬ (Stage.exchanging c fresh).sendsOver id = true :=
            fun sends => here (beq_iff_eq.mp sends)
          exact .inl (by rw [if_neg not_over, Nat.add_zero])
    | _ => exact .inl rfl
  constructor
  case pooled =>
    intro c hc
    rcases pooled c hc with old | new
    · obtain ⟨metered, below⟩ := h.pooled c old
      refine ⟨metered.alike ?_ rfl, below⟩
      rcases cases c.id with same | ⟨user, has, -, same, -⟩
      · exact same
      · exact absurd same.symm (id_ne_of_pooled once found has old)
    · exact new
  case carried =>
    intro j y c hy hc
    rcases carried j y hy with ⟨k, ne, old⟩ | new
    · refine (h.carried k y c old hc).alike ?_ rfl
      rcases cases c.id with same | ⟨user, has, -, same, -⟩
      · exact same
      · exact absurd same.symm (id_ne_of_carried once found has old hc ne)
    · exact new c hc
  case bounded =>
    intro id
    rcases cases id with same | ⟨user, has, pending, rfl, one⟩
    · rw [same]
      exact h.bounded id
    · have metered := h.carried i x user found has
      have counted := metered.counted
      have within := metered.within
      rw [pending] at counted
      omega

/-- Where nothing ends, connections have the counters that they had. -/
theorem Metered.of_ended (h : t.Metered limit) (ends : ∀ id, t'.ended id = t.ended id)
    (pooled : ∀ c ∈ t'.pool.conns, ∃ c₀ ∈ t.pool.conns, c.id = c₀.id ∧ c.queries = c₀.queries)
    (carried : ∀ (j : Nat) (y : Nat × Task), t'.exchanges[j]? = some y →
      t.exchanges[j]? = some y ∨ y.2.stage.connection? = none) : t'.Metered limit := by
  constructor
  case pooled =>
    intro c hc
    obtain ⟨c₀, hc₀, id, queries⟩ := pooled c hc
    obtain ⟨metered, below⟩ := h.pooled c₀ hc₀
    exact ⟨metered.alike (by rw [ends, id]) queries, by rwa [queries]⟩
  case carried =>
    intro j y c hy hc
    rcases carried j y hy with old | none
    · exact (h.carried j y c old hc).alike (ends _) rfl
    · rw [none] at hc
      cases hc
  case bounded =>
    intro id
    rw [ends]
    exact h.bounded id

/-! ### Moves -/

theorem Metered.begin (h : t.Metered limit) (client : Nat) (now : Time) (r : Request)
    (n : Network) : (t.move (.begin client now r n)).Metered limit := by
  refine h.of_ended (t.ended_begin client now r n) ?_ ?_
  · intro c hc
    refine ⟨c, ?_, rfl, rfl⟩
    simp only [move] at hc
    split at hc
    · exact hc
    · rename_i user _
      have quiet := user.dispatcher.quiet_begin (t.shared user) now r n
      exact congrArg Pool.conns quiet.pool ▸ hc
  · intro j y hy
    simp only [move] at hy
    split at hy
    · exact .inl hy
    · rename_i user _
      rw [List.getElem?_append] at hy
      split at hy
      · exact .inl hy
      · have new := List.mem_singleton.mp (List.mem_of_getElem? hy)
        refine .inr ?_
        rw [new]
        show Stage.connection? (if r.tcp then .acquiring else .sending) = none
        split <;> rfl

theorem Metered.step (h : t.Metered limit) (sound : Sound t.holdings t.books)
    (limited : 0 < limit) (hlimit : t.pool.config.maxQueries = limit) (exchange : Nat)
    (now : Time) : (t.move (.step exchange now)).Metered limit := by
  cases found : t.exchanges[exchange]? with
  | none =>
      simp only [move, found]
      exact h
  | some x =>
      obtain ⟨client, task⟩ := x
      cases known : t.clients[client]? with
      | none =>
          simp only [move, found, known]
          exact h
      | some c =>
          have ends := t.ended_step found known now
          have passes := (task.passes_step c.dispatcher now (t.shared c)).2
          rw [show (t.shared c).pool.config.maxQueries = limit from hlimit] at passes
          have blank : t.ended t.nextConnection = 0 :=
            congrArg (fun history => (uses history).length) (sound.blank _ (Nat.le_refl _)).1
          obtain ⟨pooled, carried⟩ := passes.metered limited h.pooled
            (fun conn => h.carried exchange _ conn found) blank ends
          refine h.after sound.once found ends ?_ ?_
          · intro conn hconn
            simp only [move, found, known] at hconn
            exact pooled conn hconn
          · intro j y hy
            simp only [move, found, known] at hy
            rw [List.getElem?_set] at hy
            split at hy
            · split at hy
              · cases hy
                exact .inr carried
              · cases hy
            · rename_i other
              exact .inl ⟨j, Ne.symm other, hy⟩

theorem Metered.leave (h : t.Metered limit) (once : (t.holdings.map Prod.fst).Nodup)
    (exchange taken : Nat) : (t.move (.leave exchange taken)).Metered limit := by
  cases found : t.exchanges[exchange]? with
  | none =>
      simp only [move, found]
      exact h
  | some x =>
      obtain ⟨client, task⟩ := x
      refine h.after once found (t.ended_leave found taken) ?_ ?_
      · intro c hc
        simp only [move, found, pool_breakOff] at hc
        exact .inl hc
      · intro j y hy
        simp only [move, found] at hy
        rw [List.getElem?_eraseIdx] at hy
        split at hy
        · rename_i before
          exact .inl ⟨j, Nat.ne_of_lt before, hy⟩
        · rename_i behind
          exact .inl ⟨j + 1, by omega, hy⟩

/-- Every move keeps the counters right. -/
theorem Metered.move (h : t.Metered limit) (sound : Sound t.holdings t.books)
    (limited : 0 < limit) (hlimit : t.pool.config.maxQueries = limit) (m : Move) :
    (t.move m).Metered limit := by
  cases m with
  | begin client now r n => exact h.begin client now r n
  | step exchange now => exact h.step sound limited hlimit exchange now
  | leave exchange taken => exact h.leave sound.once exchange taken
  | cleanup now =>
      refine h.of_ended (fun _ => rfl) (fun c hc => ?_) fun _ _ hy => .inl hy
      exact ⟨c, (t.pool.conns_cleanup now).subset hc, rfl, rfl⟩
  | turn =>
      refine h.of_ended (fun _ => rfl) (fun c hc => ?_) fun _ _ hy => .inl hy
      have renewed : c ∈ t.pool.renewStreams.conns := hc
      rw [Pool.conns_renewStreams] at renewed
      obtain ⟨c₀, hc₀, rfl⟩ := List.mem_map.mp renewed
      exact ⟨c₀, hc₀, rfl, rfl⟩

/-- The configuration of the pool stays what it is, and so does the limit. -/
theorem config_move (t : Traffic) (m : Move) : (t.move m).pool.config = t.pool.config := by
  cases m with
  | begin client now r n =>
      simp only [Traffic.move]
      split
      · rfl
      · rename_i c _
        exact congrArg Pool.config (c.dispatcher.quiet_begin (t.shared c) now r n).pool
  | step exchange now =>
      simp only [Traffic.move]
      split
      · rfl
      · split
        · rfl
        · rename_i task _ _ c _
          exact (task.passes_step c.dispatcher now (t.shared c)).1
  | leave exchange taken =>
      simp only [Traffic.move]
      split
      · rfl
      · rw [pool_breakOff]
  | _ => rfl

/-! ## Runs -/

/-- Nothing has been counted wrong where nothing was ever done. -/
theorem Fresh.metered (fresh : t.Fresh) (empty : t.pool.hosts = []) (limit : UInt64) :
    t.Metered limit := by
  constructor
  case pooled =>
    intro c hc
    rw [Pool.conns, empty] at hc
    cases hc
  case carried =>
    intro i x c hx
    rw [fresh.exchanges] at hx
    cases hx
  case bounded =>
    intro id
    rw [ended, Traffic.history, fresh.incidents]
    exact Nat.zero_le _

theorem Metered.run (h : t.Metered limit) (sound : Sound t.holdings t.books) (limited : 0 < limit)
    (hlimit : t.pool.config.maxQueries = limit) (moves : List Move) :
    (t.run moves).Metered limit := by
  induction moves generalizing t with
  | nil => exact h
  | cons m rest ih =>
      have kept : (t.move m).pool.config.maxQueries = limit := by rw [config_move, hlimit]
      exact ih (h.move sound limited hlimit m) (sound.change (t.change_move m)) kept

theorem config_run (t : Traffic) (moves : List Move) :
    (t.run moves).pool.config = t.pool.config := by
  induction moves generalizing t with
  | nil => rfl
  | cons m rest ih => exact (ih (t.move m)).trans (t.config_move m)

/-! ## The limit -/

/-- Over a connection there is one exchange under way at most. -/
theorem underway_le_one (once : (t.holdings.map Prod.fst).Nodup) (id : Nat) :
    t.underway id ≤ 1 := by
  have counted (xs : List (Nat × Task)) :
      (xs.countP fun x => x.2.stage.sendsOver id) ≤
        ((xs.flatMap heldBy).map Prod.fst).count id := by
    induction xs with
    | nil => exact Nat.le_refl _
    | cons x rest ih =>
        rw [List.countP_cons, List.flatMap_cons, List.map_append, List.count_append]
        have one : (if x.2.stage.sendsOver id = true then 1 else 0) ≤
            ((heldBy x).map Prod.fst).count id := by
          split
          · rename_i sends
            cases hstage : x.2.stage with
            | exchanging c fresh =>
                rw [hstage] at sends
                have here : c.id = id := beq_iff_eq.mp sends
                rw [heldBy, hstage]
                exact Nat.le_of_eq (List.count_singleton_self.symm.trans (by rw [← here]; rfl))
            | _ =>
                rw [hstage] at sends
                cases sends
          · exact Nat.zero_le _
        omega
  rw [holdings, List.map_append] at once
  exact Nat.le_trans (counted t.exchanges)
    (List.nodup_iff_count_le_one.mp (List.nodup_append.mp once).2.1 id)

theorem exists_of_underway {id : Nat} (h : 0 < t.underway id) :
    ∃ (i : Nat) (x : Nat × Task) (c : Connection) (fresh : Bool),
      t.exchanges[i]? = some x ∧ x.2.stage = .exchanging c fresh ∧ c.id = id := by
  obtain ⟨x, hx, sends⟩ := List.countP_pos_iff.mp h
  obtain ⟨i, hi⟩ := List.mem_iff_getElem?.mp hx
  cases hstage : x.2.stage with
  | exchanging c fresh =>
      rw [hstage] at sends
      exact ⟨i, x, c, fresh, hi, hstage, beq_iff_eq.mp sends⟩
  | _ =>
      rw [hstage] at sends
      cases sends

/-- Over an idle connection nothing is under way. -/
theorem underway_of_pooled (once : (t.holdings.map Prod.fst).Nodup) {c : Connection}
    (pooled : c ∈ t.pool.conns) : t.underway c.id = 0 := by
  by_contra busy
  obtain ⟨i, x, user, fresh, found, hstage, same⟩ := exists_of_underway (Nat.pos_of_ne_zero busy)
  have has : x.2.stage.connection? = some user := by rw [hstage]; rfl
  exact id_ne_of_pooled once found has pooled same.symm

theorem Metered.started_le (h : t.Metered limit) (once : (t.holdings.map Prod.fst).Nodup)
    (id : Nat) : t.started id ≤ limit.toNat := by
  have one := underway_le_one once id
  have ended := h.bounded id
  rw [started]
  by_cases none : t.underway id = 0
  · omega
  · obtain ⟨i, x, c, fresh, found, hstage, rfl⟩ := exists_of_underway (Nat.pos_of_ne_zero none)
    have metered := h.carried i x c found (by rw [hstage]; rfl)
    have counted : c.queries.toNat = t.ended c.id + 1 := by
      rw [metered.counted, hstage]
      rfl
    have within := metered.within
    omega

/-- **No connection carries more queries than it may.** Take dispatchers that share a pool, which
is empty at first, and let their exchanges do what they do in whatever order. If the pool has a
limit, no more exchanges than that are ever started on a connection, and what is written to it are
the queries of those that have ended. Every connection in the pool has carried a query and may
carry another, and its counter says how many exchanges were started on it. Without a limit, a
count is never why a connection is not taken back: with any other the same would happen. -/
theorem started_le_run (start : Traffic) (fresh : start.Fresh) (empty : start.pool.hosts = [])
    (moves : List Move) :
    let t := start.run moves
    let limit := start.pool.config.maxQueries.toNat
    (0 < limit →
      (∀ id, t.started id ≤ limit) ∧
      (∀ id stream, (id, .opened stream) ∈ t.incidents →
        Framed ((uses (t.history id)).map Prod.fst) (t.written id)) ∧
      ∀ c ∈ t.pool.conns, 1 ≤ c.queries.toNat ∧ c.queries.toNat < limit ∧
        c.queries.toNat = t.started c.id) ∧
    (limit = 0 → ∀ now server c,
      (t.pool.release now server c).2.map Closing.reason ≠ some .tooManyQueries ∧
      ∀ n, (t.pool.release now server { c with queries := n }).2.map Closing.reason =
        (t.pool.release now server c).2.map Closing.reason) := by
  intro t limit
  have sound : Sound t.holdings t.books := sound_run fresh.sound moves
  constructor
  · intro limited
    have positive : 0 < start.pool.config.maxQueries := UInt64.lt_iff_toNat_lt.mpr limited
    have metered := (fresh.metered empty _).run fresh.sound positive rfl moves
    refine ⟨metered.started_le sound.once, fun id stream opened => ?_, fun c hc => ?_⟩
    · have entered : .opened stream ∈ t.history id :=
        List.mem_filterMap.mpr ⟨_, opened, if_pos rfl⟩
      exact (aligned_of_sound sound entered).framed
    · obtain ⟨counter, below⟩ := metered.pooled c hc
      refine ⟨counter.carried, below, ?_⟩
      rw [started, underway_of_pooled sound.once hc]
      exact counter.counted
  · intro unlimited now server c
    have none : t.pool.config.maxQueries = 0 := by
      rw [config_run]
      exact UInt64.toNat_inj.mp unlimited
    refine ⟨fun refused => ?_, t.pool.reason_release_of_unlimited now server c none⟩
    have tired := (t.pool.reason_release_iff now server c).mp refused
    rw [none] at tired
    exact UInt64.lt_irrefl 0 tired.1

/-- Two dispatchers of a kind with a new pool, in which connections may carry two queries. -/
def twice (d : Dispatcher) : Traffic :=
  { pair d with pool := { config := { maxQueries := 2 } } }

/-- The connection that is handed over comes back once and not again. -/
theorem started_le_run_twice :
    let start := twice {}
    let t := start.run handover
    let last := t.move (.step 1 7)
    start.Fresh ∧ start.pool.hosts = [] ∧ 0 < start.pool.config.maxQueries.toNat ∧
      (start.run (handover.take 5)).pool.conns.map Connection.queries = [1] ∧
      t.started 0 = 2 ∧ last.pool.conns = [] ∧ t.started 0 ≤ 2 := by
  have fresh : (twice {}).Fresh := ⟨rfl, rfl, .nil, nofun, nofun⟩
  have limit := started_le_run (twice {}) fresh rfl handover
  exact ⟨fresh, rfl, by decide, by decide +kernel, by decide +kernel, by decide +kernel,
    (limit.1 (by decide)).1 0⟩

end Traffic

end Querier
