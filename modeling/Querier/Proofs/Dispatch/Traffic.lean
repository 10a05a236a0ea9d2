import Querier.Proofs.Dispatch.Ledger
import Querier.Proofs.Dispatch.Quiet

/-!
# Several exchanges over one pool

Dispatchers that share a pool have any number of exchanges on their way. Any of them may
take its next step at any time, or be dropped where it is. `Traffic` is all of this, and
a `Move` is what happens next.

What an exchange does with a connection shows in the stages before and after a step. The
incidents of a run are read off these, and the octets written to a connection are found
in the journal. Both together are the books of `Ledger`, and every move is a change of
books and holdings.

## Main results

* `Task.changes_step`: what a step of an exchange does to its connection and to the pool.
* `Traffic.change_move`: a move is a change of books and holdings.
-/

namespace Querier

open Querier.Stream (incoming frame)
open Shared (Quiet)

/-! ## Incidents of a step -/

namespace Stage

/-- The connection that an exchange has for itself. -/
def connection? : Stage → Option Connection
  | .exchanging c _ => some c
  | .answered _ _ c => c
  | .sending | .waiting _ | .acquiring | .connecting | .spreading .. | .finished _ => none

/-- What an exchange holds. -/
def holdings (stage : Stage) : List Holding := stage.connection?.toList.map Connection.holding

@[simp] theorem holdings_connecting : connecting.holdings = [] := rfl

@[simp] theorem holdings_finished (r : Resolution) : (finished r).holdings = [] := rfl

/-- What the exchange of a query did with a connection when it went from one stage to the
next. -/
def incident? (message : Octets) : Stage → Stage → Option (Nat × Incident)
  | .connecting, .exchanging c _ => some (c.id, .opened c.stream)
  | .exchanging c _, .answered (.ok data) _ _ => some (c.id, .exchanged message (some data))
  | .exchanging c _, _ => some (c.id, .exchanged message none)
  | .answered (.ok _) _ (some c), .finished r => some (c.id, .judged r.validPacket)
  | _, _ => none

end Stage

/-! ## Traffic -/

/-- A dispatcher, and what it does not share with others. -/
structure Client where
  dispatcher : Dispatcher
  random : Randomness
  parseErrors : UInt64 := 0
  dotUnavailable : UInt64 := 0

/-- Dispatchers that share a pool, and their exchanges. -/
structure Traffic where
  pool : Pool
  journal : Journal := {}
  nextConnection : Nat := 0
  clients : List Client := []
  /-- The exchanges on their way, each with the number of its dispatcher. -/
  exchanges : List (Nat × Task) := []
  /-- What happened to connections, each with its number. -/
  incidents : List (Nat × Incident) := []

/-- What happens next. -/
inductive Move where
  /-- A dispatcher begins an exchange. -/
  | begin (client : Nat) (now : Time) (r : Request) (n : Network)
  /-- An exchange takes its next step. -/
  | step (exchange : Nat) (now : Time)
  /-- An exchange is dropped. If it is about to send its query over a connection, some octets
  may have gone out already. -/
  | leave (exchange : Nat) (taken : Nat)
  /-- The pool is cleaned up. -/
  | cleanup (now : Time)
  /-- A new turn begins for the connections in the pool. -/
  | turn

namespace Traffic

/-- What a dispatcher sees. -/
def shared (t : Traffic) (c : Client) : Shared where
  pool := t.pool
  random := c.random
  parseErrors := c.parseErrors
  dotUnavailable := c.dotUnavailable
  nextConnection := t.nextConnection
  journal := t.journal

/-- The traffic with what a dispatcher left. -/
def keep (t : Traffic) (client : Nat) (c : Client) (s : Shared) : Traffic :=
  { t with
    pool := s.pool
    journal := s.journal
    nextConnection := s.nextConnection
    clients := t.clients.set client { c with
      random := s.random
      parseErrors := s.parseErrors
      dotUnavailable := s.dotUnavailable } }

/-- The query of a dropped exchange breaks off. -/
def breakOff (t : Traffic) (message : Octets) (taken : Nat) : Stage → Traffic
  | .exchanging c _ =>
    let part := if message.size ≤ 65535 then (frame message).extract 0 taken else #[]
    { t with
      journal := t.journal.push (.wrote c.id c.stream.label part)
      incidents := t.incidents ++ [(c.id, .exchanged message none)] }
  | _ => t

/-- The traffic after a move. A move of what does not exist does nothing. -/
def move (t : Traffic) : Move → Traffic
  | .begin client now r n =>
    match t.clients[client]? with
    | none => t
    | some c =>
      let (s, task) := c.dispatcher.begin now (t.shared c) r n
      { t.keep client c s with exchanges := t.exchanges ++ [(client, task)] }
  | .step exchange now =>
    match t.exchanges[exchange]? with
    | none => t
    | some (client, task) =>
      match t.clients[client]? with
      | none => t
      | some c =>
        let (s, next, _) := task.step c.dispatcher now (t.shared c)
        { t.keep client c s with
          exchanges := t.exchanges.set exchange (client, next)
          incidents :=
            t.incidents ++ (Stage.incident? task.message task.stage next.stage).toList }
  | .leave exchange taken =>
    match t.exchanges[exchange]? with
    | none => t
    | some (_, task) =>
      { t.breakOff task.message taken task.stage with
        exchanges := t.exchanges.eraseIdx exchange }
  | .cleanup now => { t with pool := t.pool.cleanup now }
  | .turn => { t with pool := t.pool.renewStreams }

/-- The traffic after some moves. -/
def run (t : Traffic) (moves : List Move) : Traffic := moves.foldl move t

end Traffic

/-! ## Books -/

/-- The octets written to a connection. -/
def Journal.written (j : Journal) (id : Nat) : List UInt8 :=
  j.writes.flatMap fun w => if w.1 = id then w.2.2.toList else []

/-- The history of a connection. -/
def historyOf (incidents : List (Nat × Incident)) (id : Nat) : List Incident :=
  incidents.filterMap fun x => if x.1 = id then some x.2 else none

/-- The books after some incidents. -/
def Journal.books (j : Journal) (incidents : List (Nat × Incident)) (next : Nat) : Books where
  history := historyOf incidents
  written := j.written
  next := next

theorem historyOf_append (incidents : List (Nat × Incident)) (id : Nat) (e : Incident) (i : Nat) :
    historyOf (incidents ++ [(id, e)]) i =
      if i = id then historyOf incidents i ++ [e] else historyOf incidents i := by
  rw [historyOf, List.filterMap_append, ← historyOf]
  by_cases here : i = id
  · simp [here]
  · simp [here, Ne.symm here]

namespace Journal

variable (j : Journal) (incidents : List (Nat × Incident)) (next id : Nat)

theorem written_wrote (label : String) (os : Octets) (i : Nat) :
    (j.push (.wrote id label os)).written i =
      if i = id then j.written i ++ os.toList else j.written i := by
  rw [written, writes_push, List.flatMap_append, List.flatMap_singleton, ← written]
  by_cases here : i = id
  · rw [if_pos here, if_pos here.symm]
  · rw [if_neg here, if_neg (Ne.symm here), List.append_nil]

theorem books_opened (stream : Stream) :
    j.books (incidents ++ [(next, .opened stream)]) (next + 1) =
      (j.books incidents next).openAs stream := by
  simp only [books, Books.openAs, Books.mk.injEq, and_true]
  funext i
  exact historyOf_append ..

theorem books_wrote (label : String) (os : Octets) (e : Incident) :
    (j.push (.wrote id label os)).books (incidents ++ [(id, e)]) next =
      (j.books incidents next).enter id e os.toList := by
  simp only [books, Books.enter, Books.mk.injEq, and_true]
  constructor
  · funext i
    exact historyOf_append ..
  · funext i
    exact written_wrote ..

theorem books_incident (e : Incident) :
    j.books (incidents ++ [(id, e)]) next = (j.books incidents next).enter id e [] := by
  simp only [books, Books.enter, Books.mk.injEq, and_true]
  constructor
  · funext i
    exact historyOf_append ..
  · funext i
    rw [List.append_nil, ite_self]

end Journal

/-- The books as a dispatcher leaves them. -/
def Shared.books (s : Shared) (incidents : List (Nat × Incident)) : Books :=
  s.journal.books incidents s.nextConnection

theorem Shared.Quiet.books {s s' : Shared} (h : Quiet s s') (incidents : List (Nat × Incident)) :
    s'.books incidents = s.books incidents := by
  have written : s'.journal.written = s.journal.written := by
    funext id
    rw [Journal.written, h.writes, Journal.written]
  rw [Shared.books, Journal.books, h.nextConnection, written]
  rfl

/-! ## Steps -/

/-- What an exchange does when it goes from one stage to another is a change. -/
def Stage.Changes (message : Octets) (incidents : List (Nat × Incident)) (s : Shared)
    (stage : Stage) (s' : Shared) (next : Stage) : Prop :=
  Change (s.pool.holdings ++ stage.holdings) (s.books incidents)
    (s'.pool.holdings ++ next.holdings)
    (s'.books (incidents ++ (stage.incident? message next).toList))

namespace Stage

variable {message : Octets} {incidents : List (Nat × Incident)} {s s' s'' : Shared}
  {stage next : Stage}

theorem changes_of_quiet (quiet : Quiet s s') (fewer : next.holdings.Subperm stage.holdings)
    (silent : stage.incident? message next = none) :
    stage.Changes message incidents s s' next := by
  unfold Changes
  rw [silent, Option.toList_none, List.append_nil, quiet.books, quiet.pool]
  exact .quiet ((List.subperm_append_left _).mpr fewer)

theorem Changes.after_quiet (h : stage.Changes message incidents s' s'' next)
    (quiet : Quiet s s') : stage.Changes message incidents s s'' next := by
  unfold Changes at h ⊢
  rwa [quiet.books, quiet.pool] at h

theorem Changes.then_quiet (h : stage.Changes message incidents s s' next)
    (quiet : Quiet s' s'') : stage.Changes message incidents s s'' next := by
  unfold Changes at h ⊢
  rwa [quiet.books, quiet.pool]

theorem changes_of_open (message : Octets) (incidents : List (Nat × Incident)) (s : Shared)
    (stream : Stream) (tls : Bool) :
    connecting.Changes message incidents s (s.openConnection stream tls).2
      (.exchanging (s.openConnection stream tls).1.countQuery true) := by
  unfold Changes
  show Change _ _ _
    (s.journal.books (incidents ++ [(s.nextConnection, .opened stream)]) (s.nextConnection + 1))
  rw [Journal.books_opened]
  apply Change.opened
  rw [holdings_connecting, List.append_nil]
  exact List.perm_append_comm.subperm

/-- The holder of a connection does something with it. -/
theorem changes_of_deed {c : Connection} {e : Incident} {part : List UInt8}
    {after : Option (List UInt8)} (held : stage.connection? = some c)
    (d : Deed (incoming c.stream.arrivals) e part after)
    (shown : stage.incident? message next = some (c.id, e))
    (books : s'.books (incidents ++ [(c.id, e)]) = (s.books incidents).enter c.id e part)
    (fewer : (s'.pool.holdings ++ next.holdings).Subperm
      (after.toList.map (fun os => (c.id, os)) ++ s.pool.holdings)) :
    stage.Changes message incidents s s' next := by
  unfold Changes
  rw [shown, Option.toList_some, books]
  have had : ([c.holding] ++ s.pool.holdings).Subperm (s.pool.holdings ++ stage.holdings) := by
    rw [holdings, held]
    exact List.perm_append_comm.subperm
  exact .deed had d fewer

end Stage

namespace Task

variable (t : Task) (d : Dispatcher) (now : Time) (s : Shared)
  (incidents : List (Nat × Incident))

open Querier.Stage (changes_of_quiet changes_of_open changes_of_deed)

theorem changes_stepSending :
    Stage.sending.Changes t.message incidents s (t.stepSending s).1 (t.stepSending s).2.1.stage := by
  have sent := s.quiet_datagram t.request.matchKey t.exchange.id t.message
  unfold stepSending
  split
  · exact changes_of_quiet (sent.trans (Shared.quiet_log ..)) (.refl _) rfl
  · exact changes_of_quiet sent (.refl _) rfl

theorem changes_stepAcquiring :
    Stage.acquiring.Changes t.message incidents s (t.stepAcquiring now s).1
      (t.stepAcquiring now s).2.1.stage := by
  have taken := s.pool.holdings_acquire now t.request.server t.tls
  have logged := Shared.quiet_log
    { s with pool := (s.pool.acquire now t.request.server t.tls).pool }
    ((s.pool.acquire now t.request.server t.tls).closed.map (Closing.note · t.request.server))
  have books := logged.books incidents
  unfold Stage.Changes
  simp only [stepAcquiring, Shared.acquire]
  split
  · rename_i c found
    rw [found] at taken
    show Change _ _ _ (Shared.books _ (incidents ++ []))
    rw [List.append_nil, books]
    apply Change.quiet
    have swapped := List.perm_append_comm.subperm.trans taken
    rwa [← List.append_nil s.pool.holdings] at swapped
  · rename_i found
    rw [found] at taken
    show Change _ _ _ (Shared.books _ (incidents ++ []))
    rw [List.append_nil, books]
    exact .quiet ((List.subperm_append_right []).mpr taken)

theorem changes_stepConnecting :
    Stage.connecting.Changes t.message incidents s (t.stepConnecting d s).1
      (t.stepConnecting d s).2.1.stage := by
  have asked := s.quiet_connect {
    server := t.request.server
    tls := t.tls
    serverName := t.request.nsName
    timeout := d.config.networkTimeout }
  simp only [stepConnecting]
  split
  · exact changes_of_quiet asked (.refl _) rfl
  · exact (changes_of_open t.message incidents _ _ t.tls).after_quiet asked

theorem changes_stepExchanging (c : Connection) (fresh : Bool) :
    (Stage.exchanging c fresh).Changes t.message incidents s (t.stepExchanging d s c fresh).1
      (t.stepExchanging d s c fresh).2.1.stage := by
  simp only [stepExchanging]
  split
  · rename_i data hreply
    obtain ⟨fits, sent, first⟩ := Stream.exchange_ok hreply
    apply changes_of_deed rfl (.replied fits first) rfl
    · rw [← sent]
      exact Journal.books_wrote ..
    · exact List.perm_append_comm.subperm
  · rename_i e hreply
    obtain ⟨start, fits⟩ := c.stream.sent_exchange t.message d.config.networkTimeout
    have broken : ∀ next : Stage, next.holdings = [] →
        (Stage.exchanging c fresh).incident? t.message next =
          some (c.id, .exchanged t.message none) →
        (Stage.exchanging c fresh).Changes t.message incidents s
          (s.note (.wrote c.id (c.stream.exchange t.message d.config.networkTimeout).stream.label
            (c.stream.exchange t.message d.config.networkTimeout).sent)) next := by
      intro next empty shown
      apply changes_of_deed rfl (.failed start fits) shown
      · exact Journal.books_wrote ..
      · rw [empty, List.append_nil]
        exact .refl _
    split
    · exact (broken _ rfl rfl).then_quiet (Shared.quiet_discard ..)
    · exact (broken _ rfl rfl).then_quiet
        ((Shared.quiet_discard ..).trans (Shared.quiet_log ..))

theorem changes_settle {stage : Stage} {c : Option Connection} {r : Resolution}
    (held : stage.connection? = c)
    (shown : stage.incident? t.message (.finished r) =
      c.map fun c => (c.id, .judged r.validPacket)) :
    stage.Changes t.message incidents s (t.settle now s r.validPacket c) (.finished r) := by
  cases c with
  | none => exact changes_of_quiet (.refl s) (List.nil_subperm ..) shown
  | some c =>
      simp only [settle]
      cases hvalid : r.validPacket with
      | false =>
          simp only [Bool.false_eq_true, if_false]
          apply changes_of_deed held .rejected (by rw [shown, hvalid]; rfl)
          · rw [← (s.quiet_discard c).books]
            exact Journal.books_incident ..
          · rw [Stage.holdings_finished, List.append_nil]
            exact .refl _
      | true =>
          have logged := Shared.quiet_log
            { s with pool := (s.pool.release now t.request.server c).1 }
            ((s.pool.release now t.request.server c).2.toList.map
              (Closing.note · t.request.server))
          simp only [if_true]
          apply changes_of_deed held .approved (by rw [shown, hvalid]; rfl)
          · refine (Journal.books_incident ..).trans ?_
            exact congrArg (Books.enter · _ _ _) (logged.books incidents)
          · rw [Stage.holdings_finished, List.append_nil]
            exact s.pool.holdings_release now t.request.server c

/-- A response is judged, and its connection goes back to the pool only if it is good. -/
theorem changes_conclude {stage : Stage} {c : Option Connection} (held : stage.connection? = c)
    (elapsed : Duration) (data : Octets) (chained : Bool)
    (shown : ∀ r, stage.incident? t.message (.finished r) =
      c.map fun c => (c.id, .judged r.validPacket)) :
    stage.Changes t.message incidents s (t.conclude d now s elapsed data chained c).1
      (t.conclude d now s elapsed data chained c).2.stage := by
  have recorded := t.quiet_record d s elapsed data.size
    (validate d.config t.request (draft elapsed chained) data)
  have judged := (t.changes_settle now _ incidents held
    (shown (validate d.config t.request (draft elapsed chained) data).resolution)).after_quiet
    recorded
  exact judged

theorem changes_stepAnswered (reply : Except TransportError Octets) (chained : Bool)
    (c : Option Connection) :
    (Stage.answered reply chained c).Changes t.message incidents s
      (t.stepAnswered d now s reply chained c).1
      (t.stepAnswered d now s reply chained c).2.1.stage := by
  unfold stepAnswered
  cases reply with
  | error e =>
      exact changes_of_quiet ((s.quiet_log _).trans (Shared.quiet_deliver ..))
        (List.nil_subperm ..) (by cases c <;> rfl)
  | ok data =>
      simp only
      cases chained with
      | true =>
          exact changes_of_quiet (d.quiet_jitter s _) (List.nil_subperm ..) (by cases c <;> rfl)
      | false =>
          exact t.changes_conclude d now s incidents rfl _ data false
            (fun r => by cases c <;> rfl)

/-- A step is a change, whatever stage the exchange is at. -/
theorem changes_step :
    t.stage.Changes t.message incidents s (t.step d now s).1 (t.step d now s).2.1.stage := by
  unfold step
  split
  all_goals
    rename_i hstage
    rw [hstage]
  · exact t.changes_stepSending s incidents
  · exact changes_of_quiet (.refl s) (.refl _) rfl
  · exact t.changes_stepAcquiring now s incidents
  · exact t.changes_stepConnecting d s incidents
  · exact t.changes_stepExchanging d s incidents ..
  · exact t.changes_stepAnswered d now s incidents ..
  · exact t.changes_conclude d now s incidents rfl _ _ true (fun _ => rfl)
  · exact changes_of_quiet (.refl s) (.refl _) rfl

end Task

/-! ## Moves -/

section

variable {α β : Type} (f : α → List β) {xs : List α} {i : Nat}

theorem perm_flatMap_eraseIdx {x : α} (h : xs[i]? = some x) :
    (xs.flatMap f).Perm (f x ++ (xs.eraseIdx i).flatMap f) := by
  obtain ⟨hi, rfl⟩ := List.getElem?_eq_some_iff.mp h
  have whole := (List.getElem_cons_eraseIdx_perm hi).flatMap_right f
  rw [List.flatMap_cons] at whole
  exact whole.symm

theorem perm_flatMap_set (hi : i < xs.length) (y : α) :
    ((xs.set i y).flatMap f).Perm (f y ++ (xs.eraseIdx i).flatMap f) := by
  have whole := (List.set_perm_cons_eraseIdx hi y).flatMap_right f
  rwa [List.flatMap_cons] at whole

end

namespace Traffic

variable (t : Traffic)

/-- What an exchange on its way holds. -/
def heldBy (x : Nat × Task) : List Holding := x.2.stage.holdings

/-- What the pool and the exchanges hold. -/
def holdings : List Holding := t.pool.holdings ++ t.exchanges.flatMap heldBy

/-- What happened to a connection. -/
def history (id : Nat) : List Incident := historyOf t.incidents id

/-- The octets written to a connection. -/
def written (id : Nat) : List UInt8 := t.journal.written id

def books : Books := t.journal.books t.incidents t.nextConnection

theorem change_begin (client : Nat) (now : Time) (r : Request) (n : Network) :
    Change t.holdings t.books (t.move (.begin client now r n)).holdings
      (t.move (.begin client now r n)).books := by
  simp only [move]
  split
  · exact .quiet (.refl _)
  · rename_i c _
    have quiet := c.dispatcher.quiet_begin (t.shared c) now r n
    have books := quiet.books t.incidents
    have idle : (c.dispatcher.begin now (t.shared c) r n).2.stage.holdings = [] := by
      show Stage.holdings (if r.tcp then .acquiring else .sending) = []
      split <;> rfl
    show Change _ _ _ ((c.dispatcher.begin now (t.shared c) r n).1.books t.incidents)
    rw [books]
    apply Change.quiet
    show List.Subperm ((c.dispatcher.begin now (t.shared c) r n).1.pool.holdings ++
      List.flatMap _ (t.exchanges ++ [_])) _
    rw [quiet.pool, List.flatMap_append, List.flatMap_singleton, heldBy, idle, List.append_nil]
    exact .refl _

theorem change_step (exchange : Nat) (now : Time) :
    Change t.holdings t.books (t.move (.step exchange now)).holdings
      (t.move (.step exchange now)).books := by
  simp only [move]
  split
  · exact .quiet (.refl _)
  · rename_i client task found
    split
    · exact .quiet (.refl _)
    · rename_i c _
      have own := task.changes_step c.dispatcher now (t.shared c) t.incidents
      have before := perm_flatMap_eraseIdx heldBy found
      have after := perm_flatMap_set heldBy
        (List.getElem?_eq_some_iff.mp found).1
        (client, (task.step c.dispatcher now (t.shared c)).2.1)
      apply Change.among own
      · rw [List.append_assoc]
        exact ((before.append_left _).symm).subperm
      · rw [List.append_assoc]
        exact (after.append_left _).subperm

theorem pool_breakOff (message : Octets) (taken : Nat) (stage : Stage) :
    (t.breakOff message taken stage).pool = t.pool := by
  unfold breakOff
  split <;> rfl

theorem change_breakOff (message : Octets) (taken : Nat) (stage : Stage) :
    Change (t.pool.holdings ++ stage.holdings) t.books t.pool.holdings
      (t.breakOff message taken stage).books := by
  unfold breakOff
  split
  · rename_i c fresh
    have had : ([c.holding] ++ t.pool.holdings).Subperm
        (t.pool.holdings ++ (Stage.exchanging c fresh).holdings) :=
      List.perm_append_comm.subperm
    show Change _ _ _ (Journal.books _ (t.incidents ++ [(c.id, _)]) _)
    rw [Journal.books_wrote]
    refine .deed had (.failed ?_ ?_) (.refl _)
    · split
      · exact Stream.extract_frame message taken
      · exact List.nil_prefix
    · intro some
      by_contra large
      rw [if_neg large] at some
      exact some rfl
  · exact .quiet (List.sublist_append_left ..).subperm

theorem change_leave (exchange taken : Nat) :
    Change t.holdings t.books (t.move (.leave exchange taken)).holdings
      (t.move (.leave exchange taken)).books := by
  simp only [move]
  split
  · exact .quiet (.refl _)
  · rename_i client task found
    have before := perm_flatMap_eraseIdx heldBy found
    apply Change.among (t.change_breakOff task.message taken task.stage)
    · rw [List.append_assoc]
      exact ((before.append_left _).symm).subperm
    · show List.Subperm ((t.breakOff task.message taken task.stage).pool.holdings ++ _) _
      rw [pool_breakOff]

/-- Every move is a change of the books and holdings. -/
theorem change_move (m : Move) :
    Change t.holdings t.books (t.move m).holdings (t.move m).books := by
  cases m with
  | begin client now r n => exact t.change_begin client now r n
  | step exchange now => exact t.change_step exchange now
  | leave exchange taken => exact t.change_leave exchange taken
  | cleanup now =>
      exact .quiet ((List.subperm_append_right _).mpr (t.pool.holdings_cleanup now).subperm)
  | turn =>
      apply Change.quiet
      show List.Subperm (t.pool.renewStreams.holdings ++ _) _
      rw [t.pool.holdings_renewStreams]
      exact .refl _

end Traffic

end Querier
