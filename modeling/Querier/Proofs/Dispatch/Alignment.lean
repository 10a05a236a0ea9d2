import Querier.Proofs.Dispatch.Traffic

/-!
# Queries and responses stay aligned

A connection goes from one exchange to the next, so a leftover octet or a connection that
came back to the pool too early would give every later query the response to another.
That this does not happen is a statement about whole runs: about everything that was done
with a connection since it was opened, by whichever exchange.

## Main results

* `Traffic.sound_run`: the books of a run are right about its holdings.
* `Traffic.unheld_run`: what happened to a connection that nobody holds is over.
* `Traffic.aligned_run`: over every connection queries and responses stay aligned.
-/

namespace Querier

open Querier.Stream (incoming payloads)

namespace Traffic

variable {t : Traffic} {moves : List Move} {id : Nat} {stream : Stream}

/-! ## Runs -/

/-- No exchange is on its way, and nothing is known of connections yet. There may be some in the
pool. -/
structure Fresh (t : Traffic) : Prop where
  exchanges : t.exchanges = []
  incidents : t.incidents = []
  once : (t.pool.holdings.map Prod.fst).Nodup
  numbered : ∀ h ∈ t.pool.holdings, h.1 < t.nextConnection
  written : ∀ w ∈ t.journal.writes, w.1 < t.nextConnection

theorem Fresh.sound (h : t.Fresh) : Sound t.holdings t.books := by
  have holdings : t.holdings = t.pool.holdings := by
    rw [Traffic.holdings, h.exchanges, List.flatMap_nil, List.append_nil]
  have blank : ∀ id, t.history id = [] := by
    intro id
    rw [history, h.incidents]
    rfl
  rw [holdings]
  constructor
  case numbered => exact h.numbered
  case once => exact h.once
  case blank =>
    intro id hid
    refine ⟨blank id, List.flatMap_eq_nil_iff.mpr fun w hw => if_neg ?_⟩
    exact Nat.ne_of_lt (Nat.lt_of_lt_of_le (h.written w hw) hid)
  case course =>
    intro id stream hopened
    rw [show t.books.history id = [] from blank id] at hopened
    cases hopened

/-- The books of a run are right about what is held after it. -/
theorem sound_run (h : Sound t.holdings t.books) (moves : List Move) :
    Sound (t.run moves).holdings (t.run moves).books := by
  induction moves generalizing t with
  | nil => exact h
  | cons m rest ih => exact ih (h.change (t.change_move m))

/-- What happened to a connection that nobody holds is over. -/
theorem unheld_run (opened : id < t.nextConnection) (free : ∀ os, (id, os) ∉ t.holdings)
    (moves : List Move) :
    (t.run moves).history id = t.history id ∧ (t.run moves).written id = t.written id := by
  induction moves generalizing t with
  | nil => exact ⟨rfl, rfl⟩
  | cons m rest ih =>
      obtain ⟨hhistory, hwritten, opened', free'⟩ := (t.change_move m).unheld opened free
      obtain ⟨hhistory', hwritten'⟩ := ih opened' free'
      exact ⟨hhistory'.trans hhistory, hwritten'.trans hwritten⟩

/-! ## Alignment -/

/-- The exchange with a number has a connection for itself. -/
def UsedBy (t : Traffic) (id exchange : Nat) : Prop :=
  ∃ client task c, t.exchanges[exchange]? = some (client, task) ∧
    task.stage.connection? = some c ∧ c.id = id

/-- Of a connection that was opened as `stream`, queries and responses are aligned. -/
structure Aligned (t : Traffic) (id : Nat) (stream : Stream) : Prop where
  /-- What was written to it are its queries, each behind its length, and only of the last may
  something be missing. -/
  framed : Framed ((uses (t.history id)).map Prod.fst) (t.written id)
  /-- The response to a query is the message at the same place in what arrives. -/
  replies : ∀ (k : Nat) (message data : Octets), (uses (t.history id))[k]? = some (message, some data) →
    (payloads (incoming stream.arrivals))[k]? = some data
  /-- No two exchanges have it at the same time. -/
  exclusive : ∀ i j, t.UsedBy id i → t.UsedBy id j → i = j
  /-- No exchange has it while it is in the pool. -/
  unpooled : ∀ i, t.UsedBy id i → ∀ h ∈ t.pool.holdings, h.1 ≠ id
  /-- After an exchange over it failed, or brought a response that is not valid, nothing is
  written to it or read from it, whatever happens. -/
  spent : (∃ e ∈ t.history id, e.spoils = true) → ∀ later,
    (t.run later).history id = t.history id ∧ (t.run later).written id = t.written id

theorem exists_holding_of_usedBy {exchange : Nat} (h : t.UsedBy id exchange) :
    ∃ x os, t.exchanges[exchange]? = some x ∧ (id, os) ∈ heldBy x := by
  obtain ⟨client, task, c, hexchange, hconnection, rfl⟩ := h
  refine ⟨(client, task), incoming c.stream.arrivals, hexchange, ?_⟩
  rw [heldBy, Stage.holdings, hconnection]
  exact List.mem_singleton_self _

theorem usedBy_unique (once : (t.holdings.map Prod.fst).Nodup) {i j : Nat}
    (hi : t.UsedBy id i) (hj : t.UsedBy id j) : i = j := by
  obtain ⟨x, os, hx, mem⟩ := exists_holding_of_usedBy hi
  obtain ⟨y, os', hy, mem'⟩ := exists_holding_of_usedBy hj
  by_contra other
  have apart := (perm_flatMap_eraseIdx heldBy hx).append_left
    t.pool.holdings
  have nodup := ((apart.map Prod.fst).nodup_iff.mp once)
  rw [List.map_append, List.map_append] at nodup
  have disjoint := (List.nodup_append.mp (List.nodup_append.mp nodup).2.1).2.2
  have elsewhere : y ∈ t.exchanges.eraseIdx i :=
    List.mem_eraseIdx_iff_getElem?.mpr ⟨j, Ne.symm other, hy⟩
  exact disjoint id (List.mem_map.mpr ⟨_, mem, rfl⟩) id
    (List.mem_map.mpr ⟨_, List.mem_flatMap.mpr ⟨y, elsewhere, mem'⟩, rfl⟩) rfl

theorem not_pooled_of_usedBy (once : (t.holdings.map Prod.fst).Nodup) {i : Nat}
    (hi : t.UsedBy id i) : ∀ h ∈ t.pool.holdings, h.1 ≠ id := by
  obtain ⟨x, os, hx, mem⟩ := exists_holding_of_usedBy hi
  rw [holdings, List.map_append] at once
  intro h hpool
  apply (List.nodup_append.mp once).2.2 h.1 (List.mem_map.mpr ⟨h, hpool, rfl⟩) id
  have there : (id, os) ∈ t.exchanges.flatMap heldBy :=
    List.mem_flatMap.mpr ⟨x, List.mem_of_getElem? hx, mem⟩
  exact List.mem_map.mpr ⟨_, there, rfl⟩

theorem aligned_of_sound (h : Sound t.holdings t.books) (opened : .opened stream ∈ t.history id) :
    t.Aligned id stream := by
  obtain ⟨status, course, held⟩ := h.course id stream opened
  constructor
  case framed => exact course.framed
  case replies =>
    intro k message data hk
    exact course.replies hk
  case exclusive =>
    intro i j hi hj
    exact usedBy_unique h.once hi hj
  case unpooled =>
    intro i hi
    exact not_pooled_of_usedBy h.once hi
  case spent =>
    rintro ⟨e, mem, spoils⟩ later
    cases course.last mem spoils
    apply unheld_run
    · by_contra beyond
      have blank : t.history id = [] := (h.blank id (Nat.le_of_not_lt beyond)).1
      rw [blank] at opened
      cases opened
    · intro os hos
      cases held os hos

/-- **Streams stay aligned.** Whatever exchanges of whatever dispatchers over one pool do in
whatever order, over every connection that one of them opened the queries and the responses
stay aligned. -/
theorem aligned_run (start : Traffic) (fresh : start.Fresh) (moves : List Move) (id : Nat)
    (stream : Stream) (opened : (id, .opened stream) ∈ (start.run moves).incidents) :
    (start.run moves).Aligned id stream := by
  apply aligned_of_sound (sound_run fresh.sound moves)
  exact List.mem_filterMap.mpr ⟨_, opened, if_pos rfl⟩

/-- A format error without a question. -/
def refusal (id : UInt8) : Octets := #[0, id, 128, 1, 0, 0, 0, 0, 0, 0, 0, 0]

/-- On this stream two refusals arrive, the first of them in three pieces. -/
def refusals : Stream where
  arrivals := [.data #[0], .data #[12, 0, 1, 128], .wait 5,
    .data #[1, 0, 0, 0, 0, 0, 0, 0, 0, 0, 12, 0, 2, 128, 1, 0, 0, 0, 0, 0, 0, 0, 0]]

/-- Two dispatchers of a kind with a new pool. -/
def pair (d : Dispatcher) : Traffic where
  pool := { config := {} }
  clients := List.replicate 2 {
    dispatcher := d
    random := ⟨fun _ => 7, fun _ => 0, fun _ => 0, 0, [], 0⟩ }

def rootRequest : Request where
  server := .of (.unspecified .v4) 53
  qname := .root
  qtype := .mx
  tcp := true

/-- One dispatcher opens a connection and gives it back, the other takes it from the pool. -/
def handover : List Move :=
  [.begin 0 0 rootRequest { connects := [⟨0, .ok refusals⟩] }, .step 0 0, .step 0 0, .step 0 0,
    .step 0 5, .begin 1 6 rootRequest {}, .step 1 6, .step 1 6]

/-- The second exchange gets the second message. -/
theorem aligned_run_handover :
    (pair {}).Fresh ∧ (0, .opened refusals) ∈ ((pair {}).run handover).incidents ∧
      (uses (((pair {}).run handover).history 0)).map Prod.snd =
        [some (refusal 1), some (refusal 2)] ∧
      ((pair {}).run handover).Aligned 0 refusals := by
  have fresh : (pair {}).Fresh := ⟨rfl, rfl, .nil, nofun, nofun⟩
  have opened : (0, .opened refusals) ∈ ((pair {}).run handover).incidents := by decide +kernel
  exact ⟨fresh, opened, by decide +kernel, aligned_run (pair {}) fresh handover 0 refusals opened⟩

end Traffic

end Querier
