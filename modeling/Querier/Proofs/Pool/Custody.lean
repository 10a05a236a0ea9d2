import Mathlib.Data.List.Perm.Basic
import Querier.Proofs.Pool.Counting

/-!
# Custody of connections

A connection is with the pool or with whoever holds it, and it changes hands: it is set up,
given to the pool, handed out again, and at last closed. `Custody` is a pool with the
connections that callers hold and a journal of these changes. Callers may do anything they
can with what they hold, in any order and while time goes by; who of them holds what makes
no difference to the pool.

The invariant is `Tidy`. The journal in it stands for the past of the pool, which its state
does not show: that the last that was heard of an idle connection is that it was given back,
to this server and at this time.

## Main results

* `Tidy.step`, `Tidy.run`: whatever callers do keeps the invariant.
* `Custody.tidy_run`: it holds of every pool that was empty once, and the number of idle
  connections is never adjusted by more than there are.
-/

namespace Querier

/-! ## Who has what -/

/-- A connection changes hands. -/
inductive Passage where
  | opened (id : Nat)
  /-- It is given to the pool, for queries to this server. -/
  | released (id : Nat) (server : SocketAddress) (time : Time)
  /-- It is handed out by the pool. -/
  | taken (id : Nat) (server : SocketAddress)
  | closed (id : Nat)
  deriving DecidableEq

/-- The connection that changes hands. -/
def Passage.id : Passage → Nat
  | .opened id | .released id _ _ | .taken id _ | .closed id => id

/-- A pool and all who use it. -/
structure Custody where
  pool : Pool
  now : Time := 0
  /-- The connections that callers hold. -/
  held : List Connection := []
  /-- The next connection that is set up. -/
  next : Nat := 0
  /-- What changed hands, the latest first. -/
  journal : List Passage := []

/-- Something that is done with a pool or with a connection that is held. -/
inductive Act where
  | connect (stream : Stream) (tls : Bool)
  | acquire (server : SocketAddress) (tls : Bool)
  /-- A query is sent over a connection that is held, and something is left to arrive. -/
  | exchange (which : Nat) (stream : Stream)
  | release (server : SocketAddress) (which : Nat)
  | discard (which : Nat)
  | cleanup
  | pass (time : Duration)

namespace Custody

/-- A new connection is set up. -/
def connect (k : Custody) (stream : Stream) (tls : Bool) : Custody :=
  { k with
    held := { id := k.next, stream, tls } :: k.held
    next := k.next + 1
    journal := .opened k.next :: k.journal }

/-- A caller asks the pool for a connection. -/
def acquire (k : Custody) (server : SocketAddress) (tls : Bool) : Custody :=
  let a := k.pool.acquire k.now server tls
  { k with
    pool := a.pool
    held := a.conn.toList ++ k.held
    journal := (a.conn.toList.map fun c => .taken c.id server)
      ++ (a.closed.map fun c => .closed c.conn.id) ++ k.journal }

/-- A query goes out over a connection that is held. -/
def exchange (k : Custody) (which : Nat) (c : Connection) (stream : Stream) : Custody :=
  { k with held := k.held.set which { c.countQuery with stream } }

/-- A connection that is held is given back, and if the pool does not take it, it is closed. -/
def release (k : Custody) (which : Nat) (c : Connection) (server : SocketAddress) : Custody :=
  let (pool, closing) := k.pool.release k.now server c
  { k with
    pool
    held := k.held.eraseIdx which
    journal := (match closing with
      | none => .released c.id server k.now
      | some _ => .closed c.id) :: k.journal }

/-- A connection that is held is closed. -/
def discard (k : Custody) (which : Nat) (c : Connection) : Custody :=
  { k with held := k.held.eraseIdx which, journal := .closed c.id :: k.journal }

/-- The pool closes what has been idle too long. -/
def cleanup (k : Custody) : Custody :=
  { k with
    pool := k.pool.cleanup k.now
    journal := ((k.pool.expired k.now).map fun i => .closed i.conn.id) ++ k.journal }

/-- Something is done with a connection that is held; with others nothing can be done. -/
def withHeld (k : Custody) (which : Nat) (f : Connection → Custody) : Custody :=
  match k.held[which]? with
  | none => k
  | some c => f c

/-- What is done. -/
def step (k : Custody) : Act → Custody
  | .connect stream tls => k.connect stream tls
  | .acquire server tls => k.acquire server tls
  | .exchange which stream => k.withHeld which fun c => k.exchange which c stream
  | .release server which => k.withHeld which fun c => k.release which c server
  | .discard which => k.withHeld which fun c => k.discard which c
  | .cleanup => k.cleanup
  | .pass time => { k with now := k.now + time }

/-- Does one thing after the other. -/
def run (k : Custody) (acts : List Act) : Custody := acts.foldl step k

/-- An empty pool that nobody has used yet. -/
def empty (config : PoolConfig) : Custody := { pool := { config } }

/-- Which connections are held. -/
def heldIds (k : Custody) : List Nat := k.held.map Connection.id

end Custody

/-- The last that was heard of a connection. -/
def last? (journal : List Passage) (id : Nat) : Option Passage :=
  journal.find? fun passage => passage.id == id

theorem last?_cons_self (passage : Passage) (journal : List Passage) :
    last? (passage :: journal) passage.id = some passage := by
  unfold last?
  exact List.find?_cons_of_pos (beq_self_eq_true passage.id)

/-- What others do is no news of a connection. -/
theorem last?_append {passages : List Passage} {id : Nat}
    (others : id ∉ passages.map Passage.id) (journal : List Passage) :
    last? (passages ++ journal) id = last? journal id := by
  have silent : passages.find? (fun passage => passage.id == id) = none := by
    rw [List.find?_eq_none]
    intro passage hpassage heq
    exact others (List.mem_map.mpr ⟨passage, hpassage, eq_of_beq heq⟩)
  rw [last?, List.find?_append, silent, Option.none_or]
  rfl

/-! ## Stacks -/

/-- A stack of idle connections to a server is as it has to be. -/
structure Orderly (config : PoolConfig) (now : Time) (journal : List Passage)
    (server : SocketAddress) (stack : List Idle) : Prop where
  ne_nil : stack ≠ []
  length_le : stack.length ≤ config.maxIdlePerHost.toNat
  /-- The connection released last is on top. -/
  latest_first : stack.Pairwise fun above below => below.since ≤ above.since
  past : ∀ i ∈ stack, i.since ≤ now
  /-- The last that was heard of a connection is that it was given back, to this server. -/
  released : ∀ i ∈ stack, last? journal i.conn.id = some (.released i.conn.id server i.since)

namespace Orderly

variable {config : PoolConfig} {now now' : Time} {journal journal' : List Passage}
  {server : SocketAddress} {stack stack' : List Idle}

theorem sublist (h : Orderly config now journal server stack) (hsub : stack'.Sublist stack)
    (hne : stack' ≠ []) : Orderly config now journal server stack' where
  ne_nil := hne
  length_le := Nat.le_trans hsub.length_le h.length_le
  latest_first := h.latest_first.sublist hsub
  past i hi := h.past i (hsub.subset hi)
  released i hi := h.released i (hsub.subset hi)

theorem mono (h : Orderly config now journal server stack) (hnow : now ≤ now')
    (hjournal : ∀ i ∈ stack, last? journal' i.conn.id = last? journal i.conn.id) :
    Orderly config now' journal' server stack where
  ne_nil := h.ne_nil
  length_le := h.length_le
  latest_first := h.latest_first
  past i hi := Nat.le_trans (h.past i hi) hnow
  released i hi := (hjournal i hi).trans (h.released i hi)

/-- A connection that was given back just now can be put on top, or be the first. -/
theorem push {c : Connection} (h : stack = [] ∨ Orderly config now journal server stack)
    (hroom : stack.length < config.maxIdlePerHost.toNat)
    (hreleased : last? journal c.id = some (.released c.id server now)) :
    Orderly config now journal server (⟨c, now⟩ :: stack) := by
  have below : ∀ i ∈ stack, i.since ≤ now ∧
      last? journal i.conn.id = some (.released i.conn.id server i.since) := by
    intro i hi
    rcases h with rfl | orderly
    · cases hi
    · exact ⟨orderly.past i hi, orderly.released i hi⟩
  have sorted : stack.Pairwise fun above below => below.since ≤ above.since := by
    rcases h with rfl | orderly
    · exact .nil
    · exact orderly.latest_first
  constructor
  · exact List.cons_ne_nil _ _
  · exact hroom
  · exact List.pairwise_cons.mpr ⟨fun i hi => (below i hi).1, sorted⟩
  · intro i hi
    rcases List.mem_cons.mp hi with rfl | hbelow
    · exact Nat.le_refl now
    · exact (below i hbelow).1
  · intro i hi
    rcases List.mem_cons.mp hi with rfl | hbelow
    · exact hreleased
    · exact (below i hbelow).2

end Orderly

/-! ## Pools of such stacks -/

/-- All stacks of a pool are as they have to be, and no server has two. -/
structure Shelved (p : Pool) (now : Time) (journal : List Passage) : Prop where
  once : p.hosts.keys.Nodup
  orderly : ∀ e ∈ p.hosts, Orderly p.config now journal e.1 e.2

theorem Pool.mem_ids {p : Pool} {e : SocketAddress × List Idle} {i : Idle} (he : e ∈ p.hosts)
    (hi : i ∈ e.2) : i.conn.id ∈ p.ids :=
  List.mem_flatMap.mpr ⟨e, he, List.mem_map_of_mem hi⟩

namespace Shelved

variable {p : Pool} {now now' : Time} {journal journal' : List Passage}

theorem mono (h : Shelved p now journal) (hnow : now ≤ now')
    (hjournal : ∀ id ∈ p.ids, last? journal' id = last? journal id) :
    Shelved p now' journal' where
  once := h.once
  orderly e he := (h.orderly e he).mono hnow fun _ hi => hjournal _ (Pool.mem_ids he hi)

/-- News of connections that are not in the pool is none for the pool. -/
theorem append (h : Shelved p now journal) (passages : List Passage)
    (others : ∀ id ∈ p.ids, id ∉ passages.map Passage.id) :
    Shelved p now (passages ++ journal) := by
  apply h.mono (Nat.le_refl now)
  intro id hid
  exact last?_append (others id hid) journal

/-- The stack of a server, if it has one. -/
theorem orderly_of_find? (h : Shelved p now journal) {server : SocketAddress}
    {stack : List Idle} (hfound : p.hosts.find? server = some stack) :
    Orderly p.config now journal server stack :=
  h.orderly (server, stack) (Table.mem_of_find? hfound)

/-- A server without a stack is like one with an empty stack. -/
theorem stack_cases (h : Shelved p now journal) (server : SocketAddress) :
    p.stack server = [] ∨ Orderly p.config now journal server (p.stack server) := by
  unfold Pool.stack
  cases hfound : p.hosts.find? server with
  | none => exact .inl rfl
  | some stack => exact .inr (h.orderly_of_find? hfound)

/-- Any part of a stack can take its place. -/
theorem setStack (h : Shelved p now journal) {server : SocketAddress} {stack stack' : List Idle}
    (hfound : p.hosts.find? server = some stack) (hsub : stack'.Sublist stack) (total : Nat) :
    Shelved { p with hosts := p.setStack server stack', total } now journal := by
  unfold Pool.setStack
  by_cases empty : stack'.isEmpty = true
  · rw [if_pos empty]
    constructor
    · exact h.once.sublist (List.filter_sublist.map _)
    · intro e he
      exact h.orderly e (List.mem_of_mem_filter he)
  · rw [if_neg empty]
    constructor
    · exact Table.nodup_keys_put h.once server stack'
    · intro e he
      rcases Table.mem_put he with rfl | hold
      · apply (h.orderly_of_find? hfound).sublist hsub
        intro hnil
        exact empty (List.isEmpty_iff.mpr hnil)
      · exact h.orderly e hold

theorem acquire (h : Shelved p now journal) (server : SocketAddress) (tls : Bool) :
    Shelved (p.acquire now server tls).pool now journal := by
  unfold Pool.acquire
  cases hfound : p.hosts.find? server with
  | none => exact h
  | some stack => exact h.setStack hfound (Pool.sublist_descend ..) _

theorem keys_cleaned (p : Pool) (now : Time) (hosts : Table SocketAddress (List Idle)) :
    (Table.keys (hosts.filterMap (p.cleaned now))).Sublist hosts.keys := by
  induction hosts with
  | nil => exact .slnil
  | cons entry rest ih =>
      rw [List.filterMap_cons, Pool.cleaned]
      by_cases empty : (p.fresh now entry.2).isEmpty = true
      · rw [if_pos empty]
        exact ih.cons entry.1
      · rw [if_neg empty]
        exact ih.cons_cons entry.1

theorem cleanup (h : Shelved p now journal) : Shelved (p.cleanup now) now journal := by
  constructor
  · rw [Pool.hosts_cleanup]
    exact h.once.sublist (keys_cleaned p now p.hosts)
  · intro e he
    rw [Pool.hosts_cleanup] at he
    rcases List.mem_filterMap.mp he with ⟨old, hold, hcleaned⟩
    rw [Pool.cleaned] at hcleaned
    by_cases empty : (p.fresh now old.2).isEmpty = true
    · rw [if_pos empty] at hcleaned
      cases hcleaned
    · rw [if_neg empty] at hcleaned
      cases hcleaned
      apply (h.orderly old hold).sublist List.filter_sublist
      intro hnil
      exact empty (List.isEmpty_iff.mpr hnil)

/-- A connection of which it is known that it was given back can be put on top. -/
theorem put_top (h : Shelved p now journal) {server : SocketAddress} {c : Connection}
    (hroom : (p.stack server).length < p.config.maxIdlePerHost.toNat)
    (hreleased : last? journal c.id = some (.released c.id server now)) (total : Nat) :
    Shelved { p with hosts := p.hosts.put server (⟨c, now⟩ :: p.stack server), total } now
      journal := by
  constructor
  · exact Table.nodup_keys_put h.once ..
  · intro e he
    rcases Table.mem_put he with rfl | hold
    · exact .push (h.stack_cases server) hroom hreleased
    · exact h.orderly e hold

end Shelved

/-! ## Places -/

/-- No connection is in two places, and none is there that has not been set up. -/
structure Apart (next : Nat) (ids : List Nat) : Prop where
  nodup : ids.Nodup
  lt_next : ∀ id ∈ ids, id < next

namespace Apart

variable {next : Nat} {ids ids' : List Nat}

theorem subperm (h : Apart next ids) (hsub : ids'.Subperm ids) : Apart next ids' where
  nodup := by
    rcases hsub with ⟨same, hperm, hsublist⟩
    exact hperm.nodup_iff.mp (h.nodup.sublist hsublist)
  lt_next id hid := h.lt_next id (hsub.subset hid)

theorem connect {xs ys : List Nat} (h : Apart next (xs ++ ys)) :
    Apart (next + 1) (xs ++ next :: ys) where
  nodup := by
    rw [List.nodup_middle, List.nodup_cons]
    refine ⟨?_, h.nodup⟩
    intro hmem
    exact Nat.lt_irrefl next (h.lt_next next hmem)
  lt_next id hid := by
    rcases List.mem_cons.mp (List.perm_middle.subset hid) with rfl | hold
    · exact Nat.lt_succ_self id
    · exact Nat.lt_succ_of_lt (h.lt_next id hold)

/-- What is gone from a place is no longer there. -/
theorem not_mem_gone {gone left rest : List Nat} (h : Apart next (ids ++ rest))
    (parts : (gone ++ left).Perm ids) {id : Nat} (hid : id ∈ left) : id ∉ gone := by
  intro hgone
  have whole : (gone ++ left).Nodup := parts.nodup_iff.mpr (List.nodup_append.mp h.nodup).1
  exact (List.nodup_append.mp whole).2.2 id hgone id hid rfl

end Apart

/-! ## The invariant -/

/-- Everything is where it has to be. -/
structure Tidy (config : PoolConfig) (k : Custody) : Prop where
  config_eq : k.pool.config = config
  /-- The number of idle connections is right. -/
  total_eq : k.pool.total = k.pool.size
  total_le : k.pool.total ≤ config.maxIdleTotal.toNat
  shelved : Shelved k.pool k.now k.journal
  apart : Apart k.next (k.pool.ids ++ k.heldIds)

namespace Custody

variable {k : Custody} {which : Nat} {c : Connection}

/-- One of the connections that are held is taken out. -/
theorem perm_heldIds (h : k.held[which]? = some c) :
    k.heldIds.Perm (c.id :: (k.held.eraseIdx which).map Connection.id) := by
  rcases List.getElem?_eq_some_iff.mp h with ⟨hwhich, rfl⟩
  exact ((List.getElem_cons_eraseIdx_perm hwhich).map Connection.id).symm

theorem heldIds_set (h : k.held[which]? = some c) {c' : Connection} (same : c'.id = c.id) :
    (k.held.set which c').map Connection.id = k.heldIds := by
  rcases List.getElem?_eq_some_iff.mp h with ⟨hwhich, rfl⟩
  rw [List.map_set, same, ← List.getElem_map Connection.id, heldIds]
  · exact List.set_getElem_self _
  · rwa [List.length_map]

end Custody

namespace Tidy

variable {config : PoolConfig} {k : Custody}

theorem empty (config : PoolConfig) : Tidy config (.empty config) where
  config_eq := rfl
  total_eq := rfl
  total_le := Nat.zero_le _
  shelved := ⟨List.nodup_nil, fun _ he => nomatch he⟩
  apart := ⟨List.nodup_nil, fun _ hid => nomatch hid⟩

/-- A connection that is held is not in the pool. -/
theorem not_mem_ids (h : Tidy config k) {which : Nat} {c : Connection}
    (held : k.held[which]? = some c) : c.id ∉ k.pool.ids := by
  intro hpooled
  have hheld : c.id ∈ k.heldIds := List.mem_map_of_mem (List.mem_of_getElem? held)
  exact (List.nodup_append.mp h.apart.nodup).2.2 c.id hpooled c.id hheld rfl

/-- News of a connection that is not in the pool is none for the pool. -/
theorem shelved_cons (h : Tidy config k) (passage : Passage) (other : passage.id ∉ k.pool.ids) :
    Shelved k.pool k.now (passage :: k.journal) := by
  apply h.shelved.append [passage]
  intro id hid hmem
  rw [List.map_singleton, List.mem_singleton] at hmem
  exact other (hmem ▸ hid)

/-! ### One case per act -/

theorem connect (h : Tidy config k) (stream : Stream) (tls : Bool) :
    Tidy config (k.connect stream tls) where
  config_eq := h.config_eq
  total_eq := h.total_eq
  total_le := h.total_le
  shelved := by
    apply h.shelved_cons
    intro hmem
    exact Nat.lt_irrefl k.next (h.apart.lt_next k.next (List.mem_append_left _ hmem))
  apart := h.apart.connect

theorem acquire (h : Tidy config k) (server : SocketAddress) (tls : Bool) :
    Tidy config (k.acquire server tls) := by
  let a := k.pool.acquire k.now server tls
  have once := h.shelved.once
  have parts : (Pool.closedIds a.closed ++ Pool.takenIds a.conn ++ a.pool.ids).Perm k.pool.ids :=
    k.pool.perm_acquire k.now server tls once
  rcases k.pool.total_acquire k.now server tls once h.total_eq with ⟨counted, exact⟩
  constructor
  · exact (k.pool.config_acquire ..).trans h.config_eq
  · exact exact
  · exact Nat.le_trans (Nat.le_trans (Nat.le_add_right ..) (Nat.le_of_eq counted)) h.total_le
  · apply (h.shelved.acquire server tls).append
    intro id hid hmem
    rw [List.map_append, List.map_map, List.map_map] at hmem
    -- what is still in the pool was neither handed out nor closed
    apply h.apart.not_mem_gone parts hid
    rcases List.mem_append.mp hmem with htaken | hclosed
    · exact List.mem_append_right _ htaken
    · exact List.mem_append_left _ hclosed
  · apply h.apart.subperm
    show (a.pool.ids ++ (a.conn.toList ++ k.held).map Connection.id).Subperm _
    rw [List.map_append]
    have fewer : (Pool.takenIds a.conn ++ a.pool.ids).Subperm k.pool.ids := by
      rw [List.append_assoc] at parts
      exact (List.sublist_append_right ..).subperm.trans parts.subperm
    have regroup : (a.pool.ids ++ (Pool.takenIds a.conn ++ k.heldIds)).Perm
        (Pool.takenIds a.conn ++ a.pool.ids ++ k.heldIds) := by
      rw [List.append_assoc]
      exact List.perm_append_comm_assoc ..
    exact regroup.subperm.trans ((List.subperm_append_right _).mpr fewer)

theorem exchange (h : Tidy config k) {which : Nat} {c : Connection}
    (held : k.held[which]? = some c) (stream : Stream) :
    Tidy config (k.exchange which c stream) where
  config_eq := h.config_eq
  total_eq := h.total_eq
  total_le := h.total_le
  shelved := h.shelved
  apart := by
    show Apart k.next (k.pool.ids ++ (k.held.set which _).map Connection.id)
    rw [Custody.heldIds_set held]
    · exact h.apart
    · rfl

theorem discard (h : Tidy config k) {which : Nat} {c : Connection}
    (held : k.held[which]? = some c) : Tidy config (k.discard which c) where
  config_eq := h.config_eq
  total_eq := h.total_eq
  total_le := h.total_le
  shelved := h.shelved_cons (.closed c.id) (h.not_mem_ids held)
  apart := by
    apply h.apart.subperm
    have fewer := (List.sublist_cons_self c.id _).subperm.trans
      (Custody.perm_heldIds held).symm.subperm
    exact (List.subperm_append_left _).mpr fewer

theorem release (h : Tidy config k) {which : Nat} {c : Connection}
    (held : k.held[which]? = some c) (server : SocketAddress) :
    Tidy config (k.release which c server) := by
  unfold Custody.release
  rcases k.pool.release_cases k.now server c with ⟨reason, same⟩ | ⟨room, hostRoom, put⟩
  · rw [same]
    -- a connection that is not taken back is closed, as if it had been discarded
    exact h.discard held
  · rw [put]
    have news := h.shelved_cons (.released c.id server k.now) (h.not_mem_ids held)
    constructor
    · exact h.config_eq
    · show k.pool.total + 1 = Pool.sizeOf _
      rw [k.pool.sizeOf_put_top k.now server c, h.total_eq]
    · rw [← h.config_eq]
      exact room
    · exact news.put_top hostRoom (last?_cons_self ..) _
    · apply h.apart.subperm
      have put := k.pool.perm_put_top k.now server c
      have moved := (put.append_right ((k.held.eraseIdx which).map Connection.id)).trans
        List.perm_middle.symm
      exact (moved.trans ((Custody.perm_heldIds held).symm.append_left _)).subperm

theorem cleanup (h : Tidy config k) : Tidy config k.cleanup := by
  have parts := k.pool.perm_cleanup k.now
  rcases k.pool.total_cleanup k.now h.total_eq with ⟨counted, exact⟩
  constructor
  · exact h.config_eq
  · exact exact
  · exact Nat.le_trans (Nat.le_trans (Nat.le_add_right ..) (Nat.le_of_eq counted)) h.total_le
  · apply h.shelved.cleanup.append
    intro id hid hmem
    rw [List.map_map] at hmem
    exact h.apart.not_mem_gone parts hid hmem
  · apply h.apart.subperm
    have fewer := (List.sublist_append_right ..).subperm.trans parts.subperm
    exact (List.subperm_append_right _).mpr fewer

theorem pass (h : Tidy config k) (time : Duration) :
    Tidy config { k with now := k.now + time } where
  config_eq := h.config_eq
  total_eq := h.total_eq
  total_le := h.total_le
  shelved := h.shelved.mono (Nat.le_add_right ..) fun _ _ => rfl
  apart := h.apart

theorem withHeld (h : Tidy config k) {which : Nat} {f : Connection → Custody}
    (hf : ∀ c, k.held[which]? = some c → Tidy config (f c)) : Tidy config (k.withHeld which f) := by
  unfold Custody.withHeld
  cases held : k.held[which]? with
  | none => exact h
  | some c => exact hf c held

theorem step (h : Tidy config k) (act : Act) : Tidy config (k.step act) := by
  cases act with
  | connect stream tls => exact h.connect stream tls
  | acquire server tls => exact h.acquire server tls
  | exchange which stream => exact h.withHeld fun c held => h.exchange held stream
  | release server which => exact h.withHeld fun c held => h.release held server
  | discard which => exact h.withHeld fun c held => h.discard held
  | cleanup => exact h.cleanup
  | pass time => exact h.pass time

theorem run (h : Tidy config k) (acts : List Act) : Tidy config (k.run acts) := by
  induction acts generalizing k with
  | nil => exact h
  | cons act acts ih => exact ih (h.step act)

end Tidy

/-- **The pool is tidy.** Let any number of callers, in any order and while time goes by, set up
connections, take them from the pool, send queries over what they hold, give it back or close it,
and let the pool close what is too old. Then the number of idle connections is that of the
connections on all stacks and within its limit; no stack is empty or longer than its limit, and
connections are on it in the order in which they were given back, none later than now; no
connection is in the pool twice or with a caller as well; and the last that happened to a
connection in the pool is that it was given back, to the server in whose stack it is. The number
is never adjusted by more than it is: taking and cleaning up subtract one for each connection
that they take off a stack. -/
theorem Custody.tidy_run (config : PoolConfig) (acts : List Act) :
    let k := (Custody.empty config).run acts
    Tidy config k ∧
      (∀ server tls, let a := k.pool.acquire k.now server tls
        a.pool.total + (a.closed.length + a.conn.toList.length) = k.pool.total) ∧
      (k.pool.cleanup k.now).total + (k.pool.expired k.now).length = k.pool.total := by
  intro k
  have tidy : Tidy config k := (Tidy.empty config).run acts
  refine ⟨tidy, ?_, ?_⟩
  · intro server tls
    exact (k.pool.total_acquire k.now server tls tidy.shelved.once tidy.total_eq).1
  · exact (k.pool.total_cleanup k.now tidy.total_eq).1

end Querier
