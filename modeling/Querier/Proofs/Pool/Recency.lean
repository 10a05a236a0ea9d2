import Querier.Proofs.Pool.Custody

/-!
# The latest connection that fits

Who asks the pool for a connection gets the one that was given back last among those that
have the right protection and are not too old. The pool goes down a stack to find it and
closes what it passes over, for two reasons that have nothing to do with each other. Two
things have to be known of the stack for this to be right, and neither is seen in a state:
that it has the order in which connections were given back, and that what is above a
connection that is not too old is not too old either.

The first is an invariant over all that callers do: a stack and the journal list the same
connections in the same order. The second follows from the order of the times in it.

## Main results

* `Custody.InOrder.run`: the stacks are what the journal says is waiting.
* `Pool.acquire_above`, `Pool.acquire_unfit`: what taking a connection does to a stack.
* `Custody.acquire_latest`: the latest connection that fits is handed out, and what is closed
  was given back later and has the wrong protection.
-/

namespace Querier

/-! ## Who is waiting -/

/-- An idle connection as a journal knows it: which it is and when it was given back. -/
def Idle.mark (i : Idle) : Nat × Time := (i.conn.id, i.since)

/-- The connection that is given back for queries to a server. -/
def Passage.back? (server : SocketAddress) : Passage → Option (Nat × Time)
  | .released id place time => if place = server then some (id, time) else none
  | .opened _ | .taken _ _ | .closed _ => none

/-- The connections that were given back for queries to a server and of which nothing has been
heard since, the latest first. -/
def waiting (server : SocketAddress) : List Passage → List (Nat × Time)
  | [] => []
  | passage :: past =>
    (passage.back? server).toList ++
      (waiting server past).filter fun mark => mark.1 ≠ passage.id

/-- When connections are handed out, closed or set up, they and nothing else no longer wait. -/
theorem waiting_append {server : SocketAddress} {passages : List Passage}
    (silent : ∀ passage ∈ passages, passage.back? server = none) (journal : List Passage) :
    waiting server (passages ++ journal) =
      (waiting server journal).filter fun mark => mark.1 ∉ passages.map Passage.id := by
  induction passages with
  | nil => exact (List.filter_eq_self.mpr fun _ _ => decide_eq_true List.not_mem_nil).symm
  | cons passage passages ih =>
      have rest := ih fun other hother => silent other (List.mem_cons_of_mem _ hother)
      rw [List.cons_append, waiting, silent passage List.mem_cons_self, rest, List.filter_filter,
        Option.toList_none, List.nil_append]
      apply List.filter_congr
      intro mark _
      rw [← Bool.decide_and, decide_eq_decide, List.map_cons, List.mem_cons, not_or]

/-! ## Parts of a stack -/

namespace Pool

variable {p : Pool} {now : Time}

theorem mem_ids_of_mem_stack {server : SocketAddress} {i : Idle} (hi : i ∈ p.stack server) :
    i.conn.id ∈ p.ids := by
  unfold stack at hi
  cases hfound : p.hosts.find? server with
  | none =>
      rw [hfound] at hi
      cases hi
  | some s =>
      rw [hfound] at hi
      exact mem_ids (Table.mem_of_find? hfound) hi

theorem find?_cleaned {hosts : Table SocketAddress (List Idle)} (once : hosts.keys.Nodup)
    (server : SocketAddress) :
    (Table.find? (hosts.filterMap (p.cleaned now)) server).getD [] =
      p.fresh now ((hosts.find? server).getD []) := by
  induction hosts with
  | nil => rfl
  | cons entry rest ih =>
      rcases List.nodup_cons.mp once with ⟨hentry, hrest⟩
      rw [List.filterMap_cons, cleaned, Table.find?]
      by_cases here : (server == entry.1) = true
      · have gone : Table.find? rest server = none := by
          rw [eq_of_beq here]
          exact Table.find?_eq_none_of_not_mem hentry
        have rest_eq := ih hrest
        rw [gone] at rest_eq
        rw [if_pos here, Option.getD_some]
        by_cases empty : (p.fresh now entry.2).isEmpty = true
        · rw [if_pos empty, List.isEmpty_iff.mp empty]
          exact rest_eq
        · rw [if_neg empty]
          show (Table.find? ((entry.1, p.fresh now entry.2) :: _) server).getD [] = _
          rw [Table.find?, if_pos here, Option.getD_some]
      · rw [if_neg here]
        by_cases empty : (p.fresh now entry.2).isEmpty = true
        · rw [if_pos empty]
          exact ih hrest
        · rw [if_neg empty]
          show (Table.find? ((entry.1, p.fresh now entry.2) :: _) server).getD [] = _
          rw [Table.find?, if_neg here]
          exact ih hrest

/-- Cleaning up leaves of each stack what is not too old. -/
theorem stack_cleanup (once : p.hosts.keys.Nodup) (server : SocketAddress) :
    (p.cleanup now).stack server = p.fresh now (p.stack server) := by
  unfold stack
  rw [hosts_cleanup]
  exact find?_cleaned once server

theorem mem_expired {server : SocketAddress} {i : Idle} (hi : i ∈ p.stack server)
    (old : p.config.maxIdleTime < age now i) : i ∈ p.expired now := by
  refine List.mem_filter.mpr ⟨?_, decide_eq_true old⟩
  unfold stack at hi
  cases hfound : p.hosts.find? server with
  | none =>
      rw [hfound] at hi
      cases hi
  | some s =>
      rw [hfound] at hi
      exact List.mem_flatMap.mpr ⟨(server, s), Table.mem_of_find? hfound, hi⟩

end Pool

/-! ## What fits -/

/-- It has the protection that is asked for and has not been idle too long. -/
def Idle.Fits (limit : Duration) (now : Time) (tls : Bool) (i : Idle) : Prop :=
  i.conn.tls = tls ∧ Pool.age now i ≤ limit

instance (limit : Duration) (now : Time) (tls : Bool) : DecidablePred (Idle.Fits limit now tls) :=
  fun _ => inferInstanceAs (Decidable (_ ∧ _))

/-- How a connection that does not fit is closed; the protection is looked at first. -/
def Idle.closing (tls : Bool) (i : Idle) : Closing :=
  ⟨if i.conn.tls = tls then .expired else .wrongProtection, i.conn⟩

namespace Pool

variable {limit : Duration} {now : Time} {tls : Bool} {i : Idle} {above below s : List Idle}

theorem descend_fits (fits : i.Fits limit now tls) :
    descend limit now tls (i :: below) = ⟨some i.conn, below, []⟩ := by
  have right : ¬ (i.conn.tls != tls) = true := by simpa using fits.1
  rw [descend, if_neg right, if_neg (Nat.not_lt_of_le fits.2)]

theorem descend_unfit (unfit : ¬ i.Fits limit now tls) :
    descend limit now tls (i :: below) = (descend limit now tls below).over (i.closing tls) := by
  rw [descend, Idle.closing]
  by_cases right : i.conn.tls = tls
  · have old : limit < age now i := Nat.lt_of_not_le fun young => unfit ⟨right, young⟩
    rw [if_neg (by simpa using right), if_pos old, if_pos right]
  · rw [if_pos (by simpa using right), if_neg right]

/-- All that do not fit are closed on the way down. -/
theorem descend_append (unfit : ∀ i ∈ above, ¬ i.Fits limit now tls) (below : List Idle) :
    descend limit now tls (above ++ below) =
      { descend limit now tls below with
        closed := above.map (Idle.closing tls) ++ (descend limit now tls below).closed } := by
  induction above with
  | nil => rfl
  | cons i above ih =>
      rw [List.cons_append, descend_unfit (unfit i List.mem_cons_self),
        ih fun j hj => unfit j (List.mem_cons_of_mem _ hj)]
      rfl

variable (p : Pool) (server : SocketAddress)

/-- Taking a connection goes down the stack of the server, which may be none. -/
theorem acquire_descend (now : Time) (tls : Bool) :
    let d := descend p.config.maxIdleTime now tls (p.stack server)
    let a := p.acquire now server tls
    a.conn = d.conn ∧ a.closed = d.closed ∧ a.pool.stack server = d.below := by
  intro d a
  unfold a d acquire
  cases hfound : p.hosts.find? server with
  | none =>
      have empty : p.stack server = [] := by rw [stack, hfound, Option.getD_none]
      rw [empty]
      exact ⟨rfl, rfl, rfl⟩
  | some s =>
      have found : p.stack server = s := by rw [stack, hfound, Option.getD_some]
      rw [found]
      refine ⟨rfl, rfl, ?_⟩
      rw [stack, find?_setStack, if_pos rfl]

/-- The first connection that fits is handed out, and those above it are closed. -/
theorem acquire_above (hstack : p.stack server = above ++ i :: below)
    (unfit : ∀ j ∈ above, ¬ j.Fits p.config.maxIdleTime now tls)
    (fits : i.Fits p.config.maxIdleTime now tls) :
    let a := p.acquire now server tls
    a.conn = some i.conn ∧ a.closed = above.map (Idle.closing tls) ∧
      a.pool.stack server = below := by
  have descent := p.acquire_descend server now tls
  rw [hstack, descend_append unfit, descend_fits fits] at descent
  simpa only [List.append_nil] using descent

/-- If none fits, all are closed. -/
theorem acquire_unfit (unfit : ∀ i ∈ p.stack server, ¬ i.Fits p.config.maxIdleTime now tls) :
    let a := p.acquire now server tls
    a.conn = none ∧ a.closed = (p.stack server).map (Idle.closing tls) ∧
      a.pool.stack server = [] := by
  have descent := p.acquire_descend server now tls
  have all := descend_append unfit []
  rw [List.append_nil] at all
  rw [all] at descent
  simpa only [descend, List.append_nil] using descent

/-- There is a first connection that fits, or there is none. -/
theorem first_fits (limit : Duration) (now : Time) (tls : Bool) (s : List Idle) :
    (∃ above i below, s = above ++ i :: below ∧ (∀ j ∈ above, ¬ j.Fits limit now tls) ∧
        i.Fits limit now tls) ∨ ∀ i ∈ s, ¬ i.Fits limit now tls := by
  cases hfirst : s.find? fun i => i.Fits limit now tls with
  | none =>
      refine .inr fun i hi fits => ?_
      exact List.find?_eq_none.mp hfirst i hi (decide_eq_true fits)
  | some i =>
      rcases List.find?_eq_some_iff_append.mp hfirst with ⟨fits, above, below, hs, unfit⟩
      refine .inl ⟨above, i, below, hs, fun j hj => ?_, of_decide_eq_true fits⟩
      simpa using unfit j hj

/-- What is taken off a stack was handed out or closed. -/
theorem stack_acquire (now : Time) (tls : Bool) :
    let a := p.acquire now server tls
    ∃ passed, p.stack server = passed ++ a.pool.stack server ∧
      stackIds passed = closedIds a.closed ++ takenIds a.conn := by
  intro a
  have ids (tops : List Idle) : closedIds (tops.map (Idle.closing tls)) = stackIds tops :=
    List.map_map
  rcases first_fits p.config.maxIdleTime now tls (p.stack server) with
    ⟨above, i, below, hstack, unfit, fits⟩ | unfit
  · rcases p.acquire_above server hstack unfit fits with ⟨hconn, hclosed, hbelow⟩
    refine ⟨above ++ [i], ?_, ?_⟩
    · rw [hstack, hbelow, List.append_assoc, List.singleton_append]
    · rw [hconn, hclosed, ids, stackIds, List.map_append]
      rfl
  · rcases p.acquire_unfit server unfit with ⟨hconn, hclosed, hbelow⟩
    refine ⟨p.stack server, ?_, ?_⟩
    · rw [hbelow, List.append_nil]
    · rw [hconn, hclosed, ids]
      exact (List.append_nil _).symm

end Pool

/-! ## The order of the stacks -/

namespace Custody

/-- Each stack has the connections that are waiting, the one that was given back last on top. -/
def InOrder (k : Custody) : Prop :=
  ∀ server, (k.pool.stack server).map Idle.mark = waiting server k.journal

namespace InOrder

variable {config : PoolConfig} {k : Custody}

theorem empty (config : PoolConfig) : (Custody.empty config).InOrder := fun _ => rfl

/-- The marks of connections of which none is gone. -/
theorem filter_marks {stack : List Idle} {gone : List Nat}
    (others : ∀ i ∈ stack, i.conn.id ∉ gone) :
    (stack.map Idle.mark).filter (fun mark => mark.1 ∉ gone) = stack.map Idle.mark := by
  rw [List.filter_eq_self]
  intro mark hmark
  rcases List.mem_map.mp hmark with ⟨i, hi, rfl⟩
  exact decide_eq_true (others i hi)

/-- News of a connection that is not in the pool. -/
theorem cons_silent (h : k.InOrder) {passage : Passage} (other : passage.id ∉ k.pool.ids)
    (silent : ∀ server, passage.back? server = none) (server : SocketAddress) :
    (k.pool.stack server).map Idle.mark = waiting server (passage :: k.journal) := by
  have news : waiting server ([passage] ++ k.journal) =
      (waiting server k.journal).filter fun mark => mark.1 ∉ [passage].map Passage.id :=
    waiting_append (fun q hq => List.mem_singleton.mp hq ▸ silent server) k.journal
  rw [List.singleton_append, ← h server, filter_marks] at news
  · exact news.symm
  · intro i hi hmem
    exact other (List.mem_singleton.mp hmem ▸ Pool.mem_ids_of_mem_stack hi)

/-! ### One case per act -/

theorem connect (h : k.InOrder) (tidy : Tidy config k) (stream : Stream) (tls : Bool) :
    (k.connect stream tls).InOrder := by
  apply h.cons_silent
  · intro hmem
    exact Nat.lt_irrefl k.next (tidy.apart.lt_next k.next (List.mem_append_left _ hmem))
  · exact fun _ => rfl

theorem discard (h : k.InOrder) (tidy : Tidy config k) {which : Nat} {c : Connection}
    (held : k.held[which]? = some c) : (k.discard which c).InOrder := by
  apply h.cons_silent
  · exact tidy.not_mem_ids held
  · exact fun _ => rfl

theorem release (h : k.InOrder) (tidy : Tidy config k) {which : Nat} {c : Connection}
    (held : k.held[which]? = some c) (server : SocketAddress) :
    (k.release which c server).InOrder := by
  unfold Custody.release
  rcases k.pool.release_cases k.now server c with ⟨reason, same⟩ | ⟨-, -, put⟩
  · rw [same]
    -- a connection that is not taken back is closed, as if it had been discarded
    exact h.discard tidy held
  · rw [put]
    intro other
    have others : ((waiting other k.journal).filter fun mark => mark.1 ≠ c.id) =
        (k.pool.stack other).map Idle.mark := by
      have apart : ∀ i ∈ k.pool.stack other, i.conn.id ∉ [c.id] := by
        intro i hi hmem
        exact tidy.not_mem_ids held (List.mem_singleton.mp hmem ▸ Pool.mem_ids_of_mem_stack hi)
      have kept := filter_marks apart
      simpa only [h other, List.mem_singleton] using kept
    show (Pool.stack { k.pool with hosts := _, total := _ } other).map Idle.mark =
      waiting other (Passage.released c.id server k.now :: k.journal)
    rw [waiting, Passage.back?, Pool.stack, Table.find?_put_eq, Passage.id, others]
    by_cases same : other = server
    · rw [if_pos (beq_iff_eq.mpr same), if_pos same.symm, same]
      rfl
    · rw [if_neg (by simpa using same), if_neg (Ne.symm same)]
      rfl

theorem acquire (h : k.InOrder) (tidy : Tidy config k) (server : SocketAddress) (tls : Bool) :
    (k.acquire server tls).InOrder := by
  intro other
  let a := k.pool.acquire k.now server tls
  let gone : List Nat := Pool.takenIds a.conn ++ Pool.closedIds a.closed
  have parts : (Pool.closedIds a.closed ++ Pool.takenIds a.conn ++ a.pool.ids).Perm k.pool.ids :=
    k.pool.perm_acquire k.now server tls tidy.shelved.once
  -- what is still in the pool was neither handed out nor closed
  have left : ∀ i ∈ a.pool.stack other, i.conn.id ∉ gone := by
    intro i hi hgone
    apply tidy.apart.not_mem_gone parts (Pool.mem_ids_of_mem_stack hi)
    exact List.mem_append.mpr (List.mem_append.mp hgone).symm
  have news : waiting other (k.acquire server tls).journal =
      (waiting other k.journal).filter fun mark => mark.1 ∉ gone := by
    have silent : ∀ passage ∈ (a.conn.toList.map fun c => Passage.taken c.id server) ++
        (a.closed.map fun c => Passage.closed c.conn.id), passage.back? other = none := by
      intro passage hpassage
      rcases List.mem_append.mp hpassage with htaken | hclosed
      · rcases List.mem_map.mp htaken with ⟨c, -, rfl⟩
        rfl
      · rcases List.mem_map.mp hclosed with ⟨c, -, rfl⟩
        rfl
    have filtered := waiting_append silent k.journal
    rw [List.map_append, List.map_map, List.map_map] at filtered
    exact filtered
  rw [news, ← h other]
  show (a.pool.stack other).map Idle.mark = _
  by_cases same : other = server
  · rcases k.pool.stack_acquire server k.now tls with ⟨passed, hstack, hpassed⟩
    subst same
    have vanish : (passed.map Idle.mark).filter (fun mark => mark.1 ∉ gone) = [] := by
      rw [List.filter_eq_nil_iff]
      intro mark hmark
      rcases List.mem_map.mp hmark with ⟨i, hi, rfl⟩
      intro stays
      apply of_decide_eq_true stays
      exact List.mem_append.mpr (List.mem_append.mp (hpassed ▸ List.mem_map_of_mem hi)).symm
    rw [hstack, List.map_append, List.filter_append, vanish, List.nil_append, filter_marks left]
  · rw [k.pool.stack_acquire_of_ne k.now server tls same] at left ⊢
    exact (filter_marks left).symm

theorem cleanup (h : k.InOrder) (tidy : Tidy config k) : k.cleanup.InOrder := by
  intro server
  let gone : List Nat := Pool.stackIds (k.pool.expired k.now)
  have once := tidy.shelved.once
  have news : waiting server k.cleanup.journal =
      (waiting server k.journal).filter fun mark => mark.1 ∉ gone := by
    have silent : ∀ passage ∈ (k.pool.expired k.now).map fun i => Passage.closed i.conn.id,
        passage.back? server = none := by
      intro passage hpassage
      rcases List.mem_map.mp hpassage with ⟨i, -, rfl⟩
      rfl
    have filtered := waiting_append silent k.journal
    rw [List.map_map] at filtered
    exact filtered
  rw [news, ← h server, List.filter_map]
  show ((k.pool.cleanup k.now).stack server).map Idle.mark = _
  rw [Pool.stack_cleanup once, Pool.fresh]
  congr 1
  apply List.filter_congr
  intro i hi
  show decide _ = decide (i.conn.id ∉ gone)
  rw [decide_eq_decide]
  constructor
  · intro fresh
    have kept : i ∈ (k.pool.cleanup k.now).stack server := by
      rw [Pool.stack_cleanup once]
      exact List.mem_filter.mpr ⟨hi, decide_eq_true fresh⟩
    exact tidy.apart.not_mem_gone (k.pool.perm_cleanup k.now) (Pool.mem_ids_of_mem_stack kept)
  · intro stays
    apply Nat.le_of_not_lt
    intro old
    exact stays (List.mem_map_of_mem (Pool.mem_expired hi old))

theorem step (h : k.InOrder) (tidy : Tidy config k) (act : Act) : (k.step act).InOrder := by
  have withHeld (which : Nat) (f : Connection → Custody)
      (hf : ∀ c, k.held[which]? = some c → (f c).InOrder) : (k.withHeld which f).InOrder := by
    unfold Custody.withHeld
    cases held : k.held[which]? with
    | none => exact h
    | some c => exact hf c held
  cases act with
  | connect stream tls => exact h.connect tidy stream tls
  | acquire server tls => exact h.acquire tidy server tls
  | exchange which stream => exact withHeld which _ fun _ _ => h
  | release server which => exact withHeld which _ fun _ held => h.release tidy held server
  | discard which => exact withHeld which _ fun _ held => h.discard tidy held
  | cleanup => exact h.cleanup tidy
  | pass time => exact h

theorem run (h : k.InOrder) (tidy : Tidy config k) (acts : List Act) : (k.run acts).InOrder := by
  induction acts generalizing k with
  | nil => exact h
  | cons act acts ih => exact ih (h.step tidy act) (tidy.step act)

end InOrder

end Custody

/-! ## Handing out the latest that fits -/

/-- What lies above a connection that is not too old is not too old. -/
theorem Orderly.age_le {config : PoolConfig} {now : Time} {journal : List Passage}
    {server : SocketAddress} {above below : List Idle} {i j : Idle}
    (h : Orderly config now journal server (above ++ i :: below)) (hj : j ∈ above) :
    Pool.age now j ≤ Pool.age now i := by
  have later : i.since ≤ j.since :=
    (List.pairwise_append.mp h.latest_first).2.2 j hj i List.mem_cons_self
  exact Nat.sub_le_sub_left later now

/-- **The latest connection that fits is handed out.** Whatever callers have done with a pool that
was empty once, and however time has gone by, the stack of each server has the connections that
were given back to the server and not heard of since, the one given back last on top. Who asks
for a connection to a server gets the first on its stack that has the right protection and has
not been idle too long; those given back after it are closed, because all of them have the wrong
protection, and those given back before it stay. If there is none that fits, nothing is handed
out and all connections to the server are closed. Other servers keep what they have. -/
theorem Custody.acquire_latest (config : PoolConfig) (acts : List Act) (server : SocketAddress)
    (tls : Bool) :
    let k := (Custody.empty config).run acts
    let a := k.pool.acquire k.now server tls
    (∀ place, (k.pool.stack place).map Idle.mark = waiting place k.journal) ∧
      ((∃ above i below, k.pool.stack server = above ++ i :: below ∧
          i.Fits config.maxIdleTime k.now tls ∧ a.conn = some i.conn ∧
          (∀ j ∈ above, j.conn.tls ≠ tls) ∧
          a.closed = above.map (fun j => ⟨.wrongProtection, j.conn⟩) ∧
          a.pool.stack server = below) ∨
        ((∀ i ∈ k.pool.stack server, ¬ i.Fits config.maxIdleTime k.now tls) ∧ a.conn = none ∧
          a.closed = (k.pool.stack server).map (Idle.closing tls) ∧
          a.pool.stack server = [])) ∧
      ∀ place, place ≠ server → a.pool.stack place = k.pool.stack place := by
  intro k a
  have tidy : Tidy config k := (Tidy.empty config).run acts
  have order : k.InOrder := (InOrder.empty config).run (.empty config) acts
  refine ⟨order, ?_, fun place => k.pool.stack_acquire_of_ne k.now server tls⟩
  rw [← tidy.config_eq]
  rcases Pool.first_fits k.pool.config.maxIdleTime k.now tls (k.pool.stack server) with
    ⟨above, i, below, hstack, unfit, fits⟩ | unfit
  · rcases k.pool.acquire_above server hstack unfit fits with ⟨hconn, hclosed, hbelow⟩
    have orderly : Orderly k.pool.config k.now k.journal server (above ++ i :: below) := by
      rcases tidy.shelved.stack_cases server with empty | orderly
      · rw [hstack] at empty
        exact absurd empty (by simp)
      · rwa [hstack] at orderly
    have wrong : ∀ j ∈ above, j.conn.tls ≠ tls := fun j hj right =>
      unfit j hj ⟨right, Nat.le_trans (orderly.age_le hj) fits.2⟩
    refine .inl ⟨above, i, below, hstack, fits, hconn, wrong, ?_, hbelow⟩
    rw [hclosed]
    apply List.map_congr_left
    intro j hj
    rw [Idle.closing, if_neg (wrong j hj)]
  · exact .inr ⟨unfit, k.pool.acquire_unfit server unfit⟩

/-- A connection in the clear is found below one with TLS, which is closed. -/
example :
    let server : SocketAddress := .of (.v4 192 0 2 1) 53
    let k := (Custody.empty {}).run [.connect {} false, .release server 0, .pass 1000,
      .connect {} true, .release server 0, .pass 1000]
    let a := k.pool.acquire k.now server false
    a.conn.map Connection.id = some 0 ∧ a.closed.map (fun c => c.conn.id) = [1] := by
  decide

end Querier
