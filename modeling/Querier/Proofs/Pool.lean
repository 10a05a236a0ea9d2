import Mathlib.Data.List.Flatten
import Mathlib.Data.List.Perm.Subperm
import Querier.Pool
import Querier.Proofs.Stream

/-!
# What the pool keeps

The pool neither makes connections nor copies them. What it hands out it held before,
and it does not keep it; what it holds after a connection was given back is what it held
and at most this connection.

`Pool.conns` are the connections themselves, and what operations do to them is said once. Of a
connection most theorems want to know only which one it is and what will arrive on it. That is
its `Holding`; the counters and clocks around it may change at any time.

## Main results

* `Pool.conns_acquire`, `Pool.conns_release`: taking and giving back.
* `Pool.conns_cleanup`, `Pool.conns_renewStreams`: time going by.
* `Pool.reason_release_iff`: when a connection has carried too many queries.
* `Pool.acquire_cases`, `Pool.stack_acquire_of_ne`: stacks when a connection is taken.
-/

namespace Querier

/-- Which connection it is, and the octets that will arrive on it. -/
abbrev Holding := Nat × List UInt8

/-- A connection for its holder. -/
def Connection.holding (c : Connection) : Holding := (c.id, Stream.incoming c.stream.arrivals)

theorem Stream.arrivals_renew (s : Stream) : s.renew.arrivals = s.arrivals := by
  unfold renew
  split <;> rfl

/-- A part of a list in any order stays one under any function. -/
theorem subperm_map {α β : Type} (f : α → β) {xs ys : List α} (h : xs.Subperm ys) :
    (xs.map f).Subperm (ys.map f) := by
  obtain ⟨same, hperm, hsub⟩ := h
  exact ⟨same.map f, hperm.map f, hsub.map f⟩

/-! ## Tables of lists -/

namespace Table

variable {κ α β : Type} [BEq κ] (f : α → List β) (t : Table κ α) (k : κ)

theorem perm_put (a : α) :
    ((t.find? k).toList.flatMap f ++ (t.put k a).flatMap fun e => f e.2).Perm
      (f a ++ t.flatMap fun e => f e.2) := by
  induction t with
  | nil => exact .refl _
  | cons entry rest ih =>
      obtain ⟨other, b⟩ := entry
      by_cases here : (k == other) = true
      · simp only [find?, put, here, if_true, Option.toList_some, List.flatMap_cons,
          List.flatMap_nil, List.append_nil]
        exact List.perm_append_comm_assoc ..
      · simp only [find?, put, here, Bool.false_eq_true, if_false, List.flatMap_cons]
        refine (List.perm_append_comm_assoc ..).trans ?_
        exact (ih.append_left (f b)).trans (List.perm_append_comm_assoc ..)

theorem subperm_erase :
    ((t.find? k).toList.flatMap f ++ (t.erase k).flatMap fun e => f e.2).Subperm
      (t.flatMap fun e => f e.2) := by
  induction t with
  | nil => exact .refl _
  | cons entry rest ih =>
      obtain ⟨other, b⟩ := entry
      by_cases here : (k == other) = true
      · simp only [find?, erase, here, if_true, Option.toList_some, List.filter_cons,
          Bool.not_true, Bool.false_eq_true, if_false, List.flatMap_cons, List.flatMap_nil,
          List.append_nil]
        exact ((List.filter_sublist.flatMap _).append_left (f b)).subperm
      · simp only [find?, erase, here, Bool.false_eq_true, if_false, List.filter_cons,
          Bool.not_false, if_true, List.flatMap_cons] at ih ⊢
        exact (List.perm_append_comm_assoc ..).subperm.trans
          ((List.subperm_append_left (f b)).mpr ih)

end Table

/-! ## The pool -/

namespace Pool

variable (p : Pool) (now : Time) (server : SocketAddress) (tls : Bool) (c : Connection)

/-- The connections in a stack. -/
def connsOf (stack : List Idle) : List Connection := stack.map Idle.conn

/-- The connections in the pool. -/
def conns : List Connection := p.hosts.flatMap fun e => connsOf e.2

/-- What a stack holds. -/
def held (stack : List Idle) : List Holding := stack.map fun i => i.conn.holding

/-- What the pool holds. -/
def holdings : List Holding := p.hosts.flatMap fun e => held e.2

theorem map_conns {α : Type} (f : Connection → α) :
    p.conns.map f = p.hosts.flatMap fun e => e.2.map fun i => f i.conn := by
  rw [conns, List.map_flatMap]
  refine congrArg (p.hosts.flatMap ·) (funext fun e => ?_)
  exact List.map_map ..

theorem holdings_eq : p.holdings = p.conns.map Connection.holding :=
  (p.map_conns Connection.holding).symm

/-! ### Taking -/

theorem conns_descend (limit : Duration) (stack : List Idle) :
    ((descend limit now tls stack).conn.toList ++
      connsOf (descend limit now tls stack).below).Sublist (connsOf stack) := by
  induction stack with
  | nil => exact .slnil
  | cons i below ih =>
      simp only [descend]
      split
      · exact ih.cons _
      · split
        · exact ih.cons _
        · exact .refl _

theorem conns_acquire :
    ((p.acquire now server tls).conn.toList ++
      (p.acquire now server tls).pool.conns).Subperm p.conns := by
  unfold acquire
  split
  · exact .refl _
  · rename_i stack hfound
    have descent := (conns_descend now tls p.config.maxIdleTime stack).subperm
    simp only [conns, setStack]
    split
    · rename_i hempty
      rw [List.isEmpty_iff.mp hempty, connsOf, List.map_nil, List.append_nil] at descent
      have erased := Table.subperm_erase connsOf p.hosts server
      rw [hfound, Option.toList_some, List.flatMap_singleton] at erased
      exact ((List.subperm_append_right _).mpr descent).trans erased
    · have put := Table.perm_put connsOf p.hosts server
        (descend p.config.maxIdleTime now tls stack).below
      rw [hfound, Option.toList_some, List.flatMap_singleton] at put
      -- what stays below is on both sides
      have both := ((List.subperm_append_right _).mpr descent).trans put.subperm
      rw [List.append_assoc] at both
      exact (List.subperm_append_left _).mp ((List.perm_append_comm_assoc ..).subperm.trans both)

theorem config_acquire : (p.acquire now server tls).pool.config = p.config := by
  unfold acquire
  cases p.hosts.find? server <;> rfl

theorem holdings_acquire :
    ((p.acquire now server tls).conn.toList.map Connection.holding ++
      (p.acquire now server tls).pool.holdings).Subperm p.holdings := by
  rw [holdings_eq, holdings_eq, ← List.map_append]
  exact subperm_map Connection.holding (p.conns_acquire now server tls)

/-! ### Giving back -/

/-- A connection that has carried as many queries as it may is closed for that, and a count below
that is no reason. -/
theorem reason_release_iff :
    (p.release now server c).2.map Closing.reason = some .tooManyQueries ↔
      0 < p.config.maxQueries ∧ p.config.maxQueries ≤ c.queries := by
  rw [release]
  by_cases tired : 0 < p.config.maxQueries ∧ p.config.maxQueries ≤ c.queries
  · exact ⟨fun _ => tired, fun _ => by rw [if_pos tired]; rfl⟩
  · refine ⟨fun h => ?_, fun h => absurd h tired⟩
    simp only [if_neg tired] at h
    split at h
    · cases h
    · split at h <;> cases h

/-- Without a limit the count makes no difference. -/
theorem reason_release_of_unlimited (unlimited : p.config.maxQueries = 0) (n : UInt64) :
    (p.release now server { c with queries := n }).2.map Closing.reason =
      (p.release now server c).2.map Closing.reason := by
  have rested (q : UInt64) : ¬ (0 < p.config.maxQueries ∧ p.config.maxQueries ≤ q) := by
    rw [unlimited]
    exact fun tired => UInt64.lt_irrefl 0 tired.1
  simp only [release, if_neg (rested _)]
  split
  · rfl
  · split <;> rfl

theorem config_release : (p.release now server c).1.config = p.config := by
  simp only [release]
  split
  · rfl
  · split
    · rfl
    · split <;> rfl

/-- What is in the pool after a connection was given back was there before, or it is the
connection, with a count below the limit. -/
theorem conns_release :
    (p.release now server c).1.conns.Subperm p.conns ∨
      (p.release now server c).1.conns.Subperm (c :: p.conns) ∧
        (0 < p.config.maxQueries → c.queries < p.config.maxQueries) := by
  simp only [release]
  split
  · exact .inl (.refl _)
  · rename_i rested
    split
    · exact .inl (.refl _)
    · split
      · exact .inl (.refl _)
      · refine .inr ⟨?_, fun limited => UInt64.not_le.mp fun most => rested ⟨limited, most⟩⟩
        have put := Table.perm_put connsOf p.hosts server (⟨c, now⟩ :: p.stack server)
        have top : connsOf (⟨c, now⟩ :: p.stack server) =
            c :: (p.hosts.find? server).toList.flatMap connsOf := by
          unfold stack
          cases p.hosts.find? server <;> simp [connsOf]
        rw [top] at put
        -- what was in the stack before is on both sides
        refine (List.subperm_append_left ((p.hosts.find? server).toList.flatMap connsOf)).mp ?_
        exact put.subperm.trans List.perm_middle.symm.subperm

theorem holdings_release :
    (p.release now server c).1.holdings.Subperm (c.holding :: p.holdings) := by
  rw [holdings_eq, holdings_eq]
  rcases p.conns_release now server c with fewer | ⟨more, -⟩
  · exact (subperm_map Connection.holding fewer).trans (List.sublist_cons_self ..).subperm
  · exact subperm_map Connection.holding more

/-! ### Time going by -/

theorem conns_cleanup : (p.cleanup now).conns.Sublist p.conns := by
  simp only [cleanup, conns]
  induction p.hosts with
  | nil => exact .slnil
  | cons entry rest ih =>
      obtain ⟨server, stack⟩ := entry
      rw [List.filterMap_cons, List.flatMap_cons]
      simp only
      split
      · exact ih.trans (List.sublist_append_right ..)
      · rename_i kept hkept
        split at hkept
        · cases hkept
        · cases hkept
          rw [List.flatMap_cons]
          exact (List.filter_sublist.map _).append ih

theorem holdings_cleanup : (p.cleanup now).holdings.Sublist p.holdings := by
  rw [holdings_eq, holdings_eq]
  exact (p.conns_cleanup now).map Connection.holding

theorem conns_renewStreams :
    p.renewStreams.conns = p.conns.map fun c => { c with stream := c.stream.renew } := by
  rw [map_conns]
  simp only [conns, renewStreams, connsOf, List.flatMap_map, List.map_map]
  rfl

theorem holdings_renewStreams : p.renewStreams.holdings = p.holdings := by
  rw [holdings_eq, holdings_eq, conns_renewStreams, List.map_map]
  refine List.map_congr_left fun c _ => ?_
  simp only [Function.comp_apply, Connection.holding, Stream.arrivals_renew]

/-! ## Stacks -/

/-- Going down a stack either ends above what stays, with the connection that fits, or leaves
nothing. -/
theorem descend_cases (limit : Duration) (s : List Idle) :
    (∃ above i, s = above ++ i :: (descend limit now tls s).below ∧
        (descend limit now tls s).conn = some i.conn) ∨
      ((descend limit now tls s).conn = none ∧ (descend limit now tls s).below = []) := by
  induction s with
  | nil => exact .inr ⟨rfl, rfl⟩
  | cons top rest ih =>
      have passed (c : Closing) (h : descend limit now tls (top :: rest) =
          (descend limit now tls rest).over c) :
          (∃ above i, top :: rest = above ++ i :: (descend limit now tls (top :: rest)).below ∧
              (descend limit now tls (top :: rest)).conn = some i.conn) ∨
            ((descend limit now tls (top :: rest)).conn = none ∧
              (descend limit now tls (top :: rest)).below = []) := by
        rw [h]
        rcases ih with ⟨above, i, hrest, hconn⟩ | nothing
        · exact .inl ⟨top :: above, i, congrArg (top :: ·) hrest, hconn⟩
        · exact .inr nothing
      by_cases wrong : (top.conn.tls != tls) = true
      · exact passed _ (by rw [descend, if_pos wrong])
      · by_cases late : limit < age now top
        · exact passed _ (by rw [descend, if_neg wrong, if_pos late])
        · rw [descend, if_neg wrong, if_neg late]
          exact .inl ⟨[], top, rfl, rfl⟩

theorem find?_setStack (s : List Idle) (other : SocketAddress) :
    ((p.setStack server s).find? other).getD [] =
      if other = server then s else p.stack other := by
  rw [setStack]
  by_cases empty : s.isEmpty = true
  · rw [if_pos empty, Table.find?_erase_eq]
    by_cases same : other = server
    · rw [if_pos (beq_iff_eq.mpr same), if_pos same, List.isEmpty_iff.mp empty]
      rfl
    · rw [if_neg (by simpa using same), if_neg same]
      rfl
  · rw [if_neg empty, Table.find?_put_eq]
    by_cases same : other = server
    · rw [if_pos (beq_iff_eq.mpr same), if_pos same]
      rfl
    · rw [if_neg (by simpa using same), if_neg same]
      rfl

/-- Taking a connection to a server leaves the stack below it, or nothing if there is none that
fits. -/
theorem acquire_cases :
    (∃ above i, p.stack server = above ++ i :: (p.acquire now server tls).pool.stack server ∧
        (p.acquire now server tls).conn = some i.conn) ∨
      ((p.acquire now server tls).conn = none ∧
        (p.acquire now server tls).pool.stack server = []) := by
  unfold acquire
  cases hfound : p.hosts.find? server with
  | none =>
      refine .inr ⟨rfl, ?_⟩
      show (p.hosts.find? server).getD [] = []
      rw [hfound]
      rfl
  | some s =>
      have before : p.stack server = s := by rw [stack, hfound, Option.getD_some]
      have left : ((p.setStack server (descend p.config.maxIdleTime now tls s).below).find?
          server).getD [] = (descend p.config.maxIdleTime now tls s).below := by
        rw [find?_setStack, if_pos rfl]
      simp only [before]
      rw [stack, left]
      exact descend_cases now tls p.config.maxIdleTime s

/-- The stacks of other servers stay as they are. -/
theorem stack_acquire_of_ne {other : SocketAddress} (ne : other ≠ server) :
    (p.acquire now server tls).pool.stack other = p.stack other := by
  unfold acquire
  cases p.hosts.find? server with
  | none => rfl
  | some s =>
      show ((p.setStack server _).find? other).getD [] = _
      rw [find?_setStack, if_neg ne]

end Pool

end Querier
