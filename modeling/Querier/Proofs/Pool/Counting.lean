import Mathlib.Data.List.Nodup
import Querier.Proofs.Pool

/-!
# Counting idle connections

The pool keeps the number of its connections beside the stacks that hold them, and has to
adjust it wherever it touches a stack. What an operation takes off the stacks is said here
exactly: each connection that was there stays, is handed out or is closed, and only one of
the three. The number follows from this, and nothing is ever subtracted from it that it
does not have.

All of it needs that no server has two stacks, which every operation keeps up.

## Main results

* `Pool.perm_acquire`, `Pool.perm_cleanup`, `Pool.ids_release`: where connections are after
  an operation.
* `Pool.total_acquire`, `Pool.total_cleanup`: the number is adjusted by what was taken off.
-/

namespace Querier

/-! ## Tables with each key once -/

namespace Table

variable {κ α β : Type} [BEq κ] [LawfulBEq κ] {t : Table κ α} {k : κ} {a : α}

/-- The keys of a table. -/
def keys (t : Table κ α) : List κ := t.map Prod.fst

theorem mem_of_find? (h : t.find? k = some a) : (k, a) ∈ t := by
  induction t with
  | nil => cases h
  | cons entry rest ih =>
      rcases entry with ⟨other, b⟩
      rw [find?] at h
      by_cases here : (k == other) = true
      · rw [if_pos here] at h
        rw [eq_of_beq here, Option.some.inj h]
        exact List.mem_cons_self
      · rw [if_neg here] at h
        exact List.mem_cons_of_mem _ (ih h)

theorem find?_eq_none_of_not_mem (h : k ∉ t.keys) : t.find? k = none := by
  cases hfound : t.find? k with
  | none => rfl
  | some a => exact absurd (List.mem_map_of_mem (mem_of_find? hfound)) h

theorem mem_put {e : κ × α} (h : e ∈ t.put k a) : e = (k, a) ∨ e ∈ t := by
  induction t with
  | nil => exact .inl (List.mem_singleton.mp h)
  | cons entry rest ih =>
      rcases entry with ⟨other, b⟩
      rw [put] at h
      by_cases here : (k == other) = true
      · rw [if_pos here, ← eq_of_beq here] at h
        rcases List.mem_cons.mp h with rfl | hrest
        · exact .inl rfl
        · exact .inr (List.mem_cons_of_mem _ hrest)
      · rw [if_neg here] at h
        rcases List.mem_cons.mp h with rfl | hrest
        · exact .inr List.mem_cons_self
        · rcases ih hrest with hnew | hold
          · exact .inl hnew
          · exact .inr (List.mem_cons_of_mem _ hold)

theorem mem_keys_put {k' : κ} (h : k' ∈ (t.put k a).keys) : k' = k ∨ k' ∈ t.keys := by
  rcases List.mem_map.mp h with ⟨e, he, rfl⟩
  rcases mem_put he with rfl | hold
  · exact .inl rfl
  · exact .inr (List.mem_map_of_mem hold)

theorem nodup_keys_put (h : t.keys.Nodup) (k : κ) (a : α) : (t.put k a).keys.Nodup := by
  induction t with
  | nil => exact List.nodup_singleton k
  | cons entry rest ih =>
      rcases entry with ⟨other, b⟩
      rcases List.nodup_cons.mp h with ⟨hother, hrest⟩
      rw [put]
      by_cases here : (k == other) = true
      · rw [if_pos here]
        exact h
      · rw [if_neg here]
        refine List.nodup_cons.mpr ⟨?_, ih hrest⟩
        intro hmem
        rcases mem_keys_put hmem with heq | hold
        · exact here (beq_iff_eq.mpr heq.symm)
        · exact hother hold

/-- What is erased under a key is all that was found there. -/
theorem perm_erase (f : α → List β) (h : t.keys.Nodup) (k : κ) :
    ((t.find? k).toList.flatMap f ++ (t.erase k).flatMap fun e => f e.2).Perm
      (t.flatMap fun e => f e.2) := by
  induction t with
  | nil => exact .refl _
  | cons entry rest ih =>
      rcases entry with ⟨other, b⟩
      rcases List.nodup_cons.mp h with ⟨hother, hrest⟩
      have rest_perm := ih hrest
      by_cases here : (k == other) = true
      · have gone : Table.find? rest k = none := by
          rw [eq_of_beq here]
          exact find?_eq_none_of_not_mem hother
        rw [gone, Option.toList_none, List.flatMap_nil, List.nil_append] at rest_perm
        rw [find?, if_pos here, erase, List.filter_cons_of_neg (by simp [here]),
          Option.toList_some, List.flatMap_singleton, List.flatMap_cons]
        exact rest_perm.append_left (f b)
      · rw [find?, if_neg here, erase, List.filter_cons_of_pos (by simp [here]),
          List.flatMap_cons, List.flatMap_cons]
        exact (List.perm_append_comm_assoc ..).trans (rest_perm.append_left (f b))

end Table

/-! ## Where connections are -/

namespace Pool

variable (p : Pool) (now : Time) (server : SocketAddress) (tls : Bool)

/-- Which connections are in a stack. -/
def stackIds (s : List Idle) : List Nat := s.map fun i => i.conn.id

/-- Which connections are in the pool. -/
def ids : List Nat := p.hosts.flatMap fun e => stackIds e.2

/-- Which connections were closed. -/
def closedIds (closed : List Closing) : List Nat := closed.map fun c => c.conn.id

/-- Which connection was handed out, if one was. -/
def takenIds (conn : Option Connection) : List Nat := conn.toList.map Connection.id

/-- The connections that have been idle too long. -/
def expired : List Idle :=
  (p.hosts.flatMap fun e => e.2).filter fun i => p.config.maxIdleTime < age now i

theorem length_ids : p.ids.length = p.size := by
  unfold ids size
  induction p.hosts with
  | nil => rfl
  | cons entry rest ih =>
      rw [List.flatMap_cons, List.length_append, ih, sizeOf, stackIds, List.length_map]

/-- Going down a stack closes some, may hand out the next, and leaves the rest. -/
theorem ids_descend (limit : Duration) (stack : List Idle) :
    closedIds (descend limit now tls stack).closed ++ takenIds (descend limit now tls stack).conn ++
      stackIds (descend limit now tls stack).below = stackIds stack := by
  induction stack with
  | nil => rfl
  | cons i below ih =>
      rw [descend]
      by_cases wrong : (i.conn.tls != tls) = true
      · rw [if_pos wrong]
        exact congrArg (i.conn.id :: ·) ih
      · rw [if_neg wrong]
        by_cases old : limit < age now i
        · rw [if_pos old]
          exact congrArg (i.conn.id :: ·) ih
        · rw [if_neg old]
          rfl

theorem sublist_descend (limit : Duration) (stack : List Idle) :
    (descend limit now tls stack).below.Sublist stack := by
  induction stack with
  | nil => exact .slnil
  | cons i below ih =>
      rw [descend]
      by_cases wrong : (i.conn.tls != tls) = true
      · rw [if_pos wrong]
        exact ih.cons i
      · rw [if_neg wrong]
        by_cases old : limit < age now i
        · rw [if_pos old]
          exact ih.cons i
        · rw [if_neg old]
          exact List.sublist_cons_self i below

theorem flatMap_find? :
    (p.hosts.find? server).toList.flatMap stackIds = stackIds (p.stack server) := by
  unfold stack
  cases p.hosts.find? server with
  | none => rfl
  | some t => exact List.flatMap_singleton ..

/-! ### Taking -/

/-- The entry of a server with another stack in place of its own. -/
theorem perm_setStack (once : p.hosts.keys.Nodup) (s : List Idle) :
    (stackIds (p.stack server) ++ (p.setStack server s).flatMap fun e => stackIds e.2).Perm
      (stackIds s ++ p.ids) := by
  rw [← flatMap_find?]
  unfold setStack
  by_cases empty : s.isEmpty = true
  · rw [if_pos empty, List.isEmpty_iff.mp empty]
    exact Table.perm_erase stackIds once server
  · rw [if_neg empty]
    exact Table.perm_put stackIds p.hosts server s

/-- Taking a connection closes some of the pool, may hand out one, and leaves the rest. -/
theorem perm_acquire (once : p.hosts.keys.Nodup) :
    (closedIds (p.acquire now server tls).closed ++ takenIds (p.acquire now server tls).conn ++
      (p.acquire now server tls).pool.ids).Perm p.ids := by
  unfold acquire
  cases hfound : p.hosts.find? server with
  | none => exact .refl _
  | some stack =>
      have hstack : p.stack server = stack := by rw [Pool.stack, hfound, Option.getD_some]
      have parts := ids_descend now tls p.config.maxIdleTime stack
      have moved := p.perm_setStack server once (descend p.config.maxIdleTime now tls stack).below
      rw [hstack, ← parts, List.append_assoc _ (stackIds _)] at moved
      -- what stays below is on both sides
      exact (List.perm_append_left_iff _).mp ((List.perm_append_comm_assoc ..).trans moved)

theorem length_descend_eq (limit : Duration) (stack : List Idle) :
    (descend limit now tls stack).closed.length +
        (descend limit now tls stack).conn.toList.length +
        (descend limit now tls stack).below.length = stack.length := by
  have parts := congrArg List.length (ids_descend now tls limit stack)
  simpa only [List.length_append, closedIds, takenIds, stackIds, List.length_map] using parts

theorem total_acquire_eq : (p.acquire now server tls).pool.total =
    p.total - ((p.acquire now server tls).closed.length +
      (p.acquire now server tls).conn.toList.length) := by
  unfold acquire
  cases hfound : p.hosts.find? server with
  | none => rfl
  | some stack =>
      have length := length_descend_eq now tls p.config.maxIdleTime stack
      simp only
      rw [← length, Nat.add_sub_cancel]

/-- Taking a connection subtracts one for each that it takes off a stack, and has that many to
subtract from. -/
theorem total_acquire (once : p.hosts.keys.Nodup) (exact : p.total = p.size) :
    let a := p.acquire now server tls
    a.pool.total + (a.closed.length + a.conn.toList.length) = p.total ∧
      a.pool.total = a.pool.size := by
  have parts := (p.perm_acquire now server tls once).length_eq
  rw [List.length_append, List.length_append, length_ids, length_ids, closedIds, takenIds,
    List.length_map, List.length_map] at parts
  have counted := p.total_acquire_eq now server tls
  constructor
  · omega
  · omega

/-! ### Giving back -/

variable (c : Connection)

/-- A connection that is given back is closed, and nothing else changes, or there is room for it
and it is put on top. -/
theorem release_cases : (∃ reason, p.release now server c = (p, some ⟨reason, c⟩)) ∨
    (p.total < p.config.maxIdleTotal.toNat ∧
      (p.stack server).length < p.config.maxIdlePerHost.toNat ∧
      p.release now server c = ({ p with
        hosts := p.hosts.put server (⟨c, now⟩ :: p.stack server)
        total := p.total + 1 }, none)) := by
  rw [release]
  by_cases tired : 0 < p.config.maxQueries ∧ p.config.maxQueries ≤ c.queries
  · exact .inl ⟨.tooManyQueries, if_pos tired⟩
  · simp only [if_neg tired]
    by_cases full : p.config.maxIdleTotal.toNat ≤ p.total
    · exact .inl ⟨.poolFull, if_pos full⟩
    · rw [if_neg full]
      by_cases hostFull : p.config.maxIdlePerHost.toNat ≤ p.countFor server
      · exact .inl ⟨.hostFull, if_pos hostFull⟩
      · rw [if_neg hostFull]
        exact .inr ⟨Nat.lt_of_not_le full, Nat.lt_of_not_le hostFull, rfl⟩

/-- Putting a connection on top of its server's stack leaves all others where they are. -/
theorem perm_put_top : ((p.hosts.put server (⟨c, now⟩ :: p.stack server)).flatMap
    fun e => stackIds e.2).Perm (c.id :: p.ids) := by
  have put := Table.perm_put stackIds p.hosts server (⟨c, now⟩ :: p.stack server)
  rw [flatMap_find?] at put
  exact (List.perm_append_left_iff _).mp (put.trans List.perm_middle.symm)

theorem sizeOf_put_top :
    sizeOf (p.hosts.put server (⟨c, now⟩ :: p.stack server)) = p.size + 1 := by
  have put := sizeOf_put p.hosts server (⟨c, now⟩ :: p.stack server)
  rw [List.length_cons] at put
  unfold stack size at *
  omega

/-! ### Cleaning up -/

/-- The connections of a stack that have not been idle too long. -/
def fresh (stack : List Idle) : List Idle :=
  stack.filter fun i => age now i ≤ p.config.maxIdleTime

/-- The connections of a stack that have been idle too long. -/
def stale (stack : List Idle) : List Idle :=
  stack.filter fun i => p.config.maxIdleTime < age now i

/-- What cleaning up makes of an entry; without a connection there is none. -/
def cleaned (e : SocketAddress × List Idle) : Option (SocketAddress × List Idle) :=
  if (p.fresh now e.2).isEmpty then none else some (e.1, p.fresh now e.2)

theorem hosts_cleanup : (p.cleanup now).hosts = p.hosts.filterMap (p.cleaned now) := rfl

theorem flatMap_cleaned (hosts : Table SocketAddress (List Idle)) :
    (hosts.filterMap (p.cleaned now)).flatMap (fun e => stackIds e.2) =
      hosts.flatMap fun e => stackIds (p.fresh now e.2) := by
  induction hosts with
  | nil => rfl
  | cons entry rest ih =>
      rw [List.filterMap_cons, List.flatMap_cons, ← ih, cleaned]
      by_cases empty : (p.fresh now entry.2).isEmpty = true
      · rw [if_pos empty, List.isEmpty_iff.mp empty]
        rfl
      · rw [if_neg empty]
        rfl

theorem perm_fresh (stack : List Idle) :
    (stackIds (p.stale now stack) ++ stackIds (p.fresh now stack)).Perm (stackIds stack) := by
  have others : p.fresh now stack =
      stack.filter fun i => !decide (p.config.maxIdleTime < age now i) := by
    unfold fresh
    congr 1
    funext i
    rw [← decide_not, decide_eq_decide]
    exact Nat.not_lt.symm
  rw [others, stackIds, stackIds, ← List.map_append]
  exact (List.filter_append_perm _ stack).map _

/-- What is too old is closed, and the rest stays. -/
theorem perm_cleanup : (stackIds (p.expired now) ++ (p.cleanup now).ids).Perm p.ids := by
  rw [ids, hosts_cleanup, flatMap_cleaned, ids, expired]
  induction p.hosts with
  | nil => exact .refl _
  | cons entry rest ih =>
      rw [List.flatMap_cons, List.flatMap_cons, List.flatMap_cons, List.filter_append]
      show (stackIds (p.stale now entry.2 ++ _) ++ _).Perm _
      rw [stackIds, List.map_append, List.append_assoc]
      -- the stale ones of the rest go behind the fresh ones of this entry
      refine (List.Perm.append_left _ (List.perm_append_comm_assoc ..)).trans ?_
      rw [← List.append_assoc]
      exact (p.perm_fresh now entry.2).append ih

theorem total_cleanup (exact : p.total = p.size) :
    (p.cleanup now).total + (p.expired now).length = p.total ∧
      (p.cleanup now).total = (p.cleanup now).size := by
  have parts := (p.perm_cleanup now).length_eq
  rw [List.length_append, length_ids, length_ids, stackIds, List.length_map] at parts
  have counted : (p.cleanup now).total = p.total - (p.size - (p.cleanup now).size) := rfl
  constructor
  · omega
  · omega

end Pool

end Querier
