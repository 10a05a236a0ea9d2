import Querier.Proofs.Pool.Recency

/-!
# Cleaning up does not show

The pool looks at the age of a connection in two places: when it is asked for one, and when it
cleans up. The first closes what is older than the limit, the second keeps what is not. Who asks
the pool must not be able to tell whether it was cleaned up before, however late the question.

A pool that was cleaned up is compared with one that was not. From the moment of cleaning up on
each stack of the first is the part of the same stack of the second that was not too old at that
moment. Time only makes connections older, so what was too old then fits no question that comes
later, and going down either stack ends at the same connection.

## Main results

* `Pool.descend_fresh`: leaving out what was too old at an earlier time makes no difference.
* `Custody.Sifted.answers_eq`: the two pools go on giving the same answers.
* `Custody.cleanup_invisible`: cleaning up makes no difference to those who ask, takes away what
  would be refused and nothing else, and has nothing to do the second time.
-/

namespace Querier

/-! ## Questions -/

/-- A connection is asked for, or time goes by. -/
inductive Demand where
  | ask (server : SocketAddress) (tls : Bool)
  | wait (time : Duration)

namespace Custody

/-- What the pool hands out on one question after the other. -/
def answers (k : Custody) : List Demand → List (Option Connection)
  | [] => []
  | .ask server tls :: rest =>
    (k.pool.acquire k.now server tls).conn :: (k.step (.acquire server tls)).answers rest
  | .wait time :: rest => (k.step (.pass time)).answers rest

end Custody

/-! ## What is too old -/

theorem Pool.age_mono {time now : Time} (h : time ≤ now) (i : Idle) : age time i ≤ age now i :=
  Nat.sub_le_sub_right h i.since

/-- What fits now was not too old before. -/
theorem Idle.Fits.fresh {limit : Duration} {time now : Time} {tls : Bool} {i : Idle}
    (h : i.Fits limit now tls) (past : time ≤ now) : Pool.age time i ≤ limit :=
  Nat.le_trans (Pool.age_mono past i) h.2

namespace Pool

variable {p : Pool} {time now : Time}

/-- The connection would be closed as expired if it were the only one to its server and somebody
asked for one with its protection. -/
def Refuses (p : Pool) (now : Time) (server : SocketAddress) (i : Idle) : Prop :=
  ({ p with hosts := [(server, [i])] }.acquire now server i.conn.tls).closed =
    [⟨.expired, i.conn⟩]

instance (p : Pool) (now : Time) (server : SocketAddress) :
    DecidablePred (p.Refuses now server) :=
  fun _ => inferInstanceAs (Decidable (_ = _))

theorem refuses_iff (p : Pool) (now : Time) (server : SocketAddress) (i : Idle) :
    p.Refuses now server i ↔ p.config.maxIdleTime < age now i := by
  let alone : Pool := { p with hosts := [(server, [i])] }
  have hstack : alone.stack server = [] ++ i :: [] := by
    rw [stack, Table.find?, if_pos (beq_self_eq_true server), Option.getD_some, List.nil_append]
  rw [Refuses]
  by_cases young : age now i ≤ p.config.maxIdleTime
  · have fits : i.Fits alone.config.maxIdleTime now i.conn.tls := ⟨rfl, young⟩
    have closed := (alone.acquire_above server hstack (List.forall_mem_nil _) fits).2.1
    rw [closed, List.map_nil]
    exact ⟨fun none => absurd none.symm (List.cons_ne_nil _ _),
      fun old => absurd young (Nat.not_le_of_lt old)⟩
  · have unfit : ∀ j ∈ alone.stack server,
        ¬ j.Fits alone.config.maxIdleTime now i.conn.tls := by
      intro j hj fits
      rw [hstack] at hj
      cases List.mem_singleton.mp hj
      exact young fits.2
    have closed := (alone.acquire_unfit server unfit).2.1
    rw [closed, hstack, List.nil_append, List.map_singleton, Idle.closing, if_pos rfl]
    exact ⟨fun _ => Nat.lt_of_not_le young, fun _ => rfl⟩

/-- Cleaning up takes away what the pool would refuse. -/
theorem fresh_eq (p : Pool) (now : Time) (server : SocketAddress) (s : List Idle) :
    p.fresh now s = s.filter fun i => ¬ p.Refuses now server i := by
  apply List.filter_congr
  intro i _
  rw [decide_eq_decide, refuses_iff, Nat.not_lt]

/-- Going down a stack ends at the same connection if what was too old at an earlier time is left
out, and what stays below differs in no more than that. -/
theorem descend_fresh (p : Pool) (past : time ≤ now) (tls : Bool) (s : List Idle) :
    (descend p.config.maxIdleTime now tls (p.fresh time s)).conn =
        (descend p.config.maxIdleTime now tls s).conn ∧
      (descend p.config.maxIdleTime now tls (p.fresh time s)).below =
        p.fresh time (descend p.config.maxIdleTime now tls s).below := by
  induction s with
  | nil => exact ⟨rfl, rfl⟩
  | cons i below ih =>
      by_cases fits : i.Fits p.config.maxIdleTime now tls
      · have kept : p.fresh time (i :: below) = i :: p.fresh time below :=
          List.filter_cons_of_pos (decide_eq_true (fits.fresh past))
        rw [kept, descend_fits fits, descend_fits fits]
        exact ⟨rfl, rfl⟩
      · rw [descend_unfit fits]
        by_cases young : age time i ≤ p.config.maxIdleTime
        · -- it was not too old then, and is passed over in both stacks now
          have kept : p.fresh time (i :: below) = i :: p.fresh time below :=
            List.filter_cons_of_pos (decide_eq_true young)
          rw [kept, descend_unfit fits]
          exact ih
        · have gone : p.fresh time (i :: below) = p.fresh time below :=
            List.filter_cons_of_neg (by simpa using young)
          rw [gone]
          exact ih

/-! ## When nothing is too old -/

/-- The idle connections to a server that have a protection, the latest first. -/
def suited (p : Pool) (server : SocketAddress) (tls : Bool) : List Idle :=
  (p.stack server).filter fun i => i.conn.tls = tls

/-- If nothing is too old, the first connection with the protection is handed out, and the others
that have it stay. -/
theorem acquire_young {server : SocketAddress}
    (young : ∀ i ∈ p.stack server, age now i ≤ p.config.maxIdleTime) (tls : Bool) :
    (p.acquire now server tls).conn = (p.suited server tls).head?.map Idle.conn ∧
      (p.acquire now server tls).pool.suited server tls = (p.suited server tls).tail := by
  have wrong {s : List Idle} (hs : ∀ i ∈ s, i ∈ p.stack server)
      (unfit : ∀ i ∈ s, ¬ i.Fits p.config.maxIdleTime now tls) :
      s.filter (fun i => i.conn.tls = tls) = [] := by
    apply List.filter_eq_nil_iff.mpr
    intro i hi right
    exact unfit i hi ⟨of_decide_eq_true right, young i (hs i hi)⟩
  rcases first_fits p.config.maxIdleTime now tls (p.stack server) with
    ⟨above, i, below, hstack, unfit, fits⟩ | unfit
  · obtain ⟨hconn, -, hbelow⟩ := p.acquire_above server hstack unfit fits
    have hsuited : p.suited server tls = i :: below.filter fun j => j.conn.tls = tls := by
      have habove := wrong (fun j hj => hstack ▸ List.mem_append_left _ hj) unfit
      rw [suited, hstack, List.filter_append, habove, List.nil_append,
        List.filter_cons_of_pos (by simpa using fits.1)]
    rw [hconn, hsuited, suited, hbelow]
    exact ⟨rfl, rfl⟩
  · obtain ⟨hconn, -, hbelow⟩ := p.acquire_unfit server unfit
    have hsuited : p.suited server tls = [] := wrong (fun _ hi => hi) unfit
    rw [hconn, hsuited, suited, hbelow]
    exact ⟨rfl, rfl⟩

/-! ## Cleaning up twice -/

theorem fresh_fresh (p : Pool) (now : Time) (s : List Idle) :
    p.fresh now (p.fresh now s) = p.fresh now s := by
  rw [fresh, fresh, List.filter_filter]
  simp only [Bool.and_self]

theorem cleaned_cleaned {p : Pool} {now : Time} {e e' : SocketAddress × List Idle}
    (h : p.cleaned now e = some e') : p.cleaned now e' = some e' := by
  rw [cleaned] at h
  by_cases empty : (p.fresh now e.2).isEmpty = true
  · rw [if_pos empty] at h
    cases h
  · rw [if_neg empty] at h
    cases h
    rw [cleaned, fresh_fresh, if_neg empty]

theorem cleanup_cleanup (p : Pool) (now : Time) :
    (p.cleanup now).cleanup now = p.cleanup now := by
  have hosts : (p.cleanup now).hosts.filterMap (p.cleaned now) = (p.cleanup now).hosts := by
    rw [hosts_cleanup, List.filterMap_filterMap]
    apply List.filterMap_congr
    intro e _
    cases hcleaned : p.cleaned now e with
    | none => rfl
    | some e' => exact cleaned_cleaned hcleaned
  show Pool.mk p.config ((p.cleanup now).hosts.filterMap (p.cleaned now))
    ((p.cleanup now).total - (sizeOf (p.cleanup now).hosts -
      sizeOf ((p.cleanup now).hosts.filterMap (p.cleaned now)))) = p.cleanup now
  rw [hosts, Nat.sub_self, Nat.sub_zero]
  rfl

/-- Nothing that is left is too old. -/
theorem expired_cleanup (p : Pool) (now : Time) : (p.cleanup now).expired now = [] := by
  apply List.filter_eq_nil_iff.mpr
  intro i hi
  obtain ⟨e', he', hi⟩ := List.mem_flatMap.mp hi
  rw [hosts_cleanup] at he'
  obtain ⟨e, -, hcleaned⟩ := List.mem_filterMap.mp he'
  rw [cleaned] at hcleaned
  by_cases empty : (p.fresh now e.2).isEmpty = true
  · rw [if_pos empty] at hcleaned
    cases hcleaned
  · rw [if_neg empty] at hcleaned
    cases hcleaned
    intro old
    have young : age now i ≤ p.config.maxIdleTime := of_decide_eq_true (List.mem_filter.mp hi).2
    exact Nat.not_lt_of_le young (of_decide_eq_true old)

end Pool

namespace Custody

/-! ## Two pools -/

/-- At a time that is past, the second pool was the first without what was too old, and both have
been asked the same questions since. -/
structure Sifted (time : Time) (k k' : Custody) : Prop where
  now_eq : k'.now = k.now
  past : time ≤ k.now
  config_eq : k'.pool.config = k.pool.config
  stack_eq : ∀ server, k'.pool.stack server = k.pool.fresh time (k.pool.stack server)

namespace Sifted

variable {time : Time} {k k' : Custody}

theorem cleanup (k : Custody) (once : k.pool.hosts.keys.Nodup) : Sifted k.now k k.cleanup where
  now_eq := rfl
  past := Nat.le_refl k.now
  config_eq := rfl
  stack_eq := Pool.stack_cleanup once

/-- Both pools hand out the same. -/
theorem conn_eq (h : Sifted time k k') (server : SocketAddress) (tls : Bool) :
    (k'.pool.acquire k'.now server tls).conn = (k.pool.acquire k.now server tls).conn := by
  rw [(k'.pool.acquire_descend server k'.now tls).1, (k.pool.acquire_descend server k.now tls).1,
    h.now_eq, h.config_eq, h.stack_eq]
  exact (k.pool.descend_fresh h.past tls (k.pool.stack server)).1

theorem acquire (h : Sifted time k k') (server : SocketAddress) (tls : Bool) :
    Sifted time (k.acquire server tls) (k'.acquire server tls) where
  now_eq := h.now_eq
  past := h.past
  config_eq := by
    show (k'.pool.acquire k'.now server tls).pool.config =
      (k.pool.acquire k.now server tls).pool.config
    rw [Pool.config_acquire, Pool.config_acquire, h.config_eq]
  stack_eq other := by
    have config := k.pool.config_acquire k.now server tls
    show (k'.pool.acquire k'.now server tls).pool.stack other =
      (k.pool.acquire k.now server tls).pool.fresh time
        ((k.pool.acquire k.now server tls).pool.stack other)
    rw [Pool.fresh, config]
    by_cases asked : other = server
    · rw [asked, (k'.pool.acquire_descend server k'.now tls).2.2,
        (k.pool.acquire_descend server k.now tls).2.2, h.now_eq, h.config_eq, h.stack_eq]
      exact (k.pool.descend_fresh h.past tls (k.pool.stack server)).2
    · rw [Pool.stack_acquire_of_ne _ _ _ _ asked, Pool.stack_acquire_of_ne _ _ _ _ asked]
      exact h.stack_eq other

theorem pass (h : Sifted time k k') (d : Duration) :
    Sifted time (k.step (.pass d)) (k'.step (.pass d)) where
  now_eq := congrArg (· + d) h.now_eq
  past := Nat.le_trans h.past (Nat.le_add_right ..)
  config_eq := h.config_eq
  stack_eq := h.stack_eq

theorem answers_eq (h : Sifted time k k') (later : List Demand) :
    k'.answers later = k.answers later := by
  induction later generalizing k k' with
  | nil => rfl
  | cons demand later ih =>
      cases demand with
      | ask server tls =>
          rw [answers, answers, h.conn_eq]
          exact congrArg _ (ih (h.acquire server tls))
      | wait d => exact ih (h.pass d)

end Sifted

/-- If nothing is too old, questions with one protection are answered with the connections that
have it, one after the other. -/
theorem answers_replicate {k : Custody} {server : SocketAddress}
    (young : ∀ i ∈ k.pool.stack server, Pool.age k.now i ≤ k.pool.config.maxIdleTime)
    (tls : Bool) (n : Nat) :
    k.answers (List.replicate n (.ask server tls)) =
      (List.range n).map fun m => (k.pool.suited server tls)[m]?.map Idle.conn := by
  induction n generalizing k with
  | zero => rfl
  | succ n ih =>
      obtain ⟨hconn, hsuited⟩ := k.pool.acquire_young young tls
      have config : (k.acquire server tls).pool.config = k.pool.config :=
        k.pool.config_acquire k.now server tls
      have hyoung : ∀ i ∈ (k.acquire server tls).pool.stack server,
          Pool.age k.now i ≤ (k.acquire server tls).pool.config.maxIdleTime := by
        intro i hi
        obtain ⟨passed, hstack, -⟩ := k.pool.stack_acquire server k.now tls
        rw [config]
        exact young i (hstack ▸ List.mem_append_right passed hi)
      have hrest := ih hyoung
      rw [show (k.acquire server tls).pool.suited server tls = _ from hsuited] at hrest
      rw [List.replicate_succ, answers, hconn, List.head?_eq_getElem?, List.range_succ_eq_map,
        List.map_cons, List.map_map]
      simp only [List.getElem?_tail] at hrest
      exact congrArg _ hrest

theorem cleanup_cleanup (k : Custody) : k.cleanup.cleanup = k.cleanup := by
  show Custody.mk ((k.pool.cleanup k.now).cleanup k.now) k.now k.held k.next
    (((k.pool.cleanup k.now).expired k.now).map _ ++ k.cleanup.journal) = k.cleanup
  rw [Pool.cleanup_cleanup, Pool.expired_cleanup]
  rfl

/-- **Cleaning up does not show.** Whatever callers have done with a pool that was empty once, and
however time has gone by: if the pool is cleaned up now, all questions that come later, for any
servers and protections and at any times, are answered with the same connections as if it were
not. Of each stack cleaning up takes away the connections that would be refused as expired if
they were asked for now, and the others stay in their order. So as long as no time goes by, who
asks for one protection again and again gets all connections that are left and have it, the
latest first, and nothing after that. To clean up once more changes nothing. -/
theorem cleanup_invisible (config : PoolConfig) (acts : List Act) :
    let k := (Custody.empty config).run acts
    (∀ later, k.cleanup.answers later = k.answers later) ∧
      (∀ server, k.cleanup.pool.stack server =
        (k.pool.stack server).filter fun i => ¬ k.pool.Refuses k.now server i) ∧
      (∀ server tls n, k.cleanup.answers (List.replicate n (.ask server tls)) =
        (List.range n).map fun m => (k.cleanup.pool.suited server tls)[m]?.map Idle.conn) ∧
      k.cleanup.cleanup = k.cleanup := by
  intro k
  have tidy : Tidy config k := (Tidy.empty config).run acts
  have sifted : Sifted k.now k k.cleanup := .cleanup k tidy.shelved.once
  refine ⟨sifted.answers_eq, fun server => ?_, fun server tls n => ?_, k.cleanup_cleanup⟩
  · rw [sifted.stack_eq]
    exact k.pool.fresh_eq k.now server (k.pool.stack server)
  · apply answers_replicate
    intro i hi
    rw [sifted.stack_eq] at hi
    exact of_decide_eq_true (List.mem_filter.mp hi).2

/-- At the limit a connection is kept and handed out, and a moment later neither. -/
example :
    let server : SocketAddress := .of (.v4 192 0 2 1) 53
    let acts := [.connect {} false, .release server 0, .pass (Duration.ofMillis 10000)]
    let k := (Custody.empty {}).run acts
    let later := k.step (.pass 1)
    (k.cleanup.answers [.ask server false]).map (·.map Connection.id) = [some 0] ∧
      (later.cleanup.answers [.ask server false]).map (·.map Connection.id) = [none] ∧
      (later.answers [.ask server false]).map (·.map Connection.id) = [none] := by
  decide

end Custody

end Querier
