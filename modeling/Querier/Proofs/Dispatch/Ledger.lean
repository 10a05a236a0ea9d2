import Mathlib.Data.List.Nodup
import Querier.Proofs.Pool

/-!
# Connections and who holds them

What may happen to a connection after it was opened is a `Deed`: a query goes out and
the first message of what is to arrive comes back, or the connection is of no more use;
a response is found good, or again the connection is of no more use. A `Course` is a
connection's history made of deeds. A connection of no more use has no further deeds, so
that everything in its history but the last is as good as it can be.

A deed takes a holder. The `Books` say what happened to each connection, and they are
`Sound` for a list of holdings if every connection has one holder at most and the holder
of a connection is at the place where its history ends. Every `Change` keeps them so.

## Main results

* `Course.framed`, `Course.replies`, `Course.last`: what a course looks like.
* `Sound.change`: a change keeps the books sound.
* `Change.unheld`: what nobody holds stays as it is.
-/

namespace Querier

open Querier.Stream (incoming unframe payloads frame)

/-- Something that is done with a connection. -/
inductive Incident where
  /-- The connector makes it. -/
  | opened (stream : Stream)
  /-- A query is sent over it, and a response comes or does not. -/
  | exchanged (message : Octets) (reply : Option Octets)
  /-- The response is validated. -/
  | judged (valid : Bool)
  deriving DecidableEq

namespace Incident

/-- The query that is sent and what comes back. -/
def use? : Incident → Option (Octets × Option Octets)
  | .exchanged message reply => some (message, reply)
  | .opened _ | .judged _ => none

/-- Whether the connection is of no more use. -/
def spoils : Incident → Bool
  | .exchanged _ reply => reply.isNone
  | .judged valid => !valid
  | .opened _ => false

end Incident

/-- The queries that were sent, and what came back. -/
def uses (history : List Incident) : List (Octets × Option Octets) :=
  history.filterMap Incident.use?

/-! ## Framed queries -/

/-- Octets are queries, each behind its length, and of the last there may be less. -/
inductive Framed : List Octets → List UInt8 → Prop where
  | none : Framed [] []
  | cut {message : Octets} {part : List UInt8} (start : part <+: (frame message).toList)
      (fits : part ≠ [] → message.size ≤ 65535) : Framed [message] part
  | query {message : Octets} {messages : List Octets} {os : List UInt8}
      (fits : message.size ≤ 65535) (rest : Framed messages os) :
      Framed (message :: messages) ((frame message).toList ++ os)

theorem Framed.behind {complete messages : List Octets} {os : List UInt8}
    (fits : ∀ message ∈ complete, message.size ≤ 65535) (h : Framed messages os) :
    Framed (complete ++ messages) (complete.flatMap (fun m => (frame m).toList) ++ os) := by
  induction complete with
  | nil => exact h
  | cons message rest ih =>
      rw [List.cons_append, List.flatMap_cons, List.append_assoc]
      exact .query (fits message (.head _)) (ih fun m hm => fits m (.tail _ hm))

/-! ## The course of a connection -/

/-- What can be done with a connection on which `os` will arrive: what is written to it, and
what will arrive then, if it is to be used again at all. -/
inductive Deed (os : List UInt8) : Incident → List UInt8 → Option (List UInt8) → Prop where
  | replied {message data : Octets} {rest : List UInt8} (fits : message.size ≤ 65535)
      (first : unframe os = some (data, rest)) :
      Deed os (.exchanged message (some data)) (frame message).toList (some rest)
  | failed {message : Octets} {part : List UInt8} (start : part <+: (frame message).toList)
      (fits : part ≠ [] → message.size ≤ 65535) : Deed os (.exchanged message none) part none
  | approved : Deed os (.judged true) [] (some os)
  | rejected : Deed os (.judged false) [] none

/-- A connection that was opened as `stream` has a history, in which octets were written to
it. If it may be used again, some octets will arrive. -/
inductive Course (stream : Stream) :
    List Incident → List UInt8 → Option (List UInt8) → Prop where
  | opened : Course stream [.opened stream] [] (some (incoming stream.arrivals))
  | deed {history : List Incident} {written os : List UInt8} {e : Incident}
      {part : List UInt8} {after : Option (List UInt8)}
      (before : Course stream history written (some os)) (d : Deed os e part after) :
      Course stream (history ++ [e]) (written ++ part) after

namespace Course

variable {stream : Stream} {history : List Incident} {written os : List UInt8}
  {status : Option (List UInt8)}

/-- What is known of a connection that may be used again. -/
structure Underway (stream : Stream) (history : List Incident) (written os : List UInt8) :
    Prop where
  fits : ∀ use ∈ uses history, use.1.size ≤ 65535
  /-- All queries were sent as a whole. -/
  written : written = ((uses history).map Prod.fst).flatMap fun m => (frame m).toList
  /-- All of them had a response, and what will arrive comes behind these. -/
  replies : ∃ datas, (uses history).map Prod.snd = datas.map some ∧
    payloads (incoming stream.arrivals) = datas ++ payloads os
  unspoilt : ∀ e ∈ history, e.spoils = false

theorem uses_append (history : List Incident) (e : Incident) :
    uses (history ++ [e]) = uses history ++ e.use?.toList := by
  rw [uses, List.filterMap_append, uses]
  cases h : e.use? <;> simp [h]

theorem Underway.deed {e : Incident} {part rest : List UInt8}
    (u : Underway stream history written os) (d : Deed os e part (some rest)) :
    Underway stream (history ++ [e]) (written ++ part) rest := by
  obtain ⟨datas, hdatas, hpayloads⟩ := u.replies
  cases d with
  | @replied message data _ fits first =>
      refine ⟨?_, ?_, ⟨datas ++ [data], ?_, ?_⟩, ?_⟩
      · rw [uses_append]
        exact List.forall_mem_append.mpr ⟨u.fits, List.forall_mem_singleton.mpr fits⟩
      · rw [uses_append, u.written]
        simp [Incident.use?]
      · rw [uses_append, List.map_append, hdatas, List.map_append]
        rfl
      · rw [hpayloads, Stream.payloads_of_unframe first, List.append_assoc]
        rfl
      · exact List.forall_mem_append.mpr ⟨u.unspoilt, List.forall_mem_singleton.mpr rfl⟩
  | approved =>
      have same : uses (history ++ [.judged true]) = uses history := by
        rw [uses_append]
        exact List.append_nil _
      refine ⟨?_, ?_, ⟨datas, ?_, hpayloads⟩, ?_⟩
      · rw [same]
        exact u.fits
      · rw [same, List.append_nil, u.written]
      · rw [same, hdatas]
      · exact List.forall_mem_append.mpr ⟨u.unspoilt, List.forall_mem_singleton.mpr rfl⟩

theorem underway (h : Course stream history written (some os)) :
    Underway stream history written os := by
  generalize hstatus : some os = status at h
  induction h generalizing os with
  | opened =>
      cases hstatus
      exact ⟨by simp [uses, Incident.use?], by simp [uses, Incident.use?],
        ⟨[], by simp [uses, Incident.use?], by simp⟩, by simp [Incident.spoils]⟩
  | deed before d ih =>
      subst hstatus
      exact (ih rfl).deed d

/-- The octets written to a connection are its queries. -/
theorem framed (h : Course stream history written status) :
    Framed ((uses history).map Prod.fst) written := by
  cases h with
  | opened => exact .none
  | deed before d =>
      have u := before.underway
      have fits : ∀ message ∈ (uses _).map Prod.fst, message.size ≤ 65535 :=
        List.forall_mem_map.mpr u.fits
      rw [uses_append, List.map_append, u.written]
      apply Framed.behind fits
      cases d with
      | replied fits first =>
          have alone := Framed.query fits .none
          rwa [List.append_nil] at alone
      | failed start fits => exact .cut start fits
      | approved => exact .none
      | rejected => exact .none

theorem Underway.reply (u : Underway stream history written os) {k : Nat}
    {message data : Octets} (h : (uses history)[k]? = some (message, some data)) :
    (payloads (incoming stream.arrivals))[k]? = some data := by
  obtain ⟨datas, hdatas, hpayloads⟩ := u.replies
  have hk : (datas.map some)[k]? = some (some data) := by
    rw [← hdatas, List.getElem?_map, h]
    rfl
  rw [List.getElem?_map, Option.map_eq_some_iff] at hk
  obtain ⟨data', hdata, hsame⟩ := hk
  cases hsame
  rw [hpayloads, List.getElem?_append_left (List.getElem?_eq_some_iff.mp hdata).1, hdata]

/-- The response to a query is the message at the same place in what arrives. -/
theorem replies (h : Course stream history written status) {k : Nat} {message data : Octets}
    (hk : (uses history)[k]? = some (message, some data)) :
    (payloads (incoming stream.arrivals))[k]? = some data := by
  cases status with
  | some os => exact h.underway.reply hk
  | none =>
      cases h with
      | deed before d =>
          rw [uses_append] at hk
          -- the last use of such a connection brought nothing
          apply before.underway.reply (k := k)
          cases d with
          | failed start fits =>
              rw [List.getElem?_append] at hk
              split at hk
              · exact hk
              · obtain ⟨_, hlast⟩ := List.getElem?_eq_some_iff.mp hk
                cases (List.mem_singleton.mp (List.mem_of_getElem hlast))
          | rejected => rwa [Incident.use?, Option.toList_none, List.append_nil] at hk

/-- A connection of no more use is not used. -/
theorem last (h : Course stream history written status) {e : Incident} (mem : e ∈ history)
    (spoils : e.spoils = true) : status = none := by
  cases status with
  | none => rfl
  | some os => exact absurd spoils (Bool.eq_false_iff.mp (h.underway.unspoilt e mem))

end Course

/-! ## Books -/

/-- What happened to the connections, and the number of the next. -/
structure Books where
  history : Nat → List Incident
  /-- What was written to a connection. -/
  written : Nat → List UInt8
  next : Nat

namespace Books

/-- The books with one more incident, in which `part` was written. -/
def enter (b : Books) (id : Nat) (e : Incident) (part : List UInt8) : Books where
  history := fun i => if i = id then b.history i ++ [e] else b.history i
  written := fun i => if i = id then b.written i ++ part else b.written i
  next := b.next

/-- The books with one more connection. -/
def openAs (b : Books) (stream : Stream) : Books where
  history := fun i => if i = b.next then b.history i ++ [.opened stream] else b.history i
  written := b.written
  next := b.next + 1

variable (b : Books) (id : Nat) (e : Incident) (part : List UInt8) (stream : Stream)

theorem history_enter_self : (b.enter id e part).history id = b.history id ++ [e] := if_pos rfl

theorem written_enter_self : (b.enter id e part).written id = b.written id ++ part := if_pos rfl

theorem history_enter_of_ne {i : Nat} (h : i ≠ id) :
    (b.enter id e part).history i = b.history i := if_neg h

theorem written_enter_of_ne {i : Nat} (h : i ≠ id) :
    (b.enter id e part).written i = b.written i := if_neg h

theorem history_openAs_next :
    (b.openAs stream).history b.next = b.history b.next ++ [.opened stream] := if_pos rfl

theorem history_openAs_of_ne {i : Nat} (h : i ≠ b.next) :
    (b.openAs stream).history i = b.history i := if_neg h

end Books

/-- What can happen to the books and the holdings at once. -/
inductive Change (held : List Holding) (b : Books) : List Holding → Books → Prop where
  /-- Connections are dropped or change hands. -/
  | quiet {held' : List Holding} (fewer : held'.Subperm held) : Change held b held' b
  | opened {held' : List Holding} {stream : Stream}
      (one : held'.Subperm ((b.next, incoming stream.arrivals) :: held)) :
      Change held b held' (b.openAs stream)
  /-- The holder of a connection does something with it and has it after that, or not. -/
  | deed {rest held' : List Holding} {id : Nat} {os part : List UInt8} {e : Incident}
      {after : Option (List UInt8)} (had : ((id, os) :: rest).Subperm held)
      (d : Deed os e part after)
      (has : held'.Subperm (after.toList.map (fun os => (id, os)) ++ rest)) :
      Change held b held' (b.enter id e part)

/-- The books are right about the holdings. -/
structure Sound (held : List Holding) (b : Books) : Prop where
  numbered : ∀ h ∈ held, h.1 < b.next
  /-- A connection has one holder. -/
  once : (held.map Prod.fst).Nodup
  blank : ∀ id, b.next ≤ id → b.history id = [] ∧ b.written id = []
  /-- A holder of a connection is where its history ends. -/
  course : ∀ id stream, .opened stream ∈ b.history id → ∃ status,
    Course stream (b.history id) (b.written id) status ∧
      ∀ os, (id, os) ∈ held → status = some os

section

variable {held held' more all all' : List Holding} {b b' : Books}

/-- What happens to some holdings happens to them among others. -/
theorem Change.among (h : Change held b held' b') (before : (held ++ more).Subperm all)
    (after : all'.Subperm (held' ++ more)) : Change all b all' b' := by
  cases h with
  | quiet fewer =>
      exact .quiet ((after.trans ((List.subperm_append_right more).mpr fewer)).trans before)
  | opened one =>
      have widened := after.trans ((List.subperm_append_right more).mpr one)
      exact .opened (widened.trans ((List.subperm_cons _).mpr before))
  | deed had d has =>
      have widened := (List.subperm_append_right more).mpr had
      have left := after.trans ((List.subperm_append_right more).mpr has)
      rw [List.append_assoc] at left
      exact .deed (widened.trans before) d left

/-- What nobody holds stays as it is, and nobody will hold it. -/
theorem Change.unheld {id : Nat} (h : Change held b held' b') (opened : id < b.next)
    (free : ∀ os, (id, os) ∉ held) :
    b'.history id = b.history id ∧ b'.written id = b.written id ∧ id < b'.next ∧
      ∀ os, (id, os) ∉ held' := by
  cases h with
  | quiet fewer => exact ⟨rfl, rfl, opened, fun os h => free os (fewer.subset h)⟩
  | opened one =>
      have other : id ≠ b.next := Nat.ne_of_lt opened
      refine ⟨b.history_openAs_of_ne _ other, rfl, Nat.lt_succ_of_lt opened, fun os h => ?_⟩
      obtain heq | hmem := List.mem_cons.mp (one.subset h)
      · exact other (congrArg Prod.fst heq)
      · exact free os hmem
  | @deed rest _ user _ _ _ after had d has =>
      have other : id ≠ user := by
        intro same
        subst same
        exact free _ (had.subset (.head _))
      refine ⟨b.history_enter_of_ne _ _ _ other, b.written_enter_of_ne _ _ _ other, opened,
        fun os h => ?_⟩
      obtain hhas | hmem := List.mem_append.mp (has.subset h)
      · obtain ⟨_, -, heq⟩ := List.mem_map.mp hhas
        exact other (congrArg Prod.fst heq).symm
      · exact free os (had.subset (.tail _ hmem))

theorem nodup_of_subperm (h : held'.Subperm held) (once : (held.map Prod.fst).Nodup) :
    (held'.map Prod.fst).Nodup := by
  obtain ⟨same, hperm, hsub⟩ := subperm_map Prod.fst h
  exact hperm.nodup_iff.mp (once.sublist hsub)

namespace Sound

theorem fewer (h : Sound held b) (fewer : held'.Subperm held) : Sound held' b where
  numbered x hx := h.numbered x (fewer.subset hx)
  once := nodup_of_subperm fewer h.once
  blank := h.blank
  course id stream hopened := by
    obtain ⟨status, hcourse, hheld⟩ := h.course id stream hopened
    exact ⟨status, hcourse, fun os hos => hheld os (fewer.subset hos)⟩

theorem opened {stream : Stream} (h : Sound held b) :
    Sound ((b.next, incoming stream.arrivals) :: held) (b.openAs stream) where
  numbered x hx := by
    obtain rfl | hx := List.mem_cons.mp hx
    · exact Nat.lt_succ_self _
    · exact Nat.lt_succ_of_lt (h.numbered x hx)
  once := by
    rw [List.map_cons, List.nodup_cons]
    refine ⟨fun hmem => ?_, h.once⟩
    obtain ⟨x, hx, hnext⟩ := List.mem_map.mp hmem
    exact absurd (h.numbered x hx) (Nat.not_lt_of_le (Nat.le_of_eq hnext.symm))
  blank id hid := by
    have other : id ≠ b.next := Nat.ne_of_gt hid
    have old := h.blank id (Nat.le_of_lt hid)
    exact ⟨(b.history_openAs_of_ne _ other).trans old.1, old.2⟩
  course id first hopened := by
    by_cases new : id = b.next
    · subst new
      obtain ⟨hhistory, hwritten⟩ := h.blank b.next (Nat.le_refl _)
      rw [b.history_openAs_next, hhistory] at hopened ⊢
      cases List.mem_singleton.mp hopened
      show ∃ status, Course stream [.opened stream] (b.written b.next) status ∧ _
      rw [hwritten]
      refine ⟨_, .opened, fun os hos => ?_⟩
      obtain heq | hmem := List.mem_cons.mp hos
      · exact congrArg (some ·.2) heq.symm
      · exact absurd (h.numbered _ hmem) (Nat.lt_irrefl _)
    · rw [b.history_openAs_of_ne _ new] at hopened ⊢
      obtain ⟨status, hcourse, hheld⟩ := h.course id first hopened
      refine ⟨status, hcourse, fun os hos => ?_⟩
      obtain heq | hmem := List.mem_cons.mp hos
      · exact absurd (congrArg Prod.fst heq) new
      · exact hheld os hmem

theorem deed {rest : List Holding} {id : Nat} {os part : List UInt8} {e : Incident}
    {after : Option (List UInt8)} (h : Sound ((id, os) :: rest) b) (d : Deed os e part after) :
    Sound (after.toList.map (fun os => (id, os)) ++ rest) (b.enter id e part) := by
  have alone : ∀ os', (id, os') ∉ rest := by
    intro os' hos'
    have once := h.once
    rw [List.map_cons, List.nodup_cons] at once
    exact once.1 (List.mem_map.mpr ⟨_, hos', rfl⟩)
  have numbered := h.numbered (id, os) (.head _)
  constructor
  case numbered =>
    intro x hx
    obtain hx | hx := List.mem_append.mp hx
    · obtain ⟨_, -, rfl⟩ := List.mem_map.mp hx
      exact numbered
    · exact h.numbered x (.tail _ hx)
  case once =>
    cases after with
    | none => exact h.once.of_cons
    | some rest => exact h.once
  case blank =>
    intro i hi
    have other : i ≠ id := Nat.ne_of_gt (Nat.lt_of_lt_of_le numbered hi)
    rw [b.history_enter_of_ne _ _ _ other, b.written_enter_of_ne _ _ _ other]
    exact h.blank i hi
  case course =>
    intro i stream hopened
    by_cases here : i = id
    · subst here
      rw [b.history_enter_self] at hopened ⊢
      rw [b.written_enter_self]
      obtain hold | hnew := List.mem_append.mp hopened
      · obtain ⟨status, hcourse, hheld⟩ := h.course i stream hold
        cases hheld os (.head _)
        refine ⟨after, hcourse.deed d, fun os' hos' => ?_⟩
        obtain hhas | hrest := List.mem_append.mp hos'
        · obtain ⟨_, hafter, heq⟩ := List.mem_map.mp hhas
          cases heq
          exact Option.mem_toList.mp hafter
        · exact absurd hrest (alone os')
      · cases List.mem_singleton.mp hnew
        cases d
    · rw [b.history_enter_of_ne _ _ _ here] at hopened ⊢
      rw [b.written_enter_of_ne _ _ _ here]
      obtain ⟨status, hcourse, hheld⟩ := h.course i stream hopened
      refine ⟨status, hcourse, fun os' hos' => ?_⟩
      obtain hhas | hrest := List.mem_append.mp hos'
      · obtain ⟨_, -, heq⟩ := List.mem_map.mp hhas
        exact absurd (congrArg Prod.fst heq).symm here
      · exact hheld os' (.tail _ hrest)

/-- Whatever changes, the books stay right. -/
theorem change (h : Sound held b) (c : Change held b held' b') : Sound held' b' := by
  cases c with
  | quiet fewer => exact h.fewer fewer
  | opened one => exact h.opened.fewer one
  | deed had d has => exact ((h.fewer had).deed d).fewer has

end Sound

end

end Querier
