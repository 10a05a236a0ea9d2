import Querier.Dispatch.Journal

/-!
# What is added to a journal

A journal only grows, so what someone did between two moments is what the later journal has
beyond the earlier one. Journals are joined by `++`, and the views of a joined journal are
those of its parts.

Two views matter for telemetry: what each sink received, and what went out to the network.
Logging shows in neither, and handing an event to sinks shows in the first only.

## Main results

* `since_append`: what was added can be read off the two journals.
* `received_deliver`: a sink receives an event once if it wants it, and its failures and those
  of the others do not matter.
* `traffic_deliver`: nothing goes out to the network meanwhile.
-/

namespace Querier

/-- Whether something goes out to the network. -/
def Entry.isTraffic : Entry → Bool
  | .datagram .. | .connect _ | .wrote .. => true
  | .logged _ | .delivered .. => false

namespace Journal

/-- What went out to the network, in order. -/
def traffic (j : Journal) : List Entry := j.entries.toList.filter Entry.isTraffic

/-- The events that the sink with the number `i` received, in order. -/
def received (j : Journal) (i : Nat) : List TelemetryEvent :=
  (j.deliveries.filter fun x => x.1 = i).map Prod.snd

/-! ## Joining -/

/-- One journal behind another. -/
instance : Append Journal := ⟨fun j more => ⟨j.entries ++ more.entries⟩⟩

variable (j more : Journal) (i : Nat)

theorem entries_append : (j ++ more).entries = j.entries ++ more.entries := rfl

theorem append_empty : j ++ ({} : Journal) = j :=
  congrArg Journal.mk (Array.append_empty ..)

theorem append_assoc (last : Journal) : j ++ more ++ last = j ++ (more ++ last) :=
  congrArg Journal.mk (Array.append_assoc ..)

theorem push_eq_append (e : Entry) : j.push e = j ++ ⟨#[e]⟩ := by
  apply congrArg Journal.mk
  show j.entries.push e = j.entries ++ #[e]
  rw [Array.push_eq_append]

theorem since_append : (j ++ more).since j.size = more := by
  apply congrArg Journal.mk
  show (j.entries ++ more.entries).extract j.entries.size (j.entries ++ more.entries).size = _
  simp

theorem received_append : (j ++ more).received i = j.received i ++ more.received i := by
  simp only [received, deliveries, entries_append, Array.toList_append, List.filterMap_append,
    List.filter_append, List.map_append]

theorem traffic_append : (j ++ more).traffic = j.traffic ++ more.traffic := by
  simp only [traffic, entries_append, Array.toList_append, List.filter_append]

/-! ## Growing -/

/-- The one journal is the other one with something behind it. -/
def Extends (j later : Journal) : Prop := ∃ more, later = j ++ more

variable {j} {later : Journal}

namespace Extends

theorem refl (j : Journal) : j.Extends j := ⟨{}, j.append_empty.symm⟩

theorem trans {last : Journal} (h : j.Extends later) (h' : later.Extends last) :
    j.Extends last := by
  rcases h with ⟨more, rfl⟩
  rcases h' with ⟨rest, rfl⟩
  exact ⟨more ++ rest, j.append_assoc more rest⟩

/-- What was added is what is there since. -/
theorem eq_append_since (h : j.Extends later) : later = j ++ later.since j.size := by
  rcases h with ⟨more, rfl⟩
  rw [since_append]

/-- What was added shows in a view of the journal. -/
theorem received_since (h : j.Extends later) {events : List TelemetryEvent}
    (hreceived : later.received i = j.received i ++ events) :
    (later.since j.size).received i = events := by
  rcases h with ⟨more, rfl⟩
  rw [received_append] at hreceived
  rw [since_append]
  exact List.append_cancel_left hreceived

theorem traffic_since (h : j.Extends later) {entries : List Entry}
    (htraffic : later.traffic = j.traffic ++ entries) :
    (later.since j.size).traffic = entries := by
  rcases h with ⟨more, rfl⟩
  rw [traffic_append] at htraffic
  rw [since_append]
  exact List.append_cancel_left htraffic

end Extends

variable (j)

theorem extends_push (e : Entry) : j.Extends (j.push e) := ⟨_, j.push_eq_append e⟩

theorem extends_log (events : List LogEvent) : j.Extends (j.log events) := by
  induction events generalizing j with
  | nil => exact .refl j
  | cons e rest ih => exact (j.extends_push (.logged e)).trans (ih (j.push (.logged e)))

/-! ## Logging -/

/-- What goes out to the network does not go to a sink. -/
theorem received_of_isTraffic {es : List Entry} (h : ∀ e ∈ es, e.isTraffic = true) :
    (⟨es.toArray⟩ : Journal).received i = [] := by
  have silent : (⟨es.toArray⟩ : Journal).deliveries = [] := by
    apply List.filterMap_eq_nil_iff.mpr
    intro e he
    cases e with
    | delivered sink event => cases h _ he
    | _ => rfl
  rw [received, silent]
  rfl

theorem received_log (events : List LogEvent) : (j.log events).received i = j.received i := by
  rw [received, deliveries_log, received]

theorem traffic_of_isTraffic {es : List Entry} (h : ∀ e ∈ es, e.isTraffic = true) :
    (⟨es.toArray⟩ : Journal).traffic = es :=
  List.filter_eq_self.mpr h

theorem traffic_push (e : Entry) :
    (j.push e).traffic = j.traffic ++ if e.isTraffic then [e] else [] := by
  rw [push_eq_append, traffic_append]
  by_cases h : e.isTraffic = true
  · rw [if_pos h]
    exact congrArg _ (List.filter_cons_of_pos h)
  · rw [if_neg h]
    exact congrArg _ (List.filter_cons_of_neg h)

theorem log_append (events more : List LogEvent) :
    j.log (events ++ more) = (j.log events).log more :=
  List.foldl_append ..

theorem traffic_log (events : List LogEvent) : (j.log events).traffic = j.traffic := by
  induction events generalizing j with
  | nil => rfl
  | cons e rest ih =>
      show ((j.push (.logged e)).log rest).traffic = _
      rw [ih, traffic_push]
      exact List.append_nil _

/-! ## Handing events to sinks -/

/-- What is logged when a sink is handed an event, after `asked` other things were done. -/
def sinkNotes (s : Sink) (e : TelemetryEvent) (asked : Nat) : List LogEvent :=
  (if s.logs then [e.note] else []) ++ (s.answer asked).toList.map SinkError.note

variable (e : TelemetryEvent) (index : Nat) (s : Sink) (sinks : List Sink)

/-- An event is handed to one sink after the other. -/
theorem deliver_cons : j.deliver e index (s :: sinks) =
    (if s.wants e then (j.push (.delivered index e)).log (sinkNotes s e j.size) else j).deliver e
      (index + 1) sinks := by
  rw [deliver]
  by_cases wants : s.wants e = true
  · rw [if_pos wants, if_pos wants, sinkNotes, log_append]
    cases s.logs <;> cases s.answer j.size <;> rfl
  · rw [if_neg wants, if_neg wants]

theorem extends_deliver : j.Extends (j.deliver e index sinks) := by
  induction sinks generalizing j index with
  | nil => exact .refl j
  | cons s rest ih =>
      rw [deliver_cons]
      by_cases wants : s.wants e = true
      · rw [if_pos wants]
        exact ((j.extends_push _).trans (extends_log ..)).trans (ih ..)
      · rw [if_neg wants]
        exact ih j (index + 1)

theorem traffic_deliver : (j.deliver e index sinks).traffic = j.traffic := by
  induction sinks generalizing j index with
  | nil => rfl
  | cons s rest ih =>
      rw [deliver_cons, ih]
      by_cases wants : s.wants e = true
      · rw [if_pos wants, traffic_log, traffic_push]
        exact List.append_nil _
      · rw [if_neg wants]

theorem received_push_delivered : (j.push (.delivered index e)).received i =
    j.received i ++ if index = i then [e] else [] := by
  rw [push_eq_append, received_append]
  by_cases here : index = i
  · have mine : (⟨#[.delivered index e]⟩ : Journal).received i = [e] := by
      simp [received, deliveries, here]
    rw [if_pos here, mine]
  · have others : (⟨#[.delivered index e]⟩ : Journal).received i = [] := by
      simp [received, deliveries, here]
    rw [if_neg here, others]

/-- The sinks before the first one receive nothing. -/
theorem received_deliver_of_lt (h : i < index) :
    (j.deliver e index sinks).received i = j.received i := by
  induction sinks generalizing j index with
  | nil => rfl
  | cons s rest ih =>
      rw [deliver_cons, ih _ _ (Nat.lt_add_right 1 h)]
      by_cases wants : s.wants e = true
      · rw [if_pos wants, received_log, received_push_delivered, if_neg (Nat.ne_of_gt h),
          List.append_nil]
      · rw [if_neg wants]

/-- A sink receives an event once if it wants it, and else not at all. -/
theorem received_deliver : (j.deliver e index sinks).received (index + i) =
    j.received (index + i) ++ if (sinks[i]?).any (·.wants e) then [e] else [] := by
  induction sinks generalizing j index i with
  | nil =>
      show j.received (index + i) = _ ++ []
      rw [List.append_nil]
  | cons s rest ih =>
      rw [deliver_cons]
      cases i with
      | zero =>
          show (deliver _ e (index + 1) rest).received index = j.received index ++ _
          rw [received_deliver_of_lt _ _ _ _ _ (Nat.lt_add_one index)]
          by_cases wants : s.wants e = true
          · have any : ((s :: rest)[0]?).any (·.wants e) = true := wants
            rw [if_pos wants, if_pos any, received_log, received_push_delivered, if_pos rfl]
          · have any : ¬ ((s :: rest)[0]?).any (·.wants e) = true := wants
            rw [if_neg wants, if_neg any, List.append_nil]
      | succ i =>
          have later : index + (i + 1) = index + 1 + i := by omega
          have before : ¬ index = index + 1 + i := by omega
          rw [later, ih, List.getElem?_cons_succ]
          by_cases wants : s.wants e = true
          · rw [if_pos wants, received_log, received_push_delivered, if_neg before,
              List.append_nil]
          · rw [if_neg wants]

end Journal

end Querier
