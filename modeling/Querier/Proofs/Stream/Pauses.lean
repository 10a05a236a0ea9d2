import Querier.Proofs.Stream

/-!
# Pieces and pauses

How octets are cut into pieces on their way makes no difference to a reader, and pauses between
them make none while there is time. Both are facts about `Stream.receive`. It takes from the front
of what arrives, piece by piece, and stops in the middle of a piece when it has enough; a pause
only takes away from the time that is left.

An exchange reads twice, first a length and then as many octets, so what holds of one read has to
be put together: the octets of both follow each other, and the pauses of both add up. `pauses`
counts the pauses up to the last of a number of octets, and `wanted` says how many octets an
exchange reads.

## Main results

* `receive_pieces`, `receive_short`: reading what has arrived, and reading beyond its end.
* `receive_unpaused`, `receive_late`: reading with pauses is reading without them, or time runs out.
* `readReply_unpaused`, `readReply_late`: the same of a whole response.
* `exchanges_pieces`: exchanges one after the other do not depend on pieces, nor on pauses that
  are short enough.
-/

namespace Querier.Stream

/-! ## Pieces -/

/-- The octets have arrived, cut into pieces in some way, and `tail` comes behind them. -/
def Ready (arrivals : List Arrival) (os : List UInt8) (tail : List Arrival) : Prop :=
  ∃ pieces : List Octets, arrivals = pieces.map .data ++ tail ∧
    pieces.flatMap Array.toList = os

/-- Nothing more comes. -/
def Ended (tail : List Arrival) : Prop := tail = [] ∨ ∃ rest, tail = .ended :: rest

section

variable {arrivals tail : List Arrival} {os rest : List UInt8} {got : Octets} {need : Nat}
  {left : Duration}

/-- Octets that have arrived are read, and what is behind them stays. -/
theorem receive_pieces (ready : Ready arrivals (os ++ rest) tail) (got : Octets)
    (left : Duration) : ∃ arrivals', Ready arrivals' rest tail ∧
      receive got os.length left arrivals = ⟨.full (got ++ os.toArray), arrivals', left⟩ := by
  obtain ⟨pieces, rfl, hpieces⟩ := ready
  induction pieces generalizing os got with
  | nil =>
      obtain ⟨rfl, rfl⟩ := List.append_eq_nil_iff.mp hpieces.symm
      refine ⟨tail, ⟨[], rfl, rfl⟩, ?_⟩
      rw [List.length_nil, receive_zero, Array.append_empty]
      rfl
  | cons piece pieces ih =>
      by_cases zero : os.length = 0
      · have none : os = [] := List.length_eq_zero_iff.mp zero
        subst none
        refine ⟨_, ⟨piece :: pieces, rfl, hpieces⟩, ?_⟩
        rw [List.length_nil, receive_zero, Array.append_empty]
      · rw [List.flatMap_cons] at hpieces
        rw [List.map_cons, List.cons_append, receive, if_neg zero]
        rcases List.append_eq_append_iff.mp hpieces with ⟨more, rfl, hmore⟩ | ⟨more, hpiece, rfl⟩
        · -- the piece is the beginning of what is read
          obtain ⟨arrivals', ready, hread⟩ := ih (got ++ piece) hmore
          have length : (piece.toList ++ more).length - piece.size = more.length := by
            rw [List.length_append, Array.length_toList, Nat.add_sub_cancel_left]
          have whole : (piece.toList ++ more).toArray = piece ++ more.toArray := by
            rw [← Array.toList_inj, Array.toList_append]
          refine ⟨arrivals', ready, ?_⟩
          rw [if_pos (by simp), length, hread, whole, Array.append_assoc]
        · -- what is read is the beginning of the piece
          obtain rfl : piece = os.toArray ++ more.toArray := by
            rw [← Array.toList_inj]
            simpa using hpiece
          by_cases all : more = []
          · subst all
            refine ⟨pieces.map .data ++ tail, ⟨pieces, rfl, by simp⟩, ?_⟩
            rw [if_pos (by simp)]
            simp [receive_zero]
          · have long : ¬ (os.toArray ++ more.toArray).size ≤ os.length := by
              have := List.length_pos_of_ne_nil all
              rw [Array.size_append, List.size_toArray, List.size_toArray]
              omega
            refine ⟨.data more.toArray :: (pieces.map .data ++ tail),
              ⟨more.toArray :: pieces, rfl, by simp⟩, ?_⟩
            rw [if_neg long]
            simp

/-- Where fewer octets have arrived than are to be read, and nothing more comes, reading fails,
and nothing is left. -/
theorem receive_short (ready : Ready arrivals os tail) (ended : Ended tail)
    (short : os.length < need) (got : Octets) (left : Duration) :
    receive got need left arrivals = ⟨.failed .streamEnd, tail, left⟩ := by
  obtain ⟨pieces, rfl, rfl⟩ := ready
  induction pieces generalizing need got with
  | nil =>
      have some : need ≠ 0 := Nat.ne_zero_of_lt short
      rcases ended with rfl | ⟨rest, rfl⟩
      · exact (receive.eq_def ..).trans (if_neg some)
      · exact (receive.eq_def ..).trans (if_neg some)
  | cons piece pieces ih =>
      rw [List.flatMap_cons, List.length_append, Array.length_toList] at short
      have some : need ≠ 0 := Nat.ne_zero_of_lt short
      rw [List.map_cons, List.cons_append, receive, if_neg some]
      simp only [if_pos (show piece.size ≤ need by omega)]
      exact ih (got ++ piece) (by omega)

end

/-! ## Responses in pieces -/

/-- The two octets before a message say how long it is. -/
theorem exists_toList_frame {message : Octets} (fits : message.size ≤ 65535) :
    ∃ hi lo, (frame message).toList = hi :: lo :: message.toList ∧
      (Octets.uInt16 hi lo).toNat = message.size := by
  refine ⟨_, _, by rw [frame, Array.toList_append]; rfl, ?_⟩
  rw [Octets.uInt16_ofUInt16, UInt16.toNat_ofNat']
  omega

section

variable {s : Stream} {timeout : Duration} {os rest part : List UInt8} {reply message : Octets}
  {tail : List Arrival}

theorem uInt16_pair (hi lo : UInt8) :
    Octets.uInt16 (#[hi, lo][0]?.getD 0) (#[hi, lo][1]?.getD 0) = Octets.uInt16 hi lo := rfl

/-- A response that has arrived is read, and what is behind it stays. -/
theorem readReply_pieces (fits : reply.size ≤ 65535)
    (ready : Ready s.arrivals ((frame reply).toList ++ rest) tail) (timeout : Duration) :
    ∃ arrivals', Ready arrivals' rest tail ∧
      s.readReply timeout = (.ok reply, { s with arrivals := arrivals' }, 0) := by
  obtain ⟨hi, lo, hframe, announced⟩ := exists_toList_frame fits
  have ready : Ready s.arrivals ([hi, lo] ++ (reply.toList ++ rest)) tail := by
    rwa [hframe] at ready
  obtain ⟨behind, ready, first⟩ := receive_pieces ready #[] timeout
  obtain ⟨arrivals', ready, second⟩ := receive_pieces ready #[] timeout
  have first : receive #[] 2 timeout s.arrivals = ⟨.full #[hi, lo], behind, timeout⟩ := first
  rw [Array.length_toList, Array.empty_append, Array.toArray_toList] at second
  refine ⟨arrivals', ready, ?_⟩
  simp only [readReply, first, uInt16_pair, announced, second, Nat.sub_self]

/-- A response of which something is missing at the end is not read. -/
theorem readReply_short (ready : Ready s.arrivals part tail) (ended : Ended tail)
    (incomplete : unframe part = none) (timeout : Duration) :
    s.readReply timeout = (.error .streamEnd, { s with arrivals := tail }, 0) := by
  match part with
  | [] =>
      have first := receive_short ready ended (show 0 < 2 by omega) #[] timeout
      simp only [readReply, first, Nat.sub_self]
  | [o] =>
      have first := receive_short ready ended (show 1 < 2 by omega) #[] timeout
      simp only [readReply, first, Nat.sub_self]
  | hi :: lo :: body =>
      have missing : body.length < (Octets.uInt16 hi lo).toNat := by
        by_contra enough
        rw [unframe, if_pos (Nat.le_of_not_lt enough)] at incomplete
        cases incomplete
      have ready : Ready s.arrivals ([hi, lo] ++ body) tail := ready
      obtain ⟨behind, ready, first⟩ := receive_pieces ready #[] timeout
      have first : receive #[] 2 timeout s.arrivals = ⟨.full #[hi, lo], behind, timeout⟩ := first
      have second := receive_short ready ended missing #[] timeout
      simp only [readReply, first, uInt16_pair, second, Nat.sub_self]

end

/-! ## One exchange after the other -/

/-- Whatever is written to the stream is taken at once. -/
structure TakesAll (s : Stream) : Prop where
  allowance : s.allowance = none
  flush : s.flushError = none

/-- Messages one after the other, each behind its length. -/
def frames (messages : List Octets) : List UInt8 :=
  messages.flatMap fun message => (frame message).toList

/-- The stream when a query has been written to it. -/
def written (s : Stream) (message : Octets) : Stream :=
  { s with accepted := s.accepted + (frame message).size }

/-- The exchanges of some queries, each with the time there is for it. -/
def exchanges (s : Stream) : List (Octets × Duration) → List Exchanged
  | [] => []
  | (message, timeout) :: rest =>
    s.exchange message timeout :: (s.exchange message timeout).stream.exchanges rest

/-- The stream after these exchanges. -/
def after (s : Stream) (queries : List (Octets × Duration)) : Stream :=
  queries.foldl (fun s query => (s.exchange query.1 query.2).stream) s

section

variable {s : Stream} {message : Octets} {timeout : Duration} {queries : List (Octets × Duration)}
  {replies : List Octets} {tail : List Arrival} {following part : List UInt8}

/-- Where everything is taken, an exchange writes the whole query and is done when it has read. -/
theorem exchange_of_takesAll (takes : s.TakesAll) (fits : message.size ≤ 65535)
    (timeout : Duration) : s.exchange message timeout =
      { reply := ((s.written message).readReply timeout).1
        stream := ((s.written message).readReply timeout).2.1
        sent := frame message
        elapsed := ((s.written message).readReply timeout).2.2 } := by
  have room : s.room (frame message).size = (frame message).size := by
    rw [Stream.room, takes.allowance]
  have sent : (frame message).extract 0 (frame message).size = frame message :=
    Array.extract_size
  simp only [exchange, if_neg (Nat.not_lt.mpr fits), room, Nat.lt_irrefl, if_false, takes.flush,
    sent, written]

theorem exists_stream_readReply (s : Stream) (timeout : Duration) :
    ∃ arrivals', (s.readReply timeout).2.1 = { s with arrivals := arrivals' } := by
  unfold readReply
  simp only
  split
  · exact ⟨_, rfl⟩
  · exact ⟨_, rfl⟩
  · split <;> exact ⟨_, rfl⟩

theorem TakesAll.exchange (takes : s.TakesAll) (fits : message.size ≤ 65535)
    (timeout : Duration) : (s.exchange message timeout).stream.TakesAll := by
  obtain ⟨arrivals', hstream⟩ := exists_stream_readReply (s.written message) timeout
  rw [exchange_of_takesAll takes fits, hstream]
  exact ⟨takes.allowance, takes.flush⟩

/-- All queries are written, whatever is read. -/
theorem sent_exchanges (takes : s.TakesAll) (small : ∀ q ∈ queries, q.1.size ≤ 65535) :
    (s.exchanges queries).map Exchanged.sent = queries.map fun q => frame q.1 := by
  induction queries generalizing s with
  | nil => rfl
  | cons query queries ih =>
      have fits := small query (.head _)
      have later := ih (takes.exchange fits query.2) fun q hq => small q (.tail _ hq)
      rw [exchanges, List.map_cons, List.map_cons, later, exchange_of_takesAll takes fits]

/-- What an exchange is that reads a response which has arrived. -/
theorem exchange_ready {reply : Octets} {rest : List UInt8} (takes : s.TakesAll)
    (fits : message.size ≤ 65535) (small : reply.size ≤ 65535)
    (ready : Ready s.arrivals ((frame reply).toList ++ rest) tail) (timeout : Duration) :
    (s.exchange message timeout).reply = .ok reply ∧ (s.exchange message timeout).elapsed = 0 ∧
      Ready (s.exchange message timeout).stream.arrivals rest tail := by
  have ready : Ready (s.written message).arrivals ((frame reply).toList ++ rest) tail := ready
  obtain ⟨arrivals', ready', hread⟩ := readReply_pieces small ready timeout
  rw [exchange_of_takesAll takes fits, hread]
  exact ⟨rfl, rfl, ready'⟩

/-- What it is if something is missing of the response. -/
theorem exchange_short (takes : s.TakesAll) (fits : message.size ≤ 65535)
    (ready : Ready s.arrivals part tail) (ended : Ended tail) (incomplete : unframe part = none)
    (timeout : Duration) : (s.exchange message timeout).reply = .error .streamEnd ∧
      Ready (s.exchange message timeout).stream.arrivals [] tail := by
  have ready : Ready (s.written message).arrivals part tail := ready
  rw [exchange_of_takesAll takes fits, readReply_short ready ended incomplete timeout]
  exact ⟨rfl, [], rfl, rfl⟩

/-- Responses that have arrived are read one after the other. -/
theorem exchanges_ready (takes : s.TakesAll) (small : ∀ q ∈ queries, q.1.size ≤ 65535)
    (fits : ∀ r ∈ replies, r.size ≤ 65535) (length : replies.length = queries.length)
    (ready : Ready s.arrivals (frames replies ++ following) tail) :
    (s.exchanges queries).map Exchanged.reply = replies.map .ok ∧
      (∀ x ∈ s.exchanges queries, x.elapsed = 0) ∧
      Ready (s.after queries).arrivals following tail := by
  induction queries generalizing s replies with
  | nil =>
      obtain rfl := List.length_eq_zero_iff.mp length
      rw [frames, List.flatMap_nil, List.nil_append] at ready
      exact ⟨rfl, List.forall_mem_nil _, ready⟩
  | cons query queries ih =>
      obtain ⟨message, timeout⟩ := query
      cases replies with
      | nil => cases length
      | cons reply replies =>
          rw [frames, List.flatMap_cons, List.append_assoc] at ready
          have messageFits := small (message, timeout) (.head _)
          obtain ⟨hreply, hprompt, ready'⟩ := exchange_ready takes messageFits
            (fits reply (.head _)) ready timeout
          obtain ⟨hreplies, hprompts, hleft⟩ := ih (takes.exchange messageFits timeout)
            (fun q hq => small q (.tail _ hq)) (fun r hr => fits r (.tail _ hr))
            (Nat.succ.inj length) ready'
          refine ⟨?_, ?_, hleft⟩
          · rw [exchanges, List.map_cons, hreplies, hreply, List.map_cons]
          · rw [exchanges, List.forall_mem_cons]
            exact ⟨hprompt, hprompts⟩

/-- If the octets end early, the exchanges that have a whole response read it, and the others find
the end of the stream. -/
theorem exchanges_short (takes : s.TakesAll) (small : ∀ q ∈ queries, q.1.size ≤ 65535)
    (fits : ∀ r ∈ replies, r.size ≤ 65535) (fewer : replies.length ≤ queries.length)
    (ready : Ready s.arrivals (frames replies ++ part) tail)
    (ended : Ended tail) (incomplete : unframe part = none) :
    (s.exchanges queries).map Exchanged.reply = replies.map .ok ++
      List.replicate (queries.length - replies.length) (.error .streamEnd) := by
  induction queries generalizing s replies part with
  | nil =>
      obtain rfl := List.length_eq_zero_iff.mp (Nat.le_zero.mp fewer)
      rfl
  | cons query queries ih =>
      obtain ⟨message, timeout⟩ := query
      have messageFits := small (message, timeout) (.head _)
      have takes' := takes.exchange messageFits timeout
      have small' : ∀ q ∈ queries, q.1.size ≤ 65535 := fun q hq => small q (.tail _ hq)
      rw [exchanges, List.map_cons]
      cases replies with
      | nil =>
          rw [frames, List.flatMap_nil, List.nil_append] at ready
          obtain ⟨hreply, ready'⟩ := exchange_short takes messageFits ready ended incomplete timeout
          -- nothing is left, so the next exchange misses its whole response
          rw [hreply, ih takes' small' fits (Nat.zero_le _) ready' rfl]
          rfl
      | cons reply replies =>
          rw [frames, List.flatMap_cons, List.append_assoc] at ready
          obtain ⟨hreply, -, ready'⟩ := exchange_ready takes messageFits (fits reply (.head _))
            ready timeout
          have hreplies := ih takes' small' (fun r hr => fits r (.tail _ hr))
            (Nat.le_of_succ_le_succ fewer) ready' incomplete
          rw [hreply, hreplies, List.length_cons, List.length_cons, Nat.add_sub_add_right]
          rfl

end

/-! ## Pauses -/

/-- The same arrivals without pauses. -/
def unpaused (arrivals : List Arrival) : List Arrival :=
  arrivals.filter fun
    | .wait _ => false
    | _ => true

/-- The same stream without pauses. -/
def prompt (s : Stream) : Stream := { s with arrivals := unpaused s.arrivals }

/-- The pauses up to the last of this many octets, or up to what stops the reader before. -/
def pauses (need : Nat) : List Arrival → Duration
  | .data os :: rest => pauses (need - os.size) rest
  | .wait d :: rest => if need = 0 then 0 else d + pauses need rest
  | _ => 0

/-- How many octets an exchange reads from what arrives. -/
def wanted : List UInt8 → Nat
  | hi :: lo :: _ => 2 + (Octets.uInt16 hi lo).toNat
  | _ => 2

section

variable {got : Octets} {need : Nat} {left : Duration} {arrivals : List Arrival}

theorem pauses_zero (arrivals : List Arrival) : pauses 0 arrivals = 0 := by
  induction arrivals with
  | nil => rfl
  | cons arrival rest ih =>
      cases arrival with
      | data os => rw [pauses, Nat.zero_sub, ih]
      | _ => rfl

/-- Pauses that are not too long make no difference to what is read, and the reader has waited
for all of them when it has enough. -/
theorem receive_unpaused (got : Octets) (enough : pauses need arrivals ≤ left) (left' : Duration) :
    (receive got need left' (unpaused arrivals)).outcome =
        (receive got need left arrivals).outcome ∧
      (receive got need left' (unpaused arrivals)).rest =
        unpaused (receive got need left arrivals).rest ∧
      ∀ os, (receive got need left arrivals).outcome = .full os →
        (receive got need left arrivals).left + pauses need arrivals = left := by
  fun_induction receive got need left arrivals with
  | case1 =>
      rw [receive_zero, pauses_zero]
      exact ⟨rfl, rfl, fun _ _ => rfl⟩
  | case2 got need left some =>
      have quick : receive got need left' (unpaused []) = ⟨.failed .streamEnd, [], left'⟩ :=
        (receive.eq_def ..).trans (if_neg some)
      rw [quick]
      exact ⟨rfl, rfl, fun _ full => by cases full⟩
  | case3 got need left some os rest fits ih =>
      have quick : receive got need left' (unpaused (.data os :: rest)) =
          receive (got ++ os) (need - os.size) left' (unpaused rest) := by
        rw [unpaused, List.filter_cons_of_pos rfl, receive, if_neg some]
        exact if_pos fits
      rw [quick]
      exact ih enough
  | case4 got need left some os rest exceeds =>
      have quick : receive got need left' (unpaused (.data os :: rest)) =
          ⟨.full (got ++ os.extract 0 need), .data (os.extract need os.size) :: unpaused rest,
            left'⟩ := by
        rw [unpaused, List.filter_cons_of_pos rfl, receive, if_neg some]
        exact if_neg exceeds
      rw [quick]
      refine ⟨rfl, rfl, fun _ _ => ?_⟩
      rw [pauses, Nat.sub_eq_zero_of_le (Nat.le_of_not_le exceeds), pauses_zero, Nat.add_zero]
  | case5 got need left some d rest waits ih =>
      rw [pauses, if_neg some] at enough
      obtain ⟨houtcome, hrest, hleft⟩ := ih (Nat.le_sub_of_add_le' enough)
      refine ⟨houtcome, hrest, fun os hfull => ?_⟩
      rw [pauses, if_neg some, Nat.add_left_comm, hleft os hfull, Nat.add_sub_cancel' waits]
  | case6 got need left some d rest late =>
      rw [pauses, if_neg some] at enough
      exact absurd (Nat.le_trans (Nat.le_add_right ..) enough) late
  | case7 got need left some e rest =>
      have quick : receive got need left' (unpaused (.failure e :: rest)) =
          ⟨.failed (readError e), unpaused rest, left'⟩ := (receive.eq_def ..).trans (if_neg some)
      rw [quick]
      exact ⟨rfl, rfl, fun _ full => by cases full⟩
  | case8 got need left some rest =>
      have quick : receive got need left' (unpaused (.ended :: rest)) =
          ⟨.failed .streamEnd, .ended :: unpaused rest, left'⟩ :=
        (receive.eq_def ..).trans (if_neg some)
      rw [quick]
      exact ⟨rfl, rfl, fun _ full => by cases full⟩
  | case9 got need left some rest =>
      have quick : receive got need left' (unpaused (.silence :: rest)) =
          ⟨.expired, .silence :: unpaused rest, 0⟩ := (receive.eq_def ..).trans (if_neg some)
      rw [quick]
      exact ⟨rfl, rfl, fun _ full => by cases full⟩

/-- Pauses that are too long end the attempt. -/
theorem receive_late (got : Octets) (late : left < pauses need arrivals) :
    (receive got need left arrivals).outcome = .expired := by
  fun_induction receive got need left arrivals with
  | case1 =>
      rw [pauses_zero] at late
      exact absurd late (Nat.not_lt_zero _)
  | case3 got need left some os rest fits ih => exact ih late
  | case4 got need left some os rest exceeds =>
      rw [pauses, Nat.sub_eq_zero_of_le (Nat.le_of_not_le exceeds), pauses_zero] at late
      exact absurd late (Nat.not_lt_zero _)
  | case5 got need left some d rest waits ih =>
      rw [pauses, if_neg some] at late
      exact ih (Nat.sub_lt_left_of_lt_add waits late)
  | case6 => rfl
  | _ => exact absurd late (Nat.not_lt_zero _)

/-- Where an attempt has not run out of time, there was enough for the pauses. -/
theorem pauses_le_of_not_expired (h : (receive got need left arrivals).outcome ≠ .expired) :
    pauses need arrivals ≤ left := by
  by_contra late
  exact h (receive_late got (Nat.lt_of_not_le late))

/-- The pauses of two reads that follow each other add up. -/
theorem pauses_add {os : Octets} (full : (receive got need left arrivals).outcome = .full os)
    (more : Nat) : pauses (need + more) arrivals =
      pauses need arrivals + pauses more (receive got need left arrivals).rest := by
  fun_induction receive got need left arrivals with
  | case1 => rw [pauses_zero, Nat.zero_add, Nat.zero_add]
  | case3 got need left some piece rest fits ih =>
      rw [pauses, pauses, Nat.sub_add_comm fits, ih full]
  | case4 got need left some piece rest exceeds =>
      have size : (piece.extract need piece.size).size = piece.size - need := by
        rw [Array.size_extract, Nat.min_self]
      rw [pauses, pauses, pauses, Nat.sub_eq_zero_of_le (Nat.le_of_not_le exceeds), pauses_zero,
        Nat.zero_add, size]
      congr 1
      omega
  | case5 got need left some d rest waits ih =>
      rw [pauses, pauses, if_neg some, if_neg (by omega), ih full, Nat.add_assoc]
  | _ => cases full

/-- Where there is time for the pauses and nothing is read all the same, it does not matter how
much more there was to read. -/
theorem pauses_of_not_full (enough : pauses need arrivals ≤ left)
    (unread : ∀ os, (receive got need left arrivals).outcome ≠ .full os) (more : Nat) :
    pauses (need + more) arrivals = pauses need arrivals := by
  fun_induction receive got need left arrivals with
  | case1 => exact absurd rfl (unread _)
  | case3 got need left some piece rest fits ih =>
      rw [pauses, pauses, Nat.sub_add_comm fits, ih enough unread]
  | case4 => exact absurd rfl (unread _)
  | case5 got need left some d rest waits ih =>
      rw [pauses, if_neg some] at enough
      rw [pauses, pauses, if_neg some, if_neg (by omega),
        ih (Nat.le_sub_of_add_le' enough) unread]
  | case6 got need left some d rest late =>
      rw [pauses, if_neg some] at enough
      exact absurd (Nat.le_trans (Nat.le_add_right ..) enough) late
  | _ => rfl

theorem exists_wanted (os : List UInt8) : ∃ more, wanted os = 2 + more := by
  match os with
  | [] => exact ⟨0, rfl⟩
  | [_] => exact ⟨0, rfl⟩
  | hi :: lo :: _ => exact ⟨_, rfl⟩

theorem wanted_incoming {length : Octets}
    (full : (receive #[] 2 left arrivals).outcome = .full length) : wanted (incoming arrivals) =
      2 + (Octets.uInt16 (length[0]?.getD 0) (length[1]?.getD 0)).toNat := by
  obtain ⟨⟨octets⟩, hsize, rfl, harrivals⟩ := incoming_receive full
  obtain ⟨hi, lo, rfl⟩ := List.length_eq_two.mp hsize
  rw [harrivals]
  rfl

end

section

variable {s : Stream} {timeout : Duration}

/-- The pauses a response comes with, up to the last octet of it. -/
def lag (s : Stream) : Duration := pauses (wanted (incoming s.arrivals)) s.arrivals

theorem pauses_le_lag (s : Stream) : pauses 2 s.arrivals ≤ s.lag := by
  obtain ⟨more, hmore⟩ := exists_wanted (incoming s.arrivals)
  rw [lag, hmore]
  by_cases full : ∃ os, (receive #[] 2 (pauses 2 s.arrivals) s.arrivals).outcome = .full os
  · obtain ⟨os, full⟩ := full
    rw [pauses_add full]
    exact Nat.le_add_right ..
  · exact Nat.le_of_eq
      (pauses_of_not_full (Nat.le_refl _) (fun os h => full ⟨os, h⟩) more).symm

/-- Pauses that are not too long make no difference to a response. -/
theorem readReply_unpaused (enough : s.lag ≤ timeout) (timeout' : Duration) :
    (s.prompt.readReply timeout').1 = (s.readReply timeout).1 ∧
      (s.prompt.readReply timeout').2.1 = (s.readReply timeout).2.1.prompt := by
  obtain ⟨houtcome, hrest, hleft⟩ := receive_unpaused #[]
    (Nat.le_trans (pauses_le_lag s) enough) timeout'
  cases hfirst : (receive #[] 2 timeout s.arrivals).outcome with
  | failed e =>
      rw [hfirst] at houtcome
      simp only [readReply, prompt, houtcome, hfirst, hrest, and_self]
  | expired =>
      rw [hfirst] at houtcome
      simp only [readReply, prompt, houtcome, hfirst, hrest, and_self]
  | full length =>
      rw [hfirst] at houtcome
      have waited : timeout = pauses 2 s.arrivals + (receive #[] 2 timeout s.arrivals).left :=
        (hleft length hfirst).symm.trans (Nat.add_comm ..)
      -- what the second read has to wait for is what is left of the pauses
      rw [lag, wanted_incoming hfirst, pauses_add hfirst] at enough
      have later := Nat.le_of_add_le_add_left (Nat.le_trans enough (Nat.le_of_eq waited))
      obtain ⟨houtcome', hrest', -⟩ := receive_unpaused #[] later
        (receive #[] 2 timeout' (unpaused s.arrivals)).left
      rw [← hrest] at houtcome' hrest'
      simp only [readReply, prompt, houtcome, hfirst]
      generalize receive #[] _ (receive #[] 2 timeout s.arrivals).left
        (receive #[] 2 timeout s.arrivals).rest = slow at houtcome' hrest' ⊢
      generalize receive #[] _ (receive #[] 2 timeout' (unpaused s.arrivals)).left
        (receive #[] 2 timeout' (unpaused s.arrivals)).rest = quick at houtcome' hrest' ⊢
      rw [houtcome', hrest']
      cases slow.outcome <;> exact ⟨rfl, rfl⟩

/-- Pauses that are too long leave none. -/
theorem readReply_late (late : timeout < s.lag) :
    (s.readReply timeout).1 = .error .timeout ∧ (s.readReply timeout).2.2 = timeout := by
  cases hfirst : (receive #[] 2 timeout s.arrivals).outcome with
  | expired => simp only [readReply, hfirst, and_self]
  | failed e =>
      -- what stops the reader stops it before the time is up, so the pauses fit
      have unexpired : (receive #[] 2 timeout s.arrivals).outcome ≠ .expired := by
        rw [hfirst]
        exact ReadEnd.noConfusion
      have unread (os : Octets) : (receive #[] 2 timeout s.arrivals).outcome ≠ .full os := by
        rw [hfirst]
        exact ReadEnd.noConfusion
      have enough := pauses_le_of_not_expired unexpired
      obtain ⟨more, hmore⟩ := exists_wanted (incoming s.arrivals)
      rw [lag, hmore, pauses_of_not_full enough unread] at late
      exact absurd enough (Nat.not_le_of_lt late)
  | full length =>
      have unexpired : (receive #[] 2 timeout s.arrivals).outcome ≠ .expired := by
        rw [hfirst]
        exact ReadEnd.noConfusion
      obtain ⟨-, -, hleft⟩ := receive_unpaused #[] (pauses_le_of_not_expired unexpired) timeout
      have waited : pauses 2 s.arrivals + (receive #[] 2 timeout s.arrivals).left = timeout :=
        (Nat.add_comm ..).trans (hleft length hfirst)
      rw [lag, wanted_incoming hfirst, pauses_add hfirst] at late
      have second := receive_late #[]
        (Nat.lt_of_add_lt_add_left (Nat.lt_of_le_of_lt (Nat.le_of_eq waited) late))
      simp only [readReply, hfirst, second, and_self]

/-! ## Exchanges over streams that take everything -/

/-- Where a stream takes all that is written to it, its exchanges depend on the octets that arrive
alone. However these are cut into pieces, responses that are all there are read in turn and what
is behind them stays; a response of which something is missing at the end is not read, nor is one
after it. A query that is too large touches nothing. Pauses up to the last octet of a response
make no difference if they fit into the timeout, and otherwise it runs out. -/
theorem exchanges_pieces (takes : s.TakesAll) :
    (∀ (queries : List (Octets × Duration)) (replies : List Octets) (following : List UInt8)
      (tail : List Arrival), (∀ q ∈ queries, q.1.size ≤ 65535) → (∀ r ∈ replies, r.size ≤ 65535) →
      replies.length = queries.length → Ready s.arrivals (frames replies ++ following) tail →
      (s.exchanges queries).map Exchanged.reply = replies.map .ok ∧
        (s.exchanges queries).map Exchanged.sent = queries.map (fun q => frame q.1) ∧
        Ready (s.after queries).arrivals following tail) ∧
    (∀ (queries : List (Octets × Duration)) (replies : List Octets) (part : List UInt8)
      (tail : List Arrival), (∀ q ∈ queries, q.1.size ≤ 65535) → (∀ r ∈ replies, r.size ≤ 65535) →
      replies.length ≤ queries.length → Ready s.arrivals (frames replies ++ part) tail →
      unframe part = none → Ended tail →
      (s.exchanges queries).map Exchanged.reply = replies.map .ok ++
        List.replicate (queries.length - replies.length) (.error .streamEnd)) ∧
    (∀ (any : Stream) (message : Octets) (timeout : Duration), 65535 < message.size →
      any.exchange message timeout =
        { reply := .error .messageTooLarge, stream := any, sent := #[], elapsed := 0 }) ∧
    ∀ (message : Octets) (timeout : Duration), message.size ≤ 65535 →
      (s.lag ≤ timeout →
        (s.exchange message timeout).reply = (s.prompt.exchange message timeout).reply ∧
        (s.exchange message timeout).sent = (s.prompt.exchange message timeout).sent ∧
        (s.exchange message timeout).stream.prompt = (s.prompt.exchange message timeout).stream) ∧
      (timeout < s.lag → (s.exchange message timeout).reply = .error .timeout ∧
        (s.exchange message timeout).elapsed = timeout) := by
  refine ⟨?pieces, ?short, ?large, ?paused⟩
  case pieces =>
    intro queries replies following tail small fits length ready
    obtain ⟨hreplies, -, hleft⟩ := exchanges_ready takes small fits length ready
    exact ⟨hreplies, sent_exchanges takes small, hleft⟩
  case short =>
    intro queries replies part tail small fits fewer ready incomplete ended
    exact exchanges_short takes small fits fewer ready ended incomplete
  case large =>
    intro any message timeout large
    rw [exchange, if_pos large]
  case paused =>
    intro message timeout fits
    have prompt : s.prompt.TakesAll := ⟨takes.allowance, takes.flush⟩
    have hlag : s.lag = (s.written message).lag := rfl
    have hprompt : s.prompt.written message = (s.written message).prompt := rfl
    rw [exchange_of_takesAll takes fits, exchange_of_takesAll prompt fits, hlag, hprompt]
    refine ⟨fun enough => ?_, fun late => readReply_late late⟩
    obtain ⟨hreply, hstream⟩ := readReply_unpaused enough timeout
    exact ⟨hreply.symm, rfl, hstream.symm⟩

/-- Two responses in three pieces, the second cut within its length, are read and one octet is
left; where the second is cut off for good, it is not read, nor is a third; pauses of seven are in
time for a timeout of seven and not for one of six. -/
theorem exchanges_pieces_cut :
    let pieces : Stream := { arrivals := [.data #[0, 0, 0], .data #[3, 7], .data #[8, 9, 5]] }
    let short : Stream := { arrivals := [.data #[0, 0, 0], .data #[3, 7], .ended] }
    let paused : Stream :=
      { arrivals := [.data #[0], .wait 4, .data #[1], .wait 3, .data #[7], .wait 9] }
    (pieces.TakesAll ∧
      (pieces.exchanges [(#[1], 10), (#[2, 2], 10)]).map Exchanged.reply =
        [.ok #[], .ok #[7, 8, 9]] ∧
      (pieces.exchanges [(#[1], 10), (#[2, 2], 10)]).map Exchanged.sent =
        [#[0, 1, 1], #[0, 2, 2, 2]] ∧
      Ready (pieces.after [(#[1], 10), (#[2, 2], 10)]).arrivals [5] []) ∧
    (short.TakesAll ∧
      (short.exchanges [(#[1], 10), (#[2, 2], 10), (#[], 10)]).map Exchanged.reply =
        [.ok #[], .error .streamEnd, .error .streamEnd]) ∧
    (paused.TakesAll ∧ paused.lag = 7 ∧ (paused.exchange #[1] 7).reply = .ok #[7] ∧
      (paused.exchange #[1] 6).reply = .error .timeout ∧ (paused.exchange #[1] 6).elapsed = 6) := by
  intro pieces short paused
  have takes : pieces.TakesAll := ⟨rfl, rfl⟩
  have takes' : short.TakesAll := ⟨rfl, rfl⟩
  have takes'' : paused.TakesAll := ⟨rfl, rfl⟩
  have ready : Ready pieces.arrivals (frames [#[], #[7, 8, 9]] ++ [5]) [] :=
    ⟨[#[0, 0, 0], #[3, 7], #[8, 9, 5]], rfl, rfl⟩
  have ready' : Ready short.arrivals (frames [#[]] ++ [0, 3, 7]) [.ended] :=
    ⟨[#[0, 0, 0], #[3, 7]], rfl, rfl⟩
  obtain ⟨hreplies, hsent, hleft⟩ := (exchanges_pieces takes).1 [(#[1], 10), (#[2, 2], 10)]
    [#[], #[7, 8, 9]] [5] [] (by decide) (by decide) rfl ready
  have hshort := (exchanges_pieces takes').2.1 [(#[1], 10), (#[2, 2], 10), (#[], 10)] [#[]]
    [0, 3, 7] [.ended] (by decide) (by decide) (by decide) ready' rfl (.inr ⟨[], rfl⟩)
  have inTime := ((exchanges_pieces takes'').2.2.2 #[1] 7 (by decide)).1 (by decide)
  have late := ((exchanges_pieces takes'').2.2.2 #[1] 6 (by decide)).2 (by decide)
  exact ⟨⟨takes, hreplies, hsent, hleft⟩, ⟨takes', hshort⟩,
    takes'', rfl, inTime.1.trans rfl, late⟩

end

end Querier.Stream
