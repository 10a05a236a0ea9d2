import Mathlib.Data.List.Basic
import Querier.Stream

/-!
# Framing

What arrives on a stream is a run of octets; that it arrives in pieces, with pauses
between them, makes no difference to what is read from it. `Stream.incoming` forgets
pieces and pauses, and `Stream.payloads` cuts the octets into the messages in them.

An exchange that brings a response took exactly one message off the front of what was
to arrive, and that message is the response. What it sent is its query behind its
length, and no other exchange sends more than the beginning of that.

## Main results

* `incoming_receive`: reading takes octets off the front.
* `exchange_ok`: all there is to know of an exchange with a response.
* `sent_exchange`: what any exchange sends.
* `reply_exchange_eq_messageTooLarge_iff`: which queries are too large.
-/

namespace Querier.Stream

/-! ## What arrives -/

/-- The octets that will arrive. -/
def incoming : List Arrival → List UInt8
  | [] => []
  | .data os :: rest => os.toList ++ incoming rest
  | .wait _ :: rest => incoming rest
  | .failure _ :: rest => incoming rest
  | .ended :: _ => []
  | .silence :: _ => []

/-- Cuts off the first message. -/
def unframe : List UInt8 → Option (Octets × List UInt8)
  | hi :: lo :: rest =>
    let len := (Octets.uInt16 hi lo).toNat
    if len ≤ rest.length then some ((rest.take len).toArray, rest.drop len) else none
  | _ => none

theorem length_lt_of_unframe {os rest : List UInt8} {payload : Octets}
    (h : unframe os = some (payload, rest)) : rest.length < os.length := by
  unfold unframe at h
  split at h
  · simp only at h
    split at h
    · cases h
      simp only [List.length_drop, List.length_cons]
      omega
    · cases h
  · cases h

/-- The messages in octets, up to the first that is not all there. -/
def payloads (os : List UInt8) : List Octets :=
  match _h : unframe os with
  | none => []
  | some (payload, rest) => payload :: payloads rest
termination_by os.length
decreasing_by exact length_lt_of_unframe _h

theorem payloads_of_unframe {os rest : List UInt8} {payload : Octets}
    (h : unframe os = some (payload, rest)) : payloads os = payload :: payloads rest := by
  rw [payloads]
  split
  · rename_i hnone
    cases hnone.symm.trans h
  · rename_i hsome
    cases hsome.symm.trans h
    rfl

/-- A message of the announced length is cut off whole. -/
theorem unframe_append (hi lo : UInt8) (payload : Octets) (rest : List UInt8)
    (h : payload.size = (Octets.uInt16 hi lo).toNat) :
    unframe (hi :: lo :: (payload.toList ++ rest)) = some (payload, rest) := by
  have length : payload.toList.length = (Octets.uInt16 hi lo).toNat := h
  simp only [unframe, ← length, List.length_append, Nat.le_add_right, if_true,
    List.take_left, List.drop_left]

/-! ## Reading -/

/-- Reading takes as many octets off the front as it was to read. -/
theorem incoming_receive {got os : Octets} {need : Nat} {left : Duration}
    {arrivals : List Arrival} (h : (receive got need left arrivals).outcome = .full os) :
    ∃ part : Octets, part.size = need ∧ os = got ++ part ∧
      incoming arrivals = part.toList ++ incoming (receive got need left arrivals).rest := by
  fun_induction receive got need left arrivals with
  | case1 =>
    cases h
    exact ⟨#[], rfl, (Array.append_empty).symm, rfl⟩
  | case3 got need left nonzero piece rest fits ih =>
    obtain ⟨part, hsize, hos, hincoming⟩ := ih h
    refine ⟨piece ++ part, ?_, ?_, ?_⟩
    · rw [Array.size_append, hsize]
      omega
    · rw [hos, Array.append_assoc]
    · rw [incoming, hincoming, Array.toList_append, List.append_assoc]
  | case4 got need left nonzero piece rest exceeds =>
    cases h
    refine ⟨piece.extract 0 need, ?_, rfl, ?_⟩
    · rw [Array.size_extract]
      omega
    · have whole : (piece.extract 0 need).toList ++ (piece.extract need piece.size).toList =
          piece.toList := by
        rw [← Array.toList_append, Array.extract_append_extract, Nat.zero_min,
          Nat.max_eq_right (by omega), Array.extract_size]
      rw [incoming, incoming, ← List.append_assoc, whole]
  | case5 got need left nonzero d rest waits ih => exact ih h
  | _ => cases h

/-- A response that was read is the first message of what was to arrive. -/
theorem unframe_readReply {s : Stream} {timeout : Duration} {data : Octets}
    (h : (s.readReply timeout).1 = .ok data) :
    unframe (incoming s.arrivals) =
      some (data, incoming (s.readReply timeout).2.1.arrivals) := by
  unfold readReply at h ⊢
  cases hfirst : (receive #[] 2 timeout s.arrivals).outcome with
  | failed e => simp only [hfirst, reduceCtorEq] at h
  | expired => simp only [hfirst, reduceCtorEq] at h
  | full length =>
      obtain ⟨⟨octets⟩, hsize, rfl, harrivals⟩ := incoming_receive hfirst
      obtain ⟨hi, lo, rfl⟩ := List.length_eq_two.mp hsize
      simp only [hfirst] at h ⊢
      generalize hread : receive #[] _ (receive #[] 2 timeout s.arrivals).left
        (receive #[] 2 timeout s.arrivals).rest = second at h ⊢
      cases hsecond : second.outcome with
      | failed e => simp only [hsecond, reduceCtorEq] at h
      | expired => simp only [hsecond, reduceCtorEq] at h
      | full payload =>
          simp only [hsecond] at h ⊢
          cases h
          subst hread
          obtain ⟨part, hpart, hpayload, hrest⟩ := incoming_receive hsecond
          rw [Array.empty_append] at hpayload
          subst hpayload
          rw [harrivals, hrest]
          exact unframe_append hi lo data _ hpart

/-! ## Exchanging -/

variable {s : Stream} {message : Octets} {timeout : Duration}

/-- What is sent first of a query is the beginning of it. -/
theorem extract_frame (message : Octets) (taken : Nat) :
    ((frame message).extract 0 taken).toList <+: (frame message).toList := by
  rw [Array.toList_extract, List.extract_eq_take_drop, List.drop_zero]
  exact List.take_prefix ..

/-- An exchange sends its query behind its length, or less. -/
theorem sent_exchange (s : Stream) (message : Octets) (timeout : Duration) :
    (s.exchange message timeout).sent.toList <+: (frame message).toList ∧
      ((s.exchange message timeout).sent.toList ≠ [] → message.size ≤ 65535) := by
  unfold exchange
  split
  · exact ⟨List.nil_prefix, fun h => absurd rfl h⟩
  · rename_i fits
    refine ⟨?_, fun _ => Nat.le_of_not_lt fits⟩
    simp only
    split
    · split <;> exact extract_frame message _
    · split <;> exact extract_frame message _

/-- An exchange that brings a response sent its query and read the first message of what was
to arrive. -/
theorem exchange_ok {data : Octets} (h : (s.exchange message timeout).reply = .ok data) :
    message.size ≤ 65535 ∧ (s.exchange message timeout).sent = frame message ∧
      unframe (incoming s.arrivals) =
        some (data, incoming (s.exchange message timeout).stream.arrivals) := by
  unfold exchange at h ⊢
  split at h
  · cases h
  · rename_i fits
    rw [if_neg fits]
    simp only at h ⊢
    split at h
    · split at h <;> cases h
    · rename_i all
      rw [if_neg all]
      split at h
      · cases h
      · rename_i hflush
        simp only [hflush] at h ⊢
        refine ⟨Nat.le_of_not_lt fits, ?_, unframe_readReply h⟩
        rw [Array.extract_eq_self_of_le (Nat.le_of_not_lt all)]

/-! ## Queries that are too large -/

/-- A read never fails because of the size of the query. -/
theorem ne_messageTooLarge_of_failed {got : Octets} {need : Nat} {left : Duration}
    {arrivals : List Arrival} {e : TransportError}
    (h : (receive got need left arrivals).outcome = .failed e) : e ≠ .messageTooLarge := by
  fun_induction receive got need left arrivals with
  | case2 =>
    cases h
    exact TransportError.noConfusion
  | case3 got need left nonzero piece rest fits ih => exact ih h
  | case5 got need left nonzero d rest waits ih => exact ih h
  | case7 got need left nonzero failure rest =>
    cases h
    unfold readError
    split <;> exact TransportError.noConfusion
  | case8 =>
    cases h
    exact TransportError.noConfusion
  | _ => cases h

theorem readReply_ne_messageTooLarge (s : Stream) (timeout : Duration) :
    (s.readReply timeout).1 ≠ .error .messageTooLarge := by
  intro h
  unfold readReply at h
  simp only at h
  split at h
  · rename_i e hfailed
    cases h
    exact ne_messageTooLarge_of_failed hfailed rfl
  · cases h
  · split at h
    · rename_i e hfailed
      cases h
      exact ne_messageTooLarge_of_failed hfailed rfl
    · cases h
    · cases h

/-- A query is too large exactly if its length does not fit into sixteen bits. -/
theorem reply_exchange_eq_messageTooLarge_iff (s : Stream) (message : Octets)
    (timeout : Duration) : (s.exchange message timeout).reply = .error .messageTooLarge ↔
      65535 < message.size := by
  constructor
  · intro h
    by_contra fits
    unfold exchange at h
    rw [if_neg fits] at h
    simp only at h
    split at h
    · split at h <;> cases h
    · split at h
      · cases h
      · exact readReply_ne_messageTooLarge _ timeout h
  · intro large
    rw [exchange, if_pos large]

end Querier.Stream
