import Querier.Proofs.Dispatch.QuerySize

/-!
# The octets of a query

What a server makes of a query is said elsewhere. Two queries can also be compared without
one: a query is the octets of its header, then its question as it stands in the request, and
with EDNS one OPT record behind that. Nothing else of the request goes into it.

## Main results

* `Header.edit_octets`: an edit of a header that stands before other octets.
* `Config.toList_buildQuery`: the octets of a query.
-/

namespace Querier

theorem Header.edit_octets (f : Header → Header) (h : Header) (os : List UInt8) :
    edit f (h.octets.toArray ++ os) = (f h.narrowed).octets.toArray ++ os := by
  have hlong : length ≤ h.octets.toArray.size := Nat.le_refl 12
  have halone : edit f h.octets.toArray = (f h.narrowed).octets.toArray := by
    rw [edit_eq f hlong, read_octets]
    exact Array.append_empty
  rw [edit_append f hlong, halone]

namespace Writer

/-- With an OPT record a message that has a known header is longer by its octets, and its header
counts one more. -/
theorem content_addOpt_of_header {w : Writer} {h : Header} {os : List UInt8}
    (hclosed : w.current = none) (hcontent : w.content = h.octets.toArray ++ os)
    (payloadSize flags : UInt16) (options : List EdnsOption) (version : UInt8) :
    (w.addOpt payloadSize 0 flags options version).content =
      ((h.narrowed.setCount .additional (h.narrowed.count .additional + 1)).octets.toArray) ++
        (os ++ optOctets payloadSize (Opt.ttlField 0 version flags) options) := by
  have hbounded : w.Bounded := forall_mem_of_none hclosed
  have hlong : Header.length ≤ w.content.size := by
    rw [hcontent, Octets.size_append]
    exact Nat.le_add_right 12 os.length
  rw [hbounded.content_addOpt hlong, commit_of_none hclosed, withCode, if_pos rfl, hcontent,
    Header.edit_octets, append_assoc]
  rfl

end Writer

/-! ## Queries -/

namespace Config

variable (c : Config) (r : Request) (id : UInt16) (tls : Bool)

theorem content_bareQuery : (c.bareQuery r id).content =
    { c.queryHeader r id with additionals := 0 }.octets.toArray ++
      Writer.questionOctets (.internet r.qname r.qtype) := by
  rcases Writer.new_eq r.qname r.qtype .internet .query with ⟨names, hnew, -⟩
  rw [bareQuery, hnew, Writer.editHeader]
  simp only
  rw [Header.edit_octets]
  rfl

/-- The octets of the OPT record of a query, if it has one. -/
def ednsOctets (c : Config) (r : Request) (id : UInt16) (tls : Bool) : List UInt8 :=
  if r.hasEdns then
    Writer.optOctets c.bufferSize (Opt.ttlField 0 0 (if c.wantsDnssec then Opt.dnssecOk else 0))
      (c.queryOptions r id tls)
  else []

/-- A query is its header, the question and with EDNS the OPT record. -/
theorem toList_buildQuery : (c.buildQuery r id tls).toList =
    (c.queryHeader r id).octets ++ Writer.questionOctets (.internet r.qname r.qtype) ++
      c.ednsOctets r id tls := by
  have hclosed := (built_bareQuery c r id).closed
  have hcontent := content_bareQuery c r id
  by_cases edns : r.hasEdns = true
  · rw [buildQuery, if_pos edns, ednsOctets, if_pos edns]
    show (Writer.finish (Writer.addOpt _ _ _ _ (c.queryOptions r id tls) _)).toList = _
    rw [Writer.finish, Writer.commit_of_none (by rw [Writer.addOpt_eq, Writer.current_commit]),
      Writer.content_addOpt_of_header hclosed hcontent, Array.toList_appendList, ← List.append_assoc]
    have hheader : c.queryHeader r id = { c.queryHeader r id with additionals := 1 } := by
      rw [queryHeader, if_pos edns]
    rw [hheader]
    rfl
  · rw [buildQuery, if_neg edns, ednsOctets, if_neg edns, Writer.finish,
      Writer.commit_of_none hclosed, hcontent, Array.toList_appendList, List.append_nil]
    have hheader : c.queryHeader r id = { c.queryHeader r id with additionals := 0 } := by
      rw [queryHeader, if_neg edns]
    rw [hheader]

end Config

end Querier
