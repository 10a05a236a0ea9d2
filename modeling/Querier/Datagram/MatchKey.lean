import Querier.Address.Socket
import Querier.Address.Subnet
import Querier.Codes
import Querier.Name.Basic

/-!
# Match keys

The identity of an outstanding datagram query: the same server is asked the same
question for the same client subnet. Keys are compared with `==`, which takes names to
be equal up to ASCII case.

## Main results

* `beq_iff`: keys are equal exactly if their parts are, the names up to case.
* `beq_iff_hashFeed`: keys are equal exactly if they feed the same to a hasher.
-/

namespace Querier

/-- The identity of an outstanding query. -/
structure MatchKey where
  server : SocketAddress
  qname : Name
  qtype : RecordType
  subnet : Option Subnet

namespace MatchKey

instance : BEq MatchKey where
  beq a b := decide (a.server = b.server) && a.qname.same b.qname
    && decide (a.qtype = b.qtype) && decide (a.subnet = b.subnet)

/-- What a hasher is fed for a key. -/
structure HashFeed where
  server : SocketAddress
  qname : List UInt8
  qtype : RecordType
  subnet : Option Subnet
  deriving DecidableEq

/-- What a hasher is fed for a key. -/
def hashFeed (k : MatchKey) : HashFeed := ⟨k.server, k.qname.hashFeed, k.qtype, k.subnet⟩

theorem beq_iff {a b : MatchKey} : (a == b) = true ↔
    a.server = b.server ∧ a.qname.same b.qname = true ∧ a.qtype = b.qtype ∧
      a.subnet = b.subnet := by
  rw [show (a == b) = (decide (a.server = b.server) && a.qname.same b.qname
    && decide (a.qtype = b.qtype) && decide (a.subnet = b.subnet)) from rfl]
  simp only [Bool.and_eq_true, decide_eq_true_eq, and_assoc]

theorem beq_iff_hashFeed (a b : MatchKey) : (a == b) = true ↔ a.hashFeed = b.hashFeed := by
  have names : a.qname.same b.qname = true ↔ a.qname.hashFeed = b.qname.hashFeed := beq_iff_eq
  rw [beq_iff, names, hashFeed, hashFeed, HashFeed.mk.injEq]

instance : EquivBEq MatchKey where
  rfl := (beq_iff_hashFeed _ _).mpr rfl
  symm h := (beq_iff_hashFeed _ _).mpr ((beq_iff_hashFeed _ _).mp h).symm
  trans h h' := (beq_iff_hashFeed _ _).mpr
    (((beq_iff_hashFeed _ _).mp h).trans ((beq_iff_hashFeed _ _).mp h'))

end MatchKey

end Querier
