import Querier.Edns.Option

/-!
# Padding

Queries over encrypted transports are filled up to a multiple of a block, so that their
size tells an onlooker little.
-/

namespace Querier.Padding

/-- The size that padded messages are a multiple of. -/
def block : Nat := 128

/-- How many octets of padding a message of `current` octets needs so that with the four
octets of the option itself it fills whole blocks, or as many as `limit` leaves room
for. There is no padding where not even an empty option fits below `limit`. -/
def length? (current limit : Nat) : Option Nat :=
  let size := current + 4
  if limit ≤ size then none
  else if size % block = 0 then some 0
  else some (min (block - size % block) (limit - size))

/-- A padding option of `len` zero octets. -/
def option (len : Nat) : EdnsOption := ⟨.padding, Array.replicate len 0⟩

end Querier.Padding
