import Querier.Name.Basic

/-!
# Finding earlier names

A name that is written may end in a pointer to a suffix of a name written before. This
module walks the names that are already in a buffer and finds the longest suffix of a
new name among them.

The walk collects the offset of every label, the last label first. Only names of at most
34 labels, all of them below offset 16384, take part: fourteen bits of a pointer reach
no further.

## Main results

* `labelOffsets` ends on every buffer: a label brings it closer to the limit on labels,
  and a pointer leads strictly backwards.
-/

namespace Querier.Compression

/-- A pointer can target the offsets below this one. -/
def offsetLimit : Nat := 16384

/-- The most labels of a name that takes part. -/
def labelLimit : Nat := 34

/-! ## Walking a name -/

/-- The offsets of the labels of the name at `pos` before those in `found`, which come
earlier in the name: the last label first. Nothing if the name cannot be pointed into or
has more than `room` labels. -/
def offsetsOnto (found : List Nat) (b : Octets) (room pos : Nat) : Option (List Nat) :=
  match b[pos]? with
  | none => none
  | some o =>
    if o = 0 then some found
    else if o < 64 then
      if pos < offsetLimit then
        match room with
        | 0 => none
        | room + 1 => offsetsOnto (pos :: found) b room (pos + o.toNat + 1)
      else none
    else if o < 192 then none
    else
      match b[pos + 1]? with
      | none => none
      | some low =>
        let target := (o.toNat - 192) * 256 + low.toNat
        if target < pos then offsetsOnto found b room target else none
termination_by (room, pos)
decreasing_by
  · apply Prod.Lex.left
    omega
  · apply Prod.Lex.right
    assumption

/-- The offsets of the labels of the name at `pos`, the last label first. -/
def labelOffsets (b : Octets) (pos : Nat) : Option (List Nat) := offsetsOnto [] b labelLimit pos

/-! ## Comparing suffixes -/

/-- A place in the buffer to point to, and how many octets of the name it stands for, the
root included. -/
structure Suffix where
  offset : Nat
  length : Nat
  deriving DecidableEq, Repr

/-- Whether the octets `os` stand at `pos`, up to case. -/
def foldedAt (b : Octets) (pos : Nat) : List UInt8 → Bool
  | [] => true
  | o :: os =>
    match b[pos]? with
    | none => false
    | some x => Octets.lowerOctet o == Octets.lowerOctet x && foldedAt b (pos + 1) os

/-- Whether the label at `offset` is equal to `l` up to case. -/
def labelAt (b : Octets) (l : Label) (offset : Nat) : Bool :=
  b[offset]? == some (UInt8.ofNat l.octets.length) && foldedAt b (offset + 1) l.octets

/-- The longest common suffix of a name and a name in the buffer, given the labels of the
one and the offsets of the other, both from the last label on. -/
def commonSuffix (b : Octets) (length : Nat) (best : Option Suffix) :
    List Label → List Nat → Option Suffix
  | l :: labels, offset :: offsets =>
    if labelAt b l offset then
      let length := length + l.wireLength
      commonSuffix b length (some ⟨offset, length⟩) labels offsets
    else best
  | _, _ => best

/-- The better of two suffixes: the longer one, the first on a tie. -/
def better (best new : Option Suffix) : Option Suffix :=
  match best, new with
  | none, new => new
  | some best, none => some best
  | some best, some new => if best.length < new.length then some new else some best

/-- The longest suffix of the labels `reversed`, the last label first, that the names at
`starts` offer. The search is over when a name offers all `whole` octets. -/
def search (b : Octets) (reversed : List Label) (whole : Nat) (best : Option Suffix) :
    List Nat → Option Suffix
  | [] => best
  | start :: starts =>
    match labelOffsets b start with
    | none => search b reversed whole best starts
    | some offsets =>
      let new := commonSuffix b 1 none reversed offsets
      if new.any (·.length == whole) then new
      else search b reversed whole (better best new) starts

/-- The longest suffix of a name that the names at `starts` offer. -/
def find (b : Octets) (starts : List Nat) (n : Name) : Option Suffix :=
  if n.labels.length ≤ labelLimit then
    search b n.labels.reverse n.wireLength none starts
  else none

end Querier.Compression
