/-!
# Stretches of code points

The character classes of this library are tables of stretches: code points `first`,
`first + stride`, … up to `last`.  A stride of two serves the blocks in which capitals and
small letters alternate.
-/

namespace OpenApiClient.Text

/-- Code points `first`, `first + stride`, … up to `last`. -/
structure Stretch where
  first : Nat
  last : Nat
  stride : Nat
  deriving Repr, DecidableEq

/-- A stretch holds what lies between its ends at a whole number of strides. -/
def Stretch.contains (s : Stretch) (c : Char) : Bool :=
  s.first ≤ c.toNat && c.toNat ≤ s.last && (c.toNat - s.first) % s.stride == 0

/-- A class of characters is the union of its stretches. -/
def inStretches (table : List Stretch) (c : Char) : Bool :=
  table.any (·.contains c)

end OpenApiClient.Text
