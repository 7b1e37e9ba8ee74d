/-!
# Sets of code points

The properties of characters that this library needs beyond ASCII are tables of the Unicode
standard. A table is a list of inclusive ranges in increasing order.
-/

namespace Commentary

/-- A set of code points, written as inclusive ranges in increasing order. -/
abbrev CodeRanges := List (Nat × Nat)

/-- Whether a character lies in one of the ranges. -/
def CodeRanges.contains (ranges : CodeRanges) (c : Char) : Bool :=
  ranges.any fun range => range.1 ≤ c.toNat && c.toNat ≤ range.2

end Commentary
