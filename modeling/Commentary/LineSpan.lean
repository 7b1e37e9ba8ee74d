/-!
# Line spans

The lines of a source text are counted from 1, and a span names its first and its last line.
-/

namespace Commentary

/-- The lines from `first` to `last`, both included. -/
structure LineSpan where
  first : Nat
  last : Nat
  deriving DecidableEq, Repr

namespace LineSpan

/-- The span of `count` lines from `first` on. A span of no lines still takes one. -/
def ofCount (first count : Nat) : LineSpan := ⟨first, first + (count - 1)⟩

/-- The number of lines in the span. -/
def count (s : LineSpan) : Nat := s.last + 1 - s.first

/-- A span always takes at least one line. -/
def isEmpty (_ : LineSpan) : Bool := false

/-- Whether a line lies in the span. -/
def contains (s : LineSpan) (line : Nat) : Bool := s.first ≤ line && line ≤ s.last

/-- The line at a distance from the first one. -/
def lineAt (s : LineSpan) (index : Nat) : Nat := s.first + index

theorem count_ofCount (first count : Nat) : (ofCount first count).count = max count 1 := by
  simp only [ofCount, LineSpan.count]
  omega

end LineSpan

end Commentary
