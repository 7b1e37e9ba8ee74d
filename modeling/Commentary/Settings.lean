/-!
# Settings

What a project may choose about the reading of its sources. A tab stop is at least one column
wide, and the settings carry the proof.
-/

namespace Commentary

/-- The choices of a project. -/
structure Settings where
  /-- The distance between tab stops in a comment. -/
  tabWidth : Nat := 4
  /-- Topics found in code are kept only where a comment documents them. -/
  documentedOnly : Bool := false
  /-- A cleaned comment keeps one line for every line of the source. -/
  preserveLineNumbers : Bool := true
  /-- Several files may be read at once. The result does not depend on it. -/
  parallel : Bool := true
  tabWidth_pos : 0 < tabWidth := by decide

namespace Settings

/-- Sets the distance between tab stops, which is at least one. -/
def withTabWidth (s : Settings) (width : Nat) : Settings :=
  { s with tabWidth := max width 1, tabWidth_pos := by omega }

end Settings

end Commentary
