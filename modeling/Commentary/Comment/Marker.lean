import Commentary.Language.Basic
import Commentary.Text.Blank

/-!
# Comment markers

Which comment a source line starts. Only a marker that stands first on its line counts, behind
spaces and tabs. Of several markers the longest one does, and an opener counts before a line
marker of the same length.
-/

namespace Commentary.Language

/-- A line of code that starts with a marker: its indentation, the marker, and the rest. -/
structure Marked where
  indent : Text
  marker : Text
  rest : Text
  deriving DecidableEq

namespace Marked

/-- The number of characters that the marker takes. -/
def length (m : Marked) : Nat := m.marker.length

/-- The start of the line, up to the end of the marker, with a space for every byte of it. -/
def margin (m : Marked) : Text := m.indent ++ Text.spaces (Text.bytes m.marker)

end Marked

/-- The line as one that starts with `marker`. An empty marker marks nothing. -/
def marked? (marker line : Text) : Option Marked :=
  let indent := line.takeWhile Text.isSpaceOrTab
  let rest := line.dropWhile Text.isSpaceOrTab
  if marker = [] then none else (Text.afterStart? marker rest).map (⟨indent, marker, ·⟩)

/-- The longest of some markings, and the last of several that are as long. -/
def longest? {α : Type} (length : α → Nat) : List α → Option α
  | [] => none
  | a :: more =>
    match longest? length more with
    | some b => if length a ≤ length b then some b else some a
    | none => some a

/-- The line comment that a line starts, by itself. -/
def lineMarker? (l : Language) (line : Text) : Option Marked :=
  longest? Marked.length (l.lineMarkers.filterMap (marked? · line))

/-- The block comment that a line starts, by itself, with the marker that closes it. -/
def blockMarker? (l : Language) (line : Text) : Option (Marked × Text) :=
  longest? (·.1.length)
    (l.blockMarkers.filterMap fun m => (marked? m.opener line).map (·, m.closer))

/-- How a line starts a comment. -/
inductive Start where
  | none
  | line (marked : Marked)
  | block (marked : Marked) (closer : Text)

/-- The comment that a line starts, if any. -/
def start (l : Language) (line : Text) : Start :=
  match l.blockMarker? line, l.lineMarker? line with
  | some (opener, closer), some marker =>
    if marker.length ≤ opener.length then .block opener closer else .line marker
  | some (opener, closer), none => .block opener closer
  | none, some marker => .line marker
  | none, none => .none

/-- The line with spaces for its marker, where it starts or continues a run of line comments. -/
def lineComment? (l : Language) (line : Text) : Option Text :=
  match l.start line with
  | .line marked => some (Text.trimBlankEnd (marked.margin ++ marked.rest))
  | _ => none

end Commentary.Language
