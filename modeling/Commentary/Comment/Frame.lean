import Commentary.Comment.Rule

/-!
# The frame of a comment

A comment may be drawn as a box, with one symbol down its left edge, its right edge or both. An
edge counts only if every line with content has it and no blank line comes between them, so it
is known after the last line. `Frame.ofLines` reads the lines once and says which edges stand.
-/

namespace Commentary

/-- What the lines so far say about one edge. -/
inductive Edge where
  /-- No line with content has been seen. -/
  | unseen
  /-- Every line with content has this symbol at the edge. -/
  | uniform (symbol : Char)
  /-- The same, but a blank line followed, and no content may come after it. -/
  | uniformThenBlank (symbol : Char)
  /-- There is no such edge. -/
  | broken
  deriving DecidableEq

namespace Edge

/-- A blank line is allowed behind the last line with content only. -/
def afterBlank : Edge → Edge
  | uniform c => uniformThenBlank c
  | e => e

/-- Content behind a blank line breaks an edge. -/
def beforeContent : Edge → Edge
  | uniformThenBlank _ => broken
  | e => e

/-- A line with content either has the symbol of the edge or breaks it. -/
def observe : Edge → Option Char → Edge
  | unseen, some c => uniform c
  | uniform expected, some c => if expected = c then uniform c else broken
  | _, _ => broken

/-- The symbol of an edge that stands after the last line. -/
def symbol? : Edge → Option Char
  | uniform c | uniformThenBlank c => some c
  | _ => none

/-- The symbol at the start of a line: a run of it, and then a space or the end. -/
def leftSymbol? : Text → Option Char
  | [] => none
  | c :: t =>
    let rest := t.dropWhile (· = c)
    if isSymbol c && (rest = [] || rest.head? = some ' ') then some c else none

/-- The symbol at the end of a line: a run of it behind a space. -/
def rightSymbol? (t : Text) : Option Char :=
  match t.getLast? with
  | none => none
  | some c =>
    if isSymbol c && (Text.trimEnd (· = c) t).getLast? = some ' ' then some c else none

/-- The line without the run of a symbol at its left and the spaces before it, if it starts
with a symbol. -/
def dropLeft (line : Text) : Text :=
  match Text.trimStart Text.isSpace line with
  | [] => line
  | c :: t => if isSymbol c then t.dropWhile (· = c) else line

/-- The line without the run of a symbol at its right and the spaces before it, if it ends with
a symbol. -/
def dropRight (line : Text) : Text :=
  match line.getLast? with
  | none => line
  | some c =>
    if isSymbol c then Text.trimEnd Text.isSpace (Text.trimEnd (· = c) line) else line

end Edge

/-- The symbols down both sides of a comment. -/
structure Frame where
  left : Option Char
  right : Option Char
  deriving DecidableEq

namespace Frame

/-- What the lines so far say about both edges. -/
structure Survey where
  left : Edge := .unseen
  right : Edge := .unseen
  /-- The first line has content without a symbol at its left, where the opener stood. -/
  firstUnmarked : Bool := false
  deriving DecidableEq

/-- Takes one line, without its indentation, into account. Rules say nothing about edges. The
line right behind an opener may lack the symbol at its left. -/
def Survey.add (s : Survey) (behindOpener : Bool) (line : Text) : Survey :=
  let t := Text.trimStart Text.isSpace line
  if t = [] then { s with left := s.left.afterBlank, right := s.right.afterBlank }
  else if Rule.isRule t then s
  else
    let left := s.left.beforeContent
    let right := s.right.beforeContent.observe (Edge.rightSymbol? t)
    if left ≠ .broken ∧ behindOpener ∧ Edge.leftSymbol? t = none then
      { left, right, firstUnmarked := true }
    else { s with left := left.observe (Edge.leftSymbol? t), right }

/-- The frame of the lines surveyed. A first line without the symbol is in line with an edge of
the opener's own symbol only. -/
def Survey.frame (s : Survey) (openerEdge : Option Char) : Frame where
  left := if s.firstUnmarked ∧ s.left.symbol? ≠ openerEdge then none else s.left.symbol?
  right := s.right.symbol?

/-- The frame of a comment whose first line stands behind an opener with the given last symbol,
if it has one. -/
def ofLines (openerEdge : Option Char) : List Text → Frame
  | [] => ⟨none, none⟩
  | line :: lines =>
    let first := Survey.add {} openerEdge.isSome line
    (lines.foldl (·.add false ·) first).frame openerEdge

/-- Whether any edge stands. -/
def isDrawn (f : Frame) : Bool := f.left.isSome || f.right.isSome

/-- Takes the edges that stand off a line. -/
def strip (f : Frame) (line : Text) : Text :=
  let line := if f.left.isSome then Edge.dropLeft line else line
  if f.right.isSome then Edge.dropRight line else line

end Frame

end Commentary
