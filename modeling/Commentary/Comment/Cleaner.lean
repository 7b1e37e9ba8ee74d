import Commentary.Comment.Frame
import Commentary.Comment.Verbatim
import Commentary.Settings

/-!
# Cleaning

A cleaner takes the frame and the rules off a comment and expands its tabs. It leaves one line
for every line, so that line numbers stay known. Compaction then drops the blank lines that say
nothing, and names the lines that it keeps.
-/

namespace Commentary

/-- A line with every tab replaced by the spaces up to the next tab stop, where the line starts
at `column`. -/
def expandTabsFrom (width column : Nat) : Text → Text
  | [] => []
  | c :: t =>
    if c = '\t' then
      let n := width - column % width
      Text.spaces n ++ expandTabsFrom width (column + n) t
    else c :: expandTabsFrom width (column + 1) t

/-- A line with every tab replaced by the spaces up to the next tab stop. -/
def expandTabs (width : Nat) (line : Text) : Text := expandTabsFrom width 0 line

/-- How to clean a comment. -/
structure Cleaner where
  tabWidth : Nat
  /-- The last character of the opener that stood before the first line, if it is a symbol. -/
  openerEdge : Option Char := none
  tabWidth_pos : 0 < tabWidth

namespace Cleaner

/-- The cleaner that the settings ask for. -/
def ofSettings (s : Settings) : Cleaner :=
  { tabWidth := s.tabWidth, tabWidth_pos := s.tabWidth_pos }

/-- A cleaner for a comment whose first line stood behind `opener`. -/
def afterOpener (cleaner : Cleaner) (opener : Text) : Cleaner :=
  { cleaner with openerEdge := opener.getLast?.filter isSymbol }

/-- A line without the white space at its end and with its tabs expanded. -/
def prepare (cleaner : Cleaner) (line : Text) : Text :=
  expandTabs cleaner.tabWidth (Text.trimBlankEnd line)

/-- Takes a frame off one line. A rule outside of verbatim sections becomes blank, also one that
shows only when the frame is gone; inside of them it stays as it is. -/
def cleanLine (frame : Frame) (inSection : Bool) (line : Text) : Text :=
  if Rule.isIndentedRule line then if inSection then line else []
  else
    let stripped := frame.strip line
    if frame.isDrawn && Rule.isIndentedRule stripped && !inSection then [] else stripped

/-- Takes a frame off the lines one after the other and follows their verbatim sections. -/
def cleanFrom (frame : Frame) (inSection : Bool) : List Text → List Text
  | [] => []
  | line :: lines =>
    let cleaned := cleanLine frame inSection line
    cleaned :: cleanFrom frame (Verbatim.step inSection cleaned) lines

/-- The lines of a comment without frame, rules and tabs, one for every line. -/
def clean (cleaner : Cleaner) (lines : List Text) : List Text :=
  let lines := lines.map cleaner.prepare
  cleanFrom (Frame.ofLines cleaner.openerEdge lines) false lines

/-- Drops blank lines that follow a blank line or start the comment, unless they lie in a
verbatim section. -/
def compactFrom (inSection afterBlank : Bool) : List (Nat × Text) → List (Nat × Text)
  | [] => []
  | (index, line) :: lines =>
    if line = [] ∧ !inSection ∧ afterBlank then compactFrom inSection afterBlank lines
    else (index, line) :: compactFrom (Verbatim.step inSection line) (line = []) lines

/-- The lines up to the last one that is not blank. -/
def dropBlankEnd : List (Nat × Text) → List (Nat × Text)
  | [] => []
  | (index, line) :: lines =>
    match dropBlankEnd lines with
    | [] => if line = [] then [] else [(index, line)]
    | kept => (index, line) :: kept

/-- The cleaned lines that are worth keeping, each with its place in the comment. -/
def cleanCompact (cleaner : Cleaner) (lines : List Text) : List (Nat × Text) :=
  dropBlankEnd (compactFrom false true ((cleaner.clean lines).zipIdx.map fun (t, i) => (i, t)))

end Cleaner

end Commentary
