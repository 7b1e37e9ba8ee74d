import Commentary.Text.Alphanumeric
import Commentary.Text.Blank

/-!
# Horizontal rules

A line that only draws something: one symbol repeated, two symbols in turn, or a long run
between caps. Rules are told apart by the runs of equal characters in the line.
-/

namespace Commentary

/-- Whether a character can draw an edge or a rule. -/
def isSymbol (c : Char) : Bool := !Text.isAlphanumeric c && !Text.isSpace c

namespace Rule

/-- A character and how often it is repeated. -/
structure Run where
  char : Char
  count : Nat
  deriving DecidableEq

/-- The runs of equal characters in a text. -/
def runs : Text → List Run
  | [] => []
  | c :: t =>
    match runs t with
    | [] => [⟨c, 1⟩]
    | run :: more => if c = run.char then ⟨c, run.count + 1⟩ :: more else ⟨c, 1⟩ :: run :: more

/-- Whether the runs are single characters, `a` and `b` in turn. -/
def alternates (a b : Char) : List Run → Bool
  | [] => true
  | run :: more => run.char = a && run.count = 1 && alternates b a more

/-- Whether the runs of at least four symbols draw a rule: one long run, with a cap on either
side or not, or two symbols in turn. -/
def isDrawn : List Run → Bool
  | [] => false
  | [run] => run.count ≥ 4
  | [a, b] => a.count ≥ 4 || b.count ≥ 4
  | [_, middle, _] => middle.count ≥ 4
  | a :: b :: more => alternates a.char b.char (a :: b :: more)

/-- Whether a line, but for white space at its end, is a rule of at least four symbols. -/
def isRule (line : Text) : Bool :=
  let t := Text.trimBlankEnd line
  t.length ≥ 4 && t.all isSymbol && isDrawn (runs t)

/-- Whether a line is a rule, indented or not. -/
def isIndentedRule (line : Text) : Bool := isRule (Text.trimStart Text.isSpace line)

end Rule

end Commentary
