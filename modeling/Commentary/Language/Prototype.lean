import Commentary.Language.Basic
import Commentary.Text.Blank

/-!
# Prototypes

A prototype is the code behind a comment, up to the first ender outside of round and square
brackets. It may take several lines; a line break can be an ender, unless the line is continued.
-/

namespace Commentary.Prototype

/-- The depth of brackets behind a character. More closing brackets than opening ones count for
nothing. -/
def depthAfter (depth : Nat) (c : Char) : Nat :=
  if c = '(' ∨ c = '[' then depth + 1
  else if c = ')' ∨ c = ']' then depth - 1
  else depth

/-- Whether one of the symbols stands at the start of a text. -/
def startsWithAny (symbols : List Text) (t : Text) : Bool :=
  symbols.any fun symbol => (Text.afterStart? symbol t).isSome

/-- The text before the first of the symbols outside of brackets, if one is there. -/
def beforeEnder? (symbols : List Text) (depth : Nat) : Text → Option Text
  | [] => none
  | c :: t =>
    if depth = 0 ∧ startsWithAny symbols (c :: t) then some []
    else (beforeEnder? symbols (depthAfter depth c) t).map (c :: ·)

/-- A line without white space at its end and without the mark that continues it, and whether
that mark was there. -/
def splitExtender (extender : Option Text) (line : Text) : Text × Bool :=
  let line := Text.trimBlankEnd line
  match extender.bind fun mark => if mark = [] then none else Text.beforeEnd? mark line with
  | some rest => (rest, true)
  | none => (line, false)

/-- What can end a prototype. -/
structure Ending where
  symbols : List Text
  lineBreak : Bool
  extender : Option Text

namespace Ending

/-- The ending that a language gives. An empty symbol ends nothing. -/
def ofEnders (enders : List PrototypeEnder) (extender : Option Text) : Ending where
  symbols := enders.filterMap fun
    | .symbol mark => if mark = [] then none else some mark
    | .lineBreak => none
  lineBreak := enders.contains .lineBreak
  extender := extender

end Ending

/-- The code of a prototype whose first part is `taken`, at a depth of brackets. Blank lines are
passed over; behind the first part they end it where a line break does. -/
def collect (ending : Ending) (taken : Text) (depth : Nat) : List Text → Text
  | [] => taken
  | line :: lines =>
    let (t, isContinued) := splitExtender ending.extender line
    if Text.isAllBlank t ∧ !isContinued then
      if taken ≠ [] ∧ ending.lineBreak ∧ depth = 0 then taken
      else collect ending taken depth lines
    else
      match beforeEnder? ending.symbols depth t with
      | some before => taken ++ before
      | none =>
        let depth := t.foldl depthAfter depth
        if isContinued then collect ending (taken ++ t ++ [' ']) depth lines
        else if ending.lineBreak ∧ depth = 0 then taken ++ t
        else collect ending (taken ++ t ++ [Text.lineFeed]) depth lines

/-- The prototype at the start of some lines of code, without white space at its ends. -/
def capture (enders : List PrototypeEnder) (extender : Option Text) (lines : List Text) :
    Option Text :=
  let t := Text.trimBlank (collect (.ofEnders enders extender) [] 0 lines)
  if t = [] then none else some t

/-- A prototype on one line, with one space between words. -/
def normalize (prototype : Text) : Text := Text.squeeze prototype

end Commentary.Prototype
