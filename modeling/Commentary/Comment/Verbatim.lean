import Commentary.Text.LetterCase

/-!
# Verbatim sections

A line such as `(start code)` opens a section whose lines are taken as they are, and a line such
as `(end)` closes it. Everything that reads comments follows the same lines, so `Verbatim.step`
says once how a line moves in and out of a section.
-/

namespace Commentary.Verbatim

/-- The words that name what a section holds. -/
def contents : List Text :=
  ["table".toList, "code".toList, "example".toList, "diagram".toList]

/-- The words that may stand before the name at the start of a section. -/
def startWords : List Text := ["start".toList, "begin".toList]

/-- The words that close a section. -/
def endWords : List Text := ["end".toList, "finish".toList, "done".toList]

/-- The rest of a text that starts with one of the words, in any case. -/
def afterAny? (words : List Text) (t : Text) : Option Text :=
  words.findSome? fun word => Text.afterWord? word t

/-- The text behind the parenthesis that opens a line. -/
def inside? (line : Text) : Option Text :=
  match Text.trimStart Text.isSpace line with
  | '(' :: t => some (Text.trimStart Text.isSpace t)
  | _ => none

/-- Whether only the closing parenthesis is left. -/
def closes (t : Text) : Bool := Text.trimStart Text.isSpace t = [')']

/-- Whether the text goes on with the name of a section and ends there. -/
def closesAfterContents (t : Text) : Bool := ((afterAny? contents t).map closes).getD false

/-- Whether a line opens a section: `(code)`, `(start example)`, `( begin table )`. -/
def isStart (line : Text) : Bool :=
  match inside? line with
  | none => false
  | some t =>
    match afterAny? startWords t with
    | some (' ' :: rest) => closesAfterContents (Text.trimStart Text.isSpace rest)
    | _ => closesAfterContents t

/-- Whether a line closes a section: `(end)`, `(finish code)`, `( done )`. -/
def isEnd (line : Text) : Bool :=
  match (inside? line).bind (afterAny? endWords) with
  | none => false
  | some t =>
    closes t ||
      (t.head? = some ' ' && closesAfterContents (Text.trimStart Text.isSpace t))

/-- Whether the line after this one lies in a section, from whether this one does. -/
def step (inSection : Bool) (line : Text) : Bool :=
  if inSection then !isEnd line else isStart line

end Commentary.Verbatim
