/-!
# Text

Text is a list of characters. The operations here are the ones that every later stage
shares: trimming at either end, splitting, joining, and cutting off a known start or end.
All of them recurse on the characters, so they evaluate in proofs as well as in a program.
-/

namespace Commentary

/-- A piece of source or documentation text, character by character. -/
abbrev Text := List Char

namespace Text

/-- The line feed, which ends a line and never stands inside one. -/
abbrev lineFeed : Char := '\n'

/-- The number of bytes that a text takes in UTF-8. -/
def bytes : Text → Nat
  | [] => 0
  | c :: t => c.utf8Size + bytes t

/-- A run of `n` spaces. -/
def spaces (n : Nat) : Text := List.replicate n ' '

/-! ## Trimming -/

/-- The text from its first character outside `p` on. -/
abbrev trimStart (p : Char → Bool) (t : Text) : Text := t.dropWhile p

/-- The text up to its last character outside `p`. -/
def trimEnd (p : Char → Bool) : Text → Text
  | [] => []
  | c :: rest =>
    match trimEnd p rest with
    | [] => if p c then [] else [c]
    | kept => c :: kept

/-- The text without the characters of `p` at either end. -/
def trim (p : Char → Bool) (t : Text) : Text := trimEnd p (trimStart p t)

/-- Spaces alone, which is all that indents a line once its tabs are expanded. -/
def isSpace (c : Char) : Bool := c == ' '

/-- The characters that indent a source line. -/
def isSpaceOrTab (c : Char) : Bool := c == ' ' || c == '\t'

/-- The number of spaces before the first other character. -/
def indent (t : Text) : Nat := (t.takeWhile isSpace).length

/-! ## Cutting a known part off -/

/-- The rest of a text that starts with `mark`. -/
def afterStart? : Text → Text → Option Text
  | [], t => some t
  | _ :: _, [] => none
  | m :: mark, c :: t => if m = c then afterStart? mark t else none

/-- The rest of a text that ends with `mark`. -/
def beforeEnd? (mark t : Text) : Option Text :=
  if mark.isSuffixOf t then some (t.take (t.length - mark.length)) else none

/-- The parts of a text before and after the first occurrence of `mark`. -/
def cutAt? (mark : Text) : Text → Option (Text × Text)
  | [] => if mark = [] then some ([], []) else none
  | c :: t =>
    match afterStart? mark (c :: t) with
    | some rest => some ([], rest)
    | none => (cutAt? mark t).map fun (before, after) => (c :: before, after)

/-- Whether `part` occurs in a text. -/
def includes (part t : Text) : Bool := (cutAt? part t).isSome

/-- The parts of a text before and after the last character of `p`. -/
def cutAtLast? (p : Char → Bool) : Text → Option (Text × Text)
  | [] => none
  | c :: t =>
    match cutAtLast? p t with
    | some (before, after) => some (c :: before, after)
    | none => if p c then some ([], t) else none

/-! ## Splitting and joining -/

/-- The parts of a text between the characters of `p`, the empty ones included. -/
def splitAll (p : Char → Bool) : Text → List Text
  | [] => [[]]
  | c :: t =>
    match splitAll p t with
    | [] => [[c]]
    | part :: parts => if p c then [] :: part :: parts else (c :: part) :: parts

/-- The texts one after the other, with `separator` between neighbours. -/
def join (separator : Text) : List Text → Text
  | [] => []
  | [t] => t
  | t :: ts => t ++ separator ++ join separator ts

/-- The lines of a source text, each with the line feed that ends it. -/
def linesWithEnds : Text → List Text
  | [] => []
  | c :: t =>
    if c = lineFeed then [c] :: linesWithEnds t
    else
      match linesWithEnds t with
      | [] => [[c]]
      | line :: lines => (c :: line) :: lines

end Text

end Commentary
