import Commentary.Markup.Entity
import Commentary.Text.Blank

/-!
# Queries

What later stages want to know of a body that is written as markup: its first sentence, the
symbols that it links to, and the symbols that its lists describe.
-/

namespace Commentary.Markup

/-- Everything that `at?` finds in a text, from left to right and without overlap. It gives what
it finds at the start of a text and the rest behind it. `skip` counts the characters to come
that belong to something found. -/
def findAll {α : Type} (at? : Text → Option (α × Text)) (skip : Nat) : Text → List α
  | [] => []
  | c :: t =>
    match skip with
    | skip + 1 => findAll at? skip t
    | 0 =>
      match at? (c :: t) with
      | some (a, rest) => a :: findAll at? (t.length - rest.length) t
      | none => findAll at? 0 t

/-! ## Sentences -/

/-- The end of a sentence at the start of a text: a mark, and a space or a character that closes
something. -/
def sentenceEnd? : Text → Option Text
  | c :: t =>
    if c = '.' ∨ c = '!' ∨ c = '?' then
      match t with
      | [] => none
      | d :: _ =>
        if d = ')' ∨ d = '\x7d' ∨ d = '\'' ∨ d = ' ' then some [c, d]
        else if (Text.afterStart? "&quot;".toList t).isSome then some (c :: "&quot;".toList)
        else if (Text.afterStart? "&gt;".toList t).isSome then some (c :: "&gt;".toList)
        else none
    else none
  | [] => none

/-- A summary: white space at its end is cut, and nothing is left of a blank one. -/
def summaryOf (t : Text) : Option Text :=
  let t := Text.trimBlankEnd t
  if t = [] then none else some t

/-- The first sentence of a paragraph behind its tag, or all of it. There is none if the line or
the text ends first. -/
def paragraphSentence? : Text → Option Text
  | [] => none
  | c :: t =>
    if (Text.afterStart? "</p>".toList (c :: t)).isSome then some []
    else
      match sentenceEnd? (c :: t) with
      | some ending => some ending
      | none => if c = Text.lineFeed then none else (paragraphSentence? t).map (c :: ·)

/-- The first sentence of a text, or all of it. There is none if the line ends first. -/
def firstSentence? : Text → Option Text
  | [] => some []
  | c :: t =>
    match sentenceEnd? (c :: t) with
    | some ending => some ending
    | none => if c = Text.lineFeed then none else (firstSentence? t).map (c :: ·)

/-- The rest of a body that starts with a heading without tags in it. -/
def afterHeading? (body : Text) : Option Text :=
  (Text.afterStart? "<h>".toList body).bind fun t =>
    Text.afterStart? "</h>".toList (t.dropWhile (· ≠ '<'))

/-- The first sentence of the paragraph that a body starts with. One heading may stand before
it. -/
def summary? (body : Text) : Option Text :=
  let start := (afterHeading? body).getD body
  ((Text.afterStart? "<p>".toList start).bind paragraphSentence?).bind summaryOf

/-! ## Links and entries -/

/-- The value of an attribute at the start of a text, and the rest. -/
def attributeValue? (name : String) (t : Text) : Option (Text × Text) :=
  (Text.afterStart? (' ' :: name.toList ++ "=\"".toList) t).bind fun t =>
    match t.dropWhile (· ≠ '"') with
    | '"' :: rest => some (t.takeWhile (· ≠ '"'), rest)
    | _ => none

/-- The target of the link to a symbol at the start of a text, and the rest. -/
def linkAt? (t : Text) : Option (Text × Text) := do
  let t ← Text.afterStart? "<link".toList t
  let (target, t) ← attributeValue? "target" t
  let (_, t) ← attributeValue? "name" t
  let (_, t) ← attributeValue? "original" t
  let rest ← Text.afterStart? ['>'] t
  return (unescape target, rest)

/-- The symbols that a body links to, as they are named there. -/
def linkTargets (body : Text) : List Text := findAll linkAt? 0 body

/-- A symbol that a list describes. -/
structure SymbolEntry where
  name : Text
  /-- The first sentence of its description. -/
  summary : Option Text
  deriving DecidableEq

/-- The entry for a symbol at the start of a text, and the rest. -/
def symbolEntryAt? (t : Text) : Option (SymbolEntry × Text) := do
  let t ← Text.afterStart? "<ds>".toList t
  let rest ← Text.afterStart? "</ds><dd>".toList (t.dropWhile (· ≠ '<'))
  let (description, rest) ← Text.cutAt? "</dd>".toList rest
  return (⟨unescape (t.takeWhile (· ≠ '<')), (firstSentence? description).bind summaryOf⟩, rest)

/-- The symbols that the lists of a body describe. -/
def symbolEntries (body : Text) : List SymbolEntry := findAll symbolEntryAt? 0 body

end Commentary.Markup
