import Commentary.Comment.Verbatim
import Commentary.Markup.Inline
import Commentary.Text.Blank
import Commentary.Topic.Kind

/-!
# Blocks

The body of a topic is a sequence of paragraphs, headings, lists and code. Its lines are read
one after the other by `Reader.step`, which knows the block that is open and gives the blocks
that a line ends.
-/

namespace Commentary.Markup

/-! ## Blocks and how they are written -/

/-- A line of a description list: a term and what is said about it. -/
structure Entry where
  /-- The term is a symbol of its own and not just text. -/
  isSymbol : Bool
  term : Text
  description : Text
  deriving DecidableEq

/-- A part of the body of a topic. Its text is kept as it was read. -/
inductive Block where
  | paragraph (t : Text)
  | heading (t : Text)
  | bullets (items : List Text)
  | entries (items : List Entry)
  | code (lines : List Text)
  deriving DecidableEq

/-- A text between tags. -/
def element (tag : String) (t : Text) : Text :=
  '<' :: tag.toList ++ '>' :: t ++ '<' :: '/' :: tag.toList ++ ['>']

/-- A term and its description as they are written. -/
def Entry.render (e : Entry) : Text :=
  element (if e.isSymbol then "ds" else "de") (escape e.term) ++
    element "dd" (Inline.format e.description)

/-- A block as it is written. -/
def Block.render : Block → Text
  | paragraph t => element "p" (Inline.format t)
  | heading t => element "h" (Inline.format t)
  | bullets items => element "ul" (items.flatMap fun t => element "li" (Inline.format t))
  | entries items => element "dl" (items.flatMap Entry.render)
  | code lines =>
    "<code".toList ++ tagAttribute "type" "anonymous".toList ++ '>' ::
      escape (Text.join [Text.lineFeed] lines) ++ "</code>".toList

/-! ## Code -/

/-- The spaces that all lines with content start with. -/
def commonIndent (lines : List Text) : Nat :=
  (((lines.filter fun t => !Text.isAllBlank t).map Text.indent).min?).getD 0

/-- Lines of code without their common indentation, without blank lines at either end, and
without white space at the end of a line. -/
def dedent (lines : List Text) : List Text :=
  let shift t := if Text.isAllBlank t then [] else Text.trimBlankEnd (t.drop (commonIndent lines))
  let kept := (lines.dropWhile Text.isAllBlank).map shift
  (kept.reverse.dropWhile (· = [])).reverse

/-! ## Lines with a meaning -/

/-- The code on a line that is marked as such: `>`, `:` or `|` before it. -/
def codeLine? (line : Text) : Option Text :=
  match Text.trimStart Text.isSpace line with
  | c :: t =>
    if (c = '>' ∨ c = ':' ∨ c = '|') ∧ Text.lineFeed ∉ t then some t else none
  | [] => none

/-- A text behind at least one space, if there is any and only its first character can be a line
feed. -/
def spacedText? : Text → Option Text
  | ' ' :: t =>
    match Text.trimStart Text.isSpace t with
    | c :: rest => if Text.lineFeed ∈ rest then none else some (c :: rest)
    | [] => none
  | _ => none

/-- The text of a bullet: `-`, `*`, `o` or `+` before it. A second dash is not taken for one. -/
def bullet? (line : Text) : Option Text :=
  match line with
  | c :: t =>
    if c = '-' ∨ c = '*' ∨ c = 'o' ∨ c = '+' then
      (spacedText? t).filter fun item => (Text.afterStart? ['-', ' '] item).isNone
    else none
  | [] => none

/-- The description behind spaces and a dash. -/
def dashedText? : Text → Option Text
  | ' ' :: t =>
    match Text.trimStart Text.isSpace t with
    | '-' :: rest => spacedText? rest
    | _ => none
  | _ => none

/-- A term and a description with a dash between them, `term - description`. The term is as
short as possible. -/
def definition? : Text → Option (Text × Text)
  | [] => none
  | c :: t =>
    if c = Text.lineFeed then none
    else
      match dashedText? t with
      | some description => some ([c], description)
      | none => (definition? t).map fun (term, description) => (c :: term, description)

/-- The text of a heading: a colon ends it, right behind other text. -/
def heading? (line : Text) : Option Text :=
  match Text.beforeEnd? [':'] line with
  | some t =>
    if t = [] ∨ t.getLast? = some ' ' ∨ Text.lineFeed ∈ t.dropLast then none else some t
  | none => none

/-- The headings under which a list of functions describes parameters. -/
def parameterHeadings : List Text :=
  ["parameters".toList, "parameter".toList, "params".toList, "param".toList,
    "arguments".toList, "argument".toList, "args".toList, "arg".toList]

/-! ## Reading blocks -/

/-- The block that the lines read so far leave open. -/
inductive OpenBlock where
  | none
  | paragraph (t : Text)
  | bullets (done : List Text) (last : Text)
  | entries (done : List Entry) (last : Entry)
  /-- Lines marked as code, and whether a blank line followed. -/
  | marked (lines : List Text) (thenBlank : Bool)
  /-- A verbatim section. -/
  | verbatim (lines : List Text)
  deriving DecidableEq

namespace OpenBlock

/-- The block that ends here, if one is open. -/
def close : OpenBlock → List Block
  | none => []
  | paragraph t => [.paragraph t]
  | bullets done last => [.bullets (done ++ [last])]
  | entries done last => [.entries (done ++ [last])]
  | marked lines _ => [.code (dedent lines)]
  | verbatim lines => [.code (dedent lines)]

/-- Whether plain text behind a blank line ends the block. -/
def isList : OpenBlock → Bool
  | bullets .. | entries .. => true
  | _ => false

/-- Adds a line of plain text to the block; where no text can go on, a paragraph begins. -/
def addText (line : Text) : OpenBlock → OpenBlock
  | paragraph t => paragraph (t ++ ' ' :: line)
  | bullets done last => bullets done (last ++ ' ' :: line)
  | entries done last => entries done { last with description := last.description ++ ' ' :: line }
  | _ => paragraph line

/-- The block with one more bullet, and the blocks that end before it. -/
def addBullet (item : Text) : OpenBlock → List Block × OpenBlock
  | bullets done last => ([], bullets (done ++ [last]) item)
  | other => (other.close, bullets [] item)

/-- The block with one more entry, and the blocks that end before it. -/
def addEntry (entry : Entry) : OpenBlock → List Block × OpenBlock
  | entries done last => ([], entries (done ++ [last]) entry)
  | other => (other.close, entries [] entry)

end OpenBlock

/-- What the lines read so far leave behind. -/
structure Reader where
  current : OpenBlock := .none
  /-- A blank line, or the start of the body, stands before the next line. -/
  afterBlank : Bool := true
  /-- The entries of a list are parameters and not symbols. -/
  describesParameters : Bool := false
  deriving DecidableEq

namespace Reader

/-- Reads a line without indentation, outside of code. -/
def stepText (kind : TopicKind) (r : Reader) (line : Text) : List Block × Reader :=
  if line = [] then
    match r.current with
    | .paragraph t => ([.paragraph t], { r with current := .none, afterBlank := true })
    | _ => ([], { r with afterBlank := true })
  else if let some item := bullet? line then
    let (done, current) := r.current.addBullet item
    (done, { r with current, afterBlank := false })
  else if let some (term, description) :=
      if r.current matches .paragraph _ then none else definition? line then
    let entry := ⟨kind.isList && !r.describesParameters, term, description⟩
    let (done, current) := r.current.addEntry entry
    (done, { r with current, afterBlank := false })
  else if let some t := if r.afterBlank then heading? line else none then
    (r.current.close ++ [.heading t],
      { current := .none
        afterBlank := false
        describesParameters :=
          if kind = .list .functionType then parameterHeadings.contains (Text.lowerCase t)
          else r.describesParameters })
  else if Verbatim.isStart line then
    (r.current.close, { r with current := .verbatim [] })
  else if r.afterBlank && r.current.isList then
    (r.current.close, { r with current := .paragraph line, afterBlank := false })
  else ([], { r with current := r.current.addText line, afterBlank := false })

/-- Reads a line that is not in a verbatim section. Lines marked as code make one block, also
with a blank line between them. -/
def stepMarked (kind : TopicKind) (r : Reader) (line : Text) : List Block × Reader :=
  match codeLine? line, r.current with
  | some code, .marked lines thenBlank =>
    let gap := if thenBlank then [[]] else []
    ([], { r with current := .marked (lines ++ gap ++ [code]) false })
  | some code, other => (other.close, { r with current := .marked [code] false })
  | none, .marked lines thenBlank =>
    let line := Text.trimStart Text.isSpace line
    if line = [] ∧ !thenBlank then ([], { r with current := .marked lines true })
    else
      let (done, r) := stepText kind { r with current := .none, afterBlank := thenBlank } line
      (.code (dedent lines) :: done, r)
  | none, _ => stepText kind r (Text.trimStart Text.isSpace line)

/-- Reads a line: the blocks that it ends, and what it leaves behind. -/
def step (kind : TopicKind) (r : Reader) (line : Text) : List Block × Reader :=
  match r.current with
  | .verbatim lines =>
    if Verbatim.isEnd line then
      ([.code (dedent lines)], { r with current := .none, afterBlank := false })
    else ([], { r with current := .verbatim (lines ++ [line]) })
  | _ => stepMarked kind r line

/-- The blocks of some lines, the one that the last of them leaves open included. -/
def blocks (kind : TopicKind) (r : Reader) : List Text → List Block
  | [] => r.current.close
  | line :: lines =>
    let (done, r) := r.step kind line
    done ++ r.blocks kind lines

end Reader

/-- The blocks of the body of a topic. -/
def Block.ofLines (kind : TopicKind) (lines : List Text) : List Block :=
  Reader.blocks kind {} lines

/-- The body of a topic as markup. -/
def formatBody (kind : TopicKind) (lines : List Text) : Text :=
  (Block.ofLines kind lines).flatMap Block.render

end Commentary.Markup
