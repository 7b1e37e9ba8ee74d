import Commentary.Comment.Marker
import Commentary.Language.Keyword
import Commentary.Language.Prototype
import Commentary.LineSpan
import Commentary.Text.Alphanumeric

/-!
# Comments of a source text

A source text is read line by line. A comment is a run of line comments, or a block up to its
closer, and starts on a line of its own. Its markers become spaces, so that its text keeps its
columns. The code behind a comment is kept where it may be the prototype of what the comment
documents.
-/

namespace Commentary

/-- A comment of a source text. -/
structure Comment where
  /-- The lines, with spaces for the markers. -/
  lines : List Text
  /-- The lines of the source that the comment takes. -/
  span : LineSpan
  /-- The place of the first line in the source, in bytes. -/
  offset : Nat
  /-- The marker that opened the comment, if it is a block. -/
  opener : Option Text := none
  /-- The code behind the comment that may be a prototype. -/
  prototype : Option Text := none
  deriving DecidableEq

/-- A line of a source text and its place there, in bytes. -/
structure SourceLine where
  offset : Nat
  text : Text
  deriving DecidableEq

namespace SourceLine

/-- A line without the line feed and the carriage returns that end it. -/
def withoutEnd (line : Text) : Text := Text.trimEnd (· = '\r') (Text.trimEnd (· = '\n') line)

/-- The lines of a text that stands at a place in the source. -/
def ofLinesFrom (offset : Nat) : List Text → List SourceLine
  | [] => []
  | line :: lines => ⟨offset, withoutEnd line⟩ :: ofLinesFrom (offset + Text.bytes line) lines

/-- The lines of a source text. -/
def ofSource (source : Text) : List SourceLine := ofLinesFrom 0 (Text.linesWithEnds source)

end SourceLine

namespace Comment

/-! ## The header that a prototype belongs to -/

/-- A line of a comment without its indentation and a run of one symbol at its left. -/
def undecorated (line : Text) : Text :=
  match Text.trimStart Text.isBlank line with
  | [] => []
  | c :: t =>
    let rest := t.dropWhile (· = c)
    if Text.isAlphanumeric c then c :: t
    else if rest = [] ∨ rest.head? = some ' ' then Text.trimStart Text.isBlank rest
    else c :: t

/-- The headers in the lines of a comment, each at the start or behind a blank line. -/
def headersFrom (keywords : KeywordTable) (afterBlank : Bool) : List Text → List Header
  | [] => []
  | line :: lines =>
    let t := undecorated line
    if t = [] then headersFrom keywords true lines
    else
      (if afterBlank then (keywords.header? t).toList else []) ++
        headersFrom keywords false lines

/-- The enders of the prototype behind a comment, if the comment has one header and its kind
takes a prototype. -/
def enders? (language : Language) (keywords : KeywordTable) (lines : List Text) :
    Option (List PrototypeEnder) :=
  match headersFrom keywords true lines with
  | [header] => if header.kind.takesPrototype then language.enders? header.kind.type else none
  | _ => none

/-- The prototype behind a comment. -/
def prototypeOf (language : Language) (keywords : KeywordTable) (lines code : List Text) :
    Option Text :=
  (enders? language keywords lines).bind fun enders =>
    Prototype.capture enders language.extender code

/-! ## Finding comments -/

/-- The lines of a run of line comments at the start of some lines. -/
def lineRun (language : Language) : List SourceLine → List Text
  | [] => []
  | line :: rest =>
    match language.lineComment? line.text with
    | some t => t :: lineRun language rest
    | none => []

/-- The lines of a block comment, and the code behind its closer on the last one. -/
structure Block where
  lines : List Text
  trailing : Option Text

namespace Block

/-- The last line of a block, cut at its closer. -/
def closed (kept trailing : Text) : Block where
  lines := [Text.trimBlankEnd kept]
  trailing :=
    let trailing := Text.trimBlank trailing
    if trailing = [] then none else some trailing

/-- The rest of a block behind its first line. A block that is never closed takes all lines. -/
def readRest (closer : Text) : List SourceLine → Block
  | [] => ⟨[], none⟩
  | line :: rest =>
    match Text.cutAt? closer line.text with
    | some (kept, trailing) => closed kept trailing
    | none =>
      let more := Block.readRest closer rest
      { more with lines := line.text :: more.lines }

/-- The block behind the opener of a line, where `rest` holds the lines behind that one. -/
def read (opening : Language.Marked) (closer : Text) (rest : List SourceLine) : Block :=
  match Text.cutAt? closer opening.rest with
  | some (kept, trailing) => closed (opening.margin ++ kept) trailing
  | none =>
    let more := Block.readRest closer rest
    { more with lines := Text.trimBlankEnd (opening.margin ++ opening.rest) :: more.lines }

end Block

/-- The comment that starts at a line with a number, where `rest` holds the lines behind it, and
the code behind the comment on its last line. -/
def startingAt? (language : Language) (number : Nat) (line : SourceLine)
    (rest : List SourceLine) : Option (Comment × Option Text) :=
  match language.start line.text with
  | .none => none
  | .line _ =>
    let lines := lineRun language (line :: rest)
    some ({ lines, span := .ofCount number lines.length, offset := line.offset }, none)
  | .block opening closer =>
    let block := Block.read opening closer rest
    some
      ({ lines := block.lines
         span := .ofCount number block.lines.length
         offset := line.offset
         opener := some opening.marker },
        block.trailing)

/-- Finds the comments of some lines, where the first line has a number and the first `skip`
lines belong to a comment that is found already. -/
def find (language : Language) (keywords : KeywordTable) (skip number : Nat) :
    List SourceLine → List Comment
  | [] => []
  | line :: rest =>
    match skip with
    | skip + 1 => find language keywords skip (number + 1) rest
    | 0 =>
      match startingAt? language number line rest with
      | none => find language keywords 0 (number + 1) rest
      | some (comment, trailing) =>
        let behind := comment.lines.length - 1
        let code := trailing.toList ++ (rest.drop behind).map SourceLine.text
        { comment with prototype := prototypeOf language keywords comment.lines code } ::
          find language keywords behind (number + 1) rest

/-- The comments of a source text. A language of plain text makes one comment of it all. -/
def ofSource (language : Language) (keywords : KeywordTable) (source : Text) : List Comment :=
  let lines := SourceLine.ofSource source
  if language.readsWholeFile then
    if lines = [] then []
    else [{ lines := lines.map SourceLine.text, span := .ofCount 1 lines.length, offset := 0 }]
  else find language keywords 0 1 lines

end Comment

end Commentary
