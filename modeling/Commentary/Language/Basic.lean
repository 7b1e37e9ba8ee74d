import Commentary.Topic.Kind

/-!
# Languages

What has to be known about a source language to find its comments and the prototypes behind
them: the markers of comments, and the symbols that end a prototype.
-/

namespace Commentary

/-- What ends a prototype. -/
inductive PrototypeEnder where
  | symbol (mark : Text)
  /-- The end of a line, unless the line is continued. -/
  | lineBreak
  deriving DecidableEq

namespace PrototypeEnder

/-- Reads an ender. A line break is written as itself or as a backslash and an `n`. -/
def ofText (t : Text) : PrototypeEnder :=
  if t = ['\\', 'n'] ∨ t = [Text.lineFeed] then .lineBreak else .symbol t

end PrototypeEnder

/-- The marks around a comment that may take several lines. -/
structure BlockMarkers where
  opener : Text
  closer : Text
  deriving DecidableEq

/-- The comments and prototypes of a source language. -/
structure Language where
  name : Text
  /-- The marks of a comment that runs to the end of its line. -/
  lineMarkers : List Text := []
  blockMarkers : List BlockMarkers := []
  functionEnders : List PrototypeEnder := []
  /-- The enders of variables, properties and constants. -/
  variableEnders : List PrototypeEnder := []
  /-- The mark at the end of a line that continues a prototype on the next one. -/
  extender : Option Text := none
  /-- The file is one comment, without any marks. -/
  isPlainText : Bool := false
  deriving DecidableEq

namespace Language

/-- A language of plain text. -/
def textFile (name : Text) : Language := { name := name, isPlainText := true }

/-- A language that marks no comments is read as plain text, too. -/
def readsWholeFile (l : Language) : Bool :=
  l.isPlainText || (l.lineMarkers.isEmpty && l.blockMarkers.isEmpty)

/-- The enders of the prototypes of a type of topics, if it has any. -/
def enders? (l : Language) (type : TopicType) : Option (List PrototypeEnder) :=
  let enders :=
    match type with
    | .functionType => l.functionEnders
    | .variableType | .propertyType | .constantType => l.variableEnders
    | _ => []
  if enders.isEmpty then none else some enders

end Language

end Commentary
