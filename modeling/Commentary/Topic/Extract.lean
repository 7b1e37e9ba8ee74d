import Commentary.Comment.Verbatim
import Commentary.Language.Keyword
import Commentary.Language.Prototype
import Commentary.Markup.Block
import Commentary.Topic.Basic

/-!
# Topics of a comment

A cleaned comment is cut into sections, one for every header at its start or behind a blank
line, verbatim sections apart. The sections become topics one after the other, and each may
change the package of those that follow, also in later comments.
-/

namespace Commentary

/-- The packages that the next topic is placed in. -/
structure Context where
  /-- The package of its symbol. -/
  package : Option Text := none
  /-- The package that its links start from. -/
  scope : Option Text := none
  deriving DecidableEq

/-- A header, its line, and the lines behind it up to the next header. -/
structure Section where
  header : Header
  line : Nat
  body : List Text
  deriving DecidableEq

namespace Section

/-- Where a line stands. -/
inductive Place where
  /-- At the start or behind a blank line, where a header may stand. -/
  | afterBlank
  | afterText
  /-- In a verbatim section. -/
  | insideVerbatim
  deriving DecidableEq

namespace Place

/-- Where the line behind one that is not a header stands. -/
def next (p : Place) (line : Text) : Place :=
  match p with
  | insideVerbatim => if Verbatim.isEnd line then afterText else insideVerbatim
  | _ =>
    if Verbatim.isStart line then insideVerbatim
    else if Text.isAllBlank line then afterBlank
    else afterText

/-- The header that a line is, where it stands. The start of a verbatim section is none. -/
def header? (p : Place) (keywords : KeywordTable) (line : Text) : Option Header :=
  if p = afterBlank ∧ !Verbatim.isStart line then keywords.header? line else none

end Place

/-- The lines before the first header, and the sections from there on. Every line comes with its
number. -/
def split (keywords : KeywordTable) (p : Place) : List (Nat × Text) → List Text × List Section
  | [] => ([], [])
  | (number, line) :: lines =>
    match p.header? keywords line with
    | some header =>
      let (body, sections) := split keywords .afterText lines
      ([], ⟨header, number, body⟩ :: sections)
    | none =>
      let (body, sections) := split keywords (p.next line) lines
      (line :: body, sections)

/-- The sections of the lines of a comment. -/
def ofLines (keywords : KeywordTable) (lines : List (Nat × Text)) : List Section :=
  (split keywords .afterBlank lines).2

/-- The context behind a section. A class opens a package of its name, and a section of the
documentation closes the package. -/
def contextAfter (s : Section) (context : Context) : Context :=
  match s.header.kind.type.scopeRule with
  | .opens => ⟨some s.header.title, some s.header.title⟩
  | .closes => {}
  | .global | .member => context

/-- The topic of a section. A topic that opens or closes a package stands in the new one, and a
file stands in none. -/
def topic (s : Section) (context : Context) : Topic :=
  let after := s.contextAfter context
  let t : Topic :=
    { kind := s.header.kind
      title := s.header.title
      line := s.line
      package := if s.header.kind.type.scopeRule = .global then none else after.package
      scope := after.scope }
  let body := Markup.formatBody s.header.kind s.body
  if body = [] then t else t.withBody body

/-- The topics of some sections, one after the other, and the context behind them. -/
def topics (context : Context) : List Section → List Topic × Context
  | [] => ([], context)
  | s :: sections =>
    let (found, after) := topics (s.contextAfter context) sections
    (s.topic context :: found, after)

end Section

namespace Topic

/-- Gives a topic the code behind its comment, if that names it. -/
def withCode (t : Topic) (code : Text) : Topic :=
  let prototype := Prototype.normalize code
  if t.kind.takesPrototype ∧ prototype ≠ [] ∧ Text.includes t.unqualifiedName prototype then
    t.withPrototype (some prototype)
  else t

/-- The topics of a cleaned comment with the numbers of its lines, and the context behind it. The
code behind the comment belongs to its topic if it has just one. -/
def ofComment (keywords : KeywordTable) (context : Context) (lines : List (Nat × Text))
    (code : Option Text) : List Topic × Context :=
  let (topics, after) := Section.topics context (Section.ofLines keywords lines)
  match topics, code with
  | [t], some code => ([t.withCode code], after)
  | _, _ => (topics, after)

end Topic

end Commentary
