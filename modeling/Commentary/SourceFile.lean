import Commentary.Comment.Basic
import Commentary.Comment.Cleaner
import Commentary.Store.Basic
import Commentary.Topic.Extract
import Commentary.Topic.Merge
import Commentary.Topic.PageTitle

/-!
# Source files

Reading a source file gives its topics and the title of its page. The comments are found,
cleaned and cut into topics one after the other, and the topics found in code are merged into
them. Nothing else than the file, the settings and the keywords is looked at.
-/

namespace Commentary

/-- A file to be read. -/
structure SourceFile where
  name : FileName
  text : Text
  language : Language
  /-- The topics that were found in its code. -/
  autos : List AutoTopic := []

/-- What was read from a file. -/
structure ParsedFile where
  file : FileName
  title : Text
  topics : List Topic
  deriving DecidableEq

namespace Comment

/-- The cleaner for a comment. -/
def cleaner (c : Comment) (settings : Settings) : Cleaner :=
  let cleaner := Cleaner.ofSettings settings
  match c.opener with
  | some opener => cleaner.afterOpener opener
  | none => cleaner

/-- The cleaned lines of a comment, each with its line in the source. -/
def cleanedLines (c : Comment) (settings : Settings) : List (Nat × Text) :=
  let cleaner := c.cleaner settings
  let lines :=
    if settings.preserveLineNumbers then
      (cleaner.clean c.lines).zipIdx.map fun (line, index) => (index, line)
    else cleaner.cleanCompact c.lines
  lines.map fun (index, line) => (c.span.lineAt index, line)

/-- The topics of a comment, and the context behind it. -/
def topics (settings : Settings) (keywords : KeywordTable) (context : Context) (c : Comment) :
    List Topic × Context :=
  Topic.ofComment keywords context (c.cleanedLines settings) c.prototype

/-- The topics of some comments, where each one starts in the context behind the one before. -/
def topicsOfAll (settings : Settings) (keywords : KeywordTable) (context : Context) :
    List Comment → List Topic
  | [] => []
  | c :: comments =>
    let (found, after) := c.topics settings keywords context
    found ++ topicsOfAll settings keywords after comments

end Comment

namespace SourceFile

/-- The topics of the comments of a file, in order. -/
def commentTopics (settings : Settings) (keywords : KeywordTable) (f : SourceFile) : List Topic :=
  Comment.topicsOfAll settings keywords {} (Comment.ofSource f.language keywords f.text)

/-- Reads a file. -/
def parse (settings : Settings) (keywords : KeywordTable) (f : SourceFile) : ParsedFile :=
  let topics :=
    Topic.merge settings.documentedOnly (f.commentTopics settings keywords) f.autos
  { file := f.name, title := pageTitle topics f.name, topics }

end SourceFile

end Commentary
