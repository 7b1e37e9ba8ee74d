import Commentary.Ordered.Table
import Commentary.Text.Blank
import Commentary.Text.LetterCase
import Commentary.Topic.Kind

/-!
# Keywords and headers

A topic starts with a header, `Keyword: Title`. The keyword names the kind of the topic, in any
case and with any white space between its words.
-/

namespace Commentary

/-- The keyword and the title at the start of a topic. -/
structure Header where
  kind : TopicKind
  title : Text
  deriving DecidableEq

/-- The kinds that keywords stand for. Keywords are kept in their normal form. -/
structure KeywordTable where
  entries : Table Text TopicKind

namespace KeywordTable

/-- The normal form of a keyword: lower case, with one space between words. -/
def normalForm (keyword : Text) : Text := Text.lowerCase (Text.squeeze keyword)

/-- The table without keywords, which knows no header. -/
def empty : KeywordTable := ⟨∅⟩

/-- Adds a keyword or changes its kind. -/
def insert (table : KeywordTable) (keyword : Text) (kind : TopicKind) : KeywordTable :=
  ⟨table.entries.insert (normalForm keyword) kind⟩

/-- The kind that a keyword stands for. -/
def kind? (table : KeywordTable) (keyword : Text) : Option TopicKind :=
  table.entries.get? (normalForm keyword)

/-- The number of keywords. -/
def size (table : KeywordTable) : Nat := table.entries.size

/-- The English words for one thing and for several things of each type. -/
def englishWords : List (TopicType × List String × List String) :=
  [(.classType,
      ["class", "structure", "struct", "interface", "module", "package", "namespace"],
      ["classes", "structures", "structs", "interfaces", "modules", "packages", "namespaces"]),
    (.sectionType, ["section", "title"], []),
    (.fileType, ["file", "program", "script"], ["files", "programs", "scripts"]),
    (.groupType, ["group"], []),
    (.functionType,
      ["function", "func", "procedure", "proc", "routine", "subroutine", "sub", "method",
        "callback", "constructor", "destructor", "operator"],
      ["functions", "funcs", "procedures", "procs", "routines", "subroutines", "subs",
        "methods", "callbacks", "constructors", "destructors", "operators"]),
    (.variableType,
      ["variable", "var", "integer", "int", "float", "double", "string", "str", "bool",
        "boolean", "array", "hash", "object", "pointer", "handle", "field"],
      ["variables", "vars", "integers", "ints", "floats", "doubles", "strings", "bools",
        "booleans", "arrays", "hashes", "objects", "pointers", "handles", "fields"]),
    (.propertyType, ["property", "prop"], ["properties", "props"]),
    (.typeType, ["type", "typedef", "enum", "enumeration"],
      ["types", "typedefs", "enums", "enumerations"]),
    (.constantType, ["constant", "const", "define", "macro"],
      ["constants", "consts", "defines", "macros"]),
    (.genericType, ["topic", "about", "note"], ["topics", "notes"])]

/-- The English keywords, all of them in normal form. -/
def english : KeywordTable :=
  ⟨Table.ofList (englishWords.flatMap fun (type, singular, plural) =>
    singular.map (fun word => (word.toList, TopicKind.single type)) ++
      plural.map (fun word => (word.toList, TopicKind.list type)))⟩

/-- A character that a keyword may hold in a header: a basic letter, a digit or a space. -/
def isHeaderChar (c : Char) : Bool := Text.isBasicLetter c || c.isDigit || Text.isSpace c

/-- Cuts a line into the keyword and the title of a header. The keyword ends right before the
first colon, and a space follows the colon. -/
def splitHeader? (line : Text) : Option (Text × Text) :=
  let line := Text.trimStart Text.isSpace line
  let keyword := line.takeWhile isHeaderChar
  match line.dropWhile isHeaderChar with
  | ':' :: ' ' :: title =>
    if keyword = [] ∨ keyword.getLast? = some ' ' ∨ Text.lineFeed ∈ title then none
    else some (keyword, Text.trim Text.isSpace title)
  | _ => none

/-- Reads the header of a topic: a known keyword and a title that is not empty. -/
def header? (table : KeywordTable) (line : Text) : Option Header :=
  match splitHeader? line with
  | none => none
  | some (keyword, title) =>
    if title = [] then none else (table.kind? keyword).map (⟨·, title⟩)

end KeywordTable

end Commentary
