import Commentary.Index.Basic
import Commentary.SourceFile

/-!
# Sessions

A session holds a project while its files change. A file is read on its own and then committed:
what it says takes the place of all that it said before, and every other file that shows
something of it is marked to be written again.
-/

namespace Commentary

/-- A project with its settings and keywords. -/
structure Session where
  settings : Settings := {}
  keywords : KeywordTable := .english
  project : Project := .empty

namespace ParsedFile

/-- The symbols that a topic defines: its own, or those that the list in its body describes. -/
def symbolsOf (t : Topic) : List (Text × SymbolDefinition) :=
  if t.isDelineator then []
  else if t.kind.isList then
    ((t.body.map Markup.symbolEntries).getD []).map fun entry =>
      (t.symbolOf entry.name, ⟨.single t.kind.type, none, entry.summary⟩)
  else [(t.symbol, ⟨t.kind, t.prototype, t.summary⟩)]

/-- The symbols that a file defines. A topic without a name defines none. -/
def symbols (f : ParsedFile) : List (Text × SymbolDefinition) :=
  (f.topics.flatMap symbolsOf).filter (·.1 ≠ [])

/-- The links of a file, each with the scope of its topic. -/
def links (f : ParsedFile) : List (Option Text × Text) :=
  f.topics.flatMap fun t =>
    ((t.body.map Markup.linkTargets).getD []).map fun target => (t.scope, target)

/-- The classes that a file defines. -/
def classes (f : ParsedFile) : List Text := (f.topics.filter (·.isClass)).map (·.symbol)

/-- The steps from a class to a parent that a file gives. -/
def edges (f : ParsedFile) : List (Text × Text) :=
  f.topics.flatMap fun t => t.parents.map fun parent => (t.symbol, parent)

end ParsedFile

namespace Project

/-- Records all that a file says: its symbols, its links, its classes and their parents. -/
def claimAll (p : Project) (f : ParsedFile) : Project :=
  let p := f.symbols.foldl (fun p (symbol, d) => p.addSymbol f.file symbol d) p
  let p := f.links.foldl (fun p (scope, text) => p.addLink f.file scope text) p
  let p := f.classes.foldl (fun p name => p.addClass f.file name) p
  f.edges.foldl (fun p (name, parent) => p.addParent f.file name parent) p

/-- Puts what a file says in the place of what it said before, and marks the file. -/
def commit (f : ParsedFile) : Run Index Unit := do
  watch f.file
  modify (claimAll · f)
  analyze
  modify (mark · [f.file])

/-- Commits files one after the other. -/
def commitAll : List ParsedFile → Run Index Unit
  | [] => pure ()
  | f :: files => do
    commit f
    commitAll files

/-- Takes a file out of the project, as one that says nothing any more. There is nothing left of
it to be written. -/
def remove (file : FileName) : Run Index Unit := do
  watch file
  analyze
  modify fun p => { p with derived.rebuild := p.derived.rebuild.erase file }

end Project

namespace Session

/-- Runs a program on the project of a session. What it changes stays, also if it fails. -/
def run {α : Type} (s : Session) (program : Run Index α) : Except Violation α × Session :=
  let (result, project) := (program.run.run s.project)
  (result, { s with project := project })

/-- Reads a file without committing it. -/
def parse (s : Session) (f : SourceFile) : ParsedFile := f.parse s.settings s.keywords

/-- Commits what was read from a file. -/
def commit (s : Session) (f : ParsedFile) : Except Violation Unit × Session :=
  s.run (Project.commit f)

/-- Reads a file and commits it. -/
def reparse (s : Session) (f : SourceFile) : Except Violation ParsedFile × Session :=
  let parsed := s.parse f
  s.run do
    Project.commit parsed
    return parsed

/-- Reads some files, and then commits them in order. -/
def reparseAll (s : Session) (files : List SourceFile) :
    Except Violation (List ParsedFile) × Session :=
  let parsed := files.map s.parse
  s.run do
    Project.commitAll parsed
    return parsed

/-- Takes a file out of the project. -/
def remove (s : Session) (file : FileName) : Except Violation Unit × Session :=
  s.run (Project.remove file)

/-- Hands out the files that are marked and starts with none again. -/
def takeRebuild (s : Session) : List FileName × Session :=
  (s.project.derived.rebuild.toList, { s with project.derived.rebuild := ∅ })

end Session

end Commentary
