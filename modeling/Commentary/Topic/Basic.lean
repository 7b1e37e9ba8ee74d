import Commentary.Markup.Query
import Commentary.Topic.Kind
import Commentary.Topic.Name

/-!
# Topics

A topic documents one thing or lists several. It comes from a header in a comment, or from a
declaration in code, which is then an automatic topic.
-/

namespace Commentary

/-- An entry of the documentation. -/
structure Topic where
  kind : TopicKind
  /-- The title as its header gives it. -/
  title : Text
  /-- The line of the header or of the declaration. -/
  line : Nat
  /-- The package that the symbol of the topic lies in. -/
  package : Option Text := none
  /-- The package that the links in the body start from. -/
  scope : Option Text := none
  /-- The code that declares the symbol, on one line. -/
  prototype : Option Text := none
  /-- The first sentence of the body. -/
  summary : Option Text := none
  /-- The text of the topic as markup, if it has any. -/
  body : Option Text := none
  isExported : Bool := false
  /-- The classes that a class is derived from. -/
  parents : List Text := []
  /-- The topic marks a change of package and defines nothing. -/
  isDelineator : Bool := false
  deriving DecidableEq

namespace Topic

/-- Puts a topic into a package, and its links too. -/
def withPackage (t : Topic) (package : Option Text) : Topic :=
  { t with package := package, scope := package }

/-- Gives a topic its body, and the summary that follows from it. -/
def withBody (t : Topic) (body : Text) : Topic :=
  { t with body := some body, summary := Markup.summary? body }

/-- Gives a topic its prototype. A list never takes one. -/
def withPrototype (t : Topic) (prototype : Option Text) : Topic :=
  if t.kind.isList then t else { t with prototype := prototype }

/-- What a topic does to the packages of those that follow. -/
abbrev scopeRule (t : Topic) : ScopeRule := t.kind.type.scopeRule

/-- The symbol of something that a topic names: members of a package are named within it. -/
def symbolOf (t : Topic) (name : Text) : Text :=
  match t.scopeRule, t.package with
  | .member, some package => Name.qualify package name
  | _, _ => name

/-- The symbol that a topic defines. -/
def symbol (t : Topic) : Text := t.symbolOf t.title

/-- The title as code would write it. -/
def unqualifiedName (t : Topic) : Text := Name.unqualified t.title

/-- Whether a topic opens the documentation of a class. -/
def isClass (t : Topic) : Bool := t.kind = .single .classType && !t.isDelineator

end Topic

/-- A topic found in code. -/
structure AutoTopic where
  kind : TopicKind
  title : Text
  line : Nat
  /-- The name that the title of a comment is searched for. -/
  name : Text := Name.unqualified title
  package : Option Text := none
  prototype : Option Text := none
  isExported : Bool := false
  parents : List Text := []
  deriving DecidableEq

/-- The topic for a declaration that no comment documents. -/
def AutoTopic.toTopic (a : AutoTopic) : Topic :=
  { kind := a.kind
    title := a.title
    line := a.line
    package := a.package
    scope := a.package
    prototype := if a.kind.isList then none else a.prototype
    isExported := a.isExported
    parents := a.parents }

end Commentary
