import Commentary.Store.Basic

/-!
# Keys of the index

The index of a project keeps symbols, links and classes in the extensions of its store. A link
and a step from a class to its parent are named by two texts with a separator between them that
does not occur in cleaned text.
-/

namespace Commentary.Index

/-- The character between the two parts of a key. -/
abbrev separator : Char := '\u001f'

/-- The extensions of a project, in the order of registration. -/
def extensions : List Extension :=
  [⟨.symbols, true⟩, ⟨.references, false⟩, ⟨.classes, false⟩, ⟨.classParents, false⟩]

/-- The item of a symbol. -/
def symbolItem (symbol : Text) : ItemId := ⟨0, symbol⟩

/-- The item of a link, by its key. -/
def linkItem (key : Text) : ItemId := ⟨1, key⟩

/-- The item of a class. -/
def classItem (name : Text) : ItemId := ⟨2, name⟩

/-- The item of a step from a class to its parent, by its key. -/
def edgeItem (key : Text) : ItemId := ⟨3, key⟩

/-- Two texts in one key. -/
def pair (first second : Text) : Text := first ++ separator :: second

/-- The parts of a key before and behind its first separator. -/
def unpair? (key : Text) : Option (Text × Text) := Text.cutAt? [separator] key

/-- The key of a link with a text in a scope. No scope is as good as an empty one. -/
def linkKey (scope : Option Text) (text : Text) : Text := pair (scope.getD []) text

/-- The scope and the text of a link. -/
def splitLinkKey (key : Text) : Option Text × Text :=
  match unpair? key with
  | some (scope, text) => (if scope = [] then none else some scope, text)
  | none => (none, key)

/-- The key of the step from a class to its parent. -/
def edgeKey (name parent : Text) : Text := pair name parent

/-- The class and the parent of a step. -/
def splitEdgeKey? (key : Text) : Option (Text × Text) := unpair? key

end Commentary.Index
