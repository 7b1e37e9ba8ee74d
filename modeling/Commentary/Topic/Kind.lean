import Commentary.Text.Basic

/-!
# Kinds of topics

A topic documents one thing of a type, or lists several. Its type decides what happens to the
package of the topics behind it and whether a prototype may stand beside it.
-/

namespace Commentary

/-- What a topic documents. -/
inductive TopicType where
  | classType
  | sectionType
  | fileType
  | groupType
  | functionType
  | variableType
  | propertyType
  | typeType
  | constantType
  | genericType
  deriving DecidableEq, Repr

/-- What a topic does to the package of the topics that follow it. -/
inductive ScopeRule where
  /-- It opens a package named after itself. -/
  | opens
  /-- It closes the package. -/
  | closes
  /-- It belongs to no package and leaves the package of others alone. -/
  | global
  /-- It belongs to the package that is open. -/
  | member
  deriving DecidableEq, Repr

namespace TopicType

/-- Every type. -/
def all : List TopicType :=
  [classType, sectionType, fileType, groupType, functionType, variableType, propertyType,
    typeType, constantType, genericType]

/-- The name of a type. -/
def text : TopicType → Text
  | classType => "Class".toList
  | sectionType => "Section".toList
  | fileType => "File".toList
  | groupType => "Group".toList
  | functionType => "Function".toList
  | variableType => "Variable".toList
  | propertyType => "Property".toList
  | typeType => "Type".toList
  | constantType => "Constant".toList
  | genericType => "Generic".toList

/-- Classes open a package, sections close it, and files stand outside of it. -/
def scopeRule : TopicType → ScopeRule
  | classType => .opens
  | sectionType => .closes
  | fileType => .global
  | _ => .member

/-- Whether a prototype may follow the comment of such a topic. -/
def takesPrototype : TopicType → Bool
  | functionType | variableType | propertyType | constantType => true
  | _ => false

/-- Whether such a topic can name the page of its file. -/
def namesPage : TopicType → Bool
  | classType | sectionType | fileType => true
  | _ => false

/-- Whether the topic stands at the border of packages rather than in one. -/
def isScopeBoundary (t : TopicType) : Bool := t.scopeRule = .opens || t.scopeRule = .closes

end TopicType

/-- A type of topics, for one thing or for a list of things. -/
structure TopicKind where
  type : TopicType
  isList : Bool := false
  deriving DecidableEq, Repr

namespace TopicKind

/-- The kind of a topic about one thing. -/
abbrev single (type : TopicType) : TopicKind := ⟨type, false⟩

/-- The kind of a topic that lists things. -/
abbrev list (type : TopicType) : TopicKind := ⟨type, true⟩

/-- The name of a kind. -/
def text (k : TopicKind) : Text :=
  if k.isList then "List of ".toList ++ k.type.text else k.type.text

/-- A list never takes a prototype. -/
def takesPrototype (k : TopicKind) : Bool := !k.isList && k.type.takesPrototype

end TopicKind

end Commentary
