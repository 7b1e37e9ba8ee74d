import Commentary.Ordered.Set
import Commentary.Ordered.Table
import Commentary.Store.Violation
import Commentary.Topic.Kind

/-!
# The store

The store knows which file defines which item, and what each file says about it. Items belong to
extensions, which are registered one after the other; an extension either keeps what a file says
or only that it says something. Of several files that define an item, the one that has done so
for the longest time is authoritative.

While a file is read again it is watched: what it defined before stays in the store, and what it
claims now is noted beside it.
-/

namespace Commentary

/-- The name of a source file. -/
abbrev FileName := Text

/-- What the items of an extension are. -/
inductive ExtensionKind where
  | symbols
  | references
  | classes
  | classParents
  deriving DecidableEq

namespace ExtensionKind

/-- Every kind of extension. -/
def all : List ExtensionKind := [symbols, references, classes, classParents]

/-- The name of an extension. -/
def text : ExtensionKind → Text
  | symbols => "symbols".toList
  | references => "references".toList
  | classes => "classes".toList
  | classParents => "class parents".toList

end ExtensionKind

/-- A registered extension. -/
structure Extension where
  kind : ExtensionKind
  /-- Definitions are kept and compared. Otherwise only their existence is. -/
  isRich : Bool
  deriving DecidableEq

/-- An item: the place of its extension in the order of registration, and its key there. -/
structure ItemId where
  extension : Nat
  key : Text
  deriving DecidableEq

/-- What a file says about a symbol. -/
structure SymbolDefinition where
  kind : TopicKind
  prototype : Option Text
  summary : Option Text
  deriving DecidableEq

/-- What a file says about an item. -/
inductive Definition where
  /-- It defines the item, and that is all. -/
  | bare
  | rich (symbol : SymbolDefinition)
  deriving DecidableEq

/-- The definitions of an item by the files that give them, the longest-standing one first. -/
abbrev Item := Table FileName Definition

/-- What a watched file has claimed so far. The first claim for an item counts. -/
structure Watch where
  file : FileName
  claims : Table ItemId Definition := ∅
  deriving DecidableEq

/-- Items, their definitions, and the files that give them. -/
structure Store where
  extensions : List Extension := []
  items : Table ItemId Item := ∅
  /-- The items that each file defines. -/
  files : Table FileName (OrderedSet ItemId) := ∅
  watched : Option Watch := none
  deriving DecidableEq

namespace Store

/-! ## Extensions -/

/-- Registers an extension behind those that are registered already. -/
def register (s : Store) (e : Extension) : Store := { s with extensions := s.extensions ++ [e] }

/-- The places of the extensions, in the order of registration. -/
def order (s : Store) : List Nat := List.range s.extensions.length

/-- Whether an extension keeps what files say. -/
def isRich (s : Store) (extension : Nat) : Bool := (s.extensions[extension]?).any (·.isRich)

/-- The name of an extension. -/
def extensionName (s : Store) (extension : Nat) : Text :=
  ((s.extensions[extension]?).map fun e => e.kind.text).getD []

/-- A definition as its extension keeps it. -/
def kept (s : Store) (id : ItemId) (d : Definition) : Definition :=
  if s.isRich id.extension then d else .bare

/-! ## Queries -/

/-- An item with its definitions. -/
def item? (s : Store) (id : ItemId) : Option Item := s.items.get? id

/-- The items of an extension, in the order in which they were added. -/
def itemsOf (s : Store) (extension : Nat) : List (ItemId × Item) :=
  s.items.entries.filter (·.1.extension = extension)

/-- The definition that a file gives for an item. -/
def definition? (s : Store) (id : ItemId) (file : FileName) : Option Definition :=
  (s.item? id).bind (·.get? file)

/-- The file whose definition of an item counts for others, and that definition. -/
def authoritative? (s : Store) (id : ItemId) : Option (FileName × Definition) :=
  (s.item? id).bind (·.first?)

/-- The files that define an item, the longest-standing one first. -/
def definers (s : Store) (id : ItemId) : List FileName := ((s.item? id).map (·.keys)).getD []

/-- Whether any file defines an item. -/
def isDefined (s : Store) (id : ItemId) : Bool := !(s.definers id).isEmpty

/-- Whether a file defines anything. -/
def hasFile (s : Store) (file : FileName) : Bool := s.files.contains file

/-- The items of an extension that a file defines. -/
def fileItems (s : Store) (file : FileName) (extension : Nat) : List ItemId :=
  ((s.files.get? file).map (·.toList.filter (·.extension = extension))).getD []

end Store

end Commentary
