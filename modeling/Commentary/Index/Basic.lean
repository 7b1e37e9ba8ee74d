import Commentary.Index.ClassGraph
import Commentary.Index.Link
import Commentary.Store.Analysis

/-!
# The index of a project

The index follows the store: it knows where links lead, how classes are related, and which files
have to be written again because something that they show has changed. What a file claims goes
through the functions of this module, and what it has dropped is heard of by `listener`.
-/

namespace Commentary

/-- What is derived from the store of a project. -/
structure Index where
  links : Index.LinkTable := {}
  classes : Index.ClassGraph := {}
  /-- The files to be written again, in the order in which they were marked. -/
  rebuild : OrderedSet FileName := ∅
  deriving DecidableEq

/-- A store with its index. -/
abbrev Project := Tracked Index

namespace Project

/-- The project without files. -/
def empty : Project := ⟨{ extensions := Index.extensions }, {}⟩

/-- Marks files to be written again. -/
def mark (p : Project) (files : List FileName) : Project :=
  { p with derived.rebuild := p.derived.rebuild.insertAll files }

/-- Marks the files that define a class. -/
def markDefiners (p : Project) (name : Text) : Project :=
  p.mark (Index.ClassGraph.definers p.store name)

/-- Marks the files that define the relatives of a class. -/
def markRelatives (p : Project) (name : Text) : Project :=
  (p.derived.classes.relatives name).foldl markDefiners p

/-- Marks the files with links that lead to a symbol. -/
def markReferencing (p : Project) (symbol : Text) : Project :=
  p.mark (p.derived.links.referencingFiles p.store symbol)

/-- Finds the targets of the links again that may mean a symbol, and marks the files with links
that moved. -/
def retarget (p : Project) (symbol : Text) : Project :=
  let links := p.derived.links
  let (links, moved) := links.retargetAll p.store (links.mentions symbol)
  mark { p with derived.links := links }
    (moved.flatMap fun key => p.store.definers (Index.linkItem key))

/-- Records that a file defines an item, and says whether the item has this definition only and
did not have it before. -/
def claim (p : Project) (id : ItemId) (file : FileName) (d : Definition) : Bool × Project :=
  let (isNew, store) := p.store.claim id file d
  (isNew && (store.definers id).length = 1, { p with store := store })

/-! ## What a file claims -/

/-- Records that a file defines a symbol. The first definition of a symbol moves links. -/
def addSymbol (p : Project) (file : FileName) (symbol : Text) (d : SymbolDefinition) : Project :=
  let (isFirst, p) := p.claim (Index.symbolItem symbol) file (.rich d)
  if isFirst then p.retarget symbol else p

/-- Records that a file has a link with a text in a scope. -/
def addLink (p : Project) (file : FileName) (scope : Option Text) (text : Text) : Project :=
  let links := p.derived.links.add p.store scope text
  (claim { p with derived.links := links } (Index.linkItem (Index.linkKey scope text)) file .bare).2

/-- Records that a file defines a class. The first definition of a class shows in the files of
its relatives. -/
def addClass (p : Project) (file : FileName) (name : Text) : Project :=
  let (isFirst, p) :=
    claim { p with derived.classes := p.derived.classes.ensure name } (Index.classItem name) file
      .bare
  if isFirst then p.markRelatives name else p

/-- Puts the step from a class to a parent into the graph and marks the files that define them. -/
def connect (p : Project) (name parent : Text) : Project :=
  let p := { p with derived.classes := p.derived.classes.connect name parent }
  markDefiners (markDefiners p name) parent

/-- Records that a file says that a class has a parent. The first to say so shows in the files of
both, and the file itself is marked whenever it did not say so before. -/
def addParent (p : Project) (file : FileName) (name parent : Text) : Project :=
  let id := Index.edgeItem (Index.edgeKey name parent)
  let isNew := (p.store.definition? id file).isNone
  let (isFirst, p) :=
    claim { p with derived.classes := (p.derived.classes.ensure name).ensure parent } id file .bare
  let p := if isFirst then p.connect name parent else p
  if isNew then p.mark [file] else p

/-! ## What a file drops -/

/-- A file changed its definition of a symbol. Only the authoritative one shows in other files. -/
def symbolChanged (p : Project) (symbol : Text) (file : FileName) : Project :=
  if (p.store.authoritative? (Index.symbolItem symbol)).any (·.1 = file) then
    p.markReferencing symbol
  else p

/-- A file dropped a symbol. -/
def symbolDeleted (symbol : Text) (wasLast : Bool) : Run Index Unit := do
  if wasLast then
    let _ ← Run.step (·.deleteItem (Index.symbolItem symbol))
    modify (retarget · symbol)
  else modify (markReferencing · symbol)

/-- A file dropped a link. -/
def linkDeleted (key : Text) (wasLast : Bool) : Run Index Unit := do
  if wasLast then
    modify fun p => { p with derived.links := p.derived.links.remove key }
    let _ ← Run.step (·.deleteItem (Index.linkItem key))

/-- A file dropped a class. -/
def classDeleted (name : Text) (wasLast : Bool) : Run Index Unit := do
  if wasLast then
    let _ ← Run.step (·.deleteItem (Index.classItem name))
    modify (markRelatives · name)
    modify fun p => { p with derived.classes := p.derived.classes.prune p.store name }

/-- Takes the step from a class to a parent out of the graph, marks the files that define them,
and drops them where nothing else holds them. -/
def disconnect (p : Project) (name parent : Text) : Project :=
  let p := { p with derived.classes := p.derived.classes.disconnect name parent }
  let p := markDefiners (markDefiners p name) parent
  { p with
    derived.classes := (p.derived.classes.prune p.store name).prune p.store parent }

/-- A file dropped the step from a class to a parent. -/
def edgeDeleted (key : Text) (wasLast : Bool) : Run Index Unit := do
  if wasLast then
    let _ ← Run.step (·.deleteItem (Index.edgeItem key))
    match Index.splitEdgeKey? key with
    | some (name, parent) => modify (disconnect · name parent)
    | none => pure ()

/-- Keeps the index in line with the store while a watched file is analysed. -/
def listener : Listener Index where
  changed id file := do
    if id.extension = 0 then modify (symbolChanged · id.key file)
  deleted id _ wasLast :=
    match id.extension with
    | 0 => symbolDeleted id.key wasLast
    | 1 => linkDeleted id.key wasLast
    | 2 => classDeleted id.key wasLast
    | 3 => edgeDeleted id.key wasLast
    | _ => pure ()

/-- Starts to watch a file. -/
def watch (file : FileName) : Run Index Unit := Run.step (·.watch file)

/-- Ends the watch of a file and lets the index follow. -/
def analyze : Run Index Unit := Store.analyze listener

end Project

end Commentary
