import Commentary.Store.Basic

/-!
# Updates

The single steps that change a store. A step that breaks a rule changes nothing and says which
rule it broke.
-/

namespace Commentary.Store

/-- Adds an item without definitions unless it is there, and says whether it was not. -/
def ensureItem (s : Store) (id : ItemId) : Bool × Store :=
  (!s.items.contains id, { s with items := s.items.insertNew id ∅ })

/-- Adds an item, which must not have definitions yet, and says whether it was not there. -/
def addItem (s : Store) (id : ItemId) : Except Violation (Bool × Store) :=
  if s.isDefined id then .error (.addedDefinedItem (s.extensionName id.extension) id.key)
  else .ok (s.ensureItem id)

/-- Removes an item, which must not have definitions any more, and says whether it was there. -/
def deleteItem (s : Store) (id : ItemId) : Except Violation (Bool × Store) :=
  if s.isDefined id then .error (.deletedDefinedItem (s.extensionName id.extension) id.key)
  else .ok (s.items.contains id, { s with items := s.items.erase id })

/-- Notes a claim if the file that makes it is watched. -/
def noteClaim (s : Store) (id : ItemId) (file : FileName) (d : Definition) : Option Watch :=
  s.watched.map fun w => if w.file = file then { w with claims := w.claims.insertNew id d } else w

/-- Records that a file defines an item that is there. A definition that the file has already is
kept. -/
def record (s : Store) (id : ItemId) (file : FileName) (d : Definition) : Store :=
  { s with
    items := s.items.update id (·.insertNew file (s.kept id d))
    files := s.files.upsert file ∅ (·.insert id)
    watched := s.noteClaim id file (s.kept id d) }

/-- Records that a file defines an item, which must be there, and says whether the definition is
new. -/
def addDefinition (s : Store) (id : ItemId) (file : FileName) (d : Definition) :
    Except Violation (Bool × Store) :=
  match s.item? id with
  | none => .error (.unknownItem (s.extensionName id.extension) id.key)
  | some item => .ok (!item.contains file, s.record id file d)

/-- Records that a file defines an item, which is added where it is not there, and says whether
the definition is new. -/
def claim (s : Store) (id : ItemId) (file : FileName) (d : Definition) : Bool × Store :=
  ((s.definition? id file).isNone, (s.ensureItem id).2.record id file d)

/-- Replaces the definition that a file gives for an item, in its place. -/
def changeDefinition (s : Store) (id : ItemId) (file : FileName) (d : Definition) :
    Except Violation (Unit × Store) :=
  if !s.isRich id.extension then
    .error (.changedBareItem (s.extensionName id.extension) id.key)
  else if (s.definition? id file).isNone then
    .error (.missingDefinition (s.extensionName id.extension) id.key file)
  else .ok ((), { s with items := s.items.update id (·.update file fun _ => d) })

/-- Removes the definition that a file gives for an item, and says whether it was the last. -/
def deleteDefinition (s : Store) (id : ItemId) (file : FileName) :
    Except Violation (Bool × Store) :=
  if (s.definition? id file).isNone then
    .error (.missingDefinition (s.extensionName id.extension) id.key file)
  else
    let after :=
      { s with
        items := s.items.update id (·.erase file)
        files := s.files.update file (·.erase id) }
    .ok (!after.isDefined id, after)

/-- Starts to watch a file. Only one file is watched at a time. -/
def watch (s : Store) (file : FileName) : Except Violation (Unit × Store) :=
  match s.watched with
  | some active => .error (.watchAlreadyActive active.file file)
  | none => .ok ((), { s with watched := some { file } })

/-- Forgets a file that defines nothing. -/
def forgetIfEmpty (s : Store) (file : FileName) : Store :=
  if (s.files.get? file).any (·.isEmpty) then { s with files := s.files.erase file } else s

end Commentary.Store
