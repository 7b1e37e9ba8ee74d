import Commentary.Text.Quoted

/-!
# Violations

What the users of a store may get wrong. An item in a message is quoted; the names of files and
extensions are not.
-/

namespace Commentary

/-- A broken rule of the store. Extensions are given by name. -/
inductive Violation where
  /-- An item was added that has definitions. -/
  | addedDefinedItem (extension item : Text)
  /-- An item was deleted that has definitions. -/
  | deletedDefinedItem (extension item : Text)
  /-- A definition was given for an item that was not added. -/
  | unknownItem (extension item : Text)
  /-- A definition was changed in an extension that records only that there is one. -/
  | changedBareItem (extension item : Text)
  /-- A definition was changed or deleted that a file does not have. -/
  | missingDefinition (extension item file : Text)
  /-- A file was watched while another one was. -/
  | watchAlreadyActive (active requested : Text)
  /-- Changes were asked for while no file was watched. -/
  | noWatchedFile
  deriving DecidableEq

namespace Violation

/-- A violation in words. -/
def text : Violation → Text
  | addedDefinedItem extension item =>
    "tried to add item ".toList ++ Text.quote item ++ " to ".toList ++ extension ++
      " but it already had definitions".toList
  | deletedDefinedItem extension item =>
    "tried to delete item ".toList ++ Text.quote item ++ " from ".toList ++ extension ++
      " but it still has definitions".toList
  | unknownItem extension item =>
    "tried to use undefined item ".toList ++ Text.quote item ++ " in ".toList ++ extension
  | changedBareItem extension item =>
    extension ++ " does not use definition objects, so ".toList ++ Text.quote item ++
      " cannot be changed".toList
  | missingDefinition extension item file =>
    extension ++ " item ".toList ++ Text.quote item ++ " has no definition in ".toList ++ file
  | watchAlreadyActive active requested =>
    "tried to watch ".toList ++ requested ++ " while ".toList ++ active ++
      " is still being watched".toList
  | noWatchedFile =>
    "tried to analyze watched file changes when no file was being watched".toList

/-- A violation as an error message. -/
def message (v : Violation) : Text := "contract violation: ".toList ++ v.text

end Violation

end Commentary
