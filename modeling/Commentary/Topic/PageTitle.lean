import Commentary.Topic.Basic

/-!
# Page titles

The page of a file is named by its only topic, by a class, section or file that it starts with,
or by the name of the file.
-/

namespace Commentary

/-- The last part of a path, if it names something. Parts that are empty or stay where they are
do not count at the end, and a step up names nothing. -/
def baseName? (path : Text) : Option Text :=
  let parts := (Text.splitAll (· = '/') path).filter fun part => part ≠ [] ∧ part ≠ ['.']
  parts.getLast?.filter (· ≠ ['.', '.'])

/-- The title of the page for the topics of a file. -/
def pageTitle (topics : List Topic) (file : Text) : Text :=
  match topics with
  | [t] => t.title
  | t :: _ =>
    if !t.kind.isList && t.kind.type.namesPage then t.title else (baseName? file).getD file
  | [] => (baseName? file).getD file

end Commentary
