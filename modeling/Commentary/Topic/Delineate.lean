import Commentary.Topic.Basic

/-!
# Package delineators

The topics of a file are read in order, and a class opens a package for those that follow it.
Where the next topic lies in another package than the one that is open, a delineator is put
before it: the class again, or a section for what lies in no package.
-/

namespace Commentary.Topic

/-- The title of the section for what lies in no package. -/
def globalTitle : Text := "Global".toList

/-- The body of a class that is opened again. -/
def continuedBody : Text := "<p>(continued)</p>".toList

/-- The topic that opens a package, or closes it, before a line. It says so if the package was
open before. -/
def delineator (package : Option Text) (wasOpened : Bool) (line : Nat) : Topic :=
  match package with
  | none =>
    { kind := .single .sectionType
      title := globalTitle
      line := line
      isDelineator := true }
  | some package =>
    let restated : Topic :=
      { kind := .single .classType
        title := package
        line := line
        package := some package
        scope := some package
        isDelineator := true }
    if wasOpened then restated.withBody continuedBody else restated

/-- Puts delineators between topics, where `current` is the package that is open and `opened`
holds those that were. -/
def delineateFrom (current : Option Text) (opened : List Text) : List Topic → List Topic
  | [] => []
  | t :: topics =>
    match t.scopeRule with
    | .opens => t :: delineateFrom (some t.title) (t.title :: opened) topics
    | .closes => t :: delineateFrom none opened topics
    | .global => t :: delineateFrom current opened topics
    | .member =>
      if t.package = current then t :: delineateFrom current opened topics
      else
        delineator t.package (t.package.any opened.contains) t.line :: t ::
          delineateFrom t.package (t.package.toList ++ opened) topics

/-- The topics of a file with delineators between them. -/
def delineate (topics : List Topic) : List Topic := delineateFrom none [] topics

end Commentary.Topic
