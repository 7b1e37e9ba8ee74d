import Commentary.Session.Basic

/-!
# Loading files

A file that is read from a path may be missing, may be a directory, or may hold something else
than text. Then nothing is committed, and the error names the path and the reason.
-/

namespace Commentary

/-- What is found at a path. -/
inductive PathContents where
  | nothing
  | directory
  | bytes (content : ByteArray)

/-- Why the text of a file could not be had. -/
inductive ReadFailure where
  | notFound
  | isDirectory
  | notText
  deriving DecidableEq

/-- The reason in words. -/
def ReadFailure.text : ReadFailure → Text
  | notFound => "No such file or directory (os error 2)".toList
  | isDirectory => "Is a directory (os error 21)".toList
  | notText => "stream did not contain valid UTF-8".toList

/-- The text of a file, if it is there and encoded in UTF-8. -/
def PathContents.text : PathContents → Except ReadFailure Text
  | nothing => .error .notFound
  | directory => .error .isDirectory
  | bytes content =>
    match String.fromUTF8? content with
    | some t => .ok t.toList
    | none => .error .notText

/-- Why a file could not be loaded. -/
inductive LoadError where
  | unreadable (path : Text) (failure : ReadFailure)
  | violation (v : Violation)
  deriving DecidableEq

namespace LoadError

/-- The error in words. -/
def message : LoadError → Text
  | unreadable path failure => "failed to read ".toList ++ path ++ ": ".toList ++ failure.text
  | violation v => v.message

/-- Whether the error shows that a rule of the store was broken. -/
def isViolation : LoadError → Bool
  | unreadable .. => false
  | violation _ => true

end LoadError

/-- Reads the file at a path and commits it. -/
def Session.load (s : Session) (path : Text) (contents : PathContents) (language : Language)
    (autos : List AutoTopic) : Except LoadError ParsedFile × Session :=
  match contents.text with
  | .error failure => (.error (.unreadable path failure), s)
  | .ok text =>
    let (result, s) := s.reparse { name := path, text, language, autos }
    (result.mapError .violation, s)

end Commentary
