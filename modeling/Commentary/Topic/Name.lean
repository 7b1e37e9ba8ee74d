import Commentary.Text.Basic

/-!
# Names

A symbol is named by the packages that it lies in and its own name, with dots between them.
-/

namespace Commentary.Name

/-- The dot between a package and a name in it. -/
abbrev separator : Char := '.'

/-- The name of something in a package. -/
def qualify (package name : Text) : Text := package ++ separator :: name

/-- The package that a name says it is in. -/
def package? (name : Text) : Option Text := (Text.cutAtLast? (· = separator) name).map Prod.fst

/-- The part of a text behind the last double colon. -/
def afterColons? : Text → Option Text
  | [] => none
  | c :: t => (afterColons? t).or (Text.afterStart? [':', ':'] (c :: t))

/-- A name as code would write it in its package: the part behind the last dot, and behind the
last double colon in that. -/
def unqualified (name : Text) : Text :=
  let own := ((Text.cutAtLast? (· = separator) name).map Prod.snd).getD name
  (afterColons? own).getD own

end Commentary.Name
