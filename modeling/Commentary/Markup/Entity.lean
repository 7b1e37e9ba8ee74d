import Commentary.Text.Basic

/-!
# Entities

Four characters are reserved by the markup and are written as entities in text and attributes.
-/

namespace Commentary.Markup

/-- A character as it is written in text and in attributes. -/
def escapeChar (c : Char) : Text :=
  if c = '&' then "&amp;".toList
  else if c = '<' then "&lt;".toList
  else if c = '>' then "&gt;".toList
  else if c = '"' then "&quot;".toList
  else [c]

/-- A text with its reserved characters as entities. -/
def escape (t : Text) : Text := t.flatMap escapeChar

/-- A text with its entities as the characters that they stand for. What an entity gives is not
read again. -/
def unescape : Text → Text
  | '&' :: 'l' :: 't' :: ';' :: t => '<' :: unescape t
  | '&' :: 'g' :: 't' :: ';' :: t => '>' :: unescape t
  | '&' :: 'q' :: 'u' :: 'o' :: 't' :: ';' :: t => '"' :: unescape t
  | '&' :: 'a' :: 'm' :: 'p' :: ';' :: t => '&' :: unescape t
  | c :: t => c :: unescape t
  | [] => []

end Commentary.Markup
