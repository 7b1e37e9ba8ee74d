import Commentary.Text.Basic

/-!
# White space

A blank character is one with the property White_Space. A line feed, a tab and the ideographic
space are blank; the zero width spaces are not.
-/

namespace Commentary.Text

/-- Whether a character is white space. -/
def isBlank (c : Char) : Bool :=
  let n := c.toNat
  n == 0x20 || (0x09 ≤ n && n ≤ 0x0D) || n == 0x85 || n == 0xA0 || n == 0x1680 ||
    (0x2000 ≤ n && n ≤ 0x200A) || n == 0x2028 || n == 0x2029 || n == 0x202F ||
    n == 0x205F || n == 0x3000

/-- The text without the white space at its end. -/
abbrev trimBlankEnd (t : Text) : Text := trimEnd isBlank t

/-- The text without the white space at either end. -/
abbrev trimBlank (t : Text) : Text := trim isBlank t

/-- Whether a text holds white space alone. -/
abbrev isAllBlank (t : Text) : Bool := t.all isBlank

/-- The runs of characters between white space. -/
def words (t : Text) : List Text := (splitAll isBlank t).filter (· ≠ [])

/-- The words of a text with one space between neighbours. -/
def squeeze (t : Text) : Text := join [' '] (words t)

end Commentary.Text
