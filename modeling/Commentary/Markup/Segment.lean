import Commentary.Text.LetterCase
import Commentary.Text.WordPart

/-!
# Addresses in running text

Mail addresses and URLs are recognised where they stand in a text, without any marks. One that
is glued to a word or stands in an explicit link is left alone. A text is cut into segments that
give it back when they are put together.
-/

namespace Commentary.Markup

/-- A part of a text. -/
inductive Segment where
  | text (t : Text)
  /-- A mail address, and how it stands in the text. -/
  | email (written address : Text)
  | url (address : Text)
  deriving DecidableEq

namespace Segment

/-- The part of the text that a segment was cut from. -/
def written : Segment → Text
  | text t => t
  | email written _ => written
  | url address => address

/-! ## Mail addresses -/

/-- A character of a mail address before the at sign, dots apart. -/
def isMailboxChar (c : Char) : Bool :=
  Text.isBasicLetter c || c.isDigit || c = '-' || c = '_'

/-- A character of a part of a domain. -/
def isDomainChar (c : Char) : Bool := Text.isBasicLetter c || c.isDigit || c = '-'

/-- The last part of a domain, of two to four letters, and the rest of the text. -/
def topDomain? (t : Text) : Option (Text × Text) :=
  let letters := (t.takeWhile Text.isBasicLetter).take 4
  if letters.length < 2 then none else some (letters, t.drop letters.length)

/-- The longest domain at the start of a text, and the rest. `inPart` says whether a part of it
has begun. Every part but the last ends with a dot. -/
def domain? (inPart : Bool) : Text → Option (Text × Text)
  | [] => none
  | c :: t =>
    if c = '.' then
      if inPart then ((domain? false t).or (topDomain? t)).map fun (d, rest) => (c :: d, rest)
      else none
    else if isDomainChar c then (domain? true t).map fun (d, rest) => (c :: d, rest)
    else none

/-- The mail address at the start of a text, and the rest. -/
def mailAddress? (t : Text) : Option (Text × Text) :=
  let isLocal c := isMailboxChar c || c = '.'
  let mailbox := t.takeWhile isLocal
  match t.dropWhile isLocal with
  | '@' :: rest =>
    if (Text.splitAll (· = '.') mailbox).all (· ≠ []) then
      (domain? false rest).map fun (d, rest) => (mailbox ++ '@' :: d, rest)
    else none
  | _ => none

/-- The scheme of a mail address. -/
def mailScheme : Text := "mailto:".toList

/-- A text without the scheme of a mail address at its start. -/
def withoutMailScheme (t : Text) : Text := (Text.afterWord? mailScheme t).getD t

/-- The mail address at the start of a text, with or without its scheme. -/
def emailAt? (t : Text) : Option (Segment × Text) :=
  (mailAddress? (withoutMailScheme t)).map fun (address, rest) =>
    (.email (t.take (t.length - rest.length)) address, rest)

/-! ## URLs -/

/-- The schemes of the URLs that are recognised in running text. -/
def urlSchemes : List Text :=
  ["http:".toList, "https:".toList, "ftp:".toList, "news:".toList, "file:".toList]

/-- The marks that may end a URL. -/
def urlMarks : Text := "-=~@#%&_+/;:?*".toList

/-- A character that may end a URL. -/
def isUrlEndChar (c : Char) : Bool := Text.isBasicLetter c || c.isDigit || urlMarks.contains c

/-- A character that may stand in a URL. A dot or a comma cannot end one. -/
def isUrlChar (c : Char) : Bool := isUrlEndChar c || c = '.' || c = ','

/-- The URL at the start of a text, and the rest. -/
def urlAt? (t : Text) : Option (Segment × Text) :=
  match urlSchemes.findSome? fun scheme => Text.afterWord? scheme t with
  | none => none
  | some body =>
    let path := Text.trimEnd (fun c => !isUrlEndChar c) (body.takeWhile isUrlChar)
    if path = [] then none
    else
      let rest := body.drop path.length
      some (.url (t.take (t.length - rest.length)), rest)

/-! ## Where they are accepted -/

/-- An address does not start behind a character of a word or behind the mark that opens an
explicit link. -/
def mayStartAfter (before : Option Char) : Bool :=
  before.all fun c => !(Text.isWordPart c || c = '<')

/-- A mail address does not end before a character of a word or before the mark that closes an
explicit link. -/
def emailMayEndBefore : Text → Bool
  | [] => true
  | c :: _ => !(Text.isWordPart c || c = '>')

/-- A character that shows that a URL goes on, or stands in an explicit link. -/
def continuesUrl (c : Char) : Bool := c.isAlphanum || urlMarks.contains c || c = '>'

/-- A URL does not end where it goes on, also not behind a dot. -/
def urlMayEndBefore : Text → Bool
  | '.' :: c :: _ => !continuesUrl c
  | ['.'] => true
  | c :: _ => !continuesUrl c
  | [] => true

/-- The mail address that is accepted at a place behind a character. -/
def acceptedEmail? (before : Option Char) (t : Text) : Option (Segment × Text) :=
  (emailAt? t).filter fun (_, rest) => mayStartAfter before && emailMayEndBefore rest

/-- The URL that is accepted at a place behind a character. -/
def acceptedUrl? (before : Option Char) (t : Text) : Option (Segment × Text) :=
  (urlAt? t).filter fun (_, rest) => mayStartAfter before && urlMayEndBefore rest

/-! ## Cutting a text -/

/-- The first segment of a kind in a text, with what stands before and behind it. -/
structure Found where
  before : Text
  segment : Segment
  rest : Text

/-- The first place of a text, behind a character, where `at?` finds something. -/
def firstAt (at? : Option Char → Text → Option (Segment × Text)) (before : Option Char) :
    Text → Option Found
  | [] => none
  | c :: t =>
    match at? before (c :: t) with
    | some (segment, rest) => some ⟨[], segment, rest⟩
    | none => (firstAt at? (some c) t).map fun f => { f with before := c :: f.before }

/-- The nearer of a mail address and a URL, and the URL if both start at one place. -/
def nearer : Option Found → Option Found → Option Found
  | some mail, some link => if link.before.length ≤ mail.before.length then some link else some mail
  | some mail, none => some mail
  | none, link => link

/-- The segments of a text behind a character. `fuel` bounds the number of addresses. -/
def cut (fuel : Nat) (before : Option Char) (t : Text) : List Segment :=
  let plain := if t = [] then [] else [text t]
  match fuel, nearer (firstAt acceptedEmail? before t) (firstAt acceptedUrl? before t) with
  | fuel + 1, some found =>
    (if found.before = [] then [] else [text found.before]) ++
      found.segment :: cut fuel found.segment.written.getLast? found.rest
  | _, _ => plain

/-- The segments of a text. Every address takes at least one character, so the length of the
text is fuel enough. -/
def ofText (t : Text) : List Segment := cut t.length none t

end Segment

end Commentary.Markup
