import Commentary.Markup.Entity
import Commentary.Markup.Segment

/-!
# Inline markup

A run of text may hold bold and underlined spans, links in angle brackets, and addresses. Which
marks open and close a span depends on the text on either side of them, and a span is opened
only if its end is found further on. Everything else stays text.
-/

namespace Commentary.Markup

/-! ## Pieces -/

/-- A character that may open or close something. -/
inductive Mark where
  | star
  | underscore
  | less
  | greater
  deriving DecidableEq

/-- The character of a mark. -/
def Mark.char : Mark → Char
  | star => '*'
  | underscore => '_'
  | less => '<'
  | greater => '>'

/-- The mark that a character is. -/
def Mark.ofChar? (c : Char) : Option Mark :=
  if c = '*' then some star
  else if c = '_' then some underscore
  else if c = '<' then some less
  else if c = '>' then some greater
  else none

/-- A text is read in pieces: single marks, the runs between them, and addresses. -/
inductive Piece where
  | mark (m : Mark)
  | text (t : Text)
  | email (written address : Text)
  | url (address : Text)
  deriving DecidableEq

namespace Piece

/-- The text that a piece was cut from. -/
def written : Piece → Text
  | mark m => [m.char]
  | text t => t
  | email written _ => written
  | url address => address

/-- The pieces of a text without addresses. -/
def ofPlain : Text → List Piece
  | [] => []
  | c :: t =>
    match Mark.ofChar? c, ofPlain t with
    | some m, pieces => mark m :: pieces
    | none, text run :: pieces => text (c :: run) :: pieces
    | none, pieces => text [c] :: pieces

/-- The pieces of a segment. -/
def ofSegment : Segment → List Piece
  | .text t => ofPlain t
  | .email written address => [email written address]
  | .url address => [url address]

/-- The pieces of a text. -/
def ofText (t : Text) : List Piece := (Segment.ofText t).flatMap ofSegment

/-- Whether the last character of a piece is one of the given ones. -/
def endsIn (chars : Text) (p : Piece) : Bool := p.written.getLast?.any chars.contains

/-- Whether the first character of a piece is one of the given ones. -/
def startsIn (chars : Text) (p : Piece) : Bool := p.written.head?.any chars.contains

/-- Whether a piece holds a space, a tab or a line feed. -/
def hasGap (p : Piece) : Bool := p.written.any " \t\n".toList.contains

end Piece

/-! ## Opening and closing marks -/

/-- What a mark does where it stands. -/
inductive Role where
  | opens
  | closes
  | literal
  deriving DecidableEq

namespace Mark

/-- Whether a mark between two pieces can open something: at the start, behind a gap or behind
punctuation that opens, and right before other text. -/
def canOpen (m : Mark) (before after : Option Piece) : Bool :=
  m ≠ greater
    && before.all (Piece.endsIn " \t\n(\x7b[\"'-/*_".toList)
    && after.any (fun p => !p.startsIn " \t\n".toList)
    && (m ≠ less || after.any (fun p => !p.startsIn "<=-".toList))
    && (m ≠ star || after.any (fun p => !p.startsIn "=*".toList))
    && (m = less || before.all (fun p => !p.endsIn "*_".toList))

/-- Whether the text behind a link lets it end: an apostrophe or a plural ending may follow the
bracket. -/
def allowsAfterLink (after : Piece) : Bool := after.startsIn "s'".toList ||
  (Text.afterStart? "es".toList after.written).isSome

/-- Whether a mark between two pieces can close something: right behind other text, and at the
end, before a gap or before punctuation that closes. -/
def canClose (m : Mark) (before after : Option Piece) : Bool :=
  m ≠ less
    && after.all (fun p =>
      p.startsIn " \t\n)]\x7d.,!?\"';:-/*_".toList || (m = greater && allowsAfterLink p))
    && before.any (fun p => !p.endsIn " \t\n".toList)
    && (m ≠ greater || before.any (fun p => !p.endsIn ">=-".toList))
    && (m = greater || before.all (fun p => !p.endsIn "*_".toList))

/-- What a mark does between two pieces. -/
def role (m : Mark) (before after : Option Piece) : Role :=
  if m.canOpen before after then .opens
  else if m.canClose before after then .closes
  else .literal

end Mark

/-! ## Looking for the end of a span -/

/-- The number of pieces in a link before the mark that closes it, where `passed` of them are
passed already and `before` is the last piece passed. Another link that opens makes the first
mark literal, and a link is never empty. -/
def linkLength? (before : Piece) (passed : Nat) : List Piece → Option Nat
  | [] => none
  | p :: rest =>
    if p = .mark .less ∧ Mark.role .less (some before) rest.head? = .opens then none
    else if p = .mark .greater ∧ Mark.role .greater (some before) rest.head? = .closes then
      if passed = 0 then none else some passed
    else linkLength? p (passed + 1) rest

/-- The number of pieces in a bold or underlined span before the mark that closes it. `skip`
counts the pieces to come that belong to a link, where no mark closes the span. -/
def spanLength? (m : Mark) (before : Piece) (passed skip : Nat) : List Piece → Option Nat
  | [] => none
  | p :: rest =>
    match skip with
    | skip + 1 => spanLength? m p (passed + 1) skip rest
    | 0 =>
      if p = .mark .less ∧ Mark.role .less (some before) rest.head? = .opens then
        spanLength? m p (passed + 1) (((linkLength? p 0 rest).map (· + 1)).getD 0) rest
      else if p = .mark m then
        match m.role (some before) rest.head? with
        | .opens => none
        | .closes => if passed = 0 then none else some passed
        | .literal => spanLength? m p (passed + 1) 0 rest
      else spanLength? m p (passed + 1) 0 rest

/-- The pieces of the link that a mark opens between two pieces, if it opens one. -/
def openedLink? (before : Option Piece) (rest : List Piece) : Option (List Piece) :=
  if Mark.role .less before rest.head? = .opens then
    (linkLength? (.mark .less) 0 rest).map rest.take
  else none

/-- The pieces of the span that a mark opens between two pieces, if it opens one. -/
def openedSpan? (m : Mark) (before : Option Piece) (rest : List Piece) : Option (List Piece) :=
  if m.role before rest.head? = .opens then
    (spanLength? m (.mark m) 0 0 rest).map rest.take
  else none

/-! ## Inline elements -/

/-- A way to set off a span of text. -/
inductive Style where
  | bold
  | underline
  deriving DecidableEq

/-- What a link in angle brackets leads to, and the name that stands for it. -/
inductive Target where
  | email (address name : Text)
  | url (address name : Text)
  | symbol (name : Text)
  deriving DecidableEq

/-- An element of inline markup. -/
inductive Inline where
  | text (t : Text)
  | opens (s : Style)
  | closes (s : Style)
  | link (target : Target)
  deriving DecidableEq

namespace Target

/-- The mail address that a whole text is. -/
def wholeEmail? (t : Text) : Option Text :=
  match Segment.mailAddress? (Segment.withoutMailScheme t) with
  | some (address, []) => some address
  | _ => none

/-- The rest of a text that starts with a scheme and a colon. -/
def afterScheme? (t : Text) : Option Text :=
  match t.takeWhile Text.isBasicLetter, t.dropWhile Text.isBasicLetter with
  | _ :: _, ':' :: rest => some rest
  | _, _ => none

/-- The URL that a whole text on one line is, if something follows its scheme. -/
def wholeUrl? (t : Text) : Option Text :=
  match afterScheme? t with
  | some (c :: rest) => if Text.lineFeed ∈ c :: rest then none else some t
  | _ => none

/-- A name and an address with the word `at` between them. The name is as short as possible, and
stands on one line. -/
def named? (address? : Text → Option Text) : Text → Option (Text × Text)
  | [] => none
  | c :: t =>
    if c = Text.lineFeed then none
    else
      match (Text.afterWord? " at ".toList t).bind address? with
      | some address => some ([c], address)
      | none => (named? address? t).map fun (name, address) => (c :: name, address)

/-- What the text of a link in angle brackets leads to. -/
def ofText (t : Text) : Target :=
  match wholeEmail? t with
  | some address => email address address
  | none =>
    match named? wholeEmail? t with
    | some (name, address) => email address name
    | none =>
      if (afterScheme? t).isSome then url t t
      else
        match named? wholeUrl? t with
        | some (name, address) => url address name
        | none => symbol t

end Target

namespace Inline

/-- Which spans are open. -/
structure Spans where
  bold : Bool := false
  /-- For an open underlined span, whether it holds a gap. -/
  underline : Option Bool := none

/-- The element of a star between two pieces, and the spans that are open behind it. -/
def ofStar (spans : Spans) (before : Option Piece) (rest : List Piece) : Inline × Spans :=
  if (openedSpan? .star before rest).isSome then (opens .bold, { spans with bold := true })
  else if spans.bold ∧ Mark.role .star before rest.head? = .closes then
    (closes .bold, { spans with bold := false })
  else (text ['*'], spans)

/-- The element of an underscore between two pieces, and the spans that are open behind it. In
an underlined span without gaps the underscores stand for spaces. -/
def ofUnderscore (spans : Spans) (before : Option Piece) (rest : List Piece) : Inline × Spans :=
  match openedSpan? .underscore before rest with
  | some inner => (opens .underline, { spans with underline := some (inner.any Piece.hasGap) })
  | none =>
    if spans.underline.isSome ∧ Mark.role .underscore before rest.head? = .closes then
      (closes .underline, { spans with underline := none })
    else if spans.underline = some false then (text [' '], spans)
    else (text ['_'], spans)

/-- The elements of some pieces. `skip` counts the pieces to come that belong to a link. -/
def ofPiecesFrom (spans : Spans) (before : Option Piece) (skip : Nat) : List Piece → List Inline
  | [] => []
  | p :: rest =>
    match skip with
    | skip + 1 => ofPiecesFrom spans (some p) skip rest
    | 0 =>
      match p with
      | .text t => text t :: ofPiecesFrom spans (some p) 0 rest
      | .email _ address => link (.email address address) :: ofPiecesFrom spans (some p) 0 rest
      | .url address => link (.url address address) :: ofPiecesFrom spans (some p) 0 rest
      | .mark .greater => text ['>'] :: ofPiecesFrom spans (some p) 0 rest
      | .mark .less =>
        match openedLink? before rest with
        | some inner =>
          link (.ofText (inner.flatMap Piece.written)) ::
            ofPiecesFrom spans (some p) (inner.length + 1) rest
        | none => text ['<'] :: ofPiecesFrom spans (some p) 0 rest
      | .mark .star =>
        let (element, spans) := ofStar spans before rest
        element :: ofPiecesFrom spans (some p) 0 rest
      | .mark .underscore =>
        let (element, spans) := ofUnderscore spans before rest
        element :: ofPiecesFrom spans (some p) 0 rest

/-- The elements of a run of text. -/
def ofText (t : Text) : List Inline := ofPiecesFrom {} none 0 (Piece.ofText t)

end Inline

/-! ## Writing -/

/-- An attribute of a tag, with a space before it. -/
def tagAttribute (name : String) (value : Text) : Text :=
  ' ' :: name.toList ++ "=\"".toList ++ value ++ ['"']

namespace Style

/-- The name of the tags around a span. -/
def tag : Style → Text
  | bold => ['b']
  | underline => ['u']

end Style

namespace Target

/-- The tag of a link. The last attribute gives a symbol as it stands in the text, in its
brackets. -/
def render : Target → Text
  | email address name =>
    "<email".toList ++
      tagAttribute "target" (escape address) ++ tagAttribute "name" (escape name) ++
      ['>']
  | url address name =>
    "<url".toList ++ tagAttribute "target" (escape address) ++ tagAttribute "name" (escape name) ++
      ['>']
  | symbol name =>
    "<link".toList ++ tagAttribute "target" (escape name) ++ tagAttribute "name" (escape name) ++
      tagAttribute "original" (escape ('<' :: name ++ ['>'])) ++ ['>']

end Target

namespace Inline

/-- An element as it is written. -/
def render : Inline → Text
  | text t => escape t
  | opens s => '<' :: s.tag ++ ['>']
  | closes s => '<' :: '/' :: s.tag ++ ['>']
  | link target => target.render

/-- A run of text as inline markup. -/
def format (t : Text) : Text := (ofText t).flatMap render

end Inline

end Commentary.Markup
