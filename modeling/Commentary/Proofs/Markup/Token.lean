import Commentary.Markup.Block
import Commentary.Proofs.Markup.Entity

/-!
# Reading markup

Markup is a sequence of characters and tags. A reader goes through it character by character; it
knows the names of the tags and of their attributes, and it takes the marks of a tag for nothing
else. What is written as tokens is read as the same tokens, whatever texts they carry.
-/

namespace Commentary.Markup

/-! ## Tokens -/

/-- The tags that there are. -/
inductive TagName where
  | p | h | ul | li | dl | de | ds | dd | code | b | u | email | url | link
  deriving DecidableEq

namespace TagName

/-- Every name of a tag. -/
def all : List TagName := [p, h, ul, li, dl, de, ds, dd, code, b, u, email, url, link]

/-- The name of a tag as it is written. -/
def text : TagName → Text
  | p => ['p']
  | h => ['h']
  | ul => ['u', 'l']
  | li => ['l', 'i']
  | dl => ['d', 'l']
  | de => ['d', 'e']
  | ds => ['d', 's']
  | dd => ['d', 'd']
  | code => ['c', 'o', 'd', 'e']
  | b => ['b']
  | u => ['u']
  | email => ['e', 'm', 'a', 'i', 'l']
  | url => ['u', 'r', 'l']
  | link => ['l', 'i', 'n', 'k']

/-- The name that a text is. -/
def ofText? (t : Text) : Option TagName := all.find? (·.text = t)

theorem ofText?_text (name : TagName) : ofText? name.text = some name := by
  cases name <;> rfl

end TagName

/-- The attributes that there are. -/
inductive AttributeName where
  | type | target | name | original
  deriving DecidableEq

namespace AttributeName

/-- Every name of an attribute. -/
def all : List AttributeName := [type, target, name, original]

/-- The name of an attribute as it is written. -/
def text : AttributeName → Text
  | type => ['t', 'y', 'p', 'e']
  | target => ['t', 'a', 'r', 'g', 'e', 't']
  | name => ['n', 'a', 'm', 'e']
  | original => ['o', 'r', 'i', 'g', 'i', 'n', 'a', 'l']

/-- The name that a text is. -/
def ofText? (t : Text) : Option AttributeName := all.find? (·.text = t)

end AttributeName

/-- A tag. The values of its attributes are any texts. -/
structure Tag where
  closing : Bool := false
  name : TagName
  attributes : List (AttributeName × Text) := []
  deriving DecidableEq

/-- A character of a text, or a tag. -/
inductive Token where
  | char (c : Char)
  | tag (t : Tag)
  deriving DecidableEq

/-- An attribute as it is written. -/
def renderAttribute (a : AttributeName × Text) : Text :=
  ' ' :: a.1.text ++ '=' :: '"' :: (escape a.2 ++ ['"'])

/-- A tag as it is written. -/
def Tag.render (t : Tag) : Text :=
  '<' :: ((if t.closing then ['/'] else []) ++ t.name.text ++
    (t.attributes.flatMap renderAttribute ++ ['>']))

/-- A token as it is written. -/
def Token.render : Token → Text
  | char c => escapeChar c
  | tag t => t.render

/-! ## The reader -/

/-- Where a reader stands. -/
inductive Place where
  | text
  /-- Behind an ampersand and some characters. -/
  | entity (seen : Text)
  /-- In the name of a tag. -/
  | tagName (closing : Bool) (seen : Text)
  /-- In the name of an attribute. -/
  | attributeName (tag : Tag) (seen : Text)
  /-- Before the value of an attribute. -/
  | quote (tag : Tag) (key : AttributeName)
  /-- In the value of an attribute. -/
  | value (tag : Tag) (key : AttributeName) (seen : Text)
  /-- Behind the value of an attribute. -/
  | behind (tag : Tag)

namespace Place

/-- Reads a character: the token that it ends, if any, and where the reader stands then. A mark
of a tag where there is none is an error. -/
def next? : Place → Char → Option (List Token × Place)
  | text, c =>
    if c = '<' then some ([], tagName false [])
    else if c = '&' then some ([], entity [])
    else if IsMarkup c then none
    else some ([.char c], text)
  | entity seen, c =>
    if c = ';' then
      match unescape ('&' :: seen ++ [';']) with
      | [d] => some ([.char d], text)
      | _ => none
    else some ([], entity (seen ++ [c]))
  | tagName closing seen, c =>
    if c = '/' ∧ !closing ∧ seen = [] then some ([], tagName true [])
    else if c = '>' then (TagName.ofText? seen).map fun name => ([.tag { closing, name }], text)
    else if c = ' ' then
      (TagName.ofText? seen).map fun name => ([], attributeName { closing, name } [])
    else some ([], tagName closing (seen ++ [c]))
  | attributeName tag seen, c =>
    if c = '=' then (AttributeName.ofText? seen).map fun key => ([], quote tag key)
    else some ([], attributeName tag (seen ++ [c]))
  | quote tag key, c => if c = '"' then some ([], value tag key []) else none
  | value tag key seen, c =>
    if c = '"' then
      some ([], behind { tag with attributes := tag.attributes ++ [(key, unescape seen)] })
    else if IsMarkup c then none
    else some ([], value tag key (seen ++ [c]))
  | behind tag, c =>
    if c = '>' then some ([.tag tag], text)
    else if c = ' ' then some ([], attributeName tag [])
    else none

/-- Reads a text from a place on. -/
def run? : Place → Text → Option (List Token × Place)
  | place, [] => some ([], place)
  | place, c :: t =>
    (place.next? c).bind fun (tokens, place) =>
      (place.run? t).map fun (more, place) => (tokens ++ more, place)

end Place

/-- The tokens of a text, if it is markup: it consists of characters, entities and tags. -/
def read? (t : Text) : Option (List Token) :=
  match Place.text.run? t with
  | some (tokens, .text) => some tokens
  | _ => none

/-! ## What is written is read -/

namespace Place

variable {place mid : Place} {tokens : List Token}

theorem run?_cons {c : Char} (h : place.next? c = some (tokens, mid)) (t : Text) :
    place.run? (c :: t) = (mid.run? t).map fun (more, place) => (tokens ++ more, place) := by
  rw [run?, h, Option.bind_some]

theorem run?_append {s : Text} (h : place.run? s = some (tokens, mid)) (t : Text) :
    place.run? (s ++ t) = (mid.run? t).map fun (more, place) => (tokens ++ more, place) := by
  induction s generalizing place tokens with
  | nil =>
      cases h
      rw [List.nil_append]
      cases mid.run? t <;> rfl
  | cons c s ih =>
      obtain ⟨⟨first, next⟩, hnext, hrun⟩ := Option.bind_eq_some_iff.mp h
      obtain ⟨⟨more, last⟩, hmore, heq⟩ := Option.map_eq_some_iff.mp hrun
      cases heq
      rw [List.cons_append, run?_cons hnext, ih hmore]
      cases mid.run? t with
      | none => rfl
      | some r => simp

theorem run?_escapeChar (c : Char) : text.run? (escapeChar c) = some ([.char c], text) := by
  obtain ⟨rfl, he⟩ | ⟨rfl, he⟩ | ⟨rfl, he⟩ | ⟨rfl, he⟩ | ⟨hamp, hmarkup, he⟩ :=
    escapeChar_cases c
  · rw [he]; rfl
  · rw [he]; rfl
  · rw [he]; rfl
  · rw [he]; rfl
  · have hless : c ≠ '<' := fun e => hmarkup (.inl e)
    have hnext : text.next? c = some ([.char c], text) := by
      rw [next?, if_neg hless, if_neg hamp, if_neg hmarkup]
    rw [he, run?_cons hnext]
    rfl

theorem run?_value (tag : Tag) (key : AttributeName) {v : Text} (h : ∀ c ∈ v, ¬ IsMarkup c)
    (seen : Text) : (value tag key seen).run? v = some ([], value tag key (seen ++ v)) := by
  induction v generalizing seen with
  | nil => rw [List.append_nil]; rfl
  | cons c v ih =>
      obtain ⟨hc, hv⟩ := List.forall_mem_cons.mp h
      have hquote : c ≠ '"' := fun e => hc (.inr (.inr e))
      have hnext : (value tag key seen).next? c = some ([], value tag key (seen ++ [c])) := by
        rw [next?, if_neg hquote, if_neg hc]
      rw [run?_cons hnext, ih hv]
      simp

/-- The reader has come to the end of a name or a value, and has read so much of a tag. -/
structure Holds (place : Place) (tag : Tag) : Prop where
  space : place.next? ' ' = some ([], attributeName tag [])
  greater : place.next? '>' = some ([.tag tag], text)

theorem holds_tagName (closing : Bool) (name : TagName) :
    (tagName closing name.text).Holds { closing, name } := by
  refine ⟨?_, ?_⟩
  · rw [next?, if_neg (by simp), if_neg (by simp), if_pos rfl, name.ofText?_text]
    rfl
  · rw [next?, if_neg (by simp), if_pos rfl, name.ofText?_text]
    rfl

theorem holds_behind (tag : Tag) : (behind tag).Holds tag := ⟨rfl, rfl⟩

theorem run?_tagName (closing : Bool) (name : TagName) :
    (tagName closing []).run? name.text = some ([], tagName closing name.text) := by
  cases closing <;> cases name <;> rfl

theorem run?_attributeName (tag : Tag) (key : AttributeName) :
    (attributeName tag []).run? (key.text ++ ['=', '"']) = some ([], value tag key []) := by
  cases key <;> rfl

theorem Holds.run?_attribute {tag : Tag} (h : place.Holds tag) (a : AttributeName × Text) :
    place.run? (renderAttribute a) =
      some ([], behind { tag with attributes := tag.attributes ++ [a] }) := by
  obtain ⟨key, v⟩ := a
  have hvalue : (value tag key []).run? (escape v ++ ['"']) =
      some ([], behind { tag with attributes := tag.attributes ++ [(key, v)] }) := by
    rw [run?_append (run?_value tag key (fun _ => not_isMarkup_of_mem_escape) []), List.nil_append]
    simp [run?, next?, unescape_escape]
  have hsplit : renderAttribute (key, v) =
      ' ' :: ((key.text ++ ['=', '"']) ++ (escape v ++ ['"'])) := by
    simp [renderAttribute]
  rw [hsplit, run?_cons h.space, run?_append (run?_attributeName tag key), hvalue]
  rfl

theorem Holds.run?_attributes {tag : Tag} (h : place.Holds tag)
    (attributes : List (AttributeName × Text)) :
    place.run? (attributes.flatMap renderAttribute ++ ['>']) =
      some ([.tag { tag with attributes := tag.attributes ++ attributes }], text) := by
  induction attributes generalizing place tag with
  | nil =>
      rw [List.append_nil, List.flatMap_nil, List.nil_append, run?_cons h.greater]
      rfl
  | cons a attributes ih =>
      rw [List.flatMap_cons, List.append_assoc, run?_append (h.run?_attribute a),
        ih (holds_behind _), List.append_assoc]
      rfl

/-- The reader goes on to the end of the name of a tag. -/
theorem run?_tagStart (closing : Bool) (name : TagName) :
    text.run? ('<' :: ((if closing then ['/'] else []) ++ name.text)) =
      some ([], tagName closing name.text) := by
  have hless : text.next? '<' = some ([], tagName false []) := rfl
  have hname : (tagName false []).run? ((if closing then ['/'] else []) ++ name.text) =
      some ([], tagName closing name.text) := by
    cases closing with
    | false => exact run?_tagName false name
    | true => cases name <;> rfl
  rw [run?_cons hless, hname]
  rfl

theorem run?_tag (t : Tag) : text.run? t.render = some ([.tag t], text) := by
  obtain ⟨closing, name, attributes⟩ := t
  rw [Tag.render, ← List.cons_append, run?_append (run?_tagStart closing name),
    (holds_tagName closing name).run?_attributes attributes]
  rfl

theorem run?_render (tokens : List Token) :
    text.run? (tokens.flatMap Token.render) = some (tokens, text) := by
  induction tokens with
  | nil => rfl
  | cons token tokens ih =>
      have htoken : text.run? token.render = some ([token], text) := by
        cases token with
        | char c => exact run?_escapeChar c
        | tag t => exact run?_tag t
      rw [List.flatMap_cons, run?_append htoken, ih]
      rfl

end Place

/-- Tokens can be read back from what is written, whatever texts they carry. -/
theorem read?_render (tokens : List Token) :
    read? (tokens.flatMap Token.render) = some tokens := by
  rw [read?, Place.run?_render]

/-! ## What the formatter writes -/

/-- The tokens of a text that is no markup. -/
def chars (t : Text) : List Token := t.map .char

theorem render_chars (t : Text) : (chars t).flatMap Token.render = escape t := by
  rw [chars, List.flatMap_map]
  rfl

/-- Tokens between an opening and a closing tag. -/
def enclose (name : TagName) (tokens : List Token) : List Token :=
  .tag { name } :: tokens ++ [.tag { closing := true, name }]

theorem render_enclose {name : TagName} {tag : String} (h : tag.toList = name.text)
    (tokens : List Token) :
    (enclose name tokens).flatMap Token.render = element tag (tokens.flatMap Token.render) := by
  simp [enclose, element, Token.render, Tag.render, h]

theorem flatMap_render_flatMap {α : Type} {tokens : α → List Token} {write : α → Text}
    (h : ∀ a, (tokens a).flatMap Token.render = write a) (l : List α) :
    (l.flatMap tokens).flatMap Token.render = l.flatMap write := by
  rw [List.flatMap_assoc]
  exact congrArg (l.flatMap ·) (funext h)

/-- The tag of a link. -/
def Target.tag : Target → Tag
  | email address name => { name := .email, attributes := [(.target, address), (.name, name)] }
  | url address name => { name := .url, attributes := [(.target, address), (.name, name)] }
  | symbol name =>
    { name := .link
      attributes := [(.target, name), (.name, name), (.original, '<' :: name ++ ['>'])] }

theorem Target.render_tag (target : Target) : target.tag.render = target.render := by
  unfold Target.render
  cases target <;>
    simp [Target.tag, Tag.render, renderAttribute, tagAttribute, TagName.text, AttributeName.text]

namespace Style

/-- The name of the tags around a span. -/
def tagName : Style → TagName
  | bold => .b
  | underline => .u

end Style

namespace Inline

/-- The tokens of an element. -/
def tokens : Inline → List Token
  | text t => chars t
  | opens s => [.tag { name := s.tagName }]
  | closes s => [.tag { closing := true, name := s.tagName }]
  | link target => [.tag target.tag]

/-- The tokens of a run of text. -/
def tokensOf (t : Text) : List Token := (ofText t).flatMap tokens

theorem render_tokens (i : Inline) : i.tokens.flatMap Token.render = i.render := by
  cases i with
  | text t => exact render_chars t
  | opens s => cases s <;> rfl
  | closes s => cases s <;> rfl
  | link target => exact (List.flatMap_singleton _ _).trans target.render_tag

theorem render_tokensOf (t : Text) : (tokensOf t).flatMap Token.render = format t :=
  flatMap_render_flatMap render_tokens (ofText t)

end Inline

/-- The tokens of a term and its description. -/
def Entry.tokens (e : Entry) : List Token :=
  enclose (if e.isSymbol then .ds else .de) (chars e.term) ++
    enclose .dd (Inline.tokensOf e.description)

theorem Entry.render_tokens (e : Entry) : e.tokens.flatMap Token.render = e.render := by
  have hterm : (if e.isSymbol then "ds" else "de").toList =
      (if e.isSymbol then TagName.ds else .de).text := by
    cases e.isSymbol <;> rfl
  have hdescription : "dd".toList = TagName.dd.text := rfl
  rw [tokens, List.flatMap_append, render_enclose hterm, render_chars,
    render_enclose hdescription, Inline.render_tokensOf]
  rfl

namespace Block

/-- The tokens of a block. -/
def tokens : Block → List Token
  | paragraph t => enclose .p (Inline.tokensOf t)
  | heading t => enclose .h (Inline.tokensOf t)
  | bullets items => enclose .ul (items.flatMap fun t => enclose .li (Inline.tokensOf t))
  | entries items => enclose .dl (items.flatMap Entry.tokens)
  | code lines =>
    .tag { name := .code, attributes := [(.type, "anonymous".toList)] } ::
      chars (Text.join [Text.lineFeed] lines) ++ [.tag { closing := true, name := .code }]

theorem render_tokens (block : Block) : block.tokens.flatMap Token.render = block.render := by
  have hinline : ∀ (name : TagName) (tag : String), tag.toList = name.text → ∀ t : Text,
      (enclose name (Inline.tokensOf t)).flatMap Token.render = element tag (Inline.format t) := by
    intro name tag h t
    rw [render_enclose h, Inline.render_tokensOf]
  unfold Block.render
  cases block with
  | paragraph t => exact hinline .p "p" rfl t
  | heading t => exact hinline .h "h" rfl t
  | bullets items =>
      have hul : "ul".toList = TagName.ul.text := rfl
      rw [tokens, render_enclose hul, flatMap_render_flatMap (hinline .li "li" rfl)]
  | entries items =>
      have hdl : "dl".toList = TagName.dl.text := rfl
      rw [tokens, render_enclose hdl, flatMap_render_flatMap Entry.render_tokens]
  | code lines =>
      have hvalue : escape ['a', 'n', 'o', 'n', 'y', 'm', 'o', 'u', 's'] =
          ['a', 'n', 'o', 'n', 'y', 'm', 'o', 'u', 's'] := rfl
      rw [tokens, List.flatMap_append, List.flatMap_cons, render_chars]
      simp [Token.render, Tag.render, renderAttribute, tagAttribute, TagName.text,
        AttributeName.text, hvalue]

end Block

/-- A body is read as the tokens of its blocks. -/
theorem read?_formatBody (kind : TopicKind) (lines : List Text) :
    read? (formatBody kind lines) = some ((Block.ofLines kind lines).flatMap Block.tokens) := by
  rw [formatBody, ← flatMap_render_flatMap Block.render_tokens, read?_render]

end Commentary.Markup
