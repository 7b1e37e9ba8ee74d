import Commentary.Ordered.Set
import Commentary.Topic.Delineate

/-!
# Merging topics from comments and from code

An automatic topic gives what it knows to the comment that documents the same thing, if that is
the next one at or before it. Otherwise it is inserted by its line, unless a list documents it.
-/

namespace Commentary.Topic

/-- A title without the list of parameters at its end. -/
def withoutParameters (title : Text) : Text :=
  match Text.cutAtLast? (· = '(') title with
  | some (before, _) => Text.trimEnd Text.isSpaceOrTab before
  | none => title

/-- Whether a topic documents what an automatic one was found for. -/
def documents (t : Topic) (a : AutoTopic) : Bool :=
  a.kind = t.kind && Text.includes a.name (withoutParameters t.title)

/-- Gives a topic what is known from code about the thing that it documents. -/
def withAuto (t : Topic) (a : AutoTopic) : Topic :=
  let t := if a.prototype.isSome then t.withPrototype a.prototype else t
  let t := if t.scopeRule = .member then t.withPackage a.package else t
  { t with
    isExported := t.isExported || a.isExported
    parents := if t.parents = [] then a.parents else t.parents }

/-- Names that lists document, each with the type of the list. -/
abbrev Listed := OrderedSet (TopicType × Text)

/-- The names that the body of a topic documents, if it is a list. -/
def listedNames (t : Topic) : List (TopicType × Text) :=
  match t.kind.isList, t.body with
  | true, some body => (Markup.symbolEntries body).map fun entry => (t.kind.type, entry.name)
  | _, _ => []

/-- Automatic topics that are left, those that were placed, and the names that are still listed. -/
structure Placed where
  topics : List Topic
  listed : Listed
  rest : List AutoTopic

/-- Places the automatic topics before a line, or all of them: one that is listed is documented
there, and the others become topics of their own, unless only documented ones are wanted. -/
def place (documentedOnly : Bool) (line : Option Nat) (listed : Listed) :
    List AutoTopic → Placed
  | [] => ⟨[], listed, []⟩
  | a :: autos =>
    if line.any (· ≤ a.line) then ⟨[], listed, a :: autos⟩
    else if (a.kind.type, a.name) ∈ listed then
      place documentedOnly line (listed.erase (a.kind.type, a.name)) autos
    else
      let more := place documentedOnly line listed autos
      { more with topics := if documentedOnly then more.topics else a.toTopic :: more.topics }

/-- Merges automatic topics, in the order of their lines, into the topics of a file. -/
def mergeFrom (documentedOnly : Bool) (listed : Listed) (autos : List AutoTopic) :
    List Topic → List Topic
  | [] => (place documentedOnly none listed autos).topics
  | t :: topics =>
    let placed := place documentedOnly (some t.line) listed autos
    placed.topics ++
      match placed.rest with
      | [] => t :: topics
      | a :: rest =>
        if t.documents a then t.withAuto a :: mergeFrom documentedOnly placed.listed rest topics
        else
          t :: mergeFrom documentedOnly (placed.listed.insertAll t.listedNames) (a :: rest) topics

/-- The topics of a file, from its comments and from its code, with delineators between them. -/
def merge (documentedOnly : Bool) (topics : List Topic) (autos : List AutoTopic) : List Topic :=
  delineate
    (mergeFrom documentedOnly ∅ (autos.mergeSort fun a b => a.line ≤ b.line) topics)

end Commentary.Topic
