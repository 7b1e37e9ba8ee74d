import Commentary.Index.Candidate
import Commentary.Index.Key
import Commentary.Store.Basic

/-!
# Links

A link leads to the best of its candidates that is defined. The table keeps this target for
every link, and for every candidate the links that may mean it, so that a symbol that comes or
goes moves just the links that it concerns.
-/

namespace Commentary.Index

/-- A link and what it leads to. -/
structure Link where
  scope : Option Text
  text : Text
  /-- The symbols that it may mean, best first. -/
  candidates : List Text
  /-- The best candidate that is defined. -/
  target : Option Text
  deriving DecidableEq

/-- The links of a project by their keys. -/
structure LinkTable where
  links : Table Text Link := ∅
  /-- The keys of the links that may mean a symbol. -/
  byCandidate : Table Text (OrderedSet Text) := ∅
  deriving DecidableEq

/-- What a link leads to from the point of view of a file. -/
structure Resolution where
  symbol : Text
  /-- The file whose definition counts. -/
  file : FileName
  definition : Definition
  deriving DecidableEq

/-- The first of some candidates that is defined. -/
def best? (s : Store) (candidates : List Text) : Option Text :=
  candidates.find? fun symbol => s.isDefined (symbolItem symbol)

/-- The definition of a symbol that counts for a file: its own, or the authoritative one. -/
def resolve? (s : Store) (file : FileName) (symbol : Text) : Option Resolution :=
  ((s.item? (symbolItem symbol)).bind fun item => (item.find? file).or item.first?).map
    fun (definer, definition) => ⟨symbol, definer, definition⟩

namespace LinkTable

/-- The link with a text in a scope. -/
def link? (t : LinkTable) (scope : Option Text) (text : Text) : Option Link :=
  t.links.get? (linkKey scope text)

/-- The keys of the links that may mean a symbol. -/
def mentions (t : LinkTable) (symbol : Text) : List Text :=
  ((t.byCandidate.get? symbol).map (·.toList)).getD []

/-- Puts a link into the table, unless it is there. -/
def add (t : LinkTable) (s : Store) (scope : Option Text) (text : Text) : LinkTable :=
  let key := linkKey scope text
  let candidates := candidates scope text
  if t.links.contains key then t
  else
    { links := t.links.insertNew key ⟨scope, text, candidates, best? s candidates⟩
      byCandidate :=
        candidates.foldl (fun table symbol => table.upsert symbol ∅ (·.insert key)) t.byCandidate }

/-- Takes the key of a link from one of its candidates. A candidate without links is dropped. -/
def forget (key symbol : Text) (table : Table Text (OrderedSet Text)) :
    Table Text (OrderedSet Text) :=
  let table := table.update symbol (·.erase key)
  if (table.get? symbol).any (·.isEmpty) then table.erase symbol else table

/-- Takes a link from the table. -/
def remove (t : LinkTable) (key : Text) : LinkTable :=
  match t.links.get? key with
  | none => t
  | some link =>
    { links := t.links.erase key
      byCandidate :=
        link.candidates.foldl (fun table symbol => forget key symbol table) t.byCandidate }

/-- Finds the target of a link again, and says whether it moved. -/
def retarget (s : Store) (t : LinkTable) (key : Text) : LinkTable × Bool :=
  match t.links.get? key with
  | none => (t, false)
  | some link =>
    let target := best? s link.candidates
    if link.target = target then (t, false)
    else ({ t with links := t.links.update key fun link => { link with target := target } }, true)

/-- Finds the targets of some links again, and gives the keys of those that moved. -/
def retargetAll (s : Store) (t : LinkTable) : List Text → LinkTable × List Text
  | [] => (t, [])
  | key :: keys =>
    let (t, moved) := retarget s t key
    let (t, more) := retargetAll s t keys
    (t, if moved then key :: more else more)

/-- The keys of the links that lead to a symbol. -/
def leadingTo (t : LinkTable) (symbol : Text) : List Text :=
  (t.mentions symbol).filter fun key => (t.links.get? key).any (·.target = some symbol)

/-- The files with links that lead to a symbol, without repetitions. -/
def referencingFiles (t : LinkTable) (s : Store) (symbol : Text) : List FileName :=
  (OrderedSet.ofList ((t.leadingTo symbol).flatMap fun key => s.definers (linkItem key))).toList

/-- What a text in a scope leads to from a file, whether a link with it is known or not. -/
def resolve? (t : LinkTable) (s : Store) (scope : Option Text) (text : Text) (file : FileName) :
    Option Resolution :=
  let target :=
    match t.link? scope text with
    | some link => link.target
    | none => best? s (candidates scope text)
  target.bind (Index.resolve? s file)

end LinkTable

end Commentary.Index
