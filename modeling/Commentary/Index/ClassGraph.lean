import Commentary.Index.Key
import Commentary.Store.Basic

/-!
# The class graph

A class has parents and children. A class stands in the graph as long as a file defines it or a
step leads to it or from it.
-/

namespace Commentary.Index

/-- The relatives of a class. -/
structure ClassNode where
  parents : OrderedSet Text := ∅
  children : OrderedSet Text := ∅
  deriving DecidableEq

/-- The classes of a project by name. -/
structure ClassGraph where
  nodes : Table Text ClassNode := ∅
  deriving DecidableEq

namespace ClassNode

/-- The parents and then the children. -/
def relatives (n : ClassNode) : List Text := n.parents.toList ++ n.children.toList

end ClassNode

namespace ClassGraph

/-- The relatives of a class, if it stands in the graph. -/
def node? (g : ClassGraph) (name : Text) : Option ClassNode := g.nodes.get? name

/-- The parents of a class. -/
def parents (g : ClassGraph) (name : Text) : List Text :=
  ((g.node? name).map (·.parents.toList)).getD []

/-- The children of a class. -/
def children (g : ClassGraph) (name : Text) : List Text :=
  ((g.node? name).map (·.children.toList)).getD []

/-- The relatives of a class, its parents first. -/
def relatives (g : ClassGraph) (name : Text) : List Text :=
  ((g.node? name).map (·.relatives)).getD []

/-- Puts a class into the graph unless it stands there. -/
def ensure (g : ClassGraph) (name : Text) : ClassGraph := ⟨g.nodes.insertNew name {}⟩

/-- Puts the step from a class to a parent into the graph, where both stand. -/
def connect (g : ClassGraph) (name parent : Text) : ClassGraph :=
  ⟨(g.nodes.update name fun n => { n with parents := n.parents.insert parent }).update parent
    fun n => { n with children := n.children.insert name }⟩

/-- Takes the step from a class to a parent out of the graph. -/
def disconnect (g : ClassGraph) (name parent : Text) : ClassGraph :=
  ⟨(g.nodes.update name fun n => { n with parents := n.parents.erase parent }).update parent
    fun n => { n with children := n.children.erase name }⟩

/-- Takes a class out of the graph that has no relatives and no definition. -/
def prune (g : ClassGraph) (s : Store) (name : Text) : ClassGraph :=
  if g.relatives name = [] ∧ !s.isDefined (classItem name) then ⟨g.nodes.erase name⟩ else g

/-- The files that define a class. -/
def definers (s : Store) (name : Text) : List FileName := s.definers (classItem name)

/-- The files that say that a class has a parent. -/
def edgeFiles (s : Store) (name parent : Text) : List FileName :=
  s.definers (edgeItem (edgeKey name parent))

end ClassGraph

end Commentary.Index
