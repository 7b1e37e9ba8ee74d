import Commentary.Ordered.Set
import Commentary.Topic.Name

/-!
# Candidates

A link may mean several symbols. The text as it is written comes first, then its singular forms,
and each of them is looked for in the package that the link stands in, then in the packages
around that, and at last in no package.
-/

namespace Commentary.Index

/-- A text with one ending in place of another, if it has that. -/
def replaceEnd? (ending replacement : String) (t : Text) : Option Text :=
  (Text.beforeEnd? ending.toList t).map (· ++ replacement.toList)

/-- The texts that a text may be a plural or a possessive of, without repetitions. -/
def singularForms (t : Text) : List Text :=
  let forms :=
    [replaceEnd? "'s" "" t, replaceEnd? "'" "" t, replaceEnd? "ies" "y" t, replaceEnd? "es" "" t,
      replaceEnd? "s" "" t].filterMap id
  (OrderedSet.ofList (forms.filter fun form => form ≠ [] ∧ form ≠ t)).toList

/-- The packages around a package: what stands before its last dot, and so on. Each step drops
at least the dot, so the length of the name is fuel enough. -/
def outerPackages : Nat → Text → List Text
  | 0, _ => []
  | fuel + 1, package =>
    match Name.package? package with
    | some outer => outer :: outerPackages fuel outer
    | none => []

/-- A scope and the packages around it. An empty scope is none. -/
def scopeChain (scope : Option Text) : List Text :=
  match scope with
  | some (c :: t) => (c :: t) :: outerPackages (t.length + 1) (c :: t)
  | _ => []

/-- One form of a text in every package of a chain, and in none. -/
def qualifiedForms (chain : List Text) (form : Text) : List Text :=
  chain.map (Name.qualify · form) ++ [form]

/-- The symbols that a link with a text in a scope may mean, best first. -/
def candidates (scope : Option Text) (t : Text) : List Text :=
  (OrderedSet.ofList
    ((t :: singularForms t).flatMap (qualifiedForms (scopeChain scope)))).toList

end Commentary.Index
