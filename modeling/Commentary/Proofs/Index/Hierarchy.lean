import Commentary.Proofs.Index.Operation

/-!
# Which classes there are

As long as the names of classes and parents are clean, the key of a step says which two classes
it connects. Then the graph can be read off the store, for all names at once: it has a step, in
both directions, where some file gives it, and a class where some file defines it or a step ends.
-/

namespace Commentary

namespace Claim

open Index

/-- Both ends of a step have clean names. -/
def CleanEnds : Claim → Prop
  | .edge name parent => Clean name ∧ Clean parent
  | _ => True

instance : DecidablePred CleanEnds
  | .edge name parent => inferInstanceAs (Decidable (Clean name ∧ Clean parent))
  | .symbol .. => inferInstanceAs (Decidable True)
  | .link .. => inferInstanceAs (Decidable True)
  | .className .. => inferInstanceAs (Decidable True)

theorem CleanEnds.cleanStep {c : Claim} (h : c.CleanEnds) : c.CleanStep := by
  cases c with
  | edge name parent => exact h.1
  | _ => trivial

end Claim

namespace Index

/-! ## Clean steps -/

/-- Every step that some file gives has clean ends. -/
def CleanEdges (s : Store) : Prop :=
  ∀ key, s.isDefined (edgeItem key) →
    ∃ name parent, Clean name ∧ Clean parent ∧ key = edgeKey name parent

theorem CleanEdges.mono {s s' : Store} (h : CleanEdges s)
    (hkept : ∀ key, s'.isDefined (edgeItem key) → s.isDefined (edgeItem key)) : CleanEdges s' :=
  fun key hd => h key (hkept key hd)

theorem CleanEdges.clean {s : Store} (h : CleanEdges s) {name parent : Text}
    (hd : s.isDefined (edgeItem (edgeKey name parent))) : Clean name := by
  obtain ⟨name', parent', hname, hparent, hkey⟩ := h _ hd
  obtain ⟨rfl, -⟩ := pair_inj_of_clean hname hparent hkey
  exact hname

end Index

namespace Project

open Index

variable {p q : Project} {ok : Claim → Prop} {file : FileName}

theorem cleanEdges_accept (h : CleanEdges p.store) (file : FileName) {c : Claim}
    (hc : c.CleanEnds) : CleanEdges (p.accept file c).store := by
  intro key hd
  by_cases hkey : edgeItem key = c.item
  · cases c with
    | edge name parent => exact ⟨name, parent, hc.1, hc.2, congrArg ItemId.key hkey⟩
    | symbol _ _ => simp [Claim.item, edgeItem, symbolItem] at hkey
    | link _ _ => simp [Claim.item, edgeItem, linkItem] at hkey
    | className _ => simp [Claim.item, edgeItem, classItem] at hkey
  · rw [isDefined_accept_of_ne p file hkey] at hd
    exact h key hd

theorem Move.cleanEdges (h : Move ok file p q) (hok : ∀ c, ok c → c.CleanEnds)
    (hp : CleanEdges p.store) : CleanEdges q.store := by
  obtain h | ⟨c, hc, rfl⟩ | ⟨id, hlast, rfl⟩ := h.cases
  · exact hp.mono fun key hd => h.isDefined _ ▸ hd
  · exact cleanEdges_accept hp file (hok c hc)
  · refine hp.mono fun key hd => ?_
    have hne : edgeItem key ≠ id := by
      rintro rfl
      exact hlast ((alike_vacate hlast).isDefined _ ▸ hd)
    rwa [isDefined_vacate_dropped_of_ne hlast hne] at hd

end Project

namespace Index

/-! ## The graph and the store -/

/-- The graph has nothing else than what the store holds, whatever name is looked up. -/
structure ClassGraph.Exact (g : ClassGraph) (s : Store) : Prop where
  parents : ∀ name parent,
    parent ∈ g.parents name ↔ s.isDefined (edgeItem (edgeKey name parent))
  children : ∀ name parent,
    name ∈ g.children parent ↔ s.isDefined (edgeItem (edgeKey name parent))
  classes : ∀ name, (g.node? name).isSome ↔
    s.isDefined (classItem name) ∨
      ∃ other, s.isDefined (edgeItem (edgeKey name other)) ∨
        s.isDefined (edgeItem (edgeKey other name))

theorem ClassGraph.Mirrors.exact {g : ClassGraph} {s : Store} (h : g.Mirrors s)
    (hs : CleanEdges s) : g.Exact s := by
  have hedge : ∀ name parent, Clean name ∧ s.isDefined (edgeItem (edgeKey name parent)) ↔
      s.isDefined (edgeItem (edgeKey name parent)) := fun _ _ => and_iff_right_of_imp hs.clean
  have hparents : ∀ name parent,
      parent ∈ g.parents name ↔ s.isDefined (edgeItem (edgeKey name parent)) :=
    fun name parent => (h.parents name parent).trans (hedge name parent)
  have hchildren : ∀ name parent,
      name ∈ g.children parent ↔ s.isDefined (edgeItem (edgeKey name parent)) :=
    fun name parent => (h.children name parent).trans (hedge name parent)
  refine ⟨hparents, hchildren, fun name => ?_⟩
  rw [h.standing, ClassGraph.Stands]
  simp only [hparents, hchildren]

/-- The class graph is exact after every run of operations with clean names: classes and steps
may come from any files in any order, and go with any of their analyses. -/
theorem exact_performAll {os : List Operation} (hos : ∀ o ∈ os, o.Claims Claim.CleanEnds) :
    (Operation.performAll os).derived.classes.Exact (Operation.performAll os).store := by
  obtain ⟨-, hmirrors, hclean⟩ := Operation.performAll_induction
    (I := fun p => p.derived.classes.Mirrors p.store ∧ CleanEdges p.store) hos
    ⟨Project.mirrors_empty, fun _ h => absurd h Bool.false_ne_true⟩
    fun _ _ _ hmove h =>
      ⟨hmove.mirrors (fun _ => Claim.CleanEnds.cleanStep) h.1, hmove.cleanEdges (fun _ => id) h.2⟩
  exact hmirrors.exact hclean

/-- Two files give a class the same parent, and one of them makes it a parent of itself as well.
This one then drops all that it said, and a third class is named by nothing but a definition. -/
def sampleClasses : List Operation :=
  [.claim ['a'] (.className ['c']), .claim ['a'] (.edge ['c'] ['p']),
    .claim ['a'] (.edge ['c'] ['c']), .claim ['b'] (.edge ['c'] ['p']),
    .claim ['b'] (.className ['q']), .watch ['a'], .analyze, .analyze]

theorem exact_sampleClasses :
    (∀ o ∈ sampleClasses, o.Claims Claim.CleanEnds) ∧
      (Operation.performAll sampleClasses).derived.classes.Exact
        (Operation.performAll sampleClasses).store :=
  have hos : ∀ o ∈ sampleClasses, o.Claims Claim.CleanEnds := by decide
  ⟨hos, exact_performAll hos⟩

example :
    let classes := (Operation.performAll sampleClasses).derived.classes
    classes.nodes.keys = [['c'], ['p'], ['q']] ∧ classes.parents ['c'] = [['p']] ∧
      classes.children ['c'] = [] := by
  decide

end Index

end Commentary
