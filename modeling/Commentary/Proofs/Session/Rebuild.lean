import Commentary.Proofs.Index.Kinship
import Commentary.Proofs.Session.Request

/-!
# What has to be written again

A change of one file may move the links of others, and it may change the relatives of classes
that others define. Every file that shows something else afterwards is marked.
-/

namespace Commentary

open Index

/-- All steps that a change claims start at classes with clean names. -/
def Change.CleanSteps (c : Change) : Prop := ∀ x ∈ c.claims, x.CleanStep

instance : DecidablePred Change.CleanSteps := fun c =>
  inferInstanceAs (Decidable (∀ x ∈ c.claims, x.CleanStep))

namespace Session

/-! ## Links -/

/-- No rebuild is missed through links: if a link of an unchanged file leads elsewhere after a
change, or to another definition, or nowhere any more, then the file is marked. -/
theorem mem_rebuild_of_resolve?_ne {s : Session} (hs : s.Reachable) (c : Change)
    {g : FileName} (hg : g ≠ c.file) {scope : Option Text} {text : Text}
    (hlink : g ∈ s.project.store.definers (linkItem (linkKey scope text)))
    (hne : (s.change c).resolve? scope text g ≠ s.resolve? scope text g) :
    g ∈ (s.change c).project.derived.rebuild := by
  obtain ⟨q, hexec, hq⟩ := c.exec_program (fun _ => True) hs.atRest fun _ _ => trivial
  have hproject : (s.change c).project = c.conclude q := by
    rw [project_change, hexec]
  rw [resolve?, resolve?, hproject, c.store_conclude, c.links_conclude] at hne
  rw [hproject]
  have hnoticed := Project.noticed_of_moves hs.atRest.toSound hg hq.moves
  exact c.mem_rebuild_conclude hg ((hnoticed.results scope text hlink).resolve_right hne)

/-- The session with two files, when its marks have been handed out. -/
def sample : Session := (((({} : Session).commit linking).2.commit defining).2.takeRebuild).2

theorem reachable_sample : sample.Reachable :=
  .takeRebuild (.commit (.commit (.new {} .english) linking) defining)

theorem mem_rebuild_sample :
    sample.Reachable ∧ ['a'] ≠ (Change.remove ['b']).file ∧
      ['a'] ∈ sample.project.store.definers (linkItem (linkKey none ['x'])) ∧
      (sample.change (.remove ['b'])).resolve? none ['x'] ['a'] ≠
        sample.resolve? none ['x'] ['a'] ∧
      ['a'] ∈ (sample.change (.remove ['b'])).project.derived.rebuild :=
  have hg : ['a'] ≠ (Change.remove ['b']).file := by decide
  have hlink : ['a'] ∈ sample.project.store.definers (linkItem (linkKey none ['x'])) := by decide
  have hne : (sample.change (.remove ['b'])).resolve? none ['x'] ['a'] ≠
      sample.resolve? none ['x'] ['a'] := by decide
  ⟨reachable_sample, hg, hlink, hne, mem_rebuild_of_resolve?_ne reachable_sample _ hg hlink hne⟩

/-! ## Relatives -/

theorem ReachableBy.mirrors {s : Session} (hs : s.ReachableBy Change.CleanSteps) :
    s.project.derived.classes.Mirrors s.project.store := by
  induction hs with
  | new settings keywords => exact Project.mirrors_empty
  | @change s hs c hc ih =>
      obtain ⟨q, hproject, hq⟩ := exists_changed Claim.CleanStep hs.atRest hc
      rw [hproject]
      exact hq.mirrors (fun _ => id) ih
  | takeRebuild _ ih => exact ih

/-- No rebuild is missed through inheritance: if a class of an unchanged file has other parents
or children after a change, or other ones of them are defined, then the file is marked. -/
theorem mem_rebuild_of_not_sameKin {s : Session} (hs : s.ReachableBy Change.CleanSteps)
    {c : Change} (hc : c.CleanSteps) {g : FileName} (hg : g ≠ c.file) {name : Text}
    (hclass : g ∈ s.project.store.definers (classItem name))
    (hne : ¬ Project.SameKin name s.project (s.change c).project) :
    g ∈ (s.change c).project.derived.rebuild := by
  obtain ⟨q, hproject, hq⟩ := exists_changed Claim.CleanStep hs.atRest hc
  have hconclude : Project.SameKin name q (c.conclude q) :=
    .of_classes_eq (c.classes_conclude q) fun _ => by rw [c.store_conclude]
  rw [hproject] at hne ⊢
  rcases Project.kin_of_moves (fun _ => id) hs.mirrors hg hq.moves hclass with hmarked | hsame
  · exact c.mem_rebuild_conclude hg hmarked
  · exact absurd (hsame.trans hconclude) hne

/-- A file with a single class. -/
def declaring (file : FileName) (name : Text) : ParsedFile where
  file
  title := []
  topics := [{ kind := .single .classType, title := name, line := 0 }]

/-- A session with a class and its parent in two files, when its marks have been handed out. -/
def family : Session :=
  (({} : Session).changeAll [.commit (declaring ['b'] ['p']), .commit linking]).takeRebuild.2

theorem reachableBy_family : family.ReachableBy Change.CleanSteps :=
  .takeRebuild (.changeAll (.new {} .english) (by decide))

/-- The file with the parent calls it something else, so the class has a parent that nobody
defines. -/
theorem mem_rebuild_family :
    family.ReachableBy Change.CleanSteps ∧
      (Change.commit (declaring ['b'] ['q'])).CleanSteps ∧
      ['a'] ≠ (Change.commit (declaring ['b'] ['q'])).file ∧
      ['a'] ∈ family.project.store.definers (classItem ['t']) ∧
      ¬ Project.SameKin ['t'] family.project
        (family.change (.commit (declaring ['b'] ['q']))).project ∧
      ['a'] ∈ (family.change (.commit (declaring ['b'] ['q']))).project.derived.rebuild :=
  have hc : (Change.commit (declaring ['b'] ['q'])).CleanSteps := by decide
  have hg : ['a'] ≠ (Change.commit (declaring ['b'] ['q'])).file := by decide
  have hclass : ['a'] ∈ family.project.store.definers (classItem ['t']) := by decide
  have hbefore : ['p'] ∈ family.project.definedRelatives ['t'] := by decide
  have hafter : ['p'] ∉ (family.change (.commit (declaring ['b'] ['q']))).project.definedRelatives
      ['t'] := by decide
  have hne : ¬ Project.SameKin ['t'] family.project
      (family.change (.commit (declaring ['b'] ['q']))).project :=
    fun h => hafter ((h.defined ['p']).mpr hbefore)
  ⟨reachableBy_family, hc, hg, hclass, hne,
    mem_rebuild_of_not_sameKin reachableBy_family hc hg hclass hne⟩

-- The mark was not there before.
example : ['a'] ∉ family.project.derived.rebuild := by decide

end Session

end Commentary
