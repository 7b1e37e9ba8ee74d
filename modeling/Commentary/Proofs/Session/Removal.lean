import Commentary.Proofs.Index.Without
import Commentary.Proofs.Session.Rebuild

/-!
# Taking a file out again

A file that comes into a project puts items, links and classes there, moves the links of other
files and gives their classes relatives. When it is taken out, all of this goes with it, and what
other files say is found as it was before.
-/

namespace Commentary

open Index

theorem Change.without_conclude (c : Change) (p : Project) (file : FileName) :
    (c.conclude p).without file = p.without file := by
  cases c <;> rfl

namespace Session

variable {s : Session}

theorem ReachableBy.noneEmpty {ok : Change → Prop} (hs : s.ReachableBy ok) :
    LinkTable.NoneEmpty s.project.derived.links.byCandidate := by
  induction hs with
  | new settings keywords => exact fun symbol keys h => nomatch h
  | @change s hs c hc ih =>
      obtain ⟨q, hproject, hq⟩ :=
        exists_changed (c := c) (fun _ => True) hs.atRest fun _ _ => trivial
      rw [hproject, c.links_conclude]
      exact hq.moves.preserve (I := fun p => LinkTable.NoneEmpty p.derived.links.byCandidate)
        (fun _ _ => Project.Move.noneEmpty) ih
  | takeRebuild _ ih => exact ih

/-- What other files say, and the index for it, do not depend on what a file says. -/
theorem without_change (hs : s.ReachableBy Change.CleanSteps) {c : Change} (hc : c.CleanSteps) :
    (s.change c).project.without c.file = s.project.without c.file := by
  obtain ⟨q, hproject, hq⟩ := exists_changed Claim.CleanStep hs.atRest hc
  rw [hproject, c.without_conclude]
  exact hq.moves.without_eq (fun _ => id) hs.atRest.links hs.mirrors

theorem not_hasFile_remove (hs : s.project.AtRest) (file : FileName) :
    ¬ (s.change (.remove file)).project.store.hasFile file := by
  obtain ⟨q, hproject, hq⟩ := exists_changed (c := .remove file) (fun _ => True) hs
    fun _ _ => trivial
  rw [hproject, Change.store_conclude]
  intro hfile
  obtain ⟨id, hid⟩ := (Store.hasFile_iff_of_not_vacant hq.atRest.consistent hq.vacant).mp hfile
  have hnone : q.store.definition? id (Change.remove file).file = none :=
    (hq.definition? id file).trans (if_pos rfl)
  rw [hnone] at hid
  cases hid

theorem without_eq_self (hs : s.ReachableBy Change.CleanSteps) {file : FileName}
    (hfile : ¬ s.project.store.hasFile file) : s.project.without file = s.project.unmarked :=
  Project.without_eq_self hs.atRest.toSound hs.atRest.unwatched hs.mirrors hs.noneEmpty hfile

/-- A file that a session does not know can be committed and taken out again. The store, the links
and the class graph are then exactly what they were before, with all orders, and nothing of the
file is left to be written. -/
theorem remove_commit (hs : s.ReachableBy Change.CleanSteps) {f : ParsedFile}
    (hfile : ¬ s.project.store.hasFile f.file) (hf : (Change.commit f).CleanSteps) :
    let committed := s.commit f
    let removed := committed.2.remove f.file
    committed.1 = .ok () ∧ removed.1 = .ok () ∧
      removed.2.project.store = s.project.store ∧
      removed.2.project.derived.links = s.project.derived.links ∧
      removed.2.project.derived.classes = s.project.derived.classes ∧
      f.file ∉ removed.2.project.derived.rebuild := by
  dsimp only
  have hcommitted : (s.change (.commit f)).ReachableBy Change.CleanSteps := hs.change hf
  have hclean : (Change.remove f.file).CleanSteps := fun x hx => absurd hx List.not_mem_nil
  have hremoved := hcommitted.change hclean
  rw [commit_eq hs.atRest, remove_eq hcommitted.atRest]
  have hsame : ((s.change (.commit f)).change (.remove f.file)).project.unmarked =
      s.project.unmarked :=
    calc
      _ = ((s.change (.commit f)).change (.remove f.file)).project.without f.file :=
        (without_eq_self hremoved (not_hasFile_remove hcommitted.atRest f.file)).symm
      _ = (s.change (.commit f)).project.without f.file := without_change hcommitted hclean
      _ = s.project.without f.file := without_change hs hf
      _ = _ := without_eq_self hs hfile
  have hstore := congrArg (fun p : Project => p.store) hsame
  have hlinks := congrArg (fun p : Project => p.derived.links) hsame
  have hclasses := congrArg (fun p : Project => p.derived.classes) hsame
  refine ⟨rfl, rfl, hstore, hlinks, hclasses, ?_⟩
  obtain ⟨q, hproject, -⟩ := exists_changed (c := .remove f.file) (fun _ => True)
    hcommitted.atRest fun _ _ => trivial
  rw [hproject]
  exact fun h => (OrderedSet.mem_erase.mp h).2 rfl

/-- A file with a class that has a parent. The link of `linking` leads to the class, and the
parent is known as the parent of another class already. -/
def hosting : ParsedFile where
  file := ['b']
  title := []
  topics := [{ kind := .single .classType, title := ['x'], line := 0, parents := [['p']] }]

/-- A session with a class and a link that leads nowhere. -/
def lonely (settings : Settings) : Session := ({ settings } : Session).change (.commit linking)

theorem reachableBy_lonely (settings : Settings) :
    (lonely settings).ReachableBy Change.CleanSteps :=
  .change (.new settings .english) (by decide)

theorem remove_commit_hosting :
    (lonely {}).ReachableBy Change.CleanSteps ∧ ¬ (lonely {}).project.store.hasFile hosting.file ∧
      (Change.commit hosting).CleanSteps ∧
      let committed := (lonely {}).commit hosting
      let removed := committed.2.remove hosting.file
      committed.1 = .ok () ∧ removed.1 = .ok () ∧
        removed.2.project.store = (lonely {}).project.store ∧
        removed.2.project.derived.links = (lonely {}).project.derived.links ∧
        removed.2.project.derived.classes = (lonely {}).project.derived.classes ∧
        hosting.file ∉ removed.2.project.derived.rebuild :=
  have hfile : ¬ (lonely {}).project.store.hasFile hosting.file := by decide
  have hclean : (Change.commit hosting).CleanSteps := by decide
  ⟨reachableBy_lonely {}, hfile, hclean, remove_commit (reachableBy_lonely {}) hfile hclean⟩

-- The file had moved the link and added to the graph meanwhile.
example :
    (lonely {}).resolve? none ['x'] ['a'] = none ∧
      (((lonely {}).change (.commit hosting)).resolve? none ['x'] ['a']).isSome ∧
      ((lonely {}).change (.commit hosting)).project.derived.classes.children ['p'] =
        [['t'], ['x']] := by
  decide

end Session

end Commentary
