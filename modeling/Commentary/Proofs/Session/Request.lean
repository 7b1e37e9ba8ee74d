import Commentary.Proofs.Session.Incremental

/-!
# Requests

A session answers requests one after the other. Each request comes down to changes of single
files, and a change of a project at rest succeeds. So no request is ever refused, whatever files
it brings, and what is true of all changes is true of all sessions that can be reached.
-/

namespace Commentary

open Index

/-- What may be asked of a session. -/
inductive Request where
  | commit (f : ParsedFile)
  | reparse (f : SourceFile)
  | reparseAll (files : List SourceFile)
  | remove (file : FileName)

namespace Request

/-- The versions of files that a request commits. -/
def versions (settings : Settings) (keywords : KeywordTable) : Request → List ParsedFile
  | commit f => [f]
  | reparse f => [f.parse settings keywords]
  | reparseAll files => files.map (·.parse settings keywords)
  | remove _ => []

/-- The changes that a request comes down to. -/
def changes (settings : Settings) (keywords : KeywordTable) : Request → List Change
  | remove file => [.remove file]
  | r => (r.versions settings keywords).map .commit

end Request

namespace Session

variable {s : Session}

/-! ## Single files -/

theorem run_eq {α : Type} (s : Session) (x : Run Index α) :
    s.run x = ((x.exec s.project).1, { s with project := (x.exec s.project).2 }) := rfl

theorem change_eq (s : Session) (c : Change) :
    s.change c = { s with project := (c.program.exec s.project).2 } := by
  cases c <;> rfl

theorem atRest_change (hs : s.project.AtRest) (c : Change) : (s.change c).project.AtRest := by
  rw [project_change]
  exact atRest_program hs c

theorem commit_eq (hs : s.project.AtRest) (f : ParsedFile) :
    s.commit f = (.ok (), s.change (.commit f)) :=
  Prod.ext (ok_program hs (.commit f)) rfl

theorem remove_eq (hs : s.project.AtRest) (file : FileName) :
    s.remove file = (.ok (), s.change (.remove file)) :=
  Prod.ext (ok_program hs (.remove file)) rfl

theorem exec_commit (hs : s.project.AtRest) (f : ParsedFile) :
    (Project.commit f).exec s.project = (.ok (), (s.change (.commit f)).project) :=
  Prod.ext (ok_program hs (.commit f)) rfl

theorem reparse_eq (hs : s.project.AtRest) (f : SourceFile) :
    s.reparse f = (.ok (s.parse f), s.change (.commit (s.parse f))) := by
  rw [reparse, run_eq, Run.exec_bind_ok (exec_commit hs _), change_eq]
  rfl

/-! ## Several files -/

theorem changeAll_eq (s : Session) (cs : List Change) :
    s.changeAll cs = { s with project := (s.changeAll cs).project } := by
  induction cs generalizing s with
  | nil => rfl
  | cons c cs ih =>
      have hcons : s.changeAll (c :: cs) = (s.change c).changeAll cs := rfl
      rw [hcons, ih, change_eq]

theorem exec_commitAll (hs : s.project.AtRest) (files : List ParsedFile) :
    (Project.commitAll files).exec s.project =
      (.ok (), (s.changeAll (files.map .commit)).project) := by
  induction files generalizing s with
  | nil => rfl
  | cons f files ih =>
      rw [Project.commitAll, Run.exec_bind_ok (exec_commit hs f)]
      exact ih (atRest_change hs _)

theorem reparseAll_eq (hs : s.project.AtRest) (files : List SourceFile) :
    s.reparseAll files =
      (.ok (files.map s.parse), s.changeAll ((files.map s.parse).map .commit)) := by
  rw [reparseAll, run_eq, Run.exec_bind_ok (exec_commitAll hs _), changeAll_eq]
  rfl

/-! ## Answers -/

/-- What a session answers to a request, with the versions that are committed, and the session
that it leaves. -/
def serve (s : Session) : Request → Except Violation (List ParsedFile) × Session
  | .commit f =>
    let (result, s) := s.commit f
    (result.map fun _ => [f], s)
  | .reparse f =>
    let (result, s) := s.reparse f
    (result.map fun version => [version], s)
  | .reparseAll files => s.reparseAll files
  | .remove file =>
    let (result, s) := s.remove file
    (result.map fun _ => [], s)

theorem serve_eq (hs : s.project.AtRest) (r : Request) :
    s.serve r = (.ok (r.versions s.settings s.keywords),
      s.changeAll (r.changes s.settings s.keywords)) := by
  cases r with
  | commit f =>
      rw [serve, commit_eq hs]
      rfl
  | reparse f =>
      rw [serve, reparse_eq hs]
      rfl
  | reparseAll files => exact reparseAll_eq hs files
  | remove file =>
      rw [serve, remove_eq hs]
      rfl

/-- The sessions that can be reached by changes of a certain kind. -/
inductive ReachableBy (ok : Change → Prop) : Session → Prop where
  | new (settings : Settings) (keywords : KeywordTable) : ReachableBy ok { settings, keywords }
  | change {s : Session} (h : ReachableBy ok s) {c : Change} (hc : ok c) :
      ReachableBy ok (s.change c)
  | takeRebuild {s : Session} (h : ReachableBy ok s) : ReachableBy ok s.takeRebuild.2

namespace ReachableBy

variable {ok : Change → Prop}

theorem atRest (h : s.ReachableBy ok) : s.project.AtRest := by
  induction h with
  | new settings keywords => exact Project.atRest_empty
  | change _ _ ih => exact atRest_change ih _
  | takeRebuild _ ih => exact ih.congr rfl rfl

theorem changeAll (h : s.ReachableBy ok) {cs : List Change} (hcs : ∀ c ∈ cs, ok c) :
    (s.changeAll cs).ReachableBy ok := by
  induction cs generalizing s with
  | nil => exact h
  | cons c cs ih => exact ih (h.change (hcs c (by simp))) fun c hc => hcs c (by simp [hc])

/-- A request brings a session no further than the changes that it comes down to. -/
theorem serve (h : s.ReachableBy ok) {r : Request}
    (hr : ∀ c ∈ r.changes s.settings s.keywords, ok c) : (s.serve r).2.ReachableBy ok := by
  rw [serve_eq h.atRest]
  exact h.changeAll hr

end ReachableBy

/-- The sessions that there can be, whatever files are read, committed and removed. -/
inductive Reachable : Session → Prop where
  | new (settings : Settings) (keywords : KeywordTable) : Reachable { settings, keywords }
  | commit {s : Session} (h : Reachable s) (f : ParsedFile) : Reachable (s.commit f).2
  | reparse {s : Session} (h : Reachable s) (f : SourceFile) : Reachable (s.reparse f).2
  | reparseAll {s : Session} (h : Reachable s) (files : List SourceFile) :
      Reachable (s.reparseAll files).2
  | load {s : Session} (h : Reachable s) (path : Text) (contents : PathContents)
      (language : Language) (autos : List AutoTopic) :
      Reachable (s.load path contents language autos).2
  | remove {s : Session} (h : Reachable s) (file : FileName) : Reachable (s.remove file).2
  | takeRebuild {s : Session} (h : Reachable s) : Reachable s.takeRebuild.2

theorem Reachable.reachableBy (h : s.Reachable) : s.ReachableBy fun _ => True := by
  have hreparse : ∀ (s : Session) (f : SourceFile), s.ReachableBy (fun _ => True) →
      (s.reparse f).2.ReachableBy fun _ => True := by
    intro s f hs
    rw [reparse_eq hs.atRest]
    exact hs.change (c := .commit (s.parse f)) trivial
  induction h with
  | new settings keywords => exact .new settings keywords
  | commit _ f ih => exact ih.change (c := .commit f) trivial
  | reparse _ f ih => exact hreparse _ f ih
  | reparseAll _ files ih =>
      rw [reparseAll_eq ih.atRest]
      exact ih.changeAll fun _ _ => trivial
  | load _ path contents language autos ih =>
      simp only [Session.load]
      split
      · exact ih
      · exact hreparse _ _ ih
  | remove _ file ih => exact ih.change (c := .remove file) trivial
  | takeRebuild _ ih => exact ih.takeRebuild

theorem Reachable.atRest (h : s.Reachable) : s.project.AtRest := h.reachableBy.atRest

end Session

end Commentary
