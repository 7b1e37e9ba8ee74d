import Commentary.Proofs.Session.Rebuild

/-!
# Files that stand to be written

Only files that are there can be written again. A mark goes to a file that has just been committed,
or to one that holds a definition at that moment; the marks that a file gets by its own removal are
taken away with it. So a file that has been removed is not marked before it is committed again.
-/

namespace Commentary

open Index

/-! ## Marks go to files with definitions -/

namespace Project

variable {p q : Project} {file g : FileName} {ok : Claim → Prop}

/-- Every file that is marked in the second project but not in the first defines something. -/
def Earned (p q : Project) : Prop :=
  ∀ g ∈ q.derived.rebuild, g ∈ p.derived.rebuild ∨ ∃ id, g ∈ q.store.definers id

theorem earned_of_rebuild_eq (h : q.derived.rebuild = p.derived.rebuild) : Earned p q :=
  fun _ hg => .inl (h ▸ hg)

theorem earned_mark {files : List FileName} (h : ∀ g ∈ files, ∃ id, g ∈ p.store.definers id) :
    Earned p (p.mark files) :=
  fun g hg => (mem_rebuild_mark.mp hg).imp_right (h g)

theorem Earned.trans {r : Project} (h : Earned p q) (k : Earned q r) (hs : r.store = q.store) :
    Earned p r := by
  intro g hg
  rcases k g hg with hg | hg
  · rw [hs]
    exact h g hg
  · exact .inr hg

theorem earned_markDefiners (p : Project) (name : Text) : Earned p (p.markDefiners name) :=
  earned_mark fun _ hg => ⟨_, hg⟩

theorem earned_markDefiners_two (p : Project) (name other : Text) :
    Earned p ((p.markDefiners name).markDefiners other) :=
  (earned_markDefiners p name).trans (earned_markDefiners _ other) rfl

theorem earned_markRelatives (p : Project) (name : Text) : Earned p (p.markRelatives name) := by
  intro g hg
  rw [(marked_markRelatives p name).store]
  exact (mem_rebuild_markRelatives.mp hg).imp_right fun ⟨_, _, hg⟩ => ⟨_, hg⟩

theorem earned_markReferencing (p : Project) (symbol : Text) :
    Earned p (p.markReferencing symbol) :=
  earned_mark fun _ hg =>
    have ⟨_, _, hg⟩ := List.mem_flatMap.mp (OrderedSet.mem_ofList.mp hg)
    ⟨_, hg⟩

theorem earned_symbolChanged (p : Project) (symbol : Text) (file : FileName) :
    Earned p (p.symbolChanged symbol file) := by
  simp only [symbolChanged]
  split
  · exact earned_markReferencing p symbol
  · exact earned_of_rebuild_eq rfl

theorem earned_retarget (p : Project) (symbol : Text) : Earned p (p.retarget symbol) :=
  fun _ hg => (mem_rebuild_retarget.mp hg).imp_right fun ⟨_, _, hg⟩ => ⟨_, hg⟩

theorem earned_addParent (p : Project) (file : FileName) (name parent : Text) :
    Earned p (p.addParent file name parent) := by
  -- The file that adds the step defines it from then on.
  have hmark : ∀ q : Project, q.store = (p.accept file (.edge name parent)).store → Earned p q →
      Earned p (if (p.store.definition? (edgeItem (edgeKey name parent)) file).isNone
        then q.mark [file] else q) := by
    intro q hq h
    split
    · refine h.trans (earned_mark fun g hg => ⟨edgeItem (edgeKey name parent), ?_⟩) rfl
      rw [hq, store_accept, Store.mem_definers_claim]
      exact .inr ⟨rfl, List.mem_singleton.mp hg⟩
    · exact h
  rw [addParent_eq]
  refine hmark _ ?_ ?_
  · rw [store_accept]
    split <;> rfl
  · split
    · exact earned_of_rebuild_eq rfl
    · exact earned_markDefiners_two _ name parent

theorem earned_accept (p : Project) (file : FileName) (c : Claim) :
    Earned p (p.accept file c) := by
  cases c with
  | symbol symbol d =>
      rw [accept, addSymbol_eq]
      split
      · exact earned_of_rebuild_eq rfl
      · exact earned_retarget _ symbol
  | link scope text =>
      rw [accept, addLink_eq]
      exact earned_of_rebuild_eq rfl
  | className name =>
      rw [accept, addClass_eq]
      dsimp only
      split
      · exact earned_of_rebuild_eq rfl
      · exact earned_markRelatives _ name
  | edge name parent => exact earned_addParent p file name parent

theorem earned_vacate (p : Project) (id : ItemId) : Earned p (p.vacate id) := by
  obtain ⟨extension, key⟩ := id
  rcases extension with _ | _ | _ | _ | n
  · exact earned_retarget _ key
  · exact earned_of_rebuild_eq rfl
  · exact earned_markRelatives { p with store := p.store.eraseItem ⟨2, key⟩ } key
  · simp only [vacate]
    cases splitEdgeKey? key with
    | none => exact earned_of_rebuild_eq rfl
    | some step => exact earned_markDefiners_two _ step.1 step.2
  · exact earned_of_rebuild_eq rfl

theorem earned_follow (p : Project) (file : FileName) (d : Difference) :
    Earned p (p.follow file d) := by
  cases d with
  | changed id new =>
      simp only [follow]
      split
      · exact earned_symbolChanged _ id.key file
      · exact earned_of_rebuild_eq rfl
  | deleted id =>
      simp only [follow]
      split
      · split
        · exact earned_markReferencing _ id.key
        · exact earned_of_rebuild_eq rfl
      · exact earned_vacate (p.dropped id file) id

theorem Move.earned (h : Move ok file p q) : Earned p q := by
  cases h with
  | @accept c _ => exact earned_accept p file c
  | @follow d _ => exact earned_follow p file d
  | watched w => exact earned_of_rebuild_eq rfl
  | forgetIfEmpty => exact earned_of_rebuild_eq rfl

/-- Moves on behalf of a file mark no other files than those that defined something before. -/
theorem Moves.marked_or_mem_definers (h : Moves ok file p q) (hg : g ≠ file)
    (hmarked : g ∈ q.derived.rebuild) :
    g ∈ p.derived.rebuild ∨ ∃ id, g ∈ p.store.definers id := by
  induction h with
  | refl => exact .inl hmarked
  | tail hmoves hmove ih =>
      rcases hmove.earned g hmarked with hbefore | ⟨id, hid⟩
      · exact ih hbefore
      · exact .inr ⟨id, (Moves.mem_definers (hmoves.tail hmove) hg id).mp hid⟩

end Project

/-! ## Runs -/

namespace Session

/-- One step of a session: a change of a file, or the marks are handed out. -/
inductive Step where
  | change (c : Change)
  | takeRebuild

/-- The session after a step. -/
def step (s : Session) : Step → Session
  | .change c => s.change c
  | .takeRebuild => s.takeRebuild.2

/-- The session after some steps. -/
def stepAll (s : Session) (steps : List Step) : Session := steps.foldl step s

/-- The file has been committed by one of the steps, and it has not been removed since. -/
def Stands (steps : List Step) (file : FileName) : Prop :=
  ∃ before f after, steps = before ++ .change (.commit f) :: after ∧ f.file = file ∧
    .change (.remove file) ∉ after

theorem stands_commit (steps : List Step) (f : ParsedFile) :
    Stands (steps ++ [.change (.commit f)]) f.file :=
  ⟨steps, f, [], rfl, rfl, List.not_mem_nil⟩

theorem Stands.concat {steps : List Step} {file : FileName} (h : Stands steps file) {e : Step}
    (he : e ≠ .change (.remove file)) : Stands (steps ++ [e]) file := by
  obtain ⟨before, f, after, rfl, hf, hafter⟩ := h
  refine ⟨before, f, after ++ [e], by simp, hf, ?_⟩
  simpa [hafter] using he.symm

/-- A session at rest, after some steps, in which all files stand that define something or are
marked. -/
structure Standing (steps : List Step) (s : Session) : Prop where
  atRest : s.project.AtRest
  definers : ∀ id, ∀ g ∈ s.project.store.definers id, Stands steps g
  marked : ∀ g ∈ s.project.derived.rebuild, Stands steps g

variable {steps : List Step} {s : Session}

theorem Standing.takeRebuild (h : Standing steps s) :
    Standing (steps ++ [.takeRebuild]) s.takeRebuild.2 :=
  ⟨h.atRest.congr rfl rfl, fun id g hg => (h.definers id g hg).concat nofun,
    fun _ hg => absurd hg List.not_mem_nil⟩

theorem Standing.change (h : Standing steps s) (c : Change) :
    Standing (steps ++ [.change c]) (s.change c) := by
  obtain ⟨q, hproject, hq⟩ := exists_changed (c := c) (fun _ => True) h.atRest fun _ _ => trivial
  have hother : ∀ g, g ≠ c.file → Stands steps g → Stands (steps ++ [.change c]) g := by
    rintro g hg hstands
    refine hstands.concat fun he => hg ?_
    cases he
    rfl
  refine ⟨atRest_change h.atRest c, fun id g hg => ?_, fun g hg => ?_⟩
  · rw [hproject, c.store_conclude, ← Store.isSome_definition?_iff, hq.definition?] at hg
    by_cases hfile : g = c.file
    · cases c with
      | commit f => exact hfile ▸ stands_commit steps f
      | remove file =>
          -- A file that is removed claims nothing.
          rw [if_pos hfile] at hg
          cases hg
    · rw [if_neg hfile, Store.isSome_definition?_iff] at hg
      exact hother g hfile (h.definers id g hg)
  · rw [hproject] at hg
    by_cases hfile : g = c.file
    · cases c with
      | commit f => exact hfile ▸ stands_commit steps f
      | remove file => exact absurd hfile (OrderedSet.mem_erase.mp hg).2
    · refine hother g hfile ?_
      rcases hq.moves.marked_or_mem_definers hfile (c.mem_rebuild_of_conclude hfile hg)
        with hmarked | ⟨id, hid⟩
      · exact h.marked g hmarked
      · exact h.definers id g hid

theorem standing_stepAll (settings : Settings) (keywords : KeywordTable) (steps : List Step) :
    Standing steps (stepAll { settings, keywords } steps) := by
  induction steps using List.reverseRecOn with
  | nil =>
      refine ⟨Project.atRest_empty, fun id g hg => ?_, fun _ hg => absurd hg List.not_mem_nil⟩
      exact absurd hg List.not_mem_nil
  | append_singleton steps e ih =>
      rw [stepAll, List.foldl_concat]
      cases e with
      | change c => exact ih.change c
      | takeRebuild => exact ih.takeRebuild

/-- After any steps of a new session, a file that is marked has been committed, and it has not
been removed since. -/
theorem stands_of_mem_rebuild (settings : Settings) (keywords : KeywordTable)
    (steps : List Step) {file : FileName}
    (h : file ∈ (stepAll { settings, keywords } steps).project.derived.rebuild) :
    Stands steps file :=
  (standing_stepAll settings keywords steps).marked file h

/-- A link of the first file loses its target when the second file is removed. -/
def sampleSteps : List Step :=
  [.change (.commit linking), .change (.commit defining), .takeRebuild, .change (.remove ['b'])]

theorem stands_sampleSteps :
    ['a'] ∈ (stepAll {} sampleSteps).project.derived.rebuild ∧ Stands sampleSteps ['a'] :=
  have h : ['a'] ∈ (stepAll {} sampleSteps).project.derived.rebuild := by decide
  ⟨h, stands_of_mem_rebuild {} .english sampleSteps h⟩

end Session

end Commentary
