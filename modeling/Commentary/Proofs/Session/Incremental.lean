import Commentary.Proofs.Session.Change
import Mathlib.Data.List.Induction

/-!
# Incremental runs

A session is changed file by file, and what it holds in the end depends on the last version of
every file only. It does not matter which versions came before, in which order the files were
committed, or whether all of them were committed from nothing.
-/

namespace Commentary

open Index

/-- What a file says first about an item. -/
def ParsedFile.claim? (f : ParsedFile) (id : ItemId) : Option Definition :=
  Claim.first? id f.claims

/-- The links of a file have clean scopes, and its steps start at classes with clean names. -/
def ParsedFile.Separable (f : ParsedFile) : Prop :=
  (∀ link ∈ f.links, CleanScope link.1) ∧ ∀ step ∈ f.edges, Clean step.1

instance : DecidablePred ParsedFile.Separable := fun f =>
  inferInstanceAs (Decidable ((∀ link ∈ f.links, CleanScope link.1) ∧
    ∀ step ∈ f.edges, Clean step.1))

theorem ParsedFile.Separable.clean {f : ParsedFile} (hf : f.Separable) :
    ∀ c ∈ f.claims, c.CleanLink ∧ c.CleanStep := by
  intro c hc
  simp only [ParsedFile.claims, List.mem_append, List.mem_map] at hc
  rcases hc with ((⟨x, -, rfl⟩ | ⟨link, hlink, rfl⟩) | ⟨x, -, rfl⟩) | ⟨step, hstep, rfl⟩
  · exact ⟨trivial, trivial⟩
  · exact ⟨hf.1 link hlink, trivial⟩
  · exact ⟨trivial, trivial⟩
  · exact ⟨trivial, hf.2 step hstep⟩

namespace Change

/-- The version of its file that a change leaves, if any. -/
def version? : Change → Option ParsedFile
  | commit f => some f
  | remove _ => none

/-- A version that is committed is separable. -/
def Separable : Change → Prop
  | commit f => f.Separable
  | remove _ => True

instance : DecidablePred Separable
  | commit f => inferInstanceAs (Decidable f.Separable)
  | remove _ => inferInstanceAs (Decidable True)

theorem Separable.clean {c : Change} (hc : c.Separable) :
    ∀ x ∈ c.claims, x.CleanLink ∧ x.CleanStep := by
  cases c with
  | commit f => exact ParsedFile.Separable.clean hc
  | remove file => exact fun _ hx => absurd hx List.not_mem_nil

theorem bind_claim?_version? (c : Change) (id : ItemId) :
    c.version?.bind (·.claim? id) = Claim.first? id c.claims := by
  cases c <;> rfl

end Change

/-- The version of a file that is left after some changes. -/
def lastVersion? (file : FileName) (cs : List Change) : Option ParsedFile :=
  cs.foldl (fun version c => if c.file = file then c.version? else version) none

theorem lastVersion?_concat (file : FileName) (cs : List Change) (c : Change) :
    lastVersion? file (cs ++ [c]) = if c.file = file then c.version? else lastVersion? file cs :=
  List.foldl_concat ..

namespace Project

/-- A project at rest whose texts can be told apart, and which holds the last version of every
file and nothing else. -/
structure Reflects (version? : FileName → Option ParsedFile) (p : Project) : Prop
    extends AtRest p where
  cleanScopes : p.derived.links.CleanScopes
  mirrors : p.derived.classes.Mirrors p.store
  definition? : ∀ id file, p.store.definition? id file = (version? file).bind (·.claim? id)

theorem reflects_empty : Reflects (fun _ => none) .empty :=
  ⟨atRest_empty, cleanScopes_empty, mirrors_empty, fun _ _ => rfl⟩

/-- A change with clean texts puts one version in the place of another. -/
theorem Reflects.change {version? : FileName → Option ParsedFile} {p : Project}
    (h : Reflects version? p) {c : Change} (hc : c.Separable) :
    Reflects (fun file => if c.file = file then c.version? else version? file)
      (c.program.exec p).2 := by
  obtain ⟨q, hexec, hq⟩ :=
    c.exec_program (fun x => x.CleanLink ∧ x.CleanStep) h.toAtRest hc.clean
  rw [hexec]
  have hscopes : q.derived.links.CleanScopes :=
    hq.moves.preserve (fun _ _ hmove => hmove.cleanScopes fun _ => And.left) h.cleanScopes
  refine ⟨hq.conclude, ?_, hq.mirrors (fun _ => And.right) h.mirrors, fun id file => ?_⟩
  · rw [c.links_conclude]
    exact hscopes
  · rw [c.store_conclude, hq.definition?, h.definition?]
    by_cases hf : c.file = file
    · rw [if_pos hf.symm, if_pos hf, c.bind_claim?_version?]
    · rw [if_neg fun e => hf e.symm, if_neg hf]

/-! ## Projects that reflect the same versions -/

theorem isSome_item?_iff {p : Project} (hp : p.Sound) (id : ItemId) :
    (p.store.item? id).isSome ↔ p.store.isDefined id := by
  refine ⟨fun h => (hp.occupied id h).2, fun h => ?_⟩
  rw [Store.isDefined_iff] at h
  cases hitem : p.store.item? id with
  | none => exact absurd (by rw [Store.definitions, hitem]; rfl) h
  | some item => rfl

/-- What two projects have in common that have come to the same versions of their files. Only the
orders in which they list things may be different. -/
structure Agrees (version? : FileName → Option ParsedFile) (p q : Project) : Prop where
  /-- Both hold what each file claims first in its last version. -/
  definitions : ∀ id file,
    p.store.definition? id file = (version? file).bind (·.claim? id) ∧
      q.store.definition? id file = (version? file).bind (·.claim? id)
  items : ∀ id, (q.store.item? id).isSome ↔ (p.store.item? id).isSome
  defined : ∀ id, (p.store.item? id).isSome → p.store.isDefined id ∧ q.store.isDefined id
  /-- The same links are known, and they have the same targets. -/
  targets : ∀ key, (q.derived.links.links.get? key).map (·.target) =
    (p.derived.links.links.get? key).map (·.target)
  classes : ∀ name, (q.derived.classes.node? name).isSome ↔ (p.derived.classes.node? name).isSome
  parents : ∀ name parent,
    parent ∈ q.derived.classes.parents name ↔ parent ∈ p.derived.classes.parents name
  children : ∀ name child,
    child ∈ q.derived.classes.children name ↔ child ∈ p.derived.classes.children name

section

variable {version? : FileName → Option ParsedFile} {p q : Project} (hp : Reflects version? p)
  (hq : Reflects version? q)

include hp hq

theorem Reflects.isDefined_eq (id : ItemId) : q.store.isDefined id = p.store.isDefined id := by
  rw [Bool.eq_iff_iff, Store.isDefined_iff_exists, Store.isDefined_iff_exists]
  refine exists_congr fun file => ?_
  rw [← Store.isSome_definition?_iff, ← Store.isSome_definition?_iff, hp.definition?,
    hq.definition?]

theorem Reflects.targets_eq (key : Text) :
    (q.derived.links.links.get? key).map (·.target) =
      (p.derived.links.links.get? key).map (·.target) := by
  have hregistered : (q.derived.links.links.get? key).isSome ↔
      (p.derived.links.links.get? key).isSome := by
    rw [hq.links.registered, hp.links.registered, hp.isDefined_eq hq]
  cases hl : p.derived.links.links.get? key with
  | none =>
      rw [hl] at hregistered
      rw [Option.not_isSome_iff_eq_none.mp (mt hregistered.mp Bool.false_ne_true)]
  | some link =>
      rw [hl] at hregistered
      obtain ⟨other, hother⟩ := Option.isSome_iff_exists.mp (hregistered.mpr rfl)
      obtain ⟨hkey, hcandidates⟩ := hp.links.origin key link hl
      obtain ⟨hkey', hcandidates'⟩ := hq.links.origin key other hother
      have hsame : other.candidates = link.candidates := by
        rw [hcandidates, hcandidates']
        exact candidates_congr (hq.cleanScopes key other hother) (hp.cleanScopes key link hl)
          (hkey'.trans hkey.symm)
      rw [hother, Option.map_some, Option.map_some, hq.links.target key other hother,
        hp.links.target key link hl, hsame, best?_congr fun _ => hp.isDefined_eq hq _]

theorem Reflects.agrees : Agrees version? p q := by
  have hparents : ∀ name parent,
      parent ∈ q.derived.classes.parents name ↔ parent ∈ p.derived.classes.parents name := by
    intro name parent
    rw [hq.mirrors.parents, hp.mirrors.parents, hp.isDefined_eq hq]
  have hchildren : ∀ name child,
      child ∈ q.derived.classes.children name ↔ child ∈ p.derived.classes.children name := by
    intro name child
    rw [hq.mirrors.children, hp.mirrors.children, hp.isDefined_eq hq]
  refine ⟨fun id file => ⟨hp.definition? id file, hq.definition? id file⟩, fun id => ?_,
    fun id hid => ?_, hp.targets_eq hq, fun name => ?_, hparents, hchildren⟩
  · rw [isSome_item?_iff hq.toSound, isSome_item?_iff hp.toSound, hp.isDefined_eq hq]
  · have hd := (isSome_item?_iff hp.toSound id).mp hid
    exact ⟨hd, (hp.isDefined_eq hq id).trans hd⟩
  · rw [hq.mirrors.standing, hp.mirrors.standing, ClassGraph.Stands, ClassGraph.Stands,
      hp.isDefined_eq hq]
    simp only [hparents, hchildren]

end

end Project

namespace Session

/-- The session after some changes. -/
def changeAll (s : Session) (cs : List Change) : Session := cs.foldl change s

theorem reflects_changeAll (settings : Settings) (keywords : KeywordTable) {cs : List Change}
    (hcs : ∀ c ∈ cs, c.Separable) :
    Project.Reflects (lastVersion? · cs)
      (changeAll { settings, keywords } cs).project := by
  induction cs using List.reverseRecOn with
  | nil => exact Project.reflects_empty
  | append_singleton cs c ih =>
      have hstep : changeAll { settings, keywords } (cs ++ [c]) =
          (changeAll { settings, keywords } cs).change c := List.foldl_concat ..
      rw [hstep, project_change]
      simp only [lastVersion?_concat]
      exact (ih fun c hc => hcs c (by simp [hc])).change (hcs c (by simp))

/-- Two runs of changes that end with the same version of every file leave sessions that agree,
whatever came before. -/
theorem agrees_of_lastVersion?_eq (settings settings' : Settings)
    (keywords keywords' : KeywordTable) {cs ds : List Change} (hcs : ∀ c ∈ cs, c.Separable)
    (hds : ∀ c ∈ ds, c.Separable) (h : ∀ file, lastVersion? file ds = lastVersion? file cs) :
    Project.Agrees (lastVersion? · cs) (changeAll { settings, keywords } cs).project
      (changeAll { settings := settings', keywords := keywords' } ds).project := by
  have hp := reflects_changeAll settings keywords hcs
  have hq := reflects_changeAll settings' keywords' hds
  simp only [h] at hq
  exact hp.agrees hq

/-- A run in which a file goes and comes back. -/
def sampleRun : List Change := [.commit linking, .commit defining, .remove ['a'], .commit linking]

/-- A run in which the same file is empty at first. -/
def otherRun : List Change :=
  [.commit defining, .commit { linking with topics := [] }, .commit linking]

theorem lastVersion?_otherRun (file : FileName) :
    lastVersion? file otherRun = lastVersion? file sampleRun := by
  by_cases ha : ['a'] = file
  · subst ha
    rfl
  · by_cases hb : ['b'] = file
    · subst hb
      rfl
    · simp [lastVersion?, otherRun, sampleRun, Change.file, linking, defining, ha, hb]

theorem agrees_sampleRun :
    (∀ c ∈ sampleRun, c.Separable) ∧ (∀ c ∈ otherRun, c.Separable) ∧
      (∀ file, lastVersion? file otherRun = lastVersion? file sampleRun) ∧
      Project.Agrees (lastVersion? · sampleRun) (changeAll {} sampleRun).project
        (changeAll {} otherRun).project :=
  have hcs : ∀ c ∈ sampleRun, c.Separable := by decide
  have hds : ∀ c ∈ otherRun, c.Separable := by decide
  ⟨hcs, hds, lastVersion?_otherRun,
    agrees_of_lastVersion?_eq {} {} .english .english hcs hds lastVersion?_otherRun⟩

end Session

end Commentary
