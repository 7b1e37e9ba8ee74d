import Commentary.Proofs.Index.Invariant
import Commentary.Proofs.Store.Watch
import Commentary.Session.Load

/-!
# Changes of a session

A file is committed or removed, and nothing else changes a project. Either way its claims take
the place of all that it said before: the watch succeeds, each file says afterwards what it has
claimed or what it said before, and the project has come there by moves.
-/

namespace Commentary

open Index

/-! ## Claims of a file -/

/-- What a file claims, in the order in which it is recorded. -/
def ParsedFile.claims (f : ParsedFile) : List Claim :=
  f.symbols.map (fun (symbol, d) => .symbol symbol d) ++
    f.links.map (fun (scope, text) => .link scope text) ++
    f.classes.map .className ++
    f.edges.map fun (name, parent) => .edge name parent

namespace Claim

/-- The calls that record a claim. -/
def calls (file : FileName) (c : Claim) : List Call :=
  [.ensure c.item, .add c.item file c.definition]

/-- What the first claim for an item says. -/
def first? (id : ItemId) (cs : List Claim) : Option Definition :=
  (cs.find? (·.item = id)).map definition

theorem first?_eq_none_of_le {id : ItemId} (h : 4 ≤ id.extension) (cs : List Claim) :
    first? id cs = none := by
  rw [first?, Option.map_eq_none_iff, List.find?_eq_none]
  intro c _ hc
  have hlt := c.extension_item_lt
  rw [of_decide_eq_true hc] at hlt
  omega

theorem kept_definition {s : Store} (hs : s.extensions = Index.extensions) (c : Claim) :
    s.kept c.item c.definition = c.definition := by
  cases c <;> simp [Store.kept, Store.isRich, hs, Index.extensions, item, definition, symbolItem]

theorem map_kept_first? {s : Store} (hs : s.extensions = Index.extensions) (id : ItemId)
    (cs : List Claim) : (first? id cs).map (s.kept id) = first? id cs := by
  rw [first?, Option.map_map]
  cases hc : cs.find? (·.item = id) with
  | none => rfl
  | some c =>
      have hid : c.item = id := by simpa using List.find?_some hc
      exact congrArg some (hid ▸ kept_definition hs c)

theorem ensuredFirst_calls (file : FileName) (known : List ItemId) (cs : List Claim) :
    Call.EnsuredFirst known (cs.flatMap (calls file)) := by
  induction cs generalizing known with
  | nil => trivial
  | cons c cs ih => exact ⟨List.mem_cons_self, ih _⟩

theorem firstClaim?_calls (file g : FileName) (id : ItemId) (cs : List Claim) :
    Call.firstClaim? g id (cs.flatMap (calls file)) = if g = file then first? id cs else none := by
  induction cs with
  | nil => simp [first?, Call.firstClaim?]
  | cons c cs ih =>
      have hstep : Call.firstClaim? g id ((c :: cs).flatMap (calls file)) =
          if c.item = id ∧ file = g then some c.definition
          else Call.firstClaim? g id (cs.flatMap (calls file)) := rfl
      rw [hstep, ih]
      by_cases hg : g = file
      · by_cases hc : c.item = id <;> simp [hg, hc, first?]
      · have hg' : ¬ file = g := fun e => hg e.symm
        simp [hg, hg']

end Claim

namespace Project

variable {p q : Project} {ok : Claim → Prop}

/-- Records claims of a file, one after the other. -/
def acceptAll (p : Project) (file : FileName) (cs : List Claim) : Project :=
  cs.foldl (·.accept file ·) p

theorem claimAll_eq (p : Project) (f : ParsedFile) :
    p.claimAll f = p.acceptAll f.file f.claims := by
  simp only [acceptAll, ParsedFile.claims, List.foldl_append, List.foldl_map]
  rfl

theorem store_acceptAll (p : Project) (file : FileName) (cs : List Claim) :
    (p.acceptAll file cs).store = Call.performAll p.store (cs.flatMap (Claim.calls file)) := by
  induction cs generalizing p with
  | nil => rfl
  | cons c cs ih =>
      have hstep : Call.performAll p.store ((c :: cs).flatMap (Claim.calls file)) =
          Call.performAll (p.accept file c).store (cs.flatMap (Claim.calls file)) := by
        rw [store_accept]
        rfl
      rw [hstep]
      exact ih _

/-! ## Changes -/

/-- A sound project in which no file is watched. -/
structure AtRest (p : Project) : Prop extends Sound p where
  unwatched : p.store.watched = none

theorem atRest_empty : AtRest .empty := ⟨sound_empty, rfl⟩

/-- The project when a file has just begun to be watched. -/
def watching (p : Project) (file : FileName) : Project :=
  { p with store.watched := some { file } }

theorem exec_watch (hp : p.store.watched = none) (file : FileName) :
    (watch file).exec p = (.ok (), p.watching file) :=
  Run.exec_step_ok (Store.watch_eq hp file)

/-- While a file claims some things, the watch notes what it says first about each item. -/
theorem exists_watched (hp : p.Sound) (file : FileName) (cs : List Claim) :
    ∃ claims, Store.Watched file (cs.flatMap (Claim.calls file)) p.store
        ((p.watching file).acceptAll file cs).store claims ∧
      ∀ id, claims.get? id = Claim.first? id cs := by
  obtain ⟨claims, h⟩ := Store.exists_watched hp.consistent file
    (Claim.ensuredFirst_calls file p.store.items.keys cs)
  refine ⟨claims, ?_, fun id => ?_⟩
  · rw [store_acceptAll]
    exact h
  · rw [h.claims, Claim.firstClaim?_calls, if_pos rfl, Claim.map_kept_first? hp.extensions]

/-- A file is watched, claims some things, and is analysed: it then says what it has claimed
first, and the other files say what they said before. -/
theorem exec_rewatch (hp : p.AtRest) (file : FileName) {cs : List Claim} (hok : ∀ c ∈ cs, ok c) :
    ∃ q : Project, analyze.exec ((p.watching file).acceptAll file cs) = (.ok (), q) ∧
      Moves ok file p q ∧ q.AtRest ∧ ¬ q.store.Vacant file ∧ ∀ id g, q.store.definition? id g =
        if g = file then Claim.first? id cs else p.store.definition? id g := by
  have hclaimed : Moves ok file p ((p.watching file).acceptAll file cs) :=
    .head (.watched p _) (moves_accept cs hok _)
  have hsound := Moves.preserve hclaimed (fun _ _ => Move.sound) hp.toSound
  obtain ⟨claims, h, hclaims⟩ := exists_watched hp.toSound file cs
  obtain ⟨q, hexec, hmoves, hunwatched, hvacant, hsettled⟩ :=
    moves_analyze ok h.consistent h.watched
  have hq := Moves.preserve hmoves (fun _ _ => Move.sound) hsound
  refine ⟨q, hexec, hclaimed.trans hmoves, ⟨hq, hunwatched⟩, hvacant, fun id g => ?_⟩
  by_cases hg : g = file
  · rw [if_pos hg, hg]
    by_cases hlt : id.extension < 4
    · rw [← hclaims]
      exact hsettled.definition?_own h.consistent h.shadowed
        (by rw [hsound.extensions]; exact hlt)
    · -- Nothing is claimed or kept outside of the four extensions.
      have hnone : q.store.item? id = none := by
        by_contra h
        exact hlt (hq.occupied id (Option.isSome_iff_ne_none.mpr h)).1
      rw [Store.definition?, hnone, Claim.first?_eq_none_of_le (Nat.not_lt.mp hlt)]
      rfl
  · rw [if_neg hg, Store.definition?_eq_of_othersOf_eq (hsettled.othersOf_eq id) hg,
      h.definition?, Claim.firstClaim?_calls, if_neg hg, Option.map_none, Option.or_none]

theorem AtRest.congr (h : p.AtRest) (hstore : q.store = p.store)
    (hlinks : q.derived.links = p.derived.links) : q.AtRest := by
  obtain ⟨store, links, classes, rebuild⟩ := q
  cases hstore
  cases hlinks
  exact ⟨⟨h.consistent, h.extensions, h.occupied, h.links⟩, h.unwatched⟩

end Project

/-- A change of the files of a project. -/
inductive Change where
  | commit (f : ParsedFile)
  | remove (file : FileName)

namespace Change

/-- The file that changes. -/
def file : Change → FileName
  | commit f => f.file
  | remove file => file

/-- What the file claims from then on. -/
def claims : Change → List Claim
  | commit f => f.claims
  | remove _ => []

/-- The change as a program. -/
def program : Change → Run Index Unit
  | commit f => Project.commit f
  | remove file => Project.remove file

/-- What is left to be done after the analysis. -/
def conclude : Change → Project → Project
  | commit f, p => p.mark [f.file]
  | remove file, p => { p with derived.rebuild := p.derived.rebuild.erase file }

theorem store_conclude (c : Change) (p : Project) : (c.conclude p).store = p.store := by
  cases c <;> rfl

theorem links_conclude (c : Change) (p : Project) :
    (c.conclude p).derived.links = p.derived.links := by
  cases c <;> rfl

theorem classes_conclude (c : Change) (p : Project) :
    (c.conclude p).derived.classes = p.derived.classes := by
  cases c <;> rfl

/-- Marks of other files stay. -/
theorem mem_rebuild_conclude {c : Change} {p : Project} {g : FileName} (hg : g ≠ c.file)
    (h : g ∈ p.derived.rebuild) : g ∈ (c.conclude p).derived.rebuild := by
  cases c with
  | commit f => exact Project.mem_rebuild_mark.mpr (.inl h)
  | remove file => exact OrderedSet.mem_erase.mpr ⟨h, hg⟩

/-- Only the file itself is marked beside those that were. -/
theorem mem_rebuild_of_conclude {c : Change} {p : Project} {g : FileName} (hg : g ≠ c.file)
    (h : g ∈ (c.conclude p).derived.rebuild) : g ∈ p.derived.rebuild := by
  cases c with
  | commit f =>
      exact (Project.mem_rebuild_mark.mp h).resolve_right fun hf => hg (List.mem_singleton.mp hf)
  | remove file => exact (OrderedSet.mem_erase.mp h).1

/-- What has become of a project at rest after a change. -/
structure Changed (ok : Claim → Prop) (c : Change) (p q : Project) : Prop where
  moves : Project.Moves ok c.file p q
  atRest : q.AtRest
  /-- The file is known only if it says something. -/
  vacant : ¬ q.store.Vacant c.file
  definition? : ∀ id g, q.store.definition? id g =
    if g = c.file then Claim.first? id c.claims else p.store.definition? id g

/-- A change is what an analysis makes of the claims of the file. -/
theorem exec_program_of_analyze {p q : Project} (hp : p.store.watched = none) {c : Change}
    (h : Project.analyze.exec ((p.watching c.file).acceptAll c.file c.claims) = (.ok (), q)) :
    c.program.exec p = (.ok (), c.conclude q) := by
  have hwatch := Project.exec_watch hp c.file
  cases c with
  | commit f =>
      dsimp only [file, claims] at hwatch h
      rw [program, Project.commit, Run.exec_bind_ok hwatch, Run.exec_bind_ok (Run.exec_modify _ _),
        Project.claimAll_eq, Run.exec_bind_ok h]
      rfl
  | remove file =>
      dsimp only [Change.file, claims, Project.acceptAll, List.foldl_nil] at hwatch h
      rw [program, Project.remove, Run.exec_bind_ok hwatch, Run.exec_bind_ok h]
      rfl

/-- A change of a project at rest succeeds. -/
theorem exec_program (ok : Claim → Prop) {p : Project} (hp : p.AtRest) (c : Change)
    (hok : ∀ x ∈ c.claims, ok x) :
    ∃ q, c.program.exec p = (.ok (), c.conclude q) ∧ Changed ok c p q := by
  obtain ⟨q, hanalyze, hq⟩ := Project.exec_rewatch hp c.file hok
  exact ⟨q, exec_program_of_analyze hp.unwatched hanalyze, hq.1, hq.2.1, hq.2.2.1, hq.2.2.2⟩

theorem Changed.conclude {ok : Claim → Prop} {c : Change} {p q : Project}
    (h : Changed ok c p q) : (c.conclude q).AtRest :=
  h.atRest.congr (store_conclude c q) (links_conclude c q)

/-- A change whose steps start at clean names leaves a graph that mirrors the store again. -/
theorem Changed.mirrors {ok : Claim → Prop} {c : Change} {p q : Project} (h : Changed ok c p q)
    (hok : ∀ x, ok x → x.CleanStep) (hp : p.derived.classes.Mirrors p.store) :
    (c.conclude q).derived.classes.Mirrors (c.conclude q).store := by
  rw [classes_conclude, store_conclude]
  exact h.moves.preserve (I := fun p => p.derived.classes.Mirrors p.store)
    (fun _ _ hmove => hmove.mirrors hok) hp

end Change

/-! ## Sessions -/

namespace Session

/-- The session after a change. -/
def change (s : Session) : Change → Session
  | .commit f => (s.commit f).2
  | .remove file => (s.remove file).2

/-- What a text in a scope leads to from a file. -/
def resolve? (s : Session) (scope : Option Text) (text : Text) (file : FileName) :
    Option Resolution :=
  s.project.derived.links.resolve? s.project.store scope text file

theorem project_change (s : Session) (c : Change) :
    (s.change c).project = (c.program.exec s.project).2 := by
  cases c <;> rfl

/-- The session after a change, as the project that moves have led to. -/
theorem exists_changed (ok : Claim → Prop) {s : Session} (hs : s.project.AtRest) {c : Change}
    (hok : ∀ x ∈ c.claims, ok x) :
    ∃ q, (s.change c).project = c.conclude q ∧ Change.Changed ok c s.project q := by
  obtain ⟨q, hexec, hq⟩ := c.exec_program ok hs hok
  exact ⟨q, by rw [project_change, hexec], hq⟩

theorem ok_program {p : Project} (hp : p.AtRest) (c : Change) :
    (c.program.exec p).1 = .ok () := by
  obtain ⟨q, hexec, -⟩ := c.exec_program (fun _ => True) hp fun _ _ => trivial
  rw [hexec]

theorem atRest_program {p : Project} (hp : p.AtRest) (c : Change) :
    Project.AtRest (c.program.exec p).2 := by
  obtain ⟨q, hexec, hq⟩ := c.exec_program (fun _ => True) hp fun _ _ => trivial
  rw [hexec]
  exact hq.conclude

/-! ### Two files -/

/-- A file with a class, the parent of the class, and a link. -/
def linking : ParsedFile where
  file := ['a']
  title := []
  topics :=
    [{ kind := .single .classType
       title := ['t']
       line := 0
       body := some "<link target=\"x\" name=\"x\" original=\"x\">".toList
       parents := [['p']] }]

/-- A file with the symbol that the link leads to. -/
def defining : ParsedFile where
  file := ['b']
  title := []
  topics := [{ kind := .single .functionType, title := ['x'], line := 0 }]

end Session

end Commentary
