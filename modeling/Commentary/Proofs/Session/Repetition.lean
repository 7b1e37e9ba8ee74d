import Commentary.Proofs.Index.Repetition
import Commentary.Proofs.Session.Rebuild

/-!
# Committing a file that has not changed

A file that is committed again claims what it says already. Nothing is left to be settled then,
and no listener hears of anything. Nothing changes but that the file itself is marked, and that
classes may come into the graph again that nothing holds there: those whose names cannot be told
apart from the names of others by their keys.
-/

namespace Commentary

open Index

namespace Project

variable {p : Project} {f : ParsedFile}

/-- The file says in the project what it claims, and nothing else. -/
structure UpToDate (p : Project) (f : ParsedFile) : Prop extends AtRest p where
  vacant : ¬ p.store.Vacant f.file
  definition? : ∀ id, p.store.definition? id f.file = Claim.first? id f.claims

theorem UpToDate.mem_definers (h : p.UpToDate f) {c : Claim} (hc : c ∈ f.claims) :
    f.file ∈ p.store.definers c.item := by
  rw [← Store.isSome_definition?_iff, h.definition?, Claim.first?, Option.isSome_map,
    List.find?_isSome]
  exact ⟨c, hc, by simp⟩

theorem acceptAll_of_mem_definers {file : FileName} {cs : List Claim} (hs : p.store.Consistent)
    (hlinks : p.derived.links.Follows p.store) (h : ∀ c ∈ cs, file ∈ p.store.definers c.item) :
    ∃ w, p.acceptAll file cs =
      { store := { p.store with watched := w }
        derived := { p.derived with
          classes := p.derived.classes.ensureAll (cs.flatMap Claim.names) } } := by
  induction cs generalizing p with
  | nil => exact ⟨p.store.watched, rfl⟩
  | cons c cs ih =>
      obtain ⟨hc, hcs⟩ := List.forall_mem_cons.mp h
      have hstep := accept_of_mem_definers hs hlinks hc
      obtain ⟨w, hrest⟩ := ih (p := p.accept file c) (by rw [hstep]; exact ⟨hs.listed, hs.bare⟩)
        (by rw [hstep]; exact hlinks.congr (fun _ => rfl) fun _ => rfl) (by rw [hstep]; exact hcs)
      refine ⟨w, ?_⟩
      have hcons : p.acceptAll file (c :: cs) = (p.accept file c).acceptAll file cs := rfl
      rw [hcons, hrest, hstep, List.flatMap_cons, ClassGraph.ensureAll, ClassGraph.ensureAll,
        ClassGraph.ensureAll, List.foldl_append]

/-- The claims of a file that is up to date change nothing but the watch and the classes that
they name, and the watch notes what the file says. -/
theorem UpToDate.claimAll_watching (h : p.UpToDate f) :
    ∃ claims : Table ItemId Definition,
      (p.watching f.file).claimAll f =
        { store := { p.store with watched := some ⟨f.file, claims⟩ }
          derived := { p.derived with
            classes := p.derived.classes.ensureAll (f.claims.flatMap Claim.names) } } ∧
      ∀ id, claims.get? id = p.store.definition? id f.file := by
  obtain ⟨claims, hw, hclaims⟩ := exists_watched h.toSound f.file f.claims
  have hconsistent : (p.watching f.file).store.Consistent :=
    ⟨h.consistent.listed, h.consistent.bare⟩
  have hlinks : (p.watching f.file).derived.links.Follows (p.watching f.file).store :=
    h.links.congr (fun _ => rfl) fun _ => rfl
  obtain ⟨w, haccept⟩ := acceptAll_of_mem_definers hconsistent hlinks fun c hc => h.mem_definers hc
  have hwatched : w = some ⟨f.file, claims⟩ := by
    rw [← hw.watched, haccept]
  subst hwatched
  refine ⟨claims, ?_, fun id => (hclaims id).trans (h.definition? id).symm⟩
  rw [claimAll_eq, haccept]
  rfl

/-- An analysis of claims that are made again tells no listener anything. -/
theorem UpToDate.exec_analyze (h : p.UpToDate f) {σ : Type} (l : Listener σ) (derived : σ) :
    (Store.analyze l).exec ⟨((p.watching f.file).claimAll f).store, derived⟩ =
      (.ok (), ⟨p.store, derived⟩) := by
  obtain ⟨claims, hclaim, hclaims⟩ := h.claimAll_watching
  have hstore : p.store = { p.store with watched := none } := by rw [← h.unwatched]
  rw [hclaim]
  refine (Store.exec_analyze_of_unchanged l rfl (fun id hid => ?_) h.vacant).trans ?_
  · have hmem : f.file ∈ p.store.definers id := (h.consistent.listed id f.file).mpr hid
    obtain ⟨d, hd⟩ := Option.isSome_iff_exists.mp ((Store.isSome_definition?_iff _ _ _).mpr hmem)
    exact Store.difference?_eq_none ((hclaims id).trans hd) hd
  · rw [hstore]

theorem UpToDate.exec_commit (h : p.UpToDate f) :
    (commit f).exec p =
      (.ok (),
        { store := p.store
          derived := { p.derived with
            classes := p.derived.classes.ensureAll (f.claims.flatMap Claim.names)
            rebuild := p.derived.rebuild.insert f.file } }) := by
  obtain ⟨claims, hclaim, -⟩ := h.claimAll_watching
  have hanalyze : analyze.exec ((p.watching f.file).claimAll f) =
      (.ok (), ⟨p.store, ((p.watching f.file).claimAll f).derived⟩) := h.exec_analyze _ _
  rw [commit, Run.exec_bind_ok (exec_watch h.unwatched f.file),
    Run.exec_bind_ok (Run.exec_modify _ _), Run.exec_bind_ok hanalyze, hclaim]
  rfl

end Project

namespace Session

variable {s : Session}

theorem upToDate_commit (hs : s.project.AtRest) (f : ParsedFile) :
    (s.commit f).2.project.UpToDate f := by
  obtain ⟨q, hproject, hq⟩ := exists_changed (c := .commit f) (fun _ => True) hs fun _ _ => trivial
  have hcommit : (s.commit f).2.project = (Change.commit f).conclude q := hproject
  rw [hcommit]
  exact ⟨hq.conclude, hq.vacant, fun id => (hq.definition? id f.file).trans (if_pos rfl)⟩

theorem ReachableBy.covers {ok : Change → Prop} (hs : s.ReachableBy ok) :
    s.project.derived.classes.Covers s.project.store := by
  induction hs with
  | new settings keywords =>
      exact ⟨fun _ h => absurd h Bool.false_ne_true, fun _ _ _ _ h => absurd h Bool.false_ne_true,
        fun _ _ _ _ h => absurd h Bool.false_ne_true⟩
  | @change s hs c hc ih =>
      obtain ⟨q, hproject, hq⟩ :=
        exists_changed (c := c) (fun _ => True) hs.atRest fun _ _ => trivial
      rw [hproject, c.classes_conclude, c.store_conclude]
      exact hq.moves.preserve (I := fun p => p.derived.classes.Covers p.store)
        (fun _ _ => Project.Move.covers) ih
  | takeRebuild _ ih => exact ih

/-- A file that has been committed is committed again, unchanged and with any marks: the store and
the links stay exactly as they are, with all orders, all classes keep their relatives, no listener
of the analysis hears of anything, and the file itself is the only one that is marked. The class
graph stays exactly as it is too, if the file gives steps between clean names only. -/
theorem commit_commit (hs : s.Reachable) (f : ParsedFile) (marks : OrderedSet FileName) :
    let once := (s.commit f).2
    let again : Session := { once with project.derived.rebuild := marks }
    let twice := again.commit f
    let watching : Project := ((Project.watch f.file).exec again.project).2
    twice.1 = .ok () ∧
      twice.2.project.store = once.project.store ∧
      twice.2.project.derived.links = once.project.derived.links ∧
      (∀ name, twice.2.project.derived.classes.parents name =
          once.project.derived.classes.parents name ∧
        twice.2.project.derived.classes.children name =
          once.project.derived.classes.children name) ∧
      ((∀ c ∈ f.claims, c.CleanEnds) →
        twice.2.project.derived.classes = once.project.derived.classes) ∧
      (∀ {σ : Type} (l : Listener σ) (derived : σ),
        (Store.analyze l).exec ⟨(watching.claimAll f).store, derived⟩ =
          (.ok (), ⟨once.project.store, derived⟩)) ∧
      twice.2.project.derived.rebuild = marks.insert f.file := by
  intro once again twice watching
  have hold : again.project.UpToDate f :=
    have h := upToDate_commit hs.atRest f
    ⟨h.toAtRest.congr rfl rfl, h.vacant, h.definition?⟩
  have htwice : twice = _ := run_eq again (Project.commit f)
  rw [hold.exec_commit] at htwice
  have hwatching : watching = again.project.watching f.file :=
    congrArg Prod.snd (Project.exec_watch hold.unwatched f.file)
  have hcovers : once.project.derived.classes.Covers once.project.store :=
    (hs.reachableBy.change (c := .commit f) trivial).covers
  rw [htwice, hwatching]
  refine ⟨rfl, rfl, rfl, fun name => ⟨?_, ?_⟩, fun hclean => ?_, hold.exec_analyze, rfl⟩
  · exact ClassGraph.parents_ensureAll _ _ name
  · exact ClassGraph.children_ensureAll _ _ name
  · refine ClassGraph.ensureAll_of_isSome fun name hname => ?_
    obtain ⟨c, hc, hname⟩ := List.mem_flatMap.mp hname
    have hd : once.project.store.isDefined c.item :=
      Store.isDefined_of_mem (hold.mem_definers hc)
    exact Claim.isSome_node?_of_mem_names hcovers (hclean c hc) hd hname

/-- The version before gives the class a parent that the next version drops. -/
def parting : ParsedFile where
  file := ['a']
  title := []
  topics :=
    [{ kind := .single .functionType, title := ['a'], line := 0, parents := [['d']] }]

/-- A file with two steps that have one key. The second is not put into the graph, so its class is
there for nothing. -/
def clashing : ParsedFile where
  file := ['a']
  title := []
  topics :=
    [{ kind := .single .functionType
       title := ['a', separator, 'b']
       line := 0
       parents := [['c']] },
     { kind := .single .functionType
       title := ['a']
       line := 0
       parents := [['b', separator, 'c']] }]

/-- The session with the version before. -/
def parted (settings : Settings) : Session := (({ settings } : Session).commit parting).2

theorem reachable_parted (settings : Settings) : (parted settings).Reachable :=
  .commit (.new settings .english) parting

/-- The first commit drops the class that has lost its only step, and the second one puts it into
the graph again. -/
theorem classes_commit_commit_clashing :
    (parted {}).Reachable ∧
      ((((parted {}).commit clashing).2).commit clashing).2.project.derived.classes ≠
        ((parted {}).commit clashing).2.project.derived.classes :=
  ⟨reachable_parted {}, by decide⟩

/-- A file that defines a symbol twice, as different things, and a class with a parent. -/
def insisting : ParsedFile where
  file := ['b']
  title := []
  topics :=
    [{ kind := .single .functionType, title := ['x'], line := 0 },
     { kind := .single .variableType, title := ['x'], line := 1 },
     { kind := .single .classType, title := ['y'], line := 2, parents := [['d']] }]

theorem commit_commit_insisting :
    (parted {}).Reachable ∧ (∀ c ∈ insisting.claims, c.CleanEnds) ∧
      let once := ((parted {}).commit insisting).2
      let again : Session := { once with project.derived.rebuild := ∅ }
      let twice := again.commit insisting
      twice.1 = .ok () ∧ twice.2.project.store = once.project.store ∧
        twice.2.project.derived.links = once.project.derived.links ∧
        twice.2.project.derived.classes = once.project.derived.classes ∧
        twice.2.project.derived.rebuild = (∅ : OrderedSet FileName).insert insisting.file := by
  have hclean : ∀ c ∈ insisting.claims, c.CleanEnds := by decide
  obtain ⟨hok, hstore, hlinks, -, hclasses, -, hrebuild⟩ :=
    commit_commit (reachable_parted {}) insisting ∅
  exact ⟨reachable_parted {}, hclean, hok, hstore, hlinks, hclasses hclean, hrebuild⟩

end Session

end Commentary
