import Commentary.Proofs.Store.Watch

/-!
# Analyses that are cut short

A listener may fail, and then the analysis ends where it stands. The watch is closed, and what the
listener has heard of is settled. Nothing is lost by that: when the file is watched again and
claims the same, the analysis finds the differences that are left, in the same order, and it comes
to the store that the first one would have come to.
-/

namespace Commentary

/-! ## Listeners that leave the store alone -/

/-- What a listener has heard so far, beside what it keeps for itself. -/
structure Heard (σ : Type) where
  own : σ
  events : List Event := []

namespace Listener

variable {σ : Type}

/-- The listener leaves the store as it is, whatever else it does and whether it fails or not. -/
def HandsOff (l : Listener σ) : Prop := ∀ e t, ((l.hear e).exec t).2.store = t.store

/-- The listener never fails. -/
def Unfailing (l : Listener σ) : Prop := ∀ e t, ((l.hear e).exec t).1 = .ok ()

/-- Notes an event and passes it on. -/
def passOn (l : Listener σ) (e : Event) : Run (Heard σ) Unit := do
  let t ← get
  let (result, u) := (l.hear e).exec ⟨t.store, t.derived.own⟩
  set (⟨u.store, ⟨u.derived, t.derived.events ++ [e]⟩⟩ : Tracked (Heard σ))
  match result with
  | .ok () => pure ()
  | .error v => throw v

/-- The listener with a note of every event that it hears. -/
def noted (l : Listener σ) : Listener (Heard σ) where
  changed id file := l.passOn (.changed id file)
  deleted id file wasLast := l.passOn (.deleted id file wasLast)

theorem exec_hear_noted (l : Listener σ) (e : Event) (t : Tracked (Heard σ)) :
    (l.noted.hear e).exec t =
      let (result, u) := (l.hear e).exec ⟨t.store, t.derived.own⟩
      (result, ⟨u.store, ⟨u.derived, t.derived.events ++ [e]⟩⟩) := by
  have hpass : l.noted.hear e = l.passOn e := by cases e <;> rfl
  rw [hpass, passOn, Run.exec_bind_ok (Run.exec_get t)]
  rcases (l.hear e).exec ⟨t.store, t.derived.own⟩ with ⟨_ | ⟨⟩, u⟩ <;> rfl

theorem HandsOff.harmless {l : Listener σ} (hl : l.HandsOff) : l.Harmless := by
  refine ⟨fun id file t => ?_, fun id file t => ?_⟩
  · rw [show ((l.changed id file).exec t).2.store = t.store from hl (.changed id file) t]
    exact .refl t.store
  · rw [show ((l.deleted id file _).exec t).2.store = t.store from hl (.deleted id file _) t]
    exact .refl t.store

theorem HandsOff.noted {l : Listener σ} (hl : l.HandsOff) : l.noted.HandsOff := by
  intro e t
  rw [exec_hear_noted]
  exact hl e _

end Listener

/-! ## Differences that are settled -/

namespace Difference

variable {file : FileName} {s : Store} {d : Difference}

/-- The store after some differences, one after the other. -/
def commitAll (file : FileName) (ds : List Difference) (s : Store) : Store :=
  ds.foldl (fun s d => d.commit file s) s

theorem consistent_commit (hs : s.Consistent) (h : d.Valid file s) :
    (d.commit file s).Consistent := by
  cases d with
  | changed id new => exact Store.consistent_revise hs h.1 file new
  | deleted id => exact Store.consistent_drop hs id file

theorem mem_definers_commit_iff (d : Difference) (s : Store) (id : ItemId) (g : FileName) :
    g ∈ (d.commit file s).definers id ↔
      g ∈ s.definers id ∧ ¬ (d.result = none ∧ id = d.item ∧ g = file) := by
  cases d with
  | changed j new => simp [commit, Store.definers_revise, result]
  | deleted j => simp [commit, Store.mem_definers_drop, result, item]

theorem isSome_item?_commit (d : Difference) (s : Store) (id : ItemId) :
    ((d.commit file s).item? id).isSome ↔ (s.item? id).isSome := by
  cases d with
  | changed j new => exact Store.isSome_item?_revise s j file new id
  | deleted j => exact Store.isSome_item?_drop s j file id

end Difference

namespace Store

open Difference

variable {file : FileName} {s : Store} {w : Watch}

theorem filter_difference? (s : Store) (w : Watch) (id settled : ItemId) :
    (s.difference? w id).filter (·.item ≠ settled) =
      if id = settled then none else s.difference? w id := by
  cases hd : s.difference? w id with
  | none => simp
  | some d =>
      have hitem := item_of_difference?_eq_some hd
      by_cases hid : id = settled <;> simp [Option.filter, hitem, hid]

/-- An item that has been settled does not differ any more, and the others differ as before. -/
theorem filterMap_difference?_commit {d : Difference} (hd : s.difference? w d.item = some d)
    (hm : w.file ∈ s.definers d.item) (extension : Nat) :
    ((d.commit w.file s).fileItems w.file extension).filterMap
        ((d.commit w.file s).difference? w) =
      ((s.fileItems w.file extension).filterMap (s.difference? w)).filter (·.item ≠ d.item) := by
  have hkept : ∀ id, id ≠ d.item →
      (d.commit w.file s).difference? w id = s.difference? w id := fun id hid =>
    (sameBut_commit w.file d s).difference?_eq w hid
  rw [List.filter_filterMap]
  simp only [filter_difference?]
  cases d with
  | changed id new =>
      have hitems : ((Difference.changed id new).commit w.file s).fileItems w.file extension =
          s.fileItems w.file extension := rfl
      rw [hitems]
      refine List.filterMap_congr fun j _ => ?_
      split
      · next hj =>
          -- The file now says what it claims.
          rw [hj]
          obtain ⟨hclaim, -, -⟩ := difference?_eq_changed_iff.mp hd
          exact difference?_eq_none hclaim (definition?_commit_self _ hm)
      · next hj => exact hkept j hj
  | deleted id =>
      have hitems : ((Difference.deleted id).commit w.file s).fileItems w.file extension =
          (s.fileItems w.file extension).filter (· ≠ id) := by
        rw [fileItems_eq, commit, index_drop, if_pos rfl, fileItems_eq, List.filter_filter,
          List.filter_filter]
        simp only [Bool.and_comm]
      rw [hitems, List.filterMap_filter]
      refine List.filterMap_congr fun j _ => ?_
      by_cases hj : j = id
      · simp [hj, item]
      · simpa [hj, item] using hkept j hj

theorem differences_commit {d : Difference} (hd : s.difference? w d.item = some d)
    (hm : w.file ∈ s.definers d.item) :
    (d.commit w.file s).differences w = (s.differences w).filter (·.item ≠ d.item) := by
  have horder : (d.commit w.file s).order = s.order := by cases d <;> rfl
  rw [differences, differences, List.filter_flatMap, horder]
  exact List.flatMap_congr fun extension _ => filterMap_difference?_commit hd hm extension

/-- When the first differences are settled, the others are left, in their order. -/
theorem differences_commitAll (hs : s.Consistent) {done rest : List Difference}
    (h : s.differences w = done ++ rest) :
    (commitAll w.file done s).differences w = rest ∧ (commitAll w.file done s).Consistent := by
  induction done generalizing s with
  | nil => exact ⟨h, hs⟩
  | cons d done ih =>
      have hmem : d ∈ s.differences w := by simp [h]
      obtain ⟨-, hm, hd⟩ := (mem_differences hs).mp hmem
      have hpair := (pairwise_differences s w).imp And.left
      rw [h, List.cons_append, List.pairwise_cons] at hpair
      refine ih (consistent_commit hs (valid_of_mem_differences hs hmem)) ?_
      rw [differences_commit hd hm, h, List.cons_append, List.filter_cons, if_neg (by simp),
        List.filter_eq_self]
      exact fun e he => by simpa using (hpair.1 e he).symm

/-! ## An analysis that may be cut short -/

variable {σ : Type} {l : Listener σ}

theorem definitions_commitAll_of_ne {ds : List Difference} {id : ItemId}
    (h : ∀ d ∈ ds, id ≠ d.item) (s : Store) :
    (commitAll file ds s).definitions id = s.definitions id := by
  induction ds generalizing s with
  | nil => rfl
  | cons d ds ih =>
      obtain ⟨hd, hds⟩ := List.forall_mem_cons.mp h
      refine (ih hds _).trans ?_
      rw [definitions_commit, if_neg hd]

/-- Some differences have been settled, and the listener has heard of them. -/
structure Progress (file : FileName) (done : List Difference) (t u : Tracked (Heard σ)) :
    Prop where
  store : u.store = commitAll file done t.store
  events : u.derived.events = t.derived.events ++ done.map (Event.ofDifference file t.store)

theorem Progress.nil (file : FileName) (t : Tracked (Heard σ)) : Progress file [] t t :=
  ⟨rfl, by simp⟩

theorem Progress.cons {t u v : Tracked (Heard σ)} {d : Difference} {done : List Difference}
    (h : Progress file [d] t u) (k : Progress file done u v) (hd : ∀ e ∈ done, d.item ≠ e.item) :
    Progress file (d :: done) t v := by
  have hevents : done.map (Event.ofDifference file u.store) =
      done.map (Event.ofDifference file t.store) := by
    refine List.map_congr_left fun e he => Event.ofDifference_congr ?_
    rw [h.store]
    exact definitions_commitAll_of_ne (by simpa using (hd e he).symm) t.store
  refine ⟨?_, ?_⟩
  · rw [k.store, h.store]
    rfl
  · rw [k.events, hevents, h.events, List.append_assoc]
    rfl

theorem progress_settle (hl : l.HandsOff) {d : Difference} {t : Tracked (Heard σ)}
    (hd : d.Valid file t.store) : Progress file [d] t ((d.settle l.noted file).exec t).2 := by
  rw [exec_settle_of_valid _ hd, Listener.exec_hear_noted]
  exact ⟨hl _ _, rfl⟩

/-- However a listener ends that leaves the store alone, it has heard of the first differences, and
those are settled. Only its own failure keeps it from hearing of all. -/
theorem exists_progress (hl : l.HandsOff) {ds : List Difference} {t : Tracked (Heard σ)}
    (hn : ds.Pairwise fun a b => a.item ≠ b.item) (hv : ∀ d ∈ ds, d.Valid file t.store) :
    ∃ result u done rest, (settleDifferences l.noted file ds).exec t = (result, u) ∧
      ds = done ++ rest ∧ Progress file done t u ∧ (result = .ok () → rest = []) ∧
      (l.Unfailing → result = .ok ()) := by
  induction ds generalizing t with
  | nil => exact ⟨.ok (), t, [], [], rfl, rfl, .nil file t, fun _ => rfl, fun _ => rfl⟩
  | cons d ds ih =>
      obtain ⟨hne, hn⟩ := List.pairwise_cons.mp hn
      obtain ⟨hd, hds⟩ := List.forall_mem_cons.mp hv
      have hfirst := progress_settle hl hd
      rw [settleDifferences, Run.exec_bind]
      rcases hr : (d.settle l.noted file).exec t with ⟨v | _, u⟩
      · rw [hr] at hfirst
        refine ⟨.error v, u, [d], ds, rfl, rfl, hfirst, (by cases ·), fun hok => ?_⟩
        have hanswer := hok (.ofDifference file t.store d)
          ⟨d.commit file t.store, t.derived.own⟩
        rw [exec_settle_of_valid _ hd, Listener.exec_hear_noted] at hr
        rw [← hanswer]
        exact (congrArg Prod.fst hr).symm
      · rw [hr] at hfirst
        have hrest : ∀ e ∈ ds, e.Valid file u.store := fun e he => by
          refine (hds e he).congr ?_ ?_
          · rw [hfirst.store]
            exact (sameBut_commit file d t.store).extensions
          · rw [hfirst.store]
            exact definitions_commitAll_of_ne (by simpa using (hne e he).symm) t.store
        obtain ⟨result, v, done, rest, hexec, rfl, hdone, hend⟩ := ih hn hrest
        exact ⟨result, v, d :: done, rest, hexec, rfl,
          hfirst.cons hdone fun e he => hne e (by simp [he]), hend⟩

/-- The store when its watch has been closed. -/
def unwatched (s : Store) : Store := { s with watched := none }

theorem unwatched_eq_self (h : s.watched = none) : s.unwatched = s := by
  rw [unwatched, ← h]

theorem Consistent.watching (hs : s.Consistent) (w : Option Watch) :
    Consistent { s with watched := w } :=
  ⟨hs.listed, hs.bare⟩

theorem exists_progress_analyze (hl : l.HandsOff) {t : Tracked (Heard σ)}
    (hs : t.store.Consistent) (w : Watch) :
    ∃ result u done rest, (settleDifferences l.noted w.file (t.store.differences w)).exec
        ⟨t.store.unwatched, t.derived⟩ = (result, u) ∧
      t.store.differences w = done ++ rest ∧
      Progress w.file done ⟨t.store.unwatched, t.derived⟩ u ∧
      (result = .ok () → rest = []) ∧ (l.Unfailing → result = .ok ()) :=
  exists_progress hl ((pairwise_differences t.store w).imp And.left)
    fun _ hd => (valid_of_mem_differences hs hd).congr rfl rfl

section

variable {t u : Tracked (Heard σ)} (hl : l.HandsOff) (hs : t.store.Consistent)
  (hw : t.store.watched = some w)

include hl hs hw

/-- An analysis that fails has closed the watch and settled the first differences. -/
theorem progress_of_failed {v : Violation} (h : (analyze l.noted).exec t = (.error v, u)) :
    ∃ done rest, t.store.differences w = done ++ rest ∧
      Progress w.file done ⟨t.store.unwatched, t.derived⟩ u := by
  obtain ⟨result, u', done, rest, hexec, hsplit, hprogress, -⟩ := exists_progress_analyze hl hs w
  rw [exec_analyze hl.noted.harmless hw] at h
  cases result with
  | ok _ => cases (Run.exec_bind_ok hexec _).symm.trans h
  | error _ =>
      cases (Run.exec_bind_error hexec _).symm.trans h
      exact ⟨done, rest, hsplit, hprogress⟩

/-- An analysis whose listener does not fail settles all differences and reports them. -/
theorem exec_analyze_of_unfailing (hok : l.Unfailing) :
    ∃ u : Tracked (Heard σ), (analyze l.noted).exec t = (.ok (), u) ∧
      u.store = (commitAll w.file (t.store.differences w) t.store.unwatched).forgetIfEmpty w.file ∧
      u.derived.events = t.derived.events ++
        (t.store.differences w).map (Event.ofDifference w.file t.store) := by
  obtain ⟨result, u, done, rest, hexec, hsplit, hprogress, hend, hanswer⟩ :=
    exists_progress_analyze hl hs w
  obtain rfl := hend (hanswer hok)
  rw [List.append_nil] at hsplit
  obtain rfl := hanswer hok
  refine ⟨{ u with store := u.store.forgetIfEmpty w.file }, ?_, ?_, hsplit ▸ hprogress.events⟩
  · rw [exec_analyze hl.noted.harmless hw]
    exact Run.exec_bind_ok hexec _
  · rw [hsplit, ← hprogress.store]

end

end Store

/-! ## The same calls once more -/

namespace Call

variable {s m : Store}

/-- The call asks for what is there already. -/
def Redundant (s : Store) : Call → Prop
  | ensure id => (s.item? id).isSome
  | add id file _ => file ∈ s.definers id

theorem isSome_item?_performAll (cs : List Call) (s : Store) (id : ItemId) :
    ((performAll s cs).item? id).isSome ↔ .ensure id ∈ cs ∨ (s.item? id).isSome := by
  induction cs generalizing s with
  | nil => simp [performAll]
  | cons c cs ih =>
      refine (ih (perform s c)).trans ?_
      cases c with
      | ensure j => rw [perform, Store.isSome_item?_ensureItem]; simp [or_left_comm, or_assoc]
      | add j file d => rw [perform, Store.isSome_item?_record]; simp

theorem isSome_firstClaim? {cs : List Call} {id : ItemId} {file : FileName} {d : Definition}
    (h : .add id file d ∈ cs) : (firstClaim? file id cs).isSome := by
  induction cs with
  | nil => cases h
  | cons c cs ih =>
      cases c with
      | ensure j => exact ih (by simpa using h)
      | add j g e =>
          simp only [firstClaim?]
          split
          · rfl
          · next hne =>
              refine ih ((List.mem_cons.mp h).resolve_left fun he => hne ?_)
              cases he
              exact ⟨rfl, rfl⟩

/-- Calls that find everything there are noted by the watch, and that is all. -/
theorem performAll_of_redundant {cs : List Call} (hs : s.Consistent)
    (hcs : ∀ c ∈ cs, c.Redundant s) (hm : m.extensions = s.extensions) :
    performAll { s with watched := m.watched } cs =
      { s with watched := (performAll m cs).watched } := by
  induction cs generalizing m with
  | nil => rfl
  | cons c cs ih =>
      obtain ⟨hc, hcs⟩ := List.forall_mem_cons.mp hcs
      have hstep : perform { s with watched := m.watched } c =
          { s with watched := (perform m c).watched } := by
        cases c with
        | ensure id => exact Store.ensureItem_of_isSome hc
        | add id file d =>
            refine (Store.record_of_mem_definers (hs.watching m.watched) hc d).trans ?_
            have hkept : Store.kept { s with watched := m.watched } = m.kept := kept_congr hm.symm
            rw [hkept]
            rfl
      have hext : (perform m c).extensions = s.extensions := by
        cases c <;> exact hm
      exact (congrArg (performAll · cs) hstep).trans (ih hcs hext)

end Call

/-! ## The retry -/

namespace Store

open Difference

variable {σ τ : Type} {file : FileName} {s mid : Store} {cs : List Call}

theorem extensions_commitAll (file : FileName) (ds : List Difference) (s : Store) :
    (commitAll file ds s).extensions = s.extensions := by
  induction ds generalizing s with
  | nil => rfl
  | cons d ds ih => exact (ih _).trans (sameBut_commit file d s).extensions

theorem watched_commitAll (file : FileName) (ds : List Difference) (s : Store) :
    (commitAll file ds s).watched = s.watched := by
  induction ds generalizing s with
  | nil => rfl
  | cons d ds ih => exact (ih _).trans (by cases d <;> rfl)

theorem isSome_item?_commitAll (ds : List Difference) (s : Store) (id : ItemId) :
    ((commitAll file ds s).item? id).isSome ↔ (s.item? id).isSome := by
  induction ds generalizing s with
  | nil => exact .rfl
  | cons d ds ih => exact (ih _).trans (isSome_item?_commit d s id)

theorem mem_definers_commitAll {ds : List Difference} {id : ItemId} {g : FileName}
    (hds : ∀ d ∈ ds, ¬ (d.result = none ∧ id = d.item ∧ g = file)) (s : Store) :
    g ∈ (commitAll file ds s).definers id ↔ g ∈ s.definers id := by
  induction ds generalizing s with
  | nil => exact .rfl
  | cons d ds ih =>
      obtain ⟨hd, hds⟩ := List.forall_mem_cons.mp hds
      refine (ih hds _).trans ((mem_definers_commit_iff d s id g).trans ?_)
      exact and_iff_left hd

/-- What a difference is reported as does not depend on those that are settled before it. -/
theorem map_ofDifference_commitAll (file : FileName) {s : Store} {w : Watch}
    {done rest : List Difference} (hsplit : s.differences w = done ++ rest) :
    rest.map (Event.ofDifference file (commitAll file done s)) =
      rest.map (Event.ofDifference file s) := by
  have hpair := (pairwise_differences s w).imp And.left
  rw [hsplit, List.pairwise_append] at hpair
  exact List.map_congr_left fun e he => Event.ofDifference_congr
    (definitions_commitAll_of_ne (fun d hd => (hpair.2.2 d hd e he).symm) s)

/-- A file is watched, some calls are made, and the file is analysed. -/
def attempt (l : Listener σ) (file : FileName) (cs : List Call) : Run σ Unit := do
  Run.step (·.watch file)
  Call.programs cs
  analyze l

theorem exec_attempt (l : Listener σ) {t : Tracked σ} (hw : t.store.watched = none)
    {known : List ItemId} (hcs : Call.EnsuredFirst known cs)
    (hknown : ∀ id ∈ known, (t.store.item? id).isSome) :
    (attempt l file cs).exec t =
      (analyze l).exec
        ⟨Call.performAll { t.store with watched := some { file } } cs, t.derived⟩ := by
  have hprograms := Call.exec_programs
    (t := ⟨{ t.store with watched := some { file } }, t.derived⟩) hcs hknown
  rw [attempt, Run.exec_bind_ok (Run.exec_step_ok (watch_eq hw file))]
  exact Run.exec_bind_ok hprograms _

/-! ### The store after a cut -/

section

variable {claims : Table ItemId Definition} {done rest : List Difference}
  (h : Watched file cs s mid claims)
  (hmid : mid = Call.performAll { s with watched := some { file } } cs)
  (hsplit : mid.differences ⟨file, claims⟩ = done ++ rest)

include hmid

theorem isSome_item?_cut {id : ItemId} (hid : (s.item? id).isSome) :
    ((commitAll file done mid.unwatched).item? id).isSome := by
  rw [isSome_item?_commitAll, hmid]
  exact (Call.isSome_item?_performAll cs { s with watched := some { file } } id).mpr (.inr hid)

include h hsplit

/-- What the calls of a watch ask for is there once some differences have been settled: a file
keeps what it has claimed. -/
theorem Watched.redundant : ∀ c ∈ cs, c.Redundant (commitAll file done mid.unwatched) := by
  intro c hc
  cases c with
  | ensure id =>
      refine (isSome_item?_commitAll done _ id).mpr ?_
      rw [hmid]
      exact (Call.isSome_item?_performAll cs _ id).mpr (.inl hc)
  | add id g d =>
      obtain ⟨first, hfirst⟩ := Option.isSome_iff_exists.mp (Call.isSome_firstClaim? hc)
      refine (mem_definers_commitAll ?_ _).mpr ?_
      · rintro e he ⟨hresult, rfl, rfl⟩
        have hmem : e ∈ mid.differences ⟨g, claims⟩ := by simp [hsplit, he]
        cases e with
        | changed j new => cases hresult
        | deleted j =>
            obtain ⟨-, -, hnone⟩ := (deleted_mem_differences h.consistent).mp hmem
            rw [h.claims, Option.map_eq_none_iff] at hnone
            exact absurd (hfirst.symm.trans hnone) nofun
      · refine (isSome_definition?_iff mid id g).mp ?_
        rw [h.definition?, hfirst]
        simp

omit hmid in
theorem Watched.differences_cut :
    (commitAll file done mid.unwatched).differences ⟨file, claims⟩ = rest ∧
      (commitAll file done mid.unwatched).Consistent :=
  differences_commitAll (h.consistent.watching none) hsplit

/-- A second watch with the same calls comes to the same claims, and changes nothing else. -/
theorem Watched.performAll_again :
    Call.performAll { commitAll file done mid.unwatched with watched := some { file } } cs =
      { commitAll file done mid.unwatched with watched := mid.watched } := by
  have hext : s.extensions = (commitAll file done mid.unwatched).extensions := by
    rw [extensions_commitAll]
    exact h.extensions.symm
  have hconsistent := (h.differences_cut hsplit).2
  rw [hmid]
  exact Call.performAll_of_redundant (m := { s with watched := some { file } })
    (hmid ▸ hconsistent) (hmid ▸ h.redundant hmid hsplit) (hmid ▸ hext)

/-- A second watch with the same calls settles the differences that are left, and reports them. -/
theorem Watched.exec_attempt_again (hcs : Call.EnsuredFirst s.items.keys cs) {l : Listener τ}
    (hl : l.HandsOff) (hok : l.Unfailing) (own : τ) :
    ∃ again : Tracked (Heard τ),
      (attempt l.noted file cs).exec ⟨commitAll file done mid.unwatched, { own }⟩ =
        (.ok (), again) ∧
      again.store = (commitAll file (done ++ rest) mid.unwatched).forgetIfEmpty file ∧
      again.derived.events = rest.map (Event.ofDifference file mid) := by
  obtain ⟨hrest, hconsistent⟩ := h.differences_cut hsplit
  have hrepeated := h.performAll_again hmid hsplit
  have hreported := map_ofDifference_commitAll file (s := mid.unwatched) hsplit
  have hclosed : (commitAll file done mid.unwatched).watched = none := watched_commitAll file done _
  have hitems : ∀ id ∈ s.items.keys, ((commitAll file done mid.unwatched).item? id).isSome :=
    fun id hid => isSome_item?_cut hmid (Table.isSome_get?_iff.mpr hid)
  have hconcat : commitAll file (done ++ rest) mid.unwatched =
      commitAll file rest (commitAll file done mid.unwatched) := List.foldl_append
  rw [exec_attempt l.noted hclosed hcs hitems, hrepeated, hconcat]
  generalize commitAll file done mid.unwatched = cut at *
  obtain ⟨again, hagain, hstore, hevents⟩ := exec_analyze_of_unfailing
    (t := ⟨{ cut with watched := mid.watched }, { own }⟩) hl (hconsistent.watching _) h.watched hok
  have hdifferences : Store.differences { cut with watched := mid.watched } ⟨file, claims⟩ = rest :=
    hrest
  have hsame : Store.unwatched { cut with watched := mid.watched } = cut :=
    unwatched_eq_self hclosed
  rw [hdifferences, hsame] at hstore
  rw [hdifferences, List.nil_append] at hevents
  exact ⟨again, hagain, hstore, hevents.trans hreported⟩

end

/-- What a listener that fails at its `k`-th event leaves behind, and what a retry makes of it, for
a store `mid` at the end of the watch. -/
structure Completed (w : Watch) (k : Nat) (mid : Store) (cut : Tracked (Heard σ))
    (whole again : Tracked (Heard τ)) : Prop where
  closed : cut.store.watched = none
  /-- The first `k` differences are settled, and nothing else has happened. -/
  committed : cut.store = commitAll w.file ((mid.differences w).take k) mid.unwatched
  /-- An analysis that is not cut short reports all differences. -/
  all : whole.derived.events = (mid.differences w).map (Event.ofDifference w.file mid)
  heard : cut.derived.events = whole.derived.events.take k
  rest : again.derived.events = whole.derived.events.drop k
  store : again.store = whole.store

/-- From any store that can be reached, with no watch active: a watch of a file, any calls that
ensure first, and an analysis whose listener leaves the store alone and fails at its `k`-th event.
A second watch with the same calls and a listener that does not fail completes the analysis. -/
theorem completed_of_failed (hs : s.Reachable) (hw : s.watched = none) (file : FileName)
    (hcs : Call.EnsuredFirst s.items.keys cs) {l : Listener σ} (hl : l.HandsOff) (own : σ)
    {v : Violation} {cut : Tracked (Heard σ)} {k : Nat}
    (hcut : (attempt l.noted file cs).exec ⟨s, { own }⟩ = (.error v, cut))
    (hk : cut.derived.events.length = k) {l' : Listener τ} (hl' : l'.HandsOff)
    (hok : l'.Unfailing) (own' own'' : τ) :
    ∃ (mid : Store) (w : Watch) (whole again : Tracked (Heard τ)),
      (Run.step (·.watch file) >>= fun _ => Call.programs cs).exec ⟨s, own⟩ = (.ok (), ⟨mid, own⟩) ∧
      mid.watched = some w ∧
      (attempt l'.noted file cs).exec ⟨s, { own := own' }⟩ = (.ok (), whole) ∧
      (attempt l'.noted file cs).exec ⟨cut.store, { own := own'' }⟩ = (.ok (), again) ∧
      Completed w k mid cut whole again := by
  have hknown : ∀ id ∈ s.items.keys, (s.item? id).isSome := fun _ => Table.isSome_get?_iff.mpr
  obtain ⟨claims, h⟩ := exists_watched hs.consistent file hcs
  have hprograms := Call.exec_programs (t := ⟨{ s with watched := some { file } }, own⟩) hcs hknown
  generalize hmid : Call.performAll { s with watched := some { file } } cs = mid at h hprograms
  rw [exec_attempt _ hw hcs hknown, hmid] at hcut
  obtain ⟨done, rest, hsplit, hprogress⟩ := progress_of_failed hl h.consistent h.watched hcut
  obtain ⟨whole, hwhole, hstoreWhole, hall⟩ := exec_analyze_of_unfailing
    (t := ⟨mid, { own := own' }⟩) hl' h.consistent h.watched hok
  obtain ⟨again, hagain, hstoreAgain, hleft⟩ :=
    h.exec_attempt_again hmid.symm hsplit hcs hl' hok own''
  have hstore : cut.store = commitAll file done mid.unwatched := hprogress.store
  obtain rfl : done.length = k := by simpa [hprogress.events] using hk
  rw [List.nil_append, hsplit, List.map_append] at hall
  refine ⟨mid, ⟨file, claims⟩, whole, again, ?_, h.watched, ?_, ?_, ?_, ?_, ?_, ?_, ?_, ?_⟩
  · exact (Run.exec_bind_ok (Run.exec_step_ok (watch_eq hw file)) _).trans hprograms
  · rw [exec_attempt _ hw hcs hknown, hmid]
    exact hwhole
  · rw [hstore]
    exact hagain
  · rw [hstore]
    exact watched_commitAll file done _
  · rw [hstore, hsplit, List.take_left]
  · rw [hall, hsplit, List.map_append]
  · rw [hprogress.events, hall]
    exact (List.take_left' (by simp)).symm
  · rw [hleft, hall]
    exact (List.drop_left' (by simp)).symm
  · rw [hstoreAgain, hstoreWhole, hsplit]

/-! ### An example -/

/-- Counts the events that it hears, and fails at the second. -/
def impatient : Listener Nat where
  changed _ _ := count
  deleted _ _ _ := count
where
  count : Run Nat Unit := do
    modify fun t => { t with derived := t.derived + 1 }
    if (← get).derived = 2 then throw .noWatchedFile

theorem handsOff_impatient : impatient.HandsOff := by
  intro e t
  have hhear : impatient.hear e = impatient.count := by cases e <;> rfl
  rw [hhear, impatient.count, Run.exec_bind_ok (Run.exec_modify _ t),
    Run.exec_bind_ok (Run.exec_get _)]
  split <;> rfl

theorem handsOff_ignore : (Listener.ignore : Listener σ).HandsOff := by
  rintro (_ | _) t <;> rfl

theorem unfailing_ignore : (Listener.ignore : Listener σ).Unfailing := by
  rintro (_ | _) t <;> rfl

/-- The state in which the impatient listener leaves the sample store: two of three differences are
settled. -/
def cutSample : Tracked (Heard Nat) :=
  ((attempt impatient.noted ['a'] sampleChange).exec ⟨sample, { own := 0 }⟩).2

theorem completed_sample :
    sample.Reachable ∧ sample.watched = none ∧
      Call.EnsuredFirst sample.items.keys sampleChange ∧ impatient.HandsOff ∧
      (attempt impatient.noted ['a'] sampleChange).exec ⟨sample, { own := 0 }⟩ =
        (.error .noWatchedFile, cutSample) ∧
      cutSample.derived.events.length = 2 ∧ (Listener.ignore : Listener Unit).HandsOff ∧
      (Listener.ignore : Listener Unit).Unfailing ∧
      ∃ (mid : Store) (w : Watch) (whole again : Tracked (Heard Unit)),
        (Run.step (·.watch ['a']) >>= fun _ => Call.programs sampleChange).exec ⟨sample, 0⟩ =
          (.ok (), ⟨mid, 0⟩) ∧
        mid.watched = some w ∧
        (attempt Listener.ignore.noted ['a'] sampleChange).exec ⟨sample, { own := () }⟩ =
          (.ok (), whole) ∧
        (attempt Listener.ignore.noted ['a'] sampleChange).exec ⟨cutSample.store, { own := () }⟩ =
          (.ok (), again) ∧
        Completed w 2 mid cutSample whole again :=
  have hcs : Call.EnsuredFirst sample.items.keys sampleChange := by decide
  have hcut : (attempt impatient.noted ['a'] sampleChange).exec ⟨sample, { own := 0 }⟩ =
      (.error .noWatchedFile, cutSample) := Prod.ext rfl rfl
  ⟨reachable_sample, rfl, hcs, handsOff_impatient, hcut, by decide, handsOff_ignore,
    unfailing_ignore,
    completed_of_failed reachable_sample rfl ['a'] hcs handsOff_impatient 0 hcut (by decide)
      handsOff_ignore unfailing_ignore () ()⟩

end Store

end Commentary
