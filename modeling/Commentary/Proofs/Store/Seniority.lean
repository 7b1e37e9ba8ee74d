import Commentary.Proofs.Store.Client

/-!
# Seniority

The files that define an item are listed by seniority: the one that has defined it for the longest
time without a break comes first. Breaks can be short, so a run is followed closely for that. The
store is looked at after every operation and whenever an analysis calls its listener, and between
two looks at most one file begins or ceases to define an item.
-/

namespace Commentary

/-! ## Histories -/

namespace Store

/-- How the files that define an item may change in one step. -/
inductive Continues (before now : List FileName) : Prop where
  | same (h : now = before)
  | added (file : FileName) (hnew : file ∉ before) (h : now = before ++ [file])
  | removed (file : FileName) (h : now = before.filter (· ≠ file))

/-- A store that may follow another one as far as the files that define an item go. -/
def Succeeds (s t : Store) : Prop := ∀ id, Continues (s.definers id) (t.definers id)

theorem Step.succeeds {s t : Store} (h : Step s t) : Succeeds s t := by
  intro id
  have hsame (heq : t.definitions id = s.definitions id) :
      Continues (s.definers id) (t.definers id) :=
    .same (by rw [definers_eq, definers_eq, heq])
  cases h with
  | register e => exact .same rfl
  | ensureItem j => exact hsame (definitions_ensureItem s j id)
  | eraseItem h => exact hsame ((alike_eraseItem h).definitions id)
  | @record j file d h =>
      rw [definers_eq (s.record j file d), definitions_record h]
      split
      · next hnew =>
          refine .added file (hnew.1 ▸ hnew.2) ?_
          rw [List.map_append, ← definers_eq]
          rfl
      · exact .same (definers_eq s id).symm
  | revise d hr hf => exact .same (definers_revise s _ _ d id)
  | @drop j file hf =>
      rw [definers_eq (s.drop j file), definitions_drop]
      split
      · refine .removed file ?_
        rw [definers_eq, List.filter_map]
        rfl
      · exact .same (definers_eq s id).symm
  | watch file h => exact .same rfl
  | unwatch => exact .same rfl
  | forgetIfEmpty file => exact hsame ((alike_forgetIfEmpty s file).definitions id)

/-- The stores of a history, the latest first. It begins with a store in which nothing is
defined. -/
inductive History : List Store → Prop where
  | start {s : Store} (h : ∀ id, s.definers id = []) : History [s]
  | next {now before : Store} {past : List Store} (h : History (before :: past))
      (hs : Succeeds before now) : History (now :: before :: past)

/-- The number of the store of a history with which the time began for which a file has defined an
item without a break. -/
def began (id : ItemId) (file : FileName) (history : List Store) : Nat :=
  (history.dropWhile (file ∈ ·.definers id)).length

section

variable {id : ItemId} {file : FileName} {now before : Store} {past : List Store}

theorem began_cons_of_mem (h : file ∈ now.definers id) :
    began id file (now :: past) = began id file past := by
  rw [began, List.dropWhile_cons_of_pos (by simpa using h), began]

theorem began_cons_of_not_mem (h : file ∉ now.definers id) :
    began id file (now :: past) = past.length + 1 := by
  rw [began, List.dropWhile_cons_of_neg (by simpa using h), List.length_cons]

theorem began_cons_le (h : file ∈ now.definers id) : began id file (now :: past) ≤ past.length := by
  rw [began_cons_of_mem h]
  exact (List.dropWhile_sublist _).length_le

/-- As long as files go on, nothing happens to their order. -/
theorem pairwise_began_cons {files : List FileName}
    (h : (before.definers id).Pairwise fun f g =>
      began id f (before :: past) < began id g (before :: past))
    (hsub : files.Sublist (before.definers id)) (hnow : ∀ f ∈ files, f ∈ now.definers id) :
    files.Pairwise fun f g =>
      began id f (now :: before :: past) < began id g (now :: before :: past) := by
  refine (h.sublist hsub).imp_of_mem fun hf hg hlt => ?_
  rwa [began_cons_of_mem (hnow _ hf), began_cons_of_mem (hnow _ hg)]

/-- The files that define an item are ordered by the moments at which they began to. -/
theorem History.pairwise_began (h : History (now :: past)) (id : ItemId) :
    (now.definers id).Pairwise fun f g => began id f (now :: past) < began id g (now :: past) := by
  generalize hall : now :: past = all at h
  induction h generalizing now past with
  | start h =>
      cases hall
      rw [h id]
      exact .nil
  | @next now' before past' h hs ih =>
      cases hall
      cases hs id with
      | same heq => exact pairwise_began_cons (ih rfl) (heq ▸ .refl _) fun _ hf => hf
      | removed file heq =>
          exact pairwise_began_cons (ih rfl) (heq ▸ List.filter_sublist) fun _ hf => hf
      | added file hnew heq =>
          have hold : ∀ f ∈ before.definers id, f ∈ now'.definers id := fun f hf => by
            rw [heq]
            exact List.mem_append_left _ hf
          have hfile : file ∈ now'.definers id := by simp [heq]
          rw [heq, List.pairwise_append]
          refine ⟨pairwise_began_cons (ih rfl) (.refl _) hold, List.pairwise_singleton _ _,
            fun f hf g hg => ?_⟩
          obtain rfl := List.mem_singleton.mp hg
          -- The new file begins with the latest store, and the others began before.
          rw [began_cons_of_mem (hold f hf), began_cons_of_mem hfile, began_cons_of_not_mem hnew]
          exact Nat.lt_succ_of_le (began_cons_le hf)

end

/-- What a history has made of the files that define an item, for the latest store and those before
it. -/
structure BySeniority (id : ItemId) (now : Store) (past : List Store) : Prop where
  ordered : (now.definers id).Pairwise fun f g =>
    began id f (now :: past) < began id g (now :: past)
  /-- As long as none begins and none ceases, all keep their places. -/
  unmoved : ∀ before ∈ past.head?, (∀ f, f ∈ now.definers id ↔ f ∈ before.definers id) →
    now.definers id = before.definers id
  newcomer : ∀ before ∈ past.head?, ∀ f ∈ now.definers id, f ∉ before.definers id →
    now.definers id = before.definers id ++ [f]
  authoritative : ∀ before ∈ past.head?, ∀ f d, before.authoritative? id = some (f, d) →
    f ∈ now.definers id → ∃ d', now.authoritative? id = some (f, d')

theorem head?_definers (s : Store) (id : ItemId) :
    (s.definers id).head? = (s.authoritative? id).map Prod.fst := by
  rw [definers_eq, authoritative?_eq, List.head?_map]

section

variable {before now : List FileName} {f : FileName}

theorem Continues.eq_of_mem_iff (h : Continues before now) (hmem : ∀ f, f ∈ now ↔ f ∈ before) :
    now = before := by
  cases h with
  | same h => exact h
  | added file hnew h => exact absurd ((hmem file).mp (by simp [h])) hnew
  | removed file h =>
      rw [h, List.filter_eq_self]
      rintro f hf
      have hnow := (hmem f).mpr hf
      rw [h] at hnow
      exact (List.mem_filter.mp hnow).2

theorem Continues.eq_append_of_not_mem (h : Continues before now) (hf : f ∈ now)
    (hnew : f ∉ before) : now = before ++ [f] := by
  cases h with
  | same h => exact absurd (h ▸ hf) hnew
  | added file _ h =>
      rw [h, List.mem_append, List.mem_singleton] at hf
      rw [h, hf.resolve_left hnew]
  | removed file h =>
      rw [h] at hf
      exact absurd (List.mem_filter.mp hf).1 hnew

theorem Continues.head?_eq (h : Continues before now) (hf : before.head? = some f)
    (hmem : f ∈ now) : now.head? = some f := by
  cases h with
  | same h => rwa [h]
  | added file _ h =>
      rw [h, List.head?_append, hf]
      rfl
  | removed file h =>
      obtain ⟨rest, rfl⟩ := List.head?_eq_some_iff.mp hf
      rw [h] at hmem ⊢
      rw [List.filter_cons, if_pos (List.mem_filter.mp hmem).2]
      rfl

end

theorem History.bySeniority {now : Store} {past : List Store} (h : History (now :: past))
    (id : ItemId) : BySeniority id now past := by
  have hlast : ∀ before ∈ past.head?, Continues (before.definers id) (now.definers id) := by
    intro before hbefore
    cases h with
    | start h => cases hbefore
    | next h hs =>
        cases hbefore
        exact hs id
  refine ⟨h.pairwise_began id, fun before hb => (hlast before hb).eq_of_mem_iff,
    fun before hb f hf hnew => (hlast before hb).eq_append_of_not_mem hf hnew,
    fun before hb f d hfirst hmem => ?_⟩
  have hhead : (before.definers id).head? = some f := by rw [head?_definers, hfirst]; rfl
  have hnow := (hlast before hb).head?_eq hhead hmem
  rw [head?_definers, Option.map_eq_some_iff] at hnow
  obtain ⟨⟨_, d'⟩, hnow, rfl⟩ := hnow
  exact ⟨d', hnow⟩

/-- The later part of a history is one of its own with everything before it. -/
theorem History.of_suffix {past all : List Store} {now : Store} (h : History all)
    (hs : now :: past <:+ all) : History (now :: past) := by
  induction h with
  | start h =>
      rcases List.suffix_cons_iff.mp hs with he | hs
      · exact he ▸ .start h
      · cases List.suffix_nil.mp hs
  | next h hnext ih =>
      rcases List.suffix_cons_iff.mp hs with he | hs
      · exact he ▸ .next h hnext
      · exact ih hs

end Store

/-! ## Looking on -/

namespace Client

variable {σ α β : Type}

/-- A client that looks at the store after each of its operations and whenever its listener is
called. It does not act upon what it sees there. -/
def watchful : Client σ → Client σ
  | finish result => finish result
  | look next => look fun t => (next t).watchful
  | keep own next => keep own next.watchful
  | act a next => act a fun result => look fun _ => (next result).watchful
  | analyze changed deleted next =>
    analyze (fun id file => look fun _ => (changed id file).watchful)
      (fun id file wasLast => look fun _ => (deleted id file wasLast).watchful)
      fun result => look fun _ => (next result).watchful

/-- The stores that a run goes through, the latest first. -/
def history (c : Client σ) (own : σ) : List Store :=
  (c.outcome own).store :: ((look fun _ => c.watchful).outcome own).derived.seen

/-- The state of a run and that of another one, which differs in that more has been seen. -/
structure Alongside (t u : Tracked (Audit σ)) : Prop where
  store : u.store = t.store
  own : u.derived.own = t.derived.own
  failed : u.derived.failed = t.derived.failed
  seen : t.derived.seen.Sublist u.derived.seen

theorem Alongside.refl (t : Tracked (Audit σ)) : Alongside t t := ⟨rfl, rfl, rfl, .refl _⟩

/-- Two programs do the same, apart from what is seen in the second. -/
def Matches (x y : Run (Audit σ) α) : Prop :=
  ∀ t u, Alongside t u → (y.exec u).1 = (x.exec t).1 ∧ Alongside (x.exec t).2 (y.exec u).2

theorem matches_pure (a : α) : Matches (pure a : Run (Audit σ) α) (pure a) :=
  fun _ _ h => ⟨rfl, h⟩

theorem matches_throw (v : Violation) : Matches (throw v : Run (Audit σ) α) (throw v) :=
  fun _ _ h => ⟨rfl, h⟩

theorem matches_store : Matches (Run.store : Run (Audit σ) Store) Run.store :=
  fun _ _ h => ⟨congrArg Except.ok h.store, h⟩

theorem matches_change (f : Store → Store) :
    Matches (Run.change f : Run (Audit σ) Unit) (Run.change f) :=
  fun _ _ h => ⟨rfl, congrArg f h.store, h.own, h.failed, h.seen⟩

theorem Matches.bind {x y : Run (Audit σ) α} {f g : α → Run (Audit σ) β} (hx : Matches x y)
    (hf : ∀ a, Matches (f a) (g a)) : Matches (x >>= f) (y >>= g) := by
  intro t u h
  obtain ⟨hresult, hstate⟩ := hx t u h
  rw [Run.exec_bind, Run.exec_bind]
  rcases hr : x.exec t with ⟨result, t'⟩
  rcases hr' : y.exec u with ⟨result', u'⟩
  rw [hr, hr'] at hresult hstate
  cases hresult
  cases result with
  | error v => exact ⟨rfl, hstate⟩
  | ok a => exact hf a t' u' hstate

theorem Matches.observing {x y : Run (Audit σ) α} (h : Matches x y) :
    Matches (observing x) (observing y) := by
  intro t u ht
  obtain ⟨hresult, hstate⟩ := h t u ht
  rw [Run.exec_observing, Run.exec_observing]
  exact ⟨congrArg Except.ok hresult, hstate⟩

theorem matches_step (f : Store → Except Violation (α × Store)) :
    Matches (Run.step f : Run (Audit σ) α) (Run.step f) := by
  simp only [Run.step]
  refine matches_store.bind fun s => ?_
  split
  · next a s' _ =>
      refine Matches.bind (fun t u h => ⟨rfl, ?_⟩) fun _ => matches_pure a
      exact ⟨rfl, h.own, h.failed, h.seen⟩
  · exact matches_throw _

section

variable {l m : Listener (Audit σ)}
  (hc : ∀ id file, Matches (l.changed id file) (m.changed id file))
  (hd : ∀ id file wasLast, Matches (l.deleted id file wasLast) (m.deleted id file wasLast))

include hc hd

theorem matches_settle (w : Watch) (id : ItemId) :
    Matches (Store.settle l w id) (Store.settle m w id) := by
  simp only [Store.settle]
  refine matches_store.bind fun s => ?_
  split
  · split
    · exact (matches_step _).bind fun _ => hc _ _
    · exact matches_pure ()
  · exact (matches_step _).bind fun _ => hd _ _ _

theorem matches_settleAll (w : Watch) (ids : List ItemId) :
    Matches (Store.settleAll l w ids) (Store.settleAll m w ids) := by
  induction ids with
  | nil => exact matches_pure ()
  | cons id ids ih => exact (matches_settle hc hd w id).bind fun _ => ih

theorem matches_settleExtensions (w : Watch) (extensions : List Nat) :
    Matches (Store.settleExtensions l w extensions) (Store.settleExtensions m w extensions) := by
  induction extensions with
  | nil => exact matches_pure ()
  | cons extension extensions ih =>
      simp only [Store.settleExtensions]
      refine matches_store.bind fun s => ?_
      split
      · exact (matches_settleAll hc hd w _).bind fun _ => ih
      · exact matches_pure ()

theorem matches_analyze : Matches (Store.analyze l) (Store.analyze m) := by
  simp only [Store.analyze]
  refine matches_store.bind fun s => ?_
  split
  · exact matches_throw _
  · exact (matches_change _).bind fun _ =>
      (matches_settleExtensions hc hd _ _).bind fun _ => matches_change _

theorem matches_audited : Matches (audited l) (audited m) := by
  refine (matches_analyze hc hd).observing.bind fun result => ?_
  split
  · exact Matches.bind (fun _ _ h => ⟨rfl, h.store, h.own, rfl, h.seen⟩) fun _ => matches_pure _
  · exact matches_pure _

end

theorem exec_program_look (next : Tracked σ → Client σ) (t : Tracked (Audit σ)) :
    (look next).program.exec t =
      (next ⟨t.store, t.derived.own⟩).program.exec
        { t with derived.seen := t.store :: t.derived.seen } := by
  rw [program, Run.exec_bind_ok (Run.exec_get t), Run.exec_bind_ok (Run.exec_modify _ t)]

theorem Matches.look {x : Run (Audit σ) Unit} {c : Client σ} (h : Matches x c.program) :
    Matches x (look fun _ => c).program := by
  intro t u ht
  rw [exec_program_look]
  exact h t _ ⟨ht.store, ht.own, ht.failed, ht.seen.cons _⟩

/-- A watchful client does what the client does. -/
theorem matches_watchful (c : Client σ) : Matches c.program c.watchful.program := by
  induction c with
  | finish result =>
      cases result with
      | ok _ => exact matches_pure ()
      | error v => exact matches_throw v
  | look next ih =>
      intro t u h
      rw [watchful, exec_program_look, exec_program_look, h.store, h.own]
      exact ih _ _ _ ⟨rfl, h.own, h.failed, h.seen.cons_cons _⟩
  | keep own next ih =>
      refine Matches.bind (fun t u h => ⟨rfl, h.store, rfl, h.failed, h.seen⟩) fun _ => ih
  | act a next ih => exact (matches_step a.take).observing.bind fun result => (ih result).look
  | analyze changed deleted next ihc ihd ih =>
      exact (matches_audited (fun id file => (ihc id file).look)
        fun id file wasLast => (ihd id file wasLast).look).bind fun result => (ih result).look

theorem alongside_outcome (c : Client σ) (own : σ) :
    Alongside (c.outcome own) ((look fun _ => c.watchful).outcome own) :=
  ((matches_watchful c).look _ _ (.refl _)).2

/-! ## The history of a watchful client -/

/-- What has been seen is a history that the store may follow. -/
def Stale (t : Tracked (Audit σ)) : Prop := Store.History (t.store :: t.derived.seen)

/-- What has been seen is a history, and by it the files that define items are as they are. -/
def Fresh (t : Tracked (Audit σ)) : Prop :=
  ∃ now past, t.derived.seen = now :: past ∧ Store.History (now :: past) ∧
    ∀ id, t.store.definers id = now.definers id

variable {t : Tracked (Audit σ)}

theorem Fresh.stale_of_succeeds (h : Fresh t) {s : Store} (hs : t.store.Succeeds s) :
    Stale { t with store := s } := by
  obtain ⟨now, past, hseen, hhistory, hsame⟩ := h
  rw [Stale, hseen]
  exact hhistory.next fun id => hsame id ▸ hs id

theorem Fresh.stale (h : Fresh t) : Stale t := h.stale_of_succeeds fun _ => .same rfl

theorem Fresh.of_definers_eq (h : Fresh t) {s : Store}
    (hs : ∀ id, s.definers id = t.store.definers id) : Fresh { t with store := s } := by
  obtain ⟨now, past, hseen, hhistory, hsame⟩ := h
  exact ⟨now, past, hseen, hhistory, fun id => (hs id).trans (hsame id)⟩

/-- A look refreshes what is known. -/
theorem fresh_look {c : Client σ} (h : c.program.Keeps Fresh) {t : Tracked (Audit σ)}
    (ht : Stale t) : Fresh ((look fun _ => c).program.exec t).2 := by
  rw [exec_program_look]
  exact h _ ⟨t.store, t.derived.seen, rfl, ht, fun _ => rfl⟩

theorem keeps_audited_fresh {l : Listener (Audit σ)}
    (hc : ∀ id file t, Stale t → Fresh ((l.changed id file).exec t).2)
    (hd : ∀ id file wasLast t, Stale t → Fresh ((l.deleted id file wasLast).exec t).2) :
    (audited l).Keeps Fresh := by
  have hanalyze : (Store.analyze l).Keeps Fresh :=
    Store.keeps_analyze (fun _ ht => ht.of_definers_eq fun _ => rfl)
      (fun _ _ _ d hr hf ht => ht.stale_of_succeeds (Store.Step.revise d hr hf).succeeds)
      (fun _ _ _ hf ht => ht.stale_of_succeeds (Store.Step.drop hf).succeeds)
      (fun t file ht => ht.of_definers_eq (Store.alike_forgetIfEmpty t.store file).definers) hc hd
  have hobserving : (observing (Store.analyze l)).Keeps Fresh := fun t ht => by
    rw [Run.exec_observing]
    exact hanalyze t ht
  refine hobserving.bind fun result => ?_
  split
  · exact Run.Keeps.bind (fun _ ht => ht) fun _ => Run.keeps_pure _
  · exact Run.keeps_pure _

theorem keeps_watchful (c : Client σ) : c.watchful.program.Keeps Fresh := by
  induction c with
  | finish result =>
      cases result with
      | ok _ => exact Run.keeps_pure ()
      | error v => exact Run.keeps_throw v
  | look next ih =>
      intro t ht
      rw [watchful, exec_program_look]
      exact ih _ _ ⟨t.store, t.derived.seen, rfl, ht.stale, fun _ => rfl⟩
  | keep own next ih => exact Run.Keeps.bind (fun _ ht => ht) fun _ => ih
  | act a next ih =>
      intro t ht
      have hstep : Stale ((Run.step a.take).exec t).2 := by
        cases htake : a.take t.store with
        | error v =>
            rw [Run.exec_step_error htake]
            exact ht.stale
        | ok r =>
            rw [Run.exec_step_ok htake]
            exact ht.stale_of_succeeds (Action.step_of_take htake).succeeds
      rw [watchful, program, Run.exec_bind_ok (Run.exec_observing _ t)]
      exact fresh_look (ih _) hstep
  | analyze changed deleted next ihc ihd ih =>
      exact (keeps_audited_fresh (fun id file _ => fresh_look (ihc id file))
        fun id file wasLast _ => fresh_look (ihd id file wasLast)).bind fun result t ht =>
          fresh_look (ih result) ht.stale

theorem history_outcome (c : Client σ) (own : σ) : Store.History (c.history own) := by
  have hfresh : Fresh ((look fun _ => c.watchful).outcome own) :=
    fresh_look (keeps_watchful c) (.start fun id => rfl)
  rw [history, ← (alongside_outcome c own).store]
  exact hfresh.stale

/-- Whatever a client and its listeners do, the files that define an item are listed by seniority
all the time. The history tells of every store that any of them has looked at. -/
theorem bySeniority_outcome (c : Client σ) (own : σ) :
    (c.outcome own).derived.seen.Sublist (c.history own) ∧
      ∀ now past, now :: past <:+ c.history own → ∀ id, Store.BySeniority id now past :=
  ⟨(alongside_outcome c own).seen.cons _, fun _ _ hs id =>
    ((history_outcome c own).of_suffix hs).bySeniority id⟩

end Client

end Commentary
