import Commentary.Proofs.Store.Run

/-!
# Clients

A client is a program that uses a store by its public operations. The listeners that it hands to
an analysis are clients as well: they may start and analyse watches of their own while the outer
analysis is under way, add and delete what that one has yet to come to, and fail at any time.
Whatever they do, the items of the store and the lists that it keeps for files stay in step.
-/

namespace Commentary

/-- A public operation of a store, the analysis apart. -/
inductive Action where
  | register (e : Extension)
  | ensureItem (id : ItemId)
  | addItem (id : ItemId)
  | deleteItem (id : ItemId)
  | addDefinition (id : ItemId) (file : FileName) (d : Definition)
  | watch (file : FileName)

/-- What an action answers and leaves, or the rule that it breaks. -/
def Action.take (s : Store) : Action → Except Violation (Bool × Store)
  | register e => .ok (true, s.register e)
  | ensureItem id => .ok (s.ensureItem id)
  | addItem id => s.addItem id
  | deleteItem id => s.deleteItem id
  | addDefinition id file d => s.addDefinition id file d
  | watch file => (s.watch file).map fun (_, s) => (true, s)

/-- A client with what it keeps for itself. It sees the store and the answer to each operation
before it goes on, and it may end in a failure. -/
inductive Client (σ : Type) where
  | finish (result : Except Violation Unit)
  | look (next : Tracked σ → Client σ)
  | keep (own : σ) (next : Client σ)
  | act (a : Action) (next : Except Violation Bool → Client σ)
  | analyze (changed : ItemId → FileName → Client σ)
      (deleted : ItemId → FileName → Bool → Client σ) (next : Except Violation Unit → Client σ)

/-- What is known of a run of a client beside the store. -/
structure Audit (σ : Type) where
  own : σ
  /-- The stores that the client and its listeners have looked at. -/
  seen : List Store := []
  /-- Whether an analysis ended in a failure, a nested one included. -/
  failed : Bool := false

namespace Client

variable {σ : Type}

/-- An analysis whose failure is noted. The client hears of it and goes on. -/
def audited (l : Listener (Audit σ)) : Run (Audit σ) (Except Violation Unit) := do
  let result ← observing (Store.analyze l)
  if result matches .error _ then modify fun t => { t with derived.failed := true }
  return result

/-- A client at work. -/
def program : Client σ → Run (Audit σ) Unit
  | finish (.ok ()) => pure ()
  | finish (.error v) => throw v
  | look next => do
    let t ← get
    modify fun t => { t with derived.seen := t.store :: t.derived.seen }
    (next ⟨t.store, t.derived.own⟩).program
  | keep own next => do
    modify fun t => { t with derived.own := own }
    next.program
  | act a next => do
    let result ← observing (Run.step a.take)
    (next result).program
  | analyze changed deleted next => do
    let result ← audited
      { changed := fun id file => (changed id file).program
        deleted := fun id file wasLast => (deleted id file wasLast).program }
    (next result).program

/-- What a client leaves behind that starts with an empty store. -/
def outcome (c : Client σ) (own : σ) : Tracked (Audit σ) := (c.program.exec ⟨{}, { own }⟩).2

end Client

namespace Action

variable {s s' : Store} {a : Action} {b : Bool}

theorem step_of_take (h : a.take s = .ok (b, s')) : Store.Step s s' := by
  cases a with
  | register e =>
      cases h
      exact .register s e
  | ensureItem id =>
      cases h
      exact .ensureItem s id
  | addItem id => exact Store.step_addItem h
  | deleteItem id => exact Store.step_deleteItem h
  | addDefinition id file d => exact Store.step_addDefinition h
  | watch file =>
      simp only [take] at h
      cases hw : s.watch file with
      | error v => simp [hw, Except.map] at h
      | ok r =>
          rw [hw] at h
          cases h
          exact Store.step_watch hw

theorem vacant_of_take (h : a.take s = .ok (b, s')) {file : FileName} (hv : s'.Vacant file) :
    s.Vacant file := by
  cases a with
  | register e =>
      cases h
      exact hv
  | ensureItem id =>
      cases h
      exact hv
  | addItem id =>
      simp only [take, Store.addItem] at h
      split at h <;> cases h
      exact hv
  | deleteItem id =>
      simp only [take, Store.deleteItem] at h
      split at h <;> cases h
      exact hv
  | addDefinition id g d =>
      simp only [take, Store.addDefinition] at h
      split at h <;> cases h
      exact Store.vacant_record d hv
  | watch g =>
      simp only [take, Store.watch] at h
      split at h <;> cases h
      exact hv

end Action

/-! ## What holds all the time -/

namespace Client

variable {σ : Type}

/-- A run while some files are being analysed. Unless an analysis has failed, no other file is
vacant. -/
structure InOrder (busy : List FileName) (t : Tracked (Audit σ)) : Prop where
  consistent : t.store.Consistent
  seen : ∀ s ∈ t.derived.seen, s.Consistent
  vacant : t.derived.failed = false → ∀ file, t.store.Vacant file → file ∈ busy

variable {busy : List FileName} {t : Tracked (Audit σ)}

theorem InOrder.fail (h : InOrder busy t) : InOrder busy { t with derived.failed := true } :=
  ⟨h.consistent, h.seen, fun hf => absurd hf.symm Bool.false_ne_true⟩

theorem InOrder.step (h : InOrder busy t) {s : Store} (hs : Store.Step t.store s)
    (hv : ∀ file, s.Vacant file → file ∈ busy ∨ t.store.Vacant file) :
    InOrder busy { t with store := s } :=
  ⟨hs.consistent h.consistent, h.seen, fun hf file hfile =>
    (hv file hfile).elim id (h.vacant hf file)⟩

/-- The file of an analysis may be vacant while the analysis goes on, and is forgotten then. -/
theorem keeps_audited {l : Listener (Audit σ)}
    (hc : ∀ busy id file, (l.changed id file).Keeps (InOrder busy))
    (hd : ∀ busy id file wasLast, (l.deleted id file wasLast).Keeps (InOrder busy)) :
    (audited l).Keeps (InOrder busy) := by
  intro t ht
  rw [audited, Run.exec_bind_ok (Run.exec_observing _ t)]
  cases hw : t.store.watched with
  | none =>
      rw [Store.exec_analyze_of_unwatched l hw]
      exact ht.fail
  | some w =>
      have hsettle : (Store.settleExtensions l w t.store.order.reverse).Keeps
          (InOrder (w.file :: busy)) :=
        Store.keeps_settleExtensions (I := InOrder (w.file :: busy))
          (J := InOrder (w.file :: busy))
          (fun _ _ d hr hf hu => hu.step (.revise d hr hf) fun _ => .inr)
          (fun _ _ hf hu => hu.step (.drop hf) fun _ hv =>
            (Store.vacant_drop hv).imp_left fun hfile => List.mem_cons.mpr (.inl hfile))
          (hc _) (hd _) _
      have hstart : InOrder (w.file :: busy)
          { t with store := { t.store with watched := none } } :=
        ⟨(Store.Step.unwatch t.store).consistent ht.consistent, ht.seen,
          fun hf file hv => List.mem_cons_of_mem _ (ht.vacant hf file hv)⟩
      have hend := hsettle _ hstart
      rw [Store.exec_analyze_of_watched l hw, Run.exec_bind]
      rcases hr : (Store.settleExtensions l w t.store.order.reverse).exec
        { t with store := { t.store with watched := none } } with ⟨v | _, u⟩
      · rw [hr] at hend
        exact ⟨hend.consistent, hend.seen, fun hf => absurd hf.symm Bool.false_ne_true⟩
      · rw [hr] at hend
        refine ⟨(Store.Step.forgetIfEmpty _ _).consistent hend.consistent, hend.seen,
          fun hf file hv => ?_⟩
        obtain ⟨hne, hv⟩ := Store.vacant_forgetIfEmpty hv
        exact (List.mem_cons.mp (hend.vacant hf file hv)).resolve_left hne

theorem keeps_program (c : Client σ) : c.program.Keeps (InOrder busy) := by
  induction c generalizing busy with
  | finish result =>
      cases result with
      | ok _ => exact Run.keeps_pure ()
      | error v => exact Run.keeps_throw v
  | look next ih =>
      intro t ht
      rw [program, Run.exec_bind_ok (Run.exec_get t), Run.exec_bind_ok (Run.exec_modify _ t)]
      refine ih _ _ ⟨ht.consistent, fun s hs => ?_, ht.vacant⟩
      exact (List.mem_cons.mp hs).elim (fun e => e ▸ ht.consistent) (ht.seen s)
  | keep own next ih =>
      intro t ht
      rw [program, Run.exec_bind_ok (Run.exec_modify _ t)]
      exact ih _ ⟨ht.consistent, ht.seen, ht.vacant⟩
  | act a next ih =>
      intro t ht
      have hstep : (Run.step a.take : Run (Audit σ) Bool).Keeps (InOrder busy) :=
        Run.keeps_step fun u _ s h hu =>
          hu.step (Action.step_of_take h) fun file hv => .inr (Action.vacant_of_take h hv)
      rw [program, Run.exec_bind_ok (Run.exec_observing _ t)]
      exact ih _ _ (hstep t ht)
  | analyze changed deleted next ihc ihd ih =>
      exact (keeps_audited (fun busy id file => ihc id file)
        fun busy id file wasLast => ihd id file wasLast).bind fun result => ih result

theorem inOrder_outcome (c : Client σ) (own : σ) : InOrder [] (c.outcome own) := by
  refine keeps_program c _ ⟨Store.consistent_empty, fun s hs => absurd hs List.not_mem_nil, ?_⟩
  exact fun _ file hv => absurd hv.1 Bool.false_ne_true

end Client

namespace Store

/-- The items of a store and the lists of its files say the same. -/
structure InStep (s : Store) : Prop where
  listed : ∀ id file, (s.definition? id file).isSome ↔ id ∈ s.fileItems file id.extension
  bare : ∀ id file d, ¬ s.isRich id.extension → s.definition? id file = some d → d = .bare

theorem Consistent.inStep {s : Store} (h : s.Consistent) : s.InStep := by
  refine ⟨fun id file => ?_, fun id file d hr hd => ?_⟩
  · rw [isSome_definition?_iff, h.listed, fileItems_eq, List.mem_filter]
    simp
  · rw [definition?_eq] at hd
    obtain ⟨e, he, rfl⟩ := Option.map_eq_some_iff.mp hd
    exact h.bare id hr e (List.mem_of_find?_eq_some he)

end Store

namespace Client

variable {σ : Type}

/-- Whatever a client and its listeners do, the store is in step at the end and whenever any of
them has looked at it, and as long as no analysis has failed, the files that are known are those
that define something. -/
theorem inStep_outcome (c : Client σ) (own : σ) :
    (c.outcome own).store.InStep ∧ (∀ s ∈ (c.outcome own).derived.seen, s.InStep) ∧
      ((c.outcome own).derived.failed = false → ∀ file, (c.outcome own).store.hasFile file ↔
        ∃ id, ((c.outcome own).store.definition? id file).isSome) := by
  have h := inOrder_outcome c own
  refine ⟨h.consistent.inStep, fun s hs => (h.seen s hs).inStep, fun hf file => ?_⟩
  exact Store.hasFile_iff_of_not_vacant h.consistent fun hv =>
    absurd (h.vacant hf file hv) List.not_mem_nil

/-- A client whose listener gives up when it hears of a deletion. -/
def quitter : Client Unit :=
  .act (.register ⟨.classes, false⟩) fun _ =>
  .act (.ensureItem ⟨0, ['x']⟩) fun _ =>
  .act (.addDefinition ⟨0, ['x']⟩ ['a'] .bare) fun _ =>
  .act (.watch ['a']) fun _ =>
  .analyze (fun _ _ => .finish (.ok ())) (fun _ _ _ => .finish (.error .noWatchedFile)) fun _ =>
  .finish (.ok ())

-- The file has lost its only definition, but the analysis did not come to forget it.
example :
    (quitter.outcome ()).derived.failed ∧ (quitter.outcome ()).store.hasFile ['a'] ∧
      (quitter.outcome ()).store.index ['a'] = [] := by
  decide

end Client

end Commentary
