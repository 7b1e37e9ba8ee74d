import Commentary.Proofs.Store.Consistency
import Commentary.Store.Analysis

/-!
# Runs

What a program on a tracked store does is read off `Run.exec`. The programs that the users of a
store can write are those made of its public operations; a listener is made of them too, so that
an analysis may be entered again from within itself. All that such a program can do to the store
is a sequence of elementary steps.
-/

namespace Commentary

namespace Run

variable {σ α β : Type}

/-- What a program answers in a state, and the state that it leaves. -/
def exec (x : Run σ α) (t : Tracked σ) : Except Violation α × Tracked σ := x.run.run t

theorem exec_get (t : Tracked σ) : (get : Run σ (Tracked σ)).exec t = (.ok t, t) := rfl

theorem exec_store (t : Tracked σ) : (Run.store : Run σ Store).exec t = (.ok t.store, t) := rfl

theorem exec_modify (f : Tracked σ → Tracked σ) (t : Tracked σ) :
    (modify f : Run σ Unit).exec t = (.ok (), f t) := rfl

theorem exec_change (f : Store → Store) (t : Tracked σ) :
    (Run.change f : Run σ Unit).exec t = (.ok (), { t with store := f t.store }) := rfl

theorem exec_bind (x : Run σ α) (f : α → Run σ β) (t : Tracked σ) :
    (x >>= f).exec t =
      match x.exec t with
      | (.ok a, t') => (f a).exec t'
      | (.error v, t') => (.error v, t') := by
  simp only [exec, ExceptT.run_bind, StateT.run_bind]
  rcases x.run.run t with ⟨_ | _, t'⟩ <;> rfl

theorem exec_bind_ok {x : Run σ α} {t t' : Tracked σ} {a : α} (h : x.exec t = (.ok a, t'))
    (f : α → Run σ β) : (x >>= f).exec t = (f a).exec t' := by
  rw [exec_bind, h]

theorem exec_bind_error {x : Run σ α} {t t' : Tracked σ} {v : Violation}
    (h : x.exec t = (.error v, t')) (f : α → Run σ β) :
    (x >>= f).exec t = (.error v, t') := by
  rw [exec_bind, h]

theorem exec_tryCatch (x : Run σ α) (f : Violation → Run σ α) (t : Tracked σ) :
    (tryCatch x f).exec t =
      match x.exec t with
      | (.ok a, t') => (.ok a, t')
      | (.error v, t') => (f v).exec t' := by
  simp only [exec, ExceptT.run_tryCatch, StateT.run_bind]
  rcases x.run.run t with ⟨_ | _, t'⟩ <;> rfl

theorem exec_observing (x : Run σ α) (t : Tracked σ) :
    (observing x).exec t = (.ok (x.exec t).1, (x.exec t).2) := by
  simp only [observing]
  rw [exec_tryCatch, exec_bind]
  rcases x.exec t with ⟨v | a, t'⟩ <;> rfl

theorem exec_step_ok {f : Store → Except Violation (α × Store)} {t : Tracked σ} {a : α}
    {s : Store} (h : f t.store = .ok (a, s)) :
    (Run.step f).exec t = (.ok a, { t with store := s }) := by
  simp only [Run.step]
  rw [exec_bind, exec_store]
  simp only [h]
  rfl

theorem exec_step_error {f : Store → Except Violation (α × Store)} {t : Tracked σ}
    {v : Violation} (h : f t.store = .error v) : (Run.step f).exec t = (.error v, t) := by
  simp only [Run.step]
  rw [exec_bind, exec_store]
  simp only [h]
  rfl

/-! ## What programs keep -/

/-- Whatever the program answers, what held before it holds after it. -/
def Keeps (I : Tracked σ → Prop) (x : Run σ α) : Prop := ∀ t, I t → I (x.exec t).2

section Keeps

variable {I : Tracked σ → Prop} {x : Run σ α}

theorem keeps_pure (a : α) : (pure a : Run σ α).Keeps I := fun _ ht => ht

theorem keeps_throw (v : Violation) : (throw v : Run σ α).Keeps I := fun _ ht => ht

theorem keeps_store : (Run.store : Run σ Store).Keeps I := fun _ ht => ht

theorem Keeps.bind {f : α → Run σ β} (hx : x.Keeps I) (hf : ∀ a, (f a).Keeps I) :
    (x >>= f).Keeps I := by
  intro t ht
  have h := hx t ht
  rw [exec_bind]
  rcases hr : x.exec t with ⟨v | a, t'⟩
  · simpa only [hr] using h
  · rw [hr] at h
    exact hf a t' h

theorem Keeps.tryCatch {f : Violation → Run σ α} (hx : x.Keeps I) (hf : ∀ v, (f v).Keeps I) :
    (tryCatch x f).Keeps I := by
  intro t ht
  have h := hx t ht
  rw [exec_tryCatch]
  rcases hr : x.exec t with ⟨v | a, t'⟩
  · rw [hr] at h
    exact hf v t' h
  · simpa only [hr] using h

theorem keeps_step {f : Store → Except Violation (α × Store)}
    (h : ∀ t a s, f t.store = .ok (a, s) → I t → I { t with store := s }) :
    (Run.step f).Keeps I := by
  intro t ht
  cases hf : f t.store with
  | error v =>
      rw [exec_step_error hf]
      exact ht
  | ok r =>
      rw [exec_step_ok hf]
      exact h t r.1 r.2 hf ht

/-- A step keeps something together with what follows it, which sets right what the step may have
broken. -/
theorem keeps_step_bind {J : Tracked σ → Prop} {f : Store → Except Violation (α × Store)}
    {next : α → Run σ β} (h : ∀ t a s, f t.store = .ok (a, s) → I t → J { t with store := s })
    (hnext : ∀ a t, J t → I ((next a).exec t).2) : (Run.step f >>= next).Keeps I := by
  intro t ht
  cases hf : f t.store with
  | error v =>
      rw [exec_bind_error (exec_step_error hf)]
      exact ht
  | ok r =>
      rw [exec_bind_ok (exec_step_ok hf)]
      exact hnext r.1 _ (h t r.1 r.2 hf ht)

end Keeps

/-! ## Programs that move by steps -/

/-- Whatever the program answers, it has moved the store by elementary steps. -/
def Stepwise (x : Run σ α) : Prop := ∀ t, Store.Steps t.store (x.exec t).2.store

theorem stepwise_iff_keeps {x : Run σ α} :
    x.Stepwise ↔ ∀ s, x.Keeps fun t => Store.Steps s t.store :=
  ⟨fun h _ t hs => hs.trans (h t), fun h t => h t.store t .refl⟩

theorem stepwise_of_store_eq {x : Run σ α} (h : ∀ t, (x.exec t).2.store = t.store) :
    x.Stepwise := by
  intro t
  rw [h]

theorem Stepwise.bind {x : Run σ α} {f : α → Run σ β} (hx : x.Stepwise)
    (hf : ∀ a, (f a).Stepwise) : (x >>= f).Stepwise := by
  rw [stepwise_iff_keeps] at hx ⊢
  exact fun s => (hx s).bind fun a => stepwise_iff_keeps.mp (hf a) s

theorem Stepwise.tryCatch {x : Run σ α} {f : Violation → Run σ α} (hx : x.Stepwise)
    (hf : ∀ v, (f v).Stepwise) : (tryCatch x f).Stepwise := by
  rw [stepwise_iff_keeps] at hx ⊢
  exact fun s => (hx s).tryCatch fun v => stepwise_iff_keeps.mp (hf v) s

theorem stepwise_change {f : Store → Store} (h : ∀ s, Store.Step s (f s)) :
    (Run.change f : Run σ Unit).Stepwise := by
  intro t
  exact .single (h t.store)

theorem stepwise_step {f : Store → Except Violation (α × Store)}
    (h : ∀ s a s', f s = .ok (a, s') → Store.Step s s') : (Run.step f : Run σ α).Stepwise := by
  rw [stepwise_iff_keeps]
  exact fun _ => keeps_step fun t a s hf hs => hs.tail (h t.store a s hf)

/-! ## Programs of the public operations -/

/-- The programs that can be written with the public operations of a store. They read and change
what they keep beside the store as they like, they may fail and recover from failures, and the
listener of an analysis is again made of such programs. -/
inductive Public : {α : Type} → Run σ α → Prop where
  | pure {α : Type} (a : α) : Public (pure a : Run σ α)
  | bind {α β : Type} {x : Run σ α} {f : α → Run σ β} (hx : Public x)
      (hf : ∀ a, Public (f a)) : Public (x >>= f)
  | throw {α : Type} (v : Violation) : Public (throw v : Run σ α)
  | tryCatch {α : Type} {x : Run σ α} {f : Violation → Run σ α} (hx : Public x)
      (hf : ∀ v, Public (f v)) : Public (tryCatch x f)
  | derived : Public (do return (← get).derived : Run σ σ)
  | derive (f : σ → σ) : Public (modify fun t => { t with derived := f t.derived } : Run σ Unit)
  | store : Public (Run.store : Run σ Store)
  | register (e : Extension) : Public (Run.change (·.register e) : Run σ Unit)
  | ensureItem (id : ItemId) : Public (Run.step fun s => .ok (s.ensureItem id) : Run σ Bool)
  | addItem (id : ItemId) : Public (Run.step (·.addItem id) : Run σ Bool)
  | deleteItem (id : ItemId) : Public (Run.step (·.deleteItem id) : Run σ Bool)
  | addDefinition (id : ItemId) (file : FileName) (d : Definition) :
      Public (Run.step (·.addDefinition id file d) : Run σ Bool)
  | watch (file : FileName) : Public (Run.step (·.watch file) : Run σ Unit)
  | analyze {l : Listener σ} (hc : ∀ id file, Public (l.changed id file))
      (hd : ∀ id file wasLast, Public (l.deleted id file wasLast)) :
      Public (Store.analyze l)

end Run

namespace Store

variable {σ : Type}

/-- A store that some program of public operations leaves behind, whether it fails or not. -/
def Reachable (s : Store) : Prop :=
  ∃ (σ α : Type) (x : Run σ α) (derived : σ), x.Public ∧ (x.exec ⟨{}, derived⟩).2.store = s

/-! ### Steps behind the operations -/

theorem step_addItem {s s' : Store} {id : ItemId} {b : Bool}
    (h : s.addItem id = .ok (b, s')) : Step s s' := by
  simp only [addItem] at h
  split at h
  · cases h
  · cases h
    exact .ensureItem s id

theorem step_deleteItem {s s' : Store} {id : ItemId} {b : Bool}
    (h : s.deleteItem id = .ok (b, s')) : Step s s' := by
  by_cases hd : s.isDefined id
  · simp [deleteItem, hd] at h
  · rw [deleteItem_eq hd] at h
    cases h
    exact .eraseItem hd

theorem step_addDefinition {s s' : Store} {id : ItemId} {file : FileName} {d : Definition}
    {b : Bool} (h : s.addDefinition id file d = .ok (b, s')) : Step s s' := by
  simp only [addDefinition] at h
  split at h
  · cases h
  · next item hitem =>
      cases h
      exact .record file d (by simp [hitem])

theorem step_watch {s s' : Store} {file : FileName} {u : Unit}
    (h : s.watch file = .ok (u, s')) : Step s s' := by
  simp only [watch] at h
  split at h
  · cases h
  · next hw =>
      cases h
      exact .watch file hw

/-! ### Analysis with any listener -/

theorem exec_analyze_of_unwatched (l : Listener σ) {t : Tracked σ} (h : t.store.watched = none) :
    (analyze l).exec t = (.error .noWatchedFile, t) := by
  simp only [analyze]
  rw [Run.exec_bind, Run.exec_store]
  simp only [h]
  rfl

theorem exec_analyze_of_watched (l : Listener σ) {t : Tracked σ} {w : Watch}
    (h : t.store.watched = some w) :
    (analyze l).exec t =
      (settleExtensions l w t.store.order.reverse >>= fun _ =>
        Run.change (·.forgetIfEmpty w.file)).exec
        { t with store := { t.store with watched := none } } := by
  simp only [analyze]
  rw [Run.exec_bind, Run.exec_store]
  simp only [h]
  rw [Run.exec_bind, Run.exec_change]

section Analysis

variable {I J : Tracked σ → Prop} {l : Listener σ} {w : Watch}
  (hrevise : ∀ t id d, t.store.isRich id.extension → w.file ∈ t.store.definers id → I t →
    J { t with store := t.store.revise id w.file d })
  (hdrop : ∀ t id, w.file ∈ t.store.definers id → I t →
    J { t with store := t.store.drop id w.file })
  (hc : ∀ id file t, J t → I ((l.changed id file).exec t).2)
  (hd : ∀ id file wasLast t, J t → I ((l.deleted id file wasLast).exec t).2)

include hrevise hdrop hc hd

/-- Settling keeps what each of its two changes of the store keeps together with the call of the
listener that follows it. In between, something else may hold. -/
theorem keeps_settle (id : ItemId) : (settle l w id).Keeps I := by
  simp only [settle]
  refine Run.keeps_store.bind fun s => ?_
  split
  · split
    · refine Run.keeps_step_bind (fun t _ _ hf ht => ?_) fun _ => hc _ _
      obtain ⟨hr, hm, rfl⟩ := of_changeDefinition_eq_ok hf
      exact hrevise t id _ hr hm ht
    · exact Run.keeps_pure ()
  · refine Run.keeps_step_bind (fun t _ _ hf ht => ?_) fun _ => hd _ _ _
    obtain ⟨hm, -, rfl⟩ := of_deleteDefinition_eq_ok hf
    exact hdrop t id hm ht

theorem keeps_settleAll (ids : List ItemId) : (settleAll l w ids).Keeps I := by
  induction ids with
  | nil => exact Run.keeps_pure ()
  | cons id ids ih => exact (keeps_settle hrevise hdrop hc hd id).bind fun _ => ih

theorem keeps_settleExtensions (extensions : List Nat) :
    (settleExtensions l w extensions).Keeps I := by
  induction extensions with
  | nil => exact Run.keeps_pure ()
  | cons extension extensions ih =>
      simp only [settleExtensions]
      refine Run.keeps_store.bind fun s => ?_
      split
      · exact (keeps_settleAll hrevise hdrop hc hd _).bind fun _ => ih
      · exact Run.keeps_pure ()

end Analysis

/-- An analysis keeps what the beginning and the end of it keep, and what settling keeps. -/
theorem keeps_analyze {I J : Tracked σ → Prop} {l : Listener σ}
    (hunwatch : ∀ t, I t → I { t with store := { t.store with watched := none } })
    (hrevise : ∀ t id file d, t.store.isRich id.extension → file ∈ t.store.definers id → I t →
      J { t with store := t.store.revise id file d })
    (hdrop : ∀ t id file, file ∈ t.store.definers id → I t →
      J { t with store := t.store.drop id file })
    (hforget : ∀ t file, I t → I { t with store := t.store.forgetIfEmpty file })
    (hc : ∀ id file t, J t → I ((l.changed id file).exec t).2)
    (hd : ∀ id file wasLast t, J t → I ((l.deleted id file wasLast).exec t).2) :
    (analyze l).Keeps I := by
  intro t ht
  cases hw : t.store.watched with
  | none =>
      rw [exec_analyze_of_unwatched l hw]
      exact ht
  | some w =>
      have hsettle := keeps_settleExtensions (fun t id d => hrevise t id w.file d)
        (fun t id => hdrop t id w.file) hc hd t.store.order.reverse
      have hend : (Run.change (·.forgetIfEmpty w.file) : Run σ Unit).Keeps I :=
        fun t => hforget t w.file
      rw [exec_analyze_of_watched l hw]
      exact hsettle.bind (fun _ => hend) _ (hunwatch t ht)

theorem stepwise_analyze {l : Listener σ} (hc : ∀ id file, (l.changed id file).Stepwise)
    (hd : ∀ id file wasLast, (l.deleted id file wasLast).Stepwise) : (analyze l).Stepwise := by
  rw [Run.stepwise_iff_keeps]
  intro s
  exact keeps_analyze (J := fun t => Steps s t.store) (fun _ hs => hs.tail (.unwatch _))
    (fun _ _ _ d hr hf hs => hs.tail (.revise d hr hf)) (fun _ _ _ hf hs => hs.tail (.drop hf))
    (fun _ file hs => hs.tail (.forgetIfEmpty _ file))
    (fun id file => Run.stepwise_iff_keeps.mp (hc id file) s)
    (fun id file wasLast => Run.stepwise_iff_keeps.mp (hd id file wasLast) s)

end Store

namespace Run

variable {σ α : Type}

/-- A program of public operations moves the store by elementary steps, however its listeners
call back into the store. -/
theorem Public.stepwise {x : Run σ α} (h : x.Public) : x.Stepwise := by
  induction h with
  | pure a => exact stepwise_of_store_eq fun t => rfl
  | bind _ _ ihx ihf => exact ihx.bind ihf
  | throw v => exact stepwise_of_store_eq fun t => rfl
  | tryCatch _ _ ihx ihf => exact ihx.tryCatch ihf
  | derived => exact stepwise_of_store_eq fun t => rfl
  | derive f => exact stepwise_of_store_eq fun t => rfl
  | store => exact stepwise_of_store_eq fun t => rfl
  | register e => exact stepwise_change fun s => .register s e
  | ensureItem id =>
      refine stepwise_step fun s a s' h => ?_
      cases h
      exact .ensureItem s id
  | addItem id => exact stepwise_step fun _ _ _ => Store.step_addItem
  | deleteItem id => exact stepwise_step fun _ _ _ => Store.step_deleteItem
  | addDefinition id file d => exact stepwise_step fun _ _ _ => Store.step_addDefinition
  | watch file => exact stepwise_step fun _ _ _ => Store.step_watch
  | analyze _ _ ihc ihd => exact Store.stepwise_analyze ihc ihd

end Run

theorem Store.Reachable.consistent {s : Store} (h : s.Reachable) : s.Consistent := by
  obtain ⟨σ, α, x, derived, hx, rfl⟩ := h
  exact Steps.consistent (hx.stepwise _) consistent_empty

end Commentary
