import Commentary.Store.Update

/-!
# Analysis of a watched file

When a file has been read again, what it defined before is compared with what it claims now. A
definition that was not claimed is deleted, one that was claimed differently is changed, and a
listener hears of each as it happens. The listener may change the store itself, and it may fail,
which ends the analysis where it stands.
-/

namespace Commentary

/-- A store together with what is derived from it. -/
structure Tracked (σ : Type) where
  store : Store
  derived : σ

/-- A program on a tracked store. It may break a rule of the store; the state that it leaves is
kept then. -/
abbrev Run (σ α : Type) := ExceptT Violation (StateM (Tracked σ)) α

namespace Run

variable {σ α : Type}

/-- The store as it is. -/
def store : Run σ Store := return (← get).store

/-- A step of the store. One that breaks a rule leaves the store as it is. -/
def step (f : Store → Except Violation (α × Store)) : Run σ α := do
  match f (← store) with
  | .ok (a, s) =>
    modify fun t => { t with store := s }
    return a
  | .error v => throw v

/-- A change of the store that breaks no rule. -/
def change (f : Store → Store) : Run σ Unit := modify fun t => { t with store := f t.store }

end Run

/-- What happens when a definition of the watched file is changed or deleted. -/
structure Listener (σ : Type) where
  changed : ItemId → FileName → Run σ Unit
  /-- The last argument says that no other file defines the item. -/
  deleted : ItemId → FileName → Bool → Run σ Unit

namespace Listener

variable {σ : Type}

/-- The listener that lets everything pass. -/
def ignore : Listener σ := ⟨fun _ _ => pure (), fun _ _ _ => pure ()⟩

end Listener

namespace Store

variable {σ : Type}

/-- Compares one definition of the watched file with what the file claims. -/
def settle (listener : Listener σ) (w : Watch) (id : ItemId) : Run σ Unit := do
  let s ← Run.store
  match w.claims.get? id with
  | some new =>
    if s.isRich id.extension ∧ s.definition? id w.file ≠ some new then
      Run.step (·.changeDefinition id w.file new)
      listener.changed id w.file
  | none =>
    let wasLast ← Run.step (·.deleteDefinition id w.file)
    listener.deleted id w.file wasLast

/-- Compares some definitions of the watched file, in order. -/
def settleAll (listener : Listener σ) (w : Watch) : List ItemId → Run σ Unit
  | [] => pure ()
  | id :: ids => do
    settle listener w id
    settleAll listener w ids

/-- Compares the definitions of the watched file in some extensions, one after the other. The
items of an extension are those that the file defines when its turn comes. -/
def settleExtensions (listener : Listener σ) (w : Watch) : List Nat → Run σ Unit
  | [] => pure ()
  | extension :: extensions => do
    let s ← Run.store
    if s.hasFile w.file then
      settleAll listener w (s.fileItems w.file extension)
      settleExtensions listener w extensions

/-- Ends the watch: brings the definitions of the watched file in line with its claims, the
extension that was registered last first. -/
def analyze (listener : Listener σ) : Run σ Unit := do
  let s ← Run.store
  match s.watched with
  | none => throw .noWatchedFile
  | some w =>
    Run.change fun s => { s with watched := none }
    settleExtensions listener w s.order.reverse
    Run.change (·.forgetIfEmpty w.file)

end Store

end Commentary
