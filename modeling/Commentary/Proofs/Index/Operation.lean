import Commentary.Proofs.Index.Invariant
import Mathlib.Data.List.Induction

/-!
# Runs of operations

A project may be driven by its single operations instead of whole commits: files claim things in
any order, inside a watch or outside, and watches are started and analysed. An operation that
fails leaves the project as it was, so everything that moves keep holds after any run.
-/

namespace Commentary

/-- An operation on a project. -/
inductive Operation where
  | claim (file : FileName) (c : Claim)
  | watch (file : FileName)
  | analyze

namespace Operation

/-- The operation as a program. -/
def program : Operation → Run Index Unit
  | claim file c => modify (Project.accept · file c)
  | watch file => Project.watch file
  | analyze => Project.analyze

/-- The project that an operation leaves, whether it fails or not. -/
def perform (p : Project) (o : Operation) : Project := (o.program.exec p).2

/-- The project that a run of operations leaves behind when it starts without files. -/
def performAll (os : List Operation) : Project := os.foldl perform .empty

/-- What is claimed, if anything, is of a certain kind. -/
def Claims (ok : Claim → Prop) : Operation → Prop
  | claim _ c => ok c
  | _ => True

instance {ok : Claim → Prop} [DecidablePred ok] : DecidablePred (Claims ok)
  | claim _ c => inferInstanceAs (Decidable (ok c))
  | watch _ => inferInstanceAs (Decidable True)
  | analyze => inferInstanceAs (Decidable True)

variable {ok : Claim → Prop} {p : Project}

/-- An operation moves the project or leaves it as it is. -/
theorem moves_perform {o : Operation} (ho : o.Claims ok) (hp : p.store.Consistent) :
    ∃ file, Project.Moves ok file p (perform p o) := by
  cases o with
  | claim file c => exact ⟨file, .single (.accept p ho)⟩
  | watch file =>
      refine ⟨file, ?_⟩
      cases hw : p.store.watched with
      | some active =>
          have h : p.store.watch file = .error (.watchAlreadyActive active.file file) := by
            simp [Store.watch, hw]
          rw [perform, program, Project.watch, Run.exec_step_error h]
      | none =>
          rw [perform, program, Project.watch, Run.exec_step_ok (Store.watch_eq hw file)]
          exact .single (.watched p _)
  | analyze =>
      cases hw : p.store.watched with
      | some w =>
          obtain ⟨q, hexec, hmoves, -⟩ := Project.moves_analyze ok hp hw
          rw [perform, program, hexec]
          exact ⟨w.file, hmoves⟩
      | none =>
          rw [perform, program, Project.analyze,
            Store.exec_analyze_of_unwatched Project.listener hw]
          exact ⟨[], .refl⟩

/-- What every move keeps holds after every run, if it holds without files. -/
theorem performAll_induction {I : Project → Prop} {os : List Operation}
    (hos : ∀ o ∈ os, o.Claims ok) (h0 : I .empty)
    (hstep : ∀ file p q, Project.Move ok file p q → I p → I q) :
    (performAll os).Sound ∧ I (performAll os) := by
  induction os using List.reverseRecOn with
  | nil => exact ⟨Project.sound_empty, h0⟩
  | append_singleton os o ih =>
      obtain ⟨hsound, hI⟩ := ih fun o ho => hos o (by simp [ho])
      obtain ⟨file, hmoves⟩ := moves_perform (hos o (by simp)) hsound.consistent
      have hlast : performAll (os ++ [o]) = perform (performAll os) o := List.foldl_concat ..
      rw [hlast]
      exact ⟨hmoves.preserve (fun _ _ => Project.Move.sound) hsound,
        hmoves.preserve (hstep file) hI⟩

end Operation

end Commentary
