import Mathlib.Data.List.Basic

/-!
# Lists that grow at their end

Topics are placed, and automatic topics are merged into them, one after the other, and what is
right for the next one depends on those before it. Such a property of a list holds of a longer one
if it holds of the shorter one and of the element that was added.
-/

namespace Commentary

/-- Every element of a list stands in a relation to the list of those before it. -/
def Successive {α : Type} (r : List α → α → Prop) (l : List α) : Prop :=
  ∀ before a after, l = before ++ a :: after → r before a

namespace Successive

variable {α : Type} {r r' : List α → α → Prop} {l : List α} {a : α}

theorem nil : Successive r [] :=
  fun before _ _ h => absurd h.symm (List.append_ne_nil_of_right_ne_nil before nofun)

theorem mono (h : Successive r l) (hr : ∀ before a, r before a → r' before a) :
    Successive r' l :=
  fun before a after hl => hr before a (h before a after hl)

theorem concat_iff : Successive r (l ++ [a]) ↔ Successive r l ∧ r l a := by
  constructor
  · intro h
    refine ⟨fun before b after hl => h before b (after ++ [a]) ?_, h l a [] rfl⟩
    rw [hl, List.append_assoc]
    rfl
  · rintro ⟨hl, ha⟩ before b after heq
    rcases List.eq_nil_or_concat after with rfl | ⟨after, c, rfl⟩
    · obtain ⟨rfl, hab⟩ := List.append_inj' heq rfl
      cases hab
      exact ha
    · rw [List.concat_eq_append, ← List.cons_append, ← List.append_assoc] at heq
      exact hl before b after (List.append_inj' heq rfl).1

end Successive

end Commentary
