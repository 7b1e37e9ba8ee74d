import Commentary.Index.Candidate
import Commentary.Index.Key

/-!
# Keys without ambiguity

A key is cut at its first separator. So the two texts in it can be told apart as long as the
first one is clean, and then different links and different steps have different keys.
-/

namespace Commentary.Index

/-- The text holds no separator. -/
def Clean (t : Text) : Prop := separator ∉ t

instance (t : Text) : Decidable (Clean t) := inferInstanceAs (Decidable (separator ∉ t))

theorem unpair?_cons (c : Char) (t : Text) :
    unpair? (c :: t) =
      if separator = c then some ([], t)
      else (unpair? t).map fun (first, second) => (c :: first, second) := by
  simp only [unpair?]
  rw [Text.cutAt?, Text.afterStart?]
  by_cases hc : separator = c <;> simp [hc, Text.afterStart?]

theorem unpair?_pair {first : Text} (h : Clean first) (second : Text) :
    unpair? (pair first second) = some (first, second) := by
  simp only [Clean] at h
  induction first with
  | nil => exact (unpair?_cons separator second).trans (if_pos rfl)
  | cons c first ih =>
      rw [List.mem_cons, not_or] at h
      have hcut : unpair? (first ++ separator :: second) = some (first, second) := ih h.2
      rw [pair, List.cons_append, unpair?_cons, if_neg h.1, hcut]
      rfl

theorem eq_pair_of_unpair?_eq_some {key first second : Text}
    (h : unpair? key = some (first, second)) : Clean first ∧ key = pair first second := by
  induction key generalizing first with
  | nil => cases h
  | cons c key ih =>
      rw [unpair?_cons] at h
      by_cases hc : separator = c
      · rw [if_pos hc] at h
        cases h
        exact ⟨List.not_mem_nil, hc ▸ rfl⟩
      · rw [if_neg hc] at h
        obtain ⟨⟨first', second'⟩, hcut, he⟩ := Option.map_eq_some_iff.mp h
        cases he
        obtain ⟨hclean, hkey⟩ := ih hcut
        refine ⟨?_, by rw [hkey]; rfl⟩
        rw [Clean, List.mem_cons, not_or]
        exact ⟨hc, hclean⟩

theorem pair_inj {a b x y : Text} (ha : Clean a) (hb : Clean b) (h : pair a x = pair b y) :
    a = b ∧ x = y := by
  have hcut := unpair?_pair ha x
  rw [h, unpair?_pair hb y] at hcut
  cases hcut
  exact ⟨rfl, rfl⟩

/-- A pair of clean texts can be cut in one way only. -/
theorem pair_inj_of_clean {a b x y : Text} (hb : Clean b) (hy : Clean y)
    (h : pair a x = pair b y) : a = b ∧ x = y := by
  have ha : Clean a := by
    intro hsep
    -- The first separator would leave the other one to the second text.
    obtain ⟨before, after, rfl, hbefore⟩ := List.eq_append_cons_of_mem hsep
    have hcut : pair before (after ++ separator :: x) = pair b y := by
      rw [← h]
      simp [pair]
    obtain ⟨-, rfl⟩ := pair_inj hbefore hb hcut
    exact hy (by simp)
  exact pair_inj ha hb h

theorem edgeItem_inj {name name' parent parent' : Text} (hn : Clean name) (hn' : Clean name')
    (h : edgeItem (edgeKey name parent) = edgeItem (edgeKey name' parent')) :
    name = name' ∧ parent = parent' :=
  pair_inj hn hn' (congrArg ItemId.key h)

/-! ## Links -/

/-- The scope of a link holds no separator. -/
def CleanScope (scope : Option Text) : Prop := Clean (scope.getD [])

instance (scope : Option Text) : Decidable (CleanScope scope) :=
  inferInstanceAs (Decidable (Clean _))

theorem scopeChain_congr {scope scope' : Option Text} (h : scope.getD [] = scope'.getD []) :
    scopeChain scope = scopeChain scope' := by
  have hnil : ∀ s : Option Text, scopeChain s = scopeChain (some (s.getD [])) := by
    intro s
    cases s <;> rfl
  rw [hnil scope, hnil scope', h]

/-- Links with clean scopes and one key mean the same symbols. -/
theorem candidates_congr {scope scope' : Option Text} {text text' : Text}
    (hs : CleanScope scope) (hs' : CleanScope scope')
    (h : linkKey scope text = linkKey scope' text') :
    candidates scope text = candidates scope' text' := by
  obtain ⟨hscope, htext⟩ := pair_inj hs hs' h
  rw [candidates, candidates, scopeChain_congr hscope, htext]

end Commentary.Index
