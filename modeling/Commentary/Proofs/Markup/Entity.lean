import Commentary.Markup.Entity

/-!
# Entities and back

An escaped text holds no mark of a tag or of an attribute, and it can be read back.
-/

namespace Commentary.Markup

/-- A mark that only tags and their attributes consist of. -/
def IsMarkup (c : Char) : Prop := c = '<' ∨ c = '>' ∨ c = '"'

instance : DecidablePred IsMarkup := fun c =>
  inferInstanceAs (Decidable (c = '<' ∨ c = '>' ∨ c = '"'))

theorem escape_cons (c : Char) (t : Text) : escape (c :: t) = escapeChar c ++ escape t := rfl

/-- The four characters that are written as entities, and all the others. -/
theorem escapeChar_cases (c : Char) :
    (c = '&' ∧ escapeChar c = "&amp;".toList) ∨ (c = '<' ∧ escapeChar c = "&lt;".toList) ∨
      (c = '>' ∧ escapeChar c = "&gt;".toList) ∨ (c = '"' ∧ escapeChar c = "&quot;".toList) ∨
      (c ≠ '&' ∧ ¬ IsMarkup c ∧ escapeChar c = [c]) := by
  by_cases hamp : c = '&'
  · exact .inl ⟨hamp, by rw [hamp]; rfl⟩
  by_cases hless : c = '<'
  · exact .inr (.inl ⟨hless, by rw [hless]; rfl⟩)
  by_cases hgreater : c = '>'
  · exact .inr (.inr (.inl ⟨hgreater, by rw [hgreater]; rfl⟩))
  by_cases hquote : c = '"'
  · exact .inr (.inr (.inr (.inl ⟨hquote, by rw [hquote]; rfl⟩)))
  · refine .inr (.inr (.inr (.inr ⟨hamp, ?_, ?_⟩)))
    · simp [IsMarkup, hless, hgreater, hquote]
    · simp [escapeChar, hamp, hless, hgreater, hquote]

theorem not_isMarkup_of_mem_escapeChar {c d : Char} (h : d ∈ escapeChar c) : ¬ IsMarkup d := by
  have hentity : ∀ entity : Text, (∀ e ∈ entity, ¬ IsMarkup e) → escapeChar c = entity →
      ¬ IsMarkup d := fun entity hall he => hall d (he ▸ h)
  obtain ⟨-, he⟩ | ⟨-, he⟩ | ⟨-, he⟩ | ⟨-, he⟩ | ⟨-, hc, he⟩ := escapeChar_cases c
  · exact hentity _ (by simp [IsMarkup]) he
  · exact hentity _ (by simp [IsMarkup]) he
  · exact hentity _ (by simp [IsMarkup]) he
  · exact hentity _ (by simp [IsMarkup]) he
  · exact hentity [c] (by simpa using hc) he

/-- No mark of a tag or an attribute is left in an escaped text. -/
theorem not_isMarkup_of_mem_escape {t : Text} {d : Char} (h : d ∈ escape t) : ¬ IsMarkup d := by
  obtain ⟨c, -, hd⟩ := List.mem_flatMap.mp h
  exact not_isMarkup_of_mem_escapeChar hd

theorem unescape_cons {c : Char} (h : c ≠ '&') (t : Text) :
    unescape (c :: t) = c :: unescape t := by
  rw [unescape.eq_def]
  split <;> simp_all

/-- An entity stands for one character, whatever follows. -/
theorem unescape_escapeChar_append (c : Char) (t : Text) :
    unescape (escapeChar c ++ t) = c :: unescape t := by
  obtain ⟨rfl, he⟩ | ⟨rfl, he⟩ | ⟨rfl, he⟩ | ⟨rfl, he⟩ | ⟨hamp, -, he⟩ := escapeChar_cases c
  · rw [he]; rfl
  · rw [he]; rfl
  · rw [he]; rfl
  · rw [he]; rfl
  · rw [he]
    exact unescape_cons hamp t

/-- An escaped text can be read back. -/
theorem unescape_escape (t : Text) : unescape (escape t) = t := by
  induction t with
  | nil => rfl
  | cons c t ih => rw [escape_cons, unescape_escapeChar_append, ih]

end Commentary.Markup
