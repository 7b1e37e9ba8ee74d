import Commentary.Proofs.Comment.Line
import Commentary.Proofs.Comment.Origin
import Commentary.Proofs.Index.Key

/-!
# Separators in comments

Scanning and cleaning take parts of the source and put spaces in the place of markers and tabs.
They do not look for the separator of keys: it stays where it stands. So the lines of a comment are
free of it if the source is.
-/

namespace Commentary

namespace Index

variable {s t : Text}

theorem Clean.of_subset (h : Clean t) (hs : s ⊆ t) : Clean s := fun hmem => h (hs hmem)

theorem Clean.of_sublist (h : Clean t) (hs : s.Sublist t) : Clean s := h.of_subset hs.subset

theorem clean_append : Clean (s ++ t) ↔ Clean s ∧ Clean t := by
  simp only [Clean, List.mem_append, not_or]

theorem clean_cons {c : Char} : Clean (c :: t) ↔ c ≠ separator ∧ Clean t := by
  rw [Clean, Clean, List.mem_cons, not_or, ne_comm]

theorem clean_nil : Clean [] := List.not_mem_nil

theorem clean_spaces (n : Nat) : Clean (Text.spaces n) := fun hmem =>
  absurd (List.eq_of_mem_replicate hmem) (by decide)

theorem Clean.trimEnd (h : Clean t) (p : Char → Bool) : Clean (Text.trimEnd p t) :=
  h.of_sublist (Text.trimEnd_isPrefix p t).sublist

theorem Clean.trim (h : Clean t) (p : Char → Bool) : Clean (Text.trim p t) :=
  h.of_sublist (Text.trim_sublist p t)

end Index

open Index

/-- The lines of the comments of a source without separators hold none. -/
theorem Comment.clean_of_mem_ofSource {language : Language} {keywords : KeywordTable}
    {source : Text} (h : Clean source) {c : Comment} (hc : c ∈ ofSource language keywords source) :
    ∀ t ∈ c.lines, Clean t :=
  not_mem_of_mem_ofSource hc (by decide) fun _ hline => SourceLine.not_mem_of_mem_ofSource hline h

/-! ## Cleaning -/

theorem clean_expandTabsFrom {t : Text} (h : Clean t) (width column : Nat) :
    Clean (expandTabsFrom width column t) := by
  induction t generalizing column with
  | nil => exact clean_nil
  | cons c t ih =>
      rw [clean_cons] at h
      rw [expandTabsFrom]
      split_ifs
      · exact clean_append.mpr ⟨clean_spaces _, ih h.2 _⟩
      · exact clean_cons.mpr ⟨h.1, ih h.2 _⟩

namespace Cleaner

/-- Cleaning brings no separator into a line. -/
theorem clean_of_mem_clean (cleaner : Cleaner) {lines : List Text}
    (h : ∀ line ∈ lines, Clean line) : ∀ t ∈ cleaner.clean lines, Clean t := by
  intro t ht
  obtain ⟨line, hline, inSection, rfl⟩ := exists_of_mem_cleanFrom ht
  obtain ⟨raw, hraw, rfl⟩ := List.mem_map.mp hline
  exact (clean_expandTabsFrom ((h raw hraw).trimEnd _) _ _).of_sublist (cleanLine_sublist _ _ _)

end Cleaner

namespace Comment

theorem clean_cleanedLines (settings : Settings) {c : Comment} (h : ∀ t ∈ c.lines, Clean t) :
    ∀ line ∈ c.cleanedLines settings, Clean line.2 := by
  have hclean := (c.cleaner settings).clean_of_mem_clean h
  have hnumbered : ∀ line ∈ ((c.cleaner settings).clean c.lines).zipIdx.map Prod.swap,
      Clean line.2 := by
    intro line hline
    obtain ⟨⟨t, index⟩, ht, rfl⟩ := List.mem_map.mp hline
    exact hclean t (List.fst_mem_of_mem_zipIdx ht)
  rw [cleanedLines]
  dsimp only
  refine List.forall_mem_map.mpr fun line hline => ?_
  split_ifs at hline
  · exact hnumbered line hline
  · exact hnumbered line ((Cleaner.cleanCompact_sublist _ _).subset hline)

end Comment

end Commentary
