import Commentary.Proofs.Text.Parts

/-!
# Words of a text

The words of a text are what stands between white space. A character of white space keeps the words
before it and behind it apart, and more of it at the same place or at an end changes no word.
-/

namespace Commentary.Text

theorem splitAll_eq_splitOnP (p : Char → Bool) (t : Text) : splitAll p t = t.splitOnP p := by
  induction t with
  | nil => rfl
  | cons c t ih =>
      rw [splitAll, List.splitOnP_cons_eq_if_modifyHead, ih]
      cases h : t.splitOnP p with
      | nil => exact absurd h (List.splitOnP_ne_nil _ t)
      | cons part parts => rfl

theorem words_nil : words [] = [] := rfl

/-- White space keeps the words on both sides of it apart. -/
theorem words_append_blank {c : Char} (h : isBlank c) (s t : Text) :
    words (s ++ c :: t) = words s ++ words t := by
  simp only [words, splitAll_eq_splitOnP, List.splitOnP_append_cons s t h, List.filter_append]

theorem words_blank_cons {c : Char} (h : isBlank c) (t : Text) : words (c :: t) = words t :=
  words_append_blank h [] t

theorem words_concat_blank {c : Char} (h : isBlank c) (t : Text) : words (t ++ [c]) = words t :=
  (words_append_blank h t []).trans (List.append_nil _)

theorem words_eq_nil_iff {t : Text} : words t = [] ↔ isAllBlank t := by
  induction t with
  | nil => simp [words_nil]
  | cons c t ih =>
      by_cases hc : isBlank c
      · simpa [words_blank_cons hc, hc] using ih
      · rw [words, splitAll_eq_splitOnP, List.splitOnP_cons_eq_if_modifyHead, if_neg hc]
        cases h : t.splitOnP isBlank with
        | nil => exact absurd h (List.splitOnP_ne_nil _ t)
        | cons part parts => simp [hc]

theorem words_trimEnd (t : Text) : words (trimBlankEnd t) = words t := by
  induction t using List.reverseRecOn with
  | nil => rfl
  | append_singleton t c ih =>
      rw [trimBlankEnd, trimEnd_concat]
      split_ifs with hc
      · rw [words_concat_blank hc]
        exact ih
      · rfl

theorem words_trimStart (t : Text) : words (trimStart isBlank t) = words t := by
  induction t with
  | nil => rfl
  | cons c t ih =>
      rw [trimStart, List.dropWhile_cons]
      split_ifs with hc
      · rw [words_blank_cons hc]
        exact ih
      · rfl

theorem words_trimBlank (t : Text) : words (trimBlank t) = words t :=
  (words_trimEnd _).trans (words_trimStart t)

theorem trimBlank_eq_nil_iff {t : Text} : trimBlank t = [] ↔ words t = [] := by
  constructor
  · intro h
    rw [← words_trimBlank, h, words_nil]
  · intro h
    have hblank : trimStart isBlank t = [] :=
      List.dropWhile_eq_nil_iff.mpr (List.all_eq_true.mp (words_eq_nil_iff.mp h))
    rw [trimBlank, trim, hblank]
    rfl

/-- A change of characters that leaves the marks between parts alone leaves the parts apart. -/
theorem splitAll_map {p : Char → Bool} {f : Char → Char} {t : Text}
    (h : ∀ c ∈ t, p (f c) = p c) : splitAll p (t.map f) = (splitAll p t).map (·.map f) := by
  induction t with
  | nil => rfl
  | cons c t ih =>
      rw [List.map_cons, splitAll, splitAll, ih fun d hd => h d (List.mem_cons_of_mem c hd),
        h c List.mem_cons_self]
      cases splitAll p t with
      | nil => rfl
      | cons part parts => by_cases hc : p c <;> simp [hc]

theorem words_map {f : Char → Char} {t : Text} (h : ∀ c ∈ t, isBlank (f c) = isBlank c) :
    words (t.map f) = (words t).map (·.map f) := by
  rw [words, words, splitAll_map h, List.filter_map]
  simp [Function.comp_def]

theorem join_map (f : Char → Char) (separator : Text) (ts : List Text) :
    join (separator.map f) (ts.map (·.map f)) = (join separator ts).map f := by
  induction ts with
  | nil => rfl
  | cons t ts ih =>
      cases ts with
      | nil => rfl
      | cons t' ts => simpa [join] using ih

theorem squeeze_map {f : Char → Char} {t : Text} (hspace : f ' ' = ' ')
    (h : ∀ c ∈ t, isBlank (f c) = isBlank c) : squeeze (t.map f) = (squeeze t).map f := by
  rw [squeeze, squeeze, words_map h, ← join_map, List.map_singleton, hspace]

/-- Parting a text drops the marks between its parts and nothing else. -/
theorem flatten_splitAll (p : Char → Bool) (t : Text) :
    (splitAll p t).flatten = t.filter (fun c => !p c) := by
  induction t with
  | nil => rfl
  | cons c t ih =>
      rw [splitAll]
      cases hparts : splitAll p t with
      | nil => exact absurd (splitAll_eq_splitOnP p t ▸ hparts) (List.splitOnP_ne_nil p t)
      | cons part parts =>
          rw [hparts] at ih
          by_cases hc : p c <;> simp [hc, ← ih]

theorem flatten_words (t : Text) : (words t).flatten = t.filter (fun c => !isBlank c) := by
  rw [words, List.flatten_filter_ne_nil, flatten_splitAll]

theorem mem_join {c : Char} {separator : Text} {ts : List Text} (h : c ∈ join separator ts) :
    c ∈ separator ∨ c ∈ ts.flatten := by
  induction ts with
  | nil => simp [join] at h
  | cons t ts ih =>
      cases ts with
      | nil =>
          rw [join] at h
          simp [h]
      | cons t' ts =>
          simp only [join, List.mem_append, List.flatten_cons] at h ih ⊢
          tauto

theorem mem_squeeze {c : Char} {t : Text} (h : c ∈ squeeze t) : c = ' ' ∨ c ∈ t := by
  rcases mem_join h with h | h
  · exact .inl (List.mem_singleton.mp h)
  · rw [flatten_words] at h
    exact .inr (List.mem_of_mem_filter h)

end Commentary.Text
