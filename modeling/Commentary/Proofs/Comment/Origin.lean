import Commentary.Proofs.Comment.Found

/-!
# What comments are made of

A comment takes parts of the lines of the source and puts spaces in the place of markers. So no
character but a space stands in a comment that does not stand in one of these lines. Line feeds do
not: they end the lines, and go.
-/

namespace Commentary

open Text

namespace Text

theorem exists_of_mem_linesWithEnds {t line : Text} (h : line ∈ linesWithEnds t) :
    ∃ s, lineFeed ∉ s ∧ (line = s ∨ line = s ++ [lineFeed]) := by
  induction t generalizing line with
  | nil => cases h
  | cons c t ih =>
      rw [linesWithEnds] at h
      split_ifs at h with hc
      · rcases List.mem_cons.mp h with rfl | h
        · exact ⟨[], List.not_mem_nil, .inr (congrArg ([·]) hc)⟩
        · exact ih h
      · split at h
        · obtain rfl := List.mem_singleton.mp h
          exact ⟨[c], by simpa using Ne.symm hc, .inl rfl⟩
        · next first lines hlines =>
            rcases List.mem_cons.mp h with rfl | h
            · obtain ⟨s, hs, hfirst⟩ := ih (hlines ▸ List.mem_cons_self)
              refine ⟨c :: s, by simpa using ⟨Ne.symm hc, hs⟩, ?_⟩
              exact hfirst.imp (congrArg (c :: ·)) (congrArg (c :: ·))
            · exact ih (hlines ▸ List.mem_cons_of_mem _ h)

theorem not_mem_trimEnd {c : Char} {t : Text} (h : c ∉ t) (p : Char → Bool) : c ∉ trimEnd p t :=
  fun hmem => h ((trimEnd_isPrefix p t).subset hmem)

end Text

namespace SourceLine

variable {source : Text} {line : SourceLine} {c : Char}

theorem exists_of_mem_ofLinesFrom {offset : Nat} {lines : List Text}
    (h : line ∈ ofLinesFrom offset lines) : ∃ t ∈ lines, line.text = withoutEnd t := by
  induction lines generalizing offset with
  | nil => exact absurd h List.not_mem_nil
  | cons t lines ih =>
      rcases List.mem_cons.mp h with rfl | h
      · exact ⟨t, List.mem_cons_self, rfl⟩
      · obtain ⟨t', ht', htext⟩ := ih h
        exact ⟨t', List.mem_cons_of_mem t ht', htext⟩

theorem not_mem_of_mem_ofSource (hline : line ∈ ofSource source) (h : c ∉ source) :
    c ∉ line.text := by
  obtain ⟨t, ht, htext⟩ := exists_of_mem_ofLinesFrom hline
  rw [htext]
  refine not_mem_trimEnd (not_mem_trimEnd (fun hmem => h ?_) _) _
  rw [← flatten_linesWithEnds source]
  exact List.mem_flatten.mpr ⟨t, ht, hmem⟩

theorem lineFeed_not_mem_of_mem_ofSource (hline : line ∈ ofSource source) :
    lineFeed ∉ line.text := by
  obtain ⟨t, ht, htext⟩ := exists_of_mem_ofLinesFrom hline
  obtain ⟨s, hs, hend⟩ := exists_of_mem_linesWithEnds ht
  have htrim : Text.trimEnd (· = '\n') t = Text.trimEnd (· = '\n') s := by
    rcases hend with rfl | rfl
    · rfl
    · rw [trimEnd_concat, if_pos (by decide)]
  rw [htext, withoutEnd, htrim]
  exact not_mem_trimEnd (not_mem_trimEnd hs _) _

end SourceLine

/-! ## Markers -/

namespace Language

variable {language : Language} {line t : Text} {m : Marked} {c : Char}

theorem Marked.not_mem_margin (hc : c ≠ ' ') (hline : line = m.indent ++ (m.marker ++ m.rest))
    (h : c ∉ line) : c ∉ m.margin ∧ c ∉ m.rest := by
  simp only [hline, List.mem_append, not_or] at h
  refine ⟨?_, h.2.2⟩
  rw [margin, List.mem_append, not_or]
  exact ⟨h.1, fun hmem => hc (List.eq_of_mem_replicate hmem)⟩

theorem not_mem_of_lineComment? (hc : c ≠ ' ') (ht : language.lineComment? line = some t)
    (h : c ∉ line) : c ∉ t := by
  rw [lineComment?] at ht
  split at ht
  · next m hm =>
      cases ht
      obtain ⟨hmargin, hrest⟩ := Marked.not_mem_margin hc (eq_append_of_start_eq_line hm) h
      exact not_mem_trimEnd (by simp [hmargin, hrest]) _
  · cases ht

end Language

/-! ## Lines of comments -/

namespace Comment

variable {language : Language} {c : Char} {lines rest : List SourceLine}

theorem not_mem_lineRun (hc : c ≠ ' ') (h : ∀ line ∈ lines, c ∉ line.text) :
    ∀ t ∈ lineRun language lines, c ∉ t := by
  induction lines with
  | nil => exact List.forall_mem_nil _
  | cons line lines ih =>
      obtain ⟨hline, hlines⟩ := List.forall_mem_cons.mp h
      rw [lineRun]
      split
      · next t ht =>
          exact List.forall_mem_cons.mpr ⟨Language.not_mem_of_lineComment? hc ht hline, ih hlines⟩
      · exact List.forall_mem_nil _

namespace Block

theorem not_mem_closed {kept : Text} (h : c ∉ kept) (trailing : Text) :
    ∀ t ∈ (closed kept trailing).lines, c ∉ t :=
  List.forall_mem_singleton.mpr (not_mem_trimEnd h _)

theorem not_mem_readRest {closer : Text} (h : ∀ line ∈ lines, c ∉ line.text) :
    ∀ t ∈ (readRest closer lines).lines, c ∉ t := by
  induction lines with
  | nil => exact List.forall_mem_nil _
  | cons line lines ih =>
      obtain ⟨hline, hlines⟩ := List.forall_mem_cons.mp h
      rw [readRest]
      split
      · next kept trailing hcut =>
          rw [eq_append_of_cutAt? hcut, List.mem_append, not_or] at hline
          exact not_mem_closed hline.1 trailing
      · exact List.forall_mem_cons.mpr ⟨hline, ih hlines⟩

theorem not_mem_read {opening : Language.Marked} {closer : Text} (hmargin : c ∉ opening.margin)
    (hopening : c ∉ opening.rest) (h : ∀ line ∈ rest, c ∉ line.text) :
    ∀ t ∈ (read opening closer rest).lines, c ∉ t := by
  rw [read]
  split
  · next kept trailing hcut =>
      rw [eq_append_of_cutAt? hcut, List.mem_append, not_or] at hopening
      exact not_mem_closed (by simp [hmargin, hopening.1]) trailing
  · refine List.forall_mem_cons.mpr ⟨not_mem_trimEnd ?_ _, not_mem_readRest h⟩
    simp [hmargin, hopening]

end Block

theorem not_mem_of_startingAt? {number : Nat} {line : SourceLine} {comment : Comment}
    {trailing : Option Text} (hc : c ≠ ' ') (hline : c ∉ line.text)
    (hrest : ∀ line ∈ rest, c ∉ line.text)
    (h : startingAt? language number line rest = some (comment, trailing)) :
    ∀ t ∈ comment.lines, c ∉ t := by
  rw [startingAt?] at h
  split at h
  · cases h
  · cases h
    exact not_mem_lineRun hc (List.forall_mem_cons.mpr ⟨hline, hrest⟩)
  · next opening closer hstart =>
      cases h
      obtain ⟨hmargin, hopening⟩ :=
        Language.Marked.not_mem_margin hc (Language.eq_append_of_start_eq_block hstart) hline
      exact Block.not_mem_read hmargin hopening hrest

/-- What stands in no line of a source stands in none of its comments, spaces apart. -/
theorem not_mem_of_mem_ofSource {keywords : KeywordTable} {source : Text} {comment : Comment}
    (hcomment : comment ∈ ofSource language keywords source) (hc : c ≠ ' ')
    (h : ∀ line ∈ SourceLine.ofSource source, c ∉ line.text) : ∀ t ∈ comment.lines, c ∉ t := by
  cases hlanguage : language.readsWholeFile with
  | true =>
      rw [ofSource] at hcomment
      simp only [hlanguage, if_true] at hcomment
      split_ifs at hcomment
      · cases hcomment
      · obtain rfl := List.mem_singleton.mp hcomment
        exact List.forall_mem_map.mpr h
  | false =>
      obtain ⟨code, ⟨hsource, hstart⟩, -⟩ := foundIn_of_mem_ofSource hlanguage hcomment
      rw [hsource, List.forall_mem_append, List.forall_mem_cons] at h
      have hlines := not_mem_of_startingAt? hc h.2.1 h.2.2 hstart
      exact hlines

theorem lineFeed_not_mem_of_mem_ofSource {keywords : KeywordTable} {source : Text}
    {comment : Comment} (h : comment ∈ ofSource language keywords source) :
    ∀ t ∈ comment.lines, lineFeed ∉ t :=
  not_mem_of_mem_ofSource h (by decide) fun _ => SourceLine.lineFeed_not_mem_of_mem_ofSource

end Comment

end Commentary
