import Commentary.Proofs.Comment.Line
import Commentary.Proofs.Topic.Context

/-!
# Lines of topics

The line of a topic is the line of its header in the source. Compaction keeps the numbers of the
lines that it keeps, and comments share no lines, so the topics of a file have different lines, in
order, and the line of each one shows its title.
-/

namespace Commentary

open Text

/-! ## Headers on lines -/

namespace KeywordTable

theorem title_infix_of_splitHeader? {line keyword title : Text}
    (h : splitHeader? line = some (keyword, title)) : title <:+: line := by
  rw [splitHeader?] at h
  split at h
  · next rest hrest =>
      obtain ⟨-, h⟩ := Option.ite_none_left_eq_some.mp h
      cases h
      have htrim : trim isSpace rest <:+: rest :=
        (trimEnd_isPrefix isSpace _).isInfix.trans (List.dropWhile_suffix _).isInfix
      have hbehind : ':' :: ' ' :: rest <:+ line :=
        hrest ▸ (List.dropWhile_suffix _).trans (List.dropWhile_suffix _)
      exact htrim.trans ((List.suffix_append [':', ' '] rest).trans hbehind).isInfix
  · cases h

theorem title_infix_of_header? {keywords : KeywordTable} {line : Text} {header : Header}
    (h : keywords.header? line = some header) : header.title <:+: line := by
  rw [header?] at h
  split at h
  · cases h
  · next keyword title hsplit =>
      obtain ⟨-, h⟩ := Option.ite_none_left_eq_some.mp h
      obtain ⟨kind, -, rfl⟩ := Option.map_eq_some_iff.mp h
      exact title_infix_of_splitHeader? hsplit

end KeywordTable

namespace Section

variable (keywords : KeywordTable)

/-- Sections stand on the lines of their headers, in order. -/
theorem outlines_numbers_sublist (p : Place) (lines : List (Nat × Text)) :
    ((outlines keywords p lines).map Prod.snd).Sublist (lines.map Prod.fst) := by
  induction lines generalizing p with
  | nil => exact List.Sublist.refl []
  | cons line lines ih =>
      obtain ⟨number, t⟩ := line
      cases h : p.header? keywords t with
      | some header =>
          rw [outlines_cons_of_header h]
          exact (ih _).cons_cons number
      | none =>
          rw [outlines_cons_of_none h]
          exact (ih _).cons number

theorem exists_header?_of_mem_outlines {keywords : KeywordTable} {p : Place}
    {lines : List (Nat × Text)} {header : Header} {number : Nat}
    (h : (header, number) ∈ outlines keywords p lines) :
    ∃ t, (number, t) ∈ lines ∧ keywords.header? t = some header := by
  induction lines generalizing p with
  | nil => cases h
  | cons line lines ih =>
      obtain ⟨n, t⟩ := line
      have hrest : ∀ {p}, (header, number) ∈ outlines keywords p lines →
          ∃ t', (number, t') ∈ (n, t) :: lines ∧ keywords.header? t' = some header := fun hmem => by
        obtain ⟨t', ht', hheader⟩ := ih hmem
        exact ⟨t', List.mem_cons_of_mem _ ht', hheader⟩
      cases hheader : p.header? keywords t with
      | some header' =>
          rw [outlines_cons_of_header hheader] at h
          rcases List.mem_cons.mp h with heq | h
          · cases heq
            exact ⟨t, List.mem_cons_self, (Place.header?_eq_some hheader).2.2⟩
          · exact hrest h
      | none =>
          rw [outlines_cons_of_none hheader] at h
          exact hrest h

end Section

/-! ## Topics on lines -/

namespace Comment

variable (settings : Settings) (keywords : KeywordTable)

/-- The cleaned lines of a comment, compacted or not, keep the numbers of their lines. -/
theorem cleanedLines_sublist (c : Comment) :
    (c.cleanedLines settings).Sublist
      (((c.cleaner settings).clean c.lines).zipIdx.map fun line =>
        (c.span.first + line.2, line.1)) := by
  have hnumbered : ∀ lines : List Text,
      lines.zipIdx.map (fun line => (c.span.first + line.2, line.1)) =
        (lines.zipIdx.map Prod.swap).map fun line => (c.span.first + line.1, line.2) :=
    fun lines => by
      rw [List.map_map]
      rfl
  rw [cleanedLines, hnumbered]
  refine List.Sublist.map _ ?_
  split_ifs
  · exact List.Sublist.refl _
  · exact Cleaner.cleanCompact_sublist _ _

variable {settings keywords} {source : List Text} {c : Comment} {context : Context}

theorem pairwise_numbers_cleanedLines (settings : Settings) (c : Comment) :
    ((c.cleanedLines settings).map Prod.fst).Pairwise (· < ·) := by
  refine List.Pairwise.sublist ((cleanedLines_sublist settings c).map Prod.fst) ?_
  have hindices : ((((c.cleaner settings).clean c.lines).zipIdx.map Prod.snd).map
      (c.span.first + ·)).Pairwise (· < ·) := by
    rw [List.zipIdx_map_snd]
    exact List.pairwise_map.mpr
      ((List.pairwise_lt_range' 1 Nat.one_pos).imp fun h => Nat.add_lt_add_left h _)
  rw [List.map_map] at hindices ⊢
  exact hindices

/-- The topics of a comment stand on different lines, in order. -/
theorem pairwise_line_topics (settings : Settings) (keywords : KeywordTable) (context : Context)
    (c : Comment) :
    (c.topics settings keywords context).1.Pairwise fun t u => t.line < u.line := by
  have hlines : (c.topics settings keywords context).1.map Topic.line =
      (Section.outlines keywords .afterBlank (c.cleanedLines settings)).map Prod.snd := by
    rw [← Topic.map_outline_ofComment keywords context _ c.prototype, List.map_map]
    rfl
  refine List.pairwise_map.mp ?_
  rw [hlines]
  exact (pairwise_numbers_cleanedLines settings c).sublist
    (Section.outlines_numbers_sublist keywords .afterBlank _)

/-- A topic stands on a line of the comment, and the line shows its title. -/
theorem exists_line_of_mem_topics (hc : c.StandsIn source) {t : Topic}
    (ht : t ∈ (c.topics settings keywords context).1) :
    c.span.first ≤ t.line ∧ t.line < c.span.first + c.lines.length ∧
      ∃ line, source[t.line - 1]? = some line ∧ Shows line t.title := by
  have houtline : t.outline ∈ Section.outlines keywords .afterBlank (c.cleanedLines settings) :=
    Topic.map_outline_ofComment keywords context _ c.prototype ▸ List.mem_map_of_mem ht
  obtain ⟨text, htext, hheader⟩ := Section.exists_header?_of_mem_outlines houtline
  obtain ⟨⟨cleaned, index⟩, hcleaned, heq⟩ :=
    List.mem_map.mp ((cleanedLines_sublist settings c).subset htext)
  obtain ⟨hindex, rfl⟩ := Prod.mk.inj heq
  have hget : ((c.cleaner settings).clean c.lines)[index]? = some cleaned :=
    List.mem_zipIdx_iff_getElem?.mp hcleaned
  have hshort : ((c.cleaner settings).clean c.lines).length ≤ c.lines.length :=
    ((c.cleaner settings).follows_clean (.refl c.lines)).length_le
  have hlt := (List.getElem?_eq_some_iff.mp hget).1
  obtain ⟨line, hline, hshows⟩ :=
    ((c.cleaner settings).follows_clean hc.follows).exists_getElem? hget
  have hfirst := hc.first_pos
  have hplace : c.span.first - 1 + index = t.line - 1 := by
    have : c.span.first + index = t.line := hindex
    omega
  refine ⟨by omega, by omega, line, ?_, ?_⟩
  · rw [← hplace, ← List.getElem?_drop, hline]
  · exact hshows.trans (.of_isInfix (KeywordTable.title_infix_of_header? hheader))

theorem exists_of_mem_topicsOfAll {comments : List Comment} {t : Topic}
    (ht : t ∈ topicsOfAll settings keywords context comments) :
    ∃ c ∈ comments, ∃ context, t ∈ (c.topics settings keywords context).1 := by
  induction comments generalizing context with
  | nil => cases ht
  | cons c comments ih =>
      rcases List.mem_append.mp ht with ht | ht
      · exact ⟨c, List.mem_cons_self, context, ht⟩
      · obtain ⟨c', hc', hfound⟩ := ih ht
        exact ⟨c', List.mem_cons_of_mem c hc', hfound⟩

/-- Comments that follow each other keep the lines of their topics apart. -/
theorem pairwise_line_topicsOfAll {comments : List Comment}
    (hcomments : ∀ c ∈ comments, c.StandsIn source) (h : comments.Pairwise EndsBefore)
    (context : Context) :
    (topicsOfAll settings keywords context comments).Pairwise fun t u => t.line < u.line := by
  induction comments generalizing context with
  | nil => exact .nil
  | cons c comments ih =>
      obtain ⟨hc, hcomments⟩ := List.forall_mem_cons.mp hcomments
      obtain ⟨hbefore, hbehind⟩ := List.pairwise_cons.mp h
      refine List.pairwise_append.mpr ⟨pairwise_line_topics settings keywords context c,
        ih hcomments hbehind _, fun t ht u hu => ?_⟩
      obtain ⟨c', hc', context', hu⟩ := exists_of_mem_topicsOfAll hu
      obtain ⟨-, hlast, -⟩ := exists_line_of_mem_topics hc ht
      obtain ⟨hfirst, -⟩ := exists_line_of_mem_topics (hcomments c' hc') hu
      exact hlast.trans_le ((hbefore c' hc').trans hfirst)

end Comment

/-- In a file without automatic topics every topic has a line of its own, in order, and this line of
the source shows the title of the topic, white space apart. -/
theorem SourceFile.lines_parse (settings : Settings) (keywords : KeywordTable) (name : FileName)
    (text : Text) (language : Language) :
    let lines := linesWithEnds text
    let topics := (({ name, text, language } : SourceFile).parse settings keywords).topics
    topics.Pairwise (fun t u => t.line < u.line) ∧
      ∀ t ∈ topics, 1 ≤ t.line ∧ t.line ≤ lines.length ∧
        ∃ line, lines[t.line - 1]? = some line ∧ t.title.visible <:+: line.visible := by
  intro lines topics
  have htopics : topics = Comment.topicsOfAll settings keywords {}
      (Comment.ofSource language keywords text) :=
    topics_parse_of_autos_eq_nil settings keywords _ rfl
  have hcomments : ∀ c ∈ Comment.ofSource language keywords text, c.StandsIn lines :=
    fun c hc => Comment.standsIn_of_mem_ofSource hc
  rw [htopics]
  refine ⟨Comment.pairwise_line_topicsOfAll hcomments (Comment.pairwise_ofSource ..) {},
    fun t ht => ?_⟩
  obtain ⟨c, hc, context, ht⟩ := Comment.exists_of_mem_topicsOfAll ht
  obtain ⟨hfirst, -, line, hline, hshows⟩ := Comment.exists_line_of_mem_topics (hcomments c hc) ht
  have hpos := (hcomments c hc).first_pos.trans hfirst
  have hlt := (List.getElem?_eq_some_iff.mp hline).1
  exact ⟨hpos, by omega, line, hline, hshows⟩

end Commentary
