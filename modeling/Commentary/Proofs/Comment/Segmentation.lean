import Commentary.Proofs.Comment.Slice

/-!
# Comments as segments of the source

The comments of a source are runs of its lines, one behind the other. Each starts at a line with a
marker, and no line with a marker at its start is left out. A comment has the text of its lines,
with spaces for the markers, up to the closer.
-/

namespace Commentary

open Text

/-! ## Lines of the source -/

namespace SourceLine

theorem getElem?_ofLinesFrom (offset : Nat) (lines : List Text) (n : Nat) :
    (ofLinesFrom offset lines)[n]? =
      lines[n]?.map fun line => ⟨offset + bytes (lines.take n).flatten, withoutEnd line⟩ := by
  induction lines generalizing offset n with
  | nil => rfl
  | cons line lines ih =>
      cases n with
      | zero => rfl
      | succ n =>
          rw [ofLinesFrom, List.getElem?_cons_succ, List.getElem?_cons_succ, ih,
            List.take_succ_cons, List.flatten_cons, bytes_append, Nat.add_assoc]

theorem map_text_ofSource (source : Text) :
    (ofSource source).map text = (linesWithEnds source).map withoutEnd := by
  refine List.ext_getElem? fun n => ?_
  rw [List.getElem?_map, List.getElem?_map, ofSource, getElem?_ofLinesFrom, Option.map_map]
  rfl

end SourceLine

/-! ## The text of a comment -/

namespace Comment

/-- White space may be gone from the end of a text, and nothing else. -/
def TrimmedFrom (s t : Text) : Prop := trimBlankEnd s <+: t ∧ t <+: s

theorem TrimmedFrom.refl (t : Text) : TrimmedFrom t t :=
  ⟨trimEnd_isPrefix isBlank t, List.prefix_rfl⟩

theorem TrimmedFrom.trimEnd (t : Text) : TrimmedFrom t (trimBlankEnd t) :=
  ⟨List.prefix_rfl, trimEnd_isPrefix isBlank t⟩

/-- What stands in some lines before the first closer. It is all of them if there is none. -/
inductive UpToCloser (closer : Text) : List Text → List Text → Prop where
  | closed {kept trailing : Text} (behind : List Text)
      (hfirst : ∀ start rest, kept ++ (closer ++ trailing) = start ++ (closer ++ rest) →
        kept.length ≤ start.length) :
      UpToCloser closer ((kept ++ (closer ++ trailing)) :: behind) [kept]
  | unclosed : UpToCloser closer [] []
  | cons {line : Text} {lines kept : List Text} (hline : ¬ closer <:+: line)
      (h : UpToCloser closer lines kept) : UpToCloser closer (line :: lines) (line :: kept)

/-- The lines of a comment are copies of the lines that the source goes on with. The markers of line
comments, or the opener of a block, are spaces there, one for each byte. -/
inductive Copies (language : Language) : Option Text → List Text → List Text → Prop where
  | lines {source lines : List Text} (behind : List Text)
      (hlines : List.Forall₂ (fun line t => ∃ m : Language.Marked,
        m.marker ∈ language.lineMarkers ∧ language.Counts m line ∧
          t = trimBlankEnd (m.margin ++ m.rest)) source lines) :
      Copies language none (source ++ behind) lines
  | block {m : Language.Marked} {closer line first : Text} {behind kept lines : List Text}
      (hmarkers : ⟨m.marker, closer⟩ ∈ language.blockMarkers) (hcounts : language.Counts m line)
      (hkept : UpToCloser closer (m.rest :: behind) (first :: kept))
      (hlines : List.Forall₂ TrimmedFrom ((m.margin ++ first) :: kept) lines) :
      Copies language (some m.marker) (line :: behind) lines

variable {language : Language} {keywords : KeywordTable} {line : SourceLine}
  {rest : List SourceLine} {c : Comment} {trailing : Option Text} {number : Nat}

theorem upToCloser_of_cutAt? {closer line kept trailing : Text}
    (h : cutAt? closer line = some (kept, trailing)) (behind : List Text) :
    UpToCloser closer (line :: behind) [kept] := by
  obtain rfl := eq_append_of_cutAt? h
  exact .closed behind fun start rest heq => length_le_of_cutAt? h heq

theorem exists_upToCloser_readRest (closer : Text) (lines : List SourceLine) :
    ∃ kept, UpToCloser closer (lines.map SourceLine.text) kept ∧
      List.Forall₂ TrimmedFrom kept (Block.readRest closer lines).lines := by
  induction lines with
  | nil => exact ⟨[], .unclosed, .nil⟩
  | cons line rest ih =>
      rw [List.map_cons, Block.readRest]
      cases hcut : cutAt? closer line.text with
      | none =>
          obtain ⟨kept, hkept, hlines⟩ := ih
          exact ⟨line.text :: kept, .cons (not_isInfix_of_cutAt? hcut) hkept,
            .cons (.refl _) hlines⟩
      | some parts =>
          exact ⟨[parts.1], upToCloser_of_cutAt? hcut _, .cons (.trimEnd _) .nil⟩

theorem exists_upToCloser_read (m : Language.Marked) (closer : Text) (rest : List SourceLine) :
    ∃ first kept, UpToCloser closer (m.rest :: rest.map SourceLine.text) (first :: kept) ∧
      List.Forall₂ TrimmedFrom ((m.margin ++ first) :: kept) (Block.read m closer rest).lines := by
  rw [Block.read]
  cases hcut : cutAt? closer m.rest with
  | none =>
      obtain ⟨kept, hkept, hlines⟩ := exists_upToCloser_readRest closer rest
      exact ⟨m.rest, kept, .cons (not_isInfix_of_cutAt? hcut) hkept, .cons (.trimEnd _) hlines⟩
  | some parts =>
      exact ⟨parts.1, [], upToCloser_of_cutAt? hcut _, .cons (.trimEnd _) .nil⟩

theorem copies_lineRun (language : Language) (lines : List SourceLine) :
    Copies language none (lines.map SourceLine.text) (lineRun language lines) := by
  induction lines with
  | nil => exact .lines [] .nil
  | cons line rest ih =>
      rw [List.map_cons, lineRun, Language.lineComment?]
      cases hstart : language.start line.text with
      | line m =>
          obtain ⟨hmarker, hcounts⟩ := Language.counts_of_start_eq_line hstart
          generalize rest.map SourceLine.text = texts at ih
          cases ih with
          | lines behind hlines => exact .lines behind (.cons ⟨m, hmarker, hcounts, rfl⟩ hlines)
      | _ => exact .lines (line.text :: rest.map SourceLine.text) .nil

/-- A comment is a run of line comments, or a block. -/
theorem startingAt?_cases (h : startingAt? language number line rest = some (c, trailing)) :
    (∃ m, language.start line.text = .line m ∧
      c = { lines := lineRun language (line :: rest)
            span := .ofCount number (lineRun language (line :: rest)).length
            offset := line.offset }) ∨
      ∃ m closer, language.start line.text = .block m closer ∧
        c = { lines := (Block.read m closer rest).lines
              span := .ofCount number (Block.read m closer rest).lines.length
              offset := line.offset
              opener := some m.marker } := by
  rw [startingAt?] at h
  cases hstart : language.start line.text with
  | none =>
      rw [hstart] at h
      cases h
  | line m =>
      rw [hstart] at h
      cases h
      exact .inl ⟨m, rfl, rfl⟩
  | block m closer =>
      rw [hstart] at h
      cases h
      exact .inr ⟨m, closer, rfl, rfl⟩

/-- A comment copies the lines of the source from its first one on. -/
theorem copies_of_startingAt? (h : startingAt? language number line rest = some (c, trailing)) :
    Copies language c.opener ((line :: rest).map SourceLine.text) c.lines := by
  obtain ⟨m, -, rfl⟩ | ⟨m, closer, hstart, rfl⟩ := startingAt?_cases h
  · exact copies_lineRun language (line :: rest)
  · obtain ⟨hmarkers, hcounts⟩ := Language.counts_of_start_eq_block hstart
    obtain ⟨first, kept, hkept, hlines⟩ := exists_upToCloser_read m closer rest
    exact .block hmarkers hcounts hkept hlines

/-! ## The span of a comment -/

theorem span_of_startingAt? (h : startingAt? language number line rest = some (c, trailing)) :
    c.span = .ofCount number c.lines.length ∧ c.offset = line.offset ∧ c.lines ≠ [] := by
  obtain ⟨m, hstart, rfl⟩ | ⟨m, closer, -, rfl⟩ := startingAt?_cases h
  · refine ⟨rfl, rfl, ?_⟩
    rw [lineRun, Language.lineComment?, hstart]
    exact List.cons_ne_nil _ _
  · refine ⟨rfl, rfl, ?_⟩
    rw [Block.read]
    split <;> exact List.cons_ne_nil _ _

theorem startingAt?_eq_none_iff :
    startingAt? language number line rest = none ↔ ¬ language.StartsComment line.text := by
  rw [← Language.start_eq_none_iff, startingAt?]
  cases language.start line.text with
  | none => exact iff_of_true rfl rfl
  | line m => exact iff_of_false (Option.some_ne_none _) Language.Start.noConfusion
  | block m closer => exact iff_of_false (Option.some_ne_none _) Language.Start.noConfusion

/-- A line behind those that belong to a comment already is in a comment if it starts with a
marker. -/
theorem exists_mem_find {skip n : Nat} {lines : List SourceLine} (keywords : KeywordTable)
    (number : Nat) (hline : lines[n]? = some line) (hskip : skip ≤ n)
    (hstarts : language.StartsComment line.text) :
    ∃ c ∈ find language keywords skip number lines,
      c.span.first ≤ number + n ∧ number + n ≤ c.span.last := by
  induction lines generalizing skip number n with
  | nil => cases hline
  | cons first rest ih =>
      cases skip with
      | succ skip =>
          obtain ⟨n, rfl⟩ := Nat.exists_eq_add_of_le' (Nat.one_le_of_lt hskip)
          obtain ⟨c, hc, hfirst, hlast⟩ := ih (number + 1) hline (Nat.le_of_succ_le_succ hskip)
          exact ⟨c, hc, by omega, by omega⟩
      | zero =>
          rw [find]
          cases hstart : startingAt? language number first rest with
          | none =>
              cases n with
              | zero =>
                  cases hline
                  exact absurd hstarts (startingAt?_eq_none_iff.mp hstart)
              | succ n =>
                  obtain ⟨c, hc, hfirst, hlast⟩ := ih (number + 1) hline (Nat.zero_le n)
                  exact ⟨c, hc, by omega, by omega⟩
          | some found =>
              obtain ⟨comment, trailing⟩ := found
              obtain ⟨hspan, -, -⟩ := span_of_startingAt? hstart
              dsimp only
              by_cases hbehind : n ≤ comment.lines.length - 1
              · refine ⟨_, List.mem_cons_self, ?_⟩
                dsimp only
                rw [hspan, LineSpan.ofCount]
                exact ⟨Nat.le_add_right number n, Nat.add_le_add_left hbehind number⟩
              · obtain ⟨n, rfl⟩ := Nat.exists_eq_add_of_le' (by omega : 1 ≤ n)
                have hskip : comment.lines.length - 1 ≤ n := by omega
                obtain ⟨c, hc, hfirst, hlast⟩ := ih (number + 1) hline hskip
                exact ⟨c, List.mem_cons_of_mem _ hc, by omega, by omega⟩

/-- Behind a run of line comments comes no other one. -/
theorem lineComment?_of_lineRun {lines : List SourceLine} {next : SourceLine}
    (h : lines[(lineRun language lines).length]? = some next) :
    language.lineComment? next.text = none := by
  induction lines with
  | nil => cases h
  | cons line rest ih =>
      rw [lineRun] at h
      cases hline : language.lineComment? line.text with
      | none =>
          rw [hline] at h
          cases h
          exact hline
      | some t =>
          rw [hline] at h
          exact ih h

/-- A comment without an opener is a run of line comments. -/
theorem lineRun_of_opener_eq_none
    (h : startingAt? language number line rest = some (c, trailing)) (hopener : c.opener = none) :
    c.lines = lineRun language (line :: rest) ∧ language.lineComment? line.text ≠ none := by
  obtain ⟨m, hstart, rfl⟩ | ⟨m, closer, -, rfl⟩ := startingAt?_cases h
  · refine ⟨rfl, ?_⟩
    rw [Language.lineComment?, hstart]
    exact Option.some_ne_none _
  · cases hopener

/-! ## Segments -/

/-- A comment is a run of lines of the source. It copies them, and the first one has a marker. -/
structure Segment (language : Language) (source : Text) (c : Comment) : Prop where
  first_pos : 1 ≤ c.span.first
  first_le_last : c.span.first ≤ c.span.last
  last_le_length : c.span.last ≤ (linesWithEnds source).length
  count_eq : c.span.count = c.lines.length
  offset_eq : c.offset = bytes ((linesWithEnds source).take (c.span.first - 1)).flatten
  marked : ∃ line, (linesWithEnds source)[c.span.first - 1]? = some line ∧
    language.StartsComment (SourceLine.withoutEnd line)
  copies : Copies language c.opener
    (((linesWithEnds source).map SourceLine.withoutEnd).drop (c.span.first - 1)) c.lines

/-- The comments of a source are segments of it, one behind the other. No line between them has a
marker at its start, and a run of line comments is not cut in two. -/
structure Segmentation (language : Language) (source : Text) (comments : List Comment) : Prop where
  segment : ∀ c ∈ comments, Segment language source c
  increasing : comments.Pairwise fun c c' => c.span.last < c'.span.first
  unmarked : ∀ n line, (linesWithEnds source)[n]? = some line →
    (∀ c ∈ comments, ¬ c.span.contains (n + 1)) →
      ¬ language.StartsComment (SourceLine.withoutEnd line)
  apart : ∀ c ∈ comments, ∀ c' ∈ comments, c.opener = none → c'.opener = none →
    c.span.last + 1 ≠ c'.span.first

variable {source : Text}

/-- A comment of a source starts at one of its lines. -/
theorem exists_startingAt?_of_mem_ofSource (hlanguage : language.readsWholeFile = false)
    (h : c ∈ ofSource language keywords source) :
    ∃ before line rest trailing, SourceLine.ofSource source = before ++ line :: rest ∧
      startingAt? language (before.length + 1) line rest =
        some ({ c with prototype := none }, trailing) := by
  obtain ⟨code, hfound, -⟩ := foundIn_of_mem_ofSource hlanguage h
  obtain @⟨line, before, rest, trailing, hlines, hstart⟩ := hfound
  exact ⟨before, line, rest, trailing, hlines, hstart⟩

/-- Two runs of line comments have something between them. -/
theorem last_succ_ne_first (hlanguage : language.readsWholeFile = false) {c' : Comment}
    (hc : c ∈ ofSource language keywords source) (hc' : c' ∈ ofSource language keywords source)
    (hopener : c.opener = none) (hopener' : c'.opener = none) :
    c.span.last + 1 ≠ c'.span.first := by
  intro hnext
  obtain ⟨before, line, rest, trailing, hlines, hstart⟩ :=
    exists_startingAt?_of_mem_ofSource hlanguage hc
  obtain ⟨before', line', rest', trailing', hlines', hstart'⟩ :=
    exists_startingAt?_of_mem_ofSource hlanguage hc'
  obtain ⟨hrun, -⟩ := lineRun_of_opener_eq_none hstart hopener
  obtain ⟨-, hmarked⟩ := lineRun_of_opener_eq_none hstart' hopener'
  -- The line behind the first run is the first line of the second one.
  have hlength : before'.length = before.length + c.lines.length := by
    obtain ⟨hspan, -, hne⟩ := span_of_startingAt? hstart
    obtain ⟨hspan', -, -⟩ := span_of_startingAt? hstart'
    have hpos := List.length_pos_iff.mpr hne
    dsimp only at hspan hspan' hpos
    rw [hspan, hspan', LineSpan.ofCount, LineSpan.ofCount] at hnext
    dsimp only at hnext
    omega
  have hline' : (line :: rest)[c.lines.length]? = some line' := by
    have hget : (SourceLine.ofSource source)[before'.length]? = some line' := by
      rw [hlines', List.getElem?_append_right le_rfl, Nat.sub_self]
      rfl
    rwa [hlines, hlength, List.getElem?_append_right (Nat.le_add_right _ _),
      Nat.add_sub_cancel_left] at hget
  exact hmarked (lineComment?_of_lineRun (hrun ▸ hline'))

theorem segment_of_mem_ofSource (hlanguage : language.readsWholeFile = false)
    (hc : c ∈ ofSource language keywords source) : Segment language source c := by
  obtain ⟨before, line, rest, trailing, hlines, hstart⟩ :=
    exists_startingAt?_of_mem_ofSource hlanguage hc
  obtain ⟨hspan, hoffset, hne⟩ := span_of_startingAt? hstart
  have hpos := List.length_pos_iff.mpr hne
  have hfollows : c.lines.length ≤ ((line :: rest).map SourceLine.text).length :=
    (follows_of_startingAt? hstart).length_le
  have hfirst : c.span.first = before.length + 1 := congrArg LineSpan.first hspan
  have hlast : c.span.last = before.length + 1 + (c.lines.length - 1) :=
    congrArg LineSpan.last hspan
  have htexts := SourceLine.map_text_ofSource source
  have hlength : before.length + (rest.length + 1) = (linesWithEnds source).length := by
    simpa [hlines] using congrArg List.length htexts
  have hline : (SourceLine.ofSource source)[before.length]? = some line := by
    rw [hlines, List.getElem?_append_right le_rfl, Nat.sub_self]
    rfl
  rw [SourceLine.ofSource, SourceLine.getElem?_ofLinesFrom] at hline
  obtain ⟨chunk, hchunk, rfl⟩ := Option.map_eq_some_iff.mp hline
  have hdrop : ((linesWithEnds source).map SourceLine.withoutEnd).drop before.length =
      SourceLine.withoutEnd chunk :: rest.map SourceLine.text := by
    rw [← htexts, hlines, List.map_append, List.drop_left' (List.length_map _)]
    rfl
  rw [List.length_map, List.length_cons] at hfollows
  dsimp only at hpos hoffset
  exact
    { first_pos := by omega
      first_le_last := by omega
      last_le_length := by omega
      count_eq := by
        rw [LineSpan.count]
        omega
      offset_eq := by
        rw [hoffset, hfirst, Nat.add_sub_cancel, Nat.zero_add]
      marked := by
        refine ⟨chunk, by rwa [hfirst, Nat.add_sub_cancel], ?_⟩
        by_contra hnone
        rw [startingAt?_eq_none_iff.mpr hnone] at hstart
        cases hstart
      copies := by
        rw [hfirst, Nat.add_sub_cancel, hdrop]
        exact copies_of_startingAt? hstart }

/-- Scanning makes a segmentation. -/
theorem segmentation_ofSource (hlanguage : language.readsWholeFile = false)
    (keywords : KeywordTable) (source : Text) :
    Segmentation language source (ofSource language keywords source) where
  segment c hc := segment_of_mem_ofSource hlanguage hc
  increasing := by
    refine (pairwise_ofSource language keywords source).imp_of_mem fun hc _ hends => ?_
    have hsegment := segment_of_mem_ofSource hlanguage hc
    have hcount := hsegment.count_eq
    have hle := hsegment.first_le_last
    rw [LineSpan.count] at hcount
    rw [EndsBefore] at hends
    omega
  unmarked n line hline hcovered hstarts := by
    have hsource : (SourceLine.ofSource source)[n]? =
        some ⟨0 + bytes ((linesWithEnds source).take n).flatten, SourceLine.withoutEnd line⟩ := by
      rw [SourceLine.ofSource, SourceLine.getElem?_ofLinesFrom, hline]
      rfl
    obtain ⟨c, hc, hfirst, hlast⟩ := exists_mem_find keywords 1 hsource n.zero_le hstarts
    rw [← ofSource_eq_find hlanguage] at hc
    refine hcovered c hc ?_
    rw [LineSpan.contains, Bool.and_eq_true, decide_eq_true_iff, decide_eq_true_iff]
    omega
  apart c hc c' hc' := last_succ_ne_first hlanguage hc hc'

/-- Comment segmentation is exact: no slice of a short source is out of range, and the comments are
a segmentation of it. -/
theorem segmentation_exact {language : Language} {source : Text}
    (hsource : bytes source < UInt32.size) (hlanguage : language.readsWholeFile = false)
    (hclosers : ∀ markers ∈ language.blockMarkers, ∃ c ∈ markers.closer, ¬ isBlank c)
    (keywords : KeywordTable) :
    ofSourceSliced? language keywords source = some (ofSource language keywords source) ∧
      Segmentation language source (ofSource language keywords source) :=
  ⟨ofSourceSliced?_eq_some hsource hlanguage hclosers keywords,
    segmentation_ofSource hlanguage keywords source⟩

/-- A block that is closed on its first line, two line comments, and a block that is not closed. -/
theorem segmentation_exact_adjacent :
    let language : Language :=
      { name := "C".toList
        lineMarkers := ["//".toList]
        blockMarkers := [⟨"/*".toList, "*/".toList⟩, ⟨"//\x7b".toList, "//\x7d".toList⟩] }
    let source := "/* a */ int b;\n // c\r\n//d\nint e;\n\t//\x7b f\n g ".toList
    (ofSource language .empty source).map span = [⟨1, 1⟩, ⟨2, 3⟩, ⟨5, 6⟩] ∧
      ofSourceSliced? language .empty source = some (ofSource language .empty source) ∧
        Segmentation language source (ofSource language .empty source) := by
  intro language source
  have hclosers : ∀ markers ∈ language.blockMarkers, ∃ c ∈ markers.closer, ¬ isBlank c :=
    List.forall_mem_cons.mpr ⟨⟨'/', by decide, by decide⟩,
      List.forall_mem_singleton.mpr ⟨'/', by decide, by decide⟩⟩
  exact ⟨by decide +kernel, segmentation_exact (by decide +kernel) rfl hclosers .empty⟩

end Comment

end Commentary
