import Commentary.Proofs.Comment.Marker

/-!
# Scanning by places in bytes

A scanner that holds a source in UTF-8 takes lines apart at places in bytes. A place that is outside
of the text or inside of a character is an error, and so is an offset that does not fit into its 32
bits. Here the comments of a source are scanned that way, with every slice and every offset checked.

No check fails. A place that is found in a line is used in the line with spaces for its marker, too.
It is the same place there, as a marker takes as many bytes as its spaces; and the line reaches that
far, as a closer is more than the white space that is trimmed from its end.
-/

namespace Commentary

namespace Text

/-! ## Slices -/

theorem bytes_append (s t : Text) : bytes (s ++ t) = bytes s + bytes t := by
  induction s with
  | nil => exact (Nat.zero_add _).symm
  | cons c s ih => rw [List.cons_append, bytes, bytes, ih, Nat.add_assoc]

theorem bytes_spaces (n : Nat) : bytes (spaces n) = n := by
  induction n with
  | zero => rfl
  | succ n ih =>
      rw [spaces, List.replicate_succ, bytes]
      exact (congrArg (1 + ·) ih).trans (Nat.add_comm 1 n)

/-- The parts of a text before and behind a place in bytes. There are none if the place is outside
of the text or inside of a character. -/
def splitAt? (n : Nat) : Text → Option (Text × Text)
  | [] => if n = 0 then some ([], []) else none
  | c :: t =>
    if n = 0 then some ([], c :: t)
    else if c.utf8Size ≤ n then
      (splitAt? (n - c.utf8Size) t).map fun (before, behind) => (c :: before, behind)
    else none

/-- The place behind the first part of a text is a place of the text. -/
theorem splitAt?_append (s t : Text) : splitAt? (bytes s) (s ++ t) = some (s, t) := by
  induction s with
  | nil => cases t <;> rfl
  | cons c s ih =>
      have hpos : c.utf8Size + bytes s ≠ 0 := by
        have := c.utf8Size_pos
        omega
      rw [bytes, List.cons_append, splitAt?, if_neg hpos, if_pos (Nat.le_add_right _ _),
        Nat.add_sub_cancel_left, ih, Option.map_some]

/-- The text before a place in bytes. -/
def upTo? (n : Nat) (t : Text) : Option Text := (splitAt? n t).map Prod.fst

/-- The text behind a place in bytes. -/
def from? (n : Nat) (t : Text) : Option Text := (splitAt? n t).map Prod.snd

variable {n : Nat} {s t u : Text}

theorem upTo?_of_eq_append (hu : u = s ++ t) (hn : n = bytes s) : upTo? n u = some s := by
  rw [upTo?, hu, hn, splitAt?_append, Option.map_some]

theorem from?_of_eq_append (hu : u = s ++ t) (hn : n = bytes s) : from? n u = some t := by
  rw [from?, hu, hn, splitAt?_append, Option.map_some]

end Text

open Text

/-! ## Checked scanning -/

namespace SourceLine

/-- The lines of a text that stands at a place in the source, if the place behind each of them fits
into 32 bits. -/
def ofLinesFrom? (offset : Nat) : List Text → Option (List SourceLine)
  | [] => some []
  | line :: lines =>
    let next := offset + bytes line
    if next < UInt32.size then (ofLinesFrom? next lines).map (⟨offset, withoutEnd line⟩ :: ·)
    else none

theorem ofLinesFrom?_eq_some {offset : Nat} {lines : List Text}
    (h : offset + bytes lines.flatten < UInt32.size) :
    ofLinesFrom? offset lines = some (ofLinesFrom offset lines) := by
  induction lines generalizing offset with
  | nil => rfl
  | cons line lines ih =>
      rw [List.flatten_cons, bytes_append, ← Nat.add_assoc] at h
      rw [ofLinesFrom?, if_pos (Nat.lt_of_le_of_lt (Nat.le_add_right _ _) h), ih h]
      rfl

end SourceLine

namespace Language

/-- The spaces take the place of the marker byte for byte. -/
theorem Marked.bytes_margin (m : Marked) : bytes m.margin = bytes m.indent + bytes m.marker := by
  rw [margin, bytes_append, bytes_spaces]

/-- How a line starts a comment. The markers are looked for in a slice behind the indentation. -/
def start? (l : Language) (line : Text) : Option Start :=
  let indent := line.takeWhile isSpaceOrTab
  (from? (bytes indent) line).map fun code => l.start (indent ++ code)

theorem start?_eq_some (l : Language) (line : Text) : l.start? line = some (l.start line) := by
  have hline := (List.takeWhile_append_dropWhile (p := isSpaceOrTab) (l := line)).symm
  rw [start?, from?_of_eq_append hline rfl, Option.map_some, ← hline]

/-- The line with spaces for some bytes behind a place. -/
def blankOut? (line : Text) (place count : Nat) : Option Text :=
  (upTo? place line).bind fun before =>
    (from? (place + count) line).map fun behind =>
      trimBlankEnd (before ++ (spaces count ++ behind))

theorem blankOut?_eq_some {line : Text} {m : Marked}
    (h : line = m.indent ++ (m.marker ++ m.rest)) :
    blankOut? line (bytes m.indent) (bytes m.marker) =
      some (trimBlankEnd (m.margin ++ m.rest)) := by
  have hmarker : line = (m.indent ++ m.marker) ++ m.rest := h.trans (List.append_assoc ..).symm
  rw [blankOut?, upTo?_of_eq_append h rfl, Option.bind_some,
    from?_of_eq_append hmarker (bytes_append ..).symm, Option.map_some, Marked.margin,
    List.append_assoc]

end Language

namespace Comment

variable {language : Language} {line : SourceLine} {rest : List SourceLine}

/-- The lines of a run of line comments, by slices. -/
def lineRun? (language : Language) : List SourceLine → Option (List Text)
  | [] => some []
  | line :: rest =>
    (language.start? line.text).bind fun
      | .line m =>
        (Language.blankOut? line.text (bytes m.indent) (bytes m.marker)).bind fun t =>
          (lineRun? language rest).map (t :: ·)
      | _ => some []

theorem lineRun?_eq_some (language : Language) (lines : List SourceLine) :
    lineRun? language lines = some (lineRun language lines) := by
  induction lines with
  | nil => rfl
  | cons line rest ih =>
      rw [lineRun?, lineRun, Language.lineComment?, Language.start?_eq_some, Option.bind_some]
      cases hstart : language.start line.text with
      | none => rfl
      | line m =>
          have hline := Language.eq_append_of_start_eq_line hstart
          dsimp only
          rw [Language.blankOut?_eq_some hline, Option.bind_some, ih]
          rfl
      | block m closer => rfl

namespace Block

/-- A block from one of its lines on, by slices. The closer is looked for from a place of the line
on, and `shown` is the line as the comment has it. -/
def readFrom? (closer line shown : Text) (place : Nat) (rest : List SourceLine) : Option Block :=
  match (from? place line).bind (cutAt? closer) with
  | some (before, _) =>
    let stop := place + bytes before
    (upTo? stop shown).bind fun kept => (from? (stop + bytes closer) line).map (closed kept)
  | none =>
    match rest with
    | [] => some ⟨[shown], none⟩
    | next :: rest =>
      (readFrom? closer next.text next.text 0 rest).map fun more =>
        { more with lines := shown :: more.lines }

section

variable {closer line shown behind : Text} {place : Nat} {rest : List SourceLine}

/-- The place of the closer in the line is a place of the line as it is shown. -/
theorem readFrom?_closed (front margin : Text) {kept trailing tail : Text}
    (hline : line = front ++ behind) (hplace : place = bytes front)
    (hcut : cutAt? closer behind = some (kept, trailing))
    (hshown : shown = (margin ++ kept) ++ tail) (hmargin : bytes margin = place) :
    readFrom? closer line shown place rest = some (closed (margin ++ kept) trailing) := by
  have hfront : line = (front ++ (kept ++ closer)) ++ trailing := by
    rw [hline, eq_append_of_cutAt? hcut, List.append_assoc, List.append_assoc]
  have hbehind : place + bytes kept + bytes closer = bytes (front ++ (kept ++ closer)) := by
    rw [bytes_append, bytes_append, hplace, Nat.add_assoc]
  have hstop : place + bytes kept = bytes (margin ++ kept) := by
    rw [bytes_append, hmargin]
  rw [readFrom?.eq_def, from?_of_eq_append hline hplace, Option.bind_some, hcut]
  dsimp only
  rw [upTo?_of_eq_append hshown hstop, from?_of_eq_append hfront hbehind]
  rfl

theorem readFrom?_open (front : Text) (hline : line = front ++ behind)
    (hplace : place = bytes front) (hcut : cutAt? closer behind = none)
    (hrest : ∀ next more, rest = next :: more →
      readFrom? closer next.text next.text 0 more = some (readRest closer rest)) :
    readFrom? closer line shown place rest =
      some { readRest closer rest with lines := shown :: (readRest closer rest).lines } := by
  rw [readFrom?.eq_def, from?_of_eq_append hline hplace, Option.bind_some, hcut]
  cases rest with
  | nil => rfl
  | cons next more =>
      dsimp only
      rw [hrest next more rfl, Option.map_some]

end

theorem readFrom?_of_rest (closer : Text) (line : SourceLine) {rest : List SourceLine}
    (hrest : ∀ next more, rest = next :: more →
      readFrom? closer next.text next.text 0 more = some (readRest closer rest)) :
    readFrom? closer line.text line.text 0 rest = some (readRest closer (line :: rest)) := by
  rw [readRest]
  cases hcut : cutAt? closer line.text with
  | none => exact readFrom?_open [] rfl rfl hcut hrest
  | some parts =>
      exact readFrom?_closed [] [] rfl rfl hcut
        (eq_append_of_cutAt? hcut) rfl

theorem readFrom?_eq_readRest (closer : Text) (line : SourceLine) (rest : List SourceLine) :
    readFrom? closer line.text line.text 0 rest = some (readRest closer (line :: rest)) := by
  induction rest generalizing line with
  | nil => exact readFrom?_of_rest closer line fun _ _ h => nomatch h
  | cons next rest ih =>
      refine readFrom?_of_rest closer line fun _ _ h => ?_
      cases h
      exact ih next

/-- A closer with a character that is not white space is read in the blanked line at the place where
it is found in the line. -/
theorem readFrom?_eq_read {closer line : Text} {m : Language.Marked}
    (hcloser : ∃ c ∈ closer, ¬ isBlank c) (hline : line = m.indent ++ (m.marker ++ m.rest))
    (rest : List SourceLine) :
    readFrom? closer line (trimBlankEnd (m.margin ++ m.rest))
      (bytes m.indent + bytes m.marker) rest = some (read m closer rest) := by
  have hfront : line = (m.indent ++ m.marker) ++ m.rest := hline.trans (List.append_assoc ..).symm
  have hplace := (bytes_append m.indent m.marker).symm
  rw [read]
  cases hcut : cutAt? closer m.rest with
  | none =>
      refine readFrom?_open _ hfront hplace hcut fun next more h => ?_
      rw [h, readFrom?_eq_readRest]
  | some parts =>
      obtain ⟨kept, trailing⟩ := parts
      have hshown : trimBlankEnd (m.margin ++ m.rest) =
          (m.margin ++ kept) ++ trimBlankEnd (closer ++ trailing) := by
        obtain ⟨c, hc, hblank⟩ := hcloser
        rw [eq_append_of_cutAt? hcut, ← List.append_assoc]
        exact trimEnd_append_of_exists ⟨c, List.mem_append_left _ hc, hblank⟩ _
      exact readFrom?_closed _ _ hfront hplace hcut hshown m.bytes_margin

end Block

/-- The comment that starts at a line, by slices, and the code behind it on its last line. -/
def startingAtSliced? (language : Language) (number : Nat) (line : SourceLine)
    (rest : List SourceLine) : Option (Option (Comment × Option Text)) :=
  (language.start? line.text).bind fun
    | .none => some none
    | .line _ =>
      (lineRun? language (line :: rest)).map fun lines =>
        some ({ lines, span := .ofCount number lines.length, offset := line.offset }, none)
    | .block opening closer =>
      (Language.blankOut? line.text (bytes opening.indent) (bytes opening.marker)).bind fun shown =>
        let place := bytes opening.indent + bytes opening.marker
        (Block.readFrom? closer line.text shown place rest).map fun block =>
          some
            ({ lines := block.lines
               span := .ofCount number block.lines.length
               offset := line.offset
               opener := some opening.marker },
              block.trailing)

/-- Finds the comments of some lines, by slices. -/
def findSliced? (language : Language) (keywords : KeywordTable) (skip number : Nat) :
    List SourceLine → Option (List Comment)
  | [] => some []
  | line :: rest =>
    match skip with
    | skip + 1 => findSliced? language keywords skip (number + 1) rest
    | 0 =>
      (startingAtSliced? language number line rest).bind fun
        | none => findSliced? language keywords 0 (number + 1) rest
        | some (comment, trailing) =>
          let behind := comment.lines.length - 1
          if behind ≤ rest.length then
            let code := trailing.toList ++ (rest.drop behind).map SourceLine.text
            (findSliced? language keywords behind (number + 1) rest).map
              ({ comment with prototype := prototypeOf language keywords comment.lines code } :: ·)
          else none

/-- The comments of a source text in a language of code, by slices. -/
def ofSourceSliced? (language : Language) (keywords : KeywordTable) (source : Text) :
    Option (List Comment) :=
  (SourceLine.ofLinesFrom? 0 (linesWithEnds source)).bind (findSliced? language keywords 0 1)

variable {source : Text}

theorem startingAtSliced?_eq_some
    (hclosers : ∀ markers ∈ language.blockMarkers, ∃ c ∈ markers.closer, ¬ isBlank c)
    (number : Nat) (line : SourceLine) (rest : List SourceLine) :
    startingAtSliced? language number line rest =
      some (startingAt? language number line rest) := by
  rw [startingAtSliced?, startingAt?, Language.start?_eq_some, Option.bind_some]
  cases hstart : language.start line.text with
  | none => rfl
  | line m => exact congrArg (Option.map _) (lineRun?_eq_some language (line :: rest))
  | block m closer =>
      obtain ⟨hmarkers, hcounts⟩ := Language.counts_of_start_eq_block hstart
      dsimp only
      rw [Language.blankOut?_eq_some hcounts.line_eq, Option.bind_some,
        Block.readFrom?_eq_read (hclosers _ hmarkers) hcounts.line_eq, Option.map_some]

theorem findSliced?_eq_some
    (hclosers : ∀ markers ∈ language.blockMarkers, ∃ c ∈ markers.closer, ¬ isBlank c)
    (keywords : KeywordTable) (skip number : Nat) (lines : List SourceLine) :
    findSliced? language keywords skip number lines =
      some (find language keywords skip number lines) := by
  induction lines generalizing skip number with
  | nil => rfl
  | cons line rest ih =>
      cases skip with
      | succ skip => exact ih skip (number + 1)
      | zero =>
          rw [findSliced?, find, startingAtSliced?_eq_some hclosers, Option.bind_some]
          cases hstart : startingAt? language number line rest with
          | none => exact ih 0 (number + 1)
          | some found =>
              obtain ⟨comment, trailing⟩ := found
              have hlength : comment.lines.length - 1 ≤ rest.length := by
                simpa using (follows_of_startingAt? hstart).length_le
              dsimp only
              rw [if_pos hlength, ih, Option.map_some]

/-- No slice is out of range and no offset is too large, if the source is shorter than four
gigabytes and no closer is white space alone. -/
theorem ofSourceSliced?_eq_some (hsource : bytes source < UInt32.size)
    (hlanguage : language.readsWholeFile = false)
    (hclosers : ∀ markers ∈ language.blockMarkers, ∃ c ∈ markers.closer, ¬ isBlank c)
    (keywords : KeywordTable) :
    ofSourceSliced? language keywords source = some (ofSource language keywords source) := by
  have hlines : SourceLine.ofLinesFrom? 0 (linesWithEnds source) =
      some (SourceLine.ofSource source) := by
    refine SourceLine.ofLinesFrom?_eq_some ?_
    rwa [flatten_linesWithEnds, Nat.zero_add]
  rw [ofSourceSliced?, hlines, Option.bind_some, findSliced?_eq_some hclosers,
    ofSource_eq_find hlanguage]

end Comment

end Commentary
