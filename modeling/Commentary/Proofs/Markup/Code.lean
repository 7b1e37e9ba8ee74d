import Commentary.Proofs.Comment.Slice
import Commentary.Proofs.Markup.Entity
import Commentary.Proofs.Markup.Growth
import Commentary.Proofs.Topic.Verbatim

/-!
# The code of a verbatim section

What stands between the lines that open and close a verbatim section is shown as code. It is taken
as it is, but for blank lines at its start and its end, white space at the end of its lines, and the
spaces that all its lines with content start with. Nothing in it is read as markup, and it comes
back when its entities are read. The places at which its lines are cut are also places in bytes.
-/

namespace Commentary

namespace Text

variable {n : Nat} {t : Text} {lines : List Text}

theorem indent_cons (c : Char) (t : Text) :
    indent (c :: t) = if isSpace c then indent t + 1 else 0 := by
  rw [indent, List.takeWhile_cons]
  split <;> rfl

theorem spaces_isPrefix_iff : spaces n <+: t ↔ n ≤ indent t := by
  induction t generalizing n with
  | nil => cases n <;> simp [spaces, indent, List.replicate_succ]
  | cons c t ih =>
      cases n with
      | zero => simp [spaces]
      | succ n =>
          rw [indent_cons, spaces, List.replicate_succ, List.cons_prefix_cons]
          by_cases hc : isSpace c
          · have hspace : ' ' = c := (beq_iff_eq.mp hc).symm
            rw [if_pos hc, Nat.add_le_add_iff_right, ← ih]
            exact and_iff_right hspace
          · rw [if_neg hc]
            simp only [isSpace, beq_iff_eq] at hc
            simp [Ne.symm hc]

theorem join_concat (separator : Text) (lines : List Text) (t : Text) :
    join separator (lines ++ [t]) = lines.flatMap (· ++ separator) ++ t := by
  induction lines with
  | nil => rfl
  | cons s lines ih =>
      cases lines with
      | nil => simp [join]
      | cons s' lines =>
          rw [List.cons_append, List.cons_append, join, ← List.cons_append, ih]
          · simp
          · simp

/-- Lines that are each ended by a line feed, and no more line feeds than that, are joined by line
feeds once the empty ones at the end are gone. -/
theorem trimEnd_lineFeed_flatMap (h : ∀ t ∈ lines, t.getLast? ≠ some lineFeed) :
    trimEnd (· = lineFeed) (lines.flatMap (· ++ [lineFeed])) =
      join [lineFeed] (lines.rdropWhile (· = [])) := by
  induction lines using List.reverseRecOn with
  | nil => rfl
  | append_singleton lines t ih =>
      obtain ⟨hlines, ht⟩ := List.forall_mem_append.mp h
      rw [List.flatMap_append, List.flatMap_singleton, ← List.append_assoc, trimEnd_concat,
        if_pos (by simp), List.rdropWhile_concat]
      by_cases hnil : t = []
      · rw [hnil, List.append_nil, if_pos (by simp), ih hlines]
      · rw [if_neg (by simpa using hnil), join_concat]
        refine trimEnd_eq_self_iff.mpr fun c hc => ?_
        rw [List.getLast?_append_of_ne_nil _ hnil] at hc
        rintro hlast
        exact ht t (List.mem_singleton_self t) (by rw [hc]; simpa using hlast)

end Text

namespace Markup

open Text

/-! ## What is shown of some code -/

/-- The lines with content start with `n` spaces, and one of them with no more. -/
structure IsCommonIndent (lines : List Text) (n : Nat) : Prop where
  starts : ∀ t ∈ lines, ¬ isAllBlank t → spaces n <+: t
  sharp : ∃ t ∈ lines, ¬ isAllBlank t ∧ ¬ spaces (n + 1) <+: t

/-- A line of code without the first `n` characters and without white space at its end. Nothing is
left of a blank line. -/
def shownLine (n : Nat) (t : Text) : Text := if isAllBlank t then [] else trimBlankEnd (t.drop n)

/-- Some lines without the blank ones at either end. -/
def innerLines (lines : List Text) : List Text :=
  (lines.dropWhile isAllBlank).rdropWhile isAllBlank

/-- The lines that are shown of some lines of code. -/
inductive ShownAs (lines : List Text) : List Text → Prop where
  | blank (h : ∀ t ∈ lines, isAllBlank t) : ShownAs lines []
  | indented {n : Nat} (h : IsCommonIndent lines n) :
      ShownAs lines ((innerLines lines).map (shownLine n))

variable {lines : List Text} {n : Nat} {t : Text}

/-- The common indentation that is computed is the one of a line, and no more than that of any. -/
theorem isCommonIndent_commonIndent (h : ∃ t ∈ lines, ¬ isAllBlank t) :
    IsCommonIndent lines (commonIndent lines) := by
  obtain ⟨t, ht, hblank⟩ := h
  let indents := (lines.filter fun t => !isAllBlank t).map indent
  have hmem : ∀ {t}, t ∈ lines → ¬ isAllBlank t → indent t ∈ indents := fun ht hblank =>
    List.mem_map_of_mem (List.mem_filter.mpr ⟨ht, by simpa using hblank⟩)
  obtain ⟨n, hn⟩ : ∃ n, indents.min? = some n :=
    Option.isSome_iff_exists.mp (List.isSome_min?_of_mem (hmem ht hblank))
  obtain ⟨hleast, hle⟩ := List.min?_eq_some_iff.mp hn
  have hindent : commonIndent lines = n := by
    rw [commonIndent, hn, Option.getD_some]
  rw [hindent]
  refine ⟨fun u hu hcontent => spaces_isPrefix_iff.mpr (hle _ (hmem hu hcontent)), ?_⟩
  obtain ⟨u, hu, rfl⟩ := List.mem_map.mp hleast
  obtain ⟨hu, hcontent⟩ := List.mem_filter.mp hu
  refine ⟨u, hu, by simpa using hcontent, ?_⟩
  rw [spaces_isPrefix_iff]
  exact Nat.not_succ_le_self _

theorem shownLine_eq_nil_iff (h : ¬ isAllBlank t → spaces n <+: t) :
    shownLine n t = [] ↔ isAllBlank t := by
  rw [shownLine]
  split_ifs with hblank
  · simp [hblank]
  · refine iff_of_false (fun hnil => hblank ?_) hblank
    -- Nothing but spaces is cut off before the first other character.
    obtain ⟨rest, rfl⟩ := h hblank
    rw [List.drop_left' (by simp [spaces]), trimBlankEnd, trimEnd_eq_rdropWhile,
      List.rdropWhile_eq_nil_iff] at hnil
    have hspaces : ∀ c ∈ spaces n, isBlank c := fun c hc => by
      rw [List.eq_of_mem_replicate hc]
      rfl
    exact List.all_eq_true.mpr (List.forall_mem_append.mpr ⟨hspaces, hnil⟩)

theorem rdropWhile_map_shownLine (h : ∀ t ∈ lines, (shownLine n t = [] ↔ isAllBlank t)) :
    (lines.map (shownLine n)).rdropWhile (· = []) =
      (lines.rdropWhile isAllBlank).map (shownLine n) := by
  induction lines using List.reverseRecOn with
  | nil => rfl
  | append_singleton lines t ih =>
      obtain ⟨hlines, ht⟩ := List.forall_mem_append.mp h
      have hlast := ht t (List.mem_singleton_self t)
      rw [List.map_append, List.map_singleton, List.rdropWhile_concat, List.rdropWhile_concat]
      by_cases hblank : isAllBlank t
      · rw [if_pos (decide_eq_true (hlast.mpr hblank)), if_pos hblank, ih hlines]
      · rw [if_neg (by simpa using mt hlast.mp hblank), if_neg hblank, List.map_append,
          List.map_singleton]

/-- The lines of some code are trimmed and then moved to the left. -/
theorem dedent_eq_map_inner (h : ∃ t ∈ lines, ¬ isAllBlank t) :
    dedent lines = (innerLines lines).map (shownLine (commonIndent lines)) := by
  have hcommon := isCommonIndent_commonIndent h
  refine rdropWhile_map_shownLine fun t ht => ?_
  exact shownLine_eq_nil_iff (hcommon.starts t ((List.dropWhile_sublist _).subset ht))

theorem shownAs_dedent (lines : List Text) : ShownAs lines (dedent lines) := by
  by_cases h : ∃ t ∈ lines, ¬ isAllBlank t
  · rw [dedent_eq_map_inner h]
    exact .indented (isCommonIndent_commonIndent h)
  · have hblank : ∀ t ∈ lines, isAllBlank t := fun t ht => by
      by_contra hcontent
      exact h ⟨t, ht, hcontent⟩
    have hnone : dedent lines = [] := by
      rw [dedent, List.dropWhile_eq_nil_iff.mpr hblank]
      rfl
    rw [hnone]
    exact .blank hblank

/-- A block of code is the text of its lines, without marks, between its tags. -/
theorem render_code (lines : List Text) :
    (Block.code lines).render =
      "<code type=\"anonymous\">".toList ++ escape (join [lineFeed] lines) ++ "</code>".toList := by
  have hopening : "<code".toList ++ tagAttribute "type" "anonymous".toList ++ ['>'] =
      "<code type=\"anonymous\">".toList := by decide
  rw [← hopening]
  unfold Block.render
  simp only [List.append_assoc, List.cons_append, List.nil_append]

/-! ## Places in bytes -/

/-- The place in bytes behind the spaces at the start of a line. -/
def indentBytes (t : Text) : Nat := bytes t - bytes (trimStart isSpace t)

/-- The code of some lines as one text, each of them cut at a place in bytes. There is none if a
place is outside of a line or inside of a character. -/
def codeText? (lines : List Text) : Option Text :=
  let indents := (lines.filter fun t => !isAllBlank t).map indentBytes
  let cut t :=
    if isAllBlank t then some [] else (from? (indents.min?.getD 0) t).map trimBlankEnd
  ((lines.dropWhile isAllBlank).mapM cut).map fun shown =>
    trimEnd (· = lineFeed) (shown.flatMap (· ++ [lineFeed]))

theorem indentBytes_eq (t : Text) : indentBytes t = indent t := by
  have htake : t.takeWhile isSpace = spaces (indent t) :=
    List.eq_replicate_of_mem fun c hc => by
      simpa [isSpace] using List.mem_takeWhile_imp hc
  have hsplit : spaces (indent t) ++ trimStart isSpace t = t :=
    htake ▸ List.takeWhile_append_dropWhile
  have hbytes := congrArg bytes hsplit
  rw [bytes_append, bytes_spaces] at hbytes
  rw [indentBytes]
  omega

/-- A line that starts with some spaces can be cut behind them. -/
theorem from?_of_spaces_isPrefix (h : spaces n <+: t) : from? n t = some (t.drop n) := by
  obtain ⟨rest, rfl⟩ := h
  rw [from?_of_eq_append rfl (bytes_spaces n).symm, List.drop_left' (by simp [spaces])]

theorem mapM_eq_some_map {α β : Type} {f : α → Option β} {g : α → β} {l : List α}
    (h : ∀ a ∈ l, f a = some (g a)) : l.mapM f = some (l.map g) := by
  induction l with
  | nil => rfl
  | cons a l ih =>
      obtain ⟨ha, hl⟩ := List.forall_mem_cons.mp h
      rw [List.mapM_cons, ha, ih hl]
      rfl

theorem getLast?_shownLine_ne (n : Nat) (t : Text) :
    (shownLine n t).getLast? ≠ some lineFeed := by
  rw [shownLine]
  split_ifs
  · exact nofun
  · intro hlast
    have htrim := trimEnd_trimEnd isBlank (t.drop n)
    exact trimEnd_eq_self_iff.mp htrim lineFeed hlast rfl

/-- No place is outside of a line or inside of a character, and the text is that of the lines that
are shown. -/
theorem codeText?_eq_some (lines : List Text) :
    codeText? lines = some (join [lineFeed] (dedent lines)) := by
  have hindent : (((lines.filter fun t => !isAllBlank t).map indentBytes).min?).getD 0 =
      commonIndent lines := by
    rw [funext indentBytes_eq]
    rfl
  have hcut : ∀ t ∈ lines.dropWhile isAllBlank,
      (if isAllBlank t then some []
        else (from? (commonIndent lines) t).map trimBlankEnd) =
        some (shownLine (commonIndent lines) t) := by
    intro t ht
    have hmem : t ∈ lines := (List.dropWhile_sublist _).subset ht
    rw [shownLine]
    split_ifs with hblank
    · rfl
    · have hcommon := isCommonIndent_commonIndent ⟨t, hmem, hblank⟩
      rw [from?_of_spaces_isPrefix (hcommon.starts t hmem hblank), Option.map_some]
  rw [codeText?, hindent, mapM_eq_some_map hcut, Option.map_some, trimEnd_lineFeed_flatMap]
  · rfl
  · intro shown hshown
    obtain ⟨t, -, rfl⟩ := List.mem_map.mp hshown
    exact getLast?_shownLine_ne _ t

/-! ## Reading a section -/

namespace Reader

variable {kind : TopicKind} {r : Reader} {start stop : Text}

/-- The line that opens a section ends the block before it. -/
theorem step_of_isStart (h : Verbatim.isStart start) (hr : ¬ r.current.isCode) :
    r.step kind start = (r.current.close, { r with current := .verbatim [] }) := by
  have htrim := trimStart_trimStart start
  have hstart : Verbatim.isStart (trimStart isSpace start) := by rwa [isStart_trimStart]
  have hne : trimStart isSpace start ≠ [] := by
    intro hnil
    rw [hnil] at hstart
    exact absurd hstart (by decide)
  have htext : r.stepText kind (trimStart isSpace start) =
      (r.current.close, { r with current := .verbatim [] }) := by
    rw [stepText, if_neg hne, bullet?_of_isStart hstart htrim, definition?_of_isStart hstart htrim,
      heading?_of_isStart hstart htrim]
    simp [hstart]
  have hmarked : r.stepMarked kind start = r.stepText kind (trimStart isSpace start) := by
    rw [stepMarked, codeLine?_of_isStart h]
    cases hcurrent : r.current with
    | marked lines thenBlank => exact absurd (by rw [hcurrent]; rfl) hr
    | _ => rfl
  rw [← htext, ← hmarked, step]
  cases hcurrent : r.current with
  | verbatim lines => exact absurd (by rw [hcurrent]; rfl) hr
  | _ => rfl

/-- The lines of an open section are collected up to the one that closes it. -/
theorem blocks_verbatim {done lines rest : List Text} (hr : r.current = .verbatim done)
    (hlines : ∀ t ∈ lines, ¬ Verbatim.isEnd t) (hstop : Verbatim.isEnd stop) :
    r.blocks kind (lines ++ stop :: rest) =
      .code (dedent (done ++ lines)) ::
        { r with current := .none, afterBlank := false }.blocks kind rest := by
  induction lines generalizing r done with
  | nil => simp [blocks, step, hr, hstop]
  | cons t lines ih =>
      obtain ⟨ht, hlines⟩ := List.forall_mem_cons.mp hlines
      have hstep : r.step kind t = ([], { r with current := .verbatim (done ++ [t]) }) := by
        simp [step, hr, ht]
      rw [List.cons_append, blocks, hstep]
      let next : Reader := { r with current := .verbatim (done ++ [t]) }
      have hrest : next.blocks kind (lines ++ stop :: rest) =
          .code (dedent (done ++ [t] ++ lines)) ::
            { r with current := .none, afterBlank := false }.blocks kind rest := ih rfl hlines
      simpa using hrest

/-- A section is one block of code, between those that are read before and behind it. -/
theorem blocks_section {lines rest : List Text} (hr : ¬ r.current.isCode)
    (hstart : Verbatim.isStart start) (hlines : ∀ t ∈ lines, ¬ Verbatim.isEnd t)
    (hstop : Verbatim.isEnd stop) :
    r.blocks kind (start :: (lines ++ stop :: rest)) =
      r.current.close ++ .code (dedent lines) ::
        { r with current := .none, afterBlank := false }.blocks kind rest := by
  let opened : Reader := { r with current := .verbatim [] }
  have hverbatim : opened.blocks kind (lines ++ stop :: rest) =
      .code (dedent ([] ++ lines)) ::
        { r with current := .none, afterBlank := false }.blocks kind rest :=
    blocks_verbatim rfl hlines hstop
  rw [List.nil_append] at hverbatim
  rw [blocks, step_of_isStart hstart hr]
  exact congrArg (r.current.close ++ ·) hverbatim

end Reader

/-- A section that is all of a body is one block of code. What this shows of the lines can be read
off it; no mark of a tag or of an attribute is left in it, and each line is cut inside of its bounds
and between characters. -/
theorem formatBody_section (kind : TopicKind) {start stop : Text} {lines : List Text}
    (hstart : Verbatim.isStart start) (hlines : ∀ t ∈ lines, ¬ Verbatim.isEnd t)
    (hstop : Verbatim.isEnd stop) :
    ∃ code shown, ShownAs lines shown ∧
      formatBody kind (start :: lines ++ [stop]) =
        "<code type=\"anonymous\">".toList ++ code ++ "</code>".toList ∧
      unescape code = join [lineFeed] shown ∧ codeText? lines = some (unescape code) ∧
      ∀ c ∈ code, ¬ IsMarkup c := by
  have hblocks : Block.ofLines kind (start :: lines ++ [stop]) = [.code (dedent lines)] :=
    Reader.blocks_section (by decide) hstart hlines hstop
  refine ⟨escape (join [lineFeed] (dedent lines)), dedent lines, shownAs_dedent lines, ?_,
    unescape_escape _, ?_, fun c hc => not_isMarkup_of_mem_escape hc⟩
  · rw [formatBody, hblocks, List.flatMap_singleton, render_code]
  · rw [codeText?_eq_some, unescape_escape]

/-- Blank lines at both ends and inside, marks of many kinds, and a tab that indents no further than
the spaces before it. -/
theorem formatBody_section_marks :
    let start := "  (Start Code)".toList
    let stop := "(end)".toList
    let lines := ["  ".toList, "    - if *a* < <b>:".toList, [], "  \tc & \"d\"  ".toList,
      "   (code)".toList, []]
    (Verbatim.isStart start ∧ (∀ t ∈ lines, ¬ Verbatim.isEnd t) ∧ Verbatim.isEnd stop) ∧
      ∃ code shown, ShownAs lines shown ∧
        formatBody (.single .functionType) (start :: lines ++ [stop]) =
          "<code type=\"anonymous\">".toList ++ code ++ "</code>".toList ∧
        unescape code = join [lineFeed] shown ∧ codeText? lines = some (unescape code) ∧
        ∀ c ∈ code, ¬ IsMarkup c := by
  intro start stop lines
  have hstart : Verbatim.isStart start := by decide
  have hlines : ∀ t ∈ lines, ¬ Verbatim.isEnd t := by decide
  have hstop : Verbatim.isEnd stop := by decide
  exact ⟨⟨hstart, hlines, hstop⟩, formatBody_section _ hstart hlines hstop⟩

end Markup

end Commentary
