import Commentary.Comment.Basic
import Commentary.Proofs.Text.Parts

/-!
# Where comments are found

A comment starts at a line of the source that a marker stands on. The code behind it is what its
last line holds behind the closer, and then the lines that follow; it is what the prototype of the
comment is looked for in.
-/

namespace Commentary

/-! ## Markers -/

namespace Language

theorem mem_of_longest? {α : Type} {length : α → Nat} {l : List α} {a : α}
    (h : longest? length l = some a) : a ∈ l := by
  induction l generalizing a with
  | nil => cases h
  | cons b l ih =>
      rw [longest?] at h
      split at h
      · next other hother =>
          split_ifs at h
          · cases h
            exact List.mem_cons_of_mem b (ih hother)
          · cases h
            exact List.mem_cons_self
      · cases h
        exact List.mem_cons_self

/-- A marked line is its indentation, the marker and the rest. -/
theorem eq_append_of_marked? {marker line : Text} {m : Marked} (h : marked? marker line = some m) :
    line = m.indent ++ (m.marker ++ m.rest) := by
  obtain ⟨-, h⟩ := Option.ite_none_left_eq_some.mp h
  obtain ⟨rest, hrest, rfl⟩ := Option.map_eq_some_iff.mp h
  dsimp only
  rw [← Text.eq_append_of_afterStart? hrest, List.takeWhile_append_dropWhile]

theorem lineMarker?_of_start {l : Language} {line : Text} {m : Marked}
    (h : l.start line = .line m) :
    l.lineMarker? line = some m ∧
      ∀ other closer, l.blockMarker? line = some (other, closer) → other.length < m.length := by
  rw [start] at h
  split at h
  · next opener closer marker hopener hmarker =>
      split_ifs at h with hlength
      cases h
      refine ⟨hmarker, fun other closer hother => ?_⟩
      rw [hopener] at hother
      cases hother
      exact Nat.lt_of_not_le hlength
  · cases h
  · next marker hopener hmarker =>
      cases h
      refine ⟨hmarker, fun other closer hother => ?_⟩
      rw [hopener] at hother
      cases hother
  · cases h

theorem blockMarker?_of_start {l : Language} {line closer : Text} {m : Marked}
    (h : l.start line = .block m closer) :
    l.blockMarker? line = some (m, closer) ∧
      ∀ other, l.lineMarker? line = some other → other.length ≤ m.length := by
  rw [start] at h
  split at h
  · next opener closer marker hopener hmarker =>
      split_ifs at h with hlength
      cases h
      refine ⟨hopener, fun other hother => ?_⟩
      rw [hmarker] at hother
      cases hother
      exact hlength
  · next opener closer hopener hmarker =>
      cases h
      refine ⟨hopener, fun other hother => ?_⟩
      rw [hmarker] at hother
      cases hother
  · cases h
  · cases h

theorem markers?_of_start {l : Language} {line : Text} (h : l.start line = .none) :
    l.blockMarker? line = none ∧ l.lineMarker? line = none := by
  rw [start] at h
  split at h
  · split_ifs at h
  · cases h
  · cases h
  · next hblock hline => exact ⟨hblock, hline⟩

theorem exists_marked_of_start_eq_line {l : Language} {line : Text} {m : Marked}
    (h : l.start line = .line m) : ∃ marker, marked? marker line = some m := by
  obtain ⟨marker, -, hmarked⟩ := List.mem_filterMap.mp (mem_of_longest? (lineMarker?_of_start h).1)
  exact ⟨marker, hmarked⟩

theorem exists_marked_of_start_eq_block {l : Language} {line closer : Text} {m : Marked}
    (h : l.start line = .block m closer) : ∃ marker, marked? marker line = some m := by
  obtain ⟨markers, -, hmarked⟩ :=
    List.mem_filterMap.mp (mem_of_longest? (blockMarker?_of_start h).1)
  obtain ⟨m', hm', heq⟩ := Option.map_eq_some_iff.mp hmarked
  cases heq
  exact ⟨markers.opener, hm'⟩

theorem eq_append_of_start_eq_line {l : Language} {line : Text} {m : Marked}
    (h : l.start line = .line m) : line = m.indent ++ (m.marker ++ m.rest) :=
  eq_append_of_marked? (exists_marked_of_start_eq_line h).choose_spec

theorem eq_append_of_start_eq_block {l : Language} {line closer : Text} {m : Marked}
    (h : l.start line = .block m closer) : line = m.indent ++ (m.marker ++ m.rest) :=
  eq_append_of_marked? (exists_marked_of_start_eq_block h).choose_spec

end Language

namespace Comment

/-! ## Places -/

/-- A comment of some lines, its prototype apart, and the code behind it. -/
inductive FoundIn (language : Language) (lines : List SourceLine) (c : Comment) :
    List Text → Prop where
  | intro {line : SourceLine} {before rest : List SourceLine} {trailing : Option Text}
      (hlines : lines = before ++ line :: rest)
      (hstart : startingAt? language (before.length + 1) line rest =
        some ({ c with prototype := none }, trailing)) :
      FoundIn language lines c
        (trailing.toList ++ (rest.drop (c.lines.length - 1)).map SourceLine.text)

theorem of_startingAt? {language : Language} {number : Nat} {line : SourceLine}
    {rest : List SourceLine} {c : Comment} {trailing : Option Text}
    (h : startingAt? language number line rest = some (c, trailing)) :
    c.span.first = number ∧ c.prototype = none := by
  rw [startingAt?] at h
  split at h
  · cases h
  · cases h
    exact ⟨rfl, rfl⟩
  · cases h
    exact ⟨rfl, rfl⟩

/-- The code behind a comment is determined by the comment. -/
theorem FoundIn.code_eq {language : Language} {lines : List SourceLine} {c : Comment}
    {code code' : List Text} (h : FoundIn language lines c code)
    (h' : FoundIn language lines c code') : code = code' := by
  obtain @⟨line, before, rest, trailing, rfl, hstart⟩ := h
  obtain @⟨line', before', rest', trailing', hlines, hstart'⟩ := h'
  have hspan : before.length + 1 = before'.length + 1 :=
    (of_startingAt? hstart).1.symm.trans (of_startingAt? hstart').1
  obtain ⟨rfl, hrest⟩ := List.append_inj hlines (Nat.succ.inj hspan)
  cases hrest
  rw [hstart] at hstart'
  cases hstart'
  rfl

/-- A comment is found in the lines, and its prototype in the code behind it. -/
theorem foundIn_of_mem_find {language : Language} {keywords : KeywordTable} {skip : Nat}
    {before lines : List SourceLine} {c : Comment}
    (h : c ∈ find language keywords skip (before.length + 1) lines) :
    ∃ code, FoundIn language (before ++ lines) c code ∧
      c.prototype = prototypeOf language keywords c.lines code := by
  induction lines generalizing skip before with
  | nil => cases h
  | cons line rest ih =>
      have hrest : ∀ {skip}, c ∈ find language keywords skip (before.length + 1 + 1) rest →
          ∃ code, FoundIn language (before ++ line :: rest) c code ∧
            c.prototype = prototypeOf language keywords c.lines code := by
        intro skip hmem
        have hlength : before.length + 1 = (before ++ [line]).length := by simp
        rw [hlength] at hmem
        simpa using ih hmem
      cases skip with
      | succ skip => exact hrest h
      | zero =>
          rw [find] at h
          split at h
          · exact hrest h
          · next comment trailing hstart =>
              rcases List.mem_cons.mp h with rfl | h
              · obtain ⟨-, hnone⟩ := of_startingAt? hstart
                exact ⟨_, .intro rfl (hstart.trans (by rw [← hnone])), rfl⟩
              · exact hrest h

theorem ofSource_eq_find {language : Language} (hlanguage : language.readsWholeFile = false)
    (keywords : KeywordTable) (source : Text) :
    ofSource language keywords source =
      find language keywords 0 1 (SourceLine.ofSource source) := by
  rw [ofSource]
  simp only [hlanguage, Bool.false_eq_true, if_false]

theorem foundIn_of_mem_ofSource {language : Language} {keywords : KeywordTable} {source : Text}
    {c : Comment} (hlanguage : language.readsWholeFile = false)
    (h : c ∈ ofSource language keywords source) :
    ∃ code, FoundIn language (SourceLine.ofSource source) c code ∧
      c.prototype = prototypeOf language keywords c.lines code := by
  rw [ofSource_eq_find hlanguage] at h
  have hstart : c ∈ find language keywords 0 (([] : List SourceLine).length + 1)
    (SourceLine.ofSource source) := h
  exact foundIn_of_mem_find hstart

end Comment

end Commentary
