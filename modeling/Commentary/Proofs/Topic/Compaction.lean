import Commentary.Comment.Cleaner
import Commentary.Topic.Extract
import Mathlib.Tactic.SplitIfs

/-!
# Compaction and topics

A comment may be read with all of its lines or without the blank ones that say nothing. A header
stands at the start or behind a blank line, and of several blank lines the first one is kept, so
both readings find the same headers on the same lines. Their topics differ in their bodies at most.
-/

namespace Commentary

namespace Section

/-- What a section tells without the lines behind its header. -/
def outline (s : Section) : Header × Nat := (s.header, s.line)

/-- The headers in some lines, each with its number. -/
def outlines (keywords : KeywordTable) (p : Place) (lines : List (Nat × Text)) :
    List (Header × Nat) :=
  (split keywords p lines).2.map outline

/-! ## Where headers stand -/

namespace Place

variable {p : Place} {keywords : KeywordTable} {line : Text} {header : Header}

theorem header?_eq_some (h : p.header? keywords line = some header) :
    p = afterBlank ∧ Verbatim.isStart line = false ∧ keywords.header? line = some header := by
  obtain ⟨⟨hp, hstart⟩, hheader⟩ := Option.ite_none_right_eq_some.mp h
  exact ⟨hp, by simpa using hstart, hheader⟩

theorem header?_nil (p : Place) (keywords : KeywordTable) : p.header? keywords [] = none := by
  cases h : p.header? keywords [] with
  | none => rfl
  | some header => exact absurd (header?_eq_some h).2.2 (by simp [KeywordTable.header?,
      KeywordTable.splitHeader?])

theorem next_nil_afterBlank : next afterBlank [] = afterBlank := rfl

end Place

theorem outlines_cons_of_header {p : Place} {keywords : KeywordTable} {line : Text}
    {header : Header} (h : p.header? keywords line = some header) (number : Nat)
    (lines : List (Nat × Text)) :
    outlines keywords p ((number, line) :: lines) =
      (header, number) :: outlines keywords .afterText lines := by
  simp only [outlines, split, h, List.map_cons, outline]

theorem outlines_cons_of_none {p : Place} {keywords : KeywordTable} {line : Text}
    (h : p.header? keywords line = none) (number : Nat) (lines : List (Nat × Text)) :
    outlines keywords p ((number, line) :: lines) = outlines keywords (p.next line) lines := by
  simp only [outlines, split, h]

/-- The numbers of lines are carried along. -/
theorem outlines_renumber (keywords : KeywordTable) (number : Nat → Nat) (p : Place)
    (lines : List (Nat × Text)) :
    outlines keywords p (lines.map fun (index, t) => (number index, t)) =
      (outlines keywords p lines).map fun (header, index) => (header, number index) := by
  induction lines generalizing p with
  | nil => rfl
  | cons line lines ih =>
      obtain ⟨index, t⟩ := line
      cases h : p.header? keywords t with
      | some header => simp [outlines_cons_of_header h, ih]
      | none => simp [outlines_cons_of_none h, ih]

/-! ## Blank lines that are dropped -/

/-- What compaction remembers of the lines that it kept, against the place behind all of them. -/
structure Place.Tracked (p : Place) (inSection afterBlank : Bool) : Prop where
  inSection_iff : inSection = true ↔ p = .insideVerbatim
  afterBlank : inSection = false → afterBlank = true → p = .afterBlank

namespace Place.Tracked

variable {p : Place} {inSection afterBlank : Bool}

theorem start : Tracked .afterBlank false true where
  inSection_iff := by simp
  afterBlank := fun _ _ => rfl

theorem next (h : p.Tracked inSection afterBlank) (line : Text) :
    (p.next line).Tracked (Verbatim.step inSection line) (line = []) := by
  cases p with
  | insideVerbatim =>
      rw [h.inSection_iff.mpr rfl]
      cases hend : Verbatim.isEnd line with
      | false => exact ⟨by simp [Verbatim.step, Place.next, hend], by simp [Verbatim.step, hend]⟩
      | true =>
          refine ⟨by simp [Verbatim.step, Place.next, hend], fun _ hblank => ?_⟩
          -- A blank line ends no section.
          rw [of_decide_eq_true hblank] at hend
          exact absurd hend (by decide)
  | _ =>
      have hsection : inSection = false := by
        rw [← Bool.not_eq_true, h.inSection_iff]
        exact Place.noConfusion
      rw [hsection]
      cases hstart : Verbatim.isStart line with
      | true => exact ⟨by simp [Verbatim.step, Place.next, hstart], by simp [Verbatim.step, hstart]⟩
      | false =>
          refine ⟨?_, fun _ hblank => ?_⟩
          · simp only [Verbatim.step, Place.next, hstart, Bool.false_eq_true, if_false, false_iff]
            split_ifs <;> exact nofun
          · rw [of_decide_eq_true hblank]
            rfl

theorem header {keywords : KeywordTable} {line : Text} {header : Header}
    (h : p.Tracked inSection afterBlank) (hheader : p.header? keywords line = some header) :
    Tracked .afterText (Verbatim.step inSection line) (line = []) := by
  obtain ⟨rfl, hstart, -⟩ := header?_eq_some hheader
  have hsection : inSection = false := by
    rw [← Bool.not_eq_true, h.inSection_iff]
    exact Place.noConfusion
  have hline : line ≠ [] := by
    rintro rfl
    exact absurd hheader (by simp [header?_nil])
  exact ⟨by simp [Verbatim.step, hsection, hstart], by simp [hline]⟩

end Place.Tracked

/-- A blank line behind a blank line hides no header and makes room for none. -/
theorem outlines_compactFrom (keywords : KeywordTable) {p : Place} {inSection afterBlank : Bool}
    (h : p.Tracked inSection afterBlank) (lines : List (Nat × Text)) :
    outlines keywords p (Cleaner.compactFrom inSection afterBlank lines) =
      outlines keywords p lines := by
  induction lines generalizing p inSection afterBlank with
  | nil => rfl
  | cons line lines ih =>
      obtain ⟨index, t⟩ := line
      rw [Cleaner.compactFrom]
      split_ifs with hdrop
      · obtain ⟨rfl, hsection, hblank⟩ := hdrop
        obtain rfl := h.afterBlank (by simpa using hsection) hblank
        rw [ih h, outlines_cons_of_none (Place.header?_nil _ _), Place.next_nil_afterBlank]
      · cases hheader : p.header? keywords t with
        | some header =>
            rw [outlines_cons_of_header hheader, outlines_cons_of_header hheader,
              ih (h.header hheader)]
        | none =>
            rw [outlines_cons_of_none hheader, outlines_cons_of_none hheader, ih (h.next t)]

theorem outlines_dropBlankEnd (keywords : KeywordTable) (p : Place) (lines : List (Nat × Text)) :
    outlines keywords p (Cleaner.dropBlankEnd lines) = outlines keywords p lines := by
  induction lines generalizing p with
  | nil => rfl
  | cons line lines ih =>
      obtain ⟨index, t⟩ := line
      have hkept : outlines keywords p ((index, t) :: Cleaner.dropBlankEnd lines) =
          outlines keywords p ((index, t) :: lines) := by
        cases hheader : p.header? keywords t with
        | some header => rw [outlines_cons_of_header hheader, outlines_cons_of_header hheader, ih]
        | none => rw [outlines_cons_of_none hheader, outlines_cons_of_none hheader, ih]
      rw [← hkept, Cleaner.dropBlankEnd]
      split
      · next hnil =>
          rw [hnil]
          split_ifs with ht
          · rw [ht, outlines_cons_of_none (Place.header?_nil p keywords)]
            rfl
          · rfl
      · rfl

/-- A comment has the same headers on the same lines with and without compaction. -/
theorem outlines_cleanCompact (keywords : KeywordTable) (cleaner : Cleaner) (lines : List Text) :
    outlines keywords .afterBlank (cleaner.cleanCompact lines) =
      outlines keywords .afterBlank
        ((cleaner.clean lines).zipIdx.map fun (t, index) => (index, t)) := by
  rw [Cleaner.cleanCompact, outlines_dropBlankEnd, outlines_compactFrom keywords .start]

end Section

/-! ## Topics without their bodies -/

/-- A topic without what is written in its body. -/
def Topic.withoutBody (t : Topic) : Topic := { t with summary := none, body := none }

namespace Section

theorem withoutBody_topic (s : Section) (context : Context) :
    (s.topic context).withoutBody =
      { kind := s.header.kind
        title := s.header.title
        line := s.line
        package :=
          if s.header.kind.type.scopeRule = .global then none
          else (s.contextAfter context).package
        scope := (s.contextAfter context).scope } := by
  rw [topic]
  split_ifs <;> rfl

@[simp] theorem kind_topic (s : Section) (context : Context) :
    (s.topic context).kind = s.header.kind :=
  congrArg Topic.kind (s.withoutBody_topic context)

@[simp] theorem title_topic (s : Section) (context : Context) :
    (s.topic context).title = s.header.title :=
  congrArg Topic.title (s.withoutBody_topic context)

theorem package_topic (s : Section) (context : Context) :
    (s.topic context).package =
      if s.header.kind.type.scopeRule = .global then none else (s.contextAfter context).package :=
  congrArg Topic.package (s.withoutBody_topic context)

theorem scope_topic (s : Section) (context : Context) :
    (s.topic context).scope = (s.contextAfter context).scope :=
  congrArg Topic.scope (s.withoutBody_topic context)

/-- The topics of sections with the same headers on the same lines differ in their bodies only. -/
theorem topics_congr {sections sections' : List Section}
    (h : sections.map outline = sections'.map outline) (context : Context) :
    (topics context sections).1.map Topic.withoutBody =
        (topics context sections').1.map Topic.withoutBody ∧
      (topics context sections).2 = (topics context sections').2 := by
  induction sections generalizing sections' context with
  | nil =>
      rw [List.map_nil, eq_comm, List.map_eq_nil_iff] at h
      exact h ▸ ⟨rfl, rfl⟩
  | cons s sections ih =>
      obtain ⟨s', more, rfl, hs, hmore⟩ := List.map_eq_cons_iff.mp h.symm
      obtain ⟨hheader, hline⟩ := Prod.mk.inj hs
      have hcontext : s'.contextAfter context = s.contextAfter context := by
        rw [contextAfter, contextAfter, hheader]
      have htopic : (s.topic context).withoutBody = (s'.topic context).withoutBody := by
        rw [withoutBody_topic, withoutBody_topic, hcontext, hheader, hline]
      obtain ⟨htopics, hafter⟩ := ih hmore.symm (s.contextAfter context)
      simp only [topics, List.map_cons, hcontext]
      exact ⟨by rw [htopic, htopics], hafter⟩

end Section

namespace Topic

theorem withoutBody_withPrototype (t : Topic) (prototype : Option Text) :
    (t.withPrototype prototype).withoutBody = t.withoutBody.withPrototype prototype :=
  apply_ite withoutBody _ _ _

theorem withoutBody_withCode (t : Topic) (code : Text) :
    (t.withCode code).withoutBody = t.withoutBody.withCode code := by
  refine (apply_ite withoutBody _ _ _).trans ?_
  rw [withoutBody_withPrototype]
  rfl

/-- Gives the code behind a comment to its topic, if it has just one. -/
def attach (code : Option Text) : List Topic → List Topic
  | [t] => [match code with
      | some code => t.withCode code
      | none => t]
  | topics => topics

theorem ofComment_eq (keywords : KeywordTable) (context : Context) (lines : List (Nat × Text))
    (code : Option Text) :
    ofComment keywords context lines code =
      let found := Section.topics context (Section.ofLines keywords lines)
      (attach code found.1, found.2) := by
  rw [ofComment]
  generalize Section.topics context (Section.ofLines keywords lines) = found
  obtain ⟨topics, after⟩ := found
  cases code with
  | none => rcases topics with - | ⟨t, - | ⟨u, more⟩⟩ <;> rfl
  | some code => rcases topics with - | ⟨t, - | ⟨u, more⟩⟩ <;> rfl

theorem withoutBody_attach (code : Option Text) (topics : List Topic) :
    (attach code topics).map withoutBody = attach code (topics.map withoutBody) := by
  rcases topics with - | ⟨t, - | ⟨u, more⟩⟩
  · rfl
  · cases code with
    | none => rfl
    | some code => exact congrArg ([·]) (withoutBody_withCode t code)
  · rfl

/-- The code behind a comment decides about the prototype only. -/
theorem exists_withCode_eq (t : Topic) (code : Text) :
    ∃ prototype, t.withCode code = { t with prototype := prototype } := by
  rw [withCode]
  dsimp only [withPrototype]
  split_ifs
  · exact ⟨t.prototype, rfl⟩
  · exact ⟨_, rfl⟩
  · exact ⟨t.prototype, rfl⟩

theorem attach_eq_self_or (code : Option Text) (found : List Topic) :
    attach code found = found ∨
      ∃ t prototype, found = [t] ∧ attach code found = [{ t with prototype := prototype }] := by
  rcases found with - | ⟨t, - | ⟨u, more⟩⟩
  · exact .inl rfl
  · cases code with
    | none => exact .inl rfl
    | some code =>
        obtain ⟨prototype, hcode⟩ := t.exists_withCode_eq code
        exact .inr ⟨t, prototype, rfl, congrArg ([·]) hcode⟩
  · exact .inl rfl

/-- The header of a topic, with its line. -/
def outline (t : Topic) : Header × Nat := ({ kind := t.kind, title := t.title }, t.line)

theorem map_outline_attach (code : Option Text) (found : List Topic) :
    (attach code found).map outline = found.map outline := by
  rcases attach_eq_self_or code found with h | ⟨t, prototype, rfl, h⟩
  · rw [h]
  · rw [h]
    rfl

theorem map_outline_topics (context : Context) (sections : List Section) :
    (Section.topics context sections).1.map outline = sections.map Section.outline := by
  induction sections generalizing context with
  | nil => rfl
  | cons s sections ih =>
      have hs : outline (s.topic context) = s.outline :=
        congrArg outline (s.withoutBody_topic context)
      simp only [Section.topics, List.map_cons, hs, ih]

/-- The topics of a comment have the headers that stand in it, on their lines. -/
theorem map_outline_ofComment (keywords : KeywordTable) (context : Context)
    (lines : List (Nat × Text)) (code : Option Text) :
    (ofComment keywords context lines code).1.map outline =
      Section.outlines keywords .afterBlank lines := by
  rw [ofComment_eq, map_outline_attach, map_outline_topics]
  rfl

/-- Only the headers of a comment and their lines decide about its topics, their bodies apart, and
about the context behind it. -/
theorem ofComment_congr {keywords : KeywordTable} {lines lines' : List (Nat × Text)}
    (h : Section.outlines keywords .afterBlank lines = Section.outlines keywords .afterBlank lines')
    (context : Context) (code : Option Text) :
    (ofComment keywords context lines code).1.map withoutBody =
        (ofComment keywords context lines' code).1.map withoutBody ∧
      (ofComment keywords context lines code).2 = (ofComment keywords context lines' code).2 := by
  obtain ⟨htopics, hafter⟩ := Section.topics_congr h context
  rw [ofComment_eq, ofComment_eq]
  refine ⟨?_, hafter⟩
  rw [withoutBody_attach, withoutBody_attach]
  exact congrArg (attach code) htopics

/-- Compaction changes nothing of the topics of a comment but their bodies, and nothing of the
context behind it: with all lines or without those that are dropped there are the same topics, on
the same lines, and the code behind the comment goes to the same one. -/
theorem withoutBody_ofComment_cleanCompact (keywords : KeywordTable) (context : Context)
    (cleaner : Cleaner) (lines : List Text) (first : Nat) (code : Option Text) :
    let whole := ofComment keywords context
      ((cleaner.clean lines).zipIdx.map fun (t, index) => (first + index, t)) code
    let compact := ofComment keywords context
      ((cleaner.cleanCompact lines).map fun (index, t) => (first + index, t)) code
    compact.1.map withoutBody = whole.1.map withoutBody ∧ compact.2 = whole.2 := by
  have houtlines := congrArg (List.map fun (header, index) => (header, first + index))
    (Section.outlines_cleanCompact keywords cleaner lines)
  rw [← Section.outlines_renumber, ← Section.outlines_renumber, List.map_map] at houtlines
  exact ofComment_congr houtlines context code

end Topic

end Commentary
