import Commentary.Proofs.Comment.Compaction
import Commentary.Proofs.Markup.Gap
import Commentary.Proofs.Topic.Joining
import Commentary.Proofs.Topic.Merge
import Commentary.SourceFile
import Mathlib.Data.List.Forall2

/-!
# Compaction and bodies

Compaction takes out of each section the blank lines that it would take out of the body alone, and
those at the end, which are not seen in any block. So a topic has the same body with and without
compaction, or one in which code is joined over a wide gap, and everything else of a file is the
same.
-/

namespace Commentary

open Markup (HasWideGap formatBody)

/-! ## Compaction of a section -/

namespace Cleaner

theorem compactFrom_renumber (number : Nat → Nat) (inSection afterBlank : Bool)
    (lines : List (Nat × Text)) :
    compactFrom inSection afterBlank (lines.map fun (index, t) => (number index, t)) =
      (compactFrom inSection afterBlank lines).map fun (index, t) => (number index, t) := by
  induction lines generalizing inSection afterBlank with
  | nil => rfl
  | cons line lines ih =>
      obtain ⟨index, t⟩ := line
      rw [List.map_cons, compactFrom, compactFrom, ih, ih]
      split_ifs <;> rfl

theorem dropBlankEnd_renumber (number : Nat → Nat) (lines : List (Nat × Text)) :
    dropBlankEnd (lines.map fun (index, t) => (number index, t)) =
      (dropBlankEnd lines).map fun (index, t) => (number index, t) := by
  induction lines with
  | nil => rfl
  | cons line lines ih =>
      obtain ⟨index, t⟩ := line
      rw [List.map_cons, dropBlankEnd, dropBlankEnd, ih]
      cases dropBlankEnd lines with
      | nil => split_ifs <;> rfl
      | cons first kept => rfl

end Cleaner

namespace Section

variable {keywords : KeywordTable} {p : Place} {inSection afterBlank : Bool}

/-- A section without the blank lines that compaction drops from its body. -/
def narrow (s : Section) : Section := { s with body := Cleaner.narrow false false s.body }

/-- Of what was dropped from some lines, each section lost what was dropped from its body. -/
theorem split_compactFrom (keywords : KeywordTable) (h : p.Tracked inSection afterBlank)
    (lines : List (Nat × Text)) :
    split keywords p (Cleaner.compactFrom inSection afterBlank lines) =
      (Cleaner.narrow inSection afterBlank (split keywords p lines).1,
        (split keywords p lines).2.map narrow) := by
  induction lines generalizing p inSection afterBlank with
  | nil => rfl
  | cons line lines ih =>
      obtain ⟨index, t⟩ := line
      rw [Cleaner.compactFrom]
      split_ifs with hdrop
      · obtain ⟨rfl, hsection, hblank⟩ := hdrop
        -- a line that is dropped comes behind a blank one, so the place is the same behind it
        obtain rfl := h.afterBlank (by simpa using hsection) hblank
        rw [ih h, split_cons_of_none (Place.header?_nil _ _), Place.next_nil_afterBlank,
          Cleaner.narrow, if_pos ⟨rfl, hsection, hblank⟩]
      · cases hheader : p.header? keywords t with
        | some header =>
            -- Behind a header the body begins, outside of verbatim sections.
            have htracked := h.header hheader
            have ht : t ≠ [] := by
              rintro rfl
              cases (Place.header?_nil p keywords).symm.trans hheader
            have hsection : Verbatim.step inSection t = false := by
              rw [← Bool.not_eq_true, htracked.inSection_iff]
              exact Place.noConfusion
            rw [split_cons_of_header hheader, split_cons_of_header hheader, ih htracked, hsection,
              decide_eq_false ht]
            rfl
        | none =>
            rw [split_cons_of_none hheader, split_cons_of_none hheader, ih (h.next t),
              Cleaner.narrow, if_neg hdrop]

theorem split_blank (keywords : KeywordTable) (p : Place) (numbers : List Nat) :
    split keywords p (numbers.map (·, [])) = (List.replicate numbers.length [], []) := by
  induction numbers generalizing p with
  | nil => rfl
  | cons number numbers ih =>
      rw [List.map_cons, split_cons_of_none (Place.header?_nil p keywords), ih]
      rfl

/-- The blank lines at the end of a comment are at the end of its last section. -/
theorem exists_extendLast_ofLines_dropBlankEnd (keywords : KeywordTable)
    (lines : List (Nat × Text)) :
    ∃ n, extendLast (List.replicate n []) (ofLines keywords (Cleaner.dropBlankEnd lines)) =
      ofLines keywords lines := by
  obtain ⟨numbers, hlines⟩ := Cleaner.exists_append_dropBlankEnd lines
  refine ⟨numbers.length, ?_⟩
  conv_rhs => rw [← hlines]
  rw [ofLines, ofLines, split_append, split_blank, List.append_nil]

end Section

namespace Markup

variable {kind : TopicKind}

theorem commonIndent_append_blank (lines : List Text) :
    commonIndent (lines ++ [[]]) = commonIndent lines := by
  rw [commonIndent, List.filter_append]
  exact congrArg (fun kept => ((kept.map Text.indent).min?).getD 0) (List.append_nil _)

theorem dedent_append_blank (lines : List Text) : dedent (lines ++ [[]]) = dedent lines := by
  dsimp only [dedent]
  rw [commonIndent_append_blank, List.dropWhile_append]
  cases hkept : lines.dropWhile Text.isAllBlank with
  | nil => rfl
  | cons t kept => simp [Text.isAllBlank]

/-- A blank line at the end of a body is not seen, also in a verbatim section. -/
theorem formatBody_append_nil (kind : TopicKind) (body : List Text) :
    formatBody kind (body ++ [[]]) = formatBody kind body := by
  have hreader : ∀ r : Reader, r.blocks kind [[]] = r.blocks kind [] := by
    intro r
    cases hcurrent : r.current with
    | verbatim lines =>
        have hend : Verbatim.isEnd [] = false := by decide
        simp [Reader.blocks, Reader.step, hcurrent, hend, OpenBlock.close, dedent_append_blank]
    | _ => exact Reader.blocks_blank (by rw [hcurrent]; rfl)
  have hblocks : Block.ofLines kind (body ++ [[]]) = Block.ofLines kind (body ++ []) := by
    rw [Block.ofLines, Block.ofLines, Reader.blocks_append, Reader.blocks_append, hreader]
  rw [formatBody, hblocks, List.append_nil]
  rfl

theorem formatBody_append_replicate (kind : TopicKind) (body : List Text) (n : Nat) :
    formatBody kind (body ++ List.replicate n []) = formatBody kind body := by
  induction n with
  | zero => rw [List.replicate_zero, List.append_nil]
  | succ n ih => rw [List.replicate_succ', ← List.append_assoc, formatBody_append_nil, ih]

end Markup

/-! ## Topics of a comment -/

/-- A topic has at most its body changed, and a list defines the same symbols. -/
structure Topic.Rewritten (t u : Topic) : Prop where
  same : u = { t with body := u.body }
  listedNames : u.listedNames = t.listedNames

/-- Sections, their topics, and the same topics after compaction, one by one. A topic has the same
body if and only if no code of its section is joined over a wide gap. -/
inductive Section.Compacted : List Section → List Topic → List Topic → Prop where
  | nil : Compacted [] [] []
  | cons {s : Section} {t u : Topic} {sections : List Section} {whole compact : List Topic}
      (hline : t.line = s.line) (h : t.Rewritten u)
      (hbody : u.body = t.body ↔ ¬ HasWideGap s.body)
      (hrest : Compacted sections whole compact) :
      Compacted (s :: sections) (t :: whole) (u :: compact)

namespace Section

variable {keywords : KeywordTable} {context : Context} {s : Section}

/-- The body of a topic, if there is something in it. -/
theorem body_topic (s : Section) (context : Context) :
    (s.topic context).body =
      if formatBody s.header.kind s.body = [] then none
      else some (formatBody s.header.kind s.body) := by
  rw [topic]
  split_ifs <;> rfl

theorem summary_topic (s : Section) (context : Context) :
    (s.topic context).summary = Markup.summary? (formatBody s.header.kind s.body) := by
  rw [topic]
  by_cases hbody : formatBody s.header.kind s.body = []
  · rw [if_pos hbody, hbody]
    rfl
  · rw [if_neg hbody]
    rfl

theorem listedNames_topic (s : Section) (context : Context) :
    (s.topic context).listedNames =
      if s.header.kind.isList then
        (Markup.symbolEntries (formatBody s.header.kind s.body)).map fun entry =>
          (s.header.kind.type, entry.name)
      else [] := by
  rw [Topic.listedNames, kind_topic, body_topic]
  cases s.header.kind.isList with
  | false => rfl
  | true =>
      by_cases hbody : formatBody s.header.kind s.body = []
      · rw [if_pos hbody, if_pos rfl, hbody]
        rfl
      · rw [if_neg hbody, if_pos rfl]

/-- The topic of a section without the blank lines that are dropped has the same summary and defines
the same symbols. It has the same body if and only if no code is joined over a wide gap. -/
theorem rewritten_topic_narrow (s : Section) (context : Context) :
    (s.topic context).Rewritten (s.narrow.topic context) ∧
      ((s.narrow.topic context).body = (s.topic context).body ↔ ¬ HasWideGap s.body) := by
  have hwithout : (s.narrow.topic context).withoutBody = (s.topic context).withoutBody := by
    rw [withoutBody_topic, withoutBody_topic]
    rfl
  have hsummary : (s.narrow.topic context).summary = (s.topic context).summary := by
    rw [summary_topic, summary_topic]
    exact Markup.summary?_formatBody_narrow s.header.kind s.body
  refine ⟨⟨?_, ?_⟩, ?_⟩
  · calc s.narrow.topic context
      _ = { (s.narrow.topic context).withoutBody with
            summary := (s.narrow.topic context).summary
            body := (s.narrow.topic context).body } := rfl
      _ = { s.topic context with body := (s.narrow.topic context).body } := by
        rw [hwithout, hsummary]
        rfl
  · rw [listedNames_topic, listedNames_topic]
    simp only [narrow, Markup.symbolEntries_formatBody_narrow]
  · have hinjective : ∀ t u : Text,
        ((if t = [] then none else some t) = if u = [] then none else some u) ↔ t = u := by
      intro t u
      cases t <;> cases u <;> simp
    rw [body_topic, body_topic, hinjective]
    exact Markup.formatBody_narrow_eq_iff s.header.kind s.body

theorem compacted_topics (context : Context) (sections : List Section) :
    Compacted sections (topics context sections).1 (topics context (sections.map narrow)).1 := by
  induction sections generalizing context with
  | nil => exact .nil
  | cons s sections ih =>
      obtain ⟨htopic, hbody⟩ := s.rewritten_topic_narrow context
      have hline : (s.topic context).line = s.line :=
        congrArg Topic.line (s.withoutBody_topic context)
      exact .cons hline htopic hbody (ih (s.contextAfter context))

theorem snd_topics_map_narrow (context : Context) (sections : List Section) :
    (topics context (sections.map narrow)).2 = (topics context sections).2 := by
  induction sections generalizing context with
  | nil => rfl
  | cons s sections ih => exact ih (s.contextAfter context)

end Section

namespace Topic

/-- What is done to a topic leaves its kind, its line and its body alone and does not look at the
body. -/
structure IgnoresBody (change : Topic → Topic) : Prop where
  kind : ∀ t, (change t).kind = t.kind
  line : ∀ t, (change t).line = t.line
  body : ∀ t body, change { t with body } = { change t with body }

namespace IgnoresBody

variable {change : Topic → Topic} {t u : Topic}

theorem body_eq (h : IgnoresBody change) (t : Topic) : (change t).body = t.body := by
  -- a topic is itself with its own body
  rw [h.body t t.body]

theorem rewritten (h : IgnoresBody change) (htu : t.Rewritten u) :
    (change t).Rewritten (change u) where
  same := by
    rw [h.body_eq, ← h.body]
    exact congrArg change htu.same
  listedNames := by
    have hlisted : ∀ t, (change t).listedNames = t.listedNames := fun t => by
      rw [listedNames, listedNames, h.kind, h.body_eq]
    rw [hlisted, hlisted, htu.listedNames]

end IgnoresBody

theorem ignoresBody_withPrototype (prototype : Option Text) :
    IgnoresBody (·.withPrototype prototype) where
  kind t := by
    dsimp only [withPrototype]
    split_ifs <;> rfl
  line t := by
    dsimp only [withPrototype]
    split_ifs <;> rfl
  body t body := by
    dsimp only [withPrototype]
    split_ifs <;> rfl

theorem ignoresBody_withCode (code : Text) : IgnoresBody (·.withCode code) where
  kind t := by
    obtain ⟨prototype, ht⟩ := t.exists_withCode_eq code
    rw [ht]
  line t := by
    obtain ⟨prototype, ht⟩ := t.exists_withCode_eq code
    rw [ht]
  body t body := by
    by_cases hnames : t.kind.takesPrototype ∧ Prototype.normalize code ≠ [] ∧
        Text.includes t.unqualifiedName (Prototype.normalize code)
    · calc ({ t with body } : Topic).withCode code
        _ = ({ t with body } : Topic).withPrototype (some (Prototype.normalize code)) :=
          if_pos hnames
        _ = { t.withPrototype (some (Prototype.normalize code)) with body } :=
          (ignoresBody_withPrototype _).body t body
        _ = { t.withCode code with body } := by rw [withCode, if_pos hnames]
    · calc ({ t with body } : Topic).withCode code
        _ = { t with body } := if_neg hnames
        _ = { t.withCode code with body } := by rw [withCode, if_neg hnames]

theorem ignoresBody_withAuto (a : AutoTopic) : IgnoresBody (·.withAuto a) where
  kind t := (writtenAlike_withAuto t a).kind
  line t := (writtenAlike_withAuto t a).line
  body t body := by
    dsimp only [withAuto, withPrototype, withPackage]
    split_ifs <;> rfl

theorem compacted_attach (code : Option Text) {sections : List Section} {whole compact : List Topic}
    (h : Section.Compacted sections whole compact) :
    Section.Compacted sections (attach code whole) (attach code compact) := by
  cases h with
  | nil => exact .nil
  | cons hline h hbody hrest =>
      cases hrest with
      | nil =>
          cases code with
          | none => exact .cons hline h hbody .nil
          | some code =>
              have hcode := ignoresBody_withCode code
              refine .cons ((hcode.line _).trans hline) (hcode.rewritten h) ?_ .nil
              rwa [hcode.body_eq, hcode.body_eq]
      | cons hline' h' hbody' hrest => exact .cons hline h hbody (.cons hline' h' hbody' hrest)

end Topic

/-- The cleaned lines of a comment, each with the number that its place stands for. -/
def Cleaner.cleanNumbered (cleaner : Cleaner) (number : Nat → Nat) (lines : List Text) :
    List (Nat × Text) :=
  ((cleaner.clean lines).zipIdx.map fun (t, index) => (index, t)).map
    fun (index, t) => (number index, t)

/-- Those of them that compaction leaves. -/
def Cleaner.cleanCompactNumbered (cleaner : Cleaner) (number : Nat → Nat) (lines : List Text) :
    List (Nat × Text) :=
  (cleaner.cleanCompact lines).map fun (index, t) => (number index, t)

namespace Topic

variable (keywords : KeywordTable) (context : Context) (cleaner : Cleaner) (number : Nat → Nat)
  (lines : List Text) (code : Option Text)

/-- With compaction, a comment has the topics of its sections without the blank lines that are
dropped from their bodies. -/
theorem topics_cleanCompactNumbered :
    Section.topics context
        (Section.ofLines keywords (cleaner.cleanCompactNumbered number lines)) =
      Section.topics context
        ((Section.ofLines keywords (cleaner.cleanNumbered number lines)).map Section.narrow) := by
  have hcompact : cleaner.cleanCompactNumbered number lines =
      Cleaner.dropBlankEnd
        (Cleaner.compactFrom false true (cleaner.cleanNumbered number lines)) := by
    rw [Cleaner.cleanCompactNumbered, Cleaner.cleanCompact, Cleaner.cleanNumbered,
      Cleaner.compactFrom_renumber, Cleaner.dropBlankEnd_renumber]
  obtain ⟨n, hn⟩ := Section.exists_extendLast_ofLines_dropBlankEnd keywords
    (Cleaner.compactFrom false true (cleaner.cleanNumbered number lines))
  have hlast : ∀ s : Section, formatBody s.header.kind (s.body ++ List.replicate n []) =
      formatBody s.header.kind s.body := fun s =>
    Markup.formatBody_append_replicate s.header.kind s.body n
  rw [hcompact, ← Section.topics_extendLast fun s _ => hlast s, hn, Section.ofLines,
    Section.split_compactFrom keywords .start]
  rfl

/-- With compaction, the topics of a comment have the same headers, summaries and symbols, and the
same bodies but where code is joined over a wide gap. -/
theorem compacted_ofComment :
    Section.Compacted (Section.ofLines keywords (cleaner.cleanNumbered number lines))
      (ofComment keywords context (cleaner.cleanNumbered number lines) code).1
      (ofComment keywords context (cleaner.cleanCompactNumbered number lines) code).1 := by
  rw [ofComment_eq, ofComment_eq]
  dsimp only
  rw [topics_cleanCompactNumbered]
  exact compacted_attach code (Section.compacted_topics context _)

theorem snd_ofComment_cleanCompactNumbered :
    (ofComment keywords context (cleaner.cleanCompactNumbered number lines) code).2 =
      (ofComment keywords context (cleaner.cleanNumbered number lines) code).2 := by
  rw [ofComment_eq, ofComment_eq]
  dsimp only
  rw [topics_cleanCompactNumbered, Section.snd_topics_map_narrow]

/-! ## Files -/

theorem Rewritten.refl (t : Topic) : t.Rewritten t := ⟨rfl, rfl⟩

/-- What does not look at the body is the same for both topics. -/
theorem Rewritten.apply_eq {α : Type} {t u : Topic} (h : t.Rewritten u) (f : Topic → α)
    (hf : ∀ t body, f { t with body } = f t) : f u = f t := by
  rw [h.same, hf]

/-- A topic before and after compaction, where its body may have changed on some lines only. -/
structure Reread (mayChange : Nat → Prop) (t u : Topic) : Prop extends t.Rewritten u where
  body : u.body = t.body ∨ mayChange t.line

variable {mayChange : Nat → Prop} {t u : Topic} {documentedOnly : Bool} {listed : Listed}
  {autos : List AutoTopic} {topics topics' : List Topic}

theorem Reread.refl (mayChange : Nat → Prop) (t : Topic) : Reread mayChange t t :=
  ⟨.refl t, .inl rfl⟩

theorem IgnoresBody.reread {change : Topic → Topic} (h : IgnoresBody change)
    (htu : Reread mayChange t u) : Reread mayChange (change t) (change u) where
  toRewritten := h.rewritten htu.toRewritten
  body := by
    rw [h.body_eq, h.body_eq, h.line]
    exact htu.body

theorem forall₂_reread_refl (topics : List Topic) :
    List.Forall₂ (Reread mayChange) topics topics :=
  List.forall₂_same.mpr fun t _ => .refl mayChange t

/-- Merging looks at no body but for the symbols that a list defines. -/
theorem forall₂_mergeFrom (h : List.Forall₂ (Reread mayChange) topics topics') :
    List.Forall₂ (Reread mayChange) (mergeFrom documentedOnly listed autos topics)
      (mergeFrom documentedOnly listed autos topics') := by
  induction h generalizing listed autos with
  | nil => exact forall₂_reread_refl _
  | @cons t u topics topics' htu hrest ih =>
      have hline : u.line = t.line := htu.apply_eq Topic.line fun _ _ => rfl
      have hdocuments : ∀ a, u.documents a = t.documents a := fun a =>
        htu.apply_eq (·.documents a) fun _ _ => rfl
      rw [mergeFrom, mergeFrom, hline]
      refine List.rel_append (forall₂_reread_refl _) ?_
      cases (place documentedOnly (some t.line) listed autos).rest with
      | nil => exact .cons htu hrest
      | cons a rest =>
          simp only [hdocuments, htu.listedNames]
          split_ifs
          · exact .cons ((ignoresBody_withAuto a).reread htu) ih
          · exact .cons htu ih

/-- Delineators are put where they were. -/
theorem forall₂_delineateFrom {current : Option Text} {opened : List Text}
    (h : List.Forall₂ (Reread mayChange) topics topics') :
    List.Forall₂ (Reread mayChange) (delineateFrom current opened topics)
      (delineateFrom current opened topics') := by
  induction h generalizing current opened with
  | nil => exact .nil
  | @cons t u topics topics' htu hrest ih =>
      have hscope : u.scopeRule = t.scopeRule := htu.apply_eq Topic.scopeRule fun _ _ => rfl
      have htitle : u.title = t.title := htu.apply_eq Topic.title fun _ _ => rfl
      have hpackage : u.package = t.package := htu.apply_eq Topic.package fun _ _ => rfl
      have hline : u.line = t.line := htu.apply_eq Topic.line fun _ _ => rfl
      rw [delineateFrom, delineateFrom, hscope, htitle, hpackage, hline]
      cases t.scopeRule with
      | opens => exact .cons htu ih
      | closes => exact .cons htu ih
      | global => exact .cons htu ih
      | member =>
          dsimp only
          split_ifs
          · exact .cons htu ih
          · exact .cons (.refl _ _) (.cons htu ih)

theorem forall₂_merge (h : List.Forall₂ (Reread mayChange) topics topics') :
    List.Forall₂ (Reread mayChange) (merge documentedOnly topics autos)
      (merge documentedOnly topics' autos) :=
  forall₂_delineateFrom (forall₂_mergeFrom h)

end Topic

theorem pageTitle_congr {mayChange : Nat → Prop} {topics topics' : List Topic}
    (h : List.Forall₂ (Topic.Reread mayChange) topics topics') (file : Text) :
    pageTitle topics' file = pageTitle topics file := by
  cases h with
  | nil => rfl
  | @cons t u topics topics' htu hrest =>
      have hkind : u.kind = t.kind := htu.apply_eq Topic.kind fun _ _ => rfl
      have htitle : u.title = t.title := htu.apply_eq Topic.title fun _ _ => rfl
      cases hrest with
      | nil => exact htitle
      | cons => simp only [pageTitle, hkind, htitle]

namespace Comment

/-- In a comment, a section on a line has a wide gap in its code. -/
def HasWideGapAt (settings : Settings) (keywords : KeywordTable) (c : Comment) (line : Nat) :
    Prop :=
  ∃ s ∈ Section.ofLines keywords
      (c.cleanedLines { settings with preserveLineNumbers := true }),
    s.line = line ∧ HasWideGap s.body

variable {settings : Settings} {keywords : KeywordTable}

theorem forall₂_of_compacted {sections : List Section} {whole compact : List Topic}
    (h : Section.Compacted sections whole compact) {mayChange : Nat → Prop}
    (hgap : ∀ s ∈ sections, HasWideGap s.body → mayChange s.line) :
    List.Forall₂ (Topic.Reread mayChange) whole compact := by
  induction h with
  | nil => exact .nil
  | @cons s t u sections whole compact hline htu hbody hrest ih =>
      obtain ⟨hs, hsections⟩ := List.forall_mem_cons.mp hgap
      refine .cons ⟨htu, ?_⟩ (ih hsections)
      by_cases hwide : HasWideGap s.body
      · exact .inr (hline ▸ hs hwide)
      · exact .inl (hbody.mpr hwide)

/-- The topics of some comments, with all lines and with compaction. -/
theorem forall₂_topicsOfAll (context : Context) {comments : List Comment} {mayChange : Nat → Prop}
    (hgap : ∀ c ∈ comments, ∀ line, c.HasWideGapAt settings keywords line → mayChange line) :
    List.Forall₂ (Topic.Reread mayChange)
      (topicsOfAll { settings with preserveLineNumbers := true } keywords context comments)
      (topicsOfAll { settings with preserveLineNumbers := false } keywords context comments) := by
  induction comments generalizing context with
  | nil => exact .nil
  | cons c comments ih =>
      obtain ⟨hc, hcomments⟩ := List.forall_mem_cons.mp hgap
      have hafter : (c.topics { settings with preserveLineNumbers := false } keywords context).2 =
          (c.topics { settings with preserveLineNumbers := true } keywords context).2 :=
        Topic.snd_ofComment_cleanCompactNumbered keywords context (c.cleaner settings)
          c.span.lineAt c.lines c.prototype
      have hcompacted := Topic.compacted_ofComment keywords context (c.cleaner settings)
        c.span.lineAt c.lines c.prototype
      rw [topicsOfAll, topicsOfAll]
      dsimp only
      rw [hafter]
      refine List.rel_append (forall₂_of_compacted hcompacted fun s hs hwide => ?_) (ih _ hcomments)
      exact hc s.line ⟨s, hs, rfl, hwide⟩

end Comment

namespace SourceFile

/-- In a file, a section on a line has a wide gap in its code. -/
def HasWideGapAt (settings : Settings) (keywords : KeywordTable) (f : SourceFile) (line : Nat) :
    Prop :=
  ∃ c ∈ Comment.ofSource f.language keywords f.text, c.HasWideGapAt settings keywords line

/-- Whether the lines of comments are all kept has no influence on a file, but for the bodies of
topics that have a wide gap in their code. -/
theorem forall₂_parse (settings : Settings) (keywords : KeywordTable) (f : SourceFile) :
    let whole := f.parse { settings with preserveLineNumbers := true } keywords
    let compact := f.parse { settings with preserveLineNumbers := false } keywords
    compact.file = whole.file ∧ compact.title = whole.title ∧
      List.Forall₂ (Topic.Reread (f.HasWideGapAt settings keywords)) whole.topics
        compact.topics := by
  intro whole compact
  have htopics : List.Forall₂ (Topic.Reread (f.HasWideGapAt settings keywords)) whole.topics
      compact.topics :=
    Topic.forall₂_merge (Comment.forall₂_topicsOfAll {} fun c hc line hline => ⟨c, hc, hline⟩)
  exact ⟨rfl, pageTitle_congr htopics _, htopics⟩

end SourceFile

/-- Compaction and line numbers have no influence on what topics there are and on anything that they
hold, but for bodies. The body of a topic is the same as well, if and only if its section has no
wide gap between lines of code: there all lines give two blocks of code, and those that compaction
leaves give one. So a file has the same title and the same topics, and only a body on the line of a
section with such a gap may be another one. -/
theorem compaction_changes_wide_gaps_only :
    (∀ (keywords : KeywordTable) (context : Context) (cleaner : Cleaner) (number : Nat → Nat)
      (lines : List Text) (code : Option Text),
      let all := cleaner.cleanNumbered number lines
      let whole := Topic.ofComment keywords context all code
      let compact :=
        Topic.ofComment keywords context (cleaner.cleanCompactNumbered number lines) code
      Section.Compacted (Section.ofLines keywords all) whole.1 compact.1 ∧ compact.2 = whole.2) ∧
    ∀ (settings : Settings) (keywords : KeywordTable) (f : SourceFile),
      let whole := f.parse { settings with preserveLineNumbers := true } keywords
      let compact := f.parse { settings with preserveLineNumbers := false } keywords
      compact.file = whole.file ∧ compact.title = whole.title ∧
        List.Forall₂ (Topic.Reread (f.HasWideGapAt settings keywords)) whole.topics
          compact.topics := by
  refine ⟨?_, SourceFile.forall₂_parse⟩
  intro keywords context cleaner number lines code all whole compact
  exact ⟨Topic.compacted_ofComment keywords context cleaner number lines code,
    Topic.snd_ofComment_cleanCompactNumbered keywords context cleaner number lines code⟩

/-- Two lines of code are two blocks over two blank lines, and one block over the one that is
left of these. -/
theorem compaction_joins_code :
    let keywords := KeywordTable.empty.insert "note".toList (.single .genericType)
    let cleaner : Cleaner := { tabWidth := 4, tabWidth_pos := by decide }
    let lines := ["Note: a".toList, [], "> x".toList, [], [], "> y".toList]
    let bodies (lines : List (Nat × Text)) : List (Option Text) :=
      (Topic.ofComment keywords {} lines none).1.map (·.body)
    bodies (cleaner.cleanCompactNumbered id lines) ≠ bodies (cleaner.cleanNumbered id lines) ∧
      bodies (cleaner.cleanNumbered id lines) =
        [some "<code type=\"anonymous\">x</code><code type=\"anonymous\">y</code>".toList] ∧
      bodies (cleaner.cleanCompactNumbered id lines) =
        [some "<code type=\"anonymous\">x\n\ny</code>".toList] := by
  decide +kernel

end Commentary
