import Commentary.Proofs.Markup.Address
import Commentary.Proofs.Markup.Sentence

/-!
# The summary of a body

A body that starts with a paragraph has a summary: the first sentence of the paragraph's markup,
which is the part before the leftmost place where a sentence can end, and that end. One heading may
stand before the paragraph. It is passed over if it is written as it stands, but a heading with a
span or a link in it hides the paragraph.
-/

namespace Commentary.Markup

variable {m s t e : Text} {c : Char} {kind : TopicKind} {line : Text}

/-! ## The leftmost end of a sentence -/

/-- What may stand behind the mark at the end of a sentence, as it is written. -/
def closers : List Text :=
  [[')'], ['\x7d'], ['\''], [' '], "&quot;".toList, "&gt;".toList]

/-- A text starts with the end of a sentence. -/
structure StartsWithEnd (t e : Text) : Prop where
  isEnd : ∃ c closer, IsStop c ∧ closer ∈ closers ∧ e = c :: closer
  isPrefix : e <+: t

/-- The first sentence of a text: the text up to the leftmost end of a sentence, or all of it. -/
inductive FirstSentence (m : Text) : Text → Prop where
  | ends {n : Nat} {e : Text} (h : StartsWithEnd (m.drop n) e)
      (first : ∀ k < n, ∀ e', ¬ StartsWithEnd (m.drop k) e') : FirstSentence m (m.take n ++ e)
  | whole (h : ∀ n e, ¬ StartsWithEnd (m.drop n) e) : FirstSentence m m

theorem StartsWithEnd.exists_eq_cons (h : StartsWithEnd t e) : ∃ c r, e = c :: r ∧ IsStop c := by
  obtain ⟨c, closer, hc, -, rfl⟩ := h.isEnd
  exact ⟨c, closer, rfl, hc⟩

theorem not_startsWithEnd_nil (e : Text) : ¬ StartsWithEnd [] e := by
  intro h
  obtain ⟨c, r, rfl, -⟩ := h.exists_eq_cons
  simpa using h.isPrefix

theorem sentenceEnd?_eq_some_iff : sentenceEnd? t = some e ↔ StartsWithEnd t e := by
  constructor
  · intro h
    rcases t with _ | ⟨c, t⟩
    · cases h
    obtain ⟨hc, h⟩ := Option.ite_none_right_eq_some.mp h
    suffices hcloser : ∃ closer ∈ closers, closer <+: t ∧ e = c :: closer by
      obtain ⟨closer, hmem, hprefix, rfl⟩ := hcloser
      exact ⟨⟨c, closer, hc, hmem, rfl⟩, (List.prefix_cons_inj c).mpr hprefix⟩
    have hentity : ∀ {entity : Text}, entity ∈ closers →
        (Text.afterStart? entity t).isSome → some (c :: entity) = some e →
        ∃ closer ∈ closers, closer <+: t ∧ e = c :: closer := by
      intro entity hmem hstart he
      obtain ⟨rest, hrest⟩ := Option.isSome_iff_exists.mp hstart
      exact ⟨entity, hmem, ⟨rest, (Text.eq_append_of_afterStart? hrest).symm⟩,
        (Option.some.inj he).symm⟩
    rcases t with _ | ⟨d, t⟩
    · cases h
    dsimp only at h
    split_ifs at h with hd hquot hgt
    · cases h
      refine ⟨[d], ?_, by simp, rfl⟩
      rcases hd with rfl | rfl | rfl | rfl <;> decide
    · exact hentity (by decide) hquot h
    · exact hentity (by decide) hgt h
  · rintro ⟨⟨c, closer, hc, hcloser, rfl⟩, rest, rfl⟩
    simp only [closers, List.mem_cons, List.not_mem_nil, or_false] at hcloser
    rcases hcloser with rfl | rfl | rfl | rfl | rfl | rfl <;>
      exact (sentenceEnd?_of_isStop hc _ _).trans rfl

theorem firstSentence_nil_iff : FirstSentence [] s ↔ s = [] := by
  have hnone : ∀ n e, ¬ StartsWithEnd (([] : Text).drop n) e := fun n e => by
    rw [List.drop_nil]
    exact not_startsWithEnd_nil e
  constructor
  · intro h
    cases h with
    | ends h _ => exact absurd h (hnone _ _)
    | whole _ => rfl
  · rintro rfl
    exact .whole hnone

/-- A sentence ends at the first character, or it goes on behind it. -/
theorem firstSentence_cons_iff :
    FirstSentence (c :: m) s ↔
      StartsWithEnd (c :: m) s ∨
        (∀ e, ¬ StartsWithEnd (c :: m) e) ∧ ∃ s', s = c :: s' ∧ FirstSentence m s' := by
  constructor
  · intro h
    cases h with
    | @ends n e h first =>
        cases n with
        | zero => exact .inl h
        | succ n =>
            refine .inr ⟨first 0 n.succ_pos, m.take n ++ e, rfl, .ends h fun k hk => ?_⟩
            exact first (k + 1) (Nat.succ_lt_succ hk)
    | whole h => exact .inr ⟨h 0, m, rfl, .whole fun n => h (n + 1)⟩
  · rintro (h | ⟨hnone, s', rfl, h⟩)
    · exact FirstSentence.ends (n := 0) h nofun
    · cases h with
      | @ends n e h first =>
          refine FirstSentence.ends (n := n + 1) h fun k hk => ?_
          cases k with
          | zero => exact hnone
          | succ k => exact first k (Nat.lt_of_succ_lt_succ hk)
      | whole h =>
          refine .whole fun n => ?_
          cases n with
          | zero => exact hnone
          | succ n => exact h n

/-- On one line, the search for the first sentence finds it. -/
theorem firstSentence?_eq_some_iff (hm : Text.lineFeed ∉ m) :
    firstSentence? m = some s ↔ FirstSentence m s := by
  induction m generalizing s with
  | nil => rw [firstSentence_nil_iff, firstSentence?, Option.some.injEq, eq_comm]
  | cons c m ih =>
      obtain ⟨hc, hm⟩ := not_or.mp (mt List.mem_cons.mpr hm)
      rw [firstSentence_cons_iff, firstSentence?]
      simp only [← sentenceEnd?_eq_some_iff]
      cases hend : sentenceEnd? (c :: m) with
      | some e => simp
      | none => simp [Ne.symm hc, ← ih hm, and_comm, eq_comm (a := s)]

theorem exists_firstSentence? (hm : Text.lineFeed ∉ m) : ∃ s, firstSentence? m = some s := by
  induction m with
  | nil => exact ⟨[], rfl⟩
  | cons c m ih =>
      obtain ⟨hc, hm⟩ := not_or.mp (mt List.mem_cons.mpr hm)
      obtain ⟨s, hs⟩ := ih hm
      cases hend : sentenceEnd? (c :: m) with
      | some e => exact ⟨e, by simp [firstSentence?, hend]⟩
      | none => exact ⟨c :: s, by simp [firstSentence?, hend, Ne.symm hc, hs]⟩

/-- A sentence that ends shows the mark at its end. -/
theorem FirstSentence.not_isAllBlank (h : FirstSentence m s) (hm : ¬ Text.isAllBlank m) :
    ¬ Text.isAllBlank s := by
  cases h with
  | ends h _ =>
      obtain ⟨c, r, rfl, hc⟩ := h.exists_eq_cons
      have hblank : ¬ Text.isBlank c := by rcases hc with rfl | rfl | rfl <;> decide
      simp [hblank]
  | whole _ => exact hm

theorem summaryOf_of_not_isAllBlank (h : ¬ Text.isAllBlank s) :
    summaryOf s = some (Text.trimBlankEnd s) := by
  refine if_neg fun hnil => h ?_
  rw [Text.trimBlankEnd, Text.trimEnd_eq_rdropWhile, List.rdropWhile_eq_nil_iff] at hnil
  exact List.all_eq_true.mpr hnil

/-! ## Markup without tags -/

/-- What is written for reserved characters. -/
def entities : List Text := ["&amp;".toList, "&lt;".toList, "&gt;".toList, "&quot;".toList]

theorem escapeChar_eq_or_mem_entities (c : Char) :
    escapeChar c = [c] ∨ escapeChar c ∈ entities := by
  rw [escapeChar]
  split_ifs <;> simp [entities]

theorem not_isAllBlank_escape (h : ¬ Text.isAllBlank t) : ¬ Text.isAllBlank (escape t) := by
  rw [List.all_eq_true] at h ⊢
  refine fun hescape => h fun c hc => ?_
  have hall : ∀ d ∈ escapeChar c, Text.isBlank d := fun d hd =>
    hescape d (List.mem_flatMap.mpr ⟨c, hc, hd⟩)
  rcases escapeChar_eq_or_mem_entities c with he | he
  · exact hall c (he ▸ List.mem_singleton_self c)
  · have hentities : ∀ e ∈ entities, ¬ Text.isAllBlank e := by decide
    exact absurd (List.all_eq_true.mpr hall) (hentities _ he)

theorem less_mem_render {i : Inline} (h : ∀ s, i ≠ .text s) : '<' ∈ i.render := by
  cases i with
  | text s => exact absurd rfl (h s)
  | link target =>
      rw [Inline.render, ← Target.render_tag]
      exact List.mem_cons_self
  | _ => exact List.mem_cons_self

theorem ofStar_of_text {spans : Inline.Spans} {before : Option Piece} {rest : List Piece}
    (h : ∃ s, (Inline.ofStar spans before rest).1 = .text s) :
    Inline.ofStar spans before rest = (.text ['*'], spans) := by
  rw [Inline.ofStar] at h ⊢
  split_ifs at h ⊢ <;> simp_all

/-- Only in an underlined span may an underscore stand for a space. -/
theorem ofUnderscore_of_text {spans : Inline.Spans} {before : Option Piece} {rest : List Piece}
    (hspans : spans.underline = none)
    (h : ∃ s, (Inline.ofUnderscore spans before rest).1 = .text s) :
    Inline.ofUnderscore spans before rest = (.text ['_'], spans) := by
  rw [Inline.ofUnderscore] at h ⊢
  split at h
  · simp at h
  · simp [hspans]

/-- Elements without tags are written as they stand. -/
theorem flatMap_render_ofPiecesFrom {spans : Inline.Spans} {before : Option Piece} {skip : Nat}
    {pieces : List Piece} (hspans : spans.underline = none)
    (h : ∀ i ∈ Inline.ofPiecesFrom spans before skip pieces, ∃ s, i = .text s) :
    (Inline.ofPiecesFrom spans before skip pieces).flatMap Inline.render =
      escape ((pieces.drop skip).flatMap Piece.written) := by
  induction pieces generalizing spans before skip with
  | nil => simp [Inline.ofPiecesFrom, escape]
  | cons p rest ih =>
      cases skip with
      | succ skip => exact ih hspans h
      | zero =>
          have hone : ∀ i, i = .text p.written →
              (∀ j ∈ i :: Inline.ofPiecesFrom spans (some p) 0 rest, ∃ s, j = .text s) →
              (i :: Inline.ofPiecesFrom spans (some p) 0 rest).flatMap Inline.render =
                escape ((p :: rest).flatMap Piece.written) := by
            rintro i rfl hall
            rw [List.flatMap_cons, ih hspans (List.forall_mem_cons.mp hall).2, Inline.render]
            simp [escape]
          -- All other elements are written with a tag.
          have hlink : ∀ target more, (∀ j ∈ .link target :: more, ∃ s, j = Inline.text s) →
              False := fun target more hall => by simpa using hall _ List.mem_cons_self
          cases p with
          | text t => exact hone _ rfl h
          | email w address => exact (hlink _ _ h).elim
          | url address => exact (hlink _ _ h).elim
          | mark m =>
              cases m with
              | greater => exact hone _ rfl h
              | star =>
                  have hstar := ofStar_of_text (h _ List.mem_cons_self)
                  rw [Inline.ofPiecesFrom, hstar] at h ⊢
                  exact hone _ rfl h
              | underscore =>
                  have hunderscore := ofUnderscore_of_text hspans (h _ List.mem_cons_self)
                  rw [Inline.ofPiecesFrom, hunderscore] at h ⊢
                  exact hone _ rfl h
              | less =>
                  rw [Inline.ofPiecesFrom] at h ⊢
                  split at h
                  · exact (hlink _ _ h).elim
                  · exact hone _ rfl h

theorem format_eq_escape_iff : Inline.format t = escape t ↔ '<' ∉ Inline.format t := by
  constructor
  · intro h
    rw [h]
    exact less_not_mem_escape t
  · intro h
    have hall : ∀ i ∈ Inline.ofText t, ∃ s, i = .text s := by
      intro i hi
      by_contra hne
      have hless := less_mem_render fun s hs => hne ⟨s, hs⟩
      exact h (List.mem_flatMap.mpr ⟨i, hi, hless⟩)
    have hrender := flatMap_render_ofPiecesFrom rfl hall
    rwa [List.drop_zero, Piece.flatMap_written_ofText] at hrender

theorem not_isAllBlank_format (h : ¬ Text.isAllBlank t) : ¬ Text.isAllBlank (Inline.format t) := by
  by_cases hless : '<' ∈ Inline.format t
  · intro hall
    exact absurd (List.all_eq_true.mp hall '<' hless) (by decide)
  · rw [format_eq_escape_iff.mpr hless]
    exact not_isAllBlank_escape h

/-! ## Line feeds -/

theorem lineFeed_not_mem_escape (h : Text.lineFeed ∉ t) : Text.lineFeed ∉ escape t := by
  intro hmem
  obtain ⟨c, hc, hmem⟩ := List.mem_flatMap.mp hmem
  rcases escapeChar_eq_or_mem_entities c with he | he
  · rw [he, List.mem_singleton] at hmem
    exact h (hmem ▸ hc)
  · have hentities : ∀ e ∈ entities, Text.lineFeed ∉ e := by decide
    exact hentities _ he hmem

/-- Names of tags and attributes hold no line feeds, so those of a tag are in the values of its
attributes. -/
theorem lineFeed_not_mem_tag {tag : Tag} (h : ∀ a ∈ tag.attributes, Text.lineFeed ∉ a.2) :
    Text.lineFeed ∉ tag.render := by
  have hname : Text.lineFeed ∉ tag.name.text := by cases tag.name <;> decide
  have hkey : ∀ key : AttributeName, Text.lineFeed ∉ key.text := by
    intro key
    cases key <;> decide
  have hattribute : ∀ a ∈ tag.attributes, Text.lineFeed ∉ renderAttribute a := by
    intro a ha
    have hvalue := lineFeed_not_mem_escape (h a ha)
    simp [renderAttribute, hkey, hvalue, Text.lineFeed]
  have hattributes : Text.lineFeed ∉ tag.attributes.flatMap renderAttribute := by
    simpa using hattribute
  have hslash : Text.lineFeed ∉ if tag.closing then ['/'] else [] := by
    cases tag.closing <;> decide
  rw [Tag.render]
  simp only [List.mem_cons, List.mem_append, List.not_mem_nil, hslash, hname, hattributes]
  decide

theorem lineFeed_not_mem_render {i : Inline} (hi : i.DrawnFrom t) (h : Text.lineFeed ∉ t) :
    Text.lineFeed ∉ i.render := by
  have hpart : ∀ {s : Text}, s ⊆ t → Text.lineFeed ∉ s := fun hs hmem => h (hs hmem)
  cases i with
  | text s =>
      refine lineFeed_not_mem_escape fun hs => ?_
      rcases List.mem_cons.mp (hi hs) with hspace | ht
      · exact absurd hspace (by decide)
      · exact h ht
  | opens s => cases s <;> decide
  | closes s => cases s <;> decide
  | link target =>
      rw [Inline.render, ← Target.render_tag]
      apply lineFeed_not_mem_tag
      cases target with
      | email address name => simp [Target.tag, hpart hi.1, hpart hi.2.1]
      | url address name => simp [Target.tag, hpart hi.1, hpart hi.2.1]
      | symbol name => simp [Target.tag, hpart hi, Text.lineFeed]

theorem lineFeed_not_mem_format (h : Text.lineFeed ∉ t) : Text.lineFeed ∉ Inline.format t := by
  intro hmem
  obtain ⟨i, hi, hmem⟩ := List.mem_flatMap.mp hmem
  exact lineFeed_not_mem_render (Inline.drawnFrom_of_mem_ofText hi) h hmem

/-! ## Paragraphs of lines -/

/-- A paragraph without line feeds. -/
def Block.IsUnbroken : Block → Prop
  | paragraph t => Text.lineFeed ∉ t
  | _ => True

namespace OpenBlock

/-- The block that is open is unbroken. -/
def IsUnbroken (o : OpenBlock) : Prop := ∀ b ∈ o.close, b.IsUnbroken

variable {o : OpenBlock}

theorem IsUnbroken.append_singleton (h : o.IsUnbroken) {b : Block} (hb : b.IsUnbroken) :
    ∀ b' ∈ o.close ++ [b], b'.IsUnbroken :=
  List.forall_mem_append.mpr ⟨h, List.forall_mem_singleton.mpr hb⟩

/-- A line goes on with a paragraph behind a space. -/
theorem IsUnbroken.addText (h : o.IsUnbroken) (hline : Text.lineFeed ∉ line) :
    (o.addText line).IsUnbroken := by
  cases o <;> simp_all [IsUnbroken, OpenBlock.addText, close, Block.IsUnbroken, Text.lineFeed]

theorem IsUnbroken.addBullet (h : o.IsUnbroken) (item : Text) :
    ∀ b ∈ (o.addBullet item).1 ++ (o.addBullet item).2.close, b.IsUnbroken := by
  cases o with
  | bullets done last => simp [OpenBlock.addBullet, close, Block.IsUnbroken]
  | _ => exact h.append_singleton trivial

theorem IsUnbroken.addEntry (h : o.IsUnbroken) (entry : Entry) :
    ∀ b ∈ (o.addEntry entry).1 ++ (o.addEntry entry).2.close, b.IsUnbroken := by
  cases o with
  | entries done last => simp [OpenBlock.addEntry, close, Block.IsUnbroken]
  | _ => exact h.append_singleton trivial

end OpenBlock

namespace Reader

variable {r : Reader}

theorem isUnbroken_stepText (h : r.current.IsUnbroken) (hline : Text.lineFeed ∉ line) :
    ∀ b ∈ given (r.stepText kind line), b.IsUnbroken := by
  rw [stepText.eq_def]
  split
  · -- A blank line ends a paragraph as it is.
    cases hc : r.current <;> simp_all [given, OpenBlock.IsUnbroken, OpenBlock.close]
  · split
    · exact h.addBullet _
    · split
      · exact h.addEntry _
      · split
        · simp only [given, OpenBlock.close, List.append_nil]
          exact h.append_singleton trivial
        · split
          · exact h.append_singleton trivial
          · split
            · exact h.append_singleton hline
            · exact h.addText hline

theorem isUnbroken_stepMarked (h : r.current.IsUnbroken) (hline : Text.lineFeed ∉ line) :
    ∀ b ∈ given (r.stepMarked kind line), b.IsUnbroken := by
  have htrim : Text.lineFeed ∉ Text.trimStart Text.isSpace line := fun hmem =>
    hline ((List.dropWhile_suffix _).subset hmem)
  rw [stepMarked.eq_def]
  split
  · simp [given, OpenBlock.close, Block.IsUnbroken]
  · exact h.append_singleton trivial
  · dsimp only
    split
    · simp [given, OpenBlock.close, Block.IsUnbroken]
    · refine List.forall_mem_cons.mpr ⟨trivial, isUnbroken_stepText ?_ htrim⟩
      simp [OpenBlock.IsUnbroken, OpenBlock.close]
  · exact isUnbroken_stepText h htrim

theorem isUnbroken_step (h : r.current.IsUnbroken) (hline : Text.lineFeed ∉ line) :
    ∀ b ∈ given (r.step kind line), b.IsUnbroken := by
  rw [step.eq_def]
  split
  · split <;> simp [given, OpenBlock.close, Block.IsUnbroken]
  · exact isUnbroken_stepMarked h hline

theorem isUnbroken_blocks {lines : List Text} (h : r.current.IsUnbroken)
    (hlines : ∀ line ∈ lines, Text.lineFeed ∉ line) :
    ∀ b ∈ r.blocks kind lines, b.IsUnbroken := by
  induction lines generalizing r with
  | nil => exact h
  | cons line lines ih =>
      obtain ⟨hline, hlines⟩ := List.forall_mem_cons.mp hlines
      have hstep : ∀ b ∈ given (r.step kind line), b.IsUnbroken := isUnbroken_step h hline
      obtain ⟨hdone, hopen⟩ := List.forall_mem_append.mp hstep
      exact List.forall_mem_append.mpr ⟨hdone, ih hopen hlines⟩

end Reader

theorem lineFeed_not_mem_paragraph {lines : List Text}
    (hlines : ∀ line ∈ lines, Text.lineFeed ∉ line)
    (h : .paragraph t ∈ Block.ofLines kind lines) : Text.lineFeed ∉ t := by
  have hnone : ({} : Reader).current.IsUnbroken := by simp [OpenBlock.IsUnbroken, OpenBlock.close]
  exact Reader.isUnbroken_blocks hnone hlines _ h

/-! ## The summary -/

theorem exists_excerpt?_eq (ht : Text.lineFeed ∉ t) (hblank : ¬ Text.isAllBlank t) :
    ∃ s, FirstSentence (Inline.format t) s ∧ excerpt? t = some (Text.trimBlankEnd s) := by
  have hline := lineFeed_not_mem_format ht
  obtain ⟨s, hs⟩ := exists_firstSentence? hline
  have hsentence := (firstSentence?_eq_some_iff hline).mp hs
  refine ⟨s, hsentence, ?_⟩
  rw [excerpt?, hs]
  exact summaryOf_of_not_isAllBlank (hsentence.not_isAllBlank (not_isAllBlank_format hblank))

/-- The summary of a body that starts with a paragraph is the first sentence of its markup, without
white space at its end. A heading before it has to be written as it stands, or there is no
summary. -/
theorem summary?_of_leading_paragraph {lines : List Text} {heading : Option Text}
    {rest : List Block} (hlines : ∀ line ∈ lines, Text.lineFeed ∉ line)
    (hblocks : Block.ofLines kind lines =
      (heading.map Block.heading).toList ++ .paragraph t :: rest)
    (hblank : ¬ Text.isAllBlank t) :
    ((∀ h ∈ heading, Inline.format h = escape h) →
      ∃ s, FirstSentence (Inline.format t) s ∧
        summary? (formatBody kind lines) = some (Text.trimBlankEnd s)) ∧
    ((∃ h ∈ heading, Inline.format h ≠ escape h) → summary? (formatBody kind lines) = none) := by
  have hparagraph : .paragraph t ∈ Block.ofLines kind lines := by simp [hblocks]
  have hline := lineFeed_not_mem_paragraph hlines hparagraph
  have hexcerpt := exists_excerpt?_eq hline hblank
  rw [formatBody, summary?_flatMap_render, hblocks]
  cases heading with
  | none => exact ⟨fun _ => hexcerpt, by simp⟩
  | some h =>
      have hleading : leading? (.heading h :: .paragraph t :: rest) =
          if '<' ∈ Inline.format h then none else some t := rfl
      simp only [Option.map_some, Option.toList_some, List.singleton_append, hleading,
        Option.mem_some_iff, forall_eq', exists_eq_left', ne_eq, format_eq_escape_iff]
      by_cases hless : '<' ∈ Inline.format h
      · simp [hless]
      · rw [if_neg hless]
        exact ⟨fun _ => hexcerpt, fun hnot => absurd hless hnot⟩

/-- A plain heading, and a paragraph of two sentences. -/
theorem summary?_of_headed_paragraph :
    let lines := ["Note:".toList, "Text. More.".toList]
    let kind : TopicKind := .single .functionType
    let heading : Option Text := some "Note".toList
    let t := "Text. More.".toList
    ((∀ line ∈ lines, Text.lineFeed ∉ line) ∧
      Block.ofLines kind lines = (heading.map Block.heading).toList ++ [.paragraph t] ∧
      ¬ Text.isAllBlank t ∧ ∀ h ∈ heading, Inline.format h = escape h) ∧
    ((∀ h ∈ heading, Inline.format h = escape h) →
      ∃ s, FirstSentence (Inline.format t) s ∧
        summary? (formatBody kind lines) = some (Text.trimBlankEnd s)) ∧
    ((∃ h ∈ heading, Inline.format h ≠ escape h) → summary? (formatBody kind lines) = none) := by
  intro lines kind heading t
  have hlines : ∀ line ∈ lines, Text.lineFeed ∉ line := by decide
  have hblocks : Block.ofLines kind lines =
      (heading.map Block.heading).toList ++ .paragraph t :: [] := by decide
  have hblank : ¬ Text.isAllBlank t := by decide
  have hplain : ∀ h ∈ heading, Inline.format h = escape h := by
    simp only [heading, Option.mem_some_iff, forall_eq']
    decide
  exact ⟨⟨hlines, hblocks, hblank, hplain⟩, summary?_of_leading_paragraph hlines hblocks hblank⟩

/-- The same paragraph behind a heading in bold type: it has a first sentence, and the body has no
summary. -/
theorem summary?_of_bold_heading :
    let lines := ["*Note*:".toList, "Text. More.".toList]
    let kind : TopicKind := .single .functionType
    let t := "Text. More.".toList
    (∀ line ∈ lines, Text.lineFeed ∉ line) ∧
      Block.ofLines kind lines = [.heading "*Note*".toList, .paragraph t] ∧
      ¬ Text.isAllBlank t ∧ FirstSentence (Inline.format t) "Text. ".toList ∧
      summary? (formatBody kind lines) = none := by
  intro lines kind t
  have hblocks : Block.ofLines kind lines =
      [.heading "*Note*".toList, .paragraph t] := by decide
  have hline : Text.lineFeed ∉ Inline.format t := by decide
  refine ⟨by decide, hblocks, by decide, (firstSentence?_eq_some_iff hline).mp (by decide), ?_⟩
  rw [formatBody, summary?_flatMap_render, hblocks]
  decide

end Commentary.Markup
