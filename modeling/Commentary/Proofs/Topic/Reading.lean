import Commentary.Proofs.Comment.Wording
import Commentary.Proofs.Topic.Verbatim

/-!
# Two readings of a comment

Headers are looked for twice: in the lines of a comment as they stand, to decide whether the code
behind it is a prototype, and in its cleaned lines, to cut it into topics. Both readings look at a
line and at the one before it, but only the second one knows of verbatim sections, of frames and of
rules. Here it is told from the lines as they stand where one of them finds a header and the other
one does not.
-/

namespace Commentary

open Text Verbatim

variable {keywords : KeywordTable} {cleaner : Cleaner} {lines cleaned : List Text} {line : Text}
  {header : Header} {n : Nat}

namespace Comment

/-- The line before a line, if there is one. -/
def lineBefore? (lines : List Text) : Nat → Option Text
  | 0 => none
  | n + 1 => lines[n]?

theorem filterMap_range_succ {α : Type} (f : Nat → Option α) (n : Nat) :
    (List.range (n + 1)).filterMap f =
      (f 0).toList ++ (List.range n).filterMap fun n => f (n + 1) := by
  rw [List.range_succ_eq_map, List.filterMap_cons, List.filterMap_map]
  cases f 0 <;> rfl

/-! ## Lines as they stand -/

/-- The header that a line is as it stands. The line before it may show a run of one symbol and no
more. -/
def scannedHeader? (keywords : KeywordTable) (lines : List Text) (n : Nat) : Option Header :=
  if ∀ before ∈ lineBefore? lines n, undecorated before = [] then
    lines[n]?.bind fun line => keywords.header? (undecorated line)
  else none

theorem scannedHeader?_eq_some_iff : scannedHeader? keywords lines n = some header ↔
    (∀ before ∈ lineBefore? lines n, undecorated before = []) ∧
      ∃ line, lines[n]? = some line ∧ keywords.header? (undecorated line) = some header := by
  rw [scannedHeader?, Option.ite_none_right_eq_some, Option.bind_eq_some_iff]

theorem scannedHeader?_cons_succ (keywords : KeywordTable) (line : Text) (lines : List Text)
    (n : Nat) : scannedHeader? keywords (line :: lines) (n + 1) =
      if n = 0 → undecorated line = [] then scannedHeader? keywords lines n else none := by
  cases n <;> simp [scannedHeader?, lineBefore?]

theorem headersFrom_cons (keywords : KeywordTable) (afterBlank : Bool) (line : Text)
    (lines : List Text) : headersFrom keywords afterBlank (line :: lines) =
      (if afterBlank then scannedHeader? keywords (line :: lines) 0 else none).toList ++
        headersFrom keywords (undecorated line = []) lines := by
  have hzero : scannedHeader? keywords (line :: lines) 0 = keywords.header? (undecorated line) := by
    simp [scannedHeader?, lineBefore?]
  rw [headersFrom, hzero]
  split_ifs with hblank hafter
  · rw [hblank]
    rfl
  · simp [hblank]
  · simp [hblank]
  · simp [hblank]

/-- The headers of a comment as it stands, line by line. -/
theorem headersFrom_eq_filterMap (keywords : KeywordTable) (afterBlank : Bool)
    (lines : List Text) : headersFrom keywords afterBlank lines =
      (List.range lines.length).filterMap fun n =>
        if n = 0 → afterBlank then scannedHeader? keywords lines n else none := by
  induction lines generalizing afterBlank with
  | nil => rfl
  | cons line lines ih =>
      rw [headersFrom_cons, ih, List.length_cons, filterMap_range_succ]
      simp only [scannedHeader?_cons_succ, decide_eq_true_eq, Nat.add_one_ne_zero, false_imp_iff,
        true_imp_iff, if_true]

theorem headersFrom_eq_filterMap_scannedHeader? (keywords : KeywordTable) (lines : List Text) :
    headersFrom keywords true lines =
      (List.range lines.length).filterMap (scannedHeader? keywords lines) := by
  rw [headersFrom_eq_filterMap]
  simp only [implies_true, if_true]

end Comment

open Comment

/-! ## Cleaned lines -/

namespace Section

theorem outlines_eq_filterMap (keywords : KeywordTable) (p : Place) (lines : List (Nat × Text)) :
    outlines keywords p lines = (List.range lines.length).filterMap fun n =>
      lines[n]?.bind fun line =>
        ((p.after keywords (lines.take n)).header? keywords line.2).map (·, line.1) := by
  induction lines generalizing p with
  | nil => rfl
  | cons line lines ih =>
      obtain ⟨number, t⟩ := line
      rw [List.length_cons, filterMap_range_succ]
      cases h : p.header? keywords t with
      | some header =>
          rw [outlines_cons_of_header h, ih]
          simp [Place.after, h]
      | none =>
          rw [outlines_cons_of_none h, ih]
          simp [Place.after, h]

end Section

theorem alphanumerics_of_isAllBlank (h : isAllBlank line) : line.alphanumerics = [] :=
  alphanumerics_eq_nil_iff.mpr fun c hc => isAlphanumeric_of_isBlank (List.all_eq_true.mp h c hc)

namespace Verbatim

theorem isStart_of_isAllBlank (h : isAllBlank line) : isStart line = false := by
  rw [← Bool.not_eq_true]
  intro hstart
  obtain ⟨t, ht, -⟩ := closed_of_isStart hstart
  have hmem : '(' ∈ line := (List.dropWhile_suffix _).subset (ht ▸ List.mem_cons_self)
  exact absurd (List.all_eq_true.mp h '(' hmem) (by decide)

theorem isEnd_of_alphanumerics (h : line.alphanumerics = []) : isEnd line = false := by
  rw [← Bool.not_eq_true]
  intro hend
  obtain ⟨c, hc, hletter⟩ := exists_isBasicLetter_of_isEnd hend
  have hmem : c ∈ line := (List.dropWhile_suffix _).subset hc
  have hnone := alphanumerics_eq_nil_iff.mp h c hmem
  rw [isAlphanumeric_of_isBasicLetter hletter] at hnone
  cases hnone

/-- A blank line neither opens nor closes a section. -/
theorem step_of_isAllBlank (h : isAllBlank line) (inSection : Bool) :
    step inSection line = inSection := by
  have hend := isEnd_of_alphanumerics (alphanumerics_of_isAllBlank h)
  cases inSection <;> simp [step, isStart_of_isAllBlank h, hend]

end Verbatim

namespace Section

theorem Place.next_eq_afterBlank_iff (p : Place) (line : Text) :
    p.next line = .afterBlank ↔ p ≠ .insideVerbatim ∧ isAllBlank line := by
  cases hblank : isAllBlank line with
  | true =>
      have hstart := isStart_of_isAllBlank hblank
      have hend := isEnd_of_alphanumerics (alphanumerics_of_isAllBlank hblank)
      cases p <;> simp [Place.next, hstart, hend, hblank]
  | false => cases p <;> simp only [Place.next] <;> split_ifs <;> simp_all

/-- A header may stand at the start and behind a blank line, unless it is in a section there. -/
theorem after_eq_afterBlank_iff (keywords : KeywordTable) {lines : List (Nat × Text)}
    (hn : n ≤ lines.length) : Place.afterBlank.after keywords (lines.take n) = .afterBlank ↔
      inside (lines.map Prod.snd) n = false ∧
        ∀ before ∈ lineBefore? (lines.map Prod.snd) n, isAllBlank before := by
  cases n with
  | zero => simp [Place.after, inside, Verbatim.after, lineBefore?]
  | succ n =>
      obtain ⟨⟨number, t⟩, hline⟩ : ∃ line, lines[n]? = some line :=
        ⟨lines[n], List.getElem?_eq_getElem hn⟩
      have hget : (lines.map Prod.snd)[n]? = some t := by rw [List.getElem?_map, hline]; rfl
      have hplace : Place.afterBlank.after keywords (lines.take (n + 1)) =
          let p := Place.afterBlank.after keywords (lines.take n)
          if (p.header? keywords t).isSome then .afterText else p.next t := by
        rw [Place.after, List.take_add_one, hline, List.foldl_append]
        rfl
      have hinside := after_eq_insideVerbatim_iff keywords lines n
      rw [hplace, inside_succ hget, lineBefore?, hget]
      generalize Place.afterBlank.after keywords (lines.take n) = p at hinside ⊢
      simp only [Option.mem_def, Option.some_inj, forall_eq']
      cases hblank : isAllBlank t with
      | true =>
          have hnone : p.header? keywords t = none := by
            rw [Option.eq_none_iff_forall_ne_some]
            intro header hheader
            have hline := (Place.header?_eq_some hheader).2.2
            rw [KeywordTable.header?_eq_none_of_alphanumerics (alphanumerics_of_isAllBlank hblank)]
              at hline
            cases hline
          have hnext := Place.next_eq_afterBlank_iff p t
          rw [hnone, step_of_isAllBlank hblank, ← Bool.not_eq_true, ← hinside]
          rwa [hblank] at hnext
      | false =>
          have hne : p.next t ≠ .afterBlank := fun h => by
            simp [((Place.next_eq_afterBlank_iff p t).mp h).2] at hblank
          refine iff_of_false (fun h => ?_) fun h => Bool.false_ne_true h.2
          split_ifs at h
          exact hne h

end Section

namespace Comment

/-- The header that a cleaned line is. The line before it may be white space. -/
def topicHeader? (keywords : KeywordTable) (cleaned : List Text) (n : Nat) : Option Header :=
  if inside cleaned n = false ∧ ∀ before ∈ lineBefore? cleaned n, isAllBlank before then
    cleaned[n]?.bind keywords.header?
  else none

theorem topicHeader?_eq_some_iff : topicHeader? keywords cleaned n = some header ↔
    (inside cleaned n = false ∧ ∀ before ∈ lineBefore? cleaned n, isAllBlank before) ∧
      ∃ t, cleaned[n]? = some t ∧ keywords.header? t = some header := by
  rw [topicHeader?, Option.ite_none_right_eq_some, Option.bind_eq_some_iff]

/-- The headers of the topics of a comment, line by line. -/
theorem outlines_numbered (keywords : KeywordTable) (cleaned : List Text) :
    Section.outlines keywords .afterBlank (Cleaner.numbered cleaned) =
      (List.range cleaned.length).filterMap fun n =>
        (topicHeader? keywords cleaned n).map (·, n) := by
  have hlength : (Cleaner.numbered cleaned).length = cleaned.length := by
    rw [← List.length_map (f := Prod.snd), Cleaner.map_snd_numbered]
  rw [Section.outlines_eq_filterMap, hlength]
  refine List.filterMap_congr fun n hn => ?_
  have hn := List.mem_range.mp hn
  have hplace := Section.after_eq_afterBlank_iff keywords (hn.le.trans hlength.ge)
  rw [Cleaner.map_snd_numbered] at hplace
  rw [Cleaner.getElem?_numbered, topicHeader?, List.getElem?_eq_getElem hn]
  simp only [Option.map_some, Option.bind_some, Section.Place.header?, ← hplace]
  cases hheader : keywords.header? cleaned[n] with
  | none => simp
  | some header =>
      simp only [Section.isStart_eq_false_of_header? hheader, Bool.not_false, and_true]

end Comment

namespace Frame

/-- A line is blank when it is cleaned: it is a rule, or without the frame it is one or nothing but
white space. -/
def empties (f : Frame) (line : Text) : Bool :=
  Rule.isIndentedRule line || Rule.isIndentedRule (f.strip line) || isAllBlank (f.strip line)

theorem isAllBlank_cleanLine (f : Frame) (line : Text) :
    isAllBlank (Cleaner.cleanLine f false line) = f.empties line := by
  rw [Cleaner.cleanLine, empties]
  cases hrule : Rule.isIndentedRule line with
  | true => rfl
  | false =>
      cases hdrawn : f.isDrawn with
      | true => cases hstripped : Rule.isIndentedRule (f.strip line) <;> simp [hstripped]
      | false => simp [strip_eq_self hdrawn, hrule]

end Frame

namespace Comment

/-! ## Where the readings differ -/

/-- What keeps a header of a comment as it stands from being the header of a topic. -/
inductive Stray (cleaner : Cleaner) (lines : List Text) (n : Nat) (header : Header) : Prop where
  /-- It stands in a verbatim section. -/
  | verbatim (h : inside (cleaner.clean lines) n)
  /-- More than the frame stands before it, such as the bullet of an item. -/
  | item {line : Text} (hline : line ∈ lines[n]?)
      (h : (cleaner.frame lines).covers line.margin = false)
  /-- Its title goes with the white space and the edge at the end of the line. -/
  | untitled (h : (cleaner.frame lines).swallows header.title)
  /-- The line before it is kept, such as a run of a symbol that is too short for a rule. -/
  | stub {before : Text} (hbefore : before ∈ lineBefore? lines n)
      (h : (cleaner.frame lines).empties (cleaner.prepare before) = false)

/-- What keeps the header of a topic from being one in the comment as it stands. -/
inductive Veiled (lines : List Text) (n : Nat) : Prop where
  /-- A symbol stands before it without a space behind, or more than one symbol. -/
  | glued {line : Text} (hline : line ∈ lines[n]?) (h : isSkipped line.margin = false)
  /-- A tab stands in its keyword or behind the colon. -/
  | tabbed {line : Text} (hline : line ∈ lines[n]?) (h : KeywordTable.isTabbed line.wording)
  /-- The line before it is more than a run of one symbol, such as a rule of two symbols. -/
  | drawn {before : Text} (hbefore : before ∈ lineBefore? lines n) (h : undecorated before ≠ [])

theorem stray_iff : Stray cleaner lines n header ↔ inside (cleaner.clean lines) n ∨
    (∃ line ∈ lines[n]?, (cleaner.frame lines).covers line.margin = false) ∨
      (cleaner.frame lines).swallows header.title ∨
        ∃ before ∈ lineBefore? lines n,
          (cleaner.frame lines).empties (cleaner.prepare before) = false := by
  constructor
  · rintro (h | ⟨hline, h⟩ | h | ⟨hbefore, h⟩)
    · exact .inl h
    · exact .inr (.inl ⟨_, hline, h⟩)
    · exact .inr (.inr (.inl h))
    · exact .inr (.inr (.inr ⟨_, hbefore, h⟩))
  · rintro (h | ⟨line, hline, h⟩ | h | ⟨before, hbefore, h⟩)
    · exact .verbatim h
    · exact .item hline h
    · exact .untitled h
    · exact .stub hbefore h

theorem veiled_iff : Veiled lines n ↔
    (∃ line ∈ lines[n]?, isSkipped line.margin = false) ∨
      (∃ line ∈ lines[n]?, KeywordTable.isTabbed line.wording) ∨
        ∃ before ∈ lineBefore? lines n, undecorated before ≠ [] := by
  constructor
  · rintro (⟨hline, h⟩ | ⟨hline, h⟩ | ⟨hbefore, h⟩)
    · exact .inl ⟨_, hline, h⟩
    · exact .inr (.inl ⟨_, hline, h⟩)
    · exact .inr (.inr ⟨_, hbefore, h⟩)
  · rintro (⟨line, hline, h⟩ | ⟨line, hline, h⟩ | ⟨before, hbefore, h⟩)
    · exact .glued hline h
    · exact .tabbed hline h
    · exact .drawn hbefore h

instance : Decidable (Stray cleaner lines n header) := decidable_of_iff _ stray_iff.symm

instance : Decidable (Veiled lines n) := decidable_of_iff _ veiled_iff.symm

/-- The line before a line is blank when it is cleaned as it would be outside of sections, if it has
no letter or digit and no section goes on behind it. -/
theorem forall_lineBefore?_clean (h : inside (cleaner.clean lines) n = false)
    (hbefore : ∀ before ∈ lineBefore? lines n, before.alphanumerics = []) :
    (∀ before ∈ lineBefore? (cleaner.clean lines) n, isAllBlank before) ↔
      ∀ before ∈ lineBefore? lines n,
        (cleaner.frame lines).empties (cleaner.prepare before) := by
  cases n with
  | zero => exact iff_of_true nofun nofun
  | succ n =>
      have hclean := cleaner.getElem?_clean lines n
      rw [List.getElem?_map] at hclean
      cases hline : lines[n]? with
      | none =>
          rw [hline] at hclean
          simp [lineBefore?, hline, hclean]
      | some before =>
          rw [hline, Option.map_some, Option.map_some] at hclean
          have hletters : (Cleaner.cleanLine (cleaner.frame lines)
              (inside (cleaner.clean lines) n) (cleaner.prepare before)).alphanumerics = [] := by
            rw [(Cleaner.core_cleanLine _ _ _).alphanumerics_eq, cleaner.alphanumerics_prepare]
            exact hbefore before hline
          -- A line without letters does not close a section.
          have hinside : inside (cleaner.clean lines) n = false := by
            rw [inside_succ hclean, step, isEnd_of_alphanumerics hletters] at h
            rw [← Bool.not_eq_true]
            intro hsection
            rw [if_pos hsection] at h
            cases h
          rw [hinside] at hclean
          simp only [lineBefore?, hline, hclean, Option.mem_def, Option.some_inj, forall_eq',
            Frame.isAllBlank_cleanLine]

/-- A line is cleaned outside of sections and behind a blank line, and only the frame stands before
its wording. -/
def Reached (cleaner : Cleaner) (lines : List Text) (n : Nat) (line : Text) : Prop :=
  inside (cleaner.clean lines) n = false ∧
    (∀ before ∈ lineBefore? lines n, (cleaner.frame lines).empties (cleaner.prepare before)) ∧
      (cleaner.frame lines).covers line.margin

instance : Decidable (Reached cleaner lines n line) := inferInstanceAs (Decidable (_ ∧ _ ∧ _))

/-- Where a line is reached, the title is what matters. -/
theorem stray_iff_of_getElem? (hline : lines[n]? = some line) : Stray cleaner lines n header ↔
    (Reached cleaner lines n line → (cleaner.frame lines).swallows header.title) := by
  constructor
  · rintro h ⟨hinside, hblank, hcovers⟩
    cases h with
    | verbatim h => simp [hinside] at h
    | item hitem h =>
        rw [hline] at hitem
        obtain rfl := Option.some_inj.mp hitem
        simp [hcovers] at h
    | untitled h => exact h
    | stub hbefore h => simp [hblank _ hbefore] at h
  · intro h
    by_contra hstray
    refine hstray (.untitled (h ⟨?_, fun before hbefore => ?_, ?_⟩))
    · simpa using fun hinside => hstray (.verbatim hinside)
    · simpa using fun hkept => hstray (.stub hbefore hkept)
    · simpa using fun hcovers => hstray (.item hline hcovers)

/-- What the header of a topic is read from, if the line before it holds no letter or digit. -/
theorem exists_topicHeader?_clean (keywords : KeywordTable) (cleaner : Cleaner)
    (hline : lines[n]? = some line)
    (hbefore : ∀ before ∈ lineBefore? lines n, before.alphanumerics = []) :
    ∃ column, topicHeader? keywords (cleaner.clean lines) n =
      if Reached cleaner lines n line then
        keywords.header? ((cleaner.frame lines).dropRight
          (expandTabsFrom cleaner.tabWidth column (trimBlankEnd line.wording)))
      else none := by
  obtain ⟨column, hcleaned⟩ := Cleaner.exists_header?_cleanLine keywords cleaner
    (cleaner.frame lines) false line
  refine ⟨column, ?_⟩
  cases hinside : inside (cleaner.clean lines) n with
  | true => rw [topicHeader?, if_neg (by simp [hinside]), if_neg fun h => by simp [h.1] at hinside]
  | false =>
      have hblank := forall_lineBefore?_clean hinside hbefore
      have hclean := cleaner.getElem?_clean lines n
      rw [List.getElem?_map, hline, hinside, Option.map_some, Option.map_some] at hclean
      rw [topicHeader?, hclean, Option.bind_some, hcleaned]
      simp only [Reached, hinside, true_and, hblank, ite_and]

theorem isWorded_of_header? (h : keywords.header? line.wording = some header) :
    line.wording.IsWorded := by
  refine (wording_eq_nil_or line).resolve_left fun hnil => ?_
  rw [hnil] at h
  cases h

theorem lineFeed_not_mem_wording (hfeed : ∀ line ∈ lines, lineFeed ∉ line)
    (hline : lines[n]? = some line) : lineFeed ∉ line.wording := fun hmem =>
  hfeed line (List.mem_of_getElem? hline) ((List.dropWhile_suffix _).subset hmem)

/-- A header of a comment as it stands is the header of a topic, and of the same kind, unless it is
a stray one. -/
theorem kind_topicHeader? (cleaner : Cleaner) (hfeed : ∀ line ∈ lines, lineFeed ∉ line)
    (h : scannedHeader? keywords lines n = some header) :
    (topicHeader? keywords (cleaner.clean lines) n).map (·.kind) =
      if Stray cleaner lines n header then none else some header.kind := by
  obtain ⟨hbefore, line, hline, hheader⟩ := scannedHeader?_eq_some_iff.mp h
  rw [header?_undecorated] at hheader
  obtain ⟨-, hheader⟩ := Option.ite_none_right_eq_some.mp hheader
  have hletters : ∀ before ∈ lineBefore? lines n, before.alphanumerics = [] := fun before hmem => by
    rw [← (core_undecorated before).alphanumerics_eq, hbefore before hmem]
    rfl
  have hworded := isWorded_of_header? hheader
  have hwording := lineFeed_not_mem_wording hfeed hline
  obtain ⟨column, htopic⟩ := exists_topicHeader?_clean keywords cleaner hline hletters
  have hkind := KeywordTable.kind_header?_cleaned (f := cleaner.frame lines) cleaner.tabWidth_pos
    column hworded hwording hheader
  simp only [htopic, stray_iff_of_getElem? hline]
  by_cases hreached : Reached cleaner lines n line
  · rw [if_pos hreached, hkind]
    simp only [hreached, true_imp_iff]
  · rw [if_neg hreached, if_pos fun h => absurd h hreached]
    rfl

/-- The header of a topic is one in the comment as it stands unless it is veiled. -/
theorem scannedHeader?_eq_none_iff (hfeed : ∀ line ∈ lines, lineFeed ∉ line)
    (h : topicHeader? keywords (cleaner.clean lines) n = some header) :
    scannedHeader? keywords lines n = none ↔ Veiled lines n := by
  obtain ⟨⟨hinside, -⟩, t, ht, hheader⟩ := topicHeader?_eq_some_iff.mp h
  have hclean := cleaner.getElem?_clean lines n
  rw [List.getElem?_map, hinside, ht] at hclean
  cases hline : lines[n]? with
  | none => simp [hline] at hclean
  | some line =>
      rw [hline, Option.map_some, Option.map_some] at hclean
      obtain ⟨column, hcleaned⟩ := Cleaner.exists_header?_cleanLine keywords cleaner
        (cleaner.frame lines) false line
      rw [← Option.some_inj.mp hclean, hheader] at hcleaned
      obtain ⟨-, hheader⟩ := Option.ite_none_right_eq_some.mp hcleaned.symm
      have hworded : line.wording.IsWorded := by
        refine (wording_eq_nil_or line).resolve_left fun hnil => ?_
        have hdrop : (cleaner.frame lines).dropRight [] = [] :=
          List.prefix_nil.mp ((cleaner.frame lines).dropRight_isPrefix [])
        rw [hnil, trimBlankEnd, trimEnd, expandTabsFrom, hdrop] at hheader
        cases hheader
      have hwording := lineFeed_not_mem_wording hfeed hline
      have htabbed := KeywordTable.header?_eq_none_iff_isTabbed column hworded hwording hheader
      have hdrawn : (∃ before ∈ lineBefore? lines n, undecorated before ≠ []) ↔
          ¬ ∀ before ∈ lineBefore? lines n, undecorated before = [] := by simp
      rw [veiled_iff, hdrawn, scannedHeader?, hline, Option.bind_some, header?_undecorated]
      simp only [Option.mem_some_iff, exists_eq_left']
      split_ifs with hbefore hskipped
      · rw [htabbed, hskipped, or_iff_right Bool.noConfusion, or_iff_left (not_not.mpr hbefore)]
      · simp [hskipped]
      · exact iff_of_true rfl (.inr (.inr hbefore))

end Comment

end Commentary
