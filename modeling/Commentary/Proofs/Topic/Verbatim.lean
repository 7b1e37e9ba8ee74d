import Commentary.Proofs.Comment.Verbatim
import Commentary.Proofs.Topic.Compaction
import Mathlib.Data.List.DropRight

/-!
# Verbatim sections of a topic

A comment is read several times: it is cleaned, compacted and cut into topics, and the body of each
topic is cut into blocks. Every reading keeps its own account of the verbatim sections and looks for
their start among other things, at different times. All accounts agree, since a line that opens a
section can be nothing else.
-/

namespace Commentary

open Verbatim

/-! ## Cutting into topics -/

namespace Section

/-- The place behind some lines. -/
def Place.after (keywords : KeywordTable) (p : Place) (lines : List (Nat × Text)) : Place :=
  lines.foldl (fun p line => if (p.header? keywords line.2).isSome then .afterText
    else p.next line.2) p

theorem outlines_append (keywords : KeywordTable) (p : Place) (before behind : List (Nat × Text)) :
    outlines keywords p (before ++ behind) =
      outlines keywords p before ++ outlines keywords (p.after keywords before) behind := by
  induction before generalizing p with
  | nil => rfl
  | cons line before ih =>
      obtain ⟨number, t⟩ := line
      rw [Place.after, List.foldl_cons]
      cases h : p.header? keywords t with
      | some header =>
          rw [List.cons_append, outlines_cons_of_header h, outlines_cons_of_header h, ih]
          rfl
      | none =>
          rw [List.cons_append, outlines_cons_of_none h, outlines_cons_of_none h, ih]
          rfl

theorem Place.Tracked.after {p : Place} {inSection afterBlank : Bool}
    (h : p.Tracked inSection afterBlank) (keywords : KeywordTable) (lines : List (Nat × Text)) :
    ∃ afterBlank', (p.after keywords lines).Tracked
      (Verbatim.after inSection (lines.map Prod.snd)) afterBlank' := by
  induction lines generalizing p inSection afterBlank with
  | nil => exact ⟨afterBlank, h⟩
  | cons line lines ih =>
      obtain ⟨number, t⟩ := line
      rw [Place.after, List.foldl_cons]
      cases hheader : p.header? keywords t with
      | some header => exact ih (h.header hheader)
      | none => exact ih (h.next t)

/-- Headers are looked for outside of verbatim sections only. -/
theorem after_eq_insideVerbatim_iff (keywords : KeywordTable) (lines : List (Nat × Text))
    (n : Nat) :
    Place.afterBlank.after keywords (lines.take n) = .insideVerbatim ↔
      inside (lines.map Prod.snd) n := by
  obtain ⟨_, h⟩ := Place.Tracked.start.after keywords (lines.take n)
  rw [inside, ← List.map_take]
  exact h.inSection_iff.symm

/-- The start of a verbatim section is no header. -/
theorem isStart_eq_false_of_header? {keywords : KeywordTable} {line : Text} {header : Header}
    (h : keywords.header? line = some header) : isStart line = false := by
  rw [← Bool.not_eq_true]
  intro hstart
  obtain ⟨t, ht, -⟩ := closed_of_isStart hstart
  have hparenthesis : KeywordTable.isHeaderChar '(' = false := by decide
  rw [KeywordTable.header?, KeywordTable.splitHeader?, ht, List.dropWhile_cons, hparenthesis] at h
  cases h

theorem split_cons_of_header {p : Place} {keywords : KeywordTable} {line : Text} {header : Header}
    (h : p.header? keywords line = some header) (number : Nat) (lines : List (Nat × Text)) :
    split keywords p ((number, line) :: lines) =
      ([], ⟨header, number, (split keywords .afterText lines).1⟩ ::
        (split keywords .afterText lines).2) := by
  simp only [split, h]

theorem split_cons_of_none {p : Place} {keywords : KeywordTable} {line : Text}
    (h : p.header? keywords line = none) (number : Nat) (lines : List (Nat × Text)) :
    split keywords p ((number, line) :: lines) =
      (line :: (split keywords (p.next line) lines).1, (split keywords (p.next line) lines).2) := by
  simp only [split, h]

theorem fst_split_isPrefix (keywords : KeywordTable) (p : Place) (lines : List (Nat × Text)) :
    (split keywords p lines).1 <+: lines.map Prod.snd := by
  induction lines generalizing p with
  | nil => exact List.nil_prefix
  | cons line lines ih =>
      obtain ⟨number, t⟩ := line
      cases h : p.header? keywords t with
      | some header =>
          rw [split_cons_of_header h]
          exact List.nil_prefix
      | none =>
          rw [split_cons_of_none h]
          exact (List.prefix_cons_inj t).mpr (ih _)

/-- The line with a number is the header of a section, and the body of the section is behind it. -/
structure StandsAt (s : Section) (keywords : KeywordTable) (p : Place) (lines : List (Nat × Text))
    (n : Nat) : Prop where
  header : ∃ line, lines[n]? = some (s.line, line) ∧
    (p.after keywords (lines.take n)).header? keywords line = some s.header
  body : s.body <+: (lines.map Prod.snd).drop (n + 1)

theorem StandsAt.cons {s : Section} {keywords : KeywordTable} {p p' : Place}
    {lines : List (Nat × Text)} {n : Nat} (h : s.StandsAt keywords p' lines n) {line : Nat × Text}
    (hp : p.after keywords [line] = p') : s.StandsAt keywords p (line :: lines) (n + 1) := by
  obtain ⟨⟨t, ht, hheader⟩, hbody⟩ := h
  subst hp
  exact ⟨⟨t, ht, hheader⟩, hbody⟩

theorem exists_standsAt_of_mem_split {keywords : KeywordTable} {p : Place}
    {lines : List (Nat × Text)} {s : Section} (h : s ∈ (split keywords p lines).2) :
    ∃ n, s.StandsAt keywords p lines n := by
  induction lines generalizing p with
  | nil => cases h
  | cons line lines ih =>
      obtain ⟨number, t⟩ := line
      cases hheader : p.header? keywords t with
      | some header =>
          rw [split_cons_of_header hheader] at h
          rcases List.mem_cons.mp h with rfl | h
          · exact ⟨0, ⟨t, rfl, hheader⟩, fst_split_isPrefix keywords .afterText lines⟩
          · obtain ⟨n, hn⟩ := ih h
            exact ⟨n + 1, hn.cons (by simp [Place.after, hheader])⟩
      | none =>
          rw [split_cons_of_none hheader] at h
          obtain ⟨n, hn⟩ := ih h
          exact ⟨n + 1, hn.cons (by simp [Place.after, hheader])⟩

end Section

/-! ## Reading blocks -/

namespace Markup

/-- A start of a verbatim section is nothing else. -/
theorem codeLine?_of_isStart {line : Text} (h : isStart line) : codeLine? line = none := by
  obtain ⟨t, ht, -⟩ := closed_of_isStart h
  rw [codeLine?, ht]
  simp

theorem bullet?_of_isStart {line : Text} (h : isStart line)
    (htrim : Text.trimStart Text.isSpace line = line) : bullet? line = none := by
  obtain ⟨t, ht, -⟩ := closed_of_isStart h
  rw [← htrim, ht, bullet?]
  simp

theorem dash_mem_of_dashedText? {t description : Text} (h : dashedText? t = some description) :
    '-' ∈ t := by
  rw [dashedText?.eq_def] at h
  split at h
  · next t =>
      split at h
      · next rest hrest =>
          have hdash : '-' ∈ Text.trimStart Text.isSpace t := by simp [hrest]
          exact List.mem_cons_of_mem _ ((List.dropWhile_suffix _).subset hdash)
      · cases h
  · cases h

theorem definition?_eq_none {t : Text} (h : '-' ∉ t) : definition? t = none := by
  induction t with
  | nil => rfl
  | cons c t ih =>
      have ht : '-' ∉ t := fun hmem => h (List.mem_cons_of_mem c hmem)
      have hdashed : dashedText? t = none := by
        rw [Option.eq_none_iff_forall_ne_some]
        exact fun description hsome => ht (dash_mem_of_dashedText? hsome)
      rw [definition?, hdashed, ih ht]
      split <;> rfl

theorem definition?_of_isStart {line : Text} (h : isStart line)
    (htrim : Text.trimStart Text.isSpace line = line) : definition? line = none := by
  obtain ⟨t, ht, hclosed⟩ := closed_of_isStart h
  refine definition?_eq_none ?_
  rw [← htrim, ht]
  simpa using hclosed.1

theorem heading?_of_isStart {line : Text} (h : isStart line)
    (htrim : Text.trimStart Text.isSpace line = line) : heading? line = none := by
  obtain ⟨t, ht, hclosed⟩ := closed_of_isStart h
  have hlast : line.getLast? = some ')' := by
    rw [← htrim, ht, List.getLast?_cons, hclosed.2]
    rfl
  have hcolon : Text.beforeEnd? [':'] line = none := by
    rw [Text.beforeEnd?, if_neg]
    intro hsuffix
    obtain ⟨s, rfl⟩ := List.isSuffixOf_iff_suffix.mp hsuffix
    rw [List.getLast?_append] at hlast
    cases hlast
  rw [heading?, hcolon]

theorem trimStart_trimStart (line : Text) :
    Text.trimStart Text.isSpace (Text.trimStart Text.isSpace line) =
      Text.trimStart Text.isSpace line :=
  List.dropWhile_idempotent ..

theorem isStart_trimStart (line : Text) :
    isStart (Text.trimStart Text.isSpace line) = isStart line := by
  rw [isStart, isStart, inside?, inside?, trimStart_trimStart]

/-! ### Where the reader stands -/

/-- Whether a verbatim section is open. -/
def OpenBlock.isVerbatim : OpenBlock → Bool
  | verbatim _ => true
  | _ => false

namespace Reader

variable {kind : TopicKind} {r : Reader} {line : Text}

theorem isVerbatim_addText (b : OpenBlock) (line : Text) :
    (b.addText line).isVerbatim = false := by
  cases b <;> rfl

theorem isVerbatim_addBullet (b : OpenBlock) (item : Text) :
    (b.addBullet item).2.isVerbatim = false := by
  cases b <;> rfl

theorem isVerbatim_addEntry (b : OpenBlock) (entry : Entry) :
    (b.addEntry entry).2.isVerbatim = false := by
  cases b <;> rfl

/-- A line without indentation opens a section if it is the start of one: nothing that is looked
for before is found on such a line. -/
theorem isVerbatim_stepText (h : r.current.isVerbatim = false)
    (htrim : Text.trimStart Text.isSpace line = line) :
    (r.stepText kind line).2.current.isVerbatim = isStart line := by
  by_cases hstart : isStart line
  · have hline : line ≠ [] := by
      rintro rfl
      exact absurd hstart (by decide)
    rw [stepText, if_neg hline, bullet?_of_isStart hstart htrim,
      definition?_of_isStart hstart htrim, heading?_of_isStart hstart htrim]
    simp [hstart, OpenBlock.isVerbatim]
  · rw [Bool.not_eq_true] at hstart
    rw [hstart, stepText]
    split
    · split
      · rfl
      · exact h
    · split
      · exact isVerbatim_addBullet _ _
      · split
        · exact isVerbatim_addEntry _ _
        · split
          · rfl
          · split
            · simp [*] at *
            · split
              · rfl
              · exact isVerbatim_addText _ _

theorem isVerbatim_stepText_trimStart (h : r.current.isVerbatim = false) :
    (r.stepText kind (Text.trimStart Text.isSpace line)).2.current.isVerbatim = isStart line := by
  rw [isVerbatim_stepText h (trimStart_trimStart line), isStart_trimStart]

theorem isVerbatim_stepMarked (h : r.current.isVerbatim = false) :
    (r.stepMarked kind line).2.current.isVerbatim = isStart line := by
  cases hcode : codeLine? line with
  | some code =>
      have hstart : isStart line = false := by
        rw [← Bool.not_eq_true]
        intro hstart
        rw [codeLine?_of_isStart hstart] at hcode
        cases hcode
      rw [hstart, stepMarked, hcode]
      cases r.current <;> rfl
  | none =>
      cases hcurrent : r.current with
      | marked lines thenBlank =>
          simp only [stepMarked, hcode, hcurrent]
          split
          · next hblank =>
              rw [← isStart_trimStart, hblank.1]
              rfl
          · exact isVerbatim_stepText_trimStart rfl
      | _ =>
          simp only [stepMarked, hcode, hcurrent]
          exact isVerbatim_stepText_trimStart h

/-- The reader moves in and out of sections as everything else does. -/
theorem isVerbatim_step (kind : TopicKind) (r : Reader) (line : Text) :
    (r.step kind line).2.current.isVerbatim = Verbatim.step r.current.isVerbatim line := by
  cases hcurrent : r.current with
  | verbatim lines =>
      simp only [step, hcurrent]
      cases hend : isEnd line <;> simp [OpenBlock.isVerbatim, Verbatim.step, hend]
  | _ =>
      simp only [step, hcurrent]
      exact isVerbatim_stepMarked (by rw [hcurrent]; rfl)

/-- The reader behind some lines. -/
def after (kind : TopicKind) (r : Reader) (lines : List Text) : Reader :=
  lines.foldl (fun r line => (r.step kind line).2) r

/-- The blocks that some lines end. -/
def ended (kind : TopicKind) (r : Reader) : List Text → List Block
  | [] => []
  | line :: lines => (r.step kind line).1 ++ (r.step kind line).2.ended kind lines

theorem blocks_append (kind : TopicKind) (r : Reader) (before behind : List Text) :
    r.blocks kind (before ++ behind) =
      r.ended kind before ++ (r.after kind before).blocks kind behind := by
  induction before generalizing r with
  | nil => rfl
  | cons line before ih =>
      rw [List.cons_append, blocks, ended, List.append_assoc]
      exact congrArg ((r.step kind line).1 ++ ·) (ih _)

theorem isVerbatim_after (kind : TopicKind) (r : Reader) (lines : List Text) :
    (r.after kind lines).current.isVerbatim = Verbatim.after r.current.isVerbatim lines := by
  induction lines generalizing r with
  | nil => rfl
  | cons line lines ih => exact (ih _).trans (by rw [isVerbatim_step]; rfl)

/-- A line is taken into an open section as it stands. -/
def Collects (kind : TopicKind) (r : Reader) (line : Text) : Prop :=
  ∃ lines, r.current = .verbatim lines ∧
    (r.step kind line).2.current = .verbatim (lines ++ [line])

theorem collects_iff (kind : TopicKind) (r : Reader) (line : Text) :
    r.Collects kind line ↔ r.current.isVerbatim ∧ ¬ isEnd line := by
  constructor
  · rintro ⟨lines, hcurrent, hnext⟩
    have hstep := isVerbatim_step kind r line
    rw [hnext, hcurrent] at hstep
    refine ⟨by rw [hcurrent]; rfl, ?_⟩
    simpa [OpenBlock.isVerbatim, Verbatim.step] using hstep
  · rintro ⟨hverbatim, hend⟩
    cases hcurrent : r.current with
    | verbatim lines => exact ⟨lines, hcurrent, by simp [step, hcurrent, hend]⟩
    | _ => simp [hcurrent, OpenBlock.isVerbatim] at hverbatim

end Reader

end Markup

/-! ## Topics and their sections -/

namespace Section

/-- The topic tells what the section tells, and it shows the body of the section. -/
structure ShownBy (s : Section) (t : Topic) : Prop where
  outline : t.outline = s.outline
  body : t.body =
    let body := Markup.formatBody s.header.kind s.body
    if body = [] then none else some body

theorem shownBy_topic (s : Section) (context : Context) : s.ShownBy (s.topic context) where
  outline := congrArg Topic.outline (s.withoutBody_topic context)
  body := by
    rw [topic]
    dsimp only
    split_ifs <;> rfl

theorem exists_of_mem_topics {context : Context} {sections : List Section} {t : Topic}
    (h : t ∈ (topics context sections).1) : ∃ s ∈ sections, s.ShownBy t := by
  induction sections generalizing context with
  | nil => cases h
  | cons s sections ih =>
      rcases List.mem_cons.mp h with rfl | h
      · exact ⟨s, List.mem_cons_self, s.shownBy_topic context⟩
      · obtain ⟨s', hs', hshown⟩ := ih h
        exact ⟨s', List.mem_cons_of_mem s hs', hshown⟩

theorem exists_shownBy_of_mem_ofComment {keywords : KeywordTable} {context : Context}
    {lines : List (Nat × Text)} {code : Option Text} {t : Topic}
    (h : t ∈ (Topic.ofComment keywords context lines code).1) :
    ∃ s ∈ ofLines keywords lines, s.ShownBy t := by
  rw [Topic.ofComment_eq] at h
  dsimp only at h
  rcases Topic.attach_eq_self_or code (topics context (ofLines keywords lines)).1 with
    hsame | ⟨u, prototype, hfound, hattach⟩
  · rw [hsame] at h
    exact exists_of_mem_topics h
  · -- The code behind the comment decides about the prototype only.
    obtain ⟨s, hs, hshown⟩ := exists_of_mem_topics (hfound ▸ List.mem_singleton_self u)
    rw [hattach] at h
    obtain rfl := List.mem_singleton.mp h
    exact ⟨s, hs, hshown.outline, hshown.body⟩

end Section

/-! ## All readings -/

namespace Section

variable {keywords : KeywordTable} {lines : List (Nat × Text)} {s : Section} {n : Nat}

/-- A line of a comment is passed over when headers are looked for. -/
def PassedOver (keywords : KeywordTable) (lines : List (Nat × Text)) (n : Nat) : Prop :=
  Place.afterBlank.after keywords (lines.take n) = .insideVerbatim

theorem StandsAt.not_inside (h : s.StandsAt keywords .afterBlank lines n) :
    inside (lines.map Prod.snd) n = false := by
  obtain ⟨line, -, hheader⟩ := h.header
  rw [← Bool.not_eq_true, ← after_eq_insideVerbatim_iff keywords, (Place.header?_eq_some hheader).1]
  exact Place.noConfusion

/-- The body of a section starts outside of verbatim sections. -/
theorem StandsAt.inside_body (h : s.StandsAt keywords .afterBlank lines n) {m : Nat}
    (hm : m ≤ s.body.length) :
    inside (lines.map Prod.snd) (n + 1 + m) = inside s.body m := by
  obtain ⟨line, hline, hheader⟩ := h.header
  have hget : (lines.map Prod.snd)[n]? = some line := by rw [List.getElem?_map, hline]; rfl
  obtain ⟨more, hmore⟩ := h.body
  have htake : (lines.map Prod.snd).take (n + 1 + m) =
      (lines.map Prod.snd).take (n + 1) ++ s.body.take m := by
    rw [List.take_add, ← hmore, List.take_append_of_le_length hm]
  -- A header opens no section.
  have hstart : inside (lines.map Prod.snd) (n + 1) = false := by
    rw [inside_succ hget, h.not_inside]
    exact (Place.header?_eq_some hheader).2.1
  rw [inside, htake, after_append]
  exact congrArg (after · (s.body.take m)) hstart

theorem StandsAt.collects_iff (h : s.StandsAt keywords .afterBlank lines n) {m : Nat}
    {line : Text} (hline : s.body[m]? = some line) :
    (Markup.Reader.after s.header.kind {} (s.body.take m)).Collects s.header.kind line ↔
      PassedOver keywords lines (n + 1 + m) ∧ ¬ isEnd line := by
  have hm : m ≤ s.body.length := (List.getElem?_eq_some_iff.mp hline).1.le
  rw [Markup.Reader.collects_iff, Markup.Reader.isVerbatim_after, PassedOver,
    after_eq_insideVerbatim_iff, h.inside_body hm]
  rfl

end Section

namespace Verbatim

/-- How numbered lines are cut into topics and their bodies into blocks, as far as verbatim sections
go. -/
structure Reading (keywords : KeywordTable) (lines : List (Nat × Text)) : Prop where
  /-- From any line on, headers are looked for in the place that the lines before it lead to. -/
  cutting : ∀ n, Section.outlines keywords .afterBlank lines =
    Section.outlines keywords .afterBlank (lines.take n) ++
      Section.outlines keywords (Section.Place.afterBlank.after keywords (lines.take n))
        (lines.drop n)
  passedOver : ∀ n, Section.PassedOver keywords lines n ↔ inside (lines.map Prod.snd) n
  /-- The header of a topic stands outside of verbatim sections, and what is collected from its body
  as it stands are the lines that were passed over, but for those that close a section. -/
  topics : ∀ context code, ∀ t ∈ (Topic.ofComment keywords context lines code).1,
    ∃ s n, Section.ShownBy s t ∧ s.StandsAt keywords .afterBlank lines n ∧
      ¬ Section.PassedOver keywords lines n ∧ ∀ m line, s.body[m]? = some line →
        ((Markup.Reader.after s.header.kind {} (s.body.take m)).Collects s.header.kind line ↔
          Section.PassedOver keywords lines (n + 1 + m) ∧ ¬ isEnd line)
  /-- From any line of a body on, blocks are read by the reader that the lines before it leave. -/
  formatting : ∀ kind body m, Markup.Block.ofLines kind body =
    Markup.Reader.ended kind {} (body.take m) ++
      (Markup.Reader.after kind {} (body.take m)).blocks kind (body.drop m)

theorem reading (keywords : KeywordTable) (lines : List (Nat × Text)) : Reading keywords lines where
  cutting n := by rw [← Section.outlines_append, List.take_append_drop]
  passedOver n := Section.after_eq_insideVerbatim_iff keywords lines n
  topics context code t ht := by
    obtain ⟨s, hs, hshown⟩ := Section.exists_shownBy_of_mem_ofComment ht
    obtain ⟨n, hn⟩ := Section.exists_standsAt_of_mem_split hs
    refine ⟨s, n, hshown, hn, ?_, fun m line hline => hn.collects_iff hline⟩
    rw [Section.PassedOver, Section.after_eq_insideVerbatim_iff, hn.not_inside]
    exact Bool.false_ne_true
  formatting kind body m := by
    rw [← Markup.Reader.blocks_append, List.take_append_drop]
    rfl

/-- All that read a comment agree about its verbatim sections: the cleaner, the compaction, the cut
into topics and the reading of blocks. -/
structure Agreement (cleaner : Cleaner) (keywords : KeywordTable) (lines : List Text) : Prop where
  /-- From any line on, cleaning goes on inside a section or not, as the cleaned lines have it. -/
  cleaning : ∀ n, cleaner.clean lines = (cleaner.clean lines).take n ++
    Cleaner.cleanFrom (cleaner.frame lines) (inside (cleaner.clean lines) n)
      ((lines.map cleaner.prepare).drop n)
  compaction : ∀ n, let all := Cleaner.numbered (cleaner.clean lines)
    Cleaner.compactFrom false true all = Cleaner.compactFrom false true (all.take n) ++
      Cleaner.compactFrom (inside (cleaner.clean lines) n)
        (Cleaner.endsBlank true (Cleaner.compactFrom false true (all.take n))) (all.drop n)
  /-- A line that is kept is inside among those that are kept if it is among all. -/
  kept : ∀ m i t, (cleaner.cleanCompact lines)[m]? = some (i, t) →
    (cleaner.clean lines)[i]? = some t ∧
      inside ((cleaner.cleanCompact lines).map Prod.snd) m = inside (cleaner.clean lines) i
  /-- No rule in a section is blanked. It stays as it is, and the section goes on. -/
  rules : ∀ n line, (lines.map cleaner.prepare)[n]? = some line →
    inside (cleaner.clean lines) n → Rule.isIndentedRule line →
      (cleaner.clean lines)[n]? = some line ∧ inside (cleaner.clean lines) (n + 1)
  /-- Nothing but the frame is taken off other lines of a section, even if that leaves a rule. -/
  framed : ∀ n line, (lines.map cleaner.prepare)[n]? = some line →
    inside (cleaner.clean lines) n → ¬ Rule.isIndentedRule line →
      (cleaner.clean lines)[n]? = some ((cleaner.frame lines).strip line)
  reading : ∀ numbered, Reading keywords numbered

/-- Whatever a comment holds, all that read it agree about its verbatim sections. -/
theorem agreement (cleaner : Cleaner) (keywords : KeywordTable) (lines : List Text) :
    Agreement cleaner keywords lines where
  cleaning n := Cleaner.cleanFrom_eq_take_append (cleaner.frame lines) _ n
  compaction n := by
    have hinside : after false (((Cleaner.numbered (cleaner.clean lines)).take n).map Prod.snd) =
        inside (cleaner.clean lines) n := by
      rw [List.map_take, Cleaner.map_snd_numbered]
      rfl
    dsimp only
    rw [← hinside, ← Cleaner.compactFrom_append, List.take_append_drop]
  kept _ _ _ := cleaner.inside_cleanCompact
  rules n line hline hinside hrule := by
    have hget := cleaner.getElem?_clean_inside hline hinside
    rw [if_pos hrule] at hget
    refine ⟨hget, ?_⟩
    rw [inside_succ hget, hinside, step, isEnd_eq_false_of_isIndentedRule hrule]
    rfl
  framed n line hline hinside hrule := by
    rw [cleaner.getElem?_clean_inside hline hinside, if_neg hrule]
  reading := reading keywords

end Verbatim

end Commentary
