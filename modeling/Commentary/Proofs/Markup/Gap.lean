import Commentary.Comment.Cleaner
import Commentary.Proofs.Markup.Code
import Commentary.Proofs.Markup.Sentence
import Commentary.Proofs.Topic.Verbatim

/-!
# Gaps in code

Lines marked as code make one block over one blank line and two blocks over several. Compaction
leaves one of several blank lines and makes one block of the two. Nothing else of a body depends on
the blank lines that it drops: two readers, one of all lines and one of those that are left, are
never further apart than by one block of code.
-/

namespace Commentary

/-- What compaction leaves of some lines, without their numbers. -/
def Cleaner.narrow (inSection afterBlank : Bool) : List Text → List Text
  | [] => []
  | line :: lines =>
    if line = [] ∧ !inSection ∧ afterBlank then narrow inSection afterBlank lines
    else line :: narrow (Verbatim.step inSection line) (line = []) lines

namespace Markup

open Cleaner (narrow)

variable {kind : TopicKind} {line : Text} {lines : List Text} {inSection : Bool}

/-! ## Wide gaps -/

/-- The next line of code follows behind at least two blank lines and nothing else, of which some
were already passed. -/
def EndsWideGap (passed : Nat) (lines : List Text) : Prop :=
  ∃ n code rest, lines = List.replicate n [] ++ code :: rest ∧ (codeLine? code).isSome ∧
    2 ≤ passed + n

/-- Outside of verbatim sections, at least two blank lines and nothing else stand between two lines
of code. -/
def HasWideGapFrom (inSection : Bool) (lines : List Text) : Prop :=
  ∃ before code behind, lines = before ++ code :: behind ∧
    Verbatim.after inSection before = false ∧ (codeLine? code).isSome ∧ EndsWideGap 0 behind

/-- Two lines of code in a body are apart by at least two blank lines and nothing else. -/
abbrev HasWideGap (body : List Text) : Prop := HasWideGapFrom false body

/-- How often two lines of code are apart by a wide gap. Where only blank lines came behind a line
of code, their number is given. -/
def wideGaps (inSection : Bool) (blanks : Option Nat) : List Text → Nat
  | [] => 0
  | line :: lines =>
    if inSection then wideGaps (Verbatim.step inSection line) none lines
    else if (codeLine? line).isSome then
      (if blanks.any (2 ≤ ·) then 1 else 0) + wideGaps inSection (some 0) lines
    else if line = [] then wideGaps inSection (blanks.map (· + 1)) lines
    else wideGaps (Verbatim.step inSection line) none lines

theorem codeLine?_nil : codeLine? [] = none := rfl

theorem not_isStart_of_codeLine? (h : (codeLine? line).isSome) : Verbatim.isStart line = false := by
  rw [← Bool.not_eq_true]
  intro hstart
  rw [codeLine?_of_isStart hstart] at h
  cases h

theorem not_endsWideGap_nil (passed : Nat) : ¬ EndsWideGap passed [] := by
  rintro ⟨n, code, rest, h, -⟩
  simp at h

theorem endsWideGap_cons (passed : Nat) (line : Text) (lines : List Text) :
    EndsWideGap passed (line :: lines) ↔
      ((codeLine? line).isSome ∧ 2 ≤ passed) ∨ (line = [] ∧ EndsWideGap (passed + 1) lines) := by
  constructor
  · rintro ⟨n, code, rest, h, hcode, hn⟩
    cases n with
    | zero =>
        obtain ⟨rfl, rfl⟩ := List.cons.inj h
        exact .inl ⟨hcode, hn⟩
    | succ n =>
        obtain ⟨rfl, rfl⟩ := List.cons.inj h
        exact .inr ⟨rfl, n, code, rest, rfl, hcode, by omega⟩
  · rintro (⟨hcode, hpassed⟩ | ⟨rfl, n, code, rest, rfl, hcode, hn⟩)
    · exact ⟨0, line, lines, rfl, hcode, hpassed⟩
    · exact ⟨n + 1, code, rest, rfl, hcode, by omega⟩

theorem not_hasWideGapFrom_nil (inSection : Bool) : ¬ HasWideGapFrom inSection [] := by
  rintro ⟨before, code, behind, h, -⟩
  simp at h

theorem hasWideGapFrom_cons (inSection : Bool) (line : Text) (lines : List Text) :
    HasWideGapFrom inSection (line :: lines) ↔
      (inSection = false ∧ (codeLine? line).isSome ∧ EndsWideGap 0 lines) ∨
        HasWideGapFrom (Verbatim.step inSection line) lines := by
  constructor
  · rintro ⟨before, code, behind, h, hafter, hcode, hgap⟩
    cases before with
    | nil =>
        obtain ⟨rfl, rfl⟩ := List.cons.inj h
        exact .inl ⟨hafter, hcode, hgap⟩
    | cons first before =>
        obtain ⟨rfl, rfl⟩ := List.cons.inj h
        exact .inr ⟨before, code, behind, rfl, hafter, hcode, hgap⟩
  · rintro (⟨hsection, hcode, hgap⟩ | ⟨before, code, behind, rfl, hafter, hcode, hgap⟩)
    · exact ⟨[], line, lines, rfl, hsection, hcode, hgap⟩
    · exact ⟨line :: before, code, behind, rfl, hafter, hcode, hgap⟩

theorem wideGaps_pos_iff_from (inSection : Bool) (blanks : Option Nat) (lines : List Text) :
    0 < wideGaps inSection blanks lines ↔
      (inSection = false ∧ ∃ passed, blanks = some passed ∧ EndsWideGap passed lines) ∨
        HasWideGapFrom inSection lines := by
  induction lines generalizing inSection blanks with
  | nil => simp [wideGaps, not_endsWideGap_nil, not_hasWideGapFrom_nil]
  | cons line lines ih =>
      rw [wideGaps, hasWideGapFrom_cons]
      simp only [endsWideGap_cons]
      cases inSection with
      | true => simp [ih]
      | false =>
          by_cases hcode : (codeLine? line).isSome
          · have hline : line ≠ [] := by
              rintro rfl
              cases hcode
            have hstep : Verbatim.step false line = false := not_isStart_of_codeLine? hcode
            rcases blanks with _ | passed
            · simp [hcode, hline, hstep, ih]
            · by_cases hwide : 2 ≤ passed
              · have hany : (some passed).any (2 ≤ ·) := decide_eq_true hwide
                rw [if_neg Bool.false_ne_true, if_pos hcode, if_pos hany]
                exact iff_of_true (Nat.add_pos_left Nat.one_pos _)
                  (.inl ⟨rfl, passed, rfl, .inl ⟨hcode, hwide⟩⟩)
              · simp [hcode, hline, hstep, ih, hwide]
          · by_cases hline : line = []
            · have hstep : Verbatim.step false [] = false := by decide
              rcases blanks with _ | passed <;> simp [hline, hstep, ih, codeLine?_nil]
            · simp [hcode, hline, ih]

/-- There is a wide gap if and only if one is counted. -/
theorem wideGaps_pos_iff (body : List Text) : 0 < wideGaps false none body ↔ HasWideGap body := by
  rw [wideGaps_pos_iff_from]
  simp

/-! ## Blocks that are joined -/

/-- The second blocks are the first ones with `n` blocks of code joined to the code before them. -/
inductive Joins : Nat → List Block → List Block → Prop where
  | nil : Joins 0 [] []
  | keep (b : Block) {n : Nat} {apart joined : List Block} (h : Joins n apart joined) :
      Joins n (b :: apart) (b :: joined)
  | join (first : List Text) {second : List Text} {n : Nat} {apart joined : List Block}
      (h : Joins n apart (.code (dedent second) :: joined)) :
      Joins (n + 1) (.code (dedent first) :: apart)
        (.code (dedent (first ++ [] :: second)) :: joined)

namespace Joins

variable {n : Nat} {apart joined : List Block}

theorem refl (blocks : List Block) : Joins 0 blocks blocks := by
  induction blocks with
  | nil => exact .nil
  | cons b blocks ih => exact .keep b ih

theorem append_left (blocks : List Block) (h : Joins n apart joined) :
    Joins n (blocks ++ apart) (blocks ++ joined) := by
  induction blocks with
  | nil => exact h
  | cons b blocks ih => exact .keep b ih

theorem eq_of_zero (h : Joins 0 apart joined) : apart = joined := by
  generalize hn : 0 = n at h
  induction h with
  | nil => rfl
  | keep b _ ih => exact congrArg (b :: ·) (ih hn)
  | join first _ _ => cases hn

theorem paragraph?_eq (h : Joins n apart joined) : paragraph? apart = paragraph? joined := by
  cases h with
  | nil => rfl
  | keep b h => cases b <;> rfl
  | join first h => rfl

/-- Code that is joined is not what a summary is taken from. -/
theorem leading?_eq (h : Joins n apart joined) : leading? apart = leading? joined := by
  cases h with
  | nil => rfl
  | keep b h =>
      cases b with
      | heading t => rw [leading?, leading?, h.paragraph?_eq]
      | _ => rfl
  | join first h => rfl

theorem flatMap_listed_eq (h : Joins n apart joined) :
    apart.flatMap Block.listed = joined.flatMap Block.listed := by
  induction h with
  | nil => rfl
  | keep b _ ih => rw [List.flatMap_cons, List.flatMap_cons, ih]
  | join first _ ih =>
      rw [List.flatMap_cons, ih]
      rfl

theorem count_less_code (lines : List Text) : (Block.code lines).render.count '<' = 2 := by
  have hcode : (escape (Text.join [Text.lineFeed] lines)).count '<' = 0 :=
    List.count_eq_zero.mpr (less_not_mem_escape _)
  have hopening : "<code type=\"anonymous\">".toList.count '<' = 1 := by decide
  have hclosing : "</code>".toList.count '<' = 1 := by decide
  rw [render_code, List.count_append, List.count_append, hopening, hclosing, hcode]

/-- Each block of code that is joined to another one takes its tags with it. -/
theorem count_less (h : Joins n apart joined) :
    (apart.flatMap Block.render).count '<' = (joined.flatMap Block.render).count '<' + 2 * n := by
  induction h with
  | nil => rfl
  | keep b _ ih => simp only [List.flatMap_cons, List.count_append, ih, Nat.add_assoc]
  | join first _ ih =>
      simp only [List.flatMap_cons, List.count_append, count_less_code] at ih ⊢
      omega

theorem flatMap_render_eq_iff (h : Joins n apart joined) :
    joined.flatMap Block.render = apart.flatMap Block.render ↔ n = 0 := by
  constructor
  · intro heq
    have hcount := h.count_less
    rw [heq] at hcount
    omega
  · rintro rfl
    rw [h.eq_of_zero]

end Joins

/-! ## What a reader does with a line -/

namespace Reader

variable {r : Reader} {code : Text} {done : List Text}
  {thenBlank afterBlank describesParameters : Bool}

theorem blocks_cons (kind : TopicKind) (r : Reader) (line : Text) (lines : List Text) :
    r.blocks kind (line :: lines) =
      (r.step kind line).1 ++ (r.step kind line).2.blocks kind lines := rfl

theorem step_marked_of_code (h : codeLine? line = some code) :
    (⟨.marked done thenBlank, afterBlank, describesParameters⟩ : Reader).step kind line =
      ([], ⟨.marked (done ++ (if thenBlank then [[]] else []) ++ [code]) false, afterBlank,
        describesParameters⟩) := by
  simp only [step, stepMarked, h]

theorem step_of_code (hr : ¬ r.current.isCode) (h : codeLine? line = some code) :
    r.step kind line = (r.current.close, { r with current := .marked [code] false }) := by
  cases hcurrent : r.current with
  | marked lines thenBlank => exact absurd (by rw [hcurrent]; rfl) hr
  | verbatim lines => exact absurd (by rw [hcurrent]; rfl) hr
  | _ => simp only [step, stepMarked, h, hcurrent]

theorem step_of_text (hr : ¬ r.current.isCode) (h : codeLine? line = none) :
    r.step kind line = r.stepText kind (Text.trimStart Text.isSpace line) := by
  cases hcurrent : r.current with
  | marked lines thenBlank => exact absurd (by rw [hcurrent]; rfl) hr
  | verbatim lines => exact absurd (by rw [hcurrent]; rfl) hr
  | _ => simp only [step, stepMarked, h, hcurrent]

theorem step_marked_of_blank (hcode : codeLine? line = none)
    (h : Text.trimStart Text.isSpace line = []) :
    (⟨.marked done false, afterBlank, describesParameters⟩ : Reader).step kind line =
      ([], ⟨.marked done true, afterBlank, describesParameters⟩) := by
  simp [step, stepMarked, hcode, h]

theorem not_isCode_none (afterBlank describesParameters : Bool) :
    ¬ (⟨.none, afterBlank, describesParameters⟩ : Reader).current.isCode := Bool.false_ne_true

/-- A line that does not go on with the code is read as if no block were open. -/
theorem step_marked_of_text (hcode : codeLine? line = none)
    (h : thenBlank ∨ Text.trimStart Text.isSpace line ≠ []) :
    (⟨.marked done thenBlank, afterBlank, describesParameters⟩ : Reader).step kind line =
      (.code (dedent done) ::
          ((⟨.none, thenBlank, describesParameters⟩ : Reader).step kind line).1,
        ((⟨.none, thenBlank, describesParameters⟩ : Reader).step kind line).2) := by
  have hgoes : ¬ (Text.trimStart Text.isSpace line = [] ∧ !thenBlank) := by
    rintro ⟨hline, hblank⟩
    rcases h with h | h
    · rw [h] at hblank
      cases hblank
    · exact h hline
  rw [step_of_text (not_isCode_none _ _) hcode]
  simp only [step, stepMarked, hcode, if_neg hgoes]

/-- Which lines of code an open block holds is seen in this block only. -/
theorem blocks_marked (kind : TopicKind) (thenBlank describesParameters : Bool)
    (lines : List Text) :
    ∃ more rest, ∀ done afterBlank,
      (⟨.marked done thenBlank, afterBlank, describesParameters⟩ : Reader).blocks kind lines =
        .code (dedent (done ++ more)) :: rest := by
  induction lines generalizing thenBlank with
  | nil => exact ⟨[], [], fun done _ => by rw [List.append_nil]; rfl⟩
  | cons line lines ih =>
      cases hcode : codeLine? line with
      | some code =>
          obtain ⟨more, rest, ih⟩ := ih false
          refine ⟨(if thenBlank then [[]] else []) ++ [code] ++ more, rest, fun done _ => ?_⟩
          rw [blocks_cons, step_marked_of_code hcode, List.nil_append, ih]
          simp only [List.append_assoc]
      | none =>
          by_cases h : thenBlank ∨ Text.trimStart Text.isSpace line ≠ []
          · refine ⟨[], (⟨.none, thenBlank, describesParameters⟩ : Reader).blocks kind
              (line :: lines), fun done _ => ?_⟩
            rw [blocks_cons, step_marked_of_text hcode h, List.append_nil]
            rfl
          · obtain ⟨hblank, hline⟩ := not_or.mp h
            rw [Bool.not_eq_true] at hblank
            subst hblank
            obtain ⟨more, rest, ih⟩ := ih true
            refine ⟨more, rest, fun done _ => ?_⟩
            rw [blocks_cons, step_marked_of_blank hcode (not_not.mp hline)]
            exact ih done _

/-- A blank line behind a blank line changes nothing. -/
theorem stepText_nil (hafter : r.afterBlank) (h : ¬ r.current matches .paragraph _) :
    r.stepText kind [] = ([], r) := by
  obtain ⟨current, afterBlank, describesParameters⟩ := r
  obtain rfl : afterBlank = true := hafter
  cases current with
  | paragraph t => exact absurd rfl h
  | _ => rfl

/-- A line without indentation opens no block of marked lines. -/
theorem isCode_stepText (hr : ¬ r.current.isCode) (line : Text) :
    (r.stepText kind line).2.current.isCode = (r.stepText kind line).2.current.isVerbatim := by
  have hsame : r.current.isCode = r.current.isVerbatim := by
    cases hcurrent : r.current with
    | marked lines thenBlank => exact absurd (by rw [hcurrent]; rfl) hr
    | _ => rfl
  rw [stepText]
  split
  · split
    · rfl
    · exact hsame
  · split
    · cases r.current <;> rfl
    · split
      · cases r.current <;> rfl
      · split
        · rfl
        · split
          · rfl
          · split
            · rfl
            · cases r.current <;> rfl

end Reader

/-! ## Two readers -/

theorem narrow_cons_nil (lines : List Text) :
    narrow false true ([] :: lines) = narrow false true lines := rfl

theorem narrow_cons {blank : Bool} (h : line ≠ [] ∨ inSection ∨ ¬ blank) (lines : List Text) :
    narrow inSection blank (line :: lines) =
      line :: narrow (Verbatim.step inSection line) (line = []) lines := by
  refine if_neg ?_
  rintro ⟨hline, hsection, hblank⟩
  simp_all

theorem narrow_cons_of_codeLine? (h : (codeLine? line).isSome) (blank : Bool) (lines : List Text) :
    narrow false blank (line :: lines) = line :: narrow false false lines := by
  have hline : line ≠ [] := by
    rintro rfl
    cases h
  rw [narrow_cons (.inl hline), decide_eq_false hline]
  exact congrArg (fun s => line :: narrow s false lines) (not_isStart_of_codeLine? h)

theorem wideGaps_cons_of_codeLine? (h : (codeLine? line).isSome) (blanks : Option Nat)
    (lines : List Text) :
    wideGaps false blanks (line :: lines) =
      (if blanks.any (2 ≤ ·) then 1 else 0) + wideGaps false (some 0) lines := by
  rw [wideGaps, if_neg Bool.false_ne_true, if_pos h]

theorem wideGaps_cons_nil (blanks : Option Nat) (lines : List Text) :
    wideGaps false blanks ([] :: lines) = wideGaps false (blanks.map (· + 1)) lines := rfl

theorem wideGaps_cons_of_text (h : codeLine? line = none) {blanks : Option Nat}
    (hblanks : line ≠ [] ∨ blanks = none) (lines : List Text) :
    wideGaps false blanks (line :: lines) = wideGaps (Verbatim.step false line) none lines := by
  rw [wideGaps, if_neg Bool.false_ne_true, h, Option.isSome_none, if_neg Bool.false_ne_true]
  split_ifs with hline
  · subst hline
    rw [hblanks.resolve_left (not_not.mpr rfl)]
    rfl
  · rfl

/-- Where two readers stand, one behind all lines and one behind those that compaction left, with
the blocks that the first one ended and the second one did not, and with what `narrow` and
`wideGaps` know of the lines. -/
inductive Tracks : List Block → Reader → Reader → Bool → Bool → Option Nat → Prop where
  | verbatim (lines : List Text) (afterBlank describesParameters blank : Bool) :
      Tracks [] ⟨.verbatim lines, afterBlank, describesParameters⟩
        ⟨.verbatim lines, afterBlank, describesParameters⟩ true blank none
  | text {r : Reader} (hr : ¬ r.current.isCode) {blank : Bool}
      (hblank : blank → r.afterBlank ∧ ¬ r.current matches .paragraph _) :
      Tracks [] r r false blank none
  | code (lines : List Text) (afterBlank describesParameters : Bool) :
      Tracks [] ⟨.marked lines false, afterBlank, describesParameters⟩
        ⟨.marked lines false, afterBlank, describesParameters⟩ false false (some 0)
  | gap (lines : List Text) (afterBlank describesParameters : Bool) :
      Tracks [] ⟨.marked lines true, afterBlank, describesParameters⟩
        ⟨.marked lines true, afterBlank, describesParameters⟩ false true (some 1)
  /-- A line of spaces is no blank line for compaction, and it is kept. -/
  | spaces (lines : List Text) (afterBlank describesParameters : Bool) :
      Tracks [] ⟨.marked lines true, afterBlank, describesParameters⟩
        ⟨.marked lines true, afterBlank, describesParameters⟩ false false none
  /-- A blank line was dropped, which ended the code for the first reader. -/
  | apart (lines : List Text) (afterBlank describesParameters : Bool) (n : Nat) :
      Tracks [.code (dedent lines)] ⟨.none, true, describesParameters⟩
        ⟨.marked lines true, afterBlank, describesParameters⟩ false true (some (n + 2))

/-- Readers at the same place, outside of code, are at the same place behind a line of text. -/
theorem Tracks.stepText {r : Reader} (hr : ¬ r.current.isCode) (line : Text) :
    Tracks [] (r.stepText kind (Text.trimStart Text.isSpace line)).2
      (r.stepText kind (Text.trimStart Text.isSpace line)).2 (Verbatim.step false line)
      (line = []) none := by
  have hverbatim : r.current.isVerbatim = false := by
    cases hcurrent : r.current with
    | verbatim lines => exact absurd (by rw [hcurrent]; rfl) hr
    | _ => rfl
  have hstart : (r.stepText kind (Text.trimStart Text.isSpace line)).2.current.isVerbatim =
      Verbatim.step false line := Reader.isVerbatim_stepText_trimStart hverbatim
  have hcode : (r.stepText kind (Text.trimStart Text.isSpace line)).2.current.isCode =
      (r.stepText kind (Text.trimStart Text.isSpace line)).2.current.isVerbatim :=
    Reader.isCode_stepText hr _
  have hnil : line = [] → (r.stepText kind (Text.trimStart Text.isSpace line)).2.afterBlank ∧
      ¬ (r.stepText kind (Text.trimStart Text.isSpace line)).2.current matches .paragraph _ := by
    rintro rfl
    cases hcurrent : r.current <;> simp [Text.trimStart, Reader.stepText, hcurrent]
  generalize r.stepText kind (Text.trimStart Text.isSpace line) = after at *
  obtain ⟨blocks, ⟨current, afterBlank, describesParameters⟩⟩ := after
  rw [← hstart]
  cases current with
  | verbatim lines => exact .verbatim lines _ _ _
  | marked lines thenBlank => cases hcode
  | _ => exact .text (by simp [OpenBlock.isCode]) fun h => hnil (of_decide_eq_true h)

/-- Of two readers that are not further apart than by a block of code, the one of all lines finds
the blocks of the other one, but for those that were joined over wide gaps. -/
def ReadAlike (kind : TopicKind) (lines : List Text) : Prop :=
  ∀ ⦃done : List Block⦄ ⦃r r' : Reader⦄ ⦃inSection blank : Bool⦄ ⦃blanks : Option Nat⦄,
    Tracks done r r' inSection blank blanks →
      Joins (wideGaps inSection blanks lines) (done ++ r.blocks kind lines)
        (r'.blocks kind (narrow inSection blank lines))

namespace ReadAlike

variable (h : ReadAlike kind lines) (done : List Text)
  (afterBlank describesParameters blank : Bool)
include h

/-- Where two readers do the same with a line, it is left to the lines behind it. -/
theorem cons_of_same {r after : Reader} {blocks : List Block} {blanks blanks' : Option Nat}
    (hstep : r.step kind line = (blocks, after))
    (hkeep : line ≠ [] ∨ inSection ∨ ¬ blank)
    (hgaps : wideGaps inSection blanks (line :: lines) =
      wideGaps (Verbatim.step inSection line) blanks' lines)
    (hafter : Tracks [] after after (Verbatim.step inSection line) (line = []) blanks') :
    Joins (wideGaps inSection blanks (line :: lines)) (r.blocks kind (line :: lines))
      (r.blocks kind (narrow inSection blank (line :: lines))) := by
  rw [narrow_cons hkeep, hgaps, Reader.blocks_cons, Reader.blocks_cons, hstep]
  exact (h hafter).append_left blocks

theorem cons_verbatim :
    let r : Reader := ⟨.verbatim done, afterBlank, describesParameters⟩
    Joins (wideGaps true none (line :: lines)) (r.blocks kind (line :: lines))
      (r.blocks kind (narrow true blank (line :: lines))) := by
  intro r
  cases hend : Verbatim.isEnd line with
  | true =>
      have hline : line ≠ [] := by
        rintro rfl
        exact absurd hend (by decide)
      have hstep : r.step kind line =
          ([.code (dedent done)], ⟨.none, false, describesParameters⟩) := by
        simp [r, Reader.step, hend]
      refine h.cons_of_same blank hstep (.inl hline) rfl ?_
      simpa [Verbatim.step, hend] using Tracks.text (Reader.not_isCode_none _ _) (by simpa)
  | false =>
      have hstep : r.step kind line =
          ([], ⟨.verbatim (done ++ [line]), afterBlank, describesParameters⟩) := by
        simp [r, Reader.step, hend]
      refine h.cons_of_same blank hstep (.inr (.inl rfl)) rfl ?_
      simpa [Verbatim.step, hend] using Tracks.verbatim _ _ _ _

/-- A line that is marked goes on with the code or begins some. -/
theorem cons_of_codeLine? {r after : Reader} {blocks : List Block} {code : Text}
    {blanks : Option Nat} (hcode : codeLine? line = some code)
    (hblanks : ¬ blanks.any (2 ≤ ·))
    (hstep : r.step kind line = (blocks, after))
    (hafter : after = ⟨.marked done false, afterBlank, describesParameters⟩) :
    Joins (wideGaps false blanks (line :: lines)) (r.blocks kind (line :: lines))
      (r.blocks kind (narrow false blank (line :: lines))) := by
  have hsome := Option.isSome_of_eq_some hcode
  have hline : line ≠ [] := by
    rintro rfl
    cases hcode
  have hsection : Verbatim.step false line = false := not_isStart_of_codeLine? hsome
  have hgaps : wideGaps false blanks (line :: lines) =
      wideGaps (Verbatim.step false line) (some 0) lines := by
    rw [wideGaps_cons_of_codeLine? hsome, if_neg hblanks, Nat.zero_add, hsection]
  refine h.cons_of_same blank hstep (.inl hline) hgaps ?_
  rw [hsection, decide_eq_false hline, hafter]
  exact .code _ _ _

theorem cons_text {r : Reader} (hr : ¬ r.current.isCode)
    (hblank : blank → r.afterBlank ∧ ¬ r.current matches .paragraph _) :
    Joins (wideGaps false none (line :: lines)) (r.blocks kind (line :: lines))
      (r.blocks kind (narrow false blank (line :: lines))) := by
  cases hcode : codeLine? line with
  | some code =>
      exact h.cons_of_codeLine? [code] r.afterBlank r.describesParameters blank hcode
        Bool.false_ne_true (Reader.step_of_code hr hcode) rfl
  | none =>
      by_cases hdrop : line = [] ∧ blank
      · obtain ⟨rfl, rfl⟩ := hdrop
        have hstep : r.step kind [] = ([], r) := by
          obtain ⟨hafter, hparagraph⟩ := hblank rfl
          exact (Reader.step_of_text hr hcode).trans (Reader.stepText_nil hafter hparagraph)
        rw [Reader.blocks_cons, hstep]
        exact h (.text hr hblank)
      · exact h.cons_of_same blank (Reader.step_of_text hr hcode) (by tauto)
          (wideGaps_cons_of_text hcode (.inr rfl) lines) (.stepText hr line)

/-- A line that does not go on with the code. -/
theorem cons_marked_of_text {thenBlank : Bool} {blanks : Option Nat} (hcode : codeLine? line = none)
    (hthen : thenBlank ∨ Text.trimStart Text.isSpace line ≠ [])
    (hkeep : line ≠ [] ∨ ¬ blank)
    (hblanks : line ≠ [] ∨ blanks = none) :
    let r : Reader := ⟨.marked done thenBlank, afterBlank, describesParameters⟩
    Joins (wideGaps false blanks (line :: lines)) (r.blocks kind (line :: lines))
      (r.blocks kind (narrow false blank (line :: lines))) := by
  intro r
  refine h.cons_of_same blank (Reader.step_marked_of_text hcode hthen) (by tauto)
    (wideGaps_cons_of_text hcode hblanks lines) ?_
  rw [Reader.step_of_text (Reader.not_isCode_none _ _) hcode]
  exact .stepText (Reader.not_isCode_none _ _) line

theorem cons_code :
    let r : Reader := ⟨.marked done false, afterBlank, describesParameters⟩
    Joins (wideGaps false (some 0) (line :: lines)) (r.blocks kind (line :: lines))
      (r.blocks kind (narrow false false (line :: lines))) := by
  intro r
  cases hcode : codeLine? line with
  | some code =>
      exact h.cons_of_codeLine? _ _ _ false hcode (by decide) (Reader.step_marked_of_code hcode) rfl
  | none =>
      by_cases hspaces : Text.trimStart Text.isSpace line = []
      · have hstart : Verbatim.step false line = false := by
          rw [Verbatim.step, if_neg Bool.false_ne_true, ← isStart_trimStart, hspaces]
          rfl
        by_cases hline : line = []
        · subst hline
          exact h.cons_of_same false (Reader.step_marked_of_blank hcode hspaces)
            (.inr (.inr Bool.false_ne_true)) (wideGaps_cons_nil _ _) (.gap _ _ _)
        · refine h.cons_of_same false (Reader.step_marked_of_blank hcode hspaces) (.inl hline)
            (wideGaps_cons_of_text hcode (.inl hline) lines) ?_
          rw [hstart, decide_eq_false hline]
          exact .spaces _ _ _
      · have hline : line ≠ [] := by
          rintro rfl
          exact hspaces rfl
        exact h.cons_marked_of_text _ _ _ _ hcode (.inr hspaces) (.inl hline) (.inl hline)

/-- The first blank line behind code is kept, and the next one is not. -/
theorem cons_gap :
    let r : Reader := ⟨.marked done true, afterBlank, describesParameters⟩
    Joins (wideGaps false (some 1) (line :: lines)) (r.blocks kind (line :: lines))
      (r.blocks kind (narrow false true (line :: lines))) := by
  intro r
  cases hcode : codeLine? line with
  | some code =>
      exact h.cons_of_codeLine? _ _ _ true hcode (by decide) (Reader.step_marked_of_code hcode) rfl
  | none =>
      by_cases hline : line = []
      · subst hline
        rw [wideGaps_cons_nil, narrow_cons_nil, Reader.blocks_cons,
          Reader.step_marked_of_text hcode (.inl rfl),
          Reader.step_of_text (Reader.not_isCode_none _ _)
            hcode]
        exact h (.apart done afterBlank describesParameters 0)
      · exact h.cons_marked_of_text _ _ _ _ hcode (.inl rfl) (.inl hline) (.inl hline)

theorem cons_spaces :
    let r : Reader := ⟨.marked done true, afterBlank, describesParameters⟩
    Joins (wideGaps false none (line :: lines)) (r.blocks kind (line :: lines))
      (r.blocks kind (narrow false false (line :: lines))) := by
  intro r
  cases hcode : codeLine? line with
  | some code =>
      exact h.cons_of_codeLine? _ _ _ false hcode (by decide) (Reader.step_marked_of_code hcode) rfl
  | none =>
      exact h.cons_marked_of_text _ _ _ _ hcode (.inl rfl) (.inr Bool.false_ne_true) (.inr rfl)

/-- Where one reader ended the code and the other one did not, a line of code begins a block for
the first and goes on with that of the second, and any other line brings them together. -/
theorem cons_apart (n : Nat) :
    let r : Reader := ⟨.none, true, describesParameters⟩
    let r' : Reader := ⟨.marked done true, afterBlank, describesParameters⟩
    Joins (wideGaps false (some (n + 2)) (line :: lines))
      (.code (dedent done) :: r.blocks kind (line :: lines))
      (r'.blocks kind (narrow false true (line :: lines))) := by
  intro r r'
  have hr : ¬ r.current.isCode := Reader.not_isCode_none _ _
  cases hcode : codeLine? line with
  | some code =>
      have hsome := Option.isSome_of_eq_some hcode
      -- from here on both hold the same open block but for the lines it began with
      obtain ⟨more, rest, hmore⟩ :=
        Reader.blocks_marked kind false describesParameters (narrow false false lines)
      have hnext := h (.code [code] true describesParameters)
      rw [hmore, List.nil_append] at hnext
      rw [narrow_cons_of_codeLine? hsome, wideGaps_cons_of_codeLine? hsome, Reader.blocks_cons,
        Reader.blocks_cons, Reader.step_of_code hr hcode, Reader.step_marked_of_code hcode,
        List.nil_append, hmore, Nat.add_comm]
      simpa [r, OpenBlock.close] using Joins.join done hnext
  | none =>
      by_cases hline : line = []
      · subst hline
        have hstep : r.step kind [] = ([], r) := Reader.step_of_text hr hcode
        rw [wideGaps_cons_nil, narrow_cons_nil, Reader.blocks_cons, hstep]
        exact h (.apart done afterBlank describesParameters (n + 1))
      · rw [wideGaps_cons_of_text hcode (.inl hline), narrow_cons (.inl hline), Reader.blocks_cons,
          Reader.blocks_cons, Reader.step_marked_of_text hcode (.inl rfl),
          Reader.step_of_text hr hcode]
        exact (h (.stepText hr line)).append_left (.code (dedent done) :: _)

end ReadAlike

/-- Two readers stay as close to each other as they are, whatever the lines. -/
theorem readAlike (kind : TopicKind) (lines : List Text) : ReadAlike kind lines := by
  induction lines with
  | nil =>
      intro done r r' inSection blank blanks h
      cases h <;> exact Joins.refl _
  | cons line lines ih =>
      intro done r r' inSection blank blanks h
      cases h with
      | verbatim done afterBlank describesParameters =>
          exact ih.cons_verbatim done afterBlank describesParameters blank
      | text hr hblank => exact ih.cons_text blank hr hblank
      | code done afterBlank describesParameters =>
          exact ih.cons_code done afterBlank describesParameters
      | gap done afterBlank describesParameters =>
          exact ih.cons_gap done afterBlank describesParameters
      | spaces done afterBlank describesParameters =>
          exact ih.cons_spaces done afterBlank describesParameters
      | apart done afterBlank describesParameters n =>
          exact ih.cons_apart done afterBlank describesParameters n

/-! ## Bodies -/

/-- Compaction joins blocks of code over wide gaps and does nothing else to the blocks of a body. -/
theorem joins_ofLines_narrow (kind : TopicKind) (body : List Text) :
    Joins (wideGaps false none body) (Block.ofLines kind body)
      (Block.ofLines kind (narrow false false body)) :=
  readAlike kind body
    (.text (Reader.not_isCode_none true false) fun h => absurd h Bool.false_ne_true)

/-- A body is the same with and without the blank lines that compaction drops, if and only if it has
no wide gap in code. -/
theorem formatBody_narrow_eq_iff (kind : TopicKind) (body : List Text) :
    formatBody kind (narrow false false body) = formatBody kind body ↔ ¬ HasWideGap body := by
  rw [← wideGaps_pos_iff, Nat.pos_iff_ne_zero, not_not]
  exact (joins_ofLines_narrow kind body).flatMap_render_eq_iff

/-- No summary depends on the blank lines that compaction drops. -/
theorem summary?_formatBody_narrow (kind : TopicKind) (body : List Text) :
    summary? (formatBody kind (narrow false false body)) = summary? (formatBody kind body) := by
  rw [formatBody, formatBody, summary?_flatMap_render, summary?_flatMap_render,
    (joins_ofLines_narrow kind body).leading?_eq]

/-- Neither do the symbols that a list defines. -/
theorem symbolEntries_formatBody_narrow (kind : TopicKind) (body : List Text) :
    symbolEntries (formatBody kind (narrow false false body)) =
      symbolEntries (formatBody kind body) := by
  rw [formatBody, formatBody, symbolEntries_flatMap_render, symbolEntries_flatMap_render,
    (joins_ofLines_narrow kind body).flatMap_listed_eq]

end Markup

end Commentary
