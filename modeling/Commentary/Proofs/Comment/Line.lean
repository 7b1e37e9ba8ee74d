import Commentary.Proofs.Comment.Compaction
import Commentary.Proofs.Comment.Found
import Commentary.Proofs.Comment.Repetition
import Commentary.SourceFile
import Mathlib.Data.List.Forall2

/-!
# Lines of comments and lines of the source

A comment takes some lines of the source one after the other. What is seen of a line of the
comment, white space apart, is a part of what is seen of the line in the source, and so it stays
when the comment is cleaned. No two comments share a line.
-/

namespace Commentary

/-! ## What is seen of a line -/

namespace Text

/-- The characters of a text that are not white space. -/
def visible (t : Text) : Text := t.filter fun c => !isBlank c

/-- What is seen of a text is a run of what is seen of a line. -/
def Shows (line t : Text) : Prop := t.visible <:+: line.visible

theorem visible_append (s t : Text) : visible (s ++ t) = s.visible ++ t.visible :=
  List.filter_append ..

theorem visible_eq_nil {t : Text} (h : ∀ c ∈ t, isBlank c) : t.visible = [] :=
  List.filter_eq_nil_iff.mpr fun c hc => by simp [h c hc]

theorem visible_spaces (n : Nat) : (spaces n).visible = [] :=
  visible_eq_nil fun c hc => by rw [List.eq_of_mem_replicate hc]; decide

theorem visible_expandTabsFrom (width column : Nat) (t : Text) :
    (expandTabsFrom width column t).visible = t.visible := by
  induction t generalizing column with
  | nil => rfl
  | cons c t ih =>
      rw [expandTabsFrom]
      split_ifs with hc
      · rw [visible_append, visible_spaces, List.nil_append, ih, hc]
        rfl
      · exact (visible_append [c] _).trans ((congrArg _ (ih _)).trans (visible_append [c] t).symm)

namespace Shows

variable {line s t : Text}

theorem refl (t : Text) : Shows t t := List.infix_rfl

theorem trans (h : Shows line s) (h' : Shows s t) : Shows line t := List.IsInfix.trans h' h

theorem of_isInfix (h : t <:+: line) : Shows line t := by
  obtain ⟨before, after, rfl⟩ := h
  rw [Shows, visible_append, visible_append]
  exact List.infix_append _ _ _

theorem nil (line : Text) : Shows line [] := List.nil_infix

theorem of_visible_eq (h : t.visible = line.visible) : Shows line t := by
  rw [Shows]
  exact h ▸ List.infix_rfl

end Shows

/-- Lines show, one by one, parts of the lines that a source starts with. -/
inductive Follows : List Text → List Text → Prop where
  | nil (source : List Text) : Follows source []
  | cons {line t : Text} {source lines : List Text} (h : Shows line t) (hs : Follows source lines) :
      Follows (line :: source) (t :: lines)

namespace Follows

variable {source lines : List Text}

theorem of_forall₂ (h : List.Forall₂ Shows source lines) : Follows source lines := by
  induction h with
  | nil => exact .nil []
  | cons hline _ ih => exact .cons hline ih

theorem refl (lines : List Text) : Follows lines lines :=
  of_forall₂ (List.forall₂_same.mpr fun line _ => .refl line)

theorem of_shows {source' : List Text} (h : List.Forall₂ Shows source' source)
    (hs : Follows source lines) : Follows source' lines := by
  induction hs generalizing source' with
  | nil source => exact .nil source'
  | cons ht _ ih =>
      obtain ⟨line', source', hline, hsource, rfl⟩ := List.forall₂_cons_right_iff.mp h
      exact .cons (hline.trans ht) (ih hsource)

theorem length_le (h : Follows source lines) : lines.length ≤ source.length := by
  induction h with
  | nil => exact Nat.zero_le _
  | cons _ _ ih => exact Nat.succ_le_succ ih

theorem exists_getElem? (h : Follows source lines) {i : Nat} {t : Text} (ht : lines[i]? = some t) :
    ∃ line, source[i]? = some line ∧ Shows line t := by
  induction h generalizing i with
  | nil => cases ht
  | @cons line u source lines hline _ ih =>
      cases i with
      | zero =>
          obtain rfl := Option.some_inj.mp ht
          exact ⟨line, rfl, hline⟩
      | succ i => exact ih ht

end Follows

end Text

open Text

/-! ## Cleaned lines -/

namespace Cleaner

theorem shows_prepare (cleaner : Cleaner) (line : Text) : Shows line (cleaner.prepare line) :=
  (Shows.of_isInfix (trimEnd_isPrefix isBlank line).isInfix).trans
    (.of_visible_eq (visible_expandTabsFrom ..))

theorem shows_cleanLine (frame : Frame) (inSection : Bool) (line : Text) :
    Shows line (cleanLine frame inSection line) := by
  have hright : ∀ line, Shows line (Edge.dropRight line) := fun line =>
    .of_isInfix (Edge.dropRight_isPrefix line).isInfix
  have hleft : Shows line (Edge.dropLeft line) := .of_isInfix (Edge.dropLeft_isSuffix line).isInfix
  have hstrip : Shows line (frame.strip line) := by
    rw [Frame.strip]
    split_ifs
    exacts [hleft.trans (hright _), hright line, hleft, .refl line]
  rw [cleanLine]
  split_ifs
  · exact .refl line
  · exact .nil line
  · dsimp only
    split_ifs
    exacts [.nil line, hstrip]

theorem follows_cleanFrom (cleaner : Cleaner) (frame : Frame) {inSection : Bool}
    {source lines : List Text} (h : Follows source lines) :
    Follows source (cleanFrom frame inSection (lines.map cleaner.prepare)) := by
  induction h generalizing inSection with
  | nil source => exact .nil source
  | @cons line t _ _ hline _ ih =>
      have hprepared := hline.trans (cleaner.shows_prepare t)
      exact .cons (hprepared.trans (shows_cleanLine frame inSection _)) ih

/-- Cleaned lines show nothing but what their lines in the source show. -/
theorem follows_clean (cleaner : Cleaner) {source lines : List Text} (h : Follows source lines) :
    Follows source (cleaner.clean lines) :=
  follows_cleanFrom cleaner _ h

/-- Compaction keeps some of the cleaned lines. -/
theorem cleanCompact_sublist (cleaner : Cleaner) (lines : List Text) :
    (cleaner.cleanCompact lines).Sublist ((cleaner.clean lines).zipIdx.map Prod.swap) :=
  (dropBlankEnd_isPrefix _).sublist.trans (compactFrom_sublist _ _ _)

end Cleaner

/-! ## Comments in the source -/

namespace SourceLine

theorem forall₂_ofLinesFrom (offset : Nat) (lines : List Text) :
    List.Forall₂ Shows lines ((ofLinesFrom offset lines).map SourceLine.text) := by
  induction lines generalizing offset with
  | nil => exact .nil
  | cons line lines ih =>
      refine .cons (.of_isInfix ?_) (ih _)
      exact ((trimEnd_isPrefix _ _).trans (trimEnd_isPrefix _ line)).isInfix

end SourceLine

namespace Language

/-- A line with spaces for its marker shows what stands behind the marker. -/
theorem shows_of_marked? {marker line : Text} {m : Marked} (h : marked? marker line = some m)
    {t : Text} (ht : t <:+: m.rest) : Shows line (trimBlankEnd (m.margin ++ t)) := by
  have hline := eq_append_of_marked? h
  have hindent : m.indent.visible = [] := by
    obtain ⟨-, h⟩ := Option.ite_none_left_eq_some.mp h
    obtain ⟨rest, -, rfl⟩ := Option.map_eq_some_iff.mp h
    exact visible_eq_nil fun c hc => isBlank_of_isSpaceOrTab (List.mem_takeWhile_imp hc)
  have hmargin : m.margin.visible = [] := by
    rw [Marked.margin, visible_append, hindent, visible_spaces, List.nil_append]
  have hrest : m.rest <:+: line := by
    rw [hline]
    exact ((List.suffix_append _ _).trans (List.suffix_append _ _)).isInfix
  have hshown : Shows line (m.margin ++ t) := by
    rw [Shows, visible_append, hmargin]
    exact Shows.of_isInfix (ht.trans hrest)
  exact hshown.trans (.of_isInfix (trimEnd_isPrefix isBlank _).isInfix)

theorem shows_of_lineComment? {language : Language} {line t : Text}
    (h : language.lineComment? line = some t) : Shows line t := by
  rw [lineComment?] at h
  split at h
  · next m hstart =>
      obtain ⟨marker, hmarked⟩ := exists_marked_of_start_eq_line hstart
      exact Option.some_inj.mp h ▸ shows_of_marked? hmarked List.infix_rfl
  · cases h

end Language

namespace Comment

theorem follows_lineRun (language : Language) (lines : List SourceLine) :
    Follows (lines.map SourceLine.text) (lineRun language lines) := by
  induction lines with
  | nil => exact .nil []
  | cons line lines ih =>
      rw [lineRun]
      split
      · next t ht => exact .cons (Language.shows_of_lineComment? ht) ih
      · exact .nil _

theorem infix_of_cutAt? {mark line before after : Text}
    (h : cutAt? mark line = some (before, after)) : before <:+: line :=
  (eq_append_of_cutAt? h ▸ List.prefix_append before (mark ++ after)).isInfix

theorem follows_readRest (closer : Text) (lines : List SourceLine) :
    Follows (lines.map SourceLine.text) (Block.readRest closer lines).lines := by
  induction lines with
  | nil => exact .nil []
  | cons line lines ih =>
      rw [Block.readRest]
      split
      · next kept trailing hcut =>
          have hkept := (trimEnd_isPrefix isBlank kept).isInfix.trans (infix_of_cutAt? hcut)
          exact .cons (.of_isInfix hkept) (.nil _)
      · exact .cons (.refl _) ih

theorem follows_read {marker : Text} {line : SourceLine} {opening : Language.Marked}
    (h : Language.marked? marker line.text = some opening) (closer : Text)
    (rest : List SourceLine) :
    Follows ((line :: rest).map SourceLine.text) (Block.read opening closer rest).lines := by
  rw [Block.read]
  split
  · next kept trailing hcut =>
      exact .cons (Language.shows_of_marked? h (infix_of_cutAt? hcut)) (.nil _)
  · exact .cons (Language.shows_of_marked? h List.infix_rfl) (follows_readRest closer rest)

theorem follows_of_startingAt? {language : Language} {number : Nat} {line : SourceLine}
    {rest : List SourceLine} {c : Comment} {trailing : Option Text}
    (h : startingAt? language number line rest = some (c, trailing)) :
    Follows ((line :: rest).map SourceLine.text) c.lines := by
  rw [startingAt?] at h
  split at h
  · cases h
  · cases h
    exact follows_lineRun language (line :: rest)
  · next opening closer hstart =>
      cases h
      obtain ⟨marker, hmarked⟩ := Language.exists_marked_of_start_eq_block hstart
      exact follows_read hmarked closer rest

/-- A comment starts at a line of the source, and its lines show parts of the lines from there. -/
structure StandsIn (c : Comment) (source : List Text) : Prop where
  first_pos : 1 ≤ c.span.first
  follows : Follows (source.drop (c.span.first - 1)) c.lines

theorem standsIn_of_mem_ofSource {language : Language} {keywords : KeywordTable} {source : Text}
    {c : Comment} (h : c ∈ ofSource language keywords source) :
    c.StandsIn (linesWithEnds source) := by
  have hsource : List.Forall₂ Shows (linesWithEnds source)
    ((SourceLine.ofSource source).map SourceLine.text) := SourceLine.forall₂_ofLinesFrom 0 _
  cases hlanguage : language.readsWholeFile with
  | true =>
      rw [ofSource] at h
      simp only [hlanguage, if_true] at h
      split_ifs at h
      · cases h
      · obtain rfl := List.mem_singleton.mp h
        exact ⟨Nat.le_refl 1, .of_forall₂ hsource⟩
  | false =>
      obtain ⟨code, hfound, -⟩ := foundIn_of_mem_ofSource hlanguage h
      obtain @⟨line, before, rest, trailing, hlines, hstart⟩ := hfound
      have hfirst : c.span.first = before.length + 1 := (of_startingAt? hstart).1
      have hfollows := follows_of_startingAt? hstart
      have hdrop := List.forall₂_drop before.length hsource
      rw [hlines, List.map_append, List.drop_left' (List.length_map _)] at hdrop
      refine ⟨by omega, ?_⟩
      rw [hfirst, Nat.add_sub_cancel]
      exact hfollows.of_shows hdrop

/-! ## Comments one after the other -/

/-- A comment ends before another one starts. -/
def EndsBefore (c c' : Comment) : Prop := c.span.first + c.lines.length ≤ c'.span.first

theorem le_first_of_mem_find {language : Language} {keywords : KeywordTable} {skip number : Nat}
    {lines : List SourceLine} {c : Comment} (h : c ∈ find language keywords skip number lines) :
    number + skip ≤ c.span.first := by
  induction lines generalizing skip number with
  | nil => cases h
  | cons line rest ih =>
      cases skip with
      | succ skip =>
          have := ih h
          omega
      | zero =>
          rw [find] at h
          split at h
          · have := ih h
            omega
          · next comment trailing hstart =>
              rcases List.mem_cons.mp h with rfl | h
              · exact (of_startingAt? hstart).1.ge
              · have := ih h
                omega

/-- The lines of a comment are passed over before the next one is looked for. -/
theorem pairwise_find (language : Language) (keywords : KeywordTable) (skip number : Nat)
    (lines : List SourceLine) :
    (find language keywords skip number lines).Pairwise EndsBefore := by
  induction lines generalizing skip number with
  | nil => exact .nil
  | cons line rest ih =>
      cases skip with
      | succ skip => exact ih skip _
      | zero =>
          rw [find]
          split
          · exact ih 0 _
          · next comment trailing hstart =>
              refine List.pairwise_cons.mpr ⟨fun c hc => ?_, ih _ _⟩
              have hfirst := (of_startingAt? hstart).1
              have hbehind := le_first_of_mem_find hc
              rw [EndsBefore]
              dsimp only
              omega

theorem pairwise_ofSource (language : Language) (keywords : KeywordTable) (source : Text) :
    (ofSource language keywords source).Pairwise EndsBefore := by
  rw [ofSource]
  split_ifs
  · exact .nil
  · exact List.pairwise_singleton _ _
  · exact pairwise_find ..

end Comment

end Commentary
