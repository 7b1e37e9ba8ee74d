import Commentary.Comment.Cleaner
import Commentary.Proofs.Text.Parts
import Mathlib.Tactic.SplitIfs

/-!
# Cleaning what is clean

Cleaning takes one frame off a comment. If the lines below it are framed again, as bullets in a box
are, a second cleaning takes that frame for the comment's own. Apart from that, and from white space
that a right edge leaves behind, lines that were cleaned once are left as they are.
-/

namespace Commentary

/-! ## Prepared lines -/

section Tabs

variable {width column : Nat} {t : Text}

theorem tab_not_mem_expandTabsFrom (width column : Nat) (t : Text) :
    '\t' ∉ expandTabsFrom width column t := by
  induction t generalizing column with
  | nil => exact List.not_mem_nil
  | cons c t ih =>
      rw [expandTabsFrom]
      split_ifs with hc
      · rw [List.mem_append, not_or]
        exact ⟨by simp [Text.spaces], ih _⟩
      · rw [List.mem_cons, not_or]
        exact ⟨Ne.symm hc, ih _⟩

theorem expandTabsFrom_eq_self (h : '\t' ∉ t) : expandTabsFrom width column t = t := by
  induction t generalizing column with
  | nil => rfl
  | cons c t ih =>
      rw [List.mem_cons, not_or] at h
      rw [expandTabsFrom, if_neg (Ne.symm h.1), ih h.2]

theorem getLast?_expandTabsFrom {c : Char} (h : t.getLast? = some c) (hc : c ≠ '\t') :
    (expandTabsFrom width column t).getLast? = some c := by
  induction t generalizing column with
  | nil => cases h
  | cons d t ih =>
      rw [expandTabsFrom]
      cases t with
      | nil =>
          obtain rfl : d = c := by simpa using h
          rw [if_neg hc]
          rfl
      | cons e t =>
          rw [List.getLast?_cons_cons] at h
          split_ifs
          · rw [List.getLast?_append, ih h]
            rfl
          · rw [List.getLast?_cons, ih h]
            rfl

end Tabs

namespace Cleaner

/-- A line without tabs that does not end in white space needs no preparation. -/
theorem prepare_eq_self (cleaner : Cleaner) {line : Text} (htab : '\t' ∉ line)
    (htrim : Text.trimBlankEnd line = line) : cleaner.prepare line = line := by
  rw [prepare, htrim]
  exact expandTabsFrom_eq_self htab

theorem tab_not_mem_prepare (cleaner : Cleaner) (line : Text) : '\t' ∉ cleaner.prepare line :=
  tab_not_mem_expandTabsFrom _ _ _

theorem trimBlankEnd_prepare (cleaner : Cleaner) (line : Text) :
    Text.trimBlankEnd (cleaner.prepare line) = cleaner.prepare line := by
  have htrim := Text.trimEnd_eq_self_iff.mp (Text.trimEnd_trimEnd Text.isBlank line)
  refine Text.trimEnd_eq_self_iff.mpr fun c hc => ?_
  rw [prepare] at hc
  cases hlast : (Text.trimBlankEnd line).getLast? with
  | none =>
      rw [List.getLast?_eq_none_iff.mp hlast] at hc
      cases hc
  | some d =>
      have hd := htrim d hlast
      have htab : d ≠ '\t' := by
        rintro rfl
        exact hd (by decide)
      rw [expandTabs, getLast?_expandTabsFrom hlast htab] at hc
      exact Option.some_inj.mp hc ▸ hd

theorem length_prepare_le (cleaner : Cleaner) {line : Text} (htab : '\t' ∉ line) :
    (cleaner.prepare line).length ≤ (Text.trimBlankEnd line).length := by
  have h : '\t' ∉ Text.trimBlankEnd line := fun hmem =>
    htab ((Text.trimEnd_isPrefix _ line).subset hmem)
  rw [prepare, expandTabs, expandTabsFrom_eq_self h]

end Cleaner

/-! ## Taking edges off -/

namespace Edge

theorem dropLeft_isSuffix (line : Text) : dropLeft line <:+ line := by
  rw [dropLeft]
  split
  · exact List.suffix_rfl
  · next c t ht =>
      split_ifs
      · have hbehind : c :: t <:+ line := ht ▸ List.dropWhile_suffix _
        exact ((List.dropWhile_suffix _).trans (List.suffix_cons c t)).trans hbehind
      · exact List.suffix_rfl

theorem dropRight_isPrefix (line : Text) : dropRight line <+: line := by
  rw [dropRight]
  split
  · exact List.prefix_rfl
  · split_ifs
    · exact (Text.trimEnd_isPrefix _ _).trans (Text.trimEnd_isPrefix _ _)
    · exact List.prefix_rfl

theorem leftSymbol?_eq_some {t : Text} {c : Char} (h : leftSymbol? t = some c) :
    isSymbol c ∧ ∃ rest, t = c :: rest := by
  cases t with
  | nil => cases h
  | cons d t =>
      obtain ⟨hsymbol, h⟩ := Option.ite_none_right_eq_some.mp h
      cases h
      exact ⟨(Bool.and_eq_true_iff.mp hsymbol).1, t, rfl⟩

theorem rightSymbol?_eq_some {t : Text} {c : Char} (h : rightSymbol? t = some c) :
    isSymbol c ∧ t.getLast? = some c := by
  rw [rightSymbol?] at h
  split at h
  · cases h
  · next d hd =>
      obtain ⟨hsymbol, h⟩ := Option.ite_none_right_eq_some.mp h
      cases h
      exact ⟨(Bool.and_eq_true_iff.mp hsymbol).1, hd⟩

/-- A line loses the symbol at its left. -/
theorem length_dropLeft_lt {line : Text} {c : Char}
    (h : leftSymbol? (Text.trimStart Text.isSpace line) = some c) :
    (dropLeft line).length < line.length := by
  obtain ⟨hsymbol, rest, hrest⟩ := leftSymbol?_eq_some h
  have hlength : (c :: rest).length ≤ line.length :=
    hrest ▸ (List.dropWhile_suffix Text.isSpace).length_le
  rw [dropLeft, hrest]
  dsimp only
  rw [if_pos hsymbol]
  exact ((List.dropWhile_suffix _).length_le).trans_lt hlength

/-- A line loses the symbol at its right. -/
theorem length_dropRight_lt {line : Text} {c : Char}
    (h : rightSymbol? (Text.trimStart Text.isSpace line) = some c) :
    (dropRight line).length < line.length := by
  obtain ⟨hsymbol, hlast⟩ := rightSymbol?_eq_some h
  have hline : line.getLast? = some c := by
    obtain ⟨s, hs⟩ : Text.trimStart Text.isSpace line <:+ line := List.dropWhile_suffix _
    rw [← hs, List.getLast?_append, hlast]
    rfl
  rw [dropRight, hline]
  dsimp only
  rw [if_pos hsymbol]
  exact (Text.trimEnd_isPrefix _ _).length_le.trans_lt (Text.length_trimEnd_lt hline (by simp))

end Edge

namespace Frame

theorem strip_sublist (f : Frame) (line : Text) : (f.strip line).Sublist line := by
  rw [strip]
  split_ifs
  · exact (Edge.dropRight_isPrefix _).sublist.trans (Edge.dropLeft_isSuffix line).sublist
  · exact (Edge.dropRight_isPrefix line).sublist
  · exact (Edge.dropLeft_isSuffix line).sublist
  · exact List.Sublist.refl line

theorem strip_eq_self {f : Frame} (h : f.isDrawn = false) (line : Text) : f.strip line = line := by
  obtain ⟨hleft, hright⟩ := Bool.or_eq_false_iff.mp h
  simp [strip, hleft, hright]

theorem length_strip_lt_of_left {f : Frame} {line : Text} {c : Char} (hf : f.left.isSome)
    (h : Edge.leftSymbol? (Text.trimStart Text.isSpace line) = some c) :
    (f.strip line).length < line.length := by
  have hleft := Edge.length_dropLeft_lt h
  rw [strip, if_pos hf]
  split_ifs
  · exact (Edge.dropRight_isPrefix _).length_le.trans_lt hleft
  · exact hleft

theorem length_strip_lt_of_right {f : Frame} {line : Text} {c : Char} (hleft : ¬ f.left.isSome)
    (hf : f.right.isSome) (h : Edge.rightSymbol? (Text.trimStart Text.isSpace line) = some c) :
    (f.strip line).length < line.length := by
  rw [strip, if_neg hleft, if_pos hf]
  exact Edge.length_dropRight_lt h

end Frame

/-! ## What a survey has seen -/

namespace Edge

theorem symbol?_beforeContent {e : Edge} {c : Char} (h : e.beforeContent.symbol? = some c) :
    e.symbol? = some c := by
  cases e with
  | uniformThenBlank d => cases h
  | _ => exact h

theorem symbol?_afterBlank (e : Edge) : e.afterBlank.symbol? = e.symbol? := by
  cases e <;> rfl

theorem symbol?_observe {e : Edge} {o : Option Char} {c : Char}
    (h : (e.observe o).symbol? = some c) : o = some c := by
  cases e with
  | unseen => cases o with
    | none => cases h
    | some d => exact h
  | uniform d => cases o with
    | none => cases h
    | some d' =>
        rw [observe] at h
        split_ifs at h
        · exact h
        · cases h
  | _ => cases h

/-- What the same lines say of an edge before and after cleaning, where some rules have become
blank. -/
inductive Fades : Edge → Edge → Prop where
  | same (e : Edge) : Fades e e
  | blank (c : Char) : Fades (uniform c) (uniformThenBlank c)
  | broken (e : Edge) : Fades e broken

namespace Fades

variable {e e' : Edge}

theorem afterBlank (h : e.Fades e') : e.afterBlank.Fades e'.afterBlank := by
  cases h with
  | same => exact .same _
  | blank c => exact .same _
  | broken => exact .broken _

/-- A rule says nothing of an edge, and the blank line in its place may do so. -/
theorem afterRule (h : e.Fades e') : e.Fades e'.afterBlank := by
  cases h with
  | same => cases e with
    | uniform c => exact .blank c
    | _ => exact .same _
  | blank c => exact .blank c
  | broken => exact .broken _

theorem observe (h : e.Fades e') (o : Option Char) :
    (e.beforeContent.observe o).Fades (e'.beforeContent.observe o) := by
  cases h with
  | same => exact .same _
  | blank c => exact .broken _
  | broken => exact .broken _

theorem symbol?_eq_none (h : e.Fades e') (he : e.symbol? = none) : e'.symbol? = none := by
  cases h with
  | same => exact he
  | blank c => cases he
  | broken => rfl

end Fades

end Edge

namespace Frame

namespace Survey

/-- What a survey makes of a line. -/
inductive Adds (behindOpener : Bool) (line : Text) (s : Survey) : Survey → Prop where
  | blank (h : Text.trimStart Text.isSpace line = []) :
      Adds behindOpener line s { s with left := s.left.afterBlank, right := s.right.afterBlank }
  | rule (h : Rule.isIndentedRule line = true) : Adds behindOpener line s s
  | content (h : Rule.isIndentedRule line = false) :
      Adds behindOpener line s
        { s with
          left := s.left.beforeContent.observe (Edge.leftSymbol? (Text.trimStart Text.isSpace line))
          right :=
            s.right.beforeContent.observe (Edge.rightSymbol? (Text.trimStart Text.isSpace line)) }
  /-- The line behind an opener lacks the symbol. -/
  | unmarked (h : Rule.isIndentedRule line = false)
      (hleft : Edge.leftSymbol? (Text.trimStart Text.isSpace line) = none) :
      Adds behindOpener line s
        { left := s.left.beforeContent
          right :=
            s.right.beforeContent.observe (Edge.rightSymbol? (Text.trimStart Text.isSpace line))
          firstUnmarked := true }

theorem adds_add (s : Survey) (behindOpener : Bool) (line : Text) :
    Adds behindOpener line s (s.add behindOpener line) := by
  rw [add]
  dsimp only
  split_ifs with hblank hrule hunmarked
  · exact .blank hblank
  · exact .rule hrule
  · exact .unmarked (by simpa [Rule.isIndentedRule] using hrule) hunmarked.2.2
  · exact .content (by simpa [Rule.isIndentedRule] using hrule)

/-- A line with content has a symbol at one end. -/
def Draws (symbol? : Text → Option Char) (c : Char) (line : Text) : Prop :=
  Rule.isIndentedRule line = false ∧ symbol? (Text.trimStart Text.isSpace line) = some c

/-- The symbol of an edge stays what it was, or comes from the line that is added. -/
def DrawnBy (side : Survey → Edge) (symbol? : Text → Option Char) : Prop :=
  ∀ {s s' : Survey} {behindOpener : Bool} {line : Text} {c : Char}, Adds behindOpener line s s' →
    (side s').symbol? = some c → (side s).symbol? = some c ∨ Draws symbol? c line

theorem drawnBy_left : DrawnBy Survey.left Edge.leftSymbol? := by
  intro s s' behindOpener line c h hc
  cases h with
  | blank => exact .inl (s.left.symbol?_afterBlank ▸ hc)
  | rule => exact .inl hc
  | content hrule => exact .inr ⟨hrule, Edge.symbol?_observe hc⟩
  | unmarked => exact .inl (Edge.symbol?_beforeContent hc)

theorem drawnBy_right : DrawnBy Survey.right Edge.rightSymbol? := by
  intro s s' behindOpener line c h hc
  cases h with
  | blank => exact .inl (s.right.symbol?_afterBlank ▸ hc)
  | rule => exact .inl hc
  | content hrule => exact .inr ⟨hrule, Edge.symbol?_observe hc⟩
  | unmarked hrule => exact .inr ⟨hrule, Edge.symbol?_observe hc⟩

variable {s : Survey} {side : Survey → Edge} {symbol? : Text → Option Char} {line : Text}
  {lines : List Text} {c : Char}

/-- An edge that stands after some lines was known before them or is drawn on one of them. -/
theorem DrawnBy.foldl (hside : DrawnBy side symbol?)
    (h : (side (lines.foldl (·.add false ·) s)).symbol? = some c) :
    (side s).symbol? = some c ∨ ∃ line ∈ lines, Draws symbol? c line := by
  induction lines generalizing s with
  | nil => exact .inl h
  | cons line lines ih =>
      rcases ih h with hfirst | ⟨other, hmem, hother⟩
      · rcases hside (adds_add s false line) hfirst with hs | hline
        · exact .inl hs
        · exact .inr ⟨line, List.mem_cons_self, hline⟩
      · exact .inr ⟨other, List.mem_cons_of_mem line hmem, hother⟩

theorem DrawnBy.survey (hside : DrawnBy side symbol?) (hstart : side {} = .unseen)
    {behindOpener : Bool}
    (h : (side (lines.foldl (·.add false ·) (add {} behindOpener line))).symbol? = some c) :
    ∃ other ∈ line :: lines, Draws symbol? c other := by
  rcases hside.foldl h with hfirst | ⟨other, hmem, hother⟩
  · rcases hside (adds_add {} behindOpener line) hfirst with hempty | hline
    · rw [hstart] at hempty
      cases hempty
    · exact ⟨line, List.mem_cons_self, hline⟩
  · exact ⟨other, List.mem_cons_of_mem line hmem, hother⟩

end Survey

variable {openerEdge : Option Char} {lines : List Text} {c : Char}

/-- A left edge is drawn on one of the lines. -/
theorem exists_of_left_ofLines (h : (ofLines openerEdge lines).left = some c) :
    ∃ line ∈ lines, Survey.Draws Edge.leftSymbol? c line := by
  cases lines with
  | nil => cases h
  | cons line lines =>
      obtain ⟨-, h⟩ := Option.ite_none_left_eq_some.mp h
      exact Survey.drawnBy_left.survey rfl h

/-- A right edge is drawn on one of the lines. -/
theorem exists_of_right_ofLines (h : (ofLines openerEdge lines).right = some c) :
    ∃ line ∈ lines, Survey.Draws Edge.rightSymbol? c line := by
  cases lines with
  | nil => cases h
  | cons line lines => exact Survey.drawnBy_right.survey rfl h

/-- Lines that a frame stands around do not all survive without it. -/
theorem exists_length_strip_lt (h : (ofLines openerEdge lines).isDrawn = true) :
    ∃ line ∈ lines, Rule.isIndentedRule line = false ∧
      ((ofLines openerEdge lines).strip line).length < line.length := by
  cases hleft : (ofLines openerEdge lines).left with
  | some c =>
      obtain ⟨line, hmem, hrule, hsymbol⟩ := exists_of_left_ofLines hleft
      exact ⟨line, hmem, hrule, length_strip_lt_of_left (by rw [hleft]; rfl) hsymbol⟩
  | none =>
      have hright : (ofLines openerEdge lines).right.isSome := by
        simpa [isDrawn, hleft] using h
      obtain ⟨c, hc⟩ := Option.isSome_iff_exists.mp hright
      obtain ⟨line, hmem, hrule, hsymbol⟩ := exists_of_right_ofLines hc
      exact ⟨line, hmem, hrule, length_strip_lt_of_right (by rw [hleft]; simp) hright hsymbol⟩

end Frame

/-! ## One line after the other -/

namespace Cleaner

theorem cleanLine_sublist (frame : Frame) (inSection : Bool) (line : Text) :
    (cleanLine frame inSection line).Sublist line := by
  rw [cleanLine]
  split_ifs
  · exact List.Sublist.refl line
  · exact List.nil_sublist line
  · dsimp only
    split_ifs
    · exact List.nil_sublist line
    · exact frame.strip_sublist line

theorem length_cleanLine_lt {frame : Frame} {inSection : Bool} {line : Text}
    (hrule : Rule.isIndentedRule line = false) (h : (frame.strip line).length < line.length) :
    (cleanLine frame inSection line).length < line.length := by
  rw [cleanLine, if_neg (by rw [hrule]; exact Bool.false_ne_true)]
  dsimp only
  split_ifs
  · exact (Nat.zero_le _).trans_lt h
  · exact h

/-- Outside of verbatim sections no line is a rule. -/
def RuleFree : Bool → List Text → Prop
  | _, [] => True
  | inSection, line :: lines =>
    (Rule.isIndentedRule line → inSection) ∧ RuleFree (Verbatim.step inSection line) lines

theorem ruleFree_cleanLine (frame : Frame) (inSection : Bool) (line : Text)
    (h : Rule.isIndentedRule (cleanLine frame inSection line)) : inSection := by
  have hnil : Rule.isIndentedRule [] = false := by decide
  rw [cleanLine] at h
  split_ifs at h with hrule hsection
  · exact hsection
  · rw [hnil] at h
    cases h
  · dsimp only at h
    split_ifs at h with hstripped
    · rw [hnil] at h
      cases h
    · cases hdrawn : frame.isDrawn with
      | false =>
          rw [Frame.strip_eq_self hdrawn] at h
          exact absurd h hrule
      | true => simpa [hdrawn, h] using hstripped

theorem ruleFree_cleanFrom (frame : Frame) (inSection : Bool) (lines : List Text) :
    RuleFree inSection (cleanFrom frame inSection lines) := by
  induction lines generalizing inSection with
  | nil => trivial
  | cons line lines ih => exact ⟨ruleFree_cleanLine frame inSection line, ih _⟩

theorem cleanFrom_eq_self {frame : Frame} (hframe : frame.isDrawn = false) {inSection : Bool}
    {lines : List Text} (h : RuleFree inSection lines) :
    cleanFrom frame inSection lines = lines := by
  induction lines generalizing inSection with
  | nil => rfl
  | cons line lines ih =>
      have hline : cleanLine frame inSection line = line := by
        rw [cleanLine, Frame.strip_eq_self hframe]
        split_ifs with hrule hsection
        · rfl
        · exact absurd (h.1 hrule) hsection
        · simp [hframe]
      rw [cleanFrom, hline]
      exact congrArg (line :: ·) (ih h.2)

theorem exists_of_mem_cleanFrom {frame : Frame} {inSection : Bool} {lines : List Text} {t : Text}
    (h : t ∈ cleanFrom frame inSection lines) :
    ∃ line ∈ lines, ∃ inSection, t = cleanLine frame inSection line := by
  induction lines generalizing inSection with
  | nil => cases h
  | cons line lines ih =>
      rcases List.mem_cons.mp h with rfl | h
      · exact ⟨line, List.mem_cons_self, inSection, rfl⟩
      · obtain ⟨other, hmem, hother⟩ := ih h
        exact ⟨other, List.mem_cons_of_mem line hmem, hother⟩

theorem tab_not_mem_clean (cleaner : Cleaner) {lines : List Text} {t : Text}
    (h : t ∈ cleaner.clean lines) : '\t' ∉ t := by
  obtain ⟨line, hline, inSection, rfl⟩ := exists_of_mem_cleanFrom h
  obtain ⟨raw, -, rfl⟩ := List.mem_map.mp hline
  exact fun htab =>
    cleaner.tab_not_mem_prepare raw ((cleanLine_sublist _ inSection _).subset htab)

theorem exists_of_cleanFrom_map_eq_self {frame : Frame} {prepare : Text → Text} {inSection : Bool}
    {lines : List Text} (h : cleanFrom frame inSection (lines.map prepare) = lines) :
    ∀ line ∈ lines, ∃ inSection, cleanLine frame inSection (prepare line) = line := by
  induction lines generalizing inSection with
  | nil => exact List.forall_mem_nil _
  | cons line lines ih =>
      obtain ⟨hline, hlines⟩ := List.cons_eq_cons.mp h
      exact List.forall_mem_cons.mpr ⟨⟨inSection, hline⟩, ih hlines⟩

end Cleaner

/-! ## A second cleaning -/

/-- No edge runs down some lines, and none of them ends in white space. -/
def Settled (lines : List Text) : Prop :=
  (Frame.ofLines none lines).isDrawn = false ∧ ∀ line ∈ lines, Text.trimBlankEnd line = line

namespace Cleaner

variable {again : Cleaner} {lines : List Text}

theorem map_prepare_eq_self (cleaner : Cleaner) (htab : ∀ line ∈ lines, '\t' ∉ line)
    (htrim : ∀ line ∈ lines, Text.trimBlankEnd line = line) :
    lines.map cleaner.prepare = lines := by
  have hself : lines.map cleaner.prepare = lines.map id := List.map_congr_left fun line hline =>
    cleaner.prepare_eq_self (htab line hline) (htrim line hline)
  rw [hself, List.map_id]

/-- Settled lines without rules are clean. -/
theorem clean_eq_self (hopener : again.openerEdge = none) (htab : ∀ line ∈ lines, '\t' ∉ line)
    (hrules : RuleFree false lines) (h : Settled lines) : again.clean lines = lines := by
  rw [clean, again.map_prepare_eq_self htab h.2, hopener]
  exact cleanFrom_eq_self h.1 hrules

/-- A cleaning that changes nothing finds no frame and no white space to take off: both would make
a line shorter, and no line gets longer. -/
theorem settled_of_clean_eq_self (hopener : again.openerEdge = none)
    (htab : ∀ line ∈ lines, '\t' ∉ line) (h : again.clean lines = lines) : Settled lines := by
  rw [clean, hopener] at h
  have hcleaned := exists_of_cleanFrom_map_eq_self h
  have htrim : ∀ line ∈ lines, Text.trimBlankEnd line = line := by
    intro line hline
    obtain ⟨inSection, hself⟩ := hcleaned line hline
    have hlength : line.length ≤ (again.prepare line).length :=
      (congrArg List.length hself).ge.trans (cleanLine_sublist _ _ _).length_le
    exact (Text.trimEnd_isPrefix _ line).eq_of_length_le
      (hlength.trans (again.length_prepare_le (htab line hline)))
  refine ⟨?_, htrim⟩
  rw [again.map_prepare_eq_self htab htrim] at h hcleaned
  rw [← Bool.not_eq_true]
  intro hdrawn
  obtain ⟨line, hline, hrule, hshorter⟩ := Frame.exists_length_strip_lt hdrawn
  obtain ⟨inSection, hself⟩ := hcleaned line hline
  rw [again.prepare_eq_self (htab line hline) (htrim line hline)] at hself
  exact absurd (congrArg List.length hself) (length_cleanLine_lt hrule hshorter).ne

end Cleaner

/-! ## Without a frame -/

namespace Frame.Survey

/-- What the same lines say before and after a cleaning that found no frame. -/
structure Fades (s s' : Survey) : Prop where
  left : s.left.Fades s'.left
  right : s.right.Fades s'.right
  /-- Without an opener the first line has no excuse. -/
  broken : s.firstUnmarked = true → s'.left = .broken
  firstUnmarked : s'.firstUnmarked = false

theorem Fades.start : Fades {} {} where
  left := .same _
  right := .same _
  broken := nofun
  firstUnmarked := rfl

variable {s s' : Survey} {line line' : Text}

theorem add_nil (s : Survey) (behindOpener : Bool) :
    s.add behindOpener [] = { s with left := s.left.afterBlank, right := s.right.afterBlank } := rfl

/-- A line that stays, or that is a rule and becomes blank. -/
def Blanked (line line' : Text) : Prop := line' = line ∨ Rule.isIndentedRule line ∧ line' = []

theorem Fades.add (h : Fades s s') (hline : Blanked line line') (behindOpener : Bool) :
    Fades (s.add behindOpener line) (s'.add false line') := by
  rcases hline with rfl | ⟨hrule, rfl⟩
  · have hnone : ∀ e : Edge, e.observe none = .broken := fun e => by cases e <;> rfl
    have hbroken : s.firstUnmarked = true → ∀ o, s'.left.beforeContent.observe o = .broken :=
      fun hs o => by rw [h.broken hs]; rfl
    rw [Survey.add, Survey.add]
    dsimp only
    split_ifs with hblank hrule hunmarked hfalse hfalse
    · exact ⟨h.left.afterBlank, h.right.afterBlank, fun hs => by rw [h.broken hs]; rfl,
        h.firstUnmarked⟩
    · exact h
    · exact absurd hfalse.2.1 id
    · rw [hunmarked.2.2, hnone]
      exact ⟨.broken _, h.right.observe _, fun _ => rfl, h.firstUnmarked⟩
    · exact absurd hfalse.2.1 id
    · exact ⟨h.left.observe _, h.right.observe _, fun hs => hbroken hs _, h.firstUnmarked⟩
  · have hcontent : Text.trimStart Text.isSpace line ≠ [] := fun hblank => by
      rw [Rule.isIndentedRule, hblank] at hrule
      exact absurd hrule (by decide)
    have hsame : s.add behindOpener line = s := by
      rw [Survey.add]
      dsimp only
      exact (if_neg hcontent).trans (if_pos hrule)
    rw [hsame, add_nil]
    exact ⟨h.left.afterRule, h.right.afterRule, fun hs => by rw [h.broken hs]; rfl,
      h.firstUnmarked⟩

theorem Fades.foldl {lines lines' : List Text} (h : Fades s s')
    (hlines : List.Forall₂ Blanked lines lines') :
    Fades (lines.foldl (·.add false ·) s) (lines'.foldl (·.add false ·) s') := by
  induction hlines generalizing s s' with
  | nil => exact h
  | cons hline _ ih => exact ih (h.add hline false)

theorem Fades.isDrawn_frame (h : Fades s s') {openerEdge : Option Char}
    (hframe : (s.frame openerEdge).isDrawn = false) : (s'.frame none).isDrawn = false := by
  obtain ⟨hleft, hright⟩ := Bool.or_eq_false_iff.mp hframe
  have hleft' : s'.left.symbol? = none := by
    cases hs : s.firstUnmarked with
    | true => rw [h.broken hs]; rfl
    | false => exact h.left.symbol?_eq_none (by simpa [frame, hs] using hleft)
  have hright' : s'.right.symbol? = none :=
    h.right.symbol?_eq_none (by simpa [frame] using hright)
  simp [isDrawn, frame, hleft', hright', h.firstUnmarked]

end Frame.Survey

theorem Frame.isDrawn_ofLines_of_blanked {openerEdge : Option Char} {lines lines' : List Text}
    (hlines : List.Forall₂ Survey.Blanked lines lines')
    (h : (ofLines openerEdge lines).isDrawn = false) : (ofLines none lines').isDrawn = false := by
  cases hlines with
  | nil => rfl
  | cons hline hlines =>
      exact ((Survey.Fades.start.add hline openerEdge.isSome).foldl hlines).isDrawn_frame h

namespace Cleaner

theorem blanked_cleanLine {frame : Frame} (h : frame.isDrawn = false) (inSection : Bool)
    (line : Text) : Frame.Survey.Blanked line (cleanLine frame inSection line) := by
  rw [cleanLine]
  split_ifs with hrule
  · exact .inl rfl
  · exact .inr ⟨hrule, rfl⟩
  · simp only [Frame.strip_eq_self h, h, Bool.false_and, Bool.false_eq_true, if_false]
    exact .inl rfl

/-- Without a frame, cleaning does nothing more than to blank rules. -/
theorem blanked_cleanFrom {frame : Frame} (h : frame.isDrawn = false) (inSection : Bool)
    (lines : List Text) :
    List.Forall₂ Frame.Survey.Blanked lines (cleanFrom frame inSection lines) := by
  induction lines generalizing inSection with
  | nil => exact .nil
  | cons line lines ih => exact .cons (blanked_cleanLine h inSection line) (ih _)

/-- A comment without a frame shows none when it is cleaned. -/
theorem settled_clean {cleaner : Cleaner} {lines : List Text}
    (h : (Frame.ofLines cleaner.openerEdge (lines.map cleaner.prepare)).isDrawn = false) :
    Settled (cleaner.clean lines) := by
  refine ⟨Frame.isDrawn_ofLines_of_blanked (blanked_cleanFrom h false _) h, fun t ht => ?_⟩
  obtain ⟨line, hline, inSection, rfl⟩ := exists_of_mem_cleanFrom ht
  obtain ⟨raw, -, rfl⟩ := List.mem_map.mp hline
  rcases blanked_cleanLine h inSection (cleaner.prepare raw) with hsame | ⟨-, hblank⟩
  · rw [hsame]
    exact cleaner.trimBlankEnd_prepare raw
  · rw [hblank]
    rfl

/-- A second cleaning, without an opener and for any distance of tab stops, changes nothing
exactly if no edge runs down the cleaned lines and none of them ends in white space. So it is
whenever the first cleaning found no frame. -/
theorem clean_clean (cleaner : Cleaner) (settings : Settings) (lines : List Text) :
    let cleaned := cleaner.clean lines
    ((ofSettings settings).clean cleaned = cleaned ↔ Settled cleaned) ∧
      ((Frame.ofLines cleaner.openerEdge (lines.map cleaner.prepare)).isDrawn = false →
        (ofSettings settings).clean cleaned = cleaned) := by
  intro cleaned
  have htab : ∀ line ∈ cleaned, '\t' ∉ line := fun _ => cleaner.tab_not_mem_clean
  have hself : Settled cleaned → (ofSettings settings).clean cleaned = cleaned :=
    clean_eq_self rfl htab (ruleFree_cleanFrom _ false _)
  exact ⟨⟨settled_of_clean_eq_self rfl htab, hself⟩, fun h => hself (settled_clean h)⟩

/-- The bullets in a box are taken for a frame when the box is gone. -/
theorem clean_clean_bullets :
    let cleaner := ofSettings {}
    let lines := ["# * a".toList, "# * b".toList]
    cleaner.clean lines = [" * a".toList, " * b".toList] ∧
      cleaner.clean (cleaner.clean lines) ≠ cleaner.clean lines := by
  decide

/-- Only spaces go with a right edge. -/
example : (ofSettings {}).clean ["a\u00a0 #".toList] = ["a\u00a0".toList] := by decide

end Cleaner

end Commentary
