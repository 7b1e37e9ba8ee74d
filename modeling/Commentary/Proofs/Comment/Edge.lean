import Commentary.Proofs.Comment.Verbatim
import Commentary.Proofs.Text.Parts

/-!
# Where an edge stands

Whether an edge stands is known after the last line, and the survey carries its opinion in four
states from line to line. What they come to is a condition on all lines together: every line with
content is marked with one symbol, and no blank line stands between them. Only the line behind an
opener may lack the mark, and only for the opener's own symbol.
-/

namespace Commentary

namespace Edge

/-! ## Marked lines -/

/-- A line without its indentation has content if it is neither blank nor a rule. -/
def IsContent (t : Text) : Prop := t ≠ [] ∧ Rule.isRule t = false

/-- A line starts with a run of a symbol, and then comes a space or the end. -/
def MarkedLeft (c : Char) (t : Text) : Prop :=
  isSymbol c ∧ ∃ n rest, t = List.replicate (n + 1) c ++ rest ∧ (rest = [] ∨ rest.head? = some ' ')

/-- A line ends in a run of a symbol behind a space. -/
def MarkedRight (c : Char) (t : Text) : Prop :=
  isSymbol c ∧ ∃ start n, t = start ++ ' ' :: List.replicate (n + 1) c

variable {c d : Char} {t : Text} {ts : List Text}

theorem ne_space_of_isSymbol (h : isSymbol c) : c ≠ ' ' := by
  rintro rfl
  exact absurd h (by decide)

theorem head?_ne_of_isSymbol (h : isSymbol c) (ht : t = [] ∨ t.head? = some ' ') :
    t.head? ≠ some c := by
  rcases ht with rfl | ht
  · simp
  · simpa [ht] using (ne_space_of_isSymbol h).symm

/-- What starts with a run of a symbol is that run and what is left without it. -/
theorem exists_eq_replicate_append (c : Char) (t : Text) :
    ∃ n, t = List.replicate n c ++ t.dropWhile (· = c) := by
  induction t with
  | nil => exact ⟨0, rfl⟩
  | cons d t ih =>
      by_cases hd : d = c
      · obtain ⟨n, hn⟩ := ih
        refine ⟨n + 1, ?_⟩
        simpa [hd, List.replicate_succ] using hn
      · exact ⟨0, by simp [hd]⟩

theorem dropWhile_replicate_append {n : Nat} {rest : Text} (h : rest.head? ≠ some c) :
    (List.replicate n c ++ rest).dropWhile (· = c) = rest := by
  rw [List.dropWhile_append_of_pos (by simp)]
  cases rest with
  | nil => rfl
  | cons d rest => simp_all

theorem leftSymbol?_eq_some_iff : leftSymbol? t = some c ↔ MarkedLeft c t := by
  constructor
  · intro h
    cases t with
    | nil => cases h
    | cons d t =>
        obtain ⟨hd, heq⟩ := Option.ite_none_right_eq_some.mp h
        cases heq
        simp only [Bool.and_eq_true, Bool.or_eq_true, decide_eq_true_eq] at hd
        obtain ⟨n, hn⟩ := exists_eq_replicate_append c t
        exact ⟨hd.1, n, _, congrArg (c :: ·) hn, hd.2⟩
  · rintro ⟨hc, n, rest, rfl, hrest⟩
    have hdrop := dropWhile_replicate_append (n := n) (head?_ne_of_isSymbol hc hrest)
    rw [List.replicate_succ, List.cons_append, leftSymbol?, hdrop]
    exact if_pos (by simpa [hc] using hrest)

theorem trimEnd_append_replicate {s : Text} (h : s.getLast? ≠ some c) (n : Nat) :
    Text.trimEnd (· = c) (s ++ List.replicate n c) = s := by
  induction n with
  | zero =>
      simp only [List.replicate_zero, List.append_nil]
      exact Text.trimEnd_eq_self_iff.mpr fun d hd => by grind
  | succ n ih =>
      rw [List.replicate_succ', ← List.append_assoc, Text.trimEnd_concat]
      simpa using ih

theorem exists_eq_append_replicate (c : Char) (t : Text) :
    ∃ n, t = Text.trimEnd (· = c) t ++ List.replicate n c := by
  induction t using List.reverseRecOn with
  | nil => exact ⟨0, rfl⟩
  | append_singleton t d ih =>
      rw [Text.trimEnd_concat]
      by_cases hd : d = c
      · obtain ⟨n, hn⟩ := ih
        refine ⟨n + 1, ?_⟩
        simp only [hd, decide_true, if_true, List.replicate_succ', ← List.append_assoc]
        exact congrArg (· ++ [c]) hn
      · exact ⟨0, by simp [hd]⟩

theorem rightSymbol?_eq_some_iff : rightSymbol? t = some c ↔ MarkedRight c t := by
  constructor
  · intro h
    rw [rightSymbol?] at h
    split at h
    · cases h
    · next d hlast =>
        obtain ⟨hd, heq⟩ := Option.ite_none_right_eq_some.mp h
        cases heq
        simp only [Bool.and_eq_true, decide_eq_true_eq] at hd
        obtain ⟨start, hstart⟩ := List.getLast?_eq_some_iff.mp hd.2
        obtain ⟨n, hn⟩ := exists_eq_append_replicate c t
        rw [hstart] at hn
        cases n with
        | zero =>
            have hspace : ' ' = c := by simpa [hn] using hlast
            exact absurd hspace.symm (ne_space_of_isSymbol hd.1)
        | succ n => exact ⟨hd.1, start, n, by simpa using hn⟩
  · rintro ⟨hc, start, n, rfl⟩
    have hspace : (start ++ [' ']).getLast? ≠ some c := by
      simpa using (ne_space_of_isSymbol hc).symm
    have htrim := trimEnd_append_replicate hspace (n + 1)
    have hlast : (start ++ [' '] ++ List.replicate (n + 1) c).getLast? = some c := by
      rw [List.replicate_succ', ← List.append_assoc, List.getLast?_concat]
    rw [← List.singleton_append, ← List.append_assoc, rightSymbol?, hlast]
    dsimp only
    rw [htrim]
    simp [hc]

/-! ## Reading one edge -/

/-- What a line says about an edge whose symbol is looked for by `mark?`. -/
def add (mark? : Text → Option Char) (e : Edge) (t : Text) : Edge :=
  if t = [] then e.afterBlank
  else if Rule.isRule t then e
  else e.beforeContent.observe (mark? t)

/-- All lines with content are marked, and no blank line stands between two of them. -/
structure RunsDown (Marked : Text → Prop) (ts : List Text) : Prop where
  content : ∃ t ∈ ts, IsContent t
  marked : ∀ t ∈ ts, IsContent t → Marked t
  together : ∀ x y, IsContent x → IsContent y → ¬ [x, [], y].Sublist ts

theorem not_isContent_nil : ¬ IsContent [] := fun h => h.1 rfl

theorem not_isContent_of_isRule (h : Rule.isRule t) : ¬ IsContent t := by
  simp [IsContent, h]

theorem ne_nil_of_isRule (h : Rule.isRule t) : t ≠ [] := by
  rintro rfl
  exact absurd h (by decide)

/-- A line is blank, a rule, or one with content. -/
theorem line_cases (t : Text) : t = [] ∨ Rule.isRule t ∨ IsContent t := by
  by_cases hnil : t = []
  · exact .inl hnil
  · cases hrule : Rule.isRule t with
    | true => exact .inr (.inl rfl)
    | false => exact .inr (.inr ⟨hnil, hrule⟩)

variable {mark? : Text → Option Char} {Marked : Text → Prop} {e : Edge}

theorem add_nil : e.add mark? [] = e.afterBlank := if_pos rfl

theorem add_of_isRule (h : Rule.isRule t) : e.add mark? t = e := by
  rw [add, if_neg (ne_nil_of_isRule h), if_pos h]

theorem add_of_isContent (h : IsContent t) :
    e.add mark? t = e.beforeContent.observe (mark? t) := by
  simp [add, h.1, h.2]

theorem symbol?_foldl_broken : (ts.foldl (add mark?) broken).symbol? = none := by
  induction ts with
  | nil => rfl
  | cons t ts ih =>
      rcases line_cases t with rfl | h | h
      · simpa [add_nil, afterBlank] using ih
      · simpa [add_of_isRule h] using ih
      · simpa [add_of_isContent h, beforeContent, observe] using ih

/-- Behind a blank line, an edge stands as long as no content follows. -/
theorem symbol?_foldl_uniformThenBlank :
    (ts.foldl (add mark?) (uniformThenBlank d)).symbol? = some c ↔
      d = c ∧ ∀ t ∈ ts, ¬ IsContent t := by
  induction ts with
  | nil => simp [symbol?]
  | cons t ts ih =>
      rcases line_cases t with rfl | h | h
      · simpa [add_nil, afterBlank, not_isContent_nil] using ih
      · simpa [add_of_isRule h, not_isContent_of_isRule h] using ih
      · simp [add_of_isContent h, beforeContent, observe, symbol?_foldl_broken, h]

theorem blank_sublist_nil_cons {y : Text} : [[], y].Sublist ([] :: ts) ↔ y ∈ ts := by
  rw [List.cons_sublist_cons, List.singleton_sublist]

theorem blank_sublist_cons {y : Text} (h : t ≠ []) :
    [[], y].Sublist (t :: ts) ↔ [[], y].Sublist ts := by
  simp [List.cons_sublist_cons', h.symm]

/-- Behind content, an edge stands as long as all content has its symbol, and none follows on a
blank line. -/
theorem symbol?_foldl_uniform (hmark : ∀ t, mark? t = some c ↔ Marked t) :
    (ts.foldl (add mark?) (uniform d)).symbol? = some c ↔
      d = c ∧ (∀ t ∈ ts, IsContent t → Marked t) ∧
        ∀ y, IsContent y → ¬ [[], y].Sublist ts := by
  induction ts with
  | nil => simp [symbol?]
  | cons t ts ih =>
      rcases line_cases t with rfl | h | h
      · simp only [List.foldl_cons, add_nil, afterBlank, symbol?_foldl_uniformThenBlank,
          List.forall_mem_cons, blank_sublist_nil_cons]
        have hnil := not_isContent_nil
        grind
      · simp only [List.foldl_cons, add_of_isRule h, ih, List.forall_mem_cons,
          blank_sublist_cons (ne_nil_of_isRule h)]
        have hrule := not_isContent_of_isRule h
        grind
      · -- Content goes on with the edge or breaks it, and nothing mends an edge that is broken.
        have hstep : add mark? (uniform d) t = if mark? t = some d then uniform d else broken := by
          rw [add_of_isContent h]
          change (uniform d).observe (mark? t) = _
          cases mark? t with
          | none => rfl
          | some d' =>
              simp only [observe, Option.some.injEq]
              grind
        rw [List.foldl_cons, hstep, List.forall_mem_cons, ← hmark]
        simp only [blank_sublist_cons h.1]
        split_ifs with hd
        · rw [ih]
          grind
        · simp only [symbol?_foldl_broken]
          grind

theorem runsDown_cons_of_not_isContent (h : ¬ IsContent t) :
    RunsDown Marked (t :: ts) ↔ RunsDown Marked ts := by
  have hsublist : ∀ x y, IsContent x →
      ([x, [], y].Sublist (t :: ts) ↔ [x, [], y].Sublist ts) := by
    intro x y hx
    rw [List.cons_sublist_cons']
    grind
  constructor
  · rintro ⟨hcontent, hmarked, htogether⟩
    refine ⟨by grind, by grind, fun x y hx hy => ?_⟩
    rw [← hsublist x y hx]
    exact htogether x y hx hy
  · rintro ⟨hcontent, hmarked, htogether⟩
    refine ⟨by grind, by grind, fun x y hx hy => ?_⟩
    rw [hsublist x y hx]
    exact htogether x y hx hy

theorem runsDown_cons_of_isContent (h : IsContent t) :
    RunsDown Marked (t :: ts) ↔ Marked t ∧ (∀ t ∈ ts, IsContent t → Marked t) ∧
      ∀ y, IsContent y → ¬ [[], y].Sublist ts := by
  constructor
  · rintro ⟨-, hmarked, htogether⟩
    rw [List.forall_mem_cons] at hmarked
    exact ⟨hmarked.1 h, hmarked.2, fun y hy hsub => htogether t y h hy (hsub.cons_cons t)⟩
  · rintro ⟨ht, hmarked, htogether⟩
    refine ⟨⟨t, List.mem_cons_self, h⟩, List.forall_mem_cons.mpr ⟨fun _ => ht, hmarked⟩, ?_⟩
    intro x y _ hy hsub
    have htail : [[], y].Sublist ts := hsub.tail
    exact htogether y hy htail

/-- An edge stands after some lines if and only if its symbol runs down all of them. -/
theorem symbol?_foldl_unseen (hmark : ∀ t, mark? t = some c ↔ Marked t) :
    (ts.foldl (add mark?) unseen).symbol? = some c ↔ RunsDown Marked ts := by
  induction ts with
  | nil => exact iff_of_false (by simp [symbol?]) fun h => by simpa using h.content
  | cons t ts ih =>
      rw [List.foldl_cons]
      rcases line_cases t with rfl | h | h
      · rw [add_nil, runsDown_cons_of_not_isContent not_isContent_nil]
        exact ih
      · rw [add_of_isRule h, runsDown_cons_of_not_isContent (not_isContent_of_isRule h)]
        exact ih
      · rw [runsDown_cons_of_isContent h, add_of_isContent h, ← hmark]
        cases hfirst : mark? t with
        | none =>
            refine iff_of_false ?_ (by simp)
            change (ts.foldl (add mark?) broken).symbol? ≠ some c
            simp [symbol?_foldl_broken]
        | some d =>
            rw [Option.some.injEq]
            exact symbol?_foldl_uniform hmark

end Edge

/-! ## The survey -/

namespace Frame.Survey

variable (s : Survey) (behindOpener : Bool) (line : Text) {lines : List Text}

theorem right_add : (s.add behindOpener line).right =
    s.right.add Edge.rightSymbol? (Text.trimStart Text.isSpace line) := by
  rw [add, Edge.add]
  dsimp only
  split_ifs <;> rfl

theorem left_add : (s.add false line).left =
    s.left.add Edge.leftSymbol? (Text.trimStart Text.isSpace line) := by
  rw [add, Edge.add]
  simp only [Bool.false_eq_true, false_and, and_false, if_false]
  split_ifs <;> rfl

theorem firstUnmarked_add : (s.add false line).firstUnmarked = s.firstUnmarked := by
  rw [add]
  simp only [Bool.false_eq_true, false_and, and_false, if_false]
  split_ifs <;> rfl

theorem right_foldl : (lines.foldl (·.add false ·) s).right =
    (lines.map (Text.trimStart Text.isSpace)).foldl (Edge.add Edge.rightSymbol?) s.right := by
  induction lines generalizing s with
  | nil => rfl
  | cons line lines ih => rw [List.foldl_cons, ih, right_add]; rfl

theorem left_foldl : (lines.foldl (·.add false ·) s).left =
    (lines.map (Text.trimStart Text.isSpace)).foldl (Edge.add Edge.leftSymbol?) s.left := by
  induction lines generalizing s with
  | nil => rfl
  | cons line lines ih => rw [List.foldl_cons, ih, left_add]; rfl

theorem firstUnmarked_foldl :
    (lines.foldl (·.add false ·) s).firstUnmarked = s.firstUnmarked := by
  induction lines generalizing s with
  | nil => rfl
  | cons line lines ih => rw [List.foldl_cons, ih, firstUnmarked_add]

/-- The line behind an opener may have content that is not marked. -/
theorem add_start_of_unmarked {line : Text} (h : Edge.IsContent (Text.trimStart Text.isSpace line))
    (hmark : Edge.leftSymbol? (Text.trimStart Text.isSpace line) = none) :
    ((add {} true line).left = .unseen) ∧ (add {} true line).firstUnmarked = true := by
  simp [add, h.1, h.2, hmark, Edge.beforeContent]

/-- Otherwise the first line is read as all others are. -/
theorem add_start_of_marked {behindOpener : Bool} {line : Text}
    (h : behindOpener = true → Edge.IsContent (Text.trimStart Text.isSpace line) →
      Edge.leftSymbol? (Text.trimStart Text.isSpace line) ≠ none) :
    (add {} behindOpener line).left =
        Edge.unseen.add Edge.leftSymbol? (Text.trimStart Text.isSpace line) ∧
      (add {} behindOpener line).firstUnmarked = false := by
  rw [add, Edge.add]
  dsimp only
  split_ifs with hnil hrule hunmarked
  · exact ⟨rfl, rfl⟩
  · exact ⟨rfl, rfl⟩
  · exact absurd hunmarked.2.2 (h hunmarked.2.1 ⟨hnil, by simpa using hrule⟩)
  · exact ⟨rfl, rfl⟩

end Frame.Survey

/-! ## The condition on all lines -/

namespace Edge

/-- A symbol runs down the left edge of some lines. The first of them may lack the mark of any
symbol if it stands behind an opener that ends with this one. -/
structure LeftEdge (opener : Option Text) (c : Char) (ts : List Text) : Prop where
  content : ∃ t ∈ ts, IsContent t ∧ MarkedLeft c t
  marked : ∀ n t, ts[n]? = some t → IsContent t → MarkedLeft c t ∨
    (n = 0 ∧ (∀ d, ¬ MarkedLeft d t) ∧ ∃ o, opener = some o ∧ o.getLast? = some c)
  together : ∀ x y, IsContent x → MarkedLeft c x → IsContent y → ¬ [x, [], y].Sublist ts

variable {opener : Option Text} {c : Char} {t : Text} {ts : List Text}

/-- Where the first line is not excused, the left edge is like the right one. -/
theorem leftEdge_iff_of_marked (h : IsContent t → (∀ d, ¬ MarkedLeft d t) → isSymbol c →
      ¬ ∃ o, opener = some o ∧ o.getLast? = some c) :
    LeftEdge opener c (t :: ts) ↔ RunsDown (MarkedLeft c) (t :: ts) := by
  constructor
  · rintro ⟨⟨x, hx, hcontent, hmark⟩, hmarked, htogether⟩
    have hall : ∀ y ∈ t :: ts, IsContent y → MarkedLeft c y := by
      intro y hy hcontent
      obtain ⟨n, hn⟩ := List.mem_iff_getElem?.mp hy
      rcases hmarked n y hn hcontent with hy | ⟨rfl, hnone, hopener⟩
      · exact hy
      · cases hn
        exact absurd hopener (h hcontent hnone hmark.1)
    refine ⟨⟨x, hx, hcontent⟩, hall, fun x y hx hy hsub => ?_⟩
    exact htogether x y hx (hall x (hsub.subset List.mem_cons_self) hx) hy hsub
  · rintro ⟨⟨x, hx, hcontent⟩, hmarked, htogether⟩
    refine ⟨⟨x, hx, hcontent, hmarked x hx hcontent⟩, fun n y hn hy => ?_, ?_⟩
    · exact .inl (hmarked y (List.mem_of_getElem? hn) hy)
    · exact fun x y hx _ hy => htogether x y hx hy

/-- Behind an excused line the edge runs down the other ones. -/
theorem leftEdge_iff_of_unmarked (h : IsContent t) (hnone : ∀ d, ¬ MarkedLeft d t) :
    LeftEdge opener c (t :: ts) ↔
      RunsDown (MarkedLeft c) ts ∧ ∃ o, opener = some o ∧ o.getLast? = some c := by
  constructor
  · rintro ⟨⟨x, hx, hcontent, hmark⟩, hmarked, htogether⟩
    have hall : ∀ y ∈ ts, IsContent y → MarkedLeft c y := by
      intro y hy hcontent
      obtain ⟨n, hn⟩ := List.mem_iff_getElem?.mp hy
      rcases hmarked (n + 1) y hn hcontent with hy | ⟨hzero, -⟩
      · exact hy
      · cases hzero
    have hopener : ∃ o, opener = some o ∧ o.getLast? = some c := by
      rcases hmarked 0 t rfl h with ht | ⟨-, -, hopener⟩
      · exact absurd ht (hnone c)
      · exact hopener
    refine ⟨⟨⟨x, ?_, hcontent⟩, hall, fun x y hx hy hsub => ?_⟩, hopener⟩
    · rcases List.mem_cons.mp hx with rfl | hx
      · exact absurd hmark (hnone c)
      · exact hx
    · exact htogether x y hx (hall x (hsub.subset List.mem_cons_self) hx) hy (hsub.cons t)
  · rintro ⟨⟨⟨x, hx, hcontent⟩, hmarked, htogether⟩, hopener⟩
    refine ⟨⟨x, List.mem_cons_of_mem t hx, hcontent, hmarked x hx hcontent⟩, ?_, ?_⟩
    · intro n y hn hy
      cases n with
      | zero =>
          cases hn
          exact .inr ⟨rfl, hnone, hopener⟩
      | succ n => exact .inl (hmarked y (List.mem_of_getElem? hn) hy)
    · intro x y hx hmark hy hsub
      rw [List.cons_sublist_cons'] at hsub
      rcases hsub with hsub | ⟨rfl, -⟩
      · exact htogether x y hx hy hsub
      · exact hnone c hmark

end Edge

namespace Frame

open Edge

variable {openerEdge : Option Char} {line : Text} {lines : List Text} {c : Char}

theorem right_ofLines_iff : (ofLines openerEdge lines).right = some c ↔
    RunsDown (MarkedRight c) (lines.map (Text.trimStart Text.isSpace)) := by
  rw [← symbol?_foldl_unseen fun _ => rightSymbol?_eq_some_iff]
  cases lines with
  | nil => simp [ofLines, symbol?]
  | cons line lines =>
      rw [ofLines, Survey.frame, Survey.right_foldl, Survey.right_add, List.map_cons,
        List.foldl_cons]

theorem left_frame_iff {s : Survey} : (s.frame openerEdge).left = some c ↔
    s.left.symbol? = some c ∧ (s.firstUnmarked = true → openerEdge = some c) := by
  rw [Survey.frame]
  dsimp only
  split_ifs <;> grind

/-- Behind a first line without a mark the left edge has to be the opener's own. -/
theorem left_ofLines_iff_of_unmarked (h : IsContent (Text.trimStart Text.isSpace line))
    (hmark : leftSymbol? (Text.trimStart Text.isSpace line) = none) (hopener : openerEdge.isSome) :
    (ofLines openerEdge (line :: lines)).left = some c ↔
      RunsDown (MarkedLeft c) (lines.map (Text.trimStart Text.isSpace)) ∧ openerEdge = some c := by
  obtain ⟨hleft, hunmarked⟩ := Survey.add_start_of_unmarked h hmark
  rw [ofLines, left_frame_iff, Survey.left_foldl, Survey.firstUnmarked_foldl, hopener, hleft,
    hunmarked, symbol?_foldl_unseen fun _ => leftSymbol?_eq_some_iff]
  simp

theorem left_ofLines_iff_of_marked
    (h : openerEdge.isSome → IsContent (Text.trimStart Text.isSpace line) →
      leftSymbol? (Text.trimStart Text.isSpace line) ≠ none) :
    (ofLines openerEdge (line :: lines)).left = some c ↔
      RunsDown (MarkedLeft c) ((line :: lines).map (Text.trimStart Text.isSpace)) := by
  obtain ⟨hleft, hmarked⟩ := Survey.add_start_of_marked h
  rw [ofLines, left_frame_iff, Survey.left_foldl, Survey.firstUnmarked_foldl, hleft, hmarked,
    ← symbol?_foldl_unseen fun _ => leftSymbol?_eq_some_iff, List.map_cons, List.foldl_cons]
  simp

end Frame

namespace Cleaner

/-- A cleaner for a comment that may stand behind an opener. -/
def behind (settings : Settings) : Option Text → Cleaner
  | none => ofSettings settings
  | some opener => (ofSettings settings).afterOpener opener

/-- A line without white space at its end, without tabs and without its indentation. -/
def bare (cleaner : Cleaner) (line : Text) : Text :=
  Text.trimStart Text.isSpace (cleaner.prepare line)

open Edge

variable {settings : Settings} {opener : Option Text} {c : Char}

theorem openerEdge_behind_eq_some : (behind settings opener).openerEdge = some c ↔
    isSymbol c ∧ ∃ o, opener = some o ∧ o.getLast? = some c := by
  cases opener with
  | none => simp [behind, ofSettings]
  | some o => simp [behind, afterOpener, Option.filter_eq_some_iff, and_comm]

theorem left_behind_iff (lines : List Text) :
    (Frame.ofLines (behind settings opener).openerEdge lines).left = some c ↔
      LeftEdge opener c (lines.map (Text.trimStart Text.isSpace)) := by
  cases lines with
  | nil => exact iff_of_false nofun fun h => by simpa using h.content
  | cons line lines =>
      by_cases hun : IsContent (Text.trimStart Text.isSpace line) ∧
          leftSymbol? (Text.trimStart Text.isSpace line) = none ∧
          (behind settings opener).openerEdge.isSome
      · obtain ⟨hcontent, hmark, hopener⟩ := hun
        have hnone : ∀ d, ¬ MarkedLeft d (Text.trimStart Text.isSpace line) := by
          intro d
          rw [← leftSymbol?_eq_some_iff, hmark]
          exact nofun
        rw [Frame.left_ofLines_iff_of_unmarked hcontent hmark hopener, List.map_cons,
          leftEdge_iff_of_unmarked hcontent hnone, openerEdge_behind_eq_some]
        refine and_congr_right fun hruns => and_iff_right_of_imp fun _ => ?_
        obtain ⟨t, ht, htcontent⟩ := hruns.content
        exact (hruns.marked t ht htcontent).1
      · have hmarked : (behind settings opener).openerEdge.isSome →
            IsContent (Text.trimStart Text.isSpace line) →
            leftSymbol? (Text.trimStart Text.isSpace line) ≠ none := by grind
        rw [Frame.left_ofLines_iff_of_marked hmarked, List.map_cons]
        refine (leftEdge_iff_of_marked fun hcontent hnone hsymbol hopener => ?_).symm
        have hedge : (behind settings opener).openerEdge = some c :=
          openerEdge_behind_eq_some.mpr ⟨hsymbol, hopener⟩
        obtain ⟨d, hd⟩ := Option.ne_none_iff_exists'.mp (hmarked (by rw [hedge]; rfl) hcontent)
        exact hnone d (leftSymbol?_eq_some_iff.mp hd)

theorem map_trimStart_prepare (cleaner : Cleaner) (lines : List Text) :
    (lines.map cleaner.prepare).map (Text.trimStart Text.isSpace) = lines.map cleaner.bare := by
  rw [List.map_map]
  rfl

theorem left_frame_behind_iff (lines : List Text) :
    ((behind settings opener).frame lines).left = some c ↔
      LeftEdge opener c (lines.map (behind settings opener).bare) := by
  rw [← map_trimStart_prepare]
  exact left_behind_iff _

/-- The frame of a comment, as a condition on all of its lines. -/
theorem edges_iff (settings : Settings) (opener : Option Text) (lines : List Text) (c : Char) :
    let cleaner := behind settings opener
    let ts := lines.map cleaner.bare
    ((cleaner.frame lines).right = some c ↔ RunsDown (MarkedRight c) ts) ∧
      ((cleaner.frame lines).left = some c ↔ LeftEdge opener c ts) := by
  intro cleaner ts
  refine ⟨?_, left_frame_behind_iff lines⟩
  rw [show ts = _ from (map_trimStart_prepare cleaner lines).symm]
  exact Frame.right_ofLines_iff

end Cleaner

end Commentary
