import Commentary.Proofs.Comment.Repetition
import Mathlib.Data.List.Forall2

/-!
# Letters and digits of a comment

Cleaning takes edges, rules and white space away, and none of them holds a letter or a digit. What
it leaves of a line is one piece of it, and every letter and every digit of the line stands in that
piece.
-/

namespace Commentary

namespace Text

/-! ## White space -/

/-- The code points of white space. -/
def blankCodes : List Nat :=
  List.range' 0x09 5 ++ [0x20, 0x85, 0xA0, 0x1680] ++ List.range' 0x2000 11 ++
    [0x2028, 0x2029, 0x202F, 0x205F, 0x3000]

theorem toNat_mem_blankCodes {c : Char} (h : isBlank c) : c.toNat ∈ blankCodes := by
  simp only [isBlank, Bool.or_eq_true, Bool.and_eq_true, beq_iff_eq, decide_eq_true_eq] at h
  simp only [blankCodes, List.mem_append, List.mem_range'_1, List.mem_cons]
  omega

theorem isAlphanumeric_of_isBlank {c : Char} (h : isBlank c) : isAlphanumeric c = false := by
  have hcodes : ∀ n ∈ blankCodes, isAlphanumeric (Char.ofNat n) = false := by decide +kernel
  simpa using hcodes _ (toNat_mem_blankCodes h)

theorem isAlphanumeric_of_isSpace {c : Char} (h : isSpace c) : isAlphanumeric c = false := by
  rw [eq_of_beq h]
  decide

/-! ## Pieces of a line -/

/-- The letters and digits of a text, in order. -/
def alphanumerics (t : Text) : Text := t.filter isAlphanumeric

theorem alphanumerics_append (s t : Text) :
    alphanumerics (s ++ t) = s.alphanumerics ++ t.alphanumerics :=
  List.filter_append ..

theorem alphanumerics_eq_nil_iff {t : Text} :
    t.alphanumerics = [] ↔ ∀ c ∈ t, isAlphanumeric c = false := by
  simp [alphanumerics]

/-- A piece of a line without a letter or a digit before it or behind it. -/
def Core (line t : Text) : Prop :=
  ∃ before after, line = before ++ t ++ after ∧ ∀ c ∈ before ++ after, isAlphanumeric c = false

namespace Core

variable {line s t : Text} {p : Char → Bool}

theorem alphanumerics_eq (h : Core line t) : t.alphanumerics = line.alphanumerics := by
  obtain ⟨before, after, rfl, hnone⟩ := h
  obtain ⟨hbefore, hafter⟩ := List.forall_mem_append.mp hnone
  rw [alphanumerics_append, alphanumerics_append, alphanumerics_eq_nil_iff.mpr hbefore,
    alphanumerics_eq_nil_iff.mpr hafter, List.nil_append, List.append_nil]

theorem refl (t : Text) : Core t t := ⟨[], [], by simp, by simp⟩

theorem trans (h : Core line s) (h' : Core s t) : Core line t := by
  obtain ⟨before, after, rfl, hnone⟩ := h
  obtain ⟨before', after', rfl, hnone'⟩ := h'
  refine ⟨before ++ before', after' ++ after, by simp, fun c hc => ?_⟩
  simp only [List.mem_append] at hc hnone hnone'
  grind

/-- A line without letters and digits may go as a whole. -/
theorem nil (h : line.alphanumerics = []) : Core line [] :=
  ⟨line, [], by simp, by simpa using alphanumerics_eq_nil_iff.mp h⟩

theorem dropWhile (h : ∀ c, p c → isAlphanumeric c = false) (t : Text) : Core t (t.dropWhile p) :=
  ⟨t.takeWhile p, [], by simp, fun c hc =>
    h c (List.mem_takeWhile_imp ((List.append_nil (t.takeWhile p)) ▸ hc))⟩

theorem trimEnd (h : ∀ c, p c → isAlphanumeric c = false) (t : Text) : Core t (trimEnd p t) := by
  induction t using List.reverseRecOn with
  | nil => exact refl []
  | append_singleton t c ih =>
      rw [trimEnd_concat]
      split_ifs with hc
      · exact trans ⟨[], [c], by simp, by simpa using h c hc⟩ ih
      · exact refl _

end Core

theorem alphanumerics_spaces (n : Nat) : (spaces n).alphanumerics = [] :=
  alphanumerics_eq_nil_iff.mpr fun c hc => by rw [List.eq_of_mem_replicate hc]; decide

theorem alphanumerics_expandTabsFrom (width column : Nat) (t : Text) :
    (expandTabsFrom width column t).alphanumerics = t.alphanumerics := by
  induction t generalizing column with
  | nil => rfl
  | cons c t ih =>
      rw [expandTabsFrom]
      split_ifs with hc
      · rw [alphanumerics_append, alphanumerics_spaces, List.nil_append, ih, hc]
        rfl
      · exact (alphanumerics_append [c] _).trans
          ((congrArg _ (ih _)).trans (alphanumerics_append [c] t).symm)

end Text

open Text

/-! ## Edges and rules -/

theorem isAlphanumeric_of_isSymbol {c : Char} (h : isSymbol c) : isAlphanumeric c = false := by
  simpa using (Bool.and_eq_true_iff.mp h).1

theorem isAlphanumeric_of_eq_symbol {c : Char} (h : isSymbol c) (d : Char) (hd : decide (d = c)) :
    isAlphanumeric d = false := by
  rw [of_decide_eq_true hd]
  exact isAlphanumeric_of_isSymbol h

theorem Edge.core_dropLeft (line : Text) : Core line (dropLeft line) := by
  have hindent : Core line (trimStart isSpace line) :=
    Core.dropWhile (fun _ => isAlphanumeric_of_isSpace) line
  rw [dropLeft]
  split
  · exact .refl line
  · next c t ht =>
      split_ifs with hc
      · have hrun : Core (c :: t) ((c :: t).dropWhile (· = c)) :=
          Core.dropWhile (isAlphanumeric_of_eq_symbol hc) _
        rw [ht] at hindent
        simpa using hindent.trans hrun
      · exact .refl line

theorem Edge.core_dropRight (line : Text) : Core line (dropRight line) := by
  rw [dropRight]
  split
  · exact .refl line
  · next c _ =>
      split_ifs with hc
      · exact (Core.trimEnd (isAlphanumeric_of_eq_symbol hc) line).trans
          (Core.trimEnd (fun _ => isAlphanumeric_of_isSpace) _)
      · exact .refl line

theorem Frame.core_strip (f : Frame) (line : Text) : Core line (f.strip line) := by
  rw [strip]
  split_ifs
  · exact (Edge.core_dropLeft line).trans (Edge.core_dropRight _)
  · exact Edge.core_dropRight line
  · exact Edge.core_dropLeft line
  · exact .refl line

/-- A rule is made of symbols, apart from the white space around it. -/
theorem Rule.alphanumerics_of_isIndentedRule {line : Text} (h : isIndentedRule line) :
    line.alphanumerics = [] := by
  have hcore : Core line (trimBlankEnd (trimStart isSpace line)) :=
    (Core.dropWhile (fun _ => isAlphanumeric_of_isSpace) line).trans
      (Core.trimEnd (fun _ => isAlphanumeric_of_isBlank) _)
  simp only [isIndentedRule, isRule, Bool.and_eq_true, List.all_eq_true] at h
  rw [← hcore.alphanumerics_eq, alphanumerics_eq_nil_iff]
  exact fun c hc => isAlphanumeric_of_isSymbol (h.1.2 c hc)

/-! ## Cleaning -/

namespace Cleaner

theorem alphanumerics_prepare (cleaner : Cleaner) (line : Text) :
    (cleaner.prepare line).alphanumerics = line.alphanumerics :=
  (alphanumerics_expandTabsFrom ..).trans
    (Core.trimEnd (fun _ => isAlphanumeric_of_isBlank) line).alphanumerics_eq

theorem core_cleanLine (frame : Frame) (inSection : Bool) (line : Text) :
    Core line (cleanLine frame inSection line) := by
  rw [cleanLine]
  split_ifs with hrule
  · exact .refl line
  · exact .nil (Rule.alphanumerics_of_isIndentedRule hrule)
  · have hstripped := frame.core_strip line
    dsimp only
    split_ifs with hblank
    · simp only [Bool.and_eq_true] at hblank
      exact hstripped.trans (.nil (Rule.alphanumerics_of_isIndentedRule hblank.1.2))
    · exact hstripped

theorem core_cleanFrom (frame : Frame) (inSection : Bool) (lines : List Text) :
    List.Forall₂ Core lines (cleanFrom frame inSection lines) := by
  induction lines generalizing inSection with
  | nil => exact .nil
  | cons line lines ih => exact .cons (core_cleanLine frame inSection line) (ih _)

/-- Cleaning leaves one piece of every line, without white space at its end and with its tabs
expanded, and no letter or digit stands outside of that piece. So the letters and digits of the line
are those of the comment, whatever opener stood before it and however wide its tabs are. -/
theorem core_clean (cleaner : Cleaner) (lines : List Text) :
    List.Forall₂
      (fun line cleaned =>
        Core (cleaner.prepare line) cleaned ∧ cleaned.alphanumerics = line.alphanumerics)
      lines (cleaner.clean lines) := by
  have hcores : List.Forall₂ (fun line cleaned => Core (cleaner.prepare line) cleaned) lines
      (cleaner.clean lines) := List.forall₂_map_left_iff.mp (core_cleanFrom _ false _)
  refine hcores.imp fun line cleaned hcore => ⟨hcore, ?_⟩
  rw [hcore.alphanumerics_eq, alphanumerics_prepare]

end Cleaner

end Commentary
