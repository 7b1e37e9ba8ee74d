import Commentary.Proofs.Comment.Edge

/-!
# Taking an edge off

Where an edge stands, every line loses the symbol that its own text starts with. On a marked line
this is the symbol of the edge. The line behind an opener need not be marked, and then it is left
alone only if no other symbol starts it.
-/

namespace Commentary

namespace Edge

/-! ## One line -/

/-- A line with and without a symbol at its left: the indentation and the run of the symbol go from
a marked line, and nothing goes from a line without a mark. -/
inductive TakenOff (c : Char) : Text → Text → Prop where
  | marked (hc : isSymbol c) (m n : Nat) {rest : Text} (h : rest = [] ∨ rest.head? = some ' ') :
      TakenOff c (Text.spaces m ++ (List.replicate (n + 1) c ++ rest)) rest
  | unmarked {line : Text} (h : ∀ d, ¬ MarkedLeft d (Text.trimStart Text.isSpace line)) :
      TakenOff c line line

/-- A symbol starts a line and does not mark it. -/
def Exposed (line : Text) : Prop :=
  (∃ d, (Text.trimStart Text.isSpace line).head? = some d ∧ isSymbol d) ∧
    ∀ d, ¬ MarkedLeft d (Text.trimStart Text.isSpace line)

variable {c d : Char} {line left t rest : Text} {m n : Nat}

theorem TakenOff.eq_or_mem (h : TakenOff c line left) : left = line ∨ c ∈ line := by
  cases h with
  | marked _ m n _ => exact .inr (by simp)
  | unmarked _ => exact .inl rfl

theorem exists_eq_spaces_append (line : Text) :
    ∃ m, line = Text.spaces m ++ Text.trimStart Text.isSpace line :=
  exists_eq_replicate_append ' ' line

theorem trimStart_spaces_append (h : t.head? ≠ some ' ') :
    Text.trimStart Text.isSpace (Text.spaces m ++ t) = t :=
  dropWhile_replicate_append h

theorem dropLeft_of_not_isSymbol
    (h : ∀ d, (Text.trimStart Text.isSpace line).head? = some d → ¬ isSymbol d) :
    dropLeft line = line := by
  rw [dropLeft]
  split
  · rfl
  · next d t ht =>
      rw [ht] at h
      exact if_neg (h d rfl)

/-- A line loses its indentation and the run of the symbol that it starts with. -/
theorem dropLeft_spaces_append (hc : isSymbol c) (hrest : rest.head? ≠ some c) :
    dropLeft (Text.spaces m ++ (List.replicate (n + 1) c ++ rest)) = rest := by
  have hhead : (List.replicate (n + 1) c ++ rest).head? ≠ some ' ' := by
    simpa [List.replicate_succ] using ne_space_of_isSymbol hc
  rw [dropLeft, trimStart_spaces_append hhead, List.replicate_succ, List.cons_append]
  dsimp only
  rw [if_pos hc, dropWhile_replicate_append hrest]

theorem exists_of_head?_eq_some (h : (Text.trimStart Text.isSpace line).head? = some d) :
    ∃ m n rest, line = Text.spaces m ++ (List.replicate (n + 1) d ++ rest) ∧
      rest.head? ≠ some d := by
  obtain ⟨m, hm⟩ := exists_eq_spaces_append line
  obtain ⟨t, ht⟩ := List.head?_eq_some_iff.mp h
  obtain ⟨n, hn⟩ := exists_eq_replicate_append d t
  refine ⟨m, n, t.dropWhile (· = d), ?_, ?_⟩
  · rw [List.replicate_succ, List.cons_append, ← hn, ← ht]
    exact hm
  · intro hhead
    have hnot := List.head?_dropWhile_not (fun e => decide (e = d)) t
    rw [hhead] at hnot
    simp at hnot

theorem markedLeft_spaces_append (hc : isSymbol c) (h : rest = [] ∨ rest.head? = some ' ') :
    MarkedLeft c
      (Text.trimStart Text.isSpace (Text.spaces m ++ (List.replicate (n + 1) c ++ rest))) := by
  have hhead : (List.replicate (n + 1) c ++ rest).head? ≠ some ' ' := by
    simpa [List.replicate_succ] using ne_space_of_isSymbol hc
  rw [trimStart_spaces_append hhead]
  exact ⟨hc, n, rest, rfl, h⟩

theorem takenOff_dropLeft_of_marked (h : MarkedLeft c (Text.trimStart Text.isSpace line)) :
    TakenOff c line (dropLeft line) := by
  obtain ⟨hc, n, rest, hrun, hrest⟩ := h
  obtain ⟨m, hm⟩ := exists_eq_spaces_append line
  rw [hm, hrun, dropLeft_spaces_append hc (head?_ne_of_isSymbol hc hrest)]
  exact .marked hc m n hrest

/-- A symbol that starts a line goes with its run, whether it marks the line or not. -/
theorem Exposed.exists_dropLeft (h : Exposed line) :
    ∃ d m n, isSymbol d ∧ line = Text.spaces m ++ (List.replicate (n + 1) d ++ dropLeft line) := by
  obtain ⟨⟨d, hhead, hd⟩, -⟩ := h
  obtain ⟨m, n, rest, hline, hrest⟩ := exists_of_head?_eq_some hhead
  refine ⟨d, m, n, hd, ?_⟩
  conv_rhs => rw [hline, dropLeft_spaces_append hd hrest]
  exact hline

/-- Nothing but the edge goes from a line, unless a symbol starts it that does not mark it. -/
theorem takenOff_dropLeft_iff
    (h : (∀ d, ¬ MarkedLeft d (Text.trimStart Text.isSpace line)) ∨
      MarkedLeft c (Text.trimStart Text.isSpace line)) :
    TakenOff c line (dropLeft line) ↔ ¬ Exposed line := by
  constructor
  · intro htaken hexposed
    obtain ⟨d, m, n, -, hline⟩ := hexposed.exists_dropLeft
    generalize dropLeft line = left at htaken hline
    cases htaken with
    | marked hc m n hrest => exact hexposed.2 c (markedLeft_spaces_append hc hrest)
    | unmarked _ =>
        have hlength := congrArg List.length hline
        simp only [List.length_append, List.length_replicate] at hlength
        omega
  · intro hexposed
    rcases h with hnone | hmarked
    · have hstart : ∀ d, (Text.trimStart Text.isSpace line).head? = some d → ¬ isSymbol d :=
        fun d hhead hd => hexposed ⟨⟨d, hhead, hd⟩, hnone⟩
      rw [dropLeft_of_not_isSymbol hstart]
      exact .unmarked hnone
    · exact takenOff_dropLeft_of_marked hmarked

end Edge

/-- What cleaning makes of a line when its left edge is gone. -/
def Frame.finish (f : Frame) (inSection : Bool) (t : Text) : Text :=
  let t := if f.right.isSome then Edge.dropRight t else t
  if Rule.isIndentedRule t && !inSection then [] else t

namespace Cleaner

open Edge

variable {settings : Settings} {opener : Option Text} {lines : List Text} {c : Char}

theorem cleanLine_of_left {frame : Frame} (h : frame.left = some c) (inSection : Bool)
    {line : Text} (hrule : Rule.isIndentedRule line = false) :
    cleanLine frame inSection line = frame.finish inSection (dropLeft line) := by
  simp [cleanLine, Frame.finish, Frame.strip, Frame.isDrawn, h, hrule]

/-- Where a left edge stands, only a first line behind an opener with the same symbol can have
content without being marked. -/
theorem marked_or_of_left (h : ((behind settings opener).frame lines).left = some c) {n : Nat}
    {line : Text} (hline : (lines.map (behind settings opener).prepare)[n]? = some line)
    (hrule : Rule.isIndentedRule line = false) :
    MarkedLeft c (Text.trimStart Text.isSpace line) ∨
      (∀ d, ¬ MarkedLeft d (Text.trimStart Text.isSpace line)) ∧
        (Text.trimStart Text.isSpace line ≠ [] →
          n = 0 ∧ ∃ o, opener = some o ∧ o.getLast? = some c) := by
  have hedge := (left_frame_behind_iff lines).mp h
  by_cases hnil : Text.trimStart Text.isSpace line = []
  · refine .inr ⟨fun d => ?_, fun hne => absurd hnil hne⟩
    rw [← leftSymbol?_eq_some_iff, hnil]
    exact nofun
  · have hbare : (lines.map (behind settings opener).bare)[n]? =
        some (Text.trimStart Text.isSpace line) := by
      rw [List.getElem?_map, Option.map_eq_some_iff] at hline
      obtain ⟨raw, hraw, rfl⟩ := hline
      simp [hraw, bare]
    rcases hedge.marked n _ hbare ⟨hnil, hrule⟩ with hmarked | ⟨hn, hnone, hopener⟩
    · exact .inl hmarked
    · exact .inr ⟨hnone, fun _ => ⟨hn, hopener⟩⟩

/-- Where a left edge stands, rules are blanked or kept as a whole, and every other line loses the
edge and nothing else, unless a symbol starts it that does not mark it. Only the first line behind
an opener that ends with the symbol of the edge can be such a line, and it loses that other symbol
and its indentation. -/
theorem takenOff_iff_not_exposed
    (h : ((behind settings opener).frame lines).left = some c) :
    let cleaner := behind settings opener
    let cleaned := cleaner.clean lines
    ∀ n line, (lines.map cleaner.prepare)[n]? = some line →
      if Rule.isIndentedRule line then
        cleaned[n]? = some (if Verbatim.inside cleaned n then line else [])
      else ∃ left,
        cleaned[n]? = some ((cleaner.frame lines).finish (Verbatim.inside cleaned n) left) ∧
        (TakenOff c line left ↔ ¬ Exposed line) ∧
        (Exposed line → (n = 0 ∧ ∃ o, opener = some o ∧ o.getLast? = some c) ∧
          ∃ d m k, isSymbol d ∧ line = Text.spaces m ++ (List.replicate (k + 1) d ++ left)) := by
  intro cleaner cleaned n line hline
  rw [getElem?_clean cleaner, hline, Option.map_some]
  split_ifs with hrule hinside
  · simp [cleanLine, hrule, cleaned, hinside]
  · simp [cleanLine, hrule, cleaned, hinside]
  · rw [Bool.not_eq_true] at hrule
    have hcases := marked_or_of_left h hline hrule
    refine ⟨dropLeft line, congrArg some (cleanLine_of_left h _ hrule),
      takenOff_dropLeft_iff (by grind), fun hexposed => ⟨?_, hexposed.exists_dropLeft⟩⟩
    rcases hcases with hmarked | ⟨-, hfirst⟩
    · exact absurd hmarked (hexposed.2 c)
    · obtain ⟨d, hhead, -⟩ := hexposed.1
      exact hfirst fun hnil => by simp [hnil] at hhead

/-- A line of a comment with stars down its left, where the first line has none. -/
theorem takenOff_starred :
    let cleaner := behind {} (some "/*".toList)
    let lines := ["   Function: Add".toList, " * Adds two numbers.".toList, " *".toList]
    let cleaned := cleaner.clean lines
    let line := " * Adds two numbers.".toList
    (cleaner.frame lines).left = some '*' ∧ (lines.map cleaner.prepare)[1]? = some line ∧
      ∃ left,
        cleaned[1]? = some ((cleaner.frame lines).finish (Verbatim.inside cleaned 1) left) ∧
        TakenOff '*' line left := by
  intro cleaner lines cleaned line
  have h : (cleaner.frame lines).left = some '*' := by decide
  have hline : (lines.map cleaner.prepare)[1]? = some line := by decide
  have hmarked : ¬ Exposed line := fun hexposed =>
    hexposed.2 '*' (leftSymbol?_eq_some_iff.mp (by decide))
  have htaken := takenOff_iff_not_exposed h 1 line hline
  rw [if_neg (by decide)] at htaken
  obtain ⟨left, hcleaned, hiff, -⟩ := htaken
  exact ⟨h, hline, left, hcleaned, hiff.mpr hmarked⟩

/-- The parenthesis at the start of a first line is taken for an edge. -/
theorem not_takenOff_parenthesis :
    let cleaner := behind {} (some "/*".toList)
    let lines := ["   (see) x".toList, " * Adds".toList]
    (cleaner.frame lines).left = some '*' ∧
      cleaner.clean lines = ["see) x".toList, " Adds".toList] ∧
      ¬ TakenOff '*' "   (see) x".toList "see) x".toList := by
  refine ⟨by decide, by decide, fun h => ?_⟩
  exact absurd h.eq_or_mem (by decide)

end Cleaner

end Commentary
